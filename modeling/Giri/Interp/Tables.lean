/-
Giri.Interp.Tables — the maps of the interpreter that it loops over.

Goroutines and their hosts, vector clocks, pending uintptr conversions,
arenas, cancel functions, and the maps of the program that is interpreted:
each is a Go map, and the order of a `range` over it is the host's
(`Lib/HostMap.lean`). Here is every such loop, as a command that an engine
can give (`Session/Engine.lean`). `time` counts the loops, so that a host may
choose another order each time.

Tables that are only read and written by key are one parameter, `M`.

A key of an interpreted map is what `toMapKey` makes of a value. Strings are
a linear order `St`, and so are the floats that are not NaN, `Fl`, in which
both zeros are one. A NaN is equal to no key: what is stored there can't be
found or deleted, and the model keeps the number of such entries only.

`tangled` is a history variable: a loop has met a map with NaN keys and with
further entries.
-/
import Giri.Detector.Unsafe
import Giri.Sched.Baton
import Giri.Sched.Strategy
import Giri.Session.Engine

namespace Giri.Tables

open HostMap (Host)
open Detector (UnsafeDetector UnsafePointerViolation)
open Sched (Scheduler)
open Session (Recorded Env)
open Effect (Handler)

/-! ## §1. Interpreted maps -/

/-- A key other than NaN. -/
inductive MapKey (Fl St : Type) where
  | bool (b : Bool)
  | int (i : Int)
  | float (x : Fl)
  | str (s : St)
  | nil
  deriving DecidableEq

section Keys

variable {Fl St : Type} [LinearOrder Fl] [LinearOrder St]

/-- The order of kinds in `sortMapKeys`; `none` is a NaN. -/
def rank : Option (MapKey Fl St) → Nat
  | some (.bool _) => 0
  | some (.int _) => 1
  | some (.float _) => 2
  | none => 2
  | some (.str _) => 3
  | some .nil => 4

/-- The comparison of `sortMapKeys`. -/
def keyLess (a b : Option (MapKey Fl St)) : Bool :=
  if rank a ≠ rank b then rank a < rank b
  else
    match a, b with
    | some (.bool x), some (.bool y) => !x && y
    | some (.int x), some (.int y) => x < y
    | some (.float x), some (.float y) => x < y
    | some (.str x), some (.str y) => x < y
    -- a NaN is less than no float, and there is one nil
    | _, _ => false

/-- `sortMapKeys`. -/
def sortMapKeys (keys : List (Option (MapKey Fl St))) : List (Option (MapKey Fl St)) :=
  HostMap.sortStable keyLess keys

end Keys

/-- `map[interface{}]Value`, with the number of its NaN keys. -/
structure GoMap (Fl St V : Type) where
  entries : AList fun _ : MapKey Fl St => V := ∅
  nans : Nat := 0

namespace GoMap

variable {Fl St V : Type} (m : GoMap Fl St V)

/-- `len(m)`. -/
def size : Nat := m.entries.entries.length + m.nans

/-- The keys, in the order that they are listed in. -/
def keys : List (Option (MapKey Fl St)) := m.entries.keys.map some ++ List.replicate m.nans none

variable [DecidableEq Fl] [DecidableEq St]

/-- `m[k] = v`. -/
def update (k : Option (MapKey Fl St)) (v : V) : GoMap Fl St V :=
  match k with
  | some k => { m with entries := m.entries.insert k v }
  | none => { m with nans := m.nans + 1 }

/-- `delete(m, k)`. -/
def delete (k : Option (MapKey Fl St)) : GoMap Fl St V :=
  match k with
  | some k => { m with entries := m.entries.erase k }
  | none => m

/-- `m[k]`. -/
def lookup (k : Option (MapKey Fl St)) : Option V := k.bind m.entries.lookup

/-- `for k := range m { delete(m, k) }`. -/
def clear (h : Host) (n : Nat) : GoMap Fl St V := (h.order n m.keys).foldl (fun m k => m.delete k) m

/-- `for k, v := range src { m[k] = v }`, for another map `src`. -/
def copyFrom (h : Host) (n : Nat) (src : GoMap Fl St V) : GoMap Fl St V where
  entries := HostMap.updateAll (fun _ v => some v) m.entries (h.order n src.entries.entries)
  nans := m.nans + src.nans

end GoMap

/-! ## §2. The tables -/

/-- The fields of `Goroutine` that loops over goroutines look at. -/
structure Goroutine where
  status : Sched.Status := .running
  panicked : Bool := false
  aborted : Bool := false
  spawnSite : String := ""
  blockSite : String := ""
  blockKind : String := ""
  deriving DecidableEq

/-- `g.Panicked = true`. -/
def Goroutine.panic (g : Goroutine) : Goroutine := { g with panicked := true }

/-- `map[int64]uint64`. -/
abbrev Clocks : Type := AList fun _ : Gid => Nat

/-- `shadow.ArenaState`. -/
structure ArenaState where
  createSite : String
  freed : Bool := false
  deriving DecidableEq, Repr

/-- `cancelRecord`. -/
structure CancelRecord where
  site : String
  gid : Gid
  deriving DecidableEq, Repr

/-- Values are `V`, and states of the random generator `γ`. -/
structure World (Fl St V M γ : Type) where
  goroutines : AList fun _ : Gid => Goroutine := ∅
  hosts : AList fun _ : Gid => Unit := ∅
  runQueue : List Gid := []
  halting : Bool := false
  sched : Option (Scheduler γ)
  unsafeDetector : UnsafeDetector := {}
  maps : Nat → GoMap Fl St V := fun _ => {}
  nextMap : Nat := 0
  clocks : Nat → Clocks := fun _ => ∅
  nextClock : Nat := 0
  arenas : AList fun _ : Nat => ArenaState := ∅
  cancelFuncs : AList fun _ : Nat => CancelRecord := ∅
  memory : M
  time : Nat := 0
  tangled : Bool := false

/-- `registry`: there are detectors. `concrete`: concrete mode, in which the
keys of maps are sorted. -/
structure Config where
  registry : Bool := true
  concrete : Bool := true

namespace World

variable {Fl St V M γ : Type} (h : Host) (w : World Fl St V M γ)

/-- A loop over a map has been executed. -/
def looped : World Fl St V M γ := { w with time := w.time + 1 }

/-! ### Goroutines -/

/-- The test of `pickNext` on a host. `ready` says whose `wait` is over. -/
def waitOver (ready : Gid → Bool) (gid : Gid) : Bool :=
  match w.goroutines.lookup gid with
  | some g => g.status == .blocked && !g.aborted && ready gid
  | none => false

/-- `sort.Slice`, of goroutine IDs. -/
def sortIDs (ids : List Gid) : List Gid := HostMap.sortStable (fun a b => decide (a < b)) ids

def setSched (s : Scheduler γ) : World Fl St V M γ := { w with sched := some s }

/-- `pickNext`; `none` stands for -1. -/
def pickNext (rand : Sched.Rand γ) (self : Gid) (ready : Gid → Bool) : Option Gid × World Fl St V M γ :=
  match w.sched with
  | none => (none, w)
  | some s =>
    if w.halting then (none, w)
    else if w.runQueue.length = 0 ∧
        (w.hosts.keys.length = 0 ∨ (w.hosts.keys.length = 1 ∧ self ∈ w.hosts)) then (none, w)
    else
      let waiting := (h.order w.time w.hosts.keys).filter fun id =>
        id != self && w.waitOver ready id
      let (pick, s) := s.next rand (sortIDs (w.runQueue ++ waiting))
      (pick, (w.setSched s).looped)

/-- The goroutines that `abortParked` wakes. -/
def parked (driver : Gid) : List Gid × World Fl St V M γ :=
  if w.hosts.keys.length ≤ 1 then ([], w)
  else (sortIDs ((h.order w.time w.hosts.keys).filter (· != driver)), w.looped)

def haltAll : World Fl St V M γ :=
  { w with
    halting := true
    goroutines := HostMap.updateAll (fun old (_ : Goroutine) => old.map Goroutine.panic)
      w.goroutines (h.order w.time w.goroutines.entries) }.looped

/-- The loop of `reportDeadlock`. -/
def blocked : Nat × World Fl St V M γ :=
  ((h.order w.time w.goroutines.entries).foldl (fun n e =>
      if e.2.status == .blocked && !e.2.panicked && !e.2.aborted then n + 1 else n) 0,
    w.looped)

/-- `forgetGoroutine` for all goroutines, at the end of a call. -/
def forgetAll : World Fl St V M γ :=
  { w with
    goroutines := HostMap.eraseAll w.goroutines (h.order w.time w.goroutines.keys)
    halting := false }.looped

/-! ### Clocks -/

def setClock (r : Nat) (c : Clocks) : World Fl St V M γ :=
  { w with clocks := Function.update w.clocks r c }

/-- `Tick`. -/
def tick (r : Nat) (gid : Gid) : World Fl St V M γ :=
  w.setClock r ((w.clocks r).insert gid (((w.clocks r).lookup gid).getD 0 + 1))

/-- The maximum of two entries, of which the first may be missing. -/
def later (old : Option Nat) (t : Nat) : Option Nat := if old.getD 0 < t then some t else none

/-- `Merge`, `joinClock`, `mergeClock` and the loop of `startGoroutine`: all
merge the clock `src` into `dst`. -/
def mergeClock (dst src : Nat) : World Fl St V M γ :=
  (w.setClock dst (HostMap.updateAll later (w.clocks dst)
    (h.order w.time (w.clocks src).entries))).looped

/-- The loop of `bufferedSend`, over a slice of entries. -/
def mergeEntries (dst src : Nat) : World Fl St V M γ :=
  w.setClock dst (HostMap.updateAll later (w.clocks dst) (w.clocks src).entries)

/-- `snapshotClock`, the copy of `snapshot`, and the slice of entries that a
receive publishes: a new clock. -/
def copyClock (src : Nat) : Nat × World Fl St V M γ :=
  (w.nextClock,
    { w.setClock w.nextClock (HostMap.updateAll (fun _ t => some t) ∅
        (h.order w.time (w.clocks src).entries)) with nextClock := w.nextClock + 1 }.looped)

/-- `happensBefore`. -/
def happensBefore (a b : Nat) : Bool × World Fl St V M γ :=
  if (w.clocks a).keys.length = 0 then (false, w)
  else ((h.order w.time (w.clocks a).entries).all fun e =>
      decide (e.2 ≤ ((w.clocks b).lookup e.1).getD 0), w.looped)

/-- The comparison of `snapshot`. -/
def sameClock (snap clock : Nat) : Bool × World Fl St V M γ :=
  if (w.clocks snap).keys.length = (w.clocks clock).keys.length then
    ((h.order w.time (w.clocks clock).entries).all fun e =>
      (w.clocks snap).lookup e.1 == some e.2, w.looped)
  else (false, w)

/-! ### Interpreted maps -/

def setMap (r : Nat) (m : GoMap Fl St V) : World Fl St V M γ :=
  { w with maps := Function.update w.maps r m }

/-- `make`, or `maps.Clone`. -/
def newMap (m : GoMap Fl St V) : Nat × World Fl St V M γ :=
  (w.nextMap, { w.setMap w.nextMap m with nextMap := w.nextMap + 1 })

/-- The keys that `advance` collects. -/
def rangeKeys [LinearOrder Fl] [LinearOrder St] (cfg : Config) (r : Nat) :
    List (Option (MapKey Fl St)) × World Fl St V M γ :=
  let m := w.maps r
  let keys := h.order w.time m.keys
  (if cfg.concrete then sortMapKeys keys else keys,
    { w with tangled := w.tangled || (2 ≤ m.size && (0 < m.nans || !cfg.concrete)) }.looped)

variable [DecidableEq Fl] [DecidableEq St]

/-- The builtin `clear`. -/
def clearMap (r : Nat) : World Fl St V M γ := (w.setMap r ((w.maps r).clear h w.time)).looped

/-- `maps.Clone`. -/
def cloneMap (r : Nat) : Nat × World Fl St V M γ :=
  let (r', w) := w.newMap (({} : GoMap Fl St V).copyFrom h w.time (w.maps r))
  (r', w.looped)

/-- `maps.Copy`. A loop that adds NaN keys to the map it ranges over may or
may not meet them. -/
def copyMap (dst src : Nat) : World Fl St V M γ :=
  { w.setMap dst ((w.maps dst).copyFrom h w.time (w.maps src)) with
    tangled := w.tangled || (dst = src && 0 < (w.maps src).nans) }.looped

end World

/-! ## §3. Commands -/

/-- Errors: those of loops over pending conversions, and others. -/
inductive Err (X : Type) where
  | unsafePointer (v : UnsafePointerViolation)
  | other (x : X)
  deriving DecidableEq

/-- What an engine may ask for. `K` are call stacks. -/
inductive Query (Fl St V M X K : Type) where
  | getGoroutine (gid : Gid)
  | setGoroutine (gid : Gid) (g : Goroutine)
  | forgetGoroutine (gid : Gid)
  | setHost (gid : Gid)
  | deleteHost (gid : Gid)
  | enqueue (gid : Gid)
  | takeTask (gid : Gid)
  | clearQueue
  | onSpawn (child : Gid)
  | onFinish (gid : Gid)
  | pickNext (self : Gid) (ready : Gid → Bool)
  | parked (driver : Gid)
  | haltAll
  | blocked
  | newClock (gid : Gid)
  | tick (r : Nat) (gid : Gid)
  | mergeClock (dst src : Nat)
  | mergeEntries (dst src : Nat)
  | copyClock (src : Nat)
  | happensBefore (a b : Nat)
  | sameClock (snap clock : Nat)
  | makeMap
  | mapLookup (r : Nat) (k : Option (MapKey Fl St))
  | mapUpdate (r : Nat) (k : Option (MapKey Fl St)) (v : V)
  | mapDelete (r : Nat) (k : Option (MapKey Fl St))
  | mapLen (r : Nat)
  | rangeKeys (r : Nat)
  | clearMap (r : Nat)
  | cloneMap (r : Nat)
  | copyMap (dst src : Nat)
  | recordUintptr (valueID site : String)
  | recordReflect (valueID site : String)
  | clearUintptrs
  /-- `gcSafepoint`. Nothing is recorded for a goroutine that was aborted, or
  on a line with a directive. -/
  | gcSafepoint (site : String) (stack : K) (records : Bool)
  /-- Another violation; a deadlock has no stack. -/
  | violation (x : X) (stack : Option K)
  | newArena (id : Nat) (site : String)
  | freeArena (id : Nat)
  | newCancelFunc (id : Nat) (rec : CancelRecord)
  | callCancelFunc (id : Nat)
  | getMemory
  | setMemory (m : M)

/-- What a command is answered by. -/
def Answer {Fl St V M X K : Type} : Query Fl St V M X K → Type
  | .getGoroutine _ => Option Goroutine
  | .pickNext _ _ => Option Gid
  | .parked _ => List Gid
  | .blocked => Nat
  | .newClock _ | .copyClock _ => Nat
  | .happensBefore _ _ | .sameClock _ _ => Bool
  | .makeMap | .cloneMap _ | .mapLen _ => Nat
  | .mapLookup _ _ => Option V
  | .rangeKeys _ => List (Option (MapKey Fl St))
  | .getMemory => M
  | _ => Unit

section

variable {Fl St V M X K γ : Type} [LinearOrder Fl] [LinearOrder St] (rand : Sched.Rand γ) (cfg : Config) (h : Host)

/-- The errors of `CheckGCPoint`; without detectors there are none. -/
def checkGCPoint (w : World Fl St V M γ) (site : String) : List UnsafePointerViolation :=
  if cfg.registry then w.unsafeDetector.checkGCPoint h w.time site else []

/-- The detector keeps a conversion if there is one. -/
def recordPending (w : World Fl St V M γ) (d : UnsafeDetector) : World Fl St V M γ :=
  if cfg.registry then { w with unsafeDetector := d } else w

def freeArena (w : World Fl St V M γ) (id : Nat) : World Fl St V M γ :=
  match w.arenas.lookup id with
  | some a => { w with arenas := w.arenas.insert id { a with freed := true } }
  | none => w

def handle : Handler (Query Fl St V M X K) Answer (World Fl St V M γ) (Recorded (Err X) K)
  | .getGoroutine gid, w => (w.goroutines.lookup gid, w, [])
  | .setGoroutine gid g, w => ((), { w with goroutines := w.goroutines.insert gid g }, [])
  | .forgetGoroutine gid, w => ((), { w with goroutines := w.goroutines.erase gid }, [])
  | .setHost gid, w => ((), { w with hosts := w.hosts.insert gid () }, [])
  | .deleteHost gid, w => ((), { w with hosts := w.hosts.erase gid }, [])
  | .enqueue gid, w => ((), { w with runQueue := w.runQueue ++ [gid] }, [])
  | .takeTask gid, w => ((), { w with runQueue := Sched.Sys.takeTask w.runQueue gid }, [])
  | .clearQueue, w => ((), { w with runQueue := [] }, [])
  | .onSpawn child, w => ((), { w with sched := w.sched.map (·.onSpawn rand child) }, [])
  | .onFinish gid, w => ((), { w with sched := w.sched.map (·.onFinish gid) }, [])
  | .pickNext self ready, w =>
    let (pick, w) := w.pickNext h rand self ready
    (pick, w, [])
  | .parked driver, w =>
    let (ids, w) := w.parked h driver
    (ids, w, [])
  | .haltAll, w => ((), w.haltAll h, [])
  | .blocked, w =>
    let (n, w) := w.blocked h
    (n, w, [])
  | .newClock gid, w =>
    (w.nextClock, { w.setClock w.nextClock ((∅ : Clocks).insert gid 1) with
      nextClock := w.nextClock + 1 }, [])
  | .tick r gid, w => ((), w.tick r gid, [])
  | .mergeClock dst src, w => ((), w.mergeClock h dst src, [])
  | .mergeEntries dst src, w => ((), w.mergeEntries dst src, [])
  | .copyClock src, w =>
    let (r, w) := w.copyClock h src
    (r, w, [])
  | .happensBefore a b, w =>
    let (ok, w) := w.happensBefore h a b
    (ok, w, [])
  | .sameClock snap clock, w =>
    let (ok, w) := w.sameClock h snap clock
    (ok, w, [])
  | .makeMap, w =>
    let (r, w) := w.newMap {}
    (r, w, [])
  | .mapLookup r k, w => ((w.maps r).lookup k, w, [])
  | .mapUpdate r k v, w => ((), w.setMap r ((w.maps r).update k v), [])
  | .mapDelete r k, w => ((), w.setMap r ((w.maps r).delete k), [])
  | .mapLen r, w => ((w.maps r).size, w, [])
  | .rangeKeys r, w =>
    let (keys, w) := w.rangeKeys h cfg r
    (keys, w, [])
  | .clearMap r, w => ((), w.clearMap h r, [])
  | .cloneMap r, w =>
    let (r, w) := w.cloneMap h r
    (r, w, [])
  | .copyMap dst src, w => ((), w.copyMap h dst src, [])
  | .recordUintptr valueID site, w =>
    ((), recordPending cfg w (w.unsafeDetector.recordUintptrConversion valueID site), [])
  | .recordReflect valueID site, w =>
    ((), recordPending cfg w (w.unsafeDetector.recordReflectConversion valueID site), [])
  | .clearUintptrs, w =>
    ((), (recordPending cfg w
      (w.unsafeDetector.clearAllUintptrConversions h w.time)).looped, [])
  | .gcSafepoint site stack records, w =>
    ((), w.looped, if records then
      (checkGCPoint cfg h w site).map (⟨.unsafePointer ·, some stack⟩) else [])
  | .violation x stack, w => ((), w, [⟨.other x, stack⟩])
  | .newArena id site, w => ((), { w with arenas := w.arenas.insert id { createSite := site } }, [])
  | .freeArena id, w => ((), freeArena w id, [])
  | .newCancelFunc id r, w => ((), { w with cancelFuncs := w.cancelFuncs.insert id r }, [])
  | .callCancelFunc id, w => ((), { w with cancelFuncs := w.cancelFuncs.erase id }, [])
  | .getMemory, w => (w.memory, w, [])
  | .setMemory m, w => ((), { w with memory := m }, [])

/-- A session whose host is `h`. -/
def env (memory : M) (sched : Option (Scheduler γ)) :
    Env (Err X) K M (World Fl St V M γ) (Query Fl St V M X K) Answer where
  world := { sched := sched, memory := memory }
  handle := handle rand cfg h
  gcPoint w site := (checkGCPoint cfg h w site).map .unsafePointer
  -- `CheckGCPoint` of a call that is pure
  passed w := w.looped
  beginSet w := w
  endCall w := w.forgetAll h
  view w := w.memory

end

end Giri.Tables
