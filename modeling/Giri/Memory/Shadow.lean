/-
Giri.Memory.Shadow — the shadow memory (`shadow/memory.go`) and the arena
calls of the interpreter (`handleArenaNew`, `handleArenaFree`, `execCall`).

Sizes and offsets are Go's `int`, 64 bits, and every sum of them may wrap.
`InitBits` is a bitmap with a bit for every byte; indexing it out of range is
a run-time panic of giri itself, which is `none` here. How much memory the
host has for bitmaps is not modelled.

Allocation and arena IDs come from 64-bit counters that nothing here makes
wrap, so they are unbounded. Locks are left out: the goroutines of the
interpreted program take turns.

`Op` and `step` put the calls of an interpreted program together, with the
violations that the interpreter records.
-/
import Mathlib.Algebra.Ring.Int.Defs
import Giri.Detector.Race
import Giri.Lib.HostMap
import Giri.Lib.Transition

namespace Giri.Shadow

open Detector (AccessKind)
open HostMap (Host)

/-- `ArenaID`. -/
abbrev ArenaID : Type := Nat

inductive AllocKind where
  | heap
  | stack
  | arena
  | global
  | unsafePointer
  deriving DecidableEq, Repr

/-- `AccessRecord`. -/
structure AccessRecord where
  kind : AccessKind
  offset : Int64
  size : Int64
  site : String
  goroutine : Gid
  deriving DecidableEq, Repr

/-- `Allocation`. `initBits` and `accessLog` may be nil. -/
structure Allocation where
  id : AllocID
  kind : AllocKind
  size : Int64
  /-- Zero if it is in no arena. -/
  arena : ArenaID := 0
  allocSite : String
  typeName : String
  freed : Bool := false
  freeSite : String := ""
  initBits : Option (List (BitVec 64)) := none
  accessLog : Option (List AccessRecord) := none
  deriving DecidableEq, Repr

/-- `Pointer`. `derivedFrom` is the chain of the pointers it was derived
from, the last first. -/
structure Pointer where
  alloc : AllocID
  offset : Int64
  derivedFrom : List (AllocID × Int64) := []
  deriving DecidableEq, Repr

/-- `ArenaState`. -/
structure ArenaState where
  id : ArenaID
  freed : Bool := false
  createSite : String
  freeSite : String := ""
  allocations : List AllocID := []
  deriving DecidableEq, Repr

/-- The options of `NewMemory`. -/
structure Options where
  verbose : Bool := false
  trackInit : Bool := false
  deriving DecidableEq, Repr

/-- `Memory`. -/
structure Memory where
  allocations : AList fun _ : AllocID => Allocation := ∅
  nextAlloc : Nat := 0
  arenas : AList fun _ : ArenaID => ArenaState := ∅
  nextArena : Nat := 0
  pointers : AList fun _ : String => Pointer := ∅
  opts : Options := {}

/-- The errors of `shadow/errors.go` that the memory returns. -/
inductive MemError where
  | useAfterFree (allocID : AllocID) (allocSite freeSite accessSite : String) (arenaID : ArenaID)
      (typeName : String)
  | doubleFree (allocID : AllocID) (firstFree secondFree allocSite : String)
  | arenaDoubleFree (arenaID : ArenaID) (firstFree secondFree createSite : String)
  | outOfBounds (allocID : AllocID) (allocSize offset accessSize : Int64) (site typeName : String)
  | uninitializedRead (allocID : AllocID) (offset : Int64) (site typeName : String)
  | invalidAccess (kind site details : String)
  /-- `fmt.Errorf`. -/
  | text (msg : String)
  deriving DecidableEq, Repr

namespace Memory

variable (m : Memory)

/-- An allocation is changed in place. -/
def setAllocation (id : AllocID) (al : Allocation) : Memory :=
  { m with allocations := m.allocations.insert id al }

def setArena (a : ArenaID) (ar : ArenaState) : Memory :=
  { m with arenas := m.arenas.insert a ar }

/-! ## Allocations -/

/-- `make([]uint64, (size+63)/64)`, which panics if the length is negative. -/
def makeInitBits (size : Int64) : Option (List (BitVec 64)) :=
  let words := (size + 63) / 64
  if words < 0 then none else some (List.replicate words.toNatClampNeg 0)

/-- `Allocate`. -/
def allocate (kind : AllocKind) (size : Int64) (typeName site : String) :
    Option (AllocID × Memory) :=
  let id := m.nextAlloc + 1
  let al : Allocation :=
    { id, kind, size, typeName, allocSite := site
      accessLog := if m.opts.verbose then some [] else none }
  if m.opts.trackInit then
    match makeInitBits size with
    | none => none
    | some bits =>
      some (id, { m.setAllocation id { al with initBits := some bits } with nextAlloc := id })
  else some (id, { m.setAllocation id al with nextAlloc := id })

/-- `AllocateInArena`. -/
def allocateInArena (arenaID : ArenaID) (size : Int64) (typeName site : String) :
    Option (AllocID × Memory) :=
  match m.allocate .arena size typeName site with
  | none => none
  | some (id, m) =>
    let m := match m.allocations.lookup id with
      | some al => m.setAllocation id { al with arena := arenaID }
      | none => m
    match m.arenas.lookup arenaID with
    | some ar => some (id, m.setArena arenaID { ar with allocations := ar.allocations ++ [id] })
    | none => some (id, m)

/-- `Free`. -/
def free (id : AllocID) (site : String) : Memory × Option MemError :=
  match m.allocations.lookup id with
  | none => (m, some (.text s!"free of unknown allocation {id} at {site}"))
  | some al =>
    if al.freed then (m, some (.doubleFree id al.freeSite site al.allocSite))
    else (m.setAllocation id { al with freed := true, freeSite := site }, none)

/-- `Poison`; also what `FreeArena` does to an allocation. -/
def poison (id : AllocID) (site : String) : Memory :=
  match m.allocations.lookup id with
  | none => m
  | some al => if al.freed then m else m.setAllocation id { al with freed := true, freeSite := site }

/-- Several allocations are poisoned, one after the other. -/
def poisonAll (site : String) : Memory → List AllocID → Memory
  | m, [] => m
  | m, id :: ids => poisonAll site (m.poison id site) ids

/-! ## Arenas -/

/-- `CreateArena`. -/
def createArena (site : String) : ArenaID × Memory :=
  let id := m.nextArena + 1
  (id, { m.setArena id { id, createSite := site } with nextArena := id })

/-- `FreeArena`. -/
def freeArena (a : ArenaID) (site : String) : Memory × List MemError :=
  match m.arenas.lookup a with
  | none => (m, [.text s!"free of unknown arena {a} at {site}"])
  | some ar =>
    if ar.freed then (m, [.arenaDoubleFree a ar.freeSite site ar.createSite])
    else
      (poisonAll (site ++ " (via arena.Free)")
        (m.setArena a { ar with freed := true, freeSite := site }) ar.allocations, [])

/-! ## Pointers -/

/-- `TrackPointer`. -/
def trackPointer (valueID : String) (p : Pointer) : Memory :=
  { m with pointers := m.pointers.insert valueID p }

/-- `DerivePointer`. -/
def derivePointer (base : Pointer) (offsetDelta : Int64) : Pointer :=
  ⟨base.alloc, base.offset + offsetDelta, (base.alloc, base.offset) :: base.derivedFrom⟩

/-! ## Accesses -/

/-- `bits[word]`. -/
def index (bits : List (BitVec 64)) (word : Int64) : Option (BitVec 64) :=
  if word < 0 then none else bits[word.toNatClampNeg]?

/-- `1 << uint(byteIdx % 64)`: the remainder of a negative index is negative,
and a large shift leaves nothing. -/
def bitOf (byteIdx : Int64) : BitVec 64 :=
  let bit := (byteIdx % 64).toUInt64
  if bit < 64 then BitVec.twoPow 64 bit.toNat else 0

/-- The condition of the error in the loop of `CheckAccess`. -/
def isUninitialized (bits : List (BitVec 64)) (byteIdx : Int64) : Option Bool :=
  let word := byteIdx / 64
  if word.toInt < bits.length then
    (index bits word).map fun bitset => decide (bitset &&& bitOf byteIdx = 0)
  else some false

/-- The loop of `CheckAccess` over the bytes of a read, `n` of them from the
`i`-th: the first byte that is not initialized. -/
def findUninitialized (bits : List (BitVec 64)) (offset : Int64) : Nat → Nat → Option (Option Int64)
  | _, 0 => some none
  | i, n + 1 =>
    let byteIdx := offset + Int64.ofNat i
    match isUninitialized bits byteIdx with
    | none => none
    | some true => some (some byteIdx)
    | some false => findUninitialized bits offset (i + 1) n

/-- The initialization check of `CheckAccess`. -/
def checkInit (p : Pointer) (size : Int64) (kind : AccessKind) (site : String) (al : Allocation) :
    Option (Option MemError) :=
  match kind, m.opts.trackInit, al.initBits with
  | .read, true, some bits =>
    match findUninitialized bits p.offset 0 size.toNatClampNeg with
    | none => none
    | some none => some none
    | some (some byteIdx) => some (some (.uninitializedRead al.id byteIdx site al.typeName))
  | _, _, _ => some none

/-- The access log of verbose mode. -/
def logAccess (p : Pointer) (al : Allocation) (rec : AccessRecord) : Memory :=
  match m.opts.verbose, al.accessLog with
  | true, some log => m.setAllocation p.alloc { al with accessLog := some (log ++ [rec]) }
  | _, _ => m

/-- `CheckAccess`. -/
def checkAccess (p : Pointer) (size : Int64) (kind : AccessKind) (site : String) (goroutine : Gid) :
    Option (Option MemError × Memory) :=
  match m.allocations.lookup p.alloc with
  | none =>
    some (some (.invalidAccess "dangling pointer" site
      s!"pointer references unknown allocation {p.alloc}"), m)
  | some al =>
    if al.freed then
      some (some (.useAfterFree al.id al.allocSite al.freeSite site al.arena al.typeName), m)
    else if p.offset < 0 ∨ p.offset + size > al.size then
      some (some (.outOfBounds al.id al.size p.offset size site al.typeName), m)
    else
      match m.checkInit p size kind site al with
      | none => none
      | some (some err) => some (some err, m)
      | some none => some (none, m.logAccess p al ⟨kind, p.offset, size, site, goroutine⟩)

/-- The body of the loop of `MarkInitialized`. -/
def markByte (bits : List (BitVec 64)) (byteIdx : Int64) : Option (List (BitVec 64)) :=
  let word := byteIdx / 64
  if word.toInt < bits.length then
    (index bits word).map fun bitset => bits.set word.toNatClampNeg (bitset ||| bitOf byteIdx)
  else some bits

/-- The loop of `MarkInitialized`, `n` bytes from the `i`-th. -/
def markBits (offset : Int64) : List (BitVec 64) → Nat → Nat → Option (List (BitVec 64))
  | bits, _, 0 => some bits
  | bits, i, n + 1 =>
    match markByte bits (offset + Int64.ofNat i) with
    | none => none
    | some bits => markBits offset bits (i + 1) n

/-- `MarkInitialized`. -/
def markInitialized (id : AllocID) (offset size : Int64) : Option Memory :=
  match m.opts.trackInit, m.allocations.lookup id with
  | true, some al =>
    match al.initBits with
    | none => some m
    | some bits =>
      match markBits offset bits 0 size.toNatClampNeg with
      | none => none
      | some bits => some (m.setAllocation id { al with initBits := some bits })
  | _, _ => some m

/-- The calls of a history that arenas have no part in. -/
inductive Call where
  | allocate (kind : AllocKind) (size : Int64) (typeName site : String)
  | free (id : AllocID) (site : String)
  | markInitialized (id : AllocID) (offset size : Int64)
  | derivePointer (base : Pointer) (offsetDelta : Int64)
  | checkAccess (p : Pointer) (size : Int64) (kind : AccessKind) (site : String)
  deriving DecidableEq, Repr

/-- A call, on behalf of the goroutine `gid`. -/
def call (gid : Gid) : Call → Option (Memory × Option MemError)
  | .allocate kind size typeName site => (m.allocate kind size typeName site).map fun r => (r.2, none)
  | .free id site => some (m.free id site)
  | .markInitialized id offset size => (m.markInitialized id offset size).map fun m => (m, none)
  | .derivePointer _ _ => some (m, none)
  | .checkAccess p size kind site =>
    (m.checkAccess p size kind site gid).map fun r => (r.2, r.1)

/-- A history of calls. -/
def calls (opts : Options) (history : List (Gid × Call)) : Option Memory :=
  Transition.exec (fun m (gid, c) => (m.call gid c).map (·.1)) { opts } history

/-! ## Statistics -/

end Memory

/-- `MemoryStats`. -/
structure MemoryStats where
  totalAllocations : Nat
  liveAllocations : Nat := 0
  freedAllocations : Nat := 0
  liveBytes : Int64 := 0
  totalArenas : Nat
  liveArenas : Nat := 0
  trackedPointers : Nat
  deriving DecidableEq, Repr

namespace MemoryStats

def addAllocation (stats : MemoryStats) (al : Allocation) : MemoryStats :=
  if al.freed then { stats with freedAllocations := stats.freedAllocations + 1 }
  else
    { stats with
      liveAllocations := stats.liveAllocations + 1
      liveBytes := stats.liveBytes + al.size }

def addArena (stats : MemoryStats) (ar : ArenaState) : MemoryStats :=
  if ar.freed then stats else { stats with liveArenas := stats.liveArenas + 1 }

end MemoryStats

/-- `Stats`, whose loops visit the maps in the host's order. -/
def Memory.stats (h : Host) (m : Memory) : MemoryStats :=
  let stats : MemoryStats :=
    { totalAllocations := m.allocations.entries.length
      totalArenas := m.arenas.entries.length
      trackedPointers := m.pointers.entries.length }
  let stats := (h.order 0 m.allocations.entries).foldl (fun stats e => stats.addAllocation e.2) stats
  (h.order 1 m.arenas.entries).foldl (fun stats e => stats.addArena e.2) stats

/-! ## The interpreter -/

/-- The interpreter around its memory. `made` is a history variable: what
`arena.New` has allocated, and in which arena. -/
structure Interp where
  memory : Memory := {}
  violations : List (Gid × MemError) := []
  made : List (ArenaID × AllocID) := []

namespace Interp

variable (s : Interp) (gid : Gid)

def recordViolations (errs : List MemError) : Interp :=
  { s with violations := s.violations ++ errs.map (gid, ·) }

/-- `handleAlloc`: every type has 8 bytes. -/
def handleAlloc (typeName site : String) (isArena : Bool) (arenaID : ArenaID) :
    Option (Pointer × Interp) :=
  if isArena ∧ arenaID ≠ 0 then
    (s.memory.allocateInArena arenaID 8 typeName site).map fun (id, m) =>
      (⟨id, 0, []⟩, { s with memory := m, made := s.made ++ [(arenaID, id)] })
  else
    (s.memory.allocate .heap 8 typeName site).map fun (id, m) => (⟨id, 0, []⟩, { s with memory := m })

/-- `handleArenaNew`, for a value that `resolveArenaID` has looked at, and
the violation that `execCall` records for its error. -/
def handleArenaNew (trackArenas : Bool) (arenaVal : Option ArenaID) (typeName site : String) :
    Option (Option Pointer × Interp) :=
  if trackArenas then
    match arenaVal with
    | none => some (none, s.recordViolations gid [.text s!"arena.New with non-arena value at {site}"])
    | some a =>
      match s.memory.arenas.lookup a with
      | none => some (none, s.recordViolations gid [.text s!"arena.New with unknown arena at {site}"])
      | some ar =>
        if ar.freed then
          some (none, s.recordViolations gid [.useAfterFree 0 "" ar.freeSite site a ""])
        else (s.handleAlloc typeName site true a).map fun (p, s) => (some p, s)
  else (s.handleAlloc typeName site false 0).map fun (p, s) => (some p, s)

/-- `arena.Free`, called by `execCall`. -/
def callArenaFree (arenaVal : Option ArenaID) (site : String) : Interp :=
  match arenaVal with
  | none => s
  | some a =>
    let (m, errs) := s.memory.freeArena a site
    { s with memory := m }.recordViolations gid errs

/-- `handleArenaFree`: the same, deferred. -/
def handleArenaFree (trackArenas : Bool) (arenaVal : Option ArenaID) (site : String) : Interp :=
  if trackArenas then s.callArenaFree gid arenaVal site else s

/-- `executeDeferred`, of a `Free`. A callee in the standard library goes to
`execStdlibCall` first. It has no case for the package `arena` and stubs the
call, so that only a callee of the program itself gets to `handleArenaFree`. -/
def executeDeferredFree (stdlib trackArenas : Bool) (arenaVal : Option ArenaID) (site : String) :
    Interp :=
  if stdlib then s else s.handleArenaFree gid trackArenas arenaVal site

/-- What an interpreted program does to the memory. -/
inductive Op where
  | newArena (site : String)
  | arenaNew (arenaVal : Option ArenaID) (typeName site : String)
  | memory (c : Memory.Call)
  /-- `popFrame`, with the `StackAllocs` of the frame. -/
  | popFrame (stackAllocs : List AllocID) (frameSite : String)
  | arenaFree (arenaVal : Option ArenaID) (site : String)
  /-- `defer a.Free()`, with `stdlib`, or `defer p.Free(a)` of the program's own. -/
  | deferredFree (stdlib : Bool) (arenaVal : Option ArenaID) (site : String)
  | trackPointer (valueID : String) (p : Pointer)
  deriving DecidableEq, Repr

/-- One operation, by the goroutine `gid`. -/
def step (trackArenas : Bool) : Interp → Gid × Op → Option Interp
  | s, (_, .newArena site) => some { s with memory := (s.memory.createArena site).2 }
  | s, (gid, .arenaNew arenaVal typeName site) =>
    (s.handleArenaNew gid trackArenas arenaVal typeName site).map (·.2)
  | s, (gid, .memory c) =>
    (s.memory.call gid c).map fun (m, err) => { s with memory := m }.recordViolations gid err.toList
  | s, (_, .popFrame stackAllocs frameSite) =>
    some { s with memory := s.memory.poisonAll (frameSite ++ " (stack frame exited)") stackAllocs }
  | s, (gid, .arenaFree arenaVal site) => some (s.callArenaFree gid arenaVal site)
  | s, (gid, .deferredFree stdlib arenaVal site) =>
    some (s.executeDeferredFree gid stdlib trackArenas arenaVal site)
  | s, (_, .trackPointer valueID p) => some { s with memory := s.memory.trackPointer valueID p }

/-- A sequence of operations, with a memory with the given options. -/
def run (trackArenas : Bool) (opts : Options) (ops : List (Gid × Op)) : Option Interp :=
  Transition.exec (step trackArenas) { memory := { opts } } ops

end Interp

end Giri.Shadow
