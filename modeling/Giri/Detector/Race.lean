/-
Giri.Detector.Race — the data-race detector (`pkg/detector/detector.go`,
`RaceDetector`).

The detector is handed the LIVE clock map of the accessing goroutine, a
reference the interpreter keeps writing to after the call. It stores
references to maps of its own. So the model has a heap: a `MapRef` is
either a map of the callers or a map the detector made in `snapshot`, an
`accessEntry` stores a reference, and every comparison reads the heap at
the time it is made. An entry that stored the caller's reference instead
of a copy would be expressible, and would change under the detector.

A run of the detector is a list of `Call`s. Each call carries the whole
contents of the callers' maps at its time, so between two calls the
callers may have rewritten any of their maps in any way.
-/
import Giri.Basic

namespace Giri.Detector

open VectorClock

/-! ## Shadow-memory types the detector uses -/

/-- `shadow.AccessKind`. -/
inductive AccessKind where
  | read
  | write
  deriving DecidableEq, Repr

/-- `shadow.Pointer`, without its derivation chain (`RaceDetector` does
not read it). The offset is a Go `int`. -/
structure Pointer where
  alloc : AllocID
  offset : Int64
  deriving DecidableEq, Repr

/-- What `Memory.GetAllocation` tells the race detector: the type name of
an allocation that exists. -/
abbrev TypeNames : Type := AllocID → Option String

/-- `shadow.DataRaceError`. -/
structure DataRaceError where
  allocID : AllocID
  offset : Int64
  write1Site : String
  write1Goroutine : Gid
  write2Site : String
  write2Goroutine : Gid
  typeName : String
  deriving DecidableEq, Repr

/-! ## Clock maps by reference -/

/-- A reference to a clock map: one of the callers' maps, or one made by
`RaceDetector.snapshot`. -/
inductive MapRef where
  | caller (n : Nat)
  | snapshot (n : Nat)
  deriving DecidableEq, Repr

/-- The maps that exist: the callers' (rewritten at will between calls)
and the detector's own, in order of creation. -/
structure Heap where
  callers : Nat → Clock
  snapshots : List Clock

variable (mem : TypeNames) (d : RaceDetector) (h : Heap) (a : Access)

/-- The map behind a reference. -/
def Heap.read : MapRef → Clock
  | .caller n => h.callers n
  | .snapshot n => (h.snapshots[n]?).getD ∅

/-- The map behind a reference that may be nil. A nil map has no entries. -/
def Heap.readNil : Option MapRef → Clock
  | some r => h.read r
  | none => ∅

/-! ## The detector -/

/-- `accessKey`. -/
structure AccessKey where
  allocID : AllocID
  offset : Int64
  deriving DecidableEq, Repr

/-- `accessEntry`. -/
structure AccessEntry where
  kind : AccessKind
  goroutine : Gid
  site : String
  clock : MapRef
  deriving DecidableEq, Repr

/-- `RaceDetector`. -/
structure RaceDetector where
  lastWrite : AList fun _ : AccessKey => AccessEntry
  lastRead : AList fun _ : AccessKey => AccessEntry
  snap : Option MapRef
  snapGID : Gid
  dormant : Bool

/-- `NewRaceDetector`. -/
def newRaceDetector : RaceDetector where
  lastWrite := ∅
  lastRead := ∅
  snap := none
  snapGID := 0
  dormant := false

/-- `happensBefore`: every component of `a` is at most `b`'s, and `a` is
not empty. -/
def happensBefore (a b : Clock) : Bool :=
  if a.entries.length = 0 then false else Clock.leEntries a b

/-- `RaceDetector.concurrent`, at the given contents of the maps. -/
def concurrent (last : AccessEntry) (goroutine : Gid) (clock : Option MapRef) : Bool :=
  last.goroutine != goroutine &&
    !happensBefore (h.read last.clock) (h.readNil clock) &&
    !happensBefore (h.readNil clock) (h.read last.clock)

/-- The element-wise comparison of `snapshot`: equal lengths, and every
entry of `clock` is in `snap` with the same value. -/
def sameEntries (snap clock : Clock) : Bool :=
  snap.entries.length == clock.entries.length &&
    clock.entries.all fun e => snap.lookup e.1 == some e.2

/-- `RaceDetector.snapshot`: reuse the previous copy when it was taken for
the same goroutine and is element-wise equal, else copy the map. -/
def RaceDetector.snapshot (d : RaceDetector) (h : Heap) (goroutine : Gid)
    (clock : Option MapRef) : MapRef × RaceDetector × Heap :=
  let copy := (MapRef.snapshot h.snapshots.length,
    { d with snap := some (.snapshot h.snapshots.length), snapGID := goroutine },
    { h with snapshots := h.snapshots ++ [h.readNil clock] })
  match d.snap with
  | some s =>
    if d.snapGID = goroutine ∧ sameEntries (h.read s) (h.readNil clock) = true then
      (s, d, h)
    else copy
  | none => copy

/-- `raceError`. -/
def raceError (ptr : Pointer) (i : Nat) (last : AccessEntry)
    (site : String) (goroutine : Gid) : DataRaceError where
  allocID := ptr.alloc
  offset := ptr.offset + Int64.ofNat i
  write1Site := last.site
  write1Goroutine := last.goroutine
  write2Site := site
  write2Goroutine := goroutine
  typeName := (mem ptr.alloc).getD "unknown"

/-- The arguments of one `CheckAccess` call, less the shadow memory. The
clock is one of the callers' maps, or nil. -/
structure Access where
  ptr : Pointer
  size : Int
  kind : AccessKind
  site : String
  goroutine : Gid
  clock : Option Nat
  deriving DecidableEq, Repr

/-- The clock argument as a reference. -/
def Access.ref : Option MapRef := a.clock.map .caller

/-- The key of byte `i` of an access; the addition is 64-bit. -/
def Access.key (i : Nat) : AccessKey :=
  ⟨a.ptr.alloc, a.ptr.offset + Int64.ofNat i⟩

/-- The recorded access that byte `i` of `a` is unordered with, if any: the
last write of the byte, and for a write the last read of it. -/
def RaceDetector.conflict (i : Nat) : Option AccessEntry :=
  match (d.lastWrite.lookup (a.key i)).filter
      (fun last => concurrent h last a.goroutine a.ref) with
  | some last => some last
  | none =>
    if a.kind = .write then
      (d.lastRead.lookup (a.key i)).filter
        (fun last => concurrent h last a.goroutine a.ref)
    else none

/-- Record byte `i` of `a`. A write makes the byte's last read forgotten. -/
def RaceDetector.record (snap : MapRef) (i : Nat) : RaceDetector :=
  let entry : AccessEntry := ⟨a.kind, a.goroutine, a.site, snap⟩
  if a.kind = .write then
    { d with lastWrite := d.lastWrite.insert (a.key i) entry,
             lastRead := d.lastRead.erase (a.key i) }
  else
    { d with lastRead := d.lastRead.insert (a.key i) entry }

/-- The byte loop of `CheckAccess`: `n` bytes from byte `i` on. It returns
at the first byte that is in a race, which is then not recorded. -/
def RaceDetector.checkBytes (h : Heap) (mem : TypeNames) (a : Access) (snap : MapRef) :
    Nat → Nat → RaceDetector → Option DataRaceError × RaceDetector
  | 0, _, d => (none, d)
  | n + 1, i, d =>
    match d.conflict h a i with
    | some last => (some (raceError mem a.ptr i last a.site a.goroutine), d)
    | none => checkBytes h mem a snap n (i + 1) (d.record a snap i)

/-- `RaceDetector.CheckAccess`. -/
def RaceDetector.checkAccess (mem : TypeNames)
    (a : Access) : Option DataRaceError × RaceDetector × Heap :=
  if d.dormant then (none, d, h)
  else
    let (snap, d, h) := d.snapshot h a.goroutine a.ref
    let (err, d) := RaceDetector.checkBytes h mem a snap a.size.toNat 0 d
    (err, d, h)

/-! ## Runs -/

/-- One call of `CheckAccess` and the contents of the callers' maps when
it is made. -/
structure Call where
  access : Access
  callers : Nat → Clock

/-- The clock passed to a call, as it was at the time of the call. -/
def Call.clock (c : Call) : Clock :=
  match c.access.clock with
  | some n => c.callers n
  | none => ∅

/-- The access covers the byte `k`. -/
def Call.Touches (c : Call) (k : AccessKey) : Prop :=
  ∃ i < c.access.size.toNat, c.access.key i = k

/-- One call, made on the detector and its own maps `snapshots`. -/
def Call.run (s : RaceDetector × List Clock) (c : Call) :
    Option DataRaceError × RaceDetector × List Clock :=
  let (err, d, h) := s.1.checkAccess ⟨c.callers, s.2⟩ mem c.access
  (err, d, h.snapshots)

/-- The detector and its maps after a sequence of calls. -/
def after (calls : List Call) : RaceDetector × List Clock :=
  calls.foldl (fun s c => (c.run mem s).2) (newRaceDetector, [])

/-- What call `c` returns when it is made after `calls`. -/
def result (calls : List Call) (c : Call) : Option DataRaceError :=
  (c.run mem (after mem calls)).1

end Giri.Detector
