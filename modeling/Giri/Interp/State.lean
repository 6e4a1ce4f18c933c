/-
Giri.Interp.State — the part of the interpreter's state that goroutines,
channels and the sync primitives work on (`interpreter.go`, `chan.go`).

The values a program computes and the element types of its channels are
parameters `V` and `T`: nothing here looks inside them except through
`Config`. Go maps are total functions where an absent key reads as a zero
value (`mutexes`), and `Option` valued where the source looks at
presence (`channels`). Pointers to sudogs and select statements become
addresses into `sudogs` and `sels`; both are only ever extended.

Two things are HISTORY, written by the model and read by nothing in it:

* `trace`, the operations that have taken effect, in order;
* `Stamp.src`, which of them a stored clock was published by.

An operation is atomic between two waits (that only one goroutine runs at a
time is `Sched/BatonTheorems.lean`), so the trace is a list.
-/
import Giri.Basic

namespace Giri.Interp

/-- `ChanID`. -/
abbrev ChanID : Type := Nat

/-- The address of a `sudog`. -/
abbrev SudogRef : Type := Nat

/-- The address of a `selectWait`. -/
abbrev SelRef : Type := Nat

/-- A stored vector clock, with the positions in the trace of the releases
it was published by. The clocks of `chan.go` have one; a clock built by
`joinClock` has one for every goroutine joined into it. -/
structure Stamp where
  clock : Clock
  src : List Nat

/-- The releases behind a clock that may be nil. -/
def srcs : Option Stamp → List Nat
  | none => []
  | some st => st.src

/-- A clock after merging a stored one; a nil one changes nothing. -/
def mergeStamp (c : Clock) : Option Stamp → Clock
  | none => c
  | some st => c.merge st.clock

/-- `chanItem`. -/
structure ChanItem (V : Type) where
  val : V
  clock : Option Stamp

/-- `chanEntry`. -/
structure ChanEntry (V : Type) where
  capacity : Nat
  closed : Bool := false
  buf : List (ChanItem V) := []
  recvq : List SudogRef := []
  sendq : List SudogRef := []
  recvClocks : List Stamp := []
  nsent : Nat := 0
  closeClock : Option Stamp := none
  /-- `refill` and `refillVal`: a timer or signal channel, which always
  holds this value. -/
  refill : Option V := none

/-- `sudog`. -/
structure Sudog (V : Type) where
  gid : Gid
  val : V
  clock : Option Stamp
  peer : Option Stamp := none
  done : Bool := false
  sel : Option SelRef := none
  caseIdx : Nat := 0

/-- `selectWait`. -/
structure SelectWait where
  fired : Bool := false
  sg : Option SudogRef := none

/-- `mutexState`. -/
structure MutexState where
  locked : Bool := false
  lockGoroutine : Gid := 0
  readers : Nat := 0
  lastUnlockClock : Option Stamp := none
  rUnlockClock : Option Stamp := none
  wgCounter : Int := 0

/-- The type of a synchronization primitive. -/
inductive PrimKind where
  | mutex
  | rwMutex
  | waitGroup
  | cond
  | errgroup
  deriving DecidableEq, Repr

/-- A synchronization primitive of the program: where it is in memory, and
its type. The interpreter keeps ONE `mutexState` for an allocation, whatever
the offset and the type. -/
structure Prim where
  alloc : AllocID
  offset : Int
  kind : PrimKind
  deriving DecidableEq, Repr

/-- The key of a `mutexState`: an allocation, in `interp.egroups` for an
errgroup and in `interp.mutexes` otherwise. -/
structure SyncKey where
  group : Bool
  alloc : AllocID
  deriving DecidableEq, Repr

/-- Where the operations on `p` find its state. -/
def Prim.key (p : Prim) : SyncKey := ⟨p.kind == .errgroup, p.alloc⟩

/-- `selectCase`; `ch = none` is a nil or unknown channel. `elem` is the
element type of a receive. -/
structure SelectCase (V T : Type) where
  ch : Option ChanID
  send : Bool
  val : V
  elem : Option T

/-- What a goroutine waits for in `block`, with what it needs to go on. -/
inductive Wait (V T : Type) where
  /-- `chanSend`, until `ch.canSend(nil)`. -/
  | sendReady (id : ChanID) (val : V) (site : String)
  /-- `chanSend`, until `s.done || ch.closed`. -/
  | send (id : ChanID) (w : SudogRef) (site : String)
  /-- `chanRecv`, until `r.done || ch.closed`. -/
  | recv (id : ChanID) (w : SudogRef) (elem : Option T)
  /-- `chanRecv`, until `ch.canRecv(nil)`. -/
  | recvReady (id : ChanID) (elem : Option T)
  /-- `execSelect`, until `sw.fired || first(sw) >= 0`. -/
  | select (cases : List (SelectCase V T)) (sw : SelRef) (site : String)
  /-- `WaitGroup.Wait` and `errgroup.Group.Wait`. -/
  | group (p : Prim)
  /-- A nil channel: `ready == nil`. -/
  | never

/-- What an operation returned. -/
inductive Ret (V : Type) where
  | none
  /-- `chanSend`. -/
  | sent (completed : Bool)
  /-- `chanRecv`. -/
  | received (val : V) (ok completed : Bool)
  /-- The tuple a select statement evaluates to. -/
  | selected (idx : Nat) (recvOk : Bool) (recvVals : List V)
  /-- `TryLock`, `TryRLock`, `TryGo`. -/
  | tried (ok : Bool)
  /-- `createChannel`. -/
  | chan (id : ChanID)

/-- The fields of `Goroutine` these operations read or write. A goroutine
that has not been spawned reads as the record `spawnGoroutine` would make,
with `spawned = false`. -/
structure Goroutine (V T : Type) where
  spawned : Bool
  vclock : Clock
  spawnSite : String := ""
  wait : Option (Wait V T) := none
  aborted : Bool := false
  panicking : Bool := false
  panicked : Bool := false
  panicValue : Option String := none
  /-- The errgroup whose `onExit` runs when the goroutine's function
  returns. -/
  group : Option Prim := none
  exited : Bool := false
  ret : Ret V := .none

/-- The errors these operations record. -/
inductive Violation where
  | error (msg : String)
  | doubleClose (site : String) (gid : Gid)
  | nilChannel (op site : String) (gid : Gid)
  | invalidMakeArg (kind : String) (value : Int) (site : String) (gid : Gid)
  | escapedPointer (allocID : AllocID) (arenaID : Nat)
      (allocSite escapeSite escapeKind : String)
  | mutexUnlock (op site : String) (gid : Gid)
  | waitGroupNegative (site : String) (gid : Gid) (counter : Int)
  deriving DecidableEq, Repr

/-- `ViolationWithStack`, without the frames. -/
structure ViolationWithStack where
  err : Violation
  gid : Gid
  spawnSite : String
  deriving DecidableEq, Repr

/-- What acquires and what releases a synchronization primitive. -/
inductive SyncOp where
  /-- `Lock`, `TryLock`. -/
  | lock
  /-- `RLock`, `TryRLock`. -/
  | rLock
  /-- `Cond.Wait`, `WaitGroup.Wait`, `errgroup.Group.Wait`. -/
  | wait
  | unlock
  | rUnlock
  /-- `Signal`, `Broadcast`. -/
  | signal
  /-- `Done`, a negative `Add`, the exit of a member of an errgroup. -/
  | done
  deriving DecidableEq, Repr

/-- What an entry of the trace records. -/
inductive Kind (V T : Type) where
  /-- A memory access that the race detector sees. -/
  | access
  /-- A go statement, or `errgroup.Group.Go`. -/
  | fork (child : Gid) (group : Option Prim)
  /-- A value goes into a buffer. -/
  | send (id : ChanID) (val : V)
  /-- A value is taken out of a buffer. -/
  | recv (id : ChanID) (val : V)
  /-- A waiting operation is queued on an unbuffered channel. -/
  | offer (w : SudogRef) (id : ChanID) (onSend : Bool) (val : V) (sel : Option SelRef)
  /-- A counterpart completes the waiting operation `w`. -/
  | claim (w : SudogRef) (id : ChanID) (val : V)
  /-- The operation `w`, completed by a counterpart, returns. -/
  | wake (w : SudogRef) (val : V)
  /-- The plain operation `w` is aborted. -/
  | abandon (w : SudogRef)
  /-- The select `sw` takes its offers back: it is aborted, or resumed
  because a case has become ready. -/
  | withdraw (sw : SelRef)
  | close (id : ChanID)
  /-- A receive returns because the channel is closed and empty. -/
  | recvClosed (id : ChanID) (elem : Option T) (val : V)
  /-- A receive from a timer or signal channel. -/
  | recvRefill (id : ChanID) (val : V)
  | sync (op : SyncOp) (p : Prim)

/-- An entry of the trace: who, what, the releases it acquired, the clock it
published (none when nothing is published), and the goroutine's clock when
the operation was done. -/
structure Event (V T : Type) where
  gid : Gid
  kind : Kind V T
  src : List Nat
  pub : Option Clock
  after : Clock

/-- What the operations read of `Config`, of shadow memory and of the value
domain. -/
structure Config (V T : Type) where
  trackRaces : Bool
  /-- `MaxGoroutines`; zero is no limit. -/
  maxGoroutines : Nat
  /-- `interp.concrete`. -/
  concrete : Bool
  /-- `Value{}`. -/
  emptyValue : V
  /-- `stdlibOpaque`. -/
  stdlibOpaque : V
  concreteZero : T → V
  /-- `v.Raw == zeroAggregate`. -/
  isZeroAggregate : V → Bool
  /-- `TrackArenas`, and the arena allocation a value points into: its ID,
  its arena and its site. -/
  arenaAlloc : V → Option (AllocID × Nat × String)

/-- The interpreter state. -/
structure Interpreter (V T : Type) where
  goroutines : Gid → Goroutine V T
  /-- `len(interp.goroutines)`. -/
  numGoroutines : Nat
  nextGID : Gid
  channels : ChanID → Option (ChanEntry V)
  nextChanID : ChanID
  sudogs : SudogRef → Sudog V
  nextSudog : SudogRef
  sels : SelRef → SelectWait
  nextSel : SelRef
  mutexes : SyncKey → MutexState
  /-- `interp.halting`, or `abortAll` has begun: no waiting goroutine is
  resumed any more. -/
  stopping : Bool
  violations : List ViolationWithStack
  trace : List (Event V T)

namespace Interpreter

variable {V T : Type}

/-! ## §1. Updates -/

/-- Rewrite the record of one goroutine. -/
@[simps]
def modify (s : Interpreter V T) (g : Gid) (f : Goroutine V T → Goroutine V T) : Interpreter V T :=
  { s with goroutines := Function.update s.goroutines g (f (s.goroutines g)) }

/-- A field that the rewriting keeps. -/
theorem modify_field {α : Type} (π : Goroutine V T → α) (s : Interpreter V T) (g g' : Gid)
    {f : Goroutine V T → Goroutine V T} (hf : ∀ r, π (f r) = π r) :
    π ((s.modify g f).goroutines g') = π (s.goroutines g') := by
  by_cases h : g' = g
  · subst h; simp [hf]
  · simp [h]

/-- The vector clock of a goroutine. -/
def clockOf (s : Interpreter V T) (g : Gid) : Clock := (s.goroutines g).vclock

def setClock (s : Interpreter V T) (g : Gid) (c : Clock) : Interpreter V T :=
  s.modify g fun r => { r with vclock := c }

def setWait (s : Interpreter V T) (g : Gid) (w : Option (Wait V T)) : Interpreter V T :=
  s.modify g fun r => { r with wait := w }

section Fields

variable (s : Interpreter V T) (g g' : Gid) (c : Clock) (w : Option (Wait V T))

@[simp] theorem setClock_spawned :
    ((s.setClock g c).goroutines g').spawned = (s.goroutines g').spawned :=
  modify_field Goroutine.spawned s g g' (f := fun r => { r with vclock := c }) fun _ => rfl

@[simp] theorem setClock_wait :
    ((s.setClock g c).goroutines g').wait = (s.goroutines g').wait :=
  modify_field Goroutine.wait s g g' (f := fun r => { r with vclock := c }) fun _ => rfl

@[simp] theorem setClock_group :
    ((s.setClock g c).goroutines g').group = (s.goroutines g').group :=
  modify_field Goroutine.group s g g' (f := fun r => { r with vclock := c }) fun _ => rfl

@[simp] theorem setClock_exited :
    ((s.setClock g c).goroutines g').exited = (s.goroutines g').exited :=
  modify_field Goroutine.exited s g g' (f := fun r => { r with vclock := c }) fun _ => rfl

@[simp] theorem setWait_spawned :
    ((s.setWait g w).goroutines g').spawned = (s.goroutines g').spawned :=
  modify_field Goroutine.spawned s g g' (f := fun r => { r with wait := w }) fun _ => rfl

@[simp] theorem setWait_vclock :
    ((s.setWait g w).goroutines g').vclock = (s.goroutines g').vclock :=
  modify_field Goroutine.vclock s g g' (f := fun r => { r with wait := w }) fun _ => rfl

@[simp] theorem setWait_group :
    ((s.setWait g w).goroutines g').group = (s.goroutines g').group :=
  modify_field Goroutine.group s g g' (f := fun r => { r with wait := w }) fun _ => rfl

@[simp] theorem setWait_exited :
    ((s.setWait g w).goroutines g').exited = (s.goroutines g').exited :=
  modify_field Goroutine.exited s g g' (f := fun r => { r with wait := w }) fun _ => rfl

theorem setClock_other (h : g' ≠ g) : (s.setClock g c).goroutines g' = s.goroutines g' :=
  Function.update_of_ne h ..

theorem setWait_other (h : g' ≠ g) : (s.setWait g w).goroutines g' = s.goroutines g' :=
  Function.update_of_ne h ..

theorem setClock_vclock :
    ((s.setClock g c).goroutines g').vclock = if g' = g then c else (s.goroutines g').vclock := by
  by_cases h : g' = g
  · subst h; simp [setClock]
  · simp [setClock, h]

theorem setWait_wait :
    ((s.setWait g w).goroutines g').wait = if g' = g then w else (s.goroutines g').wait := by
  by_cases h : g' = g
  · subst h; simp [setWait]
  · simp [setWait, h]

theorem setWait_wait_self : ((s.setWait g w).goroutines g).wait = w := by
  rw [setWait_wait, if_pos rfl]

end Fields

def setRet (s : Interpreter V T) (g : Gid) (v : Ret V) : Interpreter V T :=
  s.modify g fun r => { r with ret := v }

@[simps]
def setChan (s : Interpreter V T) (id : ChanID) (ch : ChanEntry V) : Interpreter V T :=
  { s with channels := Function.update s.channels id (some ch) }

@[simps]
def setSudog (s : Interpreter V T) (w : SudogRef) (sg : Sudog V) : Interpreter V T :=
  { s with sudogs := Function.update s.sudogs w sg }

@[simps]
def setSel (s : Interpreter V T) (sw : SelRef) (x : SelectWait) : Interpreter V T :=
  { s with sels := Function.update s.sels sw x }

@[simps]
def setSync (s : Interpreter V T) (k : SyncKey) (ms : MutexState) : Interpreter V T :=
  { s with mutexes := Function.update s.mutexes k ms }

/-- Record an operation that has taken effect. -/
@[simps]
def log (s : Interpreter V T) (g : Gid) (k : Kind V T) (src : List Nat) (pub : Option Clock) :
    Interpreter V T :=
  { s with trace := s.trace ++ [⟨g, k, src, pub, s.clockOf g⟩] }

/-! ## §2. Clocks

`interp.goroutine(gid)` is never nil here: the machine runs spawned
goroutines only. -/

/-- `g.VClock.Tick(gid)`: advance the goroutine's own component. -/
def tickClock (s : Interpreter V T) (g : Gid) : Interpreter V T :=
  s.setClock g ((s.clockOf g).tick g)

/-- `tick`: the same, when races are tracked. -/
def tick (cfg : Config V T) (s : Interpreter V T) (g : Gid) : Interpreter V T :=
  s.setClock g (if cfg.trackRaces then (s.clockOf g).tick g else s.clockOf g)

/-- The snapshot `releaseClock` returns. Its tick is written out where it
is called. -/
def releaseClock (cfg : Config V T) (s : Interpreter V T) (g : Gid) : Option Stamp :=
  if cfg.trackRaces then some ⟨s.clockOf g, [s.trace.length]⟩ else none

/-- `acquire` and `mergeClock`. -/
def acquire (s : Interpreter V T) (g : Gid) (st : Option Stamp) : Interpreter V T :=
  s.setClock g (mergeStamp (s.clockOf g) st)

/-- `snapshotClock`. -/
def snapshotClock (s : Interpreter V T) (g : Gid) : Stamp := ⟨s.clockOf g, [s.trace.length]⟩

/-- `joinClock`. -/
def joinClock (s : Interpreter V T) (dst : Option Stamp) (g : Gid) : Stamp :=
  match dst with
  | none => s.snapshotClock g
  | some st => ⟨st.clock.merge (s.clockOf g), st.src ++ [s.trace.length]⟩

/-! ## §3. Panics and violations -/

/-- `runtimePanic`. -/
def runtimePanic (s : Interpreter V T) (g : Gid) (msg : String) : Interpreter V T :=
  if (s.goroutines g).panicked then s
  else s.modify g fun r =>
    { r with panicking := true, panicValue := some ("runtime error: " ++ msg) }

/-- `recordViolation`; suppression directives are not modelled. -/
def recordViolation (s : Interpreter V T) (g : Gid) (err : Violation) : Interpreter V T :=
  if (s.goroutines g).aborted then s
  else { s with violations := s.violations ++ [⟨err, g, (s.goroutines g).spawnSite⟩] }

end Interpreter

end Giri.Interp
