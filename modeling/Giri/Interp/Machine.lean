/-
Giri.Interp.Machine — goroutines, channels and sync primitives as one
transition system.

A step is one operation of one goroutine, up to where it waits; the rest of
an operation that waited, once the wait is over; or the unwinding of a
waiting operation. Which goroutine goes next is not determined, so a run of
the machine is a run of the interpreter under some scheduler, on some
program.

The guards of `resume` and `abort` are what `gosched.go` guarantees
(`Sched/BatonTheorems.lean`): a parked goroutine is resumed only while its
wait is over and nothing is halted, and aborted only by `abortParked`, at
quiescence or after a halt. A wait inside a probe is given up at once, which
here is a `giveUp` right after the operation.
-/
import Giri.Interp.Sync
import Giri.Lib.Transition

namespace Giri.Interp

variable {V T : Type}

/-- The memory of a primitive: allocation and offset. -/
structure Addr where
  alloc : AllocID
  offset : Int
  deriving DecidableEq, Repr

/-- The primitive of a given type at an address. -/
def Addr.prim (a : Addr) (kind : PrimKind) : Prim := ⟨a.alloc, a.offset, kind⟩

/-- The operations of a goroutine. A nil channel is `none`. -/
inductive Op (V T : Type) where
  | access
  | go (site : String)
  | makeChan (capacity : Int) (site : String)
  /-- `newRefillChannel`. -/
  | timer (val : V)
  /-- `signal.Notify`. -/
  | notify (id : ChanID)
  | send (ch : Option ChanID) (val : V) (site : String)
  | recv (ch : Option ChanID) (elem : Option T) (site : String)
  | close (ch : Option ChanID) (site : String)
  | select (states : List (SelectCase V T)) (blocking : Bool) (site : String)
  | mutex (rw : Bool) (a : Addr) (m : MutexMethod) (site : String)
  | wgAdd (a : Addr) (delta : Int) (site : String)
  | wgWait (a : Addr)
  | condSignal (a : Addr)
  | condWait (a : Addr)
  | errgroupGo (a : Addr) (site : String)
  | errgroupWait (a : Addr)
  | exit
  /-- os.Exit, log.Fatal, the step limit. -/
  | halt

/-- The steps of the machine. -/
inductive Action (V T : Type) where
  | start (g : Gid) (op : Op V T)
  | resume (g : Gid)
  /-- `block` returns false inside a probe. -/
  | giveUp (g : Gid)
  /-- Nothing is runnable: a deadlock, or the end of `drainAll`. -/
  | quiesce
  /-- `abortParked` unwinds the goroutine. -/
  | abort (g : Gid)

/-- A go statement, or `errgroup.Group.Go`. -/
def Action.spawns : Action V T → Bool
  | .start _ (.go _) => true
  | .start _ (.errgroupGo _ _) => true
  | _ => false

namespace Interpreter

/-- `ssa.MakeChan`. -/
def makeChan (s : Interpreter V T) (g : Gid) (capacity : Int) (site : String) :
    Interpreter V T :=
  let s := if capacity < 0 then s.recordViolation g (.invalidMakeArg "chan-cap" capacity site g)
    else s
  (s.createChannel capacity.toNat none).setRet g (.chan (s.nextChanID + 1))

/-- `signal.Notify`: the channel holds a value from now on. -/
def notify (cfg : Config V T) (s : Interpreter V T) (id : ChanID) : Interpreter V T :=
  match s.channels id with
  | none => s
  | some ch => s.setChan id { ch with refill := some cfg.stdlibOpaque }

/-- One operation, up to where it waits. -/
def run (cfg : Config V T) (s : Interpreter V T) (g : Gid) : Op V T → Interpreter V T
  | .access => s.log g .access [] none
  | .go site => s.startGoroutine cfg g none site
  | .makeChan capacity site => s.makeChan g capacity site
  | .timer val => (s.createChannel 1 (some val)).setRet g (.chan (s.nextChanID + 1))
  | .notify id => s.notify cfg id
  | .send none _ site =>
    (s.recordViolation g (.nilChannel "send" site g)).block cfg g .never id
  | .send (some ch) val site => s.chanSend cfg g ch val site
  | .recv none _ site =>
    (s.recordViolation g (.nilChannel "receive" site g)).block cfg g .never id
  | .recv (some ch) elem _ => s.chanRecv cfg g ch elem
  | .close none site =>
    (s.recordViolation g (.nilChannel "close" site g)).runtimePanic g "close of nil channel"
  | .close (some ch) site => s.handleChannelClose cfg g ch site
  | .select states blocking site => s.execSelect cfg g states blocking site
  | .mutex rw a m site =>
    s.syncMutex g (a.prim (if rw then .rwMutex else .mutex)) m site
  | .wgAdd a delta site => s.wgAdd g (a.prim .waitGroup) delta site
  | .wgWait a => s.groupWait cfg g (a.prim .waitGroup)
  | .condSignal a => s.condSignal g (a.prim .cond)
  | .condWait a => s.condWait g (a.prim .cond)
  | .errgroupGo a site => s.errgroupGo cfg g (a.prim .errgroup) site
  | .errgroupWait a => s.groupWait cfg g (a.prim .errgroup)
  | .exit => s.exit g
  | .halt => s.haltAll

/-- The code after `block`. -/
def complete (cfg : Config V T) (s : Interpreter V T) (g : Gid) : Wait V T → Interpreter V T
  | .sendReady id val site => s.sendNow cfg g id val site
  | .send _ w site => s.sendWoken cfg g w site
  | .recv id w elem => s.recvWoken cfg g id w elem
  | .recvReady id elem => s.recvNow cfg g id elem
  | .select cases sw site => s.selectWoken cfg g cases sw site
  | .group p => s.groupWoken g p
  | .never => s

/-- No goroutine's wait is over. -/
def quiescent (s : Interpreter V T) : Bool :=
  (List.range (s.nextGID.toNat + 1)).all fun n =>
    !((s.goroutines n).wait.any s.ready)

/-- What a spawned goroutine waits for. -/
def waitOf (s : Interpreter V T) (g : Gid) : Option (Wait V T) :=
  if (s.goroutines g).spawned then (s.goroutines g).wait else none

/-- The effect of a step; `none` if it can't be taken. An aborted goroutine
may still execute operations: the deferred calls left in its frame. -/
def step (cfg : Config V T) (s : Interpreter V T) : Action V T → Option (Interpreter V T)
  | .start g op =>
    if (s.goroutines g).spawned && (s.goroutines g).wait.isNone && !(s.goroutines g).exited
    then some (s.run cfg g op) else none
  | .resume g =>
    match s.waitOf g with
    | some wt =>
      -- `pickNext`: an aborted goroutine is no candidate
      if s.ready wt && !s.stopping && !(s.goroutines g).aborted then
        some (s.complete cfg g wt) else none
    | none => none
  | .giveUp g =>
    match s.waitOf g with
    | some wt => if s.ready wt then none else some (s.abandon cfg g wt)
    | none => none
  | .quiesce => if s.quiescent then some { s with stopping := true } else none
  | .abort g =>
    match s.waitOf g with
    | some wt =>
      if s.stopping then
        some ((s.modify g fun r => { r with aborted := true }).abandon cfg g wt)
      else none
    | none => none

/-- The interpreter before the entry goroutine runs; its ID is 1. -/
def init (cfg : Config V T) : Interpreter V T where
  goroutines := fun g => { spawned := g == 1, vclock := VectorClock.Clock.start g }
  numGoroutines := 1
  nextGID := 1
  channels := fun _ => none
  nextChanID := 0
  sudogs := fun _ => { gid := 0, val := cfg.emptyValue, clock := none }
  nextSudog := 0
  sels := fun _ => {}
  nextSel := 0
  mutexes := fun _ => {}
  stopping := false
  violations := []
  trace := []

/-- The transition relation. -/
def Step (cfg : Config V T) (s : Interpreter V T) (a : Action V T) (t : Interpreter V T) :
    Prop :=
  s.step cfg a = some t

/-- The goroutine executes an operation. -/
def Running (s : Interpreter V T) (g : Gid) : Prop :=
  (s.goroutines g).spawned = true ∧ (s.goroutines g).wait = none

/-- The goroutine waits for `wt`. -/
def Waiting (s : Interpreter V T) (g : Gid) (wt : Wait V T) : Prop :=
  (s.goroutines g).spawned = true ∧ (s.goroutines g).wait = some wt

/-- The steps there are, with their guards. -/
inductive Stepped (cfg : Config V T) (s : Interpreter V T) : Action V T → Interpreter V T → Prop where
  | start {g : Gid} (op : Op V T) (h : Running s g) (hx : (s.goroutines g).exited = false) :
      Stepped cfg s (.start g op) (s.run cfg g op)
  | resume {g : Gid} {wt : Wait V T} (h : Waiting s g wt) (hr : s.ready wt = true)
      (ha : (s.goroutines g).aborted = false) :
      Stepped cfg s (.resume g) (s.complete cfg g wt)
  | giveUp {g : Gid} {wt : Wait V T} (h : Waiting s g wt) (hr : s.ready wt = false) :
      Stepped cfg s (.giveUp g) (s.abandon cfg g wt)
  | quiesce : Stepped cfg s .quiesce { s with stopping := true }
  | abort {g : Gid} {wt : Wait V T} (h : Waiting s g wt) (hs : s.stopping = true) :
      Stepped cfg s (.abort g) ((s.modify g fun r => { r with aborted := true }).abandon cfg g wt)

section Stepped

variable {cfg : Config V T} {s t : Interpreter V T} {g : Gid} {wt wt' : Wait V T}

theorem waiting_of_waitOf (h : s.waitOf g = some wt) : Waiting s g wt := by
  simpa [waitOf, Waiting] using h

/-- A goroutine waits for one thing. -/
theorem Waiting.unique (h : Waiting s g wt) (h' : Waiting s g wt') : wt' = wt :=
  Option.some.inj (h'.2.symm.trans h.2)

theorem stepped {a : Action V T} (h : Step cfg s a t) : Stepped cfg s a t := by
  unfold Step step at h
  split at h
  · simp only [Option.ite_none_right_eq_some, Option.some.injEq, Bool.and_eq_true,
      Option.isNone_iff_eq_none, Bool.not_eq_true'] at h
    obtain ⟨⟨hrun, hx⟩, rfl⟩ := h
    exact .start _ hrun hx
  · split at h
    · rename_i hw
      simp only [Option.ite_none_right_eq_some, Option.some.injEq, Bool.and_eq_true,
        Bool.not_eq_true'] at h
      obtain ⟨⟨⟨hr, -⟩, ha⟩, rfl⟩ := h
      exact .resume (waiting_of_waitOf hw) hr ha
    · cases h
  · split at h
    · rename_i hw
      simp only [Option.ite_none_left_eq_some, Option.some.injEq, Bool.not_eq_true] at h
      obtain ⟨hr, rfl⟩ := h
      exact .giveUp (waiting_of_waitOf hw) hr
    · cases h
  · simp only [Option.ite_none_right_eq_some, Option.some.injEq] at h
    obtain ⟨-, rfl⟩ := h
    exact .quiesce
  · split at h
    · rename_i hw
      simp only [Option.ite_none_right_eq_some, Option.some.injEq] at h
      obtain ⟨hs, rfl⟩ := h
      exact .abort (waiting_of_waitOf hw) hs
    · cases h

theorem step_of_start {op : Op V T} (h : Step cfg s (.start g op) t) :
    Running s g ∧ t = s.run cfg g op := by
  cases stepped h with
  | start op hrun => exact ⟨hrun, rfl⟩

end Stepped

/-- The state is reached by a run of the machine. -/
def Reachable (cfg : Config V T) (s : Interpreter V T) : Prop :=
  ∃ acts, Transition.Run (Step cfg) (init cfg) acts s

/-- Where a list of steps leads; the initial state if one of them can't be
taken. -/
def reached (cfg : Config V T) (acts : List (Action V T)) : Interpreter V T :=
  (Transition.exec (step cfg) (init cfg) acts).getD (init cfg)

theorem exec_reached {cfg : Config V T} {acts : List (Action V T)}
    (h : (Transition.exec (step cfg) (init cfg) acts).isSome = true) :
    Transition.exec (step cfg) (init cfg) acts = some (reached cfg acts) :=
  Transition.exec_getD h

theorem reachable_reached {cfg : Config V T} {acts : List (Action V T)}
    (h : (Transition.exec (step cfg) (init cfg) acts).isSome = true) :
    Reachable cfg (reached cfg acts) :=
  ⟨acts, Transition.run_of_exec (exec_reached h)⟩

end Interpreter

/-- A configuration for examples: values are numbers. -/
def natConfig (trackRaces : Bool) : Config Nat Unit where
  trackRaces := trackRaces
  maxGoroutines := 0
  concrete := true
  emptyValue := 0
  stdlibOpaque := 0
  concreteZero := fun _ => 0
  isZeroAggregate := fun _ => false
  arenaAlloc := fun _ => none

end Giri.Interp
