/-
Giri.Interp.Independence — operations on one synchronization primitive and
on another.

What a primitive does is a function of its own record and of the goroutine
that calls it: `Record.call` for the primitives with a `mutexState`, a flag
for a Once. `alone` runs it on a list of calls, with nothing else there. The
calls that a run of the machine makes are recorded with what was observed of
each (`Invocation`), so it can be said that a primitive behaves as if it
were alone.

It does if no other primitive is used that has the same record. The record
is found by the allocation, so two fields of one struct do not: after
`a.Lock()`, `b.Unlock()` of a mutex that was never locked is no error
(`shared_record`).
-/
import Giri.Interp.OnceTheorems
import Giri.Interp.SyncFrame

namespace Giri.Interp

open Function (update_self update_of_ne)

variable {V T : Type}

/-! ## §1. A primitive alone -/

/-- `mutexState`, with plain clocks. -/
structure Record where
  locked : Bool := false
  lockGoroutine : Gid := 0
  readers : Nat := 0
  lastUnlockClock : Option Clock := none
  rUnlockClock : Option Clock := none
  wgCounter : Int := 0

/-- The calls that reach a `mutexState`. -/
inductive SyncCall where
  | mutex (m : MutexMethod) (site : String)
  | add (delta : Int) (site : String)
  /-- `Wait` of a WaitGroup or an errgroup, when it is called and when the
  goroutine is resumed. -/
  | wait
  | signal
  | condWait
  /-- `errgroup.Group.Go`. -/
  | go
  /-- The exit of a member of an errgroup. -/
  | exit

/-- What a call reads of the goroutine that makes it. -/
structure Caller where
  gid : Gid
  clock : Clock
  aborted : Bool
  panicked : Bool

/-- What the goroutine sees of a call. -/
structure Outcome where
  clock : Clock
  violations : List Violation := []
  panicked : Bool
  blocked : Bool := false

/-- A clock after merging one that may be nil. -/
def mergeOption (c : Clock) : Option Clock → Clock
  | none => c
  | some d => c.merge d

/-- `joinClock`. -/
def joinOption (dst : Option Clock) (c : Clock) : Clock :=
  match dst with
  | none => c
  | some d => d.merge c

namespace Record

/-- The call changes no clock and reports nothing. -/
def plain (c : Caller) : Outcome := { clock := c.clock, panicked := c.panicked }

/-- The caller has acquired clocks. -/
def acquired (c : Caller) (last rUnlock : Option Clock) : Outcome :=
  { plain c with clock := mergeOption (mergeOption c.clock last) rUnlock }

/-- The caller has released, and ticks. -/
def released (c : Caller) : Outcome := { plain c with clock := c.clock.tick c.gid }

/-- Violations of an aborted goroutine are not recorded. -/
def reported (c : Caller) (err : Violation) : List Violation := if c.aborted then [] else [err]

def unlockOfUnlocked (c : Caller) (m : MutexMethod) (site : String) : Outcome :=
  { plain c with
    violations := reported c (.mutexUnlock m.name site c.gid)
    panicked := true }

/-- `syncMutex`, on the record. -/
def mutex (rw : Bool) (r : Record) (c : Caller) (m : MutexMethod) (site : String) :
    Record × Outcome :=
  let lock := ({ r with locked := true, lockGoroutine := c.gid },
    acquired c r.lastUnlockClock r.rUnlockClock)
  let rLock := if rw then ({ r with readers := r.readers + 1 }, acquired c r.lastUnlockClock none)
    else (r, plain c)
  match m with
  | .lock | .tryLock => lock
  | .unlock =>
    if r.locked then
      ({ r with locked := false, lastUnlockClock := some c.clock }, released c)
    else (r, unlockOfUnlocked c m site)
  | .rLock | .tryRLock => rLock
  | .rUnlock =>
    if rw then
      if r.readers == 0 then (r, unlockOfUnlocked c m site)
      else
        ({ r with
            readers := r.readers - 1
            rUnlockClock := some (joinOption r.rUnlockClock c.clock) }, released c)
    else (r, plain c)

/-- `add` in `syncWaitGroup`, on the record. -/
def add (r : Record) (c : Caller) (delta : Int) (site : String) : Record × Outcome :=
  let counter := r.wgCounter + delta
  let violations := if counter < 0 then reported c (.waitGroupNegative site c.gid counter) else []
  if delta < 0 then
    ({ r with
        lastUnlockClock := some (joinOption r.lastUnlockClock c.clock)
        wgCounter := counter }, { released c with violations })
  else ({ r with wgCounter := counter }, { plain c with violations })

/-- What a call does to the record, and what the caller sees of it. -/
def call (rw : Bool) (r : Record) (c : Caller) : SyncCall → Record × Outcome
  | .mutex m site => r.mutex rw c m site
  | .add delta site => r.add c delta site
  | .wait =>
    if c.aborted then (r, plain c)
    else if r.wgCounter ≤ 0 then (r, acquired c r.lastUnlockClock none)
    else (r, { plain c with blocked := true })
  | .signal => ({ r with lastUnlockClock := some c.clock }, released c)
  | .condWait => (r, acquired c r.lastUnlockClock none)
  | .go => ({ r with wgCounter := r.wgCounter + 1 }, plain c)
  | .exit =>
    ({ r with
        lastUnlockClock := some (joinOption r.lastUnlockClock c.clock)
        wgCounter := r.wgCounter - 1 }, released c)

end Record

/-- A call of the program, and what was observed of it. -/
structure Invocation where
  prim : Prim
  caller : Caller
  call : SyncCall
  outcome : Outcome

/-- A primitive on its own: its record and the outcomes after the calls. -/
def alone (rw : Bool) (r : Record) : List (Caller × SyncCall) → Record × List Outcome
  | [] => (r, [])
  | (c, call) :: rest =>
    let (r', o) := r.call rw c call
    let (r'', os) := alone rw r' rest
    (r'', o :: os)

/-- A Once on its own: the flag, and which of the calls of `Do` run `f`. -/
def onceAlone (flag : Bool) : Nat → Bool × List Bool
  | 0 => (flag, [])
  | n + 1 =>
    let (flag', ran) := onceAlone true n
    (flag', (!flag) :: ran)

/-! ## §2. The calls of a run -/

/-- An RWMutex has the read methods. -/
def Prim.rw (p : Prim) : Bool := p.kind == .rwMutex

def MutexState.record (ms : MutexState) : Record where
  locked := ms.locked
  lockGoroutine := ms.lockGoroutine
  readers := ms.readers
  lastUnlockClock := ms.lastUnlockClock.map Stamp.clock
  rUnlockClock := ms.rUnlockClock.map Stamp.clock
  wgCounter := ms.wgCounter

namespace Interpreter

/-- The call a step makes: on which primitive, by whom. -/
def called (s : Interpreter V T) : Action V T → Option (Prim × Gid × SyncCall)
  | .start g (.mutex rw a m site) =>
    some (a.prim (if rw then .rwMutex else .mutex), g, .mutex m site)
  | .start g (.wgAdd a delta site) => some (a.prim .waitGroup, g, .add delta site)
  | .start g (.wgWait a) => some (a.prim .waitGroup, g, .wait)
  | .start g (.condSignal a) => some (a.prim .cond, g, .signal)
  | .start g (.condWait a) => some (a.prim .cond, g, .condWait)
  | .start g (.errgroupGo a _) => some (a.prim .errgroup, g, .go)
  | .start g (.errgroupWait a) => some (a.prim .errgroup, g, .wait)
  | .start g .exit =>
    if (s.goroutines g).aborted then none
    else (s.goroutines g).group.map fun p => (p, g, .exit)
  | .resume g =>
    match (s.goroutines g).wait with
    | some (.group p) => some (p, g, .wait)
    | _ => none
  | _ => none

def caller (s : Interpreter V T) (g : Gid) : Caller where
  gid := g
  clock := s.clockOf g
  aborted := (s.goroutines g).aborted
  panicked := (s.goroutines g).panicked

/-- What `g` sees of a step from `s` to `t`. -/
def seen (s t : Interpreter V T) (g : Gid) : Outcome where
  clock := t.clockOf g
  violations := (t.violations.drop s.violations.length).map (·.err)
  panicked := (t.goroutines g).panicked
  blocked := (t.goroutines g).wait.isSome

/-- What `g` sees of a call. What `Go` does to its caller's clock is the start
of a goroutine, not the primitive's. -/
def observe (s t : Interpreter V T) (g : Gid) : SyncCall → Outcome
  | .go => Record.plain (s.caller g)
  | _ => s.seen t g

end Interpreter

/-- The machine with a record of its calls: those on primitives with a
`mutexState`, and the calls of `Do`, with whether they ran `f`. -/
structure Recorded (V T : Type) where
  state : OnceState V T
  calls : List Invocation := []
  dos : List (Addr × Bool) := []

namespace Recorded

open Interpreter

/-- What a step adds to the calls. -/
def invocations (s t : OnceState V T) : OnceAction V T → List Invocation
  | .base a =>
    match s.base.called a with
    | some (p, g, call) => [⟨p, s.base.caller g, call, s.base.observe t.base g call⟩]
    | none => []
  | _ => []

def doCalls (s : OnceState V T) : OnceAction V T → List (Addr × Bool)
  | .doCall _ o => [(o, !s.onceState o.alloc)]
  | _ => []

def step (cfg : Config V T) (s : Recorded V T) (a : OnceAction V T) : Option (Recorded V T) :=
  (s.state.step cfg a).map fun t =>
    { state := t
      calls := s.calls ++ invocations s.state t a
      dos := s.dos ++ doCalls s.state a }

def init (cfg : Config V T) : Recorded V T := { state := .init cfg }

/-- The step relation of the machine. -/
def Step (cfg : Config V T) (s : Recorded V T) (a : OnceAction V T) (t : Recorded V T) : Prop :=
  s.step cfg a = some t

/-- The calls on `p`, in order. -/
def callsOn (s : Recorded V T) (p : Prim) : List Invocation := s.calls.filter (·.prim = p)

/-- The calls of `Do` on `o`, in order: which of them ran `f`. -/
def dosOn (s : Recorded V T) (o : Addr) : List Bool := (s.dos.filter (·.1 = o)).map (·.2)

end Recorded

/-! ## §3. One call -/

namespace Interpreter

variable {cfg : Config V T} {s t u : Interpreter V T} {g : Gid} {p : Prim}

/-- `u` is `s` as far as `g` sees, and `g` does not wait. -/
structure Quiet (s u : Interpreter V T) (g : Gid) : Prop where
  clock : u.clockOf g = s.clockOf g
  aborted : (u.goroutines g).aborted = (s.goroutines g).aborted
  panicked : (u.goroutines g).panicked = (s.goroutines g).panicked
  wait : (u.goroutines g).wait = none
  violations : u.violations = s.violations

theorem Quiet.refl (h : (s.goroutines g).wait = none) : Quiet s s g := ⟨rfl, rfl, rfl, h, rfl⟩

/-- The record of a primitive is not seen. -/
theorem Quiet.setSync (h : Quiet s u g) (k : SyncKey) (ms : MutexState) :
    Quiet s (u.setSync k ms) g := ⟨h.clock, h.aborted, h.panicked, h.wait, h.violations⟩

theorem Quiet.plain (h : Quiet s u g) : s.seen u g = Record.plain (s.caller g) := by
  simp [seen, Record.plain, caller, h.clock, h.panicked, h.wait, h.violations]

theorem mergeStamp_eq (c : Clock) (st : Option Stamp) :
    mergeStamp c st = mergeOption c (st.map Stamp.clock) := by
  cases st <;> rfl

theorem joinClock_clock (dst : Option Stamp) :
    (s.joinClock dst g).clock = joinOption (dst.map Stamp.clock) (s.clockOf g) := by
  cases dst <;> rfl

theorem setClock_self (s : Interpreter V T) (g : Gid) (c : Clock) :
    (s.setClock g c).goroutines g = { s.goroutines g with vclock := c } := by
  simp [setClock]

theorem Quiet.acquired (h : Quiet s u g) (op : SyncOp) (last rUnlock : Option Stamp) :
    s.seen (u.syncAcquire g op p last rUnlock) g =
      Record.acquired (s.caller g) (last.map Stamp.clock) (rUnlock.map Stamp.clock) := by
  have hclock : (u.goroutines g).vclock = (s.goroutines g).vclock := h.clock
  simp [seen, syncAcquire, acquire, clockOf, Record.acquired, Record.plain, caller,
    mergeStamp_eq, hclock, h.panicked, h.wait, h.violations, setClock]

theorem Quiet.released (h : Quiet s u g) (op : SyncOp) (ms : MutexState) :
    s.seen (u.syncRelease g op p ms) g = Record.released (s.caller g) := by
  have hclock : (u.goroutines g).vclock = (s.goroutines g).vclock := h.clock
  simp [seen, syncRelease, tickClock, clockOf, Record.released, Record.plain, caller,
    hclock, h.panicked, h.wait, h.violations, setClock]

/-- The only violation of a call. -/
theorem seen_recordViolation (hv : u.violations = s.violations)
    (ha : (u.goroutines g).aborted = (s.goroutines g).aborted) (err : Violation) :
    s.seen (u.recordViolation g err) g =
      { s.seen u g with violations := Record.reported (s.caller g) err } := by
  unfold recordViolation
  split <;> rename_i h <;> simp [seen, Record.reported, caller, hv, ← ha, h, clockOf]

/-- What the interpreter did to the record of `p` is what `p` alone does, and
so is what the caller has seen. -/
def Answers (s t : Interpreter V T) (p : Prim) (g : Gid) (call : SyncCall) : Prop :=
  (s.mutexes p.key).record.call p.rw (s.caller g) call =
    ((t.mutexes p.key).record, s.observe t g call)

theorem answers_unlockOfUnlocked (h : (s.goroutines g).wait = none) (m : MutexMethod)
    (site : String) :
    s.seen (s.unlockOfUnlocked g m site) g = Record.unlockOfUnlocked (s.caller g) m site := by
  have hv := seen_recordViolation (s := s) (u := s) (g := g) rfl rfl (.mutexUnlock m.name site g)
  rw [(Quiet.refl h).plain] at hv
  simp only [seen, Record.plain, Outcome.mk.injEq] at hv
  obtain ⟨hclock, hviol, -, hblocked⟩ := hv
  simp only [seen, unlockOfUnlocked, modify, clockOf, update_self, Record.unlockOfUnlocked,
    Record.plain, Outcome.mk.injEq]
  exact ⟨hclock, hviol, trivial, hblocked⟩

theorem Answers.intro {call : SyncCall} {r : Record} {o : Outcome}
    (hcall : (s.mutexes p.key).record.call p.rw (s.caller g) call = (r, o))
    (hr : (t.mutexes p.key).record = r) (ho : s.observe t g call = o) : Answers s t p g call := by
  rw [Answers, hcall, hr, ho]

theorem answers_lock (h : (s.goroutines g).wait = none) (site : String) :
    Answers s (s.lock g p) p g (.mutex .lock site) := by
  refine .intro rfl ?_ (((Quiet.refl h).setSync ..).acquired ..)
  simp [lock, syncAcquire, acquire, setClock, MutexState.record, caller]

theorem answers_rLock (h : (s.goroutines g).wait = none) (hrw : p.rw = true) (site : String) :
    Answers s (s.rLock g p) p g (.mutex .rLock site) := by
  refine .intro (if_pos hrw) ?_ (((Quiet.refl h).setSync ..).acquired ..)
  simp [rLock, syncAcquire, acquire, setClock, MutexState.record]

theorem unlockOfUnlocked_mutexes (s : Interpreter V T) (g : Gid) (m : MutexMethod) (site : String) :
    (s.unlockOfUnlocked g m site).mutexes = s.mutexes :=
  (same_unlockOfUnlocked s g m site).mutexes

theorem answers_unlock (h : (s.goroutines g).wait = none) (site : String) :
    Answers s (s.unlock g p site) p g (.mutex .unlock site) := by
  unfold unlock
  simp only
  split
  · rename_i hl
    refine .intro (if_pos hl) ?_ ((Quiet.refl h).released ..)
    simp [syncRelease, tickClock, setClock, snapshotClock, caller, MutexState.record]
  · rename_i hl
    refine .intro (if_neg hl) ?_ (answers_unlockOfUnlocked h .unlock site)
    rw [unlockOfUnlocked_mutexes]

theorem answers_rUnlock (h : (s.goroutines g).wait = none) (hrw : p.rw = true) (site : String) :
    Answers s (s.rUnlock g p site) p g (.mutex .rUnlock site) := by
  unfold rUnlock
  simp only
  split
  · rename_i hr
    refine .intro ((if_pos hrw).trans (if_pos hr)) ?_ (answers_unlockOfUnlocked h .rUnlock site)
    rw [unlockOfUnlocked_mutexes]
  · rename_i hr
    refine .intro ((if_pos hrw).trans (if_neg hr)) ?_ ((Quiet.refl h).released ..)
    simp [syncRelease, tickClock, setClock, joinClock_clock, caller, MutexState.record]

/-- `TryLock` and `TryRLock` only set a result besides. -/
theorem seen_setRet (s t : Interpreter V T) (g : Gid) (v : Ret V) :
    s.seen (t.setRet g v) g = s.seen t g := by
  simp [seen, setRet, clockOf]

theorem Answers.setRet {m : MutexMethod} {site : String} (h : Answers s t p g (.mutex m site))
    (v : Ret V) : Answers s (t.setRet g v) p g (.mutex m site) := by
  refine h.trans (Prod.ext rfl ?_)
  exact (seen_setRet ..).symm

/-- A read method on a Mutex, which has none. -/
theorem answers_nothing (h : (s.goroutines g).wait = none) {call : SyncCall}
    (hcall : (s.mutexes p.key).record.call p.rw (s.caller g) call =
      ((s.mutexes p.key).record, Record.plain (s.caller g))) : Answers s s p g call := by
  refine .intro hcall rfl ?_
  cases call <;> first | rfl | exact (Quiet.refl h).plain

theorem answers_syncMutex (h : (s.goroutines g).wait = none) (m : MutexMethod) (site : String) :
    Answers s (s.syncMutex g p m site) p g (.mutex m site) := by
  unfold syncMutex
  split
  · exact answers_lock h site
  · exact (answers_lock h site).setRet _
  · exact answers_unlock h site
  · split
    · rename_i hrw; exact answers_rLock h hrw site
    · rename_i hrw; exact answers_nothing h (if_neg hrw)
  · split
    · rename_i hrw; exact (answers_rLock h hrw site).setRet _
    · rename_i hrw; exact answers_nothing h (if_neg hrw)
  · split
    · rename_i hrw; exact answers_rUnlock h hrw site
    · rename_i hrw; exact answers_nothing h (if_neg hrw)

theorem recordViolation_mutexes (s : Interpreter V T) (g : Gid) (err : Violation) :
    (s.recordViolation g err).mutexes = s.mutexes :=
  (same_recordViolation s g err).mutexes

theorem addCounter_wgCounter (u : Interpreter V T) (p : Prim) (delta : Int) :
    ((u.addCounter p delta).mutexes p.key).wgCounter = (u.mutexes p.key).wgCounter + delta := by
  simp [addCounter]

/-- `add` after the release: the counter, and whether it is negative. -/
theorem answers_count (hv : u.violations = s.violations)
    (ha : (u.goroutines g).aborted = (s.goroutines g).aborted) (delta : Int) (site : String) :
    let counter := (u.mutexes p.key).wgCounter + delta
    let t := if counter < 0 then
      (u.addCounter p delta).recordViolation g (.waitGroupNegative site g counter)
      else u.addCounter p delta
    (t.mutexes p.key).record = { (u.mutexes p.key).record with wgCounter := counter } ∧
    s.seen t g = { s.seen u g with
      violations := if counter < 0 then
        Record.reported (s.caller g) (.waitGroupNegative site g counter) else [] } := by
  intro counter t
  have hm : ((u.addCounter p delta).mutexes p.key).record =
      { (u.mutexes p.key).record with wgCounter := counter } := by
    simp [addCounter, MutexState.record, counter]
  simp only [t]
  split
  · rw [recordViolation_mutexes]
    exact ⟨hm, seen_recordViolation (u := u.addCounter p delta) hv ha _⟩
  · refine ⟨hm, ?_⟩
    simp [seen, hv, addCounter, clockOf]

theorem answers_wgAdd (h : (s.goroutines g).wait = none) (delta : Int) (site : String) :
    Answers s (s.wgAdd g p delta site) p g (.add delta site) := by
  unfold wgAdd
  simp only [addCounter_wgCounter]
  split
  · rename_i hd
    have hms : (s.joinRelease g p).mutexes p.key = { s.mutexes p.key with
        lastUnlockClock := some (s.joinClock (s.mutexes p.key).lastUnlockClock g) } :=
      update_self ..
    have ha : ((s.joinRelease g p).goroutines g).aborted = (s.goroutines g).aborted := by
      simp [joinRelease, syncRelease, tickClock, setClock_self]
    obtain ⟨hr, ho⟩ := answers_count (p := p) (s := s) (u := s.joinRelease g p) rfl ha delta site
    have hrel : s.seen (s.joinRelease g p) g = Record.released (s.caller g) :=
      (Quiet.refl h).released ..
    rw [hrel] at ho
    refine .intro (if_pos hd) (hr.trans ?_) (ho.trans ?_)
    · simp [hms, MutexState.record, joinClock_clock, caller]
    · rw [hms]; rfl
  · rename_i hd
    obtain ⟨hr, ho⟩ := answers_count (p := p) (s := s) (u := s) (g := g) rfl rfl delta site
    rw [(Quiet.refl h).plain] at ho
    exact .intro (if_neg hd) hr ho

/-- The end of a wait. -/
theorem answers_groupWoken {w : Interpreter V T} (hq : Quiet s (w.setWait g none) g)
    (hm : w.mutexes p.key = s.mutexes p.key) (ha : (s.goroutines g).aborted = false)
    (hready : (s.mutexes p.key).wgCounter ≤ 0) : Answers s (w.groupWoken g p) p g .wait := by
  refine .intro ((if_neg (Bool.eq_false_iff.mp ha)).trans (if_pos hready)) ?_ ?_
  · rw [← hm]; rfl
  · refine (hq.acquired ..).trans ?_
    rw [hm]; rfl

theorem answers_groupWait : Answers s (s.groupWait cfg g p) p g .wait := by
  have hq : Quiet s ((s.setWait g (some (.group p))).setWait g none) g := by
    refine ⟨?_, ?_, ?_, ?_, rfl⟩ <;> simp [setWait, clockOf]
  have hab : ((s.setWait g (some (.group p))).goroutines g).aborted = (s.goroutines g).aborted := by
    simp [setWait]
  unfold groupWait block settle
  split
  · rename_i ha
    exact .intro (if_pos (hab.symm.trans ha)) rfl hq.plain
  · rename_i ha
    have ha' : (s.goroutines g).aborted = false := by simpa [hab] using ha
    split
    · rename_i hr
      exact answers_groupWoken hq rfl ha' (by simpa [ready, setWait] using hr)
    · rename_i hr
      have hr' : ¬ (s.mutexes p.key).wgCounter ≤ 0 := by simpa [ready, setWait] using hr
      refine .intro ((if_neg (Bool.eq_false_iff.mp ha')).trans (if_neg hr')) rfl ?_
      simp [observe, seen, Record.plain, caller, setWait, clockOf]

theorem answers_condSignal (h : (s.goroutines g).wait = none) :
    Answers s (s.condSignal g p) p g .signal := by
  refine .intro rfl ?_ ((Quiet.refl h).released ..)
  simp [condSignal, syncRelease, tickClock, setClock, snapshotClock, caller, MutexState.record]

theorem answers_condWait (h : (s.goroutines g).wait = none) :
    Answers s (s.condWait g p) p g .condWait :=
  .intro rfl rfl ((Quiet.refl h).acquired ..)

theorem startGoroutine_mutexes (s : Interpreter V T) (group : Option Prim) (site : String) :
    (s.startGoroutine cfg g group site).mutexes = s.mutexes := by
  unfold startGoroutine
  simp only
  split
  · exact recordViolation_mutexes ..
  · rfl

theorem answers_errgroupGo (site : String) : Answers s (s.errgroupGo cfg g p site) p g .go := by
  refine .intro rfl ?_ rfl
  rw [errgroupGo, startGoroutine_mutexes]
  simp [addCounter, MutexState.record]

theorem answers_exit (h : (s.goroutines g).wait = none) (ha : (s.goroutines g).aborted = false)
    (hp : (s.goroutines g).group = some p) : Answers s (s.exit g) p g .exit := by
  have hq : Quiet s (s.modify g fun r => { r with exited := true }) g := by
    refine ⟨?_, ?_, ?_, ?_, rfl⟩ <;> simp [clockOf, h]
  have ht : s.exit g = ((s.modify g fun r => { r with exited := true }).joinRelease g p).addCounter
      p (-1) := by
    simp [exit, hp, ha]
  refine .intro rfl ?_ ?_
  · rw [ht]
    simp [addCounter, joinRelease, syncRelease, tickClock, setClock, MutexState.record,
      joinClock_clock, caller, hq.clock, Int.sub_eq_add_neg]
  · rw [ht]
    exact hq.released .done _

/-! ## §4. One step -/

theorem primOf_of_called {a : Action V T} {call : SyncCall}
    (hc : s.called a = some (p, g, call)) : primOf s a = some p := by
  cases a with
  | start g' op =>
    cases op with
    | exit =>
      simp only [called] at hc
      split at hc
      · cases hc
      · obtain ⟨q, hq, heq⟩ := Option.map_eq_some_iff.mp hc
        cases heq
        exact hq
    | _ => cases hc <;> rfl
  | resume g' =>
    simp only [called] at hc
    split at hc <;> cases hc
    rename_i hw
    simp only [primOf, hw]
  | _ => cases hc

/-- **A call concerns one primitive only, and does there what it does to the
primitive alone.** -/
theorem called_step {a : Action V T} {call : SyncCall} (hB : Base s) (h : Step cfg s a t)
    (hc : s.called a = some (p, g, call)) :
    Answers s t p g call ∧ ∀ k, k ≠ p.key → t.mutexes k = s.mutexes k := by
  have hprim := primOf_of_called hc
  refine ⟨?_, fun k hk => (touches_step hB h).mutexes k fun q hq => ?_⟩
  swap
  · cases hprim.symm.trans hq
    exact hk
  cases stepped h with
  | start op hrun hx =>
    have hwait := hrun.2
    cases op with
    | mutex rw a m site => cases hc; exact answers_syncMutex hwait m site
    | wgAdd a delta site => cases hc; exact answers_wgAdd hwait delta site
    | wgWait | errgroupWait => cases hc; exact answers_groupWait
    | condSignal => cases hc; exact answers_condSignal hwait
    | condWait => cases hc; exact answers_condWait hwait
    | errgroupGo a site => cases hc; exact answers_errgroupGo site
    | exit =>
      simp only [called] at hc
      split at hc
      · cases hc
      · rename_i ha
        obtain ⟨q, hq, heq⟩ := Option.map_eq_some_iff.mp hc
        cases heq
        exact answers_exit hwait (Bool.eq_false_iff.mpr ha) hq
    | _ => cases hc
  | @resume g' wt hw hr ha =>
    simp only [called, hw.2] at hc
    cases wt with
    | group =>
      cases hc
      have hq : Quiet s (s.setWait g none) g := by
        refine ⟨?_, ?_, ?_, ?_, rfl⟩ <;> simp [setWait, clockOf]
      exact answers_groupWoken hq rfl ha (by simpa [ready] using hr)
    | _ => cases hc
  | _ => cases hc

/-- A step that makes no call leaves every primitive alone. -/
theorem uncalled_step {a : Action V T} (hB : Base s) (h : Step cfg s a t)
    (hc : s.called a = none) : t.mutexes = s.mutexes := by
  have hno : primOf s a = none → t.mutexes = s.mutexes := fun hn =>
    funext fun k => (touches_step hB h).mutexes k fun p hp => by cases hn.symm.trans hp
  cases a with
  | start g op =>
    cases op with
    | exit =>
      obtain ⟨-, rfl⟩ := step_of_start h
      simp only [called] at hc
      split at hc
      · -- the exit of a goroutine that is aborted
        rename_i ha
        show (s.exit g).mutexes = s.mutexes
        simp only [exit, modify_goroutines, update_self, ha, if_true]
        split <;> rfl
      · exact hno (Option.map_eq_none_iff.mp hc)
    | _ => first | exact hno rfl | cases hc
  | resume g =>
    refine hno ?_
    simp only [primOf]
    split
    · rename_i p hw
      simp [called, hw] at hc
    · rfl
  | _ => exact hno rfl

end Interpreter

/-! ## §5. Runs -/

theorem alone_snoc (rw : Bool) (c : Caller) (call : SyncCall) :
    ∀ (l : List (Caller × SyncCall)) {r r' : Record} {os : List Outcome},
      alone rw r l = (r', os) →
      alone rw r (l ++ [(c, call)]) = ((r'.call rw c call).1, os ++ [(r'.call rw c call).2])
  | [], r, r', os, h => by
    cases h
    rfl
  | (c', call') :: l, r, r', os, h => by
    simp only [List.cons_append, alone, Prod.mk.injEq] at h ⊢
    obtain ⟨hr, rfl⟩ := h
    rw [alone_snoc rw c call l (Prod.ext hr rfl)]
    exact ⟨rfl, rfl⟩

theorem onceAlone_succ : ∀ (n : Nat) {flag flag' : Bool} {ran : List Bool},
    onceAlone flag n = (flag', ran) → onceAlone flag (n + 1) = (true, ran ++ [!flag'])
  | 0, flag, flag', ran, h => by
    cases h
    rfl
  | n + 1, flag, flag', ran, h => by
    simp only [onceAlone, Prod.mk.injEq] at h
    obtain ⟨hf, rfl⟩ := h
    rw [onceAlone, onceAlone_succ n (Prod.ext hf rfl)]
    rfl

namespace Recorded

variable {cfg : Config V T} {s t : Recorded V T}

/-- `p` is alone at its place: no call is on another primitive that has its
record. -/
def Lone (s : Recorded V T) (p : Prim) : Prop := ∀ c ∈ s.calls, c.prim.key = p.key → c.prim = p

/-- No call of `Do` is on another Once with the same flag. -/
def LoneOnce (s : Recorded V T) (o : Addr) : Prop := ∀ d ∈ s.dos, d.1.alloc = o.alloc → d.1 = o

instance (s : Recorded V T) (p : Prim) : Decidable (Lone s p) :=
  inferInstanceAs (Decidable (∀ c ∈ s.calls, _ → _))

instance (s : Recorded V T) (o : Addr) : Decidable (LoneOnce s o) :=
  inferInstanceAs (Decidable (∀ d ∈ s.dos, _ → _))

/-- The record of a primitive, and what was seen of the calls on it, are what
they are for the primitive alone. -/
structure Independent (s : Recorded V T) : Prop where
  base : Interpreter.Base s.state.base
  prims : ∀ p, Lone s p →
    alone p.rw {} ((s.callsOn p).map fun c => (c.caller, c.call)) =
      ((s.state.base.mutexes p.key).record, (s.callsOn p).map (·.outcome))
  onces : ∀ o, LoneOnce s o →
    onceAlone false (s.dosOn o).length = (s.state.onceState o.alloc, s.dosOn o)

/-- What a step can do to the records, and to the calls. -/
theorem step_calls {a : OnceAction V T} (hB : Interpreter.Base s.state.base) (h : Step cfg s a t) :
    (t.calls = s.calls ∧ t.state.base.mutexes = s.state.base.mutexes) ∨
    ∃ c : Invocation, t.calls = s.calls ++ [c] ∧
      (s.state.base.mutexes c.prim.key).record.call c.prim.rw c.caller c.call =
        ((t.state.base.mutexes c.prim.key).record, c.outcome) ∧
      ∀ k, k ≠ c.prim.key → t.state.base.mutexes k = s.state.base.mutexes k := by
  obtain ⟨u, hu, rfl⟩ := Option.map_eq_some_iff.mp h
  rcases OnceState.step_cases hu with ⟨b, rfl, v, hv, rfl⟩ | ⟨g, o, rfl, -, -, rfl⟩ |
    ⟨g, o, rfl, -, -, rfl⟩ | ⟨g, o, rest, rfl, -, -, rfl⟩
  · cases hc : s.state.base.called b with
    | none =>
      refine .inl ⟨?_, Interpreter.uncalled_step hB hv hc⟩
      simp [invocations, hc]
    | some pgc =>
      obtain ⟨p, g, call⟩ := pgc
      obtain ⟨hans, hframe⟩ := Interpreter.called_step hB hv hc
      exact .inr ⟨⟨p, s.state.base.caller g, call, s.state.base.observe v g call⟩,
        by simp [invocations, hc], hans, hframe⟩
  all_goals exact .inl ⟨List.append_nil _, rfl⟩

/-- What a step can do to the flags, and to the calls of `Do`. -/
theorem step_dos {a : OnceAction V T} (h : Step cfg s a t) :
    (t.dos = s.dos ∧ t.state.onceState = s.state.onceState) ∨
    ∃ o, t.dos = s.dos ++ [(o, !s.state.onceState o.alloc)] ∧
      t.state.onceState = Function.update s.state.onceState o.alloc true := by
  obtain ⟨u, hu, rfl⟩ := Option.map_eq_some_iff.mp h
  rcases OnceState.step_cases hu with ⟨b, rfl, v, -, rfl⟩ | ⟨g, o, rfl, -, hf, rfl⟩ |
    ⟨g, o, rfl, -, -, rfl⟩ | ⟨g, o, rest, rfl, -, -, rfl⟩
  · exact .inl ⟨List.append_nil _, rfl⟩
  · refine .inr ⟨o, rfl, ?_⟩
    rw [← hf, Function.update_eq_self]
  · exact .inr ⟨o, rfl, rfl⟩
  · exact .inl ⟨List.append_nil _, rfl⟩

theorem Independent.step {a : OnceAction V T} (hI : Independent s) (h : Step cfg s a t) :
    Independent t where
  base := by
    obtain ⟨u, hu, rfl⟩ := Option.map_eq_some_iff.mp h
    rcases OnceState.step_cases hu with ⟨b, rfl, v, hv, rfl⟩ | ⟨g, o, rfl, -, -, rfl⟩ |
      ⟨g, o, rfl, -, -, rfl⟩ | ⟨g, o, rest, rfl, -, -, rfl⟩
    · exact hI.base.step hv
    all_goals exact hI.base
  prims p hp := by
    rcases step_calls hI.base h with ⟨hcalls, hm⟩ | ⟨c, hcalls, hans, hframe⟩
    · have hlone : Lone s p := by rwa [Lone, ← hcalls]
      rw [callsOn, hcalls, hm]
      exact hI.prims p hlone
    · have hlone : Lone s p := fun d hd => hp d (hcalls ▸ List.mem_append_left _ hd)
      have ih := hI.prims p hlone
      rw [callsOn, hcalls, List.filter_append]
      by_cases hk : c.prim.key = p.key
      · -- the call is on `p`: one more call of `p` alone
        obtain rfl : c.prim = p :=
          hp c (hcalls ▸ List.mem_append_right _ (List.mem_singleton.mpr rfl)) hk
        simp only [List.filter_cons, decide_true, if_true, List.filter_nil, List.map_append,
          List.map_cons, List.map_nil]
        refine (alone_snoc _ _ _ _ ih).trans ?_
        rw [hans]
        rfl
      · have hne : c.prim ≠ p := fun he => hk (he ▸ rfl)
        simp only [List.filter_cons, hne, decide_false, List.filter_nil, List.append_nil,
          Bool.false_eq_true, if_false]
        rw [hframe p.key (Ne.symm hk)]
        exact ih
  onces o ho := by
    rcases step_dos h with ⟨hdos, hf⟩ | ⟨o', hdos, hf⟩
    · have hlone : LoneOnce s o := by rwa [LoneOnce, ← hdos]
      rw [dosOn, hdos, hf]
      exact hI.onces o hlone
    · have hlone : LoneOnce s o := fun d hd => ho d (hdos ▸ List.mem_append_left _ hd)
      have ih := hI.onces o hlone
      rw [dosOn, hdos, hf, List.filter_append]
      by_cases hk : o'.alloc = o.alloc
      · obtain rfl : o' = o :=
          ho (o', _) (hdos ▸ List.mem_append_right _ (List.mem_singleton.mpr rfl)) hk
        simp only [List.filter_cons, decide_true, if_true, List.filter_nil, List.map_append,
          List.map_cons, List.map_nil, List.length_append, List.length_singleton,
          update_self]
        exact onceAlone_succ _ ih
      · have hne : o' ≠ o := fun he => hk (he ▸ rfl)
        simp only [List.filter_cons, hne, decide_false, List.filter_nil, List.append_nil,
          Bool.false_eq_true, if_false, update_of_ne (Ne.symm hk)]
        exact ih

theorem independent_init (cfg : Config V T) : Independent (init cfg) :=
  ⟨Interpreter.base_init cfg, fun _ _ => rfl, fun _ _ => rfl⟩

/-- **Synchronization primitives are independent, if they do not share an
allocation.** In every state of every run, the record of a primitive and
what was seen of the calls on it (clocks, violations, panics, waits) are
those of the primitive alone, under the same calls by the same callers, if
no other primitive with its record was called; the same holds of the flag of
a Once, and of which calls of `Do` ran `f`. -/
theorem primitives_independent {acts : List (OnceAction V T)}
    (hrun : Transition.Run (Step cfg) (init cfg) acts s) :
    (∀ p, Lone s p →
      alone p.rw {} ((s.callsOn p).map fun c => (c.caller, c.call)) =
        ((s.state.base.mutexes p.key).record, (s.callsOn p).map (·.outcome))) ∧
    ∀ o, LoneOnce s o →
      onceAlone false (s.dosOn o).length = (s.state.onceState o.alloc, s.dosOn o) := by
  have hI : Independent s :=
    hrun.invariant (fun _ _ _ h hI => hI.step h) (independent_init cfg)
  exact ⟨hI.prims, hI.onces⟩

/-- The state after a run. -/
def reached (cfg : Config V T) (acts : List (OnceAction V T)) : Recorded V T :=
  (Transition.exec (step cfg) (init cfg) acts).getD (init cfg)

/-- `a.Lock(); b.Unlock(); o.Do(f); p.Do(f)`. -/
def lockUnlock (a b : Addr) (o p : Addr) : List (OnceAction Nat Unit) :=
  [.base (.start 1 (.mutex false a .lock "")), .base (.start 1 (.mutex false b .unlock "")),
    .doCall 1 o, .doReturn 1, .doCall 1 p]

theorem primitives_independent_two :
    let s := reached (natConfig true) (lockUnlock ⟨1, 0⟩ ⟨2, 0⟩ ⟨3, 0⟩ ⟨4, 0⟩)
    alone false {} ((s.callsOn ⟨2, 0, .mutex⟩).map fun c => (c.caller, c.call)) =
        ((s.state.base.mutexes ⟨false, 2⟩).record, (s.callsOn ⟨2, 0, .mutex⟩).map (·.outcome)) ∧
      onceAlone false 1 = (s.state.onceState 4, [true]) := by
  have hrun : Transition.Run (Step (natConfig true)) (init (natConfig true)) _
      (reached (natConfig true) (lockUnlock ⟨1, 0⟩ ⟨2, 0⟩ ⟨3, 0⟩ ⟨4, 0⟩)) :=
    Transition.run_of_exec (Transition.exec_getD (by decide))
  exact ⟨(primitives_independent hrun).1 ⟨2, 0, .mutex⟩ (by decide),
    (primitives_independent hrun).2 ⟨4, 0⟩ (by decide)⟩

/-- **Two fields of one struct are not independent.** `b` was never locked,
and alone its `Unlock` is an error; here it is none, because `a` is locked.
And `p.Do` does not run `f`, because `o.Do` did. -/
theorem shared_record :
    ∃ s : Recorded Nat Unit,
      Transition.Run (Step (natConfig true)) (init (natConfig true))
        (lockUnlock ⟨1, 0⟩ ⟨1, 8⟩ ⟨2, 0⟩ ⟨2, 12⟩) s ∧
      (s.callsOn ⟨1, 8, .mutex⟩).map (·.outcome.violations) = [[]] ∧
      (alone false {} ((s.callsOn ⟨1, 8, .mutex⟩).map fun c => (c.caller, c.call))).2.map
        (·.violations) = [[.mutexUnlock "Unlock" "" 1]] ∧
      s.dosOn ⟨2, 12⟩ = [false] ∧ (onceAlone false 1).2 = [true] :=
  ⟨_, Transition.run_of_exec (Transition.exec_getD (by decide)), by decide, by decide, by decide,
    by decide⟩

end Recorded

end Giri.Interp
