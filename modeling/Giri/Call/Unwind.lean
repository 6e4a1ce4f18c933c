/-
Giri.Call.Unwind — the call stack of one goroutine: frames, deferred calls,
panics, recover, and the ways it ends (`execFunction`, `execBlock`,
`popFrame`, `runFrameDefers`, `executeDeferred`).

The source is recursive: `execFunction` interprets blocks, a call in them is
another `execFunction`, and `runFrameDefers` calls `executeDeferred`, which
calls `execFunction`. Here the recursion is a stack of frames, each with the
place where its `execFunction` is (`Phase`), and a step is one thing that
happens on top of it. Which instructions a body has is not determined, so
every program is among the runs.

A goroutine has ONE `Panicking`, `PanicValue` and `Recovered`. What Go has
instead, a stack of panics (`Panic`), is kept next to them as history; so is
a log of the deferred calls. Nothing in the model reads either.

What the intercepted calls (sync, stdlib, arenas, cancel functions) do is a
parameter: a call `n : N` changes a world `W`. An intercepted call may call
functions back, wait, panic and halt the goroutine, but it does not start a
panic while one unwinds.
-/
import Giri.Lib.Transition

namespace Giri.Call

/-! ## §1. Frames -/

/-- What `executeDeferred` makes of a deferred call. -/
inductive Callee (N : Type) where
  /-- A closure, or a function with blocks. `hasRecover` is
  `fn.Recover != nil`. -/
  | body (hasRecover : Bool)
  /-- Intercepted: the sync package, the standard library, `.Free`, a cancel
  function. -/
  | native (n : N)
  /-- None of the cases of `executeDeferred`: a function value that is no
  closure, an interface method, a builtin, an external function. -/
  | unknown
  deriving DecidableEq, Repr

def Callee.isNative {N : Type} : Callee N → Bool
  | .native _ => true
  | _ => false

/-- `DeferredCall`, with its number. -/
structure Deferred (N : Type) where
  id : Nat
  callee : Callee N
  deriving DecidableEq, Repr

/-- Where `runFrameDefers` was called. `inRecover` is whether the
`ssa.RunDefers` is in the Recover blocks. -/
inductive Trigger where
  | runDefers (inRecover : Bool)
  /-- The panic path of `execFunction`. -/
  | unwind
  | popFrame
  deriving DecidableEq, Repr

/-- A deferred call in `executeDeferred`: its number, whether it is
intercepted, and whether `g.Panicking` was set before. -/
structure Running where
  id : Nat
  native : Bool
  panicking : Bool
  deriving DecidableEq, Repr

/-- Where `execFunction` is. -/
inductive Phase where
  /-- In one of the loops over blocks: the function's, or the Recover
  block's. -/
  | blocks (inRecover : Bool)
  /-- In `runFrameDefers`, with its local `recovered`. -/
  | defers (t : Trigger) (recovered : Bool) (running : Option Running)
  deriving DecidableEq, Repr

/-- `Frame`. `defers` has the last one registered first. `deferred` is the
deferred call that the frame belongs to, if it does. -/
structure Frame (N : Type) where
  id : Nat
  deferred : Option Nat
  hasRecover : Bool
  defers : List (Deferred N) := []
  phase : Phase := .blocks false

namespace Frame

variable {N : Type}

def inBlocks (f : Frame N) : Bool :=
  match f.phase with
  | .blocks _ => true
  | .defers _ _ _ => false

/-- The frame is at an instruction, or in intercepted code. -/
def executing (f : Frame N) : Bool :=
  match f.phase with
  | .blocks _ => true
  | .defers _ _ (some run) => run.native
  | .defers _ _ none => false

end Frame

/-! ## §2. Panics as Go has them -/

/-- A panic: its value, the deferred call that its unwinding is running, and
whether it has been recovered. -/
structure Panic (V : Type) where
  value : V
  running : Option Nat := none
  recovered : Bool := false
  deriving DecidableEq, Repr

namespace Panics

variable {V : Type}

/-- A new panic. -/
def raise (v : V) (ps : List (Panic V)) : List (Panic V) := { value := v } :: ps

/-- The unwinding of the innermost panic runs the deferred call `d`. -/
def runs (d : Nat) : List (Panic V) → List (Panic V)
  | [] => []
  | p :: ps => { p with running := some d } :: ps

/-- The deferred call run by an unwinding is over. If a new panic has come
out of it, that one replaces the one that was unwinding. If not, and the
panic was recovered, it ends here. -/
def ended : List (Panic V) → List (Panic V)
  | [] => []
  | p :: ps =>
    match p.running with
    | none => p :: ps.tail
    | some _ => if p.recovered then ps else { p with running := none } :: ps

/-- recover, called by the function of the deferred call `d`, or (`none`) by
a function that is not that of a deferred call: what it returns, and the
panics then. -/
def recover (d : Option Nat) : List (Panic V) → Option V × List (Panic V)
  | [] => (none, [])
  | p :: ps =>
    if p.running.isSome && p.running == d && !p.recovered then
      (some p.value, { p with recovered := true } :: ps)
    else (none, p :: ps)

end Panics

/-! ## §3. The goroutine -/

/-- What happened. Deferred calls are given with their frame. -/
inductive Event (V : Type) where
  | registered (frame d : Nat)
  /-- The call is run: the first instruction of its function is next, or it
  was intercepted. -/
  | ran (frame d : Nat)
  /-- `executeDeferred` has come back without running anything. -/
  | lost (frame d : Nat)
  | popped (frame : Nat)
  /-- recover: what it returned, and what it returns in Go. -/
  | recovered (got want : Option V)
  | aborted
  | halted
  deriving DecidableEq, Repr

/-- The goroutine; `blocked` is `Status == GoroutineBlocked` after a wait
that did not end. `probes` are the stack depths of the running probes. -/
structure Goroutine (N V W : Type) where
  stack : List (Frame N)
  panicking : Bool := false
  panicked : Bool := false
  recovered : Bool := false
  /-- `PanicValue`; `none` is a nil `Raw`. -/
  panicValue : Option V := none
  aborted : Bool := false
  blocked : Bool := false
  probes : List Nat := []
  /-- What `hostMain` runs at the end: `onExit`. -/
  onExit : Option N := none
  finished : Bool := false
  world : W
  nextFrame : Nat := 0
  nextDefer : Nat := 0
  panics : List (Panic V) := []
  log : List (Event V) := []

/-- The steps. -/
inductive Act (N V : Type) where
  /-- A call of a function with blocks, by an instruction or by intercepted
  code. -/
  | call (hasRecover : Bool)
  /-- `ssa.Defer`. -/
  | defer (callee : Callee N)
  /-- `ssa.Panic`, or a run-time panic. -/
  | panic (v : V)
  | recover
  | runDefers
  /-- An intercepted call. -/
  | native (n : N)
  /-- A fatal stop, by this goroutine or by another while this one waits. -/
  | halt
  /-- A wait of the goroutine is aborted. -/
  | abort
  /-- A wait inside a probe is given up. -/
  | giveUp
  /-- Intercepted code begins to run a callback early. -/
  | probe
  | endProbe
  /-- A loop over blocks ends: a return, or the goroutine is stopped. -/
  | leave
  /-- The next iteration in `runFrameDefers`. -/
  | next
  /-- `executeDeferred` returns. -/
  | done
  /-- The end of `hostMain`. -/
  | finish
  deriving DecidableEq, Repr

namespace Goroutine

variable {N V W : Type}

def emit (s : Goroutine N V W) (e : Event V) : Goroutine N V W := { s with log := s.log ++ [e] }

/-- What every loop checks before it goes on. -/
def stopped (s : Goroutine N V W) : Bool := s.panicked || s.panicking || s.blocked

/-- A probe was started by the code on top of the stack, and is not over. -/
def inProbe (s : Goroutine N V W) : Bool := s.probes.head? == some s.stack.length

/-- `pushFrame`. -/
def pushFrame (s : Goroutine N V W) (deferred : Option Nat) (hasRecover : Bool) :
    Goroutine N V W :=
  { s with
    stack := { id := s.nextFrame, deferred, hasRecover } :: s.stack
    nextFrame := s.nextFrame + 1 }

/-- The end of `popFrame`. -/
def dropFrame (s : Goroutine N V W) (f : Frame N) (rest : List (Frame N)) : Goroutine N V W :=
  { s with stack := rest }.emit (.popped f.id)

/-- `popFrame`, up to the loop of `runFrameDefers`, which an aborted
goroutine does not reach. -/
def popFrame (s : Goroutine N V W) (f : Frame N) (rest : List (Frame N)) : Goroutine N V W :=
  if s.aborted then s.dropFrame f rest
  else { s with stack := { f with phase := .defers .popFrame false none } :: rest }

/-- The code after a call of `runFrameDefers`. -/
def afterDefers (s : Goroutine N V W) (f : Frame N) (rest : List (Frame N)) (t : Trigger)
    (recovered : Bool) : Goroutine N V W :=
  match t with
  | .runDefers inRecover => { s with stack := { f with phase := .blocks inRecover } :: rest }
  | .unwind =>
    if recovered && f.hasRecover && !s.panicking && !s.panicked then
      { s with stack := { f with phase := .blocks true } :: rest }
    else s.popFrame f rest
  | .popFrame => s.dropFrame f rest

/-- `runFrameDefers`, up to its loop. -/
def runFrameDefers (s : Goroutine N V W) (f : Frame N) (rest : List (Frame N)) (t : Trigger) :
    Goroutine N V W :=
  if s.aborted then s.afterDefers { f with defers := [] } rest t false
  else { s with stack := { f with phase := .defers t false none } :: rest }

/-- The end of a loop over blocks. -/
def leave (s : Goroutine N V W) (f : Frame N) (rest : List (Frame N)) (inRecover : Bool) :
    Goroutine N V W :=
  if !inRecover && s.panicking && !s.panicked then s.runFrameDefers f rest .unwind
  else s.popFrame f rest

/-- `executeDeferred`, up to the first instruction of the function. -/
def executeDeferred (env : N → W → W) (s : Goroutine N V W) (frame : Nat) (d : Deferred N) :
    Goroutine N V W :=
  match d.callee with
  | .body hasRecover =>
    (s.emit (if s.stopped then .lost frame d.id else .ran frame d.id)).pushFrame (some d.id)
      hasRecover
  | .native n => { s with world := env n s.world }.emit (.ran frame d.id)
  | .unknown => s.emit (.lost frame d.id)

/-- An iteration in `runFrameDefers`, up to `executeDeferred`. -/
def next (env : N → W → W) (s : Goroutine N V W) (f : Frame N) (rest : List (Frame N))
    (t : Trigger) (recovered : Bool) : Goroutine N V W :=
  match f.defers with
  | [] => s.afterDefers f rest t recovered
  | d :: ds =>
    let run : Running := ⟨d.id, d.callee.isNative, s.panicking⟩
    let s := { s with
      stack := { f with defers := ds, phase := .defers t recovered (some run) } :: rest }
    let s := if s.panicking then
        { s with panicking := false, recovered := false, panics := Panics.runs d.id s.panics }
      else s
    s.executeDeferred env f.id d

/-- The rest of an iteration in `runFrameDefers`. -/
def done (s : Goroutine N V W) (f : Frame N) (rest : List (Frame N)) (t : Trigger)
    (recovered : Bool) (run : Running) : Goroutine N V W :=
  let again (s : Goroutine N V W) (recovered : Bool) : Goroutine N V W :=
    { s with stack := { f with phase := .defers t recovered none } :: rest }
  let check (s : Goroutine N V W) : Goroutine N V W :=
    if s.panicked then s.afterDefers f rest t recovered else again s recovered
  if run.panicking then
    let s := { s with panics := Panics.ended s.panics }
    -- `continue` skips the check of `g.Panicked`
    if s.recovered then again { s with recovered := false } true
    else check { s with panicking := true }
  else check s

/-- The builtin recover. -/
def recover (s : Goroutine N V W) (f : Frame N) : Goroutine N V W :=
  let (want, panics) := Panics.recover f.deferred s.panics
  let s := { s with panics := panics }
  match s.panicking, s.panicValue with
  | false, some v =>
    { s with panicValue := none, recovered := true }.emit (.recovered (some v) want)
  | _, _ => s.emit (.recovered none want)

/-- The effect of a step with `f` on top of the stack; `none` if it can't be
taken. -/
def stepFrame (env : N → W → W) (s : Goroutine N V W) (f : Frame N) (rest : List (Frame N)) :
    Act N V → Option (Goroutine N V W)
  | .call hasRecover => if f.executing then some (s.pushFrame none hasRecover) else none
  | .defer callee =>
    if f.inBlocks && !s.stopped && !s.inProbe then
      some ({ s with
        stack := { f with defers := ⟨s.nextDefer, callee⟩ :: f.defers } :: rest
        nextDefer := s.nextDefer + 1 }.emit (.registered f.id s.nextDefer))
    else none
  | .panic v =>
    if f.executing && !s.stopped && !s.inProbe then
      some { s with panicking := true, panicValue := some v, panics := Panics.raise v s.panics }
    else none
  | .recover =>
    if f.inBlocks && !s.stopped && !s.inProbe then some (s.recover f) else none
  | .runDefers =>
    match f.phase with
    | .blocks inRecover =>
      if !s.stopped && !s.inProbe then some (s.runFrameDefers f rest (.runDefers inRecover))
      else none
    | .defers _ _ _ => none
  | .native n =>
    if f.inBlocks && !s.stopped && !s.inProbe then some { s with world := env n s.world }
    else none
  | .halt => if f.executing then some ({ s with panicked := true }.emit .halted) else none
  | .abort =>
    if f.executing && !s.panicking && !s.blocked && !s.aborted then
      some ({ s with blocked := true, aborted := true }.emit .aborted)
    else none
  | .giveUp =>
    if f.executing && !s.panicking && !s.blocked && !s.probes.isEmpty then
      some { s with blocked := true }
    else none
  | .probe =>
    if f.executing && !s.stopped && !s.inProbe then
      some { s with probes := s.stack.length :: s.probes }
    else none
  | .endProbe =>
    if s.inProbe then some { s with probes := s.probes.tail, blocked := s.blocked && s.aborted }
    else none
  | .leave =>
    match f.phase with
    | .blocks inRecover => if s.inProbe then none else some (s.leave f rest inRecover)
    | .defers _ _ _ => none
  | .next =>
    match f.phase with
    | .defers t recovered none =>
      -- a probe is begun by code that executes, so none is open here
      if s.inProbe then none else some (s.next env f rest t recovered)
    | _ => none
  | .done =>
    match f.phase with
    | .defers t recovered (some run) =>
      if s.inProbe then none else some (s.done f rest t recovered run)
    | _ => none
  | .finish => none

/-- The end of `hostMain`: `onExit`, unless the goroutine was aborted. -/
def finish (env : N → W → W) (s : Goroutine N V W) : Goroutine N V W :=
  { s with
    finished := true
    world := match s.onExit with
      | some n => if s.aborted then s.world else env n s.world
      | none => s.world }

/-- The effect of a step; `none` if it can't be taken. -/
def step (env : N → W → W) (s : Goroutine N V W) (a : Act N V) : Option (Goroutine N V W) :=
  match s.stack, a with
  | f :: rest, a => s.stepFrame env f rest a
  | [], .finish => if s.finished then none else some (s.finish env)
  | [], _ => none

def Step (env : N → W → W) (s : Goroutine N V W) (a : Act N V) (t : Goroutine N V W) : Prop :=
  s.step env a = some t

/-- A goroutine in the first frame of its function. -/
def init (world : W) (hasRecover : Bool) (onExit : Option N) : Goroutine N V W :=
  { stack := [{ id := 0, deferred := none, hasRecover }]
    onExit
    world
    nextFrame := 1 }

/-- The state after some steps; `s` if one of them can't be taken. -/
def reached (env : N → W → W) (s : Goroutine N V W) (acts : List (Act N V)) : Goroutine N V W :=
  (Transition.exec (step env) s acts).getD s

/-- The same from the start of a function, where intercepted calls do
nothing: for examples. -/
def after (acts : List (Act Unit Nat)) : Goroutine Unit Nat Unit :=
  reached (fun _ w => w) (init () false none) acts

/-! ## §4. What a step can do -/

variable {env : N → W → W} {s t : Goroutine N V W} {f : Frame N} {rest : List (Frame N)}
  {a : Act N V}

/-- The steps with a frame on the stack, one for each action. -/
inductive Effect (env : N → W → W) (s : Goroutine N V W) (f : Frame N) (rest : List (Frame N)) :
    Act N V → Goroutine N V W → Prop where
  | call (hasRecover : Bool) (hf : f.executing = true) :
      Effect env s f rest (.call hasRecover) (s.pushFrame none hasRecover)
  | defer (callee : Callee N) (hf : f.inBlocks = true) (hs : s.stopped = false) :
      Effect env s f rest (.defer callee)
        ({ s with
          stack := { f with defers := ⟨s.nextDefer, callee⟩ :: f.defers } :: rest
          nextDefer := s.nextDefer + 1 }.emit (.registered f.id s.nextDefer))
  | panic (v : V) (hf : f.executing = true) (hs : s.stopped = false) :
      Effect env s f rest (.panic v)
        { s with panicking := true, panicValue := some v, panics := Panics.raise v s.panics }
  | recover (hf : f.inBlocks = true) (hs : s.stopped = false) :
      Effect env s f rest .recover (s.recover f)
  | runDefers (inRecover : Bool) (hf : f.phase = .blocks inRecover) (hs : s.stopped = false)
      (hp : s.inProbe = false) :
      Effect env s f rest .runDefers (s.runFrameDefers f rest (.runDefers inRecover))
  | native (n : N) (hf : f.inBlocks = true) (hs : s.stopped = false) :
      Effect env s f rest (.native n) { s with world := env n s.world }
  | halt (hf : f.executing = true) :
      Effect env s f rest .halt ({ s with panicked := true }.emit .halted)
  | abort (hf : f.executing = true) (hs : s.panicking = false) (ha : s.aborted = false) :
      Effect env s f rest .abort ({ s with blocked := true, aborted := true }.emit .aborted)
  | giveUp (hf : f.executing = true) (hs : s.panicking = false) (hp : s.probes ≠ []) :
      Effect env s f rest .giveUp { s with blocked := true }
  | probe (hf : f.executing = true) (hs : s.stopped = false) :
      Effect env s f rest .probe { s with probes := s.stack.length :: s.probes }
  | endProbe (hp : s.inProbe = true) :
      Effect env s f rest .endProbe
        { s with probes := s.probes.tail, blocked := s.blocked && s.aborted }
  | leave (inRecover : Bool) (hf : f.phase = .blocks inRecover) (hp : s.inProbe = false) :
      Effect env s f rest .leave (s.leave f rest inRecover)
  | next (t : Trigger) (recovered : Bool) (hf : f.phase = .defers t recovered none)
      (hp : s.inProbe = false) :
      Effect env s f rest .next (s.next env f rest t recovered)
  | done (t : Trigger) (recovered : Bool) (run : Running)
      (hf : f.phase = .defers t recovered (some run)) (hp : s.inProbe = false) :
      Effect env s f rest .done (s.done f rest t recovered run)

theorem effect_of_stepFrame (h : s.stepFrame env f rest a = some t) : Effect env s f rest a t := by
  -- the guards of a step, and the state after it
  cases a <;> simp only [stepFrame, Option.ite_none_right_eq_some, Option.some.injEq,
    Bool.and_eq_true, Bool.not_eq_true', List.isEmpty_eq_false_iff, reduceCtorEq] at h
  case call b =>
    obtain ⟨hf, rfl⟩ := h
    exact .call b hf
  case defer c =>
    obtain ⟨⟨⟨hf, hs⟩, -⟩, rfl⟩ := h
    exact .defer c hf hs
  case panic v =>
    obtain ⟨⟨⟨hf, hs⟩, -⟩, rfl⟩ := h
    exact .panic v hf hs
  case recover =>
    obtain ⟨⟨⟨hf, hs⟩, -⟩, rfl⟩ := h
    exact .recover hf hs
  case runDefers =>
    split at h
    · rename_i b hf
      simp only [Option.ite_none_right_eq_some, Option.some.injEq] at h
      obtain ⟨⟨hs, hp⟩, rfl⟩ := h
      exact .runDefers b hf hs hp
    · cases h
  case native n =>
    obtain ⟨⟨⟨hf, hs⟩, -⟩, rfl⟩ := h
    exact .native n hf hs
  case halt =>
    obtain ⟨hf, rfl⟩ := h
    exact .halt hf
  case abort =>
    obtain ⟨⟨⟨⟨hf, hs⟩, -⟩, ha⟩, rfl⟩ := h
    exact .abort hf hs ha
  case giveUp =>
    obtain ⟨⟨⟨⟨hf, hs⟩, -⟩, hp⟩, rfl⟩ := h
    exact .giveUp hf hs hp
  case probe =>
    obtain ⟨⟨⟨hf, hs⟩, -⟩, rfl⟩ := h
    exact .probe hf hs
  case endProbe =>
    obtain ⟨hp, rfl⟩ := h
    exact .endProbe hp
  case leave =>
    split at h
    · rename_i b hf
      simp only [Option.ite_none_left_eq_some, Option.some.injEq, Bool.not_eq_true] at h
      obtain ⟨hp, rfl⟩ := h
      exact .leave b hf hp
    · cases h
  case next =>
    split at h
    · rename_i tr r hf
      simp only [Option.ite_none_left_eq_some, Option.some.injEq, Bool.not_eq_true] at h
      obtain ⟨hp, rfl⟩ := h
      exact .next tr r hf hp
    · cases h
  case done =>
    split at h
    · rename_i tr r run hf
      simp only [Option.ite_none_left_eq_some, Option.some.injEq, Bool.not_eq_true] at h
      obtain ⟨hp, rfl⟩ := h
      exact .done tr r run hf hp
    · cases h

/-- **A step acts on the frame on top of the stack**, or ends the goroutine. -/
theorem step_effect (h : Step env s a t) :
    (∃ f rest, s.stack = f :: rest ∧ Effect env s f rest a t) ∨
    (s.stack = [] ∧ a = .finish ∧ t = s.finish env) := by
  unfold Step step at h
  split at h
  · rename_i _ f rest hstack
    exact .inl ⟨f, rest, hstack, effect_of_stepFrame h⟩
  · rename_i hstack
    simp only [Option.ite_none_left_eq_some, Option.some.injEq] at h
    exact .inr ⟨hstack, rfl, h.2.symm⟩
  · cases h

/-- The top frame is put in a phase in which it runs no deferred call, or is
dropped. An aborted goroutine's deferred calls may be dropped with it, and
are when it would begin to run them. -/
inductive Moved (s : Goroutine N V W) (f : Frame N) (rest : List (Frame N)) :
    Goroutine N V W → Prop where
  | phase (ph : Phase) (ds : List (Deferred N)) (hph : ∀ t r run, ph ≠ .defers t r (some run))
      (hds : ds = f.defers ∨ s.aborted = true ∧ ds = [])
      (ha : s.aborted = true → ds = [] ∨ f.inBlocks = false ∨ ∃ b, ph = .blocks b) :
      Moved s f rest { s with stack := { f with phase := ph, defers := ds } :: rest }
  | drop (hds : f.defers = [] ∨ s.aborted = true ∨ s.panicked = true) :
      Moved s f rest (s.dropFrame f rest)

theorem moved_popFrame (s : Goroutine N V W) (f : Frame N) (rest : List (Frame N)) :
    Moved s f rest (s.popFrame f rest) := by
  unfold popFrame
  split
  · rename_i ha
    exact .drop (.inr (.inl ha))
  · rename_i ha
    exact .phase _ _ nofun (.inl rfl) fun h => absurd h ha

/-- The loop of `runFrameDefers` ends when no deferred call is left, or the
goroutine is halted. -/
theorem moved_afterDefers (tr : Trigger) (r : Bool)
    (h : f.defers = [] ∨ s.aborted = true ∨ s.panicked = true) :
    Moved s f rest (s.afterDefers f rest tr r) := by
  cases tr with
  | runDefers b => exact .phase _ _ nofun (.inl rfl) fun _ => .inr (.inr ⟨b, rfl⟩)
  | unwind =>
    simp only [afterDefers]
    split
    · exact .phase _ _ nofun (.inl rfl) fun _ => .inr (.inr ⟨true, rfl⟩)
    · exact moved_popFrame s f rest
  | popFrame => exact .drop h

/-- The deferred calls of an aborted goroutine may be dropped first. -/
theorem Moved.of_cleared (ha : s.aborted = true) (h : Moved s { f with defers := [] } rest t) :
    Moved s f rest t := by
  cases h with
  | phase ph ds hph hds =>
    have hnil : ds = [] := hds.elim id And.right
    exact .phase ph ds hph (.inr ⟨ha, hnil⟩) fun _ => .inl hnil
  | drop => exact .drop (.inr (.inl ha))

theorem moved_runFrameDefers (tr : Trigger) : Moved s f rest (s.runFrameDefers f rest tr) := by
  unfold runFrameDefers
  split
  · rename_i ha
    exact .of_cleared ha (moved_afterDefers tr false (.inl rfl))
  · rename_i ha
    exact .phase _ _ nofun (.inl rfl) fun h => absurd h ha

theorem moved_leave (inRecover : Bool) : Moved s f rest (s.leave f rest inRecover) := by
  unfold leave
  split
  · exact moved_runFrameDefers _
  · exact moved_popFrame s f rest

/-- The check of `g.Panicked` in `runFrameDefers`, and the next iteration. -/
theorem moved_check (s : Goroutine N V W) (rest : List (Frame N)) {tr : Trigger} {r : Bool}
    {run : Option Running} (hph : f.phase = .defers tr r run) (r' : Bool) :
    Moved s f rest (if s.panicked then s.afterDefers f rest tr r'
      else { s with stack := { f with phase := .defers tr r' none } :: rest }) := by
  split
  · rename_i hp
    exact moved_afterDefers tr r' (.inr (.inr hp))
  · exact .phase _ _ nofun (.inl rfl) fun _ => .inr (.inl (by simp [Frame.inBlocks, hph]))

/-- The state is `s`, but for the flags of panics. -/
inductive Like (s : Goroutine N V W) : Goroutine N V W → Prop where
  | mk (panicking recovered : Bool) (panics : List (Panic V)) :
      Like s { s with panicking, recovered, panics }

theorem Like.stack {u : Goroutine N V W} (h : Like s u) : u.stack = s.stack := by
  cases h
  rfl

theorem moved_done (s : Goroutine N V W) (rest : List (Frame N)) {tr : Trigger} {r : Bool}
    {run : Running} (hph : f.phase = .defers tr r (some run)) :
    ∃ u, Like s u ∧ Moved u f rest (s.done f rest tr r run) := by
  unfold done
  dsimp only
  split
  · split
    · refine ⟨{ s with panics := Panics.ended s.panics, recovered := false }, ⟨_, _, _⟩, ?_⟩
      exact .phase _ _ nofun (.inl rfl) fun _ => .inr (.inl (by simp [Frame.inBlocks, hph]))
    · exact ⟨{ s with panicking := true, panics := Panics.ended s.panics }, ⟨_, _, _⟩,
        moved_check _ rest hph r⟩
  · exact ⟨s, ⟨_, _, _⟩, moved_check s rest hph r⟩

theorem next_nil (env : N → W → W) (s : Goroutine N V W) (rest : List (Frame N)) (tr : Trigger)
    (r : Bool) (hds : f.defers = []) :
    s.next env f rest tr r = s.afterDefers f rest tr r := by
  simp [next, hds]

/-- The goroutine when the next deferred call has been taken. -/
theorem next_cons (env : N → W → W) (s : Goroutine N V W) (rest : List (Frame N)) (tr : Trigger)
    (r : Bool) {d : Deferred N} {ds : List (Deferred N)} (hds : f.defers = d :: ds) :
    ∃ u : Goroutine N V W, s.next env f rest tr r = u.executeDeferred env f.id d ∧
      u.panicking = false ∧
      Like { s with stack := { f with
        defers := ds
        phase := .defers tr r (some ⟨d.id, d.callee.isNative, s.panicking⟩) } :: rest } u := by
  simp only [next, hds]
  refine ⟨_, rfl, ?_⟩
  split
  · exact ⟨rfl, _, _, _⟩
  · rename_i hp
    exact ⟨Bool.eq_false_iff.mpr hp, _, _, _⟩

/-- What `executeDeferred` logs: the call is run, unless the goroutine is
stopped and the call is not intercepted, or nothing is known of the callee.
A frame is pushed, or the world changes. -/
theorem executeDeferred_cases (env : N → W → W) (s : Goroutine N V W) (n : Nat) (d : Deferred N) :
    ∃ e : Event V, (e = .ran n d.id ∨ e = .lost n d.id) ∧
      (s.stopped = false → d.callee ≠ .unknown → e = .ran n d.id) ∧
      (s.stopped = true → d.callee.isNative = false → e = .lost n d.id) ∧
      ((∃ b, s.executeDeferred env n d = (s.emit e).pushFrame (some d.id) b) ∨
        ∃ w, s.executeDeferred env n d = { s with world := w }.emit e) := by
  unfold executeDeferred
  split
  · rename_i b hb
    refine ⟨_, ?_, fun hs _ => ?_, fun hs _ => ?_, .inl ⟨b, rfl⟩⟩
    · split
      · exact .inr rfl
      · exact .inl rfl
    · rw [if_neg (Bool.eq_false_iff.mp hs)]
    · rw [if_pos hs]
  · rename_i m hm
    refine ⟨_, .inl rfl, fun _ _ => rfl, fun _ hn => ?_, .inr ⟨_, rfl⟩⟩
    rw [hm] at hn
    cases hn
  · rename_i hu
    exact ⟨_, .inr rfl, fun _ hne => absurd hu hne, fun _ _ => rfl, .inr ⟨s.world, rfl⟩⟩

end Goroutine

end Giri.Call
