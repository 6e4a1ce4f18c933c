/-
Giri.Interp.Once — `sync.Once` (`handleSyncCall`, `callFuncArg`).

`Do` sets the flag of the Once and then runs `f` in place, as a call on the
same goroutine. The flag is found under the allocation, and there is no
clock with it.

The machine of `Machine.lean` is extended by the calls of `Do`. While a
goroutine is inside `f` its steps are the steps of `f`, which may block,
start goroutines and call `Do` again; `f` ends by `doReturn`.
-/
import Giri.Interp.ClockInvariant

namespace Giri.Interp

variable {V T : Type}

/-- What happened to a Once, in order. -/
inductive OnceEvent (V T : Type) where
  /-- `Do` starts to run `f`. -/
  | began (g : Gid) (o : Addr)
  /-- The run of `f` is over: the goroutine's clock, and the trace so far. -/
  | completed (g : Gid) (o : Addr) (clock : Clock) (trace : List (Event V T))
  /-- A call of `Do` returns normally. -/
  | returned (g : Gid) (o : Addr)

/-- The interpreter with its Onces. `running` are the calls of `Do` whose
`f` a goroutine is in, the innermost first; `log` is a history variable. -/
structure OnceState (V T : Type) where
  base : Interpreter V T
  /-- `interp.onceState`. -/
  onceState : AllocID → Bool := fun _ => false
  running : Gid → List Addr := fun _ => []
  log : List (OnceEvent V T) := []

inductive OnceAction (V T : Type) where
  | base (a : Action V T)
  | doCall (g : Gid) (o : Addr)
  /-- The end of `f`, and of the innermost call of `Do`. -/
  | doReturn (g : Gid)

namespace OnceState

/-- The goroutine is not waiting and not over. -/
def runs (s : OnceState V T) (g : Gid) : Bool :=
  (s.base.goroutines g).spawned && (s.base.goroutines g).wait.isNone &&
    !(s.base.goroutines g).exited

/-- The goroutine unwinds: a panic, a fatal stop, an abort. -/
def unwinds (s : OnceState V T) (g : Gid) : Bool :=
  (s.base.goroutines g).panicking || (s.base.goroutines g).panicked ||
    (s.base.goroutines g).aborted

/-- `Once.Do`, up to the call of `f`. -/
def doCall (s : OnceState V T) (g : Gid) (o : Addr) : OnceState V T :=
  if s.onceState o.alloc then { s with log := s.log ++ [.returned g o] }
  else
    { s with
      onceState := Function.update s.onceState o.alloc true
      running := Function.update s.running g (o :: s.running g)
      log := s.log ++ [.began g o] }

/-- The return of `f`, to the `Do` of `o`. -/
def doReturn (s : OnceState V T) (g : Gid) (o : Addr) (rest : List Addr) : OnceState V T :=
  { s with
    running := Function.update s.running g rest
    log := s.log ++ .completed g o (s.base.clockOf g) s.base.trace ::
      (if s.unwinds g then [] else [.returned g o]) }

/-- The effect of a step; `none` if it can't be taken. -/
def step (cfg : Config V T) (s : OnceState V T) : OnceAction V T → Option (OnceState V T)
  | .base a => (s.base.step cfg a).map fun base => { s with base }
  | .doCall g o => if s.runs g then some (s.doCall g o) else none
  | .doReturn g =>
    match s.running g with
    | o :: rest => if s.runs g then some (s.doReturn g o rest) else none
    | [] => none

def init (cfg : Config V T) : OnceState V T := { base := .init cfg }

/-- The step relation of the machine. -/
def Step (cfg : Config V T) (s : OnceState V T) (a : OnceAction V T) (t : OnceState V T) : Prop :=
  s.step cfg a = some t

/-- How often `f` of the Once was started. -/
def runsOf (log : List (OnceEvent V T)) (o : Addr) : Nat :=
  log.countP fun
    | .began _ o' => o' == o
    | _ => false

end OnceState

end Giri.Interp
