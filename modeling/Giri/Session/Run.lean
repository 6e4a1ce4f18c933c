/-
Giri.Session.Run — `exec.Run`: one function, argument set after argument
set, in one session (`pkg/exec/exec.go`).

The budget is shared by the sets. A set whose call runs out of it is the
last one; so is the set that finds nothing left. Results that cannot be
turned into Go values make a set opaque when the call is already over.

A nil slice of the source is `none`. The traces are the calls of
`Tracer.Record`, set by set, from which the source builds its tables.
-/
import Giri.Session.Machine

namespace Giri.Session

/-- `exec.Outcome`. -/
inductive Outcome where
  | returned
  | panicked
  | exhausted
  /-- `Opaque`. -/
  | unknown
  deriving DecidableEq, Repr

/-- `exec.Violation`: its category and message are those of the error. -/
structure Violation (R : Type) where
  set : Nat
  err : R

/-- The fields of `exec.Options` that Run itself reads. -/
structure Options where
  maxSteps : UInt64 := 0
  trace : Bool := false

def defaultMaxSteps : Nat := 10000000

/-- The budget of a Run. -/
def Options.budget (opts : Options) : Nat :=
  if opts.maxSteps = 0 then defaultMaxSteps else opts.maxSteps.toNat

/-- `exec.Result`. -/
structure Result (I V R A : Type) where
  outputs : List (Option (List A)) := []
  outcomes : List Outcome := []
  argsAfter : List (Option (List (Option A))) := []
  steps : Nat := 0
  stepsPerSet : List Nat := []
  stepsByClass : ClassCounts := fun _ => 0
  violations : List (Violation R) := []
  exhausted : Bool := false
  traces : List (List (I × V)) := []
  cacheHits : Nat := 0
  pureExecuted : Nat := 0

variable {I F O V E R W A H : Type} [DecidableEq I] (sem : Semantics I F O V E R W A)

/-- The loop over the results: they are unmarshalled in order, and the
first that can't be ends it. -/
def unmarshalAll (s : State I V R W) : Nat → List V → Option (List A)
  | _, [] => some []
  | i, v :: vs => do
    let a ← sem.unmarshal s i v
    let as ← unmarshalAll s (i + 1) vs
    return a :: as

/-- How a call ended, and what it gave. -/
def judge (s : State I V R W) (vals : List V) (out : CallOutcome V R) :
    Outcome × Option (List A) × Option (List (Option A)) :=
  if out.exhausted then (.exhausted, none, none)
  else if out.panicked then (.panicked, none, none)
  else
    match unmarshalAll sem s 0 (out.results.getD []) with
    | none => (.unknown, none, none)
    | some outputs =>
      match sem.argsAfter s vals with
      | none => (.unknown, none, none)
      | some after => (.returned, some outputs, some after)

namespace Result

/-- What the result gains by a call. -/
def add (opts : Options) (res : Result I V R A) (set : Nat) (out : CallOutcome V R)
    (recorded : List (I × V))
    (verdict : Outcome × Option (List A) × Option (List (Option A))) : Result I V R A :=
  { outputs := res.outputs ++ [verdict.2.1]
    outcomes := res.outcomes ++ [verdict.1]
    argsAfter := res.argsAfter ++ [verdict.2.2]
    steps := res.steps + out.steps
    stepsPerSet := res.stepsPerSet ++ [out.steps]
    stepsByClass := fun k => res.stepsByClass k + out.classes k
    violations := res.violations ++ out.violations.map (⟨set, ·⟩)
    exhausted := res.exhausted || verdict.1 = .exhausted
    traces := if opts.trace then res.traces ++ [recorded] else res.traces
    cacheHits := res.cacheHits + out.cacheHits
    pureExecuted := res.pureExecuted + out.pureExecuted }

/-- The entry of a set that finds no budget left. -/
def addUnrun (opts : Options) (res : Result I V R A) : Result I V R A :=
  { res with
    outputs := res.outputs ++ [none]
    outcomes := res.outcomes ++ [.exhausted]
    argsAfter := res.argsAfter ++ [none]
    stepsPerSet := res.stepsPerSet ++ [0]
    exhausted := true
    traces := if opts.trace then res.traces ++ [[]] else res.traces }

end Result

/-- The loop of Run over the argument sets, the next of which has the number
`set`. -/
def runSets (opts : Options) (cache : Option (Hook I V H)) (fuel : Nat) :
    Nat → Nat → Sess I V R W H → List (List A) → Result I V R A → Option (Result I V R A)
  | _, _, _, [], res => some res
  | set, remaining, st, a :: args, res =>
    if remaining = 0 then some (res.addUnrun opts)
    else
      let (core, vals) := sem.marshal st.core a
      match Sess.call sem cache fuel { st with core := core, recorded := [] } vals remaining with
      | none => none
      | some (out, st) =>
        let remaining := remaining - min out.steps remaining
        let verdict := judge sem st.core vals out
        let res := res.add opts set out st.recorded verdict
        if verdict.1 = .exhausted then some res
        else runSets opts cache fuel (set + 1) remaining st args res

/-- `exec.Run`; `none` if it returns an error, or a call has more
instructions than `fuel`. -/
def run (opts : Options) (cache : Option (Hook I V H)) (hook : H) (fuel : Nat)
    (args : List (List A)) : Option (Result I V R A) :=
  if sem.accepts args then
    match sem.start with
    | none => none
    | some core => runSets sem opts cache fuel 0 opts.budget { core, hook } args {}
  else none

end Giri.Session
