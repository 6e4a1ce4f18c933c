/-
Giri.Session.Machine — the instructions of a session, one after the other
(`session.go`).

In library call mode every instruction goes through a prologue,
`execInstructionSession`: it checks the step budget, counts the step in a
class, asks the value cache about pure instructions, and tells the tracer
what was computed. The prologue is here in full. What the other
instructions DO is a parameter (`Semantics`), so every program is among
the runs.

The source is recursive: the instructions of a callee are executed inside
the call instruction, and those of other goroutines inside an instruction
that waits. Here they follow one another. `execOther` and `resume` lead
from an instruction to the next one that comes to the prologue, whichever
frame and goroutine it belongs to; the values that the tracer is told of on
the way are returned with the state.

Steps are counted in a `uint64`. The counters are natural numbers here, and
only the sum that sets the limit of a call wraps around: a call stops
before its counters do.
-/
import Mathlib.Algebra.Ring.Nat
import Giri.Value.Int

namespace Giri.Session

open Value (GoType Token)

/-! ## §1. Instructions -/

/-- `InstrClass`. -/
inductive InstrClass where
  | arithmetic
  | compare
  | load
  | store
  | index
  | callIntercepted
  | callInterpreted
  | builtin
  | branch
  | phi
  | alloc
  | other
  deriving DecidableEq, Repr

/-- `ClassCounts`. -/
abbrev ClassCounts : Type := InstrClass → Nat

def InstrClass.all : List InstrClass :=
  [.arithmetic, .compare, .load, .store, .index, .callIntercepted, .callInterpreted, .builtin,
    .branch, .phi, .alloc, .other]

namespace ClassCounts

def add (c : ClassCounts) (k : InstrClass) (n : Nat) : ClassCounts :=
  Function.update c k (c k + n)

/-- The steps of all classes. -/
def total (c : ClassCounts) : Nat := (InstrClass.all.map c).sum

/-- The counts since `c₀`. -/
def since (c c₀ : ClassCounts) : ClassCounts := fun k => c k - c₀ k

end ClassCounts

/-- The operators of `ssa.UnOp`. -/
inductive UnOp where
  /-- A load. -/
  | mul
  /-- A receive. -/
  | arrow
  | sub
  | not
  | xor
  deriving DecidableEq, Repr

/-- An instruction, as far as `IsPure` looks at it, with the types of its
result and operands. -/
inductive Instr (F O : Type) where
  | binOp (op : Token) (t xt yt : GoType)
  | unOp (op : UnOp) (t xt : GoType)
  | convert (t xt : GoType)
  | changeType (t xt : GoType)
  /-- A static call of a function that is in `concreteTable`. -/
  | call (fn : F) (t : GoType) (args : List GoType)
  | other (o : O)

/-- `isScalarType`. -/
def isScalarType (t : GoType) : Bool :=
  match t.underlying with
  | .basic .unsafePointer | .basic .untypedNil => false
  | .basic _ => true
  | _ => false

/-- `IsPure`; `pureFn` is the field `pure` of the entries of
`concreteTable`. -/
def Instr.isPure {F O : Type} (pureFn : F → Bool) : Instr F O → Bool
  | .binOp _ t xt yt => isScalarType t && (isScalarType xt && isScalarType yt)
  | .unOp op t xt => isScalarType t && (op != .mul && op != .arrow) && isScalarType xt
  | .convert t xt => isScalarType t && isScalarType xt
  | .changeType t xt => isScalarType t && isScalarType xt
  | .call fn t args => isScalarType t && pureFn fn && args.all isScalarType
  | .other _ => false

def Instr.isCall {F O : Type} : Instr F O → Bool
  | .call _ _ _ => true
  | _ => false

/-- What a pure instruction makes of its operands: its value, the violation
it records, and the value of the panic it starts. -/
structure Evaluated (V E : Type) where
  value : V
  violation : Option E := none
  panic : Option V := none

/-! ## §2. The interpreter -/

/-- The interpreter at an instruction. `locals` are the values of the frame
that executes it, and the flags are those of its goroutine. `W` is
everything else. -/
structure State (I V R W : Type) where
  locals : I → Option V
  panicked : Bool := false
  panicking : Bool := false
  panicValue : Option V := none
  aborted : Bool := false
  violations : List R := []
  world : W

/-- What is not said of the interpreter. Values are `V`, errors `E`, and
recorded violations `R`; `A` are the Go values that a caller gives and
gets. -/
structure Semantics (I F O V E R W A : Type) where
  instr : I → Instr F O
  pureFn : F → Bool
  /-- `Value{}`. -/
  nil : V
  isScalarValue : V → Bool
  classify : State I V R W → I → InstrClass
  /-- `pureOperands`. -/
  pureOperands : State I V R W → I → List V
  binOpConcrete : Token → GoType → GoType → V → V → Evaluated V E
  concreteUnOp : UnOp → GoType → V → V
  /-- `concreteConvert`, or else `convertValue` and the check for
  truncation. -/
  convert : GoType → GoType → V → Evaluated V E
  /-- `concreteImpl.call`, of pure functions. -/
  concreteCall : F → List V → Evaluated V E
  /-- `registry.CheckGCPoint`. -/
  checkGCPoint : State I V R W → List E
  /-- `ViolationWithStack`: the error with the stack of its goroutine. -/
  wrap : State I V R W → E → R
  /-- `execOp`, for instructions that are not pure. -/
  execOther : State I V R W → I → State I V R W × List (I × V)
  /-- What follows a pure instruction. -/
  resume : State I V R W → State I V R W × List (I × V)
  /-- The instruction that `execBlock` comes to; `none` when the call is
  over. -/
  next : State I V R W → Option I
  /-- `haltAll`, and the unwinding of all goroutines. -/
  haltAll : State I V R W → State I V R W × List (I × V)
  /-- `spawnGoroutine` for the call's function, or its error. -/
  spawn : State I V R W → List V → State I V R W × Option R
  /-- `interp.deadlock`. -/
  deadlock : State I V R W → Option R
  /-- `g.Panicked || g.Panicking || g.Status == GoroutineBlocked`, for the
  call's goroutine when its function was left. -/
  halted : State I V R W → Bool
  /-- `splitResults`. -/
  results : State I V R W → List V
  /-- `forgetGoroutine` for all goroutines, and `ResetRaces`. -/
  forget : State I V R W → State I V R W
  /-- The interpreter after package initialization; `none` if that fails. -/
  start : Option (State I V R W)
  /-- `checkSignature` and `checkArg`: whether Run goes on. -/
  accepts : List (List A) → Bool
  /-- `marshal`, for an argument set. -/
  marshal : State I V R W → List A → State I V R W × List V
  /-- `unmarshal`, for the result with a number. -/
  unmarshal : State I V R W → Nat → V → Option A
  /-- `argsAfter`. -/
  argsAfter : State I V R W → List V → Option (List (Option A))

/-- `ValueCache`: a hook with a state. A lookup may change it too. -/
structure Hook (I V H : Type) where
  lookup : H → I → List V → Option (V × Nat) × H
  store : H → I → List V → V → Nat → H

/-- The interpreter with the instrumentation of a session, `callState`.
`recorded` are the calls of `Tracer.Record` in the current call. -/
structure Sess (I V R W H : Type) where
  core : State I V R W
  steps : Nat := 0
  classes : ClassCounts := fun _ => 0
  limit : Nat := 0
  exhausted : Bool := false
  cacheHits : Nat := 0
  pureExecuted : Nat := 0
  hook : H
  recorded : List (I × V) := []

namespace State

variable {I V R W : Type} [DecidableEq I]

def setLocal (s : State I V R W) (i : I) (v : V) : State I V R W :=
  { s with locals := Function.update s.locals i (some v) }

end State

section

variable {I F O V E R W A H : Type} [DecidableEq I] (sem : Semantics I F O V E R W A)

namespace Semantics

def isPure (i : I) : Bool := (sem.instr i).isPure sem.pureFn

def isCall (i : I) : Bool := (sem.instr i).isCall

/-- `recordViolation`. A session has no suppressions. -/
def recordViolation (s : State I V R W) (err : E) : State I V R W :=
  if s.aborted then s else { s with violations := s.violations ++ [sem.wrap s err] }

/-- `gcSafepoint`. -/
def gcSafepoint (s : State I V R W) : State I V R W :=
  (sem.checkGCPoint s).foldl sem.recordViolation s

/-- The value of a pure instruction. -/
def evalPure (i : I) (operands : List V) : Evaluated V E :=
  match sem.instr i, operands with
  | .binOp op _ xt yt, [x, y] => sem.binOpConcrete op xt yt x y
  | .unOp op t _, [x] => ⟨sem.concreteUnOp op t x, none, none⟩
  | .convert t xt, [x] => sem.convert xt t x
  | .changeType _ _, [x] => ⟨x, none, none⟩
  | .call fn _ _, args => sem.concreteCall fn args
  | _, _ => ⟨sem.nil, none, none⟩

/-- What a pure instruction leaves: its violation, its panic, its value. -/
def install (s : State I V R W) (i : I) (r : Evaluated V E) : State I V R W :=
  let s := match r.violation with
    | some err => sem.recordViolation s err
    | none => s
  let s := match r.panic with
    | some v => { s with panicking := true, panicValue := some v }
    | none => s
  s.setLocal i r.value

/-- A call is a GC safepoint, of which the arguments are resolved first. -/
def safepoint (s : State I V R W) (i : I) : State I V R W :=
  if sem.isCall i then sem.gcSafepoint s else s

/-- `execOp`, for a pure instruction. -/
def execPure (s : State I V R W) (i : I) : State I V R W :=
  sem.install (sem.safepoint s i) i (sem.evalPure i (sem.pureOperands s i))

end Semantics

/-! ## §3. The prologue -/

variable (cache : Option (Hook I V H)) (st : Sess I V R W H)

namespace Sess

/-- The operands of a pure instruction are looked up only if they are all
scalars. -/
def cacheable (cache : Option (Hook I V H)) (s : State I V R W) (i : I) : Bool :=
  cache.isSome && sem.isPure i && (sem.pureOperands s i).all sem.isScalarValue

def count (st : Sess I V R W H) (k : InstrClass) (n : Nat) : Sess I V R W H :=
  { st with steps := st.steps + n, classes := st.classes.add k n }

/-- `Tracer.Record`. -/
def record (st : Sess I V R W H) (vs : List (I × V)) : Sess I V R W H :=
  { st with recorded := st.recorded ++ vs }

/-- A step of the interpreter, with the values the tracer is told of. -/
def advance (st : Sess I V R W H) (r : State I V R W × List (I × V)) : Sess I V R W H :=
  { st with core := r.1 }.record r.2

/-- The budget has run out. -/
def exhaust (st : Sess I V R W H) : Sess I V R W H :=
  { st with exhausted := true }.advance (sem.haltAll st.core)

/-- A hit: the result and the steps come from the cache. -/
def hit (st : Sess I V R W H) (i : I) (k : InstrClass) (res : V) (steps : Nat) :
    Sess I V R W H :=
  let s := (sem.safepoint st.core i).setLocal i res
  { st.count k steps with core := s, cacheHits := st.cacheHits + 1 }.record [(i, res)]

/-- A pure instruction is executed, and stored if it may be looked up. -/
def executePure (cache : Option (Hook I V H)) (st : Sess I V R W H) (i : I) (k : InstrClass) :
    Sess I V R W H :=
  let s := sem.execPure st.core i
  let st' := { st.count k 1 with core := s }
  let st' := match cache with
    | some hook =>
      if cacheable sem cache st.core i then
        let hook' := match s.locals i with
          | some res =>
            if s.violations.length = st.core.violations.length && !s.panicked &&
                !s.panicking && sem.isScalarValue res then
              hook.store st.hook i (sem.pureOperands st.core i) res 1
            else st.hook
          | none => st.hook
        { st' with pureExecuted := st.pureExecuted + 1, hook := hook' }
      else st'
    | none => st'
  match s.locals i with
  | some res => st'.record [(i, res)]
  | none => st'

/-- `Lookup`, if the instruction may be looked up. -/
def lookup (cache : Option (Hook I V H)) (st : Sess I V R W H) (i : I) :
    Option (V × Nat) × Sess I V R W H :=
  match cache with
  | some hook =>
    if cacheable sem cache st.core i then
      let (found, h) := hook.lookup st.hook i (sem.pureOperands st.core i)
      (found, { st with hook := h })
    else (none, st)
  | none => (none, st)

/-- `execInstructionSession` below the budget, for a pure instruction. -/
def computePure (i : I) (k : InstrClass) : Sess I V R W H :=
  match lookup sem cache st i with
  | (some (res, steps), st) => st.hit sem i k res steps
  | (none, st) => st.executePure sem cache i k

/-- `execInstructionSession` below the budget, for the instruction `i`, up
to the next one. -/
def execInstruction (i : I) : Sess I V R W H :=
  let k := sem.classify st.core i
  if sem.isPure i then
    let st := st.computePure sem cache i k
    st.advance (sem.resume st.core)
  else (st.count k 1).advance (sem.execOther st.core i)

/-- The instruction that comes to the prologue: `execBlock` stops before it
if its goroutine is. -/
def pending (s : State I V R W) : Option I :=
  if s.panicked || s.panicking || s.aborted then none else sem.next s

/-- The budget check of `execInstructionSession`. -/
def overLimit : Bool := 0 < st.limit && st.limit ≤ st.steps

/-- The instructions of a call. `none` if there are more of them than
`fuel`. -/
def callLoop (cache : Option (Hook I V H)) : Nat → Sess I V R W H → Option (Sess I V R W H)
  | fuel, st =>
    match pending sem st.core with
    | none => some st
    | some i =>
      -- when the budget is out every goroutine is halted, and no
      -- instruction comes to the prologue any more
      if st.overLimit then some (st.exhaust sem)
      else
        match fuel with
        | 0 => none
        | fuel + 1 => callLoop cache fuel (st.execInstruction sem cache i)

end Sess

/-- `CallOutcome`. `results` is `none` for a nil slice. -/
structure CallOutcome (V R : Type) where
  results : Option (List V) := none
  panicked : Bool := false
  exhausted : Bool := false
  steps : Nat := 0
  classes : ClassCounts := fun _ => 0
  violations : List R := []
  cacheHits : Nat := 0
  pureExecuted : Nat := 0

namespace Sess

/-- `cs.limit` of a call, where `+` is that of `uint64`. -/
def limitOf (steps budget : Nat) : Nat := if 0 < budget then (steps + budget) % 2 ^ 64 else 0

/-- The start of `Session.call`, up to `spawnGoroutine`. -/
def enter (budget : Nat) : Sess I V R W H :=
  { st with exhausted := false, limit := limitOf st.steps budget }

/-- The end of `Session.call`: `st₀` is the session when it began, and `st`
when the last goroutine has ended. -/
def leave (st₀ st : Sess I V R W H) : CallOutcome V R × Sess I V R W H :=
  let deadlock := sem.deadlock st.core
  let core := { st.core with violations := st.core.violations ++ deadlock.toList }
  let halted := sem.halted st.core || deadlock.isSome
  ({ results := if halted then none else some (sem.results st.core)
     panicked := halted && !st.exhausted
     exhausted := st.exhausted
     steps := st.steps - st₀.steps
     classes := st.classes.since st₀.classes
     violations := core.violations.drop st₀.core.violations.length
     cacheHits := st.cacheHits - st₀.cacheHits
     pureExecuted := st.pureExecuted - st₀.pureExecuted },
    { st with core := sem.forget core })

/-- `Session.call`. -/
def call (fuel : Nat) (st : Sess I V R W H) (args : List V)
    (budget : Nat) : Option (CallOutcome V R × Sess I V R W H) :=
  let entered := st.enter budget
  match sem.spawn st.core args with
  | (core, some err) =>
    some ({ panicked := true, violations := [err] }, { entered with core := core })
  | (core, none) =>
    (callLoop sem cache fuel { entered with core := core }).map (leave sem st)

end Sess

end

end Giri.Session
