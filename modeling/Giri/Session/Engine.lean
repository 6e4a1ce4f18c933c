/-
Giri.Session.Engine — a session as programs that run in a world.

`Session/Machine.lean` leaves open what instructions do. Here they are
PROGRAMS: what an instruction computes by itself (with locals, frames,
goroutines) is a state of the engine, and whatever it wants from the rest of
the interpreter it asks for by a command. An engine is a Go function with all
that it calls; an environment says what commands do.

So a property of the part of the interpreter that is behind the commands
(memory, detectors, tables) can be stated for every function, and two
configurations of that part can be compared under the same function.
-/
import Giri.Lib.Effect
import Giri.Session.Run

namespace Giri.Session

open Effect (Prog Handler)
open Value (GoType Token)

/-- `ViolationWithStack`. Some errors come without a stack: a deadlock, and a
call whose goroutine can't be spawned. -/
structure Recorded (E K : Type) where
  err : E
  frames : Option K := none
  deriving DecidableEq, Repr

/-- The part of the interpreter that an engine has to itself. -/
structure Core (I V C : Type) where
  locals : I → Option V
  panicked : Bool := false
  panicking : Bool := false
  panicValue : Option V := none
  aborted : Bool := false
  control : C

/-- A function, with everything that it calls. The commands are `Q`, of which
`q` is answered by an `Ans q`. -/
structure Engine (I F O V E K A C U Q : Type) (Ans : Q → Type) where
  instr : I → Instr F O
  pureFn : F → Bool
  nil : V
  isScalarValue : V → Bool
  classify : Core I V C → I → InstrClass
  pureOperands : Core I V C → I → List V
  binOpConcrete : Token → GoType → GoType → V → V → Evaluated V E
  concreteUnOp : UnOp → GoType → V → V
  convert : GoType → GoType → V → Evaluated V E
  concreteCall : F → List V → Evaluated V E
  /-- `currentSite`. -/
  site : Core I V C → String
  /-- The call stack that goes with a violation. -/
  frames : Core I V C → K
  execOther : Core I V C → I → Prog Q Ans (Core I V C × List (I × V))
  resume : Core I V C → Prog Q Ans (Core I V C × List (I × V))
  next : Core I V C → Option I
  haltAll : Core I V C → Prog Q Ans (Core I V C × List (I × V))
  spawn : Core I V C → List V → Prog Q Ans (Core I V C × Option E)
  /-- `spawnGoroutine` for the package initializer, if there is one. -/
  spawnInit : Option (Core I V C → Prog Q Ans (Core I V C × Option E))
  deadlock : Core I V C → Option E
  halted : Core I V C → Bool
  results : Core I V C → List V
  forget : Core I V C → Core I V C
  /-- The interpreter that `New` makes. -/
  initial : Core I V C
  accepts : List (List A) → Bool
  marshal : Core I V C → List A → Prog Q Ans (List V)
  /-- Results and arguments are read after a call, from the memory. -/
  unmarshal : U → Nat → V → Option A
  argsAfter : U → List V → Option (List (Option A))

/-- What is behind the commands. -/
structure Env (E K U W Q : Type) (Ans : Q → Type) where
  /-- The world at the start. -/
  world : W
  handle : Handler Q Ans W (Recorded E K)
  /-- `CheckGCPoint`, at a call that is pure. -/
  gcPoint : W → String → List E
  /-- A pure instruction has been executed. -/
  passed : W → W
  /-- An argument set begins: nothing happens, but a model may count. -/
  beginSet : W → W
  /-- The end of `Session.call`. -/
  endCall : W → W
  /-- What results and arguments are read from. -/
  view : W → U

section

variable {I F O V E K A C U Q W H X : Type} {Ans : Q → Type}

namespace State

/-- The engine's part of the interpreter. -/
def toCore (s : State I V (Recorded E K) (C × W)) : Core I V C where
  locals := s.locals
  panicked := s.panicked
  panicking := s.panicking
  panicValue := s.panicValue
  aborted := s.aborted
  control := s.world.1

/-- The rest, with the violations. -/
def outside (s : State I V (Recorded E K) (C × W)) : W × List (Recorded E K) := (s.world.2, s.violations)

end State

def Core.toState (c : Core I V C) (x : W × List (Recorded E K)) : State I V (Recorded E K) (C × W) where
  locals := c.locals
  panicked := c.panicked
  panicking := c.panicking
  panicValue := c.panicValue
  aborted := c.aborted
  violations := x.2
  world := (c.control, x.1)

/-- A program of the engine, run in a state of the interpreter. -/
def Env.perform (env : Env E K U W Q Ans) (p : Prog Q Ans (Core I V C × X))
    (x : W × List (Recorded E K)) : State I V (Recorded E K) (C × W) × X :=
  let r := p.run env.handle x
  (r.1.1.toState r.2, r.1.2)

namespace Engine

variable (eng : Engine I F O V E K A C U Q Ans) (env : Env E K U W Q Ans)

/-- The semantics of the engine's function in an environment. -/
def semantics (start : Option (State I V (Recorded E K) (C × W))) : Semantics I F O V E (Recorded E K) (C × W) A where
  instr := eng.instr
  pureFn := eng.pureFn
  nil := eng.nil
  isScalarValue := eng.isScalarValue
  classify s i := eng.classify s.toCore i
  pureOperands s i := eng.pureOperands s.toCore i
  binOpConcrete := eng.binOpConcrete
  concreteUnOp := eng.concreteUnOp
  convert := eng.convert
  concreteCall := eng.concreteCall
  checkGCPoint s := env.gcPoint s.world.2 (eng.site s.toCore)
  wrap s err := ⟨err, some (eng.frames s.toCore)⟩
  execOther s i := env.perform (eng.execOther s.toCore i) s.outside
  resume s := env.perform (eng.resume s.toCore) (env.passed s.world.2, s.violations)
  next s := eng.next s.toCore
  haltAll s := env.perform (eng.haltAll s.toCore) s.outside
  spawn s args :=
    let r := env.perform (eng.spawn s.toCore args) s.outside
    (r.1, r.2.map (⟨·, none⟩))
  deadlock s := (eng.deadlock s.toCore).map (⟨·, none⟩)
  halted s := eng.halted s.toCore
  results s := eng.results s.toCore
  forget s := (eng.forget s.toCore).toState (env.endCall s.world.2, s.violations)
  start := start
  accepts := eng.accepts
  marshal s a :=
    let r := (eng.marshal s.toCore a).run env.handle (env.beginSet s.world.2, s.violations)
    (s.toCore.toState r.2, r.1)
  unmarshal s i v := eng.unmarshal (env.view s.world.2) i v
  argsAfter s vals := eng.argsAfter (env.view s.world.2) vals

variable [DecidableEq I]

/-- The call of the package initializer: neither traced nor cached. -/
def callInit (spawn : Core I V C → Prog Q Ans (Core I V C × Option E)) (fuel budget : Nat) :
    Option (CallOutcome V (Recorded E K) × Sess I V (Recorded E K) (C × W) Unit) :=
  let sem := { eng with spawn := fun c _ => spawn c }.semantics env none
  Sess.call sem none fuel { core := eng.initial.toState (env.world, []), hook := () } [] budget

/-- `NewSession`: its counters and violations are dropped. -/
def start (fuel budget : Nat) : Option (State I V (Recorded E K) (C × W)) :=
  match eng.spawnInit with
  | none => some (eng.initial.toState (env.world, []))
  | some spawn =>
    match eng.callInit env spawn fuel budget with
    | none => none
    | some (out, st) =>
      if out.exhausted || out.panicked then none
      else some { st.core with violations := [] }

/-- `exec.Run` of the engine's function. -/
def run (opts : Options) (cache : Option (Hook I V H)) (hook : H) (fuel : Nat)
    (args : List (List A)) : Option (Result I V (Recorded E K) A) :=
  Session.run (eng.semantics env (eng.start env fuel opts.budget)) opts cache hook fuel args

end Engine

variable [DecidableEq I]

/-- The session after the argument sets: what `runSets` leaves behind. -/
def endSets {R : Type} (sem : Semantics I F O V E R W A) (cache : Option (Hook I V H)) (fuel : Nat) :
    Nat → Sess I V R W H → List (List A) → Option (Sess I V R W H)
  | _, st, [] => some st
  | remaining, st, a :: args =>
    if remaining = 0 then some st
    else
      let (core, vals) := sem.marshal st.core a
      match Sess.call sem cache fuel { st with core := core, recorded := [] } vals remaining with
      | none => none
      | some (out, st) =>
        if (judge sem st.core vals out).1 = .exhausted then some st
        else endSets sem cache fuel (remaining - min out.steps remaining) st args

/-- The interpreter after `exec.Run`. -/
def Engine.leaves (eng : Engine I F O V E K A C U Q Ans) (env : Env E K U W Q Ans)
    (opts : Options) (cache : Option (Hook I V H)) (hook : H) (fuel : Nat)
    (args : List (List A)) : Option (Sess I V (Recorded E K) (C × W) H) :=
  let start := eng.start env fuel opts.budget
  start.bind fun core =>
    endSets (eng.semantics env start) cache fuel opts.budget { core, hook } args

/-- A function without branches, whose instructions compute its locals one
after the other. Its results are the locals `returns`. -/
def Engine.straight (nil : V) (code : List ((Nat → Option V) → Prog Q Ans V)) (returns : List Nat)
    (stack : K) (marshal : List A → Prog Q Ans (List V)) (unmarshal : U → V → Option A)
    (argsAfter : U → List V → Option (List (Option A))) :
    Engine Nat Unit Unit V E K A (Nat × List V) U Q Ans where
  instr _ := .other ()
  pureFn _ := false
  nil := nil
  isScalarValue _ := false
  classify _ _ := .other
  pureOperands _ _ := []
  binOpConcrete _ _ _ _ _ := ⟨nil, none, none⟩
  concreteUnOp _ _ _ := nil
  convert _ _ _ := ⟨nil, none, none⟩
  concreteCall _ _ := ⟨nil, none, none⟩
  site _ := ""
  frames _ := stack
  execOther c i :=
    match code[i]? with
    | some instr => (instr c.locals).map fun v =>
      ({ c with locals := Function.update c.locals i (some v), control := (i + 1, c.control.2) }, [(i, v)])
    | none => .done (c, [])
  resume c := .done (c, [])
  next c := if c.control.1 < code.length then some c.control.1 else none
  haltAll c := .done ({ c with panicked := true }, [])
  spawn _ args := .done ({ locals := fun _ => none, control := (0, args) }, none)
  spawnInit := none
  deadlock _ := none
  halted c := c.panicked
  results c := returns.map fun i => (c.locals i).getD nil
  forget c := c
  initial := { locals := fun _ => none, control := (0, []) }
  accepts _ := true
  marshal _ := marshal
  unmarshal u _ := unmarshal u
  argsAfter := argsAfter

end

end Giri.Session
