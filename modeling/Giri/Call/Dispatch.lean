/-
Giri.Call.Dispatch — what a call, a defer and a go statement run
(`execCall`, the cases ssa.Defer and ssa.Go of `execOp`,
`executeDeferred`, `startGoroutine`).

Three dispatchers resolve the callee, each by its own cases. What they come
to is an `Action`: a function body with its arguments, an intercept with its
arguments, or nothing. A session is concrete, so the branches for the
abstract mode are left out; so are GC safepoints and the list of unmodelled
calls, which run nothing.

The tables of intercepts are parameters: which functions are native-backed
(`concreteCallee`), and which calls `execStdlibCall` takes.
-/
import Mathlib.Data.List.Infix

namespace Giri.Call

/-! ## §1. Callees -/

/-- `ssa.Function`, as far as the dispatchers look at it. -/
structure Function where
  /-- `String()`. -/
  qualified : String
  /-- `Name()`. -/
  name : String
  named : name ≠ "" := by decide
  /-- The path of `Package()`; a generic instantiation has none. -/
  pkg : Option String
  pkg_named : pkg ≠ some "" := by decide
  /-- The package and the name of `Origin()`. -/
  origin : Option (String × String) := none
  /-- `Blocks != nil`. -/
  hasBlocks : Bool
  deriving DecidableEq, Repr

/-- `Value.Raw`, as far as the dispatchers look at it. -/
inductive Raw (V : Type) where
  | nil
  /-- `ClosureValue`. -/
  | closure (fn : Function) (freeVars : List (Raw V))
  | function (fn : Function)
  | cancelFunc (id : Nat)
  /-- `InterfaceValue`. -/
  | boxed (type : Nat) (value : Raw V)
  /-- `shadow.ArenaID`. -/
  | arena (id : Nat)
  | other (v : V)

/-- An `ssa.Value` that is an operand. -/
inductive Expr (R V : Type) where
  | reg (r : R)
  | const (v : Raw V)

/-- `CallCommon.Value`. -/
inductive CalleeExpr (R V : Type) where
  | builtin (name : String)
  /-- A function literal, or a method bound to its receiver. -/
  | makeClosure (fn : Function) (bindings : List (Expr R V))
  | static (fn : Function)
  /-- A function value, not known statically. -/
  | dynamic (value : Expr R V)
  /-- A method of an interface value (`IsInvoke`). -/
  | invoke (recv : Expr R V) (method : String)

/-- `ssa.CallCommon`. -/
structure CallCommon (R V : Type) where
  value : CalleeExpr R V
  args : List (Expr R V)

variable {R V I : Type}

/-- `resolveValue`, in a frame with these locals. -/
def resolveValue (locals : R → Raw V) : Expr R V → Raw V
  | .reg r => locals r
  | .const v => v

/-! ## §2. The direct call -/

/-- What is run, with which arguments. -/
inductive Action (V I : Type) where
  | nothing
  | builtin (name : String) (args : List (Raw V))
  /-- The body of a function. -/
  | run (fn : Function) (args : List (Raw V))
  | cancel (id : Nat)
  | newArena
  | arenaNew (name : String) (args : List (Raw V))
  | freeArena (id : Nat)
  | exit
  | sync (fn : Function) (args : List (Raw V))
  | reflectConversion
  /-- A native-backed function. -/
  | concrete (impl : I) (args : List (Raw V))
  | stdlib (pkg name : String) (args : List (Raw V))

/-- What a session is set up with. -/
structure Tables (V I : Type) where
  /-- `prog.LookupMethod`. -/
  lookupMethod : Nat → String → Option Function
  concreteCallee : Function → Option I
  /-- Whether `execStdlibCall` takes the call. -/
  stdlib : String → String → List (Raw V) → Bool
  trackArenas : Bool := true
  trackUnsafe : Bool := true

/-- `strings.Contains`. -/
def contains (s part : String) : Bool := decide (part.toList <:+: s.toList)

/-- `strings.HasSuffix`. -/
def hasSuffix (s part : String) : Bool := decide (part.toList <:+ s.toList)

/-- `resolveArenaID` of the first argument. -/
def arenaArg : List (Raw V) → Option Nat
  | .arena id :: _ => some id
  | _ => none

/-- What a method named `Free` is taken for, also that of another type. -/
def freeArenaArg (args : List (Raw V)) : Action V I :=
  match arenaArg args with
  | some id => .freeArena id
  | none => .nothing

/-- A call of such a method. -/
def isFree (fn : Function) (args : List (Raw V)) : Bool :=
  hasSuffix fn.qualified ".Free" && !args.isEmpty

/-- A call of `reflect.Value.Pointer` or `UnsafeAddr`. -/
def isReflectConversion (fn : Function) : Bool :=
  fn.pkg == some "reflect" && (fn.name == "Pointer" || fn.name == "UnsafeAddr")

/-- The builtins that `execBuiltin` ignores. -/
def ignored (name : String) : Bool := name == "print" || name == "println"

/-- `execFunction`: nothing is run for an external function. -/
def execFunction (fn : Function) (args : List (Raw V)) : Action V I :=
  if fn.hasBlocks then .run fn args else .nothing

/-- The package and name that `execCall` looks intercepts up by. -/
def Function.intercept (fn : Function) : Option (String × String) :=
  match fn.pkg with
  | some pkg => some (pkg, fn.name)
  | none => fn.origin

/-- `execCall`, from the intercepts of the standard library on. -/
def execIntercepted (tables : Tables V I) (fn : Function) (args : List (Raw V)) : Action V I :=
  match fn.intercept with
  | none => execFunction fn args
  | some (pkg, name) =>
    match tables.concreteCallee fn with
    | some impl => .concrete impl args
    | none => if tables.stdlib pkg name args then .stdlib pkg name args else execFunction fn args

/-- `execCall` of a function that is known statically. -/
def execStatic (tables : Tables V I) (fn : Function) (args : List (Raw V)) : Action V I :=
  if contains fn.qualified "arena.NewArena" then .newArena
  else if contains fn.qualified "arena.New[" && !args.isEmpty then .arenaNew fn.qualified args
  else if isFree fn args then freeArenaArg args
  else if fn.pkg = some "os" ∧ fn.name = "Exit" then .exit
  else if fn.pkg = some "sync" then .sync fn args
  else if tables.trackUnsafe && isReflectConversion fn then .reflectConversion
  else execIntercepted tables fn args

/-- `execCall`. -/
def execCall (tables : Tables V I) (locals : R → Raw V) (call : CallCommon R V) : Action V I :=
  let args := call.args.map (resolveValue locals)
  match call.value with
  | .builtin name => if ignored name then .nothing else .builtin name args
  | .makeClosure fn bindings => execFunction fn (args ++ bindings.map (resolveValue locals))
  | .static fn => execStatic tables fn args
  | .dynamic value =>
    match resolveValue locals value with
    | .closure fn freeVars => execFunction fn (args ++ freeVars)
    | .function fn => execFunction fn args
    | .cancelFunc id => .cancel id
    | _ => .nothing
  | .invoke recv method =>
    match resolveValue locals recv with
    | .boxed type value =>
      match tables.lookupMethod type method with
      | some fn => execFunction fn (value :: args)
      | none => .nothing
    | _ => .nothing

/-! ## §3. Defer -/

/-- `DeferredCall`. -/
structure DeferredCall (V : Type) where
  args : List (Raw V)
  /-- `ClosureVal`, if `IsClosure`. -/
  closure : Option (Function × List (Raw V)) := none
  dynCallVal : Raw V := .nil
  callee : Option Function := none

/-- The case ssa.Defer of `execOp`. -/
def ssaDefer (locals : R → Raw V) (call : CallCommon R V) : DeferredCall V :=
  let args := call.args.map (resolveValue locals)
  match call.value with
  | .makeClosure fn bindings =>
    { args, closure := some (fn, bindings.map (resolveValue locals)) }
  | .static fn => { args, callee := some fn }
  | .dynamic value =>
    match resolveValue locals value with
    | .closure fn freeVars => { args, closure := some (fn, freeVars) }
    | v => { args, dynCallVal := v }
  -- `resolveValue` gives `Value{}` for a builtin
  | .builtin _ => { args }
  | .invoke _ _ => { args }

/-- `executeDeferred` of a function that is known statically. -/
def executeStatic (tables : Tables V I) (fn : Function) (args : List (Raw V)) : Action V I :=
  if fn.pkg = some "sync" ∧ fn.name ≠ "" then .sync fn args
  else
    match fn.pkg with
    | some pkg =>
      if pkg ≠ "" ∧ fn.name ≠ "" ∧ tables.stdlib pkg fn.name args then .stdlib pkg fn.name args
      else rest
    | none => rest
where
  /-- What is left when no intercept has taken the call. -/
  rest : Action V I :=
    if isFree fn args then
      if tables.trackArenas then freeArenaArg args else .nothing
    else execFunction fn args

/-- `executeDeferred`. -/
def executeDeferred (tables : Tables V I) (d : DeferredCall V) : Action V I :=
  match d.closure with
  | some (fn, freeVars) => execFunction fn (d.args ++ freeVars)
  | none =>
    match d.dynCallVal with
    | .cancelFunc id => .cancel id
    | .nil =>
      match d.callee with
      | some fn => executeStatic tables fn d.args
      | none => .nothing
    | _ => .nothing

/-- The deferred calls of a frame are run from the last to the first. -/
def runFrameDefers (tables : Tables V I) (defers : List (DeferredCall V)) : List (Action V I) :=
  defers.reverse.map (executeDeferred tables)

/-! ## §4. Go -/

/-- `goroutineTask`. -/
structure GoroutineTask (V : Type) where
  fn : Function
  args : List (Raw V)

/-- The case ssa.Go of `execOp`; `none` if no goroutine is started. -/
def ssaGo (locals : R → Raw V) (call : CallCommon R V) : Option (GoroutineTask V) :=
  let args := call.args.map (resolveValue locals)
  match call.value with
  | .makeClosure fn bindings => some ⟨fn, args ++ bindings.map (resolveValue locals)⟩
  | .static fn => some ⟨fn, args⟩
  | .dynamic value =>
    match resolveValue locals value with
    | .closure fn freeVars => some ⟨fn, args ++ freeVars⟩
    | _ => none
  -- the interface value is not a `ClosureValue`
  | .builtin _ | .invoke _ _ => none

/-- `hostMain`: what the goroutine of a go statement runs. -/
def hostMain : Option (GoroutineTask V) → Action V I
  | some t => execFunction t.fn t.args
  | none => .nothing

end Giri.Call
