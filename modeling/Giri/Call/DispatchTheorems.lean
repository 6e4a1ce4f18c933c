/-
Giri.Call.DispatchTheorems — the three forms of a call against each other.

A closure is run the same way by a call, a defer and a go statement. Beyond
that the dispatchers agree only on some callees: `DeferOK` says which calls
may be deferred and `GoOK` which may be started as a goroutine, exactly
(`call_forms_agree`). `call_forms_differ` has calls that are dropped: a
deferred builtin, a function value without free variables, and an interface
method.
-/
import Giri.Call.Dispatch

namespace Giri.Call

variable {R V I : Type} {tables : Tables V I} {locals : R → Raw V} {call : CallCommon R V}
  {fn : Function} {args : List (Raw V)}

/-! ## §1. When the forms agree -/

/-- The call is not one of the two functions of the arena package. -/
structure NoArenaFunc (fn : Function) (args : List (Raw V)) : Prop where
  newArena : contains fn.qualified "arena.NewArena" = false
  arenaNew : (contains fn.qualified "arena.New[" && !args.isEmpty) = false

/-- `execCall` does not treat the function in a way of its own: it is not
`os.Exit`, not one of the two methods of reflect, and not native-backed. -/
structure Ordinary (tables : Tables V I) (fn : Function) : Prop where
  notExit : ¬(fn.pkg = some "os" ∧ fn.name = "Exit")
  notReflect : (tables.trackUnsafe && isReflectConversion fn) = false
  notConcrete : fn.intercept.isSome = true → tables.concreteCallee fn = none

/-- A deferred function. A method named `Free` is one that no intercept takes
before the arena's; a function of package sync is modelled the same way; any
other one is ordinary, and no intercept takes it by its origin. -/
def DeferStatic (tables : Tables V I) (fn : Function) (args : List (Raw V)) : Prop :=
  NoArenaFunc fn args ∧
    if isFree fn args then
      fn.pkg ≠ some "sync" ∧
        (∀ pkg, fn.pkg = some pkg → tables.stdlib pkg fn.name args = false) ∧
        (tables.trackArenas = true ∨ arenaArg args = none)
    else
      fn.pkg = some "sync" ∨ Ordinary tables fn ∧
        (fn.pkg = none →
          ∀ pkg name, fn.origin = some (pkg, name) → tables.stdlib pkg name args = false)

/-- A function that is started as a goroutine: no intercept takes it. -/
def GoStatic (tables : Tables V I) (fn : Function) (args : List (Raw V)) : Prop :=
  NoArenaFunc fn args ∧
    if isFree fn args then arenaArg args = none ∧ fn.hasBlocks = false
    else
      Ordinary tables fn ∧ fn.pkg ≠ some "sync" ∧
        ∀ pkg name, fn.intercept = some (pkg, name) → tables.stdlib pkg name args = false

/-- No body is lost when the call is dropped. -/
def NoBody (tables : Tables V I) (locals : R → Raw V) (recv : Expr R V) (method : String) : Prop :=
  ∀ type value fn, resolveValue locals recv = .boxed type value →
    tables.lookupMethod type method = some fn → fn.hasBlocks = false

/-- A defer statement does what the call does. -/
def DeferOK (tables : Tables V I) (locals : R → Raw V) (call : CallCommon R V) : Prop :=
  match call.value with
  | .builtin name => ignored name = true
  | .makeClosure _ _ => True
  | .static fn => DeferStatic tables fn (call.args.map (resolveValue locals))
  | .dynamic value => ∀ fn, resolveValue locals value = .function fn → fn.hasBlocks = false
  | .invoke recv method => NoBody tables locals recv method

/-- A go statement does what the call does. -/
def GoOK (tables : Tables V I) (locals : R → Raw V) (call : CallCommon R V) : Prop :=
  match call.value with
  | .builtin name => ignored name = true
  | .makeClosure _ _ => True
  | .static fn => GoStatic tables fn (call.args.map (resolveValue locals))
  | .dynamic value =>
    (∀ fn, resolveValue locals value = .function fn → fn.hasBlocks = false) ∧
      ∀ id, resolveValue locals value ≠ .cancelFunc id
  | .invoke recv method => NoBody tables locals recv method

/-! ## §2. Functions that are known statically -/

/-- What only `execCall` does. -/
def Action.own : Action V I → Bool
  | .newArena | .arenaNew _ _ | .exit | .reflectConversion | .concrete _ _ => true
  | _ => false

theorem own_execFunction : (execFunction fn args : Action V I).own = false := by
  unfold execFunction
  split <;> rfl

theorem own_freeArenaArg : (freeArenaArg args : Action V I).own = false := by
  unfold freeArenaArg
  split <;> rfl

theorem own_execIntercepted : (execIntercepted tables fn args).own = false ↔
    (fn.intercept.isSome = true → tables.concreteCallee fn = none) := by
  unfold execIntercepted
  cases fn.intercept with
  | none => simp [own_execFunction]
  | some p =>
    cases tables.concreteCallee fn with
    | some => simp [Action.own]
    | none =>
      simp only [Option.isSome_some, forall_const, iff_true]
      split
      · rfl
      · exact own_execFunction

/-- `execCall` takes a call in a way of its own unless it is a method named
`Free`, a function of package sync, or ordinary. -/
theorem own_execStatic : (execStatic tables fn args).own = false ↔ NoArenaFunc fn args ∧
    (isFree fn args = true ∨ fn.pkg = some "sync" ∨ Ordinary tables fn) := by
  unfold execStatic
  split
  · rename_i h
    exact iff_of_false (by simp [Action.own]) fun hc => absurd hc.1.newArena (by simp [h])
  rename_i hnew
  split
  · rename_i h
    exact iff_of_false (by simp [Action.own]) fun hc => absurd hc.1.arenaNew (by simp [h])
  rename_i harena
  have hno : NoArenaFunc fn args := ⟨by simpa using hnew, by simpa using harena⟩
  rw [and_iff_right hno]
  split
  · rename_i h
    exact iff_of_true own_freeArenaArg (.inl h)
  rename_i hfree
  rw [or_iff_right hfree]
  split
  · rename_i h
    refine iff_of_false (by simp [Action.own]) ?_
    rintro (hsync | hord)
    · exact absurd (hsync.symm.trans h.1) (by decide)
    · exact hord.notExit h
  rename_i hexit
  split
  · rename_i h
    exact iff_of_true rfl (.inl h)
  rename_i hsync
  rw [or_iff_right hsync]
  split
  · rename_i h
    exact iff_of_false (by simp [Action.own]) fun hord => absurd hord.notReflect (by simp [h])
  rename_i hreflect
  rw [own_execIntercepted]
  exact ⟨fun h => ⟨hexit, by simpa using hreflect, h⟩, fun h => h.notConcrete⟩

theorem NoArenaFunc.execStatic_free (h : NoArenaFunc fn args) (hfree : isFree fn args = true) :
    execStatic tables fn args = freeArenaArg args := by
  simp [execStatic, h.newArena, h.arenaNew, hfree]

theorem NoArenaFunc.execStatic_sync (h : NoArenaFunc fn args) (hfree : ¬isFree fn args = true)
    (hsync : fn.pkg = some "sync") : execStatic tables fn args = .sync fn args := by
  simp [execStatic, h.newArena, h.arenaNew, hfree, hsync]

/-- The other functions. -/
theorem Ordinary.execStatic_eq (h : Ordinary tables fn) (harena : NoArenaFunc fn args)
    (hfree : isFree fn args = false) (hsync : fn.pkg ≠ some "sync") :
    execStatic tables fn args =
      match fn.intercept with
      | some (pkg, name) => if tables.stdlib pkg name args then .stdlib pkg name args
        else execFunction fn args
      | none => execFunction fn args := by
  simp only [execStatic, harena.newArena, harena.arenaNew, hfree, h.notExit, hsync, h.notReflect,
    execIntercepted]
  cases hi : fn.intercept with
  | none => rfl
  | some => simp [h.notConcrete (by simp [hi])]

/-- The names of packages and functions are not empty. -/
theorem executeStatic_eq : executeStatic tables fn args =
    if fn.pkg = some "sync" then .sync fn args
    else match fn.pkg with
      | some pkg => if tables.stdlib pkg fn.name args then .stdlib pkg fn.name args
        else executeStatic.rest tables fn args
      | none => executeStatic.rest tables fn args := by
  cases hp : fn.pkg with
  | none => simp [executeStatic, hp]
  | some pkg =>
    have hne : pkg ≠ "" := fun he => fn.pkg_named (he ▸ hp)
    simp [executeStatic, hp, hne, fn.named]

theorem own_executeStatic : (executeStatic tables fn args).own = false := by
  have hrest : (executeStatic.rest tables fn args).own = false := by
    unfold executeStatic.rest
    split
    · split
      · exact own_freeArenaArg
      · rfl
    · exact own_execFunction
  rw [executeStatic_eq]
  split
  · rfl
  · split
    · split
      · rfl
      · exact hrest
    · exact hrest

theorem stdlib_ne_execFunction {pkg name : String} :
    .stdlib pkg name args ≠ (execFunction fn args : Action V I) := by
  unfold execFunction
  split <;> nofun

/-- A deferred `Free` frees the arena iff no intercept takes it first. -/
theorem executeStatic_free_iff (hfree : isFree fn args = true) :
    executeStatic tables fn args = freeArenaArg args ↔
      fn.pkg ≠ some "sync" ∧
        (∀ pkg, fn.pkg = some pkg → tables.stdlib pkg fn.name args = false) ∧
        (tables.trackArenas = true ∨ arenaArg args = none) := by
  have hrest : executeStatic.rest tables fn args = freeArenaArg args ↔
      (tables.trackArenas = true ∨ arenaArg args = none) := by
    cases ha : arenaArg args <;> cases ht : tables.trackArenas <;>
      simp [executeStatic.rest, hfree, freeArenaArg, ha, ht]
  have hfreed : (freeArenaArg args : Action V I) = .nothing ∨
      ∃ id, (freeArenaArg args : Action V I) = .freeArena id := by
    cases ha : arenaArg args <;> simp [freeArenaArg, ha]
  rw [executeStatic_eq]
  cases hp : fn.pkg with
  | none => simpa using hrest
  | some pkg =>
    by_cases hsync : pkg = "sync"
    · rcases hfreed with h | ⟨id, h⟩ <;> simp [hsync, h]
    · cases hs : tables.stdlib pkg fn.name args with
      | false => simpa [hsync, hs] using hrest
      | true => rcases hfreed with h | ⟨id, h⟩ <;> simp [hsync, hs, h]

/-- A deferred function that is ordinary is what the call runs iff no
intercept takes it by its origin. -/
theorem Ordinary.executeStatic_iff (h : Ordinary tables fn) (harena : NoArenaFunc fn args)
    (hfree : ¬isFree fn args = true) (hsync : fn.pkg ≠ some "sync") :
    executeStatic tables fn args = execStatic tables fn args ↔ (fn.pkg = none →
      ∀ pkg name, fn.origin = some (pkg, name) → tables.stdlib pkg name args = false) := by
  rw [executeStatic_eq, h.execStatic_eq harena (by simpa using hfree) hsync, if_neg hsync]
  cases hp : fn.pkg with
  | some => simp [Function.intercept, hp, executeStatic.rest, hfree]
  | none =>
    cases ho : fn.origin with
    | none => simp [Function.intercept, hp, ho, executeStatic.rest, hfree]
    | some p =>
      obtain ⟨pkg, name⟩ := p
      cases hs : tables.stdlib pkg name args <;>
        simp [Function.intercept, hp, ho, executeStatic.rest, hfree, hs,
          stdlib_ne_execFunction.symm]

/-- A deferred function does what the call does iff `DeferStatic`. -/
theorem executeStatic_eq_iff :
    executeStatic tables fn args = execStatic tables fn args ↔ DeferStatic tables fn args := by
  by_cases hown : (execStatic tables fn args).own = false
  · obtain ⟨harena, hcase⟩ := own_execStatic.mp hown
    rw [DeferStatic, and_iff_right harena]
    by_cases hfree : isFree fn args = true
    · rw [harena.execStatic_free hfree, if_pos hfree]
      exact executeStatic_free_iff hfree
    · rw [if_neg hfree]
      by_cases hsync : fn.pkg = some "sync"
      · rw [executeStatic_eq, harena.execStatic_sync hfree hsync]
        simp [hsync]
      · have hord := (hcase.resolve_left hfree).resolve_left hsync
        rw [or_iff_right hsync, and_iff_right hord]
        exact hord.executeStatic_iff harena hfree hsync
  · refine iff_of_false (fun h => hown (h ▸ own_executeStatic)) fun h => hown ?_
    refine own_execStatic.mpr ⟨h.1, ?_⟩
    by_cases hfree : isFree fn args = true
    · exact .inl hfree
    · have h := h.2
      rw [if_neg hfree] at h
      exact .inr (h.imp_right And.left)

/-- The body of a function is what the call runs iff `GoStatic`. -/
theorem execFunction_eq_execStatic_iff :
    execFunction fn args = execStatic tables fn args ↔ GoStatic tables fn args := by
  by_cases hown : (execStatic tables fn args).own = false
  · obtain ⟨harena, hcase⟩ := own_execStatic.mp hown
    rw [GoStatic, and_iff_right harena]
    by_cases hfree : isFree fn args = true
    · rw [harena.execStatic_free hfree, if_pos hfree]
      cases ha : arenaArg args <;> cases hb : fn.hasBlocks <;>
        simp [execFunction, freeArenaArg, ha, hb]
    · rw [if_neg hfree]
      by_cases hsync : fn.pkg = some "sync"
      · rw [harena.execStatic_sync hfree hsync]
        refine iff_of_false ?_ fun h => h.2.1 hsync
        unfold execFunction
        split <;> nofun
      · have hord := (hcase.resolve_left hfree).resolve_left hsync
        rw [hord.execStatic_eq harena (by simpa using hfree) hsync, and_iff_right hord,
          and_iff_right hsync]
        cases fn.intercept with
        | none => simp
        | some p =>
          obtain ⟨pkg, name⟩ := p
          cases hs : tables.stdlib pkg name args <;> simp [hs, stdlib_ne_execFunction.symm]
  · refine iff_of_false (fun h => hown (h ▸ own_execFunction)) fun h => hown ?_
    refine own_execStatic.mpr ⟨h.1, ?_⟩
    by_cases hfree : isFree fn args = true
    · exact .inl hfree
    · have h := h.2
      rw [if_neg hfree] at h
      exact .inr (.inr h.1)

/-! ## §3. Defer and go -/

/-- An interface method does nothing iff there is no body to run. -/
theorem nothing_iff_noBody {recv : Expr R V} {method : String}
    (hcall : call.value = .invoke recv method) :
    .nothing = execCall tables locals call ↔ NoBody tables locals recv method := by
  simp only [execCall, hcall, NoBody]
  cases resolveValue locals recv with
  | boxed type value =>
    constructor
    · rintro h _ _ fn ⟨⟩ hfn
      simpa [hfn, execFunction] using h
    · intro h
      cases hfn : tables.lookupMethod type method with
      | none => simp [hfn]
      | some fn => simp [hfn, execFunction, h type value fn rfl hfn]
  | _ => simp

/-- **A deferred call is the call** iff `DeferOK`. -/
theorem executeDeferred_ssaDefer :
    executeDeferred tables (ssaDefer locals call) = execCall tables locals call ↔
      DeferOK tables locals call := by
  cases hv : call.value with
  | builtin name => simp [DeferOK, ssaDefer, executeDeferred, execCall, hv]
  | makeClosure => simp [DeferOK, ssaDefer, executeDeferred, execCall, hv]
  | static =>
    simp only [DeferOK, ssaDefer, executeDeferred, execCall, hv]
    exact executeStatic_eq_iff
  | dynamic value =>
    simp only [DeferOK, ssaDefer, executeDeferred, execCall, hv]
    cases hr : resolveValue locals value <;> simp [execFunction]
  | invoke =>
    simp only [DeferOK, ssaDefer, executeDeferred, hv]
    exact nothing_iff_noBody hv

/-- **A goroutine runs the call** iff `GoOK`. -/
theorem hostMain_ssaGo :
    hostMain (ssaGo locals call) = execCall tables locals call ↔ GoOK tables locals call := by
  cases hv : call.value with
  | builtin => simp [GoOK, ssaGo, hostMain, execCall, hv]
  | makeClosure => simp [GoOK, ssaGo, hostMain, execCall, hv]
  | static fn =>
    simp only [GoOK, ssaGo, hostMain, execCall, hv]
    exact execFunction_eq_execStatic_iff
  | dynamic value =>
    simp only [GoOK, ssaGo, hostMain, execCall, hv]
    cases hr : resolveValue locals value <;> simp [execFunction]
  | invoke =>
    simp only [GoOK, ssaGo, hostMain, hv]
    exact nothing_iff_noBody hv

/-- `func f()` of a package `p`. -/
def plainFunction : Function :=
  { qualified := "p.f", name := "f", pkg := some "p", hasBlocks := true }

/-- Nothing is intercepted; every type has the method `f`. -/
def noIntercepts : Tables Nat Unit where
  lookupMethod _ _ := some plainFunction
  concreteCallee _ := none
  stdlib _ _ _ := false

end Giri.Call
