/-
Giri.Session.CacheTheorems — the value cache is transparent.

A Run with a hook is followed instruction by instruction. Without the hook
itself and the counts of hits (`observed`), its session is that of the Run
that has no hook, and every entry of the hook is what the
instruction makes of those operands, without a violation or a panic
(`Clean`). So a hit installs what an execution would have installed, and
the safepoint of a call is checked in both.

The hook may have been used before: the entries it starts with are any that
executions of the interpreter stored.
-/
import Mathlib.Data.Option.Basic
import Giri.Session.RunTheorems

namespace Giri.Session

variable {I F O V E R W A H : Type} [DecidableEq I] {sem : Semantics I F O V E R W A}
  {prior : List (Stored I V)} {h₀ : H}

/-! ## §1. What is stored -/

/-- Hits only return what was stored for the same instruction and the same
operands. -/
def Hook.Honest (hook : Hook I V H) (prior : List (Stored I V)) (h₀ : H) : Prop :=
  ∀ log h i operands v n, hook.Reachable prior h₀ log h →
    (hook.lookup h i operands).1 = some (v, n) → ⟨i, operands, v, n⟩ ∈ log

/-- The entry was stored by an execution of a pure instruction. -/
def Semantics.StoredBy (sem : Semantics I F O V E R W A) (e : Stored I V) : Prop :=
  ∃ s, Sess.pending sem s = some e.instr ∧ sem.isPure e.instr = true ∧
    Sess.Storable sem s e.instr e.result ∧ e.operands = sem.pureOperands s e.instr ∧ e.steps = 1

/-- The instruction makes the result of the operands, in one step and with
no other effect. -/
structure Clean (sem : Semantics I F O V E R W A) (e : Stored I V) : Prop where
  value : sem.evalPure e.instr e.operands = ⟨e.result, none, none⟩
  steps : e.steps = 1

section Execution

variable {s : State I V R W} {i : I}

/-- An execution that may be stored had no effect but its value. -/
theorem evalPure_of_storable (ha : s.aborted = false) {res : V}
    (h : Sess.Storable sem s i res) :
    sem.evalPure i (sem.pureOperands s i) = ⟨res, none, none⟩ := by
  obtain ⟨hres, hlen, hpanic⟩ := h
  obtain ⟨rs, hrs⟩ := sem.safepoint_append s i
  revert hres hlen hpanic
  unfold Semantics.execPure
  generalize sem.evalPure i (sem.pureOperands s i) = r
  obtain ⟨value, violation, panic⟩ := r
  intro hres hlen hpanic
  cases panic with
  | some => simp [Semantics.install, State.setLocal] at hpanic
  | none =>
    cases violation with
    | some err =>
      obtain ⟨rs', hrs', hone⟩ := sem.recordViolation_append (sem.safepoint s i) err
      have haborted : (sem.safepoint s i).aborted = false := by rw [hrs]; exact ha
      rw [hone haborted] at hrs'
      simp only [Semantics.install, State.setLocal, hrs'] at hlen
      simp [hrs] at hlen
    | none =>
      simp only [Semantics.install, State.setLocal, Function.update_self,
        Option.some.injEq] at hres
      rw [hres]

theorem clean_of_storedBy {e : Stored I V} (h : sem.StoredBy e) : Clean sem e := by
  obtain ⟨s, hpend, -, hstor, hops, hsteps⟩ := h
  refine ⟨?_, hsteps⟩
  rw [hops]
  exact evalPure_of_storable (Sess.pending_aborted hpend) hstor

end Execution

/-! ## §2. One instruction -/

variable {cache : Option (Hook I V H)}

/-- The entries of the hook are clean. -/
abbrev CleanHook (sem : Semantics I F O V E R W A) (cache : Option (Hook I V H))
    (prior : List (Stored I V)) (h₀ h : H) : Prop :=
  HookInv cache prior h₀ (Clean sem) h

namespace Sess

/-- The session without the hook and the counts of hits. -/
def observed (st : Sess I V R W H) : Sess I V R W Unit :=
  { st with hook := (), cacheHits := 0, pureExecuted := 0 }

/-- Executing a pure instruction, with or without a hook. -/
theorem observed_executePure (st : Sess I V R W H) (i : I) (k : InstrClass) :
    (st.executePure sem cache i k).observed = st.observed.executePure sem none i k := by
  unfold executePure
  dsimp only
  rw [show st.observed.core = st.core from rfl]
  cases (sem.execPure st.core i).locals i with
  | none | some =>
    cases cache with
    | none => rfl
    | some hook =>
      dsimp only
      split <;> rfl

/-- A hit on a clean entry does what the execution does. -/
theorem observed_hit (st : Sess I V R W H) {i : I} (k : InstrClass) {res : V} {n : Nat}
    (hc : Clean sem ⟨i, sem.pureOperands st.core i, res, n⟩) :
    (st.hit sem i k res n).observed = st.observed.executePure sem none i k := by
  obtain ⟨hvalue, hsteps⟩ := hc
  dsimp only at hvalue hsteps
  subst hsteps
  have hcore : sem.execPure st.core i = (sem.safepoint st.core i).setLocal i res := by
    simp [Semantics.execPure, Semantics.install, hvalue]
  have hlocal : (sem.execPure st.core i).locals i = some res := by
    simp [hcore, State.setLocal]
  unfold executePure
  dsimp only
  rw [show st.observed.core = st.core from rfl, hlocal, hcore]
  rfl

variable {st : Sess I V R W H}

/-- **An instruction does the same with the hook as without it.** -/
theorem observed_execInstruction (hh : ∀ hook ∈ cache, hook.Honest prior h₀)
    (hc : CleanHook sem cache prior h₀ st.hook) {i : I} (hi : pending sem st.core = some i) :
    (st.execInstruction sem cache i).observed = st.observed.execInstruction sem none i ∧
      CleanHook sem cache prior h₀ (st.execInstruction sem cache i).hook := by
  have hpure : ∀ k, (st.computePure sem cache i k).observed =
      st.observed.executePure sem none i k := by
    intro k
    obtain ⟨h, -, heq | ⟨hook, hmem, res, n, hf, heq⟩⟩ := computePure_cases sem cache st i k
    · rw [heq]
      exact observed_executePure ..
    · obtain ⟨log, hlog, hall⟩ := hc hook hmem
      rw [heq]
      exact observed_hit { st with hook := h } k (hall _ (hh hook hmem _ _ _ _ _ _ hlog hf))
  refine ⟨?_, hookInv_execInstruction i hc ?_⟩
  · unfold execInstruction
    dsimp only
    split
    · show _ = (st.observed.executePure sem none i (sem.classify st.core i)).advance
        (sem.resume (st.observed.executePure sem none i (sem.classify st.core i)).core)
      rw [← hpure]
      rfl
    · rfl
  · intro res _ hstor
    exact ⟨evalPure_of_storable (pending_aborted hi) hstor, rfl⟩

end Sess

/-! ## §3. Calls and Runs -/

/-- The two runs both end, in the same way, or both go on. -/
theorem observed_callLoop (hh : ∀ hook ∈ cache, hook.Honest prior h₀) (fuel : Nat)
    {st : Sess I V R W H} (hc : CleanHook sem cache prior h₀ st.hook) :
    Option.Rel (fun st' u => st'.observed = u ∧ CleanHook sem cache prior h₀ st'.hook)
      (Sess.callLoop sem cache fuel st) (Sess.callLoop sem none fuel st.observed) := by
  fun_induction Sess.callLoop sem cache fuel st with
  | case1 fuel st hp =>
    rw [Sess.callLoop, show Sess.pending sem st.observed.core = none from hp]
    exact .some ⟨rfl, hc⟩
  | case2 fuel st i hp ho =>
    rw [Sess.callLoop, show Sess.pending sem st.observed.core = some i from hp]
    simp only [show st.observed.overLimit = true from ho, if_true]
    exact .some ⟨rfl, hc⟩
  | case3 st i hp ho =>
    rw [Sess.callLoop, show Sess.pending sem st.observed.core = some i from hp]
    simp only [show ¬ st.observed.overLimit = true from ho]
    exact .none
  | case4 st i hp ho fuel ih =>
    obtain ⟨heq, hc'⟩ := Sess.observed_execInstruction hh hc hp
    have hloop : Sess.callLoop sem none (fuel + 1) st.observed =
        Sess.callLoop sem none fuel (st.observed.execInstruction sem none i) := by
      rw [Sess.callLoop, show Sess.pending sem st.observed.core = some i from hp]
      simp only [show ¬ st.observed.overLimit = true from ho]
      rfl
    rw [hloop, ← heq]
    exact ih hc'

/-- The outcome without the counts of hits. -/
def CallOutcome.observed (out : CallOutcome V R) : CallOutcome V R :=
  { out with cacheHits := 0, pureExecuted := 0 }

theorem observed_call (hh : ∀ hook ∈ cache, hook.Honest prior h₀) {st : Sess I V R W H}
    (hc : CleanHook sem cache prior h₀ st.hook) (fuel : Nat) (args : List V) (budget : Nat) :
    Option.Rel (fun r u => r.1.observed = u.1.observed ∧ r.2.observed = u.2 ∧
        CleanHook sem cache prior h₀ r.2.hook)
      (st.call sem cache fuel args budget) (st.observed.call sem none fuel args budget) := by
  unfold Sess.call
  dsimp only
  rw [show st.observed.core = st.core from rfl]
  split
  · exact .some ⟨rfl, rfl, hc⟩
  · rename_i core _
    have hin : CleanHook sem cache prior h₀ { st.enter budget with core := core }.hook := hc
    have hrel := observed_callLoop hh fuel hin
    revert hrel
    show Option.Rel _ _ (Sess.callLoop sem none fuel { st.observed.enter budget with core := core }) → _
    generalize Sess.callLoop sem cache fuel { st.enter budget with core := core } = r
    generalize Sess.callLoop sem none fuel { st.observed.enter budget with core := core } = u
    intro hrel
    cases hrel with
    | none => exact .none
    | some hab =>
      obtain ⟨rfl, hca⟩ := hab
      exact .some ⟨rfl, rfl, hca⟩

namespace Result

/-- The result without the counts of hits. -/
def observed (res : Result I V R A) : Result I V R A :=
  { res with cacheHits := 0, pureExecuted := 0 }

omit [DecidableEq I] in
theorem observed_add {res res' : Result I V R A} (h : res.observed = res'.observed)
    {out out' : CallOutcome V R} (ho : out.observed = out'.observed) (opts : Options) (set : Nat)
    (recorded : List (I × V)) (verdict : Outcome × Option (List A) × Option (List (Option A))) :
    (res.add opts set out recorded verdict).observed =
      (res'.add opts set out' recorded verdict).observed := by
  have hadd := congrArg₂ (fun r o => (add opts r set o recorded verdict).observed) h ho
  exact hadd

end Result

theorem observed_runSets (hh : ∀ hook ∈ cache, hook.Honest prior h₀) (opts : Options) (fuel : Nat)
    (args : List (List A)) {set remaining : Nat} {st : Sess I V R W H} {res res' : Result I V R A}
    (hc : CleanHook sem cache prior h₀ st.hook) (hres : res.observed = res'.observed) :
    (runSets sem opts cache fuel set remaining st args res).map Result.observed =
      (runSets sem opts none fuel set remaining st.observed args res').map Result.observed := by
  induction args generalizing set remaining st res res' with
  | nil => exact congrArg some hres
  | cons a args ih =>
    simp only [runSets]
    split
    · exact congrArg (fun r => some (Result.addUnrun opts r)) hres
    · have hin : CleanHook sem cache prior h₀
          { st with core := (sem.marshal st.core a).1, recorded := [] }.hook := hc
      have hrel := observed_call hh hin fuel (sem.marshal st.core a).2 remaining
      rw [show st.observed.core = st.core from rfl]
      revert hrel
      show Option.Rel _ _ (Sess.call sem none fuel
        { st.observed with core := (sem.marshal st.core a).1, recorded := [] } _ remaining) → _
      generalize Sess.call sem cache fuel _ _ remaining = r
      generalize Sess.call sem none fuel _ _ remaining = u
      intro hrel
      cases hrel with
      | none => rfl
      | some hab =>
        rename_i x y
        obtain ⟨out, st₁⟩ := x
        obtain ⟨out', st₁'⟩ := y
        obtain ⟨ho, rfl, hca⟩ := hab
        dsimp only at ho hca ⊢
        have hsteps : out'.steps = out.steps := (congrArg CallOutcome.steps ho).symm
        have hjudge : judge sem st₁.observed.core (sem.marshal st.core a).2 out' =
            judge sem st₁.core (sem.marshal st.core a).2 out := (congrArg (judge sem _ _) ho).symm
        have hadd := Result.observed_add hres ho opts set st₁.recorded
          (judge sem st₁.core (sem.marshal st.core a).2 out)
        rw [hjudge, hsteps]
        split
        · exact congrArg some hadd
        · exact ih hca hadd

/-- **The value cache is transparent.** With a hook whose hits only return
what was stored for the same instruction and operands, a Run gives what it
gives without a hook, apart from the counts of hits. -/
theorem cache_transparent (sem : Semantics I F O V E R W A) (opts : Options)
    (hook : Hook I V H) (h₀ : H) (prior : List (Stored I V))
    (hprior : ∀ e ∈ prior, sem.StoredBy e) (hh : hook.Honest prior h₀) (fuel : Nat)
    (args : List (List A)) :
    (run sem opts (some hook) h₀ fuel args).map Result.observed =
      (run sem opts none h₀ fuel args).map Result.observed := by
  -- both are the Run without a hook, seen in the observed sessions
  unfold run
  split
  · split
    · rfl
    · rename_i core _
      have hhook : ∀ c ∈ some hook, c.Honest prior h₀ := by
        rintro c ⟨⟩
        exact hh
      have hclean : CleanHook sem (some hook) prior h₀ h₀ := by
        rintro c ⟨⟩
        exact ⟨prior, .start, fun e he => clean_of_storedBy (hprior e he)⟩
      have hnone : CleanHook sem (none : Option (Hook I V H)) prior h₀ h₀ := by simp [HookInv]
      exact (observed_runSets hhook opts fuel args hclean rfl).trans
        (observed_runSets (by simp) opts fuel args hnone rfl).symm
  · rfl

/-! ## §4. A table -/

/-- The hook that keeps everything it is given. -/
def tableHook [DecidableEq V] : Hook I V (List (Stored I V)) where
  lookup h i operands :=
    ((h.find? fun e => e.instr = i ∧ e.operands = operands).map fun e => (e.result, e.steps), h)
  store h i operands v n := h ++ [⟨i, operands, v, n⟩]

theorem tableHook_honest [DecidableEq V] (prior : List (Stored I V)) :
    tableHook.Honest prior prior := by
  have hlog : ∀ log h, tableHook.Reachable prior prior log h → h = log := by
    intro log h hr
    induction hr with
    | start => rfl
    | lookup i operands _ ih => exact ih
    | store e _ ih => simp [tableHook, ih]
  intro log h i operands v n hr hfound
  obtain rfl := hlog log h hr
  simp only [tableHook, Option.map_eq_some_iff, Prod.mk.injEq] at hfound
  obtain ⟨e, he, rfl, rfl⟩ := hfound
  have hprop := List.find?_some he
  simp only [decide_eq_true_eq] at hprop
  obtain ⟨rfl, rfl⟩ := hprop
  exact List.mem_of_find?_eq_some he

/-- The second set finds the sum of the first. -/
theorem cache_transparent_increment :
    (run increment {} (some tableHook) [] 9 [[1], [1]]).map (·.cacheHits) = some 1 ∧
      (run increment {} (some tableHook) [] 9 [[1], [1]]).map Result.observed =
        (run increment {} none ([] : List (Stored Unit Value.Scalar)) 9 [[1], [1]]).map
          Result.observed :=
  ⟨by decide +kernel,
    cache_transparent increment {} tableHook [] [] (by simp) (tableHook_honest []) 9 [[1], [1]]⟩

end Giri.Session
