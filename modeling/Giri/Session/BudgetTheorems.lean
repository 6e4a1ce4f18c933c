/-
Giri.Session.BudgetTheorems — what a smaller step budget changes about a
call.

Up to the point where the budget runs out, a call does the same under every
budget: the limit is only compared with the step counter. From there on it
executes no instruction, but it still UNWINDS: every goroutine is halted
and its frames are popped, with the deferred calls that a halted goroutine
still dispatches (`Call/HaltTheorems.lean`). Whether that is noticed is a
question about the call stacks, so the semantics comes with the stacks that
its `haltAll` unwinds (`Stacks`).

The limit of a call is `interp.steps + budget` in a `uint64`. A budget that
makes the sum wrap around gives a limit below the steps already counted.
-/
import Giri.Call.HaltTheorems
import Giri.Session.RunTheorems

namespace Giri.Session

open Call (Goroutine)

variable {I F O V E R W A H : Type} [DecidableEq I] {sem : Semantics I F O V E R W A}
  {cache : Option (Hook I V H)} {prior : List (Stored I V)} {h₀ : H}

/-! ## §1. Halted goroutines -/

/-- The goroutines are halted and unwind, one after the other. -/
inductive Unwound {N X : Type} (env : N → X → X) : List (Goroutine N V X) → X → X → Prop where
  | nil (x : X) : Unwound env [] x x
  | cons {g t : Goroutine N V X} {gs : List (Goroutine N V X)} {acts : List (Call.Act N V)}
      {x x' : X} :
      Transition.Run (Goroutine.Step env) { g with panicked := true, world := x } acts t →
        Unwound env gs t.world x' → Unwound env (g :: gs) x x'

/-- If no deferred call that is still dispatched is intercepted, nothing
happens. -/
theorem Unwound.eq {N X : Type} {env : N → X → X} {gs : List (Goroutine N V X)} {x x' : X}
    (h : Unwound env gs x x') (hok : ∀ g ∈ gs, g.HaltOK) : x' = x := by
  induction h with
  | nil => rfl
  | @cons g t gs acts x x' hrun _ ih =>
    obtain ⟨hexit, hframes⟩ := hok g List.mem_cons_self
    have hstart : Goroutine.Inert { g with panicked := true, world := x }
        { g with panicked := true, world := x } :=
      ⟨rfl, rfl, hexit, hframes, [], (List.append_nil _).symm, by simp⟩
    have hend := hrun.invariant (fun _ _ _ hst hI => hI.step hst) hstart
    rw [ih fun g hg => hok g (List.mem_cons_of_mem _ hg), hend.world]

/-- The call stacks behind a semantics. `X` is what intercepted calls work
on, the recorded violations among it. -/
structure Stacks (sem : Semantics I F O V E R W A) (N X : Type) where
  goroutines : State I V R W → List (Goroutine N V X)
  shared : State I V R W → X
  env : N → X → X
  violations : X → List R
  violations_shared : ∀ s, violations (shared s) = s.violations
  /-- `haltAll` halts the goroutines, and they unwind. -/
  haltAll : ∀ s, ∃ x, Unwound env (goroutines s) (shared s) x ∧
    (sem.haltAll s).1.violations = violations x
  /-- `reportDeadlock` does nothing when the interpreter is halting. -/
  deadlock : ∀ s, sem.deadlock (sem.haltAll s).1 = none
  /-- Violations are only ever appended. -/
  halted : ∀ s, s.violations <+: (sem.haltAll s).1.violations
  execOther : ∀ s i, s.violations <+: (sem.execOther s i).1.violations
  resume : ∀ s, s.violations <+: (sem.resume s).1.violations

/-- Unwinding the goroutines of this state has no effect. -/
def Stacks.HaltOK {N X : Type} (K : Stacks sem N X) (s : State I V R W) : Prop :=
  ∀ g ∈ K.goroutines s, g.HaltOK

namespace Stacks

variable {N X : Type} (K : Stacks sem N X)

omit [DecidableEq I] in
theorem haltAll_violations {s : State I V R W} (h : K.HaltOK s) :
    (sem.haltAll s).1.violations = s.violations := by
  obtain ⟨x, hun, hv⟩ := K.haltAll s
  rw [hv, hun.eq h, K.violations_shared]

end Stacks

/-! ## §2. Violations are appended -/

omit [DecidableEq I] in
theorem safepoint_grows (sem : Semantics I F O V E R W A) (s : State I V R W) (i : I) :
    s.violations <+: (sem.safepoint s i).violations := by
  obtain ⟨rs, hrs⟩ := sem.safepoint_append s i
  rw [hrs]
  exact List.prefix_append _ _

theorem execPure_grows (s : State I V R W) (i : I) :
    s.violations <+: (sem.execPure s i).violations := by
  obtain ⟨rs, hrs, -⟩ := sem.install_append (sem.safepoint s i) i
    (sem.evalPure i (sem.pureOperands s i))
  refine (safepoint_grows sem s i).trans ?_
  unfold Semantics.execPure
  rw [hrs]
  exact List.prefix_append _ _

namespace Sess

variable {st st' : Sess I V R W H} {N X : Type}

theorem execInstruction_grows (K : Stacks sem N X) (st : Sess I V R W H) (i : I) :
    st.core.violations <+: (st.execInstruction sem cache i).core.violations := by
  unfold execInstruction
  dsimp only
  split
  · refine List.IsPrefix.trans ?_ (K.resume _)
    obtain ⟨h, -, heq | ⟨-, -, res, n, -, heq⟩⟩ :=
      computePure_cases sem cache st i (sem.classify st.core i)
    · rw [heq, executePure_core]
      exact execPure_grows st.core i
    · rw [heq]
      exact safepoint_grows sem st.core i
  · exact K.execOther st.core i

/-! ## §3. The limit -/

/-- What a session has counted before. -/
structure Offset where
  steps : Nat := 0
  classes : ClassCounts := fun _ => 0
  cacheHits : Nat := 0
  pureExecuted : Nat := 0

/-- The session with higher counters and another limit. -/
def rebase (st : Sess I V R W H) (o : Offset) (limit : Nat) : Sess I V R W H :=
  { st with
    steps := st.steps + o.steps
    classes := fun k => st.classes k + o.classes k
    cacheHits := st.cacheHits + o.cacheHits
    pureExecuted := st.pureExecuted + o.pureExecuted
    limit := limit }

/-- The session with another limit. -/
def withLimit (st : Sess I V R W H) (limit : Nat) : Sess I V R W H := { st with limit := limit }

section Rebase

variable (st : Sess I V R W H) (o : Offset) (limit : Nat) (i : I) (k : InstrClass)

omit [DecidableEq I] in
theorem count_rebase (n : Nat) : (st.rebase o limit).count k n = (st.count k n).rebase o limit := by
  have hsteps : st.steps + o.steps + n = st.steps + n + o.steps := Nat.add_right_comm ..
  have hclasses : ClassCounts.add (fun k => st.classes k + o.classes k) k n =
      fun k' => st.classes.add k n k' + o.classes k' := by
    funext k'
    by_cases hk : k' = k
    · subst hk
      simp [ClassCounts.add, Nat.add_right_comm]
    · simp [ClassCounts.add, hk]
  unfold count rebase
  simp only [hsteps, hclasses]

theorem hit_rebase (res : V) (steps : Nat) :
    (st.rebase o limit).hit sem i k res steps = (st.hit sem i k res steps).rebase o limit := by
  unfold hit
  rw [count_rebase]
  unfold rebase record
  simp only [Nat.add_right_comm]

theorem executePure_rebase :
    (st.rebase o limit).executePure sem cache i k = (st.executePure sem cache i k).rebase o limit := by
  have hpure : st.pureExecuted + o.pureExecuted + 1 = st.pureExecuted + 1 + o.pureExecuted :=
    Nat.add_right_comm ..
  have hcore : (st.rebase o limit).core = st.core := rfl
  unfold executePure
  dsimp only
  rw [count_rebase, hcore]
  cases cache with
  | none =>
    cases (sem.execPure st.core i).locals i with
    | none | some => rfl
  | some hook =>
    by_cases hc : cacheable sem (some hook) st.core i = true
    · simp only [hc, if_true]
      cases (sem.execPure st.core i).locals i with
      | none => simp [rebase, hpure]
      | some => simp [rebase, record, hpure]
    · simp only [hc]
      cases (sem.execPure st.core i).locals i with
      | none | some => rfl

omit [DecidableEq I] in
theorem lookup_rebase :
    lookup sem cache (st.rebase o limit) i =
      ((lookup sem cache st i).1, (lookup sem cache st i).2.rebase o limit) := by
  cases cache with
  | none => rfl
  | some hook =>
    unfold lookup
    dsimp only
    have hcore : cacheable sem (some hook) (st.rebase o limit).core i =
        cacheable sem (some hook) st.core i := rfl
    rw [hcore]
    split <;> rfl

/-- **An instruction looks neither at the counters nor at the limit.** -/
theorem execInstruction_rebase :
    (st.rebase o limit).execInstruction sem cache i =
      (st.execInstruction sem cache i).rebase o limit := by
  have hpure : ∀ k, (st.rebase o limit).computePure sem cache i k =
      (st.computePure sem cache i k).rebase o limit := by
    intro k
    unfold computePure
    rw [lookup_rebase]
    rcases lookup sem cache st i with ⟨found, st'⟩
    cases found with
    | none => exact executePure_rebase st' o limit i k
    | some r => exact hit_rebase st' o limit i k r.1 r.2
  have hclass : sem.classify (st.rebase o limit).core i = sem.classify st.core i := rfl
  unfold execInstruction
  dsimp only
  rw [hclass]
  split
  · rw [hpure]
    rfl
  · rw [count_rebase]
    rfl

/-- An instruction does not look at the limit. -/
theorem execInstruction_withLimit :
    (st.withLimit limit).execInstruction sem cache i =
      (st.execInstruction sem cache i).withLimit limit :=
  execInstruction_rebase st {} limit i

end Rebase

/-! ## §4. The instructions of a call -/

variable (sem cache) in
/-- From `st`, the budget runs out in the state `s`. -/
inductive StopsIn : Sess I V R W H → State I V R W → Prop where
  | here {st : Sess I V R W H} {i : I} (h : pending sem st.core = some i)
      (ho : st.overLimit = true) : StopsIn st st.core
  | later {st : Sess I V R W H} {s : State I V R W} {i : I} (h : pending sem st.core = some i)
      (ho : st.overLimit = false) (hrest : StopsIn (st.execInstruction sem cache i) s) :
      StopsIn st s

variable {is : List I}

theorem ends_grows (K : Stacks sem N X) (h : Ends sem cache st is st') :
    st.core.violations <+: st'.core.violations := by
  induction h with
  | done => exact List.prefix_refl _
  | ended => exact K.halted _
  | step _ _ _ ih => exact (execInstruction_grows K _ _).trans ih

omit [DecidableEq I] in
theorem overLimit_eq_false :
    st.overLimit = false ↔ (0 < st.limit → st.steps < st.limit) := by
  rw [Bool.eq_false_iff]
  simp [Sess.overLimit]

/-- A limit that is no smaller: 0 is no limit. -/
def NoSmaller (limit limit' : Nat) : Prop := 0 < limit ∧ (limit' = 0 ∨ limit ≤ limit')

omit [DecidableEq I] in
theorem NoSmaller.overLimit {limit' : Nat} (h : NoSmaller st.limit limit')
    (ho : st.overLimit = false) : (st.withLimit limit').overLimit = false := by
  obtain ⟨hpos, hle⟩ := h
  have hlt := overLimit_eq_false.mp ho hpos
  refine overLimit_eq_false.mpr fun hpos' => ?_
  change 0 < limit' at hpos'
  change st.steps < limit'
  omega

/-- **A call that does not run out of budget is the same under a larger
one.** -/
theorem ends_withLimit (h : Ends sem cache st is st') {limit' : Nat}
    (hle : NoSmaller st.limit limit') (hst : st.exhausted = false)
    (hst' : st'.exhausted = false) : Ends sem cache (st.withLimit limit') is (st'.withLimit limit') := by
  induction h with
  | done hp => exact .done hp
  | ended => simp [exhaust, advance, record] at hst'
  | @step st st' i is hp ho _ ih =>
    obtain ⟨n, hadds, -⟩ := adds_execInstruction sem cache st i
    refine .step hp (hle.overLimit ho) ?_
    rw [execInstruction_withLimit]
    exact ih (by rw [hadds.limit]; exact hle) (by rw [hadds.exhausted]; exact hst) hst'

/-- **A call that does not run out of budget is the same in a session that has
counted less**, under a limit that is no smaller. -/
theorem ends_rebase {o : Offset} {limit : Nat} (hpos : 0 < limit) (hst' : st'.exhausted = false)
    (h : Ends sem cache (st.rebase o limit) is st')
    (hle : st.limit = 0 ∨ limit ≤ st.limit + o.steps) :
    ∃ u, Ends sem cache st is u ∧ st' = u.rebase o limit := by
  generalize hst : st.rebase o limit = s at h
  induction h generalizing st with
  | done hp =>
    subst hst
    exact ⟨st, .done hp, rfl⟩
  | ended => simp [exhaust, advance, record] at hst'
  | @step s s' i is hp ho _ ih =>
    subst hst
    obtain ⟨n, hadds, -⟩ := adds_execInstruction sem cache st i
    have hlt : st.steps + o.steps < limit := overLimit_eq_false.mp ho hpos
    obtain ⟨u, hends, hu⟩ := ih hst' (by rw [hadds.limit]; exact hle)
      (execInstruction_rebase st o limit i).symm
    refine ⟨u, .step hp (overLimit_eq_false.mpr fun _ => ?_) hends, hu⟩
    omega

/-- **A call that runs out of budget is a beginning of the one under a larger
one**, if unwinding has no effect where the budget runs out. -/
theorem ends_prefix (K : Stacks sem N X) (h : Ends sem cache st is st') {limit' : Nat}
    (hle : NoSmaller st.limit limit') (hst : st.exhausted = false) (hst' : st'.exhausted = true)
    (hok : ∀ s, StopsIn sem cache st s → K.HaltOK s) {is' : List I} {u : Sess I V R W H}
    (hu : Ends sem cache (st.withLimit limit') is' u) :
    is <+: is' ∧ st'.core.violations <+: u.core.violations := by
  induction h generalizing is' with
  | done =>
    rw [hst] at hst'
    cases hst'
  | @ended st i hp ho =>
    refine ⟨List.nil_prefix, ?_⟩
    have hq : (sem.haltAll st.core).1.violations = st.core.violations :=
      K.haltAll_violations (hok _ (.here hp ho))
    change (sem.haltAll st.core).1.violations <+: u.core.violations
    rw [hq]
    have hgrows := ends_grows K hu
    exact hgrows
  | @step st st' i is hp ho _ ih =>
    obtain ⟨n, hadds, -⟩ := adds_execInstruction sem cache st i
    have ho' := hle.overLimit ho
    have hp' : pending sem (st.withLimit limit').core = some i := hp
    cases hu with
    | done hn =>
      rw [hp'] at hn
      cases hn
    | ended _ hover =>
      rw [ho'] at hover
      cases hover
    | @step _ _ i' is' hi _ hrest =>
      obtain rfl : i = i' := by
        rw [hp'] at hi
        exact Option.some.inj hi
      rw [execInstruction_withLimit] at hrest
      obtain ⟨hpre, hviol⟩ := ih (by rw [hadds.limit]; exact hle)
        (by rw [hadds.exhausted]; exact hst) hst' (fun s hs => hok s (.later hp ho hs)) hrest
      exact ⟨(List.prefix_cons_inj i).mpr hpre, hviol⟩

/-- A call that runs out of budget has used it up. -/
theorem ends_steps (hs : ∀ hook ∈ cache, hook.StepsStored prior h₀)
    (h : Ends sem cache st is st') (hu : UnitSteps cache prior h₀ st.hook)
    (hpos : 0 < st.limit) (hle : st.steps ≤ st.limit) (hst : st.exhausted = false)
    (hst' : st'.exhausted = true) : st'.steps = st.limit := by
  induction h with
  | done =>
    rw [hst] at hst'
    cases hst'
  | @ended st i _ ho =>
    simp only [Sess.overLimit, Bool.and_eq_true, decide_eq_true_eq] at ho
    exact Nat.le_antisymm hle ho.2
  | @step st st' i is _ ho _ ih =>
    obtain ⟨hadds, hu'⟩ := adds_one sem hs hu i
    have hsteps := hadds.steps
    have hlt := overLimit_eq_false.mp ho hpos
    rw [← hadds.limit]
    refine ih hu' ?_ ?_ (by rw [hadds.exhausted]; exact hst) hst'
    · rw [hadds.limit]
      exact hpos
    · rw [hadds.limit]
      omega

/-- A call that ran out of budget reports no deadlock. -/
theorem ends_deadlock (K : Stacks sem N X) (h : Ends sem cache st is st')
    (hst : st.exhausted = false) (hst' : st'.exhausted = true) :
    sem.deadlock st'.core = none := by
  induction h with
  | done =>
    rw [hst] at hst'
    cases hst'
  | ended => exact K.deadlock _
  | @step st _ i _ _ _ _ ih =>
    obtain ⟨n, hadds, -⟩ := adds_execInstruction sem cache st i
    exact ih (by rw [hadds.exhausted]; exact hst) hst'

/-! ## §5. Budgets -/

variable (sem cache) in
/-- A call under a budget executes the instructions `is`, gives `out` and
leaves the session `st'`. -/
def Called (st : Sess I V R W H) (args : List V) (budget : Nat) (is : List I)
    (out : CallOutcome V R) (st' : Sess I V R W H) : Prop :=
  match sem.spawn st.core args with
  | (core, some err) =>
    is = [] ∧ ({ panicked := true, violations := [err] }, { st.enter budget with core := core }) =
      (out, st')
  | (core, none) =>
    ∃ u, Ends sem cache { st.enter budget with core := core } is u ∧ leave sem st u = (out, st')

/-- `Session.call` computes it. -/
theorem call_iff {args : List V} {budget : Nat} {out : CallOutcome V R} :
    (∃ fuel, st.call sem cache fuel args budget = some (out, st')) ↔
      ∃ is, Called sem cache st args budget is out st' := by
  unfold call Called
  dsimp only
  rcases sem.spawn st.core args with ⟨core, _ | err⟩
  · simp only [Option.map_eq_some_iff, callLoop_iff]
    constructor
    · rintro ⟨fuel, u, ⟨is, -, hends⟩, hleave⟩
      exact ⟨is, u, hends, hleave⟩
    · rintro ⟨is, u, hends, hleave⟩
      exact ⟨is.length, u, ⟨is, Nat.le_refl _, hends⟩, hleave⟩
  · simp

/-- **A budget truncates a call and does not alter it.** Let `b'` be no
smaller a budget than `b` (0 is no budget), with no sum wrapping around,
and let unwinding have no effect where `b` runs out. A call that `b` is
enough for is the same under `b'`. A call that it is not enough for
executes `b` steps; what it executes and the violations it records are the
beginnings of those under `b'`. -/
theorem budget_truncates (K : Stacks sem N X) (hs : ∀ hook ∈ cache, hook.StepsStored prior h₀)
    (hu : UnitSteps cache prior h₀ st.hook) {args : List V} {b b' : Nat} (hb : 0 < b)
    (hle : b' = 0 ∨ b ≤ b') (hfit : st.steps + b < 2 ^ 64) (hfit' : st.steps + b' < 2 ^ 64)
    (hok : ∀ core s, sem.spawn st.core args = (core, none) →
      StopsIn sem cache { st.enter b with core := core } s → K.HaltOK s)
    {out : CallOutcome V R} (h : Called sem cache st args b is out st') :
    (out.exhausted = false → ∃ st₂, Called sem cache st args b' is out st₂) ∧
      (out.exhausted = true → out.steps = b ∧
        ∀ is' out' st₂, Called sem cache st args b' is' out' st₂ →
          is <+: is' ∧ out.violations <+: out'.violations) := by
  have hlimit := limitOf_eq hb hfit
  have hsmaller : NoSmaller (limitOf st.steps b) (limitOf st.steps b') := by
    rw [hlimit]
    refine ⟨by omega, ?_⟩
    rcases Nat.eq_zero_or_pos b' with rfl | hb'
    · exact .inl rfl
    · rw [limitOf_eq hb' hfit']
      omega
  unfold Called at h ⊢
  split at h
  · obtain ⟨rfl, heq⟩ := h
    cases heq
    refine ⟨fun _ => ⟨_, rfl, rfl⟩, ?_⟩
    intro hex
    cases hex
  · rename_i core hspawn
    obtain ⟨u, hends, hleave⟩ := h
    obtain ⟨rfl, rfl⟩ := Prod.mk.inj hleave
    refine ⟨?_, ?_⟩
    · intro hex
      exact ⟨_, u.withLimit (limitOf st.steps b'), ends_withLimit hends hsmaller rfl hex, rfl⟩
    · intro hex
      have hused := ends_steps hs hends hu (by dsimp only [enter]; omega)
        (by dsimp only [enter]; omega) rfl hex
      refine ⟨?_, ?_⟩
      · change u.steps - st.steps = b
        change u.steps = limitOf st.steps b at hused
        omega
      · rintro is' out' st₂ ⟨u', hends', hleave'⟩
        obtain ⟨rfl, rfl⟩ := Prod.mk.inj hleave'
        obtain ⟨hpre, hviol⟩ := ends_prefix K hends hsmaller rfl hex
          (fun s hstop => hok core s hspawn hstop) hends'
        refine ⟨hpre, ?_⟩
        have hdead := ends_deadlock K hends rfl hex
        obtain ⟨more, hmore⟩ := hviol.trans (List.prefix_append _ (sem.deadlock u'.core).toList)
        dsimp only [leave]
        rw [hdead, Option.toList_none, List.append_nil, ← hmore, List.drop_append]
        exact List.prefix_append _ _

end Sess

/-! ## §6. Where it is altered -/

open Sess

/-- `for { x + 1 }`. -/
def spin : Semantics Unit Unit Unit Value.Scalar String String (Option Value.Scalar) (BitVec 64) :=
  { increment with next := fun _ => some () }

/-- Its goroutine, in a frame without deferred calls. -/
def spinStacks : Stacks spin Unit (List String) where
  goroutines s := [Goroutine.init s.violations false none]
  shared s := s.violations
  env _ x := x
  violations := id
  violations_shared _ := rfl
  haltAll s := ⟨s.violations, .cons .nil (.nil _), rfl⟩
  deadlock _ := rfl
  halted _ := List.prefix_refl _
  execOther _ _ := List.prefix_refl _
  resume _ := List.prefix_refl _

/-- A session in which `n` steps have been counted. -/
def spinning (n : Nat) : Sess Unit Value.Scalar String (Option Value.Scalar) Unit :=
  { core := { locals := fun _ => none, world := none }, steps := n, hook := () }

/-- The loop with a budget of 2 and of 3. -/
theorem budget_truncates_spin :
    ∃ is out st', Called spin none (spinning 7) [.int 1] 2 is out st' ∧ out.exhausted = true ∧
      out.steps = 2 ∧ ∀ is' out' st₂, Called spin none (spinning 7) [.int 1] 3 is' out' st₂ →
        is <+: is' ∧ out.violations <+: out'.violations := by
  have hsome : (call spin none 9 (spinning 7) [.int 1] 2).isSome = true := by decide +kernel
  have hex : (call spin none 9 (spinning 7) [.int 1] 2).map (·.1.exhausted) = some true := by
    decide +kernel
  obtain ⟨⟨out, st'⟩, hcall⟩ := Option.isSome_iff_exists.mp hsome
  obtain ⟨is, hcalled⟩ := call_iff.mp ⟨9, hcall⟩
  rw [hcall] at hex
  have hs : ∀ hook ∈ (none : Option (Hook Unit Value.Scalar Unit)), hook.StepsStored [] () := by
    simp
  have hu : UnitSteps (none : Option (Hook Unit Value.Scalar Unit)) [] () () := by
    simp [UnitSteps, HookInv]
  have hok : ∀ s, spinStacks.HaltOK s := by
    intro s g hg
    rw [List.mem_singleton.mp hg]
    refine ⟨rfl, fun f hf => ?_⟩
    rw [List.mem_singleton.mp hf]
    simp [Call.Frame.Harmless]
  have h := budget_truncates spinStacks hs hu (by decide) (.inr (by decide : 2 ≤ 3)) (by decide)
    (by decide) (fun _ s _ _ => hok s) hcalled
  obtain ⟨hsteps, hpre⟩ := h.2 (Option.some.inj hex)
  exact ⟨is, out, st', hcalled, Option.some.inj hex, hsteps, hpre⟩

open Call Goroutine Interp in
/-- A function without jumps. What an instruction does is given by the steps
of the call stack; the intercepted calls are sync operations. -/
def straightLine (code : List (List (Act (Op Nat Unit) Nat))) :
    Semantics Nat Unit Unit Nat Unit ViolationWithStack
      (Nat × Goroutine (Op Nat Unit) Nat (Interpreter Nat Unit)) Unit where
  instr _ := .other ()
  pureFn _ := false
  nil := 0
  isScalarValue _ := true
  classify _ _ := .other
  pureOperands _ _ := []
  binOpConcrete _ _ _ _ _ := ⟨0, none, none⟩
  concreteUnOp _ _ x := x
  convert _ _ x := ⟨x, none, none⟩
  concreteCall _ _ := ⟨0, none, none⟩
  checkGCPoint _ := []
  wrap _ _ := ⟨.error "", 1, ""⟩
  execOther s i :=
    let g := reached (syncCalls 1) s.world.2 (code[i]?.getD [])
    ({ s with world := (i + 1, g), violations := g.world.violations }, [])
  resume s := (s, [])
  next s := if s.world.1 < code.length then some s.world.1 else none
  haltAll s :=
    let g := reached (syncCalls 1) s.world.2 [.halt, .leave, .next, .done]
    ({ s with world := (s.world.1, g), violations := g.world.violations }, [])
  spawn s _ := (s, none)
  deadlock _ := none
  halted s := s.world.2.stopped
  results _ := []
  forget s := s
  start := none
  accepts _ := true
  marshal s _ := (s, [])
  unmarshal _ _ _ := none
  argsAfter _ _ := none

open Call in
/-- `defer mu.Unlock(); mu.Lock()`, of a package-level `mu`: the two calls,
rundefers and return. -/
def deferThenLock : List (List (Act (Interp.Op Nat Unit) Nat)) :=
  [[.defer (.native (.mutex false ⟨1, 0⟩ .unlock ""))], [.native (.mutex false ⟨1, 0⟩ .lock "")],
    [.runDefers, .next, .done, .next], [.leave, .next]]

/-- The session before `deferThenLock`. -/
def unlocked : Sess Nat Nat Interp.ViolationWithStack
    (Nat × Goroutine (Interp.Op Nat Unit) Nat (Interp.Interpreter Nat Unit)) Unit :=
  { core :=
      { locals := fun _ => none
        world := (0, Goroutine.init (.init (Interp.natConfig true)) true none) }
    hook := () }

/-- **A smaller budget adds a violation, and a huge one stops a call at
once.** In `defer mu.Unlock(); mu.Lock()` a budget of one step runs out
before the lock, and unwinding reports the unlock of an unlocked mutex;
with four steps the function returns, and nothing is reported. In a session that has counted two
steps, a budget of `2 ^ 64 - 1` makes a call stop before its first
instruction. -/
theorem budget_alters :
    (∃ is out st' is' out' st₂,
      Called (straightLine deferThenLock) none unlocked [] 1 is out st' ∧
      Called (straightLine deferThenLock) none unlocked [] 4 is' out' st₂ ∧
      out.exhausted = true ∧ out.violations = [⟨.mutexUnlock "Unlock" "" 1, 1, ""⟩] ∧
      out'.exhausted = false ∧ out'.steps = 4 ∧ out'.violations = []) ∧
    ∃ is out st', Called spin none (spinning 2) [.int 1] (2 ^ 64 - 1) is out st' ∧
      out.exhausted = true ∧ out.steps = 0 := by
  have hone : (call (straightLine deferThenLock) none 9 unlocked [] 1).map
      (fun r => (r.1.exhausted, r.1.violations)) =
        some (true, [⟨.mutexUnlock "Unlock" "" 1, 1, ""⟩]) := by decide +kernel
  have hfour : (call (straightLine deferThenLock) none 9 unlocked [] 4).map
      (fun r => (r.1.exhausted, r.1.steps, r.1.violations)) = some (false, 4, []) := by
    decide +kernel
  have hwrap : (call spin none 9 (spinning 2) [.int 1] (2 ^ 64 - 1)).map
      (fun r => (r.1.exhausted, r.1.steps)) = some (true, 0) := by decide +kernel
  obtain ⟨⟨out, st'⟩, h, heq⟩ := Option.map_eq_some_iff.mp hone
  obtain ⟨⟨out', st₂⟩, h', heq'⟩ := Option.map_eq_some_iff.mp hfour
  obtain ⟨⟨out₃, st₃⟩, h₃, heq₃⟩ := Option.map_eq_some_iff.mp hwrap
  obtain ⟨is, hcalled⟩ := call_iff.mp ⟨9, h⟩
  obtain ⟨is', hcalled'⟩ := call_iff.mp ⟨9, h'⟩
  obtain ⟨is₃, hcalled₃⟩ := call_iff.mp ⟨9, h₃⟩
  obtain ⟨hex, hviol⟩ := Prod.mk.inj heq
  obtain ⟨hex', hrest⟩ := Prod.mk.inj heq'
  obtain ⟨hsteps', hviol'⟩ := Prod.mk.inj hrest
  obtain ⟨hex₃, hsteps₃⟩ := Prod.mk.inj heq₃
  exact ⟨⟨is, out, st', is', out', st₂, hcalled, hcalled', hex, hviol, hex',
    hsteps', hviol'⟩,
    is₃, out₃, st₃, hcalled₃, hex₃, hsteps₃⟩

end Giri.Session
