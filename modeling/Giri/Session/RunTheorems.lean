/-
Giri.Session.RunTheorems — the result of a Run is well formed.

The steps are counted three times: in the session (`interp.steps` and
`cs.classes`, which only grow), per call, and in Run. A call is
characterised by what it adds to the session's counters (`Counted`), and
the loop over the argument sets by what its result and its session say
about each other (`Tally`).

That the budget is never exceeded needs that an instruction is never
counted for more than one step, so it depends on the hook: its hits may
only return step counts that were stored.
-/
import Giri.Session.Run

namespace Giri.Session

/-! ## §1. Hooks -/

/-- An entry of the cache. -/
structure Stored (I V : Type) where
  instr : I
  operands : List V
  result : V
  steps : Nat

namespace Hook

variable {I V H : Type}

/-- The states of a hook that starts in `h₀` with the entries `prior`, and
the entries it has been given. -/
inductive Reachable (hook : Hook I V H) (prior : List (Stored I V)) (h₀ : H) :
    List (Stored I V) → H → Prop where
  | start : Reachable hook prior h₀ prior h₀
  | lookup {log : List (Stored I V)} {h : H} (i : I) (operands : List V) :
      Reachable hook prior h₀ log h → Reachable hook prior h₀ log (hook.lookup h i operands).2
  | store {log : List (Stored I V)} {h : H} (e : Stored I V) :
      Reachable hook prior h₀ log h →
        Reachable hook prior h₀ (log ++ [e]) (hook.store h e.instr e.operands e.result e.steps)

/-- Hits only return step counts that were stored. -/
def StepsStored (hook : Hook I V H) (prior : List (Stored I V)) (h₀ : H) : Prop :=
  ∀ log h i operands v n, hook.Reachable prior h₀ log h →
    (hook.lookup h i operands).1 = some (v, n) → ∃ e ∈ log, e.steps = n

end Hook

/-- If there is a hook, it can have got to `h` with entries that all have
`P`. -/
def HookInv {I V H : Type} (cache : Option (Hook I V H)) (prior : List (Stored I V)) (h₀ : H)
    (P : Stored I V → Prop) (h : H) : Prop :=
  ∀ hook ∈ cache, ∃ log, hook.Reachable prior h₀ log h ∧ ∀ e ∈ log, P e

/-! ## §2. Class counts -/

namespace ClassCounts

/-- Every step is in one class. -/
@[simp] theorem total_add (c : ClassCounts) (k : InstrClass) (n : Nat) :
    (c.add k n).total = c.total + n := by
  cases k <;> simp [total, add, InstrClass.all, Function.update] <;> omega

theorem le_add (c : ClassCounts) (k k' : InstrClass) (n : Nat) : c k' ≤ c.add k n k' := by
  by_cases h : k' = k
  · subst h
    simp [add]
  · simp [add, Function.update, h]

theorem total_sum (c d : ClassCounts) : total (fun k => c k + d k) = c.total + d.total := by
  simp only [total, InstrClass.all, List.map_cons, List.map_nil, List.sum_cons, List.sum_nil]
  omega

theorem total_since {c c₀ : ClassCounts} (h : ∀ k, c₀ k ≤ c k) :
    (c.since c₀).total + c₀.total = c.total := by
  have hc : c = fun k => c.since c₀ k + c₀ k := funext fun k => (Nat.sub_add_cancel (h k)).symm
  rw [← total_sum, ← hc]

end ClassCounts

/-! ## §3. A Run -/

variable {I F O V E R W A H : Type} {sem : Semantics I F O V E R W A} {out : CallOutcome V R}

/-- A set has outputs, and argument values after the call, exactly if it
returned. -/
def EntryOK (o : Outcome) (out : Option (List A)) (after : Option (List (Option A))) : Prop :=
  (out.isSome = true ↔ o = .returned) ∧ (after.isSome = true ↔ o = .returned)

theorem entryOK_judge (sem : Semantics I F O V E R W A) (s : State I V R W) (vals : List V) (out : CallOutcome V R) :
    EntryOK (judge sem s vals out).1 (judge sem s vals out).2.1 (judge sem s vals out).2.2 := by
  unfold judge
  split
  · simp [EntryOK]
  · split
    · simp [EntryOK]
    · split
      · simp [EntryOK]
      · split
        · simp [EntryOK]
        · simp [EntryOK]

namespace Result

/-- The result has `n` entries, and every violation is of one of them. -/
structure Shaped (opts : Options) (n : Nat) (res : Result I V R A) : Prop where
  outputs : res.outputs.length = n
  outcomes : res.outcomes.length = n
  argsAfter : res.argsAfter.length = n
  stepsPerSet : res.stepsPerSet.length = n
  traces : opts.trace = true → res.traces.length = n
  entries : ∀ (i : Nat) o out after, res.outcomes[i]? = some o → res.outputs[i]? = some out →
    res.argsAfter[i]? = some after → EntryOK o out after
  violations : ∀ v ∈ res.violations, v.set < n

variable {opts : Options} {n : Nat} {res : Result I V R A}

theorem shaped_empty : Shaped opts 0 ({} : Result I V R A) :=
  ⟨rfl, rfl, rfl, rfl, fun _ => rfl, by simp, by simp⟩

/-- The entries of lists that grow together. -/
theorem Shaped.entries_snoc (h : Shaped opts n res) {o : Outcome} {out : Option (List A)}
    {after : Option (List (Option A))} (hok : EntryOK o out after) {i : Nat} {o' : Outcome}
    {out' : Option (List A)} {after' : Option (List (Option A))}
    (h₁ : (res.outcomes ++ [o])[i]? = some o') (h₂ : (res.outputs ++ [out])[i]? = some out')
    (h₃ : (res.argsAfter ++ [after])[i]? = some after') : EntryOK o' out' after' := by
  rcases Nat.lt_trichotomy i n with hi | rfl | hi
  · rw [List.getElem?_append_left (by rw [h.outcomes]; exact hi)] at h₁
    rw [List.getElem?_append_left (by rw [h.outputs]; exact hi)] at h₂
    rw [List.getElem?_append_left (by rw [h.argsAfter]; exact hi)] at h₃
    exact h.entries i _ _ _ h₁ h₂ h₃
  · rw [List.getElem?_append_right (by rw [h.outcomes]), h.outcomes] at h₁
    rw [List.getElem?_append_right (by rw [h.outputs]), h.outputs] at h₂
    rw [List.getElem?_append_right (by rw [h.argsAfter]), h.argsAfter] at h₃
    simp only [Nat.sub_self, List.getElem?_cons_zero, Option.some.injEq] at h₁ h₂ h₃
    subst h₁ h₂ h₃
    exact hok
  · rw [List.getElem?_eq_none (by simp [h.outcomes]; omega)] at h₁
    cases h₁

variable {verdict : Outcome × Option (List A) × Option (List (Option A))}

theorem Shaped.add (h : Shaped opts n res) (out : CallOutcome V R) (recorded : List (I × V))
    (hok : EntryOK verdict.1 verdict.2.1 verdict.2.2) :
    Shaped opts (n + 1) (res.add opts n out recorded verdict) where
  outputs := by simp [Result.add, h.outputs]
  outcomes := by simp [Result.add, h.outcomes]
  argsAfter := by simp [Result.add, h.argsAfter]
  stepsPerSet := by simp [Result.add, h.stepsPerSet]
  traces := by
    intro ht
    simp [Result.add, ht, h.traces ht]
  entries := fun i o out after h₁ h₂ h₃ => h.entries_snoc hok h₁ h₂ h₃
  violations := by
    intro v hv
    simp only [Result.add, List.mem_append, List.mem_map] at hv
    rcases hv with hv | ⟨err, -, rfl⟩
    · exact Nat.lt_succ_of_lt (h.violations v hv)
    · exact Nat.lt_succ_self n

theorem Shaped.addUnrun (h : Shaped opts n res) : Shaped opts (n + 1) (res.addUnrun opts) := by
  -- the entry of an empty call
  have hadd : Shaped opts (n + 1) (res.add opts n {} [] (.exhausted, none, none)) :=
    h.add _ _ (by simp [EntryOK])
  exact { hadd with violations := fun v hv => Nat.lt_succ_of_lt (h.violations v hv) }

/-- No set has run out of budget yet. -/
structure Going (res : Result I V R A) : Prop where
  flag : res.exhausted = false
  outcomes : ∀ o ∈ res.outcomes, o ≠ .exhausted

/-- Only the last set can have run out of budget, and the flag says so. -/
structure Ended (res : Result I V R A) : Prop where
  flag : res.exhausted = true ↔ res.outcomes.getLast? = some .exhausted
  outcomes : ∀ o ∈ res.outcomes.dropLast, o ≠ .exhausted

theorem Going.ended (h : Going res) : Ended res := by
  refine ⟨?_, fun o ho => h.outcomes o (List.dropLast_subset _ ho)⟩
  rw [h.flag]
  simp only [Bool.false_eq_true, false_iff]
  intro hlast
  exact h.outcomes _ (List.mem_of_getLast? hlast) rfl

theorem Going.add (h : Going res) {set : Nat} {recorded : List (I × V)}
    (hv : verdict.1 ≠ .exhausted) : Going (res.add opts set out recorded verdict) := by
  refine ⟨by simp [Result.add, h.flag, hv], ?_⟩
  intro o ho
  simp only [Result.add, List.mem_append, List.mem_singleton] at ho
  rcases ho with ho | rfl
  · exact h.outcomes o ho
  · exact hv

theorem Going.ended_add (h : Going res) {set : Nat} {recorded : List (I × V)}
    (hv : verdict.1 = .exhausted) : Ended (res.add opts set out recorded verdict) :=
  ⟨by simp [Result.add, hv], fun o ho => h.outcomes o (by simpa [Result.add] using ho)⟩

theorem Going.ended_addUnrun (h : Going res) : Ended (res.addUnrun opts) :=
  ⟨by simp [Result.addUnrun], fun o ho => h.outcomes o (by simpa [Result.addUnrun] using ho)⟩

end Result

/-! ## §4. One instruction -/

variable {cache : Option (Hook I V H)} {prior : List (Stored I V)} {h₀ : H}
  {P : Stored I V → Prop} {fuel : Nat} {st' : Sess I V R W H}

namespace Semantics

variable (sem) (s : State I V R W) (i : I)

/-- Recording an error appends a violation, unless the goroutine is
aborted. -/
theorem recordViolation_append (err : E) : ∃ rs,
    sem.recordViolation s err = { s with violations := s.violations ++ rs } ∧
      (s.aborted = false → rs = [sem.wrap s err]) := by
  unfold recordViolation
  split
  · rename_i ha
    exact ⟨[], by simp, by simp [ha]⟩
  · exact ⟨_, rfl, fun _ => rfl⟩

theorem safepoint_append : ∃ rs,
    sem.safepoint s i = { s with violations := s.violations ++ rs } := by
  unfold safepoint gcSafepoint
  generalize sem.checkGCPoint s = errs
  split
  · induction errs generalizing s with
    | nil => exact ⟨[], by simp⟩
    | cons err errs ih =>
      obtain ⟨rs, hrs, -⟩ := sem.recordViolation_append s err
      obtain ⟨rs', hrs'⟩ := ih (sem.recordViolation s err)
      exact ⟨rs ++ rs', by rw [List.foldl_cons, hrs', hrs, List.append_assoc]⟩
  · exact ⟨[], by simp⟩

variable [DecidableEq I] in
theorem install_append (r : Evaluated V E) : ∃ rs,
    (sem.install s i r).violations = s.violations ++ rs ∧ (sem.install s i r).world = s.world := by
  obtain ⟨value, violation, panic⟩ := r
  cases violation with
  | none => exact ⟨[], by cases panic <;> simp [install, State.setLocal]⟩
  | some err =>
    obtain ⟨rs, hrs, -⟩ := sem.recordViolation_append s err
    exact ⟨rs, by cases panic <;> simp [install, State.setLocal, hrs]⟩

end Semantics

namespace Sess

variable {st st' : Sess I V R W H} {i : I}

/-- `st'` is `st` with `n` more steps in one class. -/
structure Adds (st st' : Sess I V R W H) (n : Nat) : Prop where
  steps : st'.steps = st.steps + n
  classes : ∃ k, st'.classes = st.classes.add k n
  limit : st'.limit = st.limit
  exhausted : st'.exhausted = st.exhausted

/-- From `st` to `st'`, as many steps were counted as in all classes
together. -/
structure Counted (st st' : Sess I V R W H) : Prop where
  steps : st.steps ≤ st'.steps
  classes : ∀ k, st.classes k ≤ st'.classes k
  total : st'.classes.total + st.steps = st.classes.total + st'.steps

theorem Counted.refl (st : Sess I V R W H) : Counted st st :=
  ⟨Nat.le_refl _, fun _ => Nat.le_refl _, rfl⟩

theorem Counted.trans {st₁ st₂ st₃ : Sess I V R W H} (h : Counted st₁ st₂)
    (h' : Counted st₂ st₃) : Counted st₁ st₃ := by
  refine ⟨Nat.le_trans h.steps h'.steps, fun k => Nat.le_trans (h.classes k) (h'.classes k), ?_⟩
  have h₁ := h.total
  have h₂ := h'.total
  omega

theorem Adds.counted {n : Nat} (h : Adds st st' n) : Counted st st' := by
  obtain ⟨k, hk⟩ := h.classes
  refine ⟨?_, ?_, ?_⟩
  · rw [h.steps]
    omega
  · intro k'
    rw [hk]
    exact ClassCounts.le_add ..
  · rw [hk, h.steps, ClassCounts.total_add]
    omega

/-- The goroutine of an instruction that comes to the prologue goes on. -/
theorem pending_aborted {sem : Semantics I F O V E R W A} {s : State I V R W}
    (h : pending sem s = some i) : s.aborted = false := by
  unfold pending at h
  split at h
  · cases h
  · rename_i hs
    simp only [Bool.or_eq_true, not_or, Bool.not_eq_true] at hs
    exact hs.2

theorem limitOf_eq {steps budget : Nat} (hpos : 0 < budget) (hfit : steps + budget < 2 ^ 64) :
    limitOf steps budget = steps + budget := by
  rw [limitOf, if_pos hpos, Nat.mod_eq_of_lt hfit]

variable [DecidableEq I]

/-- Executing a pure instruction counts one step, whatever it stores. -/
theorem executePure_eq (sem : Semantics I F O V E R W A) (cache : Option (Hook I V H))
    (st : Sess I V R W H) (i : I) (k : InstrClass) : ∃ pureExecuted hook recorded,
      st.executePure sem cache i k = { st.count k 1 with
        core := sem.execPure st.core i, pureExecuted, hook, recorded } := by
  unfold executePure
  dsimp only
  split
  · split
    · split <;> exact ⟨_, _, _, rfl⟩
    · exact ⟨_, _, _, rfl⟩
  · split
    · split <;> exact ⟨_, _, _, rfl⟩
    · exact ⟨_, _, _, rfl⟩

theorem executePure_core (sem : Semantics I F O V E R W A) (cache : Option (Hook I V H))
    (st : Sess I V R W H) (i : I) (k : InstrClass) :
    (st.executePure sem cache i k).core = sem.execPure st.core i := by
  obtain ⟨_, _, _, heq⟩ := executePure_eq sem cache st i k
  rw [heq]

/-- A pure instruction is executed or found, with the hook as it was or as
the lookup left it. -/
theorem computePure_cases (sem : Semantics I F O V E R W A) (cache : Option (Hook I V H))
    (st : Sess I V R W H) (i : I) (k : InstrClass) : ∃ h,
      (h = st.hook ∨ ∃ hook ∈ cache, h = (hook.lookup st.hook i (sem.pureOperands st.core i)).2) ∧
      (st.computePure sem cache i k = { st with hook := h }.executePure sem cache i k ∨
        ∃ hook ∈ cache, ∃ res n,
          (hook.lookup st.hook i (sem.pureOperands st.core i)).1 = some (res, n) ∧
          st.computePure sem cache i k = { st with hook := h }.hit sem i k res n) := by
  unfold computePure lookup
  cases cache with
  | none => exact ⟨st.hook, .inl rfl, .inl rfl⟩
  | some hook =>
    by_cases hc : cacheable sem (some hook) st.core i
    · refine ⟨_, .inr ⟨hook, rfl, rfl⟩, ?_⟩
      simp only [hc, if_true]
      cases hf : (hook.lookup st.hook i (sem.pureOperands st.core i)).1 with
      | none => exact .inl rfl
      | some r => exact .inr ⟨hook, rfl, r.1, r.2, hf, rfl⟩
    · simp only [hc]
      exact ⟨st.hook, .inl rfl, .inl rfl⟩

/-- An instruction is counted as one step, or as the steps of a hit. -/
theorem adds_execInstruction (sem : Semantics I F O V E R W A) (cache : Option (Hook I V H))
    (st : Sess I V R W H) (i : I) :
    ∃ n, Adds st (st.execInstruction sem cache i) n ∧
      (n = 1 ∨ ∃ hook ∈ cache, ∃ v,
        (hook.lookup st.hook i (sem.pureOperands st.core i)).1 = some (v, n)) := by
  unfold execInstruction
  dsimp only
  split
  · obtain ⟨h, -, heq | ⟨hook, hmem, res, n, hf, heq⟩⟩ :=
      computePure_cases sem cache st i (sem.classify st.core i)
    · obtain ⟨_, _, _, hex⟩ :=
        executePure_eq sem cache { st with hook := h } i (sem.classify st.core i)
      rw [heq, hex]
      exact ⟨1, ⟨rfl, ⟨_, rfl⟩, rfl, rfl⟩, .inl rfl⟩
    · rw [heq]
      exact ⟨n, ⟨rfl, ⟨_, rfl⟩, rfl, rfl⟩, .inr ⟨hook, hmem, res, hf⟩⟩
  · exact ⟨1, ⟨rfl, ⟨_, rfl⟩, rfl, rfl⟩, .inl rfl⟩

/-- What `executePure` stores: the value of the instruction, if it recorded
no violation and started no panic. -/
def Storable (sem : Semantics I F O V E R W A) (s : State I V R W) (i : I) (res : V) : Prop :=
  let s' := sem.execPure s i
  s'.locals i = some res ∧ s'.violations.length = s.violations.length ∧ s'.panicking = false

theorem hookInv_executePure (st : Sess I V R W H) (k : InstrClass)
    (h : HookInv cache prior h₀ P st.hook)
    (hP : ∀ res, Storable sem st.core i res →
      P ⟨i, sem.pureOperands st.core i, res, 1⟩) :
    HookInv cache prior h₀ P (st.executePure sem cache i k).hook := by
  intro hook hmem
  obtain ⟨log, hlog, hall⟩ := h hook hmem
  obtain rfl := Option.mem_def.mp hmem
  have hkeep : ∃ log, hook.Reachable prior h₀ log st.hook ∧ ∀ e ∈ log, P e := ⟨log, hlog, hall⟩
  unfold executePure
  dsimp only
  split
  · rename_i res hres
    dsimp only [record]
    split
    · split
      · rename_i hcond
        simp only [Bool.and_eq_true, decide_eq_true_eq, Bool.not_eq_true'] at hcond
        refine ⟨log ++ [⟨i, sem.pureOperands st.core i, res, 1⟩], .store _ hlog, ?_⟩
        intro e he
        rcases List.mem_append.mp he with he | he
        · exact hall e he
        · rw [List.mem_singleton.mp he]
          exact hP res ⟨hres, hcond.1.1.1, hcond.1.2⟩
      · exact hkeep
    · exact hkeep
  · split
    · exact hkeep
    · exact hkeep

/-- The entries of the hook keep a property that what is stored has. -/
theorem hookInv_execInstruction (i : I) (h : HookInv cache prior h₀ P st.hook)
    (hP : ∀ res, sem.isPure i = true → Storable sem st.core i res →
      P ⟨i, sem.pureOperands st.core i, res, 1⟩) :
    HookInv cache prior h₀ P (st.execInstruction sem cache i).hook := by
  unfold execInstruction
  dsimp only
  split
  · rename_i hpure
    obtain ⟨h', hh', heq⟩ := computePure_cases sem cache st i (sem.classify st.core i)
    have hlook : HookInv cache prior h₀ P h' := by
      rcases hh' with rfl | ⟨hook, hmem, rfl⟩
      · exact h
      · intro hook' hmem'
        obtain rfl : hook = hook' := Option.mem_unique hmem hmem'
        obtain ⟨log, hlog, hall⟩ := h hook hmem
        exact ⟨log, .lookup _ _ hlog, hall⟩
    rcases heq with heq | ⟨-, -, res, n, -, heq⟩
    · rw [heq]
      exact hookInv_executePure { st with hook := h' } _ hlook fun res => hP res hpure
    · rw [heq]
      exact hlook
  · exact h

/-! ## §5. A call -/

variable (sem cache) in
/-- From `st`, the call executes the instructions `is` and ends in `st'`. -/
inductive Ends : Sess I V R W H → List I → Sess I V R W H → Prop where
  | done {st : Sess I V R W H} (h : pending sem st.core = none) : Ends st [] st
  | ended {st : Sess I V R W H} {i : I} (h : pending sem st.core = some i)
      (ho : st.overLimit = true) : Ends st [] (st.exhaust sem)
  | step {st st' : Sess I V R W H} {i : I} {is : List I} (h : pending sem st.core = some i)
      (ho : st.overLimit = false) (hrest : Ends (st.execInstruction sem cache i) is st') :
      Ends st (i :: is) st'

/-- The fuelled loop computes the end of a call, with enough fuel. -/
theorem callLoop_iff {st : Sess I V R W H} :
    callLoop sem cache fuel st = some st' ↔ ∃ is, is.length ≤ fuel ∧ Ends sem cache st is st' := by
  constructor
  · intro h
    fun_induction callLoop sem cache fuel st with
    | case1 fuel st hp =>
      cases h
      exact ⟨[], Nat.zero_le _, .done hp⟩
    | case2 fuel st i hp ho =>
      cases h
      exact ⟨[], Nat.zero_le _, .ended hp ho⟩
    | case3 st i hp ho => cases h
    | case4 st i hp ho fuel ih =>
      obtain ⟨is, hlen, hends⟩ := ih h
      exact ⟨i :: is, Nat.succ_le_succ hlen, .step hp (by simpa using ho) hends⟩
  · rintro ⟨is, hlen, hends⟩
    induction hends generalizing fuel with
    | done hp =>
      unfold callLoop
      simp [hp]
    | ended hp ho =>
      unfold callLoop
      simp [hp, ho]
    | step hp ho hrest ih =>
      obtain ⟨n, rfl⟩ := Nat.exists_eq_add_of_lt hlen
      unfold callLoop
      simp only [hp, ho, Bool.false_eq_true, if_false]
      exact ih (by omega)

/-- The end of a call changes no counter. -/
theorem counted_callLoop {st : Sess I V R W H} (h : callLoop sem cache fuel st = some st') :
    Counted st st' ∧ st'.limit = st.limit := by
  obtain ⟨is, -, hends⟩ := callLoop_iff.mp h
  clear h
  induction hends with
  | done => exact ⟨.refl _, rfl⟩
  | ended => exact ⟨⟨Nat.le_refl _, fun _ => Nat.le_refl _, rfl⟩, rfl⟩
  | @step st st' i is hp ho hrest ih =>
    obtain ⟨n, hadds, -⟩ := adds_execInstruction sem cache st i
    exact ⟨hadds.counted.trans ih.1, ih.2.trans hadds.limit⟩

/-- The steps that were stored are one step each. -/
abbrev UnitSteps (cache : Option (Hook I V H)) (prior : List (Stored I V)) (h₀ h : H) : Prop :=
  HookInv cache prior h₀ (fun e => e.steps = 1) h

/-- With a hook that makes up no step counts an instruction is one step. -/
theorem adds_one (sem : Semantics I F O V E R W A) (hs : ∀ hook ∈ cache, hook.StepsStored prior h₀)
    (hu : UnitSteps cache prior h₀ st.hook) (i : I) :
    Adds st (st.execInstruction sem cache i) 1 ∧
      UnitSteps cache prior h₀ (st.execInstruction sem cache i).hook := by
  refine ⟨?_, hookInv_execInstruction i hu fun _ _ _ => rfl⟩
  obtain ⟨n, hadds, hn | ⟨hook, hmem, v, hfound⟩⟩ := adds_execInstruction sem cache st i
  · rwa [← hn]
  · obtain ⟨log, hlog, hall⟩ := hu hook hmem
    obtain ⟨e, he, hsteps⟩ := hs hook hmem _ _ _ _ _ _ hlog hfound
    rwa [← hsteps, hall e he] at hadds

/-- **A call stays within its limit.** -/
theorem callLoop_le_limit (hs : ∀ hook ∈ cache, hook.StepsStored prior h₀) {st : Sess I V R W H}
    (hu : UnitSteps cache prior h₀ st.hook) (hpos : 0 < st.limit) (hle : st.steps ≤ st.limit)
    (h : callLoop sem cache fuel st = some st') :
    st'.steps ≤ st.limit ∧ UnitSteps cache prior h₀ st'.hook := by
  obtain ⟨is, -, hends⟩ := callLoop_iff.mp h
  clear h
  induction hends with
  | done | ended => exact ⟨hle, hu⟩
  | @step st st' i is hp ho hrest ih =>
    obtain ⟨hadds, hu'⟩ := adds_one sem hs hu i
    have hlt : st.steps < st.limit := by
      simp only [overLimit, Bool.and_eq_false_iff, decide_eq_false_iff_not] at ho
      omega
    have hstep := hadds.steps
    have := ih hu' (by rw [hadds.limit]; exact hpos) (by rw [hadds.limit]; omega)
    rwa [hadds.limit] at this

/-- What a call reports of its steps. -/
structure CallCount (st : Sess I V R W H) (out : CallOutcome V R) (st' : Sess I V R W H) :
    Prop where
  steps : st'.steps = st.steps + out.steps
  classes : out.classes.total = out.steps

theorem call_count {budget : Nat} {args : List V}
    (h : st.call sem cache fuel args budget = some (out, st')) : CallCount st out st' := by
  unfold call at h
  dsimp only at h
  split at h
  · cases h
    exact ⟨rfl, rfl⟩
  · rename_i core _
    obtain ⟨st₁, hloop, hleave⟩ := Option.map_eq_some_iff.mp h
    obtain ⟨hc, -⟩ := counted_callLoop hloop
    cases hleave
    have hsteps : st.steps ≤ st₁.steps := hc.steps
    have htotal := ClassCounts.total_since hc.classes
    have hsum : st₁.classes.total + st.steps = st.classes.total + st₁.steps := hc.total
    refine ⟨(Nat.add_sub_cancel' hsteps).symm, ?_⟩
    have heq : ((st.enter budget).classes : ClassCounts) = st.classes := rfl
    dsimp only [leave]
    rw [heq] at htotal
    omega

/-- A call uses no more than its budget. -/
theorem call_le_budget (hs : ∀ hook ∈ cache, hook.StepsStored prior h₀) {budget : Nat}
    {args : List V} (h : st.call sem cache fuel args budget = some (out, st'))
    (hu : UnitSteps cache prior h₀ st.hook) (hpos : 0 < budget) (hfit : st.steps + budget < 2 ^ 64) :
    out.steps ≤ budget ∧ UnitSteps cache prior h₀ st'.hook := by
  have hlimit := limitOf_eq hpos hfit
  unfold call at h
  dsimp only at h
  split at h
  · cases h
    exact ⟨Nat.zero_le _, hu⟩
  · rename_i core _
    obtain ⟨st₁, hloop, hleave⟩ := Option.map_eq_some_iff.mp h
    have hu' : UnitSteps cache prior h₀ { st.enter budget with core := core }.hook := hu
    have hle := callLoop_le_limit hs hu' (by dsimp only [enter]; omega)
      (by dsimp only [enter]; omega) hloop
    cases hleave
    refine ⟨?_, hle.2⟩
    have : st₁.steps ≤ limitOf st.steps budget := hle.1
    dsimp only [leave]
    omega

end Sess

open Result

/-! ## §6. The loop over the argument sets -/

/-- The counters of the session and of Run. -/
structure Tally (st : Sess I V R W H) (res : Result I V R A) : Prop where
  steps : res.steps = st.steps
  perSet : res.stepsPerSet.sum = res.steps
  byClass : res.stepsByClass.total = res.steps

theorem Tally.add {st : Sess I V R W H} {res : Result I V R A} (h : Tally st res)
    (hc : Sess.CallCount st out st') (opts : Options) (set : Nat) (recorded : List (I × V))
    (verdict : Outcome × Option (List A) × Option (List (Option A))) :
    Tally st' (res.add opts set out recorded verdict) where
  steps := by
    rw [hc.steps]
    simp [Result.add, h.steps]
  perSet := by simp [Result.add, h.perSet]
  byClass := by
    simp only [Result.add]
    rw [ClassCounts.total_sum, h.byClass, hc.classes]

variable [DecidableEq I]

section Sets

variable (sem cache) (fuel)

/-- The call of an argument set. -/
abbrev Sess.callSet (st : Sess I V R W H) (a : List A) (remaining : Nat) :
    Option (CallOutcome V R × Sess I V R W H) :=
  Sess.call sem cache fuel { st with core := (sem.marshal st.core a).1, recorded := [] }
    (sem.marshal st.core a).2 remaining

/-- How the call ended that left `st'`. -/
abbrev Sess.verdict (st : Sess I V R W H) (a : List A) (out : CallOutcome V R)
    (st' : Sess I V R W H) : Outcome × Option (List A) × Option (List (Option A)) :=
  judge sem st'.core (sem.marshal st.core a).2 out

/-- From `st` and `res`, the loop leaves a session and returns a result. -/
inductive Sets (opts : Options) : Nat → Nat → Sess I V R W H → List (List A) → Result I V R A →
    Sess I V R W H → Result I V R A → Prop where
  | nil {set remaining : Nat} {st : Sess I V R W H} {res : Result I V R A} :
      Sets opts set remaining st [] res st res
  | unrun {set : Nat} {st : Sess I V R W H} {a : List A} {args : List (List A)}
      {res : Result I V R A} : Sets opts set 0 st (a :: args) res st (res.addUnrun opts)
  | last {set remaining : Nat} {st st' : Sess I V R W H} {a : List A} {args : List (List A)}
      {res : Result I V R A} {out : CallOutcome V R} (hpos : remaining ≠ 0)
      (hcall : st.callSet sem cache fuel a remaining = some (out, st'))
      (hex : (st.verdict sem a out st').1 = .exhausted) :
      Sets opts set remaining st (a :: args) res st'
        (res.add opts set out st'.recorded (st.verdict sem a out st'))
  | next {set remaining : Nat} {st st' st₁ : Sess I V R W H} {a : List A} {args : List (List A)}
      {res res₁ : Result I V R A} {out : CallOutcome V R} (hpos : remaining ≠ 0)
      (hcall : st.callSet sem cache fuel a remaining = some (out, st'))
      (hex : (st.verdict sem a out st').1 ≠ .exhausted)
      (hrest : Sets opts (set + 1) (remaining - min out.steps remaining) st' args
        (res.add opts set out st'.recorded (st.verdict sem a out st')) st₁ res₁) :
      Sets opts set remaining st (a :: args) res st₁ res₁

end Sets

variable {opts : Options} {set remaining : Nat} {st st₁ : Sess I V R W H} {args : List (List A)}
  {res res₁ : Result I V R A}

theorem runSets_iff : runSets sem opts cache fuel set remaining st args res = some res₁ ↔
    ∃ st₁, Sets sem cache fuel opts set remaining st args res st₁ res₁ := by
  constructor
  · intro h
    induction args generalizing set remaining st res with
    | nil =>
      cases h
      exact ⟨st, .nil⟩
    | cons a args ih =>
      simp only [runSets] at h
      split at h
      · rename_i hzero
        cases h
        subst hzero
        exact ⟨st, .unrun⟩
      · rename_i hpos
        split at h
        · cases h
        · rename_i out st' hcall
          split at h
          · rename_i hex
            cases h
            exact ⟨st', .last hpos hcall hex⟩
          · rename_i hex
            obtain ⟨st₁, hrest⟩ := ih h
            exact ⟨st₁, .next hpos hcall hex hrest⟩
  · rintro ⟨st₁, h⟩
    induction h with
    | nil => rfl
    | unrun => simp [runSets]
    | last hpos hcall hex => simp [runSets, hpos, hcall, hex]
    | next hpos hcall hex _ ih => simp [runSets, hpos, hcall, hex, ih]

namespace Sets

/-- The shape of the result, from any point of the loop on. -/
theorem shaped (h : Sets sem cache fuel opts set remaining st args res st₁ res₁)
    (hs : Shaped opts set res) (hg : Going res) :
    Ended res₁ ∧ ∃ n, Shaped opts n res₁ ∧ n ≤ set + args.length ∧
      (res₁.exhausted = false → n = set + args.length) := by
  induction h with
  | nil => exact ⟨hg.ended, _, hs, Nat.le_refl _, fun _ => rfl⟩
  | unrun => exact ⟨hg.ended_addUnrun, _, hs.addUnrun, by simp, by simp [Result.addUnrun]⟩
  | last _ _ hex =>
    exact ⟨hg.ended_add hex, _, hs.add _ _ (entryOK_judge ..), by simp, by simp [Result.add, hex]⟩
  | next _ _ hex _ ih =>
    obtain ⟨hend, n, hn, hle, heq⟩ := ih (hs.add _ _ (entryOK_judge ..)) (hg.add hex)
    refine ⟨hend, n, hn, ?_, ?_⟩
    · simp only [List.length_cons]
      omega
    · intro he
      rw [heq he, List.length_cons]
      omega

end Sets

theorem Tally.callSet (ht : Tally st res) {a : List A}
    (hcall : st.callSet sem cache fuel a remaining = some (out, st')) :
    Tally st' (res.add opts set out st'.recorded (st.verdict sem a out st')) := by
  have hin : Tally { st with core := (sem.marshal st.core a).1, recorded := [] } res :=
    ⟨ht.steps, ht.perSet, ht.byClass⟩
  exact hin.add (Sess.call_count hcall) opts set _ _

namespace Sets

/-- Every step is counted once per set and once per class. -/
theorem tally (h : Sets sem cache fuel opts set remaining st args res st₁ res₁)
    (ht : Tally st res) : res₁.steps = res₁.stepsPerSet.sum ∧ res₁.steps = res₁.stepsByClass.total := by
  induction h with
  | nil => exact ⟨ht.perSet.symm, ht.byClass.symm⟩
  | unrun => exact ⟨by simp [Result.addUnrun, ht.perSet], ht.byClass.symm⟩
  | last _ hcall => exact ⟨(ht.callSet hcall).perSet.symm, (ht.callSet hcall).byClass.symm⟩
  | next _ hcall _ _ ih => exact ih (ht.callSet hcall)

/-- What has been used and what remains is the budget. -/
theorem steps_le (hs : ∀ hook ∈ cache, hook.StepsStored prior h₀)
    (h : Sets sem cache fuel opts set remaining st args res st₁ res₁) (ht : Tally st res)
    (hu : Sess.UnitSteps cache prior h₀ st.hook) (hfit : st.steps + remaining < 2 ^ 64) :
    res₁.steps ≤ st.steps + remaining := by
  induction h with
  | nil => exact Nat.le_trans (Nat.le_of_eq ht.steps) (Nat.le_add_right _ _)
  | unrun => exact Nat.le_of_eq ht.steps
  | last hpos hcall =>
    obtain ⟨hle, -⟩ := Sess.call_le_budget hs hcall hu (Nat.pos_of_ne_zero hpos) hfit
    rw [(ht.callSet hcall).steps, (Sess.call_count hcall).steps]
    exact Nat.add_le_add_left hle _
  | next hpos hcall _ _ ih =>
    obtain ⟨hle, hu'⟩ := Sess.call_le_budget hs hcall hu (Nat.pos_of_ne_zero hpos) hfit
    have hsteps := (Sess.call_count hcall).steps
    dsimp only at hsteps
    have := ih (ht.callSet hcall) hu' (by omega)
    omega

end Sets

theorem budget_lt (opts : Options) : opts.budget < 2 ^ 64 := by
  unfold Options.budget
  split
  · decide
  · exact opts.maxSteps.toNat_lt

/-- **The result of a Run is well formed.** All its lists have one length
`n`, which is the number of argument sets unless the budget ran out. That
is so exactly if the last outcome is Exhausted, and no earlier one is. A
set has outputs, and argument values after the call, exactly if it
returned. Violations belong to the sets that were run. The steps are the
sum over the sets and over the classes; and they are within the budget,
if the hits of the hook only return step counts that were stored. -/
theorem run_wellFormed (sem : Semantics I F O V E R W A) (opts : Options)
    (cache : Option (Hook I V H)) (hook : H) (fuel : Nat) (args : List (List A))
    {res : Result I V R A} (h : run sem opts cache hook fuel args = some res) :
    (∃ n, Shaped opts n res ∧ n ≤ args.length ∧ (res.exhausted = false → n = args.length)) ∧
      Ended res ∧
      res.steps = res.stepsPerSet.sum ∧ res.steps = res.stepsByClass.total ∧
      ((∀ c ∈ cache, ∃ prior, (∀ e ∈ prior, e.steps = 1) ∧ c.StepsStored prior hook) →
        res.steps ≤ opts.budget) := by
  unfold run at h
  split at h
  · split at h
    · cases h
    · rename_i core _
      have htally : Tally ({ core, hook } : Sess I V R W H) ({} : Result I V R A) :=
        ⟨rfl, rfl, rfl⟩
      obtain ⟨_, hsets⟩ := runSets_iff.mp h
      obtain ⟨hend, n, hn, hle, heq⟩ := hsets.shaped shaped_empty ⟨rfl, by simp⟩
      rw [Nat.zero_add] at hle heq
      obtain ⟨hset, hclass⟩ := hsets.tally htally
      refine ⟨⟨n, hn, hle, heq⟩, hend, hset, hclass, ?_⟩
      intro hstored
      obtain ⟨prior, hs, hu⟩ : ∃ prior, (∀ c ∈ cache, c.StepsStored prior hook) ∧
          Sess.UnitSteps cache prior hook hook := by
        cases cache with
        | none => exact ⟨[], by simp, by simp [HookInv]⟩
        | some c =>
          obtain ⟨prior, hone, hsteps⟩ := hstored c rfl
          refine ⟨prior, by simpa using hsteps, ?_⟩
          rintro _ ⟨⟩
          exact ⟨prior, .start, hone⟩
      simpa using hsets.steps_le hs htally hu (by simpa using budget_lt opts)
  · cases h

/-- `func(x int64) int64 { return x + 1 }`, whose only instruction is the
sum. The world is the argument. -/
def increment : Semantics Unit Unit Unit Value.Scalar String String (Option Value.Scalar)
    (BitVec 64) where
  instr _ := .binOp .add (.basic .int64) (.basic .int64) (.basic .int64)
  pureFn _ := true
  nil := .nil
  isScalarValue
    | .int _ | .bool _ | .str _ => true
    | _ => false
  classify _ _ := .arithmetic
  pureOperands s _ := [s.world.getD .nil, .int 1]
  binOpConcrete op xt yt x y :=
    match Value.binOpConcrete op x y xt yt with
    | .value v => ⟨v, none, none⟩
    | .panic msg => ⟨.int 0, some msg, some (.str ("runtime error: " ++ msg))⟩
  concreteUnOp _ _ x := x
  convert _ _ x := ⟨x, none, none⟩
  concreteCall _ _ := ⟨.nil, none, none⟩
  checkGCPoint _ := []
  wrap _ err := err
  execOther s _ := (s, [])
  resume s := (s, [])
  next s := if (s.locals ()).isSome then none else some ()
  haltAll s := ({ s with panicked := true }, [])
  spawn s args := ({ s with locals := fun _ => none, world := args.head? }, none)
  deadlock _ := none
  halted s := s.panicked || s.panicking
  results s := [(s.locals ()).getD .nil]
  forget s := s
  start := some { locals := fun _ => none, world := none }
  accepts _ := true
  marshal s a := (s, a.map .int)
  unmarshal _ _
    | .int n => some n
    | _ => none
  argsAfter _ vals := some (vals.map fun _ => none)

/-- Three sets with a budget of two steps. -/
def increments : Option (Result Unit Value.Scalar String (BitVec 64)) :=
  run increment { maxSteps := 2 } (none : Option (Hook Unit Value.Scalar Unit)) () 9
    [[1], [2], [3]]

/-- The third set finds no budget left. -/
theorem run_wellFormed_increment :
    ∃ res, increments = some res ∧ res.outcomes = [.returned, .returned, .exhausted] ∧
      Ended res ∧ res.steps = res.stepsByClass.total := by
  have hsome : increments.isSome = true := by decide +kernel
  have hout : increments.map (·.outcomes) = some [.returned, .returned, .exhausted] := by
    decide +kernel
  obtain ⟨res, hres⟩ := Option.isSome_iff_exists.mp hsome
  rw [hres] at hout
  have h := run_wellFormed increment { maxSteps := 2 } none () 9 [[1], [2], [3]] hres
  exact ⟨res, hres, Option.some.inj hout, h.2.1, h.2.2.2.1⟩

end Giri.Session
