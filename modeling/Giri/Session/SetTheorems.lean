/-
Giri.Session.SetTheorems — one argument set of a Run.

What a result says of a set (`Result.entry`) is what the call of that set
gave, and later sets don't change it. The session that the call starts in is
the one that the sets before have left (`runSets_append`), and the call can
be made in a session with other counters and with another engine state, as
long as nothing is read of them (`Sess.call_rebase`, `Sess.call_core`).

`Engine.entry_alone`: if a function carries nothing over from call to call,
and its environment can't tell the calls apart, the entry of a set is that of
a Run on it alone.
-/
import Giri.Session.BudgetTheorems
import Giri.Session.EngineTheorems

namespace Giri.Session

open Effect (Prog Tied)

section

variable {I F O V E R W A H : Type}

/-! ## §1. Entries -/

/-- What a result says of one argument set. -/
@[ext] structure Entry (R A : Type) where
  outcome : Option Outcome
  outputs : Option (Option (List A))
  argsAfter : Option (Option (List (Option A)))
  steps : Option Nat
  violations : List R

/-- The entry of the set with a number. -/
def Result.entry (res : Result I V R A) (k : Nat) : Entry R A where
  outcome := res.outcomes[k]?
  outputs := res.outputs[k]?
  argsAfter := res.argsAfter[k]?
  steps := res.stepsPerSet[k]?
  violations := (res.violations.filter (·.set = k)).map (·.err)

/-- What a call gives for its set. -/
def CallOutcome.entry (out : CallOutcome V R)
    (verdict : Outcome × Option (List A) × Option (List (Option A))) : Entry R A where
  outcome := some verdict.1
  outputs := some verdict.2.1
  argsAfter := some verdict.2.2
  steps := some out.steps
  violations := out.violations

namespace Result

variable {opts : Options} {n k : Nat} {res : Result I V R A} {out : CallOutcome V R}
  {recorded : List (I × V)} {verdict : Outcome × Option (List A) × Option (List (Option A))}

theorem filter_violations_add (set : Nat) (errs : List R) :
    (((errs.map fun err => (⟨set, err⟩ : Violation R)).filter (·.set = k)).map (·.err)) =
      if set = k then errs else [] := by
  induction errs with
  | nil => simp
  | cons err errs ih => by_cases hset : set = k <;> simp_all

/-- A set that is added is the last one. -/
theorem entry_add_self (h : Shaped opts n res) :
    (res.add opts n out recorded verdict).entry n = out.entry verdict := by
  have hold : res.violations.filter (·.set = n) = [] := by
    rw [List.filter_eq_nil_iff]
    intro v hv
    have hlt := h.violations v hv
    simp only [decide_eq_true_eq]
    omega
  ext1
  · simp [entry, add, CallOutcome.entry, ← h.outcomes]
  · simp [entry, add, CallOutcome.entry, ← h.outputs]
  · simp [entry, add, CallOutcome.entry, ← h.argsAfter]
  · simp [entry, add, CallOutcome.entry, ← h.stepsPerSet]
  · simp only [entry, add, CallOutcome.entry, List.filter_append, hold, filter_violations_add,
      if_pos, List.nil_append]

theorem entry_add_of_lt (h : Shaped opts n res) (hk : k < n) :
    (res.add opts n out recorded verdict).entry k = res.entry k := by
  ext1
  · exact List.getElem?_append_left (by rw [h.outcomes]; exact hk)
  · exact List.getElem?_append_left (by rw [h.outputs]; exact hk)
  · exact List.getElem?_append_left (by rw [h.argsAfter]; exact hk)
  · exact List.getElem?_append_left (by rw [h.stepsPerSet]; exact hk)
  · simp only [entry, add, List.filter_append, List.map_append, filter_violations_add,
      if_neg (Nat.ne_of_gt hk), List.append_nil]

theorem entry_addUnrun_of_lt (h : Shaped opts n res) (hk : k < n) :
    (res.addUnrun opts).entry k = res.entry k := by
  -- the entry of an empty call
  have hadd : (res.addUnrun opts).entry k =
      (res.add opts n {} [] (.exhausted, none, none)).entry k := by simp [entry, add, addUnrun]
  rw [hadd]
  exact entry_add_of_lt h hk

end Result

open Result

variable [DecidableEq I] {sem : Semantics I F O V E R W A} {cache : Option (Hook I V H)}
  {opts : Options} {fuel : Nat}

variable {set remaining : Nat} {st st₁ : Sess I V R W H} {args : List (List A)}
  {res res₁ : Result I V R A}

/-- An entry stays. -/
theorem Sets.entry {k : Nat} (h : Sets sem cache fuel opts set remaining st args res st₁ res₁)
    (hs : Shaped opts set res) (hk : k < set) : res₁.entry k = res.entry k := by
  induction h with
  | nil => rfl
  | unrun => exact entry_addUnrun_of_lt hs hk
  | last => exact entry_add_of_lt hs hk
  | next _ _ _ _ ih =>
    rw [ih (hs.add _ _ (entryOK_judge ..)) (Nat.lt_succ_of_lt hk)]
    exact entry_add_of_lt hs hk

/-! ## §2. The sets before -/

/-- A set that is run within the budget. -/
theorem Sets.cons {a : List A}
    (h : Sets sem cache fuel opts set remaining st (a :: args) res st₁ res₁)
    (hbudget : res₁.exhausted = false) :
    remaining ≠ 0 ∧ ∃ out st', st.callSet sem cache fuel a remaining = some (out, st') ∧
      (st.verdict sem a out st').1 ≠ .exhausted ∧
      Sets sem cache fuel opts (set + 1) (remaining - min out.steps remaining) st' args
        (res.add opts set out st'.recorded (st.verdict sem a out st')) st₁ res₁ := by
  cases h with
  | unrun => cases hbudget
  | last _ _ hex => simp [Result.add, hex] at hbudget
  | next hpos hcall hex hrest => exact ⟨hpos, _, _, hcall, hex, hrest⟩

/-- **A Run that has come to a set within its budget**: the session is the one
that the sets before have left, and what they have used is missing from the
budget. -/
theorem Sets.append {rest pre : List (List A)} (hs : Shaped opts set res)
    (hfit : st.steps + remaining < 2 ^ 64)
    (h : Sets sem (none : Option (Hook I V H)) fuel opts set remaining st (pre ++ rest) res st₁ res₁)
    (hbudget : res₁.exhausted = false) :
    ∃ remaining' st' res',
      (∀ more, endSets sem (none : Option (Hook I V H)) fuel remaining st (pre ++ more) =
        endSets sem none fuel remaining' st' more) ∧
      Sets sem none fuel opts (set + pre.length) remaining' st' rest res' st₁ res₁ ∧
      Shaped opts (set + pre.length) res' ∧
      st'.steps + remaining' = st.steps + remaining := by
  induction pre generalizing set remaining st res with
  | nil => exact ⟨remaining, st, res, fun _ => rfl, h, hs, rfl⟩
  | cons a pre ih =>
    obtain ⟨hpos, out, st', hcall, hex, hrest⟩ := h.cons hbudget
    have hcount : st'.steps = st.steps + out.steps := (Sess.call_count hcall).steps
    have hsteps : ∀ hook ∈ (none : Option (Hook I V H)), hook.StepsStored [] st.hook := by simp
    have hunit : Sess.UnitSteps (none : Option (Hook I V H)) [] st.hook st.hook := by simp [HookInv]
    obtain ⟨hle, -⟩ := Sess.call_le_budget hsteps hcall hunit (Nat.pos_of_ne_zero hpos) hfit
    have hmin : min out.steps remaining = out.steps := Nat.min_eq_left hle
    obtain ⟨remaining', st₂, res', hend, hrun', hs', hsum⟩ :=
      ih (hs.add out st'.recorded (entryOK_judge ..)) (by rw [hmin]; omega) hrest
    have hlen : set + (a :: pre).length = set + 1 + pre.length := by
      rw [List.length_cons]
      omega
    rw [hlen]
    refine ⟨remaining', st₂, res', fun more => ?_, hrun', hs', by omega⟩
    rw [List.cons_append, endSets, if_neg hpos]
    simp only [hcall, if_neg hex]
    exact hend more

/-! ## §3. The session of a call -/

namespace Sess

variable {st : Sess I V R W H} {args : List V} {budget : Nat} {out : CallOutcome V R}

/-- A call starts in the engine state that `spawn` leaves. -/
theorem call_core {s : State I V R W} (hspawn : sem.spawn s args = sem.spawn st.core args)
    (hviol : s.violations = st.core.violations) :
    Sess.call sem cache fuel { st with core := s } args budget =
      Sess.call sem cache fuel st args budget := by
  unfold Sess.call
  dsimp only
  rw [hspawn]
  split
  · rfl
  · unfold Sess.leave
    simp only [hviol]
    rfl

/-- **A call within its budget is the same in a session that has counted
less**, with no smaller a budget. -/
theorem call_rebase {o : Offset} {limit budget' : Nat} {st₁ : Sess I V R W H} (hpos : 0 < budget)
    (hfit : st.steps + o.steps + budget < 2 ^ 64) (hle : budget ≤ budget')
    (hfit' : st.steps + budget' < 2 ^ 64)
    (hcall : Sess.call sem cache fuel (st.rebase o limit) args budget = some (out, st₁))
    (hex : out.exhausted = false) :
    ∃ st₂, Sess.call sem cache fuel st args budget' = some (out, st₂) ∧ st₂.core = st₁.core := by
  unfold Sess.call at hcall ⊢
  dsimp only at hcall ⊢
  have hspawn : sem.spawn (st.rebase o limit).core args = sem.spawn st.core args := rfl
  rw [hspawn] at hcall
  split at hcall
  · cases hcall
    exact ⟨_, rfl, rfl⟩
  · rename_i core _
    obtain ⟨u, hloop, hleave⟩ := Option.map_eq_some_iff.mp hcall
    obtain ⟨is, hlen, hends⟩ := callLoop_iff.mp hloop
    obtain ⟨rfl, rfl⟩ := Prod.mk.inj hleave
    -- the entered sessions differ in their counters and limits
    have hin : { (st.rebase o limit).enter budget with core := core } =
        { st.enter budget' with core := core }.rebase o (limitOf (st.steps + o.steps) budget) := rfl
    rw [hin] at hends
    have hlimit := limitOf_eq hpos hfit
    have hlimit' := limitOf_eq (Nat.lt_of_lt_of_le hpos hle) hfit'
    obtain ⟨v, hends', rfl⟩ := ends_rebase (by rw [hlimit]; omega) hex hends
      (.inr (by show _ ≤ limitOf st.steps budget' + _; rw [hlimit, hlimit']; omega))
    refine ⟨(leave sem st v).2, ?_, rfl⟩
    rw [callLoop_iff.mpr ⟨is, hlen, hends'⟩, Option.map_some]
    refine congrArg some (Prod.ext ?_ rfl)
    unfold leave rebase
    simp only [CallOutcome.mk.injEq, true_and]
    refine ⟨?_, ?_, ?_, ?_⟩
    · omega
    · funext k
      simp only [ClassCounts.since]
      omega
    · omega
    · omega

end Sess

end

/-! ## §4. A set alone -/

section

variable {I F O V E K A C U Q W H : Type} {Ans : Q → Type} [DecidableEq I]

/-- A function that uses neither package-level variables nor random numbers:
a call begins with its arguments and nothing else. Argument sets are checked
one by one. -/
structure Engine.FreshCalls (eng : Engine I F O V E K A C U Q Ans) : Prop where
  accepts : ∀ args, ∀ a ∈ args, eng.accepts args = true → eng.accepts [a] = true
  marshal : ∀ c c' a, eng.marshal c a = eng.marshal c' a
  spawn : ∀ c c' args, eng.spawn c args = eng.spawn c' args

namespace Engine

variable {eng : Engine I F O V E K A C U Q Ans} {env : Env E K U W Q Ans}
  {rel : W → W → Prop} {good : W → List (Recorded E K) → Prop}
  {start : Option (State I V (Recorded E K) (C × W))}

/-- The call of a set, in the session that other sets have left and in the
one at the start. -/
theorem call_alone (hsim : env.Simulates env rel good) (hfresh : eng.FreshCalls)
    {st : Sess I V (Recorded E K) (C × W) H} {s₀ : State I V (Recorded E K) (C × W)}
    (hs₀ : s₀.violations = []) (hrel : rel (env.beginSet st.core.world.2) (env.beginSet s₀.world.2))
    {a : List A} {fuel remaining budget : Nat} (hpos : 0 < remaining)
    (hfit : st.steps + remaining ≤ budget) (hbudget : budget < 2 ^ 64)
    {out : CallOutcome V (Recorded E K)} {st₁ : Sess I V (Recorded E K) (C × W) H}
    (hcall : st.callSet (eng.semantics env start) none fuel a remaining = some (out, st₁))
    (hex : out.exhausted = false) (hgood : Good good st₁.core) :
    ∃ st₂, Sess.call (eng.semantics env start) none fuel
        { core := ((eng.semantics env start).marshal s₀ a).1, hook := st.hook }
        ((eng.semantics env start).marshal s₀ a).2 budget = some (out, st₂) ∧
      ((eng.semantics env start).marshal s₀ a).2 = ((eng.semantics env start).marshal st.core a).2 ∧
      Twin rel st.core.violations st₁.core st₂.core := by
  -- counters: the session of the long Run has counted what came before
  let o : Sess.Offset := ⟨st.steps, st.classes, st.cacheHits, st.pureExecuted⟩
  let mid : Sess I V (Recorded E K) (C × W) H :=
    { core := ((eng.semantics env start).marshal st.core a).1, hook := st.hook }
  have hrebase : mid.rebase o st.limit =
      { st with core := mid.core, recorded := [], exhausted := false } := by
    simp [Sess.rebase, mid, o]
  have hcall' : Sess.call (eng.semantics env start) none fuel (mid.rebase o st.limit)
      ((eng.semantics env start).marshal st.core a).2 remaining = some (out, st₁) := by
    rw [hrebase]
    exact hcall
  have hmid : mid.steps + o.steps = st.steps := Nat.zero_add _
  obtain ⟨st₂, hcall₂, hcore₂⟩ := Sess.call_rebase hpos (by omega) (by omega : remaining ≤ budget)
    (by show 0 + budget < 2 ^ 64; omega) hcall' hex
  have hgood₂ : Good good st₂.core := by
    rw [hcore₂]
    exact hgood
  -- worlds: the set begins in related ones
  let both : Both I F O V E K A C U Q W W Ans := ⟨eng, env, env, rel, good, hsim, start, start⟩
  have hgoodm : Good good mid.core := Twins.call_back (b := both) hcall₂ hgood₂
  have hbegun : Tied rel st.core.violations (env.beginSet st.core.world.2, st.core.violations)
      (env.beginSet s₀.world.2, s₀.violations) := ⟨hrel, by rw [hs₀, List.append_nil]⟩
  obtain ⟨hvals, htied⟩ :=
    Prog.run_sim hsim.commands (eng.marshal st.core.toCore a) _ _ hbegun hgoodm
  have hmarshal : (eng.semantics env start).marshal s₀ a =
      (s₀.toCore.toState ((eng.marshal st.core.toCore a).run env.handle
          (env.beginSet s₀.world.2, s₀.violations)).2,
        ((eng.marshal st.core.toCore a).run env.handle
          (env.beginSet s₀.world.2, s₀.violations)).1) := by
    rw [hfresh.marshal st.core.toCore s₀.toCore a]
    rfl
  rw [hmarshal]
  generalize (eng.marshal st.core.toCore a).run env.handle
    (env.beginSet s₀.world.2, s₀.violations) = r₀ at hvals htied
  -- engine states: `spawn` makes a new one
  let alone : Sess I V (Recorded E K) (C × W) H :=
    { core := st.core.toCore.toState r₀.2, hook := st.hook }
  have htwins : Twins rel st.core.violations mid alone :=
    ⟨.of_core _ htied⟩
  obtain ⟨st₃, hcall₃, h₃⟩ : ∃ st₃, Sess.call (eng.semantics env start) none
      fuel alone _ budget = some (out, st₃) ∧ Twins rel st.core.violations st₂ st₃ :=
    htwins.call (b := both) hcall₂ hgood₂
  have hspawn : ∀ args, (eng.semantics env start).spawn (s₀.toCore.toState r₀.2) args =
      (eng.semantics env start).spawn alone.core args := by
    intro args
    have heng : eng.spawn (s₀.toCore.toState r₀.2 : State I V (Recorded E K) (C × W)).toCore args =
        eng.spawn alone.core.toCore args := hfresh.spawn _ _ args
    show ((Env.perform _ (eng.spawn _ args) _).1, _) = ((Env.perform _ (eng.spawn _ args) _).1, _)
    rw [heng]
    rfl
  have hcore : Sess.call (eng.semantics env start) none fuel
      { alone with core := s₀.toCore.toState r₀.2 } r₀.1 budget =
      Sess.call (eng.semantics env start) none fuel alone r₀.1 budget :=
    Sess.call_core (hspawn r₀.1) rfl
  refine ⟨st₃, ?_, hvals, hcore₂ ▸ h₃.twin⟩
  refine hcore.trans ?_
  rw [hvals]
  exact hcall₃

/-- Package initialization leaves no violations. -/
theorem start_violations {fuel budget : Nat} {s₀ : State I V (Recorded E K) (C × W)}
    (hstart : eng.start env fuel budget = some s₀) : s₀.violations = [] := by
  unfold Engine.start at hstart
  split at hstart
  · cases hstart
    rfl
  · split at hstart
    · cases hstart
    · split at hstart
      · cases hstart
      · cases hstart
        rfl

/-- The loop over the sets, for a list and for one set of it. -/
theorem runSets_alone (hsim : env.Simulates env rel good) (hfresh : eng.FreshCalls)
    {s₀ : State I V (Recorded E K) (C × W)} (hs₀ : s₀.violations = []) {opts : Options} {fuel : Nat}
    {pre post : List (List A)} {a : List A} {res : Result I V (Recorded E K) A}
    {st' : Sess I V (Recorded E K) (C × W) Unit}
    (hsets : Sets (eng.semantics env start) none fuel opts 0 opts.budget { core := s₀, hook := () }
      (pre ++ a :: post) {} st' res)
    (hbudget : res.exhausted = false)
    (hrel : ∀ st ∈ endSets (eng.semantics env start) none fuel opts.budget
      { core := s₀, hook := () } pre, rel (env.beginSet st.core.world.2) (env.beginSet s₀.world.2))
    (hgood : ∀ st ∈ endSets (eng.semantics env start) none fuel opts.budget
      { core := s₀, hook := () } (pre ++ [a]), Good good st.core) :
    ∃ st₁ res₁, Sets (eng.semantics env start) none fuel opts 0 opts.budget
        { core := s₀, hook := () } [a] {} st₁ res₁ ∧ res.entry pre.length = res₁.entry 0 := by
  have hlt := budget_lt opts
  obtain ⟨remaining, st, res', hend, hrest, hshaped, hsum⟩ :=
    hsets.append Result.shaped_empty (by show 0 + opts.budget < 2 ^ 64; omega) hbudget
  rw [Nat.zero_add] at hrest hshaped
  obtain ⟨hpos, out, st₁, hcall, hverdict, htail⟩ := hrest.cons hbudget
  -- the sessions before and after the set
  have hst : endSets (eng.semantics env start) none fuel opts.budget { core := s₀, hook := () } pre =
      some st := by
    have hpre := hend []
    rw [List.append_nil] at hpre
    exact hpre
  have hst₁ : endSets (eng.semantics env start) none fuel opts.budget { core := s₀, hook := () }
      (pre ++ [a]) = some st₁ := by
    rw [hend, endSets, if_neg hpos]
    simp only [hcall, if_neg hverdict]
    rfl
  have hex : out.exhausted = false := by
    cases hout : out.exhausted with
    | false => rfl
    | true => exact absurd (by simp [judge, hout]) hverdict
  have hsum' : st.steps + remaining = opts.budget := hsum.trans (Nat.zero_add _)
  obtain ⟨st₂, hcall₂, hvals, htwin⟩ := call_alone hsim hfresh hs₀ (hrel st hst)
    (Nat.pos_of_ne_zero hpos) (Nat.le_of_eq hsum') hlt hcall hex (hgood st₁ hst₁)
  have hjudge : judge (eng.semantics env start) st₂.core
      ((eng.semantics env start).marshal st.core a).2 out =
      judge (eng.semantics env start) st₁.core ((eng.semantics env start).marshal st.core a).2 out :=
    htwin.judge (b := ⟨eng, env, env, rel, good, hsim, start, start⟩) _ out
  have hlast : (({ core := s₀, hook := () } : Sess I V (Recorded E K) (C × W) Unit).verdict
      (eng.semantics env start) a out st₂) = st.verdict (eng.semantics env start) a out st₁ := by
    unfold Sess.verdict
    rw [hvals]
    exact hjudge
  refine ⟨_, _, .next (by omega) hcall₂ (by rw [hlast]; exact hverdict) .nil, ?_⟩
  rw [htail.entry (hshaped.add out st₁.recorded (entryOK_judge ..)) (Nat.lt_succ_self _),
    Result.entry_add_self hshaped, Result.entry_add_self Result.shaped_empty, hlast]

/-- **A set of a Run is as in a Run on it alone**, if the worlds that the two
calls begin in are related. -/
theorem entry_alone (hsim : env.Simulates env rel good) (hfresh : eng.FreshCalls) {opts : Options}
    {fuel : Nat} {pre post : List (List A)} {a : List A} {res : Result I V (Recorded E K) A}
    (hrun : eng.run env opts (none : Option (Hook I V Unit)) () fuel (pre ++ a :: post) = some res)
    (hbudget : res.exhausted = false)
    (hrel : ∀ s₀ ∈ eng.start env fuel opts.budget,
      ∀ st ∈ eng.leaves env opts (none : Option (Hook I V Unit)) () fuel pre,
        rel (env.beginSet st.core.world.2) (env.beginSet s₀.world.2))
    (hgood : ∀ st ∈ eng.leaves env opts (none : Option (Hook I V Unit)) () fuel (pre ++ [a]),
      Good good st.core) :
    ∃ res₁, eng.run env opts (none : Option (Hook I V Unit)) () fuel [a] = some res₁ ∧
      res.entry pre.length = res₁.entry 0 := by
  obtain ⟨hacc, s₀, st', hs, hsets⟩ := run_iff.mp hrun
  have hleaves : ∀ args st, endSets (eng.semantics env (eng.start env fuel opts.budget)) none fuel
      opts.budget { core := s₀, hook := () } args = some st →
      eng.leaves env opts (none : Option (Hook I V Unit)) () fuel args = some st := by
    intro args st hend
    unfold Engine.leaves
    rw [hs] at hend ⊢
    exact hend
  obtain ⟨st₁, res₁, hsets₁, hentry⟩ := runSets_alone hsim hfresh (start_violations hs) hsets hbudget
    (fun st hst => hrel s₀ hs st (hleaves pre st hst)) (fun st hst => hgood st (hleaves _ st hst))
  exact ⟨res₁, run_iff.mpr ⟨hfresh.accepts _ a (by simp) hacc, s₀, st₁, hs, hsets₁⟩, hentry⟩

end Engine

end

end Giri.Session
