/-
Giri.Sched.Policy — what the strategies of `pkg/scheduler` guarantee, over
any history of goroutines that are spawned, exit and are candidates.

Between two change points every goroutine keeps its priority, and the
highest one is chosen, the smallest ID of equals. So there is a ranking that
every choice follows (`Ranked`), whatever the generator has drawn. Round
robin goes around the candidates, wherever it starts.
-/
import Mathlib.Data.List.Rotate
import Giri.Sched.BatonTheorems
import Giri.Sched.Strategy

namespace Giri.Sched

/-! ## §1. Histories -/

/-- What a scheduler is told, and asked. -/
inductive Call where
  | onSpawn (child : Gid)
  | onFinish (gid : Gid)
  | next (runnable : List Gid)

/-- The goroutine is named. -/
def Call.Names (g : Gid) : Call → Prop
  | .onSpawn child => child = g
  | .onFinish gid => gid = g
  | .next runnable => g ∈ runnable

/-- IDs are not used twice: a goroutine is spawned before anything else is
said of it, and nothing is said of it after its exit. Candidates ascend. -/
structure WellFormed (h : List Call) : Prop where
  ids : h.Pairwise fun c d => (∀ g, c = .onFinish g → ¬d.Names g) ∧ ∀ g, d = .onSpawn g → ¬c.Names g
  ascending : ∀ runnable, .next runnable ∈ h → runnable.Pairwise (· < ·)

theorem WellFormed.tail {c : Call} {h : List Call} (hwf : WellFormed (c :: h)) : WellFormed h :=
  ⟨hwf.ids.of_cons, fun r hr => hwf.ascending r (List.mem_cons_of_mem _ hr)⟩

/-- An answer; `inverted` says that a change point took effect. -/
structure Decision where
  candidates : List Gid
  chosen : Gid
  inverted : Bool

section

variable {γ : Type} (rand : Rand γ)

/-- The next call of `Next` is at a change point. -/
def Scheduler.inverts : Scheduler γ → Bool
  | .pct s => s.instructionN + 1 ∈ s.changePoints
  | _ => false

/-- One call, with the answer if it is one of `Next`. -/
def Scheduler.serve (s : Scheduler γ) : Call → Scheduler γ × Option Decision
  | .onSpawn child => (s.onSpawn rand child, none)
  | .onFinish gid => (s.onFinish gid, none)
  | .next runnable =>
    let r := s.next rand runnable
    (r.2, r.1.map (⟨runnable, ·, s.inverts⟩))

/-- The scheduler after some calls. -/
def Scheduler.after (s : Scheduler γ) (h : List Call) : Scheduler γ :=
  h.foldl (fun s c => (s.serve rand c).1) s

def decisions : Scheduler γ → List Call → List Decision
  | _, [] => []
  | s, c :: h => (s.serve rand c).2.toList ++ decisions (s.serve rand c).1 h

/-- `a` was chosen where `b` was a candidate. -/
def Over (ds : List Decision) (a b : Gid) : Prop :=
  ∃ d ∈ ds, d.chosen = a ∧ b ∈ d.candidates ∧ b ≠ a

/-! ## §2. Priorities -/

/-- `a` comes before `b`: its rank is higher, or the same and its ID smaller. -/
def Before (f : Gid → Int) (a b : Gid) : Prop := f b < f a ∨ f b = f a ∧ a < b

theorem Before.trans {f : Gid → Int} {a b c : Gid} (hab : Before f a b) (hbc : Before f b c) :
    Before f a c := by
  unfold Before at *
  grind

theorem Before.irrefl (f : Gid → Int) (a : Gid) : ¬Before f a a := by
  simp [Before]

/-- Every choice follows the ranking. -/
def Ranked (f : Gid → Int) (ds : List Decision) : Prop :=
  ∀ d ∈ ds, ∀ b ∈ d.candidates, b ≠ d.chosen → Before f d.chosen b

theorem Ranked.acyclic {f : Gid → Int} {ds : List Decision} (h : Ranked f ds) (a : Gid) :
    ¬Relation.TransGen (Over ds) a a := by
  have hstep : ∀ {a b}, Over ds a b → Before f a b := by
    rintro _ b ⟨d, hd, rfl, hb, hne⟩
    exact h d hd b hb hne
  have hall : ∀ {b}, Relation.TransGen (Over ds) a b → Before f a b := by
    intro b hab
    induction hab with
    | single hab => exact hstep hab
    | tail _ hbc ih => exact ih.trans (hstep hbc)
  exact fun ha => Before.irrefl f a (hall ha)

namespace PCT

variable {s : PCT γ} {first : Gid} {rest : List Gid} {c : Call} {h : List Call} {f : Gid → Int}

/-- The priority of a goroutine, as `Next` reads it. -/
def rank (s : PCT γ) (g : Gid) : Int := (s.priorities g).getD 0

/-- Priorities there are stay; the candidates get one, and nobody else. -/
theorem assign_priorities (s : PCT γ) (runnable : List Gid) :
    (∀ g v, s.priorities g = some v → (s.assign rand runnable).priorities g = some v) ∧
      ∀ g, (s.assign rand runnable).priorities g ≠ none ↔ s.priorities g ≠ none ∨ g ∈ runnable := by
  induction runnable generalizing s with
  | nil => simp [assign]
  | cons gid runnable ih =>
    simp only [assign, List.foldl_cons] at ih ⊢
    cases hgid : s.priorities gid with
    | some =>
      refine ⟨(ih s).1, fun g => ?_⟩
      rw [(ih s).2 g, List.mem_cons]
      grind
    | none =>
      dsimp only
      refine ⟨fun g v hg => (ih _).1 g v ?_, fun g => ?_⟩
      · have hne : g ≠ gid := fun he => by simp [he, hgid] at hg
        simpa [setPriority, hne] using hg
      · rw [(ih _).2 g, List.mem_cons]
        by_cases hne : g = gid <;> simp [setPriority, hne]

/-- The choice comes before every other candidate. -/
theorem highest_before (hasc : (first :: rest).Pairwise (· < ·)) :
    ∀ b ∈ first :: rest, b ≠ s.highest first rest → Before s.rank (s.highest first rest) b := by
  induction rest generalizing first with
  | nil => simp [highest]
  | cons gid rest ih =>
    have hgid : first < gid := List.rel_of_pairwise_cons hasc List.mem_cons_self
    -- what comes before the better one of the first two comes before both
    have hboth : ∀ {x y : Gid}, Before s.rank x y → (x :: rest).Pairwise (· < ·) →
        ∀ b, b = y ∨ b ∈ x :: rest → b ≠ s.highest x rest → Before s.rank (s.highest x rest) b := by
      intro x y hxy hasc b hb hne
      rcases hb with rfl | hb
      · by_cases he : x = s.highest x rest
        · rw [← he]
          exact hxy
        · exact (ih hasc x List.mem_cons_self he).trans hxy
      · exact ih hasc b hb hne
    intro b hb
    by_cases hlt : s.rank first < s.rank gid
    · have heq : s.highest first (gid :: rest) = s.highest gid rest :=
        congrArg (rest.foldl _) (if_pos hlt)
      rw [heq]
      exact hboth (.inl hlt) hasc.of_cons b (List.mem_cons.mp hb)
    · have heq : s.highest first (gid :: rest) = s.highest first rest :=
        congrArg (rest.foldl _) (if_neg hlt)
      have hbefore : Before s.rank first gid := by
        rcases lt_or_eq_of_le (not_lt.mp hlt) with h | h
        · exact .inl h
        · exact .inr ⟨h, hgid⟩
      rw [heq]
      refine hboth hbefore (hasc.sublist (by simp)) b ?_
      simpa [or_left_comm] using hb

theorem assign_points (s : PCT γ) (runnable : List Gid) :
    (s.assign rand runnable).instructionN = s.instructionN ∧
      (s.assign rand runnable).changePoints = s.changePoints := by
  refine List.foldlRecOn (motive := fun t : PCT γ =>
    t.instructionN = s.instructionN ∧ t.changePoints = s.changePoints) _ _ ⟨rfl, rfl⟩ ?_
  intro t ht g _
  split
  · exact ht
  · exact ht

/-- The scheduler after a call. -/
def told (rand : Rand γ) (s : PCT γ) : Call → PCT γ
  | .onSpawn child =>
    let (v, g) := rand.int s.rng
    { s with rng := g }.setPriority child v
  | .onFinish gid => { s with priorities := Function.update s.priorities gid none }
  | .next [] => s
  | .next (first :: rest) =>
    ({ s with instructionN := s.instructionN + 1 }.assign rand (first :: rest)).invert rand first rest

theorem serve_pct (s : PCT γ) (c : Call) : ((Scheduler.pct s).serve rand c).1 = .pct (s.told rand c) := by
  rcases c with _ | _ | _ | _ <;> rfl

/-- `Next` gives the candidates priorities, and nobody else. -/
theorem told_next (g : Gid) : (s.told rand (.next (first :: rest))).priorities g ≠ none ↔
    s.priorities g ≠ none ∨ g ∈ first :: rest := by
  have hassign := (assign_priorities rand { s with instructionN := s.instructionN + 1 }
    (first :: rest)).2
  rw [told, invert]
  split
  · simp only [setPriority, Function.update_apply]
    split
    · rename_i he
      simp [he ▸ Scheduler.getD_mem_cons _ first rest]
    · exact hassign g
  · exact hassign g

/-- A call gives priorities to the goroutines it names only. -/
theorem told_priorities {g : Gid} (h : (s.told rand c).priorities g ≠ none) :
    s.priorities g ≠ none ∨ c.Names g := by
  rcases c with child | gid | _ | ⟨first, rest⟩
  · by_cases hne : g = child
    · exact .inr hne.symm
    · exact .inl (by simpa [told, setPriority, hne] using h)
  · by_cases hne : g = gid
    · exact .inr hne.symm
    · exact .inl (by simpa [told, hne] using h)
  · exact .inl h
  · exact (told_next rand g).mp h

/-- Only an exit takes a priority away. -/
theorem told_iff (g : Gid) : (s.told rand c).priorities g ≠ none ↔
    c ≠ .onFinish g ∧ (s.priorities g ≠ none ∨ c.Names g) := by
  rcases c with child | gid | _ | ⟨first, rest⟩
  · by_cases hne : g = child <;> simp [told, setPriority, Call.Names, hne, eq_comm]
  · by_cases hne : g = gid <;> simp [told, Call.Names, hne, eq_comm]
  · simp [told, Call.Names]
  · simpa [Call.Names] using told_next rand g

/-- The goroutines that are still to be spawned have no priority. -/
def Fresh (s : PCT γ) (h : List Call) : Prop := ∀ g, .onSpawn g ∈ h → s.priorities g = none

theorem Fresh.told (hfresh : Fresh s (c :: h)) (hwf : WellFormed (c :: h)) :
    Fresh (s.told rand c) h := by
  intro g hg
  by_contra hne
  rcases told_priorities rand hne with hne | hnames
  · exact hne (hfresh g (List.mem_cons_of_mem _ hg))
  · exact ((List.pairwise_cons.mp hwf.ids).1 _ hg).2 g rfl hnames

/-- Without a change point priorities stay, until the exit. -/
theorem told_keeps (hcalm : ∀ d ∈ ((Scheduler.pct s).serve rand c).2, d.inverted = false)
    (hfresh : Fresh s (c :: h)) {g : Gid} {v : Int} (hg : s.priorities g = some v)
    (hc : c ≠ .onFinish g) :
    (s.told rand c).priorities g = some v := by
  rcases c with child | gid | _ | ⟨first, rest⟩
  · have hne : g ≠ child := fun he => by
      simp [he, hfresh child List.mem_cons_self] at hg
    simpa [told, setPriority, hne] using hg
  · have hne : g ≠ gid := fun he => hc (he ▸ rfl)
    simpa [told, hne] using hg
  · exact hg
  · have hpoints := assign_points rand { s with instructionN := s.instructionN + 1 } (first :: rest)
    have hnot : s.instructionN + 1 ∉ s.changePoints := of_decide_eq_false (hcalm _ rfl)
    rw [told, invert, if_neg (by rw [hpoints.1, hpoints.2]; exact hnot)]
    exact (assign_priorities rand _ _).1 g v hg

/-- The choice of a call follows every ranking that has the priorities after
it. -/
theorem told_before (hasc : (first :: rest).Pairwise (· < ·))
    (hf : ∀ g v, (s.told rand (.next (first :: rest))).priorities g = some v → f g = v) :
    ∀ b ∈ first :: rest, b ≠ (s.told rand (.next (first :: rest))).highest first rest →
      Before f ((s.told rand (.next (first :: rest))).highest first rest) b := by
  have hrank : ∀ g ∈ first :: rest, (s.told rand (.next (first :: rest))).rank g = f g := by
    intro g hg
    obtain ⟨v, hv⟩ := Option.ne_none_iff_exists'.mp ((told_next rand g).mpr (.inr hg))
    rw [rank, hv, hf g v hv, Option.getD_some]
  intro b hb hne
  have hbefore := highest_before hasc b hb hne
  rw [Before, hrank b hb, hrank _ (Scheduler.highest_mem _ rest first)] at hbefore
  exact hbefore

/-- The answer to the first call follows such a ranking. -/
theorem first_ranked (hwf : WellFormed (c :: h))
    (hf : ∀ g v, (s.told rand c).priorities g = some v → f g = v) :
    Ranked f ((Scheduler.pct s).serve rand c).2.toList := by
  intro d hd
  rcases c with _ | _ | _ | ⟨first, rest⟩
  · cases hd
  · cases hd
  · cases hd
  · obtain rfl := List.mem_singleton.mp hd
    exact told_before rand (hwf.ascending _ List.mem_cons_self) hf

theorem mem_decisions {s : Scheduler γ} {d : Decision} (hd : d ∈ decisions rand s h) :
    .next d.candidates ∈ h ∧ d.chosen ∈ d.candidates := by
  induction h generalizing s with
  | nil => cases hd
  | cons c h ih =>
    rcases List.mem_append.mp hd with hd | hd
    · rcases c with _ | _ | _ | ⟨first, rest⟩
      · cases hd
      · cases hd
      · cases hd
      · obtain ⟨g, hg, heq⟩ := s.next_mem rand (List.cons_ne_nil first rest)
        simp only [Scheduler.serve, heq, Option.map_some, Option.toList_some, List.mem_singleton] at hd
        subst hd
        exact ⟨List.mem_cons_self, hg⟩
    · exact ⟨List.mem_cons_of_mem _ (ih hd).1, (ih hd).2⟩

/-- **Without a change point there is one ranking**, with the priorities
there are at the start. -/
theorem ranked_of_calm (hwf : WellFormed h) (hfresh : Fresh s h)
    (hcalm : ∀ d ∈ decisions rand (.pct s) h, d.inverted = false) :
    ∃ f, (∀ g v, s.priorities g = some v → f g = v) ∧ Ranked f (decisions rand (.pct s) h) := by
  induction h generalizing s with
  | nil => exact ⟨s.rank, fun g v hg => by simp [rank, hg], nofun⟩
  | cons c h ih =>
    rw [decisions, serve_pct] at hcalm ⊢
    rw [List.forall_mem_append] at hcalm
    obtain ⟨f, hf, hr⟩ := ih hwf.tail (hfresh.told rand hwf) hcalm.2
    by_cases hfin : ∃ gid, c = .onFinish gid
    · -- from its exit on a goroutine is ranked as it was
      obtain ⟨gid, rfl⟩ := hfin
      refine ⟨Function.update f gid (s.rank gid), fun g v hg => ?_, fun d hd b hb hne => ?_⟩
      · by_cases hne : g = gid
        · subst hne
          simp [rank, hg]
        · rw [Function.update_of_ne hne]
          exact hf g v (by simpa [told, hne] using hg)
      · obtain ⟨hmem, hchosen⟩ := mem_decisions rand hd
        have hnot : gid ∉ d.candidates := ((List.pairwise_cons.mp hwf.ids).1 _ hmem).1 gid rfl
        have hb' : b ≠ gid := fun he => hnot (he ▸ hb)
        have hc' : d.chosen ≠ gid := fun he => hnot (he ▸ hchosen)
        rw [Before, Function.update_of_ne hb', Function.update_of_ne hc']
        exact hr d hd b hb hne
    · refine ⟨f, fun g v hg => hf g v ?_, fun d hd => ?_⟩
      · exact told_keeps rand (fun d hd => hcalm.1 d (by simpa using hd)) hfresh hg
          fun he => hfin ⟨g, he⟩
      · rcases List.mem_append.mp hd with hd | hd
        · exact first_ranked rand hwf hf d hd
        · exact hr d hd

/-- The same when a change point takes effect at the first choice. -/
theorem ranked_between (hwf : WellFormed h) (hfresh : Fresh s h)
    (hcalm : ∀ d ∈ (decisions rand (.pct s) h).tail, d.inverted = false) :
    ∃ f, Ranked f (decisions rand (.pct s) h) := by
  induction h generalizing s with
  | nil => exact ⟨s.rank, nofun⟩
  | cons c h ih =>
    rw [decisions, serve_pct] at hcalm ⊢
    have hfirst := fun f => first_ranked (f := f) rand (s := s) hwf
    cases hd : ((Scheduler.pct s).serve rand c).2 with
    | none =>
      rw [hd] at hcalm
      exact ih hwf.tail (hfresh.told rand hwf) hcalm
    | some =>
      rw [hd] at hcalm hfirst
      obtain ⟨f, hf, hr⟩ := ranked_of_calm rand hwf.tail (hfresh.told rand hwf) hcalm
      exact ⟨f, List.forall_mem_append.mpr ⟨hfirst f hf, hr⟩⟩

theorem Fresh.after {pre : List Call} (hfresh : Fresh s (pre ++ h)) (hwf : WellFormed (pre ++ h)) :
    ∃ t, (Scheduler.pct s).after rand pre = .pct t ∧ WellFormed h ∧ Fresh t h := by
  induction pre generalizing s with
  | nil => exact ⟨s, rfl, hwf, hfresh⟩
  | cons c pre ih =>
    obtain ⟨t, ht⟩ := ih (hfresh.told rand hwf) hwf.tail
    refine ⟨t, ?_, ht.2⟩
    rw [Scheduler.after, List.foldl_cons, serve_pct]
    exact ht.1

theorem told_points (s : PCT γ) (first : Gid) (rest : List Gid) :
    (s.told rand (.next (first :: rest))).instructionN = s.instructionN + 1 ∧
      (s.told rand (.next (first :: rest))).changePoints = s.changePoints := by
  rw [told, invert]
  split
  · exact assign_points rand _ _
  · exact assign_points rand _ _

theorem countP_succ (points : List Nat) (n : Nat) :
    points.countP (n < ·) = points.countP (n + 1 < ·) + points.count (n + 1) := by
  induction points with
  | nil => rfl
  | cons p points ih =>
    simp only [List.countP_cons, List.count_cons, ih, decide_eq_true_eq, beq_iff_eq]
    split <;> split <;> split <;> omega

/-- Every change point takes effect once. -/
theorem countP_inverted (s : PCT γ) (h : List Call) :
    (decisions rand (.pct s) h).countP (·.inverted) ≤
      s.changePoints.countP (s.instructionN < ·) := by
  induction h generalizing s with
  | nil => exact Nat.zero_le _
  | cons c h ih =>
    have ih := ih (s.told rand c)
    rcases c with _ | _ | _ | ⟨first, rest⟩
    · exact ih
    · exact ih
    · exact ih
    · rw [(told_points rand s first rest).1, (told_points rand s first rest).2] at ih
      rw [decisions, serve_pct, List.countP_append, countP_succ, Nat.add_comm]
      refine Nat.add_le_add ih ?_
      change [_].countP _ ≤ _
      by_cases hpoint : s.instructionN + 1 ∈ s.changePoints
      · exact (List.countP_le_length).trans (List.count_pos_iff.mpr hpoint)
      · simp [Scheduler.inverts, hpoint]

theorem length_drawPoints (n : Nat) (g : γ) : (drawPoints rand n g).1.length = n := by
  induction n generalizing g with
  | zero => rfl
  | succ n ih => simp [drawPoints, ih]

theorem new_eq_some (seed : Int) {depth : Int} (hdepth : 1 ≤ depth) :
    ∃ s, PCT.new rand seed depth = some s ∧ (∀ g, s.priorities g = none) ∧
      s.changePoints.length = (depth - 1).toNat :=
  ⟨_, if_neg (by omega), fun _ => rfl, by simp [length_drawPoints]⟩

end PCT

/-! ## §3. Round robin -/

theorem decisions_roundRobin (first : Gid) (rest : List Gid) (n lastIdx : Nat) :
    (decisions rand (.roundRobin lastIdx) (List.replicate n (.next (first :: rest)))).map
      (·.chosen) = (List.range n).map fun k =>
        (first :: rest).getD ((lastIdx + 1 + k) % (rest.length + 1)) first := by
  induction n generalizing lastIdx with
  | zero => rfl
  | succ n ih =>
    rw [List.replicate_succ, decisions, List.map_append, List.range_succ_eq_map, List.map_cons,
      List.map_map]
    refine congrArg₂ List.cons rfl ((ih _).trans (List.map_congr_left fun k _ => ?_))
    simp only [Function.comp_apply, Nat.add_assoc, Nat.mod_add_mod, Nat.succ_eq_add_one]
    rw [Nat.add_comm 1 k]

/-- Round robin goes around. -/
theorem roundRobin_perm (lastIdx : Nat) (cands : List Gid) :
    ((decisions rand (.roundRobin lastIdx) (List.replicate cands.length (.next cands))).map
      (·.chosen)).Perm cands := by
  cases cands with
  | nil => exact .nil
  | cons first rest =>
    rw [decisions_roundRobin]
    refine .trans (.of_eq ?_) (List.rotate_perm (first :: rest) (lastIdx + 1))
    refine List.ext_getElem (by simp) fun k hk _ => ?_
    have hlt : (lastIdx + 1 + k) % (rest.length + 1) < (first :: rest).length :=
      Nat.mod_lt _ (Nat.succ_pos _)
    rw [List.getElem_map, List.getElem_range, List.getElem_rotate,
      List.getD_eq_getElem?_getD, List.getElem?_eq_getElem hlt]
    simp only [Option.getD_some, Nat.add_comm k, List.length_cons]

/-! ## §4. The policies -/

/-- **Scheduling follows its policy.** Between two change points of PCT no
goroutine is chosen where one is a candidate that was chosen over it, and
there is no longer cycle either; at most `depth - 1` change points take
effect. Round robin chooses `n` candidates once each in `n` calls. -/
theorem scheduling_policy (seed depth : Int) (hdepth : 1 ≤ depth) :
    (∃ s, PCT.new rand seed depth = some s ∧
      (∀ pre seg, WellFormed (pre ++ seg) →
        let ds := decisions rand ((Scheduler.pct s).after rand pre) seg
        (∀ d ∈ ds.tail, d.inverted = false) →
          (∀ a b, Over ds a b → ¬Over ds b a) ∧ ∀ a, ¬Relation.TransGen (Over ds) a a) ∧
      ∀ h, (decisions rand (.pct s) h).countP (·.inverted) ≤ (depth - 1).toNat) ∧
    ∀ lastIdx cands,
      ((decisions rand (.roundRobin lastIdx) (List.replicate cands.length (.next cands))).map
        (·.chosen)).Perm cands := by
  obtain ⟨s, hs, hempty, hpoints⟩ := PCT.new_eq_some rand seed hdepth
  refine ⟨⟨s, hs, fun pre seg hwf => ?_, fun h => ?_⟩, roundRobin_perm rand⟩
  · intro ds hcalm
    obtain ⟨t, ht, hseg, hfresh⟩ := PCT.Fresh.after rand (fun g _ => hempty g) hwf
    obtain ⟨f, hf⟩ : ∃ f, Ranked f ds := by
      simp only [ds, ht] at hcalm ⊢
      exact PCT.ranked_between rand hseg hfresh hcalm
    exact ⟨fun a b hab hba => hf.acyclic a (.tail (.single hab) hba), hf.acyclic⟩
  · rw [← hpoints]
    exact (PCT.countP_inverted rand s h).trans List.countP_le_length

/-- **Priorities don't pile up**: after any history, the goroutines that have
one are those that were named and have not exited. -/
theorem priorities_of_unfinished (seed depth : Int) (hdepth : 1 ≤ depth) (h : List Call)
    (hwf : WellFormed h) : ∃ s t, PCT.new rand seed depth = some s ∧
      (Scheduler.pct s).after rand h = .pct t ∧
      ∀ g, t.priorities g ≠ none ↔ (∃ c ∈ h, c.Names g) ∧ .onFinish g ∉ h := by
  obtain ⟨s, hs, hempty, -⟩ := PCT.new_eq_some rand seed hdepth
  refine ⟨s, ?_⟩
  induction h using List.reverseRecOn with
  | nil => exact ⟨s, hs, rfl, fun g => by simp [hempty g]⟩
  | append_singleton h c ih =>
    obtain ⟨hids, -, hlast⟩ := List.pairwise_append.mp hwf.ids
    obtain ⟨t, -, ht, hiff⟩ := ih ⟨hids, fun r hr => hwf.ascending r (List.mem_append_left _ hr)⟩
    refine ⟨t.told rand c, hs, ?_, fun g => ?_⟩
    · have hsnoc : (Scheduler.pct s).after rand (h ++ [c]) =
          (((Scheduler.pct s).after rand h).serve rand c).1 := List.foldl_append
      rw [hsnoc, ht, PCT.serve_pct]
    · -- an exited goroutine is not named again
      have hexit (hg : .onFinish g ∈ h) : ¬c.Names g := (hlast _ hg c List.mem_cons_self).1 g rfl
      rw [PCT.told_iff, hiff]
      simp only [List.mem_append, List.mem_singleton]
      grind

end

/-- A generator that draws zeros. -/
def zeros : Rand Unit where
  newSource _ := ()
  int63 g := (0, g)
  int g := (0, g)
  int63n _ g := (0, g)
  intn _ g := (0, g)

/-- With depth 1 there is no change point, and 2 is not chosen over 1. -/
theorem scheduling_policy_two :
    ∃ s, PCT.new zeros 7 1 = some s ∧
      ¬Over (decisions zeros (.pct s) [.onSpawn 2, .next [1, 2], .next [1, 2]]) 2 1 := by
  obtain ⟨⟨s, hs, hcalm, -⟩, -⟩ := scheduling_policy zeros 7 1 (by decide)
  cases hs
  refine ⟨_, rfl, ?_⟩
  refine (hcalm [] [.onSpawn 2, .next [1, 2], .next [1, 2]] ⟨?_, ?_⟩ ?_).1 1 2 ?_
  · simp [Call.Names]
  · simp
  · decide
  · exact ⟨_, List.mem_cons_self, by decide, by decide, by decide⟩

theorem priorities_of_unfinished_exit : ∃ s t, PCT.new zeros 7 1 = some s ∧
    (Scheduler.pct s).after zeros [.next [1, 2], .onFinish 2] = .pct t ∧
      t.priorities 1 ≠ none ∧ t.priorities 2 = none := by
  obtain ⟨s, t, hs, ht, hiff⟩ := priorities_of_unfinished zeros 7 1 (by decide)
    [.next [1, 2], .onFinish 2] ⟨by simp, by simp⟩
  refine ⟨s, t, hs, ht, (hiff 1).mpr (by simp [Call.Names]), ?_⟩
  simpa using mt (hiff 2).mp

/-! ## §5. The choice is found -/

/-- **Scheduling does not crash**, unless PCT is given a depth below 1: the
scheduler is created, and what it chooses of the candidates is queued, or a
parked goroutine whose wait is over, so `transfer` finds it. -/
theorem scheduling_safe {γ σ : Type} (rand : Rand γ) (strategy : Strategy) (seed depth : Int)
    (hdepth : strategy = .pct → 1 ≤ depth) :
    (Scheduler.new rand strategy seed depth).isSome = true ∧
      ∀ (s : Sys σ) (self : Gid) (sched : Scheduler γ), s.candidates self ≠ [] →
        ∃ next, (sched.next rand (s.candidates self)).1 = some next ∧
          (next ∈ s.runQueue ∨ next ∈ s.hosts ∧ s.waitOver next = true) := by
  constructor
  · cases strategy with
    | roundRobin | random => rfl
    | pct =>
      obtain ⟨s, hs, -⟩ := PCT.new_eq_some rand seed (hdepth rfl)
      simp [Scheduler.new, hs]
  · intro s self sched hne
    obtain ⟨next, hmem, hnext⟩ := sched.next_mem rand hne
    refine ⟨next, hnext, ?_⟩
    rcases Sys.mem_candidates hmem with hq | ⟨hh, -, hw⟩
    · exact .inl hq
    · exact .inr ⟨hh, hw⟩

/-- Goroutine 2 is queued, and the wait of 3 is over. -/
def twoReady : Sys Unit where
  shared := ()
  goroutines := AList.insert 3
    { (Goroutine.new "" : Goroutine Unit) with status := .blocked, wait := some fun _ => true } ∅
  nextGID := 3
  runQueue := [2]
  hosts := [1, 3]
  driverGID := 1
  halting := false
  deadlock := none
  sched := true
  pc _ := .running
  wake _ := none

theorem scheduling_safe_pct : ∃ sched, Scheduler.new zeros .pct 7 3 = some sched ∧
    twoReady.candidates 1 = [2, 3] ∧
    ∃ next, (sched.next zeros [2, 3]).1 = some next ∧
      (next ∈ twoReady.runQueue ∨ next ∈ twoReady.hosts ∧ twoReady.waitOver next = true) := by
  obtain ⟨hsome, hnext⟩ := @scheduling_safe Unit Unit zeros .pct 7 3 fun _ => by decide
  obtain ⟨sched, hsched⟩ := Option.isSome_iff_exists.mp hsome
  have hcand : twoReady.candidates 1 = [2, 3] := by decide +kernel
  have hchoice := hnext twoReady 1 sched (by simp [hcand])
  rw [hcand] at hchoice
  exact ⟨sched, hsched, hcand, hchoice⟩

/-- `giri -strategy pct -depth 0`. -/
theorem depth_zero_panics : (Scheduler.new zeros .pct 0 0).isSome = false := rfl

end Giri.Sched
