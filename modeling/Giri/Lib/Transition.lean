/-
Giri.Lib.Transition — runs of a labelled transition system, and the
induction rules the safety proofs use.

A system is a relation `Step : S → A → S → Prop`. A run is a list of
actions executed in order; it grows at its end, so an induction over a run
has the run so far in its hypothesis, which is what statements about
histories need. An invariant that every step keeps holds after every run
(`Run.invariant`). Where the steps are computed by a partial function, `exec`
computes runs.
-/
import Mathlib.Logic.Basic

namespace Transition

variable {S A : Type} {Step : S → A → S → Prop}

/-- `Run Step s acts t`: executing `acts` from `s` can lead to `t`. -/
inductive Run (Step : S → A → S → Prop) (s : S) : List A → S → Prop where
  | nil : Run Step s [] s
  | snoc {acts : List A} {t u : S} {a : A} :
      Run Step s acts t → Step t a u → Run Step s (acts ++ [a]) u

variable {acts : List A}

namespace Run

/-- An invariant of the steps is an invariant of the runs. -/
theorem invariant {P : S → Prop} (hstep : ∀ t a u, Step t a u → P t → P u) {s u : S}
    (h : Run Step s acts u) (hs : P s) : P u := by
  induction h with
  | nil => exact hs
  | snoc _ hst ih => exact hstep _ _ _ hst ih

theorem single {s t : S} {a : A} (h : Step s a t) : Run Step s [a] t :=
  .snoc .nil h

theorem append {s t u : S} {xs ys : List A} (h₁ : Run Step s xs t) (h₂ : Run Step t ys u) :
    Run Step s (xs ++ ys) u := by
  induction h₂ with
  | nil => simpa using h₁
  | snoc _ hst ih =>
    rw [← List.append_assoc]
    exact .snoc ih hst

theorem cons {s t u : S} {a : A} (hst : Step s a t) (h : Run Step t acts u) :
    Run Step s (a :: acts) u :=
  (single hst).append h

/-- A run of a relation is a run of any relation that allows its steps. -/
theorem mono {Step' : S → A → S → Prop} (hsub : ∀ t a u, Step t a u → Step' t a u) {s u : S}
    (h : Run Step s acts u) : Run Step' s acts u := by
  induction h with
  | nil => exact .nil
  | snoc _ hst ih => exact .snoc ih (hsub _ _ _ hst)

end Run

/-- Executing actions one after the other; `none` if one is not enabled. -/
def exec (step : S → A → Option S) (s : S) : List A → Option S
  | [] => some s
  | a :: acts => (step s a).bind fun t => exec step t acts

variable {step : S → A → Option S}

/-- Where a list of actions leads, if they can all be taken. -/
theorem exec_getD {s : S} (h : (exec step s acts).isSome = true) :
    exec step s acts = some ((exec step s acts).getD s) := by
  obtain ⟨t, ht⟩ := Option.isSome_iff_exists.mp h
  rw [ht]
  rfl

theorem run_of_exec : ∀ {acts : List A} {s t : S},
    exec step s acts = some t → Run (fun s a t => step s a = some t) s acts t
  | [], s, t, h => by
    cases h
    exact .nil
  | a :: acts, s, t, h => by
    obtain ⟨u, hu, ht⟩ := Option.bind_eq_some_iff.mp h
    exact .cons hu (run_of_exec ht)

/-- `P` holds before each of the actions. -/
def Guarded (step : S → A → Option S) (P : S → A → Prop) (s : S) : List A → Prop
  | [] => True
  | a :: acts => P s a ∧
      match step s a with
      | none => True
      | some t => Guarded step P t acts

theorem run_of_guarded {P : S → A → Prop} : ∀ {acts : List A} {s t : S},
    exec step s acts = some t → Guarded step P s acts →
      Run (fun s a t => step s a = some t ∧ P s a) s acts t
  | [], s, t, h, _ => by
    cases h
    exact .nil
  | a :: acts, s, t, h, hg => by
    obtain ⟨u, hu, ht⟩ := Option.bind_eq_some_iff.mp h
    obtain ⟨hP, hrest⟩ := hg
    rw [hu] at hrest
    exact .cons ⟨hu, hP⟩ (run_of_guarded ht hrest)

/-- Simulation: what an abstract system can do, a concrete one does, and
the two stay related, if every step that meets `P` does so. -/
theorem exec_simulation {G : Type} {astep : G → A → Option G} {P : S → A → Prop} {R : S → G → Prop}
    (hstep : ∀ s g a g', R s g → P s a → astep g a = some g' → ∃ s', step s a = some s' ∧ R s' g') :
    ∀ {acts : List A} {s : S} {g g' : G}, R s g → Guarded step P s acts →
      exec astep g acts = some g' → ∃ s', exec step s acts = some s' ∧ R s' g'
  | [], s, g, g', hR, _, h => by
    cases h
    exact ⟨s, rfl, hR⟩
  | a :: acts, s, g, g', hR, hg, h => by
    obtain ⟨u, hu, hrest⟩ := Option.bind_eq_some_iff.mp h
    obtain ⟨hP, hguard⟩ := hg
    obtain ⟨t, ht, hR'⟩ := hstep s g a u hR hP hu
    rw [ht] at hguard
    obtain ⟨s', hs', hR''⟩ := exec_simulation hstep hR' hguard hrest
    exact ⟨s', Option.bind_eq_some_iff.mpr ⟨t, ht, hs'⟩, hR''⟩

end Transition
