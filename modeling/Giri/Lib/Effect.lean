/-
Giri.Lib.Effect — programs that talk to a world.

A program is a tree: it has returned, or it gives a COMMAND and goes on with
the answer. What commands do is up to a handler, which works on a world and
adds to a log. Programs compute with nothing but the answers, so the same
program can be run in two worlds, and whatever holds for every command of a
handler holds for every program (`Prog.run_sim`).

A simulation may hold only as long as nothing has gone wrong: `good` says so,
of the world and the log, and it has to be a property that is never regained
once it is lost.
-/
import Mathlib.Init

namespace Effect

variable {C L W W' X : Type} {A : C → Type}

/-- A program with commands `C`, of which `c` is answered by an `A c`. -/
inductive Prog (C : Type) (A : C → Type) (X : Type) where
  | done (x : X) : Prog C A X
  | call (c : C) (k : A c → Prog C A X) : Prog C A X

/-- The answer to a command, the world after it, and what it logs. -/
def Handler (C : Type) (A : C → Type) (W L : Type) : Type := (c : C) → W → A c × W × List L

namespace Prog

def run (h : Handler C A W L) : Prog C A X → W × List L → X × (W × List L)
  | .done x, s => (x, s)
  | .call c k, (w, log) =>
    let r := h c w
    (k r.1).run h (r.2.1, log ++ r.2.2)

def map {Y : Type} (f : X → Y) : Prog C A X → Prog C A Y
  | .done x => .done (f x)
  | .call c k => .call c fun a => (k a).map f

@[simp] theorem run_call (h : Handler C A W L) (c : C) (k : A c → Prog C A X) (w : W)
    (log : List L) :
    (call c k).run h (w, log) = (k (h c w).1).run h ((h c w).2.1, log ++ (h c w).2.2) := rfl

end Prog

/-- The handler `h'` answers every command as `h` does and logs the same, if
`h` can handle it and things are still good. -/
structure Handler.Simulates (h : Handler C A W L) (h' : Handler C A W' L)
    (rel : W → W' → Prop) (good : W → List L → Prop) : Prop where
  back : ∀ c w log, good (h c w).2.1 (log ++ (h c w).2.2) → good w log
  step : ∀ c w w' log, rel w w' → good (h c w).2.1 (log ++ (h c w).2.2) →
    (h' c w').1 = (h c w).1 ∧ rel (h c w).2.1 (h' c w').2.1 ∧ (h' c w').2.2 = (h c w).2.2

/-- Two worlds are related, and what the first one has logged before is `pre`. -/
def Tied (rel : W → W' → Prop) (pre : List L) (x : W × List L) (x' : W' × List L) : Prop :=
  rel x.1 x'.1 ∧ x.2 = pre ++ x'.2

namespace Prog

variable {h : Handler C A W L} {h' : Handler C A W' L} {rel : W → W' → Prop}
  {good : W → List L → Prop} {pre : List L}

/-- What is good in the end was good in the beginning. -/
theorem run_back (hback : ∀ c w log, good (h c w).2.1 (log ++ (h c w).2.2) → good w log)
    (p : Prog C A X) : ∀ (x : W × List L), good (p.run h x).2.1 (p.run h x).2.2 →
      good x.1 x.2 := by
  induction p with
  | done => exact fun _ hgood => hgood
  | call c k ih =>
    rintro ⟨w, log⟩ hgood
    exact hback c w log (ih _ _ hgood)

/-- **A simulation of the commands is one of the programs.** -/
theorem run_sim (hsim : h.Simulates h' rel good) (p : Prog C A X) :
    ∀ (x : W × List L) (x' : W' × List L), Tied rel pre x x' →
      good (p.run h x).2.1 (p.run h x).2.2 →
      (p.run h' x').1 = (p.run h x).1 ∧ Tied rel pre (p.run h x).2 (p.run h' x').2 := by
  induction p with
  | done => exact fun _ _ htied _ => ⟨rfl, htied⟩
  | call c k ih =>
    rintro ⟨w, log⟩ ⟨w', log'⟩ ⟨hrel, hlog⟩ hgood
    obtain ⟨hans, hrel', hnew⟩ := hsim.step c w w' log hrel (run_back hsim.back (k _) _ hgood)
    rw [run_call] at hgood ⊢
    rw [run_call, hans]
    refine ih _ _ _ ⟨hrel', ?_⟩ hgood
    simp only at hlog ⊢
    rw [hlog, hnew, List.append_assoc]

end Prog

/-! ## Machines

A program that may run forever: each of its steps is a program, from a state
to the next. -/

structure Machine (S C : Type) (A : C → Type) where
  initial : S
  /-- The next step; `none` when it is over. -/
  next : S → Option (Prog C A S)

namespace Machine

variable {S : Type} (m : Machine S C A)

/-- All steps, from a state; `none` if there are more of them than `fuel`. -/
def exec (h : Handler C A W L) : Nat → S → W × List L → Option (S × (W × List L))
  | fuel, s, x =>
    match m.next s with
    | none => some (s, x)
    | some p =>
      match fuel with
      | 0 => none
      | fuel + 1 => exec h fuel (p.run h x).1 (p.run h x).2

variable {h : Handler C A W L} {h' : Handler C A W' L} {rel : W → W' → Prop}
  {good : W → List L → Prop} {pre : List L}

theorem exec_back (hback : ∀ c w log, good (h c w).2.1 (log ++ (h c w).2.2) → good w log)
    (fuel : Nat) : ∀ {s : S} {x : W × List L} {r : S × (W × List L)},
      m.exec h fuel s x = some r → good r.2.1 r.2.2 → good x.1 x.2 := by
  induction fuel with
  | zero =>
    intro s x r hrun hgood
    unfold exec at hrun
    split at hrun
    · cases hrun
      exact hgood
    · cases hrun
  | succ fuel ih =>
    intro s x r hrun hgood
    unfold exec at hrun
    split at hrun
    · cases hrun
      exact hgood
    · exact Prog.run_back hback _ _ (ih hrun hgood)

/-- **A simulation of the commands is one of the machines.** -/
theorem exec_sim (hsim : h.Simulates h' rel good) (fuel : Nat) :
    ∀ {s : S} {x : W × List L} {x' : W' × List L} {r : S × (W × List L)},
      m.exec h fuel s x = some r → good r.2.1 r.2.2 → Tied rel pre x x' →
      ∃ y', m.exec h' fuel s x' = some (r.1, y') ∧ Tied rel pre r.2 y' := by
  induction fuel with
  | zero =>
    intro s x x' r hrun _ htied
    unfold exec at hrun ⊢
    split at hrun
    · cases hrun
      exact ⟨x', rfl, htied⟩
    · cases hrun
  | succ fuel ih =>
    intro s x x' r hrun hgood htied
    unfold exec at hrun ⊢
    split at hrun
    · cases hrun
      exact ⟨x', rfl, htied⟩
    · rename_i p hnext
      obtain ⟨hs, htied'⟩ :=
        p.run_sim hsim x x' htied (m.exec_back hsim.back fuel hrun hgood)
      simp only [hs]
      exact ih hrun hgood htied'

end Machine

end Effect
