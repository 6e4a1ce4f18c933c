/-
Giri.Lib.Search — depth-first search of a graph, with a list of the nodes
already seen.

The graph is given by its successor function; `none` says that there is no
such node. The search recurses on fuel. When it returns with enough fuel,
every node that is new is CLOSED: its successors have been seen too
(`visit_spec`). From the empty list on, everything reachable has then been
seen (`mem_visit_of_reaches`), and nothing else (`reaches_of_mem_visit`). One
unit of fuel for each node, and one more, is enough.
-/
import Mathlib.Data.List.Basic
import Mathlib.Logic.Relation

namespace Search

variable {α : Type} [DecidableEq α]

/-- Visit a node, then its successors, unless it has been seen. -/
def visit (succ : α → Option (List α)) : Nat → α → List α → List α
  | 0, _, seen => seen
  | fuel + 1, a, seen =>
    match succ a with
    | none => seen
    | some bs =>
      if a ∈ seen then seen
      else bs.foldl (fun seen b => visit succ fuel b seen) (a :: seen)

/-- An edge of the graph. -/
def Edge (succ : α → Option (List α)) (a b : α) : Prop :=
  ∃ bs, succ a = some bs ∧ b ∈ bs

/-- The number of nodes in `nodes` that have not been seen. -/
def unseen (nodes seen : List α) : Nat :=
  (nodes.filter fun a => a ∉ seen).length

theorem unseen_sublist {nodes seen seen' : List α} (h : seen ⊆ seen') :
    (nodes.filter fun a => a ∉ seen').Sublist (nodes.filter fun a => a ∉ seen) := by
  refine List.monotone_filter_right nodes ?_
  intro a ha
  simp only [decide_eq_true_eq] at ha ⊢
  exact fun hmem => ha (h hmem)

theorem unseen_mono {nodes seen seen' : List α} (h : seen ⊆ seen') :
    unseen nodes seen' ≤ unseen nodes seen :=
  (unseen_sublist h).length_le

theorem unseen_cons_lt {nodes seen : List α} {a : α} (hnode : a ∈ nodes) (ha : a ∉ seen) :
    unseen nodes (a :: seen) < unseen nodes seen := by
  have hsub : (nodes.filter fun b => b ∉ a :: seen).Sublist (nodes.filter fun b => b ∉ seen) :=
    unseen_sublist (List.subset_cons_self a seen)
  refine Nat.lt_of_le_of_ne hsub.length_le ?_
  intro hlen
  have hmem : a ∈ nodes.filter fun b => b ∉ seen := by simp [hnode, ha]
  rw [← hsub.eq_of_length hlen] at hmem
  simp at hmem

/-- What holds when a search that began with `seen` ends with `seen'`. -/
structure Closed (succ : α → Option (List α)) (seen seen' : List α) : Prop where
  sub : seen ⊆ seen'
  closed : ∀ a ∈ seen', a ∉ seen → ∀ b, Edge succ a b → (succ b).isSome → b ∈ seen'

namespace Closed

variable {succ : α → Option (List α)} {s t u : List α}

omit [DecidableEq α] in
theorem refl (s : List α) : Closed succ s s :=
  ⟨fun _ h => h, fun _ h hn => absurd h hn⟩

theorem trans (h₁ : Closed succ s t) (h₂ : Closed succ t u) : Closed succ s u where
  sub := List.Subset.trans h₁.sub h₂.sub
  closed a ha hn b hab hb := by
    by_cases hat : a ∈ t
    · exact h₂.sub (h₁.closed a hat hn b hab hb)
    · exact h₂.closed a ha hat b hab hb

end Closed

section

variable {succ : α → Option (List α)} {nodes : List α}

/-- **The search.** With more fuel than there are unseen nodes, it sees the
node, and closes whatever is new. -/
theorem visit_spec (hnodes : ∀ a, (succ a).isSome → a ∈ nodes) : ∀ (fuel : Nat) (a : α)
    (seen : List α), unseen nodes seen < fuel →
      Closed succ seen (visit succ fuel a seen) ∧
        ((succ a).isSome → a ∈ visit succ fuel a seen) := by
  intro fuel
  induction fuel with
  | zero =>
    intro a seen hfuel
    omega
  | succ fuel ih =>
    intro a seen hfuel
    -- the loop over the successors
    have hloop : ∀ (bs seen : List α), unseen nodes seen < fuel →
        Closed succ seen (bs.foldl (fun seen b => visit succ fuel b seen) seen) ∧
          ∀ b ∈ bs, (succ b).isSome →
            b ∈ bs.foldl (fun seen b => visit succ fuel b seen) seen := by
      intro bs
      induction bs with
      | nil =>
        intro seen _
        exact ⟨.refl seen, nofun⟩
      | cons b bs ihbs =>
        intro seen hfuel
        obtain ⟨hclosed, hmem⟩ := ih b seen hfuel
        obtain ⟨hrest, hrestMem⟩ := ihbs (visit succ fuel b seen)
          (Nat.lt_of_le_of_lt (unseen_mono hclosed.sub) hfuel)
        refine ⟨hclosed.trans hrest, ?_⟩
        intro c hc hsome
        rcases List.mem_cons.mp hc with rfl | hc
        · exact hrest.sub (hmem hsome)
        · exact hrestMem c hc hsome
    unfold visit
    cases hsucc : succ a with
    | none => exact ⟨.refl seen, by simp⟩
    | some bs =>
      dsimp only
      by_cases hseen : a ∈ seen
      · rw [if_pos hseen]
        exact ⟨.refl seen, fun _ => hseen⟩
      · rw [if_neg hseen]
        have hlt := unseen_cons_lt (hnodes a (by simp [hsucc])) hseen
        obtain ⟨hclosed, hmem⟩ := hloop bs (a :: seen) (by omega)
        refine ⟨⟨fun x hx => hclosed.sub (List.mem_cons_of_mem _ hx), ?_⟩,
          fun _ => hclosed.sub List.mem_cons_self⟩
        intro c hc hnew b hedge hb
        by_cases hca : c = a
        · subst hca
          obtain ⟨bs', hbs', hb'⟩ := hedge
          rw [hsucc] at hbs'
          cases hbs'
          exact hmem b hb' hb
        · exact hclosed.closed c hc (by simp [hca, hnew]) b hedge hb

/-- **Everything reachable is seen.** -/
theorem mem_visit_of_reaches (hnodes : ∀ a, (succ a).isSome → a ∈ nodes) {fuel : Nat}
    (hfuel : nodes.length < fuel) {a b : α} (ha : (succ a).isSome)
    (h : Relation.ReflTransGen (Edge succ) a b) (hb : (succ b).isSome) :
    b ∈ visit succ fuel a [] := by
  have hunseen : unseen nodes [] < fuel := Nat.lt_of_le_of_lt (List.length_filter_le _ _) hfuel
  obtain ⟨hclosed, hmem⟩ := visit_spec hnodes fuel a [] hunseen
  induction h with
  | refl => exact hmem ha
  | tail _ hedge ih =>
    obtain ⟨bs, hbs, -⟩ := id hedge
    exact hclosed.closed _ (ih (by simp [hbs])) (by simp) _ hedge hb

/-- **Nothing else is seen.** -/
theorem reaches_of_mem_visit {b : α} : ∀ (fuel : Nat) (a : α) (seen : List α),
    b ∈ visit succ fuel a seen → b ∈ seen ∨ Relation.ReflTransGen (Edge succ) a b := by
  intro fuel
  induction fuel with
  | zero => exact fun a seen h => .inl h
  | succ fuel ih =>
    intro a seen h
    have hloop : ∀ (bs seen : List α), b ∈ bs.foldl (fun seen b => visit succ fuel b seen) seen →
        b ∈ seen ∨ ∃ c ∈ bs, Relation.ReflTransGen (Edge succ) c b := by
      intro bs
      induction bs with
      | nil => exact fun seen h => .inl h
      | cons c bs ihbs =>
        intro seen h
        rcases ihbs _ h with h | ⟨d, hd, hreach⟩
        · exact (ih c seen h).imp_right fun hreach => ⟨c, List.mem_cons_self, hreach⟩
        · exact .inr ⟨d, List.mem_cons_of_mem _ hd, hreach⟩
    unfold visit at h
    split at h
    · exact .inl h
    · rename_i bs hbs
      split at h
      · exact .inl h
      · rcases hloop bs _ h with h | ⟨c, hc, hreach⟩
        · rcases List.mem_cons.mp h with rfl | h
          · exact .inr .refl
          · exact .inl h
        · exact .inr (.head ⟨bs, hbs, hc⟩ hreach)

end

end Search
