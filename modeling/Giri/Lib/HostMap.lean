/-
Giri.Lib.HostMap — loops over maps whose iteration order is not specified.

A map is an association list without duplicate keys; which order its entries
are listed in means nothing. A loop over a map visits them in an order that
the HOST chooses anew for every loop. Two maps are the same if one is a
permutation of the other, and a loop body is harmless if two hosts lead to
the same map, or to equal results.

The sort at the end is the host's stable sort of a short list: insertion
from the right. With a comparison that is a linear order on the elements the
result is determined by the set; with any other one it is not.
-/
import Mathlib.Data.List.AList

namespace HostMap

/-- The choices of a host: the order in which the `n`-th loop visits the
entries of a map. -/
structure Host where
  order : Nat → ∀ {α : Type}, List α → List α
  perm : ∀ (n : Nat) {α : Type} (l : List α), (order n l).Perm l

/-- The host that visits the entries as they are listed. -/
def Host.listed : Host := ⟨fun _ _ l => l, fun _ _ l => .refl l⟩

/-- The host that visits them from the last to the first. -/
def Host.reversed : Host := ⟨fun _ _ l => l.reverse, fun _ _ l => l.reverse_perm⟩

namespace Host

variable {α : Type} (h h' : Host) (n n' : Nat) {l l' : List α}

/-- Two loops over the same entries. -/
theorem order_perm (hl : l.Perm l') : (h.order n l).Perm (h'.order n' l') :=
  (h.perm n l).trans (hl.trans (h'.perm n' l').symm)

/-- There is one order for at most one entry. -/
theorem eq_of_perm_of_length_le_one (hl : l.Perm l') (hlen : l.length ≤ 1) : l' = l := by
  match l, hlen with
  | [], _ => exact List.perm_nil.mp hl.symm
  | [a], _ => exact List.perm_singleton.mp hl.symm

end Host

/-! ## Maps -/

section Maps

variable {κ : Type} {β : Type} [DecidableEq κ] {s t : AList fun _ : κ => β}

omit [DecidableEq κ] in
theorem keys_perm (h : s.entries.Perm t.entries) : s.keys.Perm t.keys := h.map Sigma.fst

/-- Maps with equal lookups are the same. -/
theorem perm_of_lookup (h : ∀ k, s.lookup k = t.lookup k) : s.entries.Perm t.entries :=
  List.lookup_ext s.nodupKeys t.nodupKeys fun k v => by
    have hk : s.entries.dlookup k = t.entries.dlookup k := h k
    rw [hk]

/-- A loop over `l` that gives each of its keys a new value in `s`, from the
old one and the value in `l`, or leaves it as it is. -/
def updateAll {γ : Type} (f : Option β → γ → Option β) (s : AList fun _ : κ => β)
    (l : List ((_ : κ) × γ)) : AList fun _ : κ => β :=
  l.foldl (fun s e =>
    match f (s.lookup e.1) e.2 with
    | some v => s.insert e.1 v
    | none => s) s

/-- `for k := range l { delete(s, k) }`. -/
def eraseAll (s : AList fun _ : κ => β) (l : List κ) : AList fun _ : κ => β :=
  l.foldl (fun s k => s.erase k) s

theorem lookup_updateAll {γ : Type} (f : Option β → γ → Option β) (l : List ((_ : κ) × γ))
    (hl : l.NodupKeys) (k : κ) : ∀ s : AList fun _ : κ => β,
      (updateAll f s l).lookup k =
        ((l.dlookup k).bind (f (s.lookup k))).or (s.lookup k) := by
  induction l with
  | nil => intro s; rfl
  | cons e l ih =>
    intro s
    obtain ⟨hnot, hl⟩ := List.nodupKeys_cons.mp hl
    have hstep : updateAll f s (e :: l) =
        updateAll f (match f (s.lookup e.1) e.2 with
          | some v => s.insert e.1 v
          | none => s) l := rfl
    rw [hstep, ih hl]
    by_cases hk : k = e.1
    · subst hk
      rw [List.dlookup_eq_none.mpr hnot, List.dlookup_cons_eq]
      cases hf : f (s.lookup e.1) e.2 <;> simp [hf]
    · rw [List.dlookup_cons_ne _ _ hk]
      cases f (s.lookup e.1) e.2 <;> simp [AList.lookup_insert_ne hk]

theorem lookup_eraseAll (l : List κ) (k : κ) : ∀ s : AList fun _ : κ => β,
    (eraseAll s l).lookup k = if k ∈ l then none else s.lookup k := by
  induction l with
  | nil => intro s; simp [eraseAll]
  | cons a l ih =>
    intro s
    have hstep : eraseAll s (a :: l) = eraseAll (s.erase a) l := rfl
    rw [hstep, ih]
    by_cases hk : k = a
    · subst hk
      simp
    · simp [hk, AList.lookup_erase_ne hk]

/-- Updates in any order. -/
theorem updateAll_perm {γ : Type} (f : Option β → γ → Option β) (h : s.entries.Perm t.entries)
    {l l' : List ((_ : κ) × γ)} (hnd : l.NodupKeys) (hl : l.Perm l') :
    (updateAll f s l).entries.Perm (updateAll f t l').entries := by
  refine perm_of_lookup fun k => ?_
  rw [lookup_updateAll f l hnd, lookup_updateAll f l' ((List.perm_nodupKeys hl).mp hnd),
    List.perm_dlookup k hnd hl, AList.perm_lookup h]

/-- Deletions in any order. -/
theorem eraseAll_perm (h : s.entries.Perm t.entries) {l l' : List κ} (hl : l.Perm l') :
    (eraseAll s l).entries.Perm (eraseAll t l').entries := by
  refine perm_of_lookup fun k => ?_
  rw [lookup_eraseAll, lookup_eraseAll, AList.perm_lookup h]
  simp only [hl.mem_iff]

end Maps

/-! ## Sorting -/

section Sorting

variable {α : Type} (less : α → α → Bool)

/-- Insert an element at the right end of a sorted prefix and move it to the
left while it is less than its neighbour. The prefix is listed from the right. -/
def insertBack (x : α) : List α → List α
  | [] => [x]
  | y :: ys => if less x y then y :: insertBack x ys else x :: y :: ys

/-- The stable sort of the host, for short lists. -/
def sortStable (l : List α) : List α :=
  (l.foldl (fun acc x => insertBack less x acc) []).reverse

theorem insertBack_perm (x : α) (l : List α) : (insertBack less x l).Perm (x :: l) := by
  induction l with
  | nil => exact .refl _
  | cons y ys ih =>
    unfold insertBack
    split
    · exact (ih.cons y).trans (.swap x y ys)
    · exact .refl _

theorem sortStable_perm (l : List α) : (sortStable less l).Perm l := by
  have hfold : ∀ (l acc : List α),
      (l.foldl (fun acc x => insertBack less x acc) acc).Perm (acc ++ l) := by
    intro l
    induction l with
    | nil => intro acc; simp
    | cons x l ih =>
      intro acc
      refine (ih _).trans (((insertBack_perm less x acc).append_right l).trans ?_)
      exact List.perm_middle.symm
  exact (List.reverse_perm _).trans (hfold l [])

variable {less}

/-- On the elements of a set `p`, the comparison is a linear order. -/
structure Linear (less : α → α → Bool) (p : α → Prop) : Prop where
  asymm : ∀ a b, p a → p b → less a b = true → less b a = false
  trans : ∀ a b c, p a → p b → p c → less a b = false → less b c = false → less a c = false
  total : ∀ a b, p a → p b → less a b = false → less b a = false → a = b

variable {p : α → Prop}

/-- The prefix stays sorted. -/
theorem insertBack_sorted (hless : Linear less p) {x : α} (hx : p x) {l : List α}
    (hp : ∀ a ∈ l, p a) (hl : l.Pairwise fun a b => less a b = false) :
    (insertBack less x l).Pairwise fun a b => less a b = false := by
  induction l with
  | nil => exact List.pairwise_singleton _ _
  | cons y ys ih =>
    obtain ⟨hy, hys⟩ := List.pairwise_cons.mp hl
    have hpy : p y := hp y List.mem_cons_self
    have hpys : ∀ a ∈ ys, p a := fun a ha => hp a (List.mem_cons_of_mem _ ha)
    unfold insertBack
    split
    · rename_i hlt
      refine List.pairwise_cons.mpr ⟨fun b hb => ?_, ih hpys hys⟩
      rcases List.mem_cons.mp ((insertBack_perm less x ys).mem_iff.mp hb) with rfl | hb
      · exact hless.asymm _ _ hx hpy hlt
      · exact hy b hb
    · rename_i hlt
      have hxy : less x y = false := by simpa using hlt
      refine List.pairwise_cons.mpr ⟨fun b hb => ?_, hl⟩
      rcases List.mem_cons.mp hb with rfl | hb
      · exact hxy
      · exact hless.trans x y b hx hpy (hpys b hb) hxy (hy b hb)

theorem sortStable_sorted (hless : Linear less p) {l : List α} (hp : ∀ a ∈ l, p a) :
    (sortStable less l).Pairwise fun a b => less b a = false := by
  have hfold : ∀ (l acc : List α), (∀ a ∈ l, p a) → (∀ a ∈ acc, p a) →
      (acc.Pairwise fun a b => less a b = false) →
      (l.foldl (fun acc x => insertBack less x acc) acc).Pairwise
        fun a b => less a b = false := by
    intro l
    induction l with
    | nil => intro acc _ _ h; exact h
    | cons x l ih =>
      intro acc hl hacc h
      have hx := hl x List.mem_cons_self
      refine ih _ (fun a ha => hl a (List.mem_cons_of_mem _ ha)) (fun a ha => ?_)
        (insertBack_sorted hless hx hacc h)
      rcases List.mem_cons.mp ((insertBack_perm less x acc).mem_iff.mp ha) with rfl | ha
      · exact hx
      · exact hacc a ha
  unfold sortStable
  rw [List.pairwise_reverse]
  exact hfold l [] hp (by simp) List.Pairwise.nil

/-- **Sorted keys don't depend on the order they came in.** -/
theorem sortStable_eq_of_perm (hless : Linear less p) {l l' : List α} (hp : ∀ a ∈ l, p a)
    (hl : l.Perm l') : sortStable less l = sortStable less l' := by
  have hp' : ∀ a ∈ l', p a := fun a ha => hp a (hl.mem_iff.mpr ha)
  have hperm := (sortStable_perm less l).trans (hl.trans (sortStable_perm less l').symm)
  refine hperm.eq_of_pairwise (fun a b ha hb hba hab => ?_) (sortStable_sorted hless hp)
    (sortStable_sorted hless hp')
  have hpa := hp a ((sortStable_perm less l).mem_iff.mp ha)
  have hpb := hp' b ((sortStable_perm less l').mem_iff.mp hb)
  exact hless.total a b hpa hpb hab hba

end Sorting

end HostMap
