/-
Giri.Lib.VectorClock — vector clocks as finite maps from processes to
counters, with the three operations every happens-before tracker is built
from: read a component, advance one component, take the pointwise maximum.

An absent entry reads as zero. A clock is compared through `Clock.get`, as
a function `G → Nat` under the pointwise order: "the clock `d` dominates
the clock `c`" is `c.get ≤ d.get`, and merging is the supremum
(`Clock.get_merge`), so the order lemmas used below are the library's own.

The map itself stays visible (it is an association list without duplicate
keys) because one client distinguishes the empty clock from a clock whose
entries are all zero.
-/
import Mathlib.Data.List.AList
import Mathlib.Order.Lattice
import Mathlib.Order.Nat

namespace VectorClock

variable {G : Type} [DecidableEq G]

/-- A vector clock over the processes `G`. -/
abbrev Clock (G : Type) : Type := AList fun _ : G => Nat

namespace Clock

variable (c : Clock G) (a g : G)

/-- Component `g` of a clock; zero when there is no entry. -/
def get : Nat := (c.lookup g).getD 0

/-- Advance component `g` by one. -/
def tick : Clock G := c.insert g (c.get g + 1)

/-- One iteration of the merge loop: raise the entry if it is smaller. -/
def raise (e : (_ : G) × Nat) : Clock G :=
  if c.get e.1 < e.2 then c.insert e.1 e.2 else c

/-- The pointwise maximum of `c` and `src`, by a loop over `src`. -/
def merge (src : Clock G) : Clock G := src.entries.foldl raise c

/-- The clock of a process that has just started. -/
def start : Clock G := AList.singleton g 1

/-! ## Components of the operations -/

theorem get_insert (t : Nat) (g : G) : get (c.insert a t) g = if g = a then t else c.get g := by
  by_cases h : g = a
  · subst h; simp [get]
  · simp [get, AList.lookup_insert_ne h, h]

theorem get_tick : (c.tick a).get g = if g = a then c.get a + 1 else c.get g := by
  rw [tick, get_insert]

theorem get_start : (start a).get g = if g = a then 1 else 0 := by
  rw [start, ← AList.insert_empty, get_insert]
  rfl

theorem get_raise (e : (_ : G) × Nat) (g : G) :
    (c.raise e).get g = if g = e.1 then max (c.get g) e.2 else c.get g := by
  unfold raise
  by_cases hg : g = e.1
  · subst hg
    by_cases hlt : c.get e.1 < e.2
    · rw [if_pos hlt, get_insert]; simp; omega
    · rw [if_neg hlt]; simp; omega
  · rw [if_neg hg]
    split
    · rw [get_insert, if_neg hg]
    · rfl

/-- The merge loop, over any entry list without duplicate keys. -/
theorem get_foldl_raise (g : G) : ∀ (es : List ((_ : G) × Nat)) (c : Clock G),
    es.NodupKeys → (es.foldl raise c).get g = max (c.get g) ((es.dlookup g).getD 0)
  | [], c, _ => by simp
  | e :: es, c, hnd => by
    obtain ⟨a, t⟩ := e
    rw [List.nodupKeys_cons] at hnd
    rw [List.foldl_cons, get_foldl_raise g es _ hnd.2, get_raise]
    by_cases hg : g = a
    · subst hg
      -- the tail has no second entry for `g`
      have hnone : es.dlookup g = none := List.dlookup_eq_none.mpr hnd.1
      simp [hnone]
    · have hne : g ≠ (⟨a, t⟩ : (_ : G) × Nat).1 := hg
      rw [List.dlookup_cons_ne _ _ hne]
      simp [hg]

theorem get_merge_apply (s : Clock G) (g : G) : (c.merge s).get g = max (c.get g) (s.get g) :=
  get_foldl_raise g s.entries c s.nodupKeys

/-! ## The pointwise order -/

/-- Merging is the supremum of the two clocks. -/
theorem get_merge (s : Clock G) : (c.merge s).get = c.get ⊔ s.get :=
  funext fun g => get_merge_apply c s g

theorem le_merge_left (s : Clock G) : c.get ≤ (c.merge s).get := by
  rw [get_merge]; exact le_sup_left

theorem le_merge_right (s : Clock G) : s.get ≤ (c.merge s).get := by
  rw [get_merge]; exact le_sup_right

theorem le_tick : c.get ≤ (c.tick a).get := by
  intro g
  rw [get_tick]
  split
  · rename_i h; subst h; exact Nat.le_succ _
  · exact le_refl _

/-! ## Deciding the order from the entries -/

/-- Every entry of `a` is at most the corresponding component of `b`. -/
def leEntries (a b : Clock G) : Bool := a.entries.all fun e => decide (e.2 ≤ b.get e.1)

theorem mem_entries_iff {c : Clock G} {g : G} {t : Nat} :
    (⟨g, t⟩ : (_ : G) × Nat) ∈ c.entries ↔ c.lookup g = some t :=
  (AList.mem_lookup_iff (s := c) (a := g) (b := t)).symm

theorem leEntries_iff {a b : Clock G} : leEntries a b = true ↔ a.get ≤ b.get := by
  simp only [leEntries, List.all_eq_true, decide_eq_true_eq]
  constructor
  · intro h g
    cases hg : a.lookup g with
    | none => simp [get, hg]
    | some t =>
      have := h ⟨g, t⟩ (mem_entries_iff.mpr hg)
      simpa [get, hg] using this
  · rintro h ⟨g, t⟩ he
    have hg := mem_entries_iff.mp he
    have := h g
    simpa [get, hg] using this

end Clock

end VectorClock
