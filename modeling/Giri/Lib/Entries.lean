/-
Giri.Lib.Entries — maps as lists of entries, for a key equality that need not
be reflexive.

The keys of a hash map are compared by an equality `eq` of the host
language, under which a key may differ from itself (a NaN). Such a key can
be entered any number of times, and is never found or removed.

RELABELLING: if `f` carries one key equality over to another, then every
operation commutes with replacing the keys by `f` (`find_relabel` and its
like). It is enough that `f` does so for the keys that occur.
-/
import Mathlib.Data.List.Basic

namespace Entries

variable {κ κ' β : Type}

/-- The value of a key. -/
def find (eq : κ → κ → Bool) (k : κ) (l : List (κ × β)) : Option β :=
  (l.find? fun e => eq e.1 k).map Prod.snd

/-- Enter a key, or replace the entry that it finds. -/
def insert (eq : κ → κ → Bool) (k : κ) (v : β) (l : List (κ × β)) : List (κ × β) :=
  if l.any fun e => eq e.1 k then l.map fun e => if eq e.1 k then (k, v) else e
  else l ++ [(k, v)]

/-- Remove a key. -/
def erase (eq : κ → κ → Bool) (k : κ) (l : List (κ × β)) : List (κ × β) :=
  l.filter fun e => !eq e.1 k

/-- Remove the keys that are there, one after the other. -/
def eraseAll (eq : κ → κ → Bool) (l : List (κ × β)) : List (κ × β) :=
  (l.map Prod.fst).foldl (fun l k => erase eq k l) l

/-- Replace the keys. -/
def relabel (f : κ → κ') (l : List (κ × β)) : List (κ' × β) :=
  l.map fun e => (f e.1, e.2)

section

variable {eq : κ → κ → Bool} {eq' : κ' → κ' → Bool} {f : κ → κ'} {P : κ → Prop}

/-- `f` carries `eq` over to `eq'`, for keys in `P`. -/
def Carries (eq : κ → κ → Bool) (eq' : κ' → κ' → Bool) (f : κ → κ') (P : κ → Prop) : Prop :=
  ∀ a b, P a → P b → eq' (f a) (f b) = eq a b

theorem find_relabel (hf : Carries eq eq' f P) {k : κ} (hk : P k) :
    ∀ {l : List (κ × β)}, (∀ e ∈ l, P e.1) → find eq' (f k) (relabel f l) = find eq k l := by
  intro l
  induction l with
  | nil => exact fun _ => rfl
  | cons e l ih =>
    intro hl
    have hhead := hf e.1 k (hl e List.mem_cons_self) hk
    have htail := ih fun e' he' => hl e' (List.mem_cons_of_mem _ he')
    simp only [find, relabel, List.map_cons, List.find?_cons, hhead] at htail ⊢
    cases eq e.1 k with
    | true => rfl
    | false => exact htail

theorem any_relabel (hf : Carries eq eq' f P) {k : κ} (hk : P k) :
    ∀ {l : List (κ × β)}, (∀ e ∈ l, P e.1) →
      ((relabel f l).any fun e => eq' e.1 (f k)) = l.any fun e => eq e.1 k := by
  intro l
  induction l with
  | nil => exact fun _ => rfl
  | cons e l ih =>
    intro hl
    have hhead := hf e.1 k (hl e List.mem_cons_self) hk
    have htail := ih fun e' he' => hl e' (List.mem_cons_of_mem _ he')
    simp only [relabel, List.map_cons, List.any_cons, hhead] at htail ⊢
    rw [htail]

theorem insert_relabel (hf : Carries eq eq' f P) {k : κ} (hk : P k) (v : β) {l : List (κ × β)}
    (hl : ∀ e ∈ l, P e.1) :
    insert eq' (f k) v (relabel f l) = relabel f (insert eq k v l) := by
  unfold insert
  rw [any_relabel hf hk hl]
  split
  · simp only [relabel, List.map_map]
    refine List.map_congr_left ?_
    intro e he
    simp only [Function.comp_apply, hf e.1 k (hl e he) hk]
    split <;> rfl
  · simp [relabel]

theorem erase_relabel (hf : Carries eq eq' f P) {k : κ} (hk : P k) {l : List (κ × β)}
    (hl : ∀ e ∈ l, P e.1) : erase eq' (f k) (relabel f l) = relabel f (erase eq k l) := by
  unfold erase relabel
  rw [List.filter_map]
  refine congrArg (List.map _) (List.filter_congr ?_)
  intro e he
  simp only [Function.comp_apply, hf e.1 k (hl e he) hk]

/-- The keys of a map after an operation. -/
theorem mem_insert {k : κ} {v : β} {l : List (κ × β)} {e : κ × β} (h : e ∈ insert eq k v l) :
    e ∈ l ∨ e = (k, v) := by
  unfold insert at h
  split at h
  · obtain ⟨e', he', rfl⟩ := List.mem_map.mp h
    split
    · exact .inr rfl
    · exact .inl he'
  · simpa using h

theorem mem_of_mem_erase {k : κ} {l : List (κ × β)} {e : κ × β} (h : e ∈ erase eq k l) : e ∈ l :=
  (List.mem_filter.mp h).1

theorem mem_foldl_erase {ks : List κ} : ∀ {l : List (κ × β)} {e : κ × β},
    e ∈ ks.foldl (fun l k => erase eq k l) l → e ∈ l ∧ ∀ k ∈ ks, eq e.1 k = false := by
  induction ks with
  | nil => exact fun h => ⟨h, nofun⟩
  | cons k ks ih =>
    intro l e h
    obtain ⟨hmem, hks⟩ := ih h
    obtain ⟨hl, hk⟩ := List.mem_filter.mp hmem
    refine ⟨hl, ?_⟩
    intro k' hk'
    rcases List.mem_cons.mp hk' with rfl | hk'
    · simpa using hk
    · exact hks k' hk'

/-- **Removing key by key empties the map**, if its keys equal themselves. -/
theorem eraseAll_eq_nil {l : List (κ × β)} (h : ∀ e ∈ l, eq e.1 e.1 = true) :
    eraseAll eq l = [] := by
  refine List.eq_nil_iff_forall_not_mem.mpr ?_
  intro e he
  obtain ⟨hl, hkeys⟩ := mem_foldl_erase he
  have hself := hkeys e.1 (List.mem_map_of_mem hl)
  rw [h e hl] at hself
  cases hself

end

end Entries
