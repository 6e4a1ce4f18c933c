/-
Giri.Lib.History — histories that grow at the end, and what has happened in
them.

A history is a list; entry `n` is `h[n]?`. Appending an entry leaves every
earlier position as it is, so a statement that names positions survives a
step. `occs p h` lists the occurrences of `p` in order, each with its
position: its k-th element is the k-th occurrence, which is how "the k-th
send" is said.
-/
import Mathlib.Data.List.Basic

namespace History

variable {E : Type} {h : List E} {e a : E} {i : Nat}

/-- An entry stays where it is. -/
theorem getElem?_snoc (ha : h[i]? = some a) : (h ++ [e])[i]? = some a := by
  obtain ⟨hlt, -⟩ := List.getElem?_eq_some_iff.mp ha
  rwa [List.getElem?_append_left hlt]

theorem getElem?_last : (h ++ [e])[h.length]? = some e := by simp

theorem lt_of_getElem? (ha : h[i]? = some a) : i < h.length :=
  (List.getElem?_eq_some_iff.mp ha).1

/-- An entry of the longer history is an old one or the new one. -/
theorem of_getElem?_snoc (ha : (h ++ [e])[i]? = some a) :
    h[i]? = some a ∨ (i = h.length ∧ a = e) := by
  rw [List.getElem?_append] at ha
  split at ha
  · exact .inl ha
  · obtain ⟨hlt, heq⟩ := List.getElem?_eq_some_iff.mp ha
    simp only [List.length_singleton] at hlt
    refine .inr ⟨by omega, ?_⟩
    simpa using heq.symm

/-- The entries of the history for which `p` holds, in order, with their
positions. -/
def occs (p : E → Bool) (h : List E) : List (E × Nat) := h.zipIdx.filter fun x => p x.1

variable {p : E → Bool}

@[simp] theorem occs_nil : occs p [] = [] := rfl

theorem occs_snoc (p : E → Bool) (h : List E) (e : E) :
    occs p (h ++ [e]) = occs p h ++ if p e then [(e, h.length)] else [] := by
  unfold occs
  rw [List.zipIdx_append, List.filter_append]
  by_cases hp : p e <;> simp [hp]

theorem occs_snoc_of_not (h : List E) (hp : p e = false) : occs p (h ++ [e]) = occs p h := by
  rw [occs_snoc, hp]
  simp

theorem occs_snoc_of (h : List E) (hp : p e = true) :
    occs p (h ++ [e]) = occs p h ++ [(e, h.length)] := by
  rw [occs_snoc, if_pos hp]

theorem mem_occs {x : E × Nat} : x ∈ occs p h ↔ h[x.2]? = some x.1 ∧ p x.1 = true := by
  unfold occs
  rw [List.mem_filter, List.mem_zipIdx_iff_getElem?]

theorem lt_of_mem_occs {x : E × Nat} (hx : x ∈ occs p h) : x.2 < h.length :=
  lt_of_getElem? (mem_occs.mp hx).1

/-! ## Occurrences by key -/

section Keyed

variable {K : Type} [DecidableEq K] {key : E → Option K} {k k' : K}

/-- The entries with the key `k`. -/
def keyed (key : E → Option K) (k : K) (h : List E) : List (E × Nat) :=
  occs (fun e => key e == some k) h

theorem keyed_snoc (he : key e = some k) :
    keyed key k (h ++ [e]) = keyed key k h ++ [(e, h.length)] :=
  occs_snoc_of h (by simp [he])

theorem keyed_snoc_ne (he : key e ≠ some k) : keyed key k (h ++ [e]) = keyed key k h :=
  occs_snoc_of_not h (by simpa using he)

theorem keyed_snoc_other (he : key e = some k') (hk : k ≠ k') :
    keyed key k (h ++ [e]) = keyed key k h :=
  keyed_snoc_ne fun heq => hk (Option.some.inj (heq.symm.trans he))

theorem keyed_snoc_none (he : key e = none) : keyed key k (h ++ [e]) = keyed key k h :=
  keyed_snoc_ne fun heq => nomatch he.symm.trans heq

theorem mem_keyed {x : E × Nat} : x ∈ keyed key k h ↔ h[x.2]? = some x.1 ∧ key x.1 = some k := by
  rw [keyed, mem_occs, beq_iff_eq]

theorem lt_of_mem_keyed {x : E × Nat} (hx : x ∈ keyed key k h) : x.2 < h.length :=
  lt_of_mem_occs hx

end Keyed

end History
