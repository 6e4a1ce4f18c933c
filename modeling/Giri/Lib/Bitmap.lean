/-
Giri.Lib.Bitmap — a set of numbers, packed into words.

The number `b` is the bit `b % w` of the word `b / w`. A bitmap of `n` words
holds numbers below `n * w`; inserting any other changes nothing.
-/
import Mathlib.Data.List.Basic

namespace Bitmap

variable {w : Nat}

/-- The bit of a number. -/
def mem (words : List (BitVec w)) (b : Nat) : Bool :=
  match words[b / w]? with
  | some word => word.getLsbD (b % w)
  | none => false

/-- `words[b / w] |= 1 << (b % w)`. -/
def insert (words : List (BitVec w)) (b : Nat) : List (BitVec w) :=
  words.modify (b / w) (· ||| BitVec.twoPow w (b % w))

@[simp] theorem length_insert (words : List (BitVec w)) (b : Nat) :
    (insert words b).length = words.length := by
  simp [insert]

@[simp] theorem mem_replicate_zero (n b : Nat) :
    mem (List.replicate n (0 : BitVec w)) b = false := by
  unfold mem
  rw [List.getElem?_replicate]
  split
  · rename_i word h
    split at h
    · cases h
      simp
    · cases h
  · rfl

/-- Where a number is in its word is all there is to say of a word. -/
theorem eq_iff_div_mod {b c : Nat} : b = c ↔ b / w = c / w ∧ b % w = c % w := by
  constructor
  · rintro rfl
    exact ⟨rfl, rfl⟩
  · rintro ⟨hdiv, hmod⟩
    rw [← Nat.div_add_mod b w, ← Nat.div_add_mod c w, hdiv, hmod]

/-- **Inserting a number adds it and no other.** -/
theorem mem_insert (hw : 0 < w) (words : List (BitVec w)) (b c : Nat) :
    mem (insert words b) c = (mem words c || decide (c = b ∧ b / w < words.length)) := by
  have hc : c % w < w := Nat.mod_lt c hw
  unfold mem insert
  rw [List.getElem?_modify]
  by_cases hdiv : b / w = c / w
  · cases hword : words[c / w]? with
    | none =>
      have hlen : words.length ≤ c / w := List.getElem?_eq_none_iff.mp hword
      simp [hdiv, Nat.not_lt.mpr hlen]
    | some =>
      have hlen : c / w < words.length := (List.getElem?_eq_some_iff.mp hword).1
      have hiff : c = b ↔ c % w = b % w := by simp [eq_iff_div_mod (w := w) (b := c), hdiv]
      simp [hdiv, hlen, hiff, hc, eq_comm]
  · have hne : c ≠ b := fun h => hdiv (by rw [h])
    simp [hdiv, hne]

/-- A word has a bit iff it has something in common with that power of two. -/
theorem and_twoPow_eq_zero {word : BitVec w} {k : Nat} (hk : k < w) :
    word &&& BitVec.twoPow w k = 0#w ↔ word.getLsbD k = false := by
  have hne : BitVec.twoPow w k ≠ 0#w := by
    intro hzero
    have hbit := congrArg (·.getLsbD k) hzero
    simp [hk] at hbit
  rw [BitVec.and_twoPow]
  cases hbit : word.getLsbD k <;> simp [hne]

end Bitmap
