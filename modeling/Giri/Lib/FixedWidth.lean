/-
Giri.Lib.FixedWidth — machine integers as residues of integers.

A machine word of `n` bits is the residue of an integer: `BitVec.ofInt n`
commutes with the operations of two's complement arithmetic. What an
operation on words computes can so be read off the operation on integers,
for words with and without a sign (`ofInt_tdiv_toInt`, `ofInt_land`, …).

`reduce` is the representative of an integer in `w` bits. On words it is
computed by cutting off the high bits and extending the rest again
(`ofInt_reduce`).
-/
import Mathlib.Algebra.Order.Ring.Int
import Mathlib.Data.Int.Bitwise

namespace FixedWidth

variable {n w : Nat} {a b z : Int}

/-! ## Operations on words -/

theorem getElem_ofInt (z : Int) (i : Nat) (hi : i < n) :
    (BitVec.ofInt n z)[i] = z.testBit i := by
  cases z with
  | ofNat => simp [Int.testBit, BitVec.getElem_eq_testBit_toNat, hi]
  | negSucc =>
    rw [BitVec.ofInt_negSucc_eq_not_ofNat, BitVec.getElem_not]
    simp [Int.testBit, BitVec.getElem_eq_testBit_toNat, hi]

theorem ofInt_land : BitVec.ofInt n (a.land b) = BitVec.ofInt n a &&& BitVec.ofInt n b := by
  ext i hi; simp [getElem_ofInt]

theorem ofInt_lor : BitVec.ofInt n (a.lor b) = BitVec.ofInt n a ||| BitVec.ofInt n b := by
  ext i hi; simp [getElem_ofInt]

theorem ofInt_xor : BitVec.ofInt n (a.xor b) = BitVec.ofInt n a ^^^ BitVec.ofInt n b := by
  ext i hi; simp [getElem_ofInt]

theorem ofInt_ldiff : BitVec.ofInt n (a.ldiff b) = BitVec.ofInt n a &&& ~~~BitVec.ofInt n b := by
  ext i hi; simp [getElem_ofInt]

theorem ofInt_lnot : BitVec.ofInt n a.lnot = ~~~BitVec.ofInt n a := by
  ext i hi; simp [getElem_ofInt]

theorem ofInt_sub : BitVec.ofInt n (a - b) = BitVec.ofInt n a - BitVec.ofInt n b := by
  rw [Int.sub_eq_add_neg, BitVec.ofInt_add, BitVec.ofInt_neg, BitVec.sub_eq_add_neg]

theorem ofInt_tdiv_toInt (x y : BitVec n) :
    BitVec.ofInt n (x.toInt.tdiv y.toInt) = x.sdiv y := by
  refine BitVec.eq_of_toInt_eq ?_
  rw [BitVec.toInt_ofInt, BitVec.toInt_sdiv]

theorem ofInt_tmod_toInt (x y : BitVec n) :
    BitVec.ofInt n (x.toInt.tmod y.toInt) = x.srem y := by
  rw [← BitVec.toInt_srem, BitVec.ofInt_toInt]

theorem ofInt_tdiv_toNat (x y : BitVec n) :
    BitVec.ofInt n ((x.toNat : Int).tdiv y.toNat) = x / y := by
  rw [← Int.ofNat_tdiv, BitVec.ofInt_natCast, ← BitVec.toNat_udiv, BitVec.ofNat_toNat,
    BitVec.setWidth_eq]

theorem ofInt_tmod_toNat (x y : BitVec n) :
    BitVec.ofInt n ((x.toNat : Int).tmod y.toNat) = x % y := by
  rw [← Int.ofNat_tmod, BitVec.ofInt_natCast, ← BitVec.toNat_umod, BitVec.ofNat_toNat,
    BitVec.setWidth_eq]

theorem ofInt_mul_two_pow (k : Nat) :
    BitVec.ofInt n (a * 2 ^ k) = BitVec.ofInt n a <<< k := by
  rw [BitVec.ofInt_mul, BitVec.shiftLeft_eq_mul_twoPow]
  congr 1
  refine BitVec.eq_of_toNat_eq ?_
  rw [BitVec.toNat_twoPow, BitVec.toNat_ofInt]
  norm_cast

theorem ofInt_div_two_pow_toNat (x : BitVec n) (k : Nat) :
    BitVec.ofInt n ((x.toNat : Int) / 2 ^ k) = x >>> k := by
  refine BitVec.eq_of_toNat_eq ?_
  have hcast : (x.toNat : Int) / 2 ^ k = ((x.toNat / 2 ^ k : Nat) : Int) := by norm_cast
  rw [hcast, BitVec.ofInt_natCast, BitVec.toNat_ofNat, BitVec.toNat_ushiftRight,
    Nat.shiftRight_eq_div_pow]
  exact Nat.mod_eq_of_lt ((Nat.div_le_self _ _).trans_lt x.isLt)

theorem ofInt_div_two_pow_toInt (x : BitVec n) (k : Nat) :
    BitVec.ofInt n (x.toInt / 2 ^ k) = x.sshiftRight k := by
  refine BitVec.eq_of_toInt_eq ?_
  rw [BitVec.sshiftRight, Int.shiftRight_eq_div_pow]
  norm_cast

theorem one_le_two_pow_int (k : Nat) : (1 : Int) ≤ 2 ^ k := by
  have := Nat.one_le_two_pow (n := k)
  exact_mod_cast this

/-- A shift to the right keeps a range around zero. -/
theorem div_two_pow_range {m : Int} (k : Nat) (hlo : -m ≤ z) (hhi : z < m) :
    -m ≤ z / 2 ^ k ∧ z / 2 ^ k < m := by
  have hone := one_le_two_pow_int k
  have hm : m ≤ m * 2 ^ k := le_mul_of_one_le_right (by omega) hone
  constructor
  · refine (Int.le_ediv_iff_mul_le (by omega)).mpr ?_
    rw [Int.neg_mul]
    omega
  · exact Int.ediv_lt_of_lt_mul (by omega) (by omega)

/-- A shift by more than the range is as one by the range: only the sign is
left. -/
theorem div_two_pow_saturates {j k : Nat} (hjk : j ≤ k) (hlo : -2 ^ j ≤ z) (hhi : z < 2 ^ j) :
    z / 2 ^ k = z / 2 ^ j := by
  have hle : (2 : Int) ^ j ≤ 2 ^ k := by
    have := Nat.pow_le_pow_right (n := 2) (by decide) hjk
    exact_mod_cast this
  have hone := one_le_two_pow_int j
  rcases lt_or_ge z 0 with hz | hz
  · rw [Int.ediv_eq_neg_one_of_neg_of_le hz (by omega),
      Int.ediv_eq_neg_one_of_neg_of_le hz (by omega)]
  · rw [Int.ediv_eq_zero_of_lt hz (by omega), Int.ediv_eq_zero_of_lt hz hhi]

/-! ## Representatives -/

/-- The integer of `w` bits, signed or not, that is congruent to `z`. -/
def reduce (w : Nat) (signed : Bool) (z : Int) : Int :=
  if signed then z.bmod (2 ^ w) else z % 2 ^ w

/-- A number in the range of `w` signed bits is its own representative. -/
theorem reduce_of_range (hw : 0 < w) (hlo : -2 ^ (w - 1) ≤ z) (hhi : z < 2 ^ (w - 1)) :
    reduce w true z = z := by
  obtain ⟨m, rfl⟩ : ∃ m, w = m + 1 := ⟨w - 1, by omega⟩
  rw [Nat.add_sub_cancel] at hlo hhi
  have hcast : ((2 ^ (m + 1) : Nat) : Int) = 2 * 2 ^ m := by rw [Nat.pow_succ']; norm_cast
  rw [reduce, if_pos rfl]
  exact Int.bmod_eq_of_le (by rw [hcast]; omega) (by rw [hcast]; omega)

/-- Representatives are in the range. -/
theorem reduce_signed_range (hw : 0 < w) (z : Int) :
    -2 ^ (w - 1) ≤ reduce w true z ∧ reduce w true z < 2 ^ (w - 1) := by
  obtain ⟨m, rfl⟩ : ∃ m, w = m + 1 := ⟨w - 1, by omega⟩
  rw [Nat.add_sub_cancel, reduce, if_pos rfl]
  have hcast : ((2 ^ (m + 1) : Nat) : Int) = 2 * 2 ^ m := by rw [Nat.pow_succ']; norm_cast
  have hlo := Int.le_bmod (x := z) (Nat.two_pow_pos (m + 1))
  have hhi := Int.bmod_lt (x := z) (Nat.two_pow_pos (m + 1))
  rw [hcast] at hlo hhi
  omega

theorem reduce_unsigned_range (w : Nat) (z : Int) :
    0 ≤ reduce w false z ∧ reduce w false z < 2 ^ w := by
  have hone := one_le_two_pow_int w
  rw [reduce, if_neg (by decide)]
  exact ⟨Int.emod_nonneg z (by omega), Int.emod_lt_of_pos z (by omega)⟩

theorem reduce_reduce (w : Nat) (signed : Bool) (z : Int) :
    reduce w signed (reduce w signed z) = reduce w signed z := by
  unfold reduce
  split
  · exact Int.bmod_bmod
  · exact Int.emod_emod_of_dvd z (dvd_refl _)

/-- Multiples of `2 ^ w` are congruent to zero. -/
theorem reduce_of_dvd (signed : Bool) (h : (2 : Int) ^ w ∣ z) : reduce w signed z = 0 := by
  unfold reduce
  split
  · exact Int.bmod_eq_zero_of_dvd (by exact_mod_cast h)
  · exact Int.emod_eq_zero_of_dvd h

/-- Cut to `w` bits and extended again. -/
def extend (w : Nat) (signed : Bool) (x : BitVec n) : BitVec n :=
  if signed then (x.setWidth w).signExtend n else (x.setWidth w).setWidth n

theorem setWidth_ofInt (h : w ≤ n) : (BitVec.ofInt n z).setWidth w = BitVec.ofInt w z := by
  ext i hi
  rw [BitVec.getElem_setWidth, getElem_ofInt, BitVec.getLsbD_eq_getElem (hi.trans_le h),
    getElem_ofInt]

theorem ofInt_reduce (h : w ≤ n) (signed : Bool) (z : Int) :
    BitVec.ofInt n (reduce w signed z) = extend w signed (BitVec.ofInt n z) := by
  unfold reduce extend
  rw [setWidth_ofInt h]
  cases signed with
  | true => rw [if_pos rfl, if_pos rfl, BitVec.signExtend, BitVec.toInt_ofInt]
  | false =>
    have hpow : ((2 ^ w : Nat) : Int) = 2 ^ w := by norm_cast
    have hpos : (0 : Int) ≤ z % ((2 ^ w : Nat) : Int) :=
      Int.emod_nonneg z (Int.natCast_ne_zero.mpr (Nat.two_pow_pos w).ne')
    rw [if_neg (by decide), if_neg (by decide), ← BitVec.ofNat_toNat, BitVec.toNat_ofInt,
      ← BitVec.ofInt_natCast, Int.toNat_of_nonneg hpos, hpow]

/-- A word stands for the representative it was made of. -/
theorem toInt_ofInt_reduce (hw : 0 < w) (h : w ≤ n) (z : Int) :
    (BitVec.ofInt n (reduce w true z)).toInt = reduce w true z := by
  obtain ⟨hlo, hhi⟩ := reduce_signed_range hw z
  have hle : (2 : Int) ^ (w - 1) ≤ 2 ^ (n - 1) := by
    have := Nat.pow_le_pow_right (n := 2) (by decide) (Nat.sub_le_sub_right h 1)
    exact_mod_cast this
  exact BitVec.toInt_ofInt_eq_self (by omega) (by omega) (by omega)

theorem toNat_ofInt_reduce (h : w ≤ n) (z : Int) :
    ((BitVec.ofInt n (reduce w false z)).toNat : Int) = reduce w false z := by
  obtain ⟨hlo, hhi⟩ := reduce_unsigned_range w z
  have hle : (2 : Int) ^ w ≤ ((2 ^ n : Nat) : Int) := by
    have := Nat.pow_le_pow_right (n := 2) (by decide) h
    exact_mod_cast this
  rw [BitVec.toNat_ofInt, Int.emod_eq_of_lt hlo (by omega), Int.toNat_of_nonneg hlo]

end FixedWidth
