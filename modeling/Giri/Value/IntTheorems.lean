/-
Giri.Value.IntTheorems — typed integer operations are Go's.

What Go computes is said over the integers (`goBinOp`): sum, truncated
quotient, the bits of two's complement, floor of a shift. The result of a
fixed-width operation is the number of its type that is congruent to it
(`canon`). A word stands for a number by its type (`value`), and an integer
is held in CANONICAL form: the word is the sign or zero extension of its low
bits.

The proofs go through `Lib/FixedWidth.lean`: every word is the residue of
its value, so an operation on words is the residue of the operation on
values, and `wrap` picks the representative. Only the operations that do
not wrap (`&`, `|`, signed `>>`) use that the operands are canonical.
-/
import Giri.Lib.FixedWidth
import Giri.Value.Int

namespace Giri.Value

open FixedWidth

/-! ## §1. What the operations should compute -/

/-- The result of an operation in Go, before it is cut to a width. -/
inductive GoResult where
  | int (z : Int)
  | bool (b : Bool)

/-- Go's operators, on integers. -/
def goBinOp (op : Token) (a b : Int) : GoResult :=
  match op with
  | .add => .int (a + b)
  | .sub => .int (a - b)
  | .mul => .int (a * b)
  | .quo => .int (a.tdiv b)
  | .rem => .int (a.tmod b)
  | .and => .int (a.land b)
  | .or => .int (a.lor b)
  | .xor => .int (a.xor b)
  | .andNot => .int (a.ldiff b)
  | .shl => .int (a * 2 ^ b.toNat)
  | .shr => .int (a / 2 ^ b.toNat)
  | .eql => .bool (a = b)
  | .neq => .bool (a ≠ b)
  | .lss => .bool (a < b)
  | .leq => .bool (a ≤ b)
  | .gtr => .bool (b < a)
  | .geq => .bool (b ≤ a)

/-- Go's unary operators, on integers. -/
def goUnOp (op : UnToken) (a : Int) : Int :=
  match op with
  | .sub => -a
  | .xor => a.lnot

namespace IntKind

/-- The number that a word of this kind stands for. -/
def value (k : IntKind) (v : BitVec 64) : Int := if k.unsigned then v.toNat else v.toInt

/-- The number of this kind that is congruent to `z`, as a word. -/
def canon (k : IntKind) (z : Int) : BitVec 64 :=
  BitVec.ofInt 64 (reduce k.bits (!k.unsigned) z)

/-- The word is the sign or zero extension of its low bits. -/
def Canonical (k : IntKind) (v : BitVec 64) : Prop := v = extend k.bits (!k.unsigned) v

instance (k : IntKind) (v : BitVec 64) : Decidable (k.Canonical v) :=
  inferInstanceAs (Decidable (v = _))

/-- The kinds of Go's integer types. -/
def Valid (k : IntKind) : Prop := k.bits = 8 ∨ k.bits = 16 ∨ k.bits = 32 ∨ k.bits = 64

end IntKind

/-- The result as the interpreter holds it. -/
def GoResult.rep (k : IntKind) : GoResult → Scalar
  | .int z => .int (k.canon z)
  | .bool b => .bool b

/-! ## §2. Words and their values -/

section Words

variable {k : IntKind} {x y : BitVec 64} {z : Int}

theorem basicIntKind_valid {t : GoType} (h : basicIntKind t = some k) : k.Valid := by
  unfold basicIntKind at h
  split at h
  · split at h
    · rename_i b _ hb
      cases b <;> simp [BasicKind.isInteger] at hb <;> cases h <;> simp [IntKind.Valid]
    · cases h
  · cases h

namespace IntKind

theorem Valid.le (h : k.Valid) : k.bits ≤ 64 := by
  unfold Valid at h; omega

theorem Valid.pos (h : k.Valid) : 0 < k.bits := by
  unfold Valid at h; omega

theorem wrap_eq_extend (h : k.Valid) (v : BitVec 64) :
    k.wrap v = extend k.bits (!k.unsigned) v := by
  obtain ⟨bits, unsigned⟩ := k
  simp only [Valid] at h
  rcases h with rfl | rfl | rfl | rfl <;> cases unsigned <;> simp [wrap, extend]

theorem canon_eq_wrap (h : k.Valid) (z : Int) : k.canon z = k.wrap (BitVec.ofInt 64 z) := by
  rw [canon, ofInt_reduce h.le, wrap_eq_extend h]

/-- A word is the residue of its value. -/
theorem ofInt_value (k : IntKind) (v : BitVec 64) : BitVec.ofInt 64 (k.value v) = v := by
  unfold value
  split
  · rw [BitVec.ofInt_natCast, BitVec.ofNat_toNat, BitVec.setWidth_eq]
  · exact BitVec.ofInt_toInt

theorem value_unsigned (h : k.unsigned = true) : k.value x = x.toNat := by simp [value, h]

theorem value_signed (h : k.unsigned = false) : k.value x = x.toInt := by simp [value, h]

/-- The value of a canonical signed word is in the range of its kind. -/
theorem Canonical.signed_range (hk : k.Valid) (hs : k.unsigned = false) (hx : k.Canonical x) :
    -2 ^ (k.bits - 1) ≤ x.toInt ∧ x.toInt < 2 ^ (k.bits - 1) := by
  have hext : x = (x.setWidth k.bits).signExtend 64 := by
    simpa [Canonical, extend, hs] using hx
  have hint : x.toInt = (x.setWidth k.bits).toInt := by
    conv => lhs; rw [hext]
    exact BitVec.toInt_signExtend_of_le hk.le
  rw [hint]
  exact ⟨BitVec.le_toInt _, BitVec.toInt_lt⟩

/-- A number in the range of a signed kind is its own representative. -/
theorem canon_of_range (hk : k.Valid) (hs : k.unsigned = false) (hlo : -2 ^ (k.bits - 1) ≤ z)
    (hhi : z < 2 ^ (k.bits - 1)) : k.canon z = BitVec.ofInt 64 z := by
  rw [canon, hs, Bool.not_false, reduce_of_range hk.pos hlo hhi]

/-- What the operations return is canonical. -/
theorem canonical_canon (hk : k.Valid) (z : Int) : k.Canonical (k.canon z) := by
  rw [Canonical, canon, ← ofInt_reduce hk.le, reduce_reduce]

/-- It stands for the representative of its kind. -/
theorem value_canon (hk : k.Valid) (z : Int) :
    k.value (k.canon z) = reduce k.bits (!k.unsigned) z := by
  cases hu : k.unsigned with
  | true => rw [value_unsigned hu, canon, hu]; exact toNat_ofInt_reduce hk.le z
  | false => rw [value_signed hu, canon, hu]; exact toInt_ofInt_reduce hk.pos hk.le z

theorem canon_zero (k : IntKind) : k.canon 0 = 0 := by
  simp [canon, reduce]

/-! ## §3. The operations -/

theorem wrap_sdiv (hk : k.Valid) (hs : k.unsigned = false) (x y : BitVec 64) :
    k.wrap (x.sdiv y) = k.canon ((k.value x).tdiv (k.value y)) := by
  rw [value_signed hs, value_signed hs, canon_eq_wrap hk, ofInt_tdiv_toInt]

theorem wrap_srem (hk : k.Valid) (hs : k.unsigned = false) (x y : BitVec 64) :
    k.wrap (x.srem y) = k.canon ((k.value x).tmod (k.value y)) := by
  rw [value_signed hs, value_signed hs, canon_eq_wrap hk, ofInt_tmod_toInt]

theorem wrap_udiv (hk : k.Valid) (hu : k.unsigned = true) (x y : BitVec 64) :
    k.wrap (x / y) = k.canon ((k.value x).tdiv (k.value y)) := by
  rw [value_unsigned hu, value_unsigned hu, canon_eq_wrap hk, ofInt_tdiv_toNat]

theorem wrap_umod (hk : k.Valid) (hu : k.unsigned = true) (x y : BitVec 64) :
    k.wrap (x % y) = k.canon ((k.value x).tmod (k.value y)) := by
  rw [value_unsigned hu, value_unsigned hu, canon_eq_wrap hk, ofInt_tmod_toNat]

/-- `&` keeps canonical words canonical. -/
theorem and_eq_canon (hk : k.Valid) (hx : k.Canonical x) (hy : k.Canonical y) :
    x &&& y = k.canon ((k.value x).land (k.value y)) := by
  have hext : extend k.bits (!k.unsigned) (x &&& y) = x &&& y := by
    conv => rhs; rw [hx, hy]
    unfold extend
    split
    · rw [BitVec.setWidth_and, BitVec.signExtend_and]
    · rw [BitVec.setWidth_and, BitVec.setWidth_and]
  rw [canon, ofInt_reduce hk.le, ofInt_land, ofInt_value, ofInt_value, hext]

/-- `|` does too. -/
theorem or_eq_canon (hk : k.Valid) (hx : k.Canonical x) (hy : k.Canonical y) :
    x ||| y = k.canon ((k.value x).lor (k.value y)) := by
  have hext : extend k.bits (!k.unsigned) (x ||| y) = x ||| y := by
    conv => rhs; rw [hx, hy]
    unfold extend
    split
    · rw [BitVec.setWidth_or, BitVec.signExtend_or]
    · rw [BitVec.setWidth_or, BitVec.setWidth_or]
  rw [canon, ofInt_reduce hk.le, ofInt_lor, ofInt_value, ofInt_value, hext]

/-- A shift by the width or more leaves nothing. -/
theorem canon_shl_large {n : Nat} (h : k.bits ≤ n) (z : Int) : k.canon (z * 2 ^ n) = 0 := by
  rw [canon, reduce_of_dvd _ (Dvd.dvd.mul_left (pow_dvd_pow 2 h) z)]
  rfl

theorem shl_eq_canon (hk : k.Valid) (x : BitVec 64) (n : Nat) :
    k.wrap (x <<< n) = k.canon (k.value x * 2 ^ n) := by
  rw [canon_eq_wrap hk, ofInt_mul_two_pow, ofInt_value]

theorem ushr_eq_canon (hk : k.Valid) (hu : k.unsigned = true) (x : BitVec 64) (n : Nat) :
    k.wrap (x >>> n) = k.canon (k.value x / 2 ^ n) := by
  rw [canon_eq_wrap hk, value_unsigned hu, ofInt_div_two_pow_toNat]

theorem ushr_large (hu : k.unsigned = true) {n : Nat} (h : 64 ≤ n) (x : BitVec 64) :
    k.canon (k.value x / 2 ^ n) = 0 := by
  have hlt : (x.toNat : Int) < 2 ^ n := by
    have h₁ : x.toNat < 2 ^ n := x.isLt.trans_le (Nat.pow_le_pow_right (by decide) h)
    exact_mod_cast h₁
  rw [value_unsigned hu, Int.ediv_eq_zero_of_lt (Int.natCast_nonneg _) hlt, canon_zero]

theorem sshr_eq_canon (hk : k.Valid) (hs : k.unsigned = false) (hx : k.Canonical x) (n : Nat) :
    x.sshiftRight n = k.canon (k.value x / 2 ^ n) := by
  obtain ⟨hlo, hhi⟩ := hx.signed_range hk hs
  obtain ⟨hlo', hhi'⟩ := div_two_pow_range n hlo hhi
  rw [value_signed hs, canon_of_range hk hs hlo' hhi', ofInt_div_two_pow_toInt]

/-- A shift by 64 or more is one by 63. -/
theorem sshr_large (hs : k.unsigned = false) {n : Nat} (h : 64 ≤ n) (x : BitVec 64) :
    k.canon (k.value x / 2 ^ n) = k.canon (k.value x / 2 ^ 63) := by
  rw [value_signed hs, div_two_pow_saturates (by omega) (BitVec.le_toInt x) BitVec.toInt_lt]

/-- The count of a shift that is not negative. -/
theorem value_toNat (h : 0 ≤ k.value y) : (k.value y).toNat = y.toNat := by
  cases hu : k.unsigned with
  | true => rw [value_unsigned hu, Int.toNat_natCast]
  | false =>
    rw [value_signed hu] at h ⊢
    have hint := BitVec.toInt_eq_toNat_cond y
    have hlt := y.isLt
    split at hint <;> omega

theorem value_inj : k.value x = k.value y ↔ x = y := by
  refine ⟨fun h => ?_, fun h => h ▸ rfl⟩
  rw [← ofInt_value k x, h, ofInt_value]

theorem less_eq (k : IntKind) (x y : BitVec 64) :
    (if k.unsigned then x.ult y else x.slt y) = decide (k.value x < k.value y) := by
  cases hu : k.unsigned with
  | true => simp [value_unsigned hu, BitVec.ult]
  | false => simp [value_signed hu, BitVec.slt]

theorem lessEq_eq (k : IntKind) (x y : BitVec 64) :
    (if k.unsigned then x.ule y else x.sle y) = decide (k.value x ≤ k.value y) := by
  cases hu : k.unsigned with
  | true => simp [value_unsigned hu, BitVec.ule]
  | false => simp [value_signed hu, BitVec.sle]

end IntKind

open IntKind

/-! ## §4. Typed integer semantics -/

/-- Operations that need nothing of the second operand but its value. -/
theorem intBinOp_eq (hk : k.Valid) (hx : k.Canonical x) (hy : k.Canonical y) {op : Token}
    (hop : op ≠ .shl ∧ op ≠ .shr) (hdiv : op = .quo ∨ op = .rem → k.value y ≠ 0) :
    intBinOp k op x y = (goBinOp op (k.value x) (k.value y)).rep k := by
  have hne : op = .quo ∨ op = .rem → y ≠ 0 := by
    rintro h rfl
    exact hdiv h (by simp [value])
  cases op with
  | add => simp [intBinOp, goBinOp, GoResult.rep, canon_eq_wrap hk, BitVec.ofInt_add, ofInt_value]
  | sub => simp [intBinOp, goBinOp, GoResult.rep, canon_eq_wrap hk, ofInt_sub, ofInt_value]
  | mul => simp [intBinOp, goBinOp, GoResult.rep, canon_eq_wrap hk, BitVec.ofInt_mul, ofInt_value]
  | quo =>
    rw [intBinOp, if_neg (hne (.inl rfl))]
    cases hu : k.unsigned <;> simp [goBinOp, GoResult.rep, wrap_udiv hk, wrap_sdiv hk, hu]
  | rem =>
    rw [intBinOp, if_neg (hne (.inr rfl))]
    cases hu : k.unsigned <;> simp [goBinOp, GoResult.rep, wrap_umod hk, wrap_srem hk, hu]
  | and => simp [intBinOp, goBinOp, GoResult.rep, and_eq_canon hk hx hy]
  | or => simp [intBinOp, goBinOp, GoResult.rep, or_eq_canon hk hx hy]
  | xor => simp [intBinOp, goBinOp, GoResult.rep, canon_eq_wrap hk, ofInt_xor, ofInt_value]
  | andNot => simp [intBinOp, goBinOp, GoResult.rep, canon_eq_wrap hk, ofInt_ldiff, ofInt_value]
  | shl => exact absurd rfl hop.1
  | shr => exact absurd rfl hop.2
  | eql => simp [intBinOp, goBinOp, GoResult.rep, value_inj, beq_eq_decide]
  | neq => simp [intBinOp, goBinOp, GoResult.rep, value_inj, bne, beq_eq_decide]
  | lss | gtr => simp [intBinOp, goBinOp, GoResult.rep, less_eq]
  | leq | geq => simp [intBinOp, goBinOp, GoResult.rep, lessEq_eq]

theorem intBinOp_shift {ky : IntKind} (hk : k.Valid) (hx : k.Canonical x) (hy : 0 ≤ ky.value y)
    {op : Token} (hop : op = .shl ∨ op = .shr) :
    intBinOp k op x y = (goBinOp op (k.value x) (ky.value y)).rep k := by
  have hcnt := value_toNat hy
  rcases hop with rfl | rfl
  · by_cases hle : k.bits ≤ y.toNat
    · simp [intBinOp, goBinOp, GoResult.rep, hcnt, hle, canon_shl_large hle]
    · simp [intBinOp, goBinOp, GoResult.rep, hcnt, hle, shl_eq_canon hk]
  · by_cases hle : 64 ≤ y.toNat
    · cases hu : k.unsigned with
      | true => simp [intBinOp, goBinOp, GoResult.rep, hcnt, hle, hu, ushr_large hu hle]
      | false =>
        simp [intBinOp, goBinOp, GoResult.rep, hcnt, hle, hu, sshr_large hu hle,
          sshr_eq_canon hk hu hx]
    · cases hu : k.unsigned with
      | true => simp [intBinOp, goBinOp, GoResult.rep, hcnt, hle, hu, ushr_eq_canon hk hu]
      | false => simp [intBinOp, goBinOp, GoResult.rep, hcnt, hle, hu, sshr_eq_canon hk hu hx]

/-- With a divisor that is not zero and a count that is not negative,
`binOpConcrete` does not panic. -/
theorem binOpConcrete_int {t yt : GoType} {ky : IntKind} {op : Token}
    (hk : basicIntKind t = some k) (hky : basicIntKind yt = some ky)
    (hdiv : op = .quo ∨ op = .rem → ky.value y ≠ 0)
    (hshift : op = .shl ∨ op = .shr → 0 ≤ ky.value y) :
    binOpConcrete op (.int x) (.int y) t yt = .value (intBinOp k op x y) := by
  have hzero : ¬ ((op = .quo ∨ op = .rem) ∧ (basicIntKind t).isSome = true ∧
      Scalar.int y = .int 0) := by
    rintro ⟨hop, -, hy⟩
    cases hy
    exact hdiv hop (by simp [value])
  have hneg : ¬ ((op = .shl ∨ op = .shr) ∧ (basicIntKind yt).any (fun k => !k.unsigned) = true ∧
      y.slt 0 = true) := by
    rintro ⟨hop, hs, hlt⟩
    have hnn := hshift hop
    simp only [hky, Option.any_some, Bool.not_eq_true'] at hs
    rw [value_signed hs] at hnn
    rw [BitVec.slt_iff_toInt_lt] at hlt
    exact absurd hnn (by simpa using hlt)
  unfold binOpConcrete
  rw [if_neg hzero, if_neg hneg]
  simp only [concreteBinOp, hk]

/-- **Typed integer semantics.** For every integer type, operands in
canonical form, a divisor that is not zero and a count that is not negative,
every operation returns the canonical form of Go's result. -/
theorem int_semantics {t yt : GoType} {ky : IntKind} (hk : basicIntKind t = some k)
    (hky : basicIntKind yt = some ky) (hx : k.Canonical x) (hy : ky.Canonical y) :
    (∀ op, (op ≠ .shl ∧ op ≠ .shr → ky = k) → (op = .quo ∨ op = .rem → ky.value y ≠ 0) →
      (op = .shl ∨ op = .shr → 0 ≤ ky.value y) →
      binOpConcrete op (.int x) (.int y) t yt =
        .value ((goBinOp op (k.value x) (ky.value y)).rep k)) ∧
    (∀ op, concreteUnOp op (.int x) t = some (.int (k.canon (goUnOp op (k.value x))))) ∧
    concreteConvertNumeric (.int x) t yt = some (.int (ky.canon (k.value x))) ∧
    ∀ z, k.Canonical (k.canon z) ∧ k.value (k.canon z) = reduce k.bits (!k.unsigned) z := by
  have hv := basicIntKind_valid hk
  have hvy := basicIntKind_valid hky
  refine ⟨fun op hsame hdiv hshift => ?_, fun op => ?_, ?_, fun z =>
    ⟨canonical_canon hv z, value_canon hv z⟩⟩
  · rw [binOpConcrete_int hk hky hdiv hshift]
    by_cases hop : op = .shl ∨ op = .shr
    · rw [intBinOp_shift hv hx (hshift hop) hop]
    · obtain rfl := hsame (not_or.mp hop)
      rw [intBinOp_eq hv hx hy (not_or.mp hop) hdiv]
  · cases op with
    | sub =>
      simp [concreteUnOp, goUnOp, hk, canon_eq_wrap hv, BitVec.ofInt_neg, ofInt_value]
    | xor => simp [concreteUnOp, goUnOp, hk, canon_eq_wrap hv, ofInt_lnot, ofInt_value]
  · simp [concreteConvertNumeric, hk, hky, canon_eq_wrap hvy, ofInt_value]

/-- The minimum of int8 divided by -1, and a uint64 above 2^63. -/
theorem int_semantics_edges :
    binOpConcrete .quo (.int (BitVec.ofInt 64 (-128))) (.int (BitVec.ofInt 64 (-1)))
      (.basic .int8) (.basic .int8) = .value (.int (BitVec.ofInt 64 (-128))) ∧
    concreteConvertNumeric (.int (BitVec.ofInt 64 (-1))) (.basic .uint64) (.basic .uint8) =
      some (.int 255) := by
  have hi8 : basicIntKind (.basic .int8) = some ⟨8, false⟩ := rfl
  have hu8 : basicIntKind (.basic .uint8) = some ⟨8, true⟩ := rfl
  have hu64 : basicIntKind (.basic .uint64) = some ⟨64, true⟩ := rfl
  have hquo := (int_semantics (x := BitVec.ofInt 64 (-128)) (y := BitVec.ofInt 64 (-1)) hi8 hi8
    (by decide) (by decide)).1 .quo (fun _ => rfl) (fun _ => by decide) (by simp)
  have hconv := (int_semantics (x := BitVec.ofInt 64 (-1)) (y := 0) hu64 hu8 (by decide)
    (by decide)).2.2.1
  exact ⟨hquo.trans (by decide), hconv.trans (by decide)⟩

/-! ## §5. Truncation -/

/-- A word that is not negative stands for one number. -/
theorem value_of_nonneg (h : 0 ≤ x.toInt) : k.value x = x.toInt := by
  have hint := BitVec.toInt_eq_toNat_cond x
  have hlt := x.isLt
  unfold value
  split <;> split at hint <;> omega

/-- The numbers of a kind. -/
def IntKind.InRange (k : IntKind) (z : Int) : Prop :=
  if k.unsigned then 0 ≤ z ∧ z < 2 ^ k.bits else -2 ^ (k.bits - 1) ≤ z ∧ z < 2 ^ (k.bits - 1)

/-- A conversion keeps a number iff it is one of the new type. -/
theorem value_canon_eq_iff (hk : k.Valid) (z : Int) : k.value (k.canon z) = z ↔ k.InRange z := by
  rw [value_canon hk, IntKind.InRange]
  cases k.unsigned with
  | true =>
    constructor
    · intro h
      exact h ▸ reduce_unsigned_range k.bits z
    · rintro ⟨hlo, hhi⟩
      exact Int.emod_eq_of_lt hlo hhi
  | false =>
    constructor
    · intro h
      exact h ▸ reduce_signed_range hk.pos z
    · rintro ⟨hlo, hhi⟩
      exact reduce_of_range hk.pos hlo hhi

/-- A word stands for one number in two kinds, unless it is negative and the
signs of the kinds differ. -/
theorem value_eq_value_iff {dk : IntKind} :
    dk.value x = k.value x ↔ k.unsigned = dk.unsigned ∨ 0 ≤ x.toInt := by
  constructor
  · intro h
    by_contra! hsign
    have hnat : (0 : Int) ≤ x.toNat := Int.natCast_nonneg _
    cases hk : k.unsigned <;> cases hd : dk.unsigned <;> simp [value, hk, hd] at h hsign <;> omega
  · rintro (hu | hn)
    · rw [value, value, hu]
    · rw [value_of_nonneg hn, value_of_nonneg hn]

/-- When truncation reports are exact: in a session, which has none, if the
number is one of the new type; on the command line, where words are compared,
unless the word is negative and canonical in a type of the other sign. -/
def ReportsExact (concrete : Bool) (k dk : IntKind) (x : BitVec 64) : Prop :=
  if concrete then dk.InRange (k.value x)
  else k.unsigned = dk.unsigned ∨ 0 ≤ x.toInt ∨ ¬dk.Canonical x

/-- **Truncation reports**: the conversion yields the number of the new type
that is congruent to the operand, and records an error iff this is another
number, exactly if `ReportsExact`. -/
theorem truncation_exact {src dst : GoType} {dk : IntKind} (hs : basicIntKind src = some k)
    (hd : basicIntKind dst = some dk) (concrete : Bool) (gid : Gid) (site : String) :
    let r := dk.canon (k.value x)
    execConvert concrete true gid site x src dst =
        (.int r, if dk.value r = k.value x then none
          else some { site, gid, srcType := src, dstType := dst, original := x, result := r }) ↔
      ReportsExact concrete k dk x := by
  intro r
  have hv := basicIntKind_valid hd
  have hr : r = dk.wrap x := by rw [← ofInt_value k x, ← canon_eq_wrap hv]
  cases concrete with
  | true =>
    have hkept : dk.value r = k.value x ↔ _ := value_canon_eq_iff hv (k.value x)
    change _ ↔ dk.InRange (k.value x)
    rw [← hkept]
    simp [execConvert, concreteConvertNumeric, hs, hd, ← hr]
  | false =>
    have hsame : dk.value x = k.value x ↔ _ := value_eq_value_iff
    have hcanon : dk.Canonical x ↔ x = r := by rw [hr, wrap_eq_extend hv, Canonical]
    change _ ↔ (k.unsigned = dk.unsigned ∨ 0 ≤ x.toInt ∨ ¬dk.Canonical x)
    rw [← or_assoc, ← hsame, hcanon]
    by_cases h : x = r
    · simp [execConvert, intTruncationInfo, convertInt, hs, hd, ← hr, ← h]
    · have hval : dk.value r ≠ k.value x := by
        intro heq
        exact h (by rw [← ofInt_value k x, ← heq, ofInt_value])
      simp [execConvert, intTruncationInfo, convertInt, hs, hd, ← hr, h, hval]

/-- `int8(n)` for `n = 300` on the command line, and for `n = 5` in a session. -/
theorem truncation_exact_int8 :
    (execConvert false true 1 "main.go:5" 300 (.basic .int) (.basic .int8)).2.isSome = true ∧
      (execConvert true true 1 "main.go:5" 5 (.basic .int) (.basic .int8)).2.isNone = true := by
  have hint : basicIntKind (.basic .int) = some ⟨64, false⟩ := rfl
  have hint8 : basicIntKind (.basic .int8) = some ⟨8, false⟩ := rfl
  constructor
  · rw [(truncation_exact hint hint8 false 1 "main.go:5").mpr (.inl rfl)]
    decide
  · have hrange : ReportsExact true ⟨64, false⟩ ⟨8, false⟩ 5 := ⟨by decide, by decide⟩
    rw [(truncation_exact hint hint8 true 1 "main.go:5").mpr hrange]
    decide

/-- **Truncations that are not reported**: `uint64(x)` for `x = int64(-1)` and
`int8(y)` for `y = uint64(1<<64 - 1)` keep the word, and a session reports
none at all. -/
theorem truncation_unreported :
    ((execConvert false true 1 "" (-1) (.basic .int64) (.basic .uint64)).2.isNone = true ∧
      IntKind.value ⟨64, true⟩ (-1) ≠ IntKind.value ⟨64, false⟩ (-1)) ∧
    (execConvert false true 1 "" (-1) (.basic .uint64) (.basic .int8)).2.isNone = true ∧
    (execConvert true true 1 "" 300 (.basic .int) (.basic .int8)).2.isNone = true ∧
      IntKind.wrap ⟨8, false⟩ 300 = 44 := by
  decide

end Words

end Giri.Value
