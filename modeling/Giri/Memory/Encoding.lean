/-
Giri.Memory.Encoding — pointers held in integers (`encodeUintptr`,
`decodeUintptr`, `convertUnsafeConcrete`; `concrete.go`).

In a session a uintptr made from a pointer is `alloc<<32 + offset`, and
arithmetic on it moves the offset. All of it is the arithmetic of integers as
long as nothing overflows (`encode_eq`), so the laws are linear ones.

An integer that comes from no pointer decodes to allocation 0. Loads and
stores through it fault; the functions of `sync/atomic` do not look
(`forged_atomic_unreported`).
-/
import Giri.Memory.Atomic

namespace Giri.Memory

open Value FixedWidth

/-! ## §1. The conversions -/

/-- `encodeUintptr`. -/
def encodeUintptr : Option Pointer → BitVec 64
  | none => 0
  | some p => BitVec.ofNat 64 p.alloc <<< 32 + BitVec.ofInt 64 p.offset

/-- The allocation part, rounded so small negative offsets keep their
allocation. -/
def allocPart (u : BitVec 64) : BitVec 64 := (u + 1 <<< 31).sshiftRight 32

/-- `decodeUintptr`. -/
def decodeUintptr (u : BitVec 64) : Option Pointer :=
  if u = 0 then none else some ⟨(allocPart u).toNat, (u - allocPart u <<< 32).toInt⟩

/-- `convertUnsafeConcrete` of a pointer, for `interp.encoded`. -/
def markEncoded (encoded : AllocID → Bool) : Option Pointer → AllocID → Bool
  | some p => Function.update encoded p.alloc true
  | none => encoded

/-- `interp.encoded` after these conversions of pointers. -/
def encodedAfter (converted : List (Option Pointer)) : AllocID → Bool :=
  converted.foldl markEncoded fun _ => false

/-- `convertUnsafeConcrete` of an integer. What `handleUnsafePointer` reports
of the pointer's bounds is left out: it gives the pointer back. -/
def toPointer (encoded : AllocID → Bool) (u : BitVec 64) : Option Pointer :=
  (decodeUintptr u).map fun p => if encoded p.alloc then p else ⟨0, 0⟩

/-- A pointer as the address of an access. -/
def Address.ofPointer {S : Type} : Option Pointer → Address S
  | none => .nil
  | some p => .tracked p

/-- A pointer as an operand. -/
def pointerVal : Option Pointer → Val Scalar
  | none => .scalar .nil
  | some p => .scalar (.pointer p)

/-- An access of the program through a pointer. -/
inductive Access where
  | load (t : GoType) (size : Nat)
  | store (val : Val Scalar) (t : GoType) (size : Nat)
  /-- A function or method of `sync/atomic`, with the operands after the
  address. -/
  | atomic (op : AtomicOp) (operands : List (Val Scalar))

def Access.isAtomic : Access → Bool
  | .atomic _ _ => true
  | _ => false

/-- The access: the value, the memory, what is recorded, and what becomes of
the goroutine. `handleAtomicCall` has no violations. -/
def Access.exec (cfg : MemConfig Scalar) (m : Store Scalar) (p : Option Pointer) :
    Access → Val Scalar × Store Scalar × Option AccessError × Fault
  | .load t size =>
    let (v, err, fault) := loadConcrete cfg m (.ofPointer p) t size
    (v, m, err, fault)
  | .store val t size =>
    let (m, err, fault) := storeConcrete cfg m (.ofPointer p) val t size
    (.scalar .nil, m, err, fault)
  | .atomic op operands =>
    let (v, m) := handleAtomicCall m op (pointerVal p :: operands)
    (v, m, none, .none)

/-! ## §2. The laws -/

/-- Allocation IDs from 1 to `2^31 - 1`, offsets in `[-2^31, 2^31)`. -/
def Encodable (p : Pointer) : Prop :=
  1 ≤ (p.alloc : Int) ∧ (p.alloc : Int) < 2 ^ 31 ∧ -2 ^ 31 ≤ p.offset ∧ p.offset < 2 ^ 31

instance (p : Pointer) : Decidable (Encodable p) := inferInstanceAs (Decidable (_ ∧ _))

/-- The encoding, as an integer. -/
def code (p : Pointer) : Int := p.alloc * 2 ^ 32 + p.offset

variable {p q : Pointer} {d : Int}

theorem encode_eq (p : Pointer) : encodeUintptr (some p) = BitVec.ofInt 64 (code p) := by
  rw [code, BitVec.ofInt_add, ofInt_mul_two_pow, BitVec.ofInt_natCast]
  rfl

theorem encode_add (p : Pointer) (d : Int) :
    encodeUintptr (some p) + BitVec.ofInt 64 d =
      encodeUintptr (some ⟨p.alloc, p.offset + d⟩) := by
  rw [encode_eq, encode_eq, ← BitVec.ofInt_add, code, code, Int.add_assoc]

theorem Encodable.code_range (h : Encodable p) : 0 < code p ∧ code p < 2 ^ 63 - 2 ^ 31 := by
  unfold Encodable at h
  unfold code
  omega

theorem Encodable.toInt_encode (h : Encodable p) :
    (encodeUintptr (some p)).toInt = code p := by
  have := h.code_range
  rw [encode_eq]
  exact BitVec.toInt_ofInt_eq_self (by decide) (by omega) (by omega)

theorem Encodable.toNat_encode (h : Encodable p) :
    ((encodeUintptr (some p)).toNat : Int) = code p := by
  have := h.code_range
  rw [encode_eq, BitVec.toNat_ofInt]
  omega

theorem Encodable.encode_ne_zero (h : Encodable p) : encodeUintptr (some p) ≠ 0 := by
  intro hz
  have hcode := h.toInt_encode
  rw [hz] at hcode
  exact h.code_range.1.ne hcode

theorem Encodable.allocPart_encode (h : Encodable p) :
    allocPart (encodeUintptr (some p)) = BitVec.ofNat 64 p.alloc := by
  have hrange := h.code_range
  have hround : encodeUintptr (some p) + 1 <<< 31 = BitVec.ofInt 64 (code p + 2 ^ 31) := by
    rw [encode_eq, BitVec.ofInt_add]
    rfl
  have hint : (BitVec.ofInt 64 (code p + 2 ^ 31)).toInt = code p + 2 ^ 31 :=
    BitVec.toInt_ofInt_eq_self (by decide) (by omega) (by omega)
  have hdiv : (code p + 2 ^ 31) / 2 ^ 32 = p.alloc := by
    unfold Encodable at h
    unfold code
    omega
  rw [allocPart, hround, ← ofInt_div_two_pow_toInt, hint, hdiv, BitVec.ofInt_natCast]

/-- Decoding takes an encoding back. -/
theorem Encodable.decode_encode (h : Encodable p) :
    decodeUintptr (encodeUintptr (some p)) = some p := by
  have halloc : (BitVec.ofNat 64 p.alloc).toNat = p.alloc := by
    unfold Encodable at h
    rw [BitVec.toNat_ofNat]
    omega
  have hoff : encodeUintptr (some p) - BitVec.ofNat 64 p.alloc <<< 32 =
      BitVec.ofInt 64 p.offset := by
    rw [encodeUintptr, BitVec.add_comm, BitVec.add_sub_cancel]
  rw [decodeUintptr, if_neg h.encode_ne_zero, h.allocPart_encode, halloc, hoff,
    BitVec.toInt_ofInt_eq_self (by decide) (by unfold Encodable at h; omega)
      (by unfold Encodable at h; omega)]

/-- Only the allocations of the pointers converted are marked. -/
theorem encodedAfter_eq_true {converted : List (Option Pointer)} {id : AllocID}
    (h : encodedAfter converted id = true) : ∃ p, some p ∈ converted ∧ p.alloc = id := by
  induction converted using List.reverseRecOn with
  | nil => cases h
  | append_singleton ps last ih =>
    rw [encodedAfter, List.foldl_append] at h
    cases last with
    | none =>
      obtain ⟨p, hp, hid⟩ := ih h
      exact ⟨p, List.mem_append_left _ hp, hid⟩
    | some p =>
      by_cases hid : id = p.alloc
      · exact ⟨p, by simp, hid.symm⟩
      · obtain ⟨p', hp, hid⟩ := ih (by simpa [encodedAfter, markEncoded, hid] using h)
        exact ⟨p', List.mem_append_left _ hp, hid⟩

theorem toPointer_forged {converted : List (Option Pointer)} {u : BitVec 64} (hu : u ≠ 0)
    (hnew : ∀ x, some x ∈ converted → x.alloc ≠ (allocPart u).toNat) :
    toPointer (encodedAfter converted) u = some ⟨0, 0⟩ := by
  have hno : encodedAfter converted (allocPart u).toNat = false := by
    by_contra h
    obtain ⟨x, hx, hid⟩ := encodedAfter_eq_true (by simpa using h)
    exact hnew x hx hid
  rw [toPointer, decodeUintptr, if_neg hu, Option.map_some, hno]
  rfl

/-- An atomic operation on allocation 0 does nothing. -/
theorem handleAtomicCall_forged {p : Option Pointer} (hp : p = none ∨ p = some ⟨0, 0⟩)
    (m : Store Scalar) (op : AtomicOp) (operands : List (Val Scalar)) :
    (handleAtomicCall m op (pointerVal p :: operands)).2 = m := by
  have htarget : atomicTarget (pointerVal p :: operands) = 0 := by
    rcases hp with rfl | rfl <;> rfl
  cases op <;> simp only [handleAtomicCall, atomicUpdate, htarget] <;> split <;> simp

end Giri.Memory
