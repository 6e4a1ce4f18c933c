/-
Giri.Memory.ShadowTheorems — access checks against a memory of byte sets.

A BLOCK is what an allocation stands for: a size, whether it is live, and the
set of the bytes that were marked. `Spec` is the memory of blocks; its
arithmetic is that of the integers. `Refines` connects it with the shadow
memory, whose sums wrap and whose sets are bitmaps.

`checkAccess_exact`: after a history of calls that all stay in range
(`InRange`), an access that stays in range is accepted exactly if the blocks
allow it. The sum in the bounds check and the byte numbers of both loops are
what has to stay in range; `check_out_of_range` shows what happens
otherwise.
-/
import Giri.Lib.Bitmap
import Giri.Memory.Shadow

namespace Giri.Shadow

open Detector (AccessKind)

/-! ## §1. Blocks -/

/-- What an allocation stands for. -/
structure Block where
  size : Int
  live : Bool
  marked : Set Int

/-- The memory of blocks. -/
structure Spec where
  next : Nat := 0
  block : AllocID → Option Block := fun _ => none

variable {id : AllocID} {b : Block}

namespace Spec

def setBlock (s : Spec) (id : AllocID) (b : Block) : Spec :=
  { s with block := Function.update s.block id (some b) }

theorem setBlock_self {s : Spec} (hb : s.block id = some b) :
    s.setBlock id b = s := by
  unfold setBlock
  rw [← hb, Function.update_eq_self]

/-- What a call means. -/
def call (s : Spec) : Memory.Call → Spec
  | .allocate _ size _ _ => { s.setBlock (s.next + 1) ⟨size.toInt, true, ∅⟩ with next := s.next + 1 }
  | .free id _ =>
    match s.block id with
    | some b => s.setBlock id { b with live := false }
    | none => s
  | .markInitialized id offset size =>
    match s.block id with
    | some b =>
      s.setBlock id
        { b with
          marked := b.marked ∪
            {x | 0 ≤ x ∧ x < b.size ∧ offset.toInt ≤ x ∧ x < offset.toInt + size.toInt} }
    | none => s
  | .derivePointer _ _ => s
  | .checkAccess _ _ _ _ => s

def calls (history : List (Gid × Memory.Call)) : Spec := history.foldl (fun s c => s.call c.2) {}

/-- An access that is no error. -/
def Allows (s : Spec) (trackInit : Bool) (p : Pointer) (size : Int64) (kind : AccessKind) : Prop :=
  ∃ b, s.block p.alloc = some b ∧ b.live = true ∧ 0 ≤ p.offset.toInt ∧
    p.offset.toInt + size.toInt ≤ b.size ∧
    (kind = .read → trackInit = true →
      ∀ x, p.offset.toInt ≤ x → x < p.offset.toInt + size.toInt → x ∈ b.marked)

end Spec

/-- A call that stays in range: no byte number wraps, and none that is
marked is less than -63. -/
def InRange (opts : Options) : Memory.Call → Prop
  | .allocate _ size _ _ => 0 ≤ size.toInt ∧ (opts.trackInit = true → size.toInt + 63 < 2 ^ 63)
  | .free _ _ => True
  | .markInitialized _ offset size =>
    opts.trackInit = true → size.toInt ≤ 0 ∨ -64 < offset.toInt ∧ offset.toInt + size.toInt ≤ 2 ^ 63
  | .derivePointer _ _ => True
  | .checkAccess p size _ _ => 1 ≤ size.toInt ∧ p.offset.toInt + size.toInt < 2 ^ 63

instance (opts : Options) : DecidablePred (InRange opts)
  | .allocate _ _ _ _ => inferInstanceAs (Decidable (_ ∧ _))
  | .free _ _ => inferInstanceAs (Decidable True)
  | .markInitialized _ _ _ => inferInstanceAs (Decidable (_ → _))
  | .derivePointer _ _ => inferInstanceAs (Decidable True)
  | .checkAccess _ _ _ _ => inferInstanceAs (Decidable (_ ∧ _))

/-! ## §2. Byte numbers -/

theorem toInt_lt (x : Int64) : x.toInt < 2 ^ 63 := x.toInt_lt

theorem toInt_add_of_range {a b : Int64} (hlo : -2 ^ 63 ≤ a.toInt + b.toInt)
    (hhi : a.toInt + b.toInt < 2 ^ 63) : (a + b).toInt = a.toInt + b.toInt := by
  rw [Int64.toInt_add]
  exact Int.bmod_eq_of_le (by omega) (by omega)

variable {offset : Int64}

/-- The number of the `i`-th byte from an offset. -/
theorem toInt_add_ofNat {i : Nat} (hlo : -64 < offset.toInt) (hhi : offset.toInt + i < 2 ^ 63) :
    (offset + Int64.ofNat i).toInt = offset.toInt + i := by
  have hi : (Int64.ofNat i).toInt = (i : Int).bmod (2 ^ 64) := Int64.toInt_ofNat'
  rw [Int64.toInt_add, hi, Int.add_bmod_bmod]
  exact Int.bmod_eq_of_le (by omega) (by omega)

theorem toInt_word (x : Int64) : (x / 64).toInt = x.toInt.tdiv 64 :=
  Int64.toInt_div_of_ne_right x 64 (by decide)

variable {x : Int64}

theorem toNatClampNeg_word (h : 0 ≤ x.toInt) :
    (x / 64).toNatClampNeg = x.toInt.toNat / 64 := by
  show (x / 64).toInt.toNat = _
  rw [toInt_word, Int.tdiv_eq_ediv_of_nonneg h]
  omega

/-- `uint(x)`. -/
theorem toNat_toUInt64 (x : Int64) :
    (x.toUInt64.toNat : Int) = if 0 ≤ x.toInt then x.toInt else x.toInt + 2 ^ 64 := by
  have hlt : x.toUInt64.toNat < 2 ^ 64 := x.toUInt64.toNat_lt
  have hint : x.toInt = if 2 * x.toUInt64.toNat < 2 ^ 64 then (x.toUInt64.toNat : Int)
      else x.toUInt64.toNat - (2 ^ 64 : Nat) :=
    BitVec.toInt_eq_toNat_cond x.toBitVec
  split at hint <;> split <;> omega

theorem bitOf_of_nonneg (h : 0 ≤ x.toInt) :
    Memory.bitOf x = BitVec.twoPow 64 (x.toInt.toNat % 64) := by
  have hrem : (x % 64).toInt = x.toInt % 64 := by
    rw [Int64.toInt_mod]
    exact Int.tmod_eq_emod_of_nonneg h
  have hbit := toNat_toUInt64 (x % 64)
  rw [hrem, if_pos (by omega)] at hbit
  have hlt : (x % 64).toUInt64 < 64 := by
    rw [UInt64.lt_iff_toNat_lt]
    show (x % 64).toUInt64.toNat < 64
    omega
  have heq : (x % 64).toUInt64.toNat = x.toInt.toNat % 64 := by omega
  simp only [Memory.bitOf, if_pos hlt, heq]

theorem bitOf_of_neg (hlo : -64 < x.toInt) (hneg : x.toInt < 0) : Memory.bitOf x = 0 := by
  have hrem : (x % 64).toInt = x.toInt := by
    rw [Int64.toInt_mod]
    show x.toInt.tmod 64 = x.toInt
    have hpos : (-x.toInt).tmod 64 = -x.toInt := Int.tmod_eq_of_lt (by omega) (by omega)
    rw [Int.neg_tmod] at hpos
    omega
  have hbit := toNat_toUInt64 (x % 64)
  rw [hrem, if_neg (by omega)] at hbit
  have hge : ¬ (x % 64).toUInt64 < 64 := by
    rw [UInt64.lt_iff_toNat_lt]
    show ¬ (x % 64).toUInt64.toNat < 64
    omega
  simp only [Memory.bitOf, if_neg hge]

/-! ## §3. Bitmaps -/

open Memory (index bitOf isUninitialized findUninitialized markByte markBits)

variable {bits : List (BitVec 64)}

/-- A byte of an allocation has its word in the bitmap. -/
theorem index_word (h : 0 ≤ x.toInt) :
    index bits (x / 64) = bits[x.toInt.toNat / 64]? := by
  have hword : ¬ x / 64 < 0 := by
    rw [Int64.lt_iff_toInt_lt, toInt_word, Int.tdiv_eq_ediv_of_nonneg h]
    show ¬ x.toInt / 64 < 0
    omega
  unfold index
  rw [if_neg hword, toNatClampNeg_word h]

theorem word_lt_length (h : 0 ≤ x.toInt) :
    (x / 64).toInt < bits.length ↔ x.toInt.toNat / 64 < bits.length := by
  rw [toInt_word, Int.tdiv_eq_ediv_of_nonneg h]
  omega

/-- A byte is marked. -/
theorem markByte_of_nonneg (h : 0 ≤ x.toInt) :
    markByte bits x = some (Bitmap.insert bits x.toInt.toNat) := by
  simp only [markByte, word_lt_length h, index_word h, bitOf_of_nonneg h, toNatClampNeg_word h]
  split
  · rename_i hlt
    simp only [List.getElem?_eq_getElem hlt, Option.map_some, Bitmap.insert,
      List.modify_eq_set_getElem?]
    rfl
  · rename_i hge
    have hid : Bitmap.insert bits x.toInt.toNat = bits := List.modify_eq_self (Nat.not_lt.mp hge)
    rw [hid]

/-- A number just below zero is in word 0, and its bit is shifted out. -/
theorem markByte_of_neg (hlo : -64 < x.toInt) (hneg : x.toInt < 0) :
    markByte bits x = some bits := by
  have hword : x / 64 = 0 := by
    refine Int64.toInt_inj.mp ?_
    rw [toInt_word]
    have hpos : (-x.toInt).tdiv 64 = 0 := Int.tdiv_eq_zero_of_lt (by omega) (by omega)
    rw [Int.neg_tdiv] at hpos
    show x.toInt.tdiv 64 = 0
    omega
  simp only [markByte, hword, bitOf_of_neg hlo hneg]
  cases bits with
  | nil => rfl
  | cons => simp [index]

/-- The number of a byte in a loop that does not wrap, for a byte that may be
below zero or not. -/
theorem markByte_mem (bits : List (BitVec 64)) (hlo : -64 < x.toInt) :
    ∃ bits', markByte bits x = some bits' ∧ bits'.length = bits.length ∧
      ∀ b, Bitmap.mem bits' b =
        (Bitmap.mem bits b || decide ((b : Int) = x.toInt ∧ b / 64 < bits.length)) := by
  rcases lt_or_ge x.toInt 0 with hneg | hpos
  · refine ⟨bits, markByte_of_neg hlo hneg, rfl, ?_⟩
    intro b
    have hne : ¬ (b : Int) = x.toInt := by omega
    simp [hne]
  · refine ⟨_, markByte_of_nonneg hpos, Bitmap.length_insert _ _, ?_⟩
    intro b
    have hiff : b = x.toInt.toNat ∧ x.toInt.toNat / 64 < bits.length ↔
        (b : Int) = x.toInt ∧ b / 64 < bits.length := by
      constructor
      · rintro ⟨rfl, hlt⟩
        exact ⟨Int.toNat_of_nonneg hpos, hlt⟩
      · rintro ⟨hb, hlt⟩
        have hb' : b = x.toInt.toNat := by omega
        exact ⟨hb', hb' ▸ hlt⟩
    rw [Bitmap.mem_insert (by decide), decide_eq_decide.mpr hiff]

/-- **Marking sets exactly the bytes in the range.** The induction is on the
number of bytes that are left. -/
theorem markBits_mem (hlo : -64 < offset.toInt) : ∀ (n i : Nat)
    (bits : List (BitVec 64)), offset.toInt + i + n ≤ 2 ^ 63 →
    ∃ bits', markBits offset bits i n = some bits' ∧ bits'.length = bits.length ∧
      ∀ b, Bitmap.mem bits' b = (Bitmap.mem bits b ||
        decide (offset.toInt + i ≤ b ∧ (b : Int) < offset.toInt + i + n ∧ b / 64 < bits.length)) := by
  intro n
  induction n with
  | zero =>
    intro i bits _
    refine ⟨bits, rfl, rfl, ?_⟩
    intro b
    have hempty : ¬ (offset.toInt + i ≤ b ∧ (b : Int) < offset.toInt + i + (0 : Nat) ∧
        b / 64 < bits.length) := by omega
    rw [decide_eq_false hempty, Bool.or_false]
  | succ n ih =>
    intro i bits hhi
    have hidx : (offset + Int64.ofNat i).toInt = offset.toInt + i :=
      toInt_add_ofNat hlo (by omega)
    have hlow : -64 < (offset + Int64.ofNat i).toInt := by omega
    obtain ⟨bits₁, hmark, hlen, hmem⟩ := markByte_mem bits hlow
    obtain ⟨bits₂, hrest, hlen₂, hmem₂⟩ := ih (i + 1) bits₁ (by omega)
    refine ⟨bits₂, ?_, hlen₂.trans hlen, ?_⟩
    · simp only [markBits, hmark]
      exact hrest
    · intro b
      rw [hmem₂, hmem, hidx, hlen, Bool.or_assoc, ← Bool.decide_or]
      congr 1
      refine decide_eq_decide.mpr ?_
      omega

/-- A byte of the bitmap is looked up. -/
theorem isUninitialized_eq (h : 0 ≤ x.toInt) (hlt : x.toInt.toNat / 64 < bits.length) :
    isUninitialized bits x = some (!Bitmap.mem bits x.toInt.toNat) := by
  have hmod : x.toInt.toNat % 64 < 64 := Nat.mod_lt _ (by decide)
  simp only [isUninitialized, word_lt_length h, if_pos hlt, index_word h, bitOf_of_nonneg h,
    List.getElem?_eq_getElem hlt, Option.map_some, Bitmap.mem]
  congr 1
  rw [Bool.eq_iff_iff, decide_eq_true_iff, Bool.not_eq_true']
  exact Bitmap.and_twoPow_eq_zero hmod

/-- **The loop of `CheckAccess` finds the least byte that is not marked.** -/
theorem findUninitialized_least (bits : List (BitVec 64)) (hlo : 0 ≤ offset.toInt) :
    ∀ (n i : Nat), offset.toInt + i + n < 2 ^ 63 →
      (∀ b : Nat, (b : Int) < offset.toInt + i + n → b / 64 < bits.length) →
      (findUninitialized bits offset i n = some none ∧
        ∀ b : Nat, offset.toInt + i ≤ b → (b : Int) < offset.toInt + i + n →
          Bitmap.mem bits b = true) ∨
      ∃ x, findUninitialized bits offset i n = some (some x) ∧ offset.toInt + i ≤ x.toInt ∧
        x.toInt < offset.toInt + i + n ∧ Bitmap.mem bits x.toInt.toNat = false ∧
        ∀ b : Nat, offset.toInt + i ≤ b → (b : Int) < x.toInt → Bitmap.mem bits b = true := by
  intro n
  induction n with
  | zero =>
    intro i _ _
    refine .inl ⟨rfl, ?_⟩
    intro b hle hlt
    omega
  | succ n ih =>
    intro i hhi hwords
    have hidx : (offset + Int64.ofNat i).toInt = offset.toInt + i :=
      toInt_add_ofNat (by omega) (by omega)
    have hpos : 0 ≤ (offset + Int64.ofNat i).toInt := by omega
    have hlook := isUninitialized_eq hpos (hwords _ (by omega))
    cases hmem : Bitmap.mem bits (offset + Int64.ofNat i).toInt.toNat with
    | false =>
      rw [hmem] at hlook
      refine .inr ⟨offset + Int64.ofNat i, ?_, by omega, by omega, hmem, ?_⟩
      · simp only [findUninitialized, hlook, Bool.not_false]
      · intro b hle hlt
        omega
    | true =>
      rw [hmem] at hlook
      have hfind : findUninitialized bits offset i (n + 1) =
          findUninitialized bits offset (i + 1) n := by
        simp only [findUninitialized, hlook, Bool.not_true]
      -- the byte itself, or one after it
      have hhere : ∀ b : Nat, (b : Int) = offset.toInt + i → Bitmap.mem bits b = true := by
        intro b hb
        have hb' : b = (offset + Int64.ofNat i).toInt.toNat := by omega
        rw [hb', hmem]
      rw [hfind]
      rcases ih (i + 1) (by omega) (fun b hb => hwords b (by omega)) with
        ⟨hnone, hall⟩ | ⟨x, hsome, hle, hlt, hx, hleast⟩
      · refine .inl ⟨hnone, ?_⟩
        intro b hle hlt
        rcases Int.lt_or_eq_of_le hle with hb | hb
        · exact hall b (by omega) (by omega)
        · exact hhere b hb.symm
      · refine .inr ⟨x, hsome, by omega, by omega, hx, ?_⟩
        intro b hle hlt
        rcases Int.lt_or_eq_of_le hle with hb | hb
        · exact hleast b (by omega) hlt
        · exact hhere b hb.symm

variable {size : Int64}

/-- A bitmap has a bit for every byte, and for no more than a word of them
that are not there. -/
theorem makeInitBits_eq (hlo : 0 ≤ size.toInt) (hhi : size.toInt + 63 < 2 ^ 63) :
    Memory.makeInitBits size = some (List.replicate ((size.toInt.toNat + 63) / 64) 0) := by
  have hsum : (size + 63).toInt = size.toInt + 63 := by
    have h63 : (63 : Int64).toInt = 63 := rfl
    rw [toInt_add_of_range (by omega) (by omega), h63]
  have hwords : ((size + 63) / 64).toInt = (size.toInt + 63) / 64 := by
    rw [toInt_word, hsum, Int.tdiv_eq_ediv_of_nonneg (by omega)]
  have hneg : ¬ (size + 63) / 64 < 0 := by
    rw [Int64.lt_iff_toInt_lt, hwords]
    show ¬ (size.toInt + 63) / 64 < 0
    omega
  have hnat : ((size + 63) / 64).toNatClampNeg = (size.toInt.toNat + 63) / 64 := by
    show ((size + 63) / 64).toInt.toNat = _
    omega
  simp only [Memory.makeInitBits, if_neg hneg, hnat]

/-! ## §4. Refinement -/

/-- The bitmap has the marked bytes. -/
structure Bits (bits : List (BitVec 64)) (size : Int) (marked : Set Int) : Prop where
  length : bits.length = (size.toNat + 63) / 64
  mem : ∀ x : Nat, (x : Int) < size → (Bitmap.mem bits x = true ↔ (x : Int) ∈ marked)

/-- An allocation and the block it stands for. -/
structure Represents (opts : Options) (id : AllocID) (al : Allocation) (b : Block) : Prop where
  id : al.id = id
  size : al.size.toInt = b.size
  nonneg : 0 ≤ b.size
  live : b.live = !al.freed
  marked : ∀ x ∈ b.marked, 0 ≤ x ∧ x < b.size
  bits : opts.trackInit = true → ∃ bits, al.initBits = some bits ∧ Bits bits b.size b.marked

/-- The shadow memory and the memory of blocks. -/
structure Refines (opts : Options) (m : Memory) (s : Spec) : Prop where
  options : m.opts = opts
  next : m.nextAlloc = s.next
  unknown : ∀ id, m.allocations.lookup id = none → s.block id = none
  known : ∀ id al, m.allocations.lookup id = some al →
    ∃ b, s.block id = some b ∧ Represents opts id al b

theorem Memory.lookup_setAllocation (m : Memory) (id : AllocID) (al : Allocation) (id' : AllocID) :
    (m.setAllocation id al).allocations.lookup id' =
      if id' = id then some al else m.allocations.lookup id' := by
  show (m.allocations.insert id al).lookup id' = _
  split
  · rename_i heq
    rw [heq, AList.lookup_insert]
  · rename_i hne
    rw [AList.lookup_insert_ne hne]

namespace Refines

variable {opts : Options} {m : Memory} {s : Spec}

variable {al : Allocation}

/-- One allocation is changed, and its block accordingly. -/
theorem update (h : Refines opts m s) {m' : Memory} (hopts : m'.opts = m.opts)
    (hnext : m'.nextAlloc = m.nextAlloc)
    (hlookup : ∀ id', m'.allocations.lookup id' = if id' = id then some al else m.allocations.lookup id')
    (hrep : Represents opts id al b) : Refines opts m' (s.setBlock id b) := by
  have hblock : ∀ id', (s.setBlock id b).block id' = if id' = id then some b else s.block id' := by
    intro id'
    exact Function.update_apply _ _ _ _
  refine ⟨hopts.trans h.options, hnext.trans h.next, ?_, ?_⟩
  · intro id' hnone
    rw [hlookup] at hnone
    rw [hblock]
    split at hnone
    · cases hnone
    · rename_i hne
      rw [if_neg hne]
      exact h.unknown id' hnone
  · intro id' al' hsome
    rw [hlookup] at hsome
    rw [hblock]
    split at hsome
    · rename_i heq
      cases hsome
      rw [if_pos heq, heq]
      exact ⟨b, rfl, hrep⟩
    · rename_i hne
      rw [if_neg hne]
      exact h.known id' al' hsome

theorem set (h : Refines opts m s) (hrep : Represents opts id al b) :
    Refines opts (m.setAllocation id al) (s.setBlock id b) :=
  h.update rfl rfl (Memory.lookup_setAllocation m id al) hrep

/-- A change that only the block shows. -/
theorem setBlock (h : Refines opts m s) (hal : m.allocations.lookup id = some al)
    (hrep : Represents opts id al b) :
    Refines opts m (s.setBlock id b) := by
  refine h.update rfl rfl ?_ hrep
  intro id'
  split
  · rename_i heq
    rw [heq, hal]
  · rfl

/-- A change that the block does not show. -/
theorem set_same (h : Refines opts m s) (hb : s.block id = some b) (hrep : Represents opts id al b) :
    Refines opts (m.setAllocation id al) s :=
  Spec.setBlock_self hb ▸ h.set hrep

theorem allocate (h : Refines opts m s) {kind : AllocKind} {typeName site : String}
    (hrange : InRange opts (.allocate kind size typeName site)) :
    ∃ id m', m.allocate kind size typeName site = some (id, m') ∧
      Refines opts m' (s.call (.allocate kind size typeName site)) := by
  obtain ⟨hsize, hbits⟩ := hrange
  have hnext := h.next
  -- the counter is not looked at by anything else
  have hcount : ∀ {m' : Memory} {s' : Spec} (n : Nat), Refines opts m' s' →
      Refines opts { m' with nextAlloc := n } { s' with next := n } :=
    fun n hm => ⟨hm.options, rfl, hm.unknown, hm.known⟩
  unfold Memory.allocate Spec.call
  rw [h.options, hnext]
  cases htrack : opts.trackInit with
  | false =>
    refine ⟨_, _, rfl, hcount (s.next + 1) (h.set ?_)⟩
    exact ⟨rfl, rfl, hsize, rfl, fun x hx => hx.elim, fun htrue => by rw [htrack] at htrue; cases htrue⟩
  | true =>
    rw [makeInitBits_eq hsize (hbits htrack)]
    refine ⟨_, _, rfl, hcount (s.next + 1) (h.set ?_)⟩
    refine ⟨rfl, rfl, hsize, rfl, fun x hx => hx.elim, fun _ => ⟨_, rfl, List.length_replicate, ?_⟩⟩
    intro x _
    rw [Bitmap.mem_replicate_zero]
    exact iff_of_false Bool.false_ne_true id

theorem free (h : Refines opts m s) (id : AllocID) (site : String) :
    Refines opts (m.free id site).1 (s.call (.free id site)) := by
  unfold Memory.free Spec.call
  cases hal : m.allocations.lookup id with
  | none =>
    simp only [h.unknown id hal]
    exact h
  | some al =>
    obtain ⟨b, hb, hrep⟩ := h.known id al hal
    simp only [hb]
    cases hfreed : al.freed with
    | true =>
      have hsame : { b with live := false } = b := by
        have hlive : b.live = false := by
          rw [hrep.live, hfreed]
          rfl
        rw [← hlive]
      rw [if_pos rfl, hsame, Spec.setBlock_self hb]
      exact h
    | false =>
      rw [if_neg (by decide)]
      exact h.set ⟨hrep.id, hrep.size, hrep.nonneg, rfl, hrep.marked, hrep.bits⟩

/-- A bitmap after marking. -/
theorem markBits_bits {total : Int} {marked : Set Int} (hbits : Bits bits total marked)
    (hrange : size.toInt ≤ 0 ∨ -64 < offset.toInt ∧ offset.toInt + size.toInt ≤ 2 ^ 63) :
    ∃ bits', markBits offset bits 0 size.toNatClampNeg = some bits' ∧
      Bits bits' total (marked ∪
        {x | 0 ≤ x ∧ x < total ∧ offset.toInt ≤ x ∧ x < offset.toInt + size.toInt}) := by
  have hn : size.toNatClampNeg = size.toInt.toNat := rfl
  rcases hrange with hempty | ⟨hlo, hhi⟩
  · have hzero : size.toNatClampNeg = 0 := by omega
    rw [hzero]
    refine ⟨bits, rfl, hbits.length, ?_⟩
    intro x hx
    rw [hbits.mem x hx]
    constructor
    · exact .inl
    · rintro (hmem | ⟨-, -, hle, hlt⟩)
      · exact hmem
      · omega
  · obtain ⟨bits', hmark, hlen, hmem⟩ :=
      markBits_mem hlo size.toNatClampNeg 0 bits (by have := toInt_lt offset; omega)
    refine ⟨bits', hmark, hlen.trans hbits.length, ?_⟩
    intro x hx
    have hlength := hbits.length
    rw [hmem, Bool.or_eq_true, decide_eq_true_iff, hbits.mem x hx]
    constructor
    · rintro (hold | ⟨hle, hlt, -⟩)
      · exact .inl hold
      · exact .inr ⟨by omega, hx, by omega, by omega⟩
    · rintro (hold | ⟨-, -, hle, hlt⟩)
      · exact .inl hold
      · exact .inr ⟨by omega, by omega, by omega⟩

theorem markInitialized (h : Refines opts m s)
    (hrange : InRange opts (.markInitialized id offset size)) :
    ∃ m', m.markInitialized id offset size = some m' ∧
      Refines opts m' (s.call (.markInitialized id offset size)) := by
  unfold Memory.markInitialized
  rw [h.options]
  cases hal : m.allocations.lookup id with
  | none =>
    have hcall : s.call (.markInitialized id offset size) = s := by
      simp only [Spec.call, h.unknown id hal]
    rw [hcall]
    refine ⟨m, ?_, h⟩
    cases opts.trackInit <;> rfl
  | some al =>
    obtain ⟨b, hb, hrep⟩ := h.known id al hal
    simp only [Spec.call, hb]
    have hmarked : ∀ x ∈ b.marked ∪
        {x | 0 ≤ x ∧ x < b.size ∧ offset.toInt ≤ x ∧ x < offset.toInt + size.toInt},
        0 ≤ x ∧ x < b.size := by
      rintro x (hx | ⟨hx, hlt, -⟩)
      · exact hrep.marked x hx
      · exact ⟨hx, hlt⟩
    cases htrack : opts.trackInit with
    | false =>
      -- without init tracking only the block has the marks
      refine ⟨m, rfl, h.setBlock hal ?_⟩
      exact ⟨hrep.id, hrep.size, hrep.nonneg, hrep.live, hmarked, fun htrue => by
        rw [htrack] at htrue
        cases htrue⟩
    | true =>
      obtain ⟨bits, hinit, hbits⟩ := hrep.bits htrack
      obtain ⟨bits', hmark, hbits'⟩ := markBits_bits hbits (hrange htrack)
      simp only [hinit, hmark]
      refine ⟨_, rfl, h.set ?_⟩
      exact ⟨hrep.id, hrep.size, hrep.nonneg, hrep.live, hmarked, fun _ => ⟨bits', rfl, hbits'⟩⟩

/-! ## §5. Accesses -/

/-- The initialization check of a read in bounds. -/
theorem checkInit (h : Refines opts m s) {p : Pointer} (size : Int64) (kind : AccessKind)
    (site : String) (hrep : Represents opts p.alloc al b) (hlo : 0 ≤ p.offset.toInt)
    (hsize : 0 ≤ size.toInt) (hhi : p.offset.toInt + size.toInt ≤ b.size) :
    (m.checkInit p size kind site al = some none ∧
      (kind = .read → opts.trackInit = true →
        ∀ x, p.offset.toInt ≤ x → x < p.offset.toInt + size.toInt → x ∈ b.marked)) ∨
    (kind = .read ∧ opts.trackInit = true ∧
      ∃ x, m.checkInit p size kind site al = some (some (.uninitializedRead al.id x site al.typeName)) ∧
        p.offset.toInt ≤ x.toInt ∧ x.toInt < p.offset.toInt + size.toInt ∧ x.toInt ∉ b.marked ∧
        ∀ y, p.offset.toInt ≤ y → y < x.toInt → y ∈ b.marked) := by
  have hsizeLt : b.size < 2 ^ 63 := hrep.size ▸ toInt_lt al.size
  unfold Memory.checkInit
  rw [h.options]
  cases kind with
  | write => exact .inl ⟨rfl, fun hread => by cases hread⟩
  | read =>
    cases htrack : opts.trackInit with
    | false => exact .inl ⟨rfl, fun _ htrue => by cases htrue⟩
    | true =>
      obtain ⟨bits, hinit, hbits⟩ := hrep.bits htrack
      have hlength := hbits.length
      have hn : (size.toNatClampNeg : Int) = size.toInt := Int.toNat_of_nonneg hsize
      -- bytes as integers, and as the numbers of the bitmap
      have hmem : ∀ x : Int, p.offset.toInt ≤ x → x < p.offset.toInt + size.toInt →
          (Bitmap.mem bits x.toNat = true ↔ x ∈ b.marked) := by
        intro x hle hlt
        have hx : ((x.toNat : Nat) : Int) = x := Int.toNat_of_nonneg (by omega)
        rw [hbits.mem x.toNat (by omega), hx]
      rw [hinit]
      rcases findUninitialized_least bits hlo size.toNatClampNeg 0 (by omega)
        (fun c hc => by omega) with ⟨hnone, hall⟩ | ⟨x, hsome, hle, hlt, hx, hleast⟩
      · refine .inl ⟨by simp only [hnone], ?_⟩
        intro _ _ x hle hlt
        exact (hmem x hle hlt).mp (hall x.toNat (by omega) (by omega))
      · refine .inr ⟨rfl, rfl, x, by simp only [hsome], by omega, by omega, ?_, ?_⟩
        · rw [← hmem x.toInt (by omega) (by omega), hx]
          exact Bool.false_ne_true
        · intro y hle' hlt'
          exact (hmem y hle' (by omega)).mp (hleast y.toNat (by omega) (by omega))

/-- **An access that stays in range is accepted exactly if the blocks allow
it**, and a read of bytes that were not marked names the least of them. -/
theorem checkAccess (h : Refines opts m s) {p : Pointer} {kind : AccessKind} {site : String}
    (gid : Gid) (hrange : InRange opts (.checkAccess p size kind site)) :
    ∃ err m', m.checkAccess p size kind site gid = some (err, m') ∧ Refines opts m' s ∧
      (err = none ↔ s.Allows opts.trackInit p size kind) ∧
      ∀ id x site' typeName, err = some (.uninitializedRead id x site' typeName) →
        id = p.alloc ∧ ∃ b, s.block p.alloc = some b ∧
          p.offset.toInt ≤ x.toInt ∧ x.toInt < p.offset.toInt + size.toInt ∧ x.toInt ∉ b.marked ∧
          ∀ y, p.offset.toInt ≤ y → y < x.toInt → y ∈ b.marked := by
  obtain ⟨hsize, hhi⟩ := hrange
  unfold Memory.checkAccess Spec.Allows
  cases hal : m.allocations.lookup p.alloc with
  | none =>
    refine ⟨_, m, rfl, h, iff_of_false (by simp) ?_, ?_⟩
    · rintro ⟨b, hb, -⟩
      rw [h.unknown p.alloc hal] at hb
      cases hb
    · intro id x site' typeName herr
      cases herr
  | some al =>
    obtain ⟨b, hb, hrep⟩ := h.known p.alloc al hal
    have hlt : (p.offset < 0) ↔ p.offset.toInt < 0 := Int64.lt_iff_toInt_lt
    have hgt : (p.offset + size > al.size) ↔ al.size.toInt < (p.offset + size).toInt :=
      Int64.lt_iff_toInt_lt
    have hofflo : -2 ^ 63 ≤ p.offset.toInt := Int64.le_toInt p.offset
    have hsum : (p.offset + size).toInt = p.offset.toInt + size.toInt :=
      toInt_add_of_range (by omega) hhi
    dsimp only
    split
    · rename_i hfreed
      refine ⟨_, m, rfl, h, iff_of_false (by simp) ?_, ?_⟩
      · rintro ⟨b', hb', hlive, -⟩
        rw [hb] at hb'
        cases hb'
        rw [hrep.live, hfreed] at hlive
        cases hlive
      · intro id x site' typeName herr
        cases herr
    · rename_i hlive
      split
      · rename_i hbounds
        rw [hlt, hgt, hsum, hrep.size] at hbounds
        refine ⟨_, m, rfl, h, iff_of_false (by simp) ?_, ?_⟩
        · rintro ⟨b', hb', -, hlo, hle, -⟩
          rw [hb] at hb'
          cases hb'
          omega
        · intro id x site' typeName herr
          cases herr
      · rename_i hbounds
        rw [hlt, hgt, hsum, hrep.size] at hbounds
        rcases h.checkInit size kind site hrep (by omega) (by omega) (by omega) with
          ⟨hok, hall⟩ | ⟨hread, htrack, x, herr, hle, hx, hun, hleast⟩
        · rw [hok]
          refine ⟨none, _, rfl, ?_, iff_of_true rfl ⟨b, hb, ?_, by omega, by omega, hall⟩, ?_⟩
          · unfold Memory.logAccess
            split
            · exact h.set_same hb ⟨hrep.id, hrep.size, hrep.nonneg, hrep.live, hrep.marked, hrep.bits⟩
            · exact h
          · rw [hrep.live, Bool.eq_false_iff.mpr hlive]
            rfl
          · intro id x site' typeName hnone
            cases hnone
        · rw [herr]
          refine ⟨_, m, rfl, h, iff_of_false (by simp) ?_, ?_⟩
          · rintro ⟨b', hb', -, -, -, hall⟩
            rw [hb] at hb'
            cases hb'
            exact hun (hall hread htrack x.toInt hle hx)
          · intro id x' site' typeName heq
            cases heq
            exact ⟨hrep.id, b, hb, hle, hx, hun, hleast⟩

/-! ## §6. Histories -/

/-- A call that stays in range does to the memory what it means. -/
theorem call (h : Refines opts m s) (gid : Gid) {c : Memory.Call} (hrange : InRange opts c) :
    ∃ r, m.call gid c = some r ∧ Refines opts r.1 (s.call c) := by
  cases c with
  | allocate =>
    obtain ⟨id, m', hm', href⟩ := h.allocate hrange
    exact ⟨_, by rw [Memory.call, hm']; rfl, href⟩
  | free id site => exact ⟨_, rfl, h.free id site⟩
  | markInitialized =>
    obtain ⟨m', hm', href⟩ := h.markInitialized hrange
    exact ⟨_, by rw [Memory.call, hm']; rfl, href⟩
  | derivePointer => exact ⟨_, rfl, h⟩
  | checkAccess =>
    obtain ⟨err, m', hm', href, -⟩ := h.checkAccess gid hrange
    exact ⟨_, by rw [Memory.call, hm']; rfl, href⟩

/-- The same for a history. -/
theorem calls : ∀ {history : List (Gid × Memory.Call)} {m : Memory} {s : Spec}, Refines opts m s →
    (∀ c ∈ history, InRange opts c.2) →
    ∃ m', Transition.exec (fun m (c : Gid × Memory.Call) => (m.call c.1 c.2).map (·.1)) m history =
        some m' ∧ Refines opts m' (history.foldl (fun s c => s.call c.2) s)
  | [], m, s, h, _ => ⟨m, rfl, h⟩
  | (gid, c) :: history, m, s, h, hrange => by
    obtain ⟨r, hr, href⟩ := h.call gid (hrange (gid, c) List.mem_cons_self)
    obtain ⟨m', hm', href'⟩ := calls href fun c hc => hrange c (List.mem_cons_of_mem _ hc)
    refine ⟨m', ?_, href'⟩
    rw [Transition.exec, hr]
    exact hm'

end Refines

theorem refines_empty (opts : Options) : Refines opts { opts } {} :=
  ⟨rfl, rfl, fun _ _ => rfl, fun id al hal => by
    have hnone : (∅ : AList fun _ : AllocID => Allocation).lookup id = none := AList.lookup_empty id
    rw [show ({ opts } : Memory).allocations.lookup id = none from hnone] at hal
    cases hal⟩

/-- **Access checks are exact, in range.** After every history of calls that
stay in range the bitmaps have exactly the marked bytes, and an access that
stays in range is accepted iff the block allows it; nothing panics. -/
theorem checkAccess_exact (opts : Options) (history : List (Gid × Memory.Call))
    (hhistory : ∀ c ∈ history, InRange opts c.2) :
    ∃ m, Memory.calls opts history = some m ∧
      (opts.trackInit = true → ∀ id b, (Spec.calls history).block id = some b →
        ∃ al bits, m.allocations.lookup id = some al ∧ al.initBits = some bits ∧
          ∀ x : Nat, (x : Int) < b.size → (Bitmap.mem bits x = true ↔ (x : Int) ∈ b.marked)) ∧
      ∀ p size kind site gid, InRange opts (.checkAccess p size kind site) →
        ∃ err m', m.checkAccess p size kind site gid = some (err, m') ∧
          (err = none ↔ (Spec.calls history).Allows opts.trackInit p size kind) ∧
          ∀ id x site' typeName, err = some (.uninitializedRead id x site' typeName) →
            id = p.alloc ∧ ∃ b, (Spec.calls history).block p.alloc = some b ∧
              p.offset.toInt ≤ x.toInt ∧ x.toInt < p.offset.toInt + size.toInt ∧
              x.toInt ∉ b.marked ∧ ∀ y, p.offset.toInt ≤ y → y < x.toInt → y ∈ b.marked := by
  obtain ⟨m, hm, href⟩ := (refines_empty opts).calls hhistory
  refine ⟨m, hm, ?_, ?_⟩
  · intro htrack id b hb
    cases hal : m.allocations.lookup id with
    | none =>
      rw [show (Spec.calls history).block id = none from href.unknown id hal] at hb
      cases hb
    | some al =>
      obtain ⟨b', hb', hrep⟩ := href.known id al hal
      obtain ⟨bits, hinit, hbits⟩ := hrep.bits htrack
      have hbb : b' = b := Option.some.inj (hb'.symm.trans hb)
      exact ⟨al, bits, rfl, hinit, hbb ▸ hbits.mem⟩
  · intro p size kind site gid hrange
    obtain ⟨err, m', hm', -, hiff, hleast⟩ := href.checkAccess gid hrange
    exact ⟨err, m', hm', hiff, hleast⟩

/-- Ten bytes, of which the middle is marked. -/
def tenBytes : List (Gid × Memory.Call) :=
  [(1, .allocate .heap 10 "[10]byte" "k.go:3"), (1, .markInitialized 1 2 4)]

theorem checkAccess_exact_tenBytes : ∃ m, Memory.calls { trackInit := true } tenBytes = some m ∧
    ∃ err m', m.checkAccess ⟨1, 4, []⟩ 4 .read "k.go:5" 1 = some (err, m') ∧
      (err = none ↔ (Spec.calls tenBytes).Allows true ⟨1, 4, []⟩ 4 .read) := by
  obtain ⟨m, hm, -, hcheck⟩ := checkAccess_exact { trackInit := true } tenBytes (by decide)
  obtain ⟨err, m', hm', hiff, -⟩ := hcheck ⟨1, 4, []⟩ 4 .read "k.go:5" 1 (by decide)
  exact ⟨m, hm, err, m', hm', hiff⟩

/-- A single access, in a memory with one allocation of 8 bytes. -/
def accessEight (offset size : Int64) (kind : AccessKind) : Option (Option MemError) :=
  ((Memory.calls { trackInit := true } [(1, .allocate .heap 8 "int" "k.go:3")]).bind fun m =>
    m.checkAccess ⟨1, offset, []⟩ size kind "k.go:4" 1).map (·.1)

/-- Far behind the allocation a write is accepted and a read makes giri
panic; so does marking a byte far before it. -/
theorem check_out_of_range :
    accessEight Int64.maxValue 1 .write = some none ∧ accessEight Int64.maxValue 1 .read = some none ∧
      accessEight Int64.maxValue 2 .read = none ∧
      ((Memory.calls { trackInit := true }
        [(1, .allocate .heap 8 "int" "k.go:3"), (1, .markInitialized 1 (-64) 1)]).isSome = false) := by
  decide +kernel

end Giri.Shadow
