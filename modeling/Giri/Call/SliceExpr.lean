/-
Giri.Call.SliceExpr — slice expressions, with their results.

The check of the bounds is that of `RuntimePanic.lean`. It has -1 for an upper
bound that is absent, so a negative one that is present is taken for absent,
and so is an unsigned one that `toInt64` makes negative. On the command line a
string is passed on as it is.

A string is its bytes. Addresses are not rounded to 64 bits.
-/
import Giri.Call.RuntimePanicTheorems

namespace Giri.Call

open Value Memory

/-- What is sliced, and what comes of it. A pointer to an array is made the
slice of all its elements first; `nil` is `Value{}`. -/
inductive Sliceable where
  | str (s : List UInt8)
  | slice (sv : SliceValue)
  | nil
  deriving DecidableEq, Repr

namespace Sliceable

def len : Sliceable → Int
  | str s => s.length
  | slice sv => sv.len
  | nil => 0

def cap : Sliceable → Int
  | str s => s.length
  | slice sv => sv.cap
  | nil => 0

/-- An element: the byte of a string, or the address. -/
def elem (elemSize : Int) : Sliceable → Int → Option (UInt8 ⊕ Pointer)
  | str s, i => s[i.toNat]?.map .inl
  | slice sv, i => sv.backing.map fun p => .inr (derive p (i * elemSize))
  | nil, _ => none

end Sliceable

/-- The bounds of a slice expression. -/
structure Bounds where
  low : Option IntOperand := none
  high : Option IntOperand := none
  max : Option IntOperand := none

/-- `ssa.Slice`. -/
def sliceOf (concrete : Bool) (elemSize : Int) (base : Sliceable) (b : Bounds) :
    Sliceable × Effects :=
  let low := (b.low.map (·.toInt64)).getD 0
  let high := (b.high.map (·.toInt64)).getD (-1)
  let max := (b.max.map (·.toInt64)).getD (-1)
  match base with
  | .str s =>
    if concrete then
      let effects := sliceStringConcrete s.length low high
      let high := if high < 0 then (s.length : Int) else high
      (.str (if effects = {} then (s.drop low.toNat).take (high - low).toNat else []), effects)
    else (base, {})
  | .slice sv =>
    let effects := checkSlice sv.len sv.cap low high max
    let high := if high < 0 then sv.len else high
    let max := if max < 0 then sv.cap else max
    let backing := sv.backing.map (derive · (low * elemSize))
    (.slice (if effects = {} then ⟨backing, high - low, max - low⟩ else {}), effects)
  | .nil => (base, {})

/-- One slice expression after the other. -/
def resliced (concrete : Bool) (elemSize : Int) : Sliceable → List Bounds → Sliceable
  | base, [] => base
  | base, b :: bs => resliced concrete elemSize (sliceOf concrete elemSize base b).1 bs

/-! ## What Go says -/

namespace Bounds

variable (b : Bounds) (base : Sliceable)

def lowOf : Int := (b.low.map (·.value)).getD 0

def highOf : Int := (b.high.map (·.value)).getD base.len

/-- A string is sliced with two bounds. -/
def maxOf : Int :=
  match base with
  | .str _ => b.highOf base
  | _ => (b.max.map (·.value)).getD base.cap

/-- The bounds are in order. -/
def InRange : Prop :=
  0 ≤ b.lowOf ∧ b.lowOf ≤ b.highOf base ∧ b.highOf base ≤ b.maxOf base ∧ b.maxOf base ≤ base.cap

/-- The result is Go's, for a base with the elements `elem`. A violation is
recorded iff the bounds are not in order. Else the length and the capacity are
those of the bounds, and an element is the one of the base at the same
address. -/
structure Exact (elemSize : Int) (elem : Int → Option (UInt8 ⊕ Pointer)) (r : Sliceable × Effects) :
    Prop where
  check : r.2.violations ≠ [] ↔ ¬b.InRange base
  len : b.InRange base → r.1.len = b.highOf base - b.lowOf
  cap : b.InRange base → r.1.cap = b.maxOf base - b.lowOf
  elem : b.InRange base → ∀ i, 0 ≤ i → i < r.1.cap → r.1.elem elemSize i = elem (b.lowOf + i)

/-- The bounds without the upper ones that are taken for absent. -/
def kept : Bounds :=
  { b with high := b.high.filter (0 ≤ ·.toInt64), max := b.max.filter (0 ≤ ·.toInt64) }

/-- The bounds are in order if those that are kept are. The bounds of `Value{}`
are in order, and on the command line a string is sliced as a whole. -/
def Checked (concrete : Bool) : Sliceable → Prop
  | .nil => b.InRange .nil
  | .str s =>
    if concrete then b.kept.InRange (.str s) → b.InRange (.str s)
    else b.lowOf = 0 ∧ b.highOf (.str s) = s.length
  | .slice sv => b.kept.InRange (.slice sv) → b.InRange (.slice sv)

/-- Each slice expression of a chain is in range. -/
def AllInRange (concrete : Bool) (elemSize : Int) : Sliceable → List Bounds → Prop
  | _, [] => True
  | base, b :: bs => b.Checked concrete base ∧ b.InRange base ∧
      AllInRange concrete elemSize (sliceOf concrete elemSize base b).1 bs

end Bounds

/-- An upper bound that is kept, or its default. -/
theorem upper_eq (b : Option IntOperand) (dflt : Int) :
    (if (b.map (·.toInt64)).getD (-1) < 0 then dflt else (b.map (·.toInt64)).getD (-1)) =
      ((b.filter (0 ≤ ·.toInt64)).map (·.value)).getD dflt := by
  cases b with
  | none => rfl
  | some n =>
    simp only [Option.map_some, Option.getD_some, Option.filter_some]
    by_cases hn : n.toInt64 < 0
    · simp [hn, Int.not_le.mpr hn]
    · have he : n.value = n.toInt64 := by
        rcases n.toInt64_cases with he | ⟨hneg, -⟩
        · exact he.symm
        · exact absurd hneg hn
      simp [hn, Int.not_lt.mp hn, he]

/-- A large unsigned lower bound is bad as well when it is negative. -/
theorem lower_cases (b : Bounds) :
    (b.low.map (·.toInt64)).getD 0 = b.kept.lowOf ∨
      (b.low.map (·.toInt64)).getD 0 < 0 ∧ 2 ^ 63 ≤ b.kept.lowOf := by
  unfold Bounds.lowOf Bounds.kept
  cases b.low with
  | none => exact .inl rfl
  | some n => exact n.toInt64_cases

section

variable {concrete : Bool} {elemSize : Int} {base : Sliceable} {b : Bounds}

/-- A bound that may be in range is kept. -/
theorem getD_kept {bound : Option IntOperand} {d : Int} (hlo : 0 ≤ (bound.map (·.value)).getD d)
    (hhi : (bound.map (·.value)).getD d < 2 ^ 63) :
    ((bound.filter (0 ≤ ·.toInt64)).map (·.value)).getD d = (bound.map (·.value)).getD d := by
  cases bound with
  | none => rfl
  | some n =>
    simp only [Option.map_some, Option.getD_some] at hlo hhi
    have he : n.toInt64 = n.value := by
      rcases n.toInt64_cases with he | ⟨-, hbig⟩
      · exact he
      · omega
    simp [Option.filter_some, he, hlo]

/-- Whether a base is cut, and its bounds are checked. -/
def Sliceable.IsCut (concrete : Bool) : Sliceable → Prop
  | .nil => False
  | .str _ => concrete = true
  | .slice _ => True

theorem sliceOf_kept_str (elemSize : Int) (b : Bounds) {s : List UInt8}
    (hlen : (s.length : Int) < 2 ^ 63) :
    b.kept.Exact (.str s) elemSize (Sliceable.elem elemSize (.str s))
      (sliceOf true elemSize (.str s) b) := by
  have hlow := lower_cases b
  have hhigh : _ = b.kept.highOf (.str s) := upper_eq b.high s.length
  have hrange : b.kept.InRange (.str s) ↔ 0 ≤ b.kept.lowOf ∧
      b.kept.lowOf ≤ b.kept.highOf (.str s) ∧ b.kept.highOf (.str s) ≤ s.length := by
    simp [Bounds.InRange, Bounds.maxOf, Sliceable.cap]
  simp only [sliceOf, if_true, sliceStringConcrete, hhigh]
  split
  · have hno : ¬b.kept.InRange (.str s) := by rw [hrange]; omega
    exact ⟨by simp [Effects.panic, hno], fun h => absurd h hno, fun h => absurd h hno,
      fun h => absurd h hno⟩
  · have hlowOf : (b.low.map (·.toInt64)).getD 0 = b.kept.lowOf := by omega
    have hin : b.kept.InRange (.str s) := hrange.mpr (by omega)
    have hmax : b.kept.maxOf (.str s) = b.kept.highOf (.str s) := rfl
    rw [hlowOf, if_pos rfl]
    refine ⟨by simp [hin], fun _ => ?_, fun _ => ?_, fun _ i hi hlt => ?_⟩ <;>
      simp only [Sliceable.len, Sliceable.cap, Sliceable.elem, List.length_take, List.length_drop,
        hmax] at *
    · omega
    · omega
    · rw [List.getElem?_take_of_lt (by omega), List.getElem?_drop, Int.toNat_add (by omega) hi]

theorem sliceOf_kept_slice (elemSize : Int) (b : Bounds) {sv : SliceValue} (hcap : sv.cap < 2 ^ 63) :
    b.kept.Exact (.slice sv) elemSize (Sliceable.elem elemSize (.slice sv))
      (sliceOf concrete elemSize (.slice sv) b) := by
  have hlow := lower_cases b
  have hhigh : _ = b.kept.highOf (.slice sv) := upper_eq b.high sv.len
  have hmax : _ = b.kept.maxOf (.slice sv) := upper_eq b.max sv.cap
  have hrange : b.kept.InRange (.slice sv) ↔ 0 ≤ b.kept.lowOf ∧
      b.kept.lowOf ≤ b.kept.highOf (.slice sv) ∧
      b.kept.highOf (.slice sv) ≤ b.kept.maxOf (.slice sv) ∧
      b.kept.maxOf (.slice sv) ≤ sv.cap := .rfl
  simp only [sliceOf, checkSlice, hhigh, hmax]
  split
  · have hno : ¬b.kept.InRange (.slice sv) := by rw [hrange]; omega
    exact ⟨by simp [Effects.report, hno], fun h => absurd h hno, fun h => absurd h hno,
      fun h => absurd h hno⟩
  · have hlowOf : (b.low.map (·.toInt64)).getD 0 = b.kept.lowOf := by omega
    have hin : b.kept.InRange (.slice sv) := hrange.mpr (by omega)
    rw [hlowOf, if_pos rfl]
    refine ⟨by simp [hin], fun _ => rfl, fun _ => rfl, fun _ i hi hlt => ?_⟩
    simp only [Sliceable.elem, Option.map_map]
    congr 1
    funext p
    simp only [Function.comp_apply, derive]
    rw [add_mul, add_assoc]

/-- One slice expression, with the bounds that are kept. -/
theorem sliceOf_kept (elemSize : Int) (b : Bounds) (hbase : base.cap < 2 ^ 63)
    (hcut : base.IsCut concrete) :
    b.kept.Exact base elemSize (base.elem elemSize) (sliceOf concrete elemSize base b) := by
  cases base with
  | nil => exact hcut.elim
  | str s =>
    cases (show concrete = true from hcut)
    exact sliceOf_kept_str elemSize b hbase
  | slice sv => exact sliceOf_kept_slice elemSize b hbase

/-- Bounds in order are kept. -/
theorem Bounds.InRange.kept_eq (h : b.InRange base) (hbase : base.cap < 2 ^ 63) :
    b.kept.highOf base = b.highOf base ∧ b.kept.maxOf base = b.maxOf base := by
  obtain ⟨hlow, hhigh, hmax, hcap⟩ := h
  have hhighOf : b.kept.highOf base = b.highOf base :=
    getD_kept (show 0 ≤ b.highOf base by omega) (show b.highOf base < 2 ^ 63 by omega)
  refine ⟨hhighOf, ?_⟩
  cases base with
  | str s => exact hhighOf
  | slice sv => exact getD_kept (show 0 ≤ b.maxOf (.slice sv) by omega) (by exact hcap.trans_lt hbase)
  | nil => exact getD_kept (show 0 ≤ b.maxOf .nil by omega) (by exact hcap.trans_lt hbase)

/-- The slice expression, with the bounds as they are. -/
theorem exact_iff_of_cut (hbase : base.cap < 2 ^ 63) (hcut : base.IsCut concrete) :
    b.Exact base elemSize (base.elem elemSize) (sliceOf concrete elemSize base b) ↔
      (b.kept.InRange base → b.InRange base) := by
  have hkept := sliceOf_kept elemSize b hbase hcut
  have hin (h : b.InRange base) : b.kept.InRange base := by
    obtain ⟨hhigh, hmax⟩ := h.kept_eq hbase
    rwa [Bounds.InRange, hhigh, hmax]
  constructor
  · intro h hin
    by_contra hno
    exact hkept.check.mp (h.check.mpr hno) hin
  · intro hchecked
    refine ⟨hkept.check.trans (not_congr ⟨hchecked, hin⟩), fun h => ?_, fun h => ?_, fun h => ?_⟩
    · rw [hkept.len (hin h), (h.kept_eq hbase).1]
      rfl
    · rw [hkept.cap (hin h), (h.kept_eq hbase).2]
      rfl
    · exact hkept.elem (hin h)

/-- One slice expression. -/
theorem sliceOf_exact_iff (elemSize : Int) (hbase : base.cap < 2 ^ 63) :
    b.Exact base elemSize (base.elem elemSize) (sliceOf concrete elemSize base b) ↔
      b.Checked concrete base := by
  cases base with
  | slice sv => exact exact_iff_of_cut hbase trivial
  | nil =>
    constructor
    · intro h
      show b.InRange .nil
      simpa [sliceOf] using h.check
    · intro h
      change b.InRange .nil at h
      obtain ⟨hlow, hhigh, hmax, hcap⟩ := id h
      simp only [Sliceable.cap] at hcap
      refine ⟨by simpa [sliceOf] using h, fun _ => ?_, fun _ => ?_, fun _ i hi hlt => ?_⟩
      · show 0 = b.highOf .nil - b.lowOf
        omega
      · show 0 = b.maxOf .nil - b.lowOf
        omega
      · exact absurd hlt (Int.not_lt.mpr hi)
  | str s =>
    cases concrete with
    | true => exact exact_iff_of_cut hbase rfl
    | false =>
      have hrange : b.InRange (.str s) ↔ 0 ≤ b.lowOf ∧ b.lowOf ≤ b.highOf (.str s) ∧
          b.highOf (.str s) ≤ s.length := by
        simp [Bounds.InRange, Bounds.maxOf, Sliceable.cap]
      constructor
      · intro h
        have hin : b.InRange (.str s) := by simpa [sliceOf] using h.check
        have hlen : (s.length : Int) = b.highOf (.str s) - b.lowOf := h.len hin
        rw [hrange] at hin
        exact ⟨by omega, by omega⟩
      · rintro ⟨hlow, hhigh⟩
        have hin : b.InRange (.str s) := hrange.mpr (by omega)
        have hlen : (s.length : Int) = b.highOf (.str s) - b.lowOf := by omega
        exact ⟨by simpa [sliceOf] using hin, fun _ => hlen, fun _ => hlen,
          fun _ i _ _ => by simp [sliceOf, hlow]⟩

/-- The offsets of a chain add up, and stay within the base. -/
theorem resliced_elem {bs : List Bounds} : ∀ {base : Sliceable}, base.cap < 2 ^ 63 →
    Bounds.AllInRange concrete elemSize base bs →
    0 ≤ (bs.map Bounds.lowOf).sum ∧
      (bs.map Bounds.lowOf).sum + (resliced concrete elemSize base bs).cap ≤ base.cap ∧
      ∀ i, 0 ≤ i → i < (resliced concrete elemSize base bs).cap →
        (resliced concrete elemSize base bs).elem elemSize i =
          base.elem elemSize ((bs.map Bounds.lowOf).sum + i) := by
  induction bs with
  | nil =>
    intro base hbase _
    exact ⟨le_rfl, by simp [resliced], fun i _ _ => by simp [resliced]⟩
  | cons b bs ih =>
    rintro base hbase ⟨hb, hin, hbs⟩
    have hexact := (sliceOf_exact_iff elemSize hbase).mpr hb
    have hcap := hexact.cap hin
    have helem := hexact.elem hin
    obtain ⟨hlow, -, -, hmax⟩ := hin
    obtain ⟨hsum, hle, hrest⟩ := ih (by omega) hbs
    rw [resliced, List.map_cons, List.sum_cons]
    refine ⟨by omega, by omega, ?_⟩
    intro i hi hlt
    rw [hrest i hi hlt, helem _ (by omega) (by omega), add_assoc]

/-- **Slice expressions**, through any chain of them that is in range, are
Go's exactly if they are `Checked`. The capacity of a base is an `int`. -/
theorem slices_exact {bs : List Bounds} (hbase : base.cap < 2 ^ 63)
    (hbs : Bounds.AllInRange concrete elemSize base bs) :
    let last := resliced concrete elemSize base bs
    b.Exact last elemSize (fun i => base.elem elemSize ((bs.map Bounds.lowOf).sum + i))
        (sliceOf concrete elemSize last b) ↔
      b.Checked concrete last := by
  intro last
  have hlast : last = resliced concrete elemSize base bs := rfl
  obtain ⟨hsum, hle, hchain⟩ := resliced_elem hbase hbs
  rw [← hlast] at hle hchain
  rw [← sliceOf_exact_iff elemSize (show last.cap < 2 ^ 63 by omega)]
  -- the elements of the last base are those of the first
  have helem (r : Sliceable × Effects) (hin : b.InRange last)
      (hcap : r.1.cap = b.maxOf last - b.lowOf) (i : Int) (hi : 0 ≤ i) (hlt : i < r.1.cap) :
      last.elem elemSize (b.lowOf + i) =
        base.elem elemSize ((bs.map Bounds.lowOf).sum + (b.lowOf + i)) := by
    obtain ⟨hlow, -, -, hmax⟩ := hin
    exact hchain _ (by omega) (by omega)
  constructor
  · exact fun h => ⟨h.check, h.len, h.cap, fun hin i hi hlt =>
      (h.elem hin i hi hlt).trans (helem _ hin (h.cap hin) i hi hlt).symm⟩
  · exact fun h => ⟨h.check, h.len, h.cap, fun hin i hi hlt =>
      (h.elem hin i hi hlt).trans (helem _ hin (h.cap hin) i hi hlt)⟩

end

def intBound (n : BitVec 64) : Option IntOperand := some ⟨⟨64, false⟩, n⟩

/-- `a[1:][1:]`, of an array of ten words. -/
theorem slices_exact_array :
    (sliceOf true 8 (.slice ⟨some ⟨7, 8⟩, 9, 9⟩) { low := intBound 1 }).1.elem 8 0 =
      some (.inr ⟨7, 16⟩) := by
  have h := (@slices_exact true 8 (.slice ⟨some ⟨7, 0⟩, 10, 10⟩) { low := intBound 1 }
    [{ low := intBound 1 }] (by decide) ⟨fun h => h, ⟨by decide, by decide, by decide, by decide⟩,
      trivial⟩).mpr fun h => h
  exact h.elem ⟨by decide, by decide, by decide, by decide⟩ 0 (by decide) (by decide)

/-- **A negative upper bound is taken for absent**, and nothing is recorded;
nor for the bounds of a nil slice, and of a string on the command line. -/
theorem negative_bound :
    ¬Bounds.InRange { high := intBound (-1) } (.slice ⟨some ⟨7, 0⟩, 3, 5⟩) ∧
    sliceOf true 8 (.slice ⟨some ⟨7, 0⟩, 3, 5⟩) { high := intBound (-1) } =
      (.slice ⟨some ⟨7, 0⟩, 3, 5⟩, {}) ∧
    sliceOf true 1 (.str [104, 105]) { high := intBound (-2) } = (.str [104, 105], {}) ∧
    (sliceOf true 8 (.slice ⟨some ⟨7, 0⟩, 3, 5⟩) { max := intBound (-1) }).2 = {} ∧
    sliceOf true 8 .nil { high := intBound 4 } = (.nil, {}) ∧
    sliceOf false 1 (.str [104, 105]) { high := intBound 9 } = (.str [104, 105], {}) := by
  refine ⟨?_, by decide⟩
  intro h
  exact absurd h.2.1 (by decide)

end Giri.Call
