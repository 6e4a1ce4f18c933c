/-
Giri.Memory.Layout — where the parts of an array or struct are
(`concrete.go`).

An array or struct is stored as its LEAVES, the parts that are neither
arrays nor structs, each at a byte offset (`layout`). A part is named by the
PATH that leads to it, a field or element number for every level, and the
address of a part is derived step by step along its path
(`handleFieldAddr`, `handleIndexAddr`; here `offsetAt`). Paths are the
model's; the source has only offsets.

The sizes and field offsets are those of `go/types`. What is used of them
is in `Sizes`: that the parts of a value don't overlap.
-/
import Mathlib.Data.List.Range
import Giri.Value.Basic

namespace Giri.Memory

open Value

/-- `isAggregateType`. -/
def isAggregateType (t : GoType) : Bool :=
  match t.underlying with
  | .array _ _ | .struct _ => true
  | _ => false

/-- `types.Sizes`, for the target platform. -/
structure Sizes where
  sizeof : GoType → Nat
  offsetsof : List GoType → List Nat
  offsets_length : ∀ fs, (offsetsof fs).length = fs.length
  /-- A field ends before the next ones start. -/
  offsets_lt : ∀ (fs : List GoType) (i j : Nat) (f : GoType) (o o' : Nat), i < j →
    fs[i]? = some f → (offsetsof fs)[i]? = some o → (offsetsof fs)[j]? = some o' →
    o + sizeof f ≤ o'
  /-- Every field is inside the struct. -/
  offsets_le : ∀ (fs : List GoType) (i : Nat) (f : GoType) (o : Nat),
    fs[i]? = some f → (offsetsof fs)[i]? = some o → o + sizeof f ≤ sizeof (.struct fs)
  array_le : ∀ n t, n * sizeof t ≤ sizeof (.array n t)
  sizeof_underlying : ∀ t : GoType, sizeof t = sizeof t.underlying
  leaf_pos : ∀ t, isAggregateType t = false → 0 < sizeof t

/-- `leaf`: a part that is neither an array nor a struct, at a byte offset
from the start of the value. -/
structure Leaf where
  off : Nat
  type : GoType

/-- The leaf of a part that starts at `d`. -/
def Leaf.shift (d : Nat) (l : Leaf) : Leaf := ⟨l.off + d, l.type⟩

mutual

/-- `layout`: the leaves of a value of type `t`, in offset order. -/
def layout (sz : Sizes) : GoType → List Leaf
  | .array len elem =>
    (List.range len).flatMap fun i => (layout sz elem).map (Leaf.shift (i * sz.sizeof elem))
  | .struct fields => layoutFields sz (sz.offsetsof fields) fields
  | .named name t => if isAggregateType t then layout sz t else [⟨0, .named name t⟩]
  | t => [⟨0, t⟩]

/-- The loop of `layout` over the fields of a struct. -/
def layoutFields (sz : Sizes) : List Nat → List GoType → List Leaf
  | off :: offs, f :: fs => (layout sz f).map (Leaf.shift off) ++ layoutFields sz offs fs
  | _, _ => []

end

/-! ## §1. Parts and their paths -/

/-- The type of the part at a path. -/
def typeAt : GoType → List Nat → Option GoType
  | t, [] => some t
  | t, i :: p =>
    match t.underlying with
    | .array len elem => if i < len then typeAt elem p else none
    | .struct fields =>
      match fields[i]? with
      | some f => typeAt f p
      | none => none
    | _ => none

/-- How far `ssa.FieldAddr` moves a pointer to a struct. -/
def fieldOffset (sz : Sizes) (fields : List GoType) (i : Nat) : Nat :=
  ((sz.offsetsof fields)[i]?).getD (i * 8)

/-- How far `ssa.IndexAddr` moves a pointer to an array. -/
def indexOffset (sz : Sizes) (elem : GoType) (i : Nat) : Nat := i * sz.sizeof elem

/-- How far the address of the part at a path is from the start. -/
def offsetAt (sz : Sizes) : GoType → List Nat → Nat
  | _, [] => 0
  | t, i :: p =>
    match t.underlying with
    | .array _ elem => indexOffset sz elem i + offsetAt sz elem p
    | .struct fields =>
      match fields[i]? with
      | some f => fieldOffset sz fields i + offsetAt sz f p
      | none => 0
    | _ => 0

mutual

/-- The paths of the leaves, in the order of `layout`. -/
def leafPaths : GoType → List (List Nat)
  | .array len elem => (List.range len).flatMap fun i => (leafPaths elem).map (i :: ·)
  | .struct fields => leafPathsFields 0 fields
  | .named _ t => leafPaths t
  | _ => [[]]

def leafPathsFields : Nat → List GoType → List (List Nat)
  | i, f :: fs => (leafPaths f).map (i :: ·) ++ leafPathsFields (i + 1) fs
  | _, [] => []

end

section Paths

variable (sz : Sizes) {t u : GoType} {p q r : List Nat} {i : Nat}

/-- A path is followed part by part. -/
theorem typeAt_append : ∀ (t : GoType) (p r : List Nat),
    typeAt t (p ++ r) = (typeAt t p).bind (typeAt · r)
  | _, [], _ => rfl
  | t, i :: p, r => by
    simp only [List.cons_append, typeAt]
    split
    · split
      · exact typeAt_append _ p r
      · rfl
    · split
      · exact typeAt_append _ p r
      · rfl
    · rfl

theorem offsetAt_append : ∀ (t : GoType) (p r : List Nat) {u : GoType}, typeAt t p = some u →
    offsetAt sz t (p ++ r) = offsetAt sz t p + offsetAt sz u r
  | t, [], r, u, h => by
    cases h
    simp [offsetAt]
  | t, i :: p, r, u, h => by
    simp only [List.cons_append, typeAt, offsetAt] at h ⊢
    split at h
    · split at h
      · rw [offsetAt_append _ p r h, Nat.add_assoc]
      · cases h
    · split at h
      · rw [offsetAt_append _ p r h, Nat.add_assoc]
      · cases h
    · cases h

/-! ## §2. Parts don't overlap -/

/-- A part of a part, one level down. -/
theorem typeAt_cons (h : typeAt t (i :: p) = some u) :
    ∃ e, typeAt t [i] = some e ∧ typeAt e p = some u ∧
      offsetAt sz t (i :: p) = offsetAt sz t [i] + offsetAt sz e p := by
  have happ := typeAt_append t [i] p
  rw [List.singleton_append, h] at happ
  obtain ⟨e, he, hu⟩ := Option.bind_eq_some_iff.mp happ.symm
  exact ⟨e, he, hu, offsetAt_append sz t [i] p he⟩

/-- What a field or an element is, and where. -/
theorem typeAt_singleton (h : typeAt t [i] = some u) :
    (∃ len, t.underlying = .array len u ∧ i < len ∧ offsetAt sz t [i] = i * sz.sizeof u) ∨
    ∃ fields, t.underlying = .struct fields ∧ fields[i]? = some u ∧
      (sz.offsetsof fields)[i]? = some (offsetAt sz t [i]) := by
  simp only [typeAt, offsetAt] at h ⊢
  split at h
  · rename_i len elem hu
    split at h
    · rename_i hlt
      cases h
      exact .inl ⟨len, hu, hlt, rfl⟩
    · cases h
  · rename_i fields hu
    split at h
    · rename_i f hf
      cases h
      have hlt : i < (sz.offsetsof fields).length := by
        rw [sz.offsets_length]; exact (List.getElem?_eq_some_iff.mp hf).1
      refine .inr ⟨fields, hu, hf, ?_⟩
      simp [fieldOffset, List.getElem?_eq_getElem hlt]
    · cases h
  · cases h

/-- A field or an element is inside the value. -/
theorem offsetAt_singleton_le (h : typeAt t [i] = some u) :
    offsetAt sz t [i] + sz.sizeof u ≤ sz.sizeof t := by
  rw [sz.sizeof_underlying t]
  rcases typeAt_singleton sz h with ⟨len, ht, hlt, hoff⟩ | ⟨fields, ht, hf, hoff⟩
  · rw [ht, hoff]
    calc i * sz.sizeof u + sz.sizeof u = (i + 1) * sz.sizeof u := (Nat.succ_mul ..).symm
      _ ≤ len * sz.sizeof u := Nat.mul_le_mul_right _ hlt
      _ ≤ sz.sizeof (.array len u) := sz.array_le len u
  · rw [ht]
    exact sz.offsets_le fields i u _ hf hoff

/-- It ends before the next ones start. -/
theorem offsetAt_singleton_lt {j : Nat} (hij : i < j) (hi : typeAt t [i] = some u) {v : GoType}
    (hj : typeAt t [j] = some v) : offsetAt sz t [i] + sz.sizeof u ≤ offsetAt sz t [j] := by
  rcases typeAt_singleton sz hi with ⟨len, ht, hlt, hoff⟩ | ⟨fields, ht, hf, hoff⟩ <;>
    rcases typeAt_singleton sz hj with ⟨len', ht', hlt', hoff'⟩ | ⟨fields', ht', hf', hoff'⟩
  · rw [ht] at ht'
    cases ht'
    rw [hoff, hoff', ← Nat.succ_mul]
    exact Nat.mul_le_mul_right _ hij
  · rw [ht] at ht'; cases ht'
  · rw [ht] at ht'; cases ht'
  · rw [ht] at ht'
    cases ht'
    exact sz.offsets_lt fields i j u _ _ hij hf hoff hoff'

/-- **A part is inside the value.** -/
theorem offsetAt_le : ∀ (t : GoType) (p : List Nat) {u : GoType}, typeAt t p = some u →
    offsetAt sz t p + sz.sizeof u ≤ sz.sizeof t
  | t, [], u, h => by cases h; simp [offsetAt]
  | t, i :: p, u, h => by
    obtain ⟨e, he, hu, hoff⟩ := typeAt_cons sz h
    have hin := offsetAt_le e p hu
    have hout := offsetAt_singleton_le sz he
    omega

/-- The part at the path is a leaf. -/
def IsLeaf (t : GoType) (p : List Nat) : Prop :=
  ∃ l, typeAt t p = some l ∧ isAggregateType l = false

/-- A leaf has no parts. -/
theorem typeAt_leaf (h : isAggregateType t = false) (hr : typeAt t r = some u) : r = [] := by
  cases r with
  | nil => rfl
  | cons =>
    simp only [typeAt] at hr
    simp only [isAggregateType] at h
    split at hr <;> simp_all

theorem IsLeaf.eq_of_prefix (hp : IsLeaf t p) (hq : typeAt t q = some u) (h : p <+: q) :
    q = p := by
  obtain ⟨l, hl, hleaf⟩ := hp
  obtain ⟨r, rfl⟩ := h
  rw [typeAt_append, hl, Option.bind_some] at hq
  rw [typeAt_leaf hleaf hq, List.append_nil]

/-- **The leaves are at increasing offsets.** -/
theorem IsLeaf.offset_lt : ∀ {p q : List Nat} {t : GoType}, IsLeaf t p → List.Lex (· < ·) p q →
    IsLeaf t q → offsetAt sz t p < offsetAt sz t q
  | _, _, _, hp, .nil, ⟨_, hl, _⟩ => by cases hp.eq_of_prefix hl List.nil_prefix
  | i :: p, _ :: q, t, ⟨l, hl, hleaf⟩, .cons h, ⟨l', hl', hleaf'⟩ => by
    obtain ⟨e, he, hu, hoff⟩ := typeAt_cons sz hl
    obtain ⟨e', he', hv, hoff'⟩ := typeAt_cons sz hl'
    cases he.symm.trans he'
    have := IsLeaf.offset_lt ⟨l, hu, hleaf⟩ h ⟨l', hv, hleaf'⟩
    omega
  | i :: p, j :: q, t, ⟨l, hl, hleaf⟩, .rel hij, ⟨l', hl', _⟩ => by
    obtain ⟨e, he, hu, hoff⟩ := typeAt_cons sz hl
    obtain ⟨e', he', hv, hoff'⟩ := typeAt_cons sz hl'
    have hin := offsetAt_le sz e p hu
    have hnext := offsetAt_singleton_lt sz hij he he'
    have hpos := sz.leaf_pos l hleaf
    omega

/-- Different leaves are at different offsets. -/
theorem IsLeaf.offset_inj (hp : IsLeaf t p) (hq : IsLeaf t q)
    (h : offsetAt sz t p = offsetAt sz t q) : p = q := by
  rcases lt_trichotomy p q with hlt | heq | hlt
  · exact absurd h (hp.offset_lt sz hlt hq).ne
  · exact heq
  · exact absurd h (hq.offset_lt sz hlt hp).ne'

end Paths

/-! ## §3. The layout lists the leaves -/

section Leaves

variable (sz : Sizes) {t : GoType} {p : List Nat}

@[simp] theorem isAggregateType_named (name : String) (t : GoType) :
    isAggregateType (.named name t) = isAggregateType t := by
  simp [isAggregateType, GoType.underlying]

/-- Below the top, a named type is its underlying type. -/
theorem typeAt_named_cons (name : String) (t : GoType) (i : Nat) (p : List Nat) :
    typeAt (.named name t) (i :: p) = typeAt t (i :: p) := by
  simp only [typeAt, GoType.underlying]

theorem isLeaf_named {name : String} : IsLeaf (.named name t) p ↔ IsLeaf t p := by
  cases p with
  | nil => simp [IsLeaf, typeAt]
  | cons => simp only [IsLeaf, typeAt_named_cons]

theorem isLeaf_array {len : Nat} {elem : GoType} :
    IsLeaf (.array len elem) p ↔ ∃ i < len, ∃ q, IsLeaf elem q ∧ i :: q = p := by
  cases p with
  | nil => simp [IsLeaf, typeAt, isAggregateType, GoType.underlying]
  | cons i =>
    simp only [IsLeaf, typeAt, GoType.underlying]
    by_cases hi : i < len <;> simp [hi]

theorem isLeaf_struct {fields : List GoType} :
    IsLeaf (.struct fields) p ↔ ∃ i f, fields[i]? = some f ∧ ∃ q, IsLeaf f q ∧ i :: q = p := by
  cases p with
  | nil => simp [IsLeaf, typeAt, isAggregateType, GoType.underlying]
  | cons i =>
    simp only [IsLeaf, typeAt, GoType.underlying]
    cases hf : fields[i]? with
    | none | some => simp [hf]

mutual

/-- **The paths listed are those of the leaves.** -/
theorem mem_leafPaths : ∀ (t : GoType) (p : List Nat), p ∈ leafPaths t ↔ IsLeaf t p
  | .array len elem, p => by
    simp only [leafPaths, List.mem_flatMap, List.mem_range, List.mem_map, isLeaf_array,
      mem_leafPaths elem]
  | .struct fields, p => by
    rw [leafPaths, mem_leafPathsFields fields 0 p, isLeaf_struct]
    simp
  | .named name t, p => by rw [leafPaths, mem_leafPaths t, isLeaf_named]
  | .basic _, p | .pointer, p | .slice, p | .map, p | .chan, p | .func, p | .interface, p => by
    cases p <;> simp [leafPaths, IsLeaf, typeAt, isAggregateType, GoType.underlying]

theorem mem_leafPathsFields : ∀ (fs : List GoType) (k : Nat) (p : List Nat),
    p ∈ leafPathsFields k fs ↔ ∃ i f, fs[i]? = some f ∧ ∃ q, IsLeaf f q ∧ (k + i) :: q = p
  | [], k, p => by simp [leafPathsFields]
  | f :: fs, k, p => by
    rw [leafPathsFields, List.mem_append, List.mem_map, mem_leafPathsFields fs (k + 1) p]
    simp only [mem_leafPaths f]
    constructor
    · rintro (⟨q, hq, rfl⟩ | ⟨i, g, hg, q, hq, rfl⟩)
      · exact ⟨0, f, rfl, q, hq, rfl⟩
      · exact ⟨i + 1, g, hg, q, hq, by rw [Nat.add_assoc, Nat.add_comm 1 i]⟩
    · rintro ⟨i, g, hg, q, hq, rfl⟩
      cases i with
      | zero => cases hg; exact .inl ⟨q, hq, rfl⟩
      | succ i => exact .inr ⟨i, g, hg, q, hq, by rw [Nat.add_assoc, Nat.add_comm 1 i]⟩

end

mutual

/-- The paths are listed in order. -/
theorem leafPaths_sorted : ∀ t : GoType, (leafPaths t).Pairwise (List.Lex (· < ·))
  | .array len elem => by
    rw [leafPaths, List.pairwise_flatMap]
    refine ⟨fun i _ => (leafPaths_sorted elem).map _ fun _ _ => .cons, ?_⟩
    refine List.pairwise_lt_range.imp fun hlt => ?_
    simp only [List.mem_map]
    rintro _ ⟨q, -, rfl⟩ _ ⟨q', -, rfl⟩
    exact .rel hlt
  | .struct fields => by rw [leafPaths]; exact leafPathsFields_sorted fields 0
  | .named _ t => by rw [leafPaths]; exact leafPaths_sorted t
  | .basic _ | .pointer | .slice | .map | .chan | .func | .interface => List.pairwise_singleton _ []

theorem leafPathsFields_sorted : ∀ (fs : List GoType) (k : Nat),
    (leafPathsFields k fs).Pairwise (List.Lex (· < ·))
  | [], k => by simp [leafPathsFields]
  | f :: fs, k => by
    rw [leafPathsFields, List.pairwise_append]
    refine ⟨(leafPaths_sorted f).map _ fun _ _ => .cons, leafPathsFields_sorted fs (k + 1), ?_⟩
    intro p hp q hq
    obtain ⟨p, -, rfl⟩ := List.mem_map.mp hp
    obtain ⟨i, g, -, q, -, rfl⟩ := (mem_leafPathsFields fs (k + 1) _).mp hq
    exact .rel (by omega)

end

/-- The leaf at a path. -/
def leafAt (sz : Sizes) (t : GoType) (p : List Nat) : Leaf :=
  ⟨offsetAt sz t p, (typeAt t p).getD t⟩

theorem leafPaths_of_leaf : ∀ (t : GoType), isAggregateType t = false → leafPaths t = [[]]
  | .named name t, h => by
    rw [leafPaths]
    exact leafPaths_of_leaf t ((isAggregateType_named name t).symm.trans h)
  | .array _ _, h | .struct _, h => by simp [isAggregateType, GoType.underlying] at h
  | .basic _, _ | .pointer, _ | .slice, _ | .map, _ | .chan, _ | .func, _ | .interface, _ => by
    simp [leafPaths]

theorem leafAt_cons_array {len i : Nat} {elem : GoType} (hi : i < len) (hp : IsLeaf elem p) :
    leafAt sz (.array len elem) (i :: p) =
      (leafAt sz elem p).shift (i * sz.sizeof elem) := by
  obtain ⟨l, hl, -⟩ := hp
  simp [leafAt, Leaf.shift, typeAt, offsetAt, GoType.underlying, hi, hl, indexOffset, Nat.add_comm]

theorem leafAt_cons_struct {fields : List GoType} {i off : Nat} {f : GoType}
    (hf : fields[i]? = some f) (hoff : (sz.offsetsof fields)[i]? = some off) (hp : IsLeaf f p) :
    leafAt sz (.struct fields) (i :: p) = (leafAt sz f p).shift off := by
  obtain ⟨l, hl, -⟩ := hp
  simp [leafAt, Leaf.shift, typeAt, offsetAt, GoType.underlying, hf, hoff, hl, fieldOffset,
    Nat.add_comm]

theorem leafAt_named {name : String} (ht : isAggregateType t = true) (hp : IsLeaf t p) :
    leafAt sz (.named name t) p = leafAt sz t p := by
  obtain ⟨l, hl, hleaf⟩ := hp
  cases p with
  | nil => cases hl; rw [ht] at hleaf; cases hleaf
  | cons =>
    simp only [leafAt, typeAt_named_cons, hl, Option.getD_some, Leaf.mk.injEq, and_true]
    simp only [offsetAt, GoType.underlying]

mutual

/-- **`layout` lists the leaves**, each at the offset that the derivation of
its address gives. -/
theorem layout_eq : ∀ t : GoType, layout sz t = (leafPaths t).map (leafAt sz t)
  | .array len elem => by
    rw [layout, leafPaths, List.map_flatMap]
    refine List.flatMap_congr fun i hi => ?_
    rw [layout_eq elem, List.map_map, List.map_map]
    refine List.map_congr_left fun p hp => ?_
    exact (leafAt_cons_array sz (List.mem_range.mp hi) ((mem_leafPaths elem p).mp hp)).symm
  | .struct fields => by
    rw [layout, leafPaths]
    exact layoutFields_eq fields fields 0 rfl
  | .named name t => by
    rw [layout, leafPaths]
    split
    · rename_i ht
      rw [layout_eq t]
      refine List.map_congr_left fun p hp => ?_
      exact (leafAt_named sz ht ((mem_leafPaths t p).mp hp)).symm
    · rename_i ht
      rw [leafPaths_of_leaf t (by simpa using ht)]
      simp [leafAt, offsetAt, typeAt]
  | .basic _ | .pointer | .slice | .map | .chan | .func | .interface => by
    simp [layout, leafPaths, leafAt, offsetAt, typeAt]

/-- The fields that are left after the first `k`. -/
theorem layoutFields_eq : ∀ (fs fields : List GoType) (k : Nat), fields.drop k = fs →
    layoutFields sz ((sz.offsetsof fields).drop k) fs =
      (leafPathsFields k fs).map (leafAt sz (.struct fields))
  | [], fields, k, _ => by
    rw [leafPathsFields]
    unfold layoutFields
    split <;> simp_all
  | f :: fs, fields, k, h => by
    have hf : fields[k]? = some f := by
      have := congrArg (·[0]?) h
      simpa using this
    obtain ⟨off, hoff⟩ : ∃ off, (sz.offsetsof fields)[k]? = some off := by
      refine ⟨_, List.getElem?_eq_getElem ?_⟩
      rw [sz.offsets_length]
      exact (List.getElem?_eq_some_iff.mp hf).1
    have hdrop : (sz.offsetsof fields).drop k = off :: (sz.offsetsof fields).drop (k + 1) := by
      obtain ⟨hlt, rfl⟩ := List.getElem?_eq_some_iff.mp hoff
      exact List.drop_eq_getElem_cons hlt
    have hnext : fields.drop (k + 1) = fs := by
      rw [← List.drop_drop, h]; rfl
    rw [hdrop, layoutFields, leafPathsFields, List.map_append, layoutFields_eq fs fields _ hnext,
      layout_eq f, List.map_map, List.map_map]
    congr 1
    refine List.map_congr_left fun p hp => ?_
    exact (leafAt_cons_struct sz hf hoff ((mem_leafPaths f p).mp hp)).symm

end

end Leaves

end Giri.Memory
