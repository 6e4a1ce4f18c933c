/-
Giri.Memory.BulkElems — what append, copy and clear do to the elements.

The elements of a slice are its leaves in the element store, `sizeof t` apart.
So an element that is set is read back, and everything else is as it was,
wherever the slices that are read from lie: they are read before anything is
written.

append may need a new backing array. `arena.New` counts its IDs apart if the
checks are skipped, so the ID of the new array can be one that is in use:
`AppendOK` says when that does no harm.
-/
import Giri.Memory.BulkTheorems
import Giri.Memory.Project

namespace Giri.Memory

open Value

variable {S : Type} {cfg : MemConfig S} {m m₀ m' : Store S} {t : GoType} {p q : Pointer} {r : Path}
  {sv : SliceValue} {v : Val S} {vs : List (Val S)} {i j : Nat} {b : AllocID}

/-- The key of a leaf of element `i`. -/
def elemKey (cfg : MemConfig S) (p : Pointer) (t : GoType) (i : Nat) (r : Path) : Int :=
  (elemPtr cfg p t i).offset + offsetAt cfg.sizes t r

/-- Elements do not overlap: they are those of an array. -/
theorem elemKey_inj {r' : Path} (hr : IsLeaf t r) (hr' : IsLeaf t r')
    (h : elemKey cfg p t i r = elemKey cfg p t j r') : i = j := by
  have hi : IsLeaf (.array (i + j + 1) t) (i :: r) := isLeaf_array.mpr ⟨i, by omega, r, hr, rfl⟩
  have hj : IsLeaf (.array (i + j + 1) t) (j :: r') := isLeaf_array.mpr ⟨j, by omega, r', hr', rfl⟩
  have hoff : offsetAt cfg.sizes (.array (i + j + 1) t) (i :: r) =
      offsetAt cfg.sizes (.array (i + j + 1) t) (j :: r') := by
    simp only [elemKey, elemPtr, derive, Int.add_assoc] at h
    exact_mod_cast Int.add_left_cancel h
  exact (List.cons.inj (hi.offset_inj cfg.sizes hj hoff)).1

/-- What is not a leaf of the elements that are set stays. -/
theorem setElems_other (hp : sv.backing = some p) {off : Int} (vs : List (Val S)) :
    ∀ (m : Store S) (i : Nat),
    (∀ k < vs.length, ∀ r, IsLeaf t r → ¬(b = p.alloc ∧ off = elemKey cfg p t (i + k) r)) →
      (setElems cfg sv t m i vs).elems b off = m.elems b off := by
  induction vs with
  | nil => exact fun _ _ _ => rfl
  | cons v vs ih =>
    intro m i h
    rw [setElems, ih _ (i + 1) fun k hk => ?_]
    · simp only [setElemAt, hp]
      exact writeElems_of_ne (h 0 (by simp))
    · have := h (k + 1) (by simpa using hk)
      rwa [← Nat.add_assoc, Nat.add_right_comm] at this

theorem setElems_at (hp : sv.backing = some p) (hr : IsLeaf t r)
    (vs : List (Val S)) : ∀ (m : Store S) (i k : Nat) {v : Val S}, vs[k]? = some v →
      (setElems cfg sv t m i vs).elems p.alloc (elemKey cfg p t (i + k) r) =
        some (v.leaf cfg t r) := by
  induction vs with
  | nil => exact fun _ _ _ _ h => nomatch h
  | cons v vs ih =>
    intro m i k v' hk
    cases k with
    | zero =>
      cases hk
      rw [setElems, setElems_other hp vs]
      · simp only [setElemAt, hp]
        exact writeElems_leaf hr
      · rintro k hk r' hr' ⟨-, he⟩
        have := elemKey_inj hr hr' he
        omega
    | succ k =>
      rw [setElems, ← Nat.add_assoc, Nat.add_right_comm]
      exact ih _ (i + 1) k (by simpa using hk)

/-- What the leaves are is what is read. -/
theorem readAt_ext (h : ∀ r, IsLeaf t r →
      m.elems p.alloc (p.offset + offsetAt cfg.sizes t r) =
        some ((readAt cfg m₀ q t).leaf cfg t r)) : readAt cfg m p t = readAt cfg m₀ q t := by
  refine readAt_congr fun l hl => ?_
  rw [layout_eq, List.mem_map] at hl
  obtain ⟨r, hr, rfl⟩ := hl
  have hr := (mem_leafPaths t r).mp hr
  have hkey := h r hr
  rw [readAt_leaf hr] at hkey
  simp only [leafAt, elemOrZero] at hkey ⊢
  rw [hkey]

theorem elemAt_eq (hp : sv.backing = some p) (i : Nat) :
    elemAt cfg m sv t i = readAt cfg m (elemPtr cfg p t i) t := by
  simp only [elemAt, hp, readAt]

/-- **Elements that are set are read back.** -/
theorem elemAt_setElems (hp : sv.backing = some p) {k : Nat} (hj : i + k = j)
    (hk : vs[k]? = some v)
    (hv : ∀ r, IsLeaf t r → v.leaf cfg t r = (readAt cfg m₀ q t).leaf cfg t r) :
    elemAt cfg (setElems cfg sv t m i vs) sv t j = readAt cfg m₀ q t := by
  subst hj
  rw [elemAt_eq hp]
  refine readAt_ext fun r hr => ?_
  rw [← hv r hr]
  exact setElems_at hp hr vs m i k hk

/-- The elements before them stay. -/
theorem elemAt_setElems_lt (hj : j < i) :
    elemAt cfg (setElems cfg sv t m i vs) sv t j = elemAt cfg m sv t j := by
  cases hp : sv.backing with
  | none => simp only [elemAt, hp]
  | some =>
    rw [elemAt_eq hp, elemAt_eq hp]
    refine readAt_congr fun l hl => ?_
    rw [layout_eq, List.mem_map] at hl
    obtain ⟨r, hr, rfl⟩ := hl
    rw [elemOrZero, setElems_other hp vs]
    · rfl
    · rintro k hk r' hr' ⟨-, he⟩
      have := elemKey_inj ((mem_leafPaths t r).mp hr) hr' he
      omega

/-- A slice whose backing array is one of the allocations in use. -/
structure SliceOK (used : AllocID → Prop) (sv : SliceValue) : Prop where
  len : 0 ≤ sv.len
  cap : sv.len ≤ sv.cap
  nil : sv.backing = none → sv.cap = 0
  alloc : ∀ p, sv.backing = some p → used p.alloc

theorem sliceElems_eq {used : AllocID → Prop} (h : SliceOK used sv) :
    sliceElems cfg m₀ (some sv) t = (List.range sv.len.toNat).map (elemAt cfg m₀ sv t) := by
  unfold sliceElems
  cases hp : sv.backing with
  | some => simp [hp]
  | none =>
    have hlen : sv.len.toNat = 0 := by
      have := h.len
      have := h.cap
      have := h.nil hp
      omega
    simp [hp, hlen]

/-- What is read from a slice is at some address. -/
theorem readAt_of_mem {s : Option SliceValue} (hv : v ∈ sliceElems cfg m s t) :
    ∃ q, v = readAt cfg m q t := by
  cases s with
  | none => cases hv
  | some sv =>
    unfold sliceElems at hv
    cases hp : sv.backing with
    | none => simp [hp] at hv
    | some =>
      simp only [hp, Option.isNone_some, Bool.false_eq_true, if_false, List.mem_map] at hv
      obtain ⟨i, -, rfl⟩ := hv
      exact ⟨_, elemAt_eq hp i⟩

theorem map_elemAt_setElems (hp : sv.backing = some p)
    (hvs : ∀ v ∈ vs, ∃ m₀ q, v = readAt cfg m₀ q t) (i : Nat) :
    (List.range vs.length).map (fun k => elemAt cfg (setElems cfg sv t m i vs) sv t (i + k)) = vs := by
  refine List.ext_getElem? fun k => ?_
  rw [List.getElem?_map]
  cases hk : vs[k]? with
  | none => simpa using hk
  | some v =>
    obtain ⟨m₀, q, rfl⟩ := hvs v (List.mem_of_getElem? hk)
    rw [List.getElem?_range (List.getElem?_eq_some_iff.mp hk).1, Option.map_some,
      elemAt_setElems hp rfl hk fun _ _ => rfl]

theorem sliceElems_setElems (hp : sv.backing = some p) (hlen : sv.len = vs.length)
    (hvs : ∀ v ∈ vs, ∃ m₀ q, v = readAt cfg m₀ q t) :
    sliceElems cfg (setElems cfg sv t m 0 vs) (some sv) t = vs := by
  have hmap := map_elemAt_setElems (m := m) hp hvs 0
  simp only [Nat.zero_add] at hmap
  simpa [sliceElems, hp, hlen] using hmap

/-- What setting elements in place leaves alone. -/
theorem setElems_alloc (hp : sv.backing = some p) (vs : List (Val S)) (i : Nat)
    (hb : b ≠ p.alloc) : (setElems cfg sv t m i vs).elems b = m.elems b :=
  funext fun _ => setElems_other hp vs m i fun _ _ _ _ hk => hb hk.1

/-- The slice `r`, in memory `m'`, is `s` with elements appended. -/
structure Appended (cfg : MemConfig S) (t : GoType) (used : AllocID → Prop) (m : Store S)
    (s : SliceValue) (extra : List (Val S)) (r : SliceValue) (m' : Store S) : Prop where
  elems : sliceElems cfg m' (some r) t = sliceElems cfg m (some s) t ++ extra
  same : sliceElems cfg m' (some s) t = sliceElems cfg m (some s) t
  other : ∀ b, used b → (∀ p, s.backing = some p → b ≠ p.alloc) → m'.elems b = m.elems b
  shares : r.backing.map Pointer.alloc = s.backing.map Pointer.alloc ↔
    s.len + extra.length ≤ s.cap
  ok : SliceOK (fun b => used b ∨ b = m.nextAlloc + 1) r

/-- An allocation holds the elements `vs`, from offset 0 on. -/
def HoldsElems (cfg : MemConfig S) (m : Store S) (id : AllocID) (t : GoType) (vs : List (Val S)) :
    Prop :=
  ∀ k v r, vs[k]? = some v → IsLeaf t r →
    m.elems id (elemKey cfg ⟨id, 0⟩ t k r) = some (v.leaf cfg t r)

/-- **When append is Go's**: there is room, or the ID that comes next is not
that of the backing array, nor of an allocation in use that holds something
else than append will write. -/
def AppendOK (cfg : MemConfig S) (t : GoType) (used : AllocID → Prop) (m : Store S)
    (s : SliceValue) (extra : List (Val S)) : Prop :=
  s.len + extra.length ≤ s.cap ∨
    (∀ p, s.backing = some p → p.alloc ≠ m.nextAlloc + 1) ∧
      (used (m.nextAlloc + 1) →
        HoldsElems cfg m (m.nextAlloc + 1) t (sliceElems cfg m (some s) t ++ extra))

section

variable {used : AllocID → Prop} {s : SliceValue} {extra : List (Val S)}

theorem appended_inPlace (hs : SliceOK used s)
    (hextra : ∀ v ∈ extra, ∃ q, v = readAt cfg m q t) (hp : s.backing = some p)
    (hfits : s.len + extra.length ≤ s.cap) :
    Appended cfg t used m s extra { s with len := s.len + extra.length }
      (setElems cfg s t m s.len.toNat extra) := by
  have hlen := hs.len
  have hgrown : SliceOK used { s with len := s.len + extra.length } :=
    ⟨by simp only; omega, hfits, hs.nil, hs.alloc⟩
  have hsame : sliceElems cfg (setElems cfg s t m s.len.toNat extra) (some s) t =
      sliceElems cfg m (some s) t := by
    rw [sliceElems_eq hs, sliceElems_eq hs]
    exact List.map_congr_left fun j hj => elemAt_setElems_lt (List.mem_range.mp hj)
  refine ⟨?_, hsame, fun b _ hb => setElems_alloc hp extra _ (hb p hp), by simp [hfits],
    hgrown.len, hgrown.cap, hgrown.nil, fun p hp => .inl (hgrown.alloc p hp)⟩
  have hsum : (s.len + extra.length).toNat = s.len.toNat + extra.length := by omega
  rw [← hsame, sliceElems_eq hgrown, sliceElems_eq hs, hsum, List.range_add, List.map_append,
    List.map_map]
  exact congrArg (_ ++ ·) (map_elemAt_setElems hp (fun v hv => ⟨m, hextra v hv⟩) s.len.toNat)

theorem newConcreteSlice_elems (hvs : ∀ v ∈ vs, ∃ m₀ q, v = readAt cfg m₀ q t)
    (capacity : Nat) (h : newConcreteSlice cfg m t vs capacity = (sv, m')) :
    sliceElems cfg m' (some sv) t = vs ∧ sv.backing = some ⟨m.nextAlloc + 1, 0⟩ ∧
      SliceOK (· = m.nextAlloc + 1) sv ∧ ∀ b ≠ m.nextAlloc + 1, m'.elems b = m.elems b := by
  cases h
  refine ⟨sliceElems_setElems rfl rfl hvs, rfl, ⟨by simp, by simp, nofun, ?_⟩, ?_⟩
  · rintro p ⟨⟩
    rfl
  intro b hb
  rw [setElems_alloc rfl _ 0 hb]
  change (marked cfg _ _ _).elems b = _
  rw [marked_elems]

/-- The new allocation is as it was exactly if it held the elements. -/
theorem newConcreteSlice_unchanged {capacity : Nat}
    (h : newConcreteSlice cfg m t vs capacity = (sv, m')) :
    m'.elems (m.nextAlloc + 1) = m.elems (m.nextAlloc + 1) ↔
      HoldsElems cfg m (m.nextAlloc + 1) t vs := by
  have hset : ∀ k v r, vs[k]? = some v → IsLeaf t r → m'.elems (m.nextAlloc + 1)
      (elemKey cfg ⟨m.nextAlloc + 1, 0⟩ t k r) = some (v.leaf cfg t r) := by
    intro k v r hk hr
    cases h
    have hp : (newConcreteSlice cfg m t vs capacity).1.backing = some ⟨m.nextAlloc + 1, 0⟩ := rfl
    rw [← Nat.zero_add k]
    exact setElems_at hp hr vs _ 0 k hk
  refine ⟨fun heq k v r hk hr => heq ▸ hset k v r hk hr, fun hholds => funext fun off => ?_⟩
  by_cases hkey : ∃ k v r, vs[k]? = some v ∧ IsLeaf t r ∧
      off = elemKey cfg ⟨m.nextAlloc + 1, 0⟩ t k r
  · obtain ⟨k, v, r, hk, hr, rfl⟩ := hkey
    exact (hset k v r hk hr).trans (hholds k v r hk hr).symm
  · cases h
    refine (setElems_other rfl vs _ 0 ?_).trans ?_
    · rintro k hk r hr ⟨-, rfl⟩
      exact hkey ⟨k, _, r, List.getElem?_eq_getElem hk, hr, by rw [Nat.zero_add]⟩
    · change (marked cfg _ _ _).elems _ _ = _
      rw [marked_elems]

theorem sliceElems_congr
    (h : ∀ p, s.backing = some p → m'.elems p.alloc = m.elems p.alloc) :
    sliceElems cfg m' (some s) t = sliceElems cfg m (some s) t := by
  simp only [sliceElems]
  split
  · rfl
  · refine List.map_congr_left fun j _ => ?_
    unfold elemAt
    cases hp : s.backing with
    | none => rfl
    | some p =>
      refine readAt_congr fun l _ => ?_
      simp only [elemOrZero, elemPtr, derive, h p hp]

theorem appended_new_iff (hextra : ∀ v ∈ extra, ∃ q, v = readAt cfg m q t)
    (hfull : ¬ s.len + extra.length ≤ s.cap) (capacity : Nat) :
    Appended cfg t used m s extra
      (newConcreteSlice cfg m t (sliceElems cfg m (some s) t ++ extra) capacity).1
      (newConcreteSlice cfg m t (sliceElems cfg m (some s) t ++ extra) capacity).2 ↔
      AppendOK cfg t used m s extra := by
  have hread : ∀ v ∈ sliceElems cfg m (some s) t ++ extra, ∃ m₀ q, v = readAt cfg m₀ q t := by
    intro v hv
    refine ⟨m, ?_⟩
    rcases List.mem_append.mp hv with hv | hv
    · exact readAt_of_mem hv
    · exact hextra v hv
  rcases hnew : newConcreteSlice cfg m t (sliceElems cfg m (some s) t ++ extra) capacity with
    ⟨sv, m'⟩
  obtain ⟨helems, hp, hok, hother⟩ := newConcreteSlice_elems hread capacity hnew
  have hunchanged := newConcreteSlice_unchanged hnew
  have hown : (∀ p, s.backing = some p → p.alloc ≠ m.nextAlloc + 1) ↔
      ¬ some (m.nextAlloc + 1) = s.backing.map Pointer.alloc := by
    cases s.backing with
    | none => simp
    | some p => simp [eq_comm]
  constructor
  · intro h
    have hne := h.shares.not.mpr hfull
    simp only [hp, Option.map_some] at hne
    refine .inr ⟨hown.mpr hne, fun hused => hunchanged.mp (h.other _ hused fun p hsp => ?_)⟩
    exact (hown.mpr hne p hsp).symm
  · rintro (hfits | ⟨hne, hholds⟩)
    · exact absurd hfits hfull
    · refine ⟨helems, sliceElems_congr fun p hsp => hother _ (hne p hsp), fun b hb _ => ?_, ?_,
        hok.len, hok.cap, hok.nil, fun p hp => .inr (hok.alloc p hp)⟩
      · by_cases hb' : b = m.nextAlloc + 1
        · subst hb'
          exact hunchanged.mpr (hholds hb)
        · exact hother b hb'
      · simp only [hp, Option.map_some]
        exact iff_of_false (hown.mp hne) hfull

/-- A nil slice has no room for an element. -/
theorem not_fits (hs : SliceOK used s) (hroom : hasRoom s extra.length = false)
    (hne : extra ≠ []) : ¬ s.len + extra.length ≤ s.cap := by
  intro hfits
  cases hsp : s.backing with
  | none =>
    have hlen := hs.len
    have hpos := List.length_pos_iff.mpr hne
    have := hs.nil hsp
    omega
  | some => simp [hasRoom, hsp, hfits] at hroom

end

/-- Only the first `n` elements of the slice are different. -/
def SameOutside (cfg : MemConfig S) (t : GoType) (sv : SliceValue) (n : Nat) (m m' : Store S) :
    Prop :=
  ∀ b off, (∀ p k r, sv.backing = some p → k < n → IsLeaf t r →
    ¬(b = p.alloc ∧ off = elemKey cfg p t k r)) → m'.elems b off = m.elems b off

theorem sameOutside_setElems {s : SliceValue} (hp : s.backing = some p) (vs : List (Val S)) :
    SameOutside cfg t s vs.length m (setElems cfg s t m 0 vs) := by
  intro b off h
  refine setElems_other hp vs m 0 fun k hk r hr => ?_
  rw [Nat.zero_add]
  exact h p k r hp hk hr

/-- Without checks, `p := arena.New[int](a); q := arena.New[int](a); *q = 7`,
and then the array of the arguments of `append([]int(nil), 1)`. -/
def twoArenas : Store Int :=
  let cfg := { numbers false with skipChecks := true }
  let m := (handleAlloc cfg (handleAlloc cfg {}).2).2
  let m := (storeConcrete cfg m (.tracked ⟨2, 0⟩) (.scalar 7) (.basic .int) 8).1
  let m := (allocate cfg m 8).2
  (storeConcrete cfg m (.tracked ⟨1, 0⟩) (.scalar 1) (.basic .int) 8).1

end Giri.Memory
