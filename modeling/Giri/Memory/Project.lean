/-
Giri.Memory.Project — parts of array and struct values.

A part of a value is looked up in its leaves, by a binary search for the
offset (`project`); a part in memory is loaded from its own address. The two
agree if the whole can be read. If not, the load gives the zero value: parts
that have been written are lost (`half_written_project`), and storing the
value back initialises what was not. `projection_exact` says exactly when
nothing is lost.
-/
import Giri.Memory.StoreTheorems

namespace Giri.Memory

open Value Function Transition

/-! ## §1. Selecting a part -/

/-- The loop of `sort.Search`. -/
def search (f : Nat → Bool) (i j : Nat) : Nat :=
  if i < j then
    let h := (i + j) / 2
    if f h then search f i h else search f (h + 1) j
  else i
termination_by j - i

variable {S : Type} (cfg : MemConfig S)

/-- `at` in `project`. -/
def searchLeaf (leaves : List Leaf) (vals : List (Val S)) (o : Nat) (t : GoType) : Val S :=
  let i := search (fun i => (leaves[i]?).any (o ≤ ·.off)) 0 leaves.length
  if (leaves[i]?).any (·.off = o) then vals.getD i (concreteZero cfg t) else concreteZero cfg t

def project (v : Val S) (off : Nat) (sub : GoType) : Val S :=
  match v with
  | .scalar _ => .scalar cfg.stdlibOpaque
  | .zeroAggregate => concreteZero cfg sub
  | .aggregate leaves vals =>
    if isAggregateType sub then
      let ls := layout cfg.sizes sub
      .aggregate ls (ls.map fun l => searchLeaf cfg leaves vals (off + l.off) l.type)
    else searchLeaf cfg leaves vals off sub

/-- `fieldConcrete` and `indexArrayConcrete` along a path; `none` if an index
is out of range. -/
def select : Val S → GoType → Path → Option (Val S)
  | v, _, [] => some v
  | v, t, i :: path =>
    match t.underlying with
    | .array len elem =>
      if i < len then select (project cfg v (indexOffset cfg.sizes elem i) elem) elem path else none
    | .struct fields =>
      match fields[i]? with
      | some f => select (project cfg v (fieldOffset cfg.sizes fields i) f) f path
      | none => none
    | _ => none

/-! ## §2. The leaves are found -/

/-- The search finds where `f` becomes true. -/
theorem search_eq {f : Nat → Bool} {n : Nat} : ∀ {i j : Nat},
    (∀ k, i ≤ k → k < j → (f k = true ↔ n ≤ k)) → i ≤ n → n ≤ j → search f i j = n := by
  intro i j
  fun_induction search f i j with
  | case1 i j hlt h hf ih =>
    intro hmono hi hj
    have hle := (hmono h (by omega) (by omega)).mp hf
    exact ih (fun k hk hkj => hmono k hk (by omega)) hi hle
  | case2 i j hlt h hf ih =>
    intro hmono hi hj
    have hle : ¬n ≤ h := fun hle => hf ((hmono h (by omega) (by omega)).mpr hle)
    exact ih (fun k hk hkj => hmono k (by omega) hkj) (by omega) hj
  | case3 i j hlt =>
    intro _ hi hj
    omega

variable {cfg} {m : Store S} {p : Pointer} {t u : GoType} {path : Path}

/-- The leaf of a layout at an offset. -/
theorem search_layout {sz : Sizes} {n : Nat} {l : Leaf} (hn : (layout sz t)[n]? = some l) :
    search (fun i => ((layout sz t)[i]?).any (l.off ≤ ·.off)) 0 (layout sz t).length = n := by
  obtain ⟨hlt, rfl⟩ := List.getElem?_eq_some_iff.mp hn
  have hsorted := List.pairwise_iff_getElem.mp (List.pairwise_map.mp (layout_sorted sz t))
  refine search_eq ?_ (Nat.zero_le n) hlt.le
  intro k _ hk
  rw [List.getElem?_eq_getElem hk]
  simp only [Option.any_some, decide_eq_true_eq]
  rcases Nat.lt_trichotomy k n with hkn | rfl | hkn
  · have := hsorted k n hk hlt hkn
    omega
  · simp
  · have := hsorted n k hlt hk hkn
    omega

theorem searchLeaf_eq {f : Leaf → Val S} {l : Leaf} (hl : l ∈ layout cfg.sizes t) (u : GoType) :
    searchLeaf cfg (layout cfg.sizes t) ((layout cfg.sizes t).map f) l.off u = f l := by
  obtain ⟨n, hn⟩ := List.mem_iff_getElem?.mp hl
  simp [searchLeaf, search_layout hn, hn]

/-- A leaf of a part is a leaf of the whole. -/
theorem leaf_mem_layout {i : Nat} (hu : typeAt t [i] = some u) {l : Leaf}
    (hl : l ∈ layout cfg.sizes u) : ⟨offsetAt cfg.sizes t [i] + l.off, l.type⟩ ∈ layout cfg.sizes t := by
  rw [layout_eq, List.mem_map] at hl ⊢
  obtain ⟨r, hr, rfl⟩ := hl
  obtain ⟨v, hv, hleaf⟩ := (mem_leafPaths u r).mp hr
  have htype : typeAt t ([i] ++ r) = some v := by rw [typeAt_append, hu]; exact hv
  refine ⟨[i] ++ r, (mem_leafPaths t _).mpr ⟨v, htype, hleaf⟩, ?_⟩
  simp only [leafAt, htype, hv, Option.getD_some, offsetAt_append cfg.sizes t [i] r hu]

theorem leaf_self_mem (h : isAggregateType u = false) : ⟨0, u⟩ ∈ layout cfg.sizes u := by
  rw [layout_eq, leafPaths_of_leaf u h]
  simp [leafAt, offsetAt, typeAt]

theorem isAggregateType_of_typeAt {i : Nat} (hu : typeAt t [i] = some u) :
    isAggregateType t = true := by
  rw [typeAt] at hu
  unfold isAggregateType
  split at hu <;> simp_all

/-- One step. -/
theorem project_readAt {i : Nat} (hu : typeAt t [i] = some u) :
    project cfg (readAt cfg m p t) (offsetAt cfg.sizes t [i]) u =
      readAt cfg m ⟨p.alloc, p.offset + offsetAt cfg.sizes t [i]⟩ u := by
  simp only [readAt, isAggregateType_of_typeAt hu, if_true, gatherAggregate, project]
  split
  · refine congrArg (Val.aggregate _) (List.map_congr_left fun l hl => ?_)
    rw [searchLeaf_eq (leaf_mem_layout hu hl)]
    simp [Int.add_assoc]
  · rename_i hleaf
    exact searchLeaf_eq (leaf_mem_layout hu (leaf_self_mem (by simpa using hleaf))) u

theorem select_cons {i : Nat} {v : Val S} (hu : typeAt t [i] = some u) :
    select cfg v t (i :: path) = select cfg (project cfg v (offsetAt cfg.sizes t [i]) u) u path := by
  rcases typeAt_singleton cfg.sizes hu with ⟨len, ht, hlt, hoff⟩ | ⟨fields, ht, hf, hoff⟩
  · simp [select, ht, hlt, hoff, indexOffset]
  · simp [select, ht, hf, offsetAt]

/-- **Selecting from what is at an address** is reading at the address of the part. -/
theorem select_readAt : ∀ {path : Path} {p : Pointer} {t : GoType}, typeAt t path = some u →
    select cfg (readAt cfg m p t) t path =
      some (readAt cfg m ⟨p.alloc, p.offset + offsetAt cfg.sizes t path⟩ u)
  | [], p, t, hu => by
    cases hu
    simp [select, offsetAt]
  | i :: path, p, t, hu => by
    obtain ⟨e, he, hu, hoff⟩ := typeAt_cons cfg.sizes hu
    rw [select_cons he, project_readAt he, select_readAt hu, hoff, Int.natCast_add, Int.add_assoc]

theorem select_concreteZero : ∀ {path : Path} {t : GoType}, typeAt t path = some u →
    select cfg (concreteZero cfg t) t path = some (concreteZero cfg u)
  | [], t, hu => by
    cases hu
    rfl
  | i :: path, t, hu => by
    obtain ⟨e, he, hu, -⟩ := typeAt_cons cfg.sizes hu
    rw [select_cons he, concreteZero, if_pos (isAggregateType_of_typeAt he)]
    exact select_concreteZero hu

/-! ## §3. Loads and stores -/

/-- A store that is reported changes nothing. -/
theorem handleStore_of_not_writable {size : Nat} (h : ¬ Writable cfg m p size) (val : Val S) :
    ∃ err, handleStore cfg m p val size = (m, some err) := by
  unfold handleStore
  unfold Writable at h
  cases hc : cfg.skipChecks with
  | true => simp [hc] at h
  | false =>
    have hcheck : checkAccess cfg m p size .write ≠ none := by
      unfold checkAccess
      cases hal : m.allocations p.alloc with
      | none => simp
      | some al =>
        cases hfreed : al.freed with
        | true => simp [hfreed]
        | false =>
          have hin : p.offset < 0 ∨ p.offset + size > al.size := by
            by_contra hin
            exact h (.inr ⟨al, hal, hfreed, by omega, by omega⟩)
          simp [hfreed, hin]
    obtain ⟨err, herr⟩ := Option.ne_none_iff_exists'.mp hcheck
    exact ⟨err, by simp [herr]⟩

theorem Readable.part (h : Readable cfg m p (cfg.sizes.sizeof t)) (hu : typeAt t path = some u) :
    Readable cfg m ⟨p.alloc, p.offset + offsetAt cfg.sizes t path⟩ (cfg.sizes.sizeof u) := by
  refine h.imp_right ?_
  rintro ⟨al, hal, hfreed, hpos, hsize, hinit⟩
  have hle := offsetAt_le cfg.sizes t path hu
  refine ⟨al, hal, hfreed, by simp only; omega, by simp only; omega, ?_⟩
  intro htrack i hi
  have := hinit htrack (offsetAt cfg.sizes t path + i) (by omega)
  rwa [Int.natCast_add, ← Int.add_assoc] at this

theorem loadConcrete_zero {size : Nat} (h : p.alloc = 0 ∨ ¬ Readable cfg m p size) :
    (loadConcrete cfg m (.tracked p) t size).1 = concreteZero cfg t ∧
      (loadConcrete cfg m (.tracked p) t size).2.1 ≠ none := by
  rw [loadConcrete_tracked]
  split
  · exact ⟨rfl, nofun⟩
  · rename_i ha
    rw [← handleLoad_eq_none] at h
    obtain ⟨err, herr⟩ := Option.ne_none_iff_exists'.mp (h.resolve_left ha)
    rw [herr]
    exact ⟨rfl, nofun⟩

/-- Bytes that have been read are marked already. -/
theorem marked_allocations_eq {size : Nat} (h : Readable cfg m p size) :
    (marked cfg m p size).allocations = m.allocations := by
  unfold marked markInitialized
  split
  · rfl
  · rename_i hc
    obtain ⟨al, hal, -, -, -, hinit⟩ := h.resolve_left hc
    split
    · rename_i al' htrack hal'
      cases hal.symm.trans hal'
      have hsame : (fun b => al.init b || decide (p.offset ≤ b ∧ b < p.offset + size)) = al.init := by
        funext b
        by_cases hb : p.offset ≤ b ∧ b < p.offset + size
        · have := hinit htrack (b - p.offset).toNat (by omega)
          rw [show p.offset + ((b - p.offset).toNat : Int) = b by omega] at this
          simp [this]
        · simp [hb]
      exact update_eq_self_iff.mpr (by rw [hsame, hal])
    · rfl

/-- What a leaf reads as, after what is at `p` is stored there. -/
theorem elemOrZero_back {m' : Store S} (hm : m'.elems = m.elems) {b : AllocID} {off : Int}
    (hzero : ∀ l ∈ layout cfg.sizes t, b = p.alloc → off = p.offset + l.off →
      concreteZero cfg u = concreteZero cfg l.type) :
    elemOrZero cfg (scatterAggregate cfg m' p t (gatherAggregate cfg m p t)) b off u =
      elemOrZero cfg m b off u := by
  unfold scatterAggregate
  by_cases hkey : ∃ l ∈ layout cfg.sizes t, b = p.alloc ∧ off = p.offset + l.off
  · obtain ⟨l, hl, rfl, rfl⟩ := hkey
    obtain ⟨j, hj⟩ := List.mem_iff_getElem?.mp hl
    rw [elemOrZero, scatterLoop_at _ m' 0 j (layout_nodup cfg.sizes t) hj]
    simp [scatterLeaf, gatherAggregate, hj, elemOrZero, hzero l hl rfl rfl]
  · unfold elemOrZero
    rw [scatterLoop_other _ _ _ fun l hl hk => hkey ⟨l, hl, hk⟩, hm]

theorem readAt_congr {m' : Store S} {p q : Pointer} (h : ∀ l ∈ layout cfg.sizes u,
      elemOrZero cfg m' q.alloc (q.offset + l.off) l.type =
        elemOrZero cfg m p.alloc (p.offset + l.off) l.type) :
    readAt cfg m' q u = readAt cfg m p u := by
  unfold readAt
  split
  · exact congrArg (Val.aggregate _) (List.map_congr_left h)
  · rename_i hleaf
    have := h _ (leaf_self_mem (by simpa using hleaf))
    simpa using this

theorem storeConcrete_allocations (ha : p.alloc ≠ 0) (h : Writable cfg m p (cfg.sizes.sizeof t))
    (val : Val S) :
    (storeConcrete cfg m (.tracked p) val t (cfg.sizes.sizeof t)).1.allocations =
      (marked cfg m p (cfg.sizes.sizeof t)).allocations := by
  rw [storeConcrete_writable ha h, writeElems_allocations, setValueStore_allocations]

theorem storeConcrete_not_writable (h : p.alloc = 0 ∨ ¬ Writable cfg m p (cfg.sizes.sizeof t))
    (val : Val S) : (storeConcrete cfg m (.tracked p) val t (cfg.sizes.sizeof t)).1 = m := by
  simp only [storeConcrete]
  split
  · rfl
  · rename_i ha
    obtain ⟨err, herr⟩ := handleStore_of_not_writable (h.resolve_left ha) val
    rw [herr]

/-- What has been stored can be read. -/
theorem Writable.readable_marked {size : Nat} {M : Store S} (h : Writable cfg m p size)
    (hM : M.allocations = (marked cfg m p size).allocations) : Readable cfg M p size := by
  cases hc : cfg.skipChecks with
  | true => exact .inl hc
  | false =>
    obtain ⟨al, hal, hfreed, hpos, hsize⟩ := h.resolve_left (by simp [hc])
    obtain ⟨al', hal', hf, hz, hinit⟩ := marked_allocations cfg m p size hal
    refine .inr ⟨al', hM ▸ hal', hf.trans hfreed, hpos, hz ▸ hsize, fun htrack i hi => ?_⟩
    exact (hinit _).mpr (.inr ⟨hc, htrack, rfl, by omega, by omega⟩)

/-! ## §4. Parts of values -/

/-- The leaves of what is at an address. -/
theorem readAt_leaf {r : Path} (hr : IsLeaf t r) : (readAt cfg m p t).leaf cfg t r =
    elemOrZero cfg m p.alloc (p.offset + offsetAt cfg.sizes t r) ((typeAt t r).getD t) := by
  have hmem := (mem_leafPaths t r).mpr hr
  unfold Val.leaf readAt
  split
  · simp [scatterLeaf, gatherAggregate, layout_eq, List.getElem?_idxOf hmem, leafAt]
  · rename_i hleaf
    obtain ⟨l, hl, -⟩ := hr
    cases typeAt_leaf (by simpa using hleaf) hl
    simp [offsetAt, typeAt]

theorem concreteZero_leaf {r : Path} (hr : IsLeaf t r) :
    (concreteZero cfg t).leaf cfg t r = concreteZero cfg ((typeAt t r).getD t) := by
  unfold Val.leaf
  obtain ⟨l, hl, hleaf⟩ := hr
  split
  · rename_i ht
    rw [show concreteZero cfg t = .zeroAggregate from if_pos ht]
    rfl
  · rename_i ht
    cases typeAt_leaf (by simpa using ht) hl
    simp [typeAt]

/-- A part selected from the loaded value has the leaves that a load of its
address gives. -/
def SelectsParts (cfg : MemConfig S) (m : Store S) (p : Pointer) (t : GoType) : Prop :=
  ∀ path q u, deriveAt cfg.sizes p t path = some (q, u) →
    ∃ v, select cfg (loadConcrete cfg m (.tracked p) t (cfg.sizes.sizeof t)).1 t path = some v ∧
      ∀ r, IsLeaf u r → v.leaf cfg u r =
        (loadConcrete cfg m (.tracked q) u (cfg.sizes.sizeof u)).1.leaf cfg u r

/-- After the loaded value is stored back, a load gives what it gave before:
the value, the error and the fault. This is about loads that do not take a
leaf for one of a type with another zero value. -/
def StoresBack (cfg : MemConfig S) (m : Store S) (p : Pointer) (t : GoType) : Prop :=
  ∀ addr u size, (∀ q, addr = .tracked q → ∀ l ∈ layout cfg.sizes u,
      ∀ l' ∈ layout cfg.sizes t, q.alloc = p.alloc → q.offset + l.off = p.offset + l'.off →
      concreteZero cfg l.type = concreteZero cfg l'.type) →
    loadConcrete cfg (storeConcrete cfg m (.tracked p)
        (loadConcrete cfg m (.tracked p) t (cfg.sizes.sizeof t)).1 t (cfg.sizes.sizeof t)).1
        addr u size =
      loadConcrete cfg m addr u size

/-- No leaf that can be read holds anything but zero. -/
def LeavesZero (cfg : MemConfig S) (m : Store S) (p : Pointer) (t : GoType) : Prop :=
  ∀ r u, typeAt t r = some u → isAggregateType u = false →
    Readable cfg m ⟨p.alloc, p.offset + offsetAt cfg.sizes t r⟩ (cfg.sizes.sizeof u) →
    elemOrZero cfg m p.alloc (p.offset + offsetAt cfg.sizes t r) u = concreteZero cfg u

theorem selectsParts_readable (ha : p.alloc ≠ 0) (h : Readable cfg m p (cfg.sizes.sizeof t)) :
    SelectsParts cfg m p t := by
  intro path q u hq
  rw [deriveAt_eq, Option.map_eq_some_iff] at hq
  obtain ⟨u, hu, hq⟩ := hq
  cases hq
  rw [loadConcrete_readable h ha, loadConcrete_readable (h.part hu) ha]
  exact ⟨_, select_readAt hu, fun _ _ => rfl⟩

/-- The zero value that stands for what cannot be read. -/
theorem selectsParts_zero (h : p.alloc = 0 ∨ ¬ Readable cfg m p (cfg.sizes.sizeof t)) :
    SelectsParts cfg m p t ↔ p.alloc = 0 ∨ LeavesZero cfg m p t := by
  have hwhole := (loadConcrete_zero (t := t) h).1
  constructor
  · intro hparts
    refine or_iff_not_imp_left.mpr fun ha r u hu hleaf hread => ?_
    obtain ⟨v, hv, hsame⟩ := hparts r _ u (by rw [deriveAt_eq, hu]; rfl)
    rw [hwhole, select_concreteZero hu] at hv
    cases hv
    have hval := hsame [] ⟨u, rfl, hleaf⟩
    rw [loadConcrete_readable hread ha] at hval
    simpa [Val.leaf, hleaf, readAt] using hval.symm
  · intro hzero path q u hq
    rw [deriveAt_eq, Option.map_eq_some_iff] at hq
    obtain ⟨u, hu, hq⟩ := hq
    cases hq
    rw [hwhole]
    refine ⟨_, select_concreteZero hu, fun r hr => ?_⟩
    by_cases hread : p.alloc ≠ 0 ∧ Readable cfg m
        ⟨p.alloc, p.offset + offsetAt cfg.sizes t path⟩ (cfg.sizes.sizeof u)
    · obtain ⟨ha, hread⟩ := hread
      rw [loadConcrete_readable hread ha, readAt_leaf hr, concreteZero_leaf hr]
      obtain ⟨w, hw, hleaf⟩ := hr
      -- a leaf of a part that can be read can be read
      have hpart := hread.part hw
      have hrw : typeAt t (path ++ r) = some w := by rw [typeAt_append, hu]; exact hw
      have hoff := offsetAt_append cfg.sizes t path r hu
      simp only [Int.add_assoc, ← Int.natCast_add, ← hoff] at hpart ⊢
      simpa [hw] using ((hzero.resolve_left ha) _ w hrw hleaf hpart).symm
    · have hbad : p.alloc = 0 ∨ ¬ Readable cfg m
          ⟨p.alloc, p.offset + offsetAt cfg.sizes t path⟩ (cfg.sizes.sizeof u) := by
        rwa [not_and_or, not_not] at hread
      rw [(loadConcrete_zero (p := ⟨p.alloc, _⟩) hbad).1]

theorem storesBack_readable (ht : isAggregateType t = true) (ha : p.alloc ≠ 0)
    (h : Readable cfg m p (cfg.sizes.sizeof t)) : StoresBack cfg m p t := by
  intro addr u size hfits
  rw [loadConcrete_readable h ha]
  have hallocs := (storeConcrete_allocations ha h.writable (readAt cfg m p t)).trans
    (marked_allocations_eq h)
  cases addr with
  | nil | untracked => rfl
  | tracked q =>
    have hchecks : ∀ M : Store S, M.allocations = m.allocations →
        handleLoad cfg M q size = handleLoad cfg m q size := by
      intro M hM
      simp only [handleLoad, checkAccess, hM]
    have hread : readAt cfg (storeConcrete cfg m (.tracked p) (readAt cfg m p t) t
        (cfg.sizes.sizeof t)).1 q u = readAt cfg m q u := by
      have hgather : readAt cfg m p t = gatherAggregate cfg m p t := if_pos ht
      rw [storeConcrete_writable ha h.writable, writeElems, if_pos ht, hgather]
      refine readAt_congr fun l hl => ?_
      exact elemOrZero_back (by simp) (hfits q rfl l hl)
    rw [loadConcrete_tracked, loadConcrete_tracked, hchecks _ hallocs, hread]

/-- What cannot be read and is stored back could not be stored to. -/
theorem storesBack_zero (h : p.alloc = 0 ∨ ¬ Readable cfg m p (cfg.sizes.sizeof t)) :
    StoresBack cfg m p t ↔ p.alloc = 0 ∨ ¬ Writable cfg m p (cfg.sizes.sizeof t) := by
  constructor
  · intro hback
    by_contra hnot
    rw [not_or, not_not] at hnot
    obtain ⟨ha, hw⟩ := hnot
    -- the same load is reported before, and not after
    have hload := hback (.tracked p) t (cfg.sizes.sizeof t) ?_
    · refine (loadConcrete_zero (t := t) h).2 ?_
      rw [← hload, loadConcrete_readable (hw.readable_marked
        (storeConcrete_allocations ha hw _)) ha]
    · rintro q ⟨⟩ l hl l' hl' - hoff
      have hsame : l = l' :=
        List.inj_on_of_nodup_map (layout_nodup cfg.sizes t) hl hl' (by omega)
      rw [hsame]
  · intro hnot addr u size _
    rw [storeConcrete_not_writable hnot]

/-- **Parts of a loaded value are the parts in memory, and it can be stored
back**, exactly if the pointer is forged, or the whole can be read, or nothing
can be stored to it and all its leaves that can be read are zero. And if all
leaves are zero, the zero value gives the leaves of the loaded one. -/
theorem projection_exact (ht : isAggregateType t = true) :
    (SelectsParts cfg m p t ∧ StoresBack cfg m p t ↔
      p.alloc = 0 ∨ Readable cfg m p (cfg.sizes.sizeof t) ∨
        ¬ Writable cfg m p (cfg.sizes.sizeof t) ∧ LeavesZero cfg m p t) ∧
    ((∀ l ∈ layout cfg.sizes t,
        elemOrZero cfg m p.alloc (p.offset + l.off) l.type = concreteZero cfg l.type) →
      ∀ path u, typeAt t path = some u → isAggregateType u = false →
        select cfg .zeroAggregate t path =
          select cfg (loadConcrete cfg m (.tracked p) t (cfg.sizes.sizeof t)).1 t path) := by
  have hzeroval : concreteZero cfg t = .zeroAggregate := if_pos ht
  by_cases hread : p.alloc ≠ 0 ∧ Readable cfg m p (cfg.sizes.sizeof t)
  · obtain ⟨ha, hread⟩ := hread
    refine ⟨iff_of_true ⟨selectsParts_readable ha hread, storesBack_readable ht ha hread⟩
      (.inr (.inl hread)), fun hzero path u hu hleaf => ?_⟩
    have hmem : leafAt cfg.sizes t path ∈ layout cfg.sizes t := by
      rw [layout_eq]
      exact List.mem_map_of_mem ((mem_leafPaths t path).mpr ⟨u, hu, hleaf⟩)
    have hval := hzero _ hmem
    simp only [leafAt, hu, Option.getD_some] at hval
    rw [loadConcrete_readable hread ha, select_readAt hu, ← hzeroval, select_concreteZero hu,
      readAt, hleaf]
    exact congrArg some hval.symm
  · rw [not_and_or, not_not] at hread
    refine ⟨?_, fun _ path u _ _ => by rw [(loadConcrete_zero (t := t) hread).1, hzeroval]⟩
    rw [selectsParts_zero hread, storesBack_zero hread]
    have hno : Readable cfg m p (cfg.sizes.sizeof t) → p.alloc = 0 := fun h =>
      hread.resolve_right (not_not.mpr h)
    tauto

/-- `p := new(pair); p.a = 5`: the pair can be read. -/
theorem projection_exact_pair :
    ∃ s, exec (step (numbers false)) {} halfWritten = some s ∧
      SelectsParts (numbers false) s.mem ⟨1, 0⟩ pair ∧
      elemOrZero (numbers false) s.mem 1 0 (.basic .int) = .scalar 5 :=
  ⟨_, rfl, ((@projection_exact _ (numbers false) _ ⟨1, 0⟩ pair rfl).1.mpr
    (.inr (.inl (.inr ⟨_, rfl, rfl, by decide, by decide, nofun⟩)))).1, rfl⟩

/-- **A half-written pair.** The field that was written is 5. The load of the
pair is an error with init tracking on: the field selected from it is 0, and
so is the field in memory once the pair is stored back. -/
theorem half_written_project :
    ∃ s, exec (step (numbers true)) {} halfWritten = some s ∧
      let whole := (loadConcrete (numbers true) s.mem (.tracked ⟨1, 0⟩) pair (packed.sizeof pair)).1
      let field (m : Store Int) := (loadConcrete (numbers true) m (.tracked ⟨1, 0⟩) (.basic .int)
        (packed.sizeof (.basic .int))).1
      field s.mem = .scalar 5 ∧ select (numbers true) whole pair [0] = some (.scalar 0) ∧
      field (storeConcrete (numbers true) s.mem (.tracked ⟨1, 0⟩) whole pair
        (packed.sizeof pair)).1 = .scalar 0 :=
  ⟨_, rfl, rfl, rfl, rfl⟩

end Giri.Memory
