/-
Giri.Memory.BulkTheorems — what the bulk builtins leave out.

§1 has the frame lemmas: a bulk write changes the element store only. §2 is
about the init bits. Stores, growing appends and conversions mark what they
write, appends in place, copy, clear and sorting do not. `written_initialized`
says that no written byte is taken for uninitialized if the bulk writes in
place go to bytes that are marked already; `cleared_uninitialized` is a load
of a cleared element that is reported.
-/
import Giri.Detector.RaceTheorems
import Giri.Memory.Bulk
import Giri.Memory.Project

namespace Giri.Memory

open Value Transition

variable {S : Type} {cfg : MemConfig S} {m : Store S} {t : GoType} {p : Pointer}

/-! ## §1. Frames -/

theorem setElemAt_frame (cfg : MemConfig S) (m : Store S) (sv : SliceValue) (t : GoType) (i : Nat)
    (v : Val S) :
    (setElemAt cfg m sv t i v).nextAlloc = m.nextAlloc ∧
      (setElemAt cfg m sv t i v).allocations = m.allocations := by
  unfold setElemAt
  split
  · exact ⟨rfl, rfl⟩
  · dsimp only
    split
    · exact ⟨(scatterLoop_frame _ _ _ m 0).1, (scatterLoop_frame _ _ _ m 0).2.2.1⟩
    · exact ⟨rfl, rfl⟩

theorem setElems_frame (cfg : MemConfig S) (sv : SliceValue) (t : GoType) (vs : List (Val S))
    (m : Store S) (i : Nat) :
    (setElems cfg sv t m i vs).nextAlloc = m.nextAlloc ∧
      (setElems cfg sv t m i vs).allocations = m.allocations := by
  induction vs generalizing m i with
  | nil => exact ⟨rfl, rfl⟩
  | cons v vs ih =>
    obtain ⟨hn, ha⟩ := ih (setElemAt cfg m sv t i v) (i + 1)
    obtain ⟨hn', ha'⟩ := setElemAt_frame cfg m sv t i v
    exact ⟨hn.trans hn', ha.trans ha'⟩

@[simp] theorem setElems_nextAlloc (sv : SliceValue) (vs : List (Val S)) (i : Nat) :
    (setElems cfg sv t m i vs).nextAlloc = m.nextAlloc :=
  (setElems_frame cfg sv t vs m i).1

@[simp] theorem setElems_allocations (sv : SliceValue) (vs : List (Val S)) (i : Nat) :
    (setElems cfg sv t m i vs).allocations = m.allocations :=
  (setElems_frame cfg sv t vs m i).2

theorem handleStore_cases (cfg : MemConfig S) (m : Store S) (p : Pointer) (val : Val S)
    (size : Nat) :
    (∃ err, cfg.skipChecks = false ∧ checkAccess cfg m p size .write = some err ∧
        handleStore cfg m p val size = (m, some err)) ∨
      handleStore cfg m p val size = (setValueStore (marked cfg m p size) p val, none) := by
  unfold handleStore marked
  split
  · exact .inr rfl
  · rename_i hskip
    split
    · rename_i err herr
      exact .inl ⟨err, by simpa using hskip, herr, rfl⟩
    · exact .inr rfl

/-- A store fails and changes nothing, or it passes the check, marks its
bytes and writes them. -/
theorem storeConcrete_cases (cfg : MemConfig S) (m : Store S) (p : Pointer) (val : Val S)
    (t : GoType) (size : Nat) :
    (∃ err f, storeConcrete cfg m (.tracked p) val t size = (m, some err, f)) ∨
      storeConcrete cfg m (.tracked p) val t size =
        (writeElems cfg (setValueStore (marked cfg m p size) p val) p t val, none, .none) := by
  simp only [storeConcrete, writeElems]
  split
  · exact .inl ⟨_, _, rfl⟩
  · rcases handleStore_cases cfg m p val size with ⟨err, -, -, h⟩ | h
    · rw [h]
      exact .inl ⟨err, .none, rfl⟩
    · rw [h]
      right
      dsimp only
      split <;> rfl

/-- What `newConcreteSlice` does to the shadow memory. -/
theorem newConcreteSlice_frame (cfg : MemConfig S) (m : Store S) (t : GoType)
    (elems : List (Val S)) (capacity : Nat) :
    (newConcreteSlice cfg m t elems capacity).2.nextAlloc = m.nextAlloc + 1 ∧
      (newConcreteSlice cfg m t elems capacity).2.allocations =
        (marked cfg (allocate cfg m (allocSize cfg t (max capacity elems.length))).2
          ⟨m.nextAlloc + 1, 0⟩ (allocSize cfg t (max capacity elems.length))).allocations := by
  simp only [newConcreteSlice, setElems_nextAlloc, setElems_allocations]
  constructor
  · exact marked_nextAlloc ..
  · rfl

/-- An append that finds no room allocates a new backing array. -/
theorem appendConcrete_grow {base : Option SliceValue} {src : Source S}
    (hne : (src.elems cfg m t).isEmpty = false)
    (hroom : hasRoom (base.getD {}) (src.elems cfg m t).length = false) :
    (appendConcrete cfg m t base src).2 =
      (newConcreteSlice cfg m t
        ((List.range (base.getD {}).len.toNat).map (elemAt cfg m (base.getD {}) t) ++
          src.elems cfg m t)
        (growCap (base.getD {}).cap.toNat
          ((List.range (base.getD {}).len.toNat).map (elemAt cfg m (base.getD {}) t) ++
            src.elems cfg m t).length)).2 := by
  simp [appendConcrete, hne, hroom]

/-! ## §2. Init bits -/

/-- Of the allocation, if there is one, these bytes are marked. -/
def Marked (m : Store S) (r : Range) : Prop :=
  ∀ al, m.allocations r.alloc = some al → ∀ b, r.Covers r.alloc b → al.init b = true

/-- The operation writes elements of a slice in place. -/
def MemOp.inPlace (cfg : MemConfig S) (m : Store S) : MemOp S → Bool
  | .bulk (.append t base src) => hasRoom (base.getD {}) (src.elems cfg m t).length
  | .bulk _ => true
  | .sort _ _ _ => true
  | _ => false

/-- What is written in place, by one of the bulk operations, is marked
already. -/
def InPlaceOK (cfg : MemConfig S) (m : Store S) (op : MemOp S) : Prop :=
  op.inPlace cfg m = true → ∀ r, writes cfg m op = some r → Marked m r

/-- Every byte that has been written is marked. -/
def History.Inv (s : History S) : Prop :=
  ∀ a b, s.written a b = true → ∀ al, s.mem.allocations a = some al → al.init b = true

/-- An allocation was there before its bytes were marked, and has the same
bits and those of the bytes. -/
theorem marked_old {a : AllocID} {size : Nat} {al : Allocation}
    (hal : (marked cfg m p size).allocations a = some al) :
    ∃ al₀, m.allocations a = some al₀ ∧ ∀ b, al.init b = true ↔ al₀.init b = true ∨
      cfg.skipChecks = false ∧ cfg.trackInit = true ∧ p.alloc = a ∧ p.offset ≤ b ∧
        b < p.offset + size := by
  cases hm : m.allocations a with
  | none =>
    rw [marked_allocations_none cfg m p size hm] at hal
    cases hal
  | some al₀ =>
    obtain ⟨al', hal', -, -, hinit⟩ := marked_allocations cfg m p size hm
    cases hal.symm.trans hal'
    exact ⟨al₀, rfl, hinit⟩

theorem marked_covers (htrack : cfg.trackInit = true) (hskip : cfg.skipChecks = false)
    {al : Allocation} {size : Nat} (hal : (marked cfg m p size).allocations p.alloc = some al)
    {b : Int} (hb : p.offset ≤ b ∧ b < p.offset + size) : al.init b = true := by
  obtain ⟨_, _, hinit⟩ := marked_old hal
  exact (hinit b).mpr (.inr ⟨hskip, htrack, rfl, hb⟩)

theorem marked_other {a : AllocID} (cfg : MemConfig S) (m : Store S) (size : Nat)
    (h : a ≠ p.alloc) : (marked cfg m p size).allocations a = m.allocations a := by
  unfold marked markInitialized
  split
  · rfl
  · split
    · exact Function.update_of_ne h ..
    · rfl

namespace History

variable {s : History S} {op : MemOp S}

/-- What is known of a written byte: the operation has written it, or it was
written before, in an allocation that is not new. -/
theorem written_step {a : AllocID} {b : Int} (h : (s.step cfg op).written a b = true) :
    (∃ r, writes cfg s.mem op = some r ∧ r.Covers a b) ∨
      s.written a b = true ∧
        (a ≤ s.mem.nextAlloc ∨ (op.exec cfg s.mem).nextAlloc < a) := by
  simp only [step] at h
  split at h
  · rename_i r hr
    rcases Bool.or_eq_true _ _ |>.mp h with hc | ho
    · exact .inl ⟨r, hr, of_decide_eq_true hc⟩
    · simpa [step.old] using Or.inr ho
  · simpa [step.old] using Or.inr h

theorem not_new {a : AllocID} {n : Nat} (h : a ≤ n ∨ n + 1 < a) : a ≠ n + 1 := by
  rintro rfl
  rcases h with h | h
  · exact Nat.not_succ_le_self _ h
  · exact Nat.lt_irrefl _ h

/-- The shadow memory is as before, and what was written is marked. -/
theorem Inv.of_same (h : s.Inv) (ha : (op.exec cfg s.mem).allocations = s.mem.allocations)
    (hw : ∀ r, writes cfg s.mem op = some r → Marked s.mem r) : (s.step cfg op).Inv := by
  intro a b hab al hal
  have hal' : s.mem.allocations a = some al := by
    rw [← ha]
    exact hal
  rcases written_step hab with ⟨r, hr, hc⟩ | ⟨hold, -⟩
  · obtain rfl : a = r.alloc := hc.1
    exact hw r hr al hal' b hc
  · exact h a b hold al hal'

/-- A new allocation, of which the first `n` bytes are written and the first
`size` are marked. -/
theorem Inv.of_new (h : s.Inv) (htrack : cfg.trackInit = true) (hskip : cfg.skipChecks = false)
    {t : GoType} {elems : List (Val S)} {capacity : Nat}
    (hexec : op.exec cfg s.mem = (newConcreteSlice cfg s.mem t elems capacity).2)
    (hw : writes cfg s.mem op = some ⟨s.mem.nextAlloc + 1, 0, elems.length * cfg.sizes.sizeof t⟩) :
    (s.step cfg op).Inv := by
  intro a b hab al hal
  obtain ⟨hn, ha⟩ := newConcreteSlice_frame cfg s.mem t elems capacity
  have hal' := hal
  simp only [step] at hal'
  rw [hexec, ha] at hal'
  rcases written_step hab with ⟨r, hr, hc⟩ | ⟨hold, hfresh⟩
  · rw [hw] at hr
    cases hr
    obtain rfl : a = s.mem.nextAlloc + 1 := hc.1
    have hle : elems.length * cfg.sizes.sizeof t ≤
        allocSize cfg t (max capacity elems.length) := by
      have : elems.length * cfg.sizes.sizeof t ≤
          max capacity elems.length * cfg.sizes.sizeof t :=
        Nat.mul_le_mul_right _ (Nat.le_max_right ..)
      unfold allocSize
      dsimp only
      split <;> omega
    have h1 := hc.2.1
    have h2 := hc.2.2
    dsimp only at h1 h2
    exact marked_covers htrack hskip hal' (by dsimp only; omega)
  · rw [hexec, hn] at hfresh
    have hne : a ≠ s.mem.nextAlloc + 1 := not_new hfresh
    rw [marked_other cfg _ _ hne] at hal'
    refine h a b hold al ?_
    simpa [allocate, hskip, Function.update_of_ne hne] using hal'

/-- **An operation keeps the written bytes marked**, where `InPlaceOK`
holds. -/
theorem Inv.step (h : s.Inv) (htrack : cfg.trackInit = true) (hskip : cfg.skipChecks = false)
    (hok : InPlaceOK cfg s.mem op) : (s.step cfg op).Inv := by
  cases op with
  | alloc =>
    intro a b hab al hal
    rcases written_step hab with ⟨r, hr, -⟩ | ⟨hold, hfresh⟩
    · cases hr
    · have hne : a ≠ s.mem.nextAlloc + 1 := not_new hfresh
      refine h a b hold al ?_
      simpa [History.step, MemOp.exec, allocate, hskip, Function.update_of_ne hne] using hal
  | load => exact h.of_same rfl (by simp [writes])
  | store p val t =>
    rcases storeConcrete_cases cfg s.mem p val t (cfg.sizes.sizeof t) with ⟨err, f, heq⟩ | heq
    · refine h.of_same ?_ ?_
      · simp only [MemOp.exec, heq]
      · simp [writes, heq]
    · intro a b hab al hal
      have hal' : (marked cfg s.mem p (cfg.sizes.sizeof t)).allocations a = some al := by
        simpa [History.step, MemOp.exec, heq] using hal
      rcases written_step hab with ⟨r, hr, hc⟩ | ⟨hold, -⟩
      · simp only [writes, heq, Option.isNone_none, if_true, Option.some.injEq] at hr
        subst hr
        obtain rfl : a = p.alloc := hc.1
        exact marked_covers htrack hskip hal' hc.2
      · obtain ⟨al₀, hal₀, hinit⟩ := marked_old hal'
        exact (hinit b).mpr (.inl (h a b hold al₀ hal₀))
  | bulk op =>
    cases op with
    | append t base src =>
      by_cases hnil : (src.elems cfg s.mem t).length = 0
      · refine h.of_same ?_ ?_
        · simp [MemOp.exec, appendConcrete, List.length_eq_zero_iff.mp hnil]
        · simp [writes, hnil]
      · have hne : (src.elems cfg s.mem t).isEmpty = false := by
          simpa [List.length_eq_zero_iff] using hnil
        cases hroom : hasRoom (base.getD {}) (src.elems cfg s.mem t).length with
        | true =>
          refine h.of_same ?_ (hok hroom)
          simp [MemOp.exec, appendConcrete, hne, hroom]
        | false =>
          refine h.of_new htrack hskip (appendConcrete_grow hne hroom) ?_
          simp [writes, hnil, hroom]
    | copy =>
      exact h.of_same (setElems_frame ..).2 (hok rfl)
    | clear => exact h.of_same (setElems_frame ..).2 (hok rfl)
  | convert => exact h.of_new htrack hskip rfl rfl
  | sort => exact h.of_same (setElems_frame ..).2 (hok rfl)

end History

/-- A load of marked bytes is not one of uninitialized memory. -/
theorem loadConcrete_marked {size : Nat} (h : Marked m ⟨p.alloc, p.offset, size⟩) (a : AllocID)
    (off : Int) :
    (loadConcrete cfg m (.tracked p) t size).2.1 ≠ some (.uninitializedRead a off) := by
  have hcheck : checkAccess cfg m p size .read ≠ some (.uninitializedRead a off) := by
    unfold checkAccess
    split
    · simp
    · rename_i al hal
      split
      · simp
      · split
        · simp
        · split
          · intro hfind
            obtain ⟨i, hi, -⟩ := Option.map_eq_some_iff.mp hfind
            have hmem := List.mem_range.mp (List.mem_of_find?_eq_some hi)
            have hbit := List.find?_some hi
            have := h al hal (p.offset + i) ⟨rfl, by dsimp only; omega, by dsimp only; omega⟩
            simp [this] at hbit
          · simp
  simp only [loadConcrete, handleLoad]
  split
  · simp
  · split
    · rename_i err herr
      split at herr
      · cases herr
      · intro he
        exact hcheck (herr.trans he)
    · split <;> simp

/-- **No write is forgotten**, in every run in which the bulk operations
write in place only what is marked already: a load all of whose bytes have
been written is never reported as an uninitialized read. -/
theorem written_initialized (htrack : cfg.trackInit = true) (hskip : cfg.skipChecks = false)
    {ops : List (MemOp S)} {s : History S}
    (hrun : Run (fun s op s' => s' = History.step cfg s op ∧ InPlaceOK cfg s.mem op) {} ops s)
    (p : Pointer) (t : GoType)
    (hload : ∀ i < cfg.sizes.sizeof t, s.written p.alloc (p.offset + (i : Nat)) = true)
    (a : AllocID) (off : Int) :
    (loadConcrete cfg s.mem (.tracked p) t (cfg.sizes.sizeof t)).2.1 ≠
      some (.uninitializedRead a off) := by
  have hinv : s.Inv := by
    refine hrun.invariant (P := History.Inv) ?_ (fun a b h => nomatch h)
    rintro s op s' ⟨rfl, hok⟩ h
    exact h.step htrack hskip hok
  refine loadConcrete_marked (fun al hal b hb => ?_) a off
  obtain ⟨-, hlo, hhi⟩ := hb
  dsimp only at hlo hhi
  have hb : b = p.offset + ((b - p.offset).toNat : Nat) := by omega
  rw [hb]
  exact hinv _ _ (hload _ (by omega)) al hal

/-- A slice of one number, the whole of the first allocation. -/
def oneNumber : SliceValue := { backing := some ⟨1, 0⟩, len := 1, cap := 1 }

/-- The element is stored to before it is cleared:
`s := make([]int, 1); s[0] = 5; clear(s); v := s[0]`. -/
theorem written_initialized_stored :
    let ops : List (MemOp Int) := [.alloc 8, .store ⟨1, 0⟩ (.scalar 5) (.basic .int),
      .bulk (.clear (.basic .int) oneNumber)]
    ∀ a off, (loadConcrete (numbers true) (ops.foldl (History.step (numbers true)) {}).mem
      (.tracked ⟨1, 0⟩) (.basic .int) 8).2.1 ≠ some (.uninitializedRead a off) := by
  intro ops
  have hclear : InPlaceOK (numbers true) ((ops.take 2).foldl (History.step (numbers true)) {}).mem
      (.bulk (.clear (.basic .int) oneNumber)) := by
    intro _ r hr al hal b hb
    cases hr
    cases hal
    obtain ⟨-, hlo, hhi⟩ := hb
    simp only [Bool.or_eq_true, decide_eq_true_eq]
    exact .inr ⟨hlo, hhi⟩
  have hrun : Run (fun s op s' => s' = History.step (numbers true) s op ∧
      InPlaceOK (numbers true) s.mem op) {} ops (ops.foldl (History.step (numbers true)) {}) :=
    .snoc (.snoc (.snoc .nil ⟨rfl, nofun⟩) ⟨rfl, nofun⟩) ⟨rfl, hclear⟩
  exact written_initialized rfl rfl hrun ⟨1, 0⟩ (.basic .int) (by decide)

/-- **A cleared element is reported as uninitialized.** In
`s := make([]int, 1); clear(s); v := s[0]` the load is reported, though all
its bytes have been written. -/
theorem cleared_uninitialized :
    let ops : List (MemOp Int) := [.alloc 8, .bulk (.clear (.basic .int) oneNumber)]
    let s := ops.foldl (History.step (numbers true)) {}
    (∀ i < 8, s.written 1 (i : Nat) = true) ∧
      (loadConcrete (numbers true) s.mem (.tracked ⟨1, 0⟩) (.basic .int) 8).2.1 =
        some (.uninitializedRead 1 0) := by
  exact ⟨by decide, rfl⟩

end Giri.Memory
