/-
Giri.Memory.StoreTheorems — the element store refines Go's memory.

Go's memory (`GoMem`) has a cell for every LEAF of every allocation, named
by its path. A store fills the cells of the leaves inside the part that is
stored to, and no other; a load reads them; a cell that was never stored to
holds the zero value of its type. The element store knows no paths: a leaf
is found by its offset. It behaves in the same way (`Refines`) because
different leaves of a type are at different offsets, and because the
address of a part, derived from outside in, is where `layout` puts the
part's leaves.

There are three exceptions, which `Regular` excludes. With init tracking on,
a load that covers a byte that was never written is an error, and
`loadConcrete` then returns the zero value of the whole type, also if other
leaves of it were stored to. What `arena.New` allocates has eight bytes, so
that the rest of a larger value is out of bounds. And without checks
`arena.New` and the other allocations count their IDs apart, from 1 on: an
ID that both give out names two variables in one place.
-/
import Mathlib.Data.List.Infix
import Giri.Lib.Transition
import Giri.Memory.Store

namespace Giri.Memory

open Value Transition
open Function (update_self update_of_ne)

variable {S : Type}

/-! ## §1. Go's memory -/

/-- The leaf at path `r` of a value of type `t`. The leaves of a value that
is not known are not known. -/
def Val.leaf (cfg : MemConfig S) (t : GoType) (val : Val S) (r : Path) : Val S :=
  if isAggregateType t then
    scatterLeaf cfg val (leafPaths t).length ((leafPaths t).idxOf r) (leafAt cfg.sizes t r)
  else val

/-- Go's memory, leaf by leaf. -/
structure GoMem (S : Type) where
  next : Nat := 0
  types : AllocID → Option GoType := fun _ => none
  cells : AllocID → Path → Option (Val S) := fun _ _ => none
  loaded : List (Val S) := []

namespace GoMem

variable (cfg : MemConfig S) (g : GoMem S) (a : AllocID) (path : Path)

/-- What a leaf of type `t` holds: the value last stored, or zero. -/
def content (q : Path) (t : GoType) : Val S :=
  (g.cells a q).getD (concreteZero cfg t)

/-- The value of the part of type `t` at a path, leaf by leaf. -/
def load (t : GoType) : Val S :=
  if isAggregateType t then
    .aggregate (layout cfg.sizes t)
      ((leafPaths t).map fun r => g.content cfg a (path ++ r) ((typeAt t r).getD t))
  else g.content cfg a path t

/-- Storing to the part of type `t` at a path. -/
def store (t : GoType) (val : Val S) : GoMem S :=
  { g with
    cells := fun b q =>
      if b = a ∧ path <+: q then some (val.leaf cfg t (q.drop path.length)) else g.cells b q }

/-- The type of a part of an allocation. -/
def typeOf : Option GoType :=
  (g.types a).bind fun t => typeAt t path

end GoMem

/-- One operation; `none` if there is no such part or value. -/
def goStep (cfg : MemConfig S) (g : GoMem S) : Op S → Option (GoMem S)
  | .alloc t | .arenaNew t =>
    some { g with next := g.next + 1, types := Function.update g.types (g.next + 1) (some t) }
  | .load a path => do
    let t ← g.typeOf a path
    return { g with loaded := g.load cfg a path t :: g.loaded }
  | .store a path src => do
    let t ← g.typeOf a path
    let val ← src.value g.loaded
    return g.store cfg a path t val

/-! ## §2. Addresses -/

section Addresses

variable {sz : Sizes}

/-- The address of a part is at the part's offset. -/
theorem deriveAt_eq : ∀ (p : Pointer) (t : GoType) (path : Path),
    deriveAt sz p t path =
      (typeAt t path).map fun u => (⟨p.alloc, p.offset + offsetAt sz t path⟩, u)
  | p, t, [] => by simp [deriveAt, typeAt, offsetAt]
  | p, t, i :: path => by
    simp only [deriveAt, typeAt, offsetAt]
    cases t.underlying with
    | array len elem =>
      by_cases hi : i < len
      · simp [hi, deriveAt_eq _ elem path, derive, Int.add_assoc]
      · simp [hi]
    | struct fields =>
      cases hf : fields[i]? with
      | some f => simp [hf, deriveAt_eq _ f path, derive, Int.add_assoc]
      | none => simp [hf]
    | _ => rfl

end Addresses

/-! ## §3. Writing and reading the leaves -/

section Elems

variable {cfg : MemConfig S} {m : Store S} {p : Pointer} {val : Val S} {n i j : Nat}
  {l : Leaf} {a b : AllocID} {off : Int} {t T : GoType} {path q r : Path}

@[simp] theorem setElem_self (v : Val S) : (setElem m a off v).elems a off = some v := by
  simp [setElem]

theorem setElem_of_ne (v : Val S) {off' : Int} (h : ¬ (b = a ∧ off' = off)) :
    (setElem m a off v).elems b off' = m.elems b off' := by
  by_cases hb : b = a
  · subst hb
    simp [setElem, update_of_ne fun ho => h ⟨rfl, ho⟩]
  · simp [setElem, update_of_ne hb]

/-- Keys that are not among the leaves keep their value. -/
theorem scatterLoop_other : ∀ (ls : List Leaf) (m : Store S) (i : Nat),
    (∀ l ∈ ls, ¬ (b = p.alloc ∧ off = p.offset + l.off)) →
      (scatterLoop cfg p val n m i ls).elems b off = m.elems b off
  | [], _, _, _ => rfl
  | l :: ls, m, i, h => by
    rw [scatterLoop, scatterLoop_other ls _ _ fun l hl => h l (List.mem_cons_of_mem _ hl)]
    exact setElem_of_ne _ (h l List.mem_cons_self)

/-- The leaves get theirs. -/
theorem scatterLoop_at : ∀ (ls : List Leaf) (m : Store S) (i j : Nat) {l : Leaf},
    (ls.map Leaf.off).Nodup → ls[j]? = some l →
      (scatterLoop cfg p val n m i ls).elems p.alloc (p.offset + l.off) =
        some (scatterLeaf cfg val n (i + j) l)
  | [], _, _, _, _, _, hj => by simp at hj
  | l :: ls, m, i, 0, _, hnd, hj => by
    cases hj
    rw [List.map_cons, List.nodup_cons] at hnd
    rw [scatterLoop, scatterLoop_other]
    · exact setElem_self _
    · rintro l' hl' ⟨-, ho⟩
      refine hnd.1 (List.mem_map.mpr ⟨l', hl', ?_⟩)
      omega
  | l :: ls, m, i, j + 1, _, hnd, hj => by
    rw [List.map_cons, List.nodup_cons] at hnd
    rw [scatterLoop, scatterLoop_at ls _ _ j hnd.2 (by simpa using hj), Nat.add_right_comm,
      Nat.add_assoc]

theorem layout_off (sz : Sizes) (t : GoType) :
    (layout sz t).map Leaf.off = (leafPaths t).map (offsetAt sz t) := by
  rw [layout_eq, List.map_map]
  rfl

/-- The layout is in offset order. -/
theorem layout_sorted (sz : Sizes) (t : GoType) : ((layout sz t).map Leaf.off).Pairwise (· < ·) := by
  rw [layout_off, List.pairwise_map]
  refine (leafPaths_sorted t).imp_of_mem fun hp hq h => ?_
  exact ((mem_leafPaths t _).mp hp).offset_lt sz h ((mem_leafPaths t _).mp hq)

theorem layout_nodup (sz : Sizes) (t : GoType) : ((layout sz t).map Leaf.off).Nodup :=
  (layout_sorted sz t).imp Nat.ne_of_lt

/-- What a store writes to the element store. -/
def writeElems (cfg : MemConfig S) (m : Store S) (p : Pointer) (t : GoType) (val : Val S) :
    Store S :=
  if isAggregateType t then scatterAggregate cfg m p t val else setElem m p.alloc p.offset val

/-- What is not a leaf of the stored part keeps its value. -/
theorem writeElems_of_ne
    (h : ∀ r, IsLeaf t r → ¬(b = p.alloc ∧ off = p.offset + offsetAt cfg.sizes t r)) :
    (writeElems cfg m p t val).elems b off = m.elems b off := by
  unfold writeElems
  split
  · refine scatterLoop_other _ _ _ fun l hl => ?_
    rw [layout_eq, List.mem_map] at hl
    obtain ⟨r, hr, rfl⟩ := hl
    exact h r ((mem_leafPaths t r).mp hr)
  · rename_i hleaf
    refine setElem_of_ne _ ?_
    simpa [offsetAt] using h [] ⟨t, rfl, by simpa using hleaf⟩

/-- Another allocation is left alone. -/
theorem writeElems_other (h : b ≠ p.alloc) :
    (writeElems cfg m p t val).elems b off = m.elems b off :=
  writeElems_of_ne fun _ _ hk => h hk.1

/-- A leaf of the stored part gets its value. -/
theorem writeElems_leaf (hr : IsLeaf t r) :
    (writeElems cfg m p t val).elems p.alloc (p.offset + offsetAt cfg.sizes t r) =
      some (val.leaf cfg t r) := by
  have hmem := (mem_leafPaths t r).mpr hr
  unfold writeElems Val.leaf
  split
  · have hidx : (layout cfg.sizes t)[(leafPaths t).idxOf r]? = some (leafAt cfg.sizes t r) := by
      rw [layout_eq, List.getElem?_map, List.getElem?_idxOf hmem]
      rfl
    have hlen : (layout cfg.sizes t).length = (leafPaths t).length := by
      rw [layout_eq, List.length_map]
    simp only [scatterAggregate, hlen]
    rw [← Nat.zero_add ((leafPaths t).idxOf r)]
    exact scatterLoop_at _ m 0 _ (layout_nodup cfg.sizes t) hidx
  · rename_i ht
    obtain ⟨u, hu, -⟩ := hr
    cases typeAt_leaf (by simpa using ht) hu
    simp [offsetAt]

/-- A leaf outside the stored part keeps its value. -/
theorem writeElems_outside (ht : typeAt T path = some t) (hq : IsLeaf T q) (hout : ¬ path <+: q) :
    (writeElems cfg m ⟨a, offsetAt cfg.sizes T path⟩ t val).elems a (offsetAt cfg.sizes T q) =
      m.elems a (offsetAt cfg.sizes T q) := by
  -- the offset of a leaf inside the part is that of a leaf of the whole
  have hne : ∀ r, IsLeaf t r →
      offsetAt cfg.sizes T q ≠ offsetAt cfg.sizes T path + offsetAt cfg.sizes t r := by
    intro r hr heq
    obtain ⟨u, hu, hleaf⟩ := hr
    have hpr : IsLeaf T (path ++ r) := ⟨u, by rw [typeAt_append, ht]; exact hu, hleaf⟩
    rw [← offsetAt_append cfg.sizes T path r ht] at heq
    exact hout (hq.offset_inj cfg.sizes hpr heq ▸ List.prefix_append path r)
  refine writeElems_of_ne fun r hr => ?_
  rintro ⟨-, ho⟩
  simp only at ho
  exact hne r hr (by exact_mod_cast ho)

end Elems

/-! ## §4. The accesses -/

section Accesses

variable {cfg : MemConfig S} {m : Store S} {p : Pointer} {t : GoType} {size : Nat}

/-- The bytes are those of a live allocation. -/
def Writable (cfg : MemConfig S) (m : Store S) (p : Pointer) (size : Nat) : Prop :=
  cfg.skipChecks = true ∨ ∃ al, m.allocations p.alloc = some al ∧ al.freed = false ∧
    0 ≤ p.offset ∧ p.offset + size ≤ al.size

/-- And they have been initialised, if that is tracked. -/
def Readable (cfg : MemConfig S) (m : Store S) (p : Pointer) (size : Nat) : Prop :=
  cfg.skipChecks = true ∨ ∃ al, m.allocations p.alloc = some al ∧ al.freed = false ∧
    0 ≤ p.offset ∧ p.offset + size ≤ al.size ∧
    (cfg.trackInit = true → ∀ i < size, al.init (p.offset + (i : Nat)) = true)

theorem Readable.writable : Readable cfg m p size → Writable cfg m p size
  | .inl hc => .inl hc
  | .inr ⟨al, hal, hfreed, hpos, hsize, _⟩ => .inr ⟨al, hal, hfreed, hpos, hsize⟩

/-- A read that is not reported. -/
theorem handleLoad_eq_none :
    handleLoad cfg m p size = none ↔ Readable cfg m p size := by
  unfold handleLoad Readable checkAccess
  cases cfg.skipChecks with
  | true => simp
  | false =>
    cases m.allocations p.alloc with
    | none => simp
    | some al =>
      cases hfreed : al.freed with
      | true => simp [hfreed]
      | false =>
        by_cases hin : p.offset < 0 ∨ p.offset + size > al.size
        · simp [hfreed, hin]
          omega
        · have hin' : 0 ≤ p.offset ∧ p.offset + size ≤ al.size := by omega
          simp [hfreed, hin, hin']

/-- What is at an address. -/
def readAt (cfg : MemConfig S) (m : Store S) (p : Pointer) (t : GoType) : Val S :=
  if isAggregateType t then gatherAggregate cfg m p t else elemOrZero cfg m p.alloc p.offset t

theorem loadConcrete_tracked (m : Store S) (p : Pointer) (t : GoType) (size : Nat) :
    loadConcrete cfg m (.tracked p) t size =
      if p.alloc = 0 then (concreteZero cfg t, some .forgedPointer, .halt)
      else
        match handleLoad cfg m p size with
        | some err => (concreteZero cfg t, some err, .none)
        | none => (readAt cfg m p t, none, .none) := by
  simp only [loadConcrete, readAt]
  cases handleLoad cfg m p size with
  | some => rfl
  | none => cases isAggregateType t <;> rfl

theorem loadConcrete_readable (h : Readable cfg m p size) (ha : p.alloc ≠ 0) :
    loadConcrete cfg m (.tracked p) t size = (readAt cfg m p t, none, .none) := by
  rw [loadConcrete_tracked, if_neg ha, handleLoad_eq_none.mpr h]

/-- What `handleStore` does to the shadow memory. -/
def marked (cfg : MemConfig S) (m : Store S) (p : Pointer) (size : Nat) : Store S :=
  if cfg.skipChecks then m else markInitialized cfg m p size

/-- A store that is carried out. -/
theorem handleStore_of_writable (h : Writable cfg m p size) (val : Val S) :
    handleStore cfg m p val size = (setValueStore (marked cfg m p size) p val, none) := by
  unfold handleStore marked
  split
  · rfl
  · rename_i hc
    obtain ⟨al, hal, hfreed, hpos, hsize⟩ := h.resolve_left hc
    have hin : ¬(p.offset < 0 ∨ p.offset + size > al.size) := by omega
    simp [checkAccess, hal, hfreed, hin]

/-- What can be stored to is written, and noted if it is at offset 0. -/
theorem storeConcrete_writable (ha : p.alloc ≠ 0) (h : Writable cfg m p size) (val : Val S) :
    (storeConcrete cfg m (.tracked p) val t size).1 =
      writeElems cfg (setValueStore (marked cfg m p size) p val) p t val := by
  simp only [storeConcrete, if_neg ha, handleStore_of_writable h, writeElems]
  split <;> rfl

end Accesses

/-! ## §5. The allocations of a program -/

section Allocations

variable {cfg : MemConfig S} {s : State S} {g : GoMem S} {a b : AllocID} {t T : GoType}
  {path q : Path} {val : Val S}

/-- Every byte of the part was written. -/
def Written (cfg : MemConfig S) (s : State S) (a : AllocID) (path : Path) : Prop :=
  ∀ p t al, s.addr cfg a path = some (p, t) → s.mem.allocations a = some al →
    ∀ i < cfg.sizes.sizeof t, al.init (p.offset + i) = true

/-- With init tracking on, only what was written is loaded. -/
def Initialised (cfg : MemConfig S) (s : State S) (a : AllocID) (path : Path) : Prop :=
  cfg.skipChecks = true ∨ cfg.trackInit = false ∨ Written cfg s a path

/-- What is asked of the operations of a program. -/
def Regular (cfg : MemConfig S) (s : State S) : Op S → Prop
  | .alloc _ => cfg.skipChecks = true → s.mem.arenaNext = 0
  | .arenaNew t =>
    if cfg.skipChecks then s.mem.nextAlloc = 0 else cfg.sizes.sizeof t ≤ 8
  | .load a path => Initialised cfg s a path
  | .store .. => True

/-- The last ID that was given out, if only one of the counters is in use. -/
def Store.lastID (m : Store S) : Nat := m.nextAlloc + m.arenaNext

/-- The shadow memory knows the allocations of the program. -/
structure Shadowed (cfg : MemConfig S) (s : State S) : Prop where
  pos : ∀ a T, s.types a = some T → 0 < a
  fresh : ∀ a T, s.types a = some T → a ≤ s.mem.lastID
  live : cfg.skipChecks = false → ∀ a T, s.types a = some T →
    ∃ al, s.mem.allocations a = some al ∧ al.freed = false ∧ cfg.sizes.sizeof T ≤ al.size
  noArena : cfg.skipChecks = false → s.mem.arenaNext = 0

/-- The element store holds Go's memory. -/
structure Refines (cfg : MemConfig S) (s : State S) (g : GoMem S) : Prop where
  next : s.mem.lastID = g.next
  types : s.types = g.types
  loaded : s.loaded = g.loaded
  cells : ∀ a T q, s.types a = some T → IsLeaf T q →
    s.mem.elems a (offsetAt cfg.sizes T q) = g.cells a q
  shadowed : Shadowed cfg s
  /-- Nothing was stored yet to an allocation to come. -/
  unused : ∀ a off, s.mem.lastID < a → s.mem.elems a off = none
  unusedCells : ∀ a q, g.next < a → g.cells a q = none

theorem addr_eq (hT : s.types a = some T) (ht : typeAt T path = some t) :
    s.addr cfg a path = some (⟨a, offsetAt cfg.sizes T path⟩, t) := by
  simp [State.addr, hT, deriveAt_eq, ht]

/-- A part of an allocation can be written. -/
theorem Shadowed.writable (hs : Shadowed cfg s) (hT : s.types a = some T)
    (ht : typeAt T path = some t) :
    Writable cfg s.mem ⟨a, offsetAt cfg.sizes T path⟩ (cfg.sizes.sizeof t) := by
  refine or_iff_not_imp_left.mpr fun hc => ?_
  obtain ⟨al, hal, hfreed, hsize⟩ := hs.live (by simpa using hc) a T hT
  have hle := offsetAt_le cfg.sizes T path ht
  exact ⟨al, hal, hfreed, by simp only; omega, by simp only; omega⟩

/-- It can be read, if it was written or nobody asks. -/
theorem Shadowed.readable (hs : Shadowed cfg s) (hT : s.types a = some T)
    (ht : typeAt T path = some t) (hinit : Initialised cfg s a path) :
    Readable cfg s.mem ⟨a, offsetAt cfg.sizes T path⟩ (cfg.sizes.sizeof t) := by
  refine or_iff_not_imp_left.mpr fun hc => ?_
  obtain ⟨al, hal, hfreed, hpos, hsize⟩ := (hs.writable hT ht).resolve_left hc
  refine ⟨al, hal, hfreed, hpos, hsize, fun htrack => ?_⟩
  rcases hinit with h | h | h
  · exact absurd h hc
  · cases h.symm.trans htrack
  · exact h _ _ al (addr_eq hT ht) hal

theorem Refines.elemOrZero_eq (h : Refines cfg s g) (hT : s.types a = some T) (hq : IsLeaf T q) :
    elemOrZero cfg s.mem a (offsetAt cfg.sizes T q) t = g.content cfg a q t := by
  rw [elemOrZero, h.cells a T q hT hq, GoMem.content]
  cases g.cells a q <;> rfl

/-- **A load returns what Go's memory holds, leaf by leaf.** -/
theorem Refines.load_eq (h : Refines cfg s g) (hT : s.types a = some T)
    (ht : typeAt T path = some t) (hinit : Initialised cfg s a path) :
    (loadConcrete cfg s.mem (.tracked ⟨a, offsetAt cfg.sizes T path⟩) t
      (cfg.sizes.sizeof t)).1 = g.load cfg a path t := by
  rw [loadConcrete_readable (h.shadowed.readable hT ht hinit) (h.shadowed.pos a T hT).ne', readAt,
    GoMem.load]
  split
  · simp only [gatherAggregate, layout_eq, List.map_map, Val.aggregate.injEq, true_and]
    refine List.map_congr_left fun r hr => ?_
    obtain ⟨u, hu, hleaf⟩ := (mem_leafPaths t r).mp hr
    have hr' : IsLeaf T (path ++ r) := ⟨u, by rw [typeAt_append, ht]; exact hu, hleaf⟩
    have := h.elemOrZero_eq (t := (typeAt t r).getD t) hT hr'
    rw [offsetAt_append cfg.sizes T path r ht] at this
    simpa [leafAt] using this
  · rename_i hleaf
    exact h.elemOrZero_eq hT ⟨t, ht, by simpa using hleaf⟩

section Frames

variable (m : Store S) (p : Pointer) (size : Nat)

@[simp] theorem setValueStore_elems : (setValueStore m p val).elems = m.elems := by
  unfold setValueStore; split <;> rfl

@[simp] theorem setValueStore_nextAlloc : (setValueStore m p val).nextAlloc = m.nextAlloc := by
  unfold setValueStore; split <;> rfl

@[simp] theorem setValueStore_arenaNext : (setValueStore m p val).arenaNext = m.arenaNext := by
  unfold setValueStore; split <;> rfl

@[simp] theorem setValueStore_allocations :
    (setValueStore m p val).allocations = m.allocations := by
  unfold setValueStore; split <;> rfl

@[simp] theorem marked_elems : (marked cfg m p size).elems = m.elems := by
  unfold marked markInitialized; repeat' split <;> try rfl

@[simp] theorem marked_nextAlloc : (marked cfg m p size).nextAlloc = m.nextAlloc := by
  unfold marked markInitialized; repeat' split <;> try rfl

@[simp] theorem marked_arenaNext : (marked cfg m p size).arenaNext = m.arenaNext := by
  unfold marked markInitialized; repeat' split <;> try rfl

theorem scatterLoop_frame (n : Nat) : ∀ (ls : List Leaf) (m : Store S) (i : Nat),
    (scatterLoop cfg p val n m i ls).nextAlloc = m.nextAlloc ∧
      (scatterLoop cfg p val n m i ls).arenaNext = m.arenaNext ∧
      (scatterLoop cfg p val n m i ls).allocations = m.allocations ∧
      (scatterLoop cfg p val n m i ls).valueStore = m.valueStore
  | [], _, _ => ⟨rfl, rfl, rfl, rfl⟩
  | l :: ls, m, i => scatterLoop_frame n ls (setElem m p.alloc (p.offset + l.off) _) (i + 1)

theorem writeElems_frame :
    (writeElems cfg m p t val).nextAlloc = m.nextAlloc ∧
      (writeElems cfg m p t val).arenaNext = m.arenaNext ∧
      (writeElems cfg m p t val).allocations = m.allocations ∧
      (writeElems cfg m p t val).valueStore = m.valueStore := by
  unfold writeElems
  split
  · exact scatterLoop_frame p _ _ m 0
  · exact ⟨rfl, rfl, rfl, rfl⟩

@[simp] theorem writeElems_nextAlloc : (writeElems cfg m p t val).nextAlloc = m.nextAlloc :=
  (writeElems_frame m p).1

@[simp] theorem writeElems_arenaNext : (writeElems cfg m p t val).arenaNext = m.arenaNext :=
  (writeElems_frame m p).2.1

@[simp] theorem writeElems_allocations :
    (writeElems cfg m p t val).allocations = m.allocations :=
  (writeElems_frame m p).2.2.1

variable (cfg) in
/-- Of the shadow memory only init bits change: those of the bytes that are
written are set. -/
theorem marked_allocations {al : Allocation} (hal : m.allocations b = some al) :
    ∃ al', (marked cfg m p size).allocations b = some al' ∧ al'.freed = al.freed ∧
      al'.size = al.size ∧ ∀ i, al'.init i = true ↔ al.init i = true ∨
        cfg.skipChecks = false ∧ cfg.trackInit = true ∧ p.alloc = b ∧ p.offset ≤ i ∧
          i < p.offset + size := by
  unfold marked markInitialized
  split
  · rename_i hc
    exact ⟨al, hal, rfl, rfl, fun i => by simp [hc]⟩
  · rename_i hc
    split
    · rename_i al' htrack hal'
      by_cases hb : b = p.alloc
      · subst hb
        cases hal.symm.trans hal'
        exact ⟨_, update_self .., rfl, rfl, fun i => by simp [hc, htrack]⟩
      · exact ⟨al, by simp [update_of_ne hb, hal], rfl, rfl, fun i => by simp [Ne.symm hb]⟩
    · rename_i hno
      refine ⟨al, hal, rfl, rfl, fun i => ⟨.inl, fun h => h.resolve_right ?_⟩⟩
      rintro ⟨-, htrack, rfl, -⟩
      exact hno al htrack hal

variable (cfg) in
theorem marked_allocations_none (h : m.allocations b = none) :
    (marked cfg m p size).allocations b = none := by
  unfold marked markInitialized
  split
  · exact h
  · split
    · rename_i al _ hal
      by_cases hb : b = p.alloc
      · subst hb
        cases h.symm.trans hal
      · simp [update_of_ne hb, h]
    · exact h

end Frames

/-- **A store to a part of an allocation**: the shadow memory is marked, the
value is noted if it is at offset 0, and the leaves are written. -/
theorem Shadowed.storeConcrete_eq (hs : Shadowed cfg s) (hT : s.types a = some T)
    (ht : typeAt T path = some t) (val : Val S) :
    (storeConcrete cfg s.mem (.tracked ⟨a, offsetAt cfg.sizes T path⟩) val t
        (cfg.sizes.sizeof t)).1 =
      writeElems cfg (setValueStore (marked cfg s.mem ⟨a, offsetAt cfg.sizes T path⟩
        (cfg.sizes.sizeof t)) ⟨a, offsetAt cfg.sizes T path⟩ val)
        ⟨a, offsetAt cfg.sizes T path⟩ t val :=
  storeConcrete_writable (hs.pos a T hT).ne' (hs.writable hT ht) val

end Allocations

/-! ## §6. Steps and runs -/

section Runs

variable {cfg : MemConfig S} {s s' : State S} {g g' : GoMem S} {a b : AllocID} {t T : GoType}
  {path q : Path} {val : Val S}

section Store

variable (hs : Shadowed cfg s) (hT : s.types a = some T) (ht : typeAt T path = some t)

include hs hT ht

/-- What a store leaves of every leaf, in this or another allocation. -/
theorem Shadowed.store_leaf {U : GoType} (hU : s.types b = some U) (hq : IsLeaf U q) :
    (storeConcrete cfg s.mem (.tracked ⟨a, offsetAt cfg.sizes T path⟩) val t
        (cfg.sizes.sizeof t)).1.elems b (offsetAt cfg.sizes U q) =
      if b = a ∧ path <+: q then some (val.leaf cfg t (q.drop path.length))
      else s.mem.elems b (offsetAt cfg.sizes U q) := by
  rw [hs.storeConcrete_eq hT ht]
  by_cases hb : b = a
  · subst hb
    cases hT.symm.trans hU
    by_cases hpre : path <+: q
    · obtain ⟨r, rfl⟩ := hpre
      obtain ⟨u, hu, hleaf⟩ := hq
      rw [typeAt_append, ht, Option.bind_some] at hu
      rw [if_pos ⟨rfl, List.prefix_append path r⟩, List.drop_left,
        offsetAt_append cfg.sizes T path r ht, Int.natCast_add]
      exact writeElems_leaf ⟨u, hu, hleaf⟩
    · rw [if_neg fun h => hpre h.2, writeElems_outside ht hq hpre, setValueStore_elems,
        marked_elems]
  · rw [if_neg fun h => hb h.1, writeElems_other hb, setValueStore_elems, marked_elems]

/-- A store leaves an allocation that is still to come alone. -/
theorem Shadowed.store_unused {off : Int} (hb : s.mem.lastID < b) :
    (storeConcrete cfg s.mem (.tracked ⟨a, offsetAt cfg.sizes T path⟩) val t
        (cfg.sizes.sizeof t)).1.elems b off = s.mem.elems b off := by
  have hba : b ≠ a := Nat.ne_of_gt (Nat.lt_of_le_of_lt (hs.fresh a T hT) hb)
  rw [hs.storeConcrete_eq hT ht, writeElems_other hba, setValueStore_elems, marked_elems]

theorem Shadowed.store_lastID (val : Val S) :
    (storeConcrete cfg s.mem (.tracked ⟨a, offsetAt cfg.sizes T path⟩) val t
      (cfg.sizes.sizeof t)).1.lastID = s.mem.lastID := by
  rw [hs.storeConcrete_eq hT ht]
  simp [Store.lastID]

theorem Shadowed.store (val : Val S) :
    Shadowed cfg { s with mem := (storeConcrete cfg s.mem
      (.tracked ⟨a, offsetAt cfg.sizes T path⟩) val t (cfg.sizes.sizeof t)).1 } := by
  refine { pos := hs.pos, fresh := ?_, live := ?_, noArena := ?_ }
  · simpa [hs.store_lastID hT ht] using hs.fresh
  · intro hc b U hU
    obtain ⟨al, hal, hfreed, hsize⟩ := hs.live hc b U hU
    obtain ⟨al', hal', hf, hz, -⟩ := marked_allocations cfg s.mem
      ⟨a, offsetAt cfg.sizes T path⟩ (cfg.sizes.sizeof t) hal
    rw [hs.storeConcrete_eq hT ht]
    exact ⟨al', by simpa using hal', hf.trans hfreed, hz ▸ hsize⟩
  · simpa [hs.storeConcrete_eq hT ht] using hs.noArena

end Store

/-- After an allocation, an allocation of the program is the new one or an
old one. -/
theorem types_alloc {types : AllocID → Option GoType} {id : AllocID}
    (h : Function.update types id (some t) a = some T) :
    (a = id ∧ T = t) ∨ (a ≠ id ∧ types a = some T) := by
  by_cases ha : a = id
  · subst ha
    rw [update_self] at h
    exact .inl ⟨rfl, (Option.some.inj h).symm⟩
  · rw [update_of_ne ha] at h
    exact .inr ⟨ha, h⟩

/-- What allocating `size` bytes does. -/
structure Allocates (cfg : MemConfig S) (m : Store S) (size : Nat) (id : AllocID)
    (m' : Store S) : Prop where
  id_eq : id = m.lastID + 1
  lastID : m'.lastID = m.lastID + 1
  elems : m'.elems = m.elems
  valueStore : m'.valueStore = m.valueStore
  arenaNext : cfg.skipChecks = false → m'.arenaNext = m.arenaNext
  allocations : cfg.skipChecks = false →
    m'.allocations = Function.update m.allocations id (some { size })

theorem allocate_allocates {m : Store S} (h : m.arenaNext = 0) (size : Nat) :
    Allocates cfg m size (m.nextAlloc + 1) (allocate cfg m size).2 where
  id_eq := by simp [Store.lastID, h]
  lastID := by simp [allocate, Store.lastID, h]
  elems := rfl
  valueStore := rfl
  arenaNext _ := rfl
  allocations hc := by simp [allocate, hc]

theorem handleAlloc_allocates {m : Store S}
    (h : if cfg.skipChecks then m.nextAlloc = 0 else m.arenaNext = 0) :
    Allocates cfg m 8 (handleAlloc cfg m).1 (handleAlloc cfg m).2 := by
  unfold handleAlloc
  split at h
  · rename_i hc
    rw [if_pos hc]
    exact
      { id_eq := by simp [Store.lastID, h]
        lastID := by simp [Store.lastID, h]
        elems := rfl
        valueStore := rfl
        arenaNext := fun hc' => by simp [hc'] at hc
        allocations := fun hc' => by simp [hc'] at hc }
  · rename_i hc
    rw [if_neg hc]
    exact allocate_allocates h 8

theorem Shadowed.alloc {m : Store S} {id size : Nat} (hs : Shadowed cfg s)
    (h : Allocates cfg s.mem size id m)
    (hsize : cfg.skipChecks = false → cfg.sizes.sizeof t ≤ size) :
    Shadowed cfg { s with mem := m, types := Function.update s.types id (some t) } := by
  refine { pos := ?_, fresh := ?_, live := ?_, noArena := ?_ }
  · intro a T hT
    rcases types_alloc hT with ⟨rfl, -⟩ | ⟨-, hT⟩
    · exact h.id_eq ▸ Nat.succ_pos _
    · exact hs.pos a T hT
  · intro a T hT
    rw [h.lastID]
    rcases types_alloc hT with ⟨rfl, -⟩ | ⟨-, hT⟩
    · exact h.id_eq.le
    · exact Nat.le_succ_of_le (hs.fresh a T hT)
  · intro hc a T hT
    rw [h.allocations hc]
    rcases types_alloc hT with ⟨rfl, rfl⟩ | ⟨ha, hT⟩
    · exact ⟨_, update_self .., rfl, hsize hc⟩
    · obtain ⟨al, hal, hfreed, hsize⟩ := hs.live hc a T hT
      exact ⟨al, (update_of_ne ha ..).trans hal, hfreed, hsize⟩
  · exact fun hc => (h.arenaNext hc).trans (hs.noArena hc)

theorem Shadowed.initial (cfg : MemConfig S) : Shadowed cfg {} :=
  { pos := nofun, fresh := nofun, live := fun _ => nofun, noArena := fun _ => rfl }

theorem Refines.initial (cfg : MemConfig S) : Refines cfg {} {} where
  next := rfl
  types := rfl
  loaded := rfl
  cells _ _ _ hT _ := nomatch hT
  shadowed := .initial cfg
  unused _ _ _ := rfl
  unusedCells _ _ _ := rfl

theorem Refines.alloc {m : Store S} {id size : Nat} (h : Refines cfg s g)
    (hnew : Allocates cfg s.mem size id m)
    (hsize : cfg.skipChecks = false → cfg.sizes.sizeof t ≤ size) :
    Refines cfg { s with mem := m, types := Function.update s.types id (some t) }
      { g with
        next := g.next + 1, types := Function.update g.types (g.next + 1) (some t) } := by
  have hid : id = g.next + 1 := hnew.id_eq.trans (congrArg (· + 1) h.next)
  refine
    { next := hnew.lastID.trans (congrArg (· + 1) h.next)
      types := by simp only [hid, h.types]
      loaded := h.loaded
      cells := ?_
      shadowed := h.shadowed.alloc hnew hsize
      unused := ?_
      unusedCells := fun a q ha => h.unusedCells a q (Nat.lt_of_succ_lt ha) }
  · intro a T q hT hq
    simp only [hnew.elems]
    rcases types_alloc hT with ⟨rfl, rfl⟩ | ⟨-, hT⟩
    · -- nothing was stored to the new allocation, neither here nor there
      refine (h.unused _ _ ?_).trans (h.unusedCells _ _ ?_).symm
      · exact hnew.id_eq ▸ Nat.lt_succ_self _
      · exact hid ▸ Nat.lt_succ_self _
    · exact h.cells a T q hT hq
  · intro a off ha
    simp only [hnew.lastID] at ha
    simp only [hnew.elems]
    exact h.unused a off (Nat.lt_of_succ_lt ha)

theorem Refines.store (h : Refines cfg s g) (hT : s.types a = some T)
    (ht : typeAt T path = some t) (val : Val S) :
    Refines cfg { s with mem := (storeConcrete cfg s.mem
        (.tracked ⟨a, offsetAt cfg.sizes T path⟩) val t (cfg.sizes.sizeof t)).1 }
      (g.store cfg a path t val) := by
  have hle : a ≤ s.mem.lastID := h.shadowed.fresh a T hT
  have hnext := h.shadowed.store_lastID hT ht val
  refine
    { next := hnext.trans h.next
      types := h.types
      loaded := h.loaded
      cells := ?_
      shadowed := h.shadowed.store hT ht val
      unused := ?_
      unusedCells := ?_ }
  · intro b U q hU hq
    rw [h.shadowed.store_leaf hT ht hU hq]
    simp only [GoMem.store, h.cells b U q hU hq]
  · intro b off hb
    rw [hnext] at hb
    exact (h.shadowed.store_unused hT ht hb).trans (h.unused b off hb)
  · intro b q hb
    have hb' : g.next < b := hb
    have hba : b ≠ a := Nat.ne_of_gt (Nat.lt_of_le_of_lt (h.next ▸ hle) hb')
    simp only [GoMem.store, if_neg fun hk : b = a ∧ path <+: q => hba hk.1]
    exact h.unusedCells b q hb'

theorem step_load (hT : s.types a = some T) (ht : typeAt T path = some t) :
    step cfg s (.load a path) =
      some { s with loaded := (loadConcrete cfg s.mem
        (.tracked ⟨a, offsetAt cfg.sizes T path⟩) t (cfg.sizes.sizeof t)).1 :: s.loaded } := by
  simp [step, addr_eq hT ht]

theorem step_store {src : Operand S} (hT : s.types a = some T) (ht : typeAt T path = some t)
    (hval : src.value s.loaded = some val) :
    step cfg s (.store a path src) =
      some { s with mem := (storeConcrete cfg s.mem
        (.tracked ⟨a, offsetAt cfg.sizes T path⟩) val t (cfg.sizes.sizeof t)).1 } := by
  simp [step, addr_eq hT ht, hval]

/-- What a store that is carried out stores, and where. -/
theorem step_store_inv {src : Operand S} (h : step cfg s (.store a path src) = some s') :
    ∃ T t val, s.types a = some T ∧ typeAt T path = some t ∧ s' = { s with mem :=
      (storeConcrete cfg s.mem (.tracked ⟨a, offsetAt cfg.sizes T path⟩) val t
        (cfg.sizes.sizeof t)).1 } := by
  simp only [step, State.addr, Option.bind_eq_bind, Option.bind_eq_some_iff, Prod.exists] at h
  obtain ⟨p, t, ⟨T, hT, hd⟩, val, -, h⟩ := h
  rw [deriveAt_eq, Option.map_eq_some_iff] at hd
  obtain ⟨u, hu, hp⟩ := hd
  cases hp
  cases h
  exact ⟨T, t, val, hT, hu, by simp⟩

/-- **Step by step, the element store does what Go's memory does.** -/
theorem Refines.step {op : Op S} (h : Refines cfg s g) (hop : Regular cfg s op)
    (hg : goStep cfg g op = some g') : ∃ s', step cfg s op = some s' ∧ Refines cfg s' g' := by
  cases op with
  | alloc t =>
    cases hg
    have harena : s.mem.arenaNext = 0 := by
      cases hc : cfg.skipChecks with
      | true => exact hop hc
      | false => exact h.shadowed.noArena hc
    exact ⟨_, rfl, h.alloc (allocate_allocates harena _) fun _ => Nat.le_refl _⟩
  | arenaNew t =>
    cases hg
    simp only [Regular] at hop
    refine ⟨_, rfl, h.alloc (handleAlloc_allocates ?_) fun hc => by simpa [hc] using hop⟩
    cases hc : cfg.skipChecks with
    | true => simpa [hc] using hop
    | false => simpa using h.shadowed.noArena hc
  | load =>
    simp only [goStep, GoMem.typeOf, ← h.types, Option.bind_eq_bind,
      Option.bind_eq_some_iff] at hg
    obtain ⟨t, ⟨T, hT, ht⟩, hg⟩ := hg
    cases hg
    refine ⟨_, step_load hT ht, ?_⟩
    rw [h.load_eq hT ht hop, h.loaded]
    exact { h with types := rfl, loaded := rfl, shadowed := { h.shadowed with } }
  | store =>
    simp only [goStep, GoMem.typeOf, ← h.types, ← h.loaded, Option.bind_eq_bind,
      Option.bind_eq_some_iff] at hg
    obtain ⟨t, ⟨T, hT, ht⟩, val, hval, hg⟩ := hg
    cases hg
    exact ⟨_, step_store hT ht hval, h.store hT ht val⟩

/-- **Memory is Go's memory.** Every program that uses its allocations as
they are typed, whose operations meet `Regular`, runs; its loads return what
Go's return; every leaf holds what it holds in Go; and whatever is stored
next changes no leaf outside the stored part. -/
theorem memory_refines (cfg : MemConfig S) (ops : List (Op S)) (g : GoMem S)
    (hg : exec (goStep cfg) {} ops = some g)
    (hops : Guarded (step cfg) (Regular cfg) {} ops) :
    ∃ s, exec (step cfg) {} ops = some s ∧ s.loaded = g.loaded ∧
      (∀ a T q t, s.types a = some T → typeAt T q = some t → isAggregateType t = false →
        elemOrZero cfg s.mem a (offsetAt cfg.sizes T q) t = g.content cfg a q t) ∧
      ∀ a path src s', step cfg s (.store a path src) = some s' →
        ∀ b T q, s.types b = some T → IsLeaf T q → ¬ (b = a ∧ path <+: q) →
          s'.mem.elems b (offsetAt cfg.sizes T q) = s.mem.elems b (offsetAt cfg.sizes T q) := by
  have hsim : ∀ s g op g', Refines cfg s g → Regular cfg s op → goStep cfg g op = some g' →
      ∃ s', step cfg s op = some s' ∧ Refines cfg s' g' :=
    fun _ _ _ _ h hP hstep => h.step hP hstep
  obtain ⟨s, hs, h⟩ := exec_simulation hsim (Refines.initial cfg) hops hg
  refine ⟨s, hs, h.loaded, fun a T q t hT ht hleaf => h.elemOrZero_eq hT ⟨t, ht, hleaf⟩, ?_⟩
  intro a path src s' hs' b U q hU hq hout
  obtain ⟨T, t, val, hT, ht, rfl⟩ := step_store_inv hs'
  exact (h.shadowed.store_leaf hT ht hU hq).trans (if_neg hout)

end Runs

/-! ## §7. Init tracking -/

mutual

/-- Sizes without padding: eight bytes for every leaf. -/
def packedSize : GoType → Nat
  | .array len elem => len * packedSize elem
  | .struct fields => packedSizes fields
  | .named _ t => packedSize t
  | _ => 8

def packedSizes : List GoType → Nat
  | [] => 0
  | f :: fs => packedSize f + packedSizes fs

end

/-- Field offsets from `o` on. -/
def packedOffsets : Nat → List GoType → List Nat
  | _, [] => []
  | o, f :: fs => o :: packedOffsets (o + packedSize f) fs

theorem packedOffsets_length : ∀ (o : Nat) (fs : List GoType),
    (packedOffsets o fs).length = fs.length
  | _, [] => rfl
  | o, f :: fs => by simp [packedOffsets, packedOffsets_length _ fs]

theorem le_packedOffsets : ∀ (o : Nat) (fs : List GoType) (j o' : Nat),
    (packedOffsets o fs)[j]? = some o' → o ≤ o'
  | _, [], _, _, h => by simp [packedOffsets] at h
  | o, f :: fs, 0, o', h => by
    simp only [packedOffsets, List.getElem?_cons_zero, Option.some.injEq] at h
    omega
  | o, f :: fs, j + 1, o', h => by
    have := le_packedOffsets (o + packedSize f) fs j o' (by simpa [packedOffsets] using h)
    omega

theorem packedOffsets_lt : ∀ (o : Nat) (fs : List GoType) (i j : Nat) (f : GoType) (u v : Nat),
    i < j → fs[i]? = some f → (packedOffsets o fs)[i]? = some u →
      (packedOffsets o fs)[j]? = some v → u + packedSize f ≤ v
  | _, [], _, _, _, _, _, _, h, _, _ => by simp at h
  | o, _ :: fs, 0, j + 1, f, u, v, _, hf, hu, hv => by
    simp only [packedOffsets, List.getElem?_cons_zero, Option.some.injEq] at hf hu
    subst hf hu
    exact le_packedOffsets _ fs j v (by simpa [packedOffsets] using hv)
  | o, _ :: fs, i + 1, j + 1, f, u, v, hij, hf, hu, hv =>
    packedOffsets_lt _ fs i j f u v (by omega) (by simpa using hf)
      (by simpa [packedOffsets] using hu) (by simpa [packedOffsets] using hv)

theorem packedOffsets_le : ∀ (o : Nat) (fs : List GoType) (i : Nat) (f : GoType) (u : Nat),
    fs[i]? = some f → (packedOffsets o fs)[i]? = some u →
      u + packedSize f ≤ o + packedSizes fs
  | _, [], _, _, _, h, _ => by simp at h
  | o, f :: fs, 0, _, u, hf, hu => by
    simp only [packedOffsets, List.getElem?_cons_zero, Option.some.injEq] at hf hu
    subst hf hu
    rw [packedSizes]
    omega
  | o, g :: fs, i + 1, f, u, hf, hu => by
    have := packedOffsets_le (o + packedSize g) fs i f u (by simpa using hf)
      (by simpa [packedOffsets] using hu)
    rw [packedSizes]
    omega

theorem packedSize_underlying : ∀ t : GoType, packedSize t = packedSize t.underlying
  | .named _ t => by rw [packedSize, GoType.underlying, packedSize_underlying t]
  | .basic _ | .pointer | .slice | .map | .chan | .func | .interface | .array _ _ | .struct _ =>
    rfl

theorem packedSize_leaf : ∀ t : GoType, isAggregateType t = false → 0 < packedSize t
  | .named name t, h => by
    rw [packedSize]
    exact packedSize_leaf t ((isAggregateType_named name t).symm.trans h)
  | .array _ _, h | .struct _, h => by simp [isAggregateType, GoType.underlying] at h
  | .basic _, _ | .pointer, _ | .slice, _ | .map, _ | .chan, _ | .func, _ | .interface, _ => by
    simp [packedSize]

def packed : Sizes where
  sizeof := packedSize
  offsetsof := packedOffsets 0
  offsets_length := packedOffsets_length 0
  offsets_lt fs i j f o o' := packedOffsets_lt 0 fs i j f o o'
  offsets_le fs i f o hf ho := by simpa [packedSize] using packedOffsets_le 0 fs i f o hf ho
  array_le n t := by simp [packedSize]
  sizeof_underlying := packedSize_underlying
  leaf_pos := packedSize_leaf

/-- A session whose scalars are numbers, with or without init tracking. -/
def numbers (trackInit : Bool) : MemConfig Int where
  sizes := packed
  zero _ := 0
  stdlibOpaque := -1
  trackInit

/-- `struct { a, b int }`. -/
def pair : GoType := .struct [.basic .int, .basic .int]

/-- `p := new(pair); p.a = 5; p.b = 7; q := new(pair); *q = *p;
r := arena.New[int](a); *r = q.b; v := *r`. -/
def copyPair : List (Op Int) :=
  [.alloc pair, .store 1 [0] (.const (.scalar 5)), .store 1 [1] (.const (.scalar 7)),
    .load 1 [], .alloc pair, .store 2 [] (.loaded 0), .load 2 [1],
    .arenaNew (.basic .int), .store 3 [] (.loaded 0), .load 3 []]

/-- With init tracking on, a copied pair has the fields of the first. -/
theorem memory_refines_copy :
    ∃ s, exec (step (numbers true)) {} copyPair = some s ∧
      s.loaded =
        [.scalar 7, .scalar 7, .aggregate (layout packed pair) [.scalar 5, .scalar 7]] := by
  have hops : Guarded (step (numbers true)) (Regular (numbers true)) {} copyPair := by
    refine ⟨nofun, trivial, trivial, .inr (.inr ?_), nofun, trivial, .inr (.inr ?_),
      (by decide : packed.sizeof (.basic .int) ≤ 8), trivial, .inr (.inr ?_), trivial⟩
    all_goals
      intro p t al hp hal
      cases hp
      cases hal
      decide
  obtain ⟨s, hs, hloaded, -⟩ := memory_refines (numbers true) copyPair _ rfl hops
  exact ⟨s, hs, hloaded⟩

/-- `p := new(pair); p.a = 5; v := *p`. -/
def halfWritten : List (Op Int) :=
  [.alloc pair, .store 1 [0] (.const (.scalar 5)), .load 1 []]

/-- `p := arena.New[pair](a); p.b = 7; v := p.b`. -/
def secondWord : List (Op Int) :=
  [.arenaNew pair, .store 1 [1] (.const (.scalar 7)), .load 1 [1]]

/-- **Stored values are lost.** After `halfWritten` `v` is `{5, 0}` in Go.
With init tracking on the load is an error, as `p.b` was never written, and
`v` is the zero value. After `secondWord` `v` is 7 in Go; here `p.b` is out
of the bounds of the eight bytes of `*p`. -/
theorem half_written_load :
    (exec (goStep (numbers true)) {} halfWritten).map GoMem.loaded =
        some [.aggregate (layout packed pair) [.scalar 5, .scalar 0]] ∧
      (exec (step (numbers true)) {} halfWritten).map State.loaded = some [.zeroAggregate] ∧
      (exec (goStep (numbers false)) {} secondWord).map GoMem.loaded = some [.scalar 7] ∧
      (exec (step (numbers false)) {} secondWord).map State.loaded = some [.scalar 0] :=
  ⟨rfl, rfl, rfl, rfl⟩

end Giri.Memory
