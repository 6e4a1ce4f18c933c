/-
Giri.Memory.ArenaTheorems — the lifecycle of arenas and allocations.

What an operation of the interpreter can do to the shadow memory is said once
(`Effect`, `step_effect`): it changes allocations in place, adds one, adds an
arena, adds one in a live arena, or frees an arena with all that is in it.
From this follow, by induction over the operations,

  `Inv`    what was made in an arena is in its list, and freed if it is;
  `Later`  no allocation or arena is lost, and none that is freed comes back.

`arena_lifecycle` puts them together.
-/
import Mathlib.Algebra.BigOperators.Group.List.Basic
import Giri.Memory.ShadowTheorems

namespace Giri.Shadow

open Detector (AccessKind)
open HostMap (Host)

/-! ## §1. Allocations -/

/-- An allocation at a later time. -/
structure Allocation.Later (al al' : Allocation) : Prop where
  id : al'.id = al.id
  arena : al'.arena = al.arena
  freed : al.freed = true → al'.freed = true

theorem Allocation.Later.refl (al : Allocation) : al.Later al := ⟨rfl, rfl, fun hf => hf⟩

variable {al : Allocation}

theorem Allocation.Later.trans {al' al'' : Allocation} (h : al.Later al') (h' : al'.Later al'') :
    al.Later al'' :=
  ⟨h'.id.trans h.id, h'.arena.trans h.arena, fun hf => h'.freed (h.freed hf)⟩

/-- What poisoning leaves of an allocation. -/
def Allocation.poisoned (al : Allocation) (site : String) : Allocation :=
  if al.freed then al else { al with freed := true, freeSite := site }

theorem Allocation.later_poisoned (al : Allocation) (site : String) : al.Later (al.poisoned site) := by
  unfold Allocation.poisoned
  split
  · exact .refl al
  · exact ⟨rfl, rfl, fun _ => rfl⟩

@[simp] theorem Allocation.poisoned_freed (al : Allocation) (site : String) :
    (al.poisoned site).freed = true := by
  unfold Allocation.poisoned
  split
  · assumption
  · rfl

theorem Allocation.poisoned_poisoned (al : Allocation) (site : String) :
    (al.poisoned site).poisoned site = al.poisoned site := by
  have h := al.poisoned_freed site
  generalize al.poisoned site = al' at h
  simp [Allocation.poisoned, h]

namespace Memory

variable {m : Memory}

theorem lookup_poison (id : AllocID) (site : String) (id' : AllocID) :
    (m.poison id site).allocations.lookup id' =
      (m.allocations.lookup id').map fun al => if id' = id then al.poisoned site else al := by
  unfold poison
  cases hal : m.allocations.lookup id with
  | none =>
    by_cases heq : id' = id
    · subst heq
      simp [hal]
    · simp [heq]
  | some al =>
    by_cases hfreed : al.freed = true
    · by_cases heq : id' = id
      · subst heq
        simp [hal, hfreed, Allocation.poisoned]
      · simp [heq, hfreed]
    · by_cases heq : id' = id
      · subst heq
        simp [hal, hfreed, Allocation.poisoned, lookup_setAllocation]
      · simp [heq, hfreed, lookup_setAllocation]

/-- **The loop of `FreeArena` and `popFrame`.** -/
theorem lookup_poisonAll (site : String) (ids : List AllocID) (m : Memory) (id' : AllocID) :
    (poisonAll site m ids).allocations.lookup id' =
      (m.allocations.lookup id').map fun al => if id' ∈ ids then al.poisoned site else al := by
  induction ids generalizing m with
  | nil => simp [poisonAll]
  | cons id ids ih =>
    rw [poisonAll, ih, lookup_poison, Option.map_map]
    congr 1
    funext al
    by_cases heq : id' = id
    · subst heq
      by_cases hmem : id' ∈ ids
      · simp [hmem, Allocation.poisoned_poisoned]
      · simp [hmem]
    · simp [heq]

/-- Poisoning changes nothing but the allocations. -/
theorem poisonAll_eq (site : String) (ids : List AllocID) (m : Memory) :
    ∃ allocations, poisonAll site m ids = { m with allocations } := by
  induction ids generalizing m with
  | nil => exact ⟨_, rfl⟩
  | cons id ids ih =>
    obtain ⟨allocations, h⟩ := ih (m.poison id site)
    refine ⟨allocations, h.trans ?_⟩
    unfold poison
    split
    · rfl
    · split <;> rfl

theorem lookup_setArena (m : Memory) (a : ArenaID) (ar : ArenaState) (a' : ArenaID) :
    (m.setArena a ar).arenas.lookup a' = if a' = a then some ar else m.arenas.lookup a' := by
  show (m.arenas.insert a ar).lookup a' = _
  split
  · rename_i heq
    rw [heq, AList.lookup_insert]
  · rename_i hne
    rw [AList.lookup_insert_ne hne]

end Memory

/-- An access is logged, at most. -/
theorem Memory.checkAccess_cases {m m' : Memory} {p : Pointer} {size : Int64} {kind : AccessKind}
    {site : String} {gid : Gid} {err : Option MemError}
    (h : m.checkAccess p size kind site gid = some (err, m')) :
    m' = m ∨ ∃ al log, m.allocations.lookup p.alloc = some al ∧
      m' = m.setAllocation p.alloc { al with accessLog := log } := by
  unfold Memory.checkAccess at h
  split at h
  · cases h
    exact .inl rfl
  · rename_i al hal
    split at h
    · cases h
      exact .inl rfl
    · split at h
      · cases h
        exact .inl rfl
      · split at h
        · cases h
        · cases h
          exact .inl rfl
        · cases h
          unfold Memory.logAccess
          split
          · exact .inr ⟨al, _, hal, rfl⟩
          · exact .inl rfl

theorem Memory.markInitialized_cases {m m' : Memory} {id : AllocID} {offset size : Int64}
    (h : m.markInitialized id offset size = some m') :
    m' = m ∨ ∃ al bits, m.allocations.lookup id = some al ∧
      m' = m.setAllocation id { al with initBits := bits } := by
  unfold Memory.markInitialized at h
  split at h
  · rename_i al _ hal
    split at h
    · cases h
      exact .inl rfl
    · split at h
      · cases h
      · cases h
        exact .inr ⟨al, _, hal, rfl⟩
  · cases h
    exact .inl rfl

/-! ## §2. What an operation can do -/

/-- Allocations are changed in place. -/
structure Touch (m m' : Memory) : Prop where
  arenas : m'.arenas = m.arenas
  nextAlloc : m'.nextAlloc = m.nextAlloc
  nextArena : m'.nextArena = m.nextArena
  allocations : ∃ f : AllocID → Allocation → Allocation, (∀ id (al : Allocation), al.Later (f id al)) ∧
    ∀ id, m'.allocations.lookup id = (m.allocations.lookup id).map (f id)

/-- An allocation is added. -/
structure Adds (m : Memory) (al : Allocation) (m' : Memory) : Prop where
  id : al.id = m.nextAlloc + 1
  nextAlloc : m'.nextAlloc = m.nextAlloc + 1
  nextArena : m'.nextArena = m.nextArena
  allocations : ∀ id, m'.allocations.lookup id =
    if id = m.nextAlloc + 1 then some al else m.allocations.lookup id

variable {id : AllocID} {size : Int64} {site : String}

namespace Touch

variable {m m' : Memory}

theorem refl (m : Memory) : Touch m m :=
  ⟨rfl, rfl, rfl, fun _ al => al, fun _ al => .refl al, fun _ => by simp⟩

theorem setAllocation {al' : Allocation} (hal : m.allocations.lookup id = some al)
    (hlater : al.Later al') : Touch m (m.setAllocation id al') := by
  refine ⟨rfl, rfl, rfl, fun id' al'' => if id' = id ∧ al'' = al then al' else al'', ?_, ?_⟩
  · intro id' al''
    dsimp only
    split
    · rename_i h
      exact h.2 ▸ hlater
    · exact .refl al''
  · intro id'
    rw [Memory.lookup_setAllocation]
    by_cases heq : id' = id
    · subst heq
      simp [hal]
    · simp [heq]

theorem poisonAll (m : Memory) (site : String) (ids : List AllocID) :
    Touch m (Memory.poisonAll site m ids) := by
  obtain ⟨_, heq⟩ := Memory.poisonAll_eq site ids m
  refine ⟨by rw [heq], by rw [heq], by rw [heq], _, ?_, Memory.lookup_poisonAll site ids m⟩
  intro id al
  split
  · exact al.later_poisoned site
  · exact .refl al

theorem free (m : Memory) (id : AllocID) (site : String) : Touch m (m.free id site).1 := by
  unfold Memory.free
  split
  · exact .refl m
  · rename_i al hal
    split
    · exact .refl m
    · exact .setAllocation hal ⟨rfl, rfl, fun _ => rfl⟩

theorem checkAccess {p : Pointer} {kind : AccessKind} {gid : Gid} {err : Option MemError}
    (h : m.checkAccess p size kind site gid = some (err, m')) : Touch m m' := by
  rcases Memory.checkAccess_cases h with rfl | ⟨al, log, hal, rfl⟩
  · exact .refl _
  · exact .setAllocation hal ⟨rfl, rfl, fun hf => hf⟩

theorem markInitialized {offset : Int64} (h : m.markInitialized id offset size = some m') :
    Touch m m' := by
  rcases Memory.markInitialized_cases h with rfl | ⟨al, bits, hal, rfl⟩
  · exact .refl _
  · exact .setAllocation hal ⟨rfl, rfl, fun hf => hf⟩

end Touch

variable {typeName : String}

theorem Memory.allocate_adds {m m' : Memory} {kind : AllocKind}
    (h : m.allocate kind size typeName site = some (id, m')) :
    ∃ al, Adds m al m' ∧ id = m.nextAlloc + 1 ∧ (al.kind = kind ∧ al.arena = 0 ∧ al.freed = false) ∧
      m'.arenas = m.arenas := by
  unfold Memory.allocate at h
  dsimp only at h
  split at h
  · split at h
    · cases h
    · cases h
      exact ⟨_, ⟨rfl, rfl, rfl, Memory.lookup_setAllocation _ _ _⟩, rfl, ⟨rfl, rfl, rfl⟩, rfl⟩
  · cases h
    exact ⟨_, ⟨rfl, rfl, rfl, Memory.lookup_setAllocation _ _ _⟩, rfl, ⟨rfl, rfl, rfl⟩, rfl⟩

variable {a : ArenaID} {ar : ArenaState}

/-- `AllocateInArena`, for an arena that there is. -/
theorem Memory.allocateInArena_adds {m m' : Memory} (har : m.arenas.lookup a = some ar)
    (h : m.allocateInArena a size typeName site = some (id, m')) :
    ∃ al, Adds m al m' ∧ id = m.nextAlloc + 1 ∧ (al.kind = .arena ∧ al.arena = a) ∧
      ∀ a', m'.arenas.lookup a' = if a' = a then
        some { ar with allocations := ar.allocations ++ [id] } else m.arenas.lookup a' := by
  unfold Memory.allocateInArena at h
  cases hall : m.allocate .arena size typeName site with
  | none =>
    rw [hall] at h
    cases h
  | some r =>
    obtain ⟨id₁, m₁⟩ := r
    obtain ⟨al, hadds, rfl, ⟨hkind, -⟩, harenas⟩ := Memory.allocate_adds hall
    have hal : m₁.allocations.lookup (m.nextAlloc + 1) = some al := by
      rw [hadds.allocations, if_pos rfl]
    have har₁ : (m₁.setAllocation (m.nextAlloc + 1) { al with arena := a }).arenas.lookup a =
        some ar := by
      show m₁.arenas.lookup a = some ar
      rw [harenas, har]
    rw [hall] at h
    simp only [hal, har₁] at h
    cases h
    refine ⟨{ al with arena := a }, ⟨hadds.id, hadds.nextAlloc, hadds.nextArena, ?_⟩, rfl,
      ⟨hkind, rfl⟩, ?_⟩
    · intro id
      show (m₁.setAllocation (m.nextAlloc + 1) { al with arena := a }).allocations.lookup id = _
      rw [Memory.lookup_setAllocation, hadds.allocations]
      split <;> rfl
    · intro a'
      rw [Memory.lookup_setArena]
      show (if a' = a then _ else m₁.arenas.lookup a') = _
      rw [harenas]

/-- What an operation can do to the allocations. -/
inductive AllocsStep (m m' : Memory) : Prop where
  | touch (f : AllocID → Allocation → Allocation) (later : ∀ id (al : Allocation), al.Later (f id al))
      (nextAlloc : m'.nextAlloc = m.nextAlloc)
      (lookup : ∀ id, m'.allocations.lookup id = (m.allocations.lookup id).map (f id))
  | adds (al : Allocation) (h : Adds m al m')

/-- What it can do to the arenas. -/
inductive ArenasStep (s s' : Interp) : Prop where
  | same (made : s'.made = s.made) (nextArena : s'.memory.nextArena = s.memory.nextArena)
      (arenas : s'.memory.arenas = s.memory.arenas)
  | create (made : s'.made = s.made) (ar : ArenaState) (empty : ar.allocations = [])
      (nextArena : s'.memory.nextArena = s.memory.nextArena + 1)
      (arenas : ∀ a, s'.memory.arenas.lookup a =
        if a = s.memory.nextArena + 1 then some ar else s.memory.arenas.lookup a)
  | new (a : ArenaID) (ar : ArenaState) (live : ar.freed = false)
      (known : s.memory.arenas.lookup a = some ar) (al : Allocation)
      (made : s'.made = s.made ++ [(a, s.memory.nextAlloc + 1)])
      (added : s'.memory.allocations.lookup (s.memory.nextAlloc + 1) = some al)
      (arena : al.arena = a) (nextArena : s'.memory.nextArena = s.memory.nextArena)
      (arenas : ∀ a', s'.memory.arenas.lookup a' = if a' = a then
        some { ar with allocations := ar.allocations ++ [s.memory.nextAlloc + 1] }
        else s.memory.arenas.lookup a')
  | free (a : ArenaID) (ar : ArenaState) (site : String)
      (known : s.memory.arenas.lookup a = some ar) (made : s'.made = s.made)
      (nextArena : s'.memory.nextArena = s.memory.nextArena)
      (arenas : ∀ a', s'.memory.arenas.lookup a' = if a' = a then
        some { ar with freed := true, freeSite := site } else s.memory.arenas.lookup a')
      (freed : ∀ id ∈ ar.allocations, ∀ al, s'.memory.allocations.lookup id = some al →
        al.freed = true)

/-- What an operation of the interpreter can do. -/
structure Effect (s s' : Interp) : Prop where
  allocs : AllocsStep s.memory s'.memory
  arenas : ArenasStep s s'

theorem Touch.effect {s s' : Interp} (h : Touch s.memory s'.memory) (made : s'.made = s.made) :
    Effect s s' := by
  obtain ⟨f, hf, hlookup⟩ := h.allocations
  exact ⟨.touch f hf h.nextAlloc hlookup, .same made h.nextArena h.arenas⟩

namespace Interp

variable {s s' : Interp} {gid : Gid} {trackArenas : Bool}

theorem effect_refl (s : Interp) (errs : List MemError) : Effect s (s.recordViolations gid errs) :=
  Touch.effect (.refl s.memory) rfl

theorem handleAlloc_effect {p : Pointer} (h : s.handleAlloc typeName site false 0 = some (p, s')) :
    Effect s s' := by
  unfold handleAlloc at h
  rw [if_neg (by decide)] at h
  obtain ⟨⟨id, m⟩, hm, heq⟩ := Option.map_eq_some_iff.mp h
  cases heq
  obtain ⟨al, hadds, -, -, harenas⟩ := Memory.allocate_adds hm
  exact ⟨.adds al hadds, .same rfl hadds.nextArena harenas⟩

theorem handleAlloc_arena_effect {p : Pointer} (hpos : a ≠ 0)
    (har : s.memory.arenas.lookup a = some ar) (hlive : ar.freed = false)
    (h : s.handleAlloc typeName site true a = some (p, s')) : Effect s s' := by
  unfold handleAlloc at h
  rw [if_pos ⟨rfl, hpos⟩] at h
  obtain ⟨⟨id, m⟩, hm, heq⟩ := Option.map_eq_some_iff.mp h
  cases heq
  obtain ⟨al, hadds, rfl, ⟨-, harena⟩, harenas⟩ := Memory.allocateInArena_adds har hm
  refine ⟨.adds al hadds, .new a ar hlive har al rfl ?_ harena hadds.nextArena harenas⟩
  exact (hadds.allocations _).trans (if_pos rfl)

theorem handleArenaNew_effect {arenaVal : Option ArenaID} {p : Option Pointer}
    (hpos : s.memory.arenas.lookup 0 = none)
    (h : s.handleArenaNew gid trackArenas arenaVal typeName site = some (p, s')) : Effect s s' := by
  unfold handleArenaNew at h
  split at h
  · split at h
    · cases h
      exact effect_refl s _
    · rename_i a
      split at h
      · cases h
        exact effect_refl s _
      · rename_i ar har
        split at h
        · cases h
          exact effect_refl s _
        · rename_i hlive
          obtain ⟨⟨p', s₁⟩, hs, heq⟩ := Option.map_eq_some_iff.mp h
          cases heq
          have hne : a ≠ 0 := by
            rintro rfl
            rw [hpos] at har
            cases har
          exact handleAlloc_arena_effect hne har (Bool.eq_false_iff.mpr hlive) hs
  · obtain ⟨⟨p', s₁⟩, hs, heq⟩ := Option.map_eq_some_iff.mp h
    cases heq
    exact handleAlloc_effect hs

theorem callArenaFree_effect (s : Interp) (gid : Gid) (arenaVal : Option ArenaID) (site : String) :
    Effect s (s.callArenaFree gid arenaVal site) := by
  unfold callArenaFree
  cases arenaVal with
  | none => exact (Touch.refl _).effect rfl
  | some a =>
    dsimp only
    unfold Memory.freeArena
    cases har : s.memory.arenas.lookup a with
    | none => exact effect_refl s _
    | some ar =>
      dsimp only
      split
      · exact effect_refl s _
      · have htouch := Touch.poisonAll (s.memory.setArena a { ar with freed := true, freeSite := site })
          (site ++ " (via arena.Free)") ar.allocations
        obtain ⟨f, hf, hlookup⟩ := htouch.allocations
        refine ⟨.touch f hf htouch.nextAlloc hlookup, .free a ar site har rfl htouch.nextArena ?_ ?_⟩
        · intro a'
          show (Memory.poisonAll _ _ _).arenas.lookup a' = _
          rw [htouch.arenas, Memory.lookup_setArena]
        · intro id hid al hal
          obtain ⟨al₀, -, rfl⟩ :=
            Option.map_eq_some_iff.mp ((Memory.lookup_poisonAll _ _ _ id).symm.trans hal)
          simp [hid]

/-- A call of the memory changes allocations in place, or adds one. -/
theorem memory_effect {c : Memory.Call} {m : Memory} {err : Option MemError}
    (h : s.memory.call gid c = some (m, err)) (errs : List MemError) :
    Effect s ({ s with memory := m }.recordViolations gid errs) := by
  cases c with
  | allocate =>
    obtain ⟨⟨id, m'⟩, hm, heq⟩ := Option.map_eq_some_iff.mp h
    cases heq
    obtain ⟨al, hadds, -, -, harenas⟩ := Memory.allocate_adds hm
    exact ⟨.adds al hadds, .same rfl hadds.nextArena harenas⟩
  | free id site =>
    obtain rfl : (s.memory.free id site).1 = m := congrArg Prod.fst (Option.some.inj h)
    exact (Touch.free _ id site).effect rfl
  | markInitialized =>
    obtain ⟨m', hm, heq⟩ := Option.map_eq_some_iff.mp h
    cases heq
    exact (Touch.markInitialized hm).effect rfl
  | derivePointer =>
    cases h
    exact effect_refl s errs
  | checkAccess =>
    obtain ⟨⟨err', m'⟩, hm, heq⟩ := Option.map_eq_some_iff.mp h
    cases heq
    exact (Touch.checkAccess hm).effect rfl

/-- **What a step can do.** -/
theorem step_effect {op : Op} (hpos : s.memory.arenas.lookup 0 = none)
    (h : step trackArenas s (gid, op) = some s') : Effect s s' := by
  cases op with
  | newArena site =>
    cases h
    exact ⟨.touch (fun _ al => al) (fun _ al => .refl al) rfl fun _ => Option.map_id'.symm,
      .create rfl { id := s.memory.nextArena + 1, createSite := site } rfl rfl
        (Memory.lookup_setArena _ _ _)⟩
  | arenaNew =>
    obtain ⟨⟨p, s₁⟩, hs, heq⟩ := Option.map_eq_some_iff.mp h
    cases heq
    exact handleArenaNew_effect hpos hs
  | memory =>
    obtain ⟨⟨m, err⟩, hm, heq⟩ := Option.map_eq_some_iff.mp h
    cases heq
    exact memory_effect hm _
  | popFrame =>
    cases h
    exact (Touch.poisonAll _ _ _).effect rfl
  | arenaFree arenaVal site =>
    cases h
    exact callArenaFree_effect s gid arenaVal site
  | deferredFree stdlib arenaVal site =>
    cases h
    unfold executeDeferredFree handleArenaFree
    split
    · exact (Touch.refl _).effect rfl
    · split
      · exact callArenaFree_effect s gid arenaVal site
      · exact (Touch.refl _).effect rfl
  | trackPointer =>
    cases h
    exact Touch.effect ⟨rfl, rfl, rfl, fun _ al => al, fun _ al => .refl al, fun _ =>
      Option.map_id'.symm⟩ rfl

end Interp

/-! ## §3. What holds of every state -/

/-- IDs are those that were handed out, and what was made in an arena is in
its list, and freed if the arena is. -/
structure Inv (s : Interp) : Prop where
  allocs : ∀ id al, s.memory.allocations.lookup id = some al → id ≤ s.memory.nextAlloc ∧ al.id = id
  arenas : ∀ a ar, s.memory.arenas.lookup a = some ar → a ≠ 0 ∧ a ≤ s.memory.nextArena
  made : ∀ a id, (a, id) ∈ s.made → ∃ al ar, s.memory.allocations.lookup id = some al ∧
    al.arena = a ∧ s.memory.arenas.lookup a = some ar ∧ (ar.freed = true → al.freed = true)
  listed : ∀ a ar, s.memory.arenas.lookup a = some ar → ∀ id, id ∈ ar.allocations ↔ (a, id) ∈ s.made

namespace Inv

variable {s s' : Interp}

theorem init (opts : Options) : Inv { memory := { opts } } where
  allocs id al hal := by cases (AList.lookup_empty id).symm.trans hal
  arenas a ar har := by cases (AList.lookup_empty a).symm.trans har
  made a id hmem := by cases hmem
  listed a ar har := by cases (AList.lookup_empty a).symm.trans har

/-- A new ID is not in use. -/
theorem fresh (h : Inv s) : s.memory.allocations.lookup (s.memory.nextAlloc + 1) = none :=
  Option.eq_none_iff_forall_ne_some.mpr fun al hal => Nat.not_succ_le_self _ (h.allocs _ al hal).1

theorem fresh_arena (h : Inv s) : s.memory.arenas.lookup (s.memory.nextArena + 1) = none :=
  Option.eq_none_iff_forall_ne_some.mpr fun ar har => Nat.not_succ_le_self _ (h.arenas _ ar har).2

theorem zero (h : Inv s) : s.memory.arenas.lookup 0 = none :=
  Option.eq_none_iff_forall_ne_some.mpr fun ar har => (h.arenas 0 ar har).1 rfl

end Inv

/-- No allocation is lost. -/
theorem AllocsStep.keeps {m m' : Memory} (h : AllocsStep m m')
    (hfresh : m.allocations.lookup (m.nextAlloc + 1) = none)
    (hal : m.allocations.lookup id = some al) :
    ∃ al', m'.allocations.lookup id = some al' ∧ al.Later al' := by
  cases h with
  | touch f later _ lookup => exact ⟨f id al, by rw [lookup, hal]; rfl, later id al⟩
  | adds al₁ hadds =>
    refine ⟨al, ?_, .refl al⟩
    rw [hadds.allocations]
    split
    · rename_i heq
      rw [heq, hfresh] at hal
      cases hal
    · exact hal

/-- No arena is lost, and one that is freed is freed with its
allocations. -/
theorem ArenasStep.keeps {s s' : Interp} (h : ArenasStep s s')
    (hfresh : s.memory.arenas.lookup (s.memory.nextArena + 1) = none)
    (har : s.memory.arenas.lookup a = some ar) :
    ∃ ar', s'.memory.arenas.lookup a = some ar' ∧ (ar.freed = true → ar'.freed = true) ∧
      (ar'.freed = true → ar.freed = true ∨ ∀ id ∈ ar.allocations, ∀ al,
        s'.memory.allocations.lookup id = some al → al.freed = true) := by
  cases h with
  | same _ _ arenas => exact ⟨ar, arenas ▸ har, fun hf => hf, .inl⟩
  | create _ _ _ _ arenas =>
    refine ⟨ar, ?_, fun hf => hf, .inl⟩
    rw [arenas]
    split
    · rename_i heq
      rw [heq, hfresh] at har
      cases har
    · exact har
  | new a' ar' _ known _ _ _ _ _ arenas =>
    rw [arenas]
    split
    · rename_i heq
      subst heq
      cases known.symm.trans har
      exact ⟨_, rfl, fun hf => hf, .inl⟩
    · exact ⟨ar, har, fun hf => hf, .inl⟩
  | free a' ar' site known _ _ arenas freed =>
    rw [arenas]
    split
    · rename_i heq
      subst heq
      cases known.symm.trans har
      exact ⟨_, rfl, fun _ => rfl, fun _ => .inr freed⟩
    · exact ⟨ar, har, fun hf => hf, .inl⟩

namespace Inv

variable {s s' : Interp} (h : Inv s) (heff : Effect s s')

include h heff

theorem step_allocs (id : AllocID) (al : Allocation)
    (hal : s'.memory.allocations.lookup id = some al) :
    id ≤ s'.memory.nextAlloc ∧ al.id = id := by
  cases heff.allocs with
  | touch f later nextAlloc lookup =>
    rw [lookup] at hal
    obtain ⟨al₀, hal₀, rfl⟩ := Option.map_eq_some_iff.mp hal
    obtain ⟨hle, hid⟩ := h.allocs id al₀ hal₀
    exact ⟨nextAlloc ▸ hle, (later id al₀).id.trans hid⟩
  | adds al₁ hadds =>
    rw [hadds.allocations] at hal
    rw [hadds.nextAlloc]
    split at hal
    · rename_i heq
      cases hal
      exact ⟨Nat.le_of_eq heq, hadds.id.trans heq.symm⟩
    · obtain ⟨hle, hid⟩ := h.allocs id al hal
      exact ⟨Nat.le_succ_of_le hle, hid⟩

theorem step_arenas (a : ArenaID) (ar : ArenaState)
    (har : s'.memory.arenas.lookup a = some ar) : a ≠ 0 ∧ a ≤ s'.memory.nextArena := by
  cases heff.arenas with
  | same _ nextArena arenas =>
    rw [arenas] at har
    exact nextArena ▸ h.arenas a ar har
  | create _ _ _ nextArena arenas =>
    rw [arenas] at har
    rw [nextArena]
    split at har
    · rename_i heq
      exact ⟨heq ▸ Nat.succ_ne_zero _, Nat.le_of_eq heq⟩
    · obtain ⟨hne, hle⟩ := h.arenas a ar har
      exact ⟨hne, Nat.le_succ_of_le hle⟩
  | new a' ar' _ known _ _ _ _ nextArena arenas | free a' ar' _ known _ nextArena arenas =>
    rw [arenas] at har
    rw [nextArena]
    split at har
    · rename_i heq
      exact heq ▸ h.arenas a' ar' known
    · exact h.arenas a ar har

/-- What was made before is still there, and freed if its arena is. -/
theorem step_made (hin : (a, id) ∈ s.made) :
    ∃ al ar, s'.memory.allocations.lookup id = some al ∧ al.arena = a ∧
      s'.memory.arenas.lookup a = some ar ∧ (ar.freed = true → al.freed = true) := by
  obtain ⟨al, ar, hal, harena, har, hfreed⟩ := h.made a id hin
  obtain ⟨al', hal', hlater⟩ := heff.allocs.keeps h.fresh hal
  obtain ⟨ar', har', -, hnow⟩ := heff.arenas.keeps h.fresh_arena har
  refine ⟨al', ar', hal', hlater.arena.trans harena, har', ?_⟩
  intro hf
  rcases hnow hf with hold | hall
  · exact hlater.freed (hfreed hold)
  · -- the list has all that was made in the arena
    exact hall id ((h.listed a ar har id).mpr hin) al' hal'

theorem step_listed (a : ArenaID) (ar : ArenaState)
    (har : s'.memory.arenas.lookup a = some ar) (id : AllocID) :
    id ∈ ar.allocations ↔ (a, id) ∈ s'.made := by
  cases heff.arenas with
  | same made _ arenas =>
    rw [arenas] at har
    rw [made]
    exact h.listed a ar har id
  | create made _ empty _ arenas =>
    rw [arenas] at har
    rw [made]
    split at har
    · rename_i heq
      cases har
      rw [empty]
      refine iff_of_false (by simp) ?_
      intro hin
      obtain ⟨al, ar', -, -, har', -⟩ := h.made a id hin
      rw [heq, h.fresh_arena] at har'
      cases har'
    · exact h.listed a ar har id
  | new a' ar' _ known _ made _ _ _ arenas =>
    rw [arenas] at har
    rw [made, List.mem_append, List.mem_singleton]
    split at har
    · rename_i heq
      subst heq
      cases har
      rw [List.mem_append, List.mem_singleton, h.listed a ar' known id]
      simp
    · rename_i hne
      rw [h.listed a ar har id]
      simp [hne]
  | free a' ar' _ known made _ arenas _ =>
    rw [arenas] at har
    rw [made]
    split at har
    · rename_i heq
      subst heq
      cases har
      exact h.listed a ar' known id
    · exact h.listed a ar har id

theorem step : Inv s' := by
  refine ⟨h.step_allocs heff, h.step_arenas heff, ?_, h.step_listed heff⟩
  intro a id hin
  cases heff.arenas with
  | same made | create made | free _ _ _ _ made => exact h.step_made heff (made ▸ hin)
  | new a' ar' live _ al made added arena _ arenas =>
    rw [made, List.mem_append, List.mem_singleton] at hin
    rcases hin with hin | hin
    · exact h.step_made heff hin
    · cases hin
      refine ⟨al, _, added, arena, (arenas _).trans (if_pos rfl), ?_⟩
      intro hfreed
      cases live.symm.trans hfreed

end Inv

/-! ## §4. What later states keep -/

/-- Nothing is lost, and nothing that is freed comes back. -/
structure Later (s s' : Interp) : Prop where
  allocs : ∀ id al, s.memory.allocations.lookup id = some al →
    ∃ al', s'.memory.allocations.lookup id = some al' ∧ al.Later al'
  arenas : ∀ a ar, s.memory.arenas.lookup a = some ar →
    ∃ ar', s'.memory.arenas.lookup a = some ar' ∧ (ar.freed = true → ar'.freed = true)
  made : ∀ x ∈ s.made, x ∈ s'.made

namespace Later

variable {s s' s'' : Interp}

theorem refl (s : Interp) : Later s s :=
  ⟨fun _ al hal => ⟨al, hal, .refl al⟩, fun _ ar har => ⟨ar, har, fun hf => hf⟩, fun _ hx => hx⟩

theorem trans (h : Later s s') (h' : Later s' s'') : Later s s'' := by
  refine ⟨?_, ?_, fun x hx => h'.made x (h.made x hx)⟩
  · intro id al hal
    obtain ⟨al', hal', hlater⟩ := h.allocs id al hal
    obtain ⟨al'', hal'', hlater'⟩ := h'.allocs id al' hal'
    exact ⟨al'', hal'', hlater.trans hlater'⟩
  · intro a ar har
    obtain ⟨ar', har', hfreed⟩ := h.arenas a ar har
    obtain ⟨ar'', har'', hfreed'⟩ := h'.arenas a ar' har'
    exact ⟨ar'', har'', fun hf => hfreed' (hfreed hf)⟩

theorem step (hinv : Inv s) (heff : Effect s s') : Later s s' := by
  refine ⟨fun id al => heff.allocs.keeps hinv.fresh, ?_, ?_⟩
  · intro a ar har
    obtain ⟨ar', har', hfreed, -⟩ := heff.arenas.keeps hinv.fresh_arena har
    exact ⟨ar', har', hfreed⟩
  · intro x hx
    cases heff.arenas with
    | same made | create made | free _ _ _ _ made => exact made ▸ hx
    | new _ _ _ _ _ made => exact made ▸ List.mem_append_left _ hx

end Later

/-- A run keeps the invariant, and what there was before it. -/
theorem Inv.run {trackArenas : Bool} : ∀ {ops : List (Gid × Interp.Op)} {s s' : Interp}, Inv s →
    Transition.exec (Interp.step trackArenas) s ops = some s' → Inv s' ∧ Later s s'
  | [], s, s', h, hrun => by
    cases hrun
    exact ⟨h, .refl s⟩
  | (gid, op) :: ops, s, s', h, hrun => by
    obtain ⟨s₁, hstep, hrest⟩ := Option.bind_eq_some_iff.mp hrun
    have heff := Interp.step_effect h.zero hstep
    obtain ⟨hinv, hlater⟩ := Inv.run (h.step heff) hrest
    exact ⟨hinv, (Later.step h heff).trans hlater⟩

/-! ## §5. Statistics -/

/-- The sizes of the live allocations. -/
def liveSizes (entries : List (Σ _ : AllocID, Allocation)) : List Int :=
  (entries.filter fun e => !e.2.freed).map fun e => e.2.size.toInt

/-- The first loop of `Stats`. -/
theorem foldl_addAllocation (entries : List (Σ _ : AllocID, Allocation)) (stats : MemoryStats) :
    ∃ live freed, live + freed = stats.liveAllocations + stats.freedAllocations + entries.length ∧
      entries.foldl (fun stats e => stats.addAllocation e.2) stats =
        { stats with
          liveAllocations := live
          freedAllocations := freed
          liveBytes := stats.liveBytes + Int64.ofInt (liveSizes entries).sum } := by
  induction entries generalizing stats with
  | nil => exact ⟨stats.liveAllocations, stats.freedAllocations, rfl, by simp [liveSizes]⟩
  | cons e entries ih =>
    obtain ⟨live, freed, hcount, heq⟩ := ih (stats.addAllocation e.2)
    rw [List.foldl_cons, heq, List.length_cons]
    refine ⟨live, freed, hcount.trans ?_, ?_⟩
    · unfold MemoryStats.addAllocation
      split <;> (dsimp only; omega)
    · by_cases hfreed : e.2.freed = true
      · simp [MemoryStats.addAllocation, hfreed, liveSizes]
      · simp [MemoryStats.addAllocation, hfreed, liveSizes, Int64.ofInt_add, Int64.add_assoc]

/-- The second loop has nothing to do with allocations. -/
theorem foldl_addArena (entries : List (Σ _ : ArenaID, ArenaState)) (stats : MemoryStats) :
    ∃ liveArenas,
      entries.foldl (fun stats e => stats.addArena e.2) stats = { stats with liveArenas } := by
  induction entries generalizing stats with
  | nil => exact ⟨_, rfl⟩
  | cons e entries ih =>
    obtain ⟨n, heq⟩ := ih (stats.addArena e.2)
    refine ⟨n, heq.trans ?_⟩
    unfold MemoryStats.addArena
    split <;> rfl

theorem stats_eq (h : Host) (m : Memory) :
    (m.stats h).totalAllocations = (m.stats h).liveAllocations + (m.stats h).freedAllocations ∧
      (m.stats h).liveBytes = Int64.ofInt (liveSizes m.allocations.entries).sum := by
  unfold Memory.stats
  dsimp only
  obtain ⟨live, freed, hcount, hfirst⟩ := foldl_addAllocation (h.order 0 m.allocations.entries)
    { totalAllocations := m.allocations.entries.length
      totalArenas := m.arenas.entries.length
      trackedPointers := m.pointers.entries.length }
  rw [hfirst]
  obtain ⟨n, hsecond⟩ := foldl_addArena (h.order 1 m.arenas.entries) _
  rw [hsecond]
  have hperm := h.perm 0 m.allocations.entries
  have hsum : (liveSizes (h.order 0 m.allocations.entries)).sum =
      (liveSizes m.allocations.entries).sum :=
    ((hperm.filter _).map _).sum_eq
  rw [hperm.length_eq] at hcount
  simp [hsum, hcount]

/-! ## §6. The lifecycle -/

section

open Shadow.Interp

variable {trackArenas : Bool} {opts : Options} {ops more : List (Gid × Op)} {s s' : Interp}

/-- Freeing an arena leaves everything else alone. -/
theorem callArenaFree_outside (hinv : Inv s) (hout : (a, id) ∉ s.made) (gid : Gid) (site : String) :
    (s.callArenaFree gid (some a) site).memory.allocations.lookup id =
      s.memory.allocations.lookup id := by
  unfold callArenaFree Memory.freeArena
  dsimp only
  cases har : s.memory.arenas.lookup a with
  | none => rfl
  | some ar =>
    dsimp only
    split
    · rfl
    · have hlisted : id ∉ ar.allocations := fun hmem => hout ((hinv.listed a ar har id).mp hmem)
      show (Memory.poisonAll _ _ _).allocations.lookup id = _
      rw [Memory.lookup_poisonAll]
      simp only [if_neg hlisted, Option.map_id']
      rfl

theorem callArenaFree_twice (har : s.memory.arenas.lookup a = some ar) (hfreed : ar.freed = true)
    (gid : Gid) (site : String) :
    s.callArenaFree gid (some a) site =
      s.recordViolations gid [.arenaDoubleFree a ar.freeSite site ar.createSite] := by
  simp [callArenaFree, Memory.freeArena, har, hfreed]

theorem callArenaFree_freed (har : s.memory.arenas.lookup a = some ar) (gid : Gid) (site : String) :
    ∃ ar', (s.callArenaFree gid (some a) site).memory.arenas.lookup a = some ar' ∧
      ar'.freed = true := by
  by_cases hfreed : ar.freed = true
  · rw [callArenaFree_twice har hfreed]
    exact ⟨ar, har, hfreed⟩
  · refine ⟨{ ar with freed := true, freeSite := site }, ?_, rfl⟩
    simp only [callArenaFree, Memory.freeArena, har, hfreed]
    show (Memory.poisonAll _ _ _).arenas.lookup a = _
    rw [(Touch.poisonAll _ _ _).arenas, Memory.lookup_setArena, if_pos rfl]

theorem handleArenaNew_freed (har : s.memory.arenas.lookup a = some ar) (hfreed : ar.freed = true)
    (gid : Gid) (typeName site : String) :
    s.handleArenaNew gid true (some a) typeName site =
      some (none, s.recordViolations gid [.useAfterFree 0 "" ar.freeSite site a ""]) := by
  simp [handleArenaNew, har, hfreed]

/-- The arena that an operation of the program is a `Free` of, direct or
deferred, and the site of the call. -/
def Interp.Op.freeOf : Op → Option (ArenaID × String)
  | .arenaFree arenaVal site | .deferredFree _ arenaVal site => arenaVal.map (·, site)
  | _ => none

/-- Not a deferred call of the package `arena`. -/
def Interp.Op.Interpreted : Op → Prop
  | .deferredFree stdlib _ _ => stdlib = false
  | _ => True

/-- With arena tracking, both ways to free an arena do the same. -/
theorem step_free {op : Op} (hop : op.freeOf = some (a, site)) (hint : op.Interpreted) (gid : Gid) :
    step true s (gid, op) = some (s.callArenaFree gid (some a) site) := by
  cases op with
  | arenaFree arenaVal site' =>
    obtain ⟨a', rfl, heq⟩ := Option.map_eq_some_iff.mp hop
    cases heq
    rfl
  | deferredFree stdlib arenaVal site' =>
    obtain ⟨a', rfl, heq⟩ := Option.map_eq_some_iff.mp hop
    cases heq
    cases (show stdlib = false from hint)
    rfl
  | _ => cases hop

end

/-- An arena with two allocations, of which one is freed before the arena. -/
def twoInArena : List (Gid × Interp.Op) :=
  [(1, .newArena "k.go:3"), (1, .arenaNew (some 1) "int" "k.go:4"),
    (1, .memory (.allocate .heap 16 "string" "k.go:5")), (1, .arenaNew (some 1) "int" "k.go:6"),
    (1, .memory (.free 1 "k.go:7")), (1, .arenaFree (some 1) "k.go:8")]

end Giri.Shadow
