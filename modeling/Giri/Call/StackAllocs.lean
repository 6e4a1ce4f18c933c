/-
Giri.Call.StackAllocs — when the stack allocations of a frame die
(`ssa.Alloc` in `execOp`, `pushFrame`, `popFrame`, `Poison`).

Goroutines with their call stacks (`Giri.Call`) run over ONE shadow memory
(`Giri.Shadow`), in any order. An `ssa.Alloc` with `Heap = false` enters the
ID in the `StackAllocs` of the frame on top, and the end of `popFrame`
poisons what is in them; deferred calls run before that, with the frame
still on the stack. The rest of the interpreter allocates on the heap, in
arenas and for globals, frees arenas and accesses memory. It never calls
`Memory.Free`.

The detectors are on: without them (`skipChecks`) there is no shadow memory.
-/
import Giri.Call.RuntimePanicTheorems
import Giri.Memory.ArenaTheorems

namespace Giri.StackAllocs

open Call (Goroutine)
open Shadow (AllocKind Allocation ArenaID Memory Options)

variable {N V W : Type}

/-! ## §1. The system -/

/-- What the rest of the interpreter does to the memory: neither
`Memory.Free`, nor what frames do. -/
def permitted : Shadow.Interp.Op → Bool
  | .memory (.allocate kind _ _ _) => kind != .stack
  | .memory (.free _ _) => false
  | .popFrame _ _ => false
  | _ => true

/-- The goroutines over the memory. `stackAllocs` are the `StackAllocs` of a
frame, by goroutine and number. A goroutine not started yet has no frames. -/
structure Sys (N V W : Type) where
  goroutines : Gid → Goroutine N V W
  world : W
  shadow : Shadow.Interp
  stackAllocs : Gid → Nat → List AllocID := fun _ _ => []

inductive Act (N V : Type) where
  /-- A goroutine is started. -/
  | start (g : Gid) (hasRecover : Bool) (onExit : Option N)
  /-- A step on the call stack; `site` is the `Site` of the frame on top. -/
  | step (g : Gid) (a : Call.Act N V) (site : String)
  /-- `ssa.Alloc`. -/
  | alloc (g : Gid) (heap : Bool) (size : Int64) (typeName site : String)
  | memory (g : Gid) (op : Shadow.Interp.Op)

namespace Sys

/-- The frame that a step has popped. -/
def popped (r r' : Goroutine N V W) : List Nat :=
  if r'.ids.length < r.ids.length then r.ids.head?.toList else []

/-- An allocation is added to the `StackAllocs` of the frame `i`. -/
def addStackAlloc (s : Sys N V W) (g : Gid) (i : Nat) (id : AllocID) : Sys N V W :=
  { s with
    stackAllocs := fun g' i' =>
      if g' = g ∧ i' = i then s.stackAllocs g i ++ [id] else s.stackAllocs g' i' }

/-- The effect of a step; `none` if it can't be taken. -/
def step (env : N → W → W) (trackArenas : Bool) (s : Sys N V W) : Act N V → Option (Sys N V W)
  | .start g hasRecover onExit =>
    if (s.goroutines g).nextFrame = 0 then
      some { s with
        goroutines := Function.update s.goroutines g (.init s.world hasRecover onExit) }
    else none
  | .step g a site =>
    match { s.goroutines g with world := s.world }.step env a with
    | none => none
    | some r =>
      let ids := (popped (s.goroutines g) r).flatMap (s.stackAllocs g)
      some { s with
        goroutines := Function.update s.goroutines g r
        world := r.world
        shadow := { s.shadow with
          memory := s.shadow.memory.poisonAll (site ++ " (stack frame exited)") ids } }
  | .alloc g heap size typeName site =>
    match (s.goroutines g).stack with
    | [] => none
    | f :: _ =>
      if f.inBlocks && !(s.goroutines g).stopped && !(s.goroutines g).inProbe then
        match s.shadow.memory.allocate (if heap then .heap else .stack) size typeName site with
        | none => none
        | some (id, m) =>
          let s := { s with shadow := { s.shadow with memory := m } }
          some (if heap then s else s.addStackAlloc g f.id id)
      else none
  | .memory g op =>
    if permitted op then
      (s.shadow.step trackArenas (g, op)).map fun shadow => { s with shadow }
    else none

/-- Before the first goroutine is started. -/
def init (world : W) (opts : Options) : Sys N V W where
  goroutines _ := { stack := [], finished := true, world }
  world := world
  shadow := { memory := { opts } }

def Step (env : N → W → W) (trackArenas : Bool) (s : Sys N V W) (a : Act N V) (t : Sys N V W) :
    Prop :=
  s.step env trackArenas a = some t

/-- The stack allocation was made by the frame `i` of the goroutine `g`,
which is on the stack. -/
def OnStack (s : Sys N V W) (id : AllocID) : Prop :=
  ∃ g, ∃ i ∈ (s.goroutines g).ids, id ∈ s.stackAllocs g i

end Sys

/-! ## §2. Stack allocations in the memory -/

/-- A stack allocation: whether it is freed, and its arena. -/
def stackView (m : Memory) (id : AllocID) : Option (Bool × ArenaID) :=
  (m.allocations.lookup id).bind fun al => if al.kind = .stack then some (al.freed, al.arena) else none

section View

variable {m m' : Memory} {id : AllocID} {al : Allocation}

theorem stackView_eq_some {v : Bool × ArenaID} : stackView m id = some v ↔
    ∃ al, m.allocations.lookup id = some al ∧ al.kind = .stack ∧ (al.freed, al.arena) = v := by
  simp [stackView, Option.bind_eq_some_iff]

/-- An allocation is changed in place, but neither freed nor moved. -/
theorem stackView_setAllocation {al' : Allocation} (hal : m.allocations.lookup id = some al)
    (hkind : al'.kind = al.kind) (hfreed : al'.freed = al.freed) (harena : al'.arena = al.arena) :
    stackView (m.setAllocation id al') = stackView m := by
  funext id'
  rw [stackView, stackView, Memory.lookup_setAllocation]
  split
  · rename_i heq
    rw [heq, hal]
    simp [hkind, hfreed, harena]
  · rfl

theorem stackView_adds (h : Shadow.Adds m al m') (hnone : stackView m (m.nextAlloc + 1) = none)
    (hkind : al.kind ≠ .stack) : stackView m' = stackView m := by
  funext id
  by_cases heq : id = m.nextAlloc + 1
  · rw [heq, hnone, stackView, h.allocations, if_pos rfl]
    simp [hkind]
  · rw [stackView, h.allocations, if_neg heq, stackView]

theorem stackView_poisonAll (site : String) (ids : List AllocID) :
    stackView (Memory.poisonAll site m ids) id =
      (stackView m id).map fun v => (v.1 || id ∈ ids, v.2) := by
  rw [stackView, Memory.lookup_poisonAll, stackView]
  cases m.allocations.lookup id with
  | none => rfl
  | some al =>
    by_cases hin : id ∈ ids
    · by_cases hkind : al.kind = .stack
      · by_cases hfreed : al.freed <;> simp [hin, hkind, hfreed, Allocation.poisoned]
      · by_cases hfreed : al.freed <;> simp [hin, hkind, hfreed, Allocation.poisoned]
    · simp [hin]

end View

section Permitted

variable {s s' : Shadow.Interp} {g : Gid} {trackArenas : Bool}

/-- Stack allocations are in no arena. -/
def NoArena (m : Memory) : Prop := ∀ id v, stackView m id = some v → v.2 = 0

theorem stackView_fresh (hI : Shadow.Inv s) :
    stackView s.memory (s.memory.nextAlloc + 1) = none := by
  rw [stackView, hI.fresh]
  rfl

theorem stackView_callArenaFree (hI : Shadow.Inv s) (hno : NoArena s.memory)
    (arenaVal : Option ArenaID) (site : String) :
    stackView (s.callArenaFree g arenaVal site).memory = stackView s.memory := by
  unfold Shadow.Interp.callArenaFree
  cases arenaVal with
  | none => rfl
  | some a =>
    show stackView (s.memory.freeArena a site).1 = _
    unfold Memory.freeArena
    cases har : s.memory.arenas.lookup a with
    | none => rfl
    | some ar =>
      dsimp only
      split
      · rfl
      · funext id
        have hout : ∀ v, stackView s.memory id = some v → id ∉ ar.allocations := by
          intro v hv hin
          obtain ⟨al, ar', hal, harena, -⟩ := hI.made a id ((hI.listed a ar har id).mp hin)
          obtain ⟨al', hal', -, rfl⟩ := stackView_eq_some.mp hv
          cases hal.symm.trans hal'
          exact (hI.arenas a ar har).1 (harena.symm.trans (hno id _ hv))
        rw [stackView_poisonAll]
        show (stackView s.memory id).map _ = _
        cases hv : stackView s.memory id with
        | none => rfl
        | some v => simp [hout v hv]

theorem stackView_handleArenaNew (hI : Shadow.Inv s) {arenaVal : Option ArenaID}
    {typeName site : String} {p : Option Shadow.Pointer}
    (h : s.handleArenaNew g trackArenas arenaVal typeName site = some (p, s')) :
    stackView s'.memory = stackView s.memory := by
  have hnew := stackView_fresh hI
  unfold Shadow.Interp.handleArenaNew at h
  split at h
  · split at h
    · cases h
      rfl
    · rename_i a
      split at h
      · cases h
        rfl
      · rename_i ar har
        split at h
        · cases h
          rfl
        · obtain ⟨⟨p', s₁⟩, hs, heq⟩ := Option.map_eq_some_iff.mp h
          cases heq
          rw [Shadow.Interp.handleAlloc, if_pos ⟨rfl, (hI.arenas a ar har).1⟩] at hs
          obtain ⟨⟨id, m⟩, hm, heq⟩ := Option.map_eq_some_iff.mp hs
          cases heq
          obtain ⟨al, hadds, -, ⟨hkind, -⟩, -⟩ := Memory.allocateInArena_adds har hm
          exact stackView_adds hadds hnew (hkind ▸ by decide)
  · obtain ⟨⟨p', s₁⟩, hs, heq⟩ := Option.map_eq_some_iff.mp h
    cases heq
    rw [Shadow.Interp.handleAlloc, if_neg (by decide)] at hs
    obtain ⟨⟨id, m⟩, hm, heq⟩ := Option.map_eq_some_iff.mp hs
    cases heq
    obtain ⟨al, hadds, -, ⟨hkind, -⟩, -⟩ := Memory.allocate_adds hm
    exact stackView_adds hadds hnew (hkind ▸ by decide)

/-- **The rest of the interpreter neither makes nor frees a stack
allocation.** -/
theorem stackView_permitted {op : Shadow.Interp.Op} (hI : Shadow.Inv s) (hno : NoArena s.memory)
    (hop : permitted op = true) (h : s.step trackArenas (g, op) = some s') :
    stackView s'.memory = stackView s.memory := by
  cases op with
  | newArena | trackPointer =>
    cases h
    rfl
  | arenaNew =>
    obtain ⟨⟨p, s₁⟩, hs, rfl⟩ := Option.map_eq_some_iff.mp h
    exact stackView_handleArenaNew hI hs
  | memory c =>
    obtain ⟨⟨m, err⟩, hm, rfl⟩ := Option.map_eq_some_iff.mp h
    cases c with
    | allocate =>
      obtain ⟨⟨id, m'⟩, hm', heq⟩ := Option.map_eq_some_iff.mp hm
      cases heq
      obtain ⟨al, hadds, -, ⟨hkind, -⟩, -⟩ := Memory.allocate_adds hm'
      exact stackView_adds hadds (stackView_fresh hI) (hkind ▸ bne_iff_ne.mp hop)
    | free => cases hop
    | markInitialized =>
      obtain ⟨m', hm', heq⟩ := Option.map_eq_some_iff.mp hm
      cases heq
      rcases Memory.markInitialized_cases hm' with rfl | ⟨al, bits, hal, rfl⟩
      · rfl
      · exact stackView_setAllocation hal rfl rfl rfl
    | derivePointer =>
      cases hm
      rfl
    | checkAccess =>
      obtain ⟨⟨err', m'⟩, hm', heq⟩ := Option.map_eq_some_iff.mp hm
      cases heq
      rcases Memory.checkAccess_cases hm' with rfl | ⟨al, log, hal, rfl⟩
      · rfl
      · exact stackView_setAllocation hal rfl rfl rfl
  | popFrame => cases hop
  | arenaFree arenaVal site =>
    cases h
    exact stackView_callArenaFree hI hno arenaVal site
  | deferredFree stdlib arenaVal site =>
    cases h
    unfold Shadow.Interp.executeDeferredFree Shadow.Interp.handleArenaFree
    split
    · rfl
    · split
      · exact stackView_callArenaFree hI hno arenaVal site
      · rfl

end Permitted

/-! ## §3. Frames and their allocations -/

namespace Sys

/-- Every stack allocation is in the `StackAllocs` of one frame, and is freed
when the frame is not on its stack any more. -/
structure Inv (s : Sys N V W) : Prop where
  shadow : Shadow.Inv s.shadow
  numbered : ∀ g, (s.goroutines g).Numbered
  unused : ∀ g i, (s.goroutines g).nextFrame ≤ i → s.stackAllocs g i = []
  made : ∀ g i, ∀ id ∈ s.stackAllocs g i, (stackView s.shadow.memory id).isSome
  unique : ∀ g i g' i' id, id ∈ s.stackAllocs g i → id ∈ s.stackAllocs g' i' → g' = g ∧ i' = i
  owner : ∀ id v, stackView s.shadow.memory id = some v → v.2 = 0 ∧
    ∃ g i, id ∈ s.stackAllocs g i ∧ (v.1 = false ↔ i ∈ (s.goroutines g).ids)

variable {env : N → W → W} {trackArenas : Bool} {s t : Sys N V W} {g : Gid}

theorem Inv.noArena (h : Inv s) : NoArena s.shadow.memory := fun id v hv => (h.owner id v hv).1

/-- A frame that has made something has a number. -/
theorem Inv.lt_nextFrame (h : Inv s) {i : Nat} {id : AllocID} (hid : id ∈ s.stackAllocs g i) :
    i < (s.goroutines g).nextFrame := by
  by_contra hle
  rw [h.unused g i (Nat.not_lt.mp hle)] at hid
  cases hid

/-- The memory changes, but no stack allocation. -/
theorem Inv.memory {shadow : Shadow.Interp} (h : Inv s) (hI : Shadow.Inv shadow)
    (hview : stackView shadow.memory = stackView s.shadow.memory) :
    Inv { s with shadow := shadow } :=
  ⟨hI, h.numbered, h.unused, hview ▸ h.made, h.unique, hview ▸ h.owner⟩

/-- How a call stack changes: not at all, the frame on top goes, or a new one
comes. -/
def Moves (r r' : Goroutine N V W) : Prop :=
  (r'.ids = r.ids ∨ r'.ids = r.ids.tail) ∧ r'.nextFrame = r.nextFrame ∨
    r'.ids = r.nextFrame :: r.ids ∧ r'.nextFrame = r.nextFrame + 1

/-- The frames that stay are those that are not popped. -/
theorem Moves.mem_ids {r r' : Goroutine N V W} (h : Moves r r') (hnum : r.Numbered) {i : Nat}
    (hi : i < r.nextFrame) : i ∈ r'.ids ↔ i ∈ r.ids ∧ i ∉ popped r r' := by
  unfold popped
  rcases h with ⟨hids | hids, -⟩ | ⟨hids, -⟩
  · simp [hids]
  · have hnodup := hnum.nodup
    rw [hids]
    cases hr : r.ids with
    | nil => simp
    | cons j rest =>
      rw [hr, List.nodup_cons] at hnodup
      have hout : i ∈ rest → i ≠ j := fun hin heq => hnodup.1 (heq ▸ hin)
      simp only [List.tail_cons, List.length_cons, Nat.lt_succ_self, if_true, List.head?_cons,
        Option.toList_some, List.mem_cons]
      tauto
  · have hne : i ≠ r.nextFrame := Nat.ne_of_lt hi
    simp [hids, hne]

/-- The call stack of `g` becomes that of `r`, and what the frame that is
popped has made is poisoned. -/
theorem Inv.move (h : Inv s) {r : Goroutine N V W} (hnum : r.Numbered)
    (hmoves : Moves (s.goroutines g) r) (hshadow : Shadow.Inv t.shadow)
    (hgor : t.goroutines = Function.update s.goroutines g r)
    (hallocs : t.stackAllocs = s.stackAllocs)
    (hview : ∀ id, stackView t.shadow.memory id = (stackView s.shadow.memory id).map fun v =>
      (v.1 || id ∈ (popped (s.goroutines g) r).flatMap (s.stackAllocs g), v.2)) : Inv t := by
  have hle : (s.goroutines g).nextFrame ≤ r.nextFrame := by
    rcases hmoves with ⟨-, hn⟩ | ⟨-, hn⟩ <;> omega
  refine ⟨hshadow, fun g' => ?_, fun g' i hi => ?_, fun g' i id hid => ?_, hallocs ▸ h.unique,
    fun id v hv => ?_⟩
  · rw [hgor]
    by_cases hg : g' = g
    · subst hg
      rw [Function.update_self]
      exact hnum
    · rw [Function.update_of_ne hg]
      exact h.numbered g'
  · rw [hallocs]
    rw [hgor] at hi
    by_cases hg : g' = g
    · subst hg
      rw [Function.update_self] at hi
      exact h.unused g' i (hle.trans hi)
    · rw [Function.update_of_ne hg] at hi
      exact h.unused g' i hi
  · rw [hview, Option.isSome_map]
    exact h.made g' i id (hallocs ▸ hid)
  · rw [hview, Option.map_eq_some_iff] at hv
    obtain ⟨v, hv, rfl⟩ := hv
    obtain ⟨hzero, g', i, hid, hfreed⟩ := h.owner id v hv
    refine ⟨hzero, g', i, hallocs ▸ hid, ?_⟩
    have hin : id ∈ (popped (s.goroutines g) r).flatMap (s.stackAllocs g) ↔
        g' = g ∧ i ∈ popped (s.goroutines g) r := by
      rw [List.mem_flatMap]
      constructor
      · rintro ⟨i', hi', hid'⟩
        obtain ⟨rfl, rfl⟩ := h.unique _ _ _ _ id hid' hid
        exact ⟨rfl, hi'⟩
      · rintro ⟨rfl, hi⟩
        exact ⟨i, hi, hid⟩
    rw [hgor]
    by_cases hg : g' = g
    · subst hg
      rw [Function.update_self, hmoves.mem_ids (h.numbered g') (h.lt_nextFrame hid), ← hfreed]
      simp [hin]
    · rw [Function.update_of_ne hg, ← hfreed]
      simp [hin, hg]

/-- `ssa.Alloc` on the stack. -/
theorem Inv.addStackAlloc (h : Inv s) {i : Nat} {al : Allocation} {m : Memory}
    (hi : i ∈ (s.goroutines g).ids) (hadds : Shadow.Adds s.shadow.memory al m)
    (hal : al.kind = .stack ∧ al.arena = 0 ∧ al.freed = false)
    (harenas : m.arenas = s.shadow.memory.arenas) :
    Inv ({ s with shadow := { s.shadow with memory := m } }.addStackAlloc g i
      (s.shadow.memory.nextAlloc + 1)) := by
  have hfresh := stackView_fresh h.shadow
  have hnew (g' : Gid) (i' : Nat) : s.shadow.memory.nextAlloc + 1 ∉ s.stackAllocs g' i' := fun hin =>
    nomatch hfresh ▸ h.made g' i' _ hin
  have hview (id : AllocID) : stackView m id = if id = s.shadow.memory.nextAlloc + 1
      then some (false, 0) else stackView s.shadow.memory id := by
    rw [stackView, hadds.allocations]
    split
    · simp [hal]
    · rfl
  have hmem (g' : Gid) (i' : Nat) (id : AllocID) :
      id ∈ (Sys.addStackAlloc { s with shadow := { s.shadow with memory := m } } g i
        (s.shadow.memory.nextAlloc + 1)).stackAllocs g' i' ↔
      id ∈ s.stackAllocs g' i' ∨ g' = g ∧ i' = i ∧ id = s.shadow.memory.nextAlloc + 1 := by
    unfold Sys.addStackAlloc
    dsimp only
    split
    · rename_i heq
      simp [heq]
    · rename_i hne
      simp only [← and_assoc, hne, false_and, or_false]
  refine ⟨h.shadow.step ⟨.adds al hadds, .same rfl hadds.nextArena harenas⟩, h.numbered,
    fun g' i' hi' => ?_, fun g' i' id hid => ?_, fun g₁ i₁ g₂ i₂ id h₁ h₂ => ?_, fun id v hv => ?_⟩
  · have hne : ¬(g' = g ∧ i' = i) := by
      rintro ⟨rfl, rfl⟩
      exact Nat.not_lt.mpr hi' ((h.numbered g').lt i' hi)
    exact (if_neg hne).trans (h.unused g' i' hi')
  · show (stackView m id).isSome
    rw [hview]
    split
    · rfl
    · rename_i hne
      exact h.made g' i' id (((hmem g' i' id).mp hid).resolve_right fun h => hne h.2.2)
  · rw [hmem] at h₁ h₂
    rcases h₁ with h₁ | ⟨rfl, rfl, rfl⟩
    · rcases h₂ with h₂ | ⟨-, -, rfl⟩
      · exact h.unique g₁ i₁ g₂ i₂ id h₁ h₂
      · exact absurd h₁ (hnew g₁ i₁)
    · rcases h₂ with h₂ | ⟨rfl, rfl, -⟩
      · exact absurd h₂ (hnew g₂ i₂)
      · exact ⟨rfl, rfl⟩
  · have hv : stackView m id = some v := hv
    rw [hview] at hv
    split at hv
    · rename_i heq
      cases hv
      exact ⟨rfl, g, i, (hmem g i id).mpr (.inr ⟨rfl, rfl, heq⟩), iff_of_true rfl hi⟩
    · obtain ⟨hzero, g', i', hid, hfreed⟩ := h.owner id v hv
      exact ⟨hzero, g', i', (hmem g' i' id).mpr (.inl hid), hfreed⟩

theorem inv_init (world : W) (opts : Options) : Inv (init world opts : Sys N V W) where
  shadow := .init opts
  numbered _ := ⟨List.nodup_nil, nofun⟩
  unused _ _ _ := rfl
  made _ _ _ hid := nomatch hid
  unique _ _ _ _ _ hid := nomatch hid
  owner id v hv := by
    obtain ⟨al, hal, -⟩ := stackView_eq_some.mp hv
    cases (AList.lookup_empty id).symm.trans hal

theorem Inv.step {a : Act N V} (h : Inv s) (hst : Step env trackArenas s a t) : Inv t := by
  unfold Step Sys.step at hst
  split at hst
  · rename_i g b x
    simp only [Option.ite_none_right_eq_some, Option.some.injEq] at hst
    obtain ⟨hnew, rfl⟩ := hst
    have hnone : (s.goroutines g).ids = [] :=
      List.eq_nil_iff_forall_not_mem.mpr fun i hi =>
        Nat.not_lt_zero i (hnew ▸ (h.numbered g).lt i hi)
    refine h.move (Goroutine.numbered_init s.world b x) (.inr ⟨?_, ?_⟩) h.shadow rfl rfl fun id => ?_
    · rw [hnone, hnew]
      rfl
    · rw [hnew]
      rfl
    · simp [popped, hnone]
  · rename_i g a site
    split at hst
    · cases hst
    · rename_i r hr
      cases hst
      have hnum : ({ s.goroutines g with world := s.world } : Goroutine N V W).Numbered :=
        ⟨(h.numbered g).nodup, (h.numbered g).lt⟩
      have hmoves := Goroutine.step_ids hr
      exact h.move (hnum.step hr) hmoves
        (h.shadow.step ((Shadow.Touch.poisonAll ..).effect rfl)) rfl rfl
        fun id => stackView_poisonAll ..
  · rename_i g heap size typeName site
    split at hst
    · cases hst
    · rename_i f rest hstack
      split at hst
      · split at hst
        · cases hst
        · rename_i id m hm
          cases hst
          obtain ⟨al, hadds, rfl, ⟨hkind, hrest⟩, harenas⟩ := Memory.allocate_adds hm
          have hI : Shadow.Inv { s.shadow with memory := m } :=
            h.shadow.step ⟨.adds al hadds, .same rfl hadds.nextArena harenas⟩
          cases heap with
          | true =>
            have hheap : al.kind ≠ .stack := hkind ▸ by decide
            exact h.memory hI (stackView_adds hadds (stackView_fresh h.shadow) hheap)
          | false => exact h.addStackAlloc (by simp [Goroutine.ids, hstack]) hadds ⟨hkind, hrest⟩ harenas
      · cases hst
  · rename_i g op
    simp only [Option.ite_none_right_eq_some, Option.map_eq_some_iff] at hst
    obtain ⟨hop, shadow, hs, rfl⟩ := hst
    exact h.memory (h.shadow.step (Shadow.Interp.step_effect h.shadow.zero hs))
      (stackView_permitted h.shadow h.noArena hop hs)

/-- **Stack allocations die exactly with their frame**: in every state of
every run those that are not freed are those made by the frames on the
stacks; and a step on a call stack, which may pop a frame, leaves every other
allocation as it is. -/
theorem stack_allocs_die_with_frame {world : W} {opts : Options} {acts : List (Act N V)}
    (hrun : Transition.Run (Step env trackArenas) (init world opts) acts s) :
    (∀ id, (∃ al, s.shadow.memory.allocations.lookup id = some al ∧ al.kind = .stack ∧
      al.freed = false) ↔ s.OnStack id) ∧
    ∀ g a site t, Step env trackArenas s (.step g a site) t → ∀ id al,
      s.shadow.memory.allocations.lookup id = some al → al.kind ≠ .stack →
      t.shadow.memory.allocations.lookup id = some al := by
  have hI : Inv s := hrun.invariant (fun _ _ _ hst h => h.step hst) (inv_init world opts)
  refine ⟨fun id => ⟨?_, ?_⟩, fun g a site t hst id al hal hkind => ?_⟩
  · rintro ⟨al, hal, hkind, hfreed⟩
    obtain ⟨-, g, i, hid, hlive⟩ := hI.owner id _ (stackView_eq_some.mpr ⟨al, hal, hkind, rfl⟩)
    exact ⟨g, i, hlive.mp hfreed, hid⟩
  · rintro ⟨g, i, hi, hid⟩
    obtain ⟨v, hv⟩ := Option.isSome_iff_exists.mp (hI.made g i id hid)
    obtain ⟨-, g', i', hid', hlive⟩ := hI.owner id v hv
    obtain ⟨rfl, rfl⟩ := hI.unique g i g' i' id hid hid'
    obtain ⟨al, hal, hkind, rfl⟩ := stackView_eq_some.mp hv
    exact ⟨al, hal, hkind, hlive.mpr hi⟩
  · simp only [Step, Sys.step] at hst
    split at hst
    · cases hst
    · cases hst
      rw [Memory.lookup_poisonAll, hal, Option.map_some, if_neg]
      -- what is poisoned is a stack allocation
      intro hin
      obtain ⟨i, -, hid⟩ := List.mem_flatMap.mp hin
      obtain ⟨v, hv⟩ := Option.isSome_iff_exists.mp (hI.made g i id hid)
      obtain ⟨al', hal', hstack, -⟩ := stackView_eq_some.mp hv
      cases hal.symm.trans hal'
      exact hkind hstack

/-- Where a list of steps leads, with intercepted calls that do nothing: for
examples. -/
def reached (acts : List (Act Unit Nat)) : Sys Unit Nat Unit :=
  (Transition.exec (step (fun _ w => w) true) (init () {}) acts).getD (init () {})

/-- A function with one local variable has been called, and has returned. -/
theorem stack_allocs_die_with_frame_call :
    let s := reached [.start 1 false none, .step 1 (.call false) "", .alloc 1 false 8 "int" "f"]
    let t := reached [.start 1 false none, .step 1 (.call false) "", .alloc 1 false 8 "int" "f",
      .step 1 .leave "f", .step 1 .next "f"]
    ((∃ al, s.shadow.memory.allocations.lookup 1 = some al ∧ al.kind = .stack ∧
      al.freed = false) ↔ s.OnStack 1) ∧
    ((∃ al, t.shadow.memory.allocations.lookup 1 = some al ∧ al.kind = .stack ∧
      al.freed = false) ↔ t.OnStack 1) ∧
    (s.goroutines 1).ids = [1, 0] ∧ (t.goroutines 1).ids = [0] ∧ s.stackAllocs 1 1 = [1] := by
  refine ⟨(stack_allocs_die_with_frame (Transition.run_of_exec (Transition.exec_getD ?_))).1 1,
    (stack_allocs_die_with_frame (Transition.run_of_exec (Transition.exec_getD ?_))).1 1,
    rfl, rfl, rfl⟩ <;> rfl

end Sys

end Giri.StackAllocs
