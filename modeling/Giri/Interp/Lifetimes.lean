/-
Giri.Interp.Lifetimes — how many goroutines there are, what the limit on
their number counts (`spawnGoroutine`, `startGoroutine`), and what the
counter of an errgroup counts (`handleErrgroupCall`, `hostMain`).

`interp.goroutines` keeps a goroutine that has finished until the call of a
session returns, so the limit is on the goroutines ever started. `Go` raises
the counter of its group BEFORE the start that the limit may refuse, and an
aborted goroutine runs no `onExit`: each leaves the counter too high for
good. `startGoroutine` takes an ID before it looks at the limit, so the IDs
without a goroutine are those of refused starts.
-/
import Mathlib.Data.Set.Card
import Giri.Interp.SyncFrame

namespace Giri.Interp

open Function (update_self update_of_ne)

variable {V T : Type}

/-- A goroutine stays one, of the same group, and stays aborted. -/
structure Goroutine.Ages (r r' : Goroutine V T) : Prop where
  spawned : r'.spawned = r.spawned
  group : r'.group = r.group
  aborted : r.aborted = true → r'.aborted = true

namespace Interpreter

/-! ## §1. Starts and exits -/

/-- The goroutines that have been started and have not finished. -/
def alive (s : Interpreter V T) : Set Gid :=
  {g | (s.goroutines g).spawned = true ∧ (s.goroutines g).exited = false}

/-- Those of them that are members of a group with the counter `k`. -/
def aliveUnder (s : Interpreter V T) (k : SyncKey) : Set Gid :=
  {g | g ∈ s.alive ∧ ∃ p, (s.goroutines g).group = some p ∧ p.key = k}

/-- No start has been refused, and no member of a group aborted. -/
structure Undisturbed (s : Interpreter V T) : Prop where
  started : s.nextGID ≤ s.numGoroutines
  unaborted : ∀ g, (s.goroutines g).spawned = true → (s.goroutines g).group ≠ none →
    (s.goroutines g).aborted = false

/-- What a goroutine of the group counts for under `k`. -/
def share (group : Option Prim) (k : SyncKey) : Int :=
  if ∃ p, group = some p ∧ p.key = k then 1 else 0

/-- How a part changes which goroutines there are, and what the errgroups
count. -/
inductive LifeMove (s t : Interpreter V T) : Prop where
  | keep (hages : ∀ g, (s.goroutines g).Ages (t.goroutines g))
      (hexit : ∀ g, (t.goroutines g).exited = (s.goroutines g).exited)
      (hnum : t.numGoroutines = s.numGoroutines) (hid : s.nextGID ≤ t.nextGID)
      (hctr : ∀ k, k.group = true → (t.mutexes k).wgCounter = (s.mutexes k).wgCounter) :
      LifeMove s t
  | refuse (hgor : t.goroutines = s.goroutines) (hnum : t.numGoroutines = s.numGoroutines)
      (hid : t.nextGID = s.nextGID + 1) : LifeMove s t
  | start (group : Option Prim) (hchild : s.nextGID + 1 ∈ t.alive)
      (hgroup : (t.goroutines (s.nextGID + 1)).group = group)
      (hages : ∀ g, g ≠ s.nextGID + 1 → (s.goroutines g).Ages (t.goroutines g))
      (hexit : ∀ g, g ≠ s.nextGID + 1 → (t.goroutines g).exited = (s.goroutines g).exited)
      (hnum : t.numGoroutines = s.numGoroutines + 1) (hid : t.nextGID = s.nextGID + 1)
      (hctr : ∀ k, k.group = true →
        (t.mutexes k).wgCounter = (s.mutexes k).wgCounter + share group k) : LifeMove s t
  | exit (g : Gid) (hg : g ∈ s.alive) (hages : ∀ q, (s.goroutines q).Ages (t.goroutines q))
      (hself : (t.goroutines g).exited = true)
      (hexit : ∀ q, q ≠ g → (t.goroutines q).exited = (s.goroutines q).exited)
      (hnum : t.numGoroutines = s.numGoroutines) (hid : t.nextGID = s.nextGID)
      (hctr : (s.goroutines g).group ≠ none ∧ (s.goroutines g).aborted = true ∨
        ∀ k, k.group = true →
          (t.mutexes k).wgCounter = (s.mutexes k).wgCounter - share (s.goroutines g).group k) :
      LifeMove s t

section Moves

variable {cfg : Config V T} {s t u : Interpreter V T} {g : Gid} {o : Option Prim} {p : Prim}

/-- Rewriting a record in a way that keeps what counts. -/
theorem ages_modify {f : Goroutine V T → Goroutine V T} (hf : ∀ r, Goroutine.Ages r (f r))
    (hs : ∀ q, (s.goroutines q).Ages (t.goroutines q)) (q : Gid) :
    (s.goroutines q).Ages ((t.modify g f).goroutines q) := by
  rw [modify_goroutines]
  by_cases hq : q = g
  · subst hq
    rw [update_self]
    exact ⟨(hf _).spawned.trans (hs q).spawned, (hf _).group.trans (hs q).group,
      fun h => (hf _).aborted ((hs q).aborted h)⟩
  · rw [update_of_ne hq]
    exact hs q

/-- A state is stored that has the counter of the one before it. -/
theorem wgCounter_of_update {ms : MutexState} {k' : SyncKey}
    (ht : t.mutexes = Function.update s.mutexes k' ms)
    (hms : ms.wgCounter = (s.mutexes k').wgCounter) (k : SyncKey) :
    (t.mutexes k).wgCounter = (s.mutexes k).wgCounter := by
  rw [ht]
  by_cases hk : k = k'
  · rw [hk, update_self, hms]
  · rw [update_of_ne hk]

theorem addCounter_share (p : Prim) (delta : Int) (k : SyncKey) :
    ((s.addCounter p delta).mutexes k).wgCounter =
      (s.mutexes k).wgCounter + delta * share (some p) k := by
  show (Function.update s.mutexes p.key _ k).wgCounter = _
  by_cases hk : k = p.key
  · simp [hk, share]
  · simp [update_of_ne hk, share, Ne.symm hk]

/-- The child is alive, in the group given; the others are as before. -/
theorem lifeMove_fork (group : Option Prim) (site : String) (hgor : u.goroutines = s.goroutines)
    (hnum : u.numGoroutines = s.numGoroutines) (hid : u.nextGID = s.nextGID)
    (hctr : ∀ k, k.group = true →
      (u.mutexes k).wgCounter = (s.mutexes k).wgCounter + share group k) :
    LifeMove s ({ u with nextGID := u.nextGID + 1 }.fork g (u.nextGID + 1) group site) := by
  obtain ⟨hgroup, -, hspawned, hexited⟩ := fork_child u g group site
  have hother : ∀ q, q ≠ u.nextGID + 1 → _ := fun q hq => fork_other u g group site hq
  rw [hid] at hgroup hspawned hexited hother ⊢
  refine .start group ⟨hspawned, hexited⟩ hgroup (fun q hq => ?_) (fun q hq => ?_)
    (congrArg (· + 1) hnum) rfl hctr
  · obtain ⟨hgr, -, -, hsp, hab⟩ := hother q hq
    rw [← hgor]
    exact ⟨hsp, hgr, hab.trans⟩
  · rw [← hgor]
    exact (hother q hq).2.2.1

theorem Micro.lifeMove (h : Micro cfg s o t) : LifeMove s t := by
  have hrefl (q : Gid) : (s.goroutines q).Ages (s.goroutines q) := ⟨rfl, rfl, id⟩
  have hclock {u : Interpreter V T} {g : Gid} {c : Clock} :
      (∀ q, (s.goroutines q).Ages (u.goroutines q)) →
      ∀ q, (s.goroutines q).Ages ((u.setClock g c).goroutines q) :=
    ages_modify fun _ => ⟨rfl, rfl, id⟩
  have hwait {g : Gid} {w : Option (Wait V T)} :
      ∀ q, (s.goroutines q).Ages ((s.setWait g w).goroutines q) :=
    ages_modify (fun _ => ⟨rfl, rfl, id⟩) hrefl
  have hgone (g : Gid) : ∀ q, (s.goroutines q).Ages
      ((s.modify g fun r => { r with exited := true }).goroutines q) :=
    ages_modify (fun _ => ⟨rfl, rfl, id⟩) hrefl
  have hself (g : Gid) :
      ((s.modify g fun r => { r with exited := true }).goroutines g).exited = true := by simp
  have hexit (g : Gid) : ∀ q, q ≠ g →
      ((s.modify g fun r => { r with exited := true }).goroutines q).exited =
        (s.goroutines q).exited := fun q hq => by rw [modify_goroutines, update_of_ne hq]
  cases h with
  | quiet h =>
    exact .keep (fun g => ⟨h.spawned g, h.group g, h.aborted g⟩) h.exited h.numGoroutines h.nextGID
      fun _ _ => by rw [h.mutexes]
  | access | makeChan | notify | recvRefill =>
    exact .keep hrefl (fun _ => rfl) rfl (le_refl _) fun _ _ => rfl
  | fork site => exact lifeMove_fork none site rfl rfl rfl fun k _ => by simp [share]
  | @memberFork g p site =>
    exact lifeMove_fork (u := s.addCounter p 1) (some p) site rfl rfl rfl fun k _ => by
      rw [addCounter_share, Int.one_mul]
  | refuse => exact .refuse rfl rfl rfl
  | @exit g h hx hgr =>
    refine .exit g ⟨h.1, hx⟩ (hgone g) (hself g) (hexit g) rfl rfl ?_
    by_cases hnone : (s.goroutines g).group = none
    · exact .inr fun k _ => by simp [share, hnone]
    · exact .inl ⟨hnone, hgr.resolve_left hnone⟩
  | @memberExit g p h hx hp =>
    refine .exit g ⟨h.1, hx⟩ (hclock (hgone g)) ((setClock_exited ..).trans (hself g))
      (fun q hq => (setClock_exited ..).trans (hexit g q hq)) rfl rfl (.inr fun k _ => ?_)
    rw [addCounter_share, hp]
    have hjoin : (((s.modify g fun r => { r with exited := true }).joinRelease g p).mutexes
        k).wgCounter = (s.mutexes k).wgCounter := by
      refine wgCounter_of_update rfl ?_ k
      rfl
    rw [hjoin, Int.neg_one_mul, Int.sub_eq_add_neg]
  | park | parkSelect | unpark | abandonOffer | withdraw =>
    exact .keep hwait (fun _ => setWait_exited ..) rfl (le_refl _) fun _ _ => rfl
  | parkOffer =>
    exact .keep (hclock hwait) (fun _ => (setClock_exited ..).trans (setWait_exited ..)) rfl
      (le_refl _) fun _ _ => rfl
  | wakeUp =>
    exact .keep (hclock (hclock hwait))
      (fun _ => (setClock_exited ..).trans ((setClock_exited ..).trans (setWait_exited ..))) rfl
      (le_refl _) fun _ _ => rfl
  | offer | recvClosed | close =>
    exact .keep (hclock hrefl) (fun _ => setClock_exited ..) rfl (le_refl _) fun _ _ => rfl
  | claimSend | claimRecv | bufferedSend | recvBuffered | condWait | groupWait =>
    exact .keep (hclock (hclock hrefl)) (fun _ => (setClock_exited ..).trans (setClock_exited ..))
      rfl (le_refl _) fun _ _ => rfl
  | lock | rLock =>
    refine .keep (hclock (hclock hrefl)) (fun _ => (setClock_exited ..).trans (setClock_exited ..))
      rfl (le_refl _) fun k _ => wgCounter_of_update rfl ?_ k
    rfl
  | unlock | rUnlock | signal | done =>
    refine .keep (hclock hrefl) (fun _ => setClock_exited ..) rfl (le_refl _)
      fun k _ => wgCounter_of_update rfl ?_ k
    rfl
  | addCounter p delta hp =>
    refine .keep hrefl (fun _ => rfl) rfl (le_refl _) fun k hk => ?_
    have hne : p.key ≠ k := by rintro rfl; simp [Prim.key, hp] at hk
    rw [addCounter_share]
    simp [share, hne]

/-! ## §2. What is counted -/

/-- An undisturbed run was undisturbed before. -/
theorem LifeMove.undisturbed (h : LifeMove s t) (hB : Base s) (ht : t.Undisturbed) :
    s.Undisturbed := by
  have hmember {g : Gid} (hages : (s.goroutines g).Ages (t.goroutines g))
      (hg : (s.goroutines g).spawned = true) (hgr : (s.goroutines g).group ≠ none) :
      (s.goroutines g).aborted = false := by
    have hab := ht.unaborted g (hages.spawned.trans hg) (hages.group ▸ hgr)
    by_contra hs
    cases hab.symm.trans (hages.aborted (by simpa using hs))
  have hids := ht.started
  cases h with
  | keep hages _ hnum hid =>
    exact ⟨by rw [hnum] at hids; exact hid.trans hids, fun g => hmember (hages g)⟩
  | refuse hgor hnum hid =>
    rw [hnum, hid] at hids
    exact ⟨(Int.le_add_one (le_refl _)).trans hids, fun g => hmember (hgor ▸ ⟨rfl, rfl, id⟩)⟩
  | start group hchild hgroup hages hexit hnum hid =>
    refine ⟨?_, fun g hg => hmember (hages g ?_) hg⟩
    · rw [hnum, hid, Nat.cast_add, Nat.cast_one] at hids
      exact Int.add_le_add_iff_right 1 |>.mp hids
    · exact Int.ne_of_lt (Int.lt_add_one_of_le (hB.le_nextGID hg))
  | exit g hg hages hself hexit hnum hid =>
    exact ⟨by rw [hnum, hid] at hids; exact hids, fun g => hmember (hages g)⟩

/-- The size of the table, and the counters. -/
structure Census (s : Interpreter V T) : Prop where
  created : {g | (s.goroutines g).spawned = true}.encard = s.numGoroutines
  ids : (s.numGoroutines : Int) ≤ s.nextGID
  members : s.Undisturbed → ∀ k, k.group = true →
    ∃ n : Nat, (s.mutexes k).wgCounter = n ∧ (s.aliveUnder k).encard = n

theorem Census.created_move (hI : Census s) (hB : Base s) (h : LifeMove s t) :
    {g | (t.goroutines g).spawned = true}.encard = t.numGoroutines := by
  have hsame (hages : ∀ g, (s.goroutines g).Ages (t.goroutines g))
      (hnum : t.numGoroutines = s.numGoroutines) :
      {g | (t.goroutines g).spawned = true}.encard = t.numGoroutines := by
    simp only [(hages _).spawned, hnum, hI.created]
  cases h with
  | keep hages _ hnum => exact hsame hages hnum
  | refuse hgor hnum => exact hsame (fun g => hgor ▸ ⟨rfl, rfl, id⟩) hnum
  | exit _ _ hages _ _ hnum => exact hsame hages hnum
  | start group hchild hgroup hages hexit hnum =>
    have hnew : s.nextGID + 1 ∉ {g | (s.goroutines g).spawned = true} := by
      simp [(hB.unborn _ (Int.lt_succ _)).1]
    have hset : {g | (t.goroutines g).spawned = true} =
        insert (s.nextGID + 1) {g | (s.goroutines g).spawned = true} := by
      ext g
      by_cases hg : g = s.nextGID + 1
      · simp [hg, hchild.1]
      · simp [hg, (hages g hg).spawned]
    rw [hset, Set.encard_insert_of_notMem hnew, hI.created, hnum, Nat.cast_add, Nat.cast_one]

theorem Census.ids_move (hI : Census s) (h : LifeMove s t) :
    (t.numGoroutines : Int) ≤ t.nextGID := by
  have hids := hI.ids
  cases h with
  | keep _ _ hnum hid => rw [hnum]; exact hids.trans hid
  | refuse _ hnum hid => rw [hnum, hid]; exact hids.trans (Int.le_add_one (le_refl _))
  | start _ _ _ _ _ hnum hid =>
    rw [hnum, hid, Nat.cast_add, Nat.cast_one]
    exact Int.add_le_add_right hids 1
  | exit _ _ _ _ _ hnum hid => rw [hnum, hid]; exact hids

theorem mem_aliveUnder_congr {k : SyncKey} (hages : (s.goroutines g).Ages (t.goroutines g))
    (hexit : (t.goroutines g).exited = (s.goroutines g).exited) :
    g ∈ t.aliveUnder k ↔ g ∈ s.aliveUnder k := by
  simp only [aliveUnder, alive, Set.mem_ofPred_eq, hages.spawned, hages.group, hexit]

theorem Census.members_move (hI : Census s) (hB : Base s) (h : LifeMove s t)
    (ht : t.Undisturbed) (k : SyncKey) (hk : k.group = true) :
    ∃ n : Nat, (t.mutexes k).wgCounter = n ∧ (t.aliveUnder k).encard = n := by
  have hs := h.undisturbed hB ht
  obtain ⟨n, hcount, hcard⟩ := hI.members hs k hk
  cases h with
  | keep hages hexit _ _ hctr =>
    refine ⟨n, (hctr k hk).trans hcount, ?_⟩
    rw [← hcard]
    exact congrArg _ (Set.ext fun g => mem_aliveUnder_congr (hages g) (hexit g))
  | refuse _ hnum hid =>
    -- the ID that was taken in vain is missed
    have hids := ht.started
    rw [hnum, hid] at hids
    exact absurd (hids.trans hI.ids) (Int.not_le.mpr (Int.lt_succ _))
  | start group hchild hgroup hages hexit _ _ hctr =>
    have hctr := hctr k hk
    rw [hcount] at hctr
    have hnew : s.nextGID + 1 ∉ s.aliveUnder k := fun h =>
      nomatch h.1.1.symm.trans (hB.unborn _ (Int.lt_succ _)).1
    by_cases hin : ∃ p, group = some p ∧ p.key = k
    · have hset : t.aliveUnder k = insert (s.nextGID + 1) (s.aliveUnder k) := by
        ext g
        by_cases hg : g = s.nextGID + 1
        · simpa [hg, aliveUnder, hchild, hgroup] using hin
        · rw [mem_aliveUnder_congr (hages g hg) (hexit g hg), Set.mem_insert_iff, or_iff_right hg]
      refine ⟨n + 1, by rw [hctr, share, if_pos hin, Nat.cast_add, Nat.cast_one], ?_⟩
      rw [hset, Set.encard_insert_of_notMem hnew, hcard, Nat.cast_add, Nat.cast_one]
    · refine ⟨n, by rw [hctr, share, if_neg hin, Int.add_zero], ?_⟩
      rw [← hcard]
      refine congrArg _ (Set.ext fun g => ?_)
      by_cases hg : g = s.nextGID + 1
      · subst hg
        exact iff_of_false (fun h => hin (hgroup ▸ h.2)) hnew
      · exact mem_aliveUnder_congr (hages g hg) (hexit g hg)
  | exit g hg hages hself hexit _ _ hctr =>
    have hctr := (hctr.resolve_left fun h => nomatch (hs.unaborted g hg.1 h.1).symm.trans h.2) k hk
    rw [hcount] at hctr
    have hset : t.aliveUnder k = s.aliveUnder k \ {g} := by
      ext q
      by_cases hq : q = g
      · subst hq
        exact iff_of_false (fun h => nomatch h.1.2.symm.trans hself) fun h => h.2 rfl
      · rw [mem_aliveUnder_congr (hages q) (hexit q hq), Set.mem_sdiff_singleton, and_iff_left hq]
    by_cases hin : ∃ p, (s.goroutines g).group = some p ∧ p.key = k
    · have hmem : g ∈ s.aliveUnder k := ⟨hg, hin⟩
      have hcard' : (s.aliveUnder k \ {g}).encard + 1 = n :=
        (Set.encard_sdiff_singleton_add_one hmem).trans hcard
      cases n with
      | zero => simp at hcard'
      | succ n =>
        refine ⟨n, by rw [hctr, share, if_pos hin, Nat.cast_add, Nat.cast_one, Int.add_sub_cancel], ?_⟩
        rw [hset]
        rw [Nat.cast_add, Nat.cast_one] at hcard'
        exact WithTop.add_right_cancel ENat.one_ne_top hcard'
    · refine ⟨n, by rw [hctr, share, if_neg hin, Int.sub_zero], ?_⟩
      rw [hset, Set.sdiff_singleton_eq_self fun h => hin h.2, hcard]

theorem Census.micro (hI : Census s) (hB : Base s) (h : Micro cfg s o t) : Census t :=
  ⟨hI.created_move hB h.lifeMove, hI.ids_move h.lifeMove, hI.members_move hB h.lifeMove⟩

theorem census_init (cfg : Config V T) : Census (init cfg) where
  created := by
    have hset : {g | ((init cfg).goroutines g).spawned = true} = {1} := by
      ext g
      simp [init]
    rw [hset, Set.encard_singleton]
    rfl
  ids := le_refl _
  members _ k _ := by
    refine ⟨0, rfl, ?_⟩
    rw [Nat.cast_zero, Set.encard_eq_zero]
    exact Set.eq_empty_iff_forall_notMem.mpr fun g h => by obtain ⟨_, q, hq, -⟩ := h; cases hq

theorem Reachable.census (h : Reachable cfg s) : Census s :=
  (h.invariant (census_init cfg) fun _ _ _ hB hm hI => hI.micro hB hm).2

/-! ## §3. The limit and the groups -/

/-- **The goroutine limit counts live goroutines**, a start being refused
exactly when as many are alive as the limit allows, unless the limit lies
between those that are alive and those that were ever started. -/
theorem limit_counts_alive (hs : Reachable cfg s) (hm : 0 < cfg.maxGoroutines)
    {a : Action V T} (ha : a.spawns = true) (hst : Step cfg s a t) :
    ((t.goroutines (s.nextGID + 1)).spawned = false ↔
      (cfg.maxGoroutines : ENat) ≤ s.alive.encard) ↔
    ¬ (s.alive.encard < cfg.maxGoroutines ∧
      (cfg.maxGoroutines : ENat) ≤ {g | (s.goroutines g).spawned = true}.encard) := by
  have hsub : s.alive.encard ≤ {g | (s.goroutines g).spawned = true}.encard :=
    Set.encard_le_encard fun _ hg => hg.1
  have hnew := (hs.base.unborn _ (Int.lt_succ s.nextGID)).1
  have hstart (u : Interpreter V T) (g : Gid) (group : Option Prim) (site : String)
      (hgor : u.goroutines = s.goroutines) (hnum : u.numGoroutines = s.numGoroutines)
      (hid : u.nextGID = s.nextGID) :
      ((u.startGoroutine cfg g group site).goroutines (s.nextGID + 1)).spawned = false ↔
        cfg.maxGoroutines ≤ s.numGoroutines := by
    unfold startGoroutine
    simp only [hm, hnum, decide_true, Bool.true_and, decide_eq_true_eq, ge_iff_le]
    split
    · rename_i hle
      rw [(same_recordViolation _ g _).spawned, hgor]
      exact iff_of_true hnew hle
    · rename_i hlt
      have hchild := (fork_child u g group site).2.2.1
      rw [hid] at hchild ⊢
      exact iff_of_false (fun h => nomatch h.symm.trans hchild) hlt
  have hrefused : (t.goroutines (s.nextGID + 1)).spawned = false ↔
      (cfg.maxGoroutines : ENat) ≤ {g | (s.goroutines g).spawned = true}.encard := by
    rw [hs.census.created, Nat.cast_le]
    cases stepped hst with
    | start op =>
      cases op with
      | go site => exact hstart s _ none site rfl rfl rfl
      | errgroupGo addr site => exact hstart (s.addCounter _ 1) _ _ site rfl rfl rfl
      | _ => cases ha
    | _ => cases ha
  rw [hrefused]
  constructor
  · rintro hiff ⟨hlt, hle⟩
    exact absurd (hiff.mp hle) (not_le.mpr hlt)
  · intro hnot
    exact ⟨fun hle => not_lt.mp fun hlt => hnot ⟨hlt, hle⟩, fun hle => hle.trans hsub⟩

/-- The configuration with a limit. -/
def limited (m : Nat) : Config Nat Unit := { natConfig false with maxGoroutines := m }

theorem limit_counts_alive_one :
    ((reached (limited 1) [.start 1 (.go "")]).goroutines 2).spawned = false ↔
      ((limited 1).maxGoroutines : ENat) ≤ (init (limited 1)).alive.encard := by
  have hpos : 0 < (limited 1).maxGoroutines := by decide
  refine (limit_counts_alive ⟨[], .nil⟩ hpos (a := .start 1 (.go "")) rfl rfl).mpr ?_
  -- nothing has finished
  have halive : (init (limited 1)).alive = {g | ((init (limited 1)).goroutines g).spawned = true} :=
    Set.ext fun g => and_iff_left rfl
  rw [halive]
  exact fun h => absurd h.2 (not_le.mpr h.1)

/-- The first goroutine has started a second one, which has finished: a
third one is refused by a limit of two. -/
theorem limit_counts_finished :
    let s := reached (limited 2) [.start 1 (.go ""), .start 2 .exit]
    let t := reached (limited 2) [.start 1 (.go ""), .start 2 .exit, .start 1 (.go "")]
    Reachable (limited 2) s ∧ Step (limited 2) s (.start 1 (.go "")) t ∧ s.alive = {1} ∧
      s.nextGID = 2 ∧ (t.goroutines 3).spawned = false := by
  refine ⟨reachable_reached rfl, rfl, Set.ext fun g => ?_, rfl, rfl⟩
  by_cases h₁ : g = 1
  · subst h₁
    exact iff_of_true ⟨rfl, rfl⟩ rfl
  refine iff_of_false (fun h => ?_) h₁
  by_cases h₂ : g = 2
  · subst h₂
    exact nomatch h.2
  · have hexit := modify_field Goroutine.spawned (reached (limited 2) [.start 1 (.go "")]) 2 g
      (f := fun r => { r with exited := true }) fun _ => rfl
    have hinit := (fork_other (init (limited 2)) 1 none "" h₂).2.2.2.1
    exact h₁ (beq_iff_eq.mp ((hexit.trans hinit).symm.trans h.1))

/-- **An errgroup counts its members that have not exited**, as long as no
start has been refused and no member aborted, if no other group is in its
allocation; and its `Wait` returns exactly when all of them have exited. -/
theorem errgroup_counts_members (hs : Reachable cfg s) (hun : s.Undisturbed)
    (hp : p.kind = .errgroup)
    (halone : ∀ g q, (s.goroutines g).group = some q → q.key = p.key → q = p) :
    (∃ n : Nat, (s.mutexes p.key).wgCounter = n ∧
      {g | g ∈ s.alive ∧ (s.goroutines g).group = some p}.encard = n) ∧
    (s.ready (.group p) = true ↔ ∀ g, (s.goroutines g).spawned = true →
      (s.goroutines g).group = some p → (s.goroutines g).exited = true) := by
  have hset : s.aliveUnder p.key = {g | g ∈ s.alive ∧ (s.goroutines g).group = some p} := by
    ext g
    refine and_congr_right fun _ => ⟨?_, fun h => ⟨p, h, rfl⟩⟩
    rintro ⟨q, hq, hkey⟩
    rwa [halone g q hq hkey] at hq
  obtain ⟨n, hcount, hcard⟩ := hs.census.members hun p.key (by simp [Prim.key, hp])
  rw [hset] at hcard
  refine ⟨⟨n, hcount, hcard⟩, ?_⟩
  have hzero : s.ready (.group p) = true ↔ n = 0 := by simp [ready, hcount]
  have hempty : n = 0 ↔ {g | g ∈ s.alive ∧ (s.goroutines g).group = some p} = ∅ := by
    rw [← Set.encard_eq_zero, hcard, Nat.cast_eq_zero]
  rw [hzero, hempty, Set.eq_empty_iff_forall_notMem]
  refine forall_congr' fun g => ⟨fun h hg hgr => ?_, fun h hg => ?_⟩
  · by_contra hx
    exact h ⟨⟨hg, by simpa using hx⟩, hgr⟩
  · cases hg.1.2.symm.trans (h hg.1.1 hg.2)

theorem errgroup_counts_members_one :
    let s := reached (natConfig false) [.start 1 (.errgroupGo ⟨1, 0⟩ "")]
    (∃ n : Nat, (s.mutexes (Prim.key ⟨1, 0, .errgroup⟩)).wgCounter = n ∧
      {g | g ∈ s.alive ∧ (s.goroutines g).group = some ⟨1, 0, .errgroup⟩}.encard = n) ∧
    (s.ready (.group ⟨1, 0, .errgroup⟩) = true ↔ ∀ g, (s.goroutines g).spawned = true →
      (s.goroutines g).group = some ⟨1, 0, .errgroup⟩ → (s.goroutines g).exited = true) := by
  intro s
  have hother {g : Gid} (hg : g ≠ 2) :=
    fork_other ((init (natConfig false)).addCounter ⟨1, 0, .errgroup⟩ 1) 1
      (some ⟨1, 0, .errgroup⟩) "" hg
  refine errgroup_counts_members (reachable_reached rfl) ⟨by decide, fun g _ _ => ?_⟩ rfl
    fun g q hq _ => ?_
  · by_cases hg : g = 2
    · subst hg
      rfl
    · exact (hother hg).2.2.2.2
  · by_cases hg : g = 2
    · subst hg
      exact (Option.some.inj hq).symm
    · exact nomatch (hother hg).1.symm.trans hq

/-- The limit is one: `Go` is refused, and the counter goes up for a member
that does not exist. `Wait` waits for it. -/
theorem errgroup_counts_refused :
    let s := reached (limited 1) [.start 1 (.errgroupGo ⟨1, 0⟩ "")]
    Reachable (limited 1) s ∧ (s.mutexes (Prim.key ⟨1, 0, .errgroup⟩)).wgCounter = 1 ∧
      (∀ g, (s.goroutines g).group = none) ∧ s.ready (.group ⟨1, 0, .errgroup⟩) = false :=
  ⟨reachable_reached rfl, rfl, fun _ => rfl, rfl⟩

end Moves

end Interpreter

end Giri.Interp
