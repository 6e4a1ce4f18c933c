/-
Giri.Interp.SyncTheorems — which clocks a lock or a group passes on.

A primitive keeps two clocks, one stored by `Unlock`, `Signal` and `Done`,
one by `RUnlock`. `KeyInv` says that they contain the clocks of all the
releases so far, and that every acquire after a release has its clock.
`Done` and `RUnlock` JOIN into what is stored, so they keep this. `Unlock`
and `Signal` REPLACE it: they keep it only if the goroutine's clock already
contains what was stored (`KeepsClock`), which is so when the goroutine that
locked the mutex unlocks it, and need not be so otherwise.

For an errgroup there is more to prove: when `Wait` returns, every member
has exited (`GroupInv`).
-/
import Mathlib.Data.List.Perm.Subperm
import Giri.Interp.ChanTheorems
import Giri.Interp.SyncFrame

namespace Giri.Interp

open History
open Function (update_self update_of_ne)

variable {V T : Type}

/-! ## §1. Operations on a primitive, in the trace -/

/-- The operation stores its clock in `lastUnlockClock`. -/
def SyncOp.stores : SyncOp → Bool
  | .unlock | .signal | .done => true
  | _ => false

/-- The operation merges stored clocks. -/
def SyncOp.acquires : SyncOp → Bool
  | .lock | .rLock | .wait => true
  | _ => false

/-- The key an entry of the trace is about. -/
def Event.onKey (e : Event V T) : Option (SyncOp × SyncKey) :=
  match e.kind with
  | .sync op p => some (op, p.key)
  | _ => none

/-- The operations of one kind on the primitives under a key, in order. -/
def syncOps (tr : List (Event V T)) (op : SyncOp) (k : SyncKey) : List (Occ V T) :=
  keyed Event.onKey (op, k) tr

/-- The goroutine that an entry starts as a member of a group under `k`. -/
def Kind.memberOf (k : SyncKey) : Kind V T → Option Gid
  | .fork child (some p) => if p.key = k then some child else none
  | _ => none

/-- The members of the groups under `k`, in the order in which they were
started. -/
def members (tr : List (Event V T)) (k : SyncKey) : List Gid :=
  tr.filterMap fun e => e.kind.memberOf k

/-- The members that have exited. -/
def exits (tr : List (Event V T)) (k : SyncKey) : List Gid := (syncOps tr .done k).map (·.1.gid)

/-- An entry about another primitive, or about none. -/
def Event.Off (e : Event V T) (k : SyncKey) : Prop := ∀ p, e.kind.prim = some p → p.key ≠ k

theorem Event.Off.onKey {e : Event V T} {k : SyncKey} (h : e.Off k) (op : SyncOp) :
    e.onKey ≠ some (op, k) := by
  unfold Event.onKey
  split
  · rename_i o p hk
    intro heq
    exact h p (by rw [hk]; rfl) (Prod.mk.inj (Option.some.inj heq)).2
  · exact nofun

theorem Event.Off.memberOf {e : Event V T} {k : SyncKey} (h : e.Off k) :
    e.kind.memberOf k = none := by
  unfold Kind.memberOf
  split
  · rename_i child p hk
    exact if_neg (h p (by rw [hk]; rfl))
  · rfl

theorem syncOps_append {op : SyncOp} {k : SyncKey} : ∀ {es tr : List (Event V T)},
    (∀ e ∈ es, e.Off k) → syncOps (tr ++ es) op k = syncOps tr op k
  | [], tr, _ => by rw [List.append_nil]
  | e :: es, tr, hes => by
    rw [List.append_cons, syncOps_append fun x hx => hes x (List.mem_cons_of_mem e hx)]
    exact keyed_snoc_ne ((hes e List.mem_cons_self).onKey op)

theorem members_append {k : SyncKey} {es tr : List (Event V T)} (hes : ∀ e ∈ es, e.Off k) :
    members (tr ++ es) k = members tr k := by
  unfold members
  rw [List.filterMap_append, List.filterMap_eq_nil_iff.mpr fun e he => (hes e he).memberOf,
    List.append_nil]

theorem members_snoc {tr : List (Event V T)} {e : Event V T} {k : SyncKey} :
    members (tr ++ [e]) k = members tr k ++ (e.kind.memberOf k).toList := by
  unfold members
  rw [List.filterMap_append]
  cases h : e.kind.memberOf k <;> simp [h]

/-- One more operation on a primitive under the key. -/
theorem mem_syncOps_snoc {tr : List (Event V T)} {e : Event V T} {op o : SyncOp} {p : Prim}
    {x : Occ V T} (he : e.kind = .sync op p) : x ∈ syncOps (tr ++ [e]) o p.key ↔
      x ∈ syncOps tr o p.key ∨ o = op ∧ x = (e, tr.length) := by
  have hkey : e.onKey = some (op, p.key) := by simp only [Event.onKey, he]
  by_cases ho : o = op
  · subst ho
    rw [syncOps, keyed_snoc hkey, List.mem_append, List.mem_singleton]
    simp [syncOps]
  · rw [syncOps, keyed_snoc_other hkey fun h => ho (Prod.mk.inj h).1]
    simp [syncOps, ho]

theorem mem_members {tr : List (Event V T)} {k : SyncKey} {g : Gid} :
    g ∈ members tr k ↔ ∃ e ∈ tr, e.kind.memberOf k = some g := List.mem_filterMap

namespace Interpreter

/-- What is stored contains the clock that `x` published. -/
def Holding (o : Option Stamp) (x : Occ V T) : Prop :=
  ∃ c st, x.1.pub = some c ∧ o = some st ∧ c.get ≤ st.clock.get

/-- **The clocks stored under a key, and what has been passed on.** -/
structure KeyInv (s : Interpreter V T) (k : SyncKey) : Prop where
  stored : ∀ op, op.stores = true → ∀ x ∈ syncOps s.trace op k,
    Holding (s.mutexes k).lastUnlockClock x
  rStored : ∀ x ∈ syncOps s.trace .rUnlock k, Holding (s.mutexes k).rUnlockClock x
  edge : ∀ a op, a.acquires = true → op.stores = true → ∀ y ∈ syncOps s.trace a k,
    ∀ x ∈ syncOps s.trace op k, x.2 < y.2 → Dominates x y
  rEdge : ∀ y ∈ syncOps s.trace .lock k, ∀ x ∈ syncOps s.trace .rUnlock k,
    x.2 < y.2 → Dominates x y

section Keys

variable {cfg : Config V T} {s t : Interpreter V T} {g : Gid} {k : SyncKey} {p : Prim}
  {e : Event V T} {o : Option Prim} {op : SyncOp} {tr : List (Event V T)} {x : Occ V T}

/-! ## §2. What keeps the invariant -/

/-- A step about another primitive adds no entry about this one. -/
theorem Touches.off (h : Touches o s t) (hk : ∀ p, o = some p → p.key ≠ k) :
    ∃ es, t.trace = s.trace ++ es ∧ ∀ e ∈ es, e.Off k := by
  obtain ⟨es, htr, hes⟩ := h.trace
  refine ⟨es, htr, fun e he p hp => ?_⟩
  rcases hes e he with hnone | hsome
  · cases hnone.symm.trans hp
  · exact hk p (hsome.symm.trans hp)

/-- Nothing is released or acquired, and the clocks stay. -/
theorem KeyInv.frame (hI : KeyInv s k) (hops : ∀ op, syncOps t.trace op k = syncOps s.trace op k)
    (hlast : (t.mutexes k).lastUnlockClock = (s.mutexes k).lastUnlockClock)
    (hr : (t.mutexes k).rUnlockClock = (s.mutexes k).rUnlockClock) : KeyInv t k where
  stored op hop := by rw [hops, hlast]; exact hI.stored op hop
  rStored := by rw [hops, hr]; exact hI.rStored
  edge a op ha hop := by rw [hops, hops]; exact hI.edge a op ha hop
  rEdge := by rw [hops, hops]; exact hI.rEdge

theorem KeyInv.touches (hI : KeyInv s k) (h : Touches o s t)
    (hk : ∀ p, o = some p → p.key ≠ k) : KeyInv t k := by
  obtain ⟨es, htr, hes⟩ := h.off hk
  have hm := h.mutexes k fun p hp => (hk p hp).symm
  refine hI.frame (fun op => ?_) (by rw [hm]) (by rw [hm])
  rw [htr]
  exact syncOps_append hes

/-- An acquire: the clock after it contains what was stored. -/
theorem KeyInv.acquire (hI : KeyInv s p.key) {a : SyncOp} (ha : a.acquires = true)
    (htr : t.trace = s.trace ++ [e]) (he : e.kind = .sync a p)
    (hlast : (t.mutexes p.key).lastUnlockClock = (s.mutexes p.key).lastUnlockClock)
    (hr : (t.mutexes p.key).rUnlockClock = (s.mutexes p.key).rUnlockClock)
    (hafter : ∀ st, (s.mutexes p.key).lastUnlockClock = some st → st.clock.get ≤ e.after.get)
    (hrafter : a = .lock → ∀ st, (s.mutexes p.key).rUnlockClock = some st →
      st.clock.get ≤ e.after.get) : KeyInv t p.key := by
  -- the new entry releases nothing, so every release is an old one
  have hold : ∀ {op x}, op.acquires = false → x ∈ syncOps t.trace op p.key →
      x ∈ syncOps s.trace op p.key := by
    intro op x hop hx
    rw [htr, mem_syncOps_snoc he] at hx
    refine hx.resolve_right fun h => ?_
    rw [h.1, ha] at hop
    cases hop
  have hstores : ∀ {op : SyncOp}, op.stores = true → op.acquires = false := by
    intro op hop
    cases op <;> first | rfl | cases hop
  -- a release that is stored is passed on by the new entry
  have hpass : ∀ {o : Option Stamp} {x : Occ V T} {op : SyncOp}, x ∈ syncOps s.trace op p.key →
      Holding o x → (∀ st, o = some st → st.clock.get ≤ e.after.get) →
      Dominates x (e, s.trace.length) := by
    rintro o x op hx ⟨c, st, hc, rfl, hle⟩ hst
    exact ⟨lt_of_mem_keyed hx, c, hc, hle.trans (hst st rfl)⟩
  refine ⟨fun op hop x hx => ?_, fun x hx => ?_, fun b op hb hop y hy x hx hlt => ?_,
    fun y hy x hx hlt => ?_⟩
  · rw [hlast]
    exact hI.stored op hop x (hold (hstores hop) hx)
  · rw [hr]
    exact hI.rStored x (hold rfl hx)
  · have hx := hold (hstores hop) hx
    rw [htr, mem_syncOps_snoc he] at hy
    rcases hy with hy | ⟨rfl, rfl⟩
    · exact hI.edge b op hb hop y hy x hx hlt
    · exact hpass hx (hI.stored op hop x hx) hafter
  · have hx := hold rfl hx
    rw [htr, mem_syncOps_snoc he] at hy
    rcases hy with hy | ⟨hla, rfl⟩
    · exact hI.rEdge y hy x hx hlt
    · exact hpass hx (hI.rStored x hx) (hrafter hla.symm)

/-- A release: what is stored afterwards contains its clock, and what was
stored before. -/
theorem KeyInv.release (hI : KeyInv s p.key) (hop : op.acquires = false)
    (htr : t.trace = s.trace ++ [e]) (he : e.kind = .sync op p)
    (hlast : ∀ x : Occ V T, Holding (s.mutexes p.key).lastUnlockClock x →
      Holding (t.mutexes p.key).lastUnlockClock x)
    (hr : ∀ x : Occ V T, Holding (s.mutexes p.key).rUnlockClock x →
      Holding (t.mutexes p.key).rUnlockClock x)
    (hnew : op.stores = true → Holding (t.mutexes p.key).lastUnlockClock (e, s.trace.length))
    (hrnew : op = .rUnlock → Holding (t.mutexes p.key).rUnlockClock (e, s.trace.length)) :
    KeyInv t p.key := by
  -- every acquire is an old one, and the new entry comes after it
  have hlate : ∀ {a y}, a.acquires = true → y ∈ syncOps t.trace a p.key →
      y ∈ syncOps s.trace a p.key ∧ ¬ s.trace.length < y.2 := by
    intro a y ha hy
    rw [htr, mem_syncOps_snoc he] at hy
    have hy := hy.resolve_right fun h => by rw [h.1, hop] at ha; cases ha
    exact ⟨hy, Nat.lt_asymm (lt_of_mem_keyed hy)⟩
  refine ⟨fun o ho x hx => ?_, fun x hx => ?_, fun a o ha ho y hy x hx hlt => ?_,
    fun y hy x hx hlt => ?_⟩ <;> rw [htr, mem_syncOps_snoc he] at hx
  · rcases hx with hx | ⟨rfl, rfl⟩
    · exact hlast x (hI.stored o ho x hx)
    · exact hnew ho
  · rcases hx with hx | ⟨heq, rfl⟩
    · exact hr x (hI.rStored x hx)
    · exact hrnew heq.symm
  · obtain ⟨hy, hnot⟩ := hlate ha hy
    rcases hx with hx | ⟨-, rfl⟩
    · exact hI.edge a o ha ho y hy x hx hlt
    · exact absurd hlt hnot
  · obtain ⟨hy, hnot⟩ := hlate rfl hy
    rcases hx with hx | ⟨-, rfl⟩
    · exact hI.rEdge y hy x hx hlt
    · exact absurd hlt hnot

/-! ## §3. The functions of `Sync.lean` -/

theorem clockOf_acquire_acquire (u : Interpreter V T) (g : Gid) (last rUnlock : Option Stamp) :
    ((u.acquire g last).acquire g rUnlock).clockOf g =
      mergeStamp (mergeStamp (u.clockOf g) last) rUnlock := by
  unfold acquire
  rw [clockOf_setClock_self, clockOf_setClock_self]

/-- Merging the clocks stored for `p`. -/
theorem KeyInv.syncAcquire (hI : KeyInv s p.key) (u : Interpreter V T) (a : SyncOp)
    (ha : a.acquires = true) (htr : u.trace = s.trace)
    (hlast : (u.mutexes p.key).lastUnlockClock = (s.mutexes p.key).lastUnlockClock)
    (hr : (u.mutexes p.key).rUnlockClock = (s.mutexes p.key).rUnlockClock)
    {rUnlock : Option Stamp} (hlock : a = .lock → rUnlock = (s.mutexes p.key).rUnlockClock) :
    KeyInv (u.syncAcquire g a p (s.mutexes p.key).lastUnlockClock rUnlock) p.key := by
  refine hI.acquire ha (by rw [← htr]; rfl) rfl hlast hr (fun st hst => ?_) fun heq st hst => ?_
  · show _ ≤ (((u.acquire g _).acquire g rUnlock).clockOf g).get
    rw [clockOf_acquire_acquire, hst]
    exact (stamp_le_mergeStamp _ st).trans (le_mergeStamp _ rUnlock)
  · show _ ≤ (((u.acquire g _).acquire g rUnlock).clockOf g).get
    rw [clockOf_acquire_acquire, hlock heq, hst]
    exact stamp_le_mergeStamp _ st

theorem KeyInv.lock (hI : KeyInv s p.key) : KeyInv (s.lock g p) p.key := by
  refine hI.syncAcquire (s.setSync p.key _) .lock rfl rfl ?_ ?_ fun _ => rfl <;>
    rw [setSync_mutexes, update_self]

theorem KeyInv.rLock (hI : KeyInv s p.key) : KeyInv (s.rLock g p) p.key := by
  refine hI.syncAcquire (s.setSync p.key _) .rLock rfl rfl ?_ ?_ nofun <;>
    rw [setSync_mutexes, update_self]

theorem KeyInv.addCounter (hI : KeyInv s p.key) (delta : Int) :
    KeyInv (s.addCounter p delta) p.key := by
  refine hI.frame (fun _ => rfl) ?_ ?_ <;> rw [Interpreter.addCounter, setSync_mutexes, update_self]

theorem KeyInv.groupWoken (hI : KeyInv s p.key) : KeyInv (s.groupWoken g p) p.key :=
  hI.syncAcquire (s.setWait g none) .wait rfl rfl rfl rfl nofun

/-- The clock published by a release is in what `joinClock` stores, and so
is what was stored before. -/
theorem holding_join {o : Option Stamp} :
    Holding o x → Holding (some (s.joinClock o g)) x := by
  rintro ⟨c, st, hc, rfl, hle⟩
  exact ⟨c, _, hc, rfl, hle.trans (st.clock.le_merge_left (s.clockOf g))⟩

theorem holding_join_new (o : Option Stamp) (hx : x.1.pub = some (s.clockOf g)) :
    Holding (some (s.joinClock o g)) x := by
  refine ⟨_, _, hx, rfl, ?_⟩
  cases o with
  | none => exact le_refl _
  | some st => exact st.clock.le_merge_right (s.clockOf g)

/-- Storing the state of `p` with the clock published. -/
theorem KeyInv.syncRelease (hI : KeyInv s p.key) (hop : op.acquires = false) {ms : MutexState}
    (hlast : ∀ x : Occ V T, Holding (s.mutexes p.key).lastUnlockClock x →
      Holding ms.lastUnlockClock x)
    (hr : ∀ x : Occ V T, Holding (s.mutexes p.key).rUnlockClock x → Holding ms.rUnlockClock x)
    (hnew : op.stores = true → ∀ x : Occ V T, x.1.pub = some (s.clockOf g) →
      Holding ms.lastUnlockClock x)
    (hrnew : op = .rUnlock → ∀ x : Occ V T, x.1.pub = some (s.clockOf g) →
      Holding ms.rUnlockClock x) : KeyInv (s.syncRelease g op p ms) p.key := by
  have hself : (s.syncRelease g op p ms).mutexes p.key = ms := update_self ..
  refine hI.release hop rfl rfl ?_ ?_ (fun h => ?_) fun h => ?_ <;> rw [hself]
  · exact hlast
  · exact hr
  · exact hnew h _ rfl
  · exact hrnew h _ rfl

theorem KeyInv.joinRelease (hI : KeyInv s p.key) : KeyInv (s.joinRelease g p) p.key :=
  hI.syncRelease rfl (fun _ => holding_join) (fun _ h => h) (fun _ _ => holding_join_new _) nofun

/-- The clock stored is REPLACED, by one that contains it. -/
theorem KeyInv.replace (hI : KeyInv s p.key) (hop : op.acquires = false)
    (hr : op ≠ .rUnlock) (hkeeps : ∀ st, (s.mutexes p.key).lastUnlockClock = some st →
      st.clock.get ≤ (s.clockOf g).get) {ms : MutexState}
    (hms : ms.lastUnlockClock = some (s.snapshotClock g))
    (hrms : ms.rUnlockClock = (s.mutexes p.key).rUnlockClock) :
    KeyInv (s.syncRelease g op p ms) p.key := by
  refine hI.syncRelease hop ?_ (fun x h => hrms ▸ h) (fun _ x hx => ?_) fun h => absurd h hr
  · rintro x ⟨c, st, hc, hst, hle⟩
    exact ⟨c, _, hc, hms, hle.trans (hkeeps st hst)⟩
  · exact ⟨_, _, hx, hms, le_refl _⟩

theorem KeyInv.same (hI : KeyInv s k) (h : Same s t) : KeyInv t k :=
  hI.touches ((Touches.refl none s).same h) nofun

theorem KeyInv.rUnlock (hI : KeyInv s p.key) (site : String) :
    KeyInv (s.rUnlock g p site) p.key := by
  unfold Interpreter.rUnlock
  simp only
  split
  · exact hI.same (same_unlockOfUnlocked s g _ site)
  · exact hI.syncRelease rfl (fun _ h => h) (fun _ => holding_join) nofun
      (fun _ _ => holding_join_new _)

theorem KeyInv.syncMutex (hI : KeyInv s p.key) (m : MutexMethod) (site : String)
    (hkeeps : m = .unlock → ∀ st,
      (s.mutexes p.key).lastUnlockClock = some st → st.clock.get ≤ (s.clockOf g).get) :
    KeyInv (s.syncMutex g p m site) p.key := by
  unfold Interpreter.syncMutex
  split
  · exact hI.lock
  · exact hI.lock.same (same_setRet ..)
  · unfold Interpreter.unlock
    simp only
    split
    · refine hI.replace ?_ ?_ (hkeeps rfl) ?_ ?_ <;> simp [SyncOp.acquires]
    · exact hI.same (same_unlockOfUnlocked s g _ site)
  · split
    · exact hI.rLock
    · exact hI
  · split
    · exact hI.rLock.same (same_setRet ..)
    · exact hI
  · split
    · exact hI.rUnlock site
    · exact hI

theorem KeyInv.wgAdd (hI : KeyInv s p.key) (delta : Int) (site : String) :
    KeyInv (s.wgAdd g p delta site) p.key := by
  have hrel : KeyInv (if delta < 0 then s.joinRelease g p else s) p.key := by
    split
    · exact hI.joinRelease
    · exact hI
  unfold Interpreter.wgAdd
  generalize (if delta < 0 then s.joinRelease g p else s) = u at hrel
  simp only
  split
  · exact (hrel.addCounter delta).same (same_recordViolation _ g _)
  · exact hrel.addCounter delta

/-! ## §4. Steps -/

/-- A step that replaces the clock stored under `k` is made by a goroutine
whose clock contains it. -/
def KeepsClock (s : Interpreter V T) (k : SyncKey) : Action V T → Prop
  | .start g (.mutex rw a .unlock _) => (a.prim (if rw then .rwMutex else .mutex)).key = k →
      ∀ st, (s.mutexes k).lastUnlockClock = some st → st.clock.get ≤ (s.clockOf g).get
  | .start g (.condSignal a) => (a.prim .cond).key = k →
      ∀ st, (s.mutexes k).lastUnlockClock = some st → st.clock.get ≤ (s.clockOf g).get
  | _ => True

theorem KeyInv.groupWait (hI : KeyInv s p.key) : KeyInv (s.groupWait cfg g p) p.key := by
  have hpark : KeyInv (s.setWait g (some (.group p))) p.key := hI.frame (fun _ => rfl) rfl rfl
  refine settle_cases (P := fun u => KeyInv u p.key) (k := fun s => s.groupWoken g p) (fun _ => ?_)
    (fun _ => hpark.groupWoken) fun _ => hpark
  exact hpark.frame (fun _ => rfl) rfl rfl

/-- The goroutine of an errgroup starts: an entry about the group, but
nothing is released or acquired. -/
theorem KeyInv.startGoroutine (hI : KeyInv s k) (site : String) (group : Option Prim) :
    KeyInv (s.startGoroutine cfg g group site) k := by
  unfold Interpreter.startGoroutine
  simp only
  split
  · exact (hI.frame (t := { s with nextGID := s.nextGID + 1 }) (fun _ => rfl) rfl rfl).same
      (same_recordViolation _ g _)
  · exact hI.frame (fun op => keyed_snoc_none rfl) rfl rfl

theorem KeyInv.exit (hI : KeyInv s p.key) (hg : (s.goroutines g).group = some p) :
    KeyInv (s.exit g) p.key := by
  have hx : KeyInv (s.modify g fun r => { r with exited := true }) p.key :=
    hI.frame (fun _ => rfl) rfl rfl
  unfold Interpreter.exit
  simp only [modify_goroutines, update_self, hg]
  split
  · exact hx
  · exact hx.joinRelease.addCounter (-1)

/-- **Every step keeps the invariant of a key**, if it keeps the clock
stored there. -/
theorem KeyInv.step {a : Action V T} (hI : KeyInv s k) (hB : Base s) (h : Step cfg s a t)
    (hkeeps : KeepsClock s k a) : KeyInv t k := by
  by_cases huse : ∃ p, primOf s a = some p ∧ p.key = k
  · obtain ⟨p, hp, rfl⟩ := huse
    cases stepped h with
    | start op =>
      cases op with
      | mutex rw a m site =>
        cases hp
        refine hI.syncMutex m site fun hm => ?_
        subst hm
        exact hkeeps rfl
      | wgAdd a delta site => cases hp; exact hI.wgAdd delta site
      | wgWait | errgroupWait => cases hp; exact hI.groupWait
      | condSignal =>
        cases hp
        refine hI.replace ?_ ?_ (hkeeps rfl) ?_ ?_ <;> simp [SyncOp.acquires]
      | condWait => cases hp; exact hI.syncAcquire s .wait rfl rfl rfl rfl nofun
      | errgroupGo a site => cases hp; exact (hI.addCounter 1).startGoroutine site _
      | exit => exact hI.exit hp
      | _ => cases hp
    | @resume g wt hw =>
      simp only [primOf, hw.2] at hp
      cases wt with
      | group => cases hp; exact hI.groupWoken
      | _ => cases hp
    | _ => cases hp
  · exact hI.touches (touches_step hB h) fun p hp heq => huse ⟨p, hp, heq⟩

/-! ## §5. Errgroups -/

/-- The counter of an errgroup, its members, and what has been waited for. -/
structure GroupInv (s : Interpreter V T) (k : SyncKey) : Prop where
  born : ∀ g ∈ members s.trace k, g ≤ s.nextGID
  nodup : (members s.trace k).Nodup
  member : ∀ g p, (s.goroutines g).group = some p → p.key = k → g ∈ members s.trace k
  exits_nodup : (exits s.trace k).Nodup
  exited : ∀ g ∈ exits s.trace k, g ∈ members s.trace k ∧ (s.goroutines g).exited = true
  /-- The counter goes up for every member, and down when one exits. -/
  count : ((members s.trace k).length : Int) ≤
    (s.mutexes k).wgCounter + ((exits s.trace k).length : Int)
  /-- A member started before a `Wait` returned had exited by then. -/
  waited : ∀ y ∈ syncOps s.trace .wait k, ∀ (n : Nat) (e : Event V T) (g : Gid),
    s.trace[n]? = some e → n < y.2 → e.kind.memberOf k = some g →
    ∃ x ∈ syncOps s.trace .done k, x.1.gid = g ∧ x.2 < y.2

/-- When the counter is down, everybody has exited. -/
theorem GroupInv.all_exited (hI : GroupInv s k) (hzero : (s.mutexes k).wgCounter ≤ 0) {g : Gid}
    (hg : g ∈ members s.trace k) : ∃ x ∈ syncOps s.trace .done k, x.1.gid = g := by
  have hle : (members s.trace k).length ≤ (exits s.trace k).length := by
    have := hI.count
    omega
  have hsub : exits s.trace k ⊆ members s.trace k := fun x hx => (hI.exited x hx).1
  have hperm := (List.subperm_of_subset hI.exits_nodup hsub).perm_of_length_le hle
  exact List.mem_map.mp (hperm.symm.subset hg)

/-- The history of the groups under `k` goes on: `ms` are started, `xs` exit,
and a `Wait` returns only when the counter is down. -/
theorem GroupInv.grow (hI : GroupInv s k) (ms xs : List Gid) {es : List (Event V T)}
    (htr : t.trace = s.trace ++ es) (hmem : members t.trace k = members s.trace k ++ ms)
    (hex : exits t.trace k = exits s.trace k ++ xs)
    (hwait : ∀ y ∈ syncOps t.trace .wait k, y ∈ syncOps s.trace .wait k ∨
      y.2 = s.trace.length ∧ (s.mutexes k).wgCounter ≤ 0)
    (hn : s.nextGID ≤ t.nextGID)
    (hms : ms.Nodup ∧ ∀ g ∈ ms, s.nextGID < g ∧ g ≤ t.nextGID)
    (hxs : xs.Nodup ∧ ∀ g ∈ xs, g ∈ members s.trace k ∧ (s.goroutines g).exited = false ∧
      (t.goroutines g).exited = true)
    (hgroup : ∀ g q, (t.goroutines g).group = some q → q.key = k →
      (s.goroutines g).group = some q ∨ g ∈ ms)
    (hexited : ∀ g, g ≤ s.nextGID → (s.goroutines g).exited = true →
      (t.goroutines g).exited = true)
    (hcount : (s.mutexes k).wgCounter + ms.length ≤ (t.mutexes k).wgCounter + xs.length) :
    GroupInv t k := by
  refine ⟨?_, ?_, fun g q hg hq => ?_, ?_, ?_, ?_, fun y hy n e g hget hlt hg => ?_⟩
  · rw [hmem]
    exact List.forall_mem_append.mpr
      ⟨fun g hg => (hI.born g hg).trans hn, fun g hg => (hms.2 g hg).2⟩
  · rw [hmem]
    exact List.nodup_append.mpr ⟨hI.nodup, hms.1, fun g hg q hq =>
      Int.ne_of_lt (Int.lt_of_le_of_lt (hI.born g hg) (hms.2 q hq).1)⟩
  · rw [hmem]
    rcases hgroup g q hg hq with hold | hnew
    · exact List.mem_append_left _ (hI.member g q hold hq)
    · exact List.mem_append_right _ hnew
  · rw [hex]
    refine List.nodup_append.mpr ⟨hI.exits_nodup, hxs.1, ?_⟩
    rintro g hg _ hq rfl
    cases (hxs.2 g hq).2.1.symm.trans (hI.exited g hg).2
  · rw [hex, hmem]
    refine List.forall_mem_append.mpr ⟨fun g hg => ?_, fun g hg => ?_⟩
    · obtain ⟨hm, hx⟩ := hI.exited g hg
      exact ⟨List.mem_append_left _ hm, hexited g (hI.born g hm) hx⟩
    · exact ⟨List.mem_append_left _ (hxs.2 g hg).1, (hxs.2 g hg).2.2⟩
  · rw [hmem, hex, List.length_append, List.length_append]
    have := hI.count
    omega
  · -- members started before the `Wait` have exited before it, in the history so far
    have hold : ∃ x ∈ syncOps s.trace .done k, x.1.gid = g ∧ x.2 < y.2 := by
      rw [htr] at hget
      rcases hwait y hy with hy | ⟨hpos, hzero⟩
      · rw [List.getElem?_append_left (hlt.trans (lt_of_mem_keyed hy))] at hget
        exact hI.waited y hy n e g hget hlt hg
      · rw [List.getElem?_append_left (hpos ▸ hlt)] at hget
        obtain ⟨x, hx, hxg⟩ := hI.all_exited hzero
          (mem_members.mpr ⟨e, List.mem_of_getElem? hget, hg⟩)
        exact ⟨x, hx, hxg, hpos ▸ lt_of_mem_keyed hx⟩
    obtain ⟨x, hx, hxg⟩ := hold
    obtain ⟨hxget, hkey⟩ := mem_keyed.mp hx
    refine ⟨x, mem_keyed.mpr ⟨?_, hkey⟩, hxg⟩
    rw [htr, List.getElem?_append_left (lt_of_mem_keyed hx), hxget]

/-- Nothing happens to the groups under `k`, except that the counter may go
up. -/
theorem GroupInv.frame (hI : GroupInv s k) {es : List (Event V T)} (htr : t.trace = s.trace ++ es)
    (hoff : ∀ e ∈ es, e.Off k) (hn : s.nextGID ≤ t.nextGID)
    (hgroup : ∀ g q, (t.goroutines g).group = some q → q.key = k →
      (s.goroutines g).group = some q)
    (hexited : ∀ g, g ≤ s.nextGID → (s.goroutines g).exited = true →
      (t.goroutines g).exited = true)
    (hcount : (s.mutexes k).wgCounter ≤ (t.mutexes k).wgCounter) : GroupInv t k := by
  have hops : ∀ op, syncOps t.trace op k = syncOps s.trace op k := fun op => by
    rw [htr]; exact syncOps_append hoff
  refine hI.grow [] [] htr ?_ ?_ (fun y hy => .inl (hops .wait ▸ hy)) hn ⟨.nil, by simp⟩
    ⟨.nil, by simp⟩ (fun g q hg hq => .inl (hgroup g q hg hq)) hexited (by simpa using hcount)
  · rw [htr, members_append hoff, List.append_nil]
  · rw [exits, hops, exits, List.append_nil]

/-- A step that is about other primitives. -/
theorem GroupInv.touches (hI : GroupInv s k) (h : Touches o s t)
    (hk : ∀ p, o = some p → p.key ≠ k) : GroupInv t k := by
  obtain ⟨es, htr, hes⟩ := h.off hk
  refine hI.frame htr hes h.nextGID (fun g q hg hq => ?_) h.exited
    (by rw [h.mutexes k fun p hp => (hk p hp).symm])
  exact (h.group g q hg).resolve_right fun ho => hk q ho hq

/-- `Wait` returns. -/
theorem GroupInv.condWait (hI : GroupInv s p.key) (hzero : (s.mutexes p.key).wgCounter ≤ 0) :
    GroupInv (s.condWait g p) p.key := by
  have htr : (s.condWait g p).trace = s.trace ++ [_] := rfl
  have hdone : syncOps (s.condWait g p).trace .done p.key = syncOps s.trace .done p.key :=
    keyed_snoc_other rfl (by simp)
  refine hI.grow [] [] htr ?_ ?_ (fun y hy => ?_) (le_refl _) ⟨.nil, by simp⟩ ⟨.nil, by simp⟩
    (fun q r hq _ => .inl ?_) (fun q _ hq => ?_) (le_refl _)
  · rw [htr, members_snoc]; simp [Kind.memberOf]
  · rw [exits, hdone, exits, List.append_nil]
  · exact ((mem_syncOps_snoc rfl).mp hy).imp_right fun h => ⟨congrArg Prod.snd h.2, hzero⟩
  · exact ((setClock_group ..).trans (setClock_group ..)).symm.trans hq
  · exact ((setClock_exited ..).trans (setClock_exited ..)).trans hq

/-- `Go` starts a member: the counter goes up with the number of members. -/
theorem GroupInv.memberFork (hI : GroupInv s p.key) (site : String) :
    GroupInv ({ s.addCounter p 1 with nextGID := s.nextGID + 1 }.fork g (s.nextGID + 1) (some p)
      site) p.key := by
  have hother := fun q => @fork_other _ _ (s.addCounter p 1) g (some p) site q
  have hops : ∀ op, syncOps ({ s.addCounter p 1 with nextGID := s.nextGID + 1 }.fork g
      (s.nextGID + 1) (some p) site).trace op p.key = syncOps s.trace op p.key := fun op =>
    keyed_snoc_none rfl
  refine hI.grow [s.nextGID + 1] [] rfl ?_ ?_ (fun y hy => .inl (hops .wait ▸ hy))
    (Int.le_add_one (le_refl _)) ⟨List.nodup_singleton _, ?_⟩ ⟨.nil, by simp⟩ (fun q r hq hr => ?_)
    (fun q hq hx => ?_) ?_
  · refine members_snoc.trans ?_
    simp only [Kind.memberOf, if_true]
    rfl
  · rw [exits, hops, exits, List.append_nil]
  · intro q hq
    rw [List.mem_singleton.mp hq]
    exact ⟨Int.lt_succ _, le_refl _⟩
  · rw [List.mem_singleton]
    by_cases hc : q = s.nextGID + 1
    · exact .inr hc
    · exact .inl ((hother q hc).1.symm.trans hq)
  · exact (hother q (Int.ne_of_lt (Int.lt_add_one_of_le hq))).2.2.1.trans hx
  · show _ ≤ (Function.update s.mutexes p.key _ p.key).wgCounter + _
    rw [update_self]
    simp

/-- A member exits: the counter goes down, and one more has exited. -/
theorem GroupInv.memberExit (hI : GroupInv s p.key) (hex : (s.goroutines g).exited = false)
    (hgroup : (s.goroutines g).group = some p) :
    GroupInv (((s.modify g fun r => { r with exited := true }).joinRelease g p).addCounter p (-1))
      p.key := by
  generalize ht : (((s.modify g fun r => { r with exited := true }).joinRelease g p).addCounter p
    (-1)) = t
  obtain ⟨e, htr, hkind, hgid⟩ : ∃ e, t.trace = s.trace ++ [e] ∧ e.kind = .sync .done p ∧ e.gid = g :=
    ⟨_, by rw [← ht]; rfl, rfl, rfl⟩
  have hgroups : ∀ q, (t.goroutines q).group = (s.goroutines q).group := by
    intro q
    rw [← ht]
    refine (setClock_group ..).trans ?_
    exact modify_field Goroutine.group s g q (f := fun r => { r with exited := true }) fun _ => rfl
  have hexited : ∀ q, (t.goroutines q).exited =
      ((s.modify g fun r => { r with exited := true }).goroutines q).exited := by
    intro q
    rw [← ht]
    exact setClock_exited ..
  have hcount : (t.mutexes p.key).wgCounter = (s.mutexes p.key).wgCounter - 1 := by
    rw [← ht]
    show (Function.update (Function.update s.mutexes p.key _) p.key _ p.key).wgCounter = _
    rw [update_self]
    show (Function.update s.mutexes p.key _ p.key).wgCounter + -1 = _
    rw [update_self]
    rfl
  have hkey : e.onKey = some (.done, p.key) := by simp only [Event.onKey, hkind]
  have hwait : syncOps t.trace .wait p.key = syncOps s.trace .wait p.key := by
    rw [htr]; exact keyed_snoc_other hkey (by simp)
  refine hI.grow [] [g] htr ?_ ?_ (fun y hy => .inl (hwait ▸ hy)) (by rw [← ht]; rfl) ⟨.nil, by simp⟩
    ⟨List.nodup_singleton _, ?_⟩ (fun q r hq _ => .inl ((hgroups q).symm.trans hq))
    (fun q _ hq => ?_) (by simp [hcount])
  · rw [htr, members_snoc]; simp [hkind, Kind.memberOf]
  · rw [exits, syncOps, htr, keyed_snoc hkey, List.map_append, List.map_singleton, hgid]
    rfl
  · intro q hq
    rw [List.mem_singleton.mp hq, hexited]
    exact ⟨hI.member g p hgroup rfl, hex, by simp⟩
  · rw [hexited, modify_goroutines]
    by_cases hqg : q = g
    · simp [hqg]
    · rwa [update_of_ne hqg]

theorem GroupInv.setWait (hI : GroupInv s k) {x : Option (Wait V T)} :
    GroupInv (s.setWait g x) k :=
  hI.frame (List.append_nil _).symm (by simp) (le_refl _)
    (fun q r hq _ => (setWait_group ..).symm.trans hq) (fun q _ hq => (setWait_exited ..).trans hq)
    (le_refl _)

/-- `Go` can't start the goroutine: the counter goes up all the same. -/
theorem GroupInv.refuse (hI : GroupInv s p.key) :
    GroupInv { s.addCounter p 1 with nextGID := s.nextGID + 1 } p.key := by
  refine hI.frame (List.append_nil _).symm (by simp) (Int.le_add_one (le_refl _))
    (fun q r hq _ => hq) (fun q _ hq => hq) ?_
  show _ ≤ (Function.update s.mutexes p.key _ p.key).wgCounter
  rw [update_self]
  exact Int.le_add_of_nonneg_right (by decide)

/-- **Every part of a step keeps the invariant of an errgroup.** -/
theorem GroupInv.micro (hI : GroupInv s k) (hk : k.group = true) (h : Micro cfg s o t) :
    GroupInv t k := by
  by_cases huse : ∃ p, o = some p ∧ p.key = k
  · obtain ⟨p, ho, rfl⟩ := huse
    have hkind : p.kind = .errgroup := by simpa [Prim.key] using hk
    cases h with
    | memberFork site => cases ho; exact hI.memberFork site
    | memberExit h hex hp => cases ho; exact hI.memberExit hex hp
    | groupWait q h hzero => cases ho; exact hI.condWait hzero
    | refuse => cases ho; exact hI.refuse
    | lock q h hq | rLock q h hq | unlock q h hq | rUnlock q h hq =>
      cases ho
      rcases hq with hq | hq <;> cases hq.symm.trans hkind
    | signal q h hq | condWait q h hq | done q h hq | addCounter q delta hq =>
      cases ho; cases hq.symm.trans hkind
    | park => exact hI.setWait
    | _ => cases ho
  · exact hI.touches h.touches fun p hp heq => huse ⟨p, hp, heq⟩

/-! ## §6. One primitive -/

/-- The operations of one kind on the primitive `p` itself, in order. -/
def primOps (tr : List (Event V T)) (op : SyncOp) (p : Prim) : List (Occ V T) :=
  (syncOps tr op p.key).filter fun x => x.1.kind.prim == some p

theorem mem_syncOps_of_prim
    (hx : x ∈ primOps tr op p) : x ∈ syncOps tr op p.key := (List.mem_filter.mp hx).1

theorem keyInv_init (cfg : Config V T) (k : SyncKey) : KeyInv (init cfg) k where
  stored _ _ _ hx := by cases hx
  rStored _ hx := by cases hx
  edge _ _ _ _ _ hy := by cases hy
  rEdge _ hy := by cases hy

theorem groupInv_init (cfg : Config V T) (k : SyncKey) : GroupInv (init cfg) k where
  born _ hg := by cases hg
  nodup := List.nodup_nil
  member _ _ h := by cases h
  exits_nodup := List.nodup_nil
  exited _ hg := by cases hg
  count := le_refl _
  waited _ hy := by cases hy

/-- A step that keeps the clock stored under `k`. -/
def KeepingStep (cfg : Config V T) (k : SyncKey) (s : Interpreter V T) (a : Action V T)
    (t : Interpreter V T) : Prop := Step cfg s a t ∧ KeepsClock s k a

/-- **Lock and group happens-before edges are complete**, in every run whose
steps keep the clock stored for `p`. -/
theorem sync_edges {acts : List (Action V T)}
    (hrun : Transition.Run (KeepingStep cfg p.key) (init cfg) acts s) :
    (∀ y ∈ primOps s.trace .lock p, ∀ x, x ∈ primOps s.trace .unlock p ∨
      x ∈ primOps s.trace .rUnlock p → x.2 < y.2 → Dominates x y) ∧
    (∀ y ∈ primOps s.trace .rLock p, ∀ x ∈ primOps s.trace .unlock p, x.2 < y.2 →
      Dominates x y) ∧
    (∀ y ∈ primOps s.trace .wait p, ∀ x ∈ primOps s.trace .done p, x.2 < y.2 →
      Dominates x y) ∧
    (p.kind = .errgroup → ∀ y ∈ primOps s.trace .wait p, ∀ (n : Nat) (e : Event V T) (g : Gid),
      s.trace[n]? = some e → n < y.2 → e.kind = .fork g (some p) →
      ∃ x ∈ syncOps s.trace .done p.key, x.1.gid = g ∧ Dominates x y) := by
  obtain ⟨-, hI⟩ := hrun.invariant (P := fun u => Base u ∧ KeyInv u p.key)
    (fun _ _ _ hst hu => ⟨hu.1.step hst.1, hu.2.step hu.1 hst.1 hst.2⟩)
    ⟨base_init cfg, keyInv_init cfg p.key⟩
  refine ⟨fun y hy x hx hlt => ?_, fun y hy x hx hlt => ?_, fun y hy x hx hlt => ?_,
    fun hkind y hy n e g hget hlt hk => ?_⟩
  · rcases hx with hx | hx
    · exact hI.edge .lock .unlock rfl rfl y (mem_syncOps_of_prim hy) x (mem_syncOps_of_prim hx) hlt
    · exact hI.rEdge y (mem_syncOps_of_prim hy) x (mem_syncOps_of_prim hx) hlt
  · exact hI.edge .rLock .unlock rfl rfl y (mem_syncOps_of_prim hy) x (mem_syncOps_of_prim hx) hlt
  · exact hI.edge .wait .done rfl rfl y (mem_syncOps_of_prim hy) x (mem_syncOps_of_prim hx) hlt
  · have hgroup : p.key.group = true := by simp [Prim.key, hkind]
    have hs : Reachable cfg s := ⟨acts, hrun.mono fun _ _ _ h => h.1⟩
    obtain ⟨-, hG⟩ := hs.invariant (P := fun u => GroupInv u p.key) (groupInv_init cfg p.key)
      fun _ _ _ _ hm hu => hu.micro hgroup hm
    have hy := mem_syncOps_of_prim hy
    obtain ⟨x, hx, hxg, hxlt⟩ := hG.waited y hy n e g hget hlt (by simp [hk, Kind.memberOf])
    exact ⟨x, hx, hxg, hI.edge .wait .done rfl rfl y hy x hx hxlt⟩

/-- A goroutine locks a mutex after main has unlocked it. -/
def lockAfterUnlock : List (Action Nat Unit) :=
  [.start 1 (.go ""), .start 1 (.mutex false ⟨1, 0⟩ .lock ""),
    .start 1 (.mutex false ⟨1, 0⟩ .unlock ""), .start 2 (.mutex false ⟨1, 0⟩ .lock "")]

theorem sync_edges_handed_on : ∃ (s : Interpreter Nat Unit) (x y : Occ Nat Unit),
    primOps s.trace .unlock ⟨1, 0, .mutex⟩ = [x] ∧ (primOps s.trace .lock ⟨1, 0, .mutex⟩)[1]? =
      some y ∧ x.1.gid = 1 ∧ y.1.gid = 2 ∧ Dominates x y := by
  have hrun : Transition.Run (KeepingStep (natConfig true) (Prim.key ⟨1, 0, .mutex⟩))
      (init (natConfig true)) lockAfterUnlock (reached (natConfig true) lockAfterUnlock) :=
    Transition.run_of_guarded (exec_reached (by decide))
      ⟨trivial, trivial, fun _ _ h => (nomatch h), trivial, trivial⟩
  refine ⟨reached (natConfig true) lockAfterUnlock, _, _, rfl, rfl, rfl, rfl, ?_⟩
  exact (sync_edges hrun).1 _ (List.mem_of_getElem? (i := 1) rfl) _
    (.inl (List.mem_of_getElem? (i := 0) rfl)) (by decide)

/-- main locks, unlocks and locks a mutex again; a goroutine that has
synchronized with nobody unlocks it; another one locks it. -/
def unlockedByAnother : List (Action Nat Unit) :=
  [.start 1 (.go ""), .start 1 (.go ""), .start 1 (.mutex false ⟨1, 0⟩ .lock ""),
    .start 1 (.mutex false ⟨1, 0⟩ .unlock ""), .start 1 (.mutex false ⟨1, 0⟩ .lock ""),
    .start 2 (.mutex false ⟨1, 0⟩ .unlock ""), .start 3 (.mutex false ⟨1, 0⟩ .lock "")]

/-- **`Unlock` forgets the unlocks before it**: the last `Lock` is not
ordered after main's `Unlock`. -/
theorem replaced_unlock_not_ordered : ∃ (s : Interpreter Nat Unit) (x y : Occ Nat Unit),
    Reachable (natConfig true) s ∧ (primOps s.trace .unlock ⟨1, 0, .mutex⟩)[0]? = some x ∧
      (primOps s.trace .lock ⟨1, 0, .mutex⟩)[2]? = some y ∧ x.2 < y.2 ∧ ¬ Dominates x y := by
  refine ⟨reached (natConfig true) unlockedByAnother, _, _, reachable_reached (by decide), rfl, rfl,
    by decide, ?_⟩
  rintro ⟨-, c, hc, hle⟩
  cases hc
  exact absurd (hle 1) (by decide)

end Keys

end Interpreter

end Giri.Interp
