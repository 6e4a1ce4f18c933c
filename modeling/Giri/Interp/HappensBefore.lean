/-
Giri.Interp.HappensBefore — clocks order accesses only where the program
synchronizes.

The happens-before order is defined from the trace alone: what each entry IS,
not what it acquired (`SyncEdge`). Program order, go statements, the k-th
send and the k-th receive, hand-overs, closes, and releases of a primitive
before later acquires of THE SAME primitive.

`ClockInvariant.lean` has the same result for the entries that an operation
in fact acquired from. What is left is that those are entries `SyncEdge`
allows. For channels it follows from `ChanInv` and `SudogInv`. For primitives
(`SrcInv`) it is only so far as the ALLOCATION goes: if two primitives share
one, the clock released by one is acquired by the other
(`shared_allocation_orders`). With one primitive to an allocation
(`Unshared`) clocks are sound.
-/
import Giri.Interp.SyncTheorems

namespace Giri.Interp

open History

variable {V T : Type}

/-- The entry may acquire. -/
def Kind.acquires : Kind V T → Bool
  | .send _ _ | .recv _ _ | .claim _ _ _ | .wake _ _ | .recvClosed _ _ _ | .sync _ _ => true
  | _ => false

/-- A release `o` of a primitive is passed on by the acquire `op` of it.
Which pairs occur depends on the type: `Unlock` before `Lock` and `RLock`,
`RUnlock` before `Lock`, `Signal` or `Done` before `Wait`. -/
def SyncOp.passes (o op : SyncOp) : Prop :=
  (o.stores = true ∧ op.acquires = true) ∨ (o = .rUnlock ∧ op = .lock)

/-- The primitive that the operation is on. -/
def Op.prim : Op V T → Option Prim
  | .mutex rw a _ _ => some (a.prim (if rw then .rwMutex else .mutex))
  | .wgAdd a _ _ | .wgWait a => some (a.prim .waitGroup)
  | .condSignal a | .condWait a => some (a.prim .cond)
  | .errgroupGo a _ | .errgroupWait a => some (a.prim .errgroup)
  | _ => none

/-- The primitive that the step starts an operation on. -/
def Action.prim : Action V T → Option Prim
  | .start _ op => op.prim
  | _ => none

/-- An entry acquires from the entry whose clock it acquired. -/
theorem Acquired.eq_of_mem {i : Nat} {x y : Occ V T} (h : Acquired x y) (hi : i ∈ y.1.src) : i = x.2 := by
  rw [h.src, stampOf] at hi
  cases hp : x.1.pub with
  | none => rw [hp] at hi; cases hi
  | some => rw [hp] at hi; exact List.mem_singleton.mp hi

namespace Interpreter

/-! ## §1. What a primitive's clocks were released by -/

/-- The releases behind the clocks stored for primitives, and what the
entries acquired from. -/
structure SrcInv (s : Interpreter V T) : Prop where
  plain : ∀ e ∈ s.trace, e.kind.acquires = false → e.src = []
  last : ∀ k, ∀ n ∈ srcs (s.mutexes k).lastUnlockClock, ∃ e op p,
    s.trace[n]? = some e ∧ e.kind = .sync op p ∧ p.key = k ∧ op.stores = true
  rUnlock : ∀ k, ∀ n ∈ srcs (s.mutexes k).rUnlockClock, ∃ e p,
    s.trace[n]? = some e ∧ e.kind = .sync .rUnlock p ∧ p.key = k
  sync : ∀ (j : Nat) (e : Event V T) op p, s.trace[j]? = some e → e.kind = .sync op p →
    ∀ i ∈ e.src, ∃ a o q, s.trace[i]? = some a ∧ i < j ∧ a.kind = .sync o q ∧ q.key = p.key ∧
      o.passes op

section Src

variable {cfg : Config V T} {s t : Interpreter V T} {g : Gid} {e : Event V T}

/-- No entry, and the same clocks. -/
theorem SrcInv.same (hI : SrcInv s) (htr : t.trace = s.trace)
    (hlast : ∀ k, (t.mutexes k).lastUnlockClock = (s.mutexes k).lastUnlockClock)
    (hr : ∀ k, (t.mutexes k).rUnlockClock = (s.mutexes k).rUnlockClock) : SrcInv t where
  plain := by rw [htr]; exact hI.plain
  last k := by rw [hlast, htr]; exact hI.last k
  rUnlock k := by rw [hr, htr]; exact hI.rUnlock k
  sync := by rw [htr]; exact hI.sync

/-- One more entry. What is stored afterwards was stored before or is
released by the entry; what it acquires was stored before. -/
theorem SrcInv.entry (hI : SrcInv s) (htr : t.trace = s.trace ++ [e])
    (hlast : ∀ k, ∀ n ∈ srcs (t.mutexes k).lastUnlockClock,
      n ∈ srcs (s.mutexes k).lastUnlockClock ∨
        (n = s.trace.length ∧ ∃ op p, e.kind = .sync op p ∧ p.key = k ∧ op.stores = true))
    (hr : ∀ k, ∀ n ∈ srcs (t.mutexes k).rUnlockClock, n ∈ srcs (s.mutexes k).rUnlockClock ∨
      (n = s.trace.length ∧ ∃ p, e.kind = .sync .rUnlock p ∧ p.key = k))
    (hplain : e.kind.acquires = false → e.src = [])
    (hsync : ∀ op p, e.kind = .sync op p → ∀ i ∈ e.src,
      (op.acquires = true ∧ i ∈ srcs (s.mutexes p.key).lastUnlockClock) ∨
        (op = .lock ∧ i ∈ srcs (s.mutexes p.key).rUnlockClock)) : SrcInv t := by
  refine ⟨?_, fun k n hn => ?_, fun k n hn => ?_, fun j b op p hj hk i hi => ?_⟩
  · rw [htr]
    intro x hx
    rcases List.mem_append.mp hx with hx | hx
    · exact hI.plain x hx
    · rw [List.mem_singleton.mp hx]; exact hplain
  · rw [htr]
    rcases hlast k n hn with hold | ⟨rfl, op, p, hk, hrest⟩
    · obtain ⟨x, op, p, hx, hrest⟩ := hI.last k n hold
      exact ⟨x, op, p, getElem?_snoc hx, hrest⟩
    · exact ⟨e, op, p, getElem?_last, hk, hrest⟩
  · rw [htr]
    rcases hr k n hn with hold | ⟨rfl, p, hk, hrest⟩
    · obtain ⟨x, p, hx, hrest⟩ := hI.rUnlock k n hold
      exact ⟨x, p, getElem?_snoc hx, hrest⟩
    · exact ⟨e, p, getElem?_last, hk, hrest⟩
  · rw [htr] at hj ⊢
    rcases of_getElem?_snoc hj with hj | ⟨rfl, rfl⟩
    · obtain ⟨a, o, q, ha, hrest⟩ := hI.sync j b op p hj hk i hi
      exact ⟨a, o, q, getElem?_snoc ha, hrest⟩
    · rcases hsync op p hk i hi with ⟨hop, hmem⟩ | ⟨rfl, hmem⟩
      · obtain ⟨a, o, q, ha, hak, hq, ho⟩ := hI.last p.key i hmem
        exact ⟨a, o, q, getElem?_snoc ha, lt_of_getElem? ha, hak, hq, .inl ⟨ho, hop⟩⟩
      · obtain ⟨a, q, ha, hak, hq⟩ := hI.rUnlock p.key i hmem
        exact ⟨a, .rUnlock, q, getElem?_snoc ha, lt_of_getElem? ha, hak, hq, .inr ⟨rfl, rfl⟩⟩

/-- An entry that is not about a primitive. -/
theorem SrcInv.other (hI : SrcInv s) (htr : t.trace = s.trace ++ [e])
    (hm : t.mutexes = s.mutexes) (hk : ∀ op p, e.kind ≠ .sync op p)
    (hplain : e.kind.acquires = false → e.src = []) : SrcInv t :=
  hI.entry htr (fun k n hn => .inl (by rwa [hm] at hn)) (fun k n hn => .inl (by rwa [hm] at hn))
    hplain fun op p h => absurd h (hk op p)

theorem SrcInv.setSync (hI : SrcInv s) (p : Prim) (ms : MutexState)
    (hlast : ms.lastUnlockClock = (s.mutexes p.key).lastUnlockClock)
    (hr : ms.rUnlockClock = (s.mutexes p.key).rUnlockClock) : SrcInv (s.setSync p.key ms) := by
  refine hI.same rfl (fun k => ?_) fun k => ?_ <;> rw [setSync_mutexes] <;> by_cases hk : k = p.key
  · subst hk; rwa [Function.update_self]
  · rw [Function.update_of_ne hk]
  · subst hk; rwa [Function.update_self]
  · rw [Function.update_of_ne hk]

theorem SrcInv.syncAcquire (hI : SrcInv s) (op : SyncOp) (hop : op.acquires = true) (p : Prim)
    {rUnlock : Option Stamp}
    (hr : rUnlock = none ∨ (op = .lock ∧ rUnlock = (s.mutexes p.key).rUnlockClock)) :
    SrcInv (s.syncAcquire g op p (s.mutexes p.key).lastUnlockClock rUnlock) := by
  refine hI.entry rfl (fun _ _ h => .inl h) (fun _ _ h => .inl h) nofun ?_
  rintro o q hk i hi
  cases hk
  rcases List.mem_append.mp hi with hlast | hread
  · exact .inl ⟨hop, hlast⟩
  · rcases hr with rfl | ⟨rfl, rfl⟩
    · cases hread
    · exact .inr ⟨rfl, hread⟩

theorem SrcInv.syncRelease (hI : SrcInv s) {op : SyncOp} (p : Prim) {ms : MutexState}
    (hlast : ∀ n ∈ srcs ms.lastUnlockClock, n ∈ srcs (s.mutexes p.key).lastUnlockClock ∨
      (n = s.trace.length ∧ op.stores = true))
    (hr : ∀ n ∈ srcs ms.rUnlockClock, n ∈ srcs (s.mutexes p.key).rUnlockClock ∨
      (n = s.trace.length ∧ op = .rUnlock)) : SrcInv (s.syncRelease g op p ms) := by
  have hself : (s.syncRelease g op p ms).mutexes p.key = ms := Function.update_self ..
  have hother : ∀ k, k ≠ p.key → (s.syncRelease g op p ms).mutexes k = s.mutexes k :=
    fun k hk => Function.update_of_ne hk ..
  refine hI.entry rfl (fun k n hn => ?_) (fun k n hn => ?_) nofun fun o q hk i hi => ?_
  · by_cases hk : k = p.key
    · subst hk
      rw [hself] at hn
      exact (hlast n hn).imp_right fun h => ⟨h.1, op, p, rfl, rfl, h.2⟩
    · rw [hother k hk] at hn; exact .inl hn
  · by_cases hk : k = p.key
    · subst hk
      rw [hself] at hn
      exact (hr n hn).imp_right fun ⟨hlen, hop⟩ => ⟨hlen, p, hop ▸ rfl, rfl⟩
    · rw [hother k hk] at hn; exact .inl hn
  · cases hi

theorem mem_srcs_joinClock {o : Option Stamp} {n : Nat}
    (hn : n ∈ srcs (some (s.joinClock o g))) : n ∈ srcs o ∨ n = s.trace.length := by
  cases o with
  | none => exact .inr (List.mem_singleton.mp hn)
  | some =>
    rcases List.mem_append.mp hn with hn | hn
    · exact .inl hn
    · exact .inr (List.mem_singleton.mp hn)

theorem SrcInv.joinRelease (hI : SrcInv s) (p : Prim) : SrcInv (s.joinRelease g p) :=
  hI.syncRelease p (fun _ hn => (mem_srcs_joinClock hn).imp_right fun h => ⟨h, rfl⟩)
    fun _ hn => .inl hn

/-- **Every part keeps it.** -/
theorem SrcInv.micro (hI : SrcInv s) {o : Option Prim} (h : Micro cfg s o t) : SrcInv t := by
  cases h with
  | quiet h => exact hI.same h.trace (fun _ => by rw [h.mutexes]) fun _ => by rw [h.mutexes]
  | access | fork | parkOffer | offer | abandonOffer | withdraw | recvRefill | close =>
    exact hI.other rfl rfl nofun fun _ => rfl
  | makeChan | notify | exit | park | parkSelect | unpark =>
    exact hI.same rfl (fun _ => rfl) fun _ => rfl
  | @memberFork g p =>
    have hadd : SrcInv (s.addCounter p 1) := hI.setSync p _ rfl rfl
    exact hadd.other rfl rfl nofun fun _ => rfl
  | @memberExit g p =>
    have hexit : SrcInv (s.modify g fun r => { r with exited := true }) :=
      hI.same rfl (fun _ => rfl) fun _ => rfl
    exact (hexit.joinRelease p).setSync p _ rfl rfl
  | claimSend | claimRecv | wakeUp | bufferedSend | recvBuffered | recvClosed =>
    exact hI.other rfl rfl nofun nofun
  | @lock g p =>
    have hU := hI.setSync p { s.mutexes p.key with locked := true, lockGoroutine := g } rfl rfl
    have hkey : ((s.setSync p.key { s.mutexes p.key with locked := true, lockGoroutine := g
      }).mutexes p.key) = { s.mutexes p.key with locked := true, lockGoroutine := g } :=
      Function.update_self ..
    have hacq := hU.syncAcquire (g := g) .lock rfl p (.inr ⟨rfl, rfl⟩)
    rw [hkey] at hacq
    exact hacq
  | @rLock g p =>
    have hU := hI.setSync p { s.mutexes p.key with readers := (s.mutexes p.key).readers + 1 }
      rfl rfl
    have hkey : ((s.setSync p.key { s.mutexes p.key with readers := (s.mutexes p.key).readers + 1
      }).mutexes p.key) = { s.mutexes p.key with readers := (s.mutexes p.key).readers + 1 } :=
      Function.update_self ..
    have hacq := hU.syncAcquire (g := g) .rLock rfl p (.inl rfl)
    rw [hkey] at hacq
    exact hacq
  | @unlock _ p | @signal _ p =>
    exact hI.syncRelease p (fun n hn => .inr ⟨List.mem_singleton.mp hn, rfl⟩)
      fun _ hn => .inl hn
  | @rUnlock g p h =>
    exact hI.syncRelease p (fun _ hn => .inl hn)
      fun _ hn => (mem_srcs_joinClock hn).imp_right fun h => ⟨h, rfl⟩
  | condWait p | groupWait p => exact hI.syncAcquire _ rfl p (.inl rfl)
  | done p => exact hI.joinRelease p
  | addCounter p => exact hI.setSync p _ rfl rfl
  | refuse p =>
    have hadd : SrcInv (s.addCounter p 1) := hI.setSync p _ rfl rfl
    exact hadd.same rfl (fun _ => rfl) fun _ => rfl

theorem srcInv_init (cfg : Config V T) : SrcInv (init cfg) where
  plain _ h := by cases h
  last _ _ h := by cases h
  rUnlock _ _ h := by cases h
  sync _ _ _ _ h := by cases h

theorem srcInv (h : Reachable cfg s) : SrcInv s :=
  (h.invariant (srcInv_init cfg) fun _ _ _ _ hm hI => hI.micro hm).2

end Src

/-! ## §2. The order of the program -/

/-- Entry `i` of the trace is ordered before entry `j` by the program: they
are of one goroutine, or `j` synchronizes with `i`. -/
inductive SyncEdge (s : Interpreter V T) : Nat → Nat → Prop
  | program {i j : Nat} {a b : Event V T} (ha : s.trace[i]? = some a) (hb : s.trace[j]? = some b)
      (hlt : i < j) (hg : a.gid = b.gid) : SyncEdge s i j
  | fork {i j : Nat} {a b : Event V T} {group : Option Prim} (ha : s.trace[i]? = some a)
      (hb : s.trace[j]? = some b) (hlt : i < j) (hk : a.kind = .fork b.gid group) : SyncEdge s i j
  /-- The k-th send is before the k-th receive. -/
  | send {id : ChanID} {k : Nat} {x y : Occ V T} (hx : (chanOps s.trace .send id)[k]? = some x)
      (hy : (chanOps s.trace .recv id)[k]? = some y) : SyncEdge s x.2 y.2
  /-- The k-th receive is before the (k+C)-th send. -/
  | slot {id : ChanID} {ch : ChanEntry V} {k : Nat} {x y : Occ V T}
      (hch : s.channels id = some ch) (hy : (chanOps s.trace .recv id)[k]? = some y)
      (hx : (chanOps s.trace .send id)[k + ch.capacity]? = some x) : SyncEdge s y.2 x.2
  /-- A hand-over: the half that waits is queued before the other half. -/
  | offer {w : SudogRef} {o c : Occ V T} (ho : o ∈ sudogOps s.trace .offer w)
      (hc : c ∈ sudogOps s.trace .claim w) : SyncEdge s o.2 c.2
  /-- It returns after the other half. -/
  | claim {w : SudogRef} {c x : Occ V T} (hc : c ∈ sudogOps s.trace .claim w)
      (hx : x ∈ sudogOps s.trace .wake w) : SyncEdge s c.2 x.2
  | close {id : ChanID} {x y : Occ V T} (hx : x ∈ chanOps s.trace .close id)
      (hy : y ∈ chanOps s.trace .recvClosed id) : SyncEdge s x.2 y.2
  /-- A release of a primitive is before the later acquires of it. -/
  | sync {p : Prim} {o op : SyncOp} {x y : Occ V T} (hpass : o.passes op)
      (hx : x ∈ primOps s.trace o p) (hy : y ∈ primOps s.trace op p) (hlt : x.2 < y.2) :
      SyncEdge s x.2 y.2

/-- Happens-before: the transitive closure of program order and of the
synchronization that occurred. -/
def HappensBefore (s : Interpreter V T) : Nat → Nat → Prop := Relation.TransGen (SyncEdge s)

section Order

variable {cfg : Config V T} {s t : Interpreter V T} {g : Gid} {i j : Nat} {e : Event V T}

/-- The channel an entry is about exists. -/
theorem ChanInv.known_of_mem (hI : ChanInv cfg s) {op : ChanOp} {id : ChanID} {x : Occ V T}
    (hx : x ∈ chanOps s.trace op id) :
    ∃ ch, s.channels id = some ch ∧ ChanOK cfg s.trace id ch := by
  cases hch : s.channels id with
  | none => rw [hI.unknown id hch op] at hx; cases hx
  | some ch => exact ⟨ch, rfl, hI.known id ch hch⟩

theorem ChanInv.send_edge (hI : ChanInv cfg s) {id : ChanID}
    (hx : (e, j) ∈ chanOps s.trace .send id) (hi : i ∈ e.src) : SyncEdge s i j := by
  obtain ⟨ch, hch, hbuf, -⟩ := hI.known_of_mem hx
  obtain ⟨k, hk⟩ := List.mem_iff_getElem?.mp hx
  by_cases hlt : k < ch.capacity
  · have hnil : e.src = [] := hbuf.first k _ hk hlt
    rw [hnil] at hi; cases hi
  · obtain ⟨n, rfl⟩ := Nat.exists_eq_add_of_le' (Nat.le_of_not_lt hlt)
    have hn : n < (chanOps s.trace .recv id).length := by
      have hlen := lt_of_getElem? hk
      have hcount := hbuf.count
      have hroom := hbuf.room
      omega
    have hy := List.getElem?_eq_getElem hn
    rw [(hbuf.send_after n _ _ hy hk).eq_of_mem hi]
    exact .slot hch hy hk

theorem ChanInv.recv_edge (hI : ChanInv cfg s) {id : ChanID}
    (hy : (e, j) ∈ chanOps s.trace .recv id) (hi : i ∈ e.src) : SyncEdge s i j := by
  obtain ⟨ch, -, hbuf, -⟩ := hI.known_of_mem hy
  obtain ⟨k, hk⟩ := List.mem_iff_getElem?.mp hy
  have hlt : k < (chanOps s.trace .send id).length := by
    have hlen := lt_of_getElem? hk
    have hcount := hbuf.count
    omega
  have hx := List.getElem?_eq_getElem hlt
  rw [(hbuf.recv_after k _ _ hx hk).eq_of_mem hi]
  exact .send hx hk

theorem ChanInv.close_edge (hI : ChanInv cfg s) {id : ChanID}
    (hy : (e, j) ∈ chanOps s.trace .recvClosed id) (hi : i ∈ e.src) : SyncEdge s i j := by
  obtain ⟨ch, -, -, hclose, -⟩ := hI.known_of_mem hy
  obtain ⟨⟨x, hx, hacq⟩, -⟩ := hclose.recvClosed _ hy
  rw [hacq.eq_of_mem hi]
  exact .close hx hy

theorem SudogInv.claim_edge (hI : SudogInv cfg s) {w : SudogRef}
    (hc : (e, j) ∈ sudogOps s.trace .claim w) (hi : i ∈ e.src) : SyncEdge s i j := by
  obtain ⟨o, id, onSend, v, ho, hl⟩ := hI.table.known w (hI.lt_of_ops (List.ne_nil_of_mem hc))
  rcases hl.claim with ⟨hnone, -⟩ | ⟨c, hcl⟩
  · rw [hnone] at hc; cases hc
  · obtain rfl : (e, j) = c := by rw [hcl.only] at hc; exact List.mem_singleton.mp hc
    rw [hcl.acquired.eq_of_mem hi]
    exact .offer (by rw [ho.only]; exact List.mem_singleton_self o) hc

theorem SudogInv.wake_edge (hI : SudogInv cfg s) {w : SudogRef}
    (hx : (e, j) ∈ sudogOps s.trace .wake w) (hi : i ∈ e.src) : SyncEdge s i j := by
  obtain ⟨c, hc, hacq⟩ := hI.claimed_of_wake hx
  rw [hacq.eq_of_mem hi]
  exact .claim (by rw [hc]; exact List.mem_singleton_self c) hx

theorem mem_primOps {tr : List (Event V T)} {op : SyncOp} {p : Prim} (hj : tr[j]? = some e)
    (hk : e.kind = .sync op p) : (e, j) ∈ primOps tr op p := by
  refine List.mem_filter.mpr ⟨mem_keyed.mpr ⟨hj, ?_⟩, ?_⟩
  · simp only [Event.onKey, hk]
  · simp only [hk, Kind.prim, BEq.rfl]

/-! ## §3. One primitive to an allocation -/

/-- No two primitives of `U` have their state in the same place. -/
def Unshared (U : Prim → Prop) : Prop := ∀ p q, U p → U q → p.key = q.key → p = q

end Order

/-- A step that starts no operation on a primitive outside `U`. -/
def UsingStep (cfg : Config V T) (U : Prim → Prop) (s : Interpreter V T) (a : Action V T)
    (t : Interpreter V T) : Prop := Step cfg s a t ∧ ∀ p, a.prim = some p → U p

/-- All primitives that the state knows of are in `U`. -/
structure UsedInv (U : Prim → Prop) (s : Interpreter V T) : Prop where
  trace : ∀ e ∈ s.trace, ∀ p, e.kind.prim = some p → U p
  group : ∀ g p, (s.goroutines g).group = some p → U p
  wait : ∀ g p, (s.goroutines g).wait = some (.group p) → U p

section Used

variable {cfg : Config V T} {s t : Interpreter V T} {g : Gid} {i j : Nat} {e : Event V T}
  {U : Prim → Prop} {a : Action V T}

/-- **Every step keeps it**: the primitive it is about is named by the
operation, or is known. -/
theorem UsedInv.step (hI : UsedInv U s) (hB : Base s) (h : UsingStep cfg U s a t) :
    UsedInv U t := by
  obtain ⟨hstep, hU⟩ := h
  have ht := touches_step hB hstep
  have hp : ∀ p, primOf s a = some p → U p := by
    intro p hp
    cases a with
    | start g op =>
      cases op with
      | exit => exact hI.group g p hp
      | _ => exact hU p hp
    | resume g =>
      simp only [primOf] at hp
      split at hp
      · rename_i q hw
        cases hp
        exact hI.wait g p hw
      · cases hp
    | _ => cases hp
  refine ⟨fun e he q hq => ?_, fun g q hq => ?_, fun g q hq => ?_⟩
  · obtain ⟨es, htr, hes⟩ := ht.trace
    rw [htr] at he
    rcases List.mem_append.mp he with he | he
    · exact hI.trace e he q hq
    · rcases hes e he with hnone | hsome
      · cases hnone.symm.trans hq
      · exact hp q (hsome.symm.trans hq)
  · exact (ht.group g q hq).elim (hI.group g q) (hp q)
  · exact (ht.wait g q hq).elim (hI.wait g q) (hp q)

theorem usedInv_init (cfg : Config V T) : UsedInv U (init cfg) where
  trace _ h := by cases h
  group _ _ h := by cases h
  wait _ _ h := by cases h

theorem SrcInv.sync_edge (hI : SrcInv s) (hused : UsedInv U s) (hU : Unshared U) {op : SyncOp}
    {p : Prim} (hj : s.trace[j]? = some e) (hk : e.kind = .sync op p) (hi : i ∈ e.src) :
    SyncEdge s i j := by
  obtain ⟨a, o, q, ha, hlt, hak, hkey, hpass⟩ := hI.sync j e op p hj hk i hi
  -- the release was on a primitive with the same key: it is the same primitive
  obtain rfl : q = p := hU q p (hused.trace a (List.mem_of_getElem? ha) q (by rw [hak]; rfl))
    (hused.trace e (List.mem_of_getElem? hj) p (by rw [hk]; rfl)) hkey
  exact .sync (x := (a, i)) (y := (e, j)) hpass (mem_primOps ha hak) (mem_primOps hj hk) hlt

/-- **What an entry acquired from is before it in the order of the
program.** -/
theorem syncEdge_of_src (hs : Reachable cfg s) (hused : UsedInv U s) (hU : Unshared U)
    (hj : s.trace[j]? = some e) (hi : i ∈ e.src) : SyncEdge s i j := by
  have hchan := chanInv hs
  have hsudog := sudogInv hs
  have hsrc := srcInv hs
  by_cases hacq : e.kind.acquires = true
  · unfold Kind.acquires at hacq
    split at hacq
    case h_1 id v hk =>
      have hmem : (e, j) ∈ chanOps s.trace .send id :=
        mem_keyed.mpr ⟨hj, by simp only [Event.onChan, hk, Kind.onChan]⟩
      exact hchan.send_edge hmem hi
    case h_2 id v hk =>
      have hmem : (e, j) ∈ chanOps s.trace .recv id :=
        mem_keyed.mpr ⟨hj, by simp only [Event.onChan, hk, Kind.onChan]⟩
      exact hchan.recv_edge hmem hi
    case h_3 w id v hk =>
      have hmem : (e, j) ∈ sudogOps s.trace .claim w :=
        mem_keyed.mpr ⟨hj, by simp only [Event.onSudog, hk]⟩
      exact hsudog.claim_edge hmem hi
    case h_4 w v hk =>
      have hmem : (e, j) ∈ sudogOps s.trace .wake w :=
        mem_keyed.mpr ⟨hj, by simp only [Event.onSudog, hk]⟩
      exact hsudog.wake_edge hmem hi
    case h_5 id elem v hk =>
      have hmem : (e, j) ∈ chanOps s.trace .recvClosed id :=
        mem_keyed.mpr ⟨hj, by simp only [Event.onChan, hk, Kind.onChan]⟩
      exact hchan.close_edge hmem hi
    case h_6 op p hk => exact hsrc.sync_edge hused hU hj hk hi
    case h_7 => cases hacq
  · rw [hsrc.plain e (List.mem_of_getElem? hj) (by simpa using hacq)] at hi
    cases hi

theorem syncEdge_of_edge (hs : Reachable cfg s) (hused : UsedInv U s) (hU : Unshared U)
    (h : Causal.Edge (s.trace.map Event.entry) i j) : SyncEdge s i j := by
  obtain ⟨a, b, ha, hb, hlt, hor⟩ := h
  rw [List.getElem?_map, Option.map_eq_some_iff] at ha hb
  obtain ⟨a, ha, rfl⟩ := ha
  obtain ⟨b, hb, rfl⟩ := hb
  rcases hor with hg | hf | hsrc
  · exact .program ha hb hlt hg
  · obtain ⟨group, hk⟩ : ∃ group, a.kind = .fork b.gid group := by
      simp only [Event.entry, Kind.forks] at hf
      split at hf
      · rename_i child group hk
        cases hf; exact ⟨group, hk⟩
      · cases hf
    exact .fork ha hb hlt hk
  · exact syncEdge_of_src hs hused hU hb hsrc

/-! ## §4. Soundness -/

/-- **Clocks are sound**, in every run that does not use two primitives in
one allocation: nobody has caught up with a goroutine's own component, and
of two accesses of different goroutines one has a smaller clock only if it
happens before the other. -/
theorem clock_sound (hU : Unshared U) {acts : List (Action V T)}
    (hrun : Transition.Run (UsingStep cfg U) (init cfg) acts s) :
    (∀ g h : Gid, g ≠ h → (s.clockOf h).get g < (s.clockOf g).get g) ∧
    (∀ st, Stored s st → ∀ g, st.clock.get g < (s.clockOf g).get g) ∧
    ∀ (i j : Nat) (a b : Event V T), s.trace[i]? = some a → s.trace[j]? = some b →
      a.kind = .access → b.kind = .access → a.gid ≠ b.gid → a.after.get ≤ b.after.get →
      HappensBefore s i j := by
  have hs : Reachable cfg s := ⟨acts, hrun.mono fun _ _ _ h => h.1⟩
  obtain ⟨-, hused⟩ := hrun.invariant (P := fun s => Base s ∧ UsedInv U s)
    (fun _ _ _ h hI => ⟨hI.1.step h.1, hI.2.step hI.1 h⟩) ⟨base_init cfg, usedInv_init cfg⟩
  have hI := clockInv hs
  refine ⟨hI.own_lt, fun st hst => hI.stored_lt _ ⟨st, hst, rfl⟩, ?_⟩
  intro i j a b ha hb hka hkb hne hle
  have hacc : ∀ {n : Nat} {x : Event V T}, s.trace[n]? = some x → x.kind = .access →
      Causal.Access (s.trace.map Event.entry) n x.gid x.after.get := by
    intro n x hx hk
    refine ⟨x.entry, by rw [List.getElem?_map, hx]; rfl, rfl, ?_⟩
    simp only [Event.entry, hk, Kind.isAccess, if_true]
  have hhb := hI.ordered i a.gid _ j b.gid _ (hacc ha hka) (hacc hb hkb) hne (hle a.gid)
  exact Relation.TransGen.mono (fun _ _ => syncEdge_of_edge hs hused hU) _ _ hhb

/-- main writes and unlocks a mutex; a goroutine locks `b` and reads. -/
def readAfterLock (b : Addr) : List (Action Nat Unit) :=
  [.start 1 (.go ""), .start 1 .access, .start 1 (.mutex false ⟨1, 0⟩ .lock ""),
    .start 1 (.mutex false ⟨1, 0⟩ .unlock ""), .start 2 (.mutex false b .lock ""),
    .start 2 .access]

/-- The goroutine locks the same mutex. -/
theorem clock_sound_same_mutex : ∃ s : Interpreter Nat Unit,
    (s.trace.map (·.gid))[1]? = some 1 ∧ (s.trace.map (·.gid))[5]? = some 2 ∧
      HappensBefore s 1 5 := by
  have hU : Unshared fun p => p = ⟨1, 0, .mutex⟩ := by rintro p q rfl rfl _; rfl
  have hrun : Transition.Run (UsingStep (natConfig true) fun p => p = ⟨1, 0, .mutex⟩)
      (init (natConfig true)) (readAfterLock ⟨1, 0⟩)
      (reached (natConfig true) (readAfterLock ⟨1, 0⟩)) :=
    Transition.run_of_guarded (exec_reached (by decide))
      ⟨nofun, nofun, by rintro p ⟨⟩; rfl, by rintro p ⟨⟩; rfl, by rintro p ⟨⟩; rfl, nofun, trivial⟩
  refine ⟨_, rfl, rfl, (clock_sound hU hrun).2.2 1 5 _ _ rfl rfl rfl rfl (by decide) ?_⟩
  exact VectorClock.Clock.leEntries_iff.mp (by decide)

/-- The goroutine locks another mutex, in the same allocation. -/
def otherMutex : Interpreter Nat Unit := reached (natConfig true) (readAfterLock ⟨1, 8⟩)

/-- With another mutex nothing leads from main to the goroutine, once it has
been started. -/
theorem readAfterLock_edge {n m : Nat} {e : Event Nat Unit} (hn : 1 ≤ n)
    (he : otherMutex.trace[n]? = some e) (hg : e.gid = 1) (h : SyncEdge otherMutex n m) :
    1 ≤ m ∧ ∃ b, otherMutex.trace[m]? = some b ∧ b.gid = 1 := by
  have hchan : ∀ e ∈ otherMutex.trace, e.onChan = none ∧ e.onSudog = none := by decide
  -- main operates on the first mutex only, and nobody else does
  have hmain : ∀ e ∈ otherMutex.trace, e.gid = 1 →
      e.kind.prim = none ∨ e.kind.prim = some ⟨1, 0, .mutex⟩ := by decide
  have hfirst : ∀ e ∈ otherMutex.trace, e.kind.prim = some ⟨1, 0, .mutex⟩ → e.gid = 1 := by
    decide
  have hfork : ∀ e ∈ otherMutex.trace.drop 1, e.kind.forks = none := by decide
  have hnone : ∀ {op : ChanOp} {id : ChanID} {x : Occ Nat Unit},
      x ∈ chanOps otherMutex.trace op id → False := by
    intro op id x hx
    obtain ⟨hget, hon⟩ := mem_keyed.mp hx
    rw [(hchan _ (List.mem_of_getElem? hget)).1] at hon
    cases hon
  have hnone' : ∀ {op : SudogOp} {w : SudogRef} {x : Occ Nat Unit},
      x ∈ sudogOps otherMutex.trace op w → False := by
    intro op w x hx
    obtain ⟨hget, hon⟩ := mem_keyed.mp hx
    rw [(hchan _ (List.mem_of_getElem? hget)).2] at hon
    cases hon
  cases h with
  | @program _ _ a b ha hb hlt hab =>
    cases ha.symm.trans he
    exact ⟨hn.trans hlt.le, b, hb, hab.symm.trans hg⟩
  | @fork _ _ a b group ha hb hlt hk =>
    obtain ⟨k, rfl⟩ := Nat.exists_eq_add_of_le hn
    have hdrop := hfork a (List.mem_of_getElem? (i := k) (by rw [List.getElem?_drop]; exact ha))
    rw [hk] at hdrop
    cases hdrop
  | send hx | slot _ hx => exact (hnone (List.mem_of_getElem? hx)).elim
  | offer ho | claim ho => exact (hnone' ho).elim
  | close hx => exact (hnone hx).elim
  | @sync p o op x y _ hx hy hlt =>
    obtain ⟨hxm, hxp⟩ := List.mem_filter.mp hx
    obtain ⟨hym, hyp⟩ := List.mem_filter.mp hy
    have hxget := (mem_keyed.mp hxm).1
    have hyget := (mem_keyed.mp hym).1
    cases hxget.symm.trans he
    rcases hmain _ (List.mem_of_getElem? he) hg with hp | hp
    · rw [hp] at hxp; cases hxp
    · rw [hp, beq_iff_eq] at hxp
      cases hxp
      refine ⟨hn.trans hlt.le, y.1, hyget, ?_⟩
      exact hfirst _ (List.mem_of_getElem? hyget) (beq_iff_eq.mp hyp)

/-- **Another mutex in the same allocation orders them too**: the clocks say
that the write is before the read, the program does not. -/
theorem shared_allocation_orders : ∃ (s : Interpreter Nat Unit) (a b : Event Nat Unit),
    Reachable (natConfig true) s ∧ s.trace[1]? = some a ∧ s.trace[5]? = some b ∧
      a.kind = .access ∧ b.kind = .access ∧ a.gid ≠ b.gid ∧ a.after.get ≤ b.after.get ∧
      ¬ HappensBefore s 1 5 := by
  refine ⟨otherMutex, _, _, reachable_reached (by decide),
    rfl, rfl, rfl, rfl, by decide, ?_, ?_⟩
  · exact VectorClock.Clock.leEntries_iff.mp (by decide)
  · intro hhb
    -- by induction on the path, it stays in main
    have hpath : ∀ {m}, HappensBefore otherMutex 1 m →
        1 ≤ m ∧ ∃ b, otherMutex.trace[m]? = some b ∧ b.gid = 1 := by
      intro m h
      induction h with
      | single h => exact readAfterLock_edge (le_refl 1) rfl rfl h
      | tail _ h ih =>
        obtain ⟨hle, b, hb, hg⟩ := ih
        exact readAfterLock_edge hle hb hg h
    obtain ⟨-, b, hb, hg⟩ := hpath hhb
    cases hb
    exact absurd hg (by decide)

end Used

end Interpreter

end Giri.Interp
