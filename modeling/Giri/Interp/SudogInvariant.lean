/-
Giri.Interp.SudogInvariant — the life of a waiting operation.

A sudog is offered once. Then a counterpart may claim it, once; the waiting
goroutine may wake with what the claim gave it, once; or the operation is
abandoned. `Life` says where one sudog is, from the trace, and that each
stage took its value and its clock from the stage before.

What makes this hold is spread over several queues: an offer stays in the
queue of its channel after it has become stale, and all offers of a select
become stale together. `SudogInv` ties the flags the interpreter looks at
(`done`, `fired`) to the trace, and every live offer in the queue of an open
channel to a goroutine that waits for it (`queued`). A goroutine that runs
waits for nothing, so it never claims an offer of its own.
-/
import Giri.Interp.ChanInvariant

namespace Giri.Interp

open History
open Function (update_self update_of_ne)

variable {V T : Type}

/-! ## §1. Waiting operations, in the trace -/

/-- What an entry of the trace does to a sudog. -/
inductive SudogOp where
  | offer
  | claim
  | wake
  | abandon
  deriving DecidableEq, Repr

/-- The sudog an entry of the trace is about. -/
def Event.onSudog (e : Event V T) : Option (SudogOp × SudogRef) :=
  match e.kind with
  | .offer w _ _ _ _ => some (.offer, w)
  | .claim w _ _ => some (.claim, w)
  | .wake w _ => some (.wake, w)
  | .abandon w => some (.abandon, w)
  | _ => none

/-- The select an entry of the trace withdraws. -/
def Event.onSel (e : Event V T) : Option SelRef :=
  match e.kind with
  | .withdraw sw => some sw
  | _ => none

/-- The operations of one kind on a sudog, in order. -/
def sudogOps (tr : List (Event V T)) (op : SudogOp) (w : SudogRef) : List (Occ V T) :=
  keyed Event.onSudog (op, w) tr

/-- Where the select was withdrawn. -/
def withdraws (tr : List (Event V T)) (sw : SelRef) : List (Occ V T) :=
  keyed Event.onSel sw tr

section Ops

variable {tr : List (Event V T)} {e : Event V T} {op o : SudogOp} {w x : SudogRef}

theorem sudogOps_snoc (h : e.onSudog = some (op, w)) :
    sudogOps (tr ++ [e]) op w = sudogOps tr op w ++ [(e, tr.length)] :=
  keyed_snoc h

theorem sudogOps_snoc_none (h : e.onSudog = none) :
    sudogOps (tr ++ [e]) op w = sudogOps tr op w :=
  keyed_snoc_none h

/-- An operation of another kind, or on another sudog. -/
theorem sudogOps_snoc_other (h : e.onSudog = some (op, w)) (hne : o ≠ op ∨ x ≠ w) :
    sudogOps (tr ++ [e]) o x = sudogOps tr o x := by
  refine keyed_snoc_other h fun heq => ?_
  obtain ⟨ho, hx⟩ := Prod.mk.inj heq
  exact hne.elim (fun hne => hne ho) fun hne => hne hx

theorem withdraws_snoc_none {sw : SelRef} (h : e.onSel = none) :
    withdraws (tr ++ [e]) sw = withdraws tr sw :=
  keyed_snoc_none h

end Ops

/-! ## §2. One sudog -/

/-- The sudog `w` was queued by entry `o`, for a send or a receive on
channel `id`, with the value `v`. -/
structure Offered (cfg : Config V T) (tr : List (Event V T)) (w : SudogRef) (sg : Sudog V)
    (o : Occ V T) (id : ChanID) (onSend : Bool) (v : V) : Prop where
  only : sudogOps tr .offer w = [o]
  kind : o.1.kind = .offer w id onSend v sg.sel
  gid : o.1.gid = sg.gid
  clock : sg.clock = stampOf o
  tracked : o.1.pub.isSome = cfg.trackRaces

/-- Entry `c` completed the operation offered by `o`. -/
structure ClaimedBy (cfg : Config V T) (tr : List (Event V T)) (w : SudogRef) (sg : Sudog V)
    (o : Occ V T) (id : ChanID) (onSend : Bool) (v : V) (c : Occ V T) : Prop where
  only : sudogOps tr .claim w = [c]
  kind : c.1.kind = .claim w id sg.val
  value : onSend = true → sg.val = v
  acquired : Acquired o c
  other : c.1.gid ≠ sg.gid
  peer : sg.peer = stampOf c
  tracked : c.1.pub.isSome = cfg.trackRaces
  done : sg.done = true

/-- Where the sudog is in its life. -/
structure Life (cfg : Config V T) (tr : List (Event V T)) (w : SudogRef) (sg : Sudog V)
    (o : Occ V T) (id : ChanID) (onSend : Bool) (v : V) : Prop where
  claim : (sudogOps tr .claim w = [] ∧ sg.val = v) ∨ ∃ c, ClaimedBy cfg tr w sg o id onSend v c
  wake : sudogOps tr .wake w = [] ∨ ∃ c x, sudogOps tr .claim w = [c] ∧
    sudogOps tr .wake w = [x] ∧ Acquired c x ∧ x.1.gid = sg.gid ∧ x.1.kind = .wake w sg.val
  done : sg.done = true → sudogOps tr .claim w ≠ [] ∨ sudogOps tr .abandon w ≠ []
  abandoned : ∀ a ∈ sudogOps tr .abandon w, sg.done = true ∧
    ∀ c ∈ sudogOps tr .claim w, c.2 < a.2

/-- The sudog `w` agrees with the trace. -/
def SudogOK (cfg : Config V T) (tr : List (Event V T)) (w : SudogRef) (sg : Sudog V) : Prop :=
  ∃ o id onSend v, Offered cfg tr w sg o id onSend v ∧ Life cfg tr w sg o id onSend v

variable {id : ChanID} {onSend : Bool} {e : Event V T}

section Life

variable {cfg : Config V T} {tr tr' : List (Event V T)} {w : SudogRef} {sg : Sudog V}

theorem SudogOK.congr (h : SudogOK cfg tr w sg)
    (hops : ∀ op, sudogOps tr' op w = sudogOps tr op w) : SudogOK cfg tr' w sg := by
  obtain ⟨o, id, onSend, v, ho, hl⟩ := h
  refine ⟨o, id, onSend, v, { ho with only := (hops _).trans ho.only }, ?_, ?_, ?_, ?_⟩
  · rw [hops]
    refine hl.claim.imp_right ?_
    rintro ⟨c, hc⟩
    exact ⟨c, { hc with only := (hops _).trans hc.only }⟩
  · rw [hops, hops]; exact hl.wake
  · rw [hops, hops]; exact hl.done
  · rw [hops, hops]; exact hl.abandoned

/-- A sudog that is not done has neither been claimed nor abandoned, and has
the value it was offered with. -/
theorem Life.of_not_done {o : Occ V T} {v : V} (h : Life cfg tr w sg o id onSend v)
    (hd : sg.done = false) :
    sudogOps tr .claim w = [] ∧ sg.val = v ∧ sudogOps tr .wake w = [] ∧
      sudogOps tr .abandon w = [] := by
  have hab : sudogOps tr .abandon w = [] := by
    refine List.eq_nil_iff_forall_not_mem.mpr fun a ha => ?_
    rw [(h.abandoned a ha).1] at hd
    cases hd
  rcases h.claim with ⟨hc, hv⟩ | ⟨c, hc⟩
  · refine ⟨hc, hv, ?_, hab⟩
    rcases h.wake with hw | ⟨c, x, hc', -⟩
    · exact hw
    · rw [hc] at hc'; cases hc'
  · rw [hc.done] at hd; cases hd

/-- A sudog has just been queued. -/
theorem SudogOK.offer {v : V} (hfresh : ∀ op, sudogOps tr op w = [])
    (hkind : e.kind = .offer w id onSend v sg.sel) (hgid : e.gid = sg.gid)
    (hclock : sg.clock = stampOf (e, tr.length)) (htracked : e.pub.isSome = cfg.trackRaces)
    (hval : sg.val = v) (hdone : sg.done = false) :
    SudogOK cfg (tr ++ [e]) w sg := by
  have hon : e.onSudog = some (.offer, w) := by rw [Event.onSudog, hkind]
  have hother : ∀ op, op ≠ .offer → sudogOps (tr ++ [e]) op w = [] := fun op hop =>
    (sudogOps_snoc_other hon (.inl hop)).trans (hfresh op)
  refine ⟨(e, tr.length), id, onSend, v, ⟨?_, hkind, hgid, hclock, htracked⟩, ?_⟩
  · rw [sudogOps_snoc hon, hfresh]; rfl
  · refine ⟨.inl ⟨hother _ (by decide), hval⟩, .inl (hother _ (by decide)), fun hd => ?_, ?_⟩
    · rw [hdone] at hd; cases hd
    · rw [hother _ (by decide)]; intro a ha; cases ha

/-- A live sudog is claimed. `sg'` is the sudog afterwards. -/
theorem SudogOK.claim {sg' : Sudog V} {id' : ChanID} {onSend' : Bool} (h : SudogOK cfg tr w sg)
    (hd : sg.done = false)
    (hoffer : ∃ v o, sudogOps tr .offer w = [o] ∧ o.1.kind = .offer w id' onSend' v sg.sel)
    (hkind : e.kind = .claim w id' sg'.val) (hval : onSend' = true → sg'.val = sg.val)
    (hacq : ∀ o : Occ V T, o ∈ sudogOps tr .offer w → sg.clock = stampOf o → Acquired o (e, tr.length))
    (hother : e.gid ≠ sg.gid) (hpeer : sg'.peer = stampOf (e, tr.length))
    (htracked : e.pub.isSome = cfg.trackRaces) (hdone : sg'.done = true) (hgid : sg'.gid = sg.gid)
    (hclock : sg'.clock = sg.clock) (hsel : sg'.sel = sg.sel) :
    SudogOK cfg (tr ++ [e]) w sg' := by
  obtain ⟨o, id, onSend, v, ho, hl⟩ := h
  obtain ⟨hcl, hv, hwk, hab⟩ := hl.of_not_done hd
  -- the queue it was taken from is the one it was offered on
  obtain ⟨v', o', hone, hk'⟩ := hoffer
  obtain rfl : o = o' := List.singleton_inj.mp (ho.only.symm.trans hone)
  have hke := ho.kind.symm.trans hk'
  simp only [Kind.offer.injEq, true_and, and_true] at hke
  obtain ⟨rfl, rfl, rfl⟩ := hke
  have hon : e.onSudog = some (.claim, w) := by rw [Event.onSudog, hkind]
  have hsame : ∀ op, op ≠ .claim → sudogOps (tr ++ [e]) op w = sudogOps tr op w := fun op hop =>
    sudogOps_snoc_other hon (.inl hop)
  have hclaim : sudogOps (tr ++ [e]) .claim w = [(e, tr.length)] := by
    rw [sudogOps_snoc hon, hcl]; rfl
  refine ⟨o, id, onSend, v, ⟨(hsame _ (by decide)).trans ho.only, by rw [hsel]; exact ho.kind,
    by rw [hgid]; exact ho.gid, by rw [hclock]; exact ho.clock, ho.tracked⟩, ?_⟩
  have hmem : o ∈ sudogOps tr .offer w := by rw [ho.only]; exact List.mem_singleton_self o
  refine ⟨.inr ⟨(e, tr.length), hclaim, hkind, fun hs => (hval hs).trans hv,
    hacq o hmem ho.clock, by rw [hgid]; exact hother, hpeer, htracked, hdone⟩, ?_, ?_, ?_⟩
  · exact .inl ((hsame _ (by decide)).trans hwk)
  · exact fun _ => .inl (by rw [hclaim]; exact List.cons_ne_nil _ _)
  · rw [hsame _ (by decide), hab]; intro a ha; cases ha

/-- The goroutine that waits for a claimed sudog wakes. -/
theorem SudogOK.wake (h : SudogOK cfg tr w sg) (hclaimed : sudogOps tr .claim w ≠ [])
    (hnot : sudogOps tr .wake w = []) (hkind : e.kind = .wake w sg.val) (hgid : e.gid = sg.gid)
    (hacq : ∀ c : Occ V T, c ∈ sudogOps tr .claim w → sg.peer = stampOf c → Acquired c (e, tr.length)) :
    SudogOK cfg (tr ++ [e]) w sg := by
  obtain ⟨o, id, onSend, v, ho, hl⟩ := h
  have hon : e.onSudog = some (.wake, w) := by rw [Event.onSudog, hkind]
  have hsame : ∀ op, op ≠ .wake → sudogOps (tr ++ [e]) op w = sudogOps tr op w := fun op hop =>
    sudogOps_snoc_other hon (.inl hop)
  obtain ⟨c, hc⟩ : ∃ c, ClaimedBy cfg tr w sg o id onSend v c := by
    rcases hl.claim with ⟨hnil, -⟩ | hc
    · exact absurd hnil hclaimed
    · exact hc
  have hcl : sudogOps (tr ++ [e]) .claim w = [c] := (hsame _ (by decide)).trans hc.only
  have hmem : c ∈ sudogOps tr .claim w := by rw [hc.only]; exact List.mem_singleton_self c
  refine ⟨o, id, onSend, v, { ho with only := (hsame _ (by decide)).trans ho.only },
    .inr ⟨c, { hc with only := hcl }⟩,
    .inr ⟨c, (e, tr.length), hcl, ?_, hacq c hmem hc.peer, hgid, hkind⟩, ?_, ?_⟩
  · rw [sudogOps_snoc hon, hnot]; rfl
  · exact fun _ => .inl (by rw [hcl]; exact List.cons_ne_nil _ _)
  · rw [hsame _ (by decide), hsame _ (by decide)]; exact hl.abandoned

/-- A plain operation is aborted. -/
theorem SudogOK.abandon (h : SudogOK cfg tr w sg) (hkind : e.kind = .abandon w) :
    SudogOK cfg (tr ++ [e]) w { sg with done := true } := by
  obtain ⟨o, id, onSend, v, ho, hl⟩ := h
  have hon : e.onSudog = some (.abandon, w) := by rw [Event.onSudog, hkind]
  have hsame : ∀ op, op ≠ .abandon → sudogOps (tr ++ [e]) op w = sudogOps tr op w :=
    fun op hop => sudogOps_snoc_other hon (.inl hop)
  refine ⟨o, id, onSend, v, { ho with only := (hsame _ (by decide)).trans ho.only }, ?_, ?_, ?_, ?_⟩
  · rw [hsame _ (by decide)]
    refine hl.claim.imp_right ?_
    rintro ⟨c, hc⟩
    exact ⟨c, { hc with only := (hsame _ (by decide)).trans hc.only, done := rfl }⟩
  · rw [hsame _ (by decide), hsame _ (by decide)]; exact hl.wake
  · intro _
    refine .inr ?_
    rw [sudogOps_snoc hon]
    exact List.append_ne_nil_of_right_ne_nil _ (List.cons_ne_nil _ _)
  · intro a ha
    refine ⟨rfl, fun c hc => ?_⟩
    rw [hsame _ (by decide)] at hc
    rw [sudogOps_snoc hon] at ha
    rcases List.mem_append.mp ha with ha | ha
    · exact (hl.abandoned a ha).2 c hc
    · rw [List.mem_singleton.mp ha]
      exact lt_of_mem_keyed hc

end Life

namespace Interpreter

/-! ## §3. Queues and waits -/

/-- The sudog was queued on channel `id`, with the value `v`. -/
def OfferedWith (s : Interpreter V T) (w : SudogRef) (id : ChanID) (onSend : Bool) (v : V) :
    Prop :=
  ∃ o, sudogOps s.trace .offer w = [o] ∧ o.1.kind = .offer w id onSend v (s.sudogs w).sel

/-- The sudog was queued on channel `id`. -/
def OfferedOn (s : Interpreter V T) (w : SudogRef) (id : ChanID) (onSend : Bool) : Prop :=
  ∃ v, OfferedWith s w id onSend v

/-- The sudog is in a queue of an open channel. -/
def Queued (s : Interpreter V T) (id : ChanID) (onSend : Bool) (w : SudogRef) : Prop :=
  ∃ ch, s.channels id = some ch ∧ ch.closed = false ∧ w ∈ if onSend then ch.sendq else ch.recvq

/-- The wait is for `w`, perhaps among others. -/
def Holds (s : Interpreter V T) (w : SudogRef) : Wait V T → Prop
  | .send _ w' _ => w' = w
  | .recv _ w' _ => w' = w
  | .select _ sw _ => (s.sudogs w).sel = some sw
  | _ => False

/-- Some goroutine waits for `w`. -/
def Held (s : Interpreter V T) (w : SudogRef) : Prop := ∃ g wt, Waiting s g wt ∧ Holds s w wt

/-- `w` is the sudog of a plain operation of `g`, not returned from yet. -/
structure Owns (s : Interpreter V T) (g : Gid) (w : SudogRef) (id : ChanID) (onSend : Bool) :
    Prop where
  lt : w < s.nextSudog
  offered : OfferedOn s w id onSend
  gid : (s.sudogs w).gid = g
  sel : (s.sudogs w).sel = none
  wake : sudogOps s.trace .wake w = []
  abandon : sudogOps s.trace .abandon w = []

/-- `w` is the sudog of a case of a select of `g`, not returned from yet. -/
structure OwnsCase (s : Interpreter V T) (g : Gid) (cases : List (SelectCase V T))
    (w : SudogRef) : Prop where
  gid : (s.sudogs w).gid = g
  case : ∃ c id, cases[(s.sudogs w).caseIdx]? = some c ∧ c.ch = some id ∧
    OfferedWith s w id c.send c.val
  wake : sudogOps s.trace .wake w = []

/-- `sw` is a select of `g`, not returned from yet. -/
structure OwnsSelect (s : Interpreter V T) (g : Gid) (cases : List (SelectCase V T))
    (sw : SelRef) : Prop where
  lt : sw < s.nextSel
  withdraw : withdraws s.trace sw = []
  cases : ∀ w, w < s.nextSudog → (s.sudogs w).sel = some sw → OwnsCase s g cases w

/-- What a goroutine that waits for `wt` has. -/
def WaitOK (s : Interpreter V T) (g : Gid) : Wait V T → Prop
  | .send id w _ => Owns s g w id true
  | .recv id w _ => Owns s g w id false
  | .select cases sw _ => OwnsSelect s g cases sw
  | _ => True

/-! ## §4. The invariant -/

/-- The sudogs and the selects agree with the trace. -/
structure Table (cfg : Config V T) (s : Interpreter V T) : Prop where
  known : ∀ w, w < s.nextSudog → SudogOK cfg s.trace w (s.sudogs w)
  fresh : ∀ w, s.nextSudog ≤ w → ∀ op, sudogOps s.trace op w = []
  sel_lt : ∀ w sw, w < s.nextSudog → (s.sudogs w).sel = some sw → sw < s.nextSel
  /-- A case of a select that has been claimed is THE case of that select. -/
  claimed : ∀ w sw, w < s.nextSudog → (s.sudogs w).sel = some sw →
    sudogOps s.trace .claim w ≠ [] → (s.sels sw).fired = true ∧ (s.sels sw).sg = some w
  sg : ∀ sw w, (s.sels sw).sg = some w →
    w < s.nextSudog ∧ (s.sudogs w).sel = some sw ∧ sudogOps s.trace .claim w ≠ []
  fired : ∀ sw, (s.sels sw).fired = true → withdraws s.trace sw ≠ [] ∨ (s.sels sw).sg.isSome
  /-- A select that has withdrawn stays fired; its cases were claimed before
  that, if at all. -/
  withdrawn : ∀ sw, ∀ x ∈ withdraws s.trace sw, sw < s.nextSel ∧ (s.sels sw).fired = true ∧
    ∀ w, w < s.nextSudog → (s.sudogs w).sel = some sw →
      ∀ c ∈ sudogOps s.trace .claim w, c.2 < x.2

/-- The table, the waits and the queues agree. -/
structure SudogInv (cfg : Config V T) (s : Interpreter V T) : Prop where
  table : Table cfg s
  waits : ∀ g wt, Waiting s g wt → WaitOK s g wt
  /-- Only one goroutine waits in a select. -/
  unique : ∀ {g q cases cases' sw site site'}, Waiting s g (.select cases sw site) →
    Waiting s q (.select cases' sw site') → g = q
  /-- **A sudog in the queue of an open channel was queued there, and if it
  is live, some goroutine waits for it.** -/
  queued : ∀ id onSend w, Queued s id onSend w →
    w < s.nextSudog ∧ OfferedOn s w id onSend ∧ (s.live w = true → Held s w)
  /-- A completed operation that has not returned still waits, unless
  everything has been stopped. -/
  fate : ∀ w, w < s.nextSudog → sudogOps s.trace .claim w ≠ [] → sudogOps s.trace .wake w = [] →
    s.stopping = true ∨ ∃ g wt, Waiting s g wt ∧ Claimed s w wt

section Steps

variable {cfg : Config V T} {s t : Interpreter V T} {g q : Gid} {w : SudogRef} {wt' : Wait V T}
  {site : String}

/-- Who waits does not depend on the clocks. -/
theorem waiting_setClock (s : Interpreter V T) (g : Gid) (c : Clock) (q : Gid) (wt : Wait V T) :
    Waiting (s.setClock g c) q wt ↔ Waiting s q wt := by
  rw [Waiting, Waiting, setClock_spawned, setClock_wait]

theorem live_iff : s.live w = true ↔
    (s.sudogs w).done = false ∧ ∀ sw, (s.sudogs w).sel = some sw → (s.sels sw).fired = false := by
  unfold live
  rw [Bool.and_eq_true, Bool.not_eq_true']
  refine and_congr_right fun _ => ?_
  cases (s.sudogs w).sel with
  | none | some => simp

/-- What `popLive` takes out of a queue is live and was in it. -/
theorem popLive_spec {rest : List SudogRef} : ∀ {q : List SudogRef},
    s.popLive none q = some (w, rest) → w ∈ q ∧ s.live w = true ∧ rest ⊆ q
  | [], h => by cases h
  | x :: q, h => by
    unfold popLive at h
    split at h
    · rename_i hx
      cases h
      rw [eligible, Bool.and_eq_true] at hx
      exact ⟨List.mem_cons_self, hx.1, List.subset_cons_self ..⟩
    · obtain ⟨hmem, hlive, hsub⟩ := popLive_spec h
      exact ⟨List.mem_cons_of_mem _ hmem, hlive, fun y hy => List.mem_cons_of_mem _ (hsub hy)⟩

/-- No case of a select that has not fired is claimed. -/
theorem Table.unfired (h : Table cfg s) {sw : SelRef} (hw : w < s.nextSudog)
    (hs : (s.sudogs w).sel = some sw) (hf : (s.sels sw).fired = false) :
    sudogOps s.trace .claim w = [] := by
  by_contra hne
  cases hf.symm.trans (h.claimed w sw hw hs hne).1

/-- What never changes in a sudog. -/
def SameOwner (sg sg' : Sudog V) : Prop :=
  sg'.gid = sg.gid ∧ sg'.sel = sg.sel ∧ sg'.caseIdx = sg.caseIdx

/-- The owners of the sudogs, and the operations on those of goroutine `q`
other than claims, are as before. -/
structure Untouched (s t : Interpreter V T) (q : Gid) : Prop where
  sudog : ∀ w, w < s.nextSudog → SameOwner (s.sudogs w) (t.sudogs w)
  ops : ∀ w op, w < s.nextSudog → (s.sudogs w).gid = q → op ≠ .claim →
    sudogOps t.trace op w = sudogOps s.trace op w
  nextSudog : s.nextSudog ≤ t.nextSudog
  nextSel : s.nextSel ≤ t.nextSel

theorem Untouched.offeredWith {v : V} (hu : Untouched s t q) (hw : w < s.nextSudog)
    (hg : (s.sudogs w).gid = q) (h : OfferedWith s w id onSend v) :
    OfferedWith t w id onSend v := by
  obtain ⟨o, hone, hk⟩ := h
  refine ⟨o, (hu.ops w _ hw hg (by decide)).trans hone, ?_⟩
  rw [(hu.sudog w hw).2.1]; exact hk

theorem Untouched.owns (hu : Untouched s t q) (h : Owns s q w id onSend) :
    Owns t q w id onSend := by
  obtain ⟨hgid, hsel, -⟩ := hu.sudog w h.lt
  obtain ⟨v, hoff⟩ := h.offered
  refine ⟨h.lt.trans_le hu.nextSudog, ⟨v, hu.offeredWith h.lt h.gid hoff⟩, hgid.trans h.gid,
    hsel.trans h.sel, ?_, ?_⟩
  · exact (hu.ops w _ h.lt h.gid (by decide)).trans h.wake
  · exact (hu.ops w _ h.lt h.gid (by decide)).trans h.abandon

variable {cases : List (SelectCase V T)}

theorem Untouched.ownsCase (hu : Untouched s t q) (hw : w < s.nextSudog)
    (h : OwnsCase s q cases w) : OwnsCase t q cases w := by
  obtain ⟨hgid, -, hidx⟩ := hu.sudog w hw
  obtain ⟨c, id, hc, hid, hoff⟩ := h.case
  refine ⟨hgid.trans h.gid, ⟨c, id, by rw [hidx]; exact hc, hid, ?_⟩, ?_⟩
  · exact hu.offeredWith hw h.gid hoff
  · exact (hu.ops w _ hw h.gid (by decide)).trans h.wake

variable {wt : Wait V T}

/-- A wait goes on. `hnew`: sudogs queued meanwhile for the same select are
`q`'s own. -/
theorem Untouched.waitOK (hu : Untouched s t q) (h : WaitOK s q wt)
    (hwd : ∀ cases sw site, wt = .select cases sw site → withdraws t.trace sw = withdraws s.trace sw)
    (hnew : ∀ cases sw site, wt = .select cases sw site → ∀ w, s.nextSudog ≤ w → w < t.nextSudog → (t.sudogs w).sel = some sw → OwnsCase t q cases w) :
    WaitOK t q wt := by
  cases wt with
  | send | recv => exact hu.owns h
  | select cases sw site =>
    have h : OwnsSelect s q cases sw := h
    refine ⟨h.lt.trans_le hu.nextSel, (hwd cases sw site rfl).trans h.withdraw, fun w hw hsel => ?_⟩
    by_cases hlt : w < s.nextSudog
    · exact hu.ownsCase hlt (h.cases w hlt ((hu.sudog w hlt).2.1 ▸ hsel))
    · exact hnew cases sw site rfl w (Nat.not_lt.mp hlt) hw hsel
  | _ => trivial

theorem Untouched.waitOK_of_eq (hu : Untouched s t q) (h : WaitOK s q wt)
    (hn : t.nextSudog = s.nextSudog)
    (hwd : ∀ cases sw site, wt = .select cases sw site → withdraws t.trace sw = withdraws s.trace sw) :
    WaitOK t q wt :=
  hu.waitOK h hwd fun _ _ _ _ _ hge hx => absurd (hn ▸ hx) (Nat.not_lt.mpr hge)

theorem Holds.congr (h : Holds s w wt) (hsel : (t.sudogs w).sel = (s.sudogs w).sel) :
    Holds t w wt := by
  cases wt with
  | select => exact hsel.trans h
  | _ => exact h

/-- A sudog that a goroutine waits for is its own. -/
theorem SudogInv.gid_of_holds (hI : SudogInv cfg s) (hw : Waiting s g wt) (hh : Holds s w wt)
    (hlt : w < s.nextSudog) : (s.sudogs w).gid = g := by
  have hok := hI.waits g wt hw
  cases wt with
  | send | recv => cases hh; exact Owns.gid hok
  | select => exact (OwnsSelect.cases hok w hlt hh).gid
  | _ => exact hh.elim

theorem Claimed.congr (h : Claimed s w wt) (hdone : (t.sudogs w).done = (s.sudogs w).done)
    (hsel : ∀ cases sw site, wt = .select cases sw site → t.sels sw = s.sels sw) :
    Claimed t w wt := by
  cases wt with
  | send | recv => exact ⟨h.1, hdone.trans h.2⟩
  | select cases sw site =>
    have heq := hsel cases sw site rfl
    exact ⟨by rw [heq]; exact h.1, by rw [heq]; exact h.2⟩
  | _ => exact h.elim

/-! ## §5. Parts that leave the sudogs alone -/

/-- Sudogs and selects may be added, and the known sudogs may change, but
not the selects they belong to; nothing is claimed or withdrawn. -/
theorem Table.keep (h : Table cfg s) (hn : s.nextSudog ≤ t.nextSudog) (hns : s.nextSel ≤ t.nextSel)
    (hsel : ∀ w, w < s.nextSudog → (t.sudogs w).sel = (s.sudogs w).sel)
    (hclaims : ∀ w, w < s.nextSudog → sudogOps t.trace .claim w = sudogOps s.trace .claim w)
    (hwd : ∀ sw, withdraws t.trace sw = withdraws s.trace sw)
    (hsels : ∀ sw, t.sels sw = s.sels sw ∨ (s.nextSel ≤ sw ∧ t.sels sw = {}))
    (hknown : ∀ w, w < t.nextSudog → SudogOK cfg t.trace w (t.sudogs w))
    (hfresh : ∀ w, t.nextSudog ≤ w → ∀ op, sudogOps t.trace op w = [])
    (hnew : ∀ w, s.nextSudog ≤ w → w < t.nextSudog → sudogOps t.trace .claim w = [] ∧
      ∀ sw, (t.sudogs w).sel = some sw → sw < t.nextSel) : Table cfg t := by
  have hold : ∀ sw, sw < s.nextSel → t.sels sw = s.sels sw := fun sw hlt =>
    (hsels sw).resolve_right fun h => absurd hlt (Nat.not_lt.mpr h.1)
  refine ⟨hknown, hfresh, fun w sw hw hs => ?_, fun w sw hw hs hc => ?_, fun sw w hsg => ?_,
    fun sw hf => ?_, fun sw x hx => ?_⟩
  · by_cases hlt : w < s.nextSudog
    · exact (h.sel_lt w sw hlt (hsel w hlt ▸ hs)).trans_le hns
    · exact (hnew w (Nat.not_lt.mp hlt) hw).2 sw hs
  · by_cases hlt : w < s.nextSudog
    · rw [hsel w hlt] at hs
      rw [hclaims w hlt] at hc
      rw [hold sw (h.sel_lt w sw hlt hs)]
      exact h.claimed w sw hlt hs hc
    · exact absurd (hnew w (Nat.not_lt.mp hlt) hw).1 hc
  · rcases hsels sw with heq | ⟨-, heq⟩ <;> rw [heq] at hsg
    · obtain ⟨hlt, hs, hc⟩ := h.sg sw w hsg
      exact ⟨hlt.trans_le hn, (hsel w hlt).trans hs, by rw [hclaims w hlt]; exact hc⟩
    · cases hsg
  · rw [hwd]
    rcases hsels sw with heq | ⟨-, heq⟩ <;> rw [heq] at hf ⊢
    · exact h.fired sw hf
    · cases hf
  · rw [hwd] at hx
    obtain ⟨hswlt, hf, hc⟩ := h.withdrawn sw x hx
    refine ⟨hswlt.trans_le hns, by rw [hold sw hswlt]; exact hf, fun w hw hs c hmem => ?_⟩
    by_cases hlt : w < s.nextSudog
    · exact hc w hlt (hsel w hlt ▸ hs) c (hclaims w hlt ▸ hmem)
    · rw [(hnew w (Nat.not_lt.mp hlt) hw).1] at hmem
      cases hmem

/-- Nothing of the table is changed. -/
theorem Table.frame (h : Table cfg s) (hsg : t.sudogs = s.sudogs)
    (hn : t.nextSudog = s.nextSudog) (hsel : t.sels = s.sels) (hns : t.nextSel = s.nextSel)
    (hops : ∀ op w, sudogOps t.trace op w = sudogOps s.trace op w)
    (hwd : ∀ sw, withdraws t.trace sw = withdraws s.trace sw) : Table cfg t := by
  refine h.keep hn.ge hns.ge (fun w _ => by rw [hsg]) (fun w _ => hops .claim w) hwd
    (fun sw => .inl (by rw [hsel])) (fun w hw => ?_) (fun w hw op => ?_) fun w hge hw => ?_
  · rw [hsg]; exact (h.known w (hn ▸ hw)).congr (hops · w)
  · rw [hops]; exact h.fresh w (hn ▸ hw) op
  · exact absurd (hn ▸ hw) (Nat.not_lt.mpr hge)

/-- A sudog in the queue of an open channel is still there. -/
theorem SudogInv.queued_old (hI : SudogInv cfg s) (hq : Queued s id onSend w)
    (hn : s.nextSudog ≤ t.nextSudog)
    (hoffer : w < s.nextSudog → sudogOps t.trace .offer w = sudogOps s.trace .offer w)
    (hsel : w < s.nextSudog → (t.sudogs w).sel = (s.sudogs w).sel)
    (hlive : w < s.nextSudog → t.live w = true → s.live w = true ∧
      ∀ g wt, Waiting s g wt → Holds s w wt → Waiting t g wt) :
    w < t.nextSudog ∧ OfferedOn t w id onSend ∧ (t.live w = true → Held t w) := by
  obtain ⟨hlt, ⟨v, o, hone, hk⟩, hheld⟩ := hI.queued id onSend w hq
  refine ⟨hlt.trans_le hn, ⟨v, o, (hoffer hlt).trans hone, by rw [hsel hlt]; exact hk⟩,
    fun hl => ?_⟩
  obtain ⟨hl, hkeep⟩ := hlive hlt hl
  obtain ⟨q, wt, hw, hholds⟩ := hheld hl
  exact ⟨q, wt, hkeep q wt hw hholds, hholds.congr (hsel hlt)⟩

/-- Waits may begin if they have no sudog, and end if they have no sudog
that is live in a queue or has been claimed. -/
theorem SudogInv.frame (hI : SudogInv cfg s) (hsg : t.sudogs = s.sudogs)
    (hn : t.nextSudog = s.nextSudog) (hsel : t.sels = s.sels) (hns : t.nextSel = s.nextSel)
    (hops : ∀ op w, sudogOps t.trace op w = sudogOps s.trace op w)
    (hwd : ∀ sw, withdraws t.trace sw = withdraws s.trace sw)
    (hq : ∀ id onSend w, Queued t id onSend w → Queued s id onSend w)
    (hwaits : ∀ g wt, Waiting t g wt → Waiting s g wt ∨ Bare wt)
    (hkeep : ∀ g wt w id onSend, Waiting s g wt → Holds s w wt → Queued s id onSend w →
      s.live w = true → Waiting t g wt)
    (hstop : s.stopping = true → t.stopping = true)
    (hclaimed : ∀ g wt w, Waiting s g wt → Claimed s w wt → Waiting t g wt) :
    SudogInv cfg t := by
  refine ⟨hI.table.frame hsg hn hsel hns hops hwd, fun q wt hw => ?_, ?_, ?_, ?_⟩
  · rcases hwaits q wt hw with hw | hb
    · have hu : Untouched s t q :=
        ⟨fun w _ => by rw [hsg]; exact ⟨rfl, rfl, rfl⟩, fun w op _ _ _ => hops op w, hn.ge,
          hns.ge⟩
      exact hu.waitOK_of_eq (hI.waits q wt hw) hn fun _ sw _ _ => hwd sw
    · cases wt <;> trivial
  · intro q q' cases cases' sw site site' hw hw'
    rcases hwaits _ _ hw with hw | hb
    · rcases hwaits _ _ hw' with hw' | hb
      · exact hI.unique hw hw'
      · exact hb.elim
    · exact hb.elim
  · intro id onSend w hw
    have hw := hq id onSend w hw
    refine hI.queued_old hw hn.ge (fun _ => hops _ w) (fun _ => by rw [hsg]) fun _ hlive => ?_
    have hlive : s.live w = true := by
      rw [live_iff] at hlive ⊢
      rwa [hsg, hsel] at hlive
    exact ⟨hlive, fun q wt hwait hholds => hkeep q wt w id onSend hwait hholds hw hlive⟩
  · intro w hlt hc hwk
    rw [hops] at hc hwk
    refine (hI.fate w (hn ▸ hlt) hc hwk).imp hstop ?_
    rintro ⟨q, wt, hw, hcl⟩
    exact ⟨q, wt, hclaimed q wt w hw hcl, hcl.congr (by rw [hsg]) fun _ _ _ _ => by rw [hsel]⟩

/-! ## §6. Offers -/

/-- The queues after an offer: as before, or with the new sudog at the end. -/
theorem queued_of_offer {ch : ChanEntry V} {val : V} {sel : Option SelRef} {i : Nat}
    (hch : s.channels id = some ch) (hopen : ch.closed = false) {j : ChanID} {b : Bool}
    (h : Queued (s.offer cfg g id ch onSend val sel i) j b w) :
    Queued s j b w ∨ (j = id ∧ b = onSend ∧ w = s.nextSudog) := by
  obtain ⟨c, hc, hcl, hmem⟩ := h
  by_cases hj : j = id
  · subst hj
    cases (update_self ..).symm.trans hc
    have hold : ∀ {x}, x ∈ (if b then ch.sendq else ch.recvq) → Queued s j b x :=
      fun hx => ⟨ch, hch, hopen, hx⟩
    cases onSend <;> cases b <;>
      simp only [if_true, if_false, Bool.false_eq_true, List.mem_append,
        List.mem_singleton] at hmem hold
    · exact hmem.imp hold fun h => ⟨rfl, rfl, h⟩
    · exact .inl (hold hmem)
    · exact .inl (hold hmem)
    · exact hmem.imp hold fun h => ⟨rfl, rfl, h⟩
  · exact .inl ⟨c, (update_of_ne hj ..).symm.trans hc, hcl, hmem⟩

section Offer

variable {id : ChanID} {ch : ChanEntry V} {onSend : Bool} {val : V} {sel : Option SelRef} {i : Nat}

theorem offer_sudog_self : (s.offer cfg g id ch onSend val sel i).sudogs s.nextSudog =
    { gid := g, val := val, clock := s.releaseClock cfg g, sel := sel, caseIdx := i } :=
  update_self ..

theorem offer_sudog_old (hw : w < s.nextSudog) :
    (s.offer cfg g id ch onSend val sel i).sudogs w = s.sudogs w :=
  update_of_ne (Nat.ne_of_lt hw) ..

theorem offer_ops_old (op : SudogOp) (hw : w < s.nextSudog) :
    sudogOps (s.offer cfg g id ch onSend val sel i).trace op w = sudogOps s.trace op w :=
  sudogOps_snoc_other rfl (.inr (Nat.ne_of_lt hw))

theorem offer_withdraws (sw : SelRef) :
    withdraws (s.offer cfg g id ch onSend val sel i).trace sw = withdraws s.trace sw :=
  withdraws_snoc_none rfl

/-- The new sudog has only been offered. -/
theorem Table.offer_ops_new (h : Table cfg s) {op : SudogOp} (hop : op ≠ .offer) :
    sudogOps (s.offer cfg g id ch onSend val sel i).trace op s.nextSudog = [] :=
  (sudogOps_snoc_other rfl (.inl hop)).trans (h.fresh _ (le_refl _) op)

theorem Table.offered_new (h : Table cfg s) :
    OfferedWith (s.offer cfg g id ch onSend val sel i) s.nextSudog id onSend val := by
  refine ⟨_, (sudogOps_snoc rfl).trans (congrArg (· ++ [_]) (h.fresh _ (le_refl _) _)), ?_⟩
  rw [offer_sudog_self]

theorem Table.offer (h : Table cfg s)
    (hsel : ∀ sw, sel = some sw → sw < s.nextSel ∧ (s.sels sw).fired = false) :
    Table cfg (s.offer cfg g id ch onSend val sel i) := by
  -- a sudog is an old one or the one just queued, which nobody has claimed
  refine h.keep (Nat.le_succ _) (le_refl _) (fun w hw => by rw [offer_sudog_old hw])
    (fun w => offer_ops_old .claim) offer_withdraws (fun _ => .inl rfl) (fun w hw => ?_)
    (fun w hw op => ?_) fun w hge hw => ?_
  · rcases Nat.lt_or_eq_of_le (Nat.le_of_lt_succ hw) with hw | rfl
    · rw [offer_sudog_old hw]
      exact (h.known w hw).congr fun op => offer_ops_old op hw
    · rw [offer_sudog_self]
      exact SudogOK.offer (h.fresh _ (le_refl _)) rfl rfl (stampOf_releaseClock rfl).symm
        (releaseClock_isSome ..) rfl rfl
  · exact (sudogOps_snoc_other rfl (.inr (Nat.ne_of_gt hw))).trans
      (h.fresh w (Nat.le_of_succ_le hw) op)
  · obtain rfl : w = s.nextSudog := Nat.le_antisymm (Nat.le_of_lt_succ hw) hge
    refine ⟨h.offer_ops_new (by decide), fun sw hs => (hsel sw ?_).1⟩
    rwa [offer_sudog_self] at hs

variable (cfg g id ch onSend val sel i) in
/-- Queueing a sudog changes no other sudog, also if the wait is registered
first. -/
theorem parkOffer_old (wt : Wait V T) (hw : w < s.nextSudog) :
    ((s.setWait g (some wt)).offer cfg g id ch onSend val sel i).sudogs w = s.sudogs w ∧
      ∀ op, sudogOps ((s.setWait g (some wt)).offer cfg g id ch onSend val sel i).trace op w =
        sudogOps s.trace op w :=
  ⟨offer_sudog_old hw, fun op => offer_ops_old op hw⟩

theorem untouched_parkOffer (wt : Wait V T) (q : Gid) :
    Untouched s ((s.setWait g (some wt)).offer cfg g id ch onSend val sel i) q where
  sudog w hw := by rw [(parkOffer_old _ _ _ _ _ _ _ _ wt hw).1]; exact ⟨rfl, rfl, rfl⟩
  ops w op hw _ _ := (parkOffer_old _ _ _ _ _ _ _ _ wt hw).2 op
  nextSudog := Nat.le_succ _
  nextSel := le_refl _

/-- Registering a wait, in a state where the goroutine waits for nothing
else. -/
theorem waiting_setWait (hw : Waiting (s.setWait g (some wt)) q wt') :
    (q = g ∧ wt' = wt) ∨ (q ≠ g ∧ Waiting s q wt') := by
  by_cases hq : q = g
  · subst hq
    exact .inl ⟨rfl, Option.some.inj (hw.2.symm.trans (setWait_wait_self ..))⟩
  · rw [Waiting, setWait_other _ _ _ _ hq] at hw
    exact .inr ⟨hq, hw⟩

theorem Waiting.setWait (hw : Waiting s q wt')
    (hg : Waiting s g wt' → wt' = wt) : Waiting (s.setWait g (some wt)) q wt' := by
  by_cases hq : q = g
  · subst hq
    cases hg hw
    exact ⟨(setWait_spawned ..).trans hw.1, setWait_wait_self ..⟩
  · rw [Waiting, setWait_other _ _ _ _ hq]
    exact hw

/-- Registering the wait that is registered already. -/
theorem setWait_eq_self (hw : Waiting s g wt) : s.setWait g (some wt) = s := by
  have hr : { s.goroutines g with wait := some wt } = s.goroutines g := by rw [← hw.2]
  show { s with goroutines :=
    Function.update s.goroutines g { s.goroutines g with wait := some wt } } = s
  rw [hr, Function.update_eq_self]

/-- The wait of an operation that queues a sudog: a plain one that begins
with it, or a select that has not fired. -/
def Offers (s : Interpreter V T) (g : Gid) (id : ChanID) (onSend : Bool) (val : V)
    (sel : Option SelRef) (i : Nat) (wt : Wait V T) : Prop :=
  (Running s g ∧ Begins s id onSend wt ∧ sel = none) ∨
    ∃ cases sw site c, wt = .select cases sw site ∧ sel = some sw ∧ Waiting s g wt ∧
      (s.sels sw).fired = false ∧ cases[i]? = some c ∧ c.ch = some id ∧ c.send = onSend ∧
      c.val = val

namespace Offers

variable {wt : Wait V T}

theorem spawned (h : Offers s g id onSend val sel i wt) : (s.goroutines g).spawned = true := by
  rcases h with ⟨hrun, -⟩ | ⟨_, _, _, _, -, -, hw, -⟩
  · exact hrun.1
  · exact hw.1

/-- It is the only wait of the goroutine. -/
theorem wait_eq (h : Offers s g id onSend val sel i wt) (hw' : Waiting s g wt') : wt' = wt := by
  rcases h with ⟨hrun, -⟩ | ⟨_, _, _, _, -, -, hw, -⟩
  · cases hrun.2.symm.trans hw'.2
  · exact Option.some.inj (hw'.2.symm.trans hw.2)

/-- A select that queues a sudog waits already. -/
theorem waiting_select (h : Offers s g id onSend val sel i wt) {sw : SelRef}
    (hw : Waiting (s.setWait g (some wt)) q (.select cases sw site)) :
    Waiting s q (.select cases sw site) := by
  rcases waiting_setWait hw with ⟨rfl, rfl⟩ | ⟨-, hw⟩
  · rcases h with ⟨-, hb, -⟩ | ⟨_, _, _, _, -, -, hw, -⟩
    · exact hb.elim
    · exact hw
  · exact hw

theorem holds (hoff : Offers s g id onSend val sel i wt) :
    Holds ((s.setWait g (some wt)).offer cfg g id ch onSend val sel i) s.nextSudog wt := by
  rcases hoff with ⟨hrun, hb, rfl⟩ | ⟨cases, sw, site, c, rfl, hsel, -⟩
  · cases wt with
    | send | recv => exact hb.2.1
    | _ => exact hb.elim
  · exact (congrArg Sudog.sel offer_sudog_self).trans hsel

end Offers

/-- A plain operation owns the sudog it queues. -/
theorem Table.owns_new (h : Table cfg s) :
    Owns (s.offer cfg g id ch onSend val none i) g s.nextSudog id onSend where
  lt := Nat.lt_succ_self _
  offered := ⟨val, h.offered_new⟩
  gid := congrArg Sudog.gid offer_sudog_self
  sel := congrArg Sudog.sel offer_sudog_self
  wake := h.offer_ops_new (by decide)
  abandon := h.offer_ops_new (by decide)

/-- A select owns the sudog it queues for one of its cases. -/
theorem Table.ownsCase_new (h : Table cfg s) {c : SelectCase V T} (hc : cases[i]? = some c)
    (hid : c.ch = some id) :
    OwnsCase (s.offer cfg g id ch c.send c.val sel i) g cases s.nextSudog where
  gid := congrArg Sudog.gid offer_sudog_self
  case := by
    refine ⟨c, id, ?_, hid, h.offered_new⟩
    rw [offer_sudog_self]; exact hc
  wake := h.offer_ops_new (by decide)

/-- A wait goes on while goroutine `g` queues a sudog. -/
theorem SudogInv.waitOK_old (hI : SudogInv cfg s)
    (hU : Table cfg (s.setWait g (some wt))) (hoff : Offers s g id onSend val sel i wt)
    (hw : Waiting s q wt') :
    WaitOK ((s.setWait g (some wt)).offer cfg g id ch onSend val sel i) q wt' := by
  refine (untouched_parkOffer wt q).waitOK (hI.waits q wt' hw)
    (fun _ sw _ _ => offer_withdraws sw) ?_
  rintro cases sw site rfl w hge hlt hs
  obtain rfl : w = s.nextSudog := Nat.le_antisymm (Nat.le_of_lt_succ hlt) hge
  -- only the goroutine that waits in a select queues sudogs for it
  have hnew : sel = some sw := (congrArg Sudog.sel offer_sudog_self).symm.trans hs
  rcases hoff with ⟨-, -, hnone⟩ | ⟨cases', sw', site', c, rfl, hsw, hw', -, hc, hid, rfl, rfl⟩
  · cases hnone.symm.trans hnew
  · cases hsw.symm.trans hnew
    obtain rfl : q = g := hI.unique hw hw'
    cases hw.2.symm.trans hw'.2
    exact hU.ownsCase_new hc hid

/-- The goroutine that queues a sudog waits for it. -/
theorem SudogInv.waitOK_self (hI : SudogInv cfg s) (hU : Table cfg (s.setWait g (some wt)))
    (hoff : Offers s g id onSend val sel i wt) :
    WaitOK ((s.setWait g (some wt)).offer cfg g id ch onSend val sel i) g wt := by
  rcases hoff with ⟨hrun, hb, rfl⟩ | ⟨cases, sw, site, c, rfl, hsel, hw, hrest⟩
  · cases wt with
    | send | recv => obtain ⟨rfl, rfl, rfl⟩ := hb; exact hU.owns_new
    | _ => exact hb.elim
  · exact hI.waitOK_old hU (.inr ⟨cases, sw, site, c, rfl, hsel, hw, hrest⟩) hw

/-- **Queueing a sudog.** -/
theorem SudogInv.offer (hI : SudogInv cfg s) (hoff : Offers s g id onSend val sel i wt)
    (hch : s.channels id = some ch) (hopen : ch.closed = false) :
    SudogInv cfg ((s.setWait g (some wt)).offer cfg g id ch onSend val sel i) := by
  have hU : Table cfg (s.setWait g (some wt)) :=
    hI.table.frame rfl rfl rfl rfl (fun _ _ => rfl) fun _ => rfl
  have hwaits : ∀ q wt', Waiting ((s.setWait g (some wt)).offer cfg g id ch onSend val sel i) q wt'
      ↔ Waiting (s.setWait g (some wt)) q wt' := fun q wt' => waiting_setClock ..
  refine ⟨hU.offer fun sw hsw => ?_, fun q wt' hw => ?_, fun hw hw' => hI.unique
    (hoff.waiting_select ((hwaits ..).mp hw)) (hoff.waiting_select ((hwaits ..).mp hw')),
    fun j b w hq => ?_, fun w hlt hc hwk => ?_⟩
  · rcases hoff with ⟨-, -, hnone⟩ | ⟨cases, sw', site, c, rfl, hsw', hw, hf, -⟩
    · rw [hnone] at hsw; cases hsw
    · cases hsw.symm.trans hsw'
      have hown : OwnsSelect s g cases sw := hI.waits g _ hw
      exact ⟨hown.lt, hf⟩
  · rcases waiting_setWait ((hwaits q wt').mp hw) with ⟨rfl, rfl⟩ | ⟨-, hw⟩
    · exact hI.waitOK_self hU hoff
    · exact hI.waitOK_old hU hoff hw
  · have hch' : (s.setWait g (some wt)).channels id = some ch := hch
    rcases queued_of_offer hch' hopen hq with hq | ⟨rfl, rfl, rfl⟩
    · have hold := fun hlt => @parkOffer_old _ _ cfg s g w id ch onSend val sel i wt hlt
      refine hI.queued_old hq (Nat.le_succ _) (fun hlt => (hold hlt).2 _)
        (fun hlt => congrArg Sudog.sel (hold hlt).1) fun hlt hlive => ?_
      rw [live_iff, (hold hlt).1] at hlive
      exact ⟨live_iff.mpr hlive, fun q wt' hw _ => (hwaits q wt').mpr (hw.setWait hoff.wait_eq)⟩
    · refine ⟨Nat.lt_succ_self _, ⟨val, hU.offered_new⟩,
        fun _ => ⟨g, wt, (hwaits g wt).mpr ?_, hoff.holds⟩⟩
      exact ⟨(setWait_spawned ..).trans hoff.spawned, setWait_wait_self ..⟩
  · have hlt : w < s.nextSudog + 1 := hlt
    rcases Nat.lt_or_eq_of_le (Nat.le_of_lt_succ hlt) with hlt | rfl
    · obtain ⟨hsg, hops⟩ := parkOffer_old cfg g id ch onSend val sel i wt hlt
      rw [hops] at hc hwk
      refine (hI.fate w hlt hc hwk).imp_right ?_
      rintro ⟨q, wt', hw, hcl⟩
      exact ⟨q, wt', (hwaits q wt').mpr (hw.setWait hoff.wait_eq),
        hcl.congr (congrArg Sudog.done hsg) fun _ _ _ _ => rfl⟩
    · exact absurd (hU.offer_ops_new (by decide)) hc

end Offer

/-! ## §7. Claims -/

/-- The selects after a claim: the select of the sudog has fired. -/
def FiredBy (s t : Interpreter V T) (w : SudogRef) : Prop :=
  t.sels = match (s.sudogs w).sel with
    | none => s.sels
    | some sw => Function.update s.sels sw ⟨true, some w⟩

theorem FiredBy.sel (h : FiredBy s t w) (sw : SelRef) :
    ((s.sudogs w).sel = some sw ∧ t.sels sw = ⟨true, some w⟩) ∨
      ((s.sudogs w).sel ≠ some sw ∧ t.sels sw = s.sels sw) := by
  rw [show t.sels = _ from h]
  cases hs : (s.sudogs w).sel with
  | none => exact .inr ⟨nofun, rfl⟩
  | some sw' =>
    by_cases heq : sw = sw'
    · subst heq; exact .inl ⟨rfl, update_self ..⟩
    · exact .inr ⟨fun h => heq (Option.some.inj h).symm, update_of_ne heq ..⟩

/-- There is an entry about the sudog `w`, and no other sudog is changed. -/
structure Entry (cfg : Config V T) (s t : Interpreter V T) (op : SudogOp) (w : SudogRef)
    (e : Event V T) : Prop where
  trace : t.trace = s.trace ++ [e]
  on : e.onSudog = some (op, w)
  onSel : e.onSel = none
  lt : w < s.nextSudog
  self : SudogOK cfg (s.trace ++ [e]) w (t.sudogs w)
  other : ∀ x, x ≠ w → t.sudogs x = s.sudogs x
  sel : ∀ x, (t.sudogs x).sel = (s.sudogs x).sel
  nextSudog : t.nextSudog = s.nextSudog
  nextSel : t.nextSel = s.nextSel

namespace Entry

variable {op : SudogOp} (he : Entry cfg s t op w e)

include he

theorem ops {x : SudogRef} {o : SudogOp} (hne : o ≠ op ∨ x ≠ w) :
    sudogOps t.trace o x = sudogOps s.trace o x := by
  rw [he.trace]
  exact sudogOps_snoc_other he.on hne

theorem withdraws (sw : SelRef) : Interp.withdraws t.trace sw = Interp.withdraws s.trace sw := by
  rw [he.trace]
  exact withdraws_snoc_none he.onSel

theorem known (h : Table cfg s) (x : SudogRef) (hx : x < t.nextSudog) :
    SudogOK cfg t.trace x (t.sudogs x) := by
  by_cases hxw : x = w
  · subst hxw; rw [he.trace]; exact he.self
  · rw [he.other x hxw]
    exact (h.known x (he.nextSudog ▸ hx)).congr fun _ => he.ops (.inr hxw)

theorem fresh (h : Table cfg s) (x : SudogRef) (hx : t.nextSudog ≤ x) (o : SudogOp) :
    sudogOps t.trace o x = [] := by
  rw [he.nextSudog] at hx
  rw [he.ops (.inr (Nat.ne_of_gt (he.lt.trans_le hx)))]
  exact h.fresh x hx o

end Entry

/-- A live sudog is claimed. -/
theorem Table.claim (h : Table cfg s) (hlive : s.live w = true) (he : Entry cfg s t .claim w e)
    (hsels : FiredBy s t w) : Table cfg t := by
  have hclaim : sudogOps t.trace .claim w ≠ [] := by
    rw [he.trace, sudogOps_snoc he.on]
    exact List.append_ne_nil_of_right_ne_nil _ (List.cons_ne_nil _ _)
  obtain ⟨-, hunfired⟩ := live_iff.mp hlive
  refine ⟨he.known h, he.fresh h, ?_, ?_, ?_, ?_, ?_⟩
  · intro x sw hx hs
    rw [he.nextSudog] at hx
    rw [he.nextSel]
    exact h.sel_lt x sw hx (he.sel x ▸ hs)
  · intro x sw hx hs hc
    rw [he.nextSudog] at hx
    rw [he.sel] at hs
    rcases hsels.sel sw with ⟨hsw, heq⟩ | ⟨hne, heq⟩
    · -- no other case of the same select has been claimed
      have hxw : x = w := by
        by_contra hxw
        rw [he.ops (.inr hxw)] at hc
        exact hc (h.unfired hx hs (hunfired sw hsw))
      rw [heq, hxw]
      exact ⟨rfl, rfl⟩
    · rw [he.ops (.inr fun hxw => hne (hxw ▸ hs))] at hc
      rw [heq]
      exact h.claimed x sw hx hs hc
  · intro sw x hsg
    rw [he.nextSudog, he.sel]
    rcases hsels.sel sw with ⟨hsw, heq⟩ | ⟨hne, heq⟩
    · rw [heq] at hsg
      cases hsg
      exact ⟨he.lt, hsw, hclaim⟩
    · rw [heq] at hsg
      obtain ⟨hx, hsx, hc⟩ := h.sg sw x hsg
      exact ⟨hx, hsx, by rw [he.ops (.inr fun hxw => hne (hxw ▸ hsx))]; exact hc⟩
  · intro sw hf
    rw [he.withdraws]
    rcases hsels.sel sw with ⟨-, heq⟩ | ⟨-, heq⟩
    · rw [heq]; exact .inr rfl
    · rw [heq] at hf ⊢; exact h.fired sw hf
  · intro sw x hx
    rw [he.withdraws] at hx
    obtain ⟨hswlt, hf, hc⟩ := h.withdrawn sw x hx
    have hne : (s.sudogs w).sel ≠ some sw := fun hsw => by
      rw [hunfired sw hsw] at hf; cases hf
    have heq : t.sels sw = s.sels sw := by
      rcases hsels.sel sw with ⟨hsw, -⟩ | ⟨-, heq⟩
      · exact absurd hsw hne
      · exact heq
    refine ⟨he.nextSel ▸ hswlt, by rw [heq]; exact hf, fun y hy hsy c hmem => ?_⟩
    rw [he.nextSudog] at hy
    rw [he.sel] at hsy
    rw [he.ops (.inr fun hyw => hne (hyw ▸ hsy))] at hmem
    exact hc y hy hsy c hmem

/-- The wait for a sudog is over once it is claimed. -/
theorem Holds.claimed (h : Holds s w wt) (hsels : FiredBy s t w)
    (hdone : (t.sudogs w).done = true) : Claimed t w wt := by
  cases wt with
  | send | recv => exact ⟨h, hdone⟩
  | select cases sw =>
    have hs : (s.sudogs w).sel = some sw := h
    rcases hsels.sel sw with ⟨-, heq⟩ | ⟨hne, -⟩
    · exact ⟨by rw [heq], by rw [heq]⟩
    · exact absurd hs hne
  | _ => exact h.elim

/-- `u` is `s` with the sudog `w` out of its queue and holding the value
exchanged. -/
structure Taken (s u : Interpreter V T) (w : SudogRef) (v : V) : Prop where
  goroutines : u.goroutines = s.goroutines
  self : u.sudogs w = { s.sudogs w with val := v }
  other : ∀ x, x ≠ w → u.sudogs x = s.sudogs x
  nextSudog : u.nextSudog = s.nextSudog
  sels : u.sels = s.sels
  nextSel : u.nextSel = s.nextSel
  trace : u.trace = s.trace
  stopping : u.stopping = s.stopping
  queued : ∀ id onSend x, Queued u id onSend x → Queued s id onSend x

variable {x : SudogRef}

section Claim

variable {u : Interpreter V T} {id : ChanID} {v : V}

theorem claimBy_sudog_self : (u.claimBy cfg g id w).sudogs w = { u.sudogs w with
    done := true
    peer := (u.acquire g (u.sudogs w).clock).releaseClock cfg g } :=
  update_self ..

theorem Taken.sudog_other (h : Taken s u w v) (hx : x ≠ w) :
    (u.claimBy cfg g id w).sudogs x = s.sudogs x :=
  (update_of_ne (f := u.sudogs) hx _).trans (h.other x hx)

theorem Taken.sameOwner (h : Taken s u w v) (x : SudogRef) :
    SameOwner (s.sudogs x) ((u.claimBy cfg g id w).sudogs x) := by
  by_cases hx : x = w
  · rw [hx, claimBy_sudog_self, h.self]; exact ⟨rfl, rfl, rfl⟩
  · rw [h.sudog_other hx]; exact ⟨rfl, rfl, rfl⟩

theorem Taken.waiting (h : Taken s u w v) (q : Gid) (wt : Wait V T) :
    Waiting (u.claimBy cfg g id w) q wt ↔ Waiting s q wt := by
  have hclock : Waiting (u.claimBy cfg g id w) q wt ↔ Waiting u q wt :=
    (waiting_setClock ..).trans (waiting_setClock ..)
  rw [hclock, Waiting, Waiting, h.goroutines]

theorem Taken.ops (h : Taken s u w v) {op : SudogOp} (hne : op ≠ .claim ∨ x ≠ w) :
    sudogOps (u.claimBy cfg g id w).trace op x = sudogOps s.trace op x :=
  (sudogOps_snoc_other rfl hne).trans (congrArg (sudogOps · op x) h.trace)

/-- The life of the claimed sudog goes on. -/
theorem Taken.sudogOK (h : Taken s u w v) (hI : SudogOK cfg s.trace w (s.sudogs w))
    (hdone : (s.sudogs w).done = false) (hoff : OfferedOn s w id onSend)
    (hval : onSend = true → v = (s.sudogs w).val) (hne : g ≠ (s.sudogs w).gid) :
    SudogOK cfg (u.claimBy cfg g id w).trace w ((u.claimBy cfg g id w).sudogs w) := by
  have hclock : (u.sudogs w).clock = (s.sudogs w).clock := by rw [h.self]
  rw [claimBy_sudog_self]
  show SudogOK cfg (u.trace ++ [_]) w _
  rw [h.trace]
  refine hI.claim hdone hoff rfl (fun hs => ?_) (fun o ho hst => ?_) hne ?_
    (releaseClock_isSome ..) rfl ?_ hclock ?_
  · rw [h.self]; exact hval hs
  · refine Acquired.of_acquire (lt_of_mem_keyed ho) (hst.symm.trans hclock.symm) fun st hst => ?_
    rw [hst]
    exact le_acquire_tick cfg u g st
  · have hlen : (u.acquire g (u.sudogs w).clock).trace.length = s.trace.length :=
      congrArg List.length h.trace
    exact (stampOf_releaseClock hlen).symm
  · rw [h.self]
  · rw [h.self]

/-- **Claiming.** -/
theorem SudogInv.claimBy (hI : SudogInv cfg s) (h : Taken s u w v) (hrun : Running s g)
    (hq : Queued s id onSend w) (hlive : s.live w = true)
    (hval : onSend = true → v = (s.sudogs w).val) : SudogInv cfg (u.claimBy cfg g id w) := by
  obtain ⟨hlt, hoff, hheld⟩ := hI.queued id onSend w hq
  obtain ⟨hdone, -⟩ := live_iff.mp hlive
  -- someone else waits for it: the claiming goroutine runs
  have hne : g ≠ (s.sudogs w).gid := by
    obtain ⟨q, wt, hw, hholds⟩ := hheld hlive
    rw [hI.gid_of_holds hw hholds hlt]
    rintro rfl
    cases hrun.2.symm.trans hw.2
  have htrace : (u.claimBy cfg g id w).trace = s.trace ++ [_] := congrArg (· ++ [_]) h.trace
  have hsels : FiredBy s (u.claimBy cfg g id w) w := by
    rw [FiredBy, ← h.sels, ← show (u.sudogs w).sel = (s.sudogs w).sel by rw [h.self]]
    rfl
  have hok := h.sudogOK (g := g) (hI.table.known w hlt) hdone hoff hval hne
  refine ⟨hI.table.claim hlive ⟨htrace, rfl, rfl, hlt, htrace ▸ hok, fun x hx => h.sudog_other hx,
    fun x => (h.sameOwner x).2.1, h.nextSudog, h.nextSel⟩ hsels, fun q wt hw => ?_,
    fun hw hw' => hI.unique ((h.waiting ..).mp hw) ((h.waiting ..).mp hw'), fun j b x hq => ?_,
    fun x hx hc hwk => ?_⟩
  · have hu : Untouched s (u.claimBy cfg g id w) q :=
      ⟨fun x _ => h.sameOwner x, fun x op _ _ hop => h.ops (.inl hop), h.nextSudog.ge,
        h.nextSel.ge⟩
    refine hu.waitOK_of_eq (hI.waits q wt ((h.waiting q wt).mp hw)) h.nextSudog fun _ sw _ _ => ?_
    exact (withdraws_snoc_none rfl).trans (congrArg (withdraws · sw) h.trace)
  · refine hI.queued_old (h.queued j b x hq) h.nextSudog.ge (fun _ => h.ops (.inl (by decide)))
      (fun _ => (h.sameOwner x).2.1) fun _ hl => ?_
    -- what is live afterwards is another sudog, and was live before
    have hxw : x ≠ w := by
      rintro rfl
      rw [live_iff, claimBy_sudog_self] at hl
      cases hl.1
    rw [live_iff, h.sudog_other hxw] at hl
    refine ⟨live_iff.mpr ⟨hl.1, fun sw hsw => ?_⟩, fun q wt hw _ => (h.waiting q wt).mpr hw⟩
    have hf := hl.2 sw hsw
    rcases hsels.sel sw with ⟨-, heq⟩ | ⟨-, heq⟩
    · rw [heq] at hf; cases hf
    · rwa [heq] at hf
  · have hx : x < s.nextSudog := h.nextSudog ▸ hx
    by_cases hxw : x = w
    · subst hxw
      obtain ⟨q, wt, hw, hholds⟩ := hheld hlive
      exact .inr ⟨q, wt, (h.waiting q wt).mpr hw, hholds.claimed hsels
        (by rw [claimBy_sudog_self])⟩
    · rw [h.ops (.inr hxw)] at hc hwk
      refine (hI.fate x hx hc hwk).imp (fun hs => h.stopping.trans hs) ?_
      rintro ⟨q, wt, hw, hcl⟩
      refine ⟨q, wt, (h.waiting q wt).mpr hw, hcl.congr (by rw [h.sudog_other hxw]) ?_⟩
      -- the select of the claimed sudog has not fired, that of `x` has
      rintro cases sw site rfl
      rcases hsels.sel sw with ⟨hsw, -⟩ | ⟨-, heq⟩
      · cases hcl.1.symm.trans ((live_iff.mp hlive).2 sw hsw)
      · exact heq

end Claim

/-! ## §8. Waits that end -/

/-- An entry about the sudog `w` that is not a claim. -/
theorem Table.touch (h : Table cfg s) {op : SudogOp} (hop : op ≠ .claim) (he : Entry cfg s t op w e)
    (hsels : t.sels = s.sels) : Table cfg t :=
  h.keep he.nextSudog.ge he.nextSel.ge (fun x _ => he.sel x) (fun _ _ => he.ops (.inl hop.symm))
    he.withdraws (fun _ => .inl (by rw [hsels])) (he.known h) (he.fresh h)
    fun _ hge hx => absurd (he.nextSudog ▸ hx) (Nat.not_lt.mpr hge)

/-- Goroutine `g` stops waiting for `wt`, and none of its sudogs is live any
more. -/
theorem SudogInv.leave (hI : SudogInv cfg s) (hw : Waiting s g wt) (htable : Table cfg t)
    (hwaits : ∀ q wt', Waiting t q wt' ↔ q ≠ g ∧ Waiting s q wt')
    (hu : ∀ q, q ≠ g → Untouched s t q) (hn : t.nextSudog = s.nextSudog)
    (hwd : ∀ sw, (∀ cases site, wt ≠ .select cases sw site) → withdraws t.trace sw = withdraws s.trace sw)
    (hch : t.channels = s.channels)
    (hoffer : ∀ x, sudogOps t.trace .offer x = sudogOps s.trace .offer x)
    (hsel : ∀ x, (t.sudogs x).sel = (s.sudogs x).sel)
    (hlive : ∀ x, t.live x = true → s.live x = true ∧ ¬ Holds s x wt)
    (hclaims : ∀ x, sudogOps t.trace .claim x = sudogOps s.trace .claim x)
    (hwakes : ∀ x, sudogOps t.trace .wake x = [] → sudogOps s.trace .wake x = [])
    (hstop : t.stopping = s.stopping)
    (hgone : s.stopping = true ∨ ∀ x, x < s.nextSudog → sudogOps s.trace .claim x ≠ [] → sudogOps t.trace .wake x = [] → Claimed s x wt → False)
    (hothers : ∀ q wt' x, q ≠ g → Waiting s q wt' → x < s.nextSudog → Claimed s x wt' → Claimed t x wt') :
    SudogInv cfg t := by
  refine ⟨htable, fun q wt' hw' => ?_, fun hw hw' => hI.unique ((hwaits ..).mp hw).2
    ((hwaits ..).mp hw').2, fun id b x hq => ?_, fun x hx hc hwk => ?_⟩
  · obtain ⟨hne, hw'⟩ := (hwaits q wt').mp hw'
    refine (hu q hne).waitOK_of_eq (hI.waits q wt' hw') hn fun cases sw site hwt => hwd sw ?_
    rintro cases' site' rfl
    subst hwt
    exact hne (hI.unique hw' hw)
  · have hq : Queued s id b x := by
      unfold Queued at hq ⊢
      rwa [hch] at hq
    refine hI.queued_old hq hn.ge (fun _ => hoffer x) (fun _ => hsel x) fun _ hl => ?_
    obtain ⟨hl, hnot⟩ := hlive x hl
    refine ⟨hl, fun q wt' hw' hholds => (hwaits q wt').mpr ⟨?_, hw'⟩⟩
    rintro rfl
    cases hw.2.symm.trans hw'.2
    exact hnot hholds
  · rw [hclaims] at hc
    rw [hn] at hx
    rw [hstop]
    rcases hgone with hs | hgone
    · exact .inl hs
    · refine (hI.fate x hx hc (hwakes x hwk)).imp_right ?_
      rintro ⟨q, wt', hw', hcl⟩
      have hne : q ≠ g := by
        rintro rfl
        cases hw.2.symm.trans hw'.2
        exact hgone x hx hc hwk hcl
      exact ⟨q, wt', (hwaits q wt').mpr ⟨hne, hw'⟩, hothers q wt' x hne hw' hx hcl⟩

/-- The waits, when goroutine `g` stops waiting. -/
theorem waiting_setWait_none :
    Waiting (s.setWait g none) q wt ↔ q ≠ g ∧ Waiting s q wt := by
  by_cases hq : q = g
  · subst hq
    refine ⟨fun hw => ?_, fun hw => absurd rfl hw.1⟩
    cases hw.2.symm.trans (setWait_wait_self ..)
  · rw [Waiting, Waiting, setWait_other _ _ _ _ hq]
    exact (and_iff_right hq).symm

/-- **A waiting operation that a counterpart has completed**: it was claimed,
and it has not returned yet. -/
theorem SudogInv.claimed_spec (hI : SudogInv cfg s) (hw : Waiting s g wt) (hc : Claimed s w wt) :
    w < s.nextSudog ∧ (s.sudogs w).gid = g ∧
      sudogOps s.trace .claim w ≠ [] ∧ sudogOps s.trace .wake w = [] := by
  have hplain : ∀ {id b}, Owns s g w id b → (s.sudogs w).done = true →
      sudogOps s.trace .claim w ≠ [] := by
    intro id b hown hdone
    obtain ⟨o, id', b', v, -, hlife⟩ := hI.table.known w hown.lt
    exact (hlife.done hdone).resolve_right fun h => h hown.abandon
  have hok := hI.waits g wt hw
  cases wt with
  | send id x =>
    obtain ⟨rfl, hdone⟩ := hc
    have hown : Owns s g x id true := hok
    exact ⟨hown.lt, hown.gid, hplain hown hdone, hown.wake⟩
  | recv id x =>
    obtain ⟨rfl, hdone⟩ := hc
    have hown : Owns s g x id false := hok
    exact ⟨hown.lt, hown.gid, hplain hown hdone, hown.wake⟩
  | select cases sw =>
    obtain ⟨hlt, hsel, hcl⟩ := hI.table.sg sw w hc.2
    have hown := OwnsSelect.cases hok w hlt hsel
    exact ⟨hlt, hown.gid, hcl, hown.wake⟩
  | _ => exact hc.elim

/-- A sudog of the operation is not live once the operation is completed. -/
theorem Claimed.not_live (hc : Claimed s w wt) (hh : Holds s x wt) : s.live x = false := by
  refine Bool.eq_false_iff.mpr fun hl => ?_
  obtain ⟨hdone, hf⟩ := live_iff.mp hl
  cases wt with
  | send | recv => cases hh; cases hc.1; cases hc.2.symm.trans hdone
  | select cases sw => cases hc.1.symm.trans (hf sw hh)
  | _ => exact hh.elim

/-- A waiting operation has one completed sudog. -/
theorem Claimed.unique (hc : Claimed s w wt) (hx : Claimed s x wt) : x = w := by
  cases wt with
  | send | recv => exact hx.1.symm.trans hc.1
  | select => exact Option.some.inj (hx.2.symm.trans hc.2)
  | _ => exact hc.elim

/-- The clock of a goroutine that wakes has what the counterpart published. -/
theorem le_wakeUp {st : Stamp} (hst : (s.sudogs w).peer = some st) (ticks : Bool) :
    st.clock.get ≤ ((s.wakeUp cfg g w ticks).clockOf g).get := by
  have hself : (s.wakeUp cfg g w ticks).clockOf g = _ := clockOf_setClock_self ..
  have hacq : ((s.setWait g none).acquire g (s.sudogs w).peer).clockOf g =
      mergeStamp ((s.setWait g none).clockOf g) (s.sudogs w).peer := clockOf_setClock_self ..
  have hle := stamp_le_mergeStamp ((s.setWait g none).clockOf g) st
  rw [hself, hacq, hst]
  split
  · exact hle.trans (VectorClock.Clock.le_tick _ g)
  · exact hle

theorem SudogInv.wakeUp (hI : SudogInv cfg s) (hw : Waiting s g wt) (hc : Claimed s w wt)
    (ticks : Bool) : SudogInv cfg (s.wakeUp cfg g w ticks) := by
  obtain ⟨hlt, hgid, hcl, hwk₀⟩ := hI.claimed_spec hw hc
  have hself : SudogOK cfg (s.wakeUp cfg g w ticks).trace w (s.sudogs w) := by
    refine (hI.table.known w hlt).wake hcl hwk₀ rfl hgid.symm fun c hmem hst => ?_
    exact Acquired.of_acquire (lt_of_mem_keyed hmem) hst.symm fun st hst => le_wakeUp hst ticks
  refine hI.leave hw (hI.table.touch (by decide) ⟨rfl, rfl, rfl, hlt, hself, fun _ _ => rfl,
    fun _ => rfl, rfl, rfl⟩ rfl) (fun q wt' => ?_) (fun q hq => ?_) rfl
    (fun sw _ => withdraws_snoc_none rfl) rfl (fun x => sudogOps_snoc_other rfl (.inl (by decide)))
    (fun _ => rfl) (fun x hl => ⟨hl, fun hh => ?_⟩)
    (fun x => sudogOps_snoc_other rfl (.inl (by decide))) (fun x hwk => ?_) rfl
    (.inr fun x _ _ hwk hcl => ?_) fun _ _ _ _ _ _ hcl => hcl
  · rw [← waiting_setWait_none]
    exact (waiting_setClock ..).trans (waiting_setClock ..)
  · refine ⟨fun _ _ => ⟨rfl, rfl, rfl⟩, fun x op _ hx _ => ?_, le_refl _, le_refl _⟩
    exact sudogOps_snoc_other rfl (.inr fun hxw => hq (by rw [← hx, hxw, hgid]))
  · cases hl.symm.trans (hc.not_live hh)
  · by_cases hxw : x = w
    · rw [hxw]; exact hwk₀
    · exact (sudogOps_snoc_other rfl (.inr hxw)).symm.trans hwk
  · -- the operation that returns is the one with an entry for it
    rw [hc.unique hcl, show (s.wakeUp cfg g w ticks).trace = s.trace ++ [_] from rfl,
      sudogOps_snoc rfl] at hwk
    exact List.append_ne_nil_of_right_ne_nil _ (List.cons_ne_nil _ _) hwk

/-- A plain operation that waits owns its sudog. -/
theorem SudogInv.owns_of_plain (hI : SudogInv cfg s) (hw : Waiting s g wt) (hp : Plain w wt) :
    ∃ id onSend, Owns s g w id onSend := by
  have hok := hI.waits g wt hw
  cases wt with
  | send id => cases hp; exact ⟨id, true, hok⟩
  | recv id => cases hp; exact ⟨id, false, hok⟩
  | _ => exact hp.elim

theorem Plain.eq_of_holds (hp : Plain w wt) (hh : Holds s x wt) :
    x = w := by
  cases wt with
  | send | recv => exact hh.symm.trans hp
  | _ => exact hp.elim

theorem Plain.eq_of_claimed (hp : Plain w wt) (hc : Claimed s x wt) :
    x = w ∧ (s.sudogs w).done = true := by
  cases wt with
  | send | recv => cases hp; cases hc.1; exact ⟨rfl, hc.2⟩
  | _ => exact hp.elim

theorem Plain.not_done (hp : Plain w wt) (hun : Unclaimed s wt) :
    (s.sudogs w).done = false := by
  cases wt with
  | send | recv => cases hp; exact hun
  | _ => exact hp.elim

theorem SudogInv.abandonOffer (hI : SudogInv cfg s) (hw : Waiting s g wt) (hp : Plain w wt)
    (hun : Unclaimed s wt ∨ s.stopping = true) :
    SudogInv cfg (s.abandonOffer g w) := by
  obtain ⟨id, onSend, hown⟩ := hI.owns_of_plain hw hp
  have hself : (s.abandonOffer g w).sudogs w = { s.sudogs w with done := true } :=
    update_self ..
  have hother : ∀ x, x ≠ w → (s.abandonOffer g w).sudogs x = s.sudogs x := fun x hx =>
    update_of_ne hx ..
  have howner : ∀ x, SameOwner (s.sudogs x) ((s.abandonOffer g w).sudogs x) := by
    intro x
    by_cases hx : x = w
    · rw [hx, hself]; exact ⟨rfl, rfl, rfl⟩
    · rw [hother x hx]; exact ⟨rfl, rfl, rfl⟩
  have hok : SudogOK cfg (s.abandonOffer g w).trace w ((s.abandonOffer g w).sudogs w) := by
    rw [hself]
    exact (hI.table.known w hown.lt).abandon rfl
  refine hI.leave hw (hI.table.touch (by decide) ⟨rfl, rfl, rfl, hown.lt, hok, hother,
    fun x => (howner x).2.1, rfl, rfl⟩ rfl) (fun q wt' => waiting_setWait_none) (fun q hq => ?_) rfl
    (fun sw _ => withdraws_snoc_none rfl) rfl (fun x => sudogOps_snoc_other rfl (.inl (by decide)))
    (fun x => (howner x).2.1) (fun x hl => ?_)
    (fun x => sudogOps_snoc_other rfl (.inl (by decide)))
    (fun x hwk => (sudogOps_snoc_other rfl (.inl (by decide))).symm.trans hwk) rfl
    (hun.symm.imp_right fun hun x _ _ _ hcl => ?_) fun q wt' x hq hw' hx hcl => ?_
  · refine ⟨fun x _ => howner x, fun x op _ hx _ => ?_, le_refl _, le_refl _⟩
    exact sudogOps_snoc_other rfl (.inr fun hxw => hq (by rw [← hx, hxw, hown.gid]))
  · rw [live_iff] at hl
    have hxw : x ≠ w := by
      rintro rfl
      rw [hself] at hl
      cases hl.1
    rw [hother x hxw] at hl
    exact ⟨live_iff.mpr hl, fun hh => hxw (hp.eq_of_holds hh)⟩
  · cases (hp.eq_of_claimed hcl).2.symm.trans (hp.not_done hun)
  · -- the sudog of another goroutine's operation is another one
    have hxw : x ≠ w := by
      rintro rfl
      exact hq ((hI.claimed_spec hw' hcl).2.1.symm.trans hown.gid)
    exact hcl.congr (by rw [hother x hxw]) fun _ _ _ _ => rfl

section Withdraw

variable {sw : SelRef}

theorem withdraw_sels_self : (s.withdraw g sw).sels sw = { s.sels sw with fired := true } :=
  update_self ..

theorem withdraw_sels_other {y : SelRef} (hy : y ≠ sw) : (s.withdraw g sw).sels y = s.sels y :=
  update_of_ne hy ..

theorem withdraw_ops (op : SudogOp) (x : SudogRef) :
    sudogOps (s.withdraw g sw).trace op x = sudogOps s.trace op x :=
  sudogOps_snoc_none rfl

theorem withdraw_withdraws_other {y : SelRef} (hy : y ≠ sw) :
    withdraws (s.withdraw g sw).trace y = withdraws s.trace y :=
  keyed_snoc_other rfl hy

/-- A select takes its offers back for the first time. -/
theorem Table.withdraw (h : Table cfg s) (hlt : sw < s.nextSel)
    (hfirst : withdraws s.trace sw = []) : Table cfg (s.withdraw g sw) := by
  have hwd : withdraws (s.withdraw g sw).trace sw =
      withdraws s.trace sw ++ [(_, s.trace.length)] := keyed_snoc rfl
  rw [hfirst, List.nil_append] at hwd
  refine ⟨fun x hx => (h.known x hx).congr (withdraw_ops · x), fun x hx op => ?_, h.sel_lt, ?_, ?_,
    ?_, ?_⟩
  · rw [withdraw_ops]; exact h.fresh x hx op
  · intro x y hx hs hc
    rw [withdraw_ops] at hc
    obtain ⟨hf, hsg⟩ := h.claimed x y hx hs hc
    by_cases hy : y = sw
    · subst hy; rw [withdraw_sels_self]; exact ⟨rfl, hsg⟩
    · rw [withdraw_sels_other hy]; exact ⟨hf, hsg⟩
  · intro y x hsg
    rw [withdraw_ops]
    refine h.sg y x ?_
    by_cases hy : y = sw
    · subst hy; rw [withdraw_sels_self] at hsg; exact hsg
    · rwa [withdraw_sels_other hy] at hsg
  · intro y hf
    by_cases hy : y = sw
    · subst hy
      rw [hwd]
      exact .inl (List.cons_ne_nil _ _)
    · rw [withdraw_sels_other hy] at hf ⊢
      rw [withdraw_withdraws_other hy]
      exact h.fired y hf
  · intro y x hx
    by_cases hy : y = sw
    · subst hy
      rw [hwd, List.mem_singleton] at hx
      subst hx
      refine ⟨hlt, by rw [withdraw_sels_self], fun z _ _ c hmem => ?_⟩
      rw [withdraw_ops] at hmem
      exact lt_of_mem_keyed hmem
    · rw [withdraw_withdraws_other hy] at hx
      obtain ⟨hylt, hf, hc⟩ := h.withdrawn y x hx
      refine ⟨hylt, by rw [withdraw_sels_other hy]; exact hf, fun z hz hs c hmem => ?_⟩
      rw [withdraw_ops] at hmem
      exact hc z hz hs c hmem

/-- A select that has not been completed has no claimed case. -/
theorem SudogInv.unclaimed_select (hI : SudogInv cfg s)
    (hw : Waiting s g (.select cases sw site)) (hun : Unclaimed s (.select cases sw site))
    (hc : Claimed s x (.select cases sw site)) : False := by
  have hown : OwnsSelect s g cases sw := hI.waits g _ hw
  rcases hun with hf | rfl
  · cases hc.1.symm.trans hf
  · obtain ⟨hx, hsel, -⟩ := hI.table.sg sw x hc.2
    obtain ⟨c, id, hcase, -⟩ := (hown.cases x hx hsel).case
    cases hcase

theorem SudogInv.withdraw (hI : SudogInv cfg s) (hw : Waiting s g (.select cases sw site))
    (hun : Unclaimed s (.select cases sw site) ∨ s.stopping = true) :
    SudogInv cfg (s.withdraw g sw) := by
  have hown : OwnsSelect s g cases sw := hI.waits g _ hw
  refine hI.leave hw (hI.table.withdraw hown.lt hown.withdraw) (fun q wt' => waiting_setWait_none)
    (fun q _ => ?_) rfl (fun y hy => withdraw_withdraws_other ?_) rfl (withdraw_ops .offer)
    (fun _ => rfl) (fun x hl => ?_) (withdraw_ops .claim)
    (fun x hwk => (withdraw_ops .wake x).symm.trans hwk) rfl
    (hun.symm.imp_right fun hun x _ _ _ hcl => hI.unclaimed_select hw hun hcl)
    fun q wt' x hq hw' hx hcl => ?_
  · exact ⟨fun _ _ => ⟨rfl, rfl, rfl⟩, fun x op _ _ _ => withdraw_ops op x, le_refl _, le_refl _⟩
  · rintro rfl; exact hy cases site rfl
  · obtain ⟨hdone, hf⟩ := live_iff.mp hl
    have hne : ∀ y, (s.sudogs x).sel = some y → y ≠ sw := by
      rintro y hs rfl
      have hfired := hf y hs
      rw [withdraw_sels_self] at hfired
      cases hfired
    refine ⟨live_iff.mpr ⟨hdone, fun y hs => ?_⟩, fun hh => hne sw hh rfl⟩
    have hfired := hf y hs
    rwa [withdraw_sels_other (hne y hs)] at hfired
  · refine hcl.congr rfl ?_
    rintro cases' y site' rfl
    refine withdraw_sels_other ?_
    rintro rfl
    exact hq (hI.unique hw' hw)

end Withdraw

/-! ## §9. A select that begins to wait -/

theorem Table.newSelect (h : Table cfg s) : Table cfg s.newSelect := by
  refine h.keep (le_refl _) (Nat.le_succ _) (fun _ _ => rfl) (fun _ _ => rfl) (fun _ => rfl)
    (fun sw => ?_) h.known h.fresh fun w hge hw => absurd hw (Nat.not_lt.mpr hge)
  by_cases hsw : sw = s.nextSel
  · exact .inr ⟨hsw.ge, by rw [hsw]; exact update_self ..⟩
  · exact .inl (update_of_ne hsw ..)

theorem SudogInv.parkSelect (hI : SudogInv cfg s) (hrun : Running s g)
    (cases : List (SelectCase V T)) (site : String) :
    SudogInv cfg (s.newSelect.setWait g (some (.select cases s.nextSel site))) := by
  have hT := hI.table
  have htable : Table cfg (s.newSelect.setWait g (some (.select cases s.nextSel site))) :=
    hT.newSelect.frame rfl rfl rfl rfl (fun _ _ => rfl) fun _ => rfl
  have hold : ∀ q wt, Waiting (s.newSelect.setWait g (some (.select cases s.nextSel site))) q wt →
      (q = g ∧ wt = .select cases s.nextSel site) ∨ (q ≠ g ∧ Waiting s q wt) :=
    fun q wt => waiting_setWait (s := s.newSelect)
  have hlt : ∀ q cs sw st, Waiting s q (.select cs sw st) → sw < s.nextSel := fun q cs sw st hw =>
    OwnsSelect.lt (hI.waits q _ hw)
  have hkeep : ∀ q wt, Waiting s q wt →
      Waiting (s.newSelect.setWait g (some (.select cases s.nextSel site))) q wt := by
    intro q wt hw
    refine Waiting.setWait (s := s.newSelect) hw fun hg => ?_
    cases hrun.2.symm.trans hg.2
  refine ⟨htable, fun q wt hw => ?_, ?_, fun id b w hq => ?_, fun w hlt' hc hwk => ?_⟩
  · rcases hold q wt hw with ⟨rfl, rfl⟩ | ⟨-, hw⟩
    · refine ⟨Nat.lt_succ_self _, ?_, fun w hw hs => ?_⟩
      · refine List.eq_nil_iff_forall_not_mem.mpr fun x hx => ?_
        exact absurd (hT.withdrawn _ x hx).1 (lt_irrefl _)
      · exact absurd (hT.sel_lt w _ hw hs) (lt_irrefl _)
    · have hu : Untouched s (s.newSelect.setWait g (some (.select cases s.nextSel site))) q :=
        ⟨fun _ _ => ⟨rfl, rfl, rfl⟩, fun _ _ _ _ _ => rfl, le_refl _, Nat.le_succ _⟩
      exact hu.waitOK_of_eq (hI.waits q wt hw) rfl fun _ _ _ _ => rfl
  · intro q q' cs cs' sw st st' hw hw'
    rcases hold _ _ hw with ⟨rfl, heq⟩ | ⟨-, hold₁⟩
    · cases heq
      rcases hold _ _ hw' with ⟨rfl, -⟩ | ⟨-, hold₂⟩
      · rfl
      · exact absurd (hlt _ _ _ _ hold₂) (lt_irrefl _)
    · rcases hold _ _ hw' with ⟨rfl, heq⟩ | ⟨-, hold₂⟩
      · cases heq
        exact absurd (hlt _ _ _ _ hold₁) (lt_irrefl _)
      · exact hI.unique hold₁ hold₂
  · refine hI.queued_old hq (le_refl _) (fun _ => rfl) (fun _ => rfl) fun hw hl => ?_
    obtain ⟨hdone, hf⟩ := live_iff.mp hl
    refine ⟨live_iff.mpr ⟨hdone, fun sw hs => ?_⟩, fun q wt hwait _ => hkeep q wt hwait⟩
    have hf := hf sw hs
    rwa [show (s.newSelect.setWait g _).sels sw = s.sels sw from
      update_of_ne (Nat.ne_of_lt (hT.sel_lt w sw hw hs)) ..] at hf
  · refine (hI.fate w hlt' hc hwk).imp_right ?_
    rintro ⟨q, wt, hwait, hcl⟩
    refine ⟨q, wt, hkeep q wt hwait, hcl.congr rfl ?_⟩
    rintro cs sw st rfl
    exact update_of_ne (Nat.ne_of_lt (hlt _ _ _ _ hwait)) ..

/-! ## §10. Every part -/

/-- A wait that may end without a trace has no sudog that is live in the
queue of an open channel. -/
theorem SudogInv.ends (hI : SudogInv cfg s) (hw : Waiting s g wt) (he : Ends s wt)
    (hh : Holds s w wt) (hq : Queued s id onSend w) (hl : s.live w = true) : False := by
  obtain ⟨-, ⟨v, o, hone, hk⟩, -⟩ := hI.queued id onSend w hq
  obtain ⟨c, hc, hopen, -⟩ := hq
  -- the channel it waits on is the one it is queued on, but that one is closed
  have hplain : ∀ {id' b}, Owns s g w id' b →
      (∃ ch, s.channels id' = some ch ∧ ch.closed = true) → False := by
    rintro id' b hown ⟨ch, hch, hcl⟩
    obtain ⟨v', o', hone', hk'⟩ := hown.offered
    cases List.singleton_inj.mp (hone.symm.trans hone')
    have hkey := hk.symm.trans hk'
    simp only [Kind.offer.injEq] at hkey
    obtain ⟨-, rfl, -⟩ := hkey
    cases hc.symm.trans hch
    cases hopen.symm.trans hcl
  have hok := hI.waits g wt hw
  cases wt with
  | send | recv => cases hh; exact hplain hok he.2
  | select cases sw => cases ((live_iff.mp hl).2 sw hh).symm.trans he.1
  | _ => exact hh.elim

theorem Ends.not_claimed (he : Ends s wt) (hc : Claimed s w wt) : False := by
  cases wt with
  | send | recv => cases hc.1; cases hc.2.symm.trans he.1
  | select cases => cases hc.2.symm.trans he.2
  | _ => exact hc.elim

/-- An entry of the trace that is not about a sudog or a select. The queues
of open channels only lose sudogs, and the waits are the same. -/
theorem SudogInv.other (hI : SudogInv cfg s) (hsg : t.sudogs = s.sudogs)
    (hn : t.nextSudog = s.nextSudog) (hsel : t.sels = s.sels) (hns : t.nextSel = s.nextSel)
    (htr : t.trace = s.trace ∨
      ∃ e, t.trace = s.trace ++ [e] ∧ e.onSudog = none ∧ e.onSel = none)
    (hq : ∀ id onSend w, Queued t id onSend w → Queued s id onSend w)
    (hstop : s.stopping = true → t.stopping = true)
    (hwaits : ∀ g wt, Waiting t g wt ↔ Waiting s g wt) : SudogInv cfg t := by
  refine hI.frame hsg hn hsel hns (fun op w => ?_) (fun sw => ?_) hq
    (fun g wt hw => .inl ((hwaits g wt).mp hw)) (fun g wt _ _ _ hw _ _ _ => (hwaits g wt).mpr hw)
    hstop fun g wt _ hw _ => (hwaits g wt).mpr hw
  · rcases htr with htr | ⟨e, htr, he, -⟩
    · rw [htr]
    · rw [htr]; exact sudogOps_snoc_none he
  · rcases htr with htr | ⟨e, htr, -, he⟩
    · rw [htr]
    · rw [htr]; exact withdraws_snoc_none he

/-- One channel is changed; its queues only lose sudogs, and it is not
opened. -/
theorem queued_of_setChan {ch ch' : ChanEntry V} (hch : s.channels id = some ch)
    (hset : t.channels = Function.update s.channels id (some ch'))
    (hcl : ch'.closed = false → ch.closed = false) (hsend : ch'.sendq ⊆ ch.sendq)
    (hrecv : ch'.recvq ⊆ ch.recvq) (j : ChanID) (b : Bool) (x : SudogRef) (hq : Queued t j b x) :
    Queued s j b x := by
  obtain ⟨c, hc, hopen, hmem⟩ := hq
  rw [hset] at hc
  by_cases hj : j = id
  · subst hj
    rw [update_self] at hc
    cases hc
    refine ⟨ch, hch, hcl hopen, ?_⟩
    cases b
    · exact hrecv hmem
    · exact hsend hmem
  · rw [update_of_ne hj] at hc
    exact ⟨c, hc, hopen, hmem⟩

/-- A new channel has empty queues. -/
theorem queued_of_createChannel {capacity : Nat} {refill : Option V} (j : ChanID) (b : Bool)
    (x : SudogRef) (hq : Queued (s.createChannel capacity refill) j b x) : Queued s j b x := by
  obtain ⟨c, hc, hopen, hmem⟩ := hq
  by_cases hj : j = s.nextChanID + 1
  · subst hj
    cases (update_self ..).symm.trans hc
    cases b <;> cases hmem
  · exact ⟨c, (update_of_ne hj ..).symm.trans hc, hopen, hmem⟩

/-- A goroutine that is started does not wait. -/
theorem waiting_fork (hB : Base s) {group : Option Prim} (q : Gid) (wt : Wait V T) :
    Waiting ({ s with nextGID := s.nextGID + 1 }.fork g (s.nextGID + 1) group site) q wt ↔
      Waiting s q wt := by
  refine (waiting_setClock ..).trans ?_
  by_cases hq : q = s.nextGID + 1
  · subst hq
    have hborn := (hB.unborn (s.nextGID + 1) (Int.lt_succ _)).1
    simp [Waiting, hborn]
  · simp [Waiting, hq]

theorem waiting_exit (q : Gid) (wt : Wait V T) :
    Waiting (s.modify g fun r => { r with exited := true }) q wt ↔ Waiting s q wt := by
  have hsp := modify_field Goroutine.spawned s g q (f := fun r => { r with exited := true })
    fun _ => rfl
  have hwait := modify_field Goroutine.wait s g q (f := fun r => { r with exited := true })
    fun _ => rfl
  rw [Waiting, Waiting, hsp, hwait]

theorem SudogInv.setSync (hI : SudogInv cfg s) (k : SyncKey) (ms : MutexState) :
    SudogInv cfg (s.setSync k ms) :=
  hI.other rfl rfl rfl rfl (.inl rfl) (fun _ _ _ h => h) id fun _ _ => .rfl

/-- Acquiring from a sync primitive. -/
theorem SudogInv.syncAcquire (hI : SudogInv cfg s) (op : SyncOp) (p : Prim)
    (last rUnlock : Option Stamp) : SudogInv cfg (s.syncAcquire g op p last rUnlock) :=
  hI.other rfl rfl rfl rfl (.inr ⟨_, rfl, rfl, rfl⟩) (fun _ _ _ h => h) id
    fun _ _ => (waiting_setClock ..).trans (waiting_setClock ..)

/-- Releasing a sync primitive. -/
theorem SudogInv.syncRelease (hI : SudogInv cfg s) (op : SyncOp) (p : Prim) (ms : MutexState) :
    SudogInv cfg (s.syncRelease g op p ms) :=
  hI.other rfl rfl rfl rfl (.inr ⟨_, rfl, rfl, rfl⟩) (fun _ _ _ h => h) id
    fun _ _ => waiting_setClock ..

/-- **Every part keeps the sudogs, the queues and the trace in agreement.** -/
theorem SudogInv.micro (hI : SudogInv cfg s) (hB : Base s) {o : Option Prim} (h : Micro cfg s o t) :
    SudogInv cfg t := by
  cases h with
  | quiet h =>
    refine hI.other h.sudogs h.nextSudog h.sels h.nextSel (.inl h.trace) (fun id b w hq => ?_)
      h.stopping fun g wt => by rw [Waiting, Waiting, h.spawned, h.wait]
    unfold Queued at hq ⊢
    rwa [h.channels] at hq
  | makeChan =>
    exact hI.other rfl rfl rfl rfl (.inl rfl) queued_of_createChannel id fun _ _ => .rfl
  | notify v hch =>
    exact hI.other rfl rfl rfl rfl (.inl rfl)
      (queued_of_setChan hch rfl id (fun _ h => h) fun _ h => h) id fun _ _ => .rfl
  | fork site h =>
    exact hI.other rfl rfl rfl rfl (.inr ⟨_, rfl, rfl, rfl⟩) (fun _ _ _ h => h) id (waiting_fork hB)
  | @memberFork g p site h =>
    have hB' : Base (s.addCounter p 1) := ⟨hB.unborn, hB.chan_le, hB.fits⟩
    exact hI.other rfl rfl rfl rfl (.inr ⟨_, rfl, rfl, rfl⟩) (fun _ _ _ h => h) id (waiting_fork hB')
  | exit h =>
    refine hI.other rfl rfl rfl rfl (.inl rfl) (fun _ _ _ h => h) id fun q wt => ?_
    exact waiting_exit ..
  | @memberExit g p h =>
    refine hI.other rfl rfl rfl rfl (.inr ⟨_, rfl, rfl, rfl⟩) (fun _ _ _ h => h) id fun q wt => ?_
    exact (waiting_setClock ..).trans (waiting_exit ..)
  | @park g wt h hb =>
    have hkeep : ∀ q wt', Waiting s q wt' → Waiting (s.setWait g (some wt)) q wt' :=
      fun q wt' hw => hw.setWait fun hg => by cases h.2.symm.trans hg.2
    refine hI.frame rfl rfl rfl rfl (fun _ _ => rfl) (fun _ => rfl) (fun _ _ _ h => h)
      (fun q wt' hw => ?_) (fun q wt' _ _ _ hw _ _ _ => hkeep q wt' hw) id
      fun q wt' _ hw _ => hkeep q wt' hw
    rcases waiting_setWait hw with ⟨-, rfl⟩ | ⟨-, hw⟩
    · exact .inr hb
    · exact .inl hw
  | @parkOffer g wt id ch onSend val h hb hch hcap hopen =>
    exact hI.offer (.inl ⟨h, hb, rfl⟩) hch hopen
  | parkSelect cases site h => exact hI.parkSelect h cases site
  | @unpark g wt h he =>
    refine hI.frame rfl rfl rfl rfl (fun _ _ => rfl) (fun _ => rfl) (fun _ _ _ h => h)
      (fun q wt' hw => .inl (waiting_setWait_none.mp hw).2) ?_ id ?_
    · intro q wt' w id b hw hh hq hl
      refine waiting_setWait_none.mpr ⟨?_, hw⟩
      rintro rfl
      cases h.2.symm.trans hw.2
      exact hI.ends h he hh hq hl
    · intro q wt' w hw hc
      refine waiting_setWait_none.mpr ⟨?_, hw⟩
      rintro rfl
      cases h.2.symm.trans hw.2
      exact he.not_claimed hc
  | @offer g cases sw site id ch c i h hidx hid hf hch hcap hopen =>
    have hoff : Offers s g id c.send c.val (some sw) i (.select cases sw site) :=
      .inr ⟨cases, sw, site, c, rfl, rfl, h, hf, hidx, hid, rfl, rfl⟩
    have hI := hI.offer hoff hch hopen
    rwa [setWait_eq_self h] at hI
  | @claimSend g id ch w rest val h hch hcap hopen hpop =>
    obtain ⟨hmem, hlive, hsub⟩ := popLive_spec hpop
    have hq : Queued s id false w := ⟨ch, hch, hopen, hmem⟩
    refine hI.claimBy ⟨rfl, update_self .., fun x hx => update_of_ne hx ..,
      rfl, rfl, rfl, rfl, rfl, ?_⟩ h hq hlive fun h => by cases h
    exact queued_of_setChan hch rfl (fun h => h) (fun _ h => h) hsub
  | @claimRecv g id ch w rest h hch hcap hopen hpop =>
    obtain ⟨hmem, hlive, hsub⟩ := popLive_spec hpop
    have hq : Queued s id true w := ⟨ch, hch, hopen, hmem⟩
    refine hI.claimBy ⟨rfl, rfl, fun _ _ => rfl, rfl, rfl, rfl, rfl, rfl, ?_⟩ h hq hlive
      fun _ => rfl
    exact queued_of_setChan hch rfl (fun h => h) hsub fun _ h => h
  | wakeUp ticks h hc => exact hI.wakeUp h hc ticks
  | abandonOffer h hp hun => exact hI.abandonOffer h hp hun
  | withdraw h hun => exact hI.withdraw h hun
  | bufferedSend _ h hch | recvBuffered h hch =>
    exact hI.other rfl rfl rfl rfl (.inr ⟨_, rfl, rfl, rfl⟩)
      (queued_of_setChan hch rfl (fun h => h) (fun _ h => h) fun _ h => h) id
      fun _ _ => (waiting_setClock ..).trans (waiting_setClock ..)
  | close h hch =>
    exact hI.other rfl rfl rfl rfl (.inr ⟨_, rfl, rfl, rfl⟩)
      (queued_of_setChan hch rfl (fun h => by cases h) (fun _ h => h) fun _ h => h) id
      fun _ _ => waiting_setClock ..
  | addCounter p => exact hI.setSync p.key _
  | refuse => exact hI.other rfl rfl rfl rfl (.inl rfl) (fun _ _ _ h => h) id fun _ _ => .rfl
  | access h | recvRefill h =>
    exact hI.other rfl rfl rfl rfl (.inr ⟨_, rfl, rfl, rfl⟩) (fun _ _ _ h => h) id fun _ _ => .rfl
  | recvClosed elem h =>
    exact hI.other rfl rfl rfl rfl (.inr ⟨_, rfl, rfl, rfl⟩) (fun _ _ _ h => h) id
      fun _ _ => waiting_setClock ..
  | lock p | rLock p => exact (hI.setSync p.key _).syncAcquire _ p _ _
  | unlock p | rUnlock p | signal p | done p => exact hI.syncRelease _ p _
  | condWait p | groupWait p => exact hI.syncAcquire _ p _ _

theorem sudogInv_init (cfg : Config V T) : SudogInv cfg (init cfg) where
  table :=
    { known := fun _ h => absurd h (Nat.not_lt_zero _)
      fresh := fun _ _ _ => rfl
      sel_lt := fun _ _ h => absurd h (Nat.not_lt_zero _)
      claimed := fun _ _ h => absurd h (Nat.not_lt_zero _)
      sg := fun _ _ h => nomatch h
      fired := fun _ h => nomatch h
      withdrawn := fun _ _ h => nomatch h }
  waits _ _ h := nomatch h.2
  unique h := nomatch h.2
  queued _ _ _ h := nomatch h.choose_spec.1
  fate _ h := absurd h (Nat.not_lt_zero _)

theorem sudogInv (h : Reachable cfg s) : SudogInv cfg s :=
  (h.invariant (sudogInv_init cfg) fun _ _ _ hB hm hI => hI.micro hB hm).2

end Steps

end Interpreter

end Giri.Interp
