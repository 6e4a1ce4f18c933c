/-
Giri.Interp.ChanTheorems — channels deliver, hand over once, and order.

Results about every reachable state, assembled from the invariants:

* `channel_delivers` — what is received is what was sent, in order; on an
  unbuffered channel every hand-over pairs one send with one receive.
* `fires_once` — a waiting operation is completed once, a select by one of
  its cases, and nothing is completed after it was given up.
* `no_wakeup_lost` — one that is completed can be resumed.
* `channel_edges` — each hand-over, send, receive and close passes a clock
  on, as the memory model wants it.

`Results.lean` ties the entries of the trace they speak of to what the
operations return.
-/
import Giri.Interp.Results

namespace Giri.Interp

open History

variable {V T : Type}

/-- The clock of entry `y` contains the clock that entry `x` published. -/
def Dominates (x y : Occ V T) : Prop :=
  x.2 < y.2 ∧ ∃ c, x.1.pub = some c ∧ c.get ≤ y.1.after.get

theorem Acquired.dominates {x y : Occ V T} (h : Acquired x y) (hpub : x.1.pub.isSome = true) :
    Dominates x y := by
  obtain ⟨c, hc⟩ := Option.isSome_iff_exists.mp hpub
  exact ⟨h.before, c, hc, h.clock c hc⟩

/-- The values sent into the buffer of a channel, in order. -/
def sentVals (tr : List (Event V T)) (id : ChanID) : List V :=
  (chanOps tr .send id).filterMap (·.1.kind.value)

/-- The values received from the buffer of a channel, in order. -/
def recvVals (tr : List (Event V T)) (id : ChanID) : List V :=
  (chanOps tr .recv id).filterMap (·.1.kind.value)

/-- **What was sent has been received or is in the buffer**, in this order. -/
theorem BufOK.sent_eq {b : Bool} {tr : List (Event V T)} {id : ChanID} {ch : ChanEntry V}
    (h : BufOK b (chanOps tr .send id) (chanOps tr .recv id) ch) :
    sentVals tr id = recvVals tr id ++ ch.buf.map (·.val) := by
  unfold sentVals recvVals
  generalize chanOps tr .send id = S at h ⊢
  generalize chanOps tr .recv id = R at h ⊢
  have hfm : ∀ l : List (Occ V T), l.filterMap (·.1.kind.value) =
      (l.map (·.1.kind.value)).filterMap fun o => o := by
    intro l; rw [List.filterMap_map]; rfl
  have hbuf : (S.drop R.length).map (·.1.kind.value) = ch.buf.map fun it => some it.val := by
    have := congrArg (List.map Prod.fst) h.buf
    simpa [List.map_map, Function.comp_def] using this.symm
  calc S.filterMap (·.1.kind.value)
      = ((S.take R.length).map (·.1.kind.value)).filterMap (fun o => o) ++
          ((S.drop R.length).map (·.1.kind.value)).filterMap (fun o => o) := by
        rw [← hfm, ← hfm, ← List.filterMap_append, List.take_append_drop]
    _ = R.filterMap (·.1.kind.value) ++ ch.buf.map (·.val) := by
        rw [← h.vals, hbuf, ← hfm, List.filterMap_map]
        simp

/-- Nothing goes through the buffer of an unbuffered channel. -/
theorem BufOK.unbuffered {b : Bool} {S R : List (Occ V T)} {ch : ChanEntry V}
    (h : BufOK b S R ch) (hcap : ch.capacity = 0) : S = [] ∧ R = [] := by
  have hbuf : ch.buf.length = 0 := Nat.le_zero.mp (hcap ▸ h.room)
  have hlen : S.length = R.length := by rw [h.count, hbuf]; rfl
  have hR : R = [] := by
    -- the first receive would be after the first send, and before it
    by_contra hne
    have hpos : 0 < R.length := List.length_pos_iff.mpr hne
    have hx : S[0]? = some (S.get ⟨0, hlen ▸ hpos⟩) := List.getElem?_eq_getElem _
    have hy : R[0]? = some (R.get ⟨0, hpos⟩) := List.getElem?_eq_getElem _
    have h₁ := (h.recv_after 0 _ _ hx hy).before
    have h₂ := (h.send_after 0 _ _ hy (by rw [hcap]; exact hx)).before
    exact absurd h₁ (Nat.lt_asymm h₂)
  refine ⟨?_, hR⟩
  rw [← List.length_eq_zero_iff, hlen, hR]; rfl

namespace Interpreter

section Theorems

variable {cfg : Config V T} {s t : Interpreter V T} {g : Gid} {id : ChanID} {ch : ChanEntry V}
  {w : SudogRef}

/-! ## §1. Hand-overs -/

/-- Entry `c` hands the value `v` over between the goroutine that queued `w`
on channel `id`, at `o`, and its own. `onSend` says that the waiting half is
the send. -/
structure HandOver (s : Interpreter V T) (id : ChanID) (w : SudogRef) (v : V) (onSend : Bool)
    (o c : Occ V T) : Prop where
  offer : sudogOps s.trace .offer w = [o]
  offered : ∃ v₀ sel, o.1.kind = .offer w id onSend v₀ sel ∧ (onSend = true → v₀ = v)
  claim : sudogOps s.trace .claim w = [c]
  claimed : c.1.kind = .claim w id v
  before : o.2 < c.2
  other : c.1.gid ≠ o.1.gid

/-- The waiting half of the hand-over has returned, with the value, once. -/
def Returned (s : Interpreter V T) (w : SudogRef) (v : V) (o c : Occ V T) : Prop :=
  ∃ x, sudogOps s.trace .wake w = [x] ∧ x.1.kind = .wake w v ∧ x.1.gid = o.1.gid ∧ c.2 < x.2

/-- The waiting half of the hand-over has not returned: it still waits, or
everything has been stopped. -/
def Pending (s : Interpreter V T) (w : SudogRef) (o : Occ V T) : Prop :=
  sudogOps s.trace .wake w = [] ∧
    (s.stopping = true ∨ ∃ wt, Waiting s o.1.gid wt ∧ Claimed s w wt)

theorem SudogInv.lt_of_ops (hI : SudogInv cfg s) {op : SudogOp} (h : sudogOps s.trace op w ≠ []) :
    w < s.nextSudog := by
  by_contra hge
  exact h (hI.table.fresh w (Nat.le_of_not_lt hge) op)

/-- **Every claim is a hand-over.** -/
theorem SudogInv.handOver (hI : SudogInv cfg s) {v : V} {c : Occ V T}
    (hc : c ∈ sudogOps s.trace .claim w) (hk : c.1.kind = .claim w id v) :
    ∃ o onSend, HandOver s id w v onSend o c ∧ (Returned s w v o c ∨ Pending s w o) := by
  have hlt := hI.lt_of_ops (List.ne_nil_of_mem hc)
  obtain ⟨o, id', onSend, v₀, ho, hl⟩ := hI.table.known w hlt
  obtain ⟨d, hd⟩ : ∃ d, ClaimedBy cfg s.trace w (s.sudogs w) o id' onSend v₀ d := by
    rcases hl.claim with ⟨hnone, -⟩ | hd
    · rw [hnone] at hc; cases hc
    · exact hd
  obtain rfl : c = d := by rw [hd.only] at hc; exact List.mem_singleton.mp hc
  have hkind := hk.symm.trans hd.kind
  simp only [Kind.claim.injEq, true_and] at hkind
  obtain ⟨rfl, rfl⟩ := hkind
  refine ⟨o, onSend, ⟨ho.only, ⟨v₀, _, ho.kind, fun hs => (hd.value hs).symm⟩, hd.only, hd.kind,
    hd.acquired.before, fun heq => hd.other (heq.trans ho.gid)⟩, ?_⟩
  rcases hl.wake with hnone | ⟨c', x, hc', hx, hacq, hgid, hxk⟩
  · refine .inr ⟨hnone, (hI.fate w hlt (by rw [hd.only]; exact nofun) hnone).imp_right ?_⟩
    rintro ⟨q, wt, hw, hcl⟩
    obtain ⟨-, hq, -⟩ := hI.claimed_spec hw hcl
    exact ⟨wt, by rw [ho.gid, hq]; exact hw, hcl⟩
  · obtain rfl : c' = c := List.singleton_inj.mp (hc'.symm.trans hd.only)
    exact .inl ⟨x, hx, hxk, hgid.trans ho.gid.symm, hacq.before⟩

/-- A waiting operation returns a value only after a hand-over. -/
theorem SudogInv.claimed_of_wake (hI : SudogInv cfg s) {x : Occ V T}
    (hx : x ∈ sudogOps s.trace .wake w) : ∃ c, sudogOps s.trace .claim w = [c] ∧ Acquired c x := by
  obtain ⟨o, id', onSend, v₀, ho, hl⟩ :=
    hI.table.known w (hI.lt_of_ops (List.ne_nil_of_mem hx))
  rcases hl.wake with hnone | ⟨c, y, hc, hy, hacq, -⟩
  · rw [hnone] at hx; cases hx
  · rw [hy] at hx
    cases List.mem_singleton.mp hx
    exact ⟨c, hc, hacq⟩

/-- A claim on a channel is a claim of a sudog. -/
theorem claim_of_mem {c : Occ V T} (hc : c ∈ chanOps s.trace .claim id) :
    ∃ w v, c.1.kind = .claim w id v ∧ c ∈ sudogOps s.trace .claim w := by
  obtain ⟨hget, hon⟩ := mem_keyed.mp hc
  unfold Event.onChan Kind.onChan at hon
  split at hon <;> simp only [Option.some.injEq, Prod.mk.injEq, reduceCtorEq, false_and] at hon
  rename_i w id' v hk
  obtain ⟨-, rfl⟩ := hon
  refine ⟨w, v, hk, mem_keyed.mpr ⟨hget, ?_⟩⟩
  simp only [Event.onSudog, hk]

/-! ## §2. Delivery -/

/-- What the history of channel `id` says. -/
structure Delivers (cfg : Config V T) (s : Interpreter V T) (id : ChanID) (ch : ChanEntry V) :
    Prop where
  /-- Values come out of a buffer in the order in which they went in. -/
  buffered : sentVals s.trace id = recvVals s.trace id ++ ch.buf.map (·.val)
  room : ch.buf.length ≤ ch.capacity
  /-- A buffered channel has no hand-overs, an unbuffered one nothing else. -/
  kind : (0 < ch.capacity → chanOps s.trace .offer id = [] ∧ chanOps s.trace .claim id = []) ∧
    (ch.capacity = 0 → chanOps s.trace .send id = [] ∧ chanOps s.trace .recv id = [])
  /-- A hand-over is one send and one receive, with one value. -/
  handOver : ∀ c ∈ chanOps s.trace .claim id, ∃ w v o onSend,
    HandOver s id w v onSend o c ∧ (Returned s w v o c ∨ Pending s w o)
  wake : ∀ w, ∀ x ∈ sudogOps s.trace .wake w, ∃ c, sudogOps s.trace .claim w = [c] ∧ c.2 < x.2
  /-- After a close nothing is sent or handed over any more. -/
  closed : ∀ x ∈ chanOps s.trace .close id, ∀ op, op = .send ∨ op = .claim ∨ op = .offer →
    ∀ y ∈ chanOps s.trace op id, y.2 < x.2
  /-- A receive that fails does so after the close, when everything sent has
  been received, and yields the zero value. -/
  drained : ∀ y ∈ chanOps s.trace .recvClosed id, ch.buf = [] ∧
    (∃ x ∈ chanOps s.trace .close id, x.2 < y.2) ∧ (∀ r ∈ chanOps s.trace .recv id, r.2 < y.2) ∧
    ∃ elem, y.1.kind = .recvClosed id elem (cfg.chanZero elem)
  refill : chanOps s.trace .recvRefill id = []

theorem delivers (hs : Reachable cfg s) (hch : s.channels id = some ch)
    (href : ch.refill = none) : Delivers cfg s id ch := by
  have hI := sudogInv hs
  obtain ⟨hbuf, hclose, hrv⟩ := (chanInv hs).known id ch hch
  refine ⟨hbuf.sent_eq, hbuf.room, ⟨hrv, hbuf.unbuffered⟩, ?_, ?_, hclose.last, ?_,
    hclose.refill href⟩
  · intro c hc
    obtain ⟨w, v, hk, hmem⟩ := claim_of_mem hc
    obtain ⟨o, onSend, h⟩ := hI.handOver hmem hk
    exact ⟨w, v, o, onSend, h⟩
  · intro w x hx
    obtain ⟨c, hc, hacq⟩ := hI.claimed_of_wake hx
    exact ⟨c, hc, hacq.before⟩
  · intro y hy
    obtain ⟨⟨x, hx, hacq⟩, helem⟩ := hclose.recvClosed y hy
    exact ⟨(hclose.drained (List.ne_nil_of_mem hy)).2, ⟨x, hx, hacq.before⟩,
      hclose.recv_before y hy, helem⟩

/-- **Channels deliver values exactly.** In every reachable state the
history of a channel that is not a timer is as `Delivers` says; and every
step of a send, a receive or a select returns what it added to that
history. -/
theorem channel_delivers (hs : Reachable cfg s) (hch : s.channels id = some ch)
    (href : ch.refill = none) : Delivers cfg s id ch ∧
      ∀ a t g, Step cfg s a t → (Receives s g id a → RecvOutcome cfg t g id) ∧
        (∀ v, Sends s g id v a → SendOutcome t g id v) ∧
        ∀ cases, Selects s g cases a → SelectOutcome cfg t g cases := by
  refine ⟨delivers hs hch href, fun a t g hstep => ?_⟩
  have hI := sudogInv hs
  have hB := hs.base
  exact ⟨fun ha => ha.outcome hI hB hch hstep, fun v ha => ha.outcome hI hB hch hstep,
    fun cases ha => ha.outcome hI hB hstep⟩

/-- Two values go into a buffer, one comes out. -/
theorem channel_delivers_buffered : ∃ (s : Interpreter Nat Unit) (ch : ChanEntry Nat),
    Reachable (natConfig true) s ∧ s.channels 1 = some ch ∧ ch.refill = none ∧
      sentVals s.trace 1 = [5, 6] ∧ recvVals s.trace 1 = [5] ∧
      Delivers (natConfig true) s 1 ch := by
  have hs : Reachable (natConfig true) (reached (natConfig true)
      [.start 1 (.makeChan 2 ""), .start 1 (.send (some 1) 5 ""), .start 1 (.send (some 1) 6 ""),
        .start 1 (.recv (some 1) none "")]) := reachable_reached (by decide)
  exact ⟨_, _, hs, rfl, rfl, rfl, rfl, (channel_delivers hs rfl rfl).1⟩

/-- main sends 7 to a goroutine that waits for it, then calls os.Exit; the
waiting goroutine is aborted before it has run again. -/
def exitAfterSend : List (Action Nat Unit) :=
  [.start 1 (.makeChan 0 ""), .start 1 (.go ""), .start 2 (.recv (some 1) none ""),
    .start 1 (.send (some 1) 7 ""), .start 1 .halt, .abort 2]

/-- **A hand-over need not reach its receiver**: the send has completed, the
receive has failed, and nobody waits any more. -/
theorem handed_over_value_lost : ∃ s : Interpreter Nat Unit, Reachable (natConfig true) s ∧
    (∃ o c, HandOver s 1 0 7 false o c ∧ c.1.gid = 1 ∧ o.1.gid = 2) ∧
    (s.goroutines 1).ret = .sent true ∧ (s.goroutines 2).wait = none ∧
    (s.goroutines 2).ret = .received 0 false false ∧ sudogOps s.trace .wake 0 = [] := by
  refine ⟨reached (natConfig true) exitAfterSend, reachable_reached (by decide), ?_,
    rfl, rfl, rfl, rfl⟩
  exact ⟨_, _, ⟨rfl, ⟨0, none, rfl, nofun⟩, rfl, rfl, by decide, by decide⟩, rfl, rfl⟩

/-! ## §3. At most once -/

/-- The sudog `w` was queued for a case of the select `sw`. -/
def CaseOf (tr : List (Event V T)) (sw : SelRef) (w : SudogRef) : Prop :=
  ∃ o ∈ sudogOps tr .offer w, ∃ id onSend v, o.1.kind = .offer w id onSend v (some sw)

theorem SudogInv.caseOf (hI : SudogInv cfg s) {sw : SelRef} (h : CaseOf s.trace sw w) :
    w < s.nextSudog ∧ (s.sudogs w).sel = some sw := by
  obtain ⟨o, ho, id, onSend, v, hk⟩ := h
  have hlt := hI.lt_of_ops (List.ne_nil_of_mem ho)
  obtain ⟨o', id', onSend', v', ho', -⟩ := hI.table.known w hlt
  rw [ho'.only] at ho
  cases List.mem_singleton.mp ho
  have hkind := hk.symm.trans ho'.kind
  simp only [Kind.offer.injEq] at hkind
  exact ⟨hlt, hkind.2.2.2.2.symm⟩

/-- **Rendezvous and select fire exactly once.** -/
theorem fires_once (hs : Reachable cfg s) :
    (∀ w, (sudogOps s.trace .claim w).length ≤ 1) ∧
    (∀ sw w x, CaseOf s.trace sw w → CaseOf s.trace sw x →
      ∀ c ∈ sudogOps s.trace .claim w, ∀ d ∈ sudogOps s.trace .claim x, c = d) ∧
    (∀ sw w, CaseOf s.trace sw w → ∀ y ∈ withdraws s.trace sw,
      ∀ c ∈ sudogOps s.trace .claim w, c.2 < y.2) ∧
    (∀ w, ∀ y ∈ sudogOps s.trace .abandon w, ∀ c ∈ sudogOps s.trace .claim w, c.2 < y.2) ∧
    (∀ w, ∀ o ∈ sudogOps s.trace .offer w, ∀ c ∈ sudogOps s.trace .claim w,
      c.1.gid ≠ o.1.gid) ∧
    ∀ g cases sw site t, Waiting s g (.select cases sw site) → Step cfg s (.resume g) t →
      (∀ w, CaseOf s.trace sw w → sudogOps s.trace .claim w = []) →
      ∃ i c, cases[i]? = some c ∧ s.caseReady (some sw) c = true ∧
        t = (s.withdraw g sw).runCase cfg g cases i site ∧ (t.goroutines g).wait = none := by
  have hI := sudogInv hs
  have hB := hs.base
  refine ⟨fun w => ?_, fun sw w x hw hx c hc d hd => ?_, fun sw w hw y hy c hc => ?_,
    fun w y hy c hc => ?_, fun w o ho c hc => ?_, fun g cases sw site t hw hstep hnone => ?_⟩
  · by_contra hlen
    have hne : sudogOps s.trace .claim w ≠ [] := by
      rintro heq; rw [heq] at hlen; exact hlen (Nat.zero_le _)
    obtain ⟨o, id, onSend, v, -, hl⟩ := hI.table.known w (hI.lt_of_ops hne)
    rcases hl.claim with ⟨heq, -⟩ | ⟨c, hc⟩
    · exact hne heq
    · rw [hc.only] at hlen; exact hlen (le_refl _)
  · obtain ⟨hlt, hsel⟩ := hI.caseOf hw
    obtain ⟨hlt', hsel'⟩ := hI.caseOf hx
    -- a select remembers which of its cases was completed
    have h₁ := (hI.table.claimed w sw hlt hsel (List.ne_nil_of_mem hc)).2
    have h₂ := (hI.table.claimed x sw hlt' hsel' (List.ne_nil_of_mem hd)).2
    cases h₁.symm.trans h₂
    obtain ⟨o, id, onSend, v, -, hl⟩ := hI.table.known w hlt
    rcases hl.claim with ⟨heq, -⟩ | ⟨e, he⟩
    · rw [heq] at hc; cases hc
    · rw [he.only, List.mem_singleton] at hc hd
      exact hc.trans hd.symm
  · obtain ⟨hlt, hsel⟩ := hI.caseOf hw
    exact (hI.table.withdrawn sw y hy).2.2 w hlt hsel c hc
  · obtain ⟨o, id, onSend, v, -, hl⟩ := hI.table.known w (hI.lt_of_ops (List.ne_nil_of_mem hy))
    exact (hl.abandoned y hy).2 c hc
  · obtain ⟨o', id, onSend, v, ho', hl⟩ :=
      hI.table.known w (hI.lt_of_ops (List.ne_nil_of_mem ho))
    rw [ho'.only, List.mem_singleton] at ho
    rcases hl.claim with ⟨heq, -⟩ | ⟨e, he⟩
    · rw [heq] at hc; cases hc
    · rw [he.only, List.mem_singleton] at hc
      rw [ho, hc, ho'.gid]
      exact he.other
  · have hown : OwnsSelect s g cases sw := hI.waits g _ hw
    obtain ⟨hready, rfl⟩ := step_of_resume hstep hw
    have hfired : (s.sels sw).fired = false := by
      refine Bool.eq_false_iff.mpr fun hf => ?_
      rcases hI.table.fired sw hf with hwd | hsome
      · exact hwd hown.withdraw
      · obtain ⟨w, hsg⟩ := Option.isSome_iff_exists.mp hsome
        obtain ⟨hlt, hsel, hcl⟩ := hI.table.sg sw w hsg
        obtain ⟨c, id, -, -, o, ho, hk⟩ := (hown.cases w hlt hsel).case
        rw [hsel] at hk
        exact hcl (hnone w ⟨o, ho ▸ List.mem_singleton_self o, id, c.send, c.val, hk⟩)
    obtain ⟨i, hfirst⟩ : ∃ i, s.first (some sw) cases = some i := by
      simp only [ready, hfired, Bool.false_or, Bool.and_eq_true, Option.isSome_iff_exists] at hready
      exact hready.2
    obtain ⟨c, id, ch, hc, hid, hch, hcan⟩ := first_spec hfirst
    have heq : s.complete cfg g (.select cases sw site) =
        (s.withdraw g sw).runCase cfg g cases i site := by
      simp only [complete, selectWoken, hfired, first_withdraw, hfirst, Bool.false_eq_true, if_false]
    refine ⟨i, c, hc, ?_, heq, ?_⟩
    · simp only [caseReady, hid, Option.bind_some, hch]
      exact hcan
    · exact (selectWoken_outcome hI hB hw hready).2

/-- A goroutine waits in a select with two cases; main sends on the first
channel. -/
def sendToSelect : List (Action Nat Unit) :=
  [.start 1 (.makeChan 0 ""), .start 1 (.makeChan 0 ""), .start 1 (.go ""),
    .start 2 (.select [⟨some 1, false, 0, none⟩, ⟨some 2, false, 0, none⟩] true ""),
    .start 1 (.send (some 1) 7 "")]

theorem fires_once_select : ∃ s : Interpreter Nat Unit, Reachable (natConfig true) s ∧
    CaseOf s.trace 0 0 ∧ CaseOf s.trace 0 1 ∧ (sudogOps s.trace .claim 0).length = 1 ∧
      ∀ c ∈ sudogOps s.trace .claim 0, ∀ d ∈ sudogOps s.trace .claim 1, c = d := by
  have hs : Reachable (natConfig true) (reached (natConfig true) sendToSelect) :=
    reachable_reached (by decide)
  have h₀ : CaseOf (reached (natConfig true) sendToSelect).trace 0 0 :=
    ⟨_, List.mem_of_getElem? (i := 0) rfl, 1, false, 0, rfl⟩
  have h₁ : CaseOf (reached (natConfig true) sendToSelect).trace 0 1 :=
    ⟨_, List.mem_of_getElem? (i := 0) rfl, 2, false, 0, rfl⟩
  exact ⟨_, hs, h₀, h₁, rfl, (fires_once hs).2.1 0 0 1 h₀ h₁⟩

/-- The wait of a completed operation is over. -/
theorem SudogInv.ready_of_claimed (hI : SudogInv cfg s) {g : Gid} {wt : Wait V T}
    (hw : Waiting s g wt) (hc : Claimed s w wt) : s.ready wt = true := by
  cases wt with
  | send | recv =>
    obtain ⟨rfl, hdone⟩ := hc
    simp [ready, hdone]
  | select cases sw =>
    obtain ⟨hlt, hsel, -⟩ := hI.table.sg sw w hc.2
    obtain ⟨c, id, hget, -⟩ := (OwnsSelect.cases (hI.waits g _ hw) w hlt hsel).case
    have hne : cases ≠ [] := List.ne_nil_of_mem (List.mem_of_getElem? hget)
    simp [ready, hc.1, hne]
  | _ => exact hc.elim

/-- **No wake-up is lost.** For a queued operation that can still be claimed
its goroutine waits; and when one has been claimed, its goroutine has
returned from it or can be resumed, unless everything is being stopped. -/
theorem no_wakeup_lost (hs : Reachable cfg s) :
    (∀ id onSend w, Queued s id onSend w → s.live w = true →
      ∃ wt, Waiting s (s.sudogs w).gid wt ∧ Holds s w wt) ∧
    ∀ w, sudogOps s.trace .claim w ≠ [] → s.stopping = true ∨
      (∃ x ∈ sudogOps s.trace .wake w, x.1.gid = (s.sudogs w).gid) ∨
      ∃ wt, Waiting s (s.sudogs w).gid wt ∧ Claimed s w wt ∧ s.ready wt = true := by
  have hI := sudogInv hs
  constructor
  · intro id onSend w hq hl
    obtain ⟨hlt, -, hheld⟩ := hI.queued id onSend w hq
    obtain ⟨g, wt, hw, hh⟩ := hheld hl
    cases hI.gid_of_holds hw hh hlt
    exact ⟨wt, hw, hh⟩
  · intro w hc
    obtain ⟨o, id, onSend, v, -, hl⟩ := hI.table.known w (hI.lt_of_ops hc)
    rcases hl.wake with hnone | ⟨c, x, -, hx, -, hg, -⟩
    · rcases hI.fate w (hI.lt_of_ops hc) hc hnone with hstop | ⟨g, wt, hw, hcl⟩
      · exact .inl hstop
      · obtain ⟨-, rfl, -⟩ := hI.claimed_spec hw hcl
        exact .inr (.inr ⟨wt, hw, hcl, hI.ready_of_claimed hw hcl⟩)
    · exact .inr (.inl ⟨x, hx ▸ List.mem_singleton_self x, hg⟩)

theorem no_wakeup_lost_select : ∃ s : Interpreter Nat Unit, s.stopping = false ∧
    ∃ wt, Waiting s 2 wt ∧ Claimed s 0 wt ∧ s.ready wt = true := by
  have hs : Reachable (natConfig true) (reached (natConfig true) sendToSelect) :=
    reachable_reached (by decide)
  refine ⟨reached (natConfig true) sendToSelect, rfl, ?_⟩
  rcases (no_wakeup_lost hs).2 0 (by decide) with h | ⟨x, hx, -⟩ | h
  · cases h
  · cases hx
  · exact h

/-! ## §4. Happens-before edges -/

/-- The waiting half of a hand-over and the half that completes it pass each
other their clocks. -/
theorem SudogInv.edges (hI : SudogInv cfg s) (htr : cfg.trackRaces = true) {c : Occ V T}
    (hc : c ∈ sudogOps s.trace .claim w) : ∃ o, sudogOps s.trace .offer w = [o] ∧
      Dominates o c ∧ ∀ x ∈ sudogOps s.trace .wake w, Dominates c x := by
  obtain ⟨o, id, onSend, v, ho, hl⟩ := hI.table.known w (hI.lt_of_ops (List.ne_nil_of_mem hc))
  obtain ⟨d, hd⟩ : ∃ d, ClaimedBy cfg s.trace w (s.sudogs w) o id onSend v d := by
    rcases hl.claim with ⟨hnone, -⟩ | hd
    · rw [hnone] at hc; cases hc
    · exact hd
  obtain rfl : c = d := by rw [hd.only] at hc; exact List.mem_singleton.mp hc
  refine ⟨o, ho.only, hd.acquired.dominates (ho.tracked.trans htr), fun x hx => ?_⟩
  obtain ⟨c', hc', hacq⟩ := hI.claimed_of_wake hx
  obtain rfl : c' = c := List.singleton_inj.mp (hc'.symm.trans hd.only)
  exact hacq.dominates (hd.tracked.trans htr)

/-- **Channel happens-before edges are complete**, when races are tracked.
`S` and `R` are the sends and the receives through the buffer. On an
unbuffered channel the half that waits publishes its clock when it is queued,
and returns with the clock of the half that completed it. -/
theorem channel_edges (htr : cfg.trackRaces = true) (hs : Reachable cfg s)
    (hch : s.channels id = some ch) :
    (∀ (k : Nat) (x y : Occ V T), (chanOps s.trace .send id)[k]? = some x →
      (chanOps s.trace .recv id)[k]? = some y → x.1.kind.value = y.1.kind.value ∧ Dominates x y) ∧
    (∀ c ∈ chanOps s.trace .claim id, ∃ w v o onSend, HandOver s id w v onSend o c ∧
      Dominates o c ∧ ∀ x ∈ sudogOps s.trace .wake w, Dominates c x) ∧
    (∀ (k : Nat) (x y : Occ V T), (chanOps s.trace .recv id)[k]? = some y →
      (chanOps s.trace .send id)[k + ch.capacity]? = some x → Dominates y x) ∧
    ∀ y ∈ chanOps s.trace .recvClosed id, ∃ x ∈ chanOps s.trace .close id, Dominates x y := by
  have hI := sudogInv hs
  obtain ⟨hbuf, hclose, -⟩ := (chanInv hs).known id ch hch
  refine ⟨fun k x y hx hy => ⟨?_, ?_⟩, fun c hc => ?_, fun k x y hy hx => ?_, fun y hy => ?_⟩
  · have hk : k < (chanOps s.trace .recv id).length := lt_of_getElem? hy
    have hvals := congrArg (·[k]?) hbuf.vals
    simp only [List.getElem?_map, hy, Option.map_some, List.getElem?_take, hk, if_true, hx,
      Option.some.injEq] at hvals
    exact hvals.symm
  · exact (hbuf.recv_after k x y hx hy).dominates ((hbuf.tracked x
      (List.mem_append_left _ (List.mem_of_getElem? hx))).trans htr)
  · obtain ⟨w, v, hk, hmem⟩ := claim_of_mem hc
    obtain ⟨o, onSend, hho, -⟩ := hI.handOver hmem hk
    obtain ⟨o', ho', hdom, hwake⟩ := hI.edges htr hmem
    obtain rfl : o' = o := List.singleton_inj.mp (ho'.symm.trans hho.offer)
    exact ⟨w, v, o', onSend, hho, hdom, hwake⟩
  · exact (hbuf.send_after k x y hy hx).dominates ((hbuf.tracked y
      (List.mem_append_right _ (List.mem_of_getElem? hy))).trans htr)
  · obtain ⟨⟨x, hx, hacq⟩, -⟩ := hclose.recvClosed y hy
    refine ⟨x, hx, hacq.dominates ?_⟩
    rcases hclose.closes with ⟨-, hnone⟩ | ⟨-, x', hx', -, hpub⟩
    · rw [hnone] at hx; cases hx
    · rw [hx'] at hx
      cases List.mem_singleton.mp hx
      exact hpub.trans htr

/-- A goroutine sends through a buffer to main. -/
def sendThroughBuffer : List (Action Nat Unit) :=
  [.start 1 (.makeChan 1 ""), .start 1 (.go ""), .start 2 (.send (some 1) 7 ""),
    .start 1 (.recv (some 1) none "")]

theorem channel_edges_buffered : ∃ (s : Interpreter Nat Unit) (x y : Occ Nat Unit),
    Reachable (natConfig true) s ∧ (chanOps s.trace .send 1)[0]? = some x ∧
      (chanOps s.trace .recv 1)[0]? = some y ∧ Dominates x y := by
  have hs : Reachable (natConfig true) (reached (natConfig true) sendThroughBuffer) :=
    reachable_reached (by decide)
  have hch : (reached (natConfig true) sendThroughBuffer).channels 1 = some _ := rfl
  exact ⟨_, _, _, hs, rfl, rfl, ((channel_edges rfl hs hch).1 0 _ _ rfl rfl).2⟩

/-- **Without race tracking no clock is passed on.** -/
theorem untracked_edge_missing : ∃ (s : Interpreter Nat Unit) (x y : Occ Nat Unit),
    Reachable (natConfig false) s ∧ (chanOps s.trace .send 1)[0]? = some x ∧
      (chanOps s.trace .recv 1)[0]? = some y ∧ ¬ x.1.after.get ≤ y.1.after.get := by
  have hs : Reachable (natConfig false) (reached (natConfig false) sendThroughBuffer) :=
    reachable_reached (by decide)
  refine ⟨_, _, _, hs, rfl, rfl, fun hle => ?_⟩
  exact absurd (hle 2) (by decide)

end Theorems

end Interpreter

end Giri.Interp
