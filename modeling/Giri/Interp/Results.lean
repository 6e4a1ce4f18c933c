/-
Giri.Interp.Results — what a channel operation returns is what the trace
says it did.

The theorems about channels read the trace. Here is why that is the same as
reading the program's results. An operation that comes to its end leaves an
entry at the end of the trace, and the value and the flags it returns are
those of that entry (`RecvEntry`, `SendEntry`). Otherwise it waits, or its
wait was given up, or it was a send on a closed channel (`RecvOutcome`,
`SendOutcome`, `SelectOutcome`). §6 says so for every step of the machine.
-/
import Giri.Interp.SudogInvariant

namespace Giri.Interp

open History

variable {V T : Type}

namespace Interpreter

/-! ## §1. Entries and outcomes -/

/-- The last entry of the trace is a receive of `v` on channel `id` by `g`;
`ok` as in `v, ok := <-ch`. -/
def RecvEntry (s : Interpreter V T) (g : Gid) (id : ChanID) (v : V) (ok : Bool) : Prop :=
  ∃ tr e, s.trace = tr ++ [e] ∧ e.gid = g ∧
    ((ok = true ∧ (e.kind = .recv id v ∨ e.kind = .recvRefill id v ∨
        (∃ w, e.kind = .claim w id v ∧ OfferedOn s w id true) ∨
        ∃ w, e.kind = .wake w v ∧ OfferedOn s w id false)) ∨
      (ok = false ∧ ∃ elem, e.kind = .recvClosed id elem v))

/-- The last entry of the trace is a send of `v` on channel `id` by `g`. -/
def SendEntry (s : Interpreter V T) (g : Gid) (id : ChanID) (v : V) : Prop :=
  ∃ tr e, s.trace = tr ++ [e] ∧ e.gid = g ∧
    (e.kind = .send id v ∨ (∃ w, e.kind = .claim w id v ∧ OfferedOn s w id false) ∨
      ∃ w, e.kind = .wake w v ∧ OfferedOn s w id true)

/-- The channel is closed. -/
def ClosedChan (s : Interpreter V T) (id : ChanID) : Prop :=
  ∃ ch, s.channels id = some ch ∧ ch.closed = true

/-- How a receive on channel `id` stands. -/
inductive RecvOutcome (cfg : Config V T) (s : Interpreter V T) (g : Gid) (id : ChanID) : Prop where
  | waits : (s.goroutines g).wait ≠ none → RecvOutcome cfg s g id
  | givenUp : (s.goroutines g).wait = none →
      (s.goroutines g).ret = .received cfg.emptyValue false false → RecvOutcome cfg s g id
  | returns (v : V) (ok : Bool) : (s.goroutines g).wait = none →
      (s.goroutines g).ret = .received v ok true → RecvEntry s g id v ok → RecvOutcome cfg s g id

/-- How a send of `v` on channel `id` stands. -/
inductive SendOutcome (s : Interpreter V T) (g : Gid) (id : ChanID) (v : V) : Prop where
  | waits : (s.goroutines g).wait ≠ none → SendOutcome s g id v
  | givenUp : (s.goroutines g).wait = none → (s.goroutines g).ret = .sent false →
      SendOutcome s g id v
  | panics : (s.goroutines g).wait = none → ClosedChan s id →
      (s.goroutines g).ret = .sent false → SendOutcome s g id v
  | returns : (s.goroutines g).wait = none → (s.goroutines g).ret = .sent true →
      SendEntry s g id v → SendOutcome s g id v

/-- How a select stands. -/
inductive SelectOutcome (cfg : Config V T) (s : Interpreter V T) (g : Gid)
    (cases : List (SelectCase V T)) : Prop where
  | waits : (s.goroutines g).wait ≠ none → SelectOutcome cfg s g cases
  | givenUp : (s.goroutines g).wait = none → (s.goroutines g).aborted = true ∨
      (∃ tr e sw, s.trace = tr ++ [e] ∧ e.gid = g ∧ e.kind = .withdraw sw) →
      SelectOutcome cfg s g cases
  | default : (s.goroutines g).wait = none →
      (s.goroutines g).ret = selectResult cfg cases cases.length false cfg.emptyValue →
      SelectOutcome cfg s g cases
  | panics (i : Nat) (c : SelectCase V T) (id : ChanID) : (s.goroutines g).wait = none →
      cases[i]? = some c → c.ch = some id → c.send = true → ClosedChan s id →
      SelectOutcome cfg s g cases
  | sent (i : Nat) (c : SelectCase V T) (id : ChanID) : (s.goroutines g).wait = none →
      cases[i]? = some c → c.ch = some id → c.send = true →
      (s.goroutines g).ret = selectResult cfg cases i false cfg.emptyValue →
      SendEntry s g id c.val → SelectOutcome cfg s g cases
  | received (i : Nat) (c : SelectCase V T) (id : ChanID) (v : V) (ok : Bool) :
      (s.goroutines g).wait = none → cases[i]? = some c → c.ch = some id → c.send = false →
      (s.goroutines g).ret = selectResult cfg cases i ok v →
      RecvEntry s g id v ok → SelectOutcome cfg s g cases

section Results

variable {cfg : Config V T} {s t : Interpreter V T} {g : Gid} {id : ChanID} {ch : ChanEntry V}
  {w : SudogRef}

/-! ## §2. The fields an operation leaves alone -/

theorem setRet_ret (s : Interpreter V T) (g : Gid) (r : Ret V) :
    ((s.setRet g r).goroutines g).ret = r := by
  simp [setRet]

theorem setRet_wait (s : Interpreter V T) (g : Gid) (r : Ret V) :
    ((s.setRet g r).goroutines g).wait = (s.goroutines g).wait := by
  simp [setRet]

theorem setRet_aborted (s : Interpreter V T) (g : Gid) (r : Ret V) :
    ((s.setRet g r).goroutines g).aborted = (s.goroutines g).aborted := by
  simp [setRet]

theorem setWait_aborted (s : Interpreter V T) (g : Gid) (o : Option (Wait V T)) :
    ((s.setWait g o).goroutines g).aborted = (s.goroutines g).aborted := by
  simp [setWait]

/-- The offer of a sudog outlives an entry about something else. -/
theorem OfferedOn.congr {onSend : Bool} (h : OfferedOn s w id onSend)
    (hops : sudogOps t.trace .offer w = sudogOps s.trace .offer w)
    (hsel : (t.sudogs w).sel = (s.sudogs w).sel) : OfferedOn t w id onSend := by
  obtain ⟨v, o, hone, hk⟩ := h
  exact ⟨v, o, hops.trans hone, by rw [hsel]; exact hk⟩

/-! ## §3. Receiving -/

/-- A receive that takes the value of a waiting sender. -/
theorem recvEntry_claim (hI : SudogInv cfg s) (hch : s.channels id = some ch)
    (hopen : ch.closed = false) {rest : List SudogRef}
    (hpop : s.popLive none ch.sendq = some (w, rest)) :
    RecvEntry ((s.setChan id { ch with sendq := rest }).claimBy cfg g id w) g id
      (s.sudogs w).val true := by
  obtain ⟨hmem, -, hsub⟩ := popLive_spec hpop
  obtain ⟨-, hoff, -⟩ := hI.queued id true w ⟨ch, hch, hopen, hmem⟩
  have htaken : Taken s (s.setChan id { ch with sendq := rest }) w (s.sudogs w).val :=
    ⟨rfl, rfl, fun _ _ => rfl, rfl, rfl, rfl, rfl, rfl,
      queued_of_setChan hch rfl (fun h => h) hsub fun _ h => h⟩
  refine ⟨s.trace, _, rfl, rfl, .inl ⟨rfl, .inr (.inr (.inl ⟨w, rfl, ?_⟩))⟩⟩
  exact hoff.congr (htaken.ops (.inl (by decide))) (htaken.sameOwner w).2.1

/-- **`recvReady` leaves an entry with the value and the flag it returns.** -/
theorem recvReady_entry (hI : SudogInv cfg s) (hch : s.channels id = some ch)
    (hcan : s.canRecv ch none = true) (elem : Option T) :
    RecvEntry (s.recvReady cfg g id ch elem).1 g id (s.recvReady cfg g id ch elem).2.1
      (s.recvReady cfg g id ch elem).2.2 ∧
    ((s.recvReady cfg g id ch elem).1.goroutines g).wait = (s.goroutines g).wait := by
  unfold recvReady
  split
  · exact ⟨⟨s.trace, _, rfl, rfl, .inl ⟨rfl, .inr (.inl rfl)⟩⟩, rfl⟩
  · exact ⟨⟨s.trace, _, rfl, rfl, .inl ⟨rfl, .inl rfl⟩⟩,
      (setClock_wait ..).trans (setClock_wait ..)⟩
  · rename_i href hbuf
    by_cases hcl : ch.closed = true
    · simp only [hcl, Bool.not_true, Bool.and_false, Bool.false_eq_true, if_false]
      exact ⟨⟨s.trace, _, rfl, rfl, .inr ⟨rfl, elem, rfl⟩⟩, setClock_wait ..⟩
    · have hopen : ch.closed = false := by simpa using hcl
      obtain ⟨hcap, w, rest, hpop⟩ := popLive_of_canRecv hcan hopen href hbuf
      rw [if_pos (by simp [hopen, hcap]), hpop]
      exact ⟨recvEntry_claim hI hch hopen hpop, (setClock_wait ..).trans (setClock_wait ..)⟩

theorem recvNow_outcome (hI : SudogInv cfg s) (hB : Base s) {elem : Option T}
    (h : Waiting s g (.recvReady id elem)) (hready : s.ready (.recvReady id elem) = true) :
    RecvOutcome cfg (s.recvNow cfg g id elem) g id := by
  obtain ⟨ch, hch, hcan⟩ := exists_of_any hready
  have hI' : SudogInv cfg (s.setWait g none) := hI.micro hB (.unpark h trivial)
  have hch' : (s.setWait g none).channels id = some ch := hch
  obtain ⟨hentry, hwait⟩ := recvReady_entry (g := g) hI' hch' hcan elem
  simp only [recvNow, hch']
  refine .returns _ _ ?_ (setRet_ret ..) hentry
  exact (setRet_wait ..).trans (hwait.trans (setWait_wait_self ..))

theorem wakeUp_wait (ticks : Bool) : ((s.wakeUp cfg g w ticks).goroutines g).wait = none :=
  (setClock_wait ..).trans ((setClock_wait ..).trans (setWait_wait_self ..))

theorem offeredOn_wakeUp (cfg : Config V T) (g : Gid) {onSend : Bool}
    (h : OfferedOn s w id onSend) (ticks : Bool) :
    OfferedOn (s.wakeUp cfg g w ticks) w id onSend :=
  h.congr (sudogOps_snoc_other rfl (.inl (by decide))) rfl

theorem recvWoken_outcome (hI : SudogInv cfg s) (hB : Base s) {elem : Option T}
    (h : Waiting s g (.recv id w elem)) : RecvOutcome cfg (s.recvWoken cfg g id w elem) g id := by
  have hown : Owns s g w id false := hI.waits g _ h
  obtain ⟨ch, hch, -⟩ := hB.fits g _ h
  unfold recvWoken
  split
  · refine .returns _ _ ((setRet_wait ..).trans (wakeUp_wait true)) (setRet_ret ..) ?_
    exact ⟨s.trace, _, rfl, rfl, .inl ⟨rfl, .inr (.inr (.inr
      ⟨w, rfl, offeredOn_wakeUp cfg g hown.offered true⟩))⟩⟩
  · have hch' : (s.setWait g none).channels id = some ch := hch
    simp only [hch']
    refine .returns _ _ ((setRet_wait ..).trans ?_) (setRet_ret ..)
      ⟨s.trace, _, rfl, rfl, .inr ⟨rfl, elem, rfl⟩⟩
    exact (setClock_wait ..).trans (setWait_wait_self ..)

variable {wt : Wait V T}

/-- The three ways out of `block`. -/
theorem settle_cases {P : Interpreter V T → Prop} {k : Interpreter V T → Interpreter V T}
    (habort : (s.goroutines g).aborted = true → P (s.abandon cfg g wt))
    (hk : s.ready wt = true → P (k s)) (hwait : s.ready wt = false → P s) :
    P (s.settle cfg g wt k) := by
  unfold settle
  split
  · rename_i h; exact habort h
  · split
    · rename_i h; exact hk h
    · rename_i h; exact hwait (by simpa using h)

/-- The wait is that of a receive on channel `id`. -/
def receivesOn (id : ChanID) : Wait V T → Bool
  | .recv id' _ _ => id' == id
  | .recvReady id' _ => id' == id
  | _ => false

/-- The wait is that of a send on channel `id`. -/
def sendsOn (id : ChanID) : Wait V T → Bool
  | .send id' _ _ => id' == id
  | .sendReady id' _ _ => id' == id
  | _ => false

/-- A receive whose wait is given up. -/
theorem abandon_recv (hwt : receivesOn id wt = true) :
    RecvOutcome cfg (s.abandon cfg g wt) g id := by
  cases wt with
  | recv | recvReady =>
    exact .givenUp ((setRet_wait ..).trans (setWait_wait_self ..)) (setRet_ret ..)
  | _ => cases hwt

/-- A send whose wait is given up. -/
theorem abandon_send {v : V} (hwt : sendsOn id wt = true) :
    SendOutcome (s.abandon cfg g wt) g id v := by
  cases wt with
  | send => exact .givenUp ((setRet_wait ..).trans (setWait_wait_self ..)) (setRet_ret ..)
  | sendReady =>
    exact .givenUp ((setRet_wait ..).trans (setWait_wait_self ..)) (setRet_ret ..)
  | _ => cases hwt

variable {cases : List (SelectCase V T)}

/-- A select whose wait is given up. -/
theorem abandon_select {sw : SelRef} {site : String} :
    SelectOutcome cfg (s.abandon cfg g (.select cases sw site)) g cases :=
  .givenUp (setWait_wait_self ..) (.inr ⟨s.trace, _, sw, rfl, rfl, rfl⟩)

theorem waits_ne_none (h : Waiting s g wt) : (s.goroutines g).wait ≠ none := by
  rw [h.2]; exact nofun

theorem chanRecv_outcome (hI : SudogInv cfg s) (hB : Base s) (hrun : Running s g)
    (hch : s.channels id = some ch) (elem : Option T) :
    RecvOutcome cfg (s.chanRecv cfg g id elem) g id := by
  simp only [chanRecv, hch]
  split
  · rename_i hor
    simp only [Bool.and_eq_true, beq_iff_eq, Bool.not_eq_true'] at hor
    split
    · rename_i w rest hpop
      refine .returns _ _ ?_ (setRet_ret ..) (recvEntry_claim hI hch hor.2 hpop)
      exact (setRet_wait ..).trans (((setClock_wait ..).trans (setClock_wait ..)).trans hrun.2)
    · have hoff : Micro cfg s _ ((s.setWait g (some (.recv id s.nextSudog elem))).offer cfg g id
          ch false cfg.emptyValue none 0) :=
        .parkOffer cfg.emptyValue hrun ⟨rfl, rfl, rfl⟩ hch hor.1 hor.2
      have hw : Waiting ((s.setWait g (some (.recv id s.nextSudog elem))).offer cfg g id
          ch false cfg.emptyValue none 0) g (.recv id s.nextSudog elem) := (hrun.setWait _).offer ..
      exact settle_cases (P := fun u => RecvOutcome cfg u g id) (fun _ => abandon_recv (by simp [receivesOn]))
        (fun _ => recvWoken_outcome (hI.micro hB hoff) (hB.micro hoff) hw)
        fun _ => .waits (waits_ne_none hw)
  · have hpark : Micro cfg s _ (s.setWait g (some (.recvReady id elem))) := .park hrun trivial trivial
    have hw := hrun.setWait (.recvReady id elem)
    exact settle_cases (P := fun u => RecvOutcome cfg u g id) (fun _ => abandon_recv (by simp [receivesOn]))
      (recvNow_outcome (hI.micro hB hpark) (hB.micro hpark) hw) fun _ => .waits (waits_ne_none hw)

/-! ## §4. Sending -/

/-- The sudog of a send keeps the value it was queued with. -/
theorem SudogInv.val_of_send (hI : SudogInv cfg s) {v : V} (hlt : w < s.nextSudog)
    (hoff : OfferedWith s w id true v) : (s.sudogs w).val = v := by
  obtain ⟨o, hone, hk⟩ := hoff
  obtain ⟨o', id', b, v', ho, hl⟩ := hI.table.known w hlt
  cases List.singleton_inj.mp (hone.symm.trans ho.only)
  have hkind := hk.symm.trans ho.kind
  simp only [Kind.offer.injEq] at hkind
  obtain ⟨-, -, rfl, rfl, -⟩ := hkind
  rcases hl.claim with ⟨-, hv⟩ | ⟨c, hc⟩
  · exact hv
  · exact hc.value rfl

/-- A send that hands its value to a waiting receiver. -/
theorem sendEntry_claim (hI : SudogInv cfg s) (hch : s.channels id = some ch)
    (hopen : ch.closed = false) {rest : List SudogRef}
    (hpop : s.popLive none ch.recvq = some (w, rest)) (val : V) :
    SendEntry (((s.setChan id { ch with recvq := rest }).setSudog w
      { s.sudogs w with val := val }).claimBy cfg g id w) g id val := by
  obtain ⟨hmem, -, hsub⟩ := popLive_spec hpop
  obtain ⟨-, hoff, -⟩ := hI.queued id false w ⟨ch, hch, hopen, hmem⟩
  have htaken : Taken s ((s.setChan id { ch with recvq := rest }).setSudog w
      { s.sudogs w with val := val }) w val :=
    ⟨rfl, Function.update_self .., fun x hx => Function.update_of_ne hx .., rfl, rfl, rfl, rfl,
      rfl, queued_of_setChan hch rfl (fun h => h) (fun _ h => h) hsub⟩
  refine ⟨s.trace, _, rfl, rfl, .inr (.inl ⟨w, ?_, ?_⟩)⟩
  · show Kind.claim w id (Function.update s.sudogs w _ w).val = _
    rw [Function.update_self]
  · exact hoff.congr (htaken.ops (.inl (by decide))) (htaken.sameOwner w).2.1

/-- A send on a closed channel. -/
theorem sendOnClosed_outcome {v : V} (hw : (s.goroutines g).wait = none)
    (hcl : ClosedChan s id) (site : String) :
    SendOutcome ((s.sendOnClosed g site).setRet g (.sent false)) g id v := by
  have hsame := same_sendOnClosed s g site
  refine .panics ((setRet_wait ..).trans ((hsame.wait g).trans hw)) ?_ (setRet_ret ..)
  obtain ⟨ch, hch, hcl⟩ := hcl
  exact ⟨ch, (congrFun hsame.channels id).trans hch, hcl⟩

theorem sendNow_outcome (hB : Base s) {val : V} {site : String}
    (h : Waiting s g (.sendReady id val site)) :
    SendOutcome (s.sendNow cfg g id val site) g id val := by
  obtain ⟨ch, hch, -⟩ := hB.fits g _ h
  have hch' : (s.setWait g none).channels id = some ch := hch
  simp only [sendNow, hch']
  split
  · rename_i hcl
    exact sendOnClosed_outcome (setWait_wait_self ..) ⟨ch, hch, hcl⟩ site
  · refine .returns ?_ (setRet_ret ..) ⟨s.trace, _, rfl, rfl, .inl rfl⟩
    exact (setRet_wait ..).trans
      (((setClock_wait ..).trans (setClock_wait ..)).trans (setWait_wait_self ..))

theorem sendWoken_outcome (hI : SudogInv cfg s) {v : V} {site : String}
    (h : Waiting s g (.send id w site)) (hready : s.ready (.send id w site) = true)
    (hoff : OfferedWith s w id true v) : SendOutcome (s.sendWoken cfg g w site) g id v := by
  have hown : Owns s g w id true := hI.waits g _ h
  unfold sendWoken
  split
  · refine .returns ((setRet_wait ..).trans (wakeUp_wait false)) (setRet_ret ..) ?_
    refine ⟨s.trace, _, rfl, rfl, .inr (.inr ⟨w, ?_, offeredOn_wakeUp cfg g hown.offered false⟩)⟩
    rw [← hI.val_of_send hown.lt hoff]
  · rename_i hdone
    simp only [ready, hdone, Bool.false_or] at hready
    exact sendOnClosed_outcome (setWait_wait_self ..) (exists_of_any hready) site

theorem chanSend_outcome (hI : SudogInv cfg s) (hB : Base s) (hrun : Running s g)
    (hch : s.channels id = some ch) (val : V) (site : String) :
    SendOutcome (s.chanSend cfg g id val site) g id val := by
  simp only [chanSend, hch]
  -- the escape check records a violation at most
  have hsame := same_checkChannelEscape cfg s g val site
  have hquiet : Micro cfg s _ (s.checkChannelEscape cfg g val site) := .quiet hsame
  replace hI := hI.micro hB hquiet
  replace hB := hB.micro hquiet
  replace hrun := hsame.running hrun
  rw [← hsame.channels] at hch
  clear hquiet hsame
  generalize s.checkChannelEscape cfg g val site = s at hI hB hrun hch ⊢
  split
  · rename_i hor
    simp only [gt_iff_lt, Bool.or_eq_true, decide_eq_true_eq] at hor
    have hpark : Micro cfg s _ (s.setWait g (some (.sendReady id val site))) :=
      .park hrun trivial ⟨ch, hch, hor⟩
    have hw := hrun.setWait (.sendReady id val site)
    exact settle_cases (P := fun u => SendOutcome u g id val) (fun _ => abandon_send (by simp [sendsOn]))
      (fun _ => sendNow_outcome (hB.micro hpark) hw) fun _ => .waits (waits_ne_none hw)
  · rename_i hor
    simp only [gt_iff_lt, Bool.or_eq_true, decide_eq_true_eq, not_or, Nat.not_lt,
      Nat.le_zero_eq, Bool.not_eq_true] at hor
    split
    · rename_i w rest hpop
      refine .returns ?_ (setRet_ret ..) (sendEntry_claim hI hch hor.2 hpop val)
      exact (setRet_wait ..).trans (((setClock_wait ..).trans (setClock_wait ..)).trans hrun.2)
    · have hoff : Micro cfg s _ ((s.setWait g (some (.send id s.nextSudog site))).offer cfg g id
          ch true val none 0) := .parkOffer val hrun ⟨rfl, rfl, rfl⟩ hch hor.1 hor.2
      have hw : Waiting ((s.setWait g (some (.send id s.nextSudog site))).offer cfg g id
          ch true val none 0) g (.send id s.nextSudog site) := (hrun.setWait _).offer ..
      have hU : Table cfg (s.setWait g (some (.send id s.nextSudog site))) :=
        hI.table.frame rfl rfl rfl rfl (fun _ _ => rfl) fun _ => rfl
      exact settle_cases (P := fun u => SendOutcome u g id val) (fun _ => abandon_send (by simp [sendsOn]))
        (fun hready => sendWoken_outcome (hI.micro hB hoff) hw hready hU.offered_new)
        fun _ => .waits (waits_ne_none hw)

/-! ## §5. Select -/

/-- After a select has withdrawn, a queue has for everybody what it had for
the select itself. -/
theorem eligible_withdraw (s : Interpreter V T) (g : Gid) (sw : SelRef) (w : SudogRef) :
    (s.withdraw g sw).eligible none w = s.eligible (some sw) w := by
  have hsg : (s.withdraw g sw).sudogs w = s.sudogs w := rfl
  unfold eligible live
  rw [hsg]
  cases hsel : (s.sudogs w).sel with
  | none => simp
  | some y =>
    by_cases hy : y = sw
    · subst hy
      simp [withdraw_sels_self]
    · have hne : (some y != none) = (some y != some sw) := by simp [bne, hy]
      simp only [withdraw_sels_other hy, Option.isNone_some, Bool.false_or, hne]

theorem caseReady_withdraw (s : Interpreter V T) (g : Gid) (sw : SelRef) (c : SelectCase V T) :
    (s.withdraw g sw).caseReady none c = s.caseReady (some sw) c := by
  have hlive : ∀ q, (s.withdraw g sw).hasLive none q = s.hasLive (some sw) q := by
    intro q
    unfold hasLive
    rw [show (s.withdraw g sw).eligible none = s.eligible (some sw) from
      funext (eligible_withdraw s g sw)]
  unfold caseReady canSend canRecv
  simp only [hlive]
  rfl

/-- **The case found ready while the select waited is the one found after it
has withdrawn.** -/
theorem first_withdraw (s : Interpreter V T) (g : Gid) (sw : SelRef)
    (cases : List (SelectCase V T)) : (s.withdraw g sw).first none cases = s.first (some sw) cases := by
  unfold first
  rw [show (s.withdraw g sw).caseReady none = s.caseReady (some sw) from
    funext (caseReady_withdraw s g sw)]

/-- The send is over. Only an aborted goroutine, or a closed channel, makes
it fail. -/
def SendOver (s : Interpreter V T) (g : Gid) (id : ChanID) : Prop :=
  (s.goroutines g).wait = none ∧ ((s.goroutines g).ret = .sent false →
    (s.goroutines g).aborted = true ∨ ClosedChan s id)

theorem sendNow_over (cfg : Config V T) (s : Interpreter V T) (g : Gid)
    (hch : s.channels id = some ch) (val : V) (site : String) :
    SendOver (s.sendNow cfg g id val site) g id := by
  have hnone : ((s.setWait g none).goroutines g).wait = none := setWait_wait_self ..
  have hch' : (s.setWait g none).channels id = some ch := hch
  simp only [sendNow, hch']
  split
  · rename_i hcl
    have hsame := same_sendOnClosed (s.setWait g none) g site
    refine ⟨(setRet_wait ..).trans ((hsame.wait g).trans hnone), fun _ => .inr ⟨ch, ?_, hcl⟩⟩
    exact (congrFun hsame.channels id).trans hch
  · refine ⟨(setRet_wait ..).trans (((setClock_wait ..).trans (setClock_wait ..)).trans hnone), ?_⟩
    simp [setRet_ret]

/-- A send on a channel that can take it does not wait. -/
theorem chanSend_over (cfg : Config V T) (hrun : Running s g) (hch : s.channels id = some ch)
    (hcan : s.canSend ch none = true) (val : V) (site : String) :
    SendOver (s.chanSend cfg g id val site) g id := by
  simp only [chanSend, hch]
  have hsame := same_checkChannelEscape cfg s g val site
  have hcan' : (s.checkChannelEscape cfg g val site).canSend ch none = true := by
    have hlive : ∀ q, (s.checkChannelEscape cfg g val site).hasLive none q = s.hasLive none q := by
      intro q
      unfold hasLive eligible live
      rw [hsame.sudogs, hsame.sels]
    unfold canSend
    rw [hlive]
    exact hcan
  replace hrun := hsame.running hrun
  rw [← hsame.channels] at hch
  clear hsame hcan
  generalize s.checkChannelEscape cfg g val site = s at hrun hch hcan' ⊢
  split
  · -- ready, so `block` returns at once
    refine settle_cases (P := fun u => SendOver u g id) (fun hab => ⟨?_, fun _ => .inl ?_⟩)
      (fun _ => sendNow_over cfg (s.setWait g (some (.sendReady id val site))) g hch val site)
      fun hnot => ?_
    · exact (setRet_wait ..).trans (setWait_wait_self ..)
    · exact (setRet_aborted ..).trans ((setWait_aborted ..).trans hab)
    · have hready : (s.channels id).any (fun ch => s.canSend ch none) = true := by
        rw [hch]; exact hcan'
      cases hready.symm.trans hnot
  · rename_i hor
    simp only [gt_iff_lt, Bool.or_eq_true, decide_eq_true_eq, not_or, Nat.not_lt,
      Nat.le_zero_eq, Bool.not_eq_true] at hor
    obtain ⟨w, rest, hpop⟩ := popLive_of_canSend hcan' hor.2 hor.1
    simp only [hpop]
    refine ⟨(setRet_wait ..).trans (((setClock_wait ..).trans (setClock_wait ..)).trans hrun.2), ?_⟩
    rw [setRet_ret]; exact nofun

theorem runCase_outcome (hI : SudogInv cfg s) (hB : Base s) (hrun : Running s g) {i : Nat}
    (hfirst : s.first none cases = some i) (site : String) :
    SelectOutcome cfg (s.runCase cfg g cases i site) g cases ∧
      ((s.runCase cfg g cases i site).goroutines g).wait = none := by
  obtain ⟨c, id, ch, hc, hid, hch, hcan⟩ := first_spec hfirst
  simp only [runCase, hc, hid, Option.bind_some, hch]
  by_cases hsend : c.send = true
  · rw [if_pos hsend] at hcan ⊢
    obtain ⟨hwait, hover⟩ := chanSend_over cfg hrun hch hcan c.val site
    have hwait' := (setRet_wait (s.chanSend cfg g id c.val site) g
      (selectResult cfg cases i false cfg.emptyValue)).trans hwait
    refine ⟨?_, hwait'⟩
    rcases chanSend_outcome hI hB hrun hch c.val site with hw | ⟨-, hret⟩ | ⟨-, hcl, -⟩ | ⟨-, -, he⟩
    · exact absurd hwait hw
    · rcases hover hret with hab | hcl
      · exact .givenUp hwait' (.inl ((setRet_aborted ..).trans hab))
      · exact .panics i c id hwait' hc hid hsend hcl
    · exact .panics i c id hwait' hc hid hsend hcl
    · exact .sent i c id hwait' hc hid hsend (setRet_ret ..) he
  · rw [if_neg hsend] at hcan ⊢
    obtain ⟨he, hw⟩ := recvReady_entry (g := g) hI hch hcan c.elem
    have hwait := (setRet_wait (s.recvReady cfg g id ch c.elem).1 g (selectResult cfg cases i
      (s.recvReady cfg g id ch c.elem).2.2 (s.recvReady cfg g id ch c.elem).2.1)).trans
      (hw.trans hrun.2)
    exact ⟨.received i c id _ _ hwait hc hid (by simpa using hsend) (setRet_ret ..) he, hwait⟩

/-- A waiting select that is completed by a counterpart, or one of whose
cases has become ready, does not wait again. -/
theorem selectWoken_outcome (hI : SudogInv cfg s) (hB : Base s) {sw : SelRef} {site : String}
    (h : Waiting s g (.select cases sw site)) (hready : s.ready (.select cases sw site) = true) :
    SelectOutcome cfg (s.selectWoken cfg g cases sw site) g cases ∧
      ((s.selectWoken cfg g cases sw site).goroutines g).wait = none := by
  have hown : OwnsSelect s g cases sw := hI.waits g _ h
  unfold selectWoken
  split
  · rename_i hfired
    split
    · -- fired without a claim: only by withdrawing, and then it no longer waits
      rename_i hsg
      rcases hI.table.fired sw hfired with hwd | hsome
      · exact absurd hown.withdraw hwd
      · rw [hsg] at hsome; cases hsome
    · rename_i w hsg
      obtain ⟨hlt, hsel, -⟩ := hI.table.sg sw w hsg
      obtain ⟨-, ⟨c, id, hc, hid, hoff⟩, -⟩ := hown.cases w hlt hsel
      have hwait : (((s.wakeUp cfg g w true).setRet g
          (if ((cases[(s.sudogs w).caseIdx]?).any (·.send)) then
            selectResult cfg cases (s.sudogs w).caseIdx false cfg.emptyValue
          else selectResult cfg cases (s.sudogs w).caseIdx true (s.sudogs w).val)).goroutines
            g).wait = none := (setRet_wait ..).trans (wakeUp_wait true)
      refine ⟨?_, hwait⟩
      have hoffered := offeredOn_wakeUp cfg g ⟨c.val, hoff⟩ true
      simp only [hc, Option.any_some] at hwait ⊢
      by_cases hsend : c.send = true
      · rw [hsend] at hoff hoffered
        refine .sent _ c id hwait hc hid hsend ?_
          ⟨s.trace, _, rfl, rfl, .inr (.inr ⟨w, ?_, hoffered⟩)⟩
        · rw [setRet_ret, if_pos hsend]
        · rw [← hI.val_of_send hlt hoff]
      · have hrecv : c.send = false := by simpa using hsend
        rw [hrecv] at hoffered
        refine .received _ c id _ true hwait hc hid hrecv ?_
          ⟨s.trace, _, rfl, rfl, .inl ⟨rfl, .inr (.inr (.inr ⟨w, rfl, hoffered⟩))⟩⟩
        rw [setRet_ret, if_neg hsend]
  · rename_i hfired
    have hwd : Micro cfg s _ (s.withdraw g sw) := .withdraw h (.inl (.inl (by simpa using hfired)))
    obtain ⟨i, hfirst⟩ : ∃ i, (s.withdraw g sw).first none cases = some i := by
      simp only [ready, hfired, Bool.false_or, Bool.and_eq_true, Option.isSome_iff_exists] at hready
      rw [first_withdraw]
      exact hready.2
    simp only [hfirst]
    exact runCase_outcome (hI.micro hB hwd) (hB.micro hwd) h.running hfirst site

/-- What a select has done once it waits: its offers are queued. -/
theorem SudogInv.offerCases (hI : SudogInv cfg s) (hB : Base s) (hrun : Running s g)
    (hfirst : s.first none cases = none) (site : String) :
    let u := (s.newSelect.setWait g (some (.select cases s.nextSel site))).offerCases cfg g
      s.nextSel cases.zipIdx
    SudogInv cfg u ∧ Base u ∧ Waiting u g (.select cases s.nextSel site) := by
  obtain ⟨hm, hw, -⟩ := execSelect_offers (o := none) cfg hrun hfirst site
  have hboth := hm.invariant (P := fun u => SudogInv cfg u ∧ Base u)
    (fun _ _ _ hstep hu => ⟨hu.1.micro hu.2 hstep, hu.2.micro hstep⟩) ⟨hI, hB⟩
  exact ⟨hboth.1, hboth.2, hw⟩

theorem execSelect_outcome (hI : SudogInv cfg s) (hB : Base s) (hrun : Running s g)
    (states : List (SelectCase V T)) (blocking : Bool) (site : String) :
    SelectOutcome cfg (s.execSelect cfg g states blocking site) g (states.map s.resolveCase) := by
  unfold execSelect
  generalize states.map s.resolveCase = cases
  simp only
  split
  · rename_i i hfirst
    exact (runCase_outcome hI hB hrun hfirst site).1
  · exact .default ((setRet_wait ..).trans hrun.2) (setRet_ret ..)
  · rename_i hfirst
    obtain ⟨hI', hB', hw⟩ := hI.offerCases hB hrun hfirst site
    exact settle_cases (P := fun u => SelectOutcome cfg u g cases) (fun _ => abandon_select)
      (fun hready => (selectWoken_outcome hI' hB' hw hready).1) fun _ => .waits (waits_ne_none hw)

/-! ## §6. Steps -/

/-- The step executes a receive on channel `id` by `g`, or goes on with one
that waits. -/
def Receives (s : Interpreter V T) (g : Gid) (id : ChanID) (a : Action V T) : Prop :=
  (∃ elem site, a = .start g (.recv (some id) elem site)) ∨
    ∃ wt, Waiting s g wt ∧ receivesOn id wt = true ∧ (a = .resume g ∨ a = .giveUp g ∨ a = .abort g)

/-- The value of a waiting send. -/
def SendsValue (s : Interpreter V T) (id : ChanID) (v : V) : Wait V T → Prop
  | .sendReady id' v' _ => id' = id ∧ v' = v
  | .send id' w _ => id' = id ∧ OfferedWith s w id true v
  | _ => False

/-- The step executes a send of `v` on channel `id` by `g`, or goes on with
one that waits. -/
def Sends (s : Interpreter V T) (g : Gid) (id : ChanID) (v : V) (a : Action V T) : Prop :=
  (∃ site, a = .start g (.send (some id) v site)) ∨
    ∃ wt, Waiting s g wt ∧ SendsValue s id v wt ∧ (a = .resume g ∨ a = .giveUp g ∨ a = .abort g)

/-- The step executes a select by `g`, or goes on with one that waits. -/
def Selects (s : Interpreter V T) (g : Gid) (cases : List (SelectCase V T)) (a : Action V T) :
    Prop :=
  (∃ states blocking site, a = .start g (.select states blocking site) ∧
      cases = states.map s.resolveCase) ∨
    ∃ sw site, Waiting s g (.select cases sw site) ∧
      (a = .resume g ∨ a = .giveUp g ∨ a = .abort g)

/-- A waiting goroutine is resumed when its wait is over. -/
theorem step_of_resume (h : Step cfg s (.resume g) t) (hw : Waiting s g wt) :
    s.ready wt = true ∧ t = s.complete cfg g wt := by
  cases stepped h with
  | resume hw' hr =>
    obtain rfl := hw.unique hw'
    exact ⟨hr, rfl⟩

/-- What becomes of a waiting operation: it goes on because it is ready, or
its wait is given up. -/
theorem step_of_waiting {a : Action V T} (h : Step cfg s a t) (hw : Waiting s g wt)
    (ha : a = .resume g ∨ a = .giveUp g ∨ a = .abort g) :
    (s.ready wt = true ∧ t = s.complete cfg g wt) ∨
      ∃ u : Interpreter V T, t = u.abandon cfg g wt := by
  rcases ha with rfl | rfl | rfl
  · exact .inl (step_of_resume h hw)
  · cases stepped h with
    | giveUp hw' => exact .inr ⟨s, by rw [hw.unique hw']⟩
  · cases stepped h with
    | abort hw' => exact .inr ⟨_, by rw [hw.unique hw']⟩

/-- **A receive returns what the trace says was received.** -/
theorem Receives.outcome (hI : SudogInv cfg s) (hB : Base s) (hch : s.channels id = some ch)
    {a : Action V T} (ha : Receives s g id a) (h : Step cfg s a t) : RecvOutcome cfg t g id := by
  rcases ha with ⟨elem, site, rfl⟩ | ⟨wt, hw, hwt, ha⟩
  · obtain ⟨hrun, rfl⟩ := step_of_start h
    exact chanRecv_outcome hI hB hrun hch elem
  · rcases step_of_waiting h hw ha with ⟨hready, rfl⟩ | ⟨u, rfl⟩
    · cases wt with
      | recv id' =>
        obtain rfl : id' = id := by simpa [receivesOn] using hwt
        exact recvWoken_outcome hI hB hw
      | recvReady id' =>
        obtain rfl : id' = id := by simpa [receivesOn] using hwt
        exact recvNow_outcome hI hB hw hready
      | _ => cases hwt
    · exact abandon_recv hwt

/-- **A send that completes is in the trace.** -/
theorem Sends.outcome (hI : SudogInv cfg s) (hB : Base s) (hch : s.channels id = some ch) {v : V}
    {a : Action V T} (ha : Sends s g id v a) (h : Step cfg s a t) : SendOutcome t g id v := by
  rcases ha with ⟨site, rfl⟩ | ⟨wt, hw, hwt, ha⟩
  · obtain ⟨hrun, rfl⟩ := step_of_start h
    exact chanSend_outcome hI hB hrun hch v site
  · rcases step_of_waiting h hw ha with ⟨hready, rfl⟩ | ⟨u, rfl⟩
    · cases wt with
      | send =>
        obtain ⟨rfl, hoff⟩ := hwt
        exact sendWoken_outcome hI hw hready hoff
      | sendReady =>
        obtain ⟨rfl, rfl⟩ := hwt
        exact sendNow_outcome hB hw
      | _ => cases hwt
    · cases wt with
      | send | sendReady => exact abandon_send (by simpa [sendsOn] using hwt.1)
      | _ => cases hwt

/-- **A select returns the case that the trace says was executed.** -/
theorem Selects.outcome (hI : SudogInv cfg s) (hB : Base s) {a : Action V T}
    (ha : Selects s g cases a) (h : Step cfg s a t) :
    SelectOutcome cfg t g cases := by
  rcases ha with ⟨states, blocking, site, rfl, rfl⟩ | ⟨sw, site, hw, ha⟩
  · obtain ⟨hrun, rfl⟩ := step_of_start h
    exact execSelect_outcome hI hB hrun states blocking site
  · rcases step_of_waiting h hw ha with ⟨hready, rfl⟩ | ⟨u, rfl⟩
    · exact (selectWoken_outcome hI hB hw hready).1
    · exact abandon_select

end Results

end Interpreter

end Giri.Interp
