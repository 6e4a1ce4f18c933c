/-
Giri.Interp.ChanInvariant — what the state of a channel says about its
history.

The trace has the operations on a channel in the order in which they took
effect. `BufOK` says how the buffer relates to them: with `S` the sends and
`R` the receives so far, the buffer is `S` without its first `|R|` elements,
values and clocks alike, and `recvClocks` are the clocks of `R` without its
first `|S| - C`. So the k-th receive takes what the k-th send put in, and
the (k+C)-th send acquires from the k-th receive. `CloseOK` is the same for
closing: nothing is sent after it, and a receive returns because of it only
when everything sent has been received.

Both are proved for one step of the history at a time, then for every part
of a step of the machine (`ChanInv.micro`).
-/
import Giri.Interp.ClockInvariant

namespace Giri.Interp

open History
open Function (update_self update_of_ne)

variable {V T : Type}

/-! ## §1. Operations on a channel, in the trace -/

/-- What an entry of the trace does to a channel. -/
inductive ChanOp where
  | send
  | recv
  | offer
  | claim
  | close
  | recvClosed
  | recvRefill
  deriving DecidableEq, Repr

/-- The channel an entry of the trace is about. -/
def Kind.onChan : Kind V T → Option (ChanOp × ChanID)
  | .send id _ => some (.send, id)
  | .recv id _ => some (.recv, id)
  | .offer _ id _ _ _ => some (.offer, id)
  | .claim _ id _ => some (.claim, id)
  | .close id => some (.close, id)
  | .recvClosed id _ _ => some (.recvClosed, id)
  | .recvRefill id _ => some (.recvRefill, id)
  | _ => none

def Event.onChan (e : Event V T) : Option (ChanOp × ChanID) := e.kind.onChan

/-- The value that goes in or comes out. -/
def Kind.value : Kind V T → Option V
  | .send _ v => some v
  | .recv _ v => some v
  | _ => none

/-- An entry of the trace with its position. -/
abbrev Occ (V T : Type) : Type := Event V T × Nat

/-- The operations of one kind on a channel, in order. -/
def chanOps (tr : List (Event V T)) (op : ChanOp) (id : ChanID) : List (Occ V T) :=
  keyed Event.onChan (op, id) tr

section ChanOps

variable {tr : List (Event V T)} {e : Event V T} {op : ChanOp} {id : ChanID}

theorem chanOps_snoc (h : e.onChan = some (op, id)) :
    chanOps (tr ++ [e]) op id = chanOps tr op id ++ [(e, tr.length)] :=
  keyed_snoc h

theorem chanOps_snoc_ne (h : e.onChan ≠ some (op, id)) :
    chanOps (tr ++ [e]) op id = chanOps tr op id :=
  keyed_snoc_ne h

/-- An operation of another kind. -/
theorem chanOps_snoc_other {o : ChanOp} (h : e.onChan = some (op, id)) (ho : o ≠ op) :
    chanOps (tr ++ [e]) o id = chanOps tr o id :=
  keyed_snoc_other h fun heq => ho (Prod.mk.inj heq).1

theorem lt_of_mem_chanOps {x : Occ V T} (hx : x ∈ chanOps tr op id) : x.2 < tr.length :=
  lt_of_mem_keyed hx

end ChanOps

/-- The clock that the entry published, as it is stored. -/
def stampOf (x : Occ V T) : Option Stamp := x.1.pub.map fun c => ⟨c, [x.2]⟩

/-- Entry `y` acquired exactly the clock that entry `x` published. -/
structure Acquired (x y : Occ V T) : Prop where
  before : x.2 < y.2
  src : y.1.src = srcs (stampOf x)
  clock : ∀ c, x.1.pub = some c → c.get ≤ y.1.after.get

/-! ## §2. The buffer -/

/-- The buffer and the receive clocks, after the sends `S` and the receives
`R`. -/
structure BufOK (tracked : Bool) (S R : List (Occ V T)) (ch : ChanEntry V) : Prop where
  nsent : ch.nsent = S.length
  count : S.length = R.length + ch.buf.length
  room : ch.buf.length ≤ ch.capacity
  buf : ch.buf.map (fun it => (some it.val, it.clock)) =
    (S.drop R.length).map fun x => (x.1.kind.value, stampOf x)
  vals : R.map (·.1.kind.value) = (S.take R.length).map (·.1.kind.value)
  recvClocks : ch.recvClocks = (R.drop (S.length - ch.capacity)).filterMap stampOf
  tracked : ∀ x ∈ S ++ R, x.1.pub.isSome = tracked
  /-- The k-th receive acquires from the k-th send. -/
  recv_after : ∀ (k : Nat) (x y : Occ V T), S[k]? = some x → R[k]? = some y → Acquired x y
  /-- The (k+C)-th send acquires from the k-th receive. -/
  send_after : ∀ (k : Nat) (x y : Occ V T), R[k]? = some y → S[k + ch.capacity]? = some x →
    Acquired y x
  /-- The first C sends acquire from nobody. -/
  first : ∀ (k : Nat) (x : Occ V T), S[k]? = some x → k < ch.capacity → x.1.src = []

namespace BufOK

variable {b : Bool} {S R : List (Occ V T)} {ch ch' : ChanEntry V}

theorem congr (h : BufOK b S R ch) (hcap : ch'.capacity = ch.capacity) (hbuf : ch'.buf = ch.buf)
    (hrc : ch'.recvClocks = ch.recvClocks) (hn : ch'.nsent = ch.nsent) : BufOK b S R ch' where
  nsent := hn.trans h.nsent
  count := by rw [hbuf]; exact h.count
  room := by rw [hbuf, hcap]; exact h.room
  buf := by rw [hbuf]; exact h.buf
  vals := h.vals
  recvClocks := by rw [hrc, hcap]; exact h.recvClocks
  tracked := h.tracked
  recv_after := h.recv_after
  send_after := by rw [hcap]; exact h.send_after
  first := by rw [hcap]; exact h.first

theorem new (b : Bool) (capacity : Nat) (refill : Option V) :
    BufOK b ([] : List (Occ V T)) [] { capacity := capacity, refill := refill } where
  nsent := rfl
  count := rfl
  room := Nat.zero_le _
  buf := rfl
  vals := rfl
  recvClocks := by simp
  tracked := by simp
  recv_after := by simp
  send_after := by simp
  first := by simp

theorem length_le (h : BufOK b S R ch) : R.length ≤ S.length := by
  rw [h.count]; exact Nat.le_add_right _ _

/-- The clock stored for the receive that freed the slot of the next send:
there is one, and it is the oldest stored. -/
theorem freed (h : BufOK b S R ch) (hroom : ch.buf.length < ch.capacity)
    (hge : ch.capacity ≤ ch.nsent) : ∃ y, R[S.length - ch.capacity]? = some y ∧
      ch.recvClocks.head? = stampOf y ∧
      ch.recvClocks.tail = (R.drop (S.length + 1 - ch.capacity)).filterMap stampOf := by
  have hn := h.nsent
  have hcount := h.count
  have hlt : S.length - ch.capacity < R.length := by omega
  refine ⟨R[S.length - ch.capacity], List.getElem?_eq_getElem hlt, ?_⟩
  have hsucc : S.length + 1 - ch.capacity = S.length - ch.capacity + 1 := by omega
  rw [h.recvClocks, hsucc, List.drop_eq_getElem_cons hlt]
  generalize hy : R[S.length - ch.capacity] = y
  have hpub : ∀ x ∈ R, x.1.pub.isSome = b := fun x hx => h.tracked x (List.mem_append_right _ hx)
  cases hst : stampOf y with
  | some => rw [List.filterMap_cons_some hst]; exact ⟨rfl, rfl⟩
  | none =>
    -- races are not tracked, so no receive has published a clock
    have hb : b = false := by
      rw [← hpub y (hy ▸ List.getElem_mem hlt)]
      simpa [stampOf] using hst
    have hnil : ∀ l : List (Occ V T), l ⊆ R → l.filterMap stampOf = [] := by
      intro l hl
      rw [List.filterMap_eq_nil_iff]
      intro x hx
      have := hpub x (hl hx)
      rw [hb] at this
      simpa [stampOf] using this
    rw [List.filterMap_cons_none hst, hnil _ (List.drop_subset _ _)]
    exact ⟨rfl, rfl⟩

/-- The value and the clock at the head of the buffer are those of the
oldest send that has not been received. -/
theorem head (h : BufOK b S R ch) {it : ChanItem V} {rest : List (ChanItem V)}
    (hbuf : ch.buf = it :: rest) : ∃ x, S[R.length]? = some x ∧ x.1.kind.value = some it.val ∧
      stampOf x = it.clock ∧ rest.map (fun it => (some it.val, it.clock)) =
        (S.drop (R.length + 1)).map fun x => (x.1.kind.value, stampOf x) := by
  have hcount := h.count
  rw [hbuf, List.length_cons] at hcount
  have hlt : R.length < S.length := by omega
  have hmap := h.buf
  rw [hbuf, List.map_cons, List.drop_eq_getElem_cons hlt, List.map_cons] at hmap
  obtain ⟨hhead, htail⟩ := List.cons.inj hmap
  obtain ⟨hval, hclock⟩ := Prod.mk.inj hhead
  exact ⟨S[R.length], List.getElem?_eq_getElem hlt, hval.symm, hclock.symm, htail⟩

/-- A send. -/
theorem send (h : BufOK b S R ch) {x : Occ V T} {val : V} {clock : Option Stamp}
    {left : List Stamp} (hroom : ch.buf.length < ch.capacity)
    (hval : x.1.kind.value = some val) (hclock : stampOf x = clock)
    (htracked : x.1.pub.isSome = b)
    (hleft : left = (R.drop (S.length + 1 - ch.capacity)).filterMap stampOf)
    (hacq : ∀ y, R[S.length - ch.capacity]? = some y → ch.capacity ≤ S.length → Acquired y x)
    (hfirst : S.length < ch.capacity → x.1.src = []) :
    BufOK b (S ++ [x]) R
      { ch with recvClocks := left, nsent := ch.nsent + 1, buf := ch.buf ++ [⟨val, clock⟩] } := by
  have hle := h.length_le
  refine ⟨?_, ?_, ?_, ?_, ?_, ?_, ?_, ?_, ?_, ?_⟩
  · simp [h.nsent]
  · simp [h.count, Nat.add_assoc]
  · simp only [List.length_append, List.length_singleton]; omega
  · rw [List.drop_append_of_le_length hle, List.map_append, List.map_append, h.buf]
    simp [hval, hclock]
  · rw [List.take_append_of_le_length hle]; exact h.vals
  · rw [hleft]; simp
  · intro z hz
    rcases List.mem_append.mp hz with hz | hz
    · rcases List.mem_append.mp hz with hz | hz
      · exact h.tracked z (List.mem_append_left _ hz)
      · rw [List.mem_singleton.mp hz]; exact htracked
    · exact h.tracked z (List.mem_append_right _ hz)
  · intro k z y hz hy
    have hk : k < R.length := lt_of_getElem? hy
    rw [List.getElem?_append_left (by omega)] at hz
    exact h.recv_after k z y hz hy
  · intro k z y hy hz
    rcases of_getElem?_snoc hz with hz | ⟨hk, rfl⟩
    · exact h.send_after k z y hy hz
    · simp only at hk
      refine hacq y ?_ (by omega)
      rwa [show S.length - ch.capacity = k by omega]
  · intro k z hz hlt
    rcases of_getElem?_snoc hz with hz | ⟨rfl, rfl⟩
    · exact h.first k z hz hlt
    · exact hfirst hlt

/-- A receive from the buffer. -/
theorem recv (h : BufOK b S R ch) {y : Occ V T} {it : ChanItem V} {rest : List (ChanItem V)}
    {clock : Option Stamp} (hbuf : ch.buf = it :: rest)
    (hval : y.1.kind.value = some it.val) (hclock : stampOf y = clock)
    (htracked : y.1.pub.isSome = b)
    (hacq : ∀ x, S[R.length]? = some x → stampOf x = it.clock → Acquired x y) :
    BufOK b S (R ++ [y]) { ch with buf := rest, recvClocks := ch.recvClocks ++ clock.toList } := by
  obtain ⟨x, hx, hxval, hxclock, hrest⟩ := h.head hbuf
  have hlt : R.length < S.length := lt_of_getElem? hx
  have hcount := h.count
  have hroom := h.room
  rw [hbuf, List.length_cons] at hcount hroom
  have hcap : S.length - ch.capacity ≤ R.length := by omega
  refine ⟨h.nsent, ?_, ?_, ?_, ?_, ?_, ?_, ?_, ?_, h.first⟩
  · simp only [List.length_append, List.length_singleton]; omega
  · show rest.length ≤ ch.capacity; omega
  · rw [List.length_append, List.length_singleton]; exact hrest
  · rw [List.length_append, List.length_singleton, List.take_add_one, hx, List.map_append,
      List.map_append, h.vals]
    simp [hval, hxval]
  · show ch.recvClocks ++ clock.toList = _
    rw [List.drop_append_of_le_length hcap, List.filterMap_append, ← h.recvClocks, ← hclock]
    cases hst : stampOf y <;> simp [hst]
  · intro z hz
    rcases List.mem_append.mp hz with hz | hz
    · exact h.tracked z (List.mem_append_left _ hz)
    · rcases List.mem_append.mp hz with hz | hz
      · exact h.tracked z (List.mem_append_right _ hz)
      · rw [List.mem_singleton.mp hz]; exact htracked
  · intro k z w hz hw
    rcases of_getElem?_snoc hw with hw | ⟨rfl, rfl⟩
    · exact h.recv_after k z w hz hw
    · cases hx.symm.trans hz
      exact hacq x hx hxclock
  · intro k z w hw hz
    rcases of_getElem?_snoc hw with hw | ⟨rfl, rfl⟩
    · exact h.send_after k z w hw hz
    · have := lt_of_getElem? hz
      simp only at this
      omega

end BufOK

/-! ## §3. Closing -/

/-- The channel `id` and the operations that depend on its being closed. -/
structure CloseOK (cfg : Config V T) (tr : List (Event V T)) (id : ChanID)
    (ch : ChanEntry V) : Prop where
  closes : (ch.closed = false ∧ chanOps tr .close id = []) ∨
    (ch.closed = true ∧ ∃ x, chanOps tr .close id = [x] ∧ ch.closeClock = stampOf x ∧
      x.1.pub.isSome = cfg.trackRaces)
  /-- A receive that returns because of a close acquires from it, and yields
  the zero value. -/
  recvClosed : ∀ y ∈ chanOps tr .recvClosed id, (∃ x ∈ chanOps tr .close id, Acquired x y) ∧
    ∃ elem, y.1.kind = .recvClosed id elem (cfg.chanZero elem)
  /-- Nothing is sent, handed over or offered after the close. -/
  last : ∀ x ∈ chanOps tr .close id, ∀ op, op = .send ∨ op = .claim ∨ op = .offer →
    ∀ y ∈ chanOps tr op id, y.2 < x.2
  /-- It is not reached while the buffer holds a value, and then no value is
  received any more. -/
  drained : chanOps tr .recvClosed id ≠ [] → ch.closed = true ∧ ch.buf = []
  recv_before : ∀ y ∈ chanOps tr .recvClosed id, ∀ r ∈ chanOps tr .recv id, r.2 < y.2
  refill : ch.refill = none → chanOps tr .recvRefill id = []

namespace CloseOK

variable {cfg : Config V T} {tr : List (Event V T)} {id : ChanID} {ch ch' : ChanEntry V}
  {e : Event V T}

theorem new (cfg : Config V T) {tr : List (Event V T)} {id : ChanID} (capacity : Nat)
    (refill : Option V) (hnone : ∀ op, chanOps tr op id = []) :
    CloseOK cfg tr id { capacity := capacity, refill := refill } where
  closes := .inl ⟨rfl, hnone _⟩
  recvClosed y hy := by rw [hnone] at hy; cases hy
  last x hx := by rw [hnone] at hx; cases hx
  drained h := absurd (hnone _) h
  recv_before y hy := by rw [hnone] at hy; cases hy
  refill _ := hnone _

/-- An open channel has not been closed, and nothing has returned because of
a close. -/
theorem of_open (h : CloseOK cfg tr id ch) (hopen : ch.closed = false) :
    chanOps tr .close id = [] ∧ chanOps tr .recvClosed id = [] := by
  rcases h.closes with ⟨-, hc⟩ | ⟨hcl, -⟩
  · refine ⟨hc, ?_⟩
    by_contra hne
    rw [(h.drained hne).1] at hopen
    cases hopen
  · rw [hcl] at hopen; cases hopen

/-- The entry is about something else, and the channel is changed at most in
its queues. -/
theorem frame (h : CloseOK cfg tr id ch) (he : ∀ op, e.onChan ≠ some (op, id))
    (hcl : ch'.closed = ch.closed) (hcc : ch'.closeClock = ch.closeClock)
    (hbuf : ch'.buf = ch.buf) (href : ch'.refill = ch.refill) :
    CloseOK cfg (tr ++ [e]) id ch' := by
  have hsame : ∀ op, chanOps (tr ++ [e]) op id = chanOps tr op id := fun op =>
    chanOps_snoc_ne (he op)
  refine ⟨?_, ?_, ?_, ?_, ?_, ?_⟩
  · rw [hsame, hcl, hcc]; exact h.closes
  · rw [hsame, hsame]; exact h.recvClosed
  · intro x hx op hop
    rw [hsame] at hx ⊢
    exact h.last x hx op hop
  · rw [hsame, hcl, hbuf]; exact h.drained
  · rw [hsame, hsame]; exact h.recv_before
  · rw [hsame, href]; exact h.refill

/-- A change of the queues alone. -/
theorem congr (h : CloseOK cfg tr id ch) (hcl : ch'.closed = ch.closed)
    (hcc : ch'.closeClock = ch.closeClock) (hbuf : ch'.buf = ch.buf)
    (href : ch'.refill = none → ch.refill = none) : CloseOK cfg tr id ch' where
  closes := by rw [hcl, hcc]; exact h.closes
  recvClosed := h.recvClosed
  last := h.last
  drained := by rw [hcl, hbuf]; exact h.drained
  recv_before := h.recv_before
  refill hr := h.refill (href hr)

/-- A send, a hand-over or an offer, on an open channel. -/
theorem live (h : CloseOK cfg tr id ch) (op : ChanOp) (hopen : ch.closed = false)
    (he : e.onChan = some (op, id)) (hop : op = .send ∨ op = .claim ∨ op = .offer)
    (hcl : ch'.closed = ch.closed) (href : ch'.refill = ch.refill) :
    CloseOK cfg (tr ++ [e]) id ch' := by
  obtain ⟨hcs, hqs⟩ := h.of_open hopen
  have hsame : ∀ o, o ≠ op → chanOps (tr ++ [e]) o id = chanOps tr o id :=
    fun o ho => chanOps_snoc_other he ho
  have hne : op ≠ .close ∧ op ≠ .recvClosed ∧ op ≠ .recvRefill := by
    rcases hop with rfl | rfl | rfl <;> decide
  have hc : chanOps (tr ++ [e]) .close id = [] := (hsame _ hne.1.symm).trans hcs
  have hq : chanOps (tr ++ [e]) .recvClosed id = [] := (hsame _ hne.2.1.symm).trans hqs
  refine ⟨.inl ⟨hcl.trans hopen, hc⟩, ?_, ?_, ?_, ?_, ?_⟩
  · intro y hy; rw [hq] at hy; cases hy
  · intro x hx; rw [hc] at hx; cases hx
  · exact fun hne => absurd hq hne
  · intro y hy; rw [hq] at hy; cases hy
  · rw [href, hsame _ hne.2.2.symm]; exact h.refill

/-- A receive from the buffer. -/
theorem recv (h : CloseOK cfg tr id ch) (hbuf : ch.buf ≠ [])
    (he : e.onChan = some (.recv, id)) (hcl : ch'.closed = ch.closed)
    (hcc : ch'.closeClock = ch.closeClock) (href : ch'.refill = ch.refill) :
    CloseOK cfg (tr ++ [e]) id ch' := by
  have hsame : ∀ o, o ≠ .recv → chanOps (tr ++ [e]) o id = chanOps tr o id :=
    fun o ho => chanOps_snoc_other he ho
  -- nothing has returned because of a close while there were values left
  have hq : chanOps (tr ++ [e]) .recvClosed id = [] := by
    rw [hsame _ (by decide)]
    by_contra hne
    exact hbuf (h.drained hne).2
  refine ⟨?_, ?_, ?_, ?_, ?_, ?_⟩
  · rw [hsame _ (by decide), hcl, hcc]; exact h.closes
  · intro y hy; rw [hq] at hy; cases hy
  · intro x hx op hop
    have hne : op ≠ .recv := by rcases hop with rfl | rfl | rfl <;> decide
    rw [hsame _ (by decide)] at hx
    rw [hsame _ hne]
    exact h.last x hx op hop
  · exact fun hne => absurd hq hne
  · intro y hy; rw [hq] at hy; cases hy
  · rw [href, hsame _ (by decide)]; exact h.refill

/-- The close. -/
theorem close (h : CloseOK cfg tr id ch) (hopen : ch.closed = false)
    (he : e.onChan = some (.close, id)) (hcl : ch'.closed = true)
    (hcc : ch'.closeClock = stampOf (e, tr.length)) (hpub : e.pub.isSome = cfg.trackRaces)
    (href : ch'.refill = ch.refill) : CloseOK cfg (tr ++ [e]) id ch' := by
  obtain ⟨hcs, hqs⟩ := h.of_open hopen
  have hsame : ∀ o, o ≠ .close → chanOps (tr ++ [e]) o id = chanOps tr o id :=
    fun o ho => chanOps_snoc_other he ho
  have hc : chanOps (tr ++ [e]) .close id = [(e, tr.length)] := by
    rw [chanOps_snoc he, hcs]; rfl
  have hq : chanOps (tr ++ [e]) .recvClosed id = [] := (hsame _ (by decide)).trans hqs
  refine ⟨.inr ⟨hcl, _, hc, hcc, hpub⟩, ?_, ?_, ?_, ?_, ?_⟩
  · intro y hy; rw [hq] at hy; cases hy
  · intro x hx op hop y hy
    have hne : op ≠ .close := by rcases hop with rfl | rfl | rfl <;> decide
    rw [hc, List.mem_singleton] at hx
    rw [hsame _ hne] at hy
    rw [hx]
    exact lt_of_mem_chanOps hy
  · exact fun hne => absurd hq hne
  · intro y hy; rw [hq] at hy; cases hy
  · rw [href, hsame _ (by decide)]; exact h.refill

/-- A receive that returns because the channel is closed and empty. -/
theorem recvOfClosed (h : CloseOK cfg tr id ch) (hcl : ch.closed = true) (hbuf : ch.buf = [])
    {elem : Option T} (he : e.kind = .recvClosed id elem (cfg.chanZero elem))
    (hacq : ∀ x : Occ V T, x ∈ chanOps tr .close id → ch.closeClock = stampOf x →
      Acquired x (e, tr.length)) : CloseOK cfg (tr ++ [e]) id ch := by
  have hon : e.onChan = some (.recvClosed, id) := by rw [Event.onChan, he]; rfl
  have hsame : ∀ o, o ≠ .recvClosed → chanOps (tr ++ [e]) o id = chanOps tr o id :=
    fun o ho => chanOps_snoc_other hon ho
  obtain ⟨x, hx, hcc, hpub⟩ : ∃ x, chanOps tr .close id = [x] ∧ ch.closeClock = stampOf x ∧
      x.1.pub.isSome = cfg.trackRaces := by
    rcases h.closes with ⟨hopen, -⟩ | ⟨-, hx⟩
    · rw [hcl] at hopen; cases hopen
    · exact hx
  refine ⟨.inr ⟨hcl, x, (hsame _ (by decide)).trans hx, hcc, hpub⟩, ?_, ?_, fun _ => ⟨hcl, hbuf⟩,
    ?_, ?_⟩
  · intro y hy
    rw [chanOps_snoc hon] at hy
    rw [hsame _ (by decide)]
    rcases List.mem_append.mp hy with hy | hy
    · exact h.recvClosed y hy
    · rw [List.mem_singleton.mp hy]
      have hmem : x ∈ chanOps tr .close id := by rw [hx]; exact List.mem_singleton_self x
      exact ⟨⟨x, hmem, hacq x hmem hcc⟩, elem, he⟩
  · intro x hx op hop
    have hne : op ≠ .recvClosed := by rcases hop with rfl | rfl | rfl <;> decide
    rw [hsame _ (by decide)] at hx
    rw [hsame _ hne]
    exact h.last x hx op hop
  · intro y hy r hr
    rw [chanOps_snoc hon] at hy
    rw [hsame _ (by decide)] at hr
    rcases List.mem_append.mp hy with hy | hy
    · exact h.recv_before y hy r hr
    · rw [List.mem_singleton.mp hy]
      exact lt_of_mem_chanOps hr
  · rw [hsame _ (by decide)]; exact h.refill

/-- A receive from a timer or signal channel. -/
theorem recvRefill (h : CloseOK cfg tr id ch) {v : V} (href : ch.refill = some v)
    (he : e.onChan = some (.recvRefill, id)) : CloseOK cfg (tr ++ [e]) id ch := by
  have hsame : ∀ o, o ≠ .recvRefill → chanOps (tr ++ [e]) o id = chanOps tr o id :=
    fun o ho => chanOps_snoc_other he ho
  refine ⟨?_, ?_, ?_, ?_, ?_, ?_⟩
  · rw [hsame _ (by decide)]; exact h.closes
  · rw [hsame _ (by decide), hsame _ (by decide)]; exact h.recvClosed
  · intro x hx op hop
    have hne : op ≠ .recvRefill := by rcases hop with rfl | rfl | rfl <;> decide
    rw [hsame _ (by decide)] at hx
    rw [hsame _ hne]
    exact h.last x hx op hop
  · rw [hsame _ (by decide)]; exact h.drained
  · rw [hsame _ (by decide), hsame _ (by decide)]; exact h.recv_before
  · rw [href]; exact fun h => nomatch h

end CloseOK

/-! ## §4. All channels -/

/-- The state of channel `id` agrees with the trace. -/
structure ChanOK (cfg : Config V T) (tr : List (Event V T)) (id : ChanID) (ch : ChanEntry V) :
    Prop where
  buf : BufOK cfg.trackRaces (chanOps tr .send id) (chanOps tr .recv id) ch
  close : CloseOK cfg tr id ch
  /-- Only an unbuffered channel has waiting operations that are handed a
  value. -/
  rendezvous : 0 < ch.capacity → chanOps tr .offer id = [] ∧ chanOps tr .claim id = []

theorem ChanOK.frame {cfg : Config V T} {tr : List (Event V T)} {id : ChanID}
    {ch : ChanEntry V} {e : Event V T} (h : ChanOK cfg tr id ch)
    (he : ∀ op, e.onChan ≠ some (op, id)) : ChanOK cfg (tr ++ [e]) id ch where
  buf := by rw [chanOps_snoc_ne (he _), chanOps_snoc_ne (he _)]; exact h.buf
  close := h.close.frame he rfl rfl rfl rfl
  rendezvous := by rw [chanOps_snoc_ne (he _), chanOps_snoc_ne (he _)]; exact h.rendezvous

/-- An entry about a buffer or about closing makes no hand-over. -/
theorem rendezvous_snoc {tr : List (Event V T)} {id : ChanID} {n : Nat} {e : Event V T}
    {op : ChanOp} (h : 0 < n → chanOps tr .offer id = [] ∧ chanOps tr .claim id = [])
    (he : e.onChan = some (op, id)) (hoff : op ≠ .offer) (hcl : op ≠ .claim) (hpos : 0 < n) :
    chanOps (tr ++ [e]) .offer id = [] ∧ chanOps (tr ++ [e]) .claim id = [] := by
  rw [chanOps_snoc_other he hoff.symm, chanOps_snoc_other he hcl.symm]
  exact h hpos

namespace Interpreter

/-- Every channel agrees with the trace, and an unknown channel has no
history. -/
structure ChanInv (cfg : Config V T) (s : Interpreter V T) : Prop where
  known : ∀ id ch, s.channels id = some ch → ChanOK cfg s.trace id ch
  unknown : ∀ id, s.channels id = none → ∀ op, chanOps s.trace op id = []

section Steps

variable {cfg : Config V T} {s t : Interpreter V T} {g : Gid} {id : ChanID}
  {ch ch' : ChanEntry V} {e : Event V T}

theorem ChanInv.same (hI : ChanInv cfg s) (hch : t.channels = s.channels)
    (htr : t.trace = s.trace) : ChanInv cfg t where
  known i c hc := by rw [htr]; exact hI.known i c (hch ▸ hc)
  unknown i hc := by rw [htr]; exact hI.unknown i (hch ▸ hc)

/-- An entry of the trace that is not about a channel. -/
theorem ChanInv.other (hI : ChanInv cfg s) (hch : t.channels = s.channels)
    (htr : t.trace = s.trace ++ [e]) (he : e.onChan = none) : ChanInv cfg t where
  known i c hc := by
    rw [htr]
    exact (hI.known i c (hch ▸ hc)).frame fun op h => by rw [he] at h; cases h
  unknown i hc op := by
    rw [htr, chanOps_snoc_ne (fun h => by rw [he] at h; cases h)]
    exact hI.unknown i (hch ▸ hc) op

/-- An operation on channel `id`: only that channel has to be looked at. -/
theorem ChanInv.on (hI : ChanInv cfg s) (op : ChanOp) (hself : t.channels id = some ch')
    (hother : ∀ i, i ≠ id → t.channels i = s.channels i)
    (htr : t.trace = s.trace ++ [e]) (he : e.onChan = some (op, id))
    (hok : ChanOK cfg (s.trace ++ [e]) id ch') : ChanInv cfg t := by
  have hne : ∀ i, i ≠ id → ∀ o, e.onChan ≠ some (o, i) := by
    intro i hi o heq
    rw [he] at heq
    exact hi (Prod.mk.inj (Option.some.inj heq)).2.symm
  refine ⟨fun i c hc => ?_, fun i hc o => ?_⟩
  · rw [htr]
    by_cases hi : i = id
    · subst hi
      cases hself.symm.trans hc
      exact hok
    · rw [hother i hi] at hc
      exact (hI.known i c hc).frame (hne i hi)
  · have hi : i ≠ id := by rintro rfl; rw [hself] at hc; cases hc
    rw [htr, chanOps_snoc_ne (hne i hi o)]
    exact hI.unknown i (hother i hi ▸ hc) o

/-- A channel is made. -/
theorem ChanInv.createChannel (hI : ChanInv cfg s) (hB : Base s) (capacity : Nat)
    (refill : Option V) : ChanInv cfg (s.createChannel capacity refill) := by
  have hnone : s.channels (s.nextChanID + 1) = none := by
    cases hc : s.channels (s.nextChanID + 1) with
    | none => rfl
    | some c => exact absurd (hB.chan_le _ c hc) (Nat.not_succ_le_self _)
  have hops := hI.unknown _ hnone
  refine ⟨fun i c hc => ?_, fun i hc => ?_⟩
  · have hc : Function.update s.channels (s.nextChanID + 1) _ i = some c := hc
    by_cases hi : i = s.nextChanID + 1
    · subst hi
      rw [update_self] at hc
      cases hc
      refine ⟨?_, CloseOK.new cfg capacity refill hops, fun _ => ⟨hops _, hops _⟩⟩
      show BufOK cfg.trackRaces (chanOps s.trace _ _) (chanOps s.trace _ _) _
      rw [hops, hops]
      exact BufOK.new _ capacity refill
    · rw [update_of_ne hi] at hc
      exact hI.known i c hc
  · have hc : Function.update s.channels (s.nextChanID + 1) _ i = none := hc
    have hi : i ≠ s.nextChanID + 1 := by
      rintro rfl; rw [update_self] at hc; cases hc
    rw [update_of_ne hi] at hc
    exact hI.unknown i hc

/-- The channel becomes a signal channel. -/
theorem ChanInv.notify (hI : ChanInv cfg s) (hch : s.channels id = some ch) (v : V) :
    ChanInv cfg (s.setChan id { ch with refill := some v }) := by
  refine ⟨fun i c hc => ?_, fun i hc => ?_⟩
  · have hc : Function.update s.channels id _ i = some c := hc
    by_cases hi : i = id
    · subst hi
      rw [update_self] at hc
      cases hc
      obtain ⟨hbuf, hclose, hrv⟩ := hI.known i ch hch
      exact ⟨hbuf.congr rfl rfl rfl rfl, hclose.congr rfl rfl rfl nofun, hrv⟩
    · rw [update_of_ne hi] at hc
      exact hI.known i c hc
  · have hc : Function.update s.channels id _ i = none := hc
    have hi : i ≠ id := by rintro rfl; rw [update_self] at hc; cases hc
    rw [update_of_ne hi] at hc
    exact hI.unknown i hc

/-! ## §5. Clocks that operations publish and acquire -/

/-- What the trace has as published is what `releaseClock` returned. -/
theorem stampOf_releaseClock {u : Interpreter V T} {k : Kind V T} {src : List Nat}
    {after : Clock} {n : Nat} (hn : u.trace.length = n) :
    stampOf (⟨g, k, src, (u.releaseClock cfg g).map Stamp.clock, after⟩, n) =
      u.releaseClock cfg g := by
  subst hn
  unfold stampOf releaseClock
  split <;> rfl

theorem releaseClock_isSome (cfg : Config V T) (u : Interpreter V T) (g : Gid) :
    ((u.releaseClock cfg g).map Stamp.clock).isSome = cfg.trackRaces := by
  unfold releaseClock
  split
  · rename_i h; simp [h]
  · rename_i h; simp [h]

/-- A goroutine's clock after it has acquired, and ticked or not. -/
theorem le_acquire_tick (cfg : Config V T) (s : Interpreter V T) (g : Gid) (st : Stamp) :
    st.clock.get ≤ (((s.acquire g (some st)).tick cfg g).clockOf g).get := by
  have hle := stamp_le_mergeStamp (s.clockOf g) st
  rcases acquire_tick_self cfg s g (some st) with h | h
  · rw [h]; exact hle
  · rw [h]; exact hle.trans (VectorClock.Clock.le_tick _ g)

/-- An operation that acquires the clock that entry `x` published. -/
theorem Acquired.of_acquire {x : Occ V T} {o : Option Stamp} {k : Kind V T} {pub : Option Clock}
    {after : Clock} {n : Nat} (hlt : x.2 < n) (ho : stampOf x = o)
    (hle : ∀ st, o = some st → st.clock.get ≤ after.get) :
    Acquired x (⟨g, k, srcs o, pub, after⟩, n) where
  before := hlt
  src := by rw [ho]
  clock c hc := by
    have hst : o = some ⟨c, [x.2]⟩ := by rw [← ho, stampOf, hc]; rfl
    exact hle _ hst

/-! ## §6. The operations -/

theorem ChanInv.offer (hI : ChanInv cfg s) (hch : s.channels id = some ch)
    (hcap : ch.capacity = 0) (hopen : ch.closed = false) (onSend : Bool) (val : V)
    (sel : Option SelRef) (i : Nat) : ChanInv cfg (s.offer cfg g id ch onSend val sel i) := by
  obtain ⟨hbuf, hclose, -⟩ := hI.known id ch hch
  refine hI.on .offer (update_self ..)
    (fun j hj => update_of_ne hj ..) rfl rfl ⟨?_, ?_, fun hpos => ?_⟩
  · rw [chanOps_snoc_other rfl (by decide), chanOps_snoc_other rfl (by decide)]
    refine hbuf.congr ?_ ?_ ?_ ?_ <;> split <;> rfl
  · refine hclose.live .offer hopen rfl (.inr (.inr rfl)) ?_ ?_ <;> split <;> rfl
  · split at hpos <;> exact absurd hcap (Nat.ne_of_gt hpos)

theorem ChanInv.claimBy {u : Interpreter V T} {w : SudogRef} (hI : ChanInv cfg s)
    (hch : s.channels id = some ch) (hzero : ch.capacity = 0) (hopen : ch.closed = false)
    (hset : u.channels = Function.update s.channels id (some ch')) (htr : u.trace = s.trace)
    (hcap : ch'.capacity = ch.capacity) (hb : ch'.buf = ch.buf)
    (hrc : ch'.recvClocks = ch.recvClocks) (hn : ch'.nsent = ch.nsent)
    (hcl : ch'.closed = ch.closed) (href : ch'.refill = ch.refill) :
    ChanInv cfg (u.claimBy cfg g id w) := by
  obtain ⟨hbuf, hclose, -⟩ := hI.known id ch hch
  have hself : u.channels id = some ch' := by rw [hset, update_self]
  have hother : ∀ j, j ≠ id → u.channels j = s.channels j := fun j hj => by
    rw [hset, update_of_ne hj]
  refine hI.on .claim hself hother (congrArg (· ++ [_]) htr) rfl ⟨?_, ?_, fun hpos => ?_⟩
  · rw [chanOps_snoc_other rfl (by decide), chanOps_snoc_other rfl (by decide)]
    exact hbuf.congr hcap hb hrc hn
  · exact hclose.live .claim hopen rfl (.inr (.inl rfl)) hcl href
  · exact absurd (hcap.trans hzero) (Nat.ne_of_gt hpos)

theorem ChanInv.bufferedSend (hI : ChanInv cfg s) (hch : s.channels id = some ch)
    (hopen : ch.closed = false) (hroom : ch.buf.length < ch.capacity) (val : V) :
    ChanInv cfg (s.bufferedSend cfg g id ch val) := by
  obtain ⟨hbuf, hclose, hrv⟩ := hI.known id ch hch
  refine hI.on .send (update_self ..) (fun j hj => update_of_ne hj ..) rfl rfl
    ⟨?_, ?_, rendezvous_snoc hrv rfl (by decide) (by decide)⟩
  · rw [chanOps_snoc rfl, chanOps_snoc_other rfl (by decide)]
    refine hbuf.send hroom rfl (stampOf_releaseClock rfl) (releaseClock_isSome ..) ?_ ?_ ?_
    · by_cases hge : ch.nsent ≥ ch.capacity
      · obtain ⟨y, -, -, htail⟩ := hbuf.freed hroom hge
        rw [if_pos hge, htail]
      · have hn := hbuf.nsent
        rw [if_neg hge, hbuf.recvClocks,
          show (chanOps s.trace .send id).length - ch.capacity = 0 by omega,
          show (chanOps s.trace .send id).length + 1 - ch.capacity = 0 by omega]
    · intro y hy hge
      have hge : ch.nsent ≥ ch.capacity := hbuf.nsent ▸ hge
      obtain ⟨y', hy', hhead, -⟩ := hbuf.freed hroom hge
      cases hy.symm.trans hy'
      rw [if_pos hge, hhead]
      refine Acquired.of_acquire (lt_of_mem_chanOps (List.mem_of_getElem? hy)) rfl ?_
      intro st hst
      rw [hst]
      exact le_acquire_tick cfg s g st
    · intro hlt
      have hge : ¬ ch.nsent ≥ ch.capacity := by rw [hbuf.nsent]; omega
      show srcs (if ch.nsent ≥ ch.capacity then ch.recvClocks.head? else none) = []
      rw [if_neg hge]; rfl
  · exact hclose.live .send hopen rfl (.inl rfl) rfl rfl

theorem ChanInv.recvBuffered (hI : ChanInv cfg s) (hch : s.channels id = some ch)
    {it : ChanItem V} {rest : List (ChanItem V)} (hbuf : ch.buf = it :: rest) :
    ChanInv cfg (s.recvBuffered cfg g id ch it rest) := by
  obtain ⟨hok, hclose, hrv⟩ := hI.known id ch hch
  have hcap : ch.capacity > 0 := by
    have hroom := hok.room
    rw [hbuf, List.length_cons] at hroom
    omega
  simp only [Interpreter.recvBuffered, if_pos hcap]
  refine hI.on .recv (update_self ..) (fun j hj => update_of_ne hj ..) rfl rfl
    ⟨?_, ?_, rendezvous_snoc hrv rfl (by decide) (by decide)⟩
  · rw [chanOps_snoc_other rfl (by decide), chanOps_snoc rfl]
    refine hok.recv hbuf rfl (stampOf_releaseClock rfl) (releaseClock_isSome ..) ?_
    intro x hx hst
    refine Acquired.of_acquire (lt_of_mem_chanOps (List.mem_of_getElem? hx)) hst ?_
    intro st hst
    rw [hst]
    exact le_acquire_tick cfg s g st
  · exact hclose.recv (by rw [hbuf]; exact List.cons_ne_nil _ _) rfl rfl rfl rfl

theorem ChanInv.recvClosed (hI : ChanInv cfg s) (hch : s.channels id = some ch)
    (hcl : ch.closed = true) (hor : ch.capacity = 0 ∨ ch.buf = []) (elem : Option T) :
    ChanInv cfg (s.recvClosed cfg g id ch elem) := by
  obtain ⟨hok, hclose, hrv⟩ := hI.known id ch hch
  have hbuf : ch.buf = [] := by
    rcases hor with hcap | hbuf
    · have hroom := hok.room
      rw [hcap] at hroom
      exact List.eq_nil_of_length_eq_zero (Nat.le_zero.mp hroom)
    · exact hbuf
  refine hI.on .recvClosed hch (fun _ _ => rfl) rfl rfl
    ⟨?_, ?_, rendezvous_snoc hrv rfl (by decide) (by decide)⟩
  · rw [chanOps_snoc_other rfl (by decide), chanOps_snoc_other rfl (by decide)]
    exact hok
  · refine hclose.recvOfClosed hcl hbuf rfl fun x hx hst => ?_
    refine Acquired.of_acquire (lt_of_mem_chanOps hx) hst.symm fun st hst => ?_
    rw [hst]
    show _ ≤ ((s.acquire g (some st)).clockOf g).get
    rw [show (s.acquire g (some st)).clockOf g = _ from clockOf_setClock_self ..]
    exact stamp_le_mergeStamp _ st

theorem ChanInv.close (hI : ChanInv cfg s) (hch : s.channels id = some ch)
    (hopen : ch.closed = false) :
    ChanInv cfg (((s.tick cfg g).setChan id
      { ch with closed := true, closeClock := s.releaseClock cfg g }).log g (.close id) []
        ((s.releaseClock cfg g).map Stamp.clock)) := by
  obtain ⟨hok, hclose, hrv⟩ := hI.known id ch hch
  refine hI.on .close (update_self ..) (fun j hj => update_of_ne hj ..) rfl rfl
    ⟨?_, ?_, rendezvous_snoc hrv rfl (by decide) (by decide)⟩
  · rw [chanOps_snoc_other rfl (by decide), chanOps_snoc_other rfl (by decide)]
    exact hok.congr rfl rfl rfl rfl
  · exact hclose.close hopen rfl rfl (stampOf_releaseClock rfl).symm (releaseClock_isSome ..) rfl

theorem ChanInv.recvRefill (hI : ChanInv cfg s) (hch : s.channels id = some ch) {v : V}
    (href : ch.refill = some v) : ChanInv cfg (s.log g (.recvRefill id v) [] none) := by
  obtain ⟨hok, hclose, hrv⟩ := hI.known id ch hch
  refine hI.on .recvRefill hch (fun _ _ => rfl) rfl rfl ⟨?_, hclose.recvRefill href rfl,
    rendezvous_snoc hrv rfl (by decide) (by decide)⟩
  rw [chanOps_snoc_other rfl (by decide), chanOps_snoc_other rfl (by decide)]
  exact hok

/-- **Every part keeps the channels and the trace in agreement.** -/
theorem ChanInv.micro (hI : ChanInv cfg s) (hB : Base s) {o : Option Prim} (h : Micro cfg s o t) :
    ChanInv cfg t := by
  cases h with
  | quiet h => exact hI.same h.channels h.trace
  | makeChan capacity refill => exact hI.createChannel hB capacity refill
  | notify v hch => exact hI.notify hch v
  | exit | park | parkSelect | unpark | addCounter | refuse => exact hI.same rfl rfl
  | @parkOffer g wt id ch onSend val h _ hch hcap hopen =>
    have hU : ChanInv cfg (s.setWait g (some wt)) := hI.same rfl rfl
    exact hU.offer hch hcap hopen onSend val none 0
  | offer h _ _ _ hch hcap hopen => exact hI.offer hch hcap hopen _ _ _ _
  | claimSend _ _ hch hcap hopen | claimRecv _ hch hcap hopen =>
    exact hI.claimBy hch hcap hopen rfl rfl rfl rfl rfl rfl rfl rfl
  | bufferedSend val h hch hopen hroom => exact hI.bufferedSend hch hopen hroom val
  | recvBuffered h hch hbuf => exact hI.recvBuffered hch hbuf
  | recvRefill h hch href => exact hI.recvRefill hch href
  | recvClosed elem h hch hcl hor => exact hI.recvClosed hch hcl hor elem
  | close h hch hopen => exact hI.close hch hopen
  | _ => exact hI.other rfl rfl rfl

theorem chanInv_init (cfg : Config V T) : ChanInv cfg (init cfg) where
  known _ _ h := by cases h
  unknown _ _ _ := rfl

theorem chanInv (h : Reachable cfg s) : ChanInv cfg s :=
  (h.invariant (chanInv_init cfg) fun _ _ _ hB hm hI => hI.micro hB hm).2

end Steps

end Interpreter

end Giri.Interp
