/-
Giri.Interp.Micro — what a step of the machine can do to the state the
proofs look at.

A step runs a whole operation, and operations share their parts: a select
ends in a send or a receive, which may claim, fill a buffer, or return
because the channel is closed. `Micro` lists those parts ONCE, each with
what is known where it happens. `step_micros` takes every step apart into
them. An invariant is then checked against `Micro` only, and a run of the
machine is a run of `Micro`.

Every premise below is tested by the code on the way, with one exception: an
operation that waits does not look at the capacity again when it is resumed
(`Fits`).
-/
import Giri.Interp.Machine

namespace Giri.Interp

open Function (update_self update_of_ne)

variable {V T : Type}

/-- A `sync.Mutex` or `sync.RWMutex`. -/
def Prim.IsLock (p : Prim) : Prop := p.kind = .mutex ∨ p.kind = .rwMutex

/-- The group that is waited for. -/
def Wait.prim : Wait V T → Option Prim
  | .group p => some p
  | _ => none

namespace Interpreter

/-! ## §1. The parts -/

/-- `t` differs from `s` only in what the invariants don't read: results,
panics, violations. Once stopped, the interpreter stays stopped. -/
structure Same (s t : Interpreter V T) : Prop where
  spawned : ∀ g, (t.goroutines g).spawned = (s.goroutines g).spawned
  vclock : ∀ g, (t.goroutines g).vclock = (s.goroutines g).vclock
  wait : ∀ g, (t.goroutines g).wait = (s.goroutines g).wait
  group : ∀ g, (t.goroutines g).group = (s.goroutines g).group
  exited : ∀ g, (t.goroutines g).exited = (s.goroutines g).exited
  aborted : ∀ g, (s.goroutines g).aborted = true → (t.goroutines g).aborted = true
  numGoroutines : t.numGoroutines = s.numGoroutines
  nextGID : s.nextGID ≤ t.nextGID
  channels : t.channels = s.channels
  nextChanID : t.nextChanID = s.nextChanID
  sudogs : t.sudogs = s.sudogs
  nextSudog : t.nextSudog = s.nextSudog
  sels : t.sels = s.sels
  nextSel : t.nextSel = s.nextSel
  mutexes : t.mutexes = s.mutexes
  trace : t.trace = s.trace
  stopping : s.stopping = true → t.stopping = true

/-- The wait suits its channel. The capacity of a channel never changes and
a closed channel stays closed, so this lasts. -/
def Fits (s : Interpreter V T) : Wait V T → Prop
  | .sendReady id _ _ => ∃ ch, s.channels id = some ch ∧ (0 < ch.capacity ∨ ch.closed = true)
  | .recv id _ _ => ∃ ch, s.channels id = some ch ∧ ch.capacity = 0
  | _ => True

/-- A wait without a sudog. -/
def Bare : Wait V T → Prop
  | .send _ _ _ => False
  | .recv _ _ _ => False
  | .select _ _ _ => False
  | _ => True

/-- A wait that may end without a trace: it has no offer that a counterpart
has claimed, or could still claim. -/
def Ends (s : Interpreter V T) : Wait V T → Prop
  | .send id w _ =>
    (s.sudogs w).done = false ∧ ∃ ch, s.channels id = some ch ∧ ch.closed = true
  | .recv id w _ =>
    (s.sudogs w).done = false ∧ ∃ ch, s.channels id = some ch ∧ ch.closed = true
  | .select _ sw _ => (s.sels sw).fired = true ∧ (s.sels sw).sg = none
  | _ => True

/-- No counterpart has completed the waiting operation. A select without
cases has no offers. -/
def Unclaimed (s : Interpreter V T) : Wait V T → Prop
  | .send _ w _ => (s.sudogs w).done = false
  | .recv _ w _ => (s.sudogs w).done = false
  | .select cases sw _ => (s.sels sw).fired = false ∨ cases = []
  | _ => True

/-- The wait of a plain operation on the unbuffered channel `id`, whose
sudog is the next one. -/
def Begins (s : Interpreter V T) (id : ChanID) (onSend : Bool) : Wait V T → Prop
  | .send id' w _ => id' = id ∧ w = s.nextSudog ∧ onSend = true
  | .recv id' w _ => id' = id ∧ w = s.nextSudog ∧ onSend = false
  | _ => False

/-- A counterpart has completed the sudog `w` of the waiting operation. -/
def Claimed (s : Interpreter V T) (w : SudogRef) : Wait V T → Prop
  | .send _ w' _ => w' = w ∧ (s.sudogs w).done = true
  | .recv _ w' _ => w' = w ∧ (s.sudogs w).done = true
  | .select _ sw _ => (s.sels sw).fired = true ∧ (s.sels sw).sg = some w
  | _ => False

/-- The waiting operation is a plain one, with the sudog `w`. -/
def Plain (w : SudogRef) : Wait V T → Prop
  | .send _ w' _ => w' = w
  | .recv _ w' _ => w' = w
  | _ => False

/-- **What the machine does, part by part**, and the primitive that it is
about. -/
inductive Micro (cfg : Config V T) (s : Interpreter V T) :
    Option Prim → Interpreter V T → Prop where
  | quiet {t : Interpreter V T} : Same s t → Micro cfg s none t
  | access {g : Gid} :
      Running s g → Micro cfg s none (s.log g .access [] none)
  | makeChan (capacity : Nat) (refill : Option V) :
      Micro cfg s none (s.createChannel capacity refill)
  | notify {id : ChanID} {ch : ChanEntry V} (v : V) :
      s.channels id = some ch → Micro cfg s none (s.setChan id { ch with refill := some v })
  -- goroutines
  | fork {g : Gid} (site : String) : Running s g →
      Micro cfg s none ({ s with nextGID := s.nextGID + 1 }.fork g (s.nextGID + 1) none site)
  | memberFork {g : Gid} {p : Prim} (site : String) :
      Running s g → p.kind = .errgroup →
      Micro cfg s (some p)
        ({ s.addCounter p 1 with nextGID := s.nextGID + 1 }.fork g (s.nextGID + 1) (some p) site)
  | refuse (p : Prim) : p.kind = .errgroup →
      Micro cfg s (some p) { s.addCounter p 1 with nextGID := s.nextGID + 1 }
  | exit {g : Gid} : Running s g → (s.goroutines g).exited = false →
      (s.goroutines g).group = none ∨ (s.goroutines g).aborted = true →
      Micro cfg s none (s.modify g fun r => { r with exited := true })
  | memberExit {g : Gid} {p : Prim} : Running s g →
      (s.goroutines g).exited = false → (s.goroutines g).group = some p →
      Micro cfg s (some p)
        (((s.modify g fun r => { r with exited := true }).joinRelease g p).addCounter p (-1))
  -- waiting
  | park {g : Gid} {wt : Wait V T} :
      Running s g → Bare wt → Fits s wt → Micro cfg s wt.prim (s.setWait g (some wt))
  | parkOffer {g : Gid} {wt : Wait V T} {id : ChanID} {ch : ChanEntry V}
      {onSend : Bool} (val : V) :
      Running s g → Begins s id onSend wt → s.channels id = some ch →
      ch.capacity = 0 → ch.closed = false →
      Micro cfg s none ((s.setWait g (some wt)).offer cfg g id ch onSend val none 0)
  | parkSelect {g : Gid} (cases : List (SelectCase V T))
      (site : String) : Running s g →
      Micro cfg s none (s.newSelect.setWait g (some (.select cases s.nextSel site)))
  | unpark {g : Gid} {wt : Wait V T} :
      Waiting s g wt → Ends s wt → Micro cfg s none (s.setWait g none)
  -- channels
  | offer {g : Gid} {cases : List (SelectCase V T)} {sw : SelRef}
      {site : String} {id : ChanID} {ch : ChanEntry V} {c : SelectCase V T} {caseIdx : Nat} :
      Waiting s g (.select cases sw site) → cases[caseIdx]? = some c → c.ch = some id →
      (s.sels sw).fired = false → s.channels id = some ch → ch.capacity = 0 → ch.closed = false →
      Micro cfg s none (s.offer cfg g id ch c.send c.val (some sw) caseIdx)
  | claimSend {g : Gid} {id : ChanID} {ch : ChanEntry V}
      {w : SudogRef} {rest : List SudogRef} (val : V) :
      Running s g → s.channels id = some ch → ch.capacity = 0 → ch.closed = false →
      s.popLive none ch.recvq = some (w, rest) →
      Micro cfg s none
        (((s.setChan id { ch with recvq := rest }).setSudog w
          { s.sudogs w with val := val }).claimBy cfg g id w)
  | claimRecv {g : Gid} {id : ChanID} {ch : ChanEntry V}
      {w : SudogRef} {rest : List SudogRef} :
      Running s g → s.channels id = some ch → ch.capacity = 0 → ch.closed = false →
      s.popLive none ch.sendq = some (w, rest) →
      Micro cfg s none ((s.setChan id { ch with sendq := rest }).claimBy cfg g id w)
  | wakeUp {g : Gid} {wt : Wait V T} {w : SudogRef} (ticks : Bool) :
      Waiting s g wt → Claimed s w wt → Micro cfg s none (s.wakeUp cfg g w ticks)
  | abandonOffer {g : Gid} {wt : Wait V T} {w : SudogRef} :
      Waiting s g wt → Plain w wt → Unclaimed s wt ∨ s.stopping = true →
      Micro cfg s none (s.abandonOffer g w)
  | withdraw {g : Gid} {cases : List (SelectCase V T)} {sw : SelRef}
      {site : String} : Waiting s g (.select cases sw site) →
      Unclaimed s (.select cases sw site) ∨ s.stopping = true → Micro cfg s none (s.withdraw g sw)
  | bufferedSend {g : Gid} {id : ChanID} {ch : ChanEntry V} (val : V) :
      Running s g → s.channels id = some ch → ch.closed = false →
      ch.buf.length < ch.capacity → Micro cfg s none (s.bufferedSend cfg g id ch val)
  | recvBuffered {g : Gid} {id : ChanID} {ch : ChanEntry V}
      {it : ChanItem V} {rest : List (ChanItem V)} :
      Running s g → s.channels id = some ch → ch.buf = it :: rest →
      Micro cfg s none (s.recvBuffered cfg g id ch it rest)
  | recvRefill {g : Gid} {id : ChanID} {ch : ChanEntry V} {v : V} :
      Running s g → s.channels id = some ch → ch.refill = some v →
      Micro cfg s none (s.log g (.recvRefill id v) [] none)
  | recvClosed {g : Gid} {id : ChanID} {ch : ChanEntry V}
      (elem : Option T) : Running s g → s.channels id = some ch → ch.closed = true →
      ch.capacity = 0 ∨ ch.buf = [] → Micro cfg s none (s.recvClosed cfg g id ch elem)
  | close {g : Gid} {id : ChanID} {ch : ChanEntry V} :
      Running s g → s.channels id = some ch → ch.closed = false →
      Micro cfg s none (((s.tick cfg g).setChan id
        { ch with closed := true, closeClock := s.releaseClock cfg g }).log g (.close id) []
          ((s.releaseClock cfg g).map Stamp.clock))
  -- sync primitives
  | lock {g : Gid} (p : Prim) : Running s g → p.IsLock →
      Micro cfg s (some p) (s.lock g p)
  | rLock {g : Gid} (p : Prim) : Running s g → p.IsLock →
      Micro cfg s (some p) (s.rLock g p)
  | unlock {g : Gid} (p : Prim) : Running s g → p.IsLock →
      (s.mutexes p.key).locked = true →
      Micro cfg s (some p) (s.syncRelease g .unlock p
        { s.mutexes p.key with locked := false, lastUnlockClock := some (s.snapshotClock g) })
  | rUnlock {g : Gid} (p : Prim) : Running s g → p.IsLock →
      (s.mutexes p.key).readers ≠ 0 →
      Micro cfg s (some p) (s.syncRelease g .rUnlock p
        { s.mutexes p.key with
          readers := (s.mutexes p.key).readers - 1
          rUnlockClock := some (s.joinClock (s.mutexes p.key).rUnlockClock g) })
  | signal {g : Gid} (p : Prim) : Running s g → p.kind = .cond →
      Micro cfg s (some p) (s.condSignal g p)
  | condWait {g : Gid} (p : Prim) : Running s g → p.kind = .cond →
      Micro cfg s (some p) (s.condWait g p)
  | groupWait {g : Gid} (p : Prim) : Running s g →
      (s.mutexes p.key).wgCounter ≤ 0 →
      Micro cfg s (some p) (s.condWait g p)
  | done {g : Gid} (p : Prim) : Running s g → p.kind = .waitGroup →
      Micro cfg s (some p) (s.joinRelease g p)
  | addCounter (p : Prim) (delta : Int) : p.kind = .waitGroup →
      Micro cfg s (some p) (s.addCounter p delta)

/-- Any number of parts, of a step about `o`. -/
def Micros (cfg : Config V T) (o : Option Prim) : Interpreter V T → Interpreter V T → Prop :=
  Relation.ReflTransGen fun s t => ∃ o', (o' = none ∨ o' = o) ∧ Micro cfg s o' t

section Decompose

variable {cfg : Config V T} {s t u : Interpreter V T} {g : Gid} {o : Option Prim} {p : Prim}

theorem Micro.micros (h : Micro cfg s none t) : Micros cfg o s t := .single ⟨_, .inl rfl, h⟩

theorem Micro.own (h : Micro cfg s o t) : Micros cfg o s t := .single ⟨_, .inr rfl, h⟩

theorem Micros.trans (h₁ : Micros cfg o s t) (h₂ : Micros cfg o t u) :
    Micros cfg o s u :=
  Relation.ReflTransGen.trans h₁ h₂

theorem Micros.tail (h₁ : Micros cfg o s t) (h₂ : Micro cfg t none u) :
    Micros cfg o s u :=
  h₁.trans h₂.micros

/-! ## §2. What the invariants don't read -/

theorem Same.refl (s : Interpreter V T) : Same s s :=
  ⟨fun _ => rfl, fun _ => rfl, fun _ => rfl, fun _ => rfl, fun _ => rfl, fun _ h => h, rfl,
    le_refl _, rfl, rfl, rfl, rfl, rfl, rfl, rfl, rfl, id⟩

theorem Same.trans (h₁ : Same s t) (h₂ : Same t u) : Same s u where
  spawned g := (h₂.spawned g).trans (h₁.spawned g)
  vclock g := (h₂.vclock g).trans (h₁.vclock g)
  wait g := (h₂.wait g).trans (h₁.wait g)
  group g := (h₂.group g).trans (h₁.group g)
  exited g := (h₂.exited g).trans (h₁.exited g)
  aborted g h := h₂.aborted g (h₁.aborted g h)
  numGoroutines := h₂.numGoroutines.trans h₁.numGoroutines
  nextGID := Int.le_trans h₁.nextGID h₂.nextGID
  channels := h₂.channels.trans h₁.channels
  nextChanID := h₂.nextChanID.trans h₁.nextChanID
  sudogs := h₂.sudogs.trans h₁.sudogs
  nextSudog := h₂.nextSudog.trans h₁.nextSudog
  sels := h₂.sels.trans h₁.sels
  nextSel := h₂.nextSel.trans h₁.nextSel
  mutexes := h₂.mutexes.trans h₁.mutexes
  trace := h₂.trace.trans h₁.trace
  stopping h := h₂.stopping (h₁.stopping h)

theorem Same.micros (h : Same s t) : Micros cfg o s t := (Micro.quiet h).micros

theorem Same.running (h : Same s t) (hr : Running s g) : Running t g :=
  ⟨(h.spawned g).trans hr.1, (h.wait g).trans hr.2⟩

theorem same_modify (s : Interpreter V T) (g : Gid) {f : Goroutine V T → Goroutine V T}
    (hf : ∀ r, (f r).spawned = r.spawned ∧ (f r).vclock = r.vclock ∧ (f r).wait = r.wait ∧
      (f r).group = r.group ∧ (f r).exited = r.exited ∧ (r.aborted = true → (f r).aborted = true)) :
    Same s (s.modify g f) where
  spawned g' := modify_field Goroutine.spawned s g g' fun r => (hf r).1
  vclock g' := modify_field Goroutine.vclock s g g' fun r => (hf r).2.1
  wait g' := modify_field Goroutine.wait s g g' fun r => (hf r).2.2.1
  group g' := modify_field Goroutine.group s g g' fun r => (hf r).2.2.2.1
  exited g' := modify_field Goroutine.exited s g g' fun r => (hf r).2.2.2.2.1
  aborted g' h := by
    by_cases hg : g' = g
    · subst hg
      rw [modify_goroutines, update_self]
      exact (hf _).2.2.2.2.2 h
    · rw [modify_goroutines, update_of_ne hg]
      exact h
  numGoroutines := rfl
  nextGID := le_refl _
  channels := rfl
  nextChanID := rfl
  sudogs := rfl
  nextSudog := rfl
  sels := rfl
  nextSel := rfl
  mutexes := rfl
  trace := rfl
  stopping h := h

theorem same_setRet (s : Interpreter V T) (g : Gid) (v : Ret V) : Same s (s.setRet g v) :=
  same_modify s g fun _ => ⟨rfl, rfl, rfl, rfl, rfl, id⟩

theorem same_runtimePanic (s : Interpreter V T) (g : Gid) (msg : String) :
    Same s (s.runtimePanic g msg) := by
  unfold runtimePanic
  split
  · exact .refl s
  · exact same_modify s g fun _ => ⟨rfl, rfl, rfl, rfl, rfl, id⟩

theorem same_recordViolation (s : Interpreter V T) (g : Gid) (err : Violation) :
    Same s (s.recordViolation g err) := by
  unfold recordViolation
  split
  · exact .refl s
  · exact { Same.refl s with }

theorem same_sendOnClosed (s : Interpreter V T) (g : Gid) (site : String) :
    Same s (s.sendOnClosed g site) :=
  (same_runtimePanic s g _).trans (same_recordViolation _ g _)

theorem same_checkChannelEscape (cfg : Config V T) (s : Interpreter V T) (g : Gid) (val : V)
    (site : String) : Same s (s.checkChannelEscape cfg g val site) := by
  unfold checkChannelEscape
  split
  · exact .refl s
  · exact same_recordViolation s g _

theorem same_unlockOfUnlocked (s : Interpreter V T) (g : Gid) (m : MutexMethod)
    (site : String) : Same s (s.unlockOfUnlocked g m site) :=
  (same_recordViolation s g _).trans
    (same_modify _ g fun _ => ⟨rfl, rfl, rfl, rfl, rfl, id⟩)

theorem same_haltAll (s : Interpreter V T) : Same s s.haltAll := by
  have hfield : ∀ {α : Type} (π : Goroutine V T → α),
      (∀ r : Goroutine V T, π { r with panicked := true } = π r) →
      ∀ g, π (s.haltAll.goroutines g) = π (s.goroutines g) := by
    intro α π hπ g
    show π (if (s.goroutines g).spawned then _ else _) = _
    split
    · exact hπ _
    · rfl
  exact { Same.refl s with
    spawned := hfield Goroutine.spawned fun _ => rfl
    vclock := hfield Goroutine.vclock fun _ => rfl
    wait := hfield Goroutine.wait fun _ => rfl
    group := hfield Goroutine.group fun _ => rfl
    exited := hfield Goroutine.exited fun _ => rfl
    aborted := fun g h => (hfield Goroutine.aborted (fun _ => rfl) g).trans h
    stopping := fun _ => rfl }

/-- A result is stored at the end of an operation. -/
theorem Micros.setRet (h : Micros cfg o s t) (v : Ret V) : Micros cfg o s (t.setRet g v) :=
  h.tail (.quiet (same_setRet t g v))

/-! ## §3. Who runs and who waits -/

theorem Running.setWait (h : Running s g) (wt : Wait V T) :
    Waiting (s.setWait g (some wt)) g wt :=
  ⟨(setWait_spawned s g g _).trans h.1, by rw [setWait_wait, if_pos rfl]⟩

variable {wt : Wait V T}

theorem Waiting.running (h : Waiting s g wt) : Running (s.setWait g none) g :=
  ⟨(setWait_spawned s g g _).trans h.1, by rw [setWait_wait, if_pos rfl]⟩

theorem Waiting.offer (h : Waiting s g wt) (id : ChanID) (ch : ChanEntry V) (onSend : Bool)
    (val : V) (sel : Option SelRef) (i : Nat) :
    Waiting (s.offer cfg g id ch onSend val sel i) g wt :=
  ⟨(setClock_spawned s g g _).trans h.1, (setClock_wait s g g _).trans h.2⟩

/-! ## §4. Waiting -/

theorem abandon_micros (h : Waiting s g wt) (hun : Unclaimed s wt ∨ s.stopping = true) :
    Micros cfg o s (s.abandon cfg g wt) := by
  cases wt with
  | sendReady | recvReady => exact (Micro.unpark h trivial).micros.setRet _
  | send | recv => exact (Micro.abandonOffer h rfl hun).micros.setRet _
  | select => exact (Micro.withdraw h hun).micros
  | group | never => exact (Micro.unpark h trivial).micros

/-- A wait that is not over has not been completed by a counterpart. -/
theorem unclaimed_of_not_ready (h : s.ready wt = false) : Unclaimed s wt := by
  cases wt with
  | send | recv => exact (Bool.or_eq_false_iff.mp h).1
  | select =>
    rcases Bool.and_eq_false_iff.mp h with hnil | hor
    · exact .inr (by simpa using hnil)
    · exact .inl (Bool.or_eq_false_iff.mp hor).1
  | _ => trivial

theorem settle_micros {k : Interpreter V T → Interpreter V T} (h : Waiting s g wt)
    (hun : Unclaimed s wt) (hk : s.ready wt = true → Micros cfg o s (k s)) :
    Micros cfg o s (s.settle cfg g wt k) := by
  unfold settle
  split
  · exact abandon_micros h (.inl hun)
  · split
    · rename_i hready; exact hk hready
    · exact .refl

theorem Bare.unclaimed (h : Bare wt) : Unclaimed s wt := by
  cases wt <;> trivial

theorem block_micros {k : Interpreter V T → Interpreter V T} (h : Running s g) (hb : Bare wt)
    (hf : Fits s wt) (ho : wt.prim = none ∨ wt.prim = o)
    (hk : Waiting (s.setWait g (some wt)) g wt → (s.setWait g (some wt)).ready wt = true →
      Micros cfg o (s.setWait g (some wt)) (k (s.setWait g (some wt)))) :
    Micros cfg o s (s.block cfg g wt k) :=
  .head ⟨_, ho, .park h hb hf⟩
    (settle_micros (h.setWait wt) hb.unclaimed (hk (h.setWait wt)))

/-! ## §5. Sending and receiving -/

/-- `hasLive` and `popLive` look for the same sudog. -/
theorem popLive_isSome (s : Interpreter V T) (self : Option SelRef) : ∀ q : List SudogRef,
    (s.popLive self q).isSome = s.hasLive self q
  | [] => rfl
  | w :: q => by
    rw [popLive, hasLive, List.any_cons]
    by_cases h : s.eligible self w
    · simp [h]
    · simp only [h, Bool.false_or]
      exact popLive_isSome s self q

variable {ch : ChanEntry V} {self : Option SelRef}

/-- An open buffered channel takes a value only if there is room. -/
theorem room_of_canSend (hcan : s.canSend ch self = true) (hopen : ch.closed = false)
    (hcap : 0 < ch.capacity) :
    ch.buf.length < ch.capacity := by
  simp only [canSend, hopen, Bool.false_eq_true, if_false, if_pos hcap, Bool.and_eq_true,
    decide_eq_true_eq] at hcan
  exact hcan.1

/-- An open unbuffered channel takes a value only if a receiver waits. -/
theorem popLive_of_canSend (hcan : s.canSend ch self = true) (hopen : ch.closed = false)
    (hcap : ch.capacity = 0) :
    ∃ w rest, s.popLive self ch.recvq = some (w, rest) := by
  simp only [canSend, hopen, hcap, Bool.false_eq_true, if_false, gt_iff_lt, lt_irrefl,
    ← popLive_isSome, Option.isSome_iff_exists] at hcan
  exact ⟨_, _, hcan.choose_spec⟩

/-- An open channel with nothing in it yields a value only if a sender
waits. -/
theorem popLive_of_canRecv (hcan : s.canRecv ch self = true) (hopen : ch.closed = false)
    (href : ch.refill = none) (hbuf : ch.buf = []) :
    ch.capacity = 0 ∧ ∃ w rest, s.popLive self ch.sendq = some (w, rest) := by
  simp only [canRecv, hopen, href, hbuf, Option.isSome_none, List.isEmpty_nil, Bool.not_true,
    Bool.or_self, Bool.false_eq_true, if_false, Bool.and_eq_true, beq_iff_eq,
    ← popLive_isSome, Option.isSome_iff_exists] at hcan
  exact ⟨hcan.1, _, _, hcan.2.choose_spec⟩

theorem exists_of_any {α : Type} {o : Option α} {p : α → Bool} (h : o.any p = true) :
    ∃ a, o = some a ∧ p a = true := by
  cases o with
  | none => cases h
  | some a => exact ⟨a, rfl, h⟩

variable {id : ChanID} {site : String} {i : Nat} {val : V}

theorem sendNow_micros (h : Waiting s g (.sendReady id val site))
    (hfits : Fits s (.sendReady id val site)) (hready : s.ready (.sendReady id val site) = true) :
    Micros cfg o s (s.sendNow cfg g id val site) := by
  obtain ⟨ch, hch, hor⟩ := hfits
  have hcan : s.canSend ch none = true := by
    simpa only [ready, hch, Option.any_some] using hready
  have hun : Micros cfg o s (s.setWait g none) := (Micro.unpark h trivial).micros
  have hch' : (s.setWait g none).channels id = some ch := hch
  simp only [sendNow, hch']
  by_cases hcl : ch.closed = true
  · rw [if_pos hcl]
    exact (hun.trans (same_sendOnClosed _ g site).micros).setRet _
  · rw [if_neg hcl]
    have hopen : ch.closed = false := by simpa using hcl
    have hroom := room_of_canSend hcan hopen (hor.resolve_right hcl)
    exact (hun.tail (.bufferedSend val h.running hch' hopen hroom)).setRet _

theorem sendWoken_micros {w : SudogRef} (h : Waiting s g (.send id w site))
    (hready : s.ready (.send id w site) = true) :
    Micros cfg o s (s.sendWoken cfg g w site) := by
  unfold sendWoken
  split
  · rename_i hdone
    exact (Micro.wakeUp false h ⟨rfl, hdone⟩).micros.setRet _
  · rename_i hdone
    simp only [ready, hdone, Bool.false_or] at hready
    have hun : Micros cfg o s (s.setWait g none) :=
      (Micro.unpark h ⟨by simpa using hdone, exists_of_any hready⟩).micros
    exact (hun.trans (same_sendOnClosed _ g site).micros).setRet _

/-- A sudog that has just been queued is not done. -/
theorem offer_not_done {onSend : Bool} {sel : Option SelRef} :
    ((s.offer cfg g id ch onSend val sel i).sudogs s.nextSudog).done = false := by
  show (Function.update s.sudogs s.nextSudog _ s.nextSudog).done = false
  rw [update_self]

theorem chanSend_micros (h : Running s g) (id : ChanID) (val : V) (site : String) :
    Micros cfg o s (s.chanSend cfg g id val site) := by
  unfold chanSend
  split
  · exact (same_setRet s g _).micros
  · rename_i ch hch
    have hsame := same_checkChannelEscape cfg s g val site
    refine .trans hsame.micros ?_
    have h := hsame.running h
    rw [← hsame.channels] at hch
    generalize s.checkChannelEscape cfg g val site = s at h hch ⊢
    simp only
    split
    · rename_i hor
      simp only [gt_iff_lt, Bool.or_eq_true, decide_eq_true_eq] at hor
      exact block_micros h trivial ⟨ch, hch, hor⟩ (.inl rfl) fun hw => sendNow_micros hw ⟨ch, hch, hor⟩
    · rename_i hor
      simp only [gt_iff_lt, Bool.or_eq_true, decide_eq_true_eq, not_or, Nat.not_lt,
        Nat.le_zero_eq, Bool.not_eq_true] at hor
      split
      · rename_i r rest hpop
        exact (Micro.claimSend val h hch hor.1 hor.2 hpop).micros.setRet _
      · have hw := h.setWait (.send id s.nextSudog site)
        have hoff : Micro cfg s none ((s.setWait g (some (.send id s.nextSudog site))).offer cfg g id
            ch true val none 0) := .parkOffer val h ⟨rfl, rfl, rfl⟩ hch hor.1 hor.2
        exact hoff.micros.trans
          (settle_micros (hw.offer ..) offer_not_done (sendWoken_micros (hw.offer ..)))

/-- `recvReady` on a channel that can be received from. -/
theorem recvReady_micros (h : Running s g) (hch : s.channels id = some ch)
    (hcan : s.canRecv ch none = true) (elem : Option T) :
    Micros cfg o s (s.recvReady cfg g id ch elem).1 := by
  unfold recvReady
  split
  · rename_i v href
    exact (Micro.recvRefill h hch href).micros
  · rename_i it rest href hbuf
    exact (Micro.recvBuffered h hch hbuf).micros
  · rename_i href hbuf
    by_cases hcl : ch.closed = true
    · simp only [hcl, Bool.not_true, Bool.and_false, Bool.false_eq_true, if_false]
      exact (Micro.recvClosed elem h hch hcl (.inr hbuf)).micros
    · have hopen : ch.closed = false := by simpa using hcl
      obtain ⟨hcap, w, rest, hpop⟩ := popLive_of_canRecv hcan hopen href hbuf
      rw [if_pos (by simp [hopen, hcap]), hpop]
      exact (Micro.claimRecv h hch hcap hopen hpop).micros

theorem recvNow_micros {elem : Option T} (h : Waiting s g (.recvReady id elem))
    (hready : s.ready (.recvReady id elem) = true) :
    Micros cfg o s (s.recvNow cfg g id elem) := by
  obtain ⟨ch, hch, hcan⟩ := exists_of_any hready
  have hch' : (s.setWait g none).channels id = some ch := hch
  simp only [recvNow, hch']
  have hun : Micros cfg o s (s.setWait g none) := (Micro.unpark h trivial).micros
  exact (hun.trans (recvReady_micros h.running hch' hcan elem)).setRet _

theorem recvWoken_micros {w : SudogRef} {elem : Option T} (h : Waiting s g (.recv id w elem))
    (hfits : Fits s (.recv id w elem)) (hready : s.ready (.recv id w elem) = true) :
    Micros cfg o s (s.recvWoken cfg g id w elem) := by
  obtain ⟨ch, hch, hcap⟩ := hfits
  unfold recvWoken
  split
  · rename_i hdone
    exact (Micro.wakeUp true h ⟨rfl, hdone⟩).micros.setRet _
  · rename_i hdone
    have hcl : ch.closed = true := by
      simpa only [ready, hdone, hch, Bool.false_or, Option.any_some] using hready
    have hch' : (s.setWait g none).channels id = some ch := hch
    simp only [hch']
    have hun : Micros cfg o s (s.setWait g none) :=
      (Micro.unpark h ⟨by simpa using hdone, ch, hch, hcl⟩).micros
    exact (hun.tail (.recvClosed elem h.running hch' hcl (.inl hcap))).setRet _

/-- Queueing a sudog leaves the channel's capacity alone. -/
theorem fits_offer (hcap : ch.capacity = 0) (w : SudogRef) (elem : Option T) (onSend : Bool)
    (val : V) (sel : Option SelRef) (i : Nat) :
    Fits (s.offer cfg g id ch onSend val sel i) (.recv id w elem) := by
  refine ⟨if onSend then _ else _, update_self .., ?_⟩
  split <;> exact hcap

theorem chanRecv_micros (h : Running s g) (id : ChanID) (elem : Option T) :
    Micros cfg o s (s.chanRecv cfg g id elem) := by
  unfold chanRecv
  split
  · exact (same_setRet s g _).micros
  · rename_i ch hch
    split
    · rename_i hor
      simp only [Bool.and_eq_true, beq_iff_eq, Bool.not_eq_true'] at hor
      split
      · rename_i w rest hpop
        exact (Micro.claimRecv h hch hor.1 hor.2 hpop).micros.setRet _
      · have hw := h.setWait (.recv id s.nextSudog elem)
        have hoff : Micro cfg s none ((s.setWait g (some (.recv id s.nextSudog elem))).offer cfg g id
            ch false cfg.emptyValue none 0) :=
          .parkOffer cfg.emptyValue h ⟨rfl, rfl, rfl⟩ hch hor.1 hor.2
        exact hoff.micros.trans (settle_micros (hw.offer ..) offer_not_done
          (recvWoken_micros (hw.offer ..) (fits_offer hor.1 ..)))
    · exact block_micros h trivial trivial (.inl rfl) recvNow_micros

/-! ## §6. Select -/

variable {cases : List (SelectCase V T)}

/-- The case chosen by `first` is ready. -/
theorem first_spec (h : s.first self cases = some i) :
    ∃ c id ch, cases[i]? = some c ∧ c.ch = some id ∧
      s.channels id = some ch ∧
      (if c.send then s.canSend ch self else s.canRecv ch self) = true := by
  obtain ⟨hlt, hready, -⟩ := List.findIdx?_eq_some_iff_getElem.mp h
  refine ⟨cases[i], ?_⟩
  unfold caseReady at hready
  split at hready
  · cases hready
  · rename_i ch hch
    obtain ⟨id, hid, hch⟩ := Option.bind_eq_some_iff.mp hch
    exact ⟨id, ch, List.getElem?_eq_getElem hlt, hid, hch, hready⟩

/-- If `first` finds nothing, every channel of the select is open. -/
theorem open_of_first_none (h : s.first self cases = none) {c : SelectCase V T} (hc : c ∈ cases)
    (hid : c.ch = some id) (hch : s.channels id = some ch) :
    ch.closed = false := by
  have hnot : s.caseReady self c = false := by
    simpa using List.findIdx?_eq_none_iff.mp h c hc
  by_contra hcl
  simp [caseReady, hid, hch, canSend, canRecv, hcl] at hnot

theorem runCase_micros (h : Running s g) (hfirst : s.first none cases = some i) (site : String) :
    Micros cfg o s (s.runCase cfg g cases i site) := by
  obtain ⟨c, id, ch, hc, hid, hch, hcan⟩ := first_spec hfirst
  simp only [runCase, hc, hid, Option.bind_some, hch]
  by_cases hsend : c.send = true
  · rw [if_pos hsend]
    exact (chanSend_micros h id c.val site).setRet _
  · rw [if_neg hsend] at hcan ⊢
    exact (recvReady_micros h hch hcan c.elem).setRet _

theorem selectWoken_micros {sw : SelRef} (h : Waiting s g (.select cases sw site)) :
    Micros cfg o s (s.selectWoken cfg g cases sw site) := by
  unfold selectWoken
  split
  · rename_i hfired
    split
    · rename_i hsg
      exact (Micro.unpark h ⟨hfired, hsg⟩).micros
    · rename_i w hsg
      exact (Micro.wakeUp true h ⟨hfired, hsg⟩).micros.setRet _
  · rename_i hfired
    have hwd : Micros cfg o s (s.withdraw g sw) :=
      (Micro.withdraw h (.inl (.inl (by simpa using hfired)))).micros
    simp only
    split
    · exact hwd
    · rename_i i hfirst
      have hrun : Running (s.withdraw g sw) g := h.running
      exact hwd.trans (runCase_micros hrun hfirst site)

/-- Every channel of the cases that is known is open. -/
def AllOpen (s : Interpreter V T) (cs : List (SelectCase V T × Nat)) : Prop :=
  ∀ c ∈ cs, ∀ id ch, c.1.ch = some id → s.channels id = some ch → ch.closed = false

theorem AllOpen.offer {onSend : Bool} {sel : Option SelRef}
    {cs : List (SelectCase V T × Nat)} (h : AllOpen s cs) (hopen : ch.closed = false) :
    AllOpen (s.offer cfg g id ch onSend val sel i) cs := by
  intro c hc id' ch' hid hch'
  by_cases heq : id' = id
  · subst heq
    have hch' := (update_self ..).symm.trans hch'
    cases hch'
    split <;> exact hopen
  · exact h c hc id' ch' hid ((update_of_ne heq ..).symm.trans hch')

theorem offerCases_micros (cfg : Config V T) {sw : SelRef} :
    ∀ (cs : List (SelectCase V T × Nat)) (s : Interpreter V T),
      Waiting s g (.select cases sw site) → (s.sels sw).fired = false → AllOpen s cs →
      (∀ c ∈ cs, cases[c.2]? = some c.1) →
      Micros cfg o s (s.offerCases cfg g sw cs) ∧
        Waiting (s.offerCases cfg g sw cs) g (.select cases sw site) ∧
        (s.offerCases cfg g sw cs).sels = s.sels
  | [], s, h, _, _, _ => ⟨.refl, h, rfl⟩
  | (c, i) :: cs, s, h, hfired, hopen, hidx => by
    have htail : AllOpen s cs := fun c hc => hopen c (List.mem_cons_of_mem _ hc)
    have hidx' : ∀ c ∈ cs, cases[c.2]? = some c.1 := fun c hc =>
      hidx c (List.mem_cons_of_mem _ hc)
    unfold offerCases
    split
    · rename_i id ch hid hch
      obtain ⟨id', hid', hch⟩ := Option.bind_eq_some_iff.mp hch
      obtain rfl : id' = id := Option.some.inj (hid'.symm.trans hid)
      have hcl := hopen (c, i) List.mem_cons_self id' ch hid hch
      split
      · exact offerCases_micros cfg cs s h hfired htail hidx'
      · rename_i hcap
        obtain ⟨hm, hw, hsels⟩ := offerCases_micros cfg cs
          (s.offer cfg g id' ch c.send c.val (some sw) i) (h.offer ..) hfired (htail.offer hcl)
          hidx'
        have hoffer : Micro cfg s none (s.offer cfg g id' ch c.send c.val (some sw) i) :=
          .offer h (hidx (c, i) List.mem_cons_self) hid hfired hch (by omega) hcl
        exact ⟨hoffer.micros.trans hm, hw, hsels⟩
    · exact offerCases_micros cfg cs s h hfired htail hidx'

/-- A select that has to wait queues its offers. -/
theorem execSelect_offers (cfg : Config V T) (h : Running s g) (hfirst : s.first none cases = none)
    (site : String) :
    let u := (s.newSelect.setWait g (some (.select cases s.nextSel site))).offerCases cfg g
      s.nextSel cases.zipIdx
    Micros cfg o s u ∧ Waiting u g (.select cases s.nextSel site) ∧
      Unclaimed u (.select cases s.nextSel site) := by
  have hw : Waiting (s.newSelect.setWait g (some (.select cases s.nextSel site))) g
      (.select cases s.nextSel site) := Running.setWait (s := s.newSelect) h _
  have hopen : AllOpen (s.newSelect.setWait g (some (.select cases s.nextSel site)))
      cases.zipIdx := by
    rintro ⟨c, i⟩ hc id ch hid hch
    exact open_of_first_none hfirst (List.fst_mem_of_mem_zipIdx hc) hid hch
  have hfired : ((s.newSelect.setWait g (some (.select cases s.nextSel site))).sels
      s.nextSel).fired = false := by
    show (Function.update s.sels s.nextSel _ s.nextSel).fired = false
    rw [update_self]
  obtain ⟨hm, hw, hsels⟩ := offerCases_micros cfg _ _ hw hfired hopen
    fun c hc => List.mem_zipIdx_iff_getElem?.mp hc
  refine ⟨(Micro.parkSelect cases site h).micros.trans hm, hw, .inl ?_⟩
  rw [hsels]; exact hfired

theorem execSelect_micros (h : Running s g) (states : List (SelectCase V T)) (blocking : Bool)
    (site : String) : Micros cfg o s (s.execSelect cfg g states blocking site) := by
  unfold execSelect
  generalize states.map s.resolveCase = cases
  simp only
  split
  · rename_i i hfirst
    exact runCase_micros h hfirst site
  · exact (same_setRet s g _).micros
  · rename_i hfirst
    obtain ⟨hm, hw, hun⟩ := execSelect_offers cfg h hfirst site
    exact hm.trans (settle_micros hw hun fun _ => selectWoken_micros hw)

/-! ## §7. Goroutines and sync primitives -/

theorem startGoroutine_micros (h : Running s g) (site : String) :
    Micros cfg o s (s.startGoroutine cfg g none site) := by
  unfold startGoroutine
  simp only
  split
  · have hsame : Same s { s with nextGID := s.nextGID + 1 } :=
      { Same.refl s with nextGID := Int.le_add_one (le_refl _) }
    exact (hsame.trans (same_recordViolation _ g _)).micros
  · exact (Micro.fork site h).micros

theorem errgroupGo_micros (h : Running s g) (hp : p.kind = .errgroup) (site : String) :
    Micros cfg (some p) s (s.errgroupGo cfg g p site) := by
  unfold errgroupGo startGoroutine
  simp only
  split
  · exact (Micro.refuse p hp).own.trans (same_recordViolation _ g _).micros
  · exact (Micro.memberFork site h hp).own

theorem exit_micros (h : Running s g) (hex : (s.goroutines g).exited = false) :
    Micros cfg (s.goroutines g).group s (s.exit g) := by
  have hexit : (s.goroutines g).group = none ∨ (s.goroutines g).aborted = true →
      Micro cfg s none (s.modify g fun r => { r with exited := true }) := .exit h hex
  unfold Interpreter.exit
  simp only [modify_goroutines, update_self]
  split
  · rename_i hp
    exact (hexit (.inl hp)).micros
  · rename_i p hp
    split
    · rename_i hab
      exact (hexit (.inr hab)).micros
    · rw [hp]
      exact (Micro.memberExit h hex hp).own

theorem syncMutex_micros (h : Running s g) (hp : p.IsLock) (m : MutexMethod)
    (site : String) : Micros cfg (some p) s (s.syncMutex g p m site) := by
  have hlock : Micro cfg s (some p) (s.lock g p) := .lock p h hp
  have hrLock : Micro cfg s (some p) (s.rLock g p) := .rLock p h hp
  cases m with
  | lock => exact hlock.own
  | tryLock => exact hlock.own.setRet _
  | unlock =>
    unfold syncMutex unlock
    simp only
    split
    · rename_i hl; exact (Micro.unlock p h hp hl).own
    · exact (same_unlockOfUnlocked s g _ site).micros
  | rLock =>
    unfold syncMutex
    simp only
    split
    · exact hrLock.own
    · exact .refl
  | tryRLock =>
    unfold syncMutex
    simp only
    split
    · exact hrLock.own.setRet _
    · exact .refl
  | rUnlock =>
    unfold syncMutex rUnlock
    simp only
    split
    · split
      · exact (same_unlockOfUnlocked s g _ site).micros
      · rename_i hr; exact (Micro.rUnlock p h hp (by simpa using hr)).own
    · exact .refl

theorem wgAdd_micros (h : Running s g) (hp : p.kind = .waitGroup) (delta : Int)
    (site : String) : Micros cfg (some p) s (s.wgAdd g p delta site) := by
  have hadd : ∀ t : Interpreter V T, Micro cfg t (some p) (t.addCounter p delta) :=
    fun t => .addCounter p delta hp
  have hfst : Micros cfg (some p) s (if delta < 0 then s.joinRelease g p else s) := by
    split
    · exact (Micro.done p h hp).own
    · exact .refl
  unfold wgAdd
  generalize (if delta < 0 then s.joinRelease g p else s) = t at hfst ⊢
  simp only
  split
  · exact (hfst.trans (hadd t).own).trans (same_recordViolation _ g _).micros
  · exact hfst.trans (hadd t).own

theorem groupWoken_micros (h : Waiting s g (.group p))
    (hready : s.ready (.group p) = true) : Micros cfg (some p) s (s.groupWoken g p) := by
  have hun : Micros cfg (some p) s (s.setWait g none) := (Micro.unpark h trivial).micros
  have hzero : (s.mutexes p.key).wgCounter ≤ 0 := by simpa [ready] using hready
  exact hun.trans (Micro.groupWait p h.running hzero).own

theorem groupWait_micros (h : Running s g) (p : Prim) : Micros cfg (some p) s (s.groupWait cfg g p) :=
  block_micros h trivial trivial (.inr rfl) groupWoken_micros

/-! ## §8. Steps and runs -/

theorem block_never_micros (h : Running s g) (k : Interpreter V T → Interpreter V T) :
    Micros cfg o s (s.block cfg g .never k) :=
  block_micros h trivial trivial (.inl rfl) fun _ hready => nomatch hready

/-- The primitive a step is about: that of an operation, of the wait that
ends, or the errgroup of a goroutine that exits. -/
def primOf (s : Interpreter V T) : Action V T → Option Prim
  | .start _ (.mutex rw a _ _) => some (a.prim (if rw then .rwMutex else .mutex))
  | .start _ (.wgAdd a _ _) | .start _ (.wgWait a) => some (a.prim .waitGroup)
  | .start _ (.condSignal a) | .start _ (.condWait a) => some (a.prim .cond)
  | .start _ (.errgroupGo a _) | .start _ (.errgroupWait a) => some (a.prim .errgroup)
  | .start g .exit => (s.goroutines g).group
  | .resume g =>
    match (s.goroutines g).wait with
    | some (.group p) => some p
    | _ => none
  | _ => none

theorem run_micros (h : Running s g) (hex : (s.goroutines g).exited = false) (op : Op V T) :
    Micros cfg (primOf s (.start g op)) s (s.run cfg g op) := by
  have hviol := fun err => same_recordViolation s g err
  cases op with
  | access => exact (Micro.access h).micros
  | go site => exact startGoroutine_micros h site
  | makeChan capacity site =>
    have hfst : Same s (if capacity < 0 then
        s.recordViolation g (.invalidMakeArg "chan-cap" capacity site g) else s) := by
      split
      · exact hviol _
      · exact .refl s
    exact (hfst.micros.tail (.makeChan capacity.toNat none)).setRet _
  | timer val => exact (Micro.makeChan 1 (some val)).micros.setRet _
  | notify id =>
    show Micros cfg _ s (s.notify cfg id)
    unfold Interpreter.notify
    split
    · exact .refl
    · rename_i ch hch; exact (Micro.notify _ hch).micros
  | send ch val site =>
    cases ch with
    | none => exact (hviol _).micros.trans (block_never_micros ((hviol _).running h) _)
    | some id => exact chanSend_micros h id val site
  | recv ch elem =>
    cases ch with
    | none => exact (hviol _).micros.trans (block_never_micros ((hviol _).running h) _)
    | some id => exact chanRecv_micros h id elem
  | close ch site =>
    cases ch with
    | none => exact ((hviol _).trans (same_runtimePanic _ g _)).micros
    | some id =>
      show Micros cfg _ s (s.handleChannelClose cfg g id site)
      unfold handleChannelClose
      split
      · exact .refl
      · rename_i ch hch
        split
        · exact ((same_runtimePanic s g _).trans (same_recordViolation _ g _)).micros
        · rename_i hcl
          exact (Micro.close h hch (by simpa using hcl)).micros
  | select states blocking site => exact execSelect_micros h states blocking site
  | mutex rw a m site =>
    refine syncMutex_micros h ?_ m site
    cases rw
    · exact .inl rfl
    · exact .inr rfl
  | wgAdd a delta site => exact wgAdd_micros h rfl delta site
  | wgWait | errgroupWait => exact groupWait_micros h _
  | condSignal => exact (Micro.signal _ h rfl).own
  | condWait => exact (Micro.condWait _ h rfl).own
  | errgroupGo a site => exact errgroupGo_micros h rfl site
  | exit => exact exit_micros h hex
  | halt => exact (same_haltAll s).micros

theorem complete_micros (h : Waiting s g wt) (hfits : Fits s wt) (hready : s.ready wt = true) :
    Micros cfg (primOf s (.resume g)) s (s.complete cfg g wt) := by
  cases wt with
  | sendReady => exact sendNow_micros h hfits hready
  | send => exact sendWoken_micros h hready
  | recv => exact recvWoken_micros h hfits hready
  | recvReady => exact recvNow_micros h hready
  | select => exact selectWoken_micros h
  | group =>
    simp only [primOf, h.2]
    exact groupWoken_micros h hready
  | never => cases hready

/-- **A step is a sequence of parts**, if the waits suit their channels. -/
theorem step_micros {a : Action V T} (hfits : ∀ g wt, Waiting s g wt → Fits s wt)
    (h : Step cfg s a t) : Micros cfg (primOf s a) s t := by
  cases stepped h with
  | start op hrun hx => exact run_micros hrun hx op
  | resume hw hr => exact complete_micros hw (hfits _ _ hw) hr
  | giveUp hw hr => exact abandon_micros hw (.inl (unclaimed_of_not_ready hr))
  | quiesce =>
    exact (show Same s { s with stopping := true } from
      { Same.refl s with stopping := fun _ => rfl }).micros
  | @abort g wt hw hs =>
    have hsame : Same s (s.modify g fun r => { r with aborted := true }) :=
      same_modify s g fun _ => ⟨rfl, rfl, rfl, rfl, rfl, fun _ => rfl⟩
    exact hsame.micros.trans
      (abandon_micros ⟨(hsame.spawned g).trans hw.1, (hsame.wait g).trans hw.2⟩ (.inr hs))

/-! ## §9. What every part keeps -/

/-- How a part changes the channels: not at all, one channel, or by making a
new one. A channel keeps its capacity, and stays closed. -/
inductive ChanMove (s t : Interpreter V T) : Prop where
  | same (hch : t.channels = s.channels) (hid : t.nextChanID = s.nextChanID) : ChanMove s t
  | set (id : ChanID) (ch ch' : ChanEntry V)
      (hset : t.channels = Function.update s.channels id (some ch'))
      (hid : t.nextChanID = s.nextChanID) (hch : s.channels id = some ch)
      (hcap : ch'.capacity = ch.capacity) (hcl : ch.closed = true → ch'.closed = true) :
      ChanMove s t
  | new (ch' : ChanEntry V)
      (hset : t.channels = Function.update s.channels (s.nextChanID + 1) (some ch'))
      (hid : t.nextChanID = s.nextChanID + 1) : ChanMove s t

theorem Micro.chanMove (h : Micro cfg s o t) : ChanMove s t := by
  cases h with
  | quiet h => exact .same h.channels h.nextChanID
  | makeChan => exact .new _ rfl rfl
  | notify _ hch | claimSend _ _ hch | claimRecv _ hch | bufferedSend _ _ hch
  | recvBuffered _ hch => exact .set _ _ _ rfl rfl hch rfl fun h => h
  | @parkOffer g wt id ch onSend val _ _ hch =>
    refine .set id ch (if onSend then _ else _) rfl rfl hch ?_ ?_
    · split <;> rfl
    · split <;> exact fun h => h
  | @offer g cases sw site id ch c i _ _ _ _ hch =>
    refine .set id ch (if c.send then _ else _) rfl rfl hch ?_ ?_
    · split <;> rfl
    · split <;> exact fun h => h
  | close _ hch => exact .set _ _ _ rfl rfl hch rfl fun _ => rfl
  | _ => exact .same rfl rfl

/-- The records of goroutines not spawned yet, the channel IDs not given out
yet, and the waits. -/
structure Base (s : Interpreter V T) : Prop where
  unborn : ∀ g, s.nextGID < g → (s.goroutines g).spawned = false ∧
    (s.goroutines g).vclock = VectorClock.Clock.start g ∧ (s.goroutines g).exited = false
  chan_le : ∀ id ch, s.channels id = some ch → id ≤ s.nextChanID
  fits : ∀ g wt, Waiting s g wt → Fits s wt

theorem Base.le_nextGID (hB : Base s) (hg : (s.goroutines g).spawned = true) :
    g ≤ s.nextGID := by
  by_contra hlt
  rw [(hB.unborn g (Int.not_le.mp hlt)).1] at hg
  cases hg

theorem ChanMove.chan_le (h : ChanMove s t) (hB : Base s) :
    ∀ id ch, t.channels id = some ch → id ≤ t.nextChanID := by
  intro id ch hch
  cases h with
  | same hch' hid => rw [hch'] at hch; rw [hid]; exact hB.chan_le id ch hch
  | set id' c c' hset hid hc =>
    rw [hid]
    by_cases heq : id = id'
    · subst heq; exact hB.chan_le id c hc
    · rw [hset, update_of_ne heq] at hch; exact hB.chan_le id ch hch
  | new c' hset hid =>
    rw [hid]
    by_cases heq : id = s.nextChanID + 1
    · exact heq.le
    · rw [hset, update_of_ne heq] at hch
      exact Nat.le_succ_of_le (hB.chan_le id ch hch)

/-- A channel that exists goes on existing. -/
theorem ChanMove.channel (h : ChanMove s t) (hB : Base s) (hch : s.channels id = some ch) :
    ∃ ch', t.channels id = some ch' ∧
      ch'.capacity = ch.capacity ∧ (ch.closed = true → ch'.closed = true) := by
  cases h with
  | same hch' => exact ⟨ch, by rw [hch', hch], rfl, fun h => h⟩
  | set id' c c' hset _ hc hcap hcl =>
    by_cases heq : id = id'
    · subst heq
      obtain rfl : c = ch := Option.some.inj (hc.symm.trans hch)
      exact ⟨c', by rw [hset, update_self], hcap, hcl⟩
    · exact ⟨ch, by rw [hset, update_of_ne heq, hch], rfl, fun h => h⟩
  | new c' hset =>
    have hne : id ≠ s.nextChanID + 1 :=
      Nat.ne_of_lt (Nat.lt_succ_of_le (hB.chan_le id ch hch))
    exact ⟨ch, by rw [hset, update_of_ne hne, hch], rfl, fun h => h⟩

theorem ChanMove.fits (h : ChanMove s t) (hB : Base s) (hf : Fits s wt) :
    Fits t wt := by
  cases wt with
  | sendReady =>
    obtain ⟨ch, hch, hor⟩ := hf
    obtain ⟨ch', hch', hcap, hcl⟩ := h.channel hB hch
    exact ⟨ch', hch', hor.imp (fun h => hcap ▸ h) hcl⟩
  | recv =>
    obtain ⟨ch, hch, hzero⟩ := hf
    obtain ⟨ch', hch', hcap, -⟩ := h.channel hB hch
    exact ⟨ch', hch', hcap.trans hzero⟩
  | _ => exact hf

/-- How a part changes the records of goroutines: one of them, of a spawned
goroutine, or by spawning the next one. A wait that begins fits. -/
inductive GoMove (s t : Interpreter V T) : Prop where
  | same (hg : ∀ g, (t.goroutines g).spawned = (s.goroutines g).spawned ∧
      (t.goroutines g).vclock = (s.goroutines g).vclock ∧
      (t.goroutines g).exited = (s.goroutines g).exited ∧
      (t.goroutines g).wait = (s.goroutines g).wait)
      (hid : s.nextGID ≤ t.nextGID) : GoMove s t
  | set (g : Gid) (hg : (s.goroutines g).spawned = true)
      (hwait : (t.goroutines g).wait = (s.goroutines g).wait ∨
        ∀ wt, (t.goroutines g).wait = some wt → Fits s wt)
      (hother : ∀ q, q ≠ g → t.goroutines q = s.goroutines q)
      (hid : t.nextGID = s.nextGID) : GoMove s t
  | fork (g : Gid) (hg : (s.goroutines g).spawned = true)
      (hself : (t.goroutines g).wait = (s.goroutines g).wait)
      (hchild : (t.goroutines (s.nextGID + 1)).wait = none)
      (hother : ∀ q, q ≠ g → q ≠ s.nextGID + 1 → t.goroutines q = s.goroutines q)
      (hid : t.nextGID = s.nextGID + 1) : GoMove s t

/-- A part in which a running goroutine only changes its clock. -/
theorem GoMove.ofClock (h : Running s g) (hwait : (t.goroutines g).wait = (s.goroutines g).wait)
    (hother : ∀ q, q ≠ g → t.goroutines q = s.goroutines q) (hid : t.nextGID = s.nextGID) :
    GoMove s t :=
  .set g h.1 (.inl hwait) hother hid

/-- The clock is set once. -/
theorem GoMove.ofClock₁ {c : Clock} (h : Running s g)
    (hg : t.goroutines = (s.setClock g c).goroutines) (hid : t.nextGID = s.nextGID) :
    GoMove s t :=
  .ofClock h (by rw [hg]; exact setClock_wait ..)
    (fun q hq => by rw [hg]; exact setClock_other _ _ _ _ hq) hid

/-- The clock is set twice: after an acquire and after a tick. -/
theorem GoMove.ofClocks {c d : Clock} (h : Running s g)
    (hg : t.goroutines = ((s.setClock g c).setClock g d).goroutines)
    (hid : t.nextGID = s.nextGID) : GoMove s t :=
  .ofClock h (by rw [hg]; exact (setClock_wait ..).trans (setClock_wait ..))
    (fun q hq => by
      rw [hg]; exact (setClock_other _ _ _ _ hq).trans (setClock_other _ _ _ _ hq)) hid

/-- A goroutine is started. -/
theorem GoMove.ofFork {c : Clock} {r : Goroutine V T} (hB : Base s) (h : Running s g)
    (hr : r.wait = none)
    (hg : t.goroutines = ((s.modify (s.nextGID + 1) fun _ => r).setClock g c).goroutines)
    (hid : t.nextGID = s.nextGID + 1) : GoMove s t := by
  have hne : g ≠ s.nextGID + 1 := Int.ne_of_lt (Int.lt_add_one_of_le (hB.le_nextGID h.1))
  refine .fork g h.1 ?_ ?_ (fun q hq hc => ?_) hid
  · rw [hg, setClock_wait, modify_goroutines, update_of_ne hne]
  · rw [hg, setClock_wait, modify_goroutines, update_self]
    exact hr
  · rw [hg]
    exact (setClock_other _ _ _ _ hq).trans (update_of_ne hc ..)

/-- A part in which a goroutine stops waiting. -/
theorem GoMove.ofWake (h : Waiting s g wt) (hwait : (t.goroutines g).wait = none)
    (hother : ∀ q, q ≠ g → t.goroutines q = s.goroutines q) (hid : t.nextGID = s.nextGID) :
    GoMove s t :=
  .set g h.1 (.inr fun wt hwt => by rw [hwait] at hwt; cases hwt) hother hid

theorem Micro.goMove (hB : Base s) (h : Micro cfg s o t) : GoMove s t := by
  cases h with
  | quiet h => exact .same (fun g => ⟨h.spawned g, h.vclock g, h.exited g, h.wait g⟩) h.nextGID
  | fork _ h | memberFork _ h => exact .ofFork hB h rfl rfl rfl
  | refuse => exact .same (fun _ => ⟨rfl, rfl, rfl, rfl⟩) (Int.le_add_one (le_refl _))
  | exit h =>
    refine .ofClock h ?_ (fun q hq => update_of_ne hq ..) rfl
    exact modify_field Goroutine.wait s _ _ (f := fun r => { r with exited := true }) fun _ => rfl
  | @memberExit g p h =>
    refine .ofClock h ?_ (fun q hq => ?_) rfl
    · refine (setClock_wait _ g g _).trans ?_
      exact modify_field Goroutine.wait s g g (f := fun r => { r with exited := true })
        fun _ => rfl
    · exact (setClock_other _ _ _ _ hq).trans (update_of_ne hq ..)
  | @park g wt h hb hf =>
    refine .set g h.1 (.inr fun wt' hwt => ?_) (fun q hq => setWait_other _ _ _ _ hq) rfl
    rw [setWait_wait, if_pos rfl] at hwt
    cases hwt
    exact hf
  | @parkSelect g cases site h =>
    refine .set g h.1 (.inr fun wt hwt => ?_) (fun q hq => setWait_other _ _ _ _ hq) rfl
    rw [setWait_wait, if_pos rfl] at hwt
    cases hwt
    trivial
  | unpark h => exact .ofWake h (setWait_wait_self ..) (fun q hq => setWait_other _ _ _ _ hq) rfl
  | @parkOffer g wt id ch onSend val h hb hch hcap =>
    refine .set g h.1 (.inr fun wt' hwt => ?_) (fun q hq => ?_) rfl
    · have hwt := hwt.symm.trans ((setClock_wait ..).trans (setWait_wait_self ..))
      cases hwt
      cases wt with
      | recv => cases hb.1; exact ⟨ch, hch, hcap⟩
      | send => trivial
      | _ => exact hb.elim
    · exact (setClock_other _ _ _ _ hq).trans (setWait_other _ _ _ _ hq)
  | offer h =>
    exact .set _ h.1 (.inl (setClock_wait ..)) (fun q hq => setClock_other _ _ _ _ hq) rfl
  | claimSend _ h | claimRecv h | bufferedSend _ h | recvBuffered h | lock _ h | rLock _ h
  | condWait _ h | groupWait _ h => exact .ofClocks h rfl rfl
  | wakeUp ticks h =>
    refine .ofWake h ?_ (fun q hq => ?_) rfl
    · exact (setClock_wait ..).trans ((setClock_wait ..).trans (setWait_wait_self ..))
    · exact (setClock_other _ _ _ _ hq).trans
        ((setClock_other _ _ _ _ hq).trans (setWait_other _ _ _ _ hq))
  | abandonOffer h | withdraw h =>
    exact .ofWake h (setWait_wait_self ..) (fun q hq => setWait_other _ _ _ _ hq) rfl
  | recvClosed _ h | close h | unlock _ h | rUnlock _ h | signal _ h | done _ h =>
    exact .ofClock₁ h rfl rfl
  | _ => exact .same (fun _ => ⟨rfl, rfl, rfl, rfl⟩) (le_refl _)

/-- A wait after the part was one before it, or has just begun. -/
theorem GoMove.fits (h : GoMove s t) (hB : Base s) (hw : Waiting t g wt) :
    Fits s wt := by
  cases h with
  | same hg => exact hB.fits g wt ⟨(hg g).1 ▸ hw.1, (hg g).2.2.2 ▸ hw.2⟩
  | set q hq hwait hother =>
    by_cases heq : g = q
    · subst heq
      rcases hwait with hwait | hwait
      · exact hB.fits g wt ⟨hq, hwait ▸ hw.2⟩
      · exact hwait wt hw.2
    · rw [Waiting, hother g heq] at hw; exact hB.fits g wt hw
  | fork q hq hself hchild hother =>
    by_cases heq : g = q
    · subst heq; exact hB.fits g wt ⟨hq, hself ▸ hw.2⟩
    · by_cases hc : g = s.nextGID + 1
      · subst hc; cases hchild.symm.trans hw.2
      · rw [Waiting, hother g heq hc] at hw; exact hB.fits g wt hw

theorem GoMove.unborn (h : GoMove s t) (hB : Base s) (hg : t.nextGID < g) :
    (t.goroutines g).spawned = false ∧
      (t.goroutines g).vclock = VectorClock.Clock.start g ∧ (t.goroutines g).exited = false := by
  cases h with
  | same hsame hid =>
    obtain ⟨h₁, h₂, h₃, -⟩ := hsame g
    rw [h₁, h₂, h₃]
    exact hB.unborn g (Int.lt_of_le_of_lt hid hg)
  | set q hq _ hother hid =>
    rw [hid] at hg
    rw [hother g fun heq => absurd (hB.le_nextGID (heq ▸ hq)) (Int.not_le.mpr hg)]
    exact hB.unborn g hg
  | fork q hq _ _ hother hid =>
    rw [hid] at hg
    have hlt : s.nextGID < g := Int.lt_trans (Int.lt_succ _) hg
    rw [hother g (fun heq => absurd (hB.le_nextGID (heq ▸ hq)) (Int.not_le.mpr hlt))
      (Int.ne_of_gt hg)]
    exact hB.unborn g hlt

theorem Base.micro (hB : Base s) (h : Micro cfg s o t) : Base t where
  unborn _ hg := (h.goMove hB).unborn hB hg
  chan_le := h.chanMove.chan_le hB
  fits _ _ hw := h.chanMove.fits hB ((h.goMove hB).fits hB hw)

theorem base_init (cfg : Config V T) : Base (init cfg) where
  unborn g hg := ⟨by simpa [init] using Int.ne_of_gt hg, rfl, rfl⟩
  chan_le _ _ h := by cases h
  fits _ _ h := by cases h.2

/-- An invariant of the parts holds after any number of them. -/
theorem Micros.invariant {P : Interpreter V T → Prop}
    (hstep : ∀ s o t, Micro cfg s o t → P s → P t) (h : Micros cfg o s t) (hs : P s) : P t := by
  induction h with
  | refl => exact hs
  | tail _ hst ih =>
    obtain ⟨o', -, hm⟩ := hst
    exact hstep _ o' _ hm ih

/-- **A run of the machine is a sequence of parts**: an invariant of the
parts holds in every reachable state. -/
theorem Reachable.invariant {P : Interpreter V T → Prop} (hinit : P (init cfg))
    (hstep : ∀ s o t, Base s → Micro cfg s o t → P s → P t) (h : Reachable cfg s) :
    Base s ∧ P s := by
  obtain ⟨acts, hrun⟩ := h
  refine hrun.invariant (P := fun t => Base t ∧ P t) ?_ ⟨base_init cfg, hinit⟩
  intro t a u hst ht
  refine (step_micros ht.1.fits hst).invariant (P := fun t => Base t ∧ P t) ?_ ht
  exact fun s o t hm hs => ⟨hs.1.micro hm, hstep s o t hs.1 hm hs.2⟩

theorem Base.step {a : Action V T} (hB : Base s) (h : Step cfg s a t) : Base t :=
  (step_micros hB.fits h).invariant (fun _ _ _ hm hB => hB.micro hm) hB

theorem Reachable.base (h : Reachable cfg s) : Base s :=
  (h.invariant (P := fun _ => True) trivial fun _ _ _ _ _ => id).1

end Decompose

end Interpreter

end Giri.Interp
