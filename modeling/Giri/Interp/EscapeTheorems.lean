/-
Giri.Interp.EscapeTheorems — arena pointers that cross a channel.

`chanSend` reports an arena pointer before it does anything else. A select
reports it only when it sends through `chanSend`: a case that it OFFERS on
an unbuffered channel, and that a receiver takes while it waits, is not
looked at (`select_unreported`). Without such offers whatever a receive
obtains has been reported (`received_reported`).

The invariant is over all places that a value can be on its way: buffers,
sudogs, sends that wait for room, and results.
-/
import Giri.Interp.Machine

namespace Giri.Interp

open Function (update_self update_of_ne)

variable {V T : Type}

/-- If the value is a pointer into an arena, its escape has been reported. -/
def Reported (cfg : Config V T) (vs : List ViolationWithStack) (v : V) : Prop :=
  ∀ alloc arena allocSite, cfg.arenaAlloc v = some (alloc, arena, allocSite) →
    ∃ x ∈ vs, ∃ escapeSite, x.err = .escapedPointer alloc arena allocSite escapeSite "channel"

/-- The values that the interpreter itself makes are no arena pointers: they
have no provenance. -/
structure Config.Plain (cfg : Config V T) : Prop where
  empty : cfg.arenaAlloc cfg.emptyValue = none
  stdlib : cfg.arenaAlloc cfg.stdlibOpaque = none
  zero : ∀ t, cfg.arenaAlloc (cfg.concreteZero t) = none

/-- The values of a result. -/
def Ret.vals : Ret V → List V
  | .received val _ _ => [val]
  | .selected _ _ recvVals => recvVals
  | _ => []

/-- The value that a goroutine waits to send. A sudog has its own. -/
def Wait.vals : Option (Wait V T) → List V
  | some (.sendReady _ val _) => [val]
  | _ => []

def Goroutine.vals (r : Goroutine V T) : List V := Wait.vals r.wait ++ r.ret.vals

def ChanEntry.vals (ch : ChanEntry V) : List V := ch.refill.toList ++ ch.buf.map (·.val)

section

variable {cfg : Config V T} {vs vs' : List ViolationWithStack} {v : V}

theorem Reported.of_none (h : cfg.arenaAlloc v = none) : Reported cfg vs v := by
  intro alloc arena allocSite hsome
  rw [h] at hsome
  cases hsome

theorem Reported.mono (h : Reported cfg vs v) (hsub : ∀ x ∈ vs, x ∈ vs') : Reported cfg vs' v := by
  intro alloc arena allocSite hsome
  obtain ⟨x, hx, hesc⟩ := h alloc arena allocSite hsome
  exact ⟨x, hsub x hx, hesc⟩

theorem Config.Plain.chanZero (hcfg : cfg.Plain) (elem : Option T) :
    cfg.arenaAlloc (cfg.chanZero elem) = none := by
  unfold Config.chanZero
  split
  · exact hcfg.empty
  · split
    · exact hcfg.empty
    · exact hcfg.zero _

end

namespace Interpreter

/-! ## §1. The invariant -/

/-- Whatever is on its way has been reported. -/
structure EscapeInv (cfg : Config V T) (s : Interpreter V T) : Prop where
  channels : ∀ id, ∀ ch ∈ s.channels id, ∀ v ∈ ch.vals, Reported cfg s.violations v
  sudogs : ∀ w, Reported cfg s.violations (s.sudogs w).val
  goroutines : ∀ g, ∀ v ∈ (s.goroutines g).vals, Reported cfg s.violations v

namespace EscapeInv

variable {cfg : Config V T} {s t : Interpreter V T} {g : Gid} {id : ChanID} {ch : ChanEntry V}
  {val : V} {w : SudogRef}

/-! ## §2. Updates -/

section Updates

variable (h : EscapeInv cfg s)

include h

/-- A change of other fields. -/
theorem fields (hg : t.goroutines = s.goroutines) (hc : t.channels = s.channels)
    (hs : t.sudogs = s.sudogs) (hv : t.violations = s.violations) : EscapeInv cfg t where
  channels := by rw [hc, hv]; exact h.channels
  sudogs := by rw [hs, hv]; exact h.sudogs
  goroutines := by rw [hg, hv]; exact h.goroutines

/-- A goroutine's record is rewritten. -/
theorem modify {f : Goroutine V T → Goroutine V T}
    (hf : ∀ v ∈ (f (s.goroutines g)).vals, Reported cfg s.violations v) :
    EscapeInv cfg (s.modify g f) :=
  { h with
    goroutines := (Function.forall_update_iff _ fun _ (r : Goroutine V T) =>
      ∀ v ∈ r.vals, Reported cfg s.violations v).mpr ⟨hf, fun q _ => h.goroutines q⟩ }

theorem setClock (c : Clock) : EscapeInv cfg (s.setClock g c) := h.modify (h.goroutines g)

theorem acquireTick (st : Option Stamp) : EscapeInv cfg ((s.acquire g st).tick cfg g) :=
  (h.setClock _).setClock _

theorem setWait (wt : Option (Wait V T)) (hw : ∀ v ∈ Wait.vals wt, Reported cfg s.violations v) :
    EscapeInv cfg (s.setWait g wt) :=
  h.modify (List.forall_mem_append.mpr ⟨hw, (List.forall_mem_append.mp (h.goroutines g)).2⟩)

theorem unpark : EscapeInv cfg (s.setWait g none) := h.setWait none nofun

theorem setRet (r : Ret V) (hr : ∀ v ∈ r.vals, Reported cfg s.violations v) :
    EscapeInv cfg (s.setRet g r) :=
  h.modify (List.forall_mem_append.mpr ⟨(List.forall_mem_append.mp (h.goroutines g)).1, hr⟩)

/-- The result of a receive of `v`. -/
theorem received {v : V} (hv : Reported cfg s.violations v) (ok completed : Bool) :
    EscapeInv cfg (s.setRet g (.received v ok completed)) :=
  h.setRet _ (List.forall_mem_singleton.mpr hv)

theorem log (k : Kind V T) (src : List Nat) (pub : Option Clock) :
    EscapeInv cfg (s.log g k src pub) := h.fields rfl rfl rfl rfl

theorem recordViolation (g : Gid) (err : Violation) : EscapeInv cfg (s.recordViolation g err) := by
  unfold Interpreter.recordViolation
  split
  · exact h
  · have hsub : ∀ {v}, Reported cfg s.violations v →
        Reported cfg (s.violations ++ [⟨err, g, (s.goroutines g).spawnSite⟩]) v :=
      fun hv => hv.mono fun _ hx => List.mem_append_left _ hx
    exact ⟨fun id ch hch v hv => hsub (h.channels id ch hch v hv), fun w => hsub (h.sudogs w),
      fun g v hv => hsub (h.goroutines g v hv)⟩

theorem runtimePanic (msg : String) : EscapeInv cfg (s.runtimePanic g msg) := by
  unfold Interpreter.runtimePanic
  split
  · exact h
  · exact h.modify (h.goroutines g)

theorem checkChannelEscape (val : V) (site : String) :
    EscapeInv cfg (s.checkChannelEscape cfg g val site) := by
  unfold Interpreter.checkChannelEscape
  split
  · exact h
  · exact h.recordViolation g _

theorem sendOnClosed (site : String) : EscapeInv cfg (s.sendOnClosed g site) :=
  (h.runtimePanic _).recordViolation g _

theorem setChan (id : ChanID) (ch : ChanEntry V) (hch : ∀ v ∈ ch.vals, Reported cfg s.violations v) :
    EscapeInv cfg (s.setChan id ch) := by
  refine { h with channels := (Function.forall_update_iff _ fun _ (c : Option (ChanEntry V)) =>
    ∀ ch ∈ c, ∀ v ∈ ch.vals, Reported cfg s.violations v).mpr ⟨?_, fun j _ => h.channels j⟩ }
  rintro _ ⟨⟩
  exact hch

theorem setSudog (w : SudogRef) (sg : Sudog V) (hval : Reported cfg s.violations sg.val) :
    EscapeInv cfg (s.setSudog w sg) :=
  { h with
    sudogs := (Function.forall_update_iff _ fun _ (sg : Sudog V) =>
      Reported cfg s.violations sg.val).mpr ⟨hval, fun x _ => h.sudogs x⟩ }

theorem claimBy : EscapeInv cfg (s.claimBy cfg g id w) :=
  ((h.acquireTick (s.sudogs w).clock).setSudog w { s.sudogs w with
    done := true, peer := (s.acquire g (s.sudogs w).clock).releaseClock cfg g } (h.sudogs w)).fields
      rfl rfl rfl rfl

theorem wakeUp (ticks : Bool) : EscapeInv cfg (s.wakeUp cfg g w ticks) :=
  ((h.unpark.setClock _).setClock _).log ..

theorem abandonOffer : EscapeInv cfg (s.abandonOffer g w) :=
  (h.unpark.setSudog w { s.sudogs w with done := true } (h.sudogs w)).log ..

theorem withdraw (sw : SelRef) : EscapeInv cfg (s.withdraw g sw) := h.unpark.fields rfl rfl rfl rfl

theorem offer (hch : s.channels id = some ch) (onSend : Bool)
    (hval : Reported cfg s.violations val) (sel : Option SelRef) (caseIdx : Nat) :
    EscapeInv cfg (s.offer cfg g id ch onSend val sel caseIdx) := by
  have htick : EscapeInv cfg (s.tick cfg g) := h.setClock _
  have hsudog := htick.setSudog s.nextSudog
    { gid := g, val := val, clock := s.releaseClock cfg g, sel := sel, caseIdx := caseIdx } hval
  have hqueue := hsudog.setChan id (if onSend then
      { ch with sendq := ch.sendq ++ [s.nextSudog] } else { ch with recvq := ch.recvq ++ [s.nextSudog] })
    (by split <;> exact h.channels id ch hch)
  exact hqueue.fields rfl rfl rfl rfl

/-! ## §3. Sync primitives and goroutines -/

theorem setSync (k : SyncKey) (ms : MutexState) : EscapeInv cfg (s.setSync k ms) :=
  h.fields rfl rfl rfl rfl

theorem syncAcquire (op : SyncOp) (p : Prim) (last rUnlock : Option Stamp) :
    EscapeInv cfg (s.syncAcquire g op p last rUnlock) :=
  ((h.setClock _).setClock _).log ..

theorem syncRelease (op : SyncOp) (p : Prim) (ms : MutexState) :
    EscapeInv cfg (s.syncRelease g op p ms) :=
  ((h.setSync p.key ms).setClock _).log ..

theorem unlockOfUnlocked (m : MutexMethod) (site : String) :
    EscapeInv cfg (s.unlockOfUnlocked g m site) :=
  have hrec := h.recordViolation g (.mutexUnlock m.name site g)
  hrec.modify (hrec.goroutines g)

theorem syncMutex (p : Prim) (m : MutexMethod) (site : String) :
    EscapeInv cfg (s.syncMutex g p m site) := by
  have hlock : EscapeInv cfg (s.lock g p) := (h.setSync _ _).syncAcquire _ p _ _
  have hrLock : EscapeInv cfg (s.rLock g p) := (h.setSync _ _).syncAcquire _ p _ _
  unfold Interpreter.syncMutex
  split
  · exact hlock
  · exact hlock.setRet _ nofun
  · unfold unlock
    dsimp only
    split
    · exact h.syncRelease _ p _
    · exact h.unlockOfUnlocked _ site
  · split
    · exact hrLock
    · exact h
  · split
    · exact hrLock.setRet _ nofun
    · exact h
  · split
    · unfold rUnlock
      dsimp only
      split
      · exact h.unlockOfUnlocked _ site
      · exact h.syncRelease _ p _
    · exact h

theorem wgAdd (p : Prim) (delta : Int) (site : String) :
    EscapeInv cfg (s.wgAdd g p delta site) := by
  have hjoin : EscapeInv cfg (if delta < 0 then s.joinRelease g p else s) := by
    split
    · exact h.syncRelease _ p _
    · exact h
  unfold Interpreter.wgAdd
  generalize (if delta < 0 then s.joinRelease g p else s) = t at hjoin
  dsimp only
  split
  · exact (hjoin.setSync _ _).recordViolation g _
  · exact hjoin.setSync _ _

theorem groupWoken (p : Prim) : EscapeInv cfg (s.groupWoken g p) :=
  h.unpark.syncAcquire _ p _ _

theorem startGoroutine (group : Option Prim) (site : String) :
    EscapeInv cfg (s.startGoroutine cfg g group site) := by
  have hnext : EscapeInv cfg { s with nextGID := s.nextGID + 1 } := h.fields rfl rfl rfl rfl
  unfold Interpreter.startGoroutine
  dsimp only
  split
  · exact hnext.recordViolation g _
  · have hchild : EscapeInv cfg ({ s with nextGID := s.nextGID + 1 }.modify (s.nextGID + 1) fun _ =>
        { spawned := true, vclock := (VectorClock.Clock.start (s.nextGID + 1)).merge (s.clockOf g),
          spawnSite := site, group := group }) := hnext.modify nofun
    exact (hchild.setClock _).fields rfl rfl rfl rfl

theorem exit : EscapeInv cfg (s.exit g) := by
  have hexit : EscapeInv cfg (s.modify g fun r => { r with exited := true }) :=
    h.modify (h.goroutines g)
  unfold Interpreter.exit
  dsimp only
  split
  · exact hexit
  · split
    · exact hexit
    · exact (hexit.syncRelease _ _ _).setSync _ _

theorem haltAll : EscapeInv cfg s.haltAll := by
  refine ⟨h.channels, h.sudogs, fun q v hv => h.goroutines q v ?_⟩
  have hvals : (s.haltAll.goroutines q).vals = (s.goroutines q).vals := by
    show (if _ then _ else _ : Goroutine V T).vals = _
    split <;> rfl
  exact hvals ▸ hv

/-! ## §4. Sends -/

omit h in
/-- A send reports an arena pointer first. -/
theorem reported_checkChannelEscape (hg : (s.goroutines g).aborted = false) (val : V)
    (site : String) : Reported cfg (s.checkChannelEscape cfg g val site).violations val := by
  intro alloc arena allocSite hval
  unfold Interpreter.checkChannelEscape Interpreter.recordViolation
  rw [hval]
  simp [hg]

/-- A value in the buffer of a channel. -/
theorem buf (hch : s.channels id = some ch) {it : ChanItem V} (hit : it ∈ ch.buf) :
    Reported cfg s.violations it.val :=
  h.channels id ch hch _ (List.mem_append_right _ (List.mem_map_of_mem hit))

theorem bufferedSend (hch : s.channels id = some ch) (hval : Reported cfg s.violations val) :
    EscapeInv cfg (s.bufferedSend cfg g id ch val) := by
  unfold Interpreter.bufferedSend
  refine (EscapeInv.setChan (h.acquireTick _) id _ ?_).log _ _ _
  intro v hv
  simp only [ChanEntry.vals, List.map_append, ← List.append_assoc] at hv
  rcases List.mem_append.mp hv with hold | hnew
  · exact h.channels id ch hch v hold
  · rw [List.mem_singleton.mp hnew]
    exact hval

theorem sendNow (hval : Reported cfg s.violations val) (site : String) :
    EscapeInv cfg (s.sendNow cfg g id val site) := by
  have hun : EscapeInv cfg (s.setWait g none) := h.unpark
  unfold Interpreter.sendNow
  dsimp only
  cases hch : (s.setWait g none).channels id with
  | none => exact hun
  | some =>
    dsimp only
    split
    · exact (hun.sendOnClosed site).setRet _ nofun
    · exact (hun.bufferedSend hch hval).setRet _ nofun

theorem sendWoken (site : String) : EscapeInv cfg (s.sendWoken cfg g w site) := by
  unfold Interpreter.sendWoken
  split
  · exact (h.wakeUp false).setRet _ nofun
  · exact (h.unpark.sendOnClosed site).setRet _ nofun

theorem recvClosed (elem : Option T) : EscapeInv cfg (s.recvClosed cfg g id ch elem) :=
  (h.setClock _).log ..

theorem recvBuffered (hch : s.channels id = some ch) {it : ChanItem V} {rest : List (ChanItem V)}
    (hbuf : ch.buf = it :: rest) : EscapeInv cfg (s.recvBuffered cfg g id ch it rest) := by
  unfold Interpreter.recvBuffered
  refine (EscapeInv.setChan (h.acquireTick _) id _ fun v hv => h.channels id ch hch v ?_).log _ _ _
  simp only [ChanEntry.vals, hbuf, List.mem_append, List.map_cons, List.mem_cons] at hv ⊢
  exact hv.imp_right .inr

/-- A queue of a channel is changed. -/
theorem setQueue (hch : s.channels id = some ch) (ch' : ChanEntry V) (hvals : ch'.vals = ch.vals) :
    EscapeInv cfg (s.setChan id ch') :=
  h.setChan id _ (hvals ▸ h.channels id ch hch)

theorem handleChannelClose (site : String) : EscapeInv cfg (s.handleChannelClose cfg g id site) := by
  unfold Interpreter.handleChannelClose
  cases hch : s.channels id with
  | none => exact h
  | some =>
    dsimp only
    split
    · exact (h.runtimePanic _).recordViolation g _
    · refine EscapeInv.log (EscapeInv.setQueue (h.setClock _) hch _ ?_) _ _ _
      rfl

theorem createChannel (capacity : Nat) {refill : Option V}
    (hrefill : ∀ v ∈ refill, Reported cfg s.violations v) :
    EscapeInv cfg (s.createChannel capacity refill) :=
  (h.setChan (s.nextChanID + 1) { capacity := capacity, refill := refill }
    (by simpa [ChanEntry.vals] using hrefill)).fields rfl rfl rfl rfl

variable (hcfg : cfg.Plain)

include hcfg

/-- `block` returns at once, is given up, or waits. -/
theorem abandon (wt : Wait V T) : EscapeInv cfg (s.abandon cfg g wt) := by
  have hempty : Reported cfg s.violations cfg.emptyValue := .of_none hcfg.empty
  cases wt with
  | sendReady => exact h.unpark.setRet _ nofun
  | send => exact h.abandonOffer.setRet _ nofun
  | recv => exact h.abandonOffer.received hempty false false
  | recvReady => exact h.unpark.received hempty false false
  | select cases sw => exact h.withdraw sw
  | group | never => exact h.unpark

theorem settle (wt : Wait V T) {k : Interpreter V T → Interpreter V T}
    (hk : (s.goroutines g).aborted = false → EscapeInv cfg (k s)) :
    EscapeInv cfg (s.settle cfg g wt k) := by
  unfold Interpreter.settle
  split
  · exact h.abandon hcfg wt
  · rename_i hg
    split
    · exact hk (by simpa using hg)
    · exact h

/-- **A send.** -/
theorem chanSend (hg : (s.goroutines g).aborted = false) (val : V) (site : String) :
    EscapeInv cfg (s.chanSend cfg g id val site) := by
  unfold Interpreter.chanSend
  cases hch : s.channels id with
  | none => exact h.setRet _ nofun
  | some ch =>
    have hval : Reported cfg (s.checkChannelEscape cfg g val site).violations val :=
      reported_checkChannelEscape hg val site
    have h₁ : EscapeInv cfg (s.checkChannelEscape cfg g val site) := h.checkChannelEscape val site
    have hch₁ : (s.checkChannelEscape cfg g val site).channels id = some ch := by
      rw [← hch]
      unfold Interpreter.checkChannelEscape Interpreter.recordViolation
      split
      · rfl
      · split <;> rfl
    dsimp only
    generalize s.checkChannelEscape cfg g val site = s₁ at hval h₁ hch₁
    split
    · have hpark : EscapeInv cfg (s₁.setWait g (some (.sendReady id val site))) :=
        h₁.setWait _ (List.forall_mem_singleton.mpr hval)
      exact hpark.settle hcfg _ fun _ => hpark.sendNow hval site
    · split
      · rename_i r rest _
        have hpop : EscapeInv cfg (s₁.setChan id { ch with recvq := rest }) :=
          h₁.setQueue hch₁ _ rfl
        have hset := hpop.setSudog r { s₁.sudogs r with val := val } hval
        exact hset.claimBy.setRet _ nofun
      · have hpark := h₁.setWait (g := g) (some (.send id s₁.nextSudog site)) nofun
        have hoffer := hpark.offer (g := g) hch₁ true hval none 0
        exact hoffer.settle hcfg _ fun _ => hoffer.sendWoken site

/-! ## §5. Receives -/

/-- The value of a receive that need not wait, in the state after it. -/
theorem recvReady (g : Gid) (hch : s.channels id = some ch) (elem : Option T) :
    EscapeInv cfg (s.recvReady cfg g id ch elem).1 ∧
      Reported cfg (s.recvReady cfg g id ch elem).1.violations (s.recvReady cfg g id ch elem).2.1 := by
  unfold Interpreter.recvReady
  split
  · rename_i v hrefill
    exact ⟨h.log .., h.channels id ch hch v (by simp [ChanEntry.vals, hrefill])⟩
  · rename_i it rest _ hbuf
    exact ⟨h.recvBuffered hch hbuf, h.buf hch (hbuf ▸ List.mem_cons_self)⟩
  · split
    · rename_i w rest _
      exact ⟨(h.setQueue hch { ch with sendq := rest } rfl).claimBy, h.sudogs w⟩
    · exact ⟨h.recvClosed elem, .of_none (hcfg.chanZero elem)⟩

theorem recvWoken (elem : Option T) : EscapeInv cfg (s.recvWoken cfg g id w elem) := by
  have hun : EscapeInv cfg (s.setWait g none) := h.unpark
  unfold Interpreter.recvWoken
  split
  · exact (h.wakeUp true).received (h.sudogs w) true true
  · dsimp only
    split
    · exact hun
    · exact (hun.recvClosed elem).received (.of_none (hcfg.chanZero elem)) false true

theorem recvNow (elem : Option T) : EscapeInv cfg (s.recvNow cfg g id elem) := by
  have hun : EscapeInv cfg (s.setWait g none) := h.unpark
  unfold Interpreter.recvNow
  dsimp only
  cases hch : (s.setWait g none).channels id with
  | none => exact hun
  | some =>
    obtain ⟨hrecv, hval⟩ := hun.recvReady hcfg g hch elem
    exact hrecv.received hval _ true

/-- **A receive.** -/
theorem chanRecv (elem : Option T) : EscapeInv cfg (s.chanRecv cfg g id elem) := by
  have hempty : Reported cfg s.violations cfg.emptyValue := .of_none hcfg.empty
  unfold Interpreter.chanRecv
  cases hch : s.channels id with
  | none => exact h.received hempty true true
  | some ch =>
    dsimp only
    split
    · split
      · rename_i w rest _
        have hpop := h.setQueue hch { ch with sendq := rest } rfl
        exact hpop.claimBy.received (h.sudogs w) true true
      · have hpark := h.setWait (g := g) (some (.recv id s.nextSudog elem)) nofun
        have hoffer := hpark.offer (g := g) hch false hempty none 0
        exact hoffer.settle hcfg _ fun _ => hoffer.recvWoken hcfg elem
    · have hpark := h.setWait (g := g) (some (.recvReady id elem)) nofun
      exact hpark.settle hcfg _ fun _ => hpark.recvNow hcfg elem

/-! ## §6. Select -/

/-- The tuple of a select has one value that it received, and zero values. -/
theorem selected (cases : List (SelectCase V T)) (idx : Nat) (ok : Bool) {v : V}
    (hv : Reported cfg s.violations v) :
    EscapeInv cfg (s.setRet g (selectResult cfg cases idx ok v)) := by
  refine h.setRet _ fun v' hv' => ?_
  obtain ⟨⟨c, i⟩, -, hc⟩ := List.mem_filterMap.mp hv'
  dsimp only at hc
  split at hc
  · cases hc
  · cases hc
    split
    · exact hv
    · exact .of_none (hcfg.chanZero c.elem)

theorem runCase (hg : (s.goroutines g).aborted = false) (cases : List (SelectCase V T))
    (chosen : Nat) (site : String) : EscapeInv cfg (s.runCase cfg g cases chosen site) := by
  unfold Interpreter.runCase
  split
  · exact h
  · rename_i c _
    split
    · rename_i id ch hid hch
      rw [hid] at hch
      split
      · exact (h.chanSend hcfg hg c.val site).selected hcfg cases chosen false (.of_none hcfg.empty)
      · obtain ⟨hrecv, hval⟩ := h.recvReady hcfg g hch c.elem
        exact hrecv.selected hcfg cases chosen _ hval
    · exact h

theorem selectWoken (hg : (s.goroutines g).aborted = false) (cases : List (SelectCase V T))
    (sw : SelRef) (site : String) : EscapeInv cfg (s.selectWoken cfg g cases sw site) := by
  have hwd : EscapeInv cfg (s.withdraw g sw) := h.withdraw sw
  unfold Interpreter.selectWoken
  split
  · split
    · exact h.unpark
    · rename_i w _
      dsimp only
      split
      · exact (h.wakeUp true).selected hcfg cases _ false (.of_none hcfg.empty)
      · exact (h.wakeUp true).selected hcfg cases _ true (h.sudogs w)
  · have hg' : ((s.withdraw g sw).goroutines g).aborted = false := by
      have hsame : ((s.withdraw g sw).goroutines g).aborted = (s.goroutines g).aborted :=
        modify_field Goroutine.aborted s g g (f := fun r => { r with wait := none }) fun _ => rfl
      rw [hsame, hg]
    dsimp only
    split
    · exact hwd
    · exact hwd.runCase hcfg hg' cases _ site

end Updates

end EscapeInv

section Select

variable {cfg : Config V T} {s t : Interpreter V T} {g : Gid}

/-- A select that waits offers a send on an unbuffered channel. -/
def offersSend (s : Interpreter V T) (c : SelectCase V T) : Bool :=
  c.send && (c.ch.bind s.channels).any fun ch => ch.capacity == 0

/-- The offers of a select keep the channels' capacities. -/
theorem offer_capacity {id : ChanID} {ch : ChanEntry V} (hch : s.channels id = some ch)
    (onSend : Bool) (val : V) (sel : Option SelRef) (caseIdx : Nat) (id' : ChanID) :
    ((s.offer cfg g id ch onSend val sel caseIdx).channels id').map ChanEntry.capacity =
      (s.channels id').map ChanEntry.capacity := by
  have hset : (s.offer cfg g id ch onSend val sel caseIdx).channels =
      Function.update s.channels id (some (if onSend then
        { ch with sendq := ch.sendq ++ [s.nextSudog] } else { ch with recvq := ch.recvq ++ [s.nextSudog] })) :=
    rfl
  rw [hset]
  by_cases heq : id' = id
  · subst heq
    rw [update_self, hch]
    cases onSend <;> rfl
  · rw [update_of_ne heq]

theorem offersSend_congr (hcap : ∀ id, (t.channels id).map ChanEntry.capacity =
    (s.channels id).map ChanEntry.capacity) (c : SelectCase V T) :
    t.offersSend c = s.offersSend c := by
  have hany : ∀ u : Interpreter V T, ((c.ch.bind u.channels).any fun ch => ch.capacity == 0) =
      (c.ch.bind fun id => (u.channels id).map ChanEntry.capacity).any (· == 0) := by
    intro u
    cases c.ch with
    | none => rfl
    | some id =>
      show (u.channels id).any _ = ((u.channels id).map _).any _
      cases u.channels id <;> rfl
  unfold offersSend
  rw [hany t, hany s, funext hcap]

theorem offersSend_resolveCase {c : SelectCase V T} (h : s.offersSend (s.resolveCase c) = true) :
    s.offersSend c = true := by
  unfold offersSend resolveCase at h
  unfold offersSend
  cases hid : c.ch with
  | none => simp [hid] at h
  | some id =>
    cases hch : s.channels id with
    | none => simp [hid, hch, Option.filter] at h
    | some => simpa [hid, hch, Option.filter] using h

theorem EscapeInv.offerCases (sw : SelRef) (cs : List (SelectCase V T × Nat)) :
    ∀ {s : Interpreter V T}, EscapeInv cfg s →
      (∀ x ∈ cs, x.1.send = false ∨ s.offersSend x.1 = true → cfg.arenaAlloc x.1.val = none) →
        EscapeInv cfg (s.offerCases cfg g sw cs) := by
  induction cs with
  | nil =>
    intro s h _
    exact h
  | cons x cs ih =>
    intro s h hplain
    obtain ⟨c, i⟩ := x
    have hrest : ∀ x ∈ cs, x.1.send = false ∨ s.offersSend x.1 = true →
        cfg.arenaAlloc x.1.val = none := fun x hx => hplain x (List.mem_cons_of_mem _ hx)
    unfold Interpreter.offerCases
    split
    · rename_i id ch hid hch
      split
      · exact ih h hrest
      · rename_i hcap
        have hval : cfg.arenaAlloc c.val = none := by
          refine hplain (c, i) List.mem_cons_self ?_
          cases hsend : c.send with
          | false => exact .inl rfl
          | true =>
            refine .inr ?_
            have hzero : ch.capacity = 0 := by omega
            simp [offersSend, hsend, hch, hzero]
        rw [hid] at hch
        refine ih (h.offer hch c.send (.of_none hval) (some sw) i) ?_
        intro x hx hx'
        rw [offersSend_congr (offer_capacity hch c.send c.val (some sw) i) x.1] at hx'
        exact hrest x hx hx'
    · exact ih h hrest

/-- **A select**, if its receive cases hold no value and, should it wait, the
sends that it offers are no arena pointers. -/
theorem EscapeInv.execSelect (hcfg : cfg.Plain) (h : EscapeInv cfg s)
    (hg : (s.goroutines g).aborted = false) (states : List (SelectCase V T)) (blocking : Bool)
    (site : String) (hrecv : ∀ c ∈ states, c.send = false → cfg.arenaAlloc c.val = none)
    (hsend : blocking = true → s.first none (states.map s.resolveCase) = none →
      ∀ c ∈ states, s.offersSend c = true → cfg.arenaAlloc c.val = none) :
    EscapeInv cfg (s.execSelect cfg g states blocking site) := by
  unfold Interpreter.execSelect
  dsimp only
  split
  · exact h.runCase hcfg hg _ _ site
  · exact h.selected hcfg _ _ false (.of_none hcfg.empty)
  · rename_i hfirst
    have hnew : EscapeInv cfg s.newSelect := h.fields rfl rfl rfl rfl
    have hpark := hnew.setWait (g := g)
      (some (.select (states.map s.resolveCase) s.nextSel site)) nofun
    have hoffer : EscapeInv cfg ((s.newSelect.setWait g
        (some (.select (states.map s.resolveCase) s.nextSel site))).offerCases cfg g s.nextSel
          (states.map s.resolveCase).zipIdx) := by
      refine hpark.offerCases s.nextSel _ ?_
      intro x hx hcase
      obtain ⟨c, hc, hresolved⟩ := List.mem_map.mp (List.fst_mem_of_mem_zipIdx hx)
      rw [← hresolved] at hcase ⊢
      rcases hcase with hr | ho
      · exact hrecv c hc hr
      · exact hsend rfl hfirst c hc (offersSend_resolveCase ho)
    exact hoffer.settle hcfg _ fun haborted => hoffer.selectWoken hcfg haborted _ _ site

/-! ## §7. Runs -/

/-- What is asked of a step. An aborted goroutine sends nothing: it executes
no instruction, only the deferred calls of the interpreter itself. A timer's
value is made by the interpreter, and the value of a receive case is empty.
The last condition is the one that programs can violate: a select that has
to wait offers no arena pointer. -/
def Screened (cfg : Config V T) (s : Interpreter V T) : Action V T → Prop
  | .start g (.send _ _ _) => (s.goroutines g).aborted = false
  | .start _ (.timer val) => cfg.arenaAlloc val = none
  | .start g (.select states blocking _) =>
    (s.goroutines g).aborted = false ∧
    (∀ c ∈ states, c.send = false → cfg.arenaAlloc c.val = none) ∧
    (blocking = true → s.first none (states.map s.resolveCase) = none →
      ∀ c ∈ states, s.offersSend c = true → cfg.arenaAlloc c.val = none)
  | _ => True

variable (hcfg : cfg.Plain) (h : EscapeInv cfg s)

include hcfg h

theorem EscapeInv.never (g : Gid) (err : Violation) :
    EscapeInv cfg ((s.recordViolation g err).block cfg g .never id) := by
  have hpark := (h.recordViolation g err).setWait (g := g) (some .never) nofun
  exact hpark.settle hcfg _ fun _ => hpark

theorem EscapeInv.groupWait (p : Prim) : EscapeInv cfg (s.groupWait cfg g p) := by
  have hpark := h.setWait (g := g) (some (.group p)) nofun
  unfold Interpreter.groupWait Interpreter.block
  exact hpark.settle hcfg _ fun _ => hpark.groupWoken p

theorem EscapeInv.notify (id : ChanID) : EscapeInv cfg (s.notify cfg id) := by
  unfold Interpreter.notify
  cases hch : s.channels id with
  | none => exact h
  | some ch =>
    refine h.setChan id _ (List.forall_mem_cons.mpr ⟨.of_none hcfg.stdlib, fun v hv => ?_⟩)
    exact h.channels id ch hch v (List.mem_append_right _ hv)

theorem EscapeInv.run (op : Op V T) (hop : Screened cfg s (.start g op)) :
    EscapeInv cfg (s.run cfg g op) := by
  cases op with
  | access => exact h.log ..
  | go site => exact h.startGoroutine none site
  | makeChan =>
    show EscapeInv cfg ((Interpreter.createChannel _ _ _).setRet g _)
    refine (EscapeInv.createChannel ?_ _ nofun).setRet _ nofun
    split
    · exact h.recordViolation g _
    · exact h
  | timer =>
    refine (h.createChannel 1 ?_).setRet _ nofun
    intro v hv
    cases hv
    exact .of_none hop
  | notify id => exact h.notify hcfg id
  | send ch val site =>
    cases ch with
    | none => exact h.never hcfg g _
    | some => exact h.chanSend hcfg hop val site
  | recv ch elem =>
    cases ch with
    | none => exact h.never hcfg g _
    | some => exact h.chanRecv hcfg elem
  | close ch site =>
    cases ch with
    | none => exact (h.recordViolation g _).runtimePanic _
    | some => exact h.handleChannelClose site
  | select states blocking site =>
    obtain ⟨hg, hrecv, hsend⟩ := hop
    exact h.execSelect hcfg hg states blocking site hrecv hsend
  | mutex rw a m site => exact h.syncMutex _ m site
  | wgAdd a delta site => exact h.wgAdd _ delta site
  | wgWait | errgroupWait => exact h.groupWait hcfg _
  | condSignal => exact h.syncRelease _ _ _
  | condWait => exact h.syncAcquire _ _ _ _
  | errgroupGo a site => exact (h.setSync _ _).startGoroutine _ site
  | exit => exact h.exit
  | halt => exact h.haltAll

theorem EscapeInv.complete (hg : (s.goroutines g).aborted = false) {wt : Wait V T}
    (hw : (s.goroutines g).wait = some wt) : EscapeInv cfg (s.complete cfg g wt) := by
  cases wt with
  | sendReady id val site =>
    refine h.sendNow (h.goroutines g val (List.mem_append_left _ ?_)) site
    exact hw ▸ List.mem_singleton_self val
  | send id w site => exact h.sendWoken site
  | recv id w elem => exact h.recvWoken hcfg elem
  | recvReady id elem => exact h.recvNow hcfg elem
  | select cases sw site => exact h.selectWoken hcfg hg cases sw site
  | group p => exact h.groupWoken p
  | never => exact h

/-- The step lemma. -/
theorem EscapeInv.step {a : Action V T} (ha : Screened cfg s a) (hst : Step cfg s a t) :
    EscapeInv cfg t := by
  cases stepped hst with
  | start op => exact h.run hcfg op ha
  | resume hw hr hna => exact h.complete hcfg hna hw.2
  | giveUp => exact h.abandon hcfg _
  | quiesce => exact h.fields rfl rfl rfl rfl
  | abort => exact EscapeInv.abandon (h.modify (h.goroutines _)) hcfg _

omit h in
theorem escapeInv_init : EscapeInv cfg (init cfg) where
  channels _ := nofun
  sudogs _ := .of_none hcfg.empty
  goroutines _ := nofun

omit hcfg h in
/-- **What a receive obtains has been reported.** In every run, under any
scheduler, in which no select that has to wait offers an arena pointer: a
value that an operation of a goroutine returned is no pointer into an arena,
or an escape of kind channel is recorded for its allocation. -/
theorem received_reported (hcfg : cfg.Plain) {acts : List (Action V T)}
    (hrun : Transition.Run (fun s a t => Step cfg s a t ∧ Screened cfg s a) (init cfg) acts s)
    (g : Gid) {v : V} (hv : v ∈ (s.goroutines g).ret.vals) : Reported cfg s.violations v := by
  have hinv : EscapeInv cfg s := hrun.invariant
    (fun _ _ _ hst h => h.step hcfg hst.2 hst.1) (escapeInv_init hcfg)
  exact hinv.goroutines g v (List.mem_append_right _ hv)

end Select

/-- The value 9 is a pointer into an arena. -/
def arenaConfig : Config Nat Unit :=
  { natConfig false with
    arenaAlloc := fun v => if v = 9 then some (4, 1, "main.go:6") else none }

/-- `select { case ch <- p: case <-done: }`. go/ssa has no blocking select with
one case. -/
def sendOrDone : Op Nat Unit :=
  .select [⟨some 1, true, 9, none⟩, ⟨some 2, false, 0, none⟩] true "main.go:8"

/-- The select sends the pointer to a goroutine that already waits for it. -/
def sendToReceiver : List (Action Nat Unit) :=
  [.start 1 (.makeChan 0 ""), .start 1 (.makeChan 0 ""), .start 1 (.go ""),
    .start 2 (.recv (some 1) none ""), .start 1 sendOrDone, .resume 2]

theorem received_reported_sendToReceiver :
    9 ∈ ((reached arenaConfig sendToReceiver).goroutines 2).ret.vals ∧
      ∃ x ∈ (reached arenaConfig sendToReceiver).violations, ∃ escapeSite,
        x.err = .escapedPointer 4 1 "main.go:6" escapeSite "channel" := by
  have hcfg : arenaConfig.Plain := ⟨rfl, rfl, fun _ => rfl⟩
  have hrun : Transition.Run (fun s a t => Step arenaConfig s a t ∧ Screened arenaConfig s a)
      (init arenaConfig) sendToReceiver (reached arenaConfig sendToReceiver) :=
    Transition.run_of_guarded (exec_reached (by decide))
      ⟨trivial, trivial, trivial, trivial, ⟨rfl, by simp [arenaConfig], nofun⟩, trivial, trivial⟩
  have hmem : 9 ∈ ((reached arenaConfig sendToReceiver).goroutines 2).ret.vals := by decide
  exact ⟨hmem, received_reported hcfg hrun 2 hmem 4 1 "main.go:6" rfl⟩

/-- The same select comes first, and its offer is taken. -/
def selectThenReceive : List (Action Nat Unit) :=
  [.start 1 (.makeChan 0 ""), .start 1 (.makeChan 0 ""), .start 1 (.go ""), .start 1 sendOrDone,
    .start 2 (.recv (some 1) none "")]

/-- The goroutine has received the arena pointer, and nothing is reported. -/
theorem select_unreported : Reachable arenaConfig (reached arenaConfig selectThenReceive) ∧
    9 ∈ ((reached arenaConfig selectThenReceive).goroutines 2).ret.vals ∧
    (reached arenaConfig selectThenReceive).violations = [] ∧
    ¬ Reported arenaConfig (reached arenaConfig selectThenReceive).violations 9 := by
  have hnone : (reached arenaConfig selectThenReceive).violations = [] := by decide
  refine ⟨reachable_reached (by decide), by decide, hnone, ?_⟩
  intro h
  obtain ⟨x, hx, -⟩ := h 4 1 "main.go:6" rfl
  rw [hnone] at hx
  cases hx

end Interpreter

end Giri.Interp
