/-
Giri.Interp.Chan — channels with values (`pkg/interpreter/chan.go`).

A buffered channel is a FIFO of at most `capacity` items. An unbuffered
channel is a rendezvous: a waiting operation is queued as a sudog, and a
counterpart that comes later claims it. A select that has to wait queues one
sudog for every case on an unbuffered channel; all of them share one
`SelectWait`, and become stale together.

`block` is cut in two, because the source keeps the rest of the operation on
the Go stack. `setWait` says what the goroutine waits for; `settle` makes
the two checks of `block` (the goroutine was aborted; the wait is already
over) and otherwise leaves it waiting. The code after `block` is passed to
`settle`, and `resume` in `Machine.lean` runs it later. Operations register
the wait BEFORE they queue their sudogs; nothing can run in between.
-/
import Giri.Interp.State

namespace Giri.Interp

variable {V T : Type}

variable (cfg : Config V T) (s : Interpreter V T) (g : Gid) (id : ChanID) (ch : ChanEntry V)
  (w : SudogRef) (site : String) (elem : Option T)

/-- `chanZero`: what a receive from a closed, empty channel yields. -/
def Config.chanZero : Option T → V
  | none => cfg.emptyValue
  | some t =>
    if cfg.isZeroAggregate (cfg.concreteZero t) && !cfg.concrete then cfg.emptyValue
    else cfg.concreteZero t

namespace Interpreter

/-! ## §1. Waiting operations -/

/-- `createChannel`. -/
def createChannel (capacity : Nat) (refill : Option V) : Interpreter V T :=
  { s.setChan (s.nextChanID + 1) { capacity := capacity, refill := refill } with
    nextChanID := s.nextChanID + 1 }

/-- `(*sudog).live`. -/
def live : Bool :=
  !(s.sudogs w).done &&
    match (s.sudogs w).sel with
    | none => true
    | some sw => !(s.sels sw).fired

/-- `s.live() && (s.sel == nil || s.sel != notSel)`. -/
def eligible (notSel : Option SelRef) (w : SudogRef) : Bool :=
  s.live w && ((s.sudogs w).sel.isNone || (s.sudogs w).sel != notSel)

/-- `popLive`: the first live sudog of a queue, and the queue after it. -/
def popLive (s : Interpreter V T) (notSel : Option SelRef) :
    List SudogRef → Option (SudogRef × List SudogRef)
  | [] => none
  | w :: q => if s.eligible notSel w then some (w, q) else s.popLive notSel q

/-- `hasLive`. -/
def hasLive (notSel : Option SelRef) (q : List SudogRef) : Bool :=
  q.any (s.eligible notSel)

/-- `(*sudog).claim`. -/
def claim (peer : Option Stamp) : Interpreter V T :=
  { s.setSudog w { s.sudogs w with done := true, peer := peer } with
    sels :=
      match (s.sudogs w).sel with
      | none => s.sels
      | some sw => Function.update s.sels sw ⟨true, some w⟩ }

/-- `(*chanEntry).canRecv`. -/
def canRecv (self : Option SelRef) : Bool :=
  if ch.refill.isSome || !ch.buf.isEmpty || ch.closed then true
  else ch.capacity == 0 && s.hasLive self ch.sendq

/-- `(*chanEntry).canSend`. -/
def canSend (self : Option SelRef) : Bool :=
  if ch.closed then true
  else if ch.capacity > 0 then ch.buf.length < ch.capacity && ch.refill.isNone
  else s.hasLive self ch.recvq

/-- Queue a sudog on an unbuffered channel: `s := &sudog{...}` and the
append to `sendq` or `recvq`. -/
def offer (cfg : Config V T) (s : Interpreter V T) (g : Gid) (id : ChanID) (ch : ChanEntry V)
    (onSend : Bool) (val : V) (sel : Option SelRef) (caseIdx : Nat) : Interpreter V T :=
  let w := s.nextSudog
  let clock := s.releaseClock cfg g
  let s := s.tick cfg g
  let s := s.setSudog w { gid := g, val := val, clock := clock, sel := sel, caseIdx := caseIdx }
  let ch := if onSend then { ch with sendq := ch.sendq ++ [w] }
    else { ch with recvq := ch.recvq ++ [w] }
  let s := { s.setChan id ch with nextSudog := w + 1 }
  s.log g (.offer w id onSend val sel) [] (clock.map Stamp.clock)

/-- `recvFrom`, and the same three steps in `chanSend`: goroutine `g`
completes the waiting operation `w`, whose value by now is the one
exchanged. -/
def claimBy : Interpreter V T :=
  let s₁ := s.acquire g (s.sudogs w).clock
  let peer := s₁.releaseClock cfg g
  ((s₁.tick cfg g).claim w peer).log g (.claim w id (s.sudogs w).val)
    (srcs (s.sudogs w).clock) (peer.map Stamp.clock)

/-- The goroutine returns from the wait of `w`, which a counterpart has
completed. A sender does not tick. -/
def wakeUp (ticks : Bool) : Interpreter V T :=
  let s₁ := (s.setWait g none).acquire g (s.sudogs w).peer
  let s₂ := s₁.setClock g
    (if ticks && cfg.trackRaces then (s₁.clockOf g).tick g else s₁.clockOf g)
  s₂.log g (.wake w (s.sudogs w).val) (srcs (s.sudogs w).peer) none

/-- `s.done = true // withdraw the offer`. -/
def abandonOffer : Interpreter V T :=
  ((s.setWait g none).setSudog w { s.sudogs w with done := true }).log g (.abandon w) [] none

/-- `sw.fired = true // withdraw the offers`. -/
def withdraw (s : Interpreter V T) (g : Gid) (sw : SelRef) : Interpreter V T :=
  ((s.setWait g none).setSel sw { s.sels sw with fired := true }).log g (.withdraw sw) [] none

/-! ## §2. Waiting -/

/-- `(*selectCase).ready`. -/
def caseReady (self : Option SelRef) (c : SelectCase V T) : Bool :=
  match c.ch.bind s.channels with
  | none => false
  | some ch => if c.send then s.canSend ch self else s.canRecv ch self

/-- `first`: the first ready case, in source order. -/
def first (self : Option SelRef) (cases : List (SelectCase V T)) : Option Nat :=
  cases.findIdx? (s.caseReady self)

/-- The `ready` predicates given to `block`. -/
def ready : Wait V T → Bool
  | .sendReady id _ _ => (s.channels id).any (s.canSend · none)
  | .send id w _ => (s.sudogs w).done || (s.channels id).any (·.closed)
  | .recv id w _ => (s.sudogs w).done || (s.channels id).any (·.closed)
  | .recvReady id _ => (s.channels id).any (s.canRecv · none)
  | .select cases sw _ =>
    -- select {} is given no predicate
    !cases.isEmpty && ((s.sels sw).fired || (s.first (some sw) cases).isSome)
  | .group p => (s.mutexes p.key).wgCounter ≤ 0
  | .never => false

/-- What an operation does when `block` returns false. -/
def abandon : Wait V T → Interpreter V T
  | .sendReady _ _ _ => (s.setWait g none).setRet g (.sent false)
  | .send _ w _ => (s.abandonOffer g w).setRet g (.sent false)
  | .recv _ w _ => (s.abandonOffer g w).setRet g (.received cfg.emptyValue false false)
  | .recvReady _ _ => (s.setWait g none).setRet g (.received cfg.emptyValue false false)
  | .select _ sw _ => s.withdraw g sw
  | .group _ => s.setWait g none
  | .never => s.setWait g none

/-- The checks of `block`, for a goroutine whose wait is registered; `k` is
the code after it. -/
def settle (wt : Wait V T) (k : Interpreter V T → Interpreter V T) : Interpreter V T :=
  if (s.goroutines g).aborted then s.abandon cfg g wt
  else if s.ready wt then k s
  else s

/-- `block`. -/
def block (wt : Wait V T) (k : Interpreter V T → Interpreter V T) : Interpreter V T :=
  (s.setWait g (some wt)).settle cfg g wt k

/-! ## §3. Sending -/

/-- `sendOnClosed`. -/
def sendOnClosed : Interpreter V T :=
  (s.runtimePanic g "send on closed channel").recordViolation g
    (.error ("send on closed channel at " ++ site ++ " (goroutine " ++ toString g ++ ")"))

/-- `checkChannelEscape`. -/
def checkChannelEscape (val : V) (site : String) : Interpreter V T :=
  match cfg.arenaAlloc val with
  | none => s
  | some (alloc, arena, allocSite) =>
    s.recordViolation g (.escapedPointer alloc arena allocSite site "channel")

/-- `bufferedSend`; there is room. -/
def bufferedSend (val : V) : Interpreter V T :=
  -- the (nsent-C)-th receive freed this slot
  let freed := if ch.nsent ≥ ch.capacity then ch.recvClocks.head? else none
  let left := if ch.nsent ≥ ch.capacity then ch.recvClocks.tail else ch.recvClocks
  let s := s.acquire g freed
  let clock := s.releaseClock cfg g
  let s := (s.tick cfg g).setChan id
    { ch with recvClocks := left, nsent := ch.nsent + 1, buf := ch.buf ++ [⟨val, clock⟩] }
  s.log g (.send id val) (srcs freed) (clock.map Stamp.clock)

/-- `chanSend`, after the first `block`. -/
def sendNow (val : V) (site : String) : Interpreter V T :=
  let s := s.setWait g none
  match s.channels id with
  | none => s
  | some ch =>
    if ch.closed then (s.sendOnClosed g site).setRet g (.sent false)
    else (s.bufferedSend cfg g id ch val).setRet g (.sent true)

/-- `chanSend`, after the second `block`. -/
def sendWoken : Interpreter V T :=
  if (s.sudogs w).done then (s.wakeUp cfg g w false).setRet g (.sent true)
  else ((s.setWait g none).sendOnClosed g site).setRet g (.sent false)

/-- `chanSend`. -/
def chanSend (val : V) (site : String) : Interpreter V T :=
  match s.channels id with
  | none => s.setRet g (.sent true)
  | some ch =>
    let s := s.checkChannelEscape cfg g val site
    if ch.capacity > 0 || ch.closed then
      s.block cfg g (.sendReady id val site) fun s => s.sendNow cfg g id val site
    else
      match s.popLive none ch.recvq with
      | some (r, rest) =>
        let s := s.setChan id { ch with recvq := rest }
        let s := s.setSudog r { s.sudogs r with val := val }
        (s.claimBy cfg g id r).setRet g (.sent true)
      | none =>
        let wt := Wait.send id s.nextSudog site
        let w := s.nextSudog
        ((s.setWait g (some wt)).offer cfg g id ch true val none 0).settle cfg g wt
          fun s => s.sendWoken cfg g w site

/-! ## §4. Receiving -/

/-- `recvReady`, when the buffer is not empty. -/
def recvBuffered (it : ChanItem V) (rest : List (ChanItem V)) : Interpreter V T :=
  let s := s.acquire g it.clock
  -- publish this receive for the (k+C)-th send, then tick
  let clock := if ch.capacity > 0 then s.releaseClock cfg g else none
  let s := (s.tick cfg g).setChan id
    { ch with buf := rest, recvClocks := ch.recvClocks ++ clock.toList }
  s.log g (.recv id it.val) (srcs it.clock) (clock.map Stamp.clock)

/-- `recvClosed`. -/
def recvClosed (cfg : Config V T) (s : Interpreter V T) (g : Gid) (id : ChanID)
    (ch : ChanEntry V) (elem : Option T) : Interpreter V T :=
  (s.acquire g ch.closeClock).log g (.recvClosed id elem (cfg.chanZero elem))
    (srcs ch.closeClock) none

/-- `recvReady`: the state, the value and `ok`. -/
def recvReady : Interpreter V T × V × Bool :=
  match ch.refill, ch.buf with
  | some v, _ => (s.log g (.recvRefill id v) [] none, v, true)
  | none, it :: rest => (s.recvBuffered cfg g id ch it rest, it.val, true)
  | none, [] =>
    match if ch.capacity == 0 && !ch.closed then s.popLive none ch.sendq else none with
    | some (w, rest) =>
      ((s.setChan id { ch with sendq := rest }).claimBy cfg g id w, (s.sudogs w).val, true)
    | none => (s.recvClosed cfg g id ch elem, cfg.chanZero elem, false)

/-- `chanRecv`, after the first `block`. -/
def recvWoken : Interpreter V T :=
  if (s.sudogs w).done then
    (s.wakeUp cfg g w true).setRet g (.received (s.sudogs w).val true true)
  else
    let s := s.setWait g none
    match s.channels id with
    | none => s
    | some ch =>
      (s.recvClosed cfg g id ch elem).setRet g (.received (cfg.chanZero elem) false true)

/-- `chanRecv`, after the second `block`. -/
def recvNow : Interpreter V T :=
  let s := s.setWait g none
  match s.channels id with
  | none => s
  | some ch =>
    let r := s.recvReady cfg g id ch elem
    r.1.setRet g (.received r.2.1 r.2.2 true)

/-- `chanRecv`. -/
def chanRecv : Interpreter V T :=
  match s.channels id with
  | none => s.setRet g (.received cfg.emptyValue true true)
  | some ch =>
    if ch.capacity == 0 && !ch.closed then
      match s.popLive none ch.sendq with
      | some (w, rest) =>
        ((s.setChan id { ch with sendq := rest }).claimBy cfg g id w).setRet g
          (.received (s.sudogs w).val true true)
      | none =>
        let wt := Wait.recv id s.nextSudog elem
        let w := s.nextSudog
        ((s.setWait g (some wt)).offer cfg g id ch false cfg.emptyValue none 0).settle cfg g
          wt fun s => s.recvWoken cfg g id w elem
    else
      s.block cfg g (.recvReady id elem) fun s => s.recvNow cfg g id elem

/-- `handleChannelClose`. -/
def handleChannelClose : Interpreter V T :=
  match s.channels id with
  | none => s
  | some ch =>
    if ch.closed then
      (s.runtimePanic g "close of closed channel").recordViolation g (.doubleClose site g)
    else
      let clock := s.releaseClock cfg g
      ((s.tick cfg g).setChan id { ch with closed := true, closeClock := clock }).log g
        (.close id) [] (clock.map Stamp.clock)

/-! ## §5. Select -/

/-- `result`: the tuple of a select, with the value of every receive case. -/
def selectResult (cases : List (SelectCase V T)) (idx : Nat) (recvOk : Bool)
    (recvVal : V) : Ret V :=
  .selected idx recvOk (cases.zipIdx.filterMap fun (c, i) =>
    if c.send then none else some (if i = idx then recvVal else cfg.chanZero c.elem))

/-- The end of `execSelect`: run the chosen case, which is ready. -/
def runCase (cases : List (SelectCase V T)) (chosen : Nat) (site : String) : Interpreter V T :=
  match cases[chosen]? with
  | none => s
  | some c =>
    match c.ch, c.ch.bind s.channels with
    | some id, some ch =>
      if c.send then
        (s.chanSend cfg g id c.val site).setRet g
          (selectResult cfg cases chosen false cfg.emptyValue)
      else
        let r := s.recvReady cfg g id ch c.elem
        r.1.setRet g (selectResult cfg cases chosen r.2.2 r.2.1)
    | _, _ => s

/-- `execSelect`, after `block`. -/
def selectWoken (cases : List (SelectCase V T)) (sw : SelRef) (site : String) : Interpreter V T :=
  if (s.sels sw).fired then
    match (s.sels sw).sg with
    | none => s.setWait g none
    | some w =>
      -- a counterpart completed one of the offered cases
      let i := (s.sudogs w).caseIdx
      let onSend := (cases[i]?).any (·.send)
      (s.wakeUp cfg g w true).setRet g
        (if onSend then selectResult cfg cases i false cfg.emptyValue
          else selectResult cfg cases i true (s.sudogs w).val)
  else
    let s := s.withdraw g sw
    match s.first none cases with
    | none => s
    | some i => s.runCase cfg g cases i site

/-- Offer each case on an unbuffered channel to counterparts. -/
def offerCases (cfg : Config V T) (s : Interpreter V T) (g : Gid) (sw : SelRef) :
    List (SelectCase V T × Nat) → Interpreter V T
  | [] => s
  | (c, i) :: cs =>
    match c.ch, c.ch.bind s.channels with
    | some id, some ch =>
      if ch.capacity > 0 then s.offerCases cfg g sw cs
      else (s.offer cfg g id ch c.send c.val (some sw) i).offerCases cfg g sw cs
    | _, _ => s.offerCases cfg g sw cs

/-- A case on a channel the interpreter doesn't know has no channel. -/
def resolveCase (c : SelectCase V T) : SelectCase V T :=
  { c with ch := c.ch.filter fun id => (s.channels id).isSome }

/-- `sw := &selectWait{}`. -/
def newSelect : Interpreter V T :=
  { s.setSel s.nextSel {} with nextSel := s.nextSel + 1 }

/-- `execSelect`. -/
def execSelect
    (states : List (SelectCase V T)) (blocking : Bool) (site : String) : Interpreter V T :=
  let cases := states.map s.resolveCase
  match s.first none cases, blocking with
  | some i, _ => s.runCase cfg g cases i site
  | none, false => s.setRet g (selectResult cfg cases cases.length false cfg.emptyValue)
  | none, true =>
    let sw := s.nextSel
    let wt := Wait.select cases sw site
    ((s.newSelect.setWait g (some wt)).offerCases cfg g sw cases.zipIdx).settle cfg g wt
      fun s => s.selectWoken cfg g cases sw site

end Interpreter

end Giri.Interp
