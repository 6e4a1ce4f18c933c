/-
Giri.Sched.Baton — blocking and resumption of interpreted goroutines
(`pkg/interpreter/gosched.go`).

Every interpreted goroutine that has started runs on a host goroutine of
its own. The hosts are a real concurrent system: each has its own control
point (`PC`) and a wake channel of capacity one, and the model gives every
host its own steps. That only one of them runs at a time is NOT built in;
it is what `BatonTheorems.lean` proves.

What the interpreter does between two waits is left open: the state the
wait conditions read is a parameter `σ`, and a running goroutine may change
it in any way, start goroutines, block on any condition, exit, or halt the
program, at any time. So a statement about every run of the model is a
statement about every program and every scheduler that picks one of the
candidates. An internal panic of a host (`wakeCrash`) is outside the model.
A probe is part of `Act.work`: a wait inside one unwinds without parking.

A host's send on a wake channel is a step of its own (`PC.sending`): it
can only be taken when the channel is empty. A receive is a step as well.
Handing the baton over is the last thing a host does on behalf of a
goroutine that has exited, so a host that has sent it is `ended`.
-/
import Mathlib.Data.List.Sort
import Giri.Basic

namespace Giri.Sched

/-- `wakeMsg`. -/
inductive WakeMsg where
  | run
  | abort
  | quiescent
  | exited
  | crash
  deriving DecidableEq, Repr

/-- `GoroutineStatus`. -/
inductive Status where
  | running
  | blocked
  | finished
  deriving DecidableEq, Repr

/-- `waitInfo`; `ready = none` is a wait that can't end. -/
structure WaitInfo (σ : Type) where
  site : String
  kind : String
  chanID : Nat
  onSend : Bool
  ready : Option (σ → Bool)

/-- `w.ready != nil && w.ready()`. -/
def WaitInfo.isReady {σ : Type} (w : WaitInfo σ) (shared : σ) : Bool :=
  match w.ready with
  | some ready => ready shared
  | none => false

/-- The fields of `Goroutine` that scheduling reads or writes. -/
structure Goroutine (σ : Type) where
  status : Status
  panicked : Bool
  panicking : Bool
  aborted : Bool
  wait : Option (σ → Bool)
  spawnSite : String
  blockSite : String
  blockKind : String
  blockChanID : Nat
  blockOnSend : Bool
  /-- The deferred calls still pending in frames whose deferred calls are
  being run. `runFrameDefers` looks at `Aborted` before its loop and NOT in
  it, so a goroutine that is aborted inside a deferred call still executes
  the calls left in that frame (those with a body run no instruction, but
  modelled calls such as Unlock or log.Fatal do what they do). -/
  pendingDefers : Nat

/-- A goroutine just created by `spawnGoroutine`. -/
def Goroutine.new {σ : Type} (spawnSite : String) : Goroutine σ where
  status := .running
  panicked := false
  panicking := false
  aborted := false
  wait := none
  spawnSite := spawnSite
  blockSite := ""
  blockKind := ""
  blockChanID := 0
  blockOnSend := false
  pendingDefers := 0

/-- What `abortParked` returns to: the driver's own `block`, which then
unwinds the entry goroutine, or the end of `runDriver`. -/
inductive AfterAbort where
  | inBlock
  | atEnd
  deriving DecidableEq, Repr

/-- Where a host goroutine is. -/
inductive PC where
  /-- There is no such host goroutine. -/
  | absent
  /-- It executes interpreter code. -/
  | running
  /-- At a send of `msg` to the host of `dst`; `next` is where it goes on. -/
  | sending (dst : Gid) (msg : WakeMsg) (next : PC)
  /-- In `block`, at `msg = <-me.wake`. -/
  | parked
  /-- In `block`, at `switch msg`. -/
  | woken (msg : WakeMsg)
  /-- It has returned. -/
  | ended
  /-- The driver, at the head of the loop of `drainAll`. -/
  | looping
  /-- The driver, in `drainAll`, at `<-interp.driverHost.wake`. -/
  | draining
  /-- The driver, in `runDriver`, after `drainAll`. -/
  | drained
  /-- The driver, in `abortParked`, at `<-interp.driverHost.wake`; `rest` are
  the goroutines still to abort. -/
  | aborting (rest : List Gid) (k : AfterAbort)
  /-- The driver, after `runDriver`. -/
  | returned
  deriving DecidableEq, Repr

/-- The control points at which a host executes interpreter code. -/
def PC.active : PC → Bool
  | .running | .sending .. | .woken _ | .looping | .drained => true
  | .absent | .parked | .ended | .draining | .aborting .. | .returned => false

/-- The scheduling fields of `Interpreter`, the state `shared` that wait
conditions read, and the hosts. `sched` is false for a session without a
scheduler (`SingleGoroutine`), where no goroutine can be started. -/
structure Sys (σ : Type) where
  shared : σ
  goroutines : AList fun _ : Gid => Goroutine σ
  nextGID : Gid
  runQueue : List Gid
  hosts : List Gid
  driverGID : Gid
  halting : Bool
  deadlock : Option Nat
  sched : Bool
  pc : Gid → PC
  wake : Gid → Option WakeMsg

variable {σ : Type}

namespace Sys

/-! ## Small updates -/

/-- Update goroutine `g` of a table, if it exists. -/
def updateG (m : AList fun _ : Gid => Goroutine σ) (g : Gid) (f : Goroutine σ → Goroutine σ) :
    AList fun _ : Gid => Goroutine σ :=
  match m.lookup g with
  | some G => m.insert g (f G)
  | none => m

variable (s : Sys σ) (g : Gid)

/-- Update goroutine `g`, if it exists. -/
@[simps] def modify (f : Goroutine σ → Goroutine σ) : Sys σ :=
  { s with goroutines := updateG s.goroutines g f }

/-- Move host `g` to control point `p`. -/
@[simps] def setPC (p : PC) : Sys σ :=
  { s with pc := Function.update s.pc g p }

/-- Set the contents of host `g`'s wake channel. -/
@[simps] def setWake (m : Option WakeMsg) : Sys σ :=
  { s with wake := Function.update s.wake g m }

/-- Interpreter code leaves `shared` behind. -/
@[simps] def setShared (shared : σ) : Sys σ :=
  { s with shared := shared }

/-- `delete(interp.hosts, g)`. -/
@[simps] def deleteHost : Sys σ :=
  { s with hosts := s.hosts.erase g }

/-! ## `gosched.go`, function by function -/

/-- Goroutine `g` waits: it is blocked, and nobody has aborted it. -/
def waiting : Bool :=
  match s.goroutines.lookup g with
  | some G => G.status == .blocked && !G.aborted
  | none => false

/-- The test of `pickNext` on a host: a waiting goroutine whose wait is
over. -/
def waitOver : Bool :=
  match s.goroutines.lookup g with
  | some G =>
    G.status == .blocked && !G.aborted &&
      (match G.wait with
       | some ready => ready s.shared
       | none => false)
  | none => false

/-- The candidates of `pickNext(self)`, sorted: queued goroutines and
waiting goroutines whose wait is over. It is empty where `pickNext` returns
-1. -/
def candidates (self : Gid) : List Gid :=
  if s.halting || !s.sched then []
  else if s.runQueue.length = 0 ∧
      (s.hosts.length = 0 ∨ (s.hosts.length = 1 ∧ self ∈ s.hosts)) then []
  else
    (s.runQueue ++ s.hosts.filter fun id => id != self && s.waitOver id).insertionSort (· ≤ ·)

/-- `takeTask`: the last task takes the place of the removed one. -/
def takeTask (q : List Gid) (g : Gid) : List Gid :=
  match q.getLast? with
  | some last => if g ∈ q then (q.set (q.idxOf g) last).dropLast else q
  | none => q

/-- `transfer` of a goroutine that hasn't run yet: its host goroutine is
created and starts to run the goroutine's function. -/
@[simps] def startHost (next : Gid) : Sys σ :=
  { s with
    runQueue := takeTask s.runQueue next,
    hosts := next :: s.hosts,
    pc := Function.update s.pc next .running }

/-- `transfer(next)`, called on host `me`, which then goes on at `k`. -/
def transfer (me next : Gid) (k : PC) : Sys σ :=
  if next ∈ s.hosts then s.setPC me (.sending next .run k)
  else (s.startHost next).setPC me k

/-- `pickNext` and then `transfer`, with the scheduler's choice; where there
is no candidate, wakeQuiescent for the driver. -/
def handOver (me : Gid) (k : PC) (choice : Option Gid) : Option (Sys σ) :=
  match choice with
  | some next => if next ∈ s.candidates me then some (s.transfer me next k) else none
  | none =>
    if s.candidates me = [] then
      some (s.setPC me (.sending s.driverGID .quiescent k))
    else none

/-- The goroutine's record when it starts to wait. -/
def parkRecord (w : WaitInfo σ) (G : Goroutine σ) : Goroutine σ :=
  { G with status := .blocked, blockSite := w.site, blockKind := w.kind,
           blockChanID := w.chanID, blockOnSend := w.onSend,
           wait := some (w.ready.getD fun _ => false) }

/-- `block(gid, w)`, up to the receive on its wake channel. It returns at
once when the goroutine is aborted (false) or the wait is over (true): the
host then simply runs on. -/
def block (w : WaitInfo σ) (choice : Option Gid) : Option (Sys σ) :=
  match s.goroutines.lookup g with
  | none => some s
  | some G =>
    if G.aborted then some s
    else if w.isReady s.shared then some s
    else
      let s := s.modify g (parkRecord w)
      if g = s.driverGID then
        match choice with
        | some next =>
          if next ∈ s.candidates g then some (s.transfer g next .parked) else none
        | none =>
          if s.candidates g = [] then some (s.setPC g (.woken .quiescent)) else none
      else s.handOver g .parked choice

/-- An unrecovered panic leaves a running goroutine panicked; otherwise it
is finished. -/
def finishRecord (G : Goroutine σ) : Goroutine σ :=
  if G.status ≠ .running then G
  else if G.panicking then { G with panicking := false, panicked := true }
  else if G.panicked then G
  else { G with status := .finished }

/-- `finishGoroutine`. -/
@[simps!] def finishGoroutine : Sys σ :=
  s.modify g finishRecord

/-- `reportDeadlock`. -/
def reportDeadlock : Sys σ :=
  if s.halting || s.deadlock.isSome then s
  else
    { s with deadlock := some (s.goroutines.entries.countP fun e =>
        e.2.status == .blocked && !e.2.panicked && !e.2.aborted) }

/-- `abortParked` returns: in `block` the entry goroutine then unwinds;
at the end of `runDriver` the queue and the driver's host entry go. -/
def abortDone : AfterAbort → Sys σ
  | .inBlock =>
    (s.modify s.driverGID fun G => { G with aborted := true }).setPC s.driverGID .running
  | .atEnd => (({ s with runQueue := [] }).deleteHost s.driverGID).setPC s.driverGID .returned

/-- The loop of `abortParked`. -/
def abortNext (ids : List Gid) (k : AfterAbort) : Sys σ :=
  match ids with
  | [] => s.abortDone k
  | id :: rest => s.setPC s.driverGID (.sending id .abort (.aborting rest k))

/-- `abortParked`. -/
def abortParked (k : AfterAbort) : Sys σ :=
  if s.hosts.length ≤ 1 then s.abortDone k
  else
    s.abortNext ((s.hosts.filter (· != s.driverGID)).insertionSort (· ≤ ·)) k

/-- `haltAll`: os.Exit, log.Fatal, the step limit. -/
def haltAll : Sys σ :=
  { s with
    halting := true,
    goroutines := s.goroutines.keys.foldl
      (fun m g => updateG m g fun G => { G with panicked := true }) s.goroutines }

/-- `switch msg` of `block`. -/
def wokenStep : WakeMsg → Option (Sys σ)
  | .run =>
    some ((s.modify g fun G => { G with status := .running, wait := none }).setPC g .running)
  | .quiescent => some (({ s.reportDeadlock with halting := true }).abortParked .inBlock)
  | .crash => none
  | _ => some ((s.modify g fun G => { G with aborted := true }).setPC g .running)

/-- The end of `hostMain`, after the goroutine's function has returned. -/
def hostExit (choice : Option Gid) : Option (Sys σ) :=
  match s.goroutines.lookup g with
  | some G =>
    if G.aborted then some ((s.deleteHost g).setPC g (.sending s.driverGID .exited .ended))
    else ((s.deleteHost g).finishGoroutine g).handOver g .ended choice
  | none => ((s.deleteHost g).finishGoroutine g).handOver g .ended choice

/-- One iteration of the loop of `drainAll`. -/
def drainStep (choice : Option Gid) : Option (Sys σ) :=
  match choice with
  | some next =>
    if next ∈ s.candidates s.driverGID then
      some (s.transfer s.driverGID next .draining)
    else none
  | none =>
    if s.candidates s.driverGID = [] then some (s.setPC s.driverGID .drained) else none

/-! ## Steps -/

/-- What a piece of interpreter code leaves in its goroutine's record. -/
structure Flags where
  panicked : Bool
  panicking : Bool
  pendingDefers : Nat

/-- The steps of the hosts. `choice` is the scheduler's answer where the
step asks it. -/
inductive Act (σ : Type) where
  /-- A running goroutine executes interpreter code. -/
  | work (g : Gid) (shared : σ) (flags : Flags)
  /-- A go statement, or errgroup's Go. -/
  | spawn (g : Gid) (site : String)
  | block (g : Gid) (w : WaitInfo σ) (choice : Option Gid)
  /-- os.Exit, log.Fatal or the step limit. -/
  | halt (g : Gid)
  /-- An aborted goroutine unwinds; `shared` is what that leaves behind. -/
  | unwind (g : Gid) (shared : σ)
  /-- The goroutine's function has returned (`onExit` has run, leaving
  `shared`); for the driver, the body of `runDriver`. -/
  | exit (g : Gid) (shared : σ) (choice : Option Gid)
  | send (g : Gid)
  | receive (g : Gid)
  | handle (g : Gid)
  /-- The driver's loop head in `drainAll`. -/
  | drain (choice : Option Gid)
  | abortAll

/-- Goroutine `g` executes: its host runs, and it has not been aborted or
is still in the loop of a `runFrameDefers`. -/
def canWork : Bool :=
  s.pc g == .running &&
    (match s.goroutines.lookup g with
     | some G => !G.aborted || 0 < G.pendingDefers
     | none => false)

/-- `spawnGoroutine` and `startGoroutine`: the new goroutine is queued. -/
@[simps] def startGoroutine (site : String) : Sys σ :=
  { s with
    nextGID := s.nextGID + 1,
    goroutines := s.goroutines.insert (s.nextGID + 1) (Goroutine.new site),
    runQueue := s.runQueue ++ [s.nextGID + 1] }

/-- The record after `work`. An aborted goroutine defers nothing more; each
deferred call it executes is gone from its frame. -/
def workRecord (flags : Flags) (G : Goroutine σ) : Goroutine σ :=
  { G with
    panicked := flags.panicked,
    panicking := flags.panicking,
    pendingDefers :=
      if G.aborted then min flags.pendingDefers (G.pendingDefers - 1) else flags.pendingDefers }

def step : Act σ → Option (Sys σ)
  | .work g shared flags =>
    if s.canWork g then some ((s.setShared shared).modify g (workRecord flags))
    else none
  | .spawn g site =>
    if s.canWork g && s.sched then some (s.startGoroutine site) else none
  | .block g w choice => if s.pc g = .running then s.block g w choice else none
  | .halt g => if s.canWork g then some s.haltAll else none
  | .unwind g shared =>
    if s.pc g = .running ∧ s.canWork g = false then some (s.setShared shared) else none
  | .exit g shared choice =>
    if s.pc g = .running then
      if g = s.driverGID then
        some (((s.setShared shared).finishGoroutine g).setPC g .looping)
      else (s.setShared shared).hostExit g choice
    else none
  | .send g =>
    match s.pc g with
    | .sending dst msg next =>
      match s.wake dst with
      | none => some ((s.setWake dst (some msg)).setPC g next)
      | some _ => none
    | _ => none
  | .receive g =>
    match s.pc g, s.wake g with
    | .parked, some msg => some ((s.setWake g none).setPC g (.woken msg))
    | .draining, some msg =>
      if msg = .crash then none else some ((s.setWake g none).setPC g .looping)
    | .aborting rest k, some msg =>
      if msg = .crash then none else some ((s.setWake g none).abortNext rest k)
    | _, _ => none
  | .handle g =>
    match s.pc g with
    | .woken msg => s.wokenStep g msg
    | _ => none
  | .drain choice => if s.pc s.driverGID = .looping then s.drainStep choice else none
  | .abortAll => if s.pc s.driverGID = .drained then some (s.abortParked .atEnd) else none

/-- The state in which `runDriver(gid, body)` starts to run `body`: the
entry goroutine has been created and nothing else exists. -/
def start (shared : σ) (gid : Gid) (sched : Bool) : Sys σ where
  shared := shared
  goroutines := (∅ : AList _).insert gid (Goroutine.new "")
  nextGID := gid
  runQueue := []
  hosts := [gid]
  driverGID := gid
  halting := false
  deadlock := none
  sched := sched
  pc := Function.update (fun _ => .absent) gid .running
  wake := fun _ => none

end Sys

end Giri.Sched
