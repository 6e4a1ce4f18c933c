/-
Giri.Interp.Sync — starting goroutines (`startGoroutine`), the sync package
(`handleSyncCall`, `syncMutex`, `syncWaitGroup`) and errgroup
(`handleErrgroupCall`).

The state of a primitive is found under its ALLOCATION (`Prim.key`), so two
primitives that are fields of one struct share it. The trace records which
primitive an operation was on.

A lock never blocks here, whoever holds it: `Lock` takes over the write
lock. What the handlers keep is the clocks, and enough of the lock state to
report an unlock of an unlocked mutex. `Once`, `Pool` and `Map` have no
clocks and are not modelled, nor is an errgroup the interpreter can't
identify, whose `Go` runs the function in place.
-/
import Giri.Interp.Chan

namespace Giri.Interp

variable {V T : Type}

/-- The methods of `sync.Mutex` and `sync.RWMutex`. -/
inductive MutexMethod where
  | lock
  | tryLock
  | unlock
  | rLock
  | tryRLock
  | rUnlock
  deriving DecidableEq, Repr

/-- The method's name, as a `MutexUnlockError` has it. -/
def MutexMethod.name : MutexMethod → String
  | .lock => "Lock"
  | .tryLock => "TryLock"
  | .unlock => "Unlock"
  | .rLock => "RLock"
  | .tryRLock => "TryRLock"
  | .rUnlock => "RUnlock"

namespace Interpreter

/-! ## §1. Goroutines -/

/-- The part of `startGoroutine` that can't fail: the child inherits the
parent's clock, then the parent ticks. -/
def fork (s : Interpreter V T) (g child : Gid) (group : Option Prim) (site : String) :
    Interpreter V T :=
  let record : Goroutine V T :=
    { spawned := true, vclock := (VectorClock.Clock.start child).merge (s.clockOf g),
      spawnSite := site, group := group }
  let s := { s.modify child fun _ => record with numGoroutines := s.numGoroutines + 1 }
  (s.tickClock g).log g (.fork child group) [] none

variable (cfg : Config V T) (s : Interpreter V T) (g : Gid) (p : Prim)

/-- `startGoroutine`. -/
def startGoroutine (group : Option Prim) (site : String) : Interpreter V T :=
  let child := s.nextGID + 1
  let s := { s with nextGID := child }
  if cfg.maxGoroutines > 0 && s.numGoroutines ≥ cfg.maxGoroutines then
    s.recordViolation g
      (.error ("goroutine limit reached (" ++ toString cfg.maxGoroutines ++ ")"))
  else s.fork g child group site

/-! ## §2. Acquiring and releasing a primitive -/

/-- Merge the clocks stored for `p` that the operation acquires. -/
def syncAcquire (op : SyncOp) (p : Prim) (last rUnlock : Option Stamp) : Interpreter V T :=
  ((s.acquire g last).acquire g rUnlock).log g (.sync op p) (srcs last ++ srcs rUnlock) none

/-- Store the state `ms` of `p`, with the clock published, then tick. -/
def syncRelease (op : SyncOp) (p : Prim) (ms : MutexState) : Interpreter V T :=
  ((s.setSync p.key ms).tickClock g).log g (.sync op p) [] (some (s.clockOf g))

/-- `acquire` in `syncMutex`: `Lock` and `TryLock`. -/
def lock (s : Interpreter V T) (g : Gid) (p : Prim) : Interpreter V T :=
  let ms := s.mutexes p.key
  (s.setSync p.key { ms with locked := true, lockGoroutine := g }).syncAcquire g .lock p
    ms.lastUnlockClock ms.rUnlockClock

/-- `rAcquire` in `syncMutex`: `RLock` and `TryRLock`. -/
def rLock (s : Interpreter V T) (g : Gid) (p : Prim) : Interpreter V T :=
  let ms := s.mutexes p.key
  (s.setSync p.key { ms with readers := ms.readers + 1 }).syncAcquire g .rLock p
    ms.lastUnlockClock none

/-- `unlockOfUnlocked` in `syncMutex`. -/
def unlockOfUnlocked (m : MutexMethod) (site : String) : Interpreter V T :=
  (s.recordViolation g (.mutexUnlock m.name site g)).modify g fun r =>
    { r with panicked := true }

/-- `Unlock`: the clock stored before is REPLACED. -/
def unlock (s : Interpreter V T) (g : Gid) (p : Prim) (site : String) : Interpreter V T :=
  let ms := s.mutexes p.key
  if ms.locked then
    s.syncRelease g .unlock p
      { ms with locked := false, lastUnlockClock := some (s.snapshotClock g) }
  else s.unlockOfUnlocked g .unlock site

/-- `RUnlock`. -/
def rUnlock (s : Interpreter V T) (g : Gid) (p : Prim) (site : String) : Interpreter V T :=
  let ms := s.mutexes p.key
  if ms.readers == 0 then s.unlockOfUnlocked g .rUnlock site
  else
    s.syncRelease g .rUnlock p
      { ms with readers := ms.readers - 1
                rUnlockClock := some (s.joinClock ms.rUnlockClock g) }

/-- `syncMutex`. The read methods exist on `RWMutex` only. -/
def syncMutex (m : MutexMethod) (site : String) : Interpreter V T :=
  match m with
  | .lock => s.lock g p
  | .tryLock => (s.lock g p).setRet g (.tried true)
  | .unlock => s.unlock g p site
  | .rLock => if p.kind == .rwMutex then s.rLock g p else s
  | .tryRLock => if p.kind == .rwMutex then (s.rLock g p).setRet g (.tried true) else s
  | .rUnlock => if p.kind == .rwMutex then s.rUnlock g p site else s

/-- A `Done`, or the exit of a member of an errgroup: the clock is joined
into the one stored. -/
def joinRelease : Interpreter V T :=
  let ms := s.mutexes p.key
  s.syncRelease g .done p { ms with lastUnlockClock := some (s.joinClock ms.lastUnlockClock g) }

/-- `wgCounter += delta`. -/
def addCounter (delta : Int) : Interpreter V T :=
  s.setSync p.key
    { s.mutexes p.key with wgCounter := (s.mutexes p.key).wgCounter + delta }

/-- `add` in `syncWaitGroup`; `Done` is `add(-1)`. -/
def wgAdd (delta : Int) (site : String) : Interpreter V T :=
  let s := if delta < 0 then s.joinRelease g p else s
  let s := s.addCounter p delta
  let counter := (s.mutexes p.key).wgCounter
  if counter < 0 then s.recordViolation g (.waitGroupNegative site g counter) else s

/-- `WaitGroup.Wait` and `errgroup.Group.Wait`, after `block`. -/
def groupWoken : Interpreter V T :=
  (s.setWait g none).syncAcquire g .wait p (s.mutexes p.key).lastUnlockClock none

/-- `WaitGroup.Wait` and `errgroup.Group.Wait`. -/
def groupWait : Interpreter V T :=
  s.block cfg g (.group p) fun s => s.groupWoken g p

/-- `Cond.Signal` and `Cond.Broadcast`. -/
def condSignal : Interpreter V T :=
  s.syncRelease g .signal p
    { s.mutexes p.key with lastUnlockClock := some (s.snapshotClock g) }

/-- `Cond.Wait`, which does not wait. -/
def condWait : Interpreter V T :=
  s.syncAcquire g .wait p (s.mutexes p.key).lastUnlockClock none

/-- `errgroup.Group.Go` and `TryGo`. The counter goes up even if the
goroutine can't be started. -/
def errgroupGo (site : String) : Interpreter V T :=
  (s.addCounter p 1).startGoroutine cfg g (some p) site

/-- The end of `hostMain`: `onExit`, unless the goroutine was aborted. -/
def exit : Interpreter V T :=
  let s := s.modify g fun r => { r with exited := true }
  match (s.goroutines g).group with
  | none => s
  | some p => if (s.goroutines g).aborted then s else (s.joinRelease g p).addCounter p (-1)

/-- `haltAll`. -/
def haltAll : Interpreter V T :=
  { s with
    stopping := true
    goroutines := fun g =>
      if (s.goroutines g).spawned then { s.goroutines g with panicked := true }
      else s.goroutines g }

end Interpreter

end Giri.Interp
