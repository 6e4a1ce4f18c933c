/-
Giri.Session.Isolation — what a call leaves behind in the interpreter.

All argument sets of a Run are called in one interpreter. Its tables are
keyed by IDs that counters hand out: allocations, channels, goroutines,
closeables, cancel functions, arenas. The counters go on, so a call meets
only entries that it has made itself, as long as it has no IDs but those it
was given. Here a call has HANDLES, the numbers of the IDs in the order of
the call, and the tables are read and written by the IDs behind them.

Two things are not keyed by IDs: the pending conversions of the unsafe
detector, and the index of the round-robin scheduler.

With `SkipDetectors` allocations have a counter of their own, and those made
by `Memory.Allocate` (`arena.New`) another one.

`strayed` is a history variable: a call has used a number that it was not
given, or both counters. Loops over the map of pending conversions have one
order for equal maps here; what the order can change is in
`Session/OrderTheorems.lean`.
-/
import Giri.Interp.Tables

namespace Giri.Isolation

open HostMap (Host)
open Detector (UnsafeDetector UnsafePointerViolation)
open Session (Recorded Env)
open Effect (Handler)
open Tables (Err)

/-- What the interpreter has counters for. -/
inductive Kind where
  | alloc
  | chan
  | goroutine
  | closeable
  | cancelFunc
  | arena
  deriving DecidableEq, Repr

/-- `D` is what the tables keep under an ID. The IDs of a kind up to `base`
were handed out by earlier calls, and then `minted` by this one. -/
structure World (D : Type) where
  base : Kind → Int := fun _ => 1
  minted : Kind → Nat := fun _ => 0
  /-- The counter of the shadow memory, with `SkipDetectors`. -/
  memNext : Int := 1
  cells : Kind → Int → Option D := fun _ _ => none
  unsafeDetector : UnsafeDetector := {}
  /-- `lastIdx`; `none` if there is no scheduler. -/
  sched : Option Nat
  strayed : Bool := false

namespace World

variable {D : Type} (w : World D)

/-- The call was given this handle. -/
def reaches (kind : Kind) (k : Int) : Bool := 0 ≤ k && k < w.minted kind

def setCell (kind : Kind) (id : Int) (d : D) : World D :=
  { w with cells := Function.update w.cells kind (Function.update (w.cells kind) id (some d)) }

/-- A counter hands out an ID. -/
def mint (kind : Kind) (d : D) : Int × World D :=
  (w.minted kind,
    { w.setCell kind (w.base kind + w.minted kind) d with
      minted := Function.update w.minted kind (w.minted kind + 1) })

/-- `Memory.Allocate`. -/
def memAllocate (skip : Bool) (d : D) : Int × World D :=
  if skip then
    (w.memNext - w.base .alloc,
      { w.setCell .alloc w.memNext d with memNext := w.memNext + 1, strayed := true })
  else w.mint .alloc d

def get (kind : Kind) (k : Int) : Option D := w.cells kind (w.base kind + k)

/-- A handle is used. -/
def touch (kind : Kind) (k : Int) : World D :=
  { w with strayed := w.strayed || !w.reaches kind k }

def set (kind : Kind) (k : Int) (d : D) : World D :=
  (w.touch kind k).setCell kind (w.base kind + k) d

/-- `sched.Next`, for the sorted handles of the runnable goroutines. -/
def next (runnable : List Int) : Option Int × World D :=
  match w.sched, runnable with
  | some lastIdx, first :: rest =>
    let (k, idx) := Sched.roundRobinNext lastIdx first rest
    (some k, { w with sched := some idx })
  | _, _ => (none, w)

/-- From here on the IDs are those of another call. -/
def beginSet : World D :=
  { w with
    base := fun kind => w.base kind + w.minted kind
    minted := fun _ => 0 }

/-- The end of a call: goroutines are forgotten, and `settle` drops the
history of the race detector. -/
def endCall (settle : D → D) : World D :=
  { w with cells := fun kind id => if kind = .goroutine then none else (w.cells kind id).map settle }

/-- What the tables keep under the handles of the call. -/
def view : Kind → Int → Option D := fun kind k =>
  if w.reaches kind k then w.get kind k else none

end World

/-! ## Commands -/

/-- What an engine may ask for. Errors `X` refer to things by handles. -/
inductive Query (D X K : Type) where
  | mint (kind : Kind) (d : D)
  | memAllocate (d : D)
  | get (kind : Kind) (k : Int)
  | set (kind : Kind) (k : Int) (d : D)
  | next (runnable : List Int)
  | recordUintptr (valueID site : String)
  | recordReflect (valueID site : String)
  | clearUintptrs
  | gcSafepoint (site : String) (stack : K) (records : Bool)
  | violation (x : X) (stack : Option K)

def Answer {D X K : Type} : Query D X K → Type
  | .mint _ _ | .memAllocate _ => Int
  | .get _ _ => Option D
  | .next _ => Option Int
  | _ => Unit

section

variable {D X K : Type} (h : Host) (skip : Bool)

/-- Without detectors nothing is pending. -/
def recordPending (w : World D) (d : UnsafeDetector) : World D :=
  if skip then w else { w with unsafeDetector := d }

def checkGCPoint (w : World D) (site : String) : List UnsafePointerViolation :=
  if skip then [] else w.unsafeDetector.checkGCPoint h 0 site

def handle : Handler (Query D X K) Answer (World D) (Recorded (Err X) K)
  | .mint kind d, w =>
    let (k, w) := w.mint kind d
    (k, w, [])
  | .memAllocate d, w =>
    let (k, w) := w.memAllocate skip d
    (k, w, [])
  | .get kind k, w => (w.get kind k, w.touch kind k, [])
  | .set kind k d, w => ((), w.set kind k d, [])
  | .next runnable, w =>
    let (k, w) := w.next runnable
    (k, w, [])
  | .recordUintptr valueID site, w =>
    ((), recordPending skip w (w.unsafeDetector.recordUintptrConversion valueID site), [])
  | .recordReflect valueID site, w =>
    ((), recordPending skip w (w.unsafeDetector.recordReflectConversion valueID site), [])
  | .clearUintptrs, w =>
    ((), recordPending skip w (w.unsafeDetector.clearAllUintptrConversions h 0), [])
  | .gcSafepoint site stack records, w =>
    ((), w, if records then
      (checkGCPoint h skip w site).map (⟨.unsafePointer ·, some stack⟩) else [])
  | .violation x stack, w => ((), w, [⟨.other x, stack⟩])

/-- A session with or without detectors and scheduler. -/
def env (settle : D → D) (sched : Option Nat) :
    Env (Err X) K (Kind → Int → Option D) (World D) (Query D X K) Answer where
  world := { sched := sched }
  handle := handle h skip
  gcPoint w site := (checkGCPoint h skip w site).map .unsafePointer
  passed w := w
  beginSet w := w.beginSet
  endCall w := w.endCall settle
  view w := w.view

/-- `shadow.CategoryOf`; `text` is the category of the other errors. -/
def category (text : X → String) : Err X → String
  | .unsafePointer v => "unsafe-pointer-" ++ v.rule.text
  | .other x => text x

end

end Giri.Isolation
