/-
Giri.Interp.Uintptr — uintptrs made from pointers, in a whole run
(`handleUnsafePointer`, `execCall`).

A run is the list of what all goroutines do, in the order in which it
happens; only what has to do with uintptrs is listed. `State` is what the
interpreter keeps: the detector, whose table has the SSA NAME of a
conversion as its key, whatever function, frame or goroutine it is in.

`Spec` says what is meant. Every conversion of a pointer has a number of its
own, and every value the numbers of the conversions it was computed from. A
conversion is pending from when it is made until a value computed from it is
turned back into a pointer.

A goroutine that was aborted executes nothing any more, so it is not in the
list. Unsafe tracking is on.
-/
import Giri.Basic
import Giri.Detector.Unsafe

namespace Giri.Uintptr

open HostMap (Host)
open Detector (UnsafeDetector UnsafeRule UnsafePointerViolation)

/-- Where a value can be: a register of a frame, or a place in memory. -/
inductive Place where
  | register (gid : Gid) (frame : Nat) (name : String)
  | cell (alloc : AllocID) (offset : Int)
  deriving DecidableEq, Repr

/-- How a call finds its function. -/
inductive Dispatch where
  /-- A function that the instruction names, or a value that is none of the
  following. -/
  | static
  | closure
  | functionValue (hasBlocks : Bool)
  | cancelFunc
  | interfaceMethod
  | deferred
  | goStatement
  deriving DecidableEq, Repr

/-- The calls before which `execCall` reaches `gcSafepoint`. The others return
before it, or don't come from `execCall`. -/
def Dispatch.safepoint (concrete : Bool) : Dispatch → Bool
  | .static => true
  | .functionValue hasBlocks => !(concrete && hasBlocks)
  | _ => false

/-- What a goroutine does. -/
inductive Event where
  /-- A value is computed from others, stored, or loaded. -/
  | compute (dst : Place) (srcs : List Place)
  /-- `uintptr(p)`, the instruction `name`. -/
  | toUintptr (gid : Gid) (frame : Nat) (name site : String) (hasProvenance : Bool)
  /-- `reflect.Value.Pointer` and `UnsafeAddr`. -/
  | reflectPointer (gid : Gid) (frame : Nat) (name site : String)
  /-- `unsafe.Pointer(u)`. -/
  | toPointer (dst src : Place)
  /-- A call of something other than a builtin. -/
  | call (dispatch : Dispatch) (site : String)
  deriving DecidableEq, Repr

/-! ## The interpreter -/

/-- `loops` counts the loops over the table of the detector. -/
structure State where
  detector : UnsafeDetector := {}
  loops : Nat := 0

/-- What a call reports. -/
def State.reports (h : Host) (concrete : Bool) (s : State) (dispatch : Dispatch) (site : String) :
    List UnsafePointerViolation :=
  if dispatch.safepoint concrete then s.detector.checkGCPoint h s.loops site else []

def State.step (h : Host) (s : State) : Event → State
  | .compute _ _ => s
  | .toUintptr _ _ name site hasProvenance =>
    if hasProvenance then { s with detector := s.detector.recordUintptrConversion name site } else s
  | .reflectPointer _ _ name site => { s with detector := s.detector.recordReflectConversion name site }
  | .toPointer _ _ =>
    { detector := s.detector.clearAllUintptrConversions h s.loops, loops := s.loops + 1 }
  | .call _ _ => { s with loops := s.loops + 1 }

def State.run (h : Host) (events : List Event) : State := events.foldl (State.step h) {}

/-! ## What is meant -/

/-- A conversion. -/
structure Conversion where
  number : Nat
  name : String
  site : String
  rule : UnsafeRule
  deriving DecidableEq, Repr

/-- The error that a pending conversion is, at a call; `among` is how many
there are. -/
def Conversion.violation (c : Conversion) (site : String) (among : Nat) : UnsafePointerViolation where
  rule := c.rule
  site := site
  details := "uintptr value " ++ c.name ++ " (converted at " ++ c.site ++
    ") survived to GC point without conversion back to unsafe.Pointer"
  among := among

structure Spec where
  /-- The number of conversions so far. -/
  made : Nat := 0
  pending : List Conversion := []
  /-- The conversions that a value was computed from. -/
  sources : Place → List Nat := fun _ => []

namespace Spec

/-- A new conversion. -/
def convert (s : Spec) (dst : Place) (name site : String) (rule : UnsafeRule) : Spec where
  made := s.made + 1
  pending := s.pending ++ [⟨s.made, name, site, rule⟩]
  sources := Function.update s.sources dst [s.made]

def step (s : Spec) : Event → Spec
  | .compute dst srcs => { s with sources := Function.update s.sources dst (srcs.flatMap s.sources) }
  | .toUintptr gid frame name site _ => s.convert (.register gid frame name) name site .uintptr
  | .reflectPointer gid frame name site => s.convert (.register gid frame name) name site .reflect
  | .toPointer dst src =>
    { s with
      pending := s.pending.filter fun c => c.number ∉ s.sources src
      sources := Function.update s.sources dst [] }
  | .call _ _ => s

def run (events : List Event) : Spec := events.foldl step {}

/-- What a call has to report. -/
def reports (s : Spec) (site : String) : List UnsafePointerViolation :=
  s.pending.map (·.violation site s.pending.length)

end Spec

end Giri.Uintptr
