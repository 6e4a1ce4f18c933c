/-
Giri.Memory.Atomic — the functions and methods of `sync/atomic`
(`handleAtomicCall`, `stdlib.go`).

An atomic operation works on `valueStore`, at the ALLOCATION of its address
operand. It does not look at the element store, nor at the offset, nor at
the type of the variable. The functions of one operation (`AddInt32` …
`AddUintptr`) and the method (`Add`) share one body each.
-/
import Giri.Memory.StoreTheorems
import Giri.Value.IntTheorems

namespace Giri.Memory

open Value Transition

/-- The operations of `sync/atomic`. -/
inductive AtomicOp where
  | load
  | store
  | add
  | and
  | or
  | swap
  | compareAndSwap
  deriving DecidableEq, Repr

/-- `toInt64`. -/
def toInt64 : Val Scalar → BitVec 64
  | .scalar (.int n) => n
  | .scalar (.bool b) => if b then 1 else 0
  | _ => 0

/-- `args[0].Provenance.Alloc`, 0 without a provenance. -/
def atomicTarget : List (Val Scalar) → AllocID
  | .scalar (.pointer p) :: _ => p.alloc
  | _ => 0

def setValue (m : Store Scalar) (id : AllocID) (v : Val Scalar) : Store Scalar :=
  { m with valueStore := Function.update m.valueStore id (some v) }

/-- The value an operation reads, 0 if there is none. -/
def current (m : Store Scalar) (id : AllocID) : Val Scalar :=
  (m.valueStore id).getD (.scalar (.int 0))

/-- `Add…`, `And…` and `Or…`: the new value is stored AND returned. -/
def atomicUpdate (f : BitVec 64 → BitVec 64 → BitVec 64) (m : Store Scalar)
    (args : List (Val Scalar)) : Val Scalar × Store Scalar :=
  let id := atomicTarget args
  match args[1]? with
  | some arg =>
    if id ≠ 0 then
      let newVal := .scalar (.int (f (toInt64 (current m id)) (toInt64 arg)))
      (newVal, setValue m id newVal)
    else (.scalar (.int 0), m)
  | none => (.scalar (.int 0), m)

/-- `handleAtomicCall`. -/
def handleAtomicCall (m : Store Scalar) (op : AtomicOp) (args : List (Val Scalar)) :
    Val Scalar × Store Scalar :=
  let id := atomicTarget args
  match op with
  | .load => (if id ≠ 0 then current m id else .scalar (.int 0), m)
  | .store =>
    match args[1]? with
    | some arg => (.scalar .nil, if id ≠ 0 then setValue m id arg else m)
    | none => (.scalar .nil, m)
  | .add => atomicUpdate (· + ·) m args
  | .and => atomicUpdate (· &&& ·) m args
  | .or => atomicUpdate (· ||| ·) m args
  | .swap =>
    match args[1]? with
    | some arg => if id ≠ 0 then (current m id, setValue m id arg) else (.scalar (.int 0), m)
    | none => (.scalar (.int 0), m)
  | .compareAndSwap =>
    match args[1]?, args[2]? with
    | some old, some new =>
      if id ≠ 0 then
        if toInt64 (current m id) = toInt64 old then
          (.scalar (.bool true), setValue m id new)
        else (.scalar (.bool false), m)
      else (.scalar (.bool true), m)
    | _, _ => (.scalar (.bool true), m)

/-- `concreteZero` of the non-aggregate types. Floats and complex numbers
are not modelled. -/
def scalarZero (t : GoType) : Scalar :=
  match t.underlying with
  | .basic .bool | .basic .untypedBool => .bool false
  | .basic .string | .basic .untypedString => .str ""
  | .basic b => if b.isInteger then .int 0 else .nil
  | .slice => .slice {}
  | _ => .nil

/-- The memory of a session. -/
def session (sizes : Sizes) (skipChecks trackInit : Bool) : MemConfig Scalar where
  sizes
  zero := scalarZero
  stdlibOpaque := .stdlibOpaque
  skipChecks
  trackInit

end Giri.Memory
