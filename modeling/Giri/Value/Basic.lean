/-
Giri.Value.Basic — Go types and the values of the interpreter, as far as
the concrete mode looks into them (`interpreter.go`, `concrete.go`).

A `Value` of the source is a `Raw` of any Go type plus a provenance. Here
it is a `Scalar`, or an array or struct built of scalars
(`Memory/Layout.lean`). Floats, complex numbers and native objects are left
out: nothing that is proved depends on them.

Reference types do not carry their element type, which may be recursive.
The functions that need it get it as an argument, as the source does from
the instruction.
-/
import Giri.Basic

namespace Giri.Value

/-- `types.BasicKind`. -/
inductive BasicKind where
  | bool
  | int
  | int8
  | int16
  | int32
  | int64
  | uint
  | uint8
  | uint16
  | uint32
  | uint64
  | uintptr
  | float32
  | float64
  | complex64
  | complex128
  | string
  | unsafePointer
  | untypedBool
  | untypedInt
  | untypedRune
  | untypedFloat
  | untypedComplex
  | untypedString
  | untypedNil
  deriving DecidableEq, Repr

/-- `types.Type`. -/
inductive GoType where
  | basic (kind : BasicKind)
  | pointer
  | slice
  | map
  | chan
  | func
  | interface
  | array (len : Nat) (elem : GoType)
  | struct (fields : List GoType)
  | named (name : String) (underlying : GoType)
  deriving Repr

/-- `Type.Underlying`. -/
def GoType.underlying : GoType → GoType
  | .named _ t => t.underlying
  | t => t

/-- `shadow.Pointer`. -/
structure Pointer where
  alloc : AllocID
  offset : Int
  deriving DecidableEq, Repr

/-- `SliceValue`. -/
structure SliceValue where
  backing : Option Pointer := none
  len : Int := 0
  cap : Int := 0
  deriving DecidableEq, Repr

/-- A value that is neither an array nor a struct. A pointer is its own
provenance. -/
inductive Scalar where
  /-- `Value{}`: nil, or a value the interpreter could not compute. -/
  | nil
  | int (v : BitVec 64)
  | bool (b : Bool)
  | str (s : String)
  | pointer (p : Pointer)
  | slice (sv : SliceValue)
  | chan (id : Nat)
  /-- `stdlibOpaque`: the result of an intercept, not known. -/
  | stdlibOpaque
  deriving DecidableEq, Repr

end Giri.Value
