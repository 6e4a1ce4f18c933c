/-
Giri.Value.MapKey — the keys of interpreted maps (`toMapKey` and
`valueFromMapKey` in exec.go).

A map of the program is a Go map of the interpreter, with keys of type
`interface{}`. Integers, floats, booleans and strings are keys as they are;
every other value is replaced by its TEXT, the one that `fmt` prints for
`%v`. What it prints of a pointer, an interface value or an aggregate is in
§2: the fields of the object, with the ADDRESS in the interpreter's own
memory for each pointer inside it.

`denote` says which Go value a value of the interpreter stands for.
-/
import Mathlib.Algebra.Ring.Nat
import Giri.Memory.Layout
import Giri.Value.Int

namespace Giri.MapKey

open Value Memory

/-! ## §1. Values -/

/-- A `*shadow.Pointer`: the address of the object, and its fields.
`DerivedFrom` is an address too. -/
structure PointerObj where
  addr : Nat
  place : Pointer
  derivedFrom : Option Nat
  deriving DecidableEq, Repr

/-- `Value.Raw`, as far as map keys go. Floats are their bits. -/
inductive Raw where
  /-- A nil interface: nil, or not known. -/
  | nil
  | int (v : BitVec 64)
  | float (bits : BitVec 64)
  | complex (re im : BitVec 64)
  | bool (b : Bool)
  | str (s : String)
  | pointer (p : PointerObj)
  /-- An `*InterfaceValue` at `addr`; `prov` is where the provenance of its
  value is. -/
  | iface (addr : Nat) (type : GoType) (value : Raw) (prov : Option Nat)
  /-- An `*aggregateValue` at `addr`, with the provenances of its values. -/
  | agg (addr : Nat) (leaves : List Leaf) (vals : List Raw) (provs : List (Option Nat))
      (zero : Bool)
  /-- `stdlibOpaque`. -/
  | stdlibOpaque

/-- The zero value of every array and struct type. -/
def zeroAggregate (addr : Nat) : Raw := .agg addr [] [] [] true

/-! ## §2. Text -/

/-- What the text of a value depends on besides the value: how floats and
types are printed, and where the interpreter's types are in its memory. -/
structure Printer where
  floatText : BitVec 64 → String
  complexText : BitVec 64 → BitVec 64 → String
  typeString : GoType → String
  typeAddr : GoType → Nat

/-- An address in hexadecimal. -/
def hexText (addr : Nat) : String := "0x" ++ String.ofList (Nat.toDigits 16 addr)

/-- A pointer that is not at the top. -/
def ptrText : Option Nat → String
  | none => "<nil>"
  | some addr => hexText addr

/-- A value that is not at the top: an object behind a pointer is its
address. -/
def rawText (pr : Printer) : Raw → String
  | .nil => "<nil>"
  | .int v => toString v.toInt
  | .float bits => pr.floatText bits
  | .complex re im => pr.complexText re im
  | .bool b => toString b
  | .str s => s
  | .pointer p => hexText p.addr
  | .iface addr _ _ _ => hexText addr
  | .agg addr _ _ _ _ => hexText addr
  | .stdlibOpaque => "\x7b\x7d"

/-- A `Value` inside another object. -/
def valueText (pr : Printer) (raw : Raw) (prov : Option Nat) : String :=
  "\x7b" ++ rawText pr raw ++ " " ++ ptrText prov ++ "\x7d"

/-- A `leaf`. Its type is printed as an address: the field is not exported. -/
def leafText (pr : Printer) (l : Leaf) : String :=
  "\x7b" ++ toString l.off ++ " " ++ hexText (pr.typeAddr l.type) ++ "\x7d"

/-- A slice. -/
def listText (texts : List String) : String :=
  "[" ++ " ".intercalate texts ++ "]"

/-- `fmt.Sprintf("%v", raw)`: an object behind a pointer at the top is its
fields. -/
def sprint (pr : Printer) : Raw → String
  | .pointer p =>
    "&\x7b" ++ toString p.place.alloc ++ " " ++ toString p.place.offset ++ " " ++
      ptrText p.derivedFrom ++ "\x7d"
  | .iface _ type value prov =>
    "&\x7b" ++ pr.typeString type ++ " " ++ valueText pr value prov ++ "\x7d"
  | .agg _ leaves vals provs zero =>
    "&\x7b" ++ listText (leaves.map (leafText pr)) ++ " " ++
      listText ((vals.zip provs).map fun v => valueText pr v.1 v.2) ++ " " ++ toString zero ++ "\x7d"
  | raw => rawText pr raw

/-! ## §3. Keys -/

/-- A key: an `interface{}` that is nil or holds one of four types. -/
inductive Key where
  | nil
  | int (v : BitVec 64)
  | float (bits : BitVec 64)
  | bool (b : Bool)
  | str (s : String)
  deriving DecidableEq, Repr

/-- A float that is not a number. -/
def isNaN (bits : BitVec 64) : Bool :=
  bits.toNat / 2 ^ 52 % 2048 == 2047 && bits.toNat % 2 ^ 52 != 0

/-- `==` of floats: a NaN is not equal to itself, and the two zeros are
equal. -/
def floatEq (a b : BitVec 64) : Bool :=
  !isNaN a && !isNaN b && (a == b || a <<< 1 == 0 && b <<< 1 == 0)

/-- `==` of two keys, which is what the interpreter's map goes by. -/
def Key.same : Key → Key → Bool
  | .nil, .nil => true
  | .int a, .int b => a == b
  | .float a, .float b => floatEq a b
  | .bool a, .bool b => a == b
  | .str a, .str b => a == b
  | _, _ => false

/-- `toMapKey`. -/
def toMapKey (pr : Printer) : Raw → Key
  | .nil => .nil
  | .int v => .int v
  | .float bits => .float bits
  | .bool b => .bool b
  | .str s => .str s
  | raw => .str (sprint pr raw)

/-- `valueFromMapKey`. -/
def valueFromMapKey : Key → Raw
  | .int v => .int v
  | .float bits => .float bits
  | .bool b => .bool b
  | .str s => .str s
  | .nil => .str "<nil>"

/-! ## §4. Go values -/

/-- The values of comparable Go types. An aggregate is its leaves. -/
inductive GoVal where
  | int (v : BitVec 64)
  | float (bits : BitVec 64)
  | complex (re im : BitVec 64)
  | bool (b : Bool)
  | str (s : String)
  | pointer (place : Option Pointer)
  | nilIface
  | iface (type : GoType) (value : GoVal)
  | agg (leaves : List GoVal)

mutual

/-- Go's `==`. -/
def GoVal.Equal : GoVal → GoVal → Prop
  | .int a, .int b => a = b
  | .float a, .float b => floatEq a b = true
  | .complex a b, .complex c d => floatEq a c = true ∧ floatEq b d = true
  | .bool a, .bool b => a = b
  | .str a, .str b => a = b
  | .pointer p, .pointer q => p = q
  | .nilIface, .nilIface => True
  | .iface t a, .iface u b => t = u ∧ a.Equal b
  | .agg as, .agg bs => GoVal.EqualAll as bs
  | _, _ => False

/-- All leaves are equal. -/
def GoVal.EqualAll : List GoVal → List GoVal → Prop
  | [], [] => True
  | a :: as, b :: bs => a.Equal b ∧ GoVal.EqualAll as bs
  | _, _ => False

end

/-- `types.IsBoolean`. -/
def isBoolean : BasicKind → Bool
  | .bool | .untypedBool => true
  | _ => false

/-- `types.IsString`. -/
def isString : BasicKind → Bool
  | .string | .untypedString => true
  | _ => false

/-- `types.IsFloat`. -/
def isFloat : BasicKind → Bool
  | .float32 | .float64 | .untypedFloat => true
  | _ => false

/-- `types.IsComplex`. -/
def isComplex : BasicKind → Bool
  | .complex64 | .complex128 | .untypedComplex => true
  | _ => false

/-- The zero value of a leaf type. -/
def zeroVal (t : GoType) : Option GoVal :=
  match t.underlying with
  | .basic k =>
    if isBoolean k then some (.bool false)
    else if isString k then some (.str "")
    else if isComplex k then some (.complex 0 0)
    else if isFloat k then some (.float 0)
    else if k.isInteger then some (.int 0)
    else some (.pointer none)
  | .pointer => some (.pointer none)
  | .interface => some .nilIface
  | _ => none

mutual

/-- The Go value of type `t` that a value of the interpreter stands for;
`none` if it is not a known value of that type. -/
def denote (sz : Sizes) (t : GoType) : Raw → Option GoVal
  | .nil =>
    match t.underlying with
    | .pointer => some (.pointer none)
    | .basic .unsafePointer => some (.pointer none)
    | .interface => some .nilIface
    | _ => none
  | .int v =>
    match basicIntKind t with
    | some k => if k.wrap v = v then some (.int v) else none
    | none => none
  | .float bits =>
    match t.underlying with
    | .basic k => if isFloat k then some (.float bits) else none
    | _ => none
  | .complex re im =>
    match t.underlying with
    | .basic k => if isComplex k then some (.complex re im) else none
    | _ => none
  | .bool b =>
    match t.underlying with
    | .basic k => if isBoolean k then some (.bool b) else none
    | _ => none
  | .str s =>
    match t.underlying with
    | .basic k => if isString k then some (.str s) else none
    | _ => none
  | .pointer p =>
    match t.underlying with
    | .pointer => some (.pointer (some p.place))
    | .basic .unsafePointer => some (.pointer (some p.place))
    | _ => none
  | .iface _ type value _ =>
    match t.underlying with
    | .interface => (denote sz type value).map (.iface type)
    | _ => none
  | .agg _ _ vals _ zero =>
    if isAggregateType t then
      if zero then ((layout sz t).mapM fun l => zeroVal l.type).map .agg
      else (denoteAll sz (layout sz t) vals).map .agg
    else none
  | .stdlibOpaque => none

/-- The leaves of an aggregate. -/
def denoteAll (sz : Sizes) : List Leaf → List Raw → Option (List GoVal)
  | [], [] => some []
  | l :: ls, v :: vs =>
    match denote sz l.type v, denoteAll sz ls vs with
    | some x, some xs => some (x :: xs)
    | _, _ => none
  | _, _ => none

end

end Giri.MapKey
