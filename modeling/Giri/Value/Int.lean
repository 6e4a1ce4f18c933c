/-
Giri.Value.Int — typed integer operations (`concrete.go`, `session.go`).

An integer of any type is held in an `int64`, here a word of 64 bits:
signed values are sign-extended, unsigned ones zero-extended, a `uint64` is
its bit pattern. The operations work on the carrier and `wrap` the result.

Go's `/` and `%` on `int64` are `sdiv` and `srem`, on `uint64` they are the
unsigned ones; `>>` is `sshiftRight` or `>>>`. A shift count is a `uint64`,
so it is read as a natural number.
-/
import Giri.Value.Basic

namespace Giri.Value

/-- `intKind`: bit width and signedness of an integer type. -/
structure IntKind where
  bits : Nat
  unsigned : Bool
  deriving DecidableEq, Repr

/-- `types.IsInteger`. -/
def BasicKind.isInteger : BasicKind → Bool
  | .int | .int8 | .int16 | .int32 | .int64 | .uint | .uint8 | .uint16 | .uint32 | .uint64
  | .uintptr | .untypedInt | .untypedRune => true
  | _ => false

/-- `basicIntKind`. -/
def basicIntKind (t : GoType) : Option IntKind :=
  match t.underlying with
  | .basic b =>
    if b.isInteger then
      some (match b with
        | .int8 => ⟨8, false⟩
        | .int16 => ⟨16, false⟩
        | .int32 => ⟨32, false⟩
        | .uint8 => ⟨8, true⟩
        | .uint16 => ⟨16, true⟩
        | .uint32 => ⟨32, true⟩
        | .uint | .uint64 | .uintptr => ⟨64, true⟩
        | _ => ⟨64, false⟩)
    else none
  | _ => none

/-- `intKind.wrap`. -/
def IntKind.wrap (k : IntKind) (v : BitVec 64) : BitVec 64 :=
  match k.bits with
  | 8 => if k.unsigned then (v.setWidth 8).setWidth 64 else (v.setWidth 8).signExtend 64
  | 16 => if k.unsigned then (v.setWidth 16).setWidth 64 else (v.setWidth 16).signExtend 64
  | 32 => if k.unsigned then (v.setWidth 32).setWidth 64 else (v.setWidth 32).signExtend 64
  | _ => v

/-- The operators of `token.Token` that `BinOp` has. -/
inductive Token where
  | add
  | sub
  | mul
  | quo
  | rem
  | and
  | or
  | xor
  | andNot
  | shl
  | shr
  | eql
  | neq
  | lss
  | leq
  | gtr
  | geq
  deriving DecidableEq, Repr

/-- The integer branch of `concreteBinOp`. -/
def intBinOp (k : IntKind) (op : Token) (x y : BitVec 64) : Scalar :=
  match op with
  | .add => .int (k.wrap (x + y))
  | .sub => .int (k.wrap (x - y))
  | .mul => .int (k.wrap (x * y))
  | .quo =>
    if y = 0 then .int 0
    else if k.unsigned then .int (k.wrap (x / y)) else .int (k.wrap (x.sdiv y))
  | .rem =>
    if y = 0 then .int 0
    else if k.unsigned then .int (k.wrap (x % y)) else .int (k.wrap (x.srem y))
  | .and => .int (x &&& y)
  | .or => .int (x ||| y)
  | .xor => .int (k.wrap (x ^^^ y))
  | .andNot => .int (k.wrap (x &&& ~~~y))
  | .shl =>
    let cnt := y.toNat
    if k.bits ≤ cnt then .int 0 else .int (k.wrap (x <<< cnt))
  | .shr =>
    let cnt := y.toNat
    if k.unsigned then
      if 64 ≤ cnt then .int 0 else .int (k.wrap (x >>> cnt))
    else
      -- arithmetic shift saturates at the sign
      let cnt := if 64 ≤ cnt then 63 else cnt
      .int (x.sshiftRight cnt)
  | .eql => .bool (x == y)
  | .neq => .bool (x != y)
  | .lss => .bool (if k.unsigned then x.ult y else x.slt y)
  | .leq => .bool (if k.unsigned then x.ule y else x.sle y)
  | .gtr => .bool (if k.unsigned then y.ult x else y.slt x)
  | .geq => .bool (if k.unsigned then y.ule x else y.sle x)

/-- `evalBinOp`, the untyped evaluator. -/
def evalBinOp (op : Token) : Scalar → Scalar → Scalar
  | .int x, .int y =>
    match op with
    | .add => .int (x + y)
    | .sub => .int (x - y)
    | .mul => .int (x * y)
    | .quo => if y = 0 then .int 0 else .int (x.sdiv y)
    | .rem => if y = 0 then .int 0 else .int (x.srem y)
    | .and => .int (x &&& y)
    | .or => .int (x ||| y)
    | .xor => .int (x ^^^ y)
    | .andNot => .int (x &&& ~~~y)
    | .shl => .int (x <<< y.toNat)
    | .shr => .int (x.sshiftRight y.toNat)
    | .eql => .bool (x == y)
    | .neq => .bool (x != y)
    | .lss => .bool (x.slt y)
    | .leq => .bool (x.sle y)
    | .gtr => .bool (y.slt x)
    | .geq => .bool (y.sle x)
  | .bool x, .bool y =>
    match op with
    | .eql => .bool (x == y)
    | .neq => .bool (x != y)
    | _ => .nil
  | .str x, .str y =>
    match op with
    | .add => .str (x ++ y)
    | .eql => .bool (x == y)
    | .neq => .bool (x != y)
    | .lss => .bool (decide (x < y))
    | .leq => .bool (decide (x ≤ y))
    | .gtr => .bool (decide (y < x))
    | .geq => .bool (decide (y ≤ x))
    | _ => .nil
  | _, _ => .nil

/-- `concreteBinOp`; `none` is its `ok = false`. -/
def concreteBinOp (op : Token) (x y : Scalar) (xt : GoType) : Option Scalar :=
  match basicIntKind xt with
  | some k =>
    match x, y with
    | .int x, .int y => some (intBinOp k op x y)
    | _, _ => none
  | none =>
    let r := evalBinOp op x y
    if r = .nil then none else some r

/-- `concreteEqual`; `none` is its `ok = false`. -/
def concreteEqual (x y : Scalar) : Option Bool :=
  let isNil : Scalar → Option Bool
    | .nil => some true
    | .slice sv => some sv.backing.isNone
    | _ => none
  match isNil x, isNil y with
  | some true, some b => some b
  | some b, some true => some b
  | _, _ =>
    match x, y with
    | .pointer p, .pointer q => some (p.alloc == q.alloc && p.offset == q.offset)
    | .pointer _, .nil => some false
    | .nil, .pointer _ => some false
    | _, _ => none

/-- What an instruction does that yields a value or starts a run-time
panic. -/
inductive Outcome (A : Type) where
  | value (a : A)
  | panic (msg : String)
  deriving DecidableEq, Repr

/-- `binOpConcrete`, for operands that are neither interfaces nor arrays or
structs. -/
def binOpConcrete (op : Token) (x y : Scalar) (xt yt : GoType) : Outcome Scalar :=
  let divByZero := (op = .quo ∨ op = .rem) ∧ (basicIntKind xt).isSome = true ∧ y = .int 0
  let negShift := (op = .shl ∨ op = .shr) ∧
    (basicIntKind yt).any (fun k => !k.unsigned) = true ∧
    (match y with
      | .int n => n.slt 0
      | _ => false) = true
  if divByZero then .panic "integer divide by zero"
  else if negShift then .panic "negative shift amount"
  else
    match concreteBinOp op x y xt with
    | some r => .value r
    | none =>
      match (if op = .eql ∨ op = .neq then concreteEqual x y else none) with
      | some eq => .value (.bool (eq == decide (op = .eql)))
      | none => .value (evalBinOp op x y)

/-- The unary operators that `concreteUnOp` has. -/
inductive UnToken where
  | sub
  | xor
  deriving DecidableEq, Repr

/-- `concreteUnOp`. -/
def concreteUnOp (op : UnToken) (x : Scalar) (t : GoType) : Option Scalar :=
  match basicIntKind t, x with
  | some k, .int v =>
    match op with
    | .sub => some (.int (k.wrap (-v)))
    | .xor => some (.int (k.wrap (~~~v)))
  | _, _ => none

/-- `concreteConvertNumeric`, between integer types. -/
def concreteConvertNumeric (v : Scalar) (src dst : GoType) : Option Scalar :=
  match basicIntKind src, basicIntKind dst, v with
  | some _, some dk, .int n => some (.int (dk.wrap n))
  | _, _, _ => none

/-- `convertValue` of an integer to an integer type. -/
def convertInt (n : BitVec 64) (dst : GoType) : BitVec 64 :=
  ((basicIntKind dst).map (·.wrap n)).getD n

/-- `IntegerTruncationError`; a type stands for its name. -/
structure IntegerTruncationError where
  site : String
  gid : Gid
  srcType : GoType
  dstType : GoType
  original : BitVec 64
  result : BitVec 64

/-- `intTruncationInfo` of an integer; `none` is its `truncated = false`. -/
def intTruncationInfo (n : BitVec 64) (src dst : GoType) : Option (BitVec 64 × BitVec 64) :=
  if (basicIntKind src).isNone ∨ (basicIntKind dst).isNone then none
  else
    let result := convertInt n dst
    if n ≠ result then some (n, result) else none

/-- `Convert` of an integer to an integer type, and the error it records. In
a session the branch of `concreteConvert` is taken. -/
def execConvert (concrete trackTruncation : Bool) (gid : Gid) (site : String) (n : BitVec 64)
    (src dst : GoType) : Scalar × Option IntegerTruncationError :=
  match (if concrete then concreteConvertNumeric (.int n) src dst else none) with
  | some r => (r, none)
  | none =>
    (.int (convertInt n dst),
      if trackTruncation then
        (intTruncationInfo n src dst).map fun (original, result) =>
          { site, gid, srcType := src, dstType := dst, original, result }
      else none)

end Giri.Value
