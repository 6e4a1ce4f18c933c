/-
Giri.Call.RuntimePanic — the instructions that raise run-time panics
(`execOp`, `execBuiltin`, `syncWaitGroup`).

Reporting a violation and starting a panic are two actions, and every
handler takes them, or not, on its own. An instruction stands here with its
operands resolved. `execOp` gives the violations it records and what it does
to the goroutine; `goPanics` is when Go panics. The values that the
instructions yield are the subject of `Value` and `Memory`, and are left
out.

An integer operand is a word with its type: the source reads every operand
with `toInt64`, Go reads the number the word stands for.
-/
import Giri.Call.Unwind
import Giri.Memory.Store
import Giri.Session.Run
import Giri.Value.IntTheorems

namespace Giri.Call

open Value Memory

/-! ## §1. Instructions with their operands -/

/-- An operand of an integer type. -/
structure IntOperand where
  kind : IntKind
  word : BitVec 64
  deriving DecidableEq, Repr

namespace IntOperand

/-- `toInt64`. -/
def toInt64 (n : IntOperand) : Int := n.word.toInt

/-- The number that Go sees. -/
def value (n : IntOperand) : Int := n.kind.value n.word

end IntOperand

/-- What a slice expression is applied to. -/
inductive SliceBase where
  | str (len : Nat)
  | slice (sv : SliceValue)
  /-- `Value{}` of a slice type. -/
  | nilSlice
  /-- A pointer to an array, and the length of the array. -/
  | array (len : Nat)
  | nilArray
  deriving DecidableEq, Repr

/-- What `go/types` says of the dynamic type of an interface value and the
asserted type. -/
structure TypeFacts where
  identical : Bool
  /-- The asserted type is an interface. -/
  toInterface : Bool
  implements : Bool
  /-- The pointer to the dynamic type implements the asserted one. -/
  pointerImplements : Bool
  assignable : Bool
  /-- A dynamic type is never an interface. -/
  concrete : identical = true → toInterface = false
  deriving DecidableEq, Repr

/-- A channel operand. -/
inductive ChanOperand where
  | nil
  | chan (closed : Bool)
  deriving DecidableEq, Repr

/-- An instruction, its operands resolved. -/
inductive Instr where
  | load (addr : Address Scalar) (t : GoType)
  | store (addr : Address Scalar) (val : Val Scalar) (t : GoType)
  | fieldAddr (base : Address Scalar)
  /-- `&p[i]` for a pointer to an array. -/
  | indexArrayAddr (base : Address Scalar) (len elemSize : Nat) (index : IntOperand)
  /-- `&s[i]`; a slice that is `Value{}` is `none`. -/
  | indexSliceAddr (base : Option SliceValue) (elemSize : Nat) (index : IntOperand)
  | indexArray (len elemSize : Nat) (index : IntOperand)
  | indexString (len : Nat) (index : IntOperand)
  | sliceToArrayPointer (base : Option SliceValue) (len elemSize : Nat)
  | slice (base : SliceBase) (low high max : Option IntOperand)
  | binOp (op : Token) (x y : Scalar) (xt yt : GoType)
  /-- `m[k] = v`, and whether `m` is nil. -/
  | mapUpdate (isNil : Bool)
  | makeSlice (len cap : IntOperand)
  | makeMap (reserve : Option IntOperand)
  | makeChan (size : IntOperand)
  /-- A type assertion; `none` if the interface is nil. -/
  | typeAssert (dynamic : Option TypeFacts) (commaOk : Bool)
  | send (ch : ChanOperand)
  | close (ch : ChanOperand)
  /-- `WaitGroup.Add` and `Done`, with the counter. -/
  | waitGroupAdd (counter delta : Int)
  /-- A call of a nil function value, or of a method of a nil interface. -/
  | callNil

/-! ## §2. What the handlers do -/

/-- The violations, without positions, goroutines and type names. -/
inductive Report where
  | access (err : AccessError)
  | outOfBounds (allocSize offset accessSize : Int)
  | divisionByZero
  | negativeShift (count : Int)
  | nilMapWrite
  | invalidMakeArg (kind : String) (value : Int)
  | typeAssertion
  | sendOnClosed
  | doubleClose
  | nilChannel (op : String)
  | waitGroupNegative (counter : Int)
  deriving DecidableEq, Repr

/-- What an instruction reports, and what it does to the goroutine. -/
structure Effects where
  violations : List Report := []
  fault : Fault := .none
  deriving DecidableEq, Repr

/-- A violation and a panic. -/
def Effects.panic (v : Report) (msg : String) : Effects := ⟨[v], .runtimePanic msg⟩

/-- A violation and nothing else. -/
def Effects.report (vs : List Report) : Effects := ⟨vs, .none⟩

def outOfRange : String := "index out of range"

def nilDereference : String := "invalid memory address or nil pointer dereference"

/-- `typeAssertSucceeds`. -/
def typeAssertSucceeds (f : TypeFacts) : Bool :=
  f.identical ||
    if f.toInterface then f.implements || f.pointerImplements else f.assignable

/-- The check that `ssa.IndexAddr` and `ssa.Index` make of an index. -/
def checkIndex (len : Int) (index : IntOperand) (v : Report) : Effects :=
  if index.toInt64 < 0 ∨ len ≤ index.toInt64 then .panic v outOfRange else {}

/-- `sliceStringConcrete`. -/
def sliceStringConcrete (len : Nat) (low high : Int) : Effects :=
  let high := if high < 0 then (len : Int) else high
  if low < 0 ∨ high < low ∨ len < high then .panic (.outOfBounds len high (high - low)) outOfRange
  else {}

/-- The bounds check of `ssa.Slice`, for anything but a string. -/
def checkSlice (len cap low high max : Int) : Effects :=
  let high := if high < 0 then len else high
  let max := if max < 0 then cap else max
  if low < 0 ∨ high < low ∨ max < high ∨ cap < max then
    .report [.outOfBounds cap max (high - low)]
  else {}

/-- `ssa.Slice`. A bound that is absent is 0 or -1. -/
def execSlice (base : SliceBase) (low high max : Option IntOperand) : Effects :=
  let low := (low.map (·.toInt64)).getD 0
  let high := (high.map (·.toInt64)).getD (-1)
  let max := (max.map (·.toInt64)).getD (-1)
  match base with
  | .str len => sliceStringConcrete len low high
  | .slice sv => checkSlice sv.len sv.cap low high max
  | .array len => checkSlice len len low high max
  | .nilSlice | .nilArray => {}

/-- `ssa.MakeSlice`. -/
def execMakeSlice (len cap : Int) : Effects :=
  let neg := if len < 0 then [.invalidMakeArg "slice-len" len] else []
  let negCap := if cap < 0 then [.invalidMakeArg "slice-cap" cap] else []
  -- negative sizes are replaced by 0 before they are compared
  let len := if len < 0 then 0 else len
  let cap := if cap < 0 then 0 else cap
  .report (neg ++ negCap ++ if cap < len then [.invalidMakeArg "slice-len-gt-cap" len] else [])

/-- The run-time panics of `binOpConcrete`. -/
def execBinOp (op : Token) (x y : Scalar) (xt yt : GoType) : Effects :=
  let count := match y with
    | .int n => n.toInt
    | _ => 0
  match binOpConcrete op x y xt yt with
  | .value _ => {}
  | .panic msg =>
    .panic (if op = .quo ∨ op = .rem then .divisionByZero else .negativeShift count) msg

/-- `execOp`, and the handlers it calls. -/
def execOp (cfg : MemConfig Scalar) (m : Store Scalar) : Instr → Effects
  | .load addr t =>
    let (_, err, fault) := loadConcrete cfg m addr t (cfg.sizes.sizeof t)
    ⟨err.toList.map .access, fault⟩
  | .store addr val t =>
    let (_, err, fault) := storeConcrete cfg m addr val t (cfg.sizes.sizeof t)
    ⟨err.toList.map .access, fault⟩
  | .fieldAddr .nil => .panic (.access .nilPointerDeref) nilDereference
  | .fieldAddr _ => {}
  -- the base is only looked at when the index is in range, and does not panic
  | .indexArrayAddr _ len elemSize index =>
    checkIndex len index (.outOfBounds len index.toInt64 elemSize)
  | .indexSliceAddr none elemSize index =>
    .panic (.outOfBounds 0 index.toInt64 elemSize) outOfRange
  | .indexSliceAddr (some sv) elemSize index =>
    if sv.backing.isNone then .panic (.outOfBounds sv.len index.toInt64 elemSize) outOfRange
    else checkIndex sv.len index (.outOfBounds sv.len index.toInt64 elemSize)
  | .indexArray len elemSize index =>
    checkIndex len index
      (.outOfBounds (len * elemSize) (index.toInt64 * elemSize) elemSize)
  | .indexString len index => checkIndex len index (.outOfBounds len index.toInt64 1)
  | .sliceToArrayPointer base len elemSize =>
    let have_ := (base.getD {}).len
    if have_ < len then .panic (.outOfBounds (have_ * elemSize) 0 (len * elemSize)) outOfRange
    else {}
  | .slice base low high max => execSlice base low high max
  | .binOp op x y xt yt => execBinOp op x y xt yt
  | .mapUpdate isNil => if isNil then .report [.nilMapWrite] else {}
  | .makeSlice len cap => execMakeSlice len.toInt64 cap.toInt64
  | .makeMap reserve =>
    match reserve with
    | some n => if n.toInt64 < 0 then .report [.invalidMakeArg "map-cap" n.toInt64] else {}
    | none => {}
  | .makeChan size =>
    if size.toInt64 < 0 then .report [.invalidMakeArg "chan-cap" size.toInt64] else {}
  | .typeAssert dynamic commaOk =>
    let ok := match dynamic with
      | none => !commaOk
      | some f => typeAssertSucceeds f
    if commaOk || ok then {} else .panic .typeAssertion "interface conversion"
  | .send .nil => .report [.nilChannel "send"]
  | .send (.chan closed) =>
    if closed then .panic .sendOnClosed "send on closed channel" else {}
  | .close .nil => .panic (.nilChannel "close") "close of nil channel"
  | .close (.chan closed) =>
    if closed then .panic .doubleClose "close of closed channel" else {}
  | .waitGroupAdd counter delta =>
    if counter + delta < 0 then .report [.waitGroupNegative (counter + delta)] else {}
  | .callNil => {}

/-! ## §3. When Go panics -/

/-- The length of a slice, 0 for a nil one. -/
def sliceLen (base : Option SliceValue) : Int := (base.getD {}).len

/-- The index is not one of `len` elements. -/
def BadIndex (len : Int) (index : IntOperand) : Prop := index.value < 0 ∨ len ≤ index.value

/-- The bounds of a slice expression are not in order, where an absent one
takes its default. -/
def BadBounds (len cap : Int) (low high max : Option IntOperand) : Prop :=
  let low := (low.map (·.value)).getD 0
  let high := (high.map (·.value)).getD len
  let max := (max.map (·.value)).getD cap
  ¬(0 ≤ low ∧ low ≤ high ∧ high ≤ max ∧ max ≤ cap)

/-- The dynamic type is the asserted type, or implements it. -/
def TypeFacts.holds (f : TypeFacts) : Bool :=
  if f.toInterface then f.implements else f.identical

/-- Go raises a run-time panic at the instruction. The size of a map is a
hint, and may be anything. -/
def goPanics : Instr → Prop
  | .load addr _ => addr = .nil
  | .store addr _ _ => addr = .nil
  | .fieldAddr base => base = .nil
  | .indexArrayAddr base len _ index => base = .nil ∨ BadIndex len index
  | .indexSliceAddr base _ index => BadIndex (sliceLen base) index
  | .indexArray len _ index => BadIndex len index
  | .indexString len index => BadIndex len index
  | .sliceToArrayPointer base len _ => sliceLen base < len
  | .slice (.str len) low high _ => BadBounds len len low high none
  | .slice (.slice sv) low high max => BadBounds sv.len sv.cap low high max
  | .slice .nilSlice low high max => BadBounds 0 0 low high max
  | .slice (.array len) low high max => BadBounds len len low high max
  | .slice .nilArray _ _ _ => True
  | .binOp op _ y xt yt =>
    ((op = .quo ∨ op = .rem) ∧ ∃ k n, basicIntKind xt = some k ∧ y = .int n ∧ k.value n = 0) ∨
    ((op = .shl ∨ op = .shr) ∧ ∃ k n, basicIntKind yt = some k ∧ y = .int n ∧ k.value n < 0)
  | .mapUpdate isNil => isNil = true
  | .makeSlice len cap => len.value < 0 ∨ cap.value < len.value
  | .makeMap _ => False
  | .makeChan size => size.value < 0
  | .typeAssert dynamic commaOk => commaOk = false ∧ dynamic.any (·.holds) = false
  | .send ch => ch = .chan true
  | .close ch => ch = .nil ∨ ch = .chan true
  | .waitGroupAdd counter delta => counter + delta < 0
  | .callNil => True

/-! ## §4. The goroutine and the outcome -/

namespace Goroutine

variable {N W : Type}

/-- The frame on top is at an instruction. -/
def atInstr (s : Goroutine N String W) : Bool :=
  match s.stack with
  | f :: _ => f.inBlocks && !s.stopped && !s.inProbe
  | [] => false

/-- The goroutine executes an instruction with these effects. -/
def execInstr (env : N → W → W) (s : Goroutine N String W) (e : Effects) :
    Option (Goroutine N String W) :=
  if s.atInstr then
    match e.fault with
    | .none => some s
    | .runtimePanic msg => s.step env (.panic ("runtime error: " ++ msg))
    | .halt => s.step env .halt
  else none

end Goroutine

/-- The goroutines of a call when none can run: the one that `Session.call`
started, as it left the call's function, and those started by the program. -/
structure Finished (N W : Type) where
  entry : Goroutine N String W
  spawned : List (Goroutine N String W)
  deadlock : Bool := false
  exhausted : Bool := false
  /-- The results and arguments could be unmarshalled. -/
  known : Bool := true

namespace Finished

variable {N W : Type} (c : Finished N W)

/-- `halted` in `Session.call`. Nothing reads the goroutines started by the
program. -/
def halted : Bool := c.entry.stopped || c.deadlock

/-- The outcome that `Run` gives the call. -/
def outcome : Session.Outcome :=
  if c.exhausted then .exhausted
  else if c.halted then .panicked
  else if c.known then .returned
  else .unknown

end Finished

end Giri.Call
