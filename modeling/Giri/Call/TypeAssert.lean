/-
Giri.Call.TypeAssert — type assertions of a session.

A value of an interface type is boxed: an `*InterfaceValue` has it with its
dynamic type. An assertion takes the value out of the box, and leaves it out
if the asserted type is an interface too. What is left is taken for a value of
no known type, by the next assertion and by the next method call.

What `go/types` says of a dynamic and an asserted type is `types`.
-/
import Giri.Call.RuntimePanic

namespace Giri.Call

/-- An operand of an interface type; `bare` if it is no `*InterfaceValue`. -/
inductive Iface (T V : Type) where
  | boxed (type : T) (value : V)
  | bare (value : V)
  deriving DecidableEq, Repr

/-- What is in an interface; nothing if it is nil. -/
def Iface.dynamic {T V : Type} : Iface T V → Option (T × V)
  | .boxed t v => some (t, v)
  | .bare _ => none

/-- The result of an assertion. `TypeAssertionError` names the dynamic and the
asserted type; the goroutine panics with it. -/
structure Asserted (T V : Type) where
  value : Iface T V
  ok : Bool
  violation : Option (T × T) := none
  deriving DecidableEq, Repr

section

variable {T V : Type} (types : T → T → TypeFacts) (empty : V)

/-- `ssa.TypeAssert`; `empty` is `Value{}`. -/
def typeAssert (x : Iface T V) (asserted : T) (commaOk : Bool) : Asserted T V :=
  let (concreteVal, concreteType) := match x with
    | .boxed t v => (v, some t)
    | .bare v => (v, none)
  let ok := match concreteType with
    | none => !commaOk
    | some t => typeAssertSucceeds (types t asserted)
  if commaOk then { value := .bare (if ok then concreteVal else empty), ok }
  else
    { value := .bare concreteVal
      ok
      violation := if ok then none else concreteType.map (·, asserted) }

/-- `ssa.ChangeInterface`. -/
def changeInterface : Iface T V → Iface T V
  | .boxed t v => .boxed t v
  | .bare v => .bare v

/-- An invoke call: the method, and its receiver. `none` is the end of
`execCall` for a type that is not known. -/
def invoke {M F : Type} (lookupMethod : T → M → Option F) (x : Iface T V) (m : M) :
    Option (F × V) :=
  match x with
  | .boxed t v => (lookupMethod t m).map (·, v)
  | .bare _ => none

variable (isZero : T → V → Prop)

/-- The result is Go's. An assertion succeeds iff the interface is not nil and
its dynamic type is the asserted type, or implements it. An asserted interface
has the same dynamic type and value; another type, the value. If ok is false
the value is the zero value of the type, in a form in which the interpreter has
it (`isZero`). The goroutine panics iff an assertion fails that ok is not asked
of. -/
structure Exact (x : Iface T V) (asserted : T) (commaOk : Bool) (r : Asserted T V) : Prop where
  success : r.ok = true ↔ ∃ t v, x.dynamic = some (t, v) ∧ (types t asserted).holds = true
  toInterface : r.ok = true → ∀ t v, x.dynamic = some (t, v) →
    (types t asserted).toInterface = true → r.value.dynamic = some (t, v)
  toConcrete : r.ok = true → ∀ t v, x.dynamic = some (t, v) →
    (types t asserted).toInterface = false → r.value = .bare v
  failure : commaOk = true → r.ok = false → ∃ v, r.value = .bare v ∧ isZero asserted v
  panics : r.violation.isSome = true ↔ commaOk = false ∧ r.ok = false

/-- A nil interface is asked for ok. A dynamic type is identical to the
asserted one if it may be assigned to it, and neither it nor its pointer type
implements the asserted interface. What fails, and is asked for ok, is of a
type whose zero value is `Value{}`. -/
def Regular (x : Iface T V) (asserted : T) (commaOk : Bool) : Prop :=
  match x.dynamic with
  | none => commaOk = true ∧ isZero asserted empty
  | some (t, _) =>
    (if (types t asserted).toInterface then
      (types t asserted).implements = false ∧ (types t asserted).pointerImplements = false
    else (types t asserted).identical = true ∨ (types t asserted).assignable = false) ∧
    (commaOk = true → (types t asserted).identical = false → isZero asserted empty)

/-- An assertion of a value that is in its box. -/
theorem typeAssert_boxed (t : T) (v : V) (asserted : T) (commaOk : Bool) :
    typeAssert types empty (.boxed t v) asserted commaOk =
      let ok := typeAssertSucceeds (types t asserted)
      { value := .bare (if commaOk && !ok then empty else v)
        ok
        violation := if commaOk || ok then none else some (t, asserted) } := by
  cases commaOk <;> cases h : typeAssertSucceeds (types t asserted) <;> simp [typeAssert, h]

theorem exact_boxed (t : T) (v : V) (asserted : T) (commaOk : Bool) :
    Exact types isZero (.boxed t v) asserted commaOk
      (typeAssert types empty (.boxed t v) asserted commaOk) ↔
    let ok := typeAssertSucceeds (types t asserted)
    ok = (types t asserted).holds ∧ (ok = true → (types t asserted).toInterface = false) ∧
      (commaOk = true → ok = false → isZero asserted empty) := by
  rw [typeAssert_boxed]
  constructor
  · intro h
    refine ⟨Bool.eq_iff_iff.mpr ?_, fun hok => ?_, fun hc hok => ?_⟩
    · simpa [Iface.dynamic] using h.success
    · by_contra hto
      cases h.toInterface hok t v rfl (by simpa using hto)
    · obtain ⟨w, hw, hzero⟩ := h.failure hc hok
      cases hw
      simpa [hc, hok] using hzero
  · rintro ⟨hholds, hto, hzero⟩
    refine ⟨by simp [Iface.dynamic, hholds], ?_, ?_, fun hc hok => ?_, ?_⟩
    · rintro hok _ _ ⟨⟩ hiface
      cases (hto hok).symm.trans hiface
    · rintro hok _ _ ⟨⟩ -
      simp_all
    · exact ⟨_, rfl, by simpa [hc, show typeAssertSucceeds _ = false from hok] using hzero hc hok⟩
    · cases commaOk <;> cases typeAssertSucceeds (types t asserted) <;> simp

end

/-- A number, a defined slice type and `[]int`; an interface that only
pointers to these implement, and `any`. -/
inductive SomeType where
  | number
  | list
  | ints
  | reader
  | any
  deriving DecidableEq, Repr

def someTypes (t a : SomeType) : TypeFacts where
  identical := t == a && !(a == .reader || a == .any)
  toInterface := a == .reader || a == .any
  implements := a == .any
  pointerImplements := a == .reader || a == .any
  assignable := t == a || t == .list && a == .ints
  concrete := by cases t <;> cases a <;> decide

def assertSome : Iface SomeType Value.Scalar → SomeType → Bool → Asserted SomeType Value.Scalar :=
  typeAssert someTypes .nil

end Giri.Call
