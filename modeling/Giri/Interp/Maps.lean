/-
Giri.Interp.Maps — the map operations of a session (the cases Lookup,
MapUpdate and MakeMap of `execOp`, and the builtins delete, clear and len),
and the same operations in Go.

A map value is nil or refers to one of the maps made so far. The interpreter
keeps the entries under the keys that `toMapKey` makes, in a Go map of its
own; here both are lists of entries (`Lib/Entries.lean`). The race checks on
a map's shadow allocation are left out: they have no result.
-/
import Giri.Lib.Entries
import Giri.Value.MapKey

namespace Giri.Maps

open Value MapKey

/-- A value of map type: nil, or the number of the map. -/
abbrev MapVal : Type := Option Nat

/-- An operation on maps with scalar keys and elements. -/
inductive Op where
  /-- `ssa.MakeMap`, with its size hint. -/
  | make (reserve : Option Int)
  | assign (m : MapVal) (k v : Raw)
  /-- `ssa.Lookup`; `elem` is the element type. -/
  | lookup (m : MapVal) (k : Raw) (elem : GoType) (commaOk : Bool)
  | delete (m : MapVal) (k : Raw)
  | clear (m : MapVal)
  | len (m : MapVal)

/-- What an operation evaluates to. -/
inductive Result where
  | none
  | map (ref : Nat)
  | value (v : Raw)
  | pair (v : Raw) (ok : Bool)
  /-- A run-time panic. -/
  | panic (msg : String)

/-- The map with a number. -/
def entriesOf {κ : Type} (maps : List (List (κ × Raw))) (ref : Nat) : List (κ × Raw) :=
  maps[ref]?.getD []

/-! ## §1. The interpreter -/

/-- The errors that these operations record. -/
inductive Violation where
  | nilMapWrite (site : String) (gid : Gid)
  | invalidMakeArg (kind : String) (value : Int) (site : String) (gid : Gid)
  deriving DecidableEq, Repr

structure State where
  maps : List (List (Key × Raw)) := []
  violations : List Violation := []

/-- What a lookup evaluates to; an element that is not there is `Value{}`. -/
def lookupResult (absent : Raw) (found : Option Raw) (commaOk : Bool) : Result :=
  if commaOk then .pair (found.getD absent) found.isSome else .value (found.getD absent)

/-- `recordViolation` of a write to a nil map. -/
def State.nilWrite (s : State) (gid : Gid) (site : String) : State :=
  { s with violations := s.violations ++ [.nilMapWrite site gid] }

/-- One operation of the interpreter. -/
def step (pr : Printer) (gid : Gid) (site : String) (s : State) : Op → State × Result
  | .make reserve =>
    let violations := match reserve with
      | some n => if n < 0 then [Violation.invalidMakeArg "map-cap" n site gid] else []
      | none => []
    ({ maps := s.maps ++ [[]], violations := s.violations ++ violations }, .map s.maps.length)
  | .assign none _ _ => (s.nilWrite gid site, .none)
  | .assign (some ref) k v =>
    ({ s with
        maps := s.maps.set ref
          (Entries.insert Key.same (toMapKey pr k) v (entriesOf s.maps ref)) }, .none)
  | .lookup none _ _ commaOk => (s, lookupResult .nil none commaOk)
  | .lookup (some ref) k _ commaOk =>
    (s, lookupResult .nil (Entries.find Key.same (toMapKey pr k) (entriesOf s.maps ref)) commaOk)
  | .delete none _ => (s.nilWrite gid site, .none)
  | .delete (some ref) k =>
    ({ s with
        maps := s.maps.set ref
          (Entries.erase Key.same (toMapKey pr k) (entriesOf s.maps ref)) }, .none)
  | .clear none => (s.nilWrite gid site, .none)
  | .clear (some ref) =>
    -- `for k := range mapVal { delete(mapVal, k) }`
    ({ s with maps := s.maps.set ref (Entries.eraseAll Key.same (entriesOf s.maps ref)) }, .none)
  -- no case of the builtin is for nil
  | .len none => (s, .value .nil)
  | .len (some ref) => (s, .value (.int (BitVec.ofNat 64 (entriesOf s.maps ref).length)))

/-- A list of operations, each at a site. -/
def run (pr : Printer) (gid : Gid) : State → List (String × Op) → State × List Result
  | s, [] => (s, [])
  | s, (site, op) :: ops =>
    let (s, r) := step pr gid site s op
    let (s, rs) := run pr gid s ops
    (s, r :: rs)

/-! ## §2. Go -/

/-- Go's `==` for scalars. -/
def goEq : Raw → Raw → Bool
  | .int a, .int b => a == b
  | .float a, .float b => floatEq a b
  | .complex a b, .complex c d => floatEq a c && floatEq b d
  | .bool a, .bool b => a == b
  | .str a, .str b => a == b
  | _, _ => false

/-- The zero value of a scalar type. -/
def zeroOf (t : GoType) : Raw :=
  match t.underlying with
  | .basic k =>
    if isBoolean k then .bool false
    else if isString k then .str ""
    else if isComplex k then .complex 0 0
    else if isFloat k then .float 0
    else .int 0
  | _ => .nil

/-- The maps of a Go program. -/
abbrev GoState : Type := List (List (Raw × Raw))

/-- One operation of Go. -/
def goStep (maps : GoState) : Op → GoState × Result
  | .make _ => (maps ++ [[]], .map maps.length)
  | .assign none _ _ => (maps, .panic "assignment to entry in nil map")
  | .assign (some ref) k v => (maps.set ref (Entries.insert goEq k v (entriesOf maps ref)), .none)
  | .lookup none _ elem commaOk => (maps, lookupResult (zeroOf elem) none commaOk)
  | .lookup (some ref) k elem commaOk =>
    (maps, lookupResult (zeroOf elem) (Entries.find goEq k (entriesOf maps ref)) commaOk)
  | .delete none _ => (maps, .none)
  | .delete (some ref) k => (maps.set ref (Entries.erase goEq k (entriesOf maps ref)), .none)
  | .clear none => (maps, .none)
  | .clear (some ref) => (maps.set ref [], .none)
  | .len none => (maps, .value (.int 0))
  | .len (some ref) => (maps, .value (.int (BitVec.ofNat 64 (entriesOf maps ref).length)))

/-- A list of operations, up to a panic. -/
def goRun : GoState → List (String × Op) → GoState × List Result
  | maps, [] => (maps, [])
  | maps, (_, op) :: ops =>
    match goStep maps op with
    | (maps, .panic msg) => (maps, [.panic msg])
    | (maps, r) =>
      let (maps, rs) := goRun maps ops
      (maps, r :: rs)

end Giri.Maps
