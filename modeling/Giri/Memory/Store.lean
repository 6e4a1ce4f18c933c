/-
Giri.Memory.Store — the concrete memory of a session (`concrete.go`,
`interpreter.go`, `shadow/memory.go`).

A value is kept in the ELEMENT STORE, `elems`, leaf by leaf at the address
of the leaf. Beside it stand the shadow allocations, which every access is
checked against, and `valueStore`, the last value stored at offset 0 of an
allocation. The element store never looks into a leaf, so the values of
non-aggregate types are a parameter `S` here, with the zero value of every
type.

Not modelled: source positions and type names, the access log of verbose
mode, the detectors (they record violations and change no value), and arena
escapes.

`Op` and `step` put the accesses together: programs allocate, derive
addresses of parts, load, store and copy.
-/
import Giri.Detector.Race
import Giri.Memory.Layout

namespace Giri.Memory

open Value
open Detector (AccessKind)

/-- A field or element number for every level. -/
abbrev Path : Type := List Nat

/-- `Value`, in concrete mode. -/
inductive Val (S : Type) where
  | scalar (s : S)
  /-- `aggregateValue`: an array or struct, its leaves in layout order. -/
  | aggregate (leaves : List Leaf) (vals : List (Val S))
  /-- `zeroAggregate`: the zero value of every array and struct type. -/
  | zeroAggregate

/-- What a session is set up with. -/
structure MemConfig (S : Type) where
  sizes : Sizes
  /-- `concreteZero` of a type that is neither an array nor a struct. -/
  zero : GoType → S
  stdlibOpaque : S
  skipChecks : Bool := false
  trackInit : Bool := false

/-- `shadow.Allocation`. `init` is `InitBits`, a bit for every byte. -/
structure Allocation where
  size : Nat
  freed : Bool := false
  init : Int → Bool := fun _ => false

/-- The errors of an access. -/
inductive AccessError where
  /-- `InvalidAccessError`, "dangling pointer". -/
  | invalidAccess (alloc : AllocID)
  | useAfterFree (alloc : AllocID)
  | outOfBounds (alloc : AllocID) (allocSize : Nat) (offset : Int) (accessSize : Nat)
  | uninitializedRead (alloc : AllocID) (offset : Int)
  | nilPointerDeref
  | forgedPointer
  deriving DecidableEq, Repr

/-- What an access does to the goroutine. -/
inductive Fault where
  | none
  | runtimePanic (msg : String)
  | halt
  deriving DecidableEq, Repr

/-- The address operand of an access. -/
inductive Address (S : Type) where
  /-- No provenance and no `Raw`. -/
  | nil
  /-- A pointer of an intercept, without provenance, and what it points at. -/
  | untracked (target : Val S)
  | tracked (p : Pointer)

/-- The part of the interpreter that accesses change. -/
structure Store (S : Type) where
  /-- The counter of `allocate`: that of the shadow memory, or, if the checks
  are skipped, `cs.nextAlloc`. -/
  nextAlloc : Nat := 0
  /-- The counter of the shadow memory if the checks are skipped: only
  `arena.New` then uses it. -/
  arenaNext : Nat := 0
  allocations : AllocID → Option Allocation := fun _ => none
  elems : AllocID → Int → Option (Val S) := fun _ _ => none
  valueStore : AllocID → Option (Val S) := fun _ => none

variable {S : Type}

variable (cfg : MemConfig S) (m : Store S) (p : Pointer) (t : GoType)

/-- `concreteZero`. -/
def concreteZero : Val S :=
  if isAggregateType t then .zeroAggregate else .scalar (cfg.zero t)

/-! ## §1. The shadow memory -/

/-- `allocate`. Without checks there is no shadow allocation, only an ID. -/
def allocate (size : Nat) : AllocID × Store S :=
  let id := m.nextAlloc + 1
  (id,
    { m with
      nextAlloc := id
      allocations :=
        if cfg.skipChecks then m.allocations
        else Function.update m.allocations id (some { size }) })

/-- `handleAlloc`, for `arena.New`: eight bytes of shadow memory, whatever
the type, also if the checks are skipped. -/
def handleAlloc : AllocID × Store S :=
  if cfg.skipChecks then
    (m.arenaNext + 1,
      { m with
        arenaNext := m.arenaNext + 1
        allocations := Function.update m.allocations (m.arenaNext + 1) (some { size := 8 }) })
  else allocate cfg m 8

/-- `Memory.CheckAccess`. -/
def checkAccess (size : Nat) (kind : AccessKind) : Option AccessError :=
  match m.allocations p.alloc with
  | none => some (.invalidAccess p.alloc)
  | some al =>
    if al.freed then some (.useAfterFree p.alloc)
    else if p.offset < 0 ∨ p.offset + size > al.size then
      some (.outOfBounds p.alloc al.size p.offset size)
    else if kind = .read ∧ cfg.trackInit then
      ((List.range size).find? fun i : Nat => !al.init (p.offset + i)).map fun i : Nat =>
        .uninitializedRead p.alloc (p.offset + i)
    else none

/-- `Memory.MarkInitialized`. -/
def markInitialized (size : Nat) : Store S :=
  match cfg.trackInit, m.allocations p.alloc with
  | true, some al =>
    { m with
      allocations := Function.update m.allocations p.alloc (some
        { al with
          init := fun b => al.init b || decide (p.offset ≤ b ∧ b < p.offset + size) }) }
  | _, _ => m

/-- `handleLoad` through a pointer with provenance, as far as
`loadConcrete` uses it: its value is not looked at. -/
def handleLoad (size : Nat) : Option AccessError :=
  if cfg.skipChecks then none else checkAccess cfg m p size .read

/-- The stores `handleStore` and `storeConcrete` keep track of by
allocation: those at offset 0. -/
def setValueStore (val : Val S) : Store S :=
  if p.offset = 0 then
    { m with valueStore := Function.update m.valueStore p.alloc (some val) }
  else m

/-- `handleStore` through a pointer with provenance. -/
def handleStore (val : Val S) (size : Nat) : Store S × Option AccessError :=
  if cfg.skipChecks then (setValueStore m p val, none)
  else
    match checkAccess cfg m p size .write with
    | some err => (m, some err)
    | none => (setValueStore (markInitialized cfg m p size) p val, none)

/-! ## §2. The element store -/

/-- The value at an address of the element store, or the zero value. -/
def elemOrZero (alloc : AllocID) (off : Int) (t : GoType) : Val S :=
  match m.elems alloc off with
  | some v => v
  | none => concreteZero cfg t

def setElem (alloc : AllocID) (off : Int) (v : Val S) : Store S :=
  { m with elems := Function.update m.elems alloc (Function.update (m.elems alloc) off (some v)) }

/-- `gatherAggregate`. -/
def gatherAggregate : Val S :=
  let ls := layout cfg.sizes t
  .aggregate ls (ls.map fun l => elemOrZero cfg m p.alloc (p.offset + l.off) l.type)

/-- What `scatterAggregate` writes to the `i`-th of `n` leaves. A value that
is not a known aggregate of that many leaves writes opaque ones. -/
def scatterLeaf (val : Val S) (n i : Nat) (l : Leaf) : Val S :=
  match val with
  | .scalar _ => .scalar cfg.stdlibOpaque
  | .zeroAggregate => concreteZero cfg l.type
  | .aggregate _ vals => if vals.length = n then vals.getD i (.scalar cfg.stdlibOpaque)
      else .scalar cfg.stdlibOpaque

/-- The loop of `scatterAggregate`, at leaf `i` of `n`. -/
def scatterLoop (cfg : MemConfig S) (p : Pointer) (val : Val S) (n : Nat) :
    Store S → Nat → List Leaf → Store S
  | m, _, [] => m
  | m, i, l :: ls =>
    scatterLoop cfg p val n
      (setElem m p.alloc (p.offset + l.off) (scatterLeaf cfg val n i l)) (i + 1) ls

/-- `scatterAggregate`. -/
def scatterAggregate (val : Val S) : Store S :=
  let ls := layout cfg.sizes t
  scatterLoop cfg p val ls.length m 0 ls

/-- `loadConcrete`. -/
def loadConcrete (addr : Address S) (t : GoType) (size : Nat) :
    Val S × Option AccessError × Fault :=
  match addr with
  | .nil =>
    (.scalar (cfg.zero .pointer), some .nilPointerDeref,
      .runtimePanic "invalid memory address or nil pointer dereference")
  | .untracked target => (target, none, .none)
  | .tracked p =>
    if p.alloc = 0 then (concreteZero cfg t, some .forgedPointer, .halt)
    else
      match handleLoad cfg m p size with
      | some err => (concreteZero cfg t, some err, .none)
      | none =>
        if isAggregateType t then (gatherAggregate cfg m p t, none, .none)
        else (elemOrZero cfg m p.alloc p.offset t, none, .none)

/-- `storeConcrete`. -/
def storeConcrete (addr : Address S) (val : Val S)
    (t : GoType) (size : Nat) : Store S × Option AccessError × Fault :=
  match addr with
  | .nil =>
    (m, some .nilPointerDeref,
      .runtimePanic "invalid memory address or nil pointer dereference")
  | .untracked _ => (m, none, .none)
  | .tracked p =>
    if p.alloc = 0 then (m, some .forgedPointer, .halt)
    else
      match handleStore cfg m p val size with
      | (m, some err) => (m, some err, .none)
      | (m, none) =>
        if isAggregateType t then (scatterAggregate cfg m p t val, none, .none)
        else (setElem m p.alloc p.offset val, none, .none)

/-! ## §3. Programs -/

/-- `derive`, `DerivePointer`. -/
def derive (base : Pointer) (delta : Int) : Pointer := ⟨base.alloc, base.offset + delta⟩

/-- The address of a part, derived from the address of the whole by
`ssa.FieldAddr` and `ssa.IndexAddr`, and the type of the part. `none` if a
step is not one of the type, or panics (`index out of range`). -/
def deriveAt (sz : Sizes) : Pointer → GoType → Path → Option (Pointer × GoType)
  | p, t, [] => some (p, t)
  | p, t, i :: path =>
    match t.underlying with
    | .array len elem =>
      if i < len then deriveAt sz (derive p (indexOffset sz elem i)) elem path else none
    | .struct fields =>
      match fields[i]? with
      | some f => deriveAt sz (derive p (fieldOffset sz fields i)) f path
      | none => none
    | _ => none

/-- What is stored: a value of the program, or one that was loaded before
(the `n`-th last), as a copy does. -/
inductive Operand (S : Type) where
  | const (val : Val S)
  | loaded (n : Nat)

/-- What a program does with its memory. A part of an allocation is named by
the allocation and the path to the part. -/
inductive Op (S : Type) where
  | alloc (t : GoType)
  | arenaNew (t : GoType)
  | load (a : AllocID) (path : Path)
  | store (a : AllocID) (path : Path) (src : Operand S)

def Operand.value (loaded : List (Val S)) : Operand S → Option (Val S)
  | .const val => some val
  | .loaded n => loaded[n]?

/-- A program and its memory. `types` and `loaded` are history variables:
the types of the allocations, and what the loads returned, the last first.
If the checks are skipped an ID can be given out twice; `types` then has the
type of the later allocation. -/
structure State (S : Type) where
  mem : Store S := {}
  types : AllocID → Option GoType := fun _ => none
  loaded : List (Val S) := []

/-- The address of a part of an allocation, and its type. -/
def State.addr (s : State S) (a : AllocID) (path : Path) : Option (Pointer × GoType) :=
  (s.types a).bind fun t => deriveAt cfg.sizes ⟨a, 0⟩ t path

/-- One operation; `none` if an address is not one of the allocation, or
there is no such value. -/
def step (s : State S) : Op S → Option (State S)
  | .alloc t =>
    let (id, mem) := allocate cfg s.mem (cfg.sizes.sizeof t)
    some { s with mem, types := Function.update s.types id (some t) }
  | .arenaNew t =>
    let (id, mem) := handleAlloc cfg s.mem
    some { s with mem, types := Function.update s.types id (some t) }
  | .load a path => do
    let (p, t) ← s.addr cfg a path
    let (val, _, _) := loadConcrete cfg s.mem (.tracked p) t (cfg.sizes.sizeof t)
    return { s with loaded := val :: s.loaded }
  | .store a path src => do
    let (p, t) ← s.addr cfg a path
    let val ← src.value s.loaded
    let (mem, _, _) := storeConcrete cfg s.mem (.tracked p) val t (cfg.sizes.sizeof t)
    return { s with mem }

end Giri.Memory
