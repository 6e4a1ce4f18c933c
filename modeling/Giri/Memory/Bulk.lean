/-
Giri.Memory.Bulk — the builtins that read and write many elements of a
slice: append, copy, clear, conversions to slices, and sorting
(`concreteBuiltin`, `concreteConvert`, `sortIn`).

They read elements with `elemAt` and write them with `setElem`, which go to
the element store and look at nothing else. A load or a store of ONE element
goes through `handleLoad` or `handleStore`: it is checked against the shadow
memory, and a store marks its bytes.
-/
import Giri.Memory.Store

namespace Giri.Memory

open Value

variable {S : Type}

/-! ## §1. Elements -/

variable (cfg : MemConfig S) (m : Store S) (sv : SliceValue) (t : GoType)

/-- The address of element `i`. -/
def elemPtr (p : Pointer) (t : GoType) (i : Nat) : Pointer :=
  derive p (i * cfg.sizes.sizeof t)

/-- `elemAt`. -/
def elemAt (i : Nat) : Val S :=
  match sv.backing with
  | none => concreteZero cfg t
  | some p =>
    let q := elemPtr cfg p t i
    if isAggregateType t then gatherAggregate cfg m q t
    else elemOrZero cfg m q.alloc q.offset t

/-- `setElem` of the source: element `i` of a slice is set, without any
check. -/
def setElemAt (i : Nat) (v : Val S) : Store S :=
  match sv.backing with
  | none => m
  | some p =>
    let q := elemPtr cfg p t i
    if isAggregateType t then scatterAggregate cfg m q t v
    else setElem m q.alloc q.offset v

/-- The elements from `i` on are set one after the other. -/
def setElems (cfg : MemConfig S) (sv : SliceValue) (t : GoType) :
    Store S → Nat → List (Val S) → Store S
  | m, _, [] => m
  | m, i, v :: vs => setElems cfg sv t (setElemAt cfg m sv t i v) (i + 1) vs

/-- The size that `newConcreteSlice` allocates. -/
def allocSize (capacity : Nat) : Nat :=
  let size := capacity * cfg.sizes.sizeof t
  if size = 0 then cfg.sizes.sizeof t else size

/-- `newConcreteSlice`. All of the new allocation is marked. -/
def newConcreteSlice (elems : List (Val S)) (capacity : Nat) : SliceValue × Store S :=
  let capacity := max capacity elems.length
  let (id, m) := allocate cfg m (allocSize cfg t capacity)
  let m := if cfg.skipChecks then m else markInitialized cfg m ⟨id, 0⟩ (allocSize cfg t capacity)
  let sv : SliceValue := { backing := some ⟨id, 0⟩, len := elems.length, cap := capacity }
  (sv, setElems cfg sv t m 0 elems)

/-- `sliceElems`, for a slice value or nil. -/
def sliceElems (sv : Option SliceValue) (t : GoType) : List (Val S) :=
  match sv with
  | none => []
  | some sv =>
    if sv.backing.isNone then [] else (List.range sv.len.toNat).map (elemAt cfg m sv t)

/-! ## §2. The builtins -/

/-- What append and copy take elements from: the bytes of a string, or a
slice. -/
inductive Source (S : Type) where
  | text (bytes : List (Val S))
  | slice (sv : Option SliceValue)

def Source.elems : Source S → List (Val S)
  | .text bytes => bytes
  | .slice sv => sliceElems cfg m sv t

/-- The loop of `growCap`. -/
def growLoop (newcap newLen : Nat) : Nat :=
  if newcap < newLen then growLoop (newcap + (newcap + 3 * 256) / 4) newLen else newcap
termination_by newLen - newcap

/-- `growCap`. -/
def growCap (oldCap newLen : Nat) : Nat :=
  if oldCap + oldCap < newLen then newLen
  else if oldCap < 256 then oldCap + oldCap
  else growLoop oldCap newLen

/-- There is room for `n` more elements in the backing array. -/
def hasRoom (base : SliceValue) (n : Nat) : Bool :=
  decide (base.len + n ≤ base.cap) && base.backing.isSome

/-- The builtin append. -/
def appendConcrete (base : Option SliceValue) (src : Source S) : Option SliceValue × Store S :=
  let extra := src.elems cfg m t
  let b := base.getD {}
  if extra.isEmpty then (base, m)
  else if hasRoom b extra.length then
    (some { b with len := b.len + extra.length }, setElems cfg b t m b.len.toNat extra)
  else
    let elems := (List.range b.len.toNat).map (elemAt cfg m b t) ++ extra
    let (sv, m) := newConcreteSlice cfg m t elems (growCap b.cap.toNat elems.length)
    (some sv, m)

/-- The builtin copy. -/
def copyConcrete (dst : SliceValue) (src : Source S) : Nat × Store S :=
  let elems := src.elems cfg m t
  let n := min dst.len.toNat elems.length
  (n, setElems cfg dst t m 0 (elems.take n))

/-- The builtin clear, of a slice. -/
def clearConcrete (sv : SliceValue) : Store S :=
  setElems cfg sv t m 0 (List.replicate sv.len.toNat (concreteZero cfg t))

/-- `sortIn`, where `sortFn` is the native function. -/
def sortIn (sv : SliceValue) (sortFn : List (Val S) → List (Val S)) : Store S :=
  setElems cfg sv t m 0 (sortFn (sliceElems cfg m (some sv) t))

/-! ## §3. Programs -/

/-- A bulk operation. -/
inductive Bulk (S : Type) where
  | append (t : GoType) (base : Option SliceValue) (src : Source S)
  | copy (t : GoType) (dst : SliceValue) (src : Source S)
  | clear (t : GoType) (sv : SliceValue)

/-- What a program does with its memory. -/
inductive MemOp (S : Type) where
  | alloc (size : Nat)
  | load (p : Pointer) (t : GoType)
  | store (p : Pointer) (val : Val S) (t : GoType)
  | bulk (op : Bulk S)
  /-- A string is converted to a slice of bytes or runes. -/
  | convert (t : GoType) (elems : List (Val S))
  | sort (t : GoType) (sv : SliceValue) (sortFn : List (Val S) → List (Val S))

/-- Some bytes of an allocation. -/
structure Range where
  alloc : AllocID
  offset : Int
  size : Nat
  deriving DecidableEq, Repr

def Range.Covers (r : Range) (a : AllocID) (b : Int) : Prop :=
  a = r.alloc ∧ r.offset ≤ b ∧ b < r.offset + r.size

instance (r : Range) (a : AllocID) (b : Int) : Decidable (r.Covers a b) :=
  inferInstanceAs (Decidable (_ ∧ _))

/-- The bytes of `n` elements of a slice, from index `i` on. -/
def sliceRange (i n : Nat) : Option Range :=
  sv.backing.map fun p => ⟨p.alloc, (elemPtr cfg p t i).offset, n * cfg.sizes.sizeof t⟩

/-- The bytes that an operation writes, in Go. A store that fails writes
nothing. -/
def writes : MemOp S → Option Range
  | .alloc _ | .load _ _ => none
  | .store p val t =>
    if (storeConcrete cfg m (.tracked p) val t (cfg.sizes.sizeof t)).2.1.isNone then
      some ⟨p.alloc, p.offset, cfg.sizes.sizeof t⟩
    else none
  | .bulk (.append t base src) =>
    let n := (src.elems cfg m t).length
    let b := base.getD {}
    if n = 0 then none
    else if hasRoom b n then sliceRange cfg b t b.len.toNat n
    else some ⟨m.nextAlloc + 1, 0, (b.len.toNat + n) * cfg.sizes.sizeof t⟩
  | .bulk (.copy t dst src) => sliceRange cfg dst t 0 (min dst.len.toNat (src.elems cfg m t).length)
  | .bulk (.clear t sv) => sliceRange cfg sv t 0 sv.len.toNat
  | .convert t elems => some ⟨m.nextAlloc + 1, 0, elems.length * cfg.sizes.sizeof t⟩
  | .sort t sv sortFn =>
    sliceRange cfg sv t 0 (sortFn (sliceElems cfg m (some sv) t)).length

/-- Memory after an operation. -/
def MemOp.exec : MemOp S → Store S
  | .alloc size => (allocate cfg m size).2
  | .load _ _ => m
  | .store p val t => (storeConcrete cfg m (.tracked p) val t (cfg.sizes.sizeof t)).1
  | .bulk (.append t base src) => (appendConcrete cfg m t base src).2
  | .bulk (.copy t dst src) => (copyConcrete cfg m t dst src).2
  | .bulk (.clear t sv) => clearConcrete cfg m t sv
  | .convert t elems => (newConcreteSlice cfg m t elems elems.length).2
  | .sort t sv sortFn => sortIn cfg m t sv sortFn

/-- Memory, and which bytes have been written since their allocation; the
latter is history. -/
structure History (S : Type) where
  mem : Store S := {}
  written : AllocID → Int → Bool := fun _ _ => false

/-- One operation. -/
def History.step (s : History S) (op : MemOp S) : History S where
  mem := op.exec cfg s.mem
  written a b :=
    match writes cfg s.mem op with
    | some r => decide (r.Covers a b) || old a b
    | none => old a b
where
  /-- Of a new allocation nothing has been written. -/
  old (a : AllocID) (b : Int) : Bool :=
    s.written a b && decide (a ≤ s.mem.nextAlloc ∨ (op.exec cfg s.mem).nextAlloc < a)

end Giri.Memory
