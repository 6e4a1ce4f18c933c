/-
Giri.Session.Marshal — Go values as arguments and results of a session
(`basicKinds`, `goType`, `checkArg`, `scalarValue`, `marshal`, `setScalar`,
`unmarshal`, `argsAfter` of `exec.go`).

An argument is checked against its parameter by kind, so a value of a named
type is accepted; what is read back has the type that `goType` gives. A slice
argument is copied into a new allocation of the interpreter, element by
element, and read back into a new Go array.

The caller's arrays are a heap of their own here: slices point into it and may
overlap, and only `reflect.MakeSlice` changes it.
-/
import Giri.Memory.BulkElems
import Giri.Value.Int

namespace Giri.Marshal

open Value Memory

/-! ## §1. Types and values -/

/-- Floats are opaque. A `float32` survives the way through a `float64`. -/
structure Floats where
  F32 : Type
  F64 : Type
  widen : F32 → F64
  narrow : F64 → F32
  narrow_widen : ∀ f, narrow (widen f) = f

/-- The keys of `basicKinds`. -/
def basicKinds : List BasicKind :=
  [.bool, .int, .int8, .int16, .int32, .int64, .uint, .uint8, .uint16, .uint32, .uint64, .uintptr,
    .float32, .float64, .string]

/-- The type of a parameter or a result. `plain` is any type that is not a
slice. -/
inductive IOType where
  | plain (t : GoType)
  | slice (elem : GoType)
  | named (name : String) (t : IOType)

def IOType.underlying : IOType → IOType
  | .named _ t => t.underlying
  | t => t

/-- A `reflect.Type` of a basic kind. -/
structure RBasic where
  name : Option String := none
  kind : BasicKind
  deriving DecidableEq

/-- The `reflect.Type`s that are supported, and the named types of their
kinds. -/
inductive RType where
  | basic (b : RBasic)
  | slice (name : Option String) (elem : RBasic)
  deriving DecidableEq

/-- `basicKinds[u.Kind()]`, for a type whose underlying type is basic. -/
def basicType (t : GoType) : Option RBasic :=
  match t.underlying with
  | .basic k => if k ∈ basicKinds then some { kind := k } else none
  | _ => none

/-- `goType`. -/
def goType (t : IOType) : Option RType :=
  match t.underlying with
  | .plain u => (basicType u).map .basic
  | .slice elem => (basicType elem).map (.slice none)
  | .named .. => none

/-- Width and signedness of an integer kind. -/
def intKind (k : BasicKind) : IntKind := (basicIntKind (.basic k)).getD ⟨64, false⟩

variable {F : Floats}

/-- A Go value of a basic type. -/
inductive GoScalar (F : Floats) where
  | bool (b : Bool)
  | int (k : BasicKind) (hk : k.isInteger = true) (x : BitVec (intKind k).bits)
  | float32 (f : F.F32)
  | float64 (f : F.F64)
  | string (s : String)

def GoScalar.kind : GoScalar F → BasicKind
  | .bool _ => .bool
  | .int k _ _ => k
  | .float32 _ => .float32
  | .float64 _ => .float64
  | .string _ => .string

/-- A Go slice: `len` elements of an array, from `off` on. -/
structure GoSlice where
  array : Nat
  off : Nat
  len : Nat

/-- The arrays of the Go program. -/
abbrev GoHeap (F : Floats) : Type := List (List (GoScalar F))

def GoHeap.elems (h : GoHeap F) (s : GoSlice) : List (GoScalar F) :=
  ((h[s.array]?.getD []).drop s.off).take s.len

/-- An `any`, of a type that can pass `checkArg`. -/
inductive GoValue (F : Floats) where
  | nil
  | scalar (name : Option String) (x : GoScalar F)
  | slice (name : Option String) (elem : RBasic) (s : Option GoSlice)

/-- `reflect.TypeOf`. -/
def GoValue.typeOf : GoValue F → Option RType
  | .nil => none
  | .scalar name x => some (.basic ⟨name, x.kind⟩)
  | .slice name elem _ => some (.slice name elem)

/-- Go's typing of the heap: the elements of a slice are of its element
type. -/
def GoHeap.Typed (h : GoHeap F) : GoValue F → Prop
  | .slice _ elem (some s) => ∀ x ∈ h.elems s, x.kind = elem.kind
  | _ => True

/-- What a value is, whatever its type is called and wherever it lies. -/
inductive Content (F : Floats) where
  | scalar (x : GoScalar F)
  | nil
  | elems (xs : List (GoScalar F))

def GoHeap.content (h : GoHeap F) : GoValue F → Content F
  | .scalar _ x => .scalar x
  | .slice _ _ (some s) => .elems (h.elems s)
  | _ => .nil

/-- `Value.Raw`, as far as it is read here. -/
inductive Raw (F : Floats) where
  | nil
  | bool (b : Bool)
  | int (v : BitVec 64)
  | float (f : F.F64)
  | string (s : String)
  | slice (sv : SliceValue)
  | other

/-! ## §2. The functions -/

/-- `ArgError`. -/
structure ArgError where
  want : IOType
  got : Option RType := none

/-- `checkArg`. -/
def checkArg (t : IOType) (v : GoValue F) : Option ArgError :=
  match goType t, v.typeOf with
  | some (.slice ..), none => none
  | some (.basic want), some (.basic got) =>
    if got.kind = want.kind then none else some { want := t, got := some (.basic got) }
  | some (.slice _ want), some (.slice name got) =>
    if got.kind = want.kind then none else some { want := t, got := some (.slice name got) }
  | _, got => some { want := t, got }

/-- `scalarValue`: `rv.Int()` is sign-extended, `int64(rv.Uint())` is the bit
pattern. -/
def scalarValue : GoScalar F → Raw F
  | .bool b => .bool b
  | .int k _ x => .int (if (intKind k).unsigned then x.setWidth 64 else x.signExtend 64)
  | .float32 f => .float (F.widen f)
  | .float64 f => .float f
  | .string s => .string s

variable (cfg : MemConfig (Raw F))

/-- `marshal`. -/
def marshal (h : GoHeap F) (m : Store (Raw F)) (t : IOType) (v : GoValue F) :
    Val (Raw F) × Store (Raw F) :=
  match t.underlying, v with
  | .slice elem, .slice _ _ (some s) =>
    let elems := (h.elems s).map fun x => .scalar (scalarValue x)
    -- MakeSlice
    let (sv, m) := newConcreteSlice cfg m elem elems elems.length
    (.scalar (.slice sv), m)
  | .slice _, _ => (.scalar (.slice {}), m)
  | _, .scalar _ x => (.scalar (scalarValue x), m)
  | _, _ => (.scalar .nil, m)

/-- The arguments of a call, one after the other. -/
def marshalAll (h : GoHeap F) :
    Store (Raw F) → List (IOType × GoValue F) → List (Val (Raw F)) × Store (Raw F)
  | m, [] => ([], m)
  | m, (t, a) :: rest =>
    let (v, m) := marshal cfg h m t a
    let (vs, m) := marshalAll h m rest
    (v :: vs, m)

/-- `setScalar`: `SetInt` and `SetUint` keep the low bits. -/
def setScalar (k : BasicKind) (v : Val (Raw F)) : Option (GoScalar F) :=
  if hk : k.isInteger = true then
    match v with
    | .scalar (.int n) => some (.int k hk (n.setWidth _))
    | _ => none
  else
    match k, v with
    | .bool, .scalar (.bool b) => some (.bool b)
    | .float32, .scalar (.float f) => some (.float32 (F.narrow f))
    | .float64, .scalar (.float f) => some (.float64 f)
    | .string, .scalar (.string s) => some (.string s)
    | _, _ => none

/-- `unmarshal`. -/
def unmarshal (m : Store (Raw F)) (h : GoHeap F) (t : IOType) (v : Val (Raw F)) :
    Option (GoValue F × GoHeap F) :=
  match t.underlying, goType t with
  | .slice elemType, some (.slice name elem) =>
    match v with
    | .scalar .nil => some (.slice name elem none, h)
    | .scalar (.slice sv) =>
      if sv.backing.isNone then some (.slice name elem none, h)
      else do
        let out ← (sliceElems cfg m (some sv) elemType).mapM (setScalar elem.kind)
        some (.slice name elem (some ⟨h.length, 0, out.length⟩), h ++ [out])
    | _ => none
  | _, some (.basic b) => (setScalar b.kind v).map fun x => (.scalar b.name x, h)
  | _, _ => none

/-- `argsAfter`. -/
def argsAfter (m : Store (Raw F)) : GoHeap F → List (IOType × Val (Raw F)) →
    Option (List (Option (GoValue F)) × GoHeap F)
  | h, [] => some ([], h)
  | h, (t, v) :: rest =>
    match t.underlying with
    | .slice _ => do
      let (got, h) ← unmarshal cfg m h t v
      let (after, h) ← argsAfter m h rest
      some (some got :: after, h)
    | _ => do
      let (after, h) ← argsAfter m h rest
      some (none :: after, h)

/-! ## §3. One value -/

theorem setWidth_carrier (k : BasicKind) (x : BitVec (intKind k).bits) :
    (if (intKind k).unsigned then x.setWidth 64 else x.signExtend 64).setWidth (intKind k).bits =
      x := by
  have hbits : (intKind k).bits ≤ 64 := by cases k <;> decide
  ext i hi
  have hlt : i < 64 := by omega
  split <;> simp [BitVec.getElem_signExtend, hlt, hi]

theorem setScalar_scalarValue (x : GoScalar F) :
    setScalar x.kind (.scalar (scalarValue x)) = some x := by
  cases x with
  | bool => simp [GoScalar.kind, setScalar, scalarValue, BasicKind.isInteger]
  | int k hk => simp only [GoScalar.kind, setScalar, scalarValue, hk, dif_pos, setWidth_carrier]
  | float32 =>
    simp [GoScalar.kind, setScalar, scalarValue, BasicKind.isInteger, F.narrow_widen]
  | float64 => simp [GoScalar.kind, setScalar, scalarValue, BasicKind.isInteger]
  | string => simp [GoScalar.kind, setScalar, scalarValue, BasicKind.isInteger]

theorem mapM_setScalar {k : BasicKind} {xs : List (GoScalar F)} (h : ∀ x ∈ xs, x.kind = k) :
    (xs.map fun x => Val.scalar (scalarValue x)).mapM (setScalar k) = some xs := by
  induction xs with
  | nil => rfl
  | cons x xs ih =>
    obtain ⟨rfl, hxs⟩ := List.forall_mem_cons.mp h
    simp [setScalar_scalarValue, ih hxs]

/-- A type that is not an array or a struct holds any value. -/
theorem scalar_readAt {elem : GoType} {b : RBasic} (hb : basicType elem = some b) (v : Val (Raw F)) :
    ∃ m₀ q, v = readAt cfg m₀ q elem := by
  refine ⟨Memory.setElem {} 0 0 v, ⟨0, 0⟩, ?_⟩
  have hleaf : isAggregateType elem = false := by
    unfold basicType at hb
    unfold isAggregateType
    split at hb <;> simp_all
  simp [readAt, hleaf, elemOrZero, Memory.setElem]

variable {cfg}
variable {h h₁ : GoHeap F} {m m' : Store (Raw F)} {t : IOType} {a : GoValue F} {v : Val (Raw F)}

/-- In memory `m`, the value `v` is what was made of `a`. -/
inductive Holds (cfg : MemConfig (Raw F)) (h : GoHeap F) (m : Store (Raw F)) (t : IOType) :
    GoValue F → Val (Raw F) → Prop where
  | scalar (name : Option String) (x : GoScalar F) :
      goType t = some (.basic { kind := x.kind }) →
      Holds cfg h m t (.scalar name x) (.scalar (scalarValue x))
  | nil (a : GoValue F) (elem : GoType) (b : RBasic) : t.underlying = .slice elem →
      basicType elem = some b → h.content a = .nil → Holds cfg h m t a (.scalar (.slice {}))
  | slice (name : Option String) (b b' : RBasic) (s : GoSlice) (elem : GoType) (sv : SliceValue)
      (p : Pointer) : t.underlying = .slice elem → basicType elem = some b' → b.kind = b'.kind →
      sv.backing = some p → p.alloc ≤ m.nextAlloc →
      sliceElems cfg m (some sv) elem = (h.elems s).map (fun x => .scalar (scalarValue x)) →
      Holds cfg h m t (.slice name b (some s)) (.scalar (.slice sv))

theorem goType_cases {rt : RType} (ht : goType t = some rt) :
    (∃ u b, t.underlying = .plain u ∧ basicType u = some b ∧ rt = .basic b) ∨
      ∃ elem b, t.underlying = .slice elem ∧ basicType elem = some b ∧ rt = .slice none b := by
  unfold goType at ht
  split at ht
  · rename_i u hu
    obtain ⟨b, hb, rfl⟩ := Option.map_eq_some_iff.mp ht
    exact .inl ⟨u, b, hu, hb, rfl⟩
  · rename_i elem hu
    obtain ⟨b, hb, rfl⟩ := Option.map_eq_some_iff.mp ht
    exact .inr ⟨elem, b, hu, hb, rfl⟩
  · cases ht

theorem goType_slice {elem : GoType} (hu : t.underlying = .slice elem) :
    goType t = (basicType elem).map (.slice none) := by simp [goType, hu]

theorem basicType_eq {u : GoType} {b : RBasic} (hb : basicType u = some b) :
    b = { kind := b.kind } := by
  unfold basicType at hb
  split at hb
  · split at hb <;> cases hb
    rfl
  · cases hb

/-- What `checkArg` accepts. -/
theorem checkArg_none (hc : checkArg t a = none) :
    (∃ u name x, t.underlying = .plain u ∧ a = .scalar name x ∧
        goType t = some (.basic { kind := x.kind })) ∨
      ∃ elem b, t.underlying = .slice elem ∧ basicType elem = some b ∧
        (a = .nil ∨ ∃ name b' s, a = .slice name b' s ∧ b'.kind = b.kind) := by
  unfold checkArg at hc
  cases ht : goType t with
  | none => simp [ht] at hc
  | some =>
    rcases goType_cases ht with ⟨u, b, hu, hb, rfl⟩ | ⟨elem, b, hu, hb, rfl⟩
    · cases a with
      | scalar name x =>
        have hk : x.kind = b.kind := by simpa [ht, GoValue.typeOf] using hc
        exact .inl ⟨u, name, x, hu, rfl, by rw [hk, ← basicType_eq hb]⟩
      | nil => simp [ht, GoValue.typeOf] at hc
      | slice => simp [ht, GoValue.typeOf] at hc
    · refine .inr ⟨elem, b, hu, hb, ?_⟩
      cases a with
      | scalar => simp [ht, GoValue.typeOf] at hc
      | nil => exact .inl rfl
      | slice name b' s => exact .inr ⟨name, b', s, rfl, by simpa [ht, GoValue.typeOf] using hc⟩

/-- The allocation of a slice. -/
def allocOf : Val (Raw F) → Option AllocID
  | .scalar (.slice sv) => sv.backing.map (·.alloc)
  | _ => none

/-- Only new memory is written. -/
structure Grows (m m' : Store (Raw F)) : Prop where
  next : m.nextAlloc ≤ m'.nextAlloc
  elems : ∀ b ≤ m.nextAlloc, m'.elems b = m.elems b

theorem Grows.trans {m₁ m₂ m₃ : Store (Raw F)} (h : Grows m₁ m₂) (h' : Grows m₂ m₃) :
    Grows m₁ m₃ :=
  ⟨h.next.trans h'.next, fun b hb => (h'.elems b (hb.trans h.next)).trans (h.elems b hb)⟩

theorem marshal_holds (cfg : MemConfig (Raw F)) (h : GoHeap F) (m : Store (Raw F)) (hc : checkArg t a = none) :
    Grows m (marshal cfg h m t a).2 ∧
      Holds cfg h (marshal cfg h m t a).2 t a (marshal cfg h m t a).1 ∧
      ∀ b, allocOf (marshal cfg h m t a).1 = some b → m.nextAlloc < b := by
  have hrefl : Grows m m := ⟨Nat.le_refl _, fun _ _ => rfl⟩
  rcases checkArg_none hc with ⟨u, name, x, hu, rfl, ht⟩ | ⟨elem, b, hu, hb, hcase⟩
  · simp only [marshal, hu]
    exact ⟨hrefl, .scalar name x ht, fun b hb => by cases x <;> cases hb⟩
  · rcases hcase with rfl | ⟨name, b', _ | s, rfl, hk⟩
    · simp only [marshal, hu]
      exact ⟨hrefl, .nil _ elem b hu hb rfl, nofun⟩
    · simp only [marshal, hu]
      exact ⟨hrefl, .nil _ elem b hu hb rfl, nofun⟩
    · simp only [marshal, hu]
      generalize hxs : (h.elems s).map (fun x => Val.scalar (scalarValue x)) = xs
      have hnext := (newConcreteSlice_frame cfg m elem xs xs.length).1
      obtain ⟨helems, hp, -, hother⟩ := newConcreteSlice_elems
        (fun v _ => scalar_readAt cfg hb v) xs.length
        (show newConcreteSlice cfg m elem xs xs.length = _ from rfl)
      refine ⟨⟨hnext ▸ Nat.le_succ _, fun b hb => hother b (Nat.ne_of_lt (Nat.lt_succ_of_le hb))⟩,
        .slice name b' b s elem _ _ hu hb hk hp hnext.ge (helems.trans hxs.symm), ?_⟩
      rintro _ ⟨⟩
      exact Nat.lt_succ_self _

theorem Holds.grows (hv : Holds cfg h m t a v) (hm : Grows m m') :
    Holds cfg h m' t a v := by
  cases hv with
  | scalar name x ht => exact .scalar name x ht
  | nil a elem b hu hb hc => exact .nil a elem b hu hb hc
  | slice name b b' s elem sv p hu hb hk hp hhi helems =>
    refine .slice name b b' s elem sv p hu hb hk hp (hhi.trans hm.next) (helems ▸ ?_)
    refine sliceElems_congr fun q hq => hm.elems _ ?_
    cases hp.symm.trans hq
    exact hhi

/-- `r` has the type of the result, and is in every heap from `h₁` on what
`a` is in `h`. -/
def ReadBack (h : GoHeap F) (t : IOType) (a : GoValue F) (h₁ : GoHeap F) (r : GoValue F) : Prop :=
  r.typeOf = goType t ∧ ∀ h₂ : GoHeap F, h₁ <+: h₂ → h₂.content r = h.content a

/-- What was marshalled is read back, in a new array. -/
theorem Holds.unmarshal (hv : Holds cfg h m t a v) (ha : h.Typed a)
    (h₁ : GoHeap F) :
    ∃ r h', unmarshal cfg m h₁ t v = some (r, h') ∧ h₁ <+: h' ∧ ReadBack h t a h' r := by
  cases hv with
  | scalar name x ht =>
    refine ⟨.scalar none x, h₁, ?_, List.prefix_rfl, ht.symm, fun _ _ => rfl⟩
    simp [Marshal.unmarshal, ht, setScalar_scalarValue]
  | nil a elem b hu hb hc =>
    have ht : goType t = some (.slice none b) := by rw [goType_slice hu, hb, Option.map_some]
    refine ⟨.slice none b none, h₁, ?_, List.prefix_rfl, ht.symm, fun _ _ => hc.symm⟩
    simp [Marshal.unmarshal, hu, ht]
  | slice name b b' s elem sv p hu hb hk hp hhi helems =>
    have ht : goType t = some (.slice none b') := by rw [goType_slice hu, hb, Option.map_some]
    have hout := mapM_setScalar (k := b'.kind) fun x hx => (ha x hx).trans hk
    refine ⟨.slice none b' (some ⟨h₁.length, 0, (h.elems s).length⟩), h₁ ++ [h.elems s], ?_,
      List.prefix_append .., ht.symm, ?_⟩
    · simp [Marshal.unmarshal, hu, ht, hp, helems, hout]
    · rintro h₂ ⟨rest, rfl⟩
      simp [GoHeap.content, GoHeap.elems]

/-! ## §4. The arguments of a call -/

theorem Holds.alloc (hv : Holds cfg h m t a v) {b : AllocID} (hb : allocOf v = some b) :
    b ≤ m.nextAlloc := by
  cases hv with
  | scalar name x => cases x <;> cases hb
  | nil => cases hb
  | slice name b b' s elem sv p hu _ hk hp hhi =>
    simp only [allocOf, hp, Option.map_some, Option.some.injEq] at hb
    exact hb ▸ hhi

/-- All arguments are in memory at once, in new allocations of their own. -/
theorem marshalAll_holds (cfg : MemConfig (Raw F)) (h : GoHeap F) {args : List (IOType × GoValue F)}
    (hok : ∀ a ∈ args, checkArg a.1 a.2 = none) (m : Store (Raw F)) :
    Grows m (marshalAll cfg h m args).2 ∧
      List.Forall₂ (fun a v => Holds cfg h (marshalAll cfg h m args).2 a.1 a.2 v) args
        (marshalAll cfg h m args).1 ∧
      ((marshalAll cfg h m args).1.filterMap allocOf).Nodup ∧
      ∀ b ∈ (marshalAll cfg h m args).1.filterMap allocOf, m.nextAlloc < b := by
  induction args generalizing m with
  | nil => exact ⟨⟨Nat.le_refl _, fun _ _ => rfl⟩, .nil, .nil, nofun⟩
  | cons a args ih =>
    obtain ⟨hc, hok⟩ := List.forall_mem_cons.mp hok
    obtain ⟨hm, hv, hnew⟩ := marshal_holds cfg h m hc
    obtain ⟨hm', hvs, hnd, hnews⟩ := ih hok (marshal cfg h m a.1 a.2).2
    have hlo : ∀ b ∈ _, m.nextAlloc < b := fun b hb => Nat.lt_of_le_of_lt hm.next (hnews b hb)
    simp only [marshalAll]
    refine ⟨hm.trans hm', .cons (hv.grows hm') hvs, ?_⟩
    cases hb : allocOf (marshal cfg h m a.1 a.2).1 with
    | none =>
      rw [List.filterMap_cons_none hb]
      exact ⟨hnd, hlo⟩
    | some b =>
      rw [List.filterMap_cons_some hb]
      refine ⟨List.nodup_cons.mpr ⟨fun hmem => ?_, hnd⟩, List.forall_mem_cons.mpr ⟨hnew b hb, hlo⟩⟩
      exact absurd (hv.alloc hb) (Nat.not_le.mpr (hnews b hmem))

/-- The slice arguments of a call, read back. -/
theorem argsAfter_holds {args : List (IOType × GoValue F)} {vals : List (Val (Raw F))}
    (hvs : List.Forall₂ (fun a v => Holds cfg h m a.1 a.2 v) args vals)
    (hok : ∀ a ∈ args, h.Typed a.2) (h₁ : GoHeap F) :
    ∃ after h', argsAfter cfg m h₁ ((args.map Prod.fst).zip vals) = some (after, h') ∧ h₁ <+: h' ∧
      List.Forall₂ (fun a r =>
        (∃ elem, a.1.underlying = .slice elem) ∧ (∃ got, r = some got ∧ ReadBack h a.1 a.2 h' got) ∨
          (¬∃ elem, a.1.underlying = .slice elem) ∧ r = none) args after := by
  induction hvs generalizing h₁ with
  | nil => exact ⟨[], h₁, rfl, List.prefix_rfl, .nil⟩
  | @cons a v args vals hv _ ih =>
    obtain ⟨ha, hok⟩ := List.forall_mem_cons.mp hok
    by_cases hs : ∃ elem, a.1.underlying = .slice elem
    · obtain ⟨elem, hu⟩ := hs
      obtain ⟨r, h₂, hr, hpre, ht, hrb⟩ := hv.unmarshal ha h₁
      obtain ⟨after, h', hafter, hpre', hall⟩ := ih hok h₂
      refine ⟨some r :: after, h', ?_, hpre.trans hpre', .cons (.inl ⟨⟨elem, hu⟩, r, rfl, ht,
        fun h₃ h₃' => hrb h₃ (hpre'.trans h₃')⟩) hall⟩
      simp [argsAfter, hu, hr, hafter]
    · obtain ⟨after, h', hafter, hpre, hall⟩ := ih hok h₁
      refine ⟨none :: after, h', ?_, hpre, .cons (.inr ⟨hs, rfl⟩) hall⟩
      simp only [List.map_cons, List.zip_cons_cons, argsAfter]
      split
      · rename_i elem hu
        exact absurd ⟨elem, hu⟩ hs
      · simp [hafter]

/-- **Marshalling and back is the identity**, for every list of arguments that
is accepted and in any memory: each argument reads back at its parameter's Go
type, with a nil slice and an empty one apart; no array of the caller
changes; no two slices share an allocation, and nothing that was in memory is
touched. -/
theorem marshalling_round_trips (cfg : MemConfig (Raw F)) (h : GoHeap F) (m : Store (Raw F))
    (args : List (IOType × GoValue F))
    (hok : ∀ a ∈ args, checkArg a.1 a.2 = none ∧ h.Typed a.2) :
    let vals := (marshalAll cfg h m args).1
    let m' := (marshalAll cfg h m args).2
    List.Forall₂ (fun a v => ∃ r h', unmarshal cfg m' h a.1 v = some (r, h') ∧ h <+: h' ∧
        r.typeOf = goType a.1 ∧ h'.content r = h.content a.2) args vals ∧
      (∃ after h', argsAfter cfg m' h ((args.map Prod.fst).zip vals) = some (after, h') ∧ h <+: h' ∧
        List.Forall₂ (fun a r => (∃ elem, a.1.underlying = .slice elem) ∧
          (∃ got, r = some got ∧ got.typeOf = goType a.1 ∧ h'.content got = h.content a.2) ∨
          (¬∃ elem, a.1.underlying = .slice elem) ∧ r = none) args after) ∧
      (vals.filterMap allocOf).Nodup ∧ (∀ b ∈ vals.filterMap allocOf, m.nextAlloc < b) ∧
      ∀ b ≤ m.nextAlloc, m'.elems b = m.elems b := by
  intro vals m'
  obtain ⟨hm, hvs, hnd, hnew⟩ := marshalAll_holds cfg h (fun a ha => (hok a ha).1) m
  have htyped : ∀ a ∈ args, h.Typed a.2 := fun a ha => (hok a ha).2
  refine ⟨?_, ?_, hnd, hnew, hm.elems⟩
  · refine List.Forall₂.imp ?_ ((List.forall₂_and_left _ _).mpr ⟨htyped, hvs⟩)
    rintro a v ⟨ha, hv⟩
    obtain ⟨r, h', hr, hpre, ht, hrb⟩ := hv.unmarshal ha h
    exact ⟨r, h', hr, hpre, ht, hrb h' List.prefix_rfl⟩
  · obtain ⟨after, h', hafter, hpre, hall⟩ := argsAfter_holds hvs htyped h
    refine ⟨after, h', hafter, hpre, hall.imp fun a r hr => hr.imp_left fun ⟨hs, got, hg, ht, hc⟩ => ?_⟩
    exact ⟨hs, got, hg, ht, hc h' List.prefix_rfl⟩

/-- Two slices of one array, the second of a named type. -/
def overlapping : List (IOType × GoValue ⟨Nat, Nat, id, id, fun _ => rfl⟩) :=
  [(.slice (.basic .uint64), .slice none ⟨none, .uint64⟩ (some ⟨0, 0, 2⟩)),
    (.named "Ids" (.slice (.named "Id" (.basic .uint64))),
      .slice (some "Ids") ⟨some "Id", .uint64⟩ (some ⟨0, 1, 1⟩))]

theorem marshalling_round_trips_overlapping :
    ((marshalAll ⟨packed, fun _ => .nil, .other, false, false⟩
      [[.int .uint64 rfl (BitVec.allOnes 64), .int .uint64 rfl 7]] {} overlapping).1.filterMap
        allocOf).Nodup := by
  refine (marshalling_round_trips _ _ _ overlapping fun a ha => ?_).2.2.1
  rcases List.mem_cons.mp ha with rfl | ha
  · refine ⟨rfl, fun x hx => ?_⟩
    have hx : x = .int .uint64 rfl (BitVec.allOnes 64) ∨ x = .int .uint64 rfl 7 := by
      simpa [GoHeap.elems] using hx
    rcases hx with rfl | rfl <;> rfl
  · rcases List.mem_singleton.mp ha with rfl
    refine ⟨rfl, fun x hx => ?_⟩
    have hx : x = .int .uint64 rfl 7 := by simpa [GoHeap.elems] using hx
    rw [hx]
    rfl

end Giri.Marshal
