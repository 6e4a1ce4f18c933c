/-
Giri.Value.Compare — `==` and `!=` (`binOpConcrete` of a session, `evalBinOp`
and `ifaceEqual` on the command line).

A comparison that is not decided is `Value{}` or `stdlibOpaque`, no boolean,
and `ssa.If` then takes the false branch, for `==` as for `!=`. A session does
not decide the comparisons of channels, nor those of maps and functions that
are not nil. The command line decides only scalars and interfaces.

What values stand for, and Go's equality of these, are in `MapKey.lean`.
-/
import Giri.Memory.Project
import Giri.Value.MapKey

namespace Giri.Compare

open Value Memory MapKey

/-! ## §1. The evaluators -/

/-- An operand. -/
inductive Operand where
  | raw (r : Raw)
  /-- A nil `Raw` with a provenance. -/
  | located
  | slice (backing : Option Pointer)
  /-- A channel, a map or a function that is not nil. -/
  | object (id : Nat)

/-- The result of `==`, or of `!=`, for operands that are equal or not. -/
def result (neq eq : Bool) : Bool := eq != neq

/-- `evalBinOp`; `none` is `Value{}`. -/
def evalBinOp (neq : Bool) : Raw → Raw → Option Bool
  | .int a, .int b => some (result neq (a == b))
  | .float a, .float b => some (result neq (floatEq a b))
  | .complex a b, .complex c d => some (result neq (floatEq a c && floatEq b d))
  | .bool a, .bool b => some (result neq (a == b))
  | .str a, .str b => some (result neq (a == b))
  | _, _ => none

/-- `concreteBinOp`; `none` is its `ok = false`. -/
def concreteBinOp (neq : Bool) (t : GoType) (a b : Raw) : Option Bool :=
  match basicIntKind t, a, b with
  | some _, .int a, .int b => some (result neq (a == b))
  | some _, _, _ => none
  | none, a, b => evalBinOp neq a b

/-- `concreteEqual`. -/
def concreteEqual (x y : Operand) : Option Bool :=
  let isNil : Operand → Option Bool
    | .raw .nil => some true
    | .located => some false
    | .slice backing => some backing.isNone
    | _ => none
  match isNil x, isNil y with
  | some true, some b | some b, some true => some b
  | _, _ =>
    match x, y with
    | .raw (.pointer p), .raw (.pointer q) => some (p.place == q.place)
    | .raw (.pointer _), .raw .nil | .raw (.pointer _), .located => some false
    | .raw .nil, .raw (.pointer _) | .located, .raw (.pointer _) => some false
    | _, _ => none

/-- `concreteZero` of a leaf. A slice is not one of the values here. -/
def zeroRaw (t : GoType) : Raw :=
  match t.underlying with
  | .basic k =>
    if isBoolean k then .bool false
    else if isString k then .str ""
    else if isComplex k then .complex 0 0
    else if isFloat k then .float 0
    else if k.isInteger then .int 0
    else .nil
  | _ => .nil

/-- `project`, of a leaf. -/
def project (v : Raw) (l : Leaf) : Raw :=
  match v with
  | .agg _ leaves vals _ zero =>
    let i := search (fun i => (leaves[i]?).any (l.off ≤ ·.off)) 0 leaves.length
    if zero then zeroRaw l.type
    else if (leaves[i]?).any (·.off = l.off) then vals.getD i (zeroRaw l.type)
    else zeroRaw l.type
  | _ => .stdlibOpaque

def isAgg : Raw → Bool
  | .agg .. => true
  | _ => false

def isInterface (t : GoType) : Bool :=
  match t.underlying with
  | .interface => true
  | _ => false

variable (sz : Sizes) (identical : GoType → GoType → Bool)

/-- The loop of `aggregateEqual`. -/
def equalLeaves (equal : GoType → Raw → Raw → Option Bool) (x y : Raw) : List Leaf → Option Bool
  | [] => some true
  | l :: ls =>
    match equal l.type (project x l) (project y l) with
    | some true => equalLeaves equal x y ls
    | r => r

def aggregateEqual (equal : GoType → Raw → Raw → Option Bool) (x y : Raw)
    (t : GoType) : Option Bool :=
  if (layout sz t).isEmpty then if isAgg x && isAgg y then some true else none
  else equalLeaves equal x y (layout sz t)

/-- `valuesEqual`, with `types.Identical`; `none` is its `ok = false`, and that
there is not enough fuel. -/
def valuesEqual : Nat → GoType → Raw → Raw → Option Bool
  | 0, _, _, _ => none
  | fuel + 1, t, a, b =>
    match a, b with
    | .stdlibOpaque, _ | _, .stdlibOpaque => none
    | a, b =>
      if isAggregateType t then aggregateEqual sz (valuesEqual fuel) a b t
      else if isInterface t then
        match a, b with
        | .nil, .nil => some true
        | .nil, .iface .. | .iface .., .nil => some false
        | .iface _ ta va _, .iface _ tb vb _ =>
          if identical ta tb then valuesEqual fuel ta va vb else some false
        | _, _ => none
      else (concreteBinOp false t a b).or (concreteEqual (.raw a) (.raw b))

/-- `binOpConcrete` for `==` and `!=`. -/
def binOpConcrete (fuel : Nat) (neq : Bool) (t : GoType) : Operand → Operand → Option Bool
  | .raw a, .raw b =>
    (concreteBinOp neq t a b).or <|
      if isInterface t then (valuesEqual sz identical fuel t a b).map (result neq)
      else if isAggregateType t then
        (aggregateEqual sz (valuesEqual sz identical fuel) a b t).map (result neq)
      else ((concreteEqual (.raw a) (.raw b)).map (result neq)).or (evalBinOp neq a b)
  | x, y => (concreteEqual x y).map (result neq)

/-- `ifaceEqual`. -/
def ifaceEqual : Raw → Raw → Option Bool
  | .nil, .nil => some true
  | .nil, _ | _, .nil => some false
  | .iface _ ta va _, .iface _ tb vb _ =>
    if identical ta tb then
      (evalBinOp false va vb).or <|
        match va, vb with
        | .pointer p, .pointer q => some (p.place == q.place)
        | _, _ => none
    else some false
  | _, _ => none

/-- `ssa.BinOp` on the command line, for `==` and `!=`. -/
def binOpCli (neq : Bool) (t : GoType) : Operand → Operand → Option Bool
  | .raw a, .raw b =>
    ((if isInterface t then ifaceEqual identical a b else none).map (result neq)).or
      (evalBinOp neq a b)
  | _, _ => none

/-- `ssa.If`: the true branch is taken. -/
def takes (cond : Option Bool) : Bool := cond == some true

/-! ## §2. Known values -/

mutual

/-- The leaves of an aggregate are those of its type. -/
def Shaped (t : GoType) : Raw → Prop
  | .iface _ type v _ => Shaped type v
  | .agg _ leaves vals _ zero =>
    zero = true ∨ leaves = layout sz t ∧ ShapedAll (layout sz t) vals
  | _ => True

def ShapedAll : List Leaf → List Raw → Prop
  | l :: ls, v :: vs => Shaped l.type v ∧ ShapedAll ls vs
  | _, _ => True

end

mutual

/-- How deep `valuesEqual` goes into a value. -/
def depth : Raw → Nat
  | .iface _ _ v _ => depth v + 1
  | .agg _ _ vals _ _ => depthAll vals + 1
  | _ => 0

def depthAll : List Raw → Nat
  | [] => 0
  | v :: vs => max (depth v) (depthAll vs)

end

/-- What scalars there are of a type. -/
inductive Class where
  | int | float | complex | bool | str | pointer
  deriving DecidableEq

def classOf (t : GoType) : Class :=
  match t.underlying with
  | .basic k =>
    if isBoolean k then .bool else if isString k then .str else if isComplex k then .complex
    else if isFloat k then .float else if k.isInteger then .int else .pointer
  | _ => .pointer

/-- A scalar of a class, and the Go value that it stands for. -/
inductive Scalar : Class → Raw → GoVal → Prop
  | int (v : BitVec 64) : Scalar .int (.int v) (.int v)
  | float (v : BitVec 64) : Scalar .float (.float v) (.float v)
  | complex (v w : BitVec 64) : Scalar .complex (.complex v w) (.complex v w)
  | bool (v : Bool) : Scalar .bool (.bool v) (.bool v)
  | str (v : String) : Scalar .str (.str v) (.str v)
  | nil : Scalar .pointer .nil (.pointer none)
  | pointer (p : PointerObj) : Scalar .pointer (.pointer p) (.pointer (some p.place))

/-- The known values of a type. -/
inductive Known (t : GoType) : Raw → GoVal → Prop
  | scalar (hagg : isAggregateType t = false) (hif : isInterface t = false)
      (h : Scalar (classOf t) a x) : Known t a x
  | nil (hif : isInterface t = true) : Known t .nil .nilIface
  | box (hif : isInterface t = true) (h : denote sz u v = some w) (hs : Shaped sz u v) :
      Known t (.iface addr u v prov) (.iface u w)
  | agg (hagg : isAggregateType t = true)
      (h : denote sz t (.agg addr leaves vals provs zero) = some (.agg xs))
      (hs : Shaped sz t (.agg addr leaves vals provs zero)) :
      Known t (.agg addr leaves vals provs zero) (.agg xs)

variable {sz identical} {t : GoType} {a b : Raw} {x y : GoVal} {xs ys : List GoVal}

theorem isInterface_agg (hif : isInterface t = true) : isAggregateType t = false := by
  unfold isInterface at hif
  unfold isAggregateType
  split at hif <;> simp_all

theorem known_of_denote (ha : denote sz t a = some x) (hs : Shaped sz t a) : Known sz t a x := by
  cases a with
  | iface addr u v prov =>
    simp only [denote] at ha
    split at ha
    · rename_i ht
      obtain ⟨w, hw, rfl⟩ := Option.map_eq_some_iff.mp ha
      exact .box (by simp [isInterface, ht]) hw (by simpa [Shaped] using hs)
    · cases ha
  | agg =>
    have hagg : isAggregateType t = true := by
      by_contra hagg
      simp [denote, hagg] at ha
    obtain ⟨xs, rfl⟩ : ∃ xs, x = .agg xs := by
      simp only [denote, hagg, if_true] at ha
      split at ha <;> obtain ⟨xs, -, rfl⟩ := Option.map_eq_some_iff.mp ha <;> exact ⟨xs, rfl⟩
    exact .agg hagg ha hs
  | stdlibOpaque => simp [denote] at ha
  | nil | int | float | complex | bool | str | pointer =>
    simp only [denote, basicIntKind] at ha
    by_cases hif : isInterface t = true
    · have hif' := hif
      simp only [isInterface] at hif
      split at hif <;> simp_all
      try (subst ha; exact .nil hif')
    · refine .scalar ?_ (by simpa using hif) ?_
      · unfold isAggregateType
        generalize t.underlying = u at ha
        cases u <;> simp_all
      · simp only [classOf]
        simp only [isInterface] at hif
        generalize t.underlying = u at ha hif ⊢
        cases u with
        | basic k =>
          cases k <;>
            simp [isBoolean, isString, isComplex, isFloat, BasicKind.isInteger] at ha ⊢ <;>
            first | (cases ha; constructor) | (obtain ⟨-, rfl⟩ := ha; constructor)
        | _ => simp at ha hif <;> (cases ha; constructor)

/-- The zero value of a leaf. -/
theorem zeroVal_known (hagg : isAggregateType t = false) (h : zeroVal t = some x) :
    Known sz t (zeroRaw t) x := by
  by_cases hif : isInterface t = true
  · simp only [isInterface] at hif
    split at hif <;> simp_all [zeroVal, zeroRaw]
    subst h
    exact .nil (by simp [isInterface, *])
  · refine .scalar hagg (by simpa using hif) ?_
    simp only [zeroVal, zeroRaw, classOf, isInterface] at *
    generalize t.underlying = u at *
    cases u with
    | basic k =>
      cases k <;> simp [isBoolean, isString, isComplex, isFloat, BasicKind.isInteger] at h ⊢ <;>
        (subst h; constructor)
    | _ => simp at h hif <;> (subst h; constructor)

theorem depth_zeroRaw (t : GoType) : depth (zeroRaw t) = 0 := by
  unfold zeroRaw
  cases t.underlying with
  | basic k => cases k <;> rfl
  | _ => rfl

theorem leaf_not_aggregate {l : Leaf} (hl : l ∈ layout sz t) : isAggregateType l.type = false := by
  rw [layout_eq, List.mem_map] at hl
  obtain ⟨p, hp, rfl⟩ := hl
  obtain ⟨u, hu, hleaf⟩ := (mem_leafPaths t p).mp hp
  simpa [leafAt, hu] using hleaf

/-- The leaves of a zero value. -/
theorem mapM_zeroVal {ls : List Leaf} (hls : ∀ l ∈ ls, isAggregateType l.type = false)
    (h : ls.mapM (fun l => zeroVal l.type) = some xs) :
    List.Forall₂ (fun (l : Leaf) x => Known sz l.type (zeroRaw l.type) x) ls xs := by
  induction ls generalizing xs with
  | nil =>
    cases h
    exact .nil
  | cons l ls ih =>
    simp only [List.mapM_cons, Option.bind_eq_bind, Option.bind_eq_some_iff] at h
    obtain ⟨x, hx, xs, hxs, h⟩ := h
    cases h
    rw [List.forall_mem_cons] at hls
    exact .cons (zeroVal_known hls.1 hx) (ih hls.2 hxs)

/-- The leaves of another value, where `f` finds them. -/
theorem denoteAll_known {ls : List Leaf} {vals : List Raw} {f : Leaf → Raw}
    (h : denoteAll sz ls vals = some xs) (hs : ShapedAll sz ls vals)
    (hf : ∀ i l, ls[i]? = some l → f l = vals.getD i (zeroRaw l.type)) :
    List.Forall₂ (fun l x => Known sz l.type (f l) x ∧ depth (f l) ≤ depthAll vals) ls xs := by
  induction ls generalizing vals xs with
  | nil =>
    cases vals <;> cases h
    exact .nil
  | cons l ls ih =>
    cases vals with
    | nil => cases h
    | cons v vals =>
      simp only [denoteAll] at h
      split at h
      · rename_i x xs hx hxs
        cases h
        simp only [ShapedAll] at hs
        have hl : f l = v := hf 0 l rfl
        refine .cons ?_ ((ih hxs hs.2 fun i l hl => hf (i + 1) l hl).imp fun l x h => ⟨h.1, ?_⟩)
        · rw [hl]
          exact ⟨known_of_denote hx hs.1, le_max_left _ _⟩
        · exact h.2.trans (le_max_right _ _)
      · cases h

/-- The leaves of an aggregate, as `project` finds them. -/
def Leaves (sz : Sizes) (t : GoType) (a : Raw) (n : Nat) (xs : List GoVal) : Prop :=
  List.Forall₂ (fun l x => Known sz l.type (project a l) x ∧ depth (project a l) ≤ n) (layout sz t) xs

theorem project_known {addr : Nat} {leaves : List Leaf} {vals : List Raw} {provs : List (Option Nat)}
    {zero : Bool} (hagg : isAggregateType t = true)
    (h : denote sz t (.agg addr leaves vals provs zero) = some (.agg xs))
    (hs : Shaped sz t (.agg addr leaves vals provs zero)) :
    Leaves sz t (.agg addr leaves vals provs zero) (depthAll vals) xs := by
  simp only [denote, hagg, if_true] at h
  cases zero with
  | true =>
    obtain ⟨xs, hxs, h⟩ := Option.map_eq_some_iff.mp h
    cases h
    refine (mapM_zeroVal (fun l => leaf_not_aggregate) hxs).imp fun l x h => ⟨h, ?_⟩
    simp [project, depth_zeroRaw]
  | false =>
    obtain ⟨xs, hxs, h⟩ := Option.map_eq_some_iff.mp h
    cases h
    simp only [Shaped, Bool.false_eq_true, false_or] at hs
    obtain ⟨rfl, hs⟩ := hs
    refine denoteAll_known hxs hs fun i l hl => ?_
    simp [project, search_layout hl, hl]

/-! ## §3. Decided comparisons -/

/-- A comparison is decided, as Go decides it. -/
def Decides (r : Option Bool) (eq : Prop) : Prop := ∃ e, r = some e ∧ (e = true ↔ eq)

theorem basicIntKind_isSome (t : GoType) : (basicIntKind t).isSome = (classOf t == .int) := by
  unfold basicIntKind classOf
  generalize t.underlying = u
  cases u with
  | basic k => cases k <;> rfl
  | _ => rfl

/-- Scalars, for both operators. -/
theorem scalar_decides (ha : Scalar (classOf t) a x) (hb : Scalar (classOf t) b y) :
    ∃ e, (e = true ↔ x.Equal y) ∧ ∀ neq, ((concreteBinOp neq t a b).or
      ((concreteEqual (.raw a) (.raw b)).map (result neq))) = some (result neq e) := by
  have hint := basicIntKind_isSome t
  generalize classOf t = c at ha hb hint
  unfold concreteBinOp
  cases ha <;> cases hb <;> cases hk : basicIntKind t <;> rw [hk] at hint <;>
    simp [evalBinOp, concreteEqual, result, GoVal.Equal] <;> cases hint

theorem valuesEqual_scalar {c c' : Class} (n : Nat) (hagg : isAggregateType t = false)
    (hif : isInterface t = false) (ha : Scalar c a x) (hb : Scalar c' b y) :
    valuesEqual sz identical (n + 1) t a b =
      (concreteBinOp false t a b).or (concreteEqual (.raw a) (.raw b)) := by
  cases ha <;> cases hb <;> simp [valuesEqual, hagg, hif]

theorem equalLeaves_decides {equal : GoType → Raw → Raw → Option Bool} {ls : List Leaf}
    {P Q : Leaf → GoVal → Prop}
    (h : ∀ l x y, P l x → Q l y → Decides (equal l.type (project a l) (project b l)) (x.Equal y))
    (hx : List.Forall₂ P ls xs) (hy : List.Forall₂ Q ls ys) :
    Decides (equalLeaves equal a b ls) (GoVal.EqualAll xs ys) := by
  induction hx generalizing ys with
  | nil =>
    cases hy
    exact ⟨true, rfl, by simp [GoVal.EqualAll]⟩
  | cons hl hls ih =>
    cases hy with
    | cons hl' hls' =>
      obtain ⟨e, he, heq⟩ := h _ _ _ hl hl'
      simp only [equalLeaves, he, GoVal.EqualAll, ← heq]
      cases e with
      | true => simpa using ih hls'
      | false => exact ⟨false, rfl, by simp⟩

/-- Two known values of a type. -/
inductive Both (sz : Sizes) (t : GoType) : Raw → GoVal → Raw → GoVal → Prop
  | scalar (hagg : isAggregateType t = false) (hif : isInterface t = false)
      (h : Scalar (classOf t) v w) (h' : Scalar (classOf t) v' w') : Both sz t v w v' w'
  | nil (hif : isInterface t = true) : Both sz t .nil .nilIface .nil .nilIface
  | nilBox (hif : isInterface t = true) : Both sz t .nil .nilIface (.iface addr u v prov) (.iface u w)
  | boxNil (hif : isInterface t = true) : Both sz t (.iface addr u v prov) (.iface u w) .nil .nilIface
  | box (hif : isInterface t = true) (h : Known sz u v w) (h' : Known sz u' v' w') :
      Both sz t (.iface addr u v prov) (.iface u w) (.iface addr' u' v' prov') (.iface u' w')
  | agg (hagg : isAggregateType t = true)
      (h : Leaves sz t (.agg addr leaves vals provs zero) (depthAll vals) ws)
      (h' : Leaves sz t (.agg addr' leaves' vals' provs' zero') (depthAll vals') ws') :
      Both sz t (.agg addr leaves vals provs zero) (.agg ws)
        (.agg addr' leaves' vals' provs' zero') (.agg ws')

theorem both (ha : Known sz t a x) (hb : Known sz t b y) : Both sz t a x b y := by
  cases ha with
  | scalar hagg hif h =>
    cases hb with
    | scalar _ _ h' => exact .scalar hagg hif h h'
    | nil hif' | box hif' => simp [hif] at hif'
    | agg hagg' => simp [hagg] at hagg'
  | nil hif =>
    cases hb with
    | scalar _ hif' => simp [hif] at hif'
    | agg hagg => simp [isInterface_agg hif] at hagg
    | nil => exact .nil hif
    | box => exact .nilBox hif
  | box hif h hs =>
    cases hb with
    | scalar _ hif' => simp [hif] at hif'
    | agg hagg => simp [isInterface_agg hif] at hagg
    | nil => exact .boxNil hif
    | box _ h' hs' => exact .box hif (known_of_denote h hs) (known_of_denote h' hs')
  | agg hagg h hs =>
    cases hb with
    | scalar hagg' => simp [hagg] at hagg'
    | nil hif | box hif => simp [isInterface_agg hif] at hagg
    | agg _ h' hs' => exact .agg hagg (project_known hagg h hs) (project_known hagg h' hs')

theorem aggregateEqual_decides {equal : GoType → Raw → Raw → Option Bool} {m m' n : Nat}
    (h : ∀ {t a b x y}, depth a < n → Known sz t a x → Known sz t b y →
      Decides (equal t a b) (x.Equal y))
    (hn : m < n) (ha : Leaves sz t a m xs) (hb : Leaves sz t b m' ys) (hka : isAgg a = true)
    (hkb : isAgg b = true) : Decides (aggregateEqual sz equal a b t) (GoVal.EqualAll xs ys) := by
  have hloop := equalLeaves_decides (fun l x y hl hl' => h (lt_of_le_of_lt hl.2 hn) hl.1 hl'.1) ha hb
  unfold aggregateEqual
  split
  · rename_i hempty
    rw [List.isEmpty_iff.mp hempty] at hloop
    simpa [hka, hkb, equalLeaves] using hloop
  · exact hloop

/-- **Known values are compared as Go compares them.** -/
theorem valuesEqual_decides (hid : ∀ t u, identical t u = true ↔ t = u) {n : Nat} :
    ∀ {t a b x y}, depth a < n → Known sz t a x → Known sz t b y →
      Decides (valuesEqual sz identical n t a b) (x.Equal y) := by
  induction n with
  | zero => exact fun h => absurd h (Nat.not_lt_zero _)
  | succ n ih =>
    intro t a b x y hn ha hb
    cases both ha hb with
    | scalar hagg hif h h' =>
      obtain ⟨e, heq, he⟩ := scalar_decides h h'
      refine ⟨e, ?_, heq⟩
      rw [valuesEqual_scalar n hagg hif h h']
      simpa [result] using he false
    | nil hif => exact ⟨true, by simp [valuesEqual, isInterface_agg hif, hif], by simp [GoVal.Equal]⟩
    | nilBox hif | boxNil hif =>
      exact ⟨false, by simp [valuesEqual, isInterface_agg hif, hif], by simp [GoVal.Equal]⟩
    | box hif h h' =>
      simp only [valuesEqual, isInterface_agg hif, hif, Bool.false_eq_true, if_false, if_true,
        GoVal.Equal]
      split
      · rename_i hsame
        obtain rfl := (hid _ _).mp hsame
        simpa using ih (Nat.lt_of_succ_lt_succ hn) h h'
      · rename_i hdiff
        exact ⟨false, rfl, by simp [mt (hid _ _).mpr hdiff]⟩
    | agg hagg h h' =>
      simp only [valuesEqual, hagg, if_true, GoVal.Equal]
      exact aggregateEqual_decides ih (Nat.lt_of_succ_lt_succ hn) h h' rfl rfl

/-! ## §4. Both operators -/

/-- `==` is Go's boolean, `!=` is its negation, and an `if` on either takes
the branch that Go takes. -/
structure Decided (cmp : Bool → Option Bool) (eq : Prop) : Prop where
  eql : Decides (cmp false) eq
  neq : Decides (cmp true) ¬eq
  branches : (takes (cmp false) = true ↔ eq) ∧ (takes (cmp true) = true ↔ ¬eq)

theorem decided_of_result {cmp : Bool → Option Bool} {eq : Prop} {e : Bool} (he : e = true ↔ eq)
    (h : ∀ neq, cmp neq = some (result neq e)) : Decided cmp eq := by
  have hfalse : cmp false = some e := by simpa [result] using h false
  have htrue : cmp true = some !e := by simpa [result] using h true
  refine ⟨⟨e, hfalse, he⟩, ⟨!e, htrue, ?_⟩, ?_⟩
  · simp [← he]
  · simp [takes, hfalse, htrue, ← he]

theorem not_decided {cmp : Bool → Option Bool} {eq : Prop} (h : cmp false = none) :
    ¬Decided cmp eq := by
  rintro ⟨⟨e, he, -⟩, -, -⟩
  cases h.symm.trans he

theorem concreteBinOp_none {neq : Bool} (h : evalBinOp neq a b = none) :
    concreteBinOp neq t a b = none := by
  unfold concreteBinOp
  split <;> simp_all [evalBinOp]

theorem binOpConcrete_result (hid : ∀ t u, identical t u = true ↔ t = u) {fuel : Nat}
    (hn : depth a < fuel) (ha : Known sz t a x) (hb : Known sz t b y) :
    ∃ e, (e = true ↔ x.Equal y) ∧
      ∀ neq, binOpConcrete sz identical fuel neq t (.raw a) (.raw b) = some (result neq e) := by
  obtain ⟨e, he, heq⟩ := valuesEqual_decides hid hn ha hb
  simp only [binOpConcrete]
  cases both ha hb with
  | scalar hagg hif h h' =>
    obtain ⟨e, heq, he⟩ := scalar_decides h h'
    refine ⟨e, heq, fun neq => ?_⟩
    rw [if_neg (by simp [hif]), if_neg (by simp [hagg]), ← Option.or_assoc, he neq]
    rfl
  | nil hif | nilBox hif | boxNil hif | box hif =>
    refine ⟨e, heq, fun neq => ?_⟩
    rw [if_pos hif, he, concreteBinOp_none rfl]
    rfl
  | agg hagg h h' =>
    obtain ⟨e, he, heq⟩ := aggregateEqual_decides (valuesEqual_decides hid)
      (Nat.lt_of_succ_lt hn) h h' rfl rfl
    have hif : ¬ isInterface t = true := fun hif => by simp [isInterface_agg hif] at hagg
    refine ⟨e, heq, fun neq => ?_⟩
    rw [if_neg hif, if_pos hagg, he, concreteBinOp_none rfl]
    rfl

/-- What the command line compares in an interface. -/
def payload : GoVal → Bool
  | .int _ | .float _ | .complex .. | .bool _ | .str _ => true
  | .pointer p => p.isSome
  | _ => false

/-- What the command line compares: scalars but pointers, and interfaces. -/
def CliCompared : GoVal → GoVal → Prop
  | .iface t x, .iface u y => t = u → payload x = true ∧ payload y = true
  | .pointer _, _ | .agg _, _ => False
  | _, _ => True

theorem binOpCli_result (hid : ∀ t u, identical t u = true ↔ t = u) (ha : Known sz t a x)
    (hb : Known sz t b y) (hc : CliCompared x y) :
    ∃ e, (e = true ↔ x.Equal y) ∧
      ∀ neq, binOpCli identical neq t (.raw a) (.raw b) = some (result neq e) := by
  simp only [binOpCli]
  cases both ha hb with
  | scalar hagg hif h h' =>
    rw [if_neg (by simp [hif])]
    generalize classOf t = c at h h'
    cases h <;> cases h' <;> first | exact hc.elim | simp [evalBinOp, result, GoVal.Equal]
  | agg => exact hc.elim
  | nil hif => exact ⟨true, by simp [GoVal.Equal], fun neq => by rw [if_pos hif]; rfl⟩
  | nilBox hif | boxNil hif => exact ⟨false, by simp [GoVal.Equal], fun neq => by rw [if_pos hif]; rfl⟩
  | box hif h h' =>
    simp only [if_pos hif, ifaceEqual, GoVal.Equal]
    split
    · rename_i hsame
      obtain rfl := (hid _ _).mp hsame
      obtain ⟨hp, hq⟩ := hc rfl
      cases both h h' with
      | scalar _ _ hv hw =>
        generalize classOf _ = c at hv hw
        cases hv <;> cases hw <;> simp_all [evalBinOp, result, payload, GoVal.Equal]
      | nil | nilBox | boxNil | box | agg => cases hp
    · rename_i hdiff
      exact ⟨false, by simp [mt (hid _ _).mpr hdiff], fun neq => rfl⟩

/-- Everything else is not decided. -/
theorem binOpCli_none (hid : ∀ t u, identical t u = true ↔ t = u) (ha : Known sz t a x)
    (hb : Known sz t b y) (hc : ¬CliCompared x y) :
    binOpCli identical false t (.raw a) (.raw b) = none := by
  simp only [binOpCli]
  cases both ha hb with
  | scalar hagg hif h h' =>
    rw [if_neg (by simp [hif])]
    generalize classOf t = c at h h'
    cases h <;> cases h' <;> first | rfl | exact absurd trivial hc
  | agg hagg =>
    have hif : ¬isInterface t = true := fun hif => by simp [isInterface_agg hif] at hagg
    rw [if_neg hif]
    rfl
  | nil | nilBox | boxNil => exact absurd trivial hc
  | box hif h h' =>
    simp only [CliCompared, Classical.not_imp] at hc
    obtain ⟨rfl, hpay⟩ := hc
    simp only [if_pos hif, ifaceEqual, (hid _ _).mpr rfl, if_true]
    cases both h h' with
    | scalar _ _ hv hw =>
      generalize classOf _ = c at hv hw
      cases hv <;> cases hw <;> first | rfl | exact absurd ⟨rfl, rfl⟩ hpay
    | nil | nilBox | boxNil | box | agg => rfl

/-! ## §5. Nil -/

/-- What an operand of a slice, channel, map or function type is: nil, or
something. -/
def Operand.ref : Operand → Option (Option (Pointer ⊕ Nat))
  | .raw .nil => some none
  | .slice backing => some (backing.map .inl)
  | .object id => some (some (.inr id))
  | _ => none

def Operand.isObject : Operand → Bool
  | .object _ => true
  | _ => false

/-- The types of such operands. -/
def isRefType (t : GoType) : Bool :=
  match t.underlying with
  | .slice | .map | .chan | .func => true
  | _ => false

/-- One of the two is nil, or both are channels. -/
inductive NilOrChan : Operand → Operand → Prop
  | left (h : p.ref = some none) : NilOrChan p q
  | right (h : q.ref = some none) : NilOrChan p q
  | chan (id id' : Nat) : NilOrChan (.object id) (.object id')

theorem isRefType_not (ht : isRefType t = true) :
    isInterface t = false ∧ isAggregateType t = false := by
  unfold isRefType at ht
  unfold isInterface isAggregateType
  split at ht <;> simp_all

theorem binOp_nil (ht : isRefType t = true) (fuel : Nat) (neq : Bool) :
    binOpConcrete sz identical fuel neq t (.raw .nil) (.raw .nil) = some (result neq true) := by
  have hnone : concreteBinOp neq t .nil .nil = none := concreteBinOp_none rfl
  simp [binOpConcrete, isRefType_not ht, hnone, concreteEqual]

theorem binOpCli_nil (ht : isRefType t = true) :
    binOpCli identical false t (.raw .nil) (.raw .nil) = none := by
  simp [binOpCli, isRefType_not ht, evalBinOp]

theorem Operand.ref_cases {p : Operand} {r : Option (Pointer ⊕ Nat)} (h : p.ref = some r) :
    (p = .raw .nil ∧ r = none) ∨ (∃ backing, p = .slice backing ∧ r = backing.map .inl) ∨
      ∃ id, p = .object id ∧ r = some (.inr id) := by
  unfold ref at h
  split at h <;> cases h <;> simp

/-- A session knows what is nil and which slices are not. -/
theorem refs_decided (ht : isRefType t = true) {p q : Operand} {rp rq : Option (Pointer ⊕ Nat)}
    (hp : p.ref = some rp) (hq : q.ref = some rq) (h : NilOrChan p q) (fuel : Nat) :
    Decided (binOpConcrete sz identical fuel · t p q) (rp = rq) ↔
      p.isObject = false ∧ q.isObject = false := by
  rcases p.ref_cases hp with ⟨rfl, rfl⟩ | ⟨b, rfl, rfl⟩ | ⟨id, rfl, rfl⟩
  · rcases q.ref_cases hq with ⟨rfl, rfl⟩ | ⟨c, rfl, rfl⟩ | ⟨id, rfl, rfl⟩
    · exact iff_of_true (decided_of_result (e := true) (by simp) fun neq => binOp_nil ht fuel neq)
        ⟨rfl, rfl⟩
    · exact iff_of_true (decided_of_result (e := c.isNone) (by cases c <;> simp) fun _ => rfl)
        ⟨rfl, rfl⟩
    · exact iff_of_false (not_decided rfl) nofun
  · rcases q.ref_cases hq with ⟨rfl, rfl⟩ | ⟨c, rfl, rfl⟩ | ⟨id, rfl, rfl⟩
    · refine iff_of_true (decided_of_result (e := b.isNone) ?_ fun _ => ?_) ⟨rfl, rfl⟩ <;>
        cases b <;> simp <;> rfl
    · refine iff_of_true ?_ ⟨rfl, rfl⟩
      cases b with
      | none => exact decided_of_result (e := c.isNone) (by cases c <;> simp) fun _ => rfl
      | some =>
        cases c with
        | none => exact decided_of_result (e := false) (by simp) fun _ => rfl
        | some => rcases h with h | h <;> cases h
    · exact iff_of_false (not_decided (by cases b <;> rfl)) nofun
  · refine iff_of_false (not_decided ?_) nofun
    rcases q.ref_cases hq with ⟨rfl, rfl⟩ | ⟨c, rfl, rfl⟩ | ⟨id, rfl, rfl⟩
    · rfl
    · cases c <;> rfl
    · rfl

/-- `[2]int{}`, with its leaves written out. -/
def writtenPair : Raw :=
  .agg 2 (layout packed (.array 2 (.basic .int))) [.int 0, .int 0] [none, none] false

end Giri.Compare
