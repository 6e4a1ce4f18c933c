/-
Giri.Interp.Locals — the values of a frame (`slots.go`, `resolveValue`).

On the command line a frame keeps its values in a map, under their SSA names.
A session numbers the values of a function when it is first called, and its
frames keep them in slots. An `ssa.Value` is known by its address, so slots
are apart whatever the names are. Names need not be: a parameter has the name
that the source gives it, and so has a package-level variable, a register is
called t0, t1 and so on, and the return value is entered as `__return__`.
-/
import Mathlib.Data.List.Nodup

namespace Giri.Locals

variable {F A V : Type} [DecidableEq F] [DecidableEq A]

/-! ## §1. The stores -/

/-- An SSA program with functions `F` and values `A`. -/
structure Prog (F A : Type) where
  /-- The parameters, the free variables, and the instructions that are
  values, in the order of `numberFunc`. -/
  values : F → List A
  /-- What the instructions of a function refer to. -/
  operands : F → List A
  name : A → String
  /-- A value is there once, and in one function, which alone refers to it. -/
  nodup : ∀ f, (values f).Nodup
  owner : ∀ {f g v}, v ∈ values f ++ operands f → v ∈ values g → f = g

/-- The interpreter; `slotIdx` is nil on the command line. -/
structure Interp (F A : Type) where
  slotIdx : Option (A → Option Nat)
  fnSlots : F → Option Nat := fun _ => none

/-- `Frame`. A slot that is not `SlotOK` is `none`, and so is `Ret` without
`HasRet`. -/
structure Frame (V : Type) where
  locals : String → Option V := fun _ => none
  slots : List (Option V) := []
  ret : Option V := none

/-- The closure `add` of `numberFunc`. -/
def add (st : (A → Option Nat) × Nat) (v : A) : (A → Option Nat) × Nat :=
  if (st.1 v).isSome then st else (Function.update st.1 v (some st.2), st.2 + 1)

variable (P : Prog F A)

variable (I : Interp F A) (frame : Frame V)

/-- `numberFunc`; on the command line `initSlots` does nothing. -/
def numberFunc (fn : F) : Interp F A × Nat :=
  match I.slotIdx, I.fnSlots fn with
  | none, _ => (I, 0)
  | some _, some n => (I, n)
  | some slotIdx, none =>
    let (slotIdx, n) := (P.values fn).foldl add (slotIdx, 0)
    (⟨some slotIdx, Function.update I.fnSlots fn (some n)⟩, n)

/-- `initSlots`, for a new frame. -/
def initSlots (fn : F) : Interp F A × Frame V :=
  ((numberFunc P I fn).1, { slots := .replicate (numberFunc P I fn).2 none })

def setLocal (v : A) (val : V) : Frame V :=
  match I.slotIdx with
  | none => { frame with locals := Function.update frame.locals (P.name v) (some val) }
  | some slotIdx =>
    match slotIdx v with
    | some i => { frame with slots := frame.slots.set i (some val) }
    | none => frame

def getLocal (v : A) : Option V :=
  match I.slotIdx with
  | none => frame.locals (P.name v)
  | some slotIdx => (slotIdx v).bind fun i => frame.slots[i]?.join

def setReturn (val : V) : Frame V :=
  match I.slotIdx with
  | none => { frame with locals := Function.update frame.locals "__return__" (some val) }
  | some _ => { frame with ret := some val }

def getReturn : Option V :=
  match I.slotIdx with
  | none => frame.locals "__return__"
  | some _ => frame.ret

/-- `resolveValue`. What a constant, a global or a function stands for is
`outside`; it is `Value{}` for the rest. -/
def resolveValue (outside : A → V) (I : Interp F A) (frame : Frame V) (v : A) : V :=
  (getLocal P I frame v).getD (outside v)

/-- What happens while a frame is there: it is bound to, and functions are
called. -/
inductive Op (F A V : Type) where
  | bind (v : A) (val : V)
  | ret (val : V)
  | call (f : F)

def step : Interp F A × Frame V → Op F A V → Interp F A × Frame V
  | (I, frame), .bind v val => (I, setLocal P I frame v val)
  | (I, frame), .ret val => (I, setReturn I frame val)
  | (I, frame), .call f => ((numberFunc P I f).1, frame)

/-- Calls of other functions, and then the frame of `fn`. -/
def run (session : Bool) (before : List F) (fn : F) (ops : List (Op F A V)) :
    Interp F A × Frame V :=
  let I : Interp F A := { slotIdx := if session then some fun _ => none else none }
  ops.foldl (step P) (initSlots P (before.foldl (fun I f => (numberFunc P I f).1) I) fn)

/-! ## §2. One binding for each value -/

/-- What a frame should hold: the values last bound, and the last result. -/
def bindings : (A → Option V) × Option V → Op F A V → (A → Option V) × Option V
  | (b, r), .bind v val => (Function.update b v (some val), r)
  | (b, _), .ret val => (b, some val)
  | b, .call _ => b

/-- The names of a function's values are no other operand's, and not
`__return__`. -/
structure NamesApart (fn : F) : Prop where
  apart : ∀ v ∈ P.values fn, ∀ w ∈ P.values fn ++ P.operands fn, P.name v = P.name w → v = w
  ret : ∀ w ∈ P.values fn ++ P.operands fn, P.name w ≠ "__return__"

variable {P}

/-- Values that have no number yet are numbered one after the other. -/
theorem foldl_add : ∀ (l : List A) (idx : A → Option Nat) (n : Nat), l.Nodup →
    (∀ v ∈ l, idx v = none) →
    l.foldl add (idx, n) =
      (fun v => if v ∈ l then some (n + l.idxOf v) else idx v, n + l.length) := by
  intro l
  induction l with
  | nil => intros; simp
  | cons a l ih =>
    intro idx n hnd hnone
    obtain ⟨ha, hnd⟩ := List.nodup_cons.mp hnd
    have hadd : add (idx, n) a = (Function.update idx a (some n), n + 1) := by
      simp [add, hnone a List.mem_cons_self]
    rw [List.foldl_cons, hadd, ih _ _ hnd ?_]
    · refine Prod.ext (funext fun v => ?_) (by simp; omega)
      by_cases hv : v = a
      · simp [hv, ha]
      · have hne : ¬a = v := fun h => hv h.symm
        simp [hv, hne]
        split <;> simp; omega
    · intro v hv
      have hne : v ≠ a := fun h => ha (h ▸ hv)
      rw [Function.update_of_ne hne, hnone v (List.mem_cons_of_mem _ hv)]

/-- The slot of a value, if its function is one of those called. -/
def slotOf (P : Prog F A) (called : List F) (v : A) : Option Nat :=
  (called.find? fun f => v ∈ P.values f).map fun f => (P.values f).idxOf v

/-- A session in which these functions have been called. -/
def numbered (P : Prog F A) (called : List F) : Interp F A where
  slotIdx := some (slotOf P called)
  fnSlots f := if f ∈ called then some (P.values f).length else none

omit [DecidableEq F] in
theorem slotOf_value {called : List F} {fn : F} (hfn : fn ∈ called) {v : A} (hv : v ∈ P.values fn) :
    slotOf P called v = some ((P.values fn).idxOf v) := by
  unfold slotOf
  cases hfind : called.find? fun f => v ∈ P.values f with
  | none => simpa [hv] using List.find?_eq_none.mp hfind fn hfn
  | some f =>
    have hvf : v ∈ P.values f := by simpa using List.find?_some hfind
    rw [P.owner (List.mem_append_left _ hv) hvf, Option.map_some]

omit [DecidableEq F] in
theorem slotOf_none {called : List F} {v : A} (h : ∀ f ∈ called, v ∉ P.values f) :
    slotOf P called v = none := by
  unfold slotOf
  rw [List.find?_eq_none.mpr fun f hf => by simpa using h f hf, Option.map_none]

theorem numberFunc_numbered (called : List F) (fn : F) :
    ∃ called', numberFunc P (numbered P called) fn = (numbered P called', (P.values fn).length) ∧
      fn ∈ called' ∧ ∀ f ∈ called, f ∈ called' := by
  by_cases hfn : fn ∈ called
  · exact ⟨called, by simp [numberFunc, numbered, hfn], hfn, fun _ => id⟩
  · refine ⟨fn :: called, ?_, List.mem_cons_self, fun _ => List.mem_cons_of_mem _⟩
    -- no value of the function has a slot yet
    have hnone : ∀ v ∈ P.values fn, slotOf P called v = none := by
      intro v hv
      refine slotOf_none fun f hf hvf => hfn ?_
      exact P.owner (List.mem_append_left _ hv) hvf ▸ hf
    have hidx : (fun v => if v ∈ P.values fn then some ((P.values fn).idxOf v) else
        slotOf P called v) = slotOf P (fn :: called) := by
      funext v
      by_cases hv : v ∈ P.values fn <;> simp [slotOf, hv]
    have hslots : Function.update (numbered P called).fnSlots fn (some (P.values fn).length) =
        (numbered P (fn :: called)).fnSlots := by
      funext f
      by_cases hf : f = fn <;> simp [numbered, hf]
    simp only [numbered] at hslots
    simp only [numberFunc, numbered, if_neg hfn, foldl_add _ _ 0 (P.nodup fn) hnone, Nat.zero_add,
      hidx, hslots]

theorem numberFunc_cli {I : Interp F A} (hI : I.slotIdx = none) (f : F) :
    numberFunc P I f = (I, 0) := by
  simp only [numberFunc, hI]

/-- The frame of `fn` holds the bindings `b`: in its slots, or under names
that are apart. -/
def Holds (P : Prog F A) (fn : F) (b : (A → Option V) × Option V) (s : Interp F A × Frame V) :
    Prop :=
  (∀ w, w ∉ P.values fn → b.1 w = none) ∧
  ((∃ called, s.1 = numbered P called ∧ fn ∈ called ∧ s.2.slots = (P.values fn).map b.1 ∧
    s.2.ret = b.2) ∨
  (s.1.slotIdx = none ∧ NamesApart P fn ∧ s.2.locals "__return__" = b.2 ∧
    ∀ w ∈ P.values fn ++ P.operands fn, s.2.locals (P.name w) = b.1 w))

/-- What a function binds are its own values. -/
def Op.Own (P : Prog F A) (fn : F) : Op F A V → Prop
  | .bind v _ => v ∈ P.values fn
  | _ => True

variable {fn : F} {b : (A → Option V) × Option V} {s : Interp F A × Frame V}

theorem Holds.step (h : Holds P fn b s) {op : Op F A V} (hop : op.Own P fn) :
    Holds P fn (bindings b op) (step P s op) := by
  obtain ⟨I, frame⟩ := s
  obtain ⟨hb, h⟩ := h
  have hb' : ∀ w, w ∉ P.values fn → (bindings b op).1 w = none := by
    intro w hw
    cases op with
    | bind v =>
      have hne : w ≠ v := fun he => hw (he ▸ hop)
      exact (Function.update_of_ne hne ..).trans (hb w hw)
    | ret | call => exact hb w hw
  refine ⟨hb', ?_⟩
  rcases h with ⟨called, rfl, hfn, hslots, hret⟩ | ⟨hI, hnames, hret, hlocals⟩
  · left
    cases op with
    | call f =>
      obtain ⟨called', heq, -, hsub⟩ := @numberFunc_numbered _ _ _ _ P called f
      exact ⟨called', congrArg Prod.fst heq, hsub fn hfn, hslots, hret⟩
    | ret => exact ⟨called, rfl, hfn, hslots, rfl⟩
    | bind v =>
      refine ⟨called, rfl, hfn, ?_, ?_⟩ <;>
        simp only [Locals.step, setLocal, numbered, slotOf_value hfn hop]
      · rw [bindings, (P.nodup fn).map_update, if_pos (show v ∈ P.values fn from hop)]
        exact congrArg (List.set · _ _) hslots
      · exact hret
  · right
    simp only at hI
    cases op with
    | call f => exact ⟨(congrArg (·.1.slotIdx) (numberFunc_cli hI f)).trans hI, hnames, hret, hlocals⟩
    | ret =>
      simp only [Locals.step, setReturn, hI]
      refine ⟨trivial, hnames, Function.update_self .., ?_⟩
      intro w hw
      exact (Function.update_of_ne (hnames.ret w hw) ..).trans (hlocals w hw)
    | bind v =>
      simp only [Locals.step, setLocal, hI]
      refine ⟨trivial, hnames, ?_, ?_⟩
      · exact (Function.update_of_ne (hnames.ret v (List.mem_append_left _ hop)).symm ..).trans hret
      · intro w hw
        by_cases hwv : w = v
        · subst hwv
          simp [bindings]
        · have hne : P.name w ≠ P.name v := fun he => hwv (hnames.apart v hop w hw he.symm).symm
          simp only [bindings, Function.update_of_ne hne, Function.update_of_ne hwv]
          exact hlocals w hw

theorem Holds.run {ops : List (Op F A V)} : ∀ {b : (A → Option V) × Option V}
    {s : Interp F A × Frame V}, Holds P fn b s → (∀ op ∈ ops, op.Own P fn) →
    Holds P fn (ops.foldl bindings b) (ops.foldl (Locals.step P) s) := by
  induction ops with
  | nil => exact fun h _ => h
  | cons op ops ih =>
    intro b s h hops
    exact ih (h.step (hops op List.mem_cons_self)) fun op' h' => hops op' (List.mem_cons_of_mem _ h')

/-- What a frame holds is what is read. -/
theorem Holds.get (h : Holds P fn b s) : getReturn s.1 s.2 = b.2 ∧
    ∀ w ∈ P.values fn ++ P.operands fn, getLocal P s.1 s.2 w = b.1 w := by
  obtain ⟨I, frame⟩ := s
  obtain ⟨hb, ⟨called, rfl, hfn, hslots, hret⟩ | ⟨hI, -, hret, hlocals⟩⟩ := h
  · refine ⟨hret, ?_⟩
    intro w hw
    simp only [getLocal, numbered]
    by_cases hv : w ∈ P.values fn
    · simp only at hslots
      simp [slotOf_value hfn hv, hslots, hv]
    · rw [slotOf_none fun f _ hwf => hv (P.owner hw hwf ▸ hwf), hb w hv]
      rfl
  · simp only at hI
    simp only [getReturn, getLocal, hI]
    exact ⟨hret, hlocals⟩

/-- A new frame, after calls of other functions. -/
theorem initSlots_holds (session : Bool) (hnames : session = false → NamesApart P fn)
    (before : List F) :
    Holds P fn (fun _ => none, (none : Option V)) (run P session before fn []) := by
  refine ⟨fun _ _ => rfl, ?_⟩
  cases session with
  | true =>
    have hbefore : ∃ called, before.foldl (fun I f => (numberFunc P I f).1)
        { slotIdx := some fun _ => none } = numbered P called := by
      refine List.foldlRecOn (motive := fun I => ∃ called, I = numbered P called) before _
        ⟨[], by simp [numbered]; rfl⟩ ?_
      rintro _ ⟨called, rfl⟩ f -
      obtain ⟨called', heq, -⟩ := @numberFunc_numbered _ _ _ _ P called f
      exact ⟨called', congrArg Prod.fst heq⟩
    obtain ⟨called, hcalled⟩ := hbefore
    obtain ⟨called', heq, hfn, -⟩ := @numberFunc_numbered _ _ _ _ P called fn
    left
    simp only [run, if_true, hcalled, List.foldl_nil, initSlots, heq]
    exact ⟨called', rfl, hfn, by simp, trivial⟩
  | false =>
    have hbefore : (before.foldl (fun I f => (numberFunc P I f).1) { slotIdx := none }).slotIdx =
        none := by
      refine List.foldlRecOn (motive := fun I : Interp F A => I.slotIdx = none) before _ rfl ?_
      intro I hI f _
      rw [numberFunc_cli hI f, hI]
    right
    exact ⟨(congrArg (·.1.slotIdx) (numberFunc_cli hbefore fn)).trans hbefore, hnames rfl, rfl, fun _ _ => rfl⟩

/-- **Locals never interfere**, in a session, and on the command line if the
names are apart. After any bindings and calls, an operand of the function has
the value last bound to it; one that is not the function's own has the value
that it stands for. And the result is the last one. -/
theorem locals_apart (P : Prog F A) (session : Bool) (fn : F)
    (hnames : session = false → NamesApart P fn) (before : List F) (ops : List (Op F A V))
    (hops : ∀ op ∈ ops, op.Own P fn) (outside : A → V) :
    let s := run P session before fn ops
    let b := ops.foldl bindings (fun _ => none, none)
    getReturn s.1 s.2 = b.2 ∧ ∀ w ∈ P.values fn ++ P.operands fn,
      resolveValue P outside s.1 s.2 w = (b.1 w).getD (outside w) ∧
      (w ∉ P.values fn → resolveValue P outside s.1 s.2 w = outside w) := by
  have h := (initSlots_holds (V := V) session hnames before).run hops
  obtain ⟨hret, hget⟩ := h.get
  refine ⟨hret, ?_⟩
  intro w hw
  have hval := hget w hw
  refine ⟨congrArg (Option.getD · (outside w)) hval, ?_⟩
  intro hnot
  exact congrArg (Option.getD · (outside w)) (hval.trans (h.1 w hnot))

/-- A function with the parameters 0 and 1 and the register 2, which uses the
global 3 of another package. -/
def params (names : List String) : Prog Unit Nat where
  values _ := [0, 1, 2]
  operands _ := [3]
  name v := names[v]?.getD ""
  nodup _ := by decide
  owner _ _ := rfl

/-- `func f(t0, Args int)`. -/
def clash : Prog Unit Nat := params ["t0", "Args", "t0", "Args"]

theorem locals_apart_clash :
    (let s := run clash true [] () [.bind 0 (5 : Nat), .bind 2 6]
     resolveValue clash (fun _ => 7) s.1 s.2 0 = 5) ∧
    let P := params ["x", "y", "t0", "Args"]
    let s := run P false [] () [.bind 0 (5 : Nat), .bind 1 4, .bind 2 6, .ret 6]
    getReturn s.1 s.2 = some 6 ∧ resolveValue P (fun _ => 7) s.1 s.2 0 = 5 ∧
      resolveValue P (fun _ => 7) s.1 s.2 3 = 7 := by
  refine ⟨((locals_apart clash true () nofun [] [.bind 0 5, .bind 2 6] (by simp [Op.Own, clash, params])
    fun _ => 7).2 0 (by decide)).1, ?_⟩
  -- on the command line, with names that are apart
  obtain ⟨hret, hvals⟩ := locals_apart (params ["x", "y", "t0", "Args"]) false ()
    (fun _ => ⟨by decide, by decide⟩) [] [.bind 0 (5 : Nat), .bind 1 4, .bind 2 6, .ret 6]
    (by simp [Op.Own, params]) fun _ => 7
  exact ⟨hret, (hvals 0 (by decide)).1, (hvals 3 (by decide)).1⟩

/-- **Names clash** on the command line: a register overwrites the parameter
that is called t0, and a global has the value of the parameter. -/
theorem names_clash :
    let s := run clash false [] () [.bind 0 (5 : Nat), .bind 1 4, .bind 2 6]
    resolveValue clash (fun _ => 7) s.1 s.2 0 = 6 ∧ resolveValue clash (fun _ => 7) s.1 s.2 3 = 4 := by
  decide

end Giri.Locals
