/-
Giri.Interp.Phi — the phis of a block take effect together (`execBlock`, the
case ssa.Phi of `execOp`, `phiIncoming`).

When a block is entered the incoming values of all its phis are computed, and
every phi then installs the next one. Values are kept in slots in a session,
and under their names on the command line (`Interp/Locals.lean`).

There are any number of frames, of any goroutines, and which of them goes on
is not determined: what an instruction calls runs in frames of its own before
the instruction takes effect. What instructions other than phis compute is
left open. `bound` and `entry` are history: what was last bound to the values
of a frame, and what was when its block was entered.
-/
import Giri.Interp.Locals
import Giri.Lib.Transition

namespace Giri.Phi

open Locals Transition

variable {F A V : Type} [DecidableEq F] [DecidableEq A]

/-! ## §1. Blocks and frames -/

inductive Instr (A : Type) where
  | phi (v : A) (edges : List A)
  /-- Any other instruction, and the value that it is. -/
  | other (v : Option A)

def Instr.value : Instr A → Option A
  | .phi v _ => some v
  | .other v => v

structure Block (A : Type) where
  preds : List Nat := []
  instrs : List (Instr A) := []

/-- The phis that a block begins with. -/
def phisOf : List (Instr A) → List (A × List A)
  | .phi v edges :: is => (v, edges) :: phisOf is
  | _ => []

/-- Control-flow graphs. An instruction is in one place, and the edges of a
phi are operands of its function. -/
structure Graph (P : Prog F A) where
  blocks : F → Nat → Block A
  own : ∀ f b, ((blocks f b).instrs.filterMap Instr.value).Sublist (P.values f)
  edges : ∀ f b v es, .phi v es ∈ (blocks f b).instrs →
    es.length = (blocks f b).preds.length ∧ ∀ e ∈ es, e ∈ P.values f ++ P.operands f

/-- A program. What a constant, a global or a function stands for is
`outside`, and `empty` is `Value{}`. -/
structure Code (P : Prog F A) (V : Type) extends Graph P where
  outside : A → V
  empty : V

/-- A frame of `fn`, and the place where it is. -/
structure Activation (F A V : Type) where
  fn : F
  block : Nat := 0
  prev : Option Nat := none
  pc : Nat := 0
  frame : Frame V
  phiVals : List V := []
  phiNext : Nat := 0
  bound : (A → Option V) × Option V := (fun _ => none, none)
  entry : A → Option V := fun _ => none

/-- `limit` is `MaxSteps`, or the limit of a session's call; 0 is none. -/
structure Mode where
  session : Bool
  limit : Nat := 0
  tracing : Bool := false

structure State (F A V : Type) where
  interp : Interp F A
  frames : Nat → Option (Activation F A V) := fun _ => none
  steps : Nat := 0
  /-- `haltAll`. -/
  halted : Bool := false
  /-- The calls of `Tracer.Record`. -/
  traced : List (A × V) := []

/-- What an instruction that is no phi comes to. -/
inductive Result (V : Type) where
  | nothing
  | value (val : V)
  | ret (val : V)
  | goto (block : Nat)

inductive Act (F A V : Type) where
  /-- `execFunction` begins, in a new frame. -/
  | call (id : Nat) (fn : F) (args : List (A × V))
  | exec (id : Nat) (result : Result V)
  /-- A panic was recovered, and the Recover block is entered. -/
  | recover (id : Nat) (block : Nat)

/-- The edge for the block that was left, or else the first one. -/
def edgeOf (preds : List Nat) (prev : Option Nat) (edges : List A) : Option A :=
  match prev.bind (preds.idxOf? ·) with
  | some i => edges[i]?
  | none => edges.head?

section

variable {P : Prog F A} (G : Code P V) (m : Mode)

def Code.blockOf (a : Activation F A V) : Block A := G.blocks a.fn a.block

/-- The phis of the block. -/
def Code.phisAt (a : Activation F A V) : List (A × List A) := phisOf (G.blockOf a).instrs

namespace Activation

variable (I : Interp F A) (a : Activation F A V)

/-- `phiIncoming`. -/
def phiIncoming (edges : List A) : V :=
  ((edgeOf (G.blockOf a).preds a.prev edges).map (resolveValue P G.outside I a.frame)).getD G.empty

/-- `execBlock`, up to its loop over the instructions. -/
def enter (block : Nat) (prev : Option Nat) : Activation F A V :=
  let a := { a with block, prev, pc := 0, phiNext := 0, entry := a.bound.1 }
  { a with phiVals := (G.phisAt a).map fun x => a.phiIncoming G I x.2 }

/-- `setLocal` or `setReturn`. -/
def apply (P : Prog F A) (op : Op F A V) : Activation F A V :=
  { a with frame := (Locals.step P (I, a.frame) op).2, bound := bindings a.bound op }

/-- `execOp`. -/
def execOp : Instr A → Result V → Activation F A V
  | .phi v edges, _ =>
    match a.phiVals[a.phiNext]? with
    | some val => { a.apply I P (.bind v val) with phiNext := a.phiNext + 1, pc := a.pc + 1 }
    | none =>
      { a.apply I P (.bind v (a.phiIncoming G I edges)) with pc := a.pc + 1 }
  | .other (some v), .value val => { a.apply I P (.bind v val) with pc := a.pc + 1 }
  | .other _, .ret val => { a.apply I P (.ret val) with pc := a.pc + 1 }
  | .other _, .goto b => a.enter G I b (some a.block)
  | .other _, _ => { a with pc := a.pc + 1 }

end Activation

namespace State

variable (s : State F A V)

def setFrame (id : Nat) (a : Activation F A V) : State F A V :=
  { s with frames := Function.update s.frames id (some a) }

/-- The end of `execInstructionSession`. -/
def record (i : Instr A) (a : Activation F A V) : List (A × V) :=
  if m.session && m.tracing then
    (i.value.bind fun v => (getLocal P s.interp a.frame v).map (v, ·)).toList
  else []

/-- The frame of a call, with its arguments bound. -/
def callee (fn : F) (args : List (A × V)) : Interp F A × Activation F A V :=
  let (I, frame) := initSlots P s.interp fn
  let a : Activation F A V := { fn, frame }
  (I, (args.foldl (fun a x => a.apply I P (.bind x.1 x.2)) a).enter G I 0 none)

/-- One step; `none` if it is not possible. -/
def step : Act F A V → Option (State F A V)
  | .call id fn args =>
    if s.halted ∨ (s.frames id).isSome ∨ ∃ x ∈ args, x.1 ∉ P.values fn then none
    else
      let (interp, a) := s.callee G fn args
      some { s.setFrame id a with interp }
  | .exec id result =>
    match s.frames id with
    | none => none
    | some a =>
      if s.halted then none
      else if 0 < m.limit ∧ m.limit ≤ s.steps then some { s with halted := true }
      else
        ((G.blockOf a).instrs[a.pc]?).map fun i =>
          let a := a.execOp G s.interp i result
          { s.setFrame id a with
            steps := s.steps + 1, traced := s.traced ++ s.record (P := P) m i a }
  | .recover id b =>
    match s.frames id with
    | none => none
    | some a => some (s.setFrame id (a.enter G s.interp b none))

def init : State F A V where
  interp := { slotIdx := if m.session then some fun _ => none else none }

end State

end

/-- On the command line the names of a function that is called are apart. -/
def Act.Clear (P : Prog F A) (m : Mode) : Act F A V → Prop
  | .call _ fn _ => m.session = false → NamesApart P fn
  | _ => True

/-! ## §2. The cursor -/

variable {P : Prog F A} {G : Code P V} {m : Mode}
  {I : Interp F A} {a : Activation F A V} {s t : State F A V}

omit [DecidableEq A] in
theorem getElem?_of_phisOf {is : List (Instr A)} {k : Nat} {x : A × List A}
    (h : (phisOf is)[k]? = some x) : is[k]? = some (.phi x.1 x.2) := by
  induction is generalizing k with
  | nil => simp [phisOf] at h
  | cons i is ih =>
    cases i with
    | phi v edges =>
      cases k with
      | zero =>
        obtain rfl : (v, edges) = x := by simpa [phisOf] using h
        rfl
      | succ => simpa using ih (by simpa [phisOf] using h)
    | other => simp [phisOf] at h

omit [DecidableEq F] [DecidableEq A] in
/-- Two instructions of a block are different values. -/
theorem Graph.value_ne (G : Graph P) {f : F} {b j k : Nat} {i i' : Instr A} {v w : A}
    (hj : (G.blocks f b).instrs[j]? = some i) (hk : (G.blocks f b).instrs[k]? = some i')
    (hi : i.value = some v) (hi' : i'.value = some w) (hlt : j < k) : v ≠ w := by
  have hnd := (G.own f b).nodup (P.nodup f)
  rw [List.Nodup, List.pairwise_filterMap, List.pairwise_iff_getElem] at hnd
  obtain ⟨hj', rfl⟩ := List.getElem?_eq_some_iff.mp hj
  obtain ⟨hk', rfl⟩ := List.getElem?_eq_some_iff.mp hk
  exact hnd j k hj' hk' hlt v hi w hi'

/-- What the edges of a phi came to when the block was entered. -/
def incoming (G : Code P V) (a : Activation F A V)
    (edges : List A) : V :=
  ((edgeOf (G.blockOf a).preds a.prev edges).map fun e => (a.entry e).getD (G.outside e)).getD G.empty

/-- A frame has the bindings of its history, and of the phis of its block
those before its place have been installed. -/
structure Cursor (G : Code P V) (I : Interp F A)
    (a : Activation F A V) : Prop where
  holds : Holds P a.fn a.bound (I, a.frame)
  next : a.phiNext = min a.pc (G.phisAt a).length
  vals : a.phiVals = (G.phisAt a).map (incoming G a ·.2)
  done : ∀ k < a.pc, ∀ x, (G.phisAt a)[k]? = some x →
    a.bound.1 x.1 = some (incoming G a x.2)

namespace Cursor

/-- Another function is numbered. -/
theorem call (h : Cursor G I a) (f : F) :
    Cursor G (numberFunc P I f).1 a :=
  { h with holds := h.holds.step (show (Op.call f : Op F A V).Own P a.fn from trivial) }

theorem enter (h : Holds P a.fn a.bound (I, a.frame)) (b : Nat) (prev : Option Nat) :
    Cursor G I (a.enter G I b prev) := by
  refine ⟨h, by simp [Activation.enter], ?_, fun k hk => absurd hk (Nat.not_lt_zero k)⟩
  refine List.map_congr_left fun x hx => ?_
  obtain ⟨k, hk⟩ := List.mem_iff_getElem?.mp hx
  have hmem := (G.edges a.fn b _ _ (List.mem_of_getElem? (getElem?_of_phisOf hk))).2
  -- the edges are operands, so what is read is what is bound
  have hread (e : A) (he : e ∈ x.2) :
      resolveValue P G.outside I a.frame e = (a.bound.1 e).getD (G.outside e) :=
    congrArg (Option.getD · (G.outside e)) (h.get.2 e (hmem e he))
  simp only [Activation.phiIncoming, incoming]
  congr 1
  refine Option.map_congr fun e he => hread e ?_
  simp only [edgeOf] at he
  split at he
  · exact List.mem_of_getElem? he
  · exact List.mem_of_head? he

/-- An instruction that is no phi has bound nothing. -/
theorem pass (h : Cursor G I a) (hnone : (G.phisAt a)[a.pc]? = none)
    {frame : Frame V} {r : Option V} (hholds : Holds P a.fn (a.bound.1, r) (I, frame)) :
    Cursor G I { a with frame, bound := (a.bound.1, r), pc := a.pc + 1 } := by
  have hle := List.getElem?_eq_none_iff.mp hnone
  have hnext : a.phiNext = min (a.pc + 1) (G.phisAt a).length := by
    rw [h.next]
    omega
  refine ⟨hholds, hnext, h.vals, fun k hk x hx => ?_⟩
  rcases Nat.lt_succ_iff_lt_or_eq.mp hk with hlt | rfl
  · exact h.done k hlt x hx
  · cases hnone.symm.trans hx

/-- The instruction at the cursor is bound; a phi to its incoming value. -/
theorem bind (h : Cursor G I a) {i : Instr A} {v : A} {val : V} {n : Nat}
    (hi : (G.blockOf a).instrs[a.pc]? = some i) (hv : i.value = some v)
    (hval : ∀ x, (G.phisAt a)[a.pc]? = some x →
      val = incoming G a x.2)
    (hn : n = min (a.pc + 1) (G.phisAt a).length) :
    Cursor G I { a.apply I P (.bind v val) with phiNext := n, pc := a.pc + 1 } := by
  have hown : v ∈ P.values a.fn :=
    (G.own a.fn a.block).subset (List.mem_filterMap.mpr ⟨i, List.mem_of_getElem? hi, hv⟩)
  refine ⟨h.holds.step (show (Op.bind v val : Op F A V).Own P a.fn from hown), hn, h.vals, fun k hk x hx => ?_⟩
  have hinstr := getElem?_of_phisOf hx
  rcases Nat.lt_succ_iff_lt_or_eq.mp hk with hlt | rfl
  · have hne : x.1 ≠ v := G.value_ne hinstr hi rfl hv hlt
    exact (Function.update_of_ne hne ..).trans (h.done k hlt x hx)
  · cases Option.some.inj (hi.symm.trans hinstr)
    cases hv
    exact (Function.update_self ..).trans (congrArg some (hval x hx))

theorem execOp (h : Cursor G I a) {i : Instr A}
    (hi : (G.blockOf a).instrs[a.pc]? = some i) (result : Result V) :
    Cursor G I (a.execOp G I i result) := by
  have hnext := h.next
  have hlen : a.phiVals.length = (G.phisAt a).length := by
    rw [h.vals, List.length_map]
  cases i with
  | phi v edges =>
    simp only [Activation.execOp]
    split
    · rename_i val hval
      have hlt : a.phiNext < a.phiVals.length := (List.getElem?_eq_some_iff.mp hval).1
      refine h.bind hi rfl (fun x hx => ?_) (by omega)
      have hpc : a.phiNext = a.pc := by omega
      rw [hpc, h.vals, List.getElem?_map, hx] at hval
      exact (Option.some.inj hval).symm
    · rename_i hnone
      have hle := List.getElem?_eq_none_iff.mp hnone
      refine h.bind hi rfl (fun x hx => ?_) (by simp only [Activation.apply]; omega)
      have hlt := (List.getElem?_eq_some_iff.mp hx).1
      omega
  | other w =>
    have hnone : (G.phisAt a)[a.pc]? = none := by
      by_contra hsome
      obtain ⟨x, hx⟩ := Option.ne_none_iff_exists'.mp hsome
      cases Option.some.inj (hi.symm.trans (getElem?_of_phisOf hx))
    have hle := List.getElem?_eq_none_iff.mp hnone
    have hskip := h.pass hnone h.holds
    cases result with
    | nothing => cases w <;> exact hskip
    | value val =>
      cases w with
      | none => exact hskip
      | some v =>
        refine h.bind hi rfl (fun x hx => ?_) (by simp only [Activation.apply]; omega)
        cases hnone.symm.trans hx
    | ret val =>
      have hret := h.holds.step (show (Op.ret val : Op F A V).Own P a.fn from trivial)
      cases w <;> exact h.pass hnone hret
    | goto b => cases w <;> exact enter h.holds b _

end Cursor

/-- A phi leaves the frame where it is. -/
theorem execOp_phi (G : Code P V) (I : Interp F A)
    (a : Activation F A V) (v : A) (edges : List A) (result : Result V) :
    ∃ frame bound n, a.execOp G I (.phi v edges) result =
      { a with frame, bound, phiNext := n, pc := a.pc + 1 } := by
  simp only [Activation.execOp, Activation.apply]
  split
  · exact ⟨_, _, _, rfl⟩
  · exact ⟨_, _, _, rfl⟩

/-! ## §3. Runs -/

/-- The frames are as they should be, and functions have been numbered one
after the other. -/
structure Sound (G : Code P V) (m : Mode) (s : State F A V) : Prop where
  cursor : ∀ id a, s.frames id = some a → Cursor G s.interp a
  interp : ∃ before : List F, s.interp =
    before.foldl (fun I f => (numberFunc P I f).1) (State.init (V := V) m).interp

theorem Sound.setFrame (h : Sound G m s) {id : Nat}
    (ha : Cursor G s.interp a) : Sound G m (s.setFrame id a) := by
  refine ⟨fun id' a' ha' => ?_, h.interp⟩
  simp only [State.setFrame, Function.update_apply] at ha'
  split at ha'
  · cases ha'
    exact ha
  · exact h.cursor id' a' ha'

/-- The arguments of a call are bound. -/
theorem holds_args {args : List (A × V)} : ∀ {a : Activation F A V},
    Holds P a.fn a.bound (I, a.frame) → (∀ x ∈ args, x.1 ∈ P.values a.fn) →
    let b := args.foldl (fun a x => a.apply I P (.bind x.1 x.2)) a
    Holds P b.fn b.bound (I, b.frame) := by
  induction args with
  | nil => exact fun h _ => h
  | cons x args ih =>
    intro a h hargs
    have hown : (Op.bind x.1 x.2).Own P a.fn := hargs x List.mem_cons_self
    have hx := h.step hown
    exact ih (a := a.apply I P (.bind x.1 x.2)) hx fun y hy => hargs y (List.mem_cons_of_mem _ hy)

theorem Sound.call (h : Sound G m s) {fn : F} {args : List (A × V)} (id : Nat)
    (hclear : m.session = false → NamesApart P fn) (hargs : ∀ x ∈ args, x.1 ∈ P.values fn) :
    Sound G m { s.setFrame id (s.callee G fn args).2 with
      interp := (numberFunc P s.interp fn).1 } := by
  obtain ⟨before, hbefore⟩ := h.interp
  have hnew : Holds P fn (fun _ => none, (none : Option V)) (initSlots P s.interp fn) := by
    rw [hbefore]
    exact initSlots_holds m.session hclear before
  have hcallee : Cursor G (numberFunc P s.interp fn).1
      (s.callee G fn args).2 :=
    .enter (holds_args (a := { fn, frame := (initSlots P s.interp fn).2 }) hnew hargs) 0 none
  have hothers : Sound G m { s with interp := (numberFunc P s.interp fn).1 } := by
    refine ⟨fun id a ha => (h.cursor id a ha).call fn, before ++ [fn], ?_⟩
    rw [List.foldl_append, ← hbefore]
    rfl
  exact hothers.setFrame hcallee

theorem Sound.step (h : Sound G m s) {act : Act F A V}
    (hst : s.step G m act = some t) (hclear : act.Clear P m) :
    Sound G m t := by
  cases act with
  | call id fn args =>
    simp only [State.step] at hst
    split at hst
    · cases hst
    · rename_i hcall
      push Not at hcall
      cases hst
      exact h.call id hclear hcall.2.2
  | exec id result =>
    simp only [State.step] at hst
    split at hst
    · cases hst
    · rename_i a ha
      split at hst
      · cases hst
      · split at hst
        · cases hst
          exact ⟨h.cursor, h.interp⟩
        · obtain ⟨i, hi, rfl⟩ := Option.map_eq_some_iff.mp hst
          have hnext := (h.setFrame ((h.cursor id a ha).execOp hi result) : Sound G m (s.setFrame id _))
          exact ⟨hnext.cursor, hnext.interp⟩
  | recover id b =>
    simp only [State.step] at hst
    split at hst
    · cases hst
    · rename_i a ha
      cases hst
      exact h.setFrame (.enter (h.cursor id a ha).holds b none)

/-- The steps of a run on the command line in which names are apart, or of any
run of a session. -/
def Step (G : Code P V) (m : Mode) (s : State F A V)
    (act : Act F A V) (t : State F A V) : Prop :=
  s.step G m act = some t ∧ act.Clear P m

theorem sound {acts : List (Act F A V)} (h : Run (Step G m) (.init m) acts s) :
    Sound G m s :=
  h.invariant (P := Sound G m) (fun _ _ _ hst hI => hI.step hst.1 hst.2)
    ⟨nofun, [], rfl⟩

/-- **Phis take effect in parallel**, in a session, and on the command line if
names are apart. In every state of a run, also one that the step limit has
ended, every frame in a block that it has entered from a predecessor has, for
every phi before its place, the value that the edge for this predecessor had
when the block was entered; and that value is what a tracer is told. -/
theorem phis_parallel {acts : List (Act F A V)}
    (hs : Run (Step G m) (.init m) acts s) {id : Nat} (ha : s.frames id = some a)
    {p i k : Nat} (hprev : a.prev = some p) (hi : (G.blockOf a).preds.idxOf? p = some i)
    {v e : A} {edges : List A} (hk : (G.phisAt a)[k]? = some (v, edges))
    (he : edges[i]? = some e) :
    (k < a.pc → getLocal P s.interp a.frame v = some ((a.entry e).getD (G.outside e))) ∧
      ∀ result t, a.pc = k → s.step G m (.exec id result) = some t →
        t.halted = false → t.traced = s.traced ++
          if m.session && m.tracing then [(v, (a.entry e).getD (G.outside e))] else [] := by
  have hsound := sound hs
  have hcursor := hsound.cursor id a ha
  have hin : incoming G a edges = (a.entry e).getD (G.outside e) := by
    simp [incoming, edgeOf, hprev, hi, he]
  have hread {I : Interp F A} {b : Activation F A V} (hb : Cursor G I b)
      (hfn : b.fn = a.fn) (hval : b.bound.1 v = some ((a.entry e).getD (G.outside e))) :
      getLocal P I b.frame v = some ((a.entry e).getD (G.outside e)) := by
    have hown := (G.own a.fn a.block).subset
      (List.mem_filterMap.mpr ⟨_, List.mem_of_getElem? (getElem?_of_phisOf hk), rfl⟩)
    rw [hb.holds.get.2 v (List.mem_append_left _ (hfn ▸ hown)), hval]
  refine ⟨fun hlt => hread hcursor rfl (hin ▸ hcursor.done k hlt _ hk), ?_⟩
  rintro result t rfl hst hrun
  have hinstr := getElem?_of_phisOf hk
  simp only [State.step, ha, hinstr, Option.map_some] at hst
  split at hst
  · cases hst
  · split at hst
    · cases hst
      cases hrun
    · cases hst
      have hnext := hcursor.execOp hinstr result
      obtain ⟨frame, bound, n, heq⟩ :=
        execOp_phi G s.interp a v edges result
      rw [heq] at hnext ⊢
      have hval := hread hnext rfl (hin ▸ hnext.done a.pc (Nat.lt_succ_self _) _ hk)
      simp only [State.record, Instr.value, Option.bind_some, hval, Option.map_some,
        Option.toList_some]

/-- `a, b := t0, g(); for … { a, b = b, a }` in a function with the parameter
`t0`, which is value 0: the register 1 of the call of g, and the phis 2 and 3
of the loop. -/
def swapValues (name : Nat → String) : Prog Unit Nat where
  values _ := [0, 1, 2, 3]
  operands _ := []
  name := name
  nodup _ := by decide
  owner _ _ := rfl

def swapBlocks : List (Block Nat) :=
  [{ instrs := [.other (some 1), .other none] },
    { preds := [0, 1], instrs := [.phi 2 [0, 3], .phi 3 [1, 2], .other none] }]

def swapLoop (name : Nat → String) : Code (swapValues name) Nat where
  blocks _ b := (swapBlocks[b]?).getD {}
  own _ b := by
    rcases b with _ | _ | b <;> simp [swapBlocks, swapValues, Instr.value]
  edges _ b v es h := by
    rcases b with _ | _ | b <;> simp [swapBlocks] at h
    rcases h with ⟨-, rfl⟩ | ⟨-, rfl⟩ <;> simp [swapBlocks, swapValues]
  outside _ := 0
  empty := 0

/-- The loop is entered, and turns once. -/
def turn : List (Act Unit Nat Nat) :=
  [.call 0 () [(0, 5)], .exec 0 (.value 6), .exec 0 (.goto 1), .exec 0 .nothing, .exec 0 .nothing,
    .exec 0 (.goto 1), .exec 0 .nothing, .exec 0 .nothing]

def turned (name : Nat → String) (m : Mode) (n : Nat) : State Unit Nat Nat :=
  (exec (State.step (swapLoop name) m) (.init m) (turn.take n)).getD (.init m)

/-- The limit is reached between the phis. The first has been exchanged. -/
theorem phis_parallel_swap :
    let m : Mode := { session := true, limit := 6, tracing := true }
    let s := turned (fun _ => "t0") m 8
    s.halted = true ∧ ∃ a, s.frames 0 = some a ∧
      getLocal (swapValues fun _ => "t0") s.interp a.frame 2 = some 6 := by
  intro m s
  have hs : Run (Step (swapLoop fun _ => "t0") m) (.init m) turn s :=
    (run_of_exec (exec_getD (by decide))).mono fun _ act _ hst =>
      ⟨hst, by cases act <;> simp [Act.Clear, m]⟩
  refine ⟨rfl, _, rfl, ?_⟩
  exact (phis_parallel hs (show s.frames 0 = some _ from rfl) (p := 1) (i := 1) (k := 0) rfl rfl rfl rfl).1 Nat.zero_lt_one

/-- The names that go/ssa gives. -/
def ssaName (v : Nat) : String := if v ≤ 1 then "t0" else if v = 2 then "t1" else "t2"

/-- On the command line the first phi has the value of the register, and not
that of the parameter. -/
theorem phi_name_clash :
    let s := turned ssaName { session := false } 4
    ∃ a, s.frames 0 = some a ∧ a.prev = some 0 ∧ a.entry 0 = some 5 ∧
      getLocal (swapValues ssaName) s.interp a.frame 2 = some 6 :=
  ⟨_, rfl, rfl, rfl, rfl⟩

end Giri.Phi
