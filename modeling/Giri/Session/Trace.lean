/-
Giri.Session.Trace — the values that a traced function computes (`tracer` of
`trace.go`, and its calls in `execInstructionSession`).

The prologue does not know how an instruction ended. After `execOp` it reads
what is bound to the instruction in its frame and records that; a cache hit
records the result of the cache. So an execution that fails is recorded too,
if something is bound: a division by zero binds 0 before its panic unwinds,
and a receive that is aborted leaves the value of the iteration before.

An execution takes time: calls push frames of other functions or of the same
one, and other goroutines run while an instruction waits. So its start, its
`setLocal` and its end are steps of their own here, in any order across the
frames.
-/
import Giri.Session.Marshal

namespace Giri.Trace

open Value (GoType)
open Marshal (Floats Raw)

/-! ## §1. The tracer -/

/-- `TraceKind`. -/
inductive TraceKind where
  | int
  | uint
  | float
  | bool
  | string
  | other
  deriving DecidableEq

/-- The type of an `ssa.Value`. -/
inductive ValueType where
  | single (t : GoType)
  | tuple (len : Nat)

/-- `traceKind`. -/
def traceKind : ValueType → TraceKind
  | .tuple _ => .other
  | .single t =>
    match t.underlying with
    | .basic .bool | .basic .untypedBool => .bool
    | .basic .string | .basic .untypedString => .string
    | .basic .float32 | .basic .float64 | .basic .untypedFloat => .float
    | .basic .uint | .basic .uint8 | .basic .uint16 | .basic .uint32 | .basic .uint64
    | .basic .uintptr => .uint
    | .basic .int | .basic .int8 | .basic .int16 | .basic .int32 | .basic .int64
    | .basic .untypedInt | .basic .untypedRune => .int
    | _ => .other

/-- An entry of `Ints`, `Uints`, `Floats`, `Bools` or `Strings`. -/
inductive Entry (F : Floats) where
  | int (n : BitVec 64)
  | uint (n : BitVec 64)
  | float (f : F.F64)
  | bool (b : Bool)
  | string (s : String)

variable {F : Floats}

/-- The entry for a value, if it has the representation of its kind. -/
def entry : TraceKind → Raw F → Option (Entry F)
  | .int, .int n => some (.int n)
  | .uint, .int n => some (.uint n)
  | .float, .float f => some (.float f)
  | .bool, .bool b => some (.bool b)
  | .string, .string s => some (.string s)
  | _, _ => none

/-- `ValueTrace`; `entries` is the slice that `Kind` selects. -/
structure ValueTrace (F : Floats) where
  kind : TraceKind
  entries : List (Entry F) := []
  count : Nat := 0
  truncated : Bool := false
  isOpaque : Bool := false

/-- The instructions of the program. One that is no `ssa.Value` has no
type. -/
structure Program (I Fn : Type) where
  parent : I → Fn
  type : I → Option ValueType

/-- `tracer`. -/
structure Tracer (I Fn : Type) (F : Floats) where
  fn : Fn
  cap : Nat
  traces : I → Option (ValueTrace F) := fun _ => none

/-- `tr.cap`. -/
def traceCap (opt : Int) : Nat := if opt ≤ 0 then 1024 else opt.toNat

/-- The end of `Record`. -/
def ValueTrace.add (t : ValueTrace F) (cap : Nat) (val : Raw F) : ValueTrace F :=
  if t.kind = .other || t.truncated || t.isOpaque then { t with count := t.count + 1 }
  else if cap ≤ t.entries.length then { t with count := t.count + 1, truncated := true }
  else
    match entry t.kind val with
    | some e => { t with count := t.count + 1, entries := t.entries ++ [e] }
    | none => { t with count := t.count + 1, isOpaque := true }

variable {I Fn : Type} [DecidableEq I] [DecidableEq Fn]

def Tracer.set (tr : Tracer I Fn F) (v : I) (t : ValueTrace F) : Tracer I Fn F :=
  { tr with traces := Function.update tr.traces v (some t) }

/-- `Record`. -/
def Tracer.record (p : Program I Fn) (tr : Tracer I Fn F) (v : I) (val : Raw F) : Tracer I Fn F :=
  if p.parent v ≠ tr.fn then tr
  else
    match tr.traces v, p.type v with
    | some t, _ => tr.set v (t.add tr.cap val)
    -- a call with no result
    | none, some (.tuple 0) => tr
    | none, some type => tr.set v ({ kind := traceKind type : ValueTrace F }.add tr.cap val)
    | none, none => tr

/-! ## §2. Executions -/

/-- A frame: its values, and the instruction that it executes, with the value
this execution has bound. -/
structure Frame (I : Type) (F : Floats) where
  locals : I → Option (Raw F) := fun _ => none
  current : Option (I × Option (Raw F)) := none

/-- How `execOp` ends. -/
inductive Ending where
  | completed
  | aborted
  | panicked
  deriving DecidableEq

inductive Act (I : Type) (F : Floats) where
  | push
  | pop (f : Nat)
  | start (f : Nat) (i : I)
  /-- `setLocal`, for the instruction that is executed. -/
  | bind (f : Nat) (v : Raw F)
  | finish (f : Nat) (how : Ending)
  /-- A hit of the value cache. -/
  | hit (f : Nat) (i : I) (res : Raw F)

/-- `history` is not in the source: the results of all executions that
completed, in their order. -/
structure Sys (I Fn : Type) (F : Floats) where
  frames : Nat → Option (Frame I F) := fun _ => none
  next : Nat := 0
  tracer : Tracer I Fn F
  history : List (I × Raw F) := []

variable (p : Program I Fn)

namespace Sys

def setFrame (s : Sys I Fn F) (f : Nat) (fr : Option (Frame I F)) : Sys I Fn F :=
  { s with frames := Function.update s.frames f fr }

/-- The end of `execInstructionSession`: what is bound is recorded. -/
def recordBound (s : Sys I Fn F) (i : I) (bound : Option (Raw F)) : Sys I Fn F :=
  match bound with
  | some res => { s with tracer := s.tracer.record p i res }
  | none => s

def produce (s : Sys I Fn F) (i : I) (v : Raw F) : Sys I Fn F :=
  { s with history := s.history ++ [(i, v)] }

/-- One step; `none` if it is not possible. -/
def step (s : Sys I Fn F) : Act I F → Option (Sys I Fn F)
  | .push => some { s.setFrame s.next (some {}) with next := s.next + 1 }
  | .pop f =>
    match s.frames f with
    | some ⟨_, none⟩ => some (s.setFrame f none)
    | _ => none
  | .start f i =>
    match s.frames f with
    | some ⟨l, none⟩ => some (s.setFrame f (some ⟨l, some (i, none)⟩))
    | _ => none
  | .bind f v =>
    match s.frames f with
    | some ⟨l, some (i, _)⟩ =>
      some (s.setFrame f (some ⟨Function.update l i (some v), some (i, some v)⟩))
    | _ => none
  | .finish f how =>
    match s.frames f with
    | some ⟨l, some (i, bound)⟩ =>
      let s' := s.setFrame f (some ⟨l, none⟩)
      match p.type i with
      | none => some s'
      | some _ =>
        let s' := s'.recordBound p i (l i)
        -- the execution of a value does not complete without one
        if how = .completed then bound.map (s'.produce i) else some s'
    | _ => none
  | .hit f i res =>
    match s.frames f, p.type i with
    | some ⟨l, none⟩, some _ =>
      some (({ s with tracer := s.tracer.record p i res }.setFrame f
        (some ⟨Function.update l i (some res), none⟩)).produce i res)
    | _, _ => none

def run : Sys I Fn F → List (Act I F) → Option (Sys I Fn F)
  | s, [] => some s
  | s, a :: acts => (s.step p a).bind (run · acts)

/-- The step is the end of an execution of `i` that did not complete, and
something is bound to `i`. -/
def stale (s : Sys I Fn F) (i : I) : Act I F → Bool
  | .finish f how =>
    match s.frames f with
    | some ⟨l, some (j, _)⟩ => decide (how ≠ .completed) && decide (j = i) && (l i).isSome
    | _ => false
  | _ => false

/-- No execution of `i` leaves a value behind and does not complete. -/
def clean (i : I) : Sys I Fn F → List (Act I F) → Bool
  | _, [] => true
  | s, a :: acts =>
    !s.stale i a && match s.step p a with
      | some s' => clean i s' acts
      | none => true

end Sys

/-- The values of the executions of `i`. -/
def valuesOf (i : I) (history : List (I × Raw F)) : List (Raw F) :=
  history.filterMap fun e => if e.1 = i then some e.2 else none

/-! ## §3. What is recorded is what was computed -/

/-- The trace of an instruction whose executions gave `es`. -/
def traceOf (k : TraceKind) (cap : Nat) (es : List (Entry F)) : ValueTrace F where
  kind := k
  entries := es.take cap
  count := es.length
  truncated := decide (cap < es.length)

theorem traceOf_add {k : TraceKind} (hk : k ≠ .other) (cap : Nat) (es : List (Entry F))
    {v : Raw F} {e : Entry F} (he : entry k v = some e) :
    (traceOf k cap es).add cap v = traceOf k cap (es ++ [e]) := by
  unfold ValueTrace.add traceOf
  by_cases hlt : cap < es.length
  · have hle : cap ≤ es.length := hlt.le
    simp [hk, hlt, hlt.trans (Nat.lt_succ_self _), List.take_append_of_le_length hle]
  · by_cases heq : cap = es.length
    · simp [hk, heq]
    · have hle : es.length + 1 ≤ cap := by omega
      have htake : (es ++ [e]).take cap = es ++ [e] := List.take_of_length_le (by simpa using hle)
      have hes : es.take cap = es := List.take_of_length_le (by omega)
      simp [hk, he, htake, hes, Nat.not_lt.mpr hle, Nat.not_lt.mpr (Nat.le_of_succ_le hle),
        Nat.not_le.mpr hle]

theorem record_other {tr : Tracer I Fn F} {i j : I} (hj : j ≠ i) (val : Raw F) :
    (tr.record p j val).traces i = tr.traces i := by
  unfold Tracer.record
  split
  · rfl
  · split <;> simp [Tracer.set, Function.update_of_ne (Ne.symm hj)]

theorem record_config (tr : Tracer I Fn F) (i : I) (val : Raw F) :
    (tr.record p i val).fn = tr.fn ∧ (tr.record p i val).cap = tr.cap := by
  unfold Tracer.record
  split
  · exact ⟨rfl, rfl⟩
  · split <;> exact ⟨rfl, rfl⟩

/-- One more execution: one more entry. -/
theorem record_traceOf {tr : Tracer I Fn F} {i : I} {t : ValueType} (hp : p.parent i = tr.fn)
    (ht : p.type i = some t) (hk : traceKind t ≠ .other) {es : List (Entry F)}
    (htr : tr.traces i = if es = [] then none else some (traceOf (traceKind t) tr.cap es))
    {v : Raw F} {e : Entry F} (he : entry (traceKind t) v = some e) :
    (tr.record p i v).traces i = some (traceOf (traceKind t) tr.cap (es ++ [e])) := by
  rw [← traceOf_add hk tr.cap es he]
  unfold Tracer.record
  rw [if_neg (not_not.mpr hp), ht, htr]
  by_cases hes : es = []
  · subst hes
    cases t with
    | tuple => exact absurd rfl hk
    | single => simp [Tracer.set, traceOf]
  · simp [hes, Tracer.set]

/-- A value that an execution has bound is still there. -/
def Sys.Bound (s : Sys I Fn F) : Prop :=
  ∀ f l j v, s.frames f = some ⟨l, some (j, some v)⟩ → l j = some v

omit [DecidableEq I] [DecidableEq Fn] in
theorem Sys.Bound.setFrame {s : Sys I Fn F} (hb : s.Bound) (f : Nat) {fr : Option (Frame I F)}
    (hfr : ∀ l j v, fr = some ⟨l, some (j, some v)⟩ → l j = some v) : (s.setFrame f fr).Bound := by
  intro f' l j v h
  by_cases hf : f' = f
  · subst hf
    exact hfr l j v (by simpa [Sys.setFrame] using h)
  · exact hb f' l j v (by simpa [Sys.setFrame, Function.update_of_ne hf] using h)

/-- What a step does to the tracer and to the history. -/
inductive Effect (s : Sys I Fn F) (a : Act I F) : Tracer I Fn F → List (I × Raw F) → Prop where
  | quiet : Effect s a s.tracer s.history
  | result (j : I) (v : Raw F) : Effect s a (s.tracer.record p j v) (s.history ++ [(j, v)])
  | stale (j : I) (v : Raw F) : s.stale j a = true → Effect s a (s.tracer.record p j v) s.history

theorem step_effect {s s' : Sys I Fn F} {a : Act I F} (hs : s.step p a = some s') (hb : s.Bound) :
    s'.Bound ∧ Effect p s a s'.tracer s'.history := by
  cases a with
  | push =>
    cases hs
    exact ⟨hb.setFrame _ (by rintro _ _ _ ⟨⟩), .quiet⟩
  | pop =>
    simp only [Sys.step] at hs
    split at hs <;> cases hs
    exact ⟨hb.setFrame _ nofun, .quiet⟩
  | start =>
    simp only [Sys.step] at hs
    split at hs <;> cases hs
    exact ⟨hb.setFrame _ (by rintro _ _ _ ⟨⟩), .quiet⟩
  | bind =>
    simp only [Sys.step] at hs
    split at hs <;> cases hs
    refine ⟨hb.setFrame _ ?_, .quiet⟩
    rintro _ _ _ ⟨⟩
    simp
  | hit f i res =>
    simp only [Sys.step] at hs
    split at hs <;> cases hs
    exact ⟨hb.setFrame _ (by rintro _ _ _ ⟨⟩), .result i res⟩
  | finish f how =>
    simp only [Sys.step] at hs
    split at hs
    · rename_i l i bound hf
      have hb' : (s.setFrame f (some ⟨l, none⟩)).Bound := hb.setFrame f (by rintro _ _ _ ⟨⟩)
      split at hs
      · cases hs
        exact ⟨hb', .quiet⟩
      · split at hs
        · obtain ⟨v, hv, rfl⟩ := Option.map_eq_some_iff.mp hs
          -- what is read after the instruction is what it has bound
          have hl : l i = some v := hb f l i v (hv ▸ hf)
          simp only [Sys.recordBound, hl]
          exact ⟨hb', .result i v⟩
        · rename_i hhow
          cases hs
          cases hl : l i with
          | none => exact ⟨hb', .quiet⟩
          | some r => exact ⟨hb', .stale i r (by simp [Sys.stale, hf, hhow, hl])⟩
    · cases hs

/-- The tracer has exactly the results of the executions of `i` that
completed. -/
structure Faithful (c : Tracer I Fn F) (i : I) (k : TraceKind) (tr : Tracer I Fn F)
    (history : List (I × Raw F)) : Prop where
  fn : tr.fn = c.fn
  cap : tr.cap = c.cap
  trace : ∀ es, (valuesOf i history).mapM (entry k) = some es →
    tr.traces i = if es = [] then none else some (traceOf k tr.cap es)

section

variable {p} {s s' : Sys I Fn F} {c : Tracer I Fn F} {i : I} {t : ValueType} {a : Act I F}

theorem Faithful.record (hp : p.parent i = c.fn) (ht : p.type i = some t)
    (hk : traceKind t ≠ .other) {tr : Tracer I Fn F} {h : List (I × Raw F)}
    (hf : Faithful c i (traceKind t) tr h) (j : I) (v : Raw F) :
    Faithful c i (traceKind t) (tr.record p j v) (h ++ [(j, v)]) := by
  obtain ⟨hfn, hcap⟩ := record_config p tr j v
  refine ⟨hfn.trans hf.fn, hcap.trans hf.cap, fun es hes => ?_⟩
  rw [hcap]
  by_cases hj : j = i
  · subst hj
    have hes : ∃ es₀ e, (valuesOf j h).mapM (entry (traceKind t)) = some es₀ ∧
        entry (traceKind t) v = some e ∧ es₀ ++ [e] = es := by
      simpa [valuesOf, Option.bind_eq_some_iff] using hes
    obtain ⟨es₀, e, hes₀, he, rfl⟩ := hes
    rw [record_traceOf p (hp.trans hf.fn.symm) ht hk (hf.trace es₀ hes₀) he]
    simp
  · have hvals : valuesOf i (h ++ [(j, v)]) = valuesOf i h := by simp [valuesOf, hj]
    rw [record_other p hj]
    exact hf.trace es (hvals ▸ hes)

theorem Faithful.effect (hp : p.parent i = c.fn) (ht : p.type i = some t)
    (hk : traceKind t ≠ .other) (hf : Faithful c i (traceKind t) s.tracer s.history)
    (hclean : s.stale i a = false) {tr : Tracer I Fn F} {h : List (I × Raw F)}
    (heff : Effect p s a tr h) : Faithful c i (traceKind t) tr h := by
  cases heff with
  | quiet => exact hf
  | result j v => exact hf.record hp ht hk j v
  | stale j v hstale =>
    have hj : j ≠ i := by
      rintro rfl
      rw [hstale] at hclean
      cases hclean
    obtain ⟨hfn, hcap⟩ := record_config p s.tracer j v
    refine ⟨hfn.trans hf.fn, hcap.trans hf.cap, fun es hes => ?_⟩
    rw [hcap, record_other p hj]
    exact hf.trace es hes

theorem Faithful.run (hp : p.parent i = c.fn) (ht : p.type i = some t)
    (hk : traceKind t ≠ .other) {acts : List (Act I F)} (hb : s.Bound)
    (hf : Faithful c i (traceKind t) s.tracer s.history) (hclean : s.clean p i acts = true)
    (hrun : s.run p acts = some s') : Faithful c i (traceKind t) s'.tracer s'.history := by
  induction acts generalizing s with
  | nil =>
    cases hrun
    exact hf
  | cons a acts ih =>
    obtain ⟨s₁, hstep, hrun⟩ := Option.bind_eq_some_iff.mp hrun
    simp only [Sys.clean, hstep, Bool.and_eq_true, Bool.not_eq_true'] at hclean
    obtain ⟨hb₁, heff⟩ := step_effect p hstep hb
    exact ih hb₁ (hf.effect hp ht hk hclean.1 heff) hclean.2 hrun

end

/-- **Traces are faithful** for an instruction no execution of which fails
with a value bound, whatever happens in other frames: the trace of an
instruction of the traced function, of a scalar type and with representable
results, has the first `cap` of the values that its executions gave. -/
theorem traces_faithful (fn : Fn) (opt : Int) (i : I) (t : GoType) (hp : p.parent i = fn)
    (ht : p.type i = some (.single t)) (hk : traceKind (.single t) ≠ .other)
    (acts : List (Act I F)) (s : Sys I Fn F)
    (hrun : Sys.run p { tracer := { fn, cap := traceCap opt } } acts = some s)
    (hclean : Sys.clean p i { tracer := { fn, cap := traceCap opt } } acts = true)
    (es : List (Entry F))
    (hes : (valuesOf i s.history).mapM (entry (traceKind (.single t))) = some es) :
    s.tracer.traces i = if es = [] then none else some
      { kind := traceKind (.single t), entries := es.take (traceCap opt), count := es.length,
        truncated := decide (traceCap opt < es.length), isOpaque := false } := by
  let c : Tracer I Fn F := { fn, cap := traceCap opt }
  have hf : Faithful c i (traceKind (.single t)) s.tracer s.history := by
    refine Faithful.run (s := { tracer := c }) hp ht hk nofun ⟨rfl, rfl, fun es hes => ?_⟩ hclean hrun
    cases hes
    rfl
  rw [hf.trace es hes, hf.cap]
  rfl

/-! ## §4. Two ways to fail -/

/-- A receive: `chanRecv` gives a value, or it is aborted. -/
def receive (f : Nat) (i : I) : Option (Raw F) → List (Act I F)
  | some v => [.start f i, .bind f v, .finish f .completed]
  | none => [.start f i, .finish f .aborted]

/-- An integer division, as `binOpConcrete` has it. -/
def quo (f : Nat) (i : I) (x y : BitVec 64) : List (Act I F) :=
  if y = 0 then [.start f i, .bind f (.int 0), .finish f .panicked]
  else [.start f i, .bind f (.int (x.sdiv y)), .finish f .completed]

/-- A function whose instructions are all of type `int`. -/
def ints : Program Nat Unit where
  parent _ := ()
  type _ := some (.single (.basic .int))

/-- Floats that do not occur. -/
abbrev noFloats : Floats := ⟨Empty, Empty, id, id, fun _ => rfl⟩

/-- A tracer with the default cap, and the call's frame. -/
def traced (acts : List (Act Nat noFloats)) : Option (Sys Nat Unit noFloats) :=
  Sys.run ints { tracer := { fn := (), cap := traceCap 0 } } (.push :: acts)

/-- **What failed is recorded.** The second receive of a loop is aborted: 7
is recorded twice. The division by zero panics: 0 is recorded. -/
theorem traces_failed :
    ((traced (receive 0 0 (some (.int 7)) ++ receive 0 0 none)).map fun s =>
        (valuesOf 0 s.history, s.tracer.traces 0)) =
      some ([.int 7], some { kind := .int, entries := [.int 7, .int 7], count := 2 }) ∧
    ((traced (quo 0 0 1 0)).map fun s => (valuesOf 0 s.history, s.tracer.traces 0)) =
      some ([], some { kind := .int, entries := [.int 0], count := 1 }) :=
  ⟨rfl, rfl⟩

/-- In the call and in a recursive one, whose frame is pushed between the
two divisions; the receive after them is another instruction. -/
def quoTwice : List (Act Nat noFloats) :=
  quo 0 0 6 2 ++ .push :: (quo 1 0 8 2 ++ receive 1 1 none)

theorem traces_faithful_quo :
    ∃ s, traced quoTwice = some s ∧
      s.tracer.traces 0 = some { kind := .int, entries := [.int 3, .int 4], count := 2 } :=
  ⟨_, rfl, traces_faithful (p := ints) () 0 0 (.basic .int) rfl rfl nofun (.push :: quoTwice) _
    rfl rfl [.int 3, .int 4] rfl⟩

end Giri.Trace
