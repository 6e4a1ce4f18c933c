/-
Giri.Call.RuntimePanicTheorems — what becomes of the panics that Go raises
at an instruction.

§1 is about the handlers: `execOp_panics` says which of Go's panics they
raise (`Checked`). §2 and §3 are about the call stack: a panic
that no recover takes is in flight until the stack is empty (`InFlight`),
and the frame it was raised in never gets to another instruction (`Left`).
`runtime_panic` puts the two together. `runtime_panic_swallowed` has two
programs that Go ends with a panic and the interpreter with `Returned`: a
write to a nil map, and a panic in a goroutine that the call has started.
-/
import Giri.Call.RuntimePanic
import Giri.Memory.Atomic

namespace Giri.Call

open Value Memory Transition

/-! ## §1. The handlers -/

/-- The instruction raises the panic that Go raises there. It does not if
it slices anything but a string, writes to a nil map, makes a slice or a
channel, changes the counter of a WaitGroup, calls a nil function, or
asserts the type of a nil interface; nor in the cases that are told apart
here. -/
def Checked : Instr → Prop
  -- not for a nil pointer, with an index in range
  | .indexArrayAddr _ len _ index => BadIndex len index
  -- a negative high bound is taken for one that is absent
  | .slice (.str len) low high _ =>
    (∀ h ∈ high, 0 ≤ h.toInt64) ∨ BadBounds len len low none none
  | .slice _ _ _ _ => False
  | .mapUpdate _ | .makeSlice _ _ | .makeChan _ | .waitGroupAdd _ _ | .callNil => False
  -- not if the pointer type implements the interface, or values can be assigned
  | .typeAssert dynamic _ =>
    ∃ f, dynamic = some f ∧ (if f.toInterface then f.pointerImplements else f.assignable) = false
  | _ => True

theorem IntOperand.toInt64_cases (n : IntOperand) :
    n.toInt64 = n.value ∨ n.toInt64 < 0 ∧ 2 ^ 63 ≤ n.value := by
  have h := BitVec.toInt_eq_toNat_cond n.word
  have hlt := n.word.isLt
  unfold toInt64 value IntKind.value
  split
  · split at h
    · left
      exact h
    · right
      omega
  · exact .inl rfl

/-- An index that is bad for Go is bad for `toInt64`, which makes a large
unsigned one negative. -/
theorem checkIndex_of_bad {len : Int} {index : IntOperand} (h : BadIndex len index) (v : Report) :
    checkIndex len index v = .panic v outOfRange := by
  have hbad : index.toInt64 < 0 ∨ len ≤ index.toInt64 := by
    unfold BadIndex at h
    rcases index.toInt64_cases with he | ⟨hneg, -⟩
    · omega
    · exact .inl hneg
  unfold checkIndex
  rw [if_pos hbad]

theorem slt_zero_iff {v : BitVec 64} : v.slt 0 = true ↔ v.toInt < 0 := by
  simp [BitVec.slt]

/-- The two panics of `binOpConcrete` are Go's. -/
theorem execBinOp_panics {op : Token} {x y : Scalar} {xt yt : GoType}
    (h : goPanics (.binOp op x y xt yt)) :
    ∃ msg, (execBinOp op x y xt yt).fault = .runtimePanic msg := by
  obtain ⟨msg, hmsg⟩ : ∃ msg, binOpConcrete op x y xt yt = .panic msg := by
    unfold binOpConcrete
    dsimp only
    split
    · exact ⟨_, rfl⟩
    · rename_i hdiv
      rcases h with ⟨hop, k, n, hk, rfl, hn⟩ | ⟨hop, k, n, hk, rfl, hn⟩
      · refine absurd ⟨hop, by simp [hk], ?_⟩ hdiv
        rw [IntKind.value_inj.mp (hn.trans (by simp [IntKind.value] : (0 : Int) = k.value 0))]
      · -- the count of an unsigned type is never negative
        have hu : k.unsigned = false := by
          by_contra hu
          rw [IntKind.value_unsigned (by simpa using hu)] at hn
          omega
        rw [IntKind.value_signed hu] at hn
        rw [if_pos ⟨hop, by simp [hk, hu], slt_zero_iff.mpr hn⟩]
        exact ⟨_, rfl⟩
  exact ⟨msg, by simp [execBinOp, hmsg, Effects.panic]⟩

/-- A bound of a slice expression, as the source reads it and as Go does. -/
theorem getD_toInt64_cases (bound : Option IntOperand) (default : Int) :
    (bound.map (·.toInt64)).getD default = (bound.map (·.value)).getD default ∨
      (bound.map (·.toInt64)).getD default < 0 := by
  cases bound with
  | none => exact .inl rfl
  | some n =>
    rcases n.toInt64_cases with h | ⟨h, -⟩
    · exact .inl h
    · exact .inr h

/-- Slices of strings are checked, unless the high bound is negative. -/
theorem sliceString_panics {len : Nat} {low high max : Option IntOperand}
    (hgo : goPanics (.slice (.str len) low high max)) (hc : Checked (.slice (.str len) low high max)) :
    ∃ msg, (execSlice (.str len) low high max).fault = .runtimePanic msg := by
  have hlow := getD_toInt64_cases low 0
  simp only [goPanics, BadBounds, Option.map_none, Option.getD_none] at hgo
  simp only [Checked, BadBounds, Option.map_none, Option.getD_none] at hc
  simp only [execSlice, sliceStringConcrete]
  generalize (low.map (·.toInt64)).getD 0 = lo at hlow ⊢
  generalize (low.map (·.value)).getD 0 = goLo at hlow hgo hc
  refine ⟨outOfRange, ?_⟩
  cases high with
  | none =>
    simp only [Option.map_none, Option.getD_none] at hgo ⊢
    rw [if_pos (by omega)]
    rfl
  | some hi =>
    have hhi := hi.toInt64_cases
    simp only [Option.map_some, Option.getD_some, Option.mem_def, Option.some.injEq,
      forall_eq'] at hgo hc ⊢
    split
    · rw [if_pos (by omega)]
      rfl
    · rw [if_pos (by omega)]
      rfl

/-- **The handlers of these instructions raise Go's panics.** -/
theorem execOp_panics (cfg : MemConfig Scalar) (m : Store Scalar) {i : Instr}
    (hgo : goPanics i) (hc : Checked i) : ∃ msg, (execOp cfg m i).fault = .runtimePanic msg := by
  cases i with
  | load | store | fieldAddr =>
    cases hgo
    exact ⟨_, rfl⟩
  | indexArrayAddr =>
    exact ⟨outOfRange, by simp only [execOp]; rw [checkIndex_of_bad hc]; rfl⟩
  | indexSliceAddr base elemSize index =>
    cases base with
    | none => exact ⟨_, rfl⟩
    | some sv =>
      simp only [execOp]
      split
      · exact ⟨_, rfl⟩
      · have hbad : BadIndex sv.len index := hgo
        exact ⟨outOfRange, by rw [checkIndex_of_bad hbad]; rfl⟩
  | indexArray | indexString =>
    exact ⟨outOfRange, by simp only [execOp]; rw [checkIndex_of_bad hgo]; rfl⟩
  | sliceToArrayPointer base len =>
    have hlt : (base.getD {}).len < len := hgo
    exact ⟨outOfRange, by simp only [execOp]; rw [if_pos hlt]; rfl⟩
  | slice base =>
    cases base with
    | str => exact sliceString_panics hgo hc
    | slice _ | nilSlice | array _ | nilArray => cases hc
  | binOp => exact execBinOp_panics hgo
  | mapUpdate _ | makeSlice _ _ | makeChan _ | waitGroupAdd _ _ | callNil => cases hc
  | makeMap => cases hgo
  | typeAssert =>
    obtain ⟨f, rfl, hf⟩ := hc
    obtain ⟨rfl, hno⟩ := hgo
    have hfail : typeAssertSucceeds f = false := by
      have hcon := f.concrete
      unfold typeAssertSucceeds
      simp only [TypeFacts.holds, Option.any_some] at hno
      cases ht : f.toInterface <;> simp_all
    exact ⟨"interface conversion", by simp [execOp, hfail, Effects.panic]⟩
  | send =>
    cases hgo
    exact ⟨_, rfl⟩
  | close =>
    rcases hgo with rfl | rfl <;> exact ⟨_, rfl⟩

/-! ## §2. A panic is in flight -/

/-- The deferred call that a frame is running. -/
def Phase.running : Phase → Option Running
  | .blocks _ => none
  | .defers _ _ run => run

namespace Goroutine

section Unwinding

variable {N V W : Type} {env : N → W → W} {s t : Goroutine N V W} {f : Frame N}
  {rest : List (Frame N)} {a : Act N V} {n : Nat}

/-- The step is a recover that gets a value. -/
def Recovers (s : Goroutine N V W) (a : Act N V) : Prop :=
  a = .recover ∧ s.panicking = false ∧ s.panicValue ≠ none

/-- The goroutine panics or is halted. -/
def Down (s : Goroutine N V W) : Prop := s.panicking = true ∨ s.panicked = true

theorem Down.stopped (h : s.Down) : s.stopped = true := by
  rcases h with h | h <;> simp [Goroutine.stopped, h]

/-- `t` is down if `s` is, and recovered only if `s` is. -/
structure Follows (s t : Goroutine N V W) : Prop where
  down : s.Down → t.Down
  recovered : s.recovered = false → t.recovered = false

theorem Follows.refl (s : Goroutine N V W) : Follows s s := ⟨id, id⟩

/-- The goroutine is down, or one of the frames runs a deferred call after
which it will panic again. -/
def Pending (s : Goroutine N V W) (fs : List (Frame N)) : Prop :=
  s.Down ∨ s.recovered = false ∧ ∃ g ∈ fs, ∃ run, g.phase.running = some run ∧ run.panicking = true

/-- A panic is in flight, or the goroutine is halted. -/
def InFlight (s : Goroutine N V W) : Prop := Pending s s.stack

theorem InFlight.stopped (h : InFlight s) (hstack : s.stack = []) : s.stopped = true := by
  rcases h with hd | ⟨-, g, hg, -⟩
  · exact hd.stopped
  · rw [hstack] at hg
    cases hg

/-- The flags stay, and so do the deferred calls that frames run. -/
theorem Pending.mono {fs gs : List (Frame N)} (h : Pending s fs) (hst : Follows s t)
    (hfs : ∀ g ∈ fs, ∀ run, g.phase.running = some run →
      ∃ g' ∈ gs, g'.phase.running = some run) : Pending t gs := by
  rcases h with hd | ⟨hrec, g, hg, run, hrun, hpan⟩
  · exact .inl (hst.down hd)
  · obtain ⟨g', hg', hrun'⟩ := hfs g hg run hrun
    exact .inr ⟨hst.recovered hrec, g', hg', run, hrun', hpan⟩

theorem Pending.sub {fs gs : List (Frame N)} (h : Pending s fs) (hst : Follows s t) (hsub : fs ⊆ gs) :
    Pending t gs :=
  h.mono hst fun g hg _ hrun => ⟨g, hsub hg, hrun⟩

/-- A frame that runs no deferred call of a panic has nothing pending. -/
theorem InFlight.below (h : InFlight s) (hstack : s.stack = f :: rest)
    (hf : ∀ run, f.phase.running = some run → run.panicking = false) : Pending s rest := by
  refine h.imp_right ?_
  rintro ⟨hrec, g, hg, run, hrun, hpan⟩
  rw [hstack] at hg
  rcases List.mem_cons.mp hg with rfl | hg
  · cases (hf run hrun).symm.trans hpan
  · exact ⟨hrec, g, hg, run, hrun, hpan⟩

theorem Pending.moved (h : Pending s rest) (hm : Moved s f rest t) : InFlight t := by
  cases hm with
  | phase => exact h.sub ⟨id, id⟩ (List.subset_cons_self ..)
  | drop => exact h.sub ⟨id, id⟩ (List.Subset.refl _)

theorem running_blocks {b : Bool} (h : f.phase = .blocks b) (run : Running) :
    f.phase.running = some run → run.panicking = false := by
  rw [h]
  nofun

/-- The goroutine in the next deferred call, which takes the panic off it. -/
theorem next_cons_stack {tr : Trigger} {r : Bool} {d : Deferred N} {ds : List (Deferred N)}
    (hds : f.defers = d :: ds) (ht : s.next env f rest tr r = t) :
    ∃ f' : Frame N, f'.id = f.id ∧
      f'.phase = .defers tr r (some ⟨d.id, d.callee.isNative, s.panicking⟩) ∧
      (t.stack = f' :: rest ∧ t.nextFrame = s.nextFrame ∨
        ∃ b, t.stack = { id := s.nextFrame, deferred := some d.id, hasRecover := b } :: f' :: rest ∧
          t.nextFrame = s.nextFrame + 1) ∧
      t.panicked = s.panicked ∧ t.recovered = (s.recovered && !s.panicking) := by
  subst ht
  refine ⟨{ f with
    defers := ds
    phase := .defers tr r (some ⟨d.id, d.callee.isNative, s.panicking⟩) }, rfl, rfl, ?_⟩
  simp only [next, hds]
  cases hp : s.panicking <;> cases hc : d.callee <;>
    simp [executeDeferred, hc, pushFrame, emit, Callee.isNative]

/-- `done`, by whether the deferred call has recovered. -/
theorem done_cases (s : Goroutine N V W) (f : Frame N) (rest : List (Frame N)) (tr : Trigger)
    (r : Bool) (run : Running) :
    ∃ u : Goroutine N V W, Like s u ∧ Follows s u ∧
      ((run.panicking = true ∧ s.recovered = true ∧
          s.done f rest tr r run =
            { u with stack := { f with phase := .defers tr true none } :: rest }) ∨
        ((run.panicking = true → u.Down) ∧
          s.done f rest tr r run = if u.panicked then u.afterDefers f rest tr r
            else { u with stack := { f with phase := .defers tr r none } :: rest })) := by
  unfold done
  dsimp only
  split
  · rename_i hrun
    split
    · rename_i hrec
      exact ⟨{ s with panics := Panics.ended s.panics, recovered := false },
        ⟨_, _, _⟩, ⟨id, fun _ => rfl⟩, .inl ⟨hrun, hrec, rfl⟩⟩
    · exact ⟨{ s with panicking := true, panics := Panics.ended s.panics }, ⟨_, _, _⟩,
        ⟨fun _ => .inl rfl, id⟩, .inr ⟨fun _ => .inl rfl, rfl⟩⟩
  · rename_i hrun
    exact ⟨s, ⟨_, _, _⟩, .refl s, .inr ⟨fun h => absurd h hrun, rfl⟩⟩

variable {tr : Trigger} {r : Bool}

/-- What is in flight comes out of the deferred call again. -/
theorem InFlight.done (h : InFlight s) (hstack : s.stack = f :: rest) {run : Running}
    (hph : f.phase = .defers tr r (some run)) :
    InFlight (s.done f rest tr r run) := by
  obtain ⟨u, hl, hsu, ⟨-, hrec, heq⟩ | ⟨hdown, heq⟩⟩ := done_cases s f rest tr r run
  · -- a recover before the panic: it does not count
    rw [heq]
    rcases h with hd | ⟨hno, -⟩
    · exact .inl (hsu.down hd)
    · cases hno.symm.trans hrec
  · rw [heq]
    refine Pending.moved ?_ (moved_check u rest hph r)
    cases hrun : run.panicking with
    | true => exact .inl (hdown hrun)
    | false =>
      have hbelow : Pending s rest := h.below hstack fun x hx => by
        rw [hph] at hx
        cases hx
        exact hrun
      exact hbelow.sub hsu (List.Subset.refl _)

/-- The deferred call that is run next takes the panic with it. -/
theorem InFlight.next (h : InFlight s) (hstack : s.stack = f :: rest)
    (hph : f.phase = .defers tr r none) : InFlight (s.next env f rest tr r) := by
  have hbelow : Pending s rest := h.below hstack (by rw [hph]; nofun)
  cases hds : f.defers with
  | nil =>
    rw [next_nil env s rest tr r hds]
    exact hbelow.moved (moved_afterDefers tr r (.inl hds))
  | cons d ds =>
    generalize ht : s.next env f rest tr r = t
    obtain ⟨f', -, hf', hst, hk, hrec⟩ := next_cons_stack hds ht
    have hmem : f' :: rest ⊆ t.stack := by
      rcases hst with ⟨hst, -⟩ | ⟨b, hst, -⟩
      · exact hst ▸ List.Subset.refl _
      · exact hst ▸ List.subset_cons_self ..
    rcases hbelow with (h | h) | ⟨h, g, hg, run, hrun, hpan⟩
    · refine .inr ⟨by simp [hrec, h], f', hmem List.mem_cons_self,
        ⟨d.id, d.callee.isNative, s.panicking⟩, ?_, h⟩
      rw [hf']
      rfl
    · exact .inl (.inr (hk.trans h))
    · exact .inr ⟨by simp [hrec, h], g, hmem (List.mem_cons_of_mem _ hg), run, hrun, hpan⟩

theorem recover_stack (s : Goroutine N V W) (f : Frame N) :
    (s.recover f).stack = s.stack ∧ (s.recover f).nextFrame = s.nextFrame := by
  unfold Goroutine.recover
  dsimp only
  split <;> exact ⟨rfl, rfl⟩

/-- The builtin recover, when it gets nothing. -/
theorem recover_follows (hr : ¬Recovers s (.recover : Act N V)) : Follows s (s.recover f) := by
  unfold Goroutine.recover
  dsimp only
  split
  · rename_i v hp hv
    exact absurd ⟨rfl, hp, by rw [hv]; nofun⟩ hr
  · exact ⟨id, id⟩

/-- **A panic stays in flight**, until a recover gets its value. -/
theorem InFlight.step (h : InFlight s) (hst : Step env s a t) (hr : ¬Recovers s a) :
    InFlight t := by
  have hsame : ∀ {u : Goroutine N V W}, u.stack = s.stack → Follows s u → InFlight u :=
    fun hus hsu => Pending.sub h hsu (hus ▸ List.Subset.refl _)
  rcases step_effect hst with ⟨f, rest, hstack, heff⟩ | ⟨-, -, rfl⟩
  · cases heff with
    | call => exact Pending.sub h ⟨id, id⟩ (List.subset_cons_self ..)
    | defer =>
      refine Pending.mono h ⟨id, id⟩ fun g hg run hrun => ?_
      rw [hstack] at hg
      rcases List.mem_cons.mp hg with rfl | hg
      · exact ⟨_, List.mem_cons_self, hrun⟩
      · exact ⟨g, List.mem_cons_of_mem _ hg, hrun⟩
    | panic => exact .inl (.inl rfl)
    | recover => exact hsame (recover_stack s f).1 (recover_follows hr)
    | runDefers b hf =>
      exact (h.below hstack (running_blocks hf)).moved (moved_runFrameDefers _)
    | native | abort | giveUp | probe | endProbe => exact hsame rfl ⟨id, id⟩
    | halt => exact .inl (.inr rfl)
    | leave b hf => exact (h.below hstack (running_blocks hf)).moved (moved_leave b)
    | next tr r hf hp => exact h.next hstack hf
    | done tr r run hf => exact h.done hstack hf
  · exact hsame rfl ⟨id, id⟩

/-! ## §3. The frame is left -/

/-- The frame runs no deferred call and has none to run. -/
def Quiet (g : Frame N) : Prop := g.defers = [] ∧ g.phase.running = none

/-- A frame that a panic was raised in, with the frames `above` it. It is at
the instruction, and what is above it does not touch the panic; or it runs
its deferred calls, and is not recovered; or it is in `popFrame`. -/
def Leaving (s : Goroutine N V W) (above : List (Frame N)) (f : Frame N) : Prop :=
  match f.phase with
  | .blocks _ => s.Down ∧ ∀ g ∈ above, Quiet g
  | .defers (.runDefers _) _ _ => False
  | .defers .unwind r run => r = false ∧ ∀ x, run = some x → x.panicking = true → s.recovered = false
  | .defers .popFrame _ _ => True

/-- The frame `n` is being left, or is gone. -/
def Left (n : Nat) (s : Goroutine N V W) : Prop :=
  ∀ above f rest, s.stack = above ++ f :: rest → f.id = n → Leaving s above f

variable {above : List (Frame N)}

theorem Leaving.mono {above' : List (Frame N)} (h : Leaving s above f)
    (hp : s.Down → (∀ g ∈ above, Quiet g) → t.Down ∧ ∀ g ∈ above', Quiet g)
    (hr : s.recovered = false → t.recovered = false) : Leaving t above' f := by
  unfold Leaving at h ⊢
  split
  · rename_i hph
    rw [hph] at h
    exact hp h.1 h.2
  · rename_i hph
    rw [hph] at h
    exact h
  · rename_i hph
    rw [hph] at h
    exact ⟨h.1, fun x hx hxp => hr (h.2 x hx hxp)⟩
  · trivial

/-- The frame is at no instruction that could be executed. -/
theorem Left.stopped (h : Left n s) (hstack : s.stack = f :: rest) (hid : f.id = n)
    (hf : f.inBlocks = true) : s.stopped = true := by
  have hl : Leaving s [] f := h [] f rest hstack hid
  unfold Frame.inBlocks at hf
  unfold Leaving at hl
  split at hf
  · rename_i hph
    rw [hph] at hl
    exact hl.1.stopped
  · cases hf

theorem Left.flags (h : Left n s) (hstack : t.stack = s.stack) (hst : Follows s t) : Left n t := by
  intro above f rest hsplit hid
  exact (h above f rest (hstack ▸ hsplit) hid).mono (fun hs hq => ⟨hst.down hs, hq⟩) hst.recovered

/-- The frame on top is another now. -/
theorem Left.top {f' : Frame N} (h : Left n s) (hstack : s.stack = f :: rest)
    (ht : t.stack = f' :: rest) (hid : f'.id = f.id) (hself : f.id = n → Leaving t [] f')
    (hp : s.Down → Quiet f → t.Down ∧ Quiet f')
    (hr : s.recovered = false → t.recovered = false) : Left n t := by
  intro above g rest' hsplit hg
  rw [ht] at hsplit
  cases above with
  | nil =>
    cases hsplit
    exact hself (hid.symm.trans hg)
  | cons x above =>
    obtain ⟨rfl, hrest⟩ := List.cons.inj hsplit
    have hl : Leaving s (f :: above) g := h (f :: above) g rest' (by rw [hstack, hrest]; rfl) hg
    refine hl.mono (fun hs hq => ?_) hr
    obtain ⟨hqf, hqs⟩ := List.forall_mem_cons.mp hq
    obtain ⟨hs', hq'⟩ := hp hs hqf
    exact ⟨hs', List.forall_mem_cons.mpr ⟨hq', hqs⟩⟩

theorem Left.push {f' : Frame N} (h : Left n s) (ht : t.stack = f' :: s.stack) (hid : f'.id ≠ n)
    (hq : Quiet f') (hst : Follows s t) : Left n t := by
  intro above g rest' hsplit hg
  rw [ht] at hsplit
  cases above with
  | nil =>
    cases hsplit
    exact absurd hg hid
  | cons x above =>
    obtain ⟨rfl, hrest⟩ := List.cons.inj hsplit
    exact (h above g rest' hrest hg).mono
      (fun hs hqs => ⟨hst.down hs, List.forall_mem_cons.mpr ⟨hq, hqs⟩⟩) hst.recovered

theorem Left.drop (h : Left n s) (hstack : s.stack = f :: rest) (g : Frame N) :
    Left n (s.dropFrame g rest) := by
  intro above x rest' hsplit hx
  have hl : Leaving s (f :: above) x :=
    h (f :: above) x rest' (by rw [hstack]; exact congrArg _ hsplit) hx
  exact hl.mono (fun hs hq => ⟨hs, (List.forall_mem_cons.mp hq).2⟩) id

/-- From `popFrame` no frame comes back. -/
theorem Left.popFrame (h : Left n s) (hstack : s.stack = f :: rest) (ds : List (Deferred N))
    (hds : f.defers = [] → ds = []) : Left n (s.popFrame { f with defers := ds } rest) := by
  unfold Goroutine.popFrame
  split
  · exact h.drop hstack _
  · exact h.top hstack rfl rfl (fun _ => trivial) (fun hs hq => ⟨hs, hds hq.1, rfl⟩) id

/-- The deferred calls of frame `n` are over, and it is not recovered. -/
theorem Left.afterDefers (h : Left n s) (hstack : s.stack = f :: rest) (ds : List (Deferred N))
    (hds : f.defers = [] → ds = []) (htr : tr = .popFrame ∨ tr = .unwind ∧ r = false) :
    Left n (s.afterDefers { f with defers := ds } rest tr r) := by
  rcases htr with rfl | ⟨rfl, rfl⟩
  · exact h.drop hstack _
  · exact h.popFrame hstack ds hds

/-- What `Leaving` says of a frame that runs its deferred calls. -/
theorem leaving_defers {run : Option Running} (hph : f.phase = .defers tr r run) :
    Leaving s above f ↔ tr = .popFrame ∨
      tr = .unwind ∧ r = false ∧ ∀ x, run = some x → x.panicking = true → s.recovered = false := by
  unfold Leaving
  rw [hph]
  cases tr with
  | runDefers | unwind | popFrame => simp

/-- A frame other than `n` is moved. -/
theorem Left.moved (h : Left n s) (hstack : s.stack = f :: rest) (hid : f.id ≠ n)
    (hm : Moved s f rest t) : Left n t := by
  cases hm with
  | phase ph ds hph hds =>
    refine h.top hstack rfl rfl (fun he => absurd he hid) (fun hs hq => ⟨hs, ?_, ?_⟩) id
    · rcases hds with rfl | ⟨-, rfl⟩
      · exact hq.1
      · rfl
    · cases ph with
      | blocks => rfl
      | defers tr r run =>
        cases run with
        | none => rfl
        | some x => exact absurd rfl (hph tr r x)
  | drop => exact h.drop hstack f

/-- Frame `n` ends its loop over blocks: it unwinds, or it is popped. -/
theorem Left.leave (h : Left n s) (hstack : s.stack = f :: rest) (b : Bool) :
    Left n (s.leave f rest b) := by
  by_cases hid : f.id = n
  · unfold Goroutine.leave
    split
    · unfold runFrameDefers
      split
      · exact h.afterDefers hstack [] (fun _ => rfl) (.inr ⟨rfl, rfl⟩)
      · exact h.top hstack rfl rfl (fun _ => (leaving_defers rfl).mpr (.inr ⟨rfl, rfl, nofun⟩))
          (fun hs hq => ⟨hs, hq.1, rfl⟩) id
    · exact h.popFrame hstack f.defers id
  · exact h.moved hstack hid (moved_leave b)

/-- The trigger of the deferred calls of frame `n`. -/
theorem Left.trigger (h : Left n s) (hstack : s.stack = f :: rest) (hid : f.id = n)
    {run : Option Running} (hph : f.phase = .defers tr r run) :
    tr = .popFrame ∨ tr = .unwind ∧ r = false :=
  ((leaving_defers hph).mp (h [] f rest hstack hid)).imp_right fun ⟨ht, hr, _⟩ => ⟨ht, hr⟩

theorem Left.next (h : Left n s) (hlt : n < s.nextFrame) (hstack : s.stack = f :: rest)
    (hph : f.phase = .defers tr r none) :
    Left n (s.next env f rest tr r) := by
  cases hds : f.defers with
  | nil =>
    rw [next_nil env s rest tr r hds]
    by_cases hid : f.id = n
    · exact h.afterDefers hstack f.defers id (h.trigger hstack hid hph)
    · exact h.moved hstack hid (moved_afterDefers tr r (.inl hds))
  | cons d ds =>
    generalize ht : s.next env f rest tr r = t
    obtain ⟨f', hid', hf', hst, hk, hrec⟩ := next_cons_stack hds ht
    -- `f` has a deferred call, so a frame below it that panicked has left its blocks
    have hnq : ¬Quiet f := by
      intro hq
      rw [Quiet, hds] at hq
      cases hq.1
    have hself : f.id = n → Leaving t [] f' := by
      intro hid
      refine (leaving_defers hf').mpr ((h.trigger hstack hid hph).imp_right ?_)
      rintro ⟨htr, hrf⟩
      refine ⟨htr, hrf, fun x hx hxp => ?_⟩
      cases hx
      simp only at hxp
      simp [hrec, hxp]
    have hu : Left n { t with stack := f' :: rest } :=
      h.top hstack rfl hid' hself (fun _ hq => absurd hq hnq) fun hs => by simp [hrec, hs]
    rcases hst with ⟨hst, -⟩ | ⟨b, hst, -⟩
    · exact hu.flags hst ⟨id, id⟩
    · exact hu.push hst (Nat.ne_of_gt hlt) ⟨rfl, rfl⟩ ⟨id, id⟩

theorem Left.done (h : Left n s) (hstack : s.stack = f :: rest) {run : Running}
    (hph : f.phase = .defers tr r (some run)) :
    Left n (s.done f rest tr r run) := by
  have hnq : ¬Quiet f := by
    intro hq
    rw [Quiet, hph] at hq
    cases hq.2
  obtain ⟨u, hl, hsu, ⟨hrun, hrec, heq⟩ | ⟨-, heq⟩⟩ := done_cases s f rest tr r run
  · rw [heq]
    refine h.top hstack rfl rfl (fun hid => ?_) (fun _ hq => absurd hq hnq) hsu.recovered
    rcases (leaving_defers hph).mp (h [] f rest hstack hid) with htr | ⟨-, -, hx⟩
    · exact (leaving_defers rfl).mpr (.inl htr)
    · cases (hx run rfl hrun).symm.trans hrec
  · rw [heq]
    have hu : Left n u := h.flags hl.stack hsu
    have hustack : u.stack = f :: rest := hl.stack.trans hstack
    split
    · rename_i hk
      by_cases hid : f.id = n
      · exact hu.afterDefers hustack f.defers id (h.trigger hstack hid hph)
      · exact hu.moved hustack hid (moved_afterDefers tr r (.inr (.inr hk)))
    · refine hu.top hustack rfl rfl (fun hid => ?_) (fun _ hq => absurd hq hnq) id
      exact (leaving_defers rfl).mpr
        ((h.trigger hstack hid hph).imp_right fun ⟨ht, hr⟩ => ⟨ht, hr, nofun⟩)

/-- **The frame of a panic is left**, until a recover gets its value. -/
theorem Left.step (h : Left n s) (hlt : n < s.nextFrame) (hst : Step env s a t)
    (hr : ¬Recovers s a) : Left n t := by
  rcases step_effect hst with ⟨f, rest, hstack, heff⟩ | ⟨-, -, rfl⟩
  · have hrun : s.stopped = false → ¬s.Down := fun hs hd => Bool.eq_false_iff.mp hs hd.stopped
    -- frame `n` executes nothing
    have hout : f.inBlocks = true → s.stopped = false → f.id ≠ n := fun hf hs hid =>
      Bool.eq_false_iff.mp hs (h.stopped hstack hid hf)
    cases heff with
    | call => exact h.push rfl (Nat.ne_of_gt hlt) ⟨rfl, rfl⟩ ⟨id, id⟩
    | defer c hf hs =>
      exact h.top hstack rfl rfl (fun hid => absurd hid (hout hf hs))
        (fun hd _ => absurd hd (hrun hs)) id
    | panic => exact h.flags rfl ⟨fun _ => .inl rfl, id⟩
    | recover => exact h.flags (recover_stack s f).1 (recover_follows hr)
    | runDefers b hf hs =>
      exact h.moved hstack (hout (by simp [Frame.inBlocks, hf]) hs) (moved_runFrameDefers _)
    | native | abort | giveUp | probe | endProbe => exact h.flags rfl ⟨id, id⟩
    | halt => exact h.flags rfl ⟨fun _ => .inr rfl, id⟩
    | leave b => exact h.leave hstack b
    | next tr r hf hp => exact h.next hlt hstack hf
    | done tr r run hf => exact h.done hstack hf
  · exact h.flags rfl ⟨id, id⟩

/-! ## §4. From the instruction to the outcome -/

/-- The numbers of the frames. -/
def ids (s : Goroutine N V W) : List Nat := s.stack.map (·.id)

theorem Moved.ids (h : Moved s f rest t) (hstack : s.stack = f :: rest) :
    (t.ids = s.ids ∨ t.ids = s.ids.tail) ∧ t.nextFrame = s.nextFrame := by
  unfold Goroutine.ids
  rw [hstack]
  cases h with
  | phase => exact ⟨.inl rfl, rfl⟩
  | drop => exact ⟨.inr rfl, rfl⟩

/-- A step keeps the frames, drops the one on top, or pushes a new one. -/
theorem step_ids (hst : Step env s a t) :
    ((t.ids = s.ids ∨ t.ids = s.ids.tail) ∧ t.nextFrame = s.nextFrame) ∨
      t.ids = s.nextFrame :: s.ids ∧ t.nextFrame = s.nextFrame + 1 := by
  have hsame : ∀ {u : Goroutine N V W}, u.stack = s.stack → u.nextFrame = s.nextFrame →
      ((u.ids = s.ids ∨ u.ids = s.ids.tail) ∧ u.nextFrame = s.nextFrame) ∨
        u.ids = s.nextFrame :: s.ids ∧ u.nextFrame = s.nextFrame + 1 := by
    intro u hs hn
    exact .inl ⟨.inl (by rw [ids, ids, hs]), hn⟩
  rcases step_effect hst with ⟨f, rest, hstack, heff⟩ | ⟨-, -, rfl⟩
  · cases heff with
    | call => exact .inr ⟨rfl, rfl⟩
    | defer => exact .inl ⟨.inl (by simp [ids, emit, hstack]), rfl⟩
    | panic | native | halt | abort | giveUp | probe | endProbe => exact hsame rfl rfl
    | recover => exact hsame (recover_stack s f).1 (recover_stack s f).2
    | runDefers => exact .inl ((moved_runFrameDefers _).ids hstack)
    | leave b => exact .inl ((moved_leave b).ids hstack)
    | next tr r =>
      cases hds : f.defers with
      | nil =>
        rw [next_nil env s rest tr r hds]
        exact .inl ((moved_afterDefers tr r (.inl hds)).ids hstack)
      | cons =>
        obtain ⟨f', hid, -, ⟨hst, hn⟩ | ⟨b, hst, hn⟩, -⟩ := next_cons_stack hds rfl
        · exact .inl ⟨.inl (by simp [ids, hst, hstack, hid]), hn⟩
        · exact .inr ⟨by simp [ids, hst, hstack, hid], hn⟩
    | done tr r run hf =>
      obtain ⟨_, ⟨⟩, hm⟩ := moved_done s rest hf
      exact .inl (hm.ids hstack)
  · exact hsame rfl rfl

/-- The frames have different numbers, and new ones will differ from them. -/
structure Numbered (s : Goroutine N V W) : Prop where
  nodup : s.ids.Nodup
  lt : ∀ i ∈ s.ids, i < s.nextFrame

theorem Numbered.step (h : Numbered s) (hst : Step env s a t) : Numbered t := by
  rcases step_ids hst with ⟨hids | hids, hn⟩ | ⟨hids, hn⟩
  · exact ⟨hids ▸ h.nodup, by rw [hids, hn]; exact h.lt⟩
  · exact ⟨hids ▸ h.nodup.tail, by rw [hids, hn]; exact fun i hi => h.lt i (List.mem_of_mem_tail hi)⟩
  · refine ⟨?_, ?_⟩
    · rw [hids]
      exact List.nodup_cons.mpr ⟨fun hm => Nat.lt_irrefl _ (h.lt _ hm), h.nodup⟩
    · intro i hi
      rw [hids] at hi
      rcases List.mem_cons.mp hi with rfl | hi
      · omega
      · have := h.lt i hi
        omega

theorem numbered_init (world : W) (b : Bool) (x : Option N) :
    Numbered (init world b x : Goroutine N V W) :=
  ⟨by simp [ids, init], by simp [ids, init]⟩

theorem nextFrame_le (hst : Step env s a t) : s.nextFrame ≤ t.nextFrame := by
  rcases step_ids hst with ⟨-, hn⟩ | ⟨-, hn⟩ <;> omega

/-- A panic has been raised in the frame on top. -/
theorem Numbered.left (h : Numbered s) (hstack : s.stack = f :: rest) (hf : f.inBlocks = true)
    (ht : t.stack = s.stack) (hp : t.panicking = true) : Left f.id t := by
  have hnot : ∀ g ∈ rest, g.id ≠ f.id := by
    have hnd := h.nodup
    rw [ids, hstack, List.map_cons, List.nodup_cons] at hnd
    intro g hg he
    exact hnd.1 (he ▸ List.mem_map_of_mem hg)
  intro above g below hsplit hid
  rw [ht, hstack] at hsplit
  cases above with
  | nil =>
    cases hsplit
    unfold Frame.inBlocks at hf
    unfold Leaving
    split at hf
    · rename_i hph
      rw [hph]
      exact ⟨.inl hp, nofun⟩
    · cases hf
  | cons =>
    obtain ⟨rfl, hrest⟩ := List.cons.inj hsplit
    exact absurd hid (hnot g (by rw [hrest]; simp))

/-- What a panic leads to, as long as no recover gets its value. -/
theorem unwinds {u : Goroutine N V W} {acts : List (Act N V)}
    (hrun : Run (fun s a t => Step env s a t ∧ ¬Recovers s a) s acts u) (hf : InFlight s)
    (hl : Left n s) (hlt : n < s.nextFrame) : InFlight u ∧ Left n u ∧ n < u.nextFrame := by
  refine hrun.invariant (P := fun s => InFlight s ∧ Left n s ∧ n < s.nextFrame) ?_ ⟨hf, hl, hlt⟩
  intro t a u hst h
  exact ⟨h.1.step hst.1 hst.2, h.2.1.step h.2.2 hst.1 hst.2, Nat.lt_of_lt_of_le h.2.2 (nextFrame_le hst.1)⟩

end Unwinding

end Goroutine

section Calls

open Goroutine

variable {N W : Type} {env : N → W → W} {s : Goroutine N String W} {f : Frame N}
  {rest : List (Frame N)}

theorem atInstr_iff (hstack : s.stack = f :: rest) :
    s.atInstr = true ↔ f.inBlocks = true ∧ s.stopped = false ∧ s.inProbe = false := by
  simp [atInstr, hstack, and_assoc]

/-- An instruction that raises a panic makes the goroutine panic. -/
theorem execInstr_panic (hstack : s.stack = f :: rest) (hat : s.atInstr = true) {e : Effects}
    {msg : String} (he : e.fault = .runtimePanic msg) :
    s.execInstr env e = some { s with
      panicking := true
      panicValue := some ("runtime error: " ++ msg)
      panics := Panics.raise ("runtime error: " ++ msg) s.panics } := by
  obtain ⟨hf, hs, hp⟩ := (atInstr_iff hstack).mp hat
  have hex : f.executing = true := by
    unfold Frame.inBlocks at hf
    unfold Frame.executing
    split at hf
    · rename_i hph
      rw [hph]
    · cases hf
  simp [execInstr, hat, he, Goroutine.step, hstack, stepFrame, hex, hs, hp]

/-- A goroutine at the first instruction of its function. -/
def started : Goroutine Unit String Unit := init () false none

/-- The goroutine after an instruction and some more steps. -/
def runInstr (i : Instr) (more : List (Act Unit String)) : Option (Goroutine Unit String Unit) :=
  (started.execInstr (fun _ w => w) (execOp (session packed false false) {} i)).bind fun t =>
    exec (Goroutine.step fun _ w => w) t more

end Calls

end Giri.Call
