/-
Giri.Call.HaltTheorems — what a goroutine still does after a fatal stop.

No instruction is executed any more, but every frame is still popped, and
`popFrame` calls `runFrameDefers`, whose loop looks at `g.Panicked` only
AFTER a deferred call. So one deferred call of each frame is dispatched
(`exposure`: two if the frame was in an earlier `runFrameDefers`). A closure
or a function does nothing then, because its loop over blocks does check;
an intercepted call has its effect: with `defer mu.Unlock()` pending,
os.Exit unlocks the mutex (`unlocked_after_exit`). So has `onExit`.
-/
import Giri.Call.Unwind
import Giri.Interp.Machine

namespace Giri.Call

/-- How many of the deferred calls pending in a frame are still dispatched
after a fatal stop. -/
def exposure (recovered : Bool) : Phase → Nat
  | .blocks _ => 1
  | .defers .popFrame _ none => 1
  | .defers _ _ none => 2
  | .defers t _ (some run) =>
    (if run.panicking && recovered then 1 else 0) + if t = .popFrame then 0 else 1

theorem exposure_le (recovered : Bool) (ph : Phase) : exposure false ph ≤ exposure recovered ph := by
  cases ph with
  | blocks => exact Nat.le_refl _
  | defers t r run =>
    cases run with
    | none => cases t <;> exact Nat.le_refl _
    | some => simp [exposure]

namespace Frame

variable {N : Type}

/-- None of the deferred calls that are still dispatched is intercepted. -/
def Harmless (recovered : Bool) (f : Frame N) : Prop :=
  ∀ d ∈ f.defers.take (exposure recovered f.phase), d.callee.isNative = false

theorem Harmless.mono {f : Frame N} {r : Bool} (h : f.Harmless r) : f.Harmless false :=
  fun d hd => h d ((List.take_subset_take_left _ (exposure_le r f.phase)) hd)

end Frame

namespace Goroutine

variable {N V W : Type} {env : N → W → W} {s₀ s t : Goroutine N V W} {f : Frame N}
  {rest : List (Frame N)} {a : Act N V}

/-- The goroutine was halted in `s₀`, and has had no effect since. -/
structure Inert (s₀ s : Goroutine N V W) : Prop where
  panicked : s.panicked = true
  world : s.world = s₀.world
  onExit : s.onExit = none
  harmless : ∀ f ∈ s.stack, f.Harmless s.recovered
  log : ∃ es, s.log = s₀.log ++ es ∧ ∀ n d, .ran n d ∉ es

namespace Inert

/-- Another stack, and new entries of the log that are no deferred call. -/
theorem of_stack (h : Inert s₀ s) (es : List (Event V)) (hp : t.panicked = true)
    (hw : t.world = s.world) (hx : t.onExit = s.onExit)
    (hf : ∀ f ∈ t.stack, f.Harmless t.recovered) (hl : t.log = s.log ++ es)
    (hes : ∀ n d, .ran n d ∉ es) : Inert s₀ t where
  panicked := hp
  world := hw.trans h.world
  onExit := hx.trans h.onExit
  harmless := hf
  log := by
    obtain ⟨es₀, hlog, hran⟩ := h.log
    refine ⟨es₀ ++ es, by rw [hl, hlog, List.append_assoc], fun n d hm => ?_⟩
    exact (List.mem_append.mp hm).elim (hran n d) (hes n d)

theorem pushFrame (h : Inert s₀ s) (deferred : Option Nat) (hasRecover : Bool) :
    Inert s₀ (s.pushFrame deferred hasRecover) := by
  refine h.of_stack [] h.panicked rfl rfl (fun f hf => ?_) (List.append_nil _).symm nofun
  rcases List.mem_cons.mp hf with rfl | hf
  · intro d hd
    simp at hd
  · exact h.harmless f hf

theorem dropFrame (h : Inert s₀ s) (hstack : s.stack = f :: rest) : Inert s₀ (s.dropFrame f rest) :=
  h.of_stack [.popped f.id] h.panicked rfl rfl
    (fun g hg => h.harmless g (hstack ▸ List.mem_cons_of_mem _ hg)) rfl (by simp)

/-- Only the frame on top has changed. -/
theorem setTop (h : Inert s₀ s) (hstack : s.stack = f :: rest) {f' : Frame N}
    (hf' : f'.Harmless s.recovered) : Inert s₀ { s with stack := f' :: rest } := by
  refine h.of_stack [] h.panicked rfl rfl (fun g hg => ?_) (List.append_nil _).symm nofun
  rcases List.mem_cons.mp hg with rfl | hg
  · exact hf'
  · exact h.harmless g (hstack ▸ List.mem_cons_of_mem _ hg)

/-- A step that changes flags, and logs something else. -/
theorem flags (h : Inert s₀ s) (es : List (Event V)) (hp : t.panicked = true)
    (hw : t.world = s.world) (hx : t.onExit = s.onExit) (hf : t.stack = s.stack)
    (hr : t.recovered = s.recovered) (hl : t.log = s.log ++ es) (hes : ∀ n d, .ran n d ∉ es) :
    Inert s₀ t := by
  refine h.of_stack es hp hw hx ?_ hl hes
  rw [hf, hr]
  exact h.harmless

theorem popFrame (h : Inert s₀ s) (hstack : s.stack = f :: rest)
    (hf : ∀ d ∈ f.defers.take 1, d.callee.isNative = false) : Inert s₀ (s.popFrame f rest) := by
  unfold Goroutine.popFrame
  split
  · exact h.dropFrame hstack
  · exact h.setTop hstack hf

theorem afterDefers (h : Inert s₀ s) (hstack : s.stack = f :: rest) (tr : Trigger) (r : Bool)
    (hf : tr ≠ .popFrame → ∀ d ∈ f.defers.take 1, d.callee.isNative = false) :
    Inert s₀ (s.afterDefers f rest tr r) := by
  cases tr with
  | runDefers => exact h.setTop hstack (hf (by simp))
  | unwind =>
    simp only [Goroutine.afterDefers, h.panicked, Bool.not_true, Bool.and_false,
      Bool.false_eq_true, if_false]
    exact h.popFrame hstack (hf (by simp))
  | popFrame => exact h.dropFrame hstack

theorem leave (h : Inert s₀ s) (hstack : s.stack = f :: rest) {b : Bool}
    (hph : f.phase = .blocks b) : Inert s₀ (s.leave f rest b) := by
  have hf : f.Harmless s.recovered := h.harmless f (hstack ▸ List.mem_cons_self)
  simp only [Goroutine.leave, h.panicked, Bool.not_true, Bool.and_false, Bool.false_eq_true,
    if_false]
  refine h.popFrame hstack ?_
  simpa only [Frame.Harmless, hph, exposure] using hf

/-- `executeDeferred` for a goroutine that is halted. -/
theorem executeDeferred (h : Inert s₀ s) (n : Nat) {d : Deferred N}
    (hd : d.callee.isNative = false) : Inert s₀ (s.executeDeferred env n d) := by
  have hstopped : s.stopped = true := by simp [stopped, h.panicked]
  have hlost : Inert s₀ (s.emit (.lost n d.id)) :=
    h.flags [.lost n d.id] h.panicked rfl rfl rfl rfl rfl (by simp)
  unfold Goroutine.executeDeferred
  split
  · rw [hstopped]
    exact hlost.pushFrame ..
  · rename_i m hc
    rw [hc] at hd
    cases hd
  · exact hlost

theorem next (h : Inert s₀ s) (hstack : s.stack = f :: rest) {tr : Trigger} {r : Bool}
    (hph : f.phase = .defers tr r none) : Inert s₀ (s.next env f rest tr r) := by
  have hf : f.Harmless s.recovered := h.harmless f (hstack ▸ List.mem_cons_self)
  have hrest : ∀ g ∈ rest, g.Harmless s.recovered :=
    fun g hg => h.harmless g (hstack ▸ List.mem_cons_of_mem _ hg)
  unfold Goroutine.next
  split
  · rename_i hds
    exact h.afterDefers hstack tr r (by simp [hds])
  · rename_i d ds hds
    have hd : d.callee.isNative = false := by
      refine hf d ?_
      rw [hds, hph]
      cases tr <;> simp [exposure]
    have hds' : tr ≠ .popFrame → ∀ e ∈ ds.take 1, e.callee.isNative = false := by
      intro htr e he
      refine hf e ?_
      rw [hds, hph]
      cases tr with
      | popFrame => exact absurd rfl htr
      | _ => exact List.mem_cons_of_mem _ he
    -- whatever `Panicking` was, this call can't be recovered from: no second one follows it
    have htop : ∀ (rec : Bool) (run : Running), (run.panicking && rec) = false →
        Frame.Harmless rec { f with defers := ds, phase := .defers tr r (some run) } := by
      intro rec run hrun e he
      simp only [exposure, hrun, Bool.false_eq_true, if_false, Nat.zero_add] at he
      split at he
      · simp at he
      · rename_i htr
        exact hds' htr e he
    refine executeDeferred ?_ f.id hd
    dsimp only
    split
    · refine h.of_stack [] h.panicked rfl rfl (fun g hg => ?_) (List.append_nil _).symm nofun
      rcases List.mem_cons.mp hg with rfl | hg
      · exact htop false _ (Bool.and_false _)
      · exact (hrest g hg).mono
    · rename_i hp
      exact h.setTop hstack (htop _ _ (by simp [hp]))

theorem done (h : Inert s₀ s) (hstack : s.stack = f :: rest) {tr : Trigger} {r : Bool}
    {run : Running} (hph : f.phase = .defers tr r (some run)) :
    Inert s₀ (s.done f rest tr r run) := by
  have hf : f.Harmless s.recovered := h.harmless f (hstack ▸ List.mem_cons_self)
  have hrest : ∀ g ∈ rest, g.Harmless s.recovered :=
    fun g hg => h.harmless g (hstack ▸ List.mem_cons_of_mem _ hg)
  simp only [Frame.Harmless, hph, exposure] at hf
  have hone : tr ≠ .popFrame → ∀ d ∈ f.defers.take 1, d.callee.isNative = false := by
    intro htr d hd
    refine hf d (List.take_subset_take_left _ ?_ hd)
    rw [if_neg htr]
    exact Nat.le_add_left 1 _
  -- the check of `g.Panicked`
  have hcheck : ∀ u : Goroutine N V W, u.world = s.world → u.onExit = s.onExit →
      u.stack = s.stack → u.recovered = s.recovered → u.log = s.log → u.panicked = true →
      Inert s₀ (if u.panicked then u.afterDefers f rest tr r
        else { u with stack := { f with phase := .defers tr r none } :: rest }) := by
    intro u hw hx hst hr hl hp
    rw [if_pos hp]
    have hu : Inert s₀ u :=
      h.flags [] hp hw hx hst hr (hl.trans (List.append_nil _).symm) nofun
    exact hu.afterDefers (hst.trans hstack) tr r hone
  unfold Goroutine.done
  dsimp only
  split
  · rename_i hrun
    split
    · rename_i hrec
      refine h.of_stack [] h.panicked rfl rfl (fun g hg => ?_) (List.append_nil _).symm nofun
      rcases List.mem_cons.mp hg with rfl | hg
      · intro d hd
        refine hf d ?_
        rw [hrun, hrec]
        cases tr <;> exact hd
      · exact (hrest g hg).mono
    · exact hcheck { s with panicking := true, panics := Panics.ended s.panics } rfl rfl rfl rfl rfl
        h.panicked
  · exact hcheck s rfl rfl rfl rfl rfl h.panicked

/-- **A step of a halted goroutine has no effect**, if no deferred call that
is still dispatched is intercepted. -/
theorem step (h : Inert s₀ s) (hst : Step env s a t) : Inert s₀ t := by
  have hrunning : s.stopped ≠ false := by simp [stopped, h.panicked]
  rcases step_effect hst with ⟨f, rest, hstack, heff⟩ | ⟨-, -, rfl⟩
  · cases heff with
    | call b => exact h.pushFrame none b
    | defer _ _ hs | panic _ _ hs | recover _ hs | runDefers _ _ hs | native _ _ hs | probe _ hs =>
      exact absurd hs hrunning
    | halt => exact h.flags [.halted] rfl rfl rfl rfl rfl rfl (by simp)
    | abort => exact h.flags [.aborted] h.panicked rfl rfl rfl rfl rfl (by simp)
    | giveUp =>
      exact h.flags [] h.panicked rfl rfl rfl rfl (List.append_nil _).symm nofun
    | endProbe => exact h.flags [] h.panicked rfl rfl rfl rfl (List.append_nil _).symm nofun
    | leave b hf => exact h.leave hstack hf
    | next tr r hf hp => exact h.next hstack hf
    | done tr r run hf => exact h.done hstack hf
  · refine h.flags [] h.panicked ?_ rfl rfl rfl (List.append_nil _).symm nofun
    simp [finish, h.onExit]

end Inert

/-- Nothing that still runs after a fatal stop has an effect: the deferred
calls that unwinding dispatches are closures and functions, and the
goroutine is in no errgroup. -/
def HaltOK (s : Goroutine N V W) : Prop :=
  s.onExit = none ∧ ∀ f ∈ s.stack, f.Harmless s.recovered

/-- **A fatal stop runs nothing more**, in every state that meets `HaltOK`:
whatever the goroutine does after the stop, the world is as it was, and no
deferred call has been run. -/
theorem halt_inert {u : Goroutine N V W} {acts : List (Act N V)} (hok : HaltOK s)
    (hhalt : Step env s .halt t) (hrest : Transition.Run (Step env) t acts u) :
    u.panicked = true ∧ u.world = s.world ∧
      ∃ es, u.log = s.log ++ es ∧ ∀ n d, .ran n d ∉ es := by
  have ht : Inert s t := by
    rcases step_effect hhalt with ⟨f, rest, -, heff⟩ | ⟨-, h, -⟩
    · cases heff
      exact ⟨rfl, rfl, hok.1, hok.2, [.halted], rfl, by simp⟩
    · cases h
  have hu : Inert s u := hrest.invariant (fun _ _ _ h hI => hI.step h) ht
  exact ⟨hu.panicked, hu.world, hu.log⟩

end Goroutine

/-! ## Sync primitives as the world -/

open Interp (Op Interpreter natConfig)

/-- The intercepted calls are the operations of `Interp/Machine.lean`, by the
goroutine `g`. -/
def syncCalls (g : Gid) (op : Op Nat Unit) (w : Interpreter Nat Unit) : Interpreter Nat Unit :=
  w.run (natConfig true) g op

open Goroutine

/-- `mu.Lock(); defer mu.Unlock()` in `main`. -/
def locksThenDefers : Goroutine (Op Nat Unit) Nat (Interpreter Nat Unit) :=
  reached (syncCalls 1) (init (.init (natConfig true)) false none)
    [.native (.mutex false ⟨1, 0⟩ .lock ""), .defer (.native (.mutex false ⟨1, 0⟩ .unlock ""))]

/-- The same, with a deferred closure registered last. -/
def locksThenDefersClosure : Goroutine (Op Nat Unit) Nat (Interpreter Nat Unit) :=
  reached (syncCalls 1) locksThenDefers [.defer (.body false)]

theorem halt_inert_closure :
    (reached (syncCalls 1) locksThenDefersClosure
      [.halt, .leave, .next, .leave, .next, .done]).stack = [] ∧
    (reached (syncCalls 1) locksThenDefersClosure
      [.halt, .leave, .next, .leave, .next, .done]).world = locksThenDefersClosure.world := by
  have hok : HaltOK locksThenDefersClosure := by
    refine ⟨rfl, fun f hf => ?_⟩
    have hstack : locksThenDefersClosure.stack = [⟨0, none, false,
        [⟨1, .body false⟩, ⟨0, .native (.mutex false ⟨1, 0⟩ .unlock "")⟩], .blocks false⟩] := rfl
    rw [hstack, List.mem_singleton] at hf
    subst hf
    simp [Frame.Harmless, exposure, Callee.isNative]
  have hrun : Transition.Run (Step (syncCalls 1))
      (reached (syncCalls 1) locksThenDefersClosure [.halt]) [.leave, .next, .leave, .next, .done]
      (reached (syncCalls 1) locksThenDefersClosure
        [.halt, .leave, .next, .leave, .next, .done]) :=
    Transition.run_of_exec rfl
  exact ⟨rfl, (halt_inert hok rfl hrun).2.1⟩

/-- A member of an errgroup, which has just started. -/
def member : Goroutine (Op Nat Unit) Nat (Interpreter Nat Unit) :=
  init ((Interpreter.init (natConfig true)).run (natConfig true) 1 (.errgroupGo ⟨1, 0⟩ "")) false
    (some .exit)

/-- **A fatal stop still unlocks.** os.Exit in a function that has
`defer mu.Unlock()` pending: when the goroutine is unwound, the mutex is
unlocked and the goroutine's clock has advanced. And the exit of a halted
member of an errgroup still counts. -/
theorem unlocked_after_exit :
    (∃ t u, Step (syncCalls 1) locksThenDefers .halt t ∧
      Transition.Run (Step (syncCalls 1)) t [.leave, .next, .done] u ∧ u.stack = [] ∧
      (locksThenDefers.world.mutexes ⟨false, 1⟩).locked = true ∧
      (u.world.mutexes ⟨false, 1⟩).locked = false ∧
      (locksThenDefers.world.clockOf 1).get 1 ≠ (u.world.clockOf 1).get 1) ∧
    ∃ t u, Step (syncCalls 2) member .halt t ∧
      Transition.Run (Step (syncCalls 2)) t [.leave, .next, .finish] u ∧
      (member.world.mutexes ⟨true, 1⟩).wgCounter = 1 ∧
      (u.world.mutexes ⟨true, 1⟩).wgCounter = 0 := by
  refine ⟨⟨_, _, rfl, Transition.run_of_exec rfl, rfl, rfl, rfl, by decide⟩,
    _, _, rfl, Transition.run_of_exec rfl, rfl, rfl⟩

end Giri.Call
