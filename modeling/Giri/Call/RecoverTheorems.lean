/-
Giri.Call.RecoverTheorems — recover, against Go's stack of panics.

The interpreter has one `PanicValue` and one `Recovered` for a goroutine.
That is enough while there is one panic, and `recover_go` says so: with at
most one panic on Go's stack whenever recover is called, and called directly
by the deferred function if that panic is in flight, recover returns what Go
returns, and the goroutine unwinds exactly when Go's innermost panic does.

It is not enough otherwise. recover looks at neither who calls it nor whose
panic it is, and a second panic overwrites the value of the first
(`recover_differs`).
-/
import Giri.Call.Unwind

namespace Giri.Call

variable {N V W : Type}

/-- The value recover can get at: of the innermost panic, unless it is
recovered. -/
def Panics.value : List (Panic V) → Option V
  | [] => none
  | p :: _ => if p.recovered then none else some p.value

/-- The outer panics wait for the deferred call they run; only the outermost
is recovered, and only while it runs a deferred call. -/
structure Panics.Ordered (ps : List (Panic V)) : Prop where
  outer : ∀ p ∈ ps.tail, p.running ≠ none
  inner : ∀ p ∈ ps.dropLast, p.recovered = false
  fresh : ∀ p ∈ ps, p.running = none → p.recovered = false

namespace Panics.Ordered

variable {ps : List (Panic V)} {p q : Panic V}

theorem nil : Ordered ([] : List (Panic V)) := ⟨nofun, nofun, nofun⟩

theorem single (h : p.running = none → p.recovered = false) : Ordered [p] :=
  ⟨nofun, nofun, fun q hq => by cases List.mem_singleton.mp hq; exact h⟩

/-- A panic that is not recovered, on top of others that all run a deferred
call. -/
theorem cons (h : Ordered ps) (hp : p.recovered = false) (hps : ∀ q ∈ ps, q.running ≠ none) :
    Ordered (p :: ps) where
  outer := hps
  inner q hq := by
    cases ps with
    | nil => cases hq
    | cons =>
      rw [List.dropLast_cons_cons] at hq
      rcases List.mem_cons.mp hq with rfl | hq
      · exact hp
      · exact h.inner q hq
  fresh q hq hn := by
    rcases List.mem_cons.mp hq with rfl | hq
    · exact hp
    · exact h.fresh q hq hn

theorem tail (h : Ordered (p :: ps)) : Ordered ps where
  outer q hq := h.outer q (List.mem_of_mem_tail hq)
  inner q hq := by
    cases ps with
    | nil => cases hq
    | cons => exact h.inner q (List.mem_cons_of_mem _ hq)
  fresh q hq := h.fresh q (List.mem_cons_of_mem _ hq)

/-- What is below a recovered panic: nothing. -/
theorem eq_nil (h : Ordered (p :: ps)) (hp : p.recovered = true) : ps = [] := by
  cases ps with
  | nil => rfl
  | cons =>
    have := h.inner p List.mem_cons_self
    rw [hp] at this
    cases this

/-- The deferred call `d` of an unwinding is over: either some panic goes on
unwinding, with its value; or the only panic was recovered. -/
theorem ended {d : Nat} {ds : List Nat} (h : Ordered (p :: ps))
    (hds : (p :: ps).filterMap (·.running) = d :: ds) :
    Ordered (Panics.ended (p :: ps)) ∧ (Panics.ended (p :: ps)).filterMap (·.running) = ds ∧
      value (Panics.ended (p :: ps)) = value (p :: ps) ∧
      ((p.running = none ∨ p.recovered = false) ∧
          (∃ q qs, Panics.ended (p :: ps) = q :: qs ∧ q.running = none) ∨
        (p.running ≠ none ∧ p.recovered = true) ∧ Panics.ended (p :: ps) = []) := by
  cases hr : p.running with
  | none =>
    -- a new panic replaces the one that ran the deferred call
    have hover : Panics.ended (p :: ps) = p :: ps.tail := by simp [Panics.ended, hr]
    have hp : p.recovered = false := h.fresh p List.mem_cons_self hr
    cases ps with
    | nil => simp [hr] at hds
    | cons q qs =>
      obtain ⟨e, he⟩ := Option.ne_none_iff_exists'.mp (h.outer q List.mem_cons_self)
      simp only [List.filterMap_cons, hr, he, List.cons.injEq] at hds
      rw [hover]
      refine ⟨h.tail.tail.cons hp fun x hx => h.outer x (List.mem_cons_of_mem _ hx), ?_, rfl,
        .inl ⟨.inl rfl, p, qs, rfl, hr⟩⟩
      simpa [hr] using hds.2
  | some =>
    simp only [List.filterMap_cons, hr, List.cons.injEq] at hds
    cases hp : p.recovered with
    | true =>
      obtain rfl := h.eq_nil hp
      have hover : Panics.ended [p] = [] := by simp [Panics.ended, hr, hp]
      rw [hover]
      refine ⟨.nil, hds.2, by simp [value, hp], .inr ⟨⟨nofun, rfl⟩, rfl⟩⟩
    | false =>
      have hover : Panics.ended (p :: ps) = { p with running := none } :: ps := by
        simp [Panics.ended, hr, hp]
      rw [hover]
      exact ⟨h.tail.cons hp h.outer, hds.2, rfl, .inl ⟨.inr rfl, _, ps, rfl, rfl⟩⟩

end Panics.Ordered

/-- The deferred call that a frame runs for a panic. -/
def Phase.unwinding : Phase → Option Nat
  | .defers _ _ (some run) => if run.panicking then some run.id else none
  | _ => none

/-- The deferred calls that are being run for panics, the innermost first. -/
def unwindings (stack : List (Frame N)) : List Nat := stack.filterMap (·.phase.unwinding)

@[simp] theorem unwindings_cons (f : Frame N) (rest : List (Frame N)) :
    unwindings (f :: rest) = f.phase.unwinding.toList ++ unwindings rest := by
  cases h : f.phase.unwinding <;> simp [unwindings, h]

namespace Goroutine

variable {env : N → W → W} {s t : Goroutine N V W} {f : Frame N} {rest : List (Frame N)}
  {a : Act N V}

/-- recover is called with no panic there; or with one, which has been
recovered before or whose unwinding runs the caller. -/
def RecoverOK (s : Goroutine N V W) : Act N V → Prop
  | .recover => s.panics = [] ∨ ∃ p, s.panics = [p] ∧
      (p.recovered = true ∨ ∃ f rest, s.stack = f :: rest ∧ p.running = f.deferred)
  | _ => True

/-- The flags of the goroutine are those of Go's panics. -/
structure Flat (s : Goroutine N V W) : Prop where
  /-- The goroutine unwinds if the innermost panic runs no deferred call. -/
  panicking : s.panicking = true ↔ ∃ p ps, s.panics = p :: ps ∧ p.running = none
  value : s.panicValue = Panics.value s.panics
  unwindings : s.panics.filterMap (·.running) = unwindings s.stack
  ordered : Panics.Ordered s.panics
  recovered : ∀ p ps, s.panics = p :: ps → p.running ≠ none → s.recovered = p.recovered
  log : ∀ got want, .recovered got want ∈ s.log → got = want

/-- What a step must keep, if it does nothing to panics. -/
theorem Flat.of_same (h : Flat s) (hp : t.panicking = s.panicking)
    (hv : t.panicValue = s.panicValue) (hr : t.recovered = s.recovered)
    (hps : t.panics = s.panics) (hst : Giri.Call.unwindings t.stack = Giri.Call.unwindings s.stack)
    (hl : ∀ got want, .recovered got want ∈ t.log → .recovered got want ∈ s.log) : Flat t where
  panicking := by rw [hp, hps]; exact h.panicking
  value := by rw [hv, hps]; exact h.value
  unwindings := by rw [hps, hst]; exact h.unwindings
  ordered := hps ▸ h.ordered
  recovered := by rw [hps, hr]; exact h.recovered
  log got want hm := h.log got want (hl got want hm)

/-- The frame on top moves, and no deferred call is running in it then. -/
theorem Moved.unwindings (h : Moved s f rest t) :
    Giri.Call.unwindings t.stack = Giri.Call.unwindings rest := by
  cases h with
  | phase ph ds hph =>
    have hnone : ph.unwinding = none := by
      cases ph with
      | blocks => rfl
      | defers tr r run =>
        cases run with
        | none => rfl
        | some run => exact absurd rfl (hph tr r run)
    simp [hnone]
  | drop => rfl

theorem Moved.same (h : Moved s f rest t) :
    t.panicking = s.panicking ∧ t.panicValue = s.panicValue ∧ t.recovered = s.recovered ∧
      t.panics = s.panics ∧
      ∀ got want, .recovered got want ∈ t.log → .recovered got want ∈ s.log := by
  cases h with
  | phase => exact ⟨rfl, rfl, rfl, rfl, fun _ _ h => h⟩
  | drop =>
    refine ⟨rfl, rfl, rfl, rfl, fun got want hm => ?_⟩
    simpa [dropFrame, emit] using hm

theorem Flat.moved (h : Flat s) (hst : Giri.Call.unwindings s.stack = Giri.Call.unwindings rest)
    (hm : Moved s f rest t) : Flat t := by
  obtain ⟨hp, hv, hr, hps, hl⟩ := hm.same
  exact h.of_same hp hv hr hps (hm.unwindings.trans hst.symm) hl

/-- While instructions are executed, the innermost panic runs a deferred
call. -/
theorem Flat.running (h : Flat s) (hp : s.panicking = false) : ∀ p ∈ s.panics, p.running ≠ none := by
  intro p hm hnone
  cases hps : s.panics with
  | nil => rw [hps] at hm; cases hm
  | cons q ps =>
    rw [hps] at hm
    rcases List.mem_cons.mp hm with rfl | hm
    · have := h.panicking.mpr ⟨p, ps, hps, hnone⟩
      rw [hp] at this
      cases this
    · exact h.ordered.outer p (by rw [hps]; exact hm) hnone

theorem panicking_of_running (h : s.stopped = false) : s.panicking = false := by
  simp only [stopped, Bool.or_eq_false_iff] at h
  exact h.1.2

/-- A new panic. -/
theorem Flat.raise (h : Flat s) (hs : s.panicking = false) (v : V) :
    Flat { s with panicking := true, panicValue := some v, panics := Panics.raise v s.panics } where
  panicking := ⟨fun _ => ⟨_, _, rfl, rfl⟩, fun _ => rfl⟩
  value := rfl
  unwindings := h.unwindings
  ordered := h.ordered.cons rfl (h.running hs)
  recovered p ps hps hne := by
    cases hps
    exact absurd rfl hne
  log := h.log

/-- recover, under `RecoverOK`. -/
theorem Flat.recover (h : Flat s) (hs : s.panicking = false) (hstack : s.stack = f :: rest)
    (hok : RecoverOK s .recover) : Flat (s.recover f) := by
  -- recover finds nothing, and returns nil
  have hnil : s.panicValue = none → Panics.recover f.deferred s.panics = (none, s.panics) →
      Flat (s.recover f) := by
    intro hv hrec
    have ht : s.recover f = s.emit (.recovered none none) := by
      unfold Goroutine.recover
      rw [hrec]
      dsimp only
      split
      · rename_i v _ hv'
        rw [hv] at hv'
        cases hv'
      · rfl
    rw [ht]
    refine { h with log := fun got want hm => ?_ }
    rcases List.mem_append.mp hm with hm | hm
    · exact h.log got want hm
    · cases List.mem_singleton.mp hm
      rfl
  rcases hok with hps | ⟨p, hps, hp⟩
  · exact hnil (by rw [h.value, hps]; rfl) (by rw [hps]; rfl)
  · cases hrec : p.recovered with
    | true =>
      refine hnil (by rw [h.value, hps]; simp [Panics.value, hrec]) ?_
      rw [hps]
      simp [Panics.recover, hrec]
    | false =>
      rw [hrec] at hp
      obtain ⟨f', rest', hst, hrun⟩ := hp.resolve_left Bool.false_ne_true
      obtain ⟨rfl, rfl⟩ : f' = f ∧ rest' = rest := by simpa [hst] using hstack
      have hne : p.running ≠ none := h.running hs p (hps ▸ List.mem_singleton.mpr rfl)
      have hv : s.panicValue = some p.value := by rw [h.value, hps]; simp [Panics.value, hrec]
      have hgo : Panics.recover f'.deferred s.panics =
          (some p.value, [{ p with recovered := true }]) := by
        rw [hps, ← hrun]
        simp [Panics.recover, hrec, Option.isSome_iff_ne_none.mpr hne]
      have ht : s.recover f' = { s with
          panics := [{ p with recovered := true }], panicValue := none, recovered := true }.emit
            (.recovered (some p.value) (some p.value)) := by
        simp [Goroutine.recover, hs, hv, hgo]
      rw [ht]
      exact
        { panicking := by
            constructor
            · intro hp
              cases hs.symm.trans hp
            · rintro ⟨q, qs, hq, hnone⟩
              cases hq
              exact absurd hnone hne
          value := rfl
          unwindings := by
            have hu := h.unwindings
            rw [hps] at hu
            exact hu
          ordered := .single fun hnone => absurd hnone hne
          recovered := fun q qs hq _ => by cases hq; rfl
          log := fun got want hm => by
            rcases List.mem_append.mp hm with hm | hm
            · exact h.log got want hm
            · cases List.mem_singleton.mp hm
              rfl }

theorem Flat.pushFrame (h : Flat s) (d : Option Nat) (b : Bool) : Flat (s.pushFrame d b) :=
  h.of_same rfl rfl rfl rfl (by simp [Goroutine.pushFrame, Phase.unwinding]) fun _ _ hm => hm

theorem Flat.emit (h : Flat s) {e : Event V} (he : ∀ got want, e ≠ .recovered got want) :
    Flat (s.emit e) := by
  refine h.of_same rfl rfl rfl rfl rfl fun got want hm => ?_
  rcases List.mem_append.mp hm with hm | hm
  · exact hm
  · exact absurd (List.mem_singleton.mp hm).symm (he got want)

theorem Flat.setWorld (h : Flat s) (w : W) : Flat { s with world := w } :=
  h.of_same rfl rfl rfl rfl rfl fun _ _ hm => hm

theorem Flat.executeDeferred (h : Flat s) (n : Nat) (d : Deferred N) :
    Flat (s.executeDeferred env n d) := by
  unfold Goroutine.executeDeferred
  split
  · refine (h.emit ?_).pushFrame _ _
    split <;> exact nofun
  · exact (h.setWorld _).emit nofun
  · exact h.emit nofun

/-- The next deferred call is taken. -/
theorem Flat.next (h : Flat s) (hstack : s.stack = f :: rest) {tr : Trigger} {r : Bool}
    (hph : f.phase = .defers tr r none) : Flat (s.next env f rest tr r) := by
  have hun : Giri.Call.unwindings s.stack = Giri.Call.unwindings rest := by
    simp [hstack, hph, Phase.unwinding]
  unfold Goroutine.next
  split
  · rename_i hds
    exact h.moved hun (moved_afterDefers tr r (.inl hds))
  · rename_i d ds hds
    refine Flat.executeDeferred ?_ f.id d
    dsimp only
    split
    · -- the innermost panic, which unwinds, now runs `d`
      rename_i hp
      obtain ⟨p, ps, hps, hnone⟩ := h.panicking.mp hp
      have ho := h.ordered
      have hval := h.value
      have hu := h.unwindings
      rw [hps] at ho hval hu
      have hfresh : p.recovered = false := ho.fresh p List.mem_cons_self hnone
      have hruns : Panics.runs d.id s.panics = { p with running := some d.id } :: ps := by
        rw [hps]; rfl
      simp only [hruns]
      exact
        { panicking := ⟨nofun, fun ⟨q, qs, hq, hn⟩ => by cases hq; cases hn⟩
          value := hval
          unwindings := by
            rw [hun] at hu
            simpa [hnone, Phase.unwinding, hp] using hu
          ordered := ho.tail.cons hfresh ho.outer
          recovered := fun q qs hq _ => by cases hq; exact hfresh.symm
          log := h.log }
    · rename_i hp
      refine h.of_same rfl rfl rfl rfl ?_ fun _ _ hm => hm
      simp [hun, Phase.unwinding, hp]

/-- A deferred call run for a panic is over. The goroutine goes on unwinding
if a new panic came out of it, or if nobody recovered. -/
theorem Flat.ended (h : Flat s) {d : Nat} {rest : List (Frame N)}
    (hun : Giri.Call.unwindings s.stack = d :: Giri.Call.unwindings rest)
    (hst : Giri.Call.unwindings t.stack = Giri.Call.unwindings rest)
    (hps : t.panics = Panics.ended s.panics) (hv : t.panicValue = s.panicValue)
    (hp : t.panicking = (s.panicking || !s.recovered))
    (hl : ∀ got want, .recovered got want ∈ t.log → .recovered got want ∈ s.log) : Flat t := by
  have hu := h.unwindings.trans hun
  have ho := h.ordered
  have hval := h.value
  cases hs : s.panics with
  | nil => rw [hs] at hu; cases hu
  | cons p ps =>
    rw [hs] at hu ho hval hps
    obtain ⟨ho', hu', hval', hcase⟩ := ho.ended hu
    rw [← hps] at ho' hu' hval' hcase
    -- the goroutine unwinds if some panic does
    have hpanicking : (p.running = none ∨ p.recovered = false) ↔ t.panicking = true := by
      rw [hp, Bool.or_eq_true, Bool.not_eq_true']
      constructor
      · rintro (hr | hr)
        · exact .inl (h.panicking.mpr ⟨p, ps, hs, hr⟩)
        · by_cases hn : p.running = none
          · exact .inl (h.panicking.mpr ⟨p, ps, hs, hn⟩)
          · exact .inr ((h.recovered p ps hs hn).trans hr)
      · rintro (hr | hr)
        · obtain ⟨q, qs, hq, hn⟩ := h.panicking.mp hr
          rw [hs] at hq
          cases hq
          exact .inl hn
        · by_cases hn : p.running = none
          · exact .inl hn
          · exact .inr ((h.recovered p ps hs hn).symm.trans hr)
    exact
      { panicking := by
          rw [← hpanicking]
          rcases hcase with ⟨hp, hq⟩ | ⟨⟨hn, hr⟩, hnil⟩
          · exact iff_of_true hp hq
          · simp [hn, hr, hnil]
        value := by rw [hv, hval, hval']
        unwindings := hu'.trans hst.symm
        ordered := ho'
        recovered := fun q qs hq hne => by
          rcases hcase with ⟨-, q', qs', hq', hn⟩ | ⟨-, hnil⟩
          · rw [hq'] at hq
            cases hq
            exact absurd hn hne
          · rw [hnil] at hq
            cases hq
        log := fun got want hm => h.log got want (hl got want hm) }

theorem Flat.done (h : Flat s) (hstack : s.stack = f :: rest) {tr : Trigger} {r : Bool}
    {run : Running} (hph : f.phase = .defers tr r (some run)) :
    Flat (s.done f rest tr r run) := by
  unfold Goroutine.done
  dsimp only
  split
  · rename_i hrun
    have hun : Giri.Call.unwindings s.stack = run.id :: Giri.Call.unwindings rest := by
      simp [hstack, hph, Phase.unwinding, hrun]
    split
    · rename_i hrec
      refine h.ended hun ?_ rfl rfl ?_ fun _ _ hm => hm
      · simp [Phase.unwinding]
      · simp [hrec]
    · rename_i hrec
      have hm := moved_check { s with panicking := true, panics := Panics.ended s.panics } rest hph r
      obtain ⟨hp, hv, -, hps, hl⟩ := hm.same
      refine h.ended hun hm.unwindings hps hv (hp.trans ?_) hl
      simp [hrec]
  · rename_i hrun
    refine h.moved ?_ (moved_check s rest hph r)
    simp [hstack, hph, Phase.unwinding, hrun]

theorem Flat.step (h : Flat s) (hok : RecoverOK s a) (hst : Step env s a t) : Flat t := by
  rcases step_effect hst with ⟨f, rest, hstack, heff⟩ | ⟨-, -, rfl⟩
  · have hblocks : ∀ b, f.phase = .blocks b →
        Giri.Call.unwindings s.stack = Giri.Call.unwindings rest := by
      intro b hph
      simp [hstack, hph, Phase.unwinding]
    cases heff with
    | call b => exact h.pushFrame none b
    | defer =>
      refine Flat.emit ?_ (by simp)
      refine h.of_same rfl rfl rfl rfl ?_ fun _ _ hm => hm
      simp [hstack]
    | panic v hf hs => exact h.raise (panicking_of_running hs) v
    | recover hf hs => exact h.recover (panicking_of_running hs) hstack hok
    | runDefers b hf => exact h.moved (hblocks b hf) (moved_runFrameDefers _)
    | native => exact h.setWorld _
    | halt | abort =>
      refine Flat.emit ?_ (by simp)
      exact h.of_same rfl rfl rfl rfl rfl fun _ _ hm => hm
    | giveUp | probe | endProbe => exact h.of_same rfl rfl rfl rfl rfl fun _ _ hm => hm
    | leave b hf => exact h.moved (hblocks b hf) (moved_leave b)
    | next tr r hf hp => exact h.next hstack hf
    | done tr r run hf => exact h.done hstack hf
  · exact h.of_same rfl rfl rfl rfl rfl fun _ _ hm => hm

theorem flat_init (world : W) (b : Bool) (x : Option N) :
    Flat (init world b x : Goroutine N V W) where
  panicking := ⟨nofun, fun ⟨_, _, h, _⟩ => nomatch h⟩
  value := rfl
  unwindings := rfl
  ordered := .nil
  recovered := nofun
  log := nofun

/-- **recover is Go's**, in every run whose calls of recover meet
`RecoverOK`: each returns what it returns in Go; the goroutine unwinds
exactly when the innermost panic of Go does; and the value kept is that of
the innermost panic, until it is recovered. -/
theorem recover_go {acts : List (Act N V)} {world : W} {b : Bool} {x : Option N}
    (hrun : Transition.Run (fun s a t => Step env s a t ∧ RecoverOK s a) (init world b x) acts s) :
    (∀ got want, .recovered got want ∈ s.log → got = want) ∧
    (s.panicking = true ↔ ∃ p ps, s.panics = p :: ps ∧ p.running = none) ∧
    s.panicValue = Panics.value s.panics := by
  have hI : Flat s := hrun.invariant (fun _ _ _ h hI => hI.step h.2 h.1) (flat_init world b x)
  exact ⟨hI.log, hI.panicking, hI.value⟩

/-- A function that defers a function which recovers, and panics; what it
returns to is not panicking. -/
def recoversOnce : List (Act Unit Nat) :=
  [.defer (.body false), .panic 7, .leave, .next, .recover, .leave, .next, .done, .next, .next]

theorem recover_go_once :
    (after recoversOnce).stack = [] ∧ .recovered (some 7) (some 7) ∈ (after recoversOnce).log ∧
      (after recoversOnce).panicking = false := by
  have hrun : Transition.Run (fun s a t => Step (fun _ w => w) s a t ∧ RecoverOK s a)
      (init () false none) recoversOnce (after recoversOnce) := by
    refine Transition.run_of_guarded (Transition.exec_getD (by decide))
      ⟨trivial, trivial, trivial, trivial, .inr ⟨_, rfl, .inr ⟨_, _, rfl, rfl⟩⟩, trivial, trivial,
        trivial, trivial, trivial, trivial⟩
  have hpanic := (recover_go hrun).2.1
  refine ⟨by decide, by decide, ?_⟩
  rw [Bool.eq_false_iff]
  intro hp
  obtain ⟨p, ps, hps, -⟩ := hpanic.mp hp
  cases hps

/-- A deferred function calls a function that panics with 2 and recovers it
in its own deferred function; then the deferred function recovers the panic
with 1 that it was run for. -/
def nestedPanic : List (Act Unit Nat) :=
  [.defer (.body false), .panic 1, .leave, .next,
    .call false, .defer (.body false), .panic 2, .leave, .next, .recover, .leave, .next, .done,
    .next, .next, .recover]

/-- A deferred function calls a helper, which recovers. -/
def recoverInHelper : List (Act Unit Nat) :=
  [.defer (.body false), .panic 1, .leave, .next, .call false, .recover]

/-- **recover differs from Go's.** After a panic raised and recovered inside
a deferred call, the outer one can't be recovered any more: recover returns
nil and not 1, and the goroutine goes on unwinding. And a helper of the
deferred function can recover, where Go returns nil. -/
theorem recover_differs :
    (∃ s : Goroutine Unit Nat Unit,
      Transition.Run (Step fun _ w => w) (init () false none) nestedPanic s ∧
        .recovered none (some 1) ∈ s.log) ∧
    (∃ s : Goroutine Unit Nat Unit,
      Transition.Run (Step fun _ w => w) (init () false none)
        (nestedPanic ++ [.leave, .next, .done]) s ∧ s.panicking = true ∧ s.panics = []) ∧
    ∃ s : Goroutine Unit Nat Unit,
      Transition.Run (Step fun _ w => w) (init () false none) recoverInHelper s ∧
        .recovered (some 1) none ∈ s.log :=
  ⟨⟨_, Transition.run_of_exec (Transition.exec_getD (by decide)), by decide⟩,
    ⟨_, Transition.run_of_exec (Transition.exec_getD (by decide)), by decide, by decide⟩,
    _, Transition.run_of_exec (Transition.exec_getD (by decide)), by decide⟩

end Goroutine

end Giri.Call
