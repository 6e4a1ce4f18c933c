/-
Giri.Session.EngineTheorems — one function in two environments.

If every command has the same answer in two environments and adds the same
violations, then so does every call of every function, and every Run: the
simulation of commands (`Env.Simulates`) is lifted through the prologue, the
value cache, the calls and the loop over the argument sets.

The simulation may be conditional: `good` says of the first environment that
nothing has gone wrong so far. It is enough to know this at the END of a
Run, because what is good at the end was good all along.
-/
import Giri.Session.Engine
import Giri.Session.RunTheorems

namespace Giri.Session

open Effect (Prog Handler Tied)

variable {I F O V E K A C U Q W W' H X : Type} {Ans : Q → Type}

/-- The second environment does what the first one does, as long as that is
good. -/
structure Env.Simulates (env : Env E K U W Q Ans) (env' : Env E K U W' Q Ans)
    (rel : W → W' → Prop) (good : W → List (Recorded E K) → Prop) : Prop where
  commands : Handler.Simulates env.handle env'.handle rel good
  log_back : ∀ w vs rs, good w (vs ++ rs) → good w vs
  gcPoint : ∀ w w' vs site k, rel w w' →
    good w (vs ++ (env.gcPoint w site).map (⟨·, some k⟩)) →
    env'.gcPoint w' site = env.gcPoint w site
  passed_back : ∀ w vs, good (env.passed w) vs → good w vs
  passed : ∀ w w' vs, rel w w' → good (env.passed w) vs → rel (env.passed w) (env'.passed w')
  beginSet_back : ∀ w vs, good (env.beginSet w) vs → good w vs
  beginSet : ∀ w w' vs, rel w w' → good (env.beginSet w) vs → rel (env.beginSet w) (env'.beginSet w')
  endCall_back : ∀ w vs, good (env.endCall w) vs → good w vs
  endCall : ∀ w w' vs, rel w w' → good (env.endCall w) vs → rel (env.endCall w) (env'.endCall w')
  view : ∀ w w', rel w w' → env'.view w' = env.view w

/-! ## §1. States of the two sides -/

/-- The same engine state in related worlds. -/
inductive Twin (rel : W → W' → Prop) (pre : List (Recorded E K))
    (s : State I V (Recorded E K) (C × W)) : State I V (Recorded E K) (C × W') → Prop where
  | mk {x' : W' × List (Recorded E K)} (h : Tied rel pre s.outside x') :
      Twin rel pre s (s.toCore.toState x')

/-- The same answer, in twin states. -/
def Answers (rel : W → W' → Prop) (pre : List (Recorded E K))
    (r : State I V (Recorded E K) (C × W) × X) (r' : State I V (Recorded E K) (C × W') × X) : Prop :=
  r'.2 = r.2 ∧ Twin rel pre r.1 r'.1

/-- Nothing has gone wrong so far. -/
def Good (good : W → List (Recorded E K) → Prop) (s : State I V (Recorded E K) (C × W)) : Prop :=
  good s.world.2 s.violations

/-- The session with another interpreter. -/
def Sess.withCore {R : Type} (st : Sess I V R W H) (s : State I V R W') : Sess I V R W' H :=
  { st with core := s }

/-- Sessions with the same counters. -/
inductive Twins (rel : W → W' → Prop) (pre : List (Recorded E K))
    (st : Sess I V (Recorded E K) (C × W) H) : Sess I V (Recorded E K) (C × W') H → Prop where
  | mk {s' : State I V (Recorded E K) (C × W')} (h : Twin rel pre st.core s') :
      Twins rel pre st (st.withCore s')

section

variable {eng : Engine I F O V E K A C U Q Ans} {env : Env E K U W Q Ans}
  {env' : Env E K U W' Q Ans} {rel : W → W' → Prop} {good : W → List (Recorded E K) → Prop}
  {pre : List (Recorded E K)} {s : State I V (Recorded E K) (C × W)}
  {s' : State I V (Recorded E K) (C × W')} {x : W × List (Recorded E K)}
  {x' : W' × List (Recorded E K)} {st : Sess I V (Recorded E K) (C × W) H}
  {st' : Sess I V (Recorded E K) (C × W') H}

theorem Twins.twin (h : Twins rel pre st st') : Twin rel pre st.core st'.core := by
  obtain ⟨h⟩ := h
  exact h

namespace Twin

theorem of_core (c : Core I V C) (h : Tied rel pre x x') :
    Twin rel pre (c.toState x) (c.toState x') := ⟨h⟩

theorem intro (hcore : s'.toCore = s.toCore) (h : Tied rel pre s.outside s'.outside) :
    Twin rel pre s s' := by
  have hs : s' = s.toCore.toState s'.outside := by
    rw [← hcore]
    rfl
  rw [hs]
  exact ⟨h⟩

variable (h : Twin rel pre s s')

include h

theorem core : s'.toCore = s.toCore := by
  obtain ⟨-⟩ := h
  rfl

theorem outside : Tied rel pre s.outside s'.outside := by
  obtain ⟨h⟩ := h
  exact h

theorem flags : s'.locals = s.locals ∧ s'.panicked = s.panicked ∧ s'.panicking = s.panicking := by
  obtain ⟨-⟩ := h
  exact ⟨rfl, rfl, rfl⟩

theorem violations : s.violations = pre ++ s'.violations := h.outside.2

theorem setLocal [DecidableEq I] (i : I) (v : V) :
    Twin rel pre (s.setLocal i v) (s'.setLocal i v) := by
  obtain ⟨h⟩ := h
  exact ⟨h⟩

theorem setPanic (v : V) : Twin rel pre { s with panicking := true, panicValue := some v }
      { s' with panicking := true, panicValue := some v } := by
  obtain ⟨h⟩ := h
  exact ⟨h⟩

/-- More violations, the same on both sides. -/
theorem log (rs : List (Recorded E K)) : Twin rel pre { s with violations := s.violations ++ rs }
      { s' with violations := s'.violations ++ rs } := by
  refine .intro h.core ⟨h.outside.1, ?_⟩
  show s.violations ++ rs = pre ++ (s'.violations ++ rs)
  rw [h.violations, List.append_assoc]

end Twin

/-- One function in two environments, the second of which does what the first
one does. -/
structure Both (I F O V E K A C U Q W W' : Type) (Ans : Q → Type) where
  eng : Engine I F O V E K A C U Q Ans
  env : Env E K U W Q Ans
  env' : Env E K U W' Q Ans
  rel : W → W' → Prop
  good : W → List (Recorded E K) → Prop
  sim : env.Simulates env' rel good
  start : Option (State I V (Recorded E K) (C × W))
  start' : Option (State I V (Recorded E K) (C × W'))

namespace Both

variable (b : Both I F O V E K A C U Q W W' Ans)

abbrev sem : Semantics I F O V E (Recorded E K) (C × W) A := b.eng.semantics b.env b.start

abbrev sem' : Semantics I F O V E (Recorded E K) (C × W') A := b.eng.semantics b.env' b.start'

end Both

variable {b : Both I F O V E K A C U Q W W' Ans} {cache : Option (Hook I V H)} {i : I}

namespace Twin

variable (h : Twin b.rel pre s s')

include h

theorem recordViolation (err : E) :
    Twin b.rel pre (b.sem.recordViolation s err) (b.sem'.recordViolation s' err) := by
  have hlog := h.log [b.sem.wrap s err]
  obtain ⟨h⟩ := h
  show Twin b.rel pre (if s.aborted then _ else _) (if s.aborted then _ else _)
  split
  · exact ⟨h⟩
  · exact hlog

theorem pending : Sess.pending b.sem' s' = Sess.pending b.sem s := by
  obtain ⟨-⟩ := h
  rfl

theorem pureOperands : b.sem'.pureOperands s' i = b.sem.pureOperands s i := by
  obtain ⟨-⟩ := h
  rfl

theorem cacheable : Sess.cacheable b.sem' cache s' i = Sess.cacheable b.sem cache s i := by
  obtain ⟨-⟩ := h
  rfl

/-- Whether a result may be stored is the same on both sides: as many
violations have come. -/
theorem stored_iff {s₁ : State I V (Recorded E K) (C × W)} {s₁' : State I V (Recorded E K) (C × W')}
    (h₁ : Twin b.rel pre s₁ s₁') :
    s₁'.violations.length = s'.violations.length ↔ s₁.violations.length = s.violations.length := by
  rw [h₁.violations, h.violations, List.length_append, List.length_append]
  omega

theorem install [DecidableEq I] (i : I) (r : Evaluated V E) :
    Twin b.rel pre (b.sem.install s i r) (b.sem'.install s' i r) := by
  unfold Semantics.install
  cases r.violation with
  | none =>
    cases r.panic with
    | none => exact h.setLocal i _
    | some v => exact (h.setPanic v).setLocal i _
  | some err =>
    cases r.panic with
    | none => exact (h.recordViolation err).setLocal i _
    | some v => exact ((h.recordViolation err).setPanic v).setLocal i _

end Twin

/-- At a GC safepoint no error is dropped. -/
theorem gcSafepoint_eq (ha : s.aborted = false) :
    b.sem.gcSafepoint s =
      { s with violations := s.violations ++
          (b.env.gcPoint s.world.2 (b.eng.site s.toCore)).map (⟨·, some (b.eng.frames s.toCore)⟩) } := by
  show List.foldl _ s (b.env.gcPoint _ _) = _
  generalize b.env.gcPoint s.world.2 (b.eng.site s.toCore) = errs
  induction errs generalizing s with
  | nil => simp
  | cons err errs ih =>
    obtain ⟨rs, hrs, hone⟩ := b.sem.recordViolation_append s err
    rw [hone ha] at hrs
    rw [List.foldl_cons, hrs, ih (by exact ha)]
    simp [State.toCore, Engine.semantics]

namespace Twins

variable (h : Twins b.rel pre st st')

include h

theorem count (k : InstrClass) (n : Nat) : Twins b.rel pre (st.count k n) (st'.count k n) := by
  obtain ⟨h⟩ := h
  exact ⟨h⟩

theorem advance {r : State I V (Recorded E K) (C × W) × List (I × V)}
    {r' : State I V (Recorded E K) (C × W') × List (I × V)} (hr : Answers b.rel pre r r') :
    Twins b.rel pre (st.advance r) (st'.advance r') := by
  obtain ⟨h⟩ := h
  obtain ⟨heq, hr⟩ := hr
  unfold Sess.advance
  rw [heq]
  exact ⟨hr⟩

/-- Both sides find the same in the cache. -/
theorem lookup (cache : Option (Hook I V H)) (i : I) :
    (Sess.lookup b.sem' cache st' i).1 = (Sess.lookup b.sem cache st i).1 ∧
      Twins b.rel pre (Sess.lookup b.sem cache st i).2 (Sess.lookup b.sem' cache st' i).2 ∧
      (Sess.lookup b.sem cache st i).2.core = st.core := by
  obtain ⟨⟨h⟩⟩ := h
  cases cache with
  | none => exact ⟨rfl, ⟨⟨h⟩⟩, rfl⟩
  | some hook =>
    unfold Sess.lookup
    rw [show Sess.cacheable b.sem' (some hook) (st.withCore _).core i =
      Sess.cacheable b.sem (some hook) st.core i from rfl]
    dsimp only
    split
    · exact ⟨rfl, ⟨⟨h⟩⟩, rfl⟩
    · exact ⟨rfl, ⟨⟨h⟩⟩, rfl⟩

theorem recorded : st'.recorded = st.recorded := by
  obtain ⟨-⟩ := h
  rfl

theorem overLimit : st'.overLimit = st.overLimit := by
  obtain ⟨-⟩ := h
  rfl

end Twins

/-! ## §2. Safepoints, programs and the end of a call -/

variable {fuel : Nat}

theorem safepoint_back (i : I) (hgood : Good b.good (b.sem.safepoint s i)) : Good b.good s := by
  obtain ⟨rs, hrs⟩ := b.sem.safepoint_append s i
  rw [hrs] at hgood
  exact b.sim.log_back _ _ _ hgood

theorem perform_back (p : Prog Q Ans (Core I V C × X))
    (x : W × List (Recorded E K)) (hgood : Good b.good (b.env.perform p x).1) : b.good x.1 x.2 :=
  Prog.run_back b.sim.commands.back p x hgood

theorem marshal_back (a : List A) (hgood : Good b.good (b.sem.marshal s a).1) : Good b.good s :=
  b.sim.beginSet_back _ _ (Prog.run_back b.sim.commands.back (b.eng.marshal s.toCore a) _ hgood)

theorem leave_back (st₀ st : Sess I V (Recorded E K) (C × W) H)
    (hgood : Good b.good (Sess.leave b.sem st₀ st).2.core) : Good b.good st.core :=
  b.sim.log_back _ _ _ (b.sim.endCall_back _ _ hgood)

namespace Twin

theorem safepoint (h : Twin b.rel pre s s') (ha : s.aborted = false) (i : I)
    (hgood : Good b.good (b.sem.safepoint s i)) :
    Twin b.rel pre (b.sem.safepoint s i) (b.sem'.safepoint s' i) := by
  have hcall : b.sem'.isCall i = b.sem.isCall i := rfl
  unfold Semantics.safepoint at hgood ⊢
  rw [hcall]
  split
  · rename_i hc
    rw [if_pos hc, gcSafepoint_eq ha] at hgood
    have hgc : b.env'.gcPoint s'.world.2 (b.eng.site s'.toCore) =
        b.env.gcPoint s.world.2 (b.eng.site s.toCore) := by
      rw [h.core]
      exact b.sim.gcPoint _ _ _ _ _ h.outside.1 hgood
    show Twin b.rel pre (List.foldl _ s (b.env.gcPoint _ _)) (List.foldl _ s' (b.env'.gcPoint _ _))
    rw [hgc]
    clear hgood hgc ha
    generalize b.env.gcPoint s.world.2 (b.eng.site s.toCore) = errs
    induction errs generalizing s s' with
    | nil => exact h
    | cons err errs ih => exact ih (h.recordViolation err)
  · exact h

theorem perform (h : Tied b.rel pre x x') (p : Prog Q Ans (Core I V C × X))
    (hgood : Good b.good (b.env.perform p x).1) :
    Answers b.rel pre (b.env.perform p x) (b.env'.perform p x') := by
  obtain ⟨hans, htied⟩ := Prog.run_sim b.sim.commands p x x' h hgood
  simp only [Answers, Env.perform, hans]
  exact ⟨trivial, .of_core _ htied⟩

variable (h : Twin b.rel pre s s')

include h

/-- A program that the engine's state gives. -/
theorem program (p : Core I V C → Prog Q Ans (Core I V C × X))
    (hgood : Good b.good (b.env.perform (p s.toCore) s.outside).1) :
    Answers b.rel pre (b.env.perform (p s.toCore) s.outside)
      (b.env'.perform (p s'.toCore) s'.outside) := by
  obtain ⟨h⟩ := h
  exact perform h _ hgood

/-- What follows a pure instruction. -/
theorem resume (hgood : Good b.good (b.sem.resume s).1) :
    Answers b.rel pre (b.sem.resume s) (b.sem'.resume s') := by
  have hpass : b.good (b.env.passed s.world.2) s.violations := perform_back _ _ hgood
  have htied : Tied b.rel pre (b.env.passed s.world.2, s.violations)
      (b.env'.passed s'.world.2, s'.violations) :=
    ⟨b.sim.passed _ _ _ h.outside.1 hpass, h.violations⟩
  obtain ⟨-⟩ := h
  exact perform htied _ hgood

theorem spawn (args : List V) (hgood : Good b.good (b.sem.spawn s args).1) :
    Answers b.rel pre (b.sem.spawn s args) (b.sem'.spawn s' args) := by
  obtain ⟨hans, htwin⟩ := h.program (fun c => b.eng.spawn c args) hgood
  exact ⟨congrArg (Option.map _) hans, htwin⟩

theorem marshal (a : List A) (hgood : Good b.good (b.sem.marshal s a).1) :
    Answers b.rel pre (b.sem.marshal s a) (b.sem'.marshal s' a) := by
  have hbegun : Tied b.rel pre (b.env.beginSet s.world.2, s.violations)
      (b.env'.beginSet s'.world.2, s'.violations) :=
    ⟨b.sim.beginSet _ _ s.violations h.outside.1
      (Prog.run_back b.sim.commands.back (b.eng.marshal s.toCore a) _ hgood), h.outside.2⟩
  obtain ⟨hans, htied⟩ := Prog.run_sim b.sim.commands (b.eng.marshal s.toCore a) _ _ hbegun hgood
  obtain ⟨-⟩ := h
  exact ⟨hans, .of_core _ htied⟩

/-- What is read after a call is the same. -/
theorem judge (vals : List V) (out : CallOutcome V (Recorded E K)) :
    Session.judge b.sem' s' vals out = Session.judge b.sem s vals out := by
  have hview : b.env'.view s'.world.2 = b.env.view s.world.2 := b.sim.view _ _ h.outside.1
  have hun : ∀ (vs : List V) (n : Nat), unmarshalAll b.sem' s' n vs =
      unmarshalAll b.sem s n vs := by
    intro vs
    induction vs with
    | nil => intro n; rfl
    | cons v vs ih =>
      intro n
      have hone : b.sem'.unmarshal s' n v =
          b.sem.unmarshal s n v := congrArg (fun u => b.eng.unmarshal u n v) hview
      unfold unmarshalAll
      rw [ih, hone]
  have hafter : b.sem'.argsAfter s' vals =
      b.sem.argsAfter s vals := congrArg (fun u => b.eng.argsAfter u vals) hview
  unfold Session.judge
  rw [hun, hafter]

end Twin

namespace Twins

theorem exhaust (h : Twins b.rel pre st st') (hgood : Good b.good (st.exhaust b.sem).core) :
    Twins b.rel pre (st.exhaust b.sem) (st'.exhaust b.sem') := by
  obtain ⟨h⟩ := h
  have hmid : Twins b.rel pre { st with exhausted := true }
      ({ st with exhausted := true }.withCore _) := ⟨h⟩
  exact hmid.advance (h.program b.eng.haltAll hgood)

/-- The end of a call. -/
theorem leave {st₀ : Sess I V (Recorded E K) (C × W) H}
    {st₀' : Sess I V (Recorded E K) (C × W') H} (h₀ : Twins b.rel pre st₀ st₀')
    (h : Twins b.rel pre st st') (hgood : Good b.good (Sess.leave b.sem st₀ st).2.core) :
    (Sess.leave b.sem' st₀' st').1 = (Sess.leave b.sem st₀ st).1 ∧
      Twins b.rel pre (Sess.leave b.sem st₀ st).2 (Sess.leave b.sem' st₀' st').2 := by
  have hlog := (h.twin.log (b.sem.deadlock st.core).toList).violations
  dsimp only at hlog
  have hdrop : ∀ a b : List (Recorded E K), (pre ++ a).drop (pre ++ b).length = a.drop b.length := by
    intro a b
    rw [List.length_append, ← List.drop_drop, List.drop_left]
  have hviol := congrArg (List.drop st₀.core.violations.length) hlog
  nth_rewrite 2 [h₀.twin.violations] at hviol
  rw [hdrop] at hviol
  obtain ⟨-⟩ := h₀
  obtain ⟨⟨h⟩⟩ := h
  refine ⟨?_, ⟨.intro rfl ⟨b.sim.endCall _ _ _ h.1 hgood, hlog⟩⟩⟩
  exact congrArg (fun vs => { (Sess.leave b.sem st₀ st).1 with violations := vs }) hviol.symm

end Twins

/-! ## §3. Pure instructions -/

variable [DecidableEq I]

theorem install_back (i : I) (r : Evaluated V E)
    (hgood : Good b.good (b.sem.install s i r)) : Good b.good s := by
  obtain ⟨rs, hviol, hworld⟩ := b.sem.install_append s i r
  unfold Good at hgood
  rw [hviol, hworld] at hgood
  exact b.sim.log_back _ _ _ hgood

theorem execPure_back (i : I) (hgood : Good b.good (b.sem.execPure s i)) : Good b.good s :=
  safepoint_back i (install_back i _ hgood)

theorem Twin.execPure (h : Twin b.rel pre s s') (ha : s.aborted = false) (i : I)
    (hgood : Good b.good (b.sem.execPure s i)) :
    Twin b.rel pre (b.sem.execPure s i) (b.sem'.execPure s' i) := by
  have hsafe := h.safepoint ha i (install_back i _ hgood)
  obtain ⟨h⟩ := h
  exact hsafe.install i _

/-! ## §4. The prologue -/

namespace Twins

theorem hit (h : Twins b.rel pre st st') (ha : st.core.aborted = false) (k : InstrClass) (res : V)
    (n : Nat) (hgood : Good b.good (st.hit b.sem i k res n).core) :
    Twins b.rel pre (st.hit b.sem i k res n) (st'.hit b.sem' i k res n) := by
  obtain ⟨h⟩ := h
  exact ⟨(h.safepoint ha i hgood).setLocal i res⟩

theorem executePure (h : Twins b.rel pre st st') (ha : st.core.aborted = false) (k : InstrClass)
    (hgood : Good b.good (b.sem.execPure st.core i)) :
    Twins b.rel pre (st.executePure b.sem cache i k) (st'.executePure b.sem' cache i k) := by
  obtain ⟨h⟩ := h
  have htwin := h.execPure ha i hgood
  obtain ⟨hlocals, hpanicked, hpanicking⟩ := htwin.flags
  unfold Sess.executePure
  simp only [Sess.withCore, h.stored_iff htwin, h.cacheable, h.pureOperands, hlocals, hpanicked,
    hpanicking]
  cases (b.sem.execPure st.core i).locals i with
  | none | some =>
    cases cache with
    | none => exact ⟨htwin⟩
    | some hook =>
      dsimp only
      split
      · exact ⟨htwin⟩
      · exact ⟨htwin⟩

theorem computePure_back (k : InstrClass)
    (hgood : Good b.good (st.computePure b.sem cache i k).core) : Good b.good st.core := by
  obtain ⟨u, -, heq | ⟨-, -, res, n, -, heq⟩⟩ := Sess.computePure_cases b.sem cache st i k
  · rw [heq, Sess.executePure_core] at hgood
    exact execPure_back i hgood
  · rw [heq] at hgood
    exact safepoint_back i hgood

theorem computePure (h : Twins b.rel pre st st') (ha : st.core.aborted = false) (k : InstrClass)
    (hgood : Good b.good (st.computePure b.sem cache i k).core) :
    Twins b.rel pre (st.computePure b.sem cache i k) (st'.computePure b.sem' cache i k) := by
  obtain ⟨hfound, hst, hcore⟩ := h.lookup cache i
  unfold Sess.computePure at hgood ⊢
  generalize Sess.lookup b.sem cache st i = l at *
  generalize Sess.lookup b.sem' cache st' i = l' at *
  obtain ⟨found, u⟩ := l
  obtain ⟨found', u'⟩ := l'
  obtain rfl : found' = found := hfound
  have ha : u.core.aborted = false := by rw [hcore]; exact ha
  cases found' with
  | none =>
    refine hst.executePure ha k ?_
    rw [Sess.executePure_core] at hgood
    exact hgood
  | some r =>
    obtain ⟨res, n⟩ := r
    exact hst.hit ha k res n hgood

/-- What an instruction leaves is good only if what it finds is. -/
theorem execInstruction_back (hgood : Good b.good (st.execInstruction b.sem cache i).core) :
    Good b.good st.core := by
  unfold Sess.execInstruction at hgood
  simp only at hgood
  split at hgood
  · exact computePure_back _ (b.sim.passed_back _ _ (perform_back _ _ hgood))
  · exact perform_back _ _ hgood

/-- **One instruction on both sides.** -/
theorem execInstruction (h : Twins b.rel pre st st') (ha : st.core.aborted = false)
    (hgood : Good b.good (st.execInstruction b.sem cache i).core) :
    Twins b.rel pre (st.execInstruction b.sem cache i) (st'.execInstruction b.sem' cache i) := by
  have hclass : b.sem'.classify st'.core i = b.sem.classify st.core i :=
    congrArg (fun c => b.eng.classify c i) h.twin.core
  have hpure : b.sem'.isPure i = b.sem.isPure i := rfl
  unfold Sess.execInstruction at hgood ⊢
  simp only [hclass, hpure] at hgood ⊢
  split at hgood
  · rename_i hp
    rw [if_pos hp, if_pos hp]
    have hmid : Twins b.rel pre (st.computePure b.sem cache i _)
        (st'.computePure b.sem' cache i _) :=
      h.computePure ha _ (b.sim.passed_back _ _ (perform_back _ _ hgood))
    exact hmid.advance (hmid.twin.resume hgood)
  · rename_i hp
    rw [if_neg hp, if_neg hp]
    exact (h.count _ 1).advance (h.twin.program (fun c => b.eng.execOther c i) hgood)

/-! ## §5. Calls -/

variable {st₁ : Sess I V (Recorded E K) (C × W) H}

theorem ends_back {is : List I} (hends : Sess.Ends b.sem cache st is st₁)
    (hgood : Good b.good st₁.core) :
    Good b.good st.core := by
  induction hends with
  | done => exact hgood
  | ended => exact perform_back _ _ hgood
  | step hp ho hrest ih => exact execInstruction_back (ih hgood)

/-- The instructions of a call. -/
theorem ends (h : Twins b.rel pre st st') {is : List I}
    (hends : Sess.Ends b.sem cache st is st₁) (hgood : Good b.good st₁.core) :
    ∃ st₁', Sess.Ends b.sem' cache st' is st₁' ∧ Twins b.rel pre st₁ st₁' := by
  induction hends generalizing st' with
  | done hp => exact ⟨st', .done (h.twin.pending.trans hp), h⟩
  | ended hp ho =>
    exact ⟨_, .ended (h.twin.pending.trans hp) (h.overLimit.trans ho), h.exhaust hgood⟩
  | step hp ho hrest ih =>
    obtain ⟨st₁', hends', h₁⟩ := ih (h.execInstruction (Sess.pending_aborted hp)
      (ends_back hrest hgood)) hgood
    exact ⟨st₁', .step (h.twin.pending.trans hp) (h.overLimit.trans ho) hends', h₁⟩

variable {out : CallOutcome V (Recorded E K)}

theorem call_back {budget : Nat} {args : List V}
    (hcall : Sess.call b.sem cache fuel st args budget = some (out, st₁))
    (hgood : Good b.good st₁.core) : Good b.good st.core := by
  have hback : Good b.good (b.sem.spawn st.core args).1 → Good b.good st.core := perform_back _ _
  unfold Sess.call at hcall
  generalize b.sem.spawn st.core args = r at hcall hback
  obtain ⟨core, err⟩ := r
  cases err with
  | some =>
    cases hcall
    exact hback hgood
  | none =>
    obtain ⟨st₂, hloop, hleave⟩ := Option.map_eq_some_iff.mp hcall
    obtain ⟨is, -, hends⟩ := Sess.callLoop_iff.mp hloop
    obtain ⟨-, rfl⟩ := Prod.mk.inj hleave
    exact hback (ends_back hends (leave_back st st₂ hgood))

/-- **One call on both sides.** -/
theorem call (h : Twins b.rel pre st st') {budget : Nat} {args : List V}
    (hcall : Sess.call b.sem cache fuel st args budget = some (out, st₁))
    (hgood : Good b.good st₁.core) :
    ∃ st₁', Sess.call b.sem' cache fuel st' args budget = some (out, st₁') ∧
      Twins b.rel pre st₁ st₁' := by
  have hspawn := h.twin.spawn args
  unfold Sess.call at hcall ⊢
  generalize b.sem.spawn st.core args = r at hcall hspawn
  generalize b.sem'.spawn st'.core args = r' at hspawn ⊢
  obtain ⟨core, err⟩ := r
  obtain ⟨core', err'⟩ := r'
  have hentered : Twin b.rel pre core core' → Twins b.rel pre { st.enter budget with core := core }
      { st'.enter budget with core := core' } := by
    intro htwin
    obtain ⟨-⟩ := h
    exact ⟨htwin⟩
  cases err with
  | some =>
    cases hcall
    obtain ⟨rfl, htwin⟩ := hspawn hgood
    exact ⟨_, rfl, hentered htwin⟩
  | none =>
    obtain ⟨st₂, hloop, hleave⟩ := Option.map_eq_some_iff.mp hcall
    obtain ⟨is, hlen, hends⟩ := Sess.callLoop_iff.mp hloop
    obtain ⟨rfl, rfl⟩ := Prod.mk.inj hleave
    have hgood₂ := leave_back st st₂ hgood
    obtain ⟨rfl, htwin⟩ := hspawn (ends_back hends hgood₂)
    obtain ⟨st₂', hends', h₂⟩ := (hentered htwin).ends hends hgood₂
    obtain ⟨hout, hst⟩ := h.leave h₂ hgood
    refine ⟨(Sess.leave b.sem' st' st₂').2, ?_, hst⟩
    show Option.map (Sess.leave b.sem' st') (Sess.callLoop _ _ _ _) = _
    rw [Sess.callLoop_iff.mpr ⟨is, hlen, hends'⟩, Option.map_some]
    exact congrArg some (Prod.ext hout rfl)

/-! ## §6. Runs -/

variable {opts : Options} {set remaining : Nat} {args : List (List A)}
  {res res₁ : Result I V (Recorded E K) A}

/-- What is good after the argument sets was good before them. -/
theorem sets_back (h : Sets b.sem cache fuel opts set remaining st args res st₁ res₁)
    (hgood : Good b.good st₁.core) : Good b.good st.core := by
  induction h with
  | nil | unrun => exact hgood
  | last _ hcall => exact marshal_back _ (call_back hcall hgood)
  | next _ hcall _ _ ih => exact marshal_back _ (call_back hcall (ih hgood))

/-- One argument set, from marshalling to the verdict. -/
theorem callSet (h : Twins b.rel pre st st') {a : List A}
    (hcall : st.callSet b.sem cache fuel a remaining = some (out, st₁))
    (hgood : Good b.good st₁.core) :
    ∃ st₁', st'.callSet b.sem' cache fuel a remaining = some (out, st₁') ∧
      Twins b.rel pre st₁ st₁' ∧ st'.verdict b.sem' a out st₁' = st.verdict b.sem a out st₁ := by
  obtain ⟨hvals, hm⟩ : (b.sem'.marshal st'.core a).2 = _ ∧ Twin b.rel pre _ _ :=
    h.twin.marshal a (call_back hcall hgood)
  have hin : Twins b.rel pre { st with core := (b.sem.marshal st.core a).1, recorded := [] }
      { st' with core := (b.sem'.marshal st'.core a).1, recorded := [] } := by
    obtain ⟨-⟩ := h
    exact ⟨hm⟩
  unfold Sess.callSet Sess.verdict
  rw [hvals]
  obtain ⟨st₁', hcall', h₁⟩ := hin.call hcall hgood
  exact ⟨st₁', hcall', h₁, h₁.twin.judge _ out⟩

/-- The loop over the argument sets. -/
theorem sets (h : Twins b.rel pre st st')
    (hsets : Sets b.sem cache fuel opts set remaining st args res st₁ res₁)
    (hgood : Good b.good st₁.core) :
    ∃ st₁', Sets b.sem' cache fuel opts set remaining st' args res st₁' res₁ ∧
      Twins b.rel pre st₁ st₁' := by
  induction hsets generalizing st' with
  | nil => exact ⟨st', .nil, h⟩
  | unrun => exact ⟨st', .unrun, h⟩
  | last hpos hcall hex =>
    obtain ⟨st₂', hcall', h₂, hverdict⟩ := h.callSet hcall hgood
    rw [← hverdict] at hex ⊢
    rw [← h₂.recorded]
    exact ⟨st₂', .last hpos hcall' hex, h₂⟩
  | next hpos hcall hex hrest ih =>
    obtain ⟨st₂', hcall', h₂, hverdict⟩ := h.callSet hcall (sets_back hrest hgood)
    obtain ⟨st₁', hrest', h₁⟩ := ih h₂ hgood
    rw [← hverdict] at hex hrest'
    rw [← h₂.recorded] at hrest'
    exact ⟨st₁', .next hpos hcall' hex hrest', h₁⟩

end Twins

/-- The loop leaves what `endSets` says. -/
theorem Sets.ends {R W : Type} {sem : Semantics I F O V E R W A} {opts : Options}
    {set remaining : Nat} {st st₁ : Sess I V R W H} {args : List (List A)}
    {res res₁ : Result I V R A} (h : Sets sem cache fuel opts set remaining st args res st₁ res₁) :
    endSets sem cache fuel remaining st args = some st₁ := by
  induction h with
  | nil => rfl
  | unrun => simp [endSets]
  | last hpos hcall hex => simp [endSets, hpos, hcall, hex]
  | next hpos hcall hex _ ih => simp [endSets, hpos, hcall, hex, ih]

namespace Engine

/-- The package initializer leaves something good. -/
def InitGood (eng : Engine I F O V E K A C U Q Ans) (env : Env E K U W Q Ans)
    (good : W → List (Recorded E K) → Prop) (fuel budget : Nat) : Prop :=
  ∀ spawn ∈ eng.spawnInit, ∀ r ∈ eng.callInit env spawn fuel budget, Good good r.2.core

/-- `NewSession` on both sides. -/
theorem start_sim (hsim : env.Simulates env' rel good) (hworld : rel env.world env'.world)
    {budget : Nat} (hinit : eng.InitGood env good fuel budget)
    (hs : eng.start env fuel budget = some s) :
    ∃ s', eng.start env' fuel budget = some s' ∧ Twin rel [] s s' := by
  have hnew : Twin rel [] (eng.initial.toState (env.world, []) : State I V (Recorded E K) (C × W))
      (eng.initial.toState (env'.world, [])) := .of_core _ ⟨hworld, rfl⟩
  unfold Engine.start at hs ⊢
  cases hspawn : eng.spawnInit with
  | none =>
    rw [hspawn] at hs
    cases hs
    exact ⟨_, rfl, hnew⟩
  | some spawn =>
    simp only [hspawn] at hs ⊢
    cases hcall : eng.callInit env spawn fuel budget with
    | none => rw [hcall] at hs; cases hs
    | some r =>
      obtain ⟨out, st⟩ := r
      have hgood : Good good st.core := hinit spawn hspawn (out, st) hcall
      obtain ⟨st', hcall', hst⟩ : ∃ st', eng.callInit env' spawn fuel budget = some (out, st') ∧
          Twins rel [] st st' :=
        Twins.call (b := ⟨_, env, env', rel, good, hsim, none, none⟩) ⟨hnew⟩ hcall hgood
      rw [hcall] at hs
      rw [hcall']
      simp only at hs ⊢
      split at hs
      · cases hs
      · rename_i hout
        cases hs
        rw [if_neg hout]
        exact ⟨_, rfl, .intro hst.twin.core ⟨hst.twin.outside.1, rfl⟩⟩

variable {opts : Options} {hook : H} {args : List (List A)} {res : Result I V (Recorded E K) A}

/-- A Run goes over the argument sets, from the session that `NewSession`
makes. -/
theorem run_iff : eng.run env opts cache hook fuel args = some res ↔ eng.accepts args = true ∧
      ∃ s st, eng.start env fuel opts.budget = some s ∧
        Sets (eng.semantics env (eng.start env fuel opts.budget)) cache fuel opts 0 opts.budget
          { core := s, hook } args {} st res := by
  unfold Engine.run Session.run
  constructor
  · intro h
    split at h
    · rename_i hacc
      split at h
      · cases h
      · rename_i s hs
        obtain ⟨st, hsets⟩ := runSets_iff.mp h
        exact ⟨hacc, s, st, hs, hsets⟩
    · cases h
  · rintro ⟨hacc, s, st, hs, hsets⟩
    have hstart : (eng.semantics env (eng.start env fuel opts.budget)).start = some s := hs
    have haccepts : (eng.semantics env (eng.start env fuel opts.budget)).accepts args = true := hacc
    rw [if_pos haccepts, hstart]
    exact runSets_iff.mpr ⟨st, hsets⟩

theorem leaves_of_sets (hs : eng.start env fuel opts.budget = some s)
    (h : Sets (eng.semantics env (eng.start env fuel opts.budget)) cache fuel opts 0 opts.budget
      { core := s, hook } args {} st res) :
    eng.leaves env opts cache hook fuel args = some st := by
  have hend := h.ends
  unfold Engine.leaves
  rw [hs] at hend ⊢
  exact hend

/-- **A simulation of the commands is one of every Run.** If the interpreter
that the Run leaves in the first environment is good, then the Run has the
same result in the second one. -/
theorem run_sim (hsim : env.Simulates env' rel good) (hworld : rel env.world env'.world)
    (hinit : eng.InitGood env good fuel opts.budget)
    (hrun : eng.run env opts cache hook fuel args = some res)
    (hend : ∀ st ∈ eng.leaves env opts cache hook fuel args, Good good st.core) :
    eng.run env' opts cache hook fuel args = some res := by
  obtain ⟨hacc, s, st, hs, hsets⟩ := run_iff.mp hrun
  obtain ⟨s', hs', htwin⟩ := start_sim hsim hworld hinit hs
  obtain ⟨st', hsets', -⟩ := Twins.sets (b := ⟨eng, env, env', rel, good, hsim,
    eng.start env fuel opts.budget, eng.start env' fuel opts.budget⟩) ⟨htwin⟩ hsets
    (hend st (leaves_of_sets hs hsets))
  exact run_iff.mpr ⟨hacc, s', st', hs', hsets'⟩

end Engine

end

end Giri.Session
