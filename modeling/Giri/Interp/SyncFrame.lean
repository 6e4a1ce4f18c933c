/-
Giri.Interp.SyncFrame — what a step leaves alone of the synchronization
primitives that it does not use.

A step is about one primitive or about none (`primOf`), and so are its parts
(`Micro`). It does not touch the state of any other one, adds no
entry about another one to the trace, and does not start waiting for another
one (`Touches`).
-/
import Giri.Interp.Results

namespace Giri.Interp

open Function (update_self update_of_ne)

variable {V T : Type}

/-- The primitive an entry of the trace is about: an operation on it, or the
start of a member of an errgroup. -/
def Kind.prim : Kind V T → Option Prim
  | .sync _ p => some p
  | .fork _ group => group
  | _ => none

namespace Interpreter

/-- What is different in `t`, as far as primitives go, belongs to `o`. -/
structure Touches (o : Option Prim) (s t : Interpreter V T) : Prop where
  mutexes : ∀ k, (∀ p, o = some p → k ≠ p.key) → t.mutexes k = s.mutexes k
  trace : ∃ es, t.trace = s.trace ++ es ∧ ∀ e ∈ es, e.kind.prim = none ∨ e.kind.prim = o
  nextGID : s.nextGID ≤ t.nextGID
  group : ∀ g q, (t.goroutines g).group = some q → (s.goroutines g).group = some q ∨ o = some q
  exited : ∀ g, g ≤ s.nextGID → (s.goroutines g).exited = true → (t.goroutines g).exited = true
  wait : ∀ g q, (t.goroutines g).wait = some (.group q) →
    (s.goroutines g).wait = some (.group q) ∨ o = some q

section Fork

variable (s : Interpreter V T) (g : Gid) (group : Option Prim) (site : String)

/-- The child of a go statement is in the group given, and does not wait. -/
theorem fork_child :
    let r := ({ s with nextGID := s.nextGID + 1 }.fork g (s.nextGID + 1) group site).goroutines
      (s.nextGID + 1)
    r.group = group ∧ r.wait = none ∧ r.spawned = true ∧ r.exited = false := by
  have hrecord {α : Type} (π : Goroutine V T → α) {r : Goroutine V T} :
      π (Function.update s.goroutines (s.nextGID + 1) r (s.nextGID + 1)) = π r :=
    congrArg π (update_self ..)
  exact ⟨(setClock_group ..).trans (hrecord _), (setClock_wait ..).trans (hrecord _),
    (setClock_spawned ..).trans (hrecord _), (setClock_exited ..).trans (hrecord _)⟩

/-- The other goroutines are as before, but for the parent's clock. -/
theorem fork_other {q : Gid} (hq : q ≠ s.nextGID + 1) :
    let r := ({ s with nextGID := s.nextGID + 1 }.fork g (s.nextGID + 1) group site).goroutines q
    r.group = (s.goroutines q).group ∧ r.wait = (s.goroutines q).wait ∧
      r.exited = (s.goroutines q).exited ∧ r.spawned = (s.goroutines q).spawned ∧
      r.aborted = (s.goroutines q).aborted := by
  have hrecord {α : Type} (π : Goroutine V T → α) {r : Goroutine V T} :
      π (Function.update s.goroutines (s.nextGID + 1) r q) = π (s.goroutines q) :=
    congrArg π (update_of_ne hq ..)
  have haborted (u : Interpreter V T) (c : Clock) :
      ((u.setClock g c).goroutines q).aborted = (u.goroutines q).aborted :=
    modify_field Goroutine.aborted u g q (f := fun r => { r with vclock := c }) fun _ => rfl
  exact ⟨(setClock_group ..).trans (hrecord _), (setClock_wait ..).trans (hrecord _),
    (setClock_exited ..).trans (hrecord _), (setClock_spawned ..).trans (hrecord _),
    (haborted ..).trans (hrecord _)⟩

end Fork

namespace Touches

variable {s t u : Interpreter V T} {g : Gid} {o : Option Prim} {p : Prim}

/-! ## §1. Updates -/

theorem refl (o : Option Prim) (s : Interpreter V T) : Touches o s s :=
  ⟨fun _ _ => rfl, ⟨[], by simp, by simp⟩, le_refl _, fun _ _ => .inl, fun _ _ h => h,
    fun _ _ => .inl⟩

theorem trans (h₁ : Touches o s t) (h₂ : Touches o t u) : Touches o s u where
  mutexes k hk := (h₂.mutexes k hk).trans (h₁.mutexes k hk)
  trace := by
    obtain ⟨es, htr, hes⟩ := h₁.trace
    obtain ⟨es', htr', hes'⟩ := h₂.trace
    refine ⟨es ++ es', by rw [htr', htr, List.append_assoc], fun e he => ?_⟩
    exact (List.mem_append.mp he).elim (hes e) (hes' e)
  nextGID := h₁.nextGID.trans h₂.nextGID
  group g q hq := (h₂.group g q hq).elim (h₁.group g q) .inr
  exited g hg hx := h₂.exited g (hg.trans h₁.nextGID) (h₁.exited g hg hx)
  wait g q hq := (h₂.wait g q hq).elim (h₁.wait g q) .inr

theorem weaken (h : Touches none s t) (o : Option Prim) : Touches o s t where
  mutexes k _ := h.mutexes k nofun
  trace := h.trace.imp fun _ hes => ⟨hes.1, fun e he => .inl ((hes.2 e he).elim id id)⟩
  nextGID := h.nextGID
  group g q hq := (h.group g q hq).imp_right nofun
  exited := h.exited
  wait g q hq := (h.wait g q hq).imp_right nofun

section Chain

variable (h : Touches o s t)

include h

theorem same (hu : Same t u) : Touches o s u :=
  h.trans ⟨fun _ _ => by rw [hu.mutexes], ⟨[], by rw [hu.trace, List.append_nil], by simp⟩,
    hu.nextGID, fun g _ hq => .inl ((hu.group g).symm.trans hq), fun g _ hx => (hu.exited g).trans hx,
    fun g _ hq => .inl ((hu.wait g).symm.trans hq)⟩

/-- Tables other than the goroutines' and the primitives' may change. -/
theorem tables (hg : u.goroutines = t.goroutines) (hm : u.mutexes = t.mutexes)
    (htr : u.trace = t.trace) (hn : u.nextGID = t.nextGID) : Touches o s u where
  mutexes := by rw [hm]; exact h.mutexes
  trace := by rw [htr]; exact h.trace
  nextGID := by rw [hn]; exact h.nextGID
  group := by rw [hg]; exact h.group
  exited := by rw [hg]; exact h.exited
  wait := by rw [hg]; exact h.wait

theorem setClock (g : Gid) (c : Clock) : Touches o s (t.setClock g c) :=
  ⟨h.mutexes, h.trace, h.nextGID, by simpa using h.group, by simpa using h.exited,
    by simpa using h.wait⟩

theorem setWait (x : Option (Wait V T)) (hx : ∀ q, x = some (.group q) → o = some q) :
    Touches o s (t.setWait g x) := by
  refine ⟨h.mutexes, h.trace, h.nextGID, by simpa using h.group, by simpa using h.exited,
    fun q r hq => ?_⟩
  rw [setWait_wait] at hq
  split at hq
  · exact .inr (hx r hq)
  · exact h.wait q r hq

theorem unpark : Touches o s (t.setWait g none) := h.setWait none nofun

/-- Another entry in the trace, and other tables changed. -/
theorem entry {e : Event V T} (hg : u.goroutines = t.goroutines) (hm : u.mutexes = t.mutexes)
    (hn : u.nextGID = t.nextGID) (htr : u.trace = t.trace ++ [e])
    (he : e.kind.prim = none ∨ e.kind.prim = o) : Touches o s u := by
  have hlog : Touches o t { t with trace := t.trace ++ [e] } :=
    ⟨fun _ _ => rfl, ⟨[e], rfl, by simpa using he⟩, le_refl _, fun _ _ => .inl, fun _ _ h => h,
      fun _ _ => .inl⟩
  exact (h.trans hlog).tables hg hm htr hn

/-! ## §2. The primitive -/

theorem setSync (ms : MutexState) (ho : o = some p) : Touches o s (t.setSync p.key ms) :=
  ⟨fun k hk => (update_of_ne (hk p ho) ..).trans (h.mutexes k hk), h.trace, h.nextGID, h.group,
    h.exited, h.wait⟩

theorem syncAcquire (op : SyncOp) (ho : o = some p) (last rUnlock : Option Stamp) :
    Touches o s (t.syncAcquire g op p last rUnlock) :=
  ((h.setClock g _).setClock g _).entry rfl rfl rfl rfl (.inr ho.symm)

theorem syncRelease (op : SyncOp) (ho : o = some p) (ms : MutexState) :
    Touches o s (t.syncRelease g op p ms) :=
  ((h.setSync ms ho).setClock g _).entry rfl rfl rfl rfl (.inr ho.symm)

/-- A goroutine is started, in the errgroup `o` or in none. -/
theorem fork (group : Option Prim) (ho : ∀ q, group = some q → o = group) (site : String) :
    Touches o s ({ t with nextGID := t.nextGID + 1 }.fork g (t.nextGID + 1) group site) := by
  refine h.trans ?_
  obtain ⟨hgroup, hwait, -⟩ := fork_child t g group site
  refine ⟨fun _ _ => rfl, ⟨[_], rfl, ?_⟩, Int.le_add_one (le_refl _), fun q r hq => ?_,
    fun q hq hx => ?_, fun q r hq => ?_⟩
  · simp only [List.mem_singleton, forall_eq, Kind.prim]
    cases hg : group with
    | none => exact .inl rfl
    | some q => exact .inr (hg ▸ (ho q hg).symm)
  · by_cases hc : q = t.nextGID + 1
    · subst hc
      have hg : group = some r := hgroup.symm.trans hq
      exact .inr ((ho r hg).trans hg)
    · exact .inl ((fork_other t g group site hc).1.symm.trans hq)
  · exact (fork_other t g group site (Int.ne_of_lt (Int.lt_add_one_of_le hq))).2.2.1.trans hx
  · by_cases hc : q = t.nextGID + 1
    · subst hc; cases hwait.symm.trans hq
    · exact .inl ((fork_other t g group site hc).2.1.symm.trans hq)

theorem exit : Touches o s (t.modify g fun r => { r with exited := true }) := by
  have hgroup : ∀ q, ((t.modify g fun r => { r with exited := true }).goroutines q).group =
      (t.goroutines q).group := fun q => modify_field Goroutine.group t g q fun _ => rfl
  have hwait : ∀ q, ((t.modify g fun r => { r with exited := true }).goroutines q).wait =
      (t.goroutines q).wait := fun q => modify_field Goroutine.wait t g q fun _ => rfl
  refine ⟨h.mutexes, h.trace, h.nextGID, fun q r hr => h.group q r ((hgroup q).symm.trans hr),
    fun q hle hq => ?_, fun q r hr => h.wait q r ((hwait q).symm.trans hr)⟩
  by_cases hc : q = g
  · subst hc; simp
  · rw [modify_goroutines, update_of_ne hc]; exact h.exited q hle hq

end Chain

end Touches

/-! ## §3. Steps -/

variable {cfg : Config V T} {s t : Interpreter V T} {g : Gid} {o : Option Prim}

theorem Micro.touches (h : Micro cfg s o t) : Touches o s t := by
  have hs := Touches.refl o s
  cases h with
  | quiet h => exact hs.same h
  | access | recvRefill => exact hs.entry rfl rfl rfl rfl (.inl rfl)
  | makeChan | notify => exact hs.tables rfl rfl rfl rfl
  | fork site => exact hs.fork none nofun site
  | memberFork site => exact (hs.setSync _ rfl).fork (some _) (fun _ _ => rfl) site
  | exit => exact hs.exit
  | memberExit => exact (hs.exit.syncRelease _ rfl _).setSync _ rfl
  | park => exact hs.setWait _ (by rintro q ⟨⟩; rfl)
  | @parkOffer g wt id ch onSend val h hb =>
    have hpark : Touches none s (s.setWait g (some wt)) := hs.setWait _ (by rintro q ⟨⟩; exact hb.elim)
    exact (hpark.setClock g _).entry rfl rfl rfl rfl (.inl rfl)
  | parkSelect => exact (hs.setWait _ (by rintro q ⟨⟩)).tables rfl rfl rfl rfl
  | unpark => exact hs.unpark
  | abandonOffer | withdraw => exact hs.unpark.entry rfl rfl rfl rfl (.inl rfl)
  | wakeUp =>
    exact ((hs.unpark.setClock _ _).setClock _ _).entry rfl rfl rfl rfl (.inl rfl)
  | offer | recvClosed | close => exact (hs.setClock _ _).entry rfl rfl rfl rfl (.inl rfl)
  | claimSend | claimRecv | bufferedSend | recvBuffered =>
    exact ((hs.setClock _ _).setClock _ _).entry rfl rfl rfl rfl (.inl rfl)
  | lock p | rLock p => exact (hs.setSync _ rfl).syncAcquire _ rfl _ _
  | unlock p | rUnlock p | signal p | done p => exact hs.syncRelease _ rfl _
  | condWait p | groupWait p => exact hs.syncAcquire _ rfl _ _
  | addCounter => exact hs.setSync _ rfl
  | refuse p =>
    have hadd : Touches (some p) s (s.addCounter p 1) := hs.setSync _ rfl
    exact hadd.same { Same.refl _ with nextGID := Int.le_add_one (le_refl _) }

/-- **A step touches no primitive but the one it is about.** -/
theorem touches_step {a : Action V T} (hB : Base s) (hst : Step cfg s a t) :
    Touches (primOf s a) s t := by
  have h := step_micros hB.fits hst
  clear hst
  induction h with
  | refl => exact .refl _ s
  | tail _ hm ih =>
    obtain ⟨o, rfl | rfl, hm⟩ := hm
    · exact ih.trans (hm.touches.weaken _)
    · exact ih.trans hm.touches

end Interpreter

end Giri.Interp
