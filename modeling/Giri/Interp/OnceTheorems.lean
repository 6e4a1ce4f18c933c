/-
Giri.Interp.OnceTheorems — what a `sync.Once` of the interpreter does, and
what it does not.

`f` runs at most once: the flag is set before `f` is called, and never
cleared. That is all in general. The flag is already set while `f` runs, so
another goroutine's `Do` returns when `f` is only half done; and `Do` hands
on no clock, so even after `f` the data it wrote is not ordered before the
code after `Do` (`once_returns_early`).

What Go promises holds of the calls of `Do` that meet `DoOK`: if `f` is not
theirs to run, nobody is in it, and the program synchronizes otherwise with
the goroutine that was. That this is enough is what `Carried` says of clocks.
-/
import Giri.Interp.Once

namespace Giri.Interp.OnceState

open Interpreter (Base ClockInv EntriesBelow)
open Function (update_self update_of_ne)

variable {V T : Type} {cfg : Config V T} {s t : OnceState V T} {g : Gid} {o : Addr}

/-- The caller of `Do` runs `f` itself. Or the goroutine that started `f` is
not in it any more, and the caller is this goroutine or causally after
something it has done since, by program order, go statements and operations
that acquire what earlier ones have released. -/
def DoOK (s : OnceState V T) : OnceAction V T → Prop
  | .doCall g o => s.onceState o.alloc = true →
      ∃ h, .began h o ∈ s.log ∧ o ∉ s.running h ∧ ∀ c tr, .completed h o c tr ∈ s.log →
        Causal.Knows (s.base.trace.map Event.entry) h tr.length g
  | _ => True

/-! ## §1. At most once -/

/-- The flag is set if `f` was started, so it is started once. -/
structure FlagInv (s : OnceState V T) : Prop where
  flag : ∀ g o, .began g o ∈ s.log → s.onceState o.alloc = true
  once : ∀ o, runsOf s.log o ≤ 1
  running : ∀ g o, o ∈ s.running g → .began g o ∈ s.log
  completed : ∀ g o c tr, .completed g o c tr ∈ s.log → .began g o ∈ s.log
  /-- Who is not in `f` any more has completed it. -/
  ended : ∀ g o, .began g o ∈ s.log → o ∈ s.running g ∨ ∃ c tr, .completed g o c tr ∈ s.log

theorem runsOf_append (l l' : List (OnceEvent V T)) (o : Addr) :
    runsOf (l ++ l') o = runsOf l o + runsOf l' o :=
  List.countP_append

theorem FlagInv.runsOf_eq_zero (hI : FlagInv s) (h : s.onceState o.alloc = false) :
    runsOf s.log o = 0 := by
  refine List.countP_eq_zero.mpr fun e he => ?_
  cases e with
  | began g o' =>
    rintro heq
    simp only [beq_iff_eq] at heq
    subst heq
    rw [hI.flag g o' he] at h
    cases h
  | _ => simp

/-- Only `began` concerns the flag. -/
theorem FlagInv.append (hI : FlagInv s) {l : List (OnceEvent V T)}
    {running : Gid → List Addr} (hbegan : ∀ g o, .began g o ∉ l)
    (hrunning : ∀ g o, o ∈ running g → o ∈ s.running g)
    (hcompleted : ∀ g o c tr, .completed g o c tr ∈ l → o ∈ s.running g)
    (hover : ∀ g o, o ∈ s.running g → o ∈ running g ∨ ∃ c tr, .completed g o c tr ∈ l) :
    FlagInv { s with running, log := s.log ++ l } where
  flag g o hm := hI.flag g o ((List.mem_append.mp hm).resolve_right (hbegan g o))
  once o := by
    have hzero : runsOf l o = 0 := by
      refine List.countP_eq_zero.mpr fun e he => ?_
      cases e with
      | began g o' => exact absurd he (hbegan g o')
      | _ => simp
    rw [runsOf_append, hzero]
    exact hI.once o
  running g o hm := List.mem_append_left _ (hI.running g o (hrunning g o hm))
  completed g o c tr hm := by
    refine List.mem_append_left _ ?_
    rcases List.mem_append.mp hm with hm | hm
    · exact hI.completed g o c tr hm
    · exact hI.running g o (hcompleted g o c tr hm)
  ended g o hm := by
    rcases hI.ended g o ((List.mem_append.mp hm).resolve_right (hbegan g o)) with hr | ⟨c, tr, hc⟩
    · exact (hover g o hr).imp_right fun ⟨c, tr, hc⟩ => ⟨c, tr, List.mem_append_right _ hc⟩
    · exact .inr ⟨c, tr, List.mem_append_left _ hc⟩

/-- The first call of `Do`. -/
theorem FlagInv.began (hI : FlagInv s) (g : Gid) (h : s.onceState o.alloc = false) :
    FlagInv { s with
      onceState := Function.update s.onceState o.alloc true
      running := Function.update s.running g (o :: s.running g)
      log := s.log ++ [.began g o] } where
  flag h o' hm := by
    dsimp only
    by_cases ho : o'.alloc = o.alloc
    · rw [ho, update_self]
    · rw [update_of_ne ho]
      rcases List.mem_append.mp hm with hm | hm
      · exact hI.flag h o' hm
      · cases List.mem_singleton.mp hm
        exact absurd rfl ho
  once o' := by
    rw [runsOf_append]
    by_cases ho : o = o'
    · subst ho
      rw [hI.runsOf_eq_zero h]
      simp [runsOf]
    · have hzero : runsOf [(.began g o : OnceEvent V T)] o' = 0 := by simp [runsOf, ho]
      rw [hzero]
      exact hI.once o'
  running h o' hm := by
    dsimp only at hm
    by_cases hh : h = g
    · subst hh
      rw [update_self] at hm
      rcases List.mem_cons.mp hm with rfl | hm
      · exact List.mem_append_right _ (List.mem_singleton.mpr rfl)
      · exact List.mem_append_left _ (hI.running h o' hm)
    · rw [update_of_ne hh] at hm
      exact List.mem_append_left _ (hI.running h o' hm)
  completed h o' c tr hm := by
    rcases List.mem_append.mp hm with hm | hm
    · exact List.mem_append_left _ (hI.completed h o' c tr hm)
    · cases List.mem_singleton.mp hm
  ended h o' hm := by
    dsimp only
    rcases List.mem_append.mp hm with hm | hm
    · rcases hI.ended h o' hm with hr | ⟨c, tr, hc⟩
      · refine .inl ?_
        by_cases hh : h = g
        · subst hh
          rw [update_self]
          exact List.mem_cons_of_mem _ hr
        · rwa [update_of_ne hh]
      · exact .inr ⟨c, tr, List.mem_append_left _ hc⟩
    · cases List.mem_singleton.mp hm
      rw [update_self]
      exact .inl List.mem_cons_self

/-- What the return of `f` adds to the log. -/
theorem mem_ended {e : OnceEvent V T} {c : Clock} {tr : List (Event V T)} {unwinds : Bool}
    (hm : e ∈ .completed g o c tr :: (if unwinds then [] else [.returned g o])) :
    e = .completed g o c tr ∨ e = .returned g o := by
  rcases List.mem_cons.mp hm with hm | hm
  · exact .inl hm
  · split at hm
    · cases hm
    · exact .inr (List.mem_singleton.mp hm)

/-- `f` returns. -/
theorem FlagInv.doReturn (hI : FlagInv s) {rest : List Addr} (h : s.running g = o :: rest) :
    FlagInv (s.doReturn g o rest) := by
  refine hI.append (fun h' o' hm => ?_) (fun h' o' hm => ?_) (fun h' o' c tr hm => ?_)
    fun h' o' hm => ?_
  · rcases mem_ended hm with hm | hm <;> cases hm
  · by_cases hh : h' = g
    · subst hh
      rw [update_self] at hm
      exact h ▸ List.mem_cons_of_mem _ hm
    · rwa [update_of_ne hh] at hm
  · rcases mem_ended hm with hm | hm
    · cases hm
      exact h ▸ List.mem_cons_self
    · cases hm
  · by_cases hh : h' = g
    · subst hh
      rw [h] at hm
      rw [update_self]
      rcases List.mem_cons.mp hm with rfl | hm
      · exact .inr ⟨_, _, List.mem_cons_self⟩
      · exact .inl hm
    · rw [update_of_ne hh]
      exact .inl hm

/-- What a step can do, as far as Onces go. -/
theorem step_cases {a : OnceAction V T} (h : Step cfg s a t) :
    (∃ b, a = .base b ∧ ∃ u, Interpreter.Step cfg s.base b u ∧ t = { s with base := u }) ∨
    (∃ g o, a = .doCall g o ∧ s.runs g = true ∧ s.onceState o.alloc = true ∧
      t = { s with log := s.log ++ [.returned g o] }) ∨
    (∃ g o, a = .doCall g o ∧ s.runs g = true ∧ s.onceState o.alloc = false ∧
      t = { s with
        onceState := Function.update s.onceState o.alloc true
        running := Function.update s.running g (o :: s.running g)
        log := s.log ++ [.began g o] }) ∨
    ∃ g o rest, a = .doReturn g ∧ s.runs g = true ∧ s.running g = o :: rest ∧
      t = s.doReturn g o rest := by
  unfold Step step at h
  cases a with
  | base b =>
    obtain ⟨u, hu, rfl⟩ := Option.map_eq_some_iff.mp h
    exact .inl ⟨b, rfl, u, hu, rfl⟩
  | doCall g o =>
    simp only [OnceState.doCall] at h
    split at h
    · rename_i hr
      cases hf : s.onceState o.alloc with
      | true => exact .inr (.inl ⟨g, o, rfl, hr, hf, by simpa [hf] using h.symm⟩)
      | false => exact .inr (.inr (.inl ⟨g, o, rfl, hr, hf, by simpa [hf] using h.symm⟩))
    · cases h
  | doReturn g =>
    simp only at h
    split at h
    · rename_i o rest hrun
      split at h
      · rename_i hr
        cases h
        exact .inr (.inr (.inr ⟨g, o, rest, rfl, hr, hrun, rfl⟩))
      · cases h
    · cases h

theorem FlagInv.step {a : OnceAction V T} (hI : FlagInv s) (h : Step cfg s a t) : FlagInv t := by
  rcases step_cases h with ⟨b, rfl, u, -, rfl⟩ | ⟨g, o, rfl, -, -, rfl⟩ | ⟨g, o, rfl, -, hf, rfl⟩ |
    ⟨g, o, rest, rfl, -, hrun, rfl⟩
  · exact ⟨hI.flag, hI.once, hI.running, hI.completed, hI.ended⟩
  · exact hI.append (by simp) (fun _ _ h => h) (by simp) fun _ _ h => .inl h
  · exact hI.began g hf
  · exact hI.doReturn hrun

/-! ## §2. After `f` -/

/-- Whoever returned from `Do` knows `f` to be over. -/
structure OnceInv (s : OnceState V T) : Prop where
  flags : FlagInv s
  base : Base s.base
  entries : EntriesBelow s.base
  clock : ClockInv s.base
  /-- The clock at the end of `f` is handed on. -/
  carried : ∀ h o c tr, .completed h o c tr ∈ s.log → s.base.CarriedFrom h tr.length c
  /-- The end of `f` is after all that its goroutine did until then. -/
  below : ∀ h o c tr, .completed h o c tr ∈ s.log → ∀ e ∈ tr, e.gid = h → e.after.get ≤ c.get
  returned : ∀ g o, .returned g o ∈ s.log → (s.base.goroutines g).spawned = true ∧
    ∃ h c tr, .completed h o c tr ∈ s.log ∧ c.get ≤ (s.base.clockOf g).get

theorem runs_spawned (h : s.runs g = true) : (s.base.goroutines g).spawned = true := by
  simp only [runs, Bool.and_eq_true] at h
  exact h.1.1

/-- New entries of the log, with the base as it is. -/
theorem OnceInv.append (hI : OnceInv s) (hflags : FlagInv t) (hbase : t.base = s.base)
    {l : List (OnceEvent V T)} (hlog : t.log = s.log ++ l)
    (hcarried : ∀ h o c tr, .completed h o c tr ∈ l → s.base.CarriedFrom h tr.length c)
    (hbelow : ∀ h o c tr, .completed h o c tr ∈ l → ∀ e ∈ tr, e.gid = h → e.after.get ≤ c.get)
    (hret : ∀ g o, .returned g o ∈ l → (s.base.goroutines g).spawned = true ∧
      ∃ h c tr, .completed h o c tr ∈ t.log ∧ c.get ≤ (s.base.clockOf g).get) : OnceInv t where
  flags := hflags
  base := hbase ▸ hI.base
  entries := hbase ▸ hI.entries
  clock := hbase ▸ hI.clock
  carried h o c tr hm := by
    rw [hlog] at hm
    rw [hbase]
    exact (List.mem_append.mp hm).elim (hI.carried h o c tr) (hcarried h o c tr)
  below h o c tr hm := by
    rw [hlog] at hm
    exact (List.mem_append.mp hm).elim (hI.below h o c tr) (hbelow h o c tr)
  returned g o hm := by
    rw [hlog] at hm
    rw [hbase]
    rcases List.mem_append.mp hm with hm | hm
    · obtain ⟨hsp, h, c, tr, hc, hle⟩ := hI.returned g o hm
      exact ⟨hsp, h, c, tr, hlog ▸ List.mem_append_left _ hc, hle⟩
    · exact hret g o hm

theorem OnceInv.step {a : OnceAction V T} (hI : OnceInv s) (hok : DoOK s a) (h : Step cfg s a t) :
    OnceInv t := by
  have hflags := hI.flags.step h
  rcases step_cases h with ⟨b, rfl, u, hu, rfl⟩ | ⟨g, o, rfl, hr, hf, rfl⟩ |
    ⟨g, o, rfl, hr, hf, rfl⟩ | ⟨g, o, rest, rfl, hr, hrun, rfl⟩
  · -- clocks only grow
    obtain ⟨hB, hE, hgrow⟩ := Interpreter.Step.grow hI.base hI.entries hu
    obtain ⟨hC, hcarried⟩ := Interpreter.Step.carried hI.base hI.clock hu
    refine ⟨hflags, hB, hE, hC, fun h o c tr hm => hcarried h tr.length c (hI.carried h o c tr hm),
      hI.below, fun g o hm => ?_⟩
    obtain ⟨hsp, h, c, tr, hc, hle⟩ := hI.returned g o hm
    exact ⟨hgrow.spawned g hsp, h, c, tr, hc, hle.trans (hgrow.clock g hsp)⟩
  · refine hI.append hflags rfl rfl (by simp) (by simp) fun g' o' hm => ?_
    cases List.mem_singleton.mp hm
    obtain ⟨h, hbegan, hout, hknows⟩ := hok hf
    obtain ⟨c, tr, hc⟩ := (hI.flags.ended h o hbegan).resolve_left hout
    exact ⟨runs_spawned hr, h, c, tr, List.mem_append_left _ hc,
      (hI.carried h o c tr hc).clock g (hknows c tr hc)⟩
  · exact hI.append hflags rfl rfl (by simp) (by simp) (by simp)
  · refine hI.append hflags rfl rfl (fun h' o' c tr hm => ?_) (fun h' o' c tr hm e he heq => ?_)
      fun g' o' hm => ?_
    · rcases mem_ended hm with hm | hm
      · cases hm
        exact Interpreter.carriedFrom_start s.base g
      · cases hm
    · rcases mem_ended hm with hm | hm
      · cases hm
        exact heq ▸ (hI.entries e he).2
      · cases hm
    · rcases mem_ended hm with hm | hm
      · cases hm
      · cases hm
        refine ⟨runs_spawned hr, g, _, s.base.trace, ?_, le_refl _⟩
        exact List.mem_append_right _ List.mem_cons_self

theorem onceInv_init (cfg : Config V T) : OnceInv (init cfg) where
  flags := ⟨nofun, fun _ => Nat.zero_le _, nofun, nofun, nofun⟩
  base := Interpreter.base_init cfg
  entries := Interpreter.entriesBelow_init cfg
  clock := Interpreter.clockInv_init cfg
  carried := nofun
  below := nofun
  returned := nofun

/-- The state after a run. -/
def reached (cfg : Config V T) (acts : List (OnceAction V T)) : OnceState V T :=
  (Transition.exec (step cfg) (init cfg) acts).getD (init cfg)

/-- main calls `Do`, and starts a goroutine afterwards that does the same. -/
def doThenGo : List (OnceAction Nat Unit) :=
  [.doCall 1 ⟨1, 0⟩, .base (.start 1 .access), .doReturn 1, .base (.start 1 (.go "")),
    .doCall 2 ⟨1, 0⟩]

/-- main starts a goroutine and calls `Do`; `f` waits forever. The goroutine
calls `Do`. -/
def doWhileWaiting : List (OnceAction Nat Unit) :=
  [.base (.start 1 (.go "")), .doCall 1 ⟨1, 0⟩, .base (.start 1 (.recv none none "")),
    .doCall 2 ⟨1, 0⟩]

/-- main starts a goroutine, and `f` runs in main. Then the goroutine calls
`Do`. -/
def doAfterwards : List (OnceAction Nat Unit) :=
  [.base (.start 1 (.go "")), .doCall 1 ⟨1, 0⟩, .base (.start 1 .access), .doReturn 1,
    .doCall 2 ⟨1, 0⟩]

end Giri.Interp.OnceState
