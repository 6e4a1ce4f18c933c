/-
Giri.Sched.BatonTheorems — the protocol of the wake channels.

Everything here is about `Run Step (start shared gid sched) acts s`: any
sequence of steps of the hosts, in any interleaving, with any answers of a
scheduler that picks a candidate.
-/
import Giri.Sched.BatonInvariant

namespace Giri.Sched.Sys

open Transition

variable {σ : Type} {s t : Sys σ} {g h : Gid}

/-! ## §1. The protocol -/

/-- At most one host is active. -/
theorem Inv.active_unique (hI : Inv s) (hg : (s.pc g).active = true)
    (hh : (s.pc h).active = true) : g = h := by
  by_contra hne
  obtain ⟨⟨-, ho, -⟩, hcase⟩ := hI.holder.active_at rfl hg
  by_cases hd : h = s.driverGID
  · -- the driver is at rest while another host has the baton
    subst hd
    rcases hcase with ⟨hgd, -⟩ | ⟨-, hrest, -⟩ | ⟨-, rest, k, hpc, -⟩
    · exact hne hgd
    · rcases hrest with ⟨hp, -⟩ | ⟨hp, -⟩ <;> rw [hp] at hh <;> cases hh
    · rw [hpc] at hh
      cases hh
  · rcases (ho h hd (Ne.symm hne)).pc_cases with hp | hp | hp <;> rw [hp] at hh <;> cases hh

/-- The messages a parked goroutine can be sent. -/
def Deserved (s : Sys σ) (g : Gid) (m : WakeMsg) : Prop :=
  (m = .run ∧ s.waitOver g = true) ∨ (m = .abort ∧ g ≠ s.driverGID) ∨
    (m = .quiescent ∧ g = s.driverGID)

theorem Inv.deserved_flight (hI : Inv s) {m : WakeMsg} (hpc : s.pc g = .parked)
    (hw : s.wake g = some m) : Deserved s g m := by
  rcases (hI.holder.flight_of_wake hw).addressed with ⟨-, hm, -, -, hover⟩ | ⟨hgd, hm, -⟩ | ⟨hgd, -, hc⟩ |
    ⟨hgd, -, rest, k, hd, -⟩
  · exact .inl ⟨hm, hover⟩
  · exact .inr (.inl ⟨hm, hgd⟩)
  · rcases hc with ⟨hm, hover⟩ | ⟨hm, -⟩
    · exact .inl ⟨hm, hgd ▸ hover⟩
    · exact .inr (.inr ⟨hm, hgd⟩)
  · rw [hgd, hd] at hpc
    cases hpc

theorem Inv.deserved_sending (hI : Inv s) {m : WakeMsg} {next : PC} (hpc : s.pc g = .parked)
    (hs : s.pc h = .sending g m next) : Deserved s g m := by
  obtain ⟨-, hcase⟩ := hI.holder.active_at hs rfl
  rcases hcase with ⟨-, hat⟩ | ⟨-, -, hat⟩ | ⟨-, rest, k, hd, hat⟩
  · cases hat with
    | sends _ _ _ _ _ hover => exact .inl ⟨rfl, hover⟩
    | aborts _ rest k hp =>
      exact .inr (.inl ⟨rfl, fun he => hp.driver_notMem (he ▸ List.mem_cons_self)⟩)
  · cases hat with
    | sends _ _ _ _ _ hover => exact .inl ⟨rfl, hover⟩
    | quiet => exact .inr (.inr ⟨rfl, rfl⟩)
  · cases hat with
    | exits =>
      rw [hd] at hpc
      cases hpc

/-- Until `runDriver` returns, a host is active or a message is in flight. -/
theorem Inv.baton_exists (hI : Inv s) (hret : s.pc s.driverGID ≠ .returned) :
    (∃ g, (s.pc g).active = true) ∨ ∃ g m, s.wake g = some m := by
  cases hI.holder with
  | active x _ hat =>
    refine .inl ⟨x, ?_⟩
    generalize s.pc x = p at hat
    cases hat with
    | driver _ hat | host _ _ hat | unwinding _ _ _ _ hat => cases hat <;> rfl
  | flight g m hf => exact .inr ⟨g, m, by rw [hf.flight, Function.update_self]⟩
  | done _ _ _ _ hpc => exact absurd hpc hret

/-- When `runDriver` has returned, no host goroutine is left. -/
theorem Inv.hosts_ended (hI : Inv s) (hret : s.pc s.driverGID = .returned)
    (hne : h ≠ s.driverGID) : s.pc h = .absent ∨ s.pc h = .ended := by
  -- the driver is active or at rest in every other configuration
  have hrest : ¬DriverRest s (s.pc s.driverGID) := by
    rintro (⟨hp, -⟩ | ⟨hp, -⟩) <;> rw [hp] at hret <;> cases hret
  have habort : ∀ rest k, s.pc s.driverGID ≠ .aborting rest k := by
    intro rest k hp
    rw [hp] at hret
    cases hret
  cases hI.holder with
  | active x _ hat =>
    rcases hat with ⟨rfl, hat⟩ | ⟨-, hd, -⟩ | ⟨-, rest, k, hd, -⟩
    · rw [hret] at hat
      cases hat
    · exact absurd hd hrest
    · exact absurd hd (habort rest k)
  | flight x m hf =>
    cases hf.addressed with
    | toHost _ _ _ hd | toDriver _ hd => exact absurd hd hrest
    | toAborted _ _ rest k hd | exited _ _ rest k hd => exact absurd hd (habort rest k)
  | done hh _ ho => exact (ho h hne hne).2 (by simp [hh])

/-- **The baton protocol.** In every state any interleaving reaches: at most
one host executes interpreter code; a host at a send finds the channel
empty; a parked goroutine is sent wakeRun only while its wait is over, and
otherwise wakeAbort, or, the entry goroutine, wakeQuiescent; a host is
active or a message is in flight until `runDriver` returns; and then every
host goroutine it started has ended. -/
theorem baton_protocol (shared : σ) (gid : Gid) (sched : Bool) (acts : List (Act σ)) (s : Sys σ)
    (hrun : Run Step (start shared gid sched) acts s) :
    (∀ g h, (s.pc g).active = true → (s.pc h).active = true → g = h) ∧
    (∀ g dst m next, s.pc g = .sending dst m next → s.wake dst = none) ∧
    (∀ g m, s.pc g = .parked → (s.wake g = some m ∨ ∃ h next, s.pc h = .sending g m next) →
      Deserved s g m) ∧
    (s.pc s.driverGID ≠ .returned →
      (∃ g, (s.pc g).active = true) ∨ ∃ g m, s.wake g = some m) ∧
    (s.pc s.driverGID = .returned → ∀ h, h ≠ s.driverGID → s.pc h = .absent ∨ s.pc h = .ended) := by
  have hI := inv_run hrun
  refine ⟨fun g h => hI.active_unique, fun g dst m next hpc => (hI.send hpc).1, ?_,
    hI.baton_exists, fun hret h => hI.hosts_ended hret⟩
  rintro g m hpc (hw | ⟨h, next, hs⟩)
  · exact hI.deserved_flight hpc hw
  · exact hI.deserved_sending hpc hs

/-! ## §2. The entry goroutine is told of quiescence -/

/-- A wait that never ends. -/
def foreverWait : WaitInfo Unit where
  site := "main.go:1"
  kind := "channel receive"
  chanID := 0
  onSend := false
  ready := none

/-- The entry goroutine starts another one, and both wait forever. -/
def bothWait : List (Act Unit) :=
  [.spawn 1 "main.go:1", .block 1 foreverWait (some 2), .block 2 foreverWait none, .send 2]

theorem exec_bothWait :
    (exec step (start () 1 true) bothWait).map (fun s => (s.pc 1, s.wake 1)) =
      some (.parked, some .quiescent) := by decide

/-- The messages of `baton_protocol` at the end of that run: the entry
goroutine, parked, is told of quiescence. -/
theorem baton_protocol_both_wait :
    ∃ s : Sys Unit, Run Step (start () 1 true) bothWait s ∧
      (∀ g h, (s.pc g).active = true → (s.pc h).active = true → g = h) ∧
      Deserved s 1 .quiescent := by
  obtain ⟨s, hexec, hs⟩ := Option.map_eq_some_iff.mp exec_bothWait
  have hpc : s.pc 1 = .parked := congrArg Prod.fst hs
  have hw : s.wake 1 = some .quiescent := congrArg Prod.snd hs
  obtain ⟨huniq, -, hmsg, -⟩ := baton_protocol () 1 true bothWait s (run_of_exec hexec)
  exact ⟨s, run_of_exec hexec, huniq, hmsg 1 _ hpc (.inl hw)⟩

/-- A parked goroutine that is not woken to run need not get wakeAbort: the
entry goroutine gets wakeQuiescent. -/
theorem parked_entry_told_quiescent :
    ¬∀ (acts : List (Act Unit)) (s : Sys Unit), Run Step (start () 1 true) acts s →
      ∀ g m, s.pc g = .parked → s.wake g = some m →
        (m = .run ∧ s.waitOver g = true) ∨ m = .abort := by
  intro hall
  obtain ⟨s, hexec, hs⟩ := Option.map_eq_some_iff.mp exec_bothWait
  have hpc : s.pc 1 = .parked := congrArg Prod.fst hs
  have hw : s.wake 1 = some .quiescent := congrArg Prod.snd hs
  rcases hall bothWait s (run_of_exec hexec) 1 _ hpc hw with ⟨h, -⟩ | h <;> cases h

end Giri.Sched.Sys
