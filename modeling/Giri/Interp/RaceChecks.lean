/-
Giri.Interp.RaceChecks — the machine and the race detector together.

`handleLoad` and `handleStore` hand the clock of the goroutine to
`CheckAccess`, so the accesses of a run are a run of the detector. Its calls
obey the discipline under which no race is missed but one with a forgotten
read. The detector is awake throughout.
-/
import Giri.Detector.RaceTheorems
import Giri.Interp.ClockInvariant

namespace Giri.Interp

open History Detector

variable {V T : Type}

/-- The call for an entry of a trace. What it accesses is for `acc` to say,
by position. -/
def check (acc : Nat → Access) (x : Event V T × Nat) : Call where
  access := { acc x.2 with goroutine := x.1.gid, clock := some 0 }
  callers _ := x.1.after

def accesses (tr : List (Event V T)) : List (Event V T × Nat) := occs (·.kind.isAccess) tr

/-- The calls for the accesses of a trace. -/
def checks (acc : Nat → Access) (tr : List (Event V T)) : List Call := (accesses tr).map (check acc)

namespace Interpreter

variable {acc : Nat → Access} {cfg : Config V T} {s t : Interpreter V T}

theorem checks_snoc (tr : List (Event V T)) (e : Event V T) : checks acc (tr ++ [e]) =
    checks acc tr ++ if e.kind.isAccess then [check acc (e, tr.length)] else [] := by
  rw [checks, accesses, occs_snoc, List.map_append]
  split <;> rfl

/-- What the detector has been handed. -/
structure Handed (acc : Nat → Access) (s : Interpreter V T) : Prop where
  below : ∀ c ∈ checks acc s.trace, c.clock.get ≤ (s.clockOf c.access.goroutine).get
  disciplined : (checks acc s.trace).Pairwise Disciplined

theorem Handed.step (hI : Handed acc s) (hC : ClockInv s) (h : ClockStep s t) : Handed acc t := by
  have hle := h.le
  have hold (heq : checks acc t.trace = checks acc s.trace) : Handed acc t :=
    ⟨fun c hc => (hI.below c (heq ▸ hc)).trans (hle _), heq ▸ hI.disciplined⟩
  cases h with
  | quiet htr => exact hold (by rw [htr])
  | fork _ _ htr => exact hold (by rw [htr, checks_snoc]; simp [Kind.isAccess])
  | sync _ _ _ hk htr => exact hold (by rw [htr, checks_snoc]; simp [hk.1])
  | @access g h =>
    subst h
    have heq : checks acc (s.log g .access [] none).trace = checks acc s.trace ++ [check acc
      (⟨g, .access, [], none, s.clockOf g⟩, s.trace.length)] := checks_snoc s.trace _
    constructor
    · rw [heq]
      intro c hc
      rcases List.mem_append.mp hc with hc | hc
      · exact hI.below c hc
      · cases List.mem_singleton.mp hc
        exact le_refl _
    · rw [heq, List.pairwise_append]
      refine ⟨hI.disciplined, List.pairwise_singleton _ _, fun b hb c hc => ?_⟩
      cases List.mem_singleton.mp hc
      refine ⟨fun hg => ?_, fun hg => ?_⟩
      · have hb := hI.below b hb
        rwa [hg] at hb
      · -- nobody else has the goroutine's own component
        exact (hI.below b hb g).trans_lt (hC.own_lt g _ (Ne.symm hg))

theorem handed (h : Reachable cfg s) : Handed acc s := by
  have hinit : Handed acc (init cfg) := ⟨fun _ hc => absurd hc List.not_mem_nil, List.Pairwise.nil⟩
  refine (h.invariant (P := fun s => ClockInv s ∧ Handed acc s) ⟨clockInv_init cfg, hinit⟩ ?_).2.2
  intro s o t hB hm hI
  have hsteps := hm.clockSteps hB
  clear hm
  induction hsteps with
  | refl => exact hI
  | tail _ hst ih => exact ⟨ih.1.step hst, ih.2.step ih.1 hst⟩

/-- **Unordered accesses are reported.** If two goroutines have accessed a
byte, one of them by a write, and no chain of program order, go statements
and acquired releases leads from one access to the other, some call on the
byte has returned a race; unless a read was replaced by an unordered one. -/
theorem unordered_accesses_reported (hs : Reachable cfg s) (mem : TypeNames)
    (hkeep : ∀ pre c post, checks acc s.trace = pre ++ c :: post → KeepsReads mem pre c)
    {x y : Event V T × Nat} (hx : x ∈ accesses s.trace) (hy : y ∈ accesses s.trace)
    (hg : x.1.gid ≠ y.1.gid) {k : AccessKey} (hkx : (check acc x).Touches k)
    (hky : (check acc y).Touches k) (hw : (acc x.2).kind = .write ∨ (acc y.2).kind = .write)
    (hxy : ¬Causal.HB (s.trace.map Event.entry) x.2 y.2)
    (hyx : ¬Causal.HB (s.trace.map Event.entry) y.2 x.2) :
    ReportedOn mem k (checks acc s.trace) := by
  have hacc {z : Event V T × Nat} (hz : z ∈ accesses s.trace) :
      Causal.Access (s.trace.map Event.entry) z.2 z.1.gid z.1.after.get := by
    obtain ⟨hget, hk⟩ := mem_occs.mp hz
    refine ⟨z.1.entry, by rw [List.getElem?_map, hget]; rfl, rfl, ?_⟩
    simp only [Event.entry, hk, if_true]
  have hordered := (clockInv hs).ordered
  have hrace : RaceOn k (check acc x) (check acc y) :=
    ⟨hkx, hky, hg, hw, fun hle => hxy (hordered _ _ _ _ _ _ (hacc hx) (hacc hy) hg (hle _)),
      fun hle => hyx (hordered _ _ _ _ _ _ (hacc hy) (hacc hx) hg.symm (hle _))⟩
  by_contra hnot
  have hpair := (dominated_of_not_reported _ (handed hs).disciplined hkeep hnot).2
  have : Std.Symm fun a b : Call => ¬RaceOn k a b := ⟨fun _ _ h hr =>
    h ⟨hr.right, hr.left, hr.goroutines.symm, hr.write.symm, hr.not_ge, hr.not_le⟩⟩
  refine hpair.forall (List.mem_map_of_mem hx) (List.mem_map_of_mem hy) ?_ hrace
  exact fun he => hg (congrArg (·.access.goroutine) he)

/-- main and a goroutine that it has started make an access. -/
def bothAccess : Interpreter Nat Unit :=
  reached (natConfig true) [.start 1 (.go ""), .start 1 .access, .start 2 .access]

/-- They write the same byte. -/
theorem unordered_accesses_reported_two_writes :
    let acc := fun _ => ⟨⟨1, 0⟩, 1, .write, "", 0, none⟩
    ReportedOn (fun _ => some "int") ⟨1, 0⟩ (checks acc bothAccess.trace) := by
  intro acc
  -- no edge leads on from the second entry or the third
  have hlast (i j : Nat) (hi : 1 ≤ i) : ¬Causal.HB (bothAccess.trace.map Event.entry) i j := by
    intro h
    obtain ⟨n, ⟨a, b, ha, hb, hlt, hor⟩, -⟩ := Relation.TransGen.head'_iff.mp h
    have hn : n < 3 := lt_of_getElem? hb
    obtain ⟨rfl, rfl⟩ : i = 1 ∧ n = 2 := by omega
    cases ha
    cases hb
    rcases hor with h | h | h <;> cases h
  have htouch (x : Event Nat Unit × Nat) : (check acc x).Touches ⟨1, 0⟩ := ⟨0, Nat.one_pos, rfl⟩
  have hs : Reachable (natConfig true) bothAccess := reachable_reached (by decide)
  refine unordered_accesses_reported hs _ ?_ (x := (_, 1)) (y := (_, 2)) (mem_occs.mpr ⟨rfl, rfl⟩)
    (mem_occs.mpr ⟨rfl, rfl⟩) (by decide) (htouch _) (htouch _) (.inl rfl)
    (hlast _ _ (by decide)) (hlast _ _ (by decide))
  intro pre c post heq hk
  have hc : c ∈ checks acc bothAccess.trace := heq ▸ List.mem_append_right _ List.mem_cons_self
  obtain ⟨x, -, rfl⟩ := List.mem_map.mp hc
  cases hk

end Interpreter

end Giri.Interp
