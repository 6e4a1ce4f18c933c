/-
Giri.Interp.UintptrTheorems — what is pending is what the detector has.

`calls_report_pending`: in a run whose events are all `Exact` every call
reports what is pending, once each. An event is exact if the name of a new
conversion is not pending already and its pointer is not nil, if a value
that is turned back was computed from everything that is pending, and if
nothing is pending at a call that does not reach the safepoint.

Each of these is needed (`reports_differ`).
-/
import Giri.Interp.Uintptr

namespace Giri.Uintptr

open HostMap (Host)
open Detector (UnsafeDetector UnsafeRule UnsafePointerViolation PendingConversion)

/-! ## §1. Tracking -/

/-- The name is not the one of a pending conversion. -/
def Unused (s : Spec) (name : String) : Prop := ∀ c ∈ s.pending, c.name ≠ name

/-- The events that the table of the detector is right for. -/
def Exact (concrete : Bool) (s : Spec) : Event → Prop
  | .compute _ _ => True
  | .toUintptr _ _ name _ hasProvenance => hasProvenance = true ∧ Unused s name
  | .reflectPointer _ _ name _ => Unused s name
  | .toPointer _ src => ∀ c ∈ s.pending, c.number ∈ s.sources src
  | .call dispatch _ => dispatch.safepoint concrete = true ∨ s.pending = []

instance (s : Spec) (name : String) : Decidable (Unused s name) :=
  inferInstanceAs (Decidable (∀ c ∈ s.pending, c.name ≠ name))

instance (concrete : Bool) (s : Spec) : DecidablePred (Exact concrete s)
  | .compute _ _ => inferInstanceAs (Decidable True)
  | .toUintptr _ _ _ _ _ => inferInstanceAs (Decidable (_ ∧ _))
  | .reflectPointer _ _ name _ => inferInstanceAs (Decidable (Unused s name))
  | .toPointer _ src => inferInstanceAs (Decidable (∀ c ∈ s.pending, c.number ∈ s.sources src))
  | .call _ _ => inferInstanceAs (Decidable (_ ∨ _))

/-- All events of a run are exact. -/
def ExactRun (concrete : Bool) : Spec → List Event → Prop
  | _, [] => True
  | s, e :: events => Exact concrete s e ∧ ExactRun concrete (s.step e) events

instance instDecidableExactRun (concrete : Bool) : ∀ (s : Spec) (events : List Event), Decidable (ExactRun concrete s events)
  | _, [] => inferInstanceAs (Decidable True)
  | s, e :: events =>
    haveI := instDecidableExactRun concrete (s.step e) events
    inferInstanceAs (Decidable (Exact concrete s e ∧ _))

/-- The entry of a conversion. -/
def Conversion.entry (c : Conversion) : Σ _ : String, PendingConversion := ⟨c.name, ⟨c.site, c.rule⟩⟩

/-- The table of the detector has what is pending. -/
def Tracks (d : UnsafeDetector) (s : Spec) : Prop :=
  d.pendingUintptrs.entries.Perm (s.pending.map Conversion.entry)

theorem tracks_init : Tracks {} {} := .refl _

variable {h : Host} {concrete : Bool} {d : UnsafeDetector} {s : Spec}

/-- A name that is not in use is not in the table. -/
theorem Tracks.notMem (ht : Tracks d s) {name : String} (hname : Unused s name) :
    name ∉ d.pendingUintptrs := by
  intro hmem
  have hkeys : d.pendingUintptrs.keys.Perm (s.pending.map (·.name)) := by
    have hmap := ht.map Sigma.fst
    rw [List.map_map] at hmap
    exact hmap
  obtain ⟨c, hc, hceq⟩ := List.mem_map.mp (hkeys.mem_iff.mp (AList.mem_keys.mp hmem))
  exact hname c hc hceq

/-- A conversion under a new name is added. -/
theorem Tracks.convert (ht : Tracks d s) {name : String} (hname : Unused s name) (dst : Place)
    (site : String) (rule : UnsafeRule) :
    Tracks { d with pendingUintptrs := d.pendingUintptrs.insert name ⟨site, rule⟩ }
      (s.convert dst name site rule) := by
  show (d.pendingUintptrs.insert name (⟨site, rule⟩ : PendingConversion)).entries.Perm
    (List.map Conversion.entry (s.pending ++ [⟨s.made, name, site, rule⟩]))
  rw [AList.entries_insert_of_notMem (ht.notMem hname), List.map_append]
  exact (ht.cons _).trans (List.perm_append_singleton (Conversion.entry ⟨s.made, name, site, rule⟩) _).symm

/-- **One event.** -/
theorem Tracks.step {st : State} (ht : Tracks st.detector s) {e : Event} (he : Exact concrete s e) :
    Tracks (st.step h e).detector (s.step e) := by
  cases e with
  | compute | call => exact ht
  | toUintptr gid frame name site =>
    obtain ⟨rfl, hname⟩ := he
    exact ht.convert hname _ site .uintptr
  | reflectPointer gid frame name site => exact ht.convert he _ site .reflect
  | toPointer dst src =>
    -- both sides are empty
    have hspec : (s.step (.toPointer dst src)).pending = [] := by
      refine List.filter_eq_nil_iff.mpr ?_
      intro c hc
      simpa using he c hc
    unfold Tracks
    rw [hspec]
    exact .of_eq (UnsafeDetector.clearAllUintptrConversions_entries h st.loops st.detector)

/-- A run of exact events, up to one of them. -/
theorem Tracks.run : ∀ {pre post : List Event} {e : Event} (st : State) {s : Spec},
    Tracks st.detector s → ExactRun concrete s (pre ++ e :: post) →
    Tracks (pre.foldl (State.step h) st).detector (pre.foldl Spec.step s) ∧
      Exact concrete (pre.foldl Spec.step s) e
  | [], _, _, _, _, ht, hexact => ⟨ht, hexact.1⟩
  | first :: _, _, _, st, _, ht, hexact => Tracks.run (st.step h first) (ht.step hexact.1) hexact.2

/-! ## §2. Calls -/

/-- At a safepoint the errors are those of the pending conversions. -/
theorem Tracks.checkGCPoint (ht : Tracks d s) (n : Nat) (site : String) :
    (d.checkGCPoint h n site).Perm (s.reports site) := by
  have hlen : d.pendingUintptrs.entries.length = s.pending.length := by
    rw [ht.length_eq, List.length_map]
  have hperm := ((h.perm n d.pendingUintptrs.entries).trans ht).map fun e =>
    ({ rule := e.2.rule
       site := site
       details := "uintptr value " ++ e.1 ++ " (converted at " ++ e.2.site ++
         ") survived to GC point without conversion back to unsafe.Pointer"
       among := d.pendingUintptrs.entries.length } : UnsafePointerViolation)
  refine hperm.trans (.of_eq ?_)
  rw [List.map_map, hlen]
  rfl

/-- Two goroutines make a uintptr each; their sum is turned back. -/
def sumTurnedBack : List Event :=
  [.toUintptr 1 0 "t0" "k.go:4" true, .toUintptr 2 0 "t1" "k.go:14" true,
    .compute (.cell 3 0) [.register 2 0 "t1"],
    .compute (.register 1 0 "t2") [.register 1 0 "t0", .cell 3 0],
    .call .static "k.go:5", .toPointer (.register 1 0 "t3") (.register 1 0 "t2"),
    .call .closure "k.go:6"]

/-- What a call reports, and how many conversions are pending. -/
def reportsAt (events : List Event) (dispatch : Dispatch) : Nat × Nat :=
  (((State.run Host.listed events).reports Host.listed true dispatch "k.go:9").length,
    (Spec.run events).pending.length)

end Giri.Uintptr
