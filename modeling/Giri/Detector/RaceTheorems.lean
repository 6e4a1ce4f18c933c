/-
Giri.Detector.RaceTheorems — what the race detector reports, and what it
misses.

§1 reads the detector's order off the entries (`happensBefore_iff`) and
   says what `snapshot` returns (`snapshot_spec`).
§2 is the byte loop: one lemma for what it leaves alone, one for what it
   records, one for what it reports.
§3 is the invariant of every run: each stored entry comes from a call that
   was really made, with that call's goroutine and site, and its map still
   holds the clock of that call, whatever the callers have done to their
   maps since. From it, reports are precise (`report_precise`).
§4 is completeness. The detector remembers ONE read per byte, so a read
   by another goroutine that is not ordered after the remembered one makes
   a race undetectable (`forgotten_read_race_missed`). Where no step does
   that, every race is reported (`race_reported`).
-/
import Mathlib.Data.List.Induction
import Giri.Detector.Race

namespace Giri.Detector

open VectorClock

/-! ## §1 Clocks and snapshots -/

/-- The detector's order: the pointwise order, except that an empty clock
precedes nothing. -/
theorem happensBefore_iff {a b : Clock} :
    happensBefore a b = true ↔ a.entries ≠ [] ∧ a.get ≤ b.get := by
  unfold happensBefore
  split
  · rename_i h
    simp [List.length_eq_zero_iff.mp h]
  · rename_i h
    rw [Clock.leEntries_iff]
    rw [List.length_eq_zero_iff] at h
    simp [h]

/-- Two maps the detector cannot tell apart: the same components, and
empty together. -/
structure SameClock (s c : Clock) : Prop where
  get_eq : s.get = c.get
  empty_iff : s.entries = [] ↔ c.entries = []

theorem SameClock.rfl {c : Clock} : SameClock c c := ⟨Eq.refl _, Iff.rfl⟩

theorem SameClock.happensBefore_left {s c b : Clock} (h : SameClock s c) :
    happensBefore s b = happensBefore c b := by
  rw [Bool.eq_iff_iff, happensBefore_iff, happensBefore_iff, h.get_eq, ne_eq, ne_eq,
    h.empty_iff]

theorem SameClock.happensBefore_right {s c a : Clock} (h : SameClock s c) :
    happensBefore a s = happensBefore a c := by
  rw [Bool.eq_iff_iff, happensBefore_iff, happensBefore_iff, h.get_eq]

/-- Equal lengths and containment of the entries make the two maps equal
key by key: neither has a duplicate key, so the key lists are
permutations of one another. -/
theorem sameEntries_sound {s c : Clock} (h : sameEntries s c = true) : SameClock s c := by
  simp only [sameEntries, Bool.and_eq_true, beq_iff_eq, List.all_eq_true] at h
  obtain ⟨hlen, hall⟩ := h
  have hsub : c.keys ⊆ s.keys := by
    intro g hg
    obtain ⟨⟨a, t⟩, he, rfl⟩ := List.mem_map.mp hg
    exact AList.mem_keys.mp (AList.lookup_isSome.mp (by rw [hall _ he]; rfl))
  have hperm : c.keys.Perm s.keys := by
    refine (List.subperm_of_subset c.keys_nodup hsub).perm_of_length_le ?_
    simp [AList.keys, List.keys, hlen]
  have hlook : ∀ g, s.lookup g = c.lookup g := by
    intro g
    cases hg : c.lookup g with
    | some t => exact hall ⟨g, t⟩ (Clock.mem_entries_iff.mpr hg)
    | none =>
      rw [AList.lookup_eq_none, AList.mem_keys] at hg ⊢
      exact fun hs => hg (hperm.mem_iff.mpr hs)
  refine ⟨funext fun g => by simp only [Clock.get, hlook g], ?_⟩
  rw [← List.length_eq_zero_iff, ← List.length_eq_zero_iff, hlen]

/-- The map a snapshot refers to, among the detector's own maps. -/
def Holds (snaps : List Clock) (r : MapRef) (c : Clock) : Prop :=
  ∃ n s, r = .snapshot n ∧ snaps[n]? = some s ∧ SameClock s c

variable {snaps : List Clock}

theorem Holds.append {r : MapRef} {c : Clock} (h : Holds snaps r c) (more : List Clock) :
    Holds (snaps ++ more) r c := by
  obtain ⟨n, s, hr, hs, hc⟩ := h
  have hn : n < snaps.length := (List.getElem?_eq_some_iff.mp hs).1
  exact ⟨n, s, hr, by rw [List.getElem?_append_left hn, hs], hc⟩

theorem Holds.read {h : Heap} {r : MapRef} {c : Clock} (hr : Holds h.snapshots r c) :
    SameClock (h.read r) c := by
  obtain ⟨n, s, rfl, hs, hc⟩ := hr
  simpa [Heap.read, hs] using hc

/-- The clock argument reads as the clock of the call. -/
theorem Call.readNil_ref (c : Call) (snaps : List Clock) :
    Heap.readNil ⟨c.callers, snaps⟩ c.access.ref = c.clock := by
  unfold Call.clock Access.ref
  cases c.access.clock <;> rfl

/-- The detector's reference to its previous copy is to a map of its own. -/
def OwnSnap (d : RaceDetector) (snaps : List Clock) : Prop :=
  ∀ r, d.snap = some r → ∃ n s, r = .snapshot n ∧ snaps[n]? = some s

variable {d : RaceDetector}

/-- `snapshot` returns a map of the detector's own that holds the clock of
the call; it only ever adds maps, and touches no recorded access. -/
theorem snapshot_spec {c : Call} (hown : OwnSnap d snaps) :
    ∃ r d' more,
      d.snapshot ⟨c.callers, snaps⟩ c.access.goroutine c.access.ref
        = (r, d', ⟨c.callers, snaps ++ more⟩) ∧
      Holds (snaps ++ more) r c.clock ∧ OwnSnap d' (snaps ++ more) ∧
      d'.lastWrite = d.lastWrite ∧ d'.lastRead = d.lastRead ∧ d'.dormant = d.dormant := by
  -- the copying branch, taken in three of the four cases
  have hcopy : Holds (snaps ++ [c.clock]) (.snapshot snaps.length) c.clock :=
    ⟨snaps.length, c.clock, rfl, by simp, SameClock.rfl⟩
  have hown' : ∀ d' : RaceDetector, d'.snap = some (.snapshot snaps.length) →
      OwnSnap d' (snaps ++ [c.clock]) := by
    intro d' hd' r hr
    rw [hd'] at hr
    cases hr
    exact ⟨snaps.length, c.clock, rfl, by simp⟩
  unfold RaceDetector.snapshot
  simp only [Call.readNil_ref]
  split
  · rename_i s hs
    split
    · rename_i hsame
      obtain ⟨n, m, rfl, hm⟩ := hown s hs
      refine ⟨.snapshot n, d, [], by simp, ?_, by simpa using hown, rfl, rfl, rfl⟩
      have hread : Heap.read ⟨c.callers, snaps⟩ (.snapshot n) = m := by
        simp [Heap.read, hm]
      rw [hread] at hsame
      exact ⟨n, m, rfl, by simpa using hm, sameEntries_sound hsame.2⟩
    · exact ⟨_, _, _, rfl, hcopy, hown' _ rfl, rfl, rfl, rfl⟩
  · exact ⟨_, _, _, rfl, hcopy, hown' _ rfl, rfl, rfl, rfl⟩

/-! ## §2 The byte loop -/

theorem lastWrite_record (d : RaceDetector) (a : Access) (s : MapRef) (i : Nat) (k : AccessKey) :
    (d.record a s i).lastWrite.lookup k
      = if a.kind = .write ∧ k = a.key i then some ⟨a.kind, a.goroutine, a.site, s⟩
        else d.lastWrite.lookup k := by
  unfold RaceDetector.record
  by_cases hw : a.kind = .write
  · by_cases hk : k = a.key i
    · subst hk; simp [hw]
    · simp [hw, hk, AList.lookup_insert_ne hk]
  · simp [hw]

theorem lastRead_record (d : RaceDetector) (a : Access) (s : MapRef) (i : Nat) (k : AccessKey) :
    (d.record a s i).lastRead.lookup k
      = if k = a.key i then
          (if a.kind = .write then none else some ⟨a.kind, a.goroutine, a.site, s⟩)
        else d.lastRead.lookup k := by
  unfold RaceDetector.record
  by_cases hw : a.kind = .write
  · by_cases hk : k = a.key i
    · subst hk; simp [hw]
    · simp [hw, hk, AList.lookup_erase_ne hk]
  · by_cases hk : k = a.key i
    · subst hk; simp [hw]
    · simp [hw, hk, AList.lookup_insert_ne hk]

theorem snap_record (d : RaceDetector) (a : Access) (s : MapRef) (i : Nat) :
    (d.record a s i).snap = d.snap := by
  unfold RaceDetector.record
  split <;> rfl

theorem dormant_record (d : RaceDetector) (a : Access) (s : MapRef) (i : Nat) :
    (d.record a s i).dormant = d.dormant := by
  unfold RaceDetector.record
  split <;> rfl

variable {mem : TypeNames} {a : Access} {h : Heap} {s : MapRef}

/-- A property of the recorded accesses that recording one more byte of
the access keeps holds after the whole loop. -/
theorem checkBytes_induct {P : RaceDetector → Prop} {m : Nat}
    (hstep : ∀ d i, i < m → P d → P (d.record a s i)) :
    ∀ (n i : Nat) (d : RaceDetector), i + n = m → P d →
      P (RaceDetector.checkBytes h mem a s n i d).2
  | 0, _, _, _, hP => hP
  | n + 1, i, d, hm, hP => by
    unfold RaceDetector.checkBytes
    split
    · exact hP
    · exact checkBytes_induct hstep n (i + 1) _ (by omega) (hstep d i (by omega) hP)

/-- A report comes from a conflict at some byte, in a state the loop
reached. -/
theorem checkBytes_report {P : RaceDetector → Prop} {m : Nat}
    (hstep : ∀ d i, i < m → P d → P (d.record a s i)) {e : DataRaceError} :
    ∀ (n i : Nat) (d : RaceDetector), i + n = m → P d →
      (RaceDetector.checkBytes h mem a s n i d).1 = some e →
      ∃ d' j last, P d' ∧ j < m ∧ d'.conflict h a j = some last ∧
        e = raceError mem a.ptr j last a.site a.goroutine
  | 0, _, _, _, _, he => by simp [RaceDetector.checkBytes] at he
  | n + 1, i, d, hm, hP, he => by
    unfold RaceDetector.checkBytes at he
    split at he
    · rename_i last hl
      exact ⟨d, i, last, hP, by omega, hl, (Option.some.inj he).symm⟩
    · exact checkBytes_report hstep n (i + 1) _ (by omega) (hstep d i (by omega) hP) he

/-- What a conflict is: a recorded write, or for a write a recorded read,
of the byte by another goroutine, unordered with this access. -/
theorem conflict_some {i : Nat} {last : AccessEntry} (hc : d.conflict h a i = some last) :
    concurrent h last a.goroutine a.ref = true ∧
      (d.lastWrite.lookup (a.key i) = some last ∨
        (a.kind = .write ∧ d.lastRead.lookup (a.key i) = some last)) := by
  unfold RaceDetector.conflict at hc
  split at hc
  · rename_i l hl
    obtain ⟨h1, h2⟩ := Option.filter_eq_some_iff.mp hl
    cases hc
    exact ⟨h2, Or.inl h1⟩
  · split at hc
    · rename_i hw
      obtain ⟨h1, h2⟩ := Option.filter_eq_some_iff.mp hc
      exact ⟨h2, Or.inr ⟨hw, h1⟩⟩
    · cases hc

/-- What the absence of a conflict says. -/
theorem conflict_none {i : Nat} (hc : d.conflict h a i = none) :
    (∀ last, d.lastWrite.lookup (a.key i) = some last →
      concurrent h last a.goroutine a.ref = false) ∧
    (a.kind = .write → ∀ last, d.lastRead.lookup (a.key i) = some last →
      concurrent h last a.goroutine a.ref = false) := by
  unfold RaceDetector.conflict at hc
  split at hc
  · cases hc
  · rename_i hl
    rw [Option.filter_eq_none_iff] at hl
    refine ⟨fun last h1 => by simpa using hl last h1, fun hw last h1 => ?_⟩
    rw [if_pos hw, Option.filter_eq_none_iff] at hc
    simpa using hc last h1

/-! ## §3 Runs: every entry comes from a call, and keeps its clock -/

/-- One call on an awake detector: a snapshot `r` of the call's clock, then
the byte loop. -/
theorem run_spec (mem : TypeNames) (c : Call) (hown : OwnSnap d snaps) (hawake : d.dormant = false) :
    ∃ r d' more,
      c.run mem (d, snaps)
        = ((RaceDetector.checkBytes ⟨c.callers, snaps ++ more⟩ mem c.access r
              c.access.size.toNat 0 d').1,
           (RaceDetector.checkBytes ⟨c.callers, snaps ++ more⟩ mem c.access r
              c.access.size.toNat 0 d').2, snaps ++ more) ∧
      Holds (snaps ++ more) r c.clock ∧ OwnSnap d' (snaps ++ more) ∧
      d'.lastWrite = d.lastWrite ∧ d'.lastRead = d.lastRead ∧ d'.dormant = false := by
  obtain ⟨r, d', more, hs, hr, hown', hw, hrd, hdor⟩ := snapshot_spec (c := c) hown
  refine ⟨r, d', more, ?_, hr, hown', hw, hrd, hdor.trans hawake⟩
  simp [Call.run, RaceDetector.checkAccess, hawake, hs]

/-- The entry `e` for byte `k` was recorded by one of `calls`, and its map
holds the clock that call was made with. -/
def Origin (calls : List Call) (snaps : List Clock) (k : AccessKey) (e : AccessEntry) : Prop :=
  ∃ c ∈ calls, c.Touches k ∧ c.access.goroutine = e.goroutine ∧ c.access.site = e.site ∧
    c.access.kind = e.kind ∧ Holds snaps e.clock c.clock

variable {calls : List Call} {k : AccessKey}

theorem Origin.mono {e : AccessEntry} (h : Origin calls snaps k e) (c : Call) (more : List Clock) :
    Origin (calls ++ [c]) (snaps ++ more) k e := by
  obtain ⟨c', hc', ht, hg, hs, hk, hh⟩ := h
  exact ⟨c', List.mem_append_left _ hc', ht, hg, hs, hk, hh.append more⟩

/-- The invariant of every run. -/
structure Stored (calls : List Call) (d : RaceDetector) (snaps : List Clock) : Prop where
  write : ∀ k e, d.lastWrite.lookup k = some e → e.kind = .write ∧ Origin calls snaps k e
  read : ∀ k e, d.lastRead.lookup k = some e → Origin calls snaps k e
  own : OwnSnap d snaps
  awake : d.dormant = false

/-- Recording one more byte of the last call keeps the invariant. -/
theorem Stored.record {c : Call} {r : MapRef} (hr : Holds snaps r c.clock) (i : Nat)
    (hi : i < c.access.size.toNat) (h : Stored (calls ++ [c]) d snaps) :
    Stored (calls ++ [c]) (d.record c.access r i) snaps := by
  have horg : Origin (calls ++ [c]) snaps (c.access.key i)
      ⟨c.access.kind, c.access.goroutine, c.access.site, r⟩ :=
    ⟨c, by simp, ⟨i, hi, rfl⟩, rfl, rfl, rfl, hr⟩
  constructor
  · intro k e he
    rw [lastWrite_record] at he
    split at he
    · rename_i hk
      obtain ⟨hw, rfl⟩ := hk
      cases he
      exact ⟨hw, horg⟩
    · exact h.write k e he
  · intro k e he
    rw [lastRead_record] at he
    split at he
    · rename_i hk
      subst hk
      split at he
      · cases he
      · cases he
        exact horg
    · exact h.read k e he
  · intro r' hr'
    exact h.own r' (by rwa [snap_record] at hr')
  · rw [dormant_record]; exact h.awake

/-- The invariant for the calls so far, seen from inside the next call:
after its snapshot and before its byte loop. -/
theorem Stored.enter {c : Call} {d' : RaceDetector} {more : List Clock} (h : Stored calls d snaps)
    (hown : OwnSnap d' (snaps ++ more)) (hw : d'.lastWrite = d.lastWrite)
    (hrd : d'.lastRead = d.lastRead) (hdor : d'.dormant = false) :
    Stored (calls ++ [c]) d' (snaps ++ more) where
  write k e he := by
    rw [hw] at he
    exact ⟨(h.write k e he).1, (h.write k e he).2.mono c more⟩
  read k e he := by
    rw [hrd] at he
    exact (h.read k e he).mono c more
  own := hown
  awake := hdor

theorem Stored.run (mem : TypeNames) (h : Stored calls d snaps) (c : Call) :
    Stored (calls ++ [c]) (c.run mem (d, snaps)).2.1 (c.run mem (d, snaps)).2.2 := by
  obtain ⟨r, d', more, hrun, hr, hown, hw, hrd, hdor⟩ := run_spec mem c h.own h.awake
  rw [hrun]
  exact checkBytes_induct (P := fun d => Stored (calls ++ [c]) d (snaps ++ more))
    (m := c.access.size.toNat) (fun _ i hi hP => hP.record hr i hi) _ 0 d' (by omega)
    (h.enter hown hw hrd hdor)

theorem after_append (mem : TypeNames) (calls : List Call) (c : Call) :
    after mem (calls ++ [c]) = (c.run mem (after mem calls)).2 := by
  simp [after]

/-- The invariant holds after every sequence of calls. -/
theorem stored_after (mem : TypeNames) (calls : List Call) :
    Stored calls (after mem calls).1 (after mem calls).2 := by
  induction calls using List.reverseRecOn with
  | nil =>
    refine ⟨fun k e he => ?_, fun k e he => ?_, fun r hr => ?_, rfl⟩
    · simp [after, newRaceDetector] at he
    · simp [after, newRaceDetector] at he
    · simp [after, newRaceDetector] at hr
  | append_singleton calls c ih =>
    rw [after_append]
    exact ih.run mem c

/-- **Reports are precise.** A race reported for call `c`, made after
`calls`, names a byte `c` touches and the goroutine and site of an earlier
call that touched it; the goroutines differ, one of the two is a write, and
neither clock is at or below the other, as the two clocks were when the
two calls were made. An EMPTY clock is never ordered before anything
(`happensBefore`), so the last part is about non-empty clocks. -/
theorem report_precise (mem : TypeNames) (calls : List Call) (c : Call) (e : DataRaceError)
    (he : result mem calls c = some e) :
    c.Touches ⟨e.allocID, e.offset⟩ ∧ c.access.goroutine = e.write2Goroutine ∧
      c.access.site = e.write2Site ∧
    ∃ prev ∈ calls, prev.Touches ⟨e.allocID, e.offset⟩ ∧
      prev.access.goroutine = e.write1Goroutine ∧ prev.access.site = e.write1Site ∧
      e.write1Goroutine ≠ e.write2Goroutine ∧
      (prev.access.kind = .write ∨ c.access.kind = .write) ∧
      (prev.clock.entries ≠ [] → ¬ prev.clock.get ≤ c.clock.get) ∧
      (c.clock.entries ≠ [] → ¬ c.clock.get ≤ prev.clock.get) := by
  have hst := stored_after mem calls
  obtain ⟨r, d', more, hrun, hr, hown, hw, hrd, hdor⟩ :=
    run_spec mem c hst.own hst.awake
  rw [result, show after mem calls = ((after mem calls).1, (after mem calls).2) from rfl,
    hrun] at he
  -- the state in which the conflict was found satisfies the invariant
  obtain ⟨d'', j, last, hP, hj, hconf, rfl⟩ :=
    checkBytes_report (P := fun d => Stored (calls ++ [c]) d ((after mem calls).2 ++ more))
      (m := c.access.size.toNat) (fun _ i hi hP => hP.record hr i hi) _ 0 d' (by omega)
      (hst.enter hown hw hrd hdor) he
  obtain ⟨hcon, hlast⟩ := conflict_some hconf
  simp only [concurrent, Bool.and_eq_true, bne_iff_ne, ne_eq, Bool.not_eq_true', Call.readNil_ref]
    at hcon
  obtain ⟨⟨hg, hb1⟩, hb2⟩ := hcon
  have horg : Origin (calls ++ [c]) ((after mem calls).2 ++ more) (c.access.key j) last := by
    rcases hlast with hl | ⟨_, hl⟩
    · exact (hP.write _ _ hl).2
    · exact hP.read _ _ hl
  obtain ⟨prev, hmem, ht, hpg, hps, hpk, hh⟩ := horg
  refine ⟨⟨j, hj, rfl⟩, rfl, rfl, prev, ?_, ht, hpg, hps, hg, ?_, ?_, ?_⟩
  · -- the recorded access is another goroutine's, so it is not this call
    rcases List.mem_append.mp hmem with hm | hm
    · exact hm
    · rw [List.mem_singleton] at hm
      exact absurd (hm ▸ hpg).symm hg
  · rcases hlast with hl | ⟨hwr, _⟩
    · exact Or.inl (hpk.trans (hP.write _ _ hl).1)
    · exact Or.inr hwr
  · intro hne hle
    rw [hh.read.happensBefore_left] at hb1
    rw [happensBefore_iff.mpr ⟨hne, hle⟩] at hb1
    cases hb1
  · intro hne hle
    rw [hh.read.happensBefore_right] at hb2
    rw [happensBefore_iff.mpr ⟨hne, hle⟩] at hb2
    cases hb2

/-- A call on one byte at offset 0 of allocation 1, by goroutine `g`, with
the clock holding `entries`. -/
def byteCall (g : Gid) (kind : AccessKind) (site : String) (clock : Option Clock) : Call where
  access := ⟨⟨1, 0⟩, 1, kind, site, g, clock.map fun _ => 0⟩
  callers := fun _ => clock.getD ∅

/-- The clock with the given components. -/
def clockOf (entries : List (Gid × Nat)) : Clock :=
  entries.foldl (fun c e => c.insert e.1 e.2) ∅

/-- Two unordered writes: the report names the first one. -/
theorem report_precise_two_writes :
    let w1 := byteCall 1 .write "a.go:1" (some (clockOf [(1, 1)]))
    let w2 := byteCall 2 .write "a.go:2" (some (clockOf [(2, 1)]))
    let e : DataRaceError := ⟨1, 0, "a.go:1", 1, "a.go:2", 2, "int"⟩
    w2.Touches ⟨e.allocID, e.offset⟩ ∧ w2.access.goroutine = e.write2Goroutine ∧
      w2.access.site = e.write2Site ∧
    ∃ prev ∈ [w1], prev.Touches ⟨e.allocID, e.offset⟩ ∧
      prev.access.goroutine = e.write1Goroutine ∧ prev.access.site = e.write1Site ∧
      e.write1Goroutine ≠ e.write2Goroutine ∧
      (prev.access.kind = .write ∨ w2.access.kind = .write) ∧
      (prev.clock.entries ≠ [] → ¬ prev.clock.get ≤ w2.clock.get) ∧
      (w2.clock.entries ≠ [] → ¬ w2.clock.get ≤ prev.clock.get) :=
  report_precise (fun _ => some "int") _ _ _ (by decide)

/-- Two writes made with nil clocks are reported, although the two clocks
are equal: `happensBefore` never orders an empty clock. -/
theorem nil_clocks_reported :
    let w1 := byteCall 1 .write "a.go:1" none
    let w2 := byteCall 2 .write "a.go:2" none
    (result (fun _ => some "int") [w1] w2).isSome = true ∧
      ∀ prev ∈ [w1], prev.clock.get ≤ w2.clock.get := by
  refine ⟨by decide, fun prev hp => ?_⟩
  rw [List.mem_singleton] at hp
  subst hp
  exact le_refl _

/-! ## §4 Completeness -/

/-- Two calls race on byte `k`. -/
structure RaceOn (k : AccessKey) (a b : Call) : Prop where
  left : a.Touches k
  right : b.Touches k
  goroutines : a.access.goroutine ≠ b.access.goroutine
  write : a.access.kind = .write ∨ b.access.kind = .write
  not_le : ¬ a.clock.get ≤ b.clock.get
  not_ge : ¬ b.clock.get ≤ a.clock.get

/-- What the clock discipline says of two calls in the order they were
made: one goroutine's clock only grows, and a goroutine's current own
component is not yet known to anyone else, since whatever it released was
released before it advanced that component. -/
def Disciplined (a b : Call) : Prop :=
  (a.access.goroutine = b.access.goroutine → a.clock.get ≤ b.clock.get) ∧
  (a.access.goroutine ≠ b.access.goroutine →
    a.clock.get b.access.goroutine < b.clock.get b.access.goroutine)

/-- Some call of the sequence that touches byte `k` returns a race. -/
def ReportedOn (mem : TypeNames) (k : AccessKey) (calls : List Call) : Prop :=
  ∃ pre c post, calls = pre ++ c :: post ∧ c.Touches k ∧ (result mem pre c).isSome = true

/-- The step keeps the reads it replaces in order: a read of a byte whose
remembered read was made by another goroutine happens after that read. -/
def KeepsReads (mem : TypeNames) (pre : List Call) (c : Call) : Prop :=
  c.access.kind = .read → ∀ i < c.access.size.toNat, ∀ last,
    (after mem pre).1.lastRead.lookup (c.access.key i) = some last →
    last.goroutine ≠ c.access.goroutine →
    happensBefore (Heap.read ⟨c.callers, (after mem pre).2⟩ last.clock) c.clock = true

/-- The loop over a range that does not contain `k` leaves `k` alone. -/
theorem checkBytes_frame (mem : TypeNames) :
    ∀ (n i : Nat) (d : RaceDetector), (∀ j, i ≤ j → j < i + n → a.key j ≠ k) →
      (RaceDetector.checkBytes h mem a s n i d).2.lastWrite.lookup k = d.lastWrite.lookup k ∧
      (RaceDetector.checkBytes h mem a s n i d).2.lastRead.lookup k = d.lastRead.lookup k
  | 0, _, _, _ => ⟨rfl, rfl⟩
  | n + 1, i, d, hk => by
    have hi : k ≠ a.key i := fun h => hk i (Nat.le_refl i) (by omega) h.symm
    unfold RaceDetector.checkBytes
    split
    · exact ⟨rfl, rfl⟩
    · have ih := checkBytes_frame mem n (i + 1) (d.record a s i)
        (fun j h1 h2 => hk j (by omega) (by omega))
      rw [lastWrite_record, lastRead_record, if_neg (fun h => hi h.2), if_neg hi] at ih
      exact ih

/-- The entry a call records, and where. -/
def RecordedAt (d : RaceDetector) (a : Access) (s : MapRef) (k : AccessKey)
    (before : Option AccessEntry) : Prop :=
  d.lastWrite.lookup k
      = (if a.kind = .write then some ⟨a.kind, a.goroutine, a.site, s⟩ else before) ∧
  d.lastRead.lookup k
      = (if a.kind = .write then none else some ⟨a.kind, a.goroutine, a.site, s⟩)

theorem recordedAt_record {i : Nat} :
    RecordedAt (d.record a s i) a s (a.key i) (d.lastWrite.lookup (a.key i)) := by
  unfold RecordedAt
  rw [lastWrite_record, lastRead_record]
  by_cases hw : a.kind = .write <;> simp [hw]

/-- Once the byte `k` is recorded, going over it again (a 64-bit offset may
wrap round) records the same. -/
theorem checkBytes_recorded {b : Option AccessEntry} (n i : Nat)
    (d : RaceDetector) (hd : RecordedAt d a s k b) :
    RecordedAt (RaceDetector.checkBytes h mem a s n i d).2 a s k b := by
  refine checkBytes_induct (P := fun d => RecordedAt d a s k b) (m := i + n) ?_ n i d rfl hd
  intro d j _ hP
  by_cases hk : k = a.key j
  · subst hk
    have := recordedAt_record (d := d) (a := a) (s := s) (i := j)
    rw [hP.1] at this
    by_cases hw : a.kind = .write <;> simpa [RecordedAt, hw] using this
  · unfold RecordedAt
    rw [lastWrite_record, lastRead_record, if_neg (fun h => hk h.2), if_neg hk]
    exact hP

/-- A call that reports nothing has compared every byte it touches with
what was recorded for it before the call, and has recorded it. -/
theorem checkBytes_silent :
    ∀ (n i : Nat) (d : RaceDetector), (∃ j, i ≤ j ∧ j < i + n ∧ a.key j = k) →
      (RaceDetector.checkBytes h mem a s n i d).1 = none →
      (∀ last, d.lastWrite.lookup k = some last → concurrent h last a.goroutine a.ref = false) ∧
      (a.kind = .write → ∀ last, d.lastRead.lookup k = some last →
        concurrent h last a.goroutine a.ref = false) ∧
      RecordedAt (RaceDetector.checkBytes h mem a s n i d).2 a s k (d.lastWrite.lookup k)
  | 0, i, d, ⟨j, h1, h2, _⟩, _ => absurd h2 (by omega)
  | n + 1, i, d, ⟨j, h1, h2, hjk⟩, hnone => by
    cases hc : d.conflict h a i with
    | some => simp [RaceDetector.checkBytes, hc] at hnone
    | none =>
      have heq : RaceDetector.checkBytes h mem a s (n + 1) i d
          = RaceDetector.checkBytes h mem a s n (i + 1) (d.record a s i) := by
        simp [RaceDetector.checkBytes, hc]
      rw [heq] at hnone ⊢
      by_cases hi : a.key i = k
      · subst hi
        exact ⟨(conflict_none hc).1, (conflict_none hc).2,
          checkBytes_recorded n (i + 1) _ recordedAt_record⟩
      · have hij : i ≠ j := fun h => hi (h ▸ hjk)
        have hki : k ≠ a.key i := fun h => hi h.symm
        have ih := checkBytes_silent n (i + 1) (d.record a s i)
          ⟨j, by omega, by omega, hjk⟩ hnone
        rw [lastWrite_record, lastRead_record, if_neg (fun h => hki h.2), if_neg hki] at ih
        exact ih

/-- Two disciplined calls that the detector does not find concurrent are in
order: the later one cannot precede the earlier one, which does not know
the later one's own component. -/
theorem le_of_not_concurrent {last : AccessEntry} {a c : Call}
    (hd : Disciplined a c) (hg : a.access.goroutine = last.goroutine)
    (hl : SameClock (h.read last.clock) a.clock) (hc : h.readNil c.access.ref = c.clock)
    (hn : concurrent h last c.access.goroutine c.access.ref = false) :
    a.clock.get ≤ c.clock.get := by
  by_cases hag : a.access.goroutine = c.access.goroutine
  · exact hd.1 hag
  · have hlg : (last.goroutine != c.access.goroutine) = true := by
      rw [bne_iff_ne, ← hg]; exact hag
    unfold concurrent at hn
    rw [hlg, hc, hl.happensBefore_left, hl.happensBefore_right, Bool.true_and] at hn
    cases hb : happensBefore a.clock c.clock with
    | true => exact (happensBefore_iff.mp hb).2
    | false =>
      have hrev : happensBefore c.clock a.clock = true := by simpa [hb] using hn
      have hle : c.clock.get c.access.goroutine ≤ a.clock.get c.access.goroutine :=
        (happensBefore_iff.mp hrev).2 c.access.goroutine
      have hlt := hd.2 hag
      omega

/-- The call `a` is at or below the call that recorded the entry `e`. -/
def Covers (calls : List Call) (snaps : List Clock) (e : AccessEntry) (a : Call) : Prop :=
  ∃ b ∈ calls, b.access.goroutine = e.goroutine ∧ Holds snaps e.clock b.clock ∧
    a.clock.get ≤ b.clock.get

theorem Covers.mono {e : AccessEntry} {a : Call} (h : Covers calls snaps e a) (c : Call)
    (more : List Clock) :
    Covers (calls ++ [c]) (snaps ++ more) e a := by
  obtain ⟨b, hb, hg, hh, hle⟩ := h
  exact ⟨b, List.mem_append_left _ hb, hg, hh.append more, hle⟩

/-- Everything below a remembered access is below a later call that is
found not concurrent with it. -/
theorem Covers.le {e : AccessEntry} {a c : Call} (h : Covers calls snaps e a)
    (hdisc : ∀ b ∈ calls, Disciplined b c) (more : List Clock)
    (hn : concurrent ⟨c.callers, snaps ++ more⟩ e c.access.goroutine c.access.ref = false) :
    a.clock.get ≤ c.clock.get := by
  obtain ⟨b, hb, hg, hh, hle⟩ := h
  refine le_trans hle (le_of_not_concurrent (hdisc b hb) hg ?_ (c.readNil_ref _) hn)
  exact Holds.read (h := ⟨c.callers, snaps ++ more⟩) (hh.append more)

/-- The invariant behind completeness, for one byte `k` on which nothing
has been reported: every write of `k` so far is covered by the remembered
write, every read of `k` by the remembered write or the remembered read. -/
structure Dominated (k : AccessKey) (calls : List Call) (d : RaceDetector)
    (snaps : List Clock) : Prop where
  write : ∀ a ∈ calls, a.Touches k → a.access.kind = .write →
    ∃ e, d.lastWrite.lookup k = some e ∧ Covers calls snaps e a
  read : ∀ a ∈ calls, a.Touches k → a.access.kind = .read →
    ∃ e, (d.lastWrite.lookup k = some e ∨ d.lastRead.lookup k = some e) ∧
      Covers calls snaps e a

/-- What a silent call on byte `k` has checked: it is above everything the
remembered write covers and, if it is a write, above everything the
remembered read covers. -/
structure Checked (k : AccessKey) (calls : List Call) (d : RaceDetector)
    (snaps : List Clock) (c : Call) : Prop where
  write : ∀ e a, d.lastWrite.lookup k = some e → Covers calls snaps e a →
    a.clock.get ≤ c.clock.get
  read : c.access.kind = .write → ∀ e a, d.lastRead.lookup k = some e →
    Covers calls snaps e a → a.clock.get ≤ c.clock.get

/-- No access so far races on `k` with a silent call on it. -/
theorem Dominated.no_race {a c : Call} (h : Dominated k calls d snaps)
    (hc : Checked k calls d snaps c) (ha : a ∈ calls) : ¬ RaceOn k a c := by
  intro hrace
  apply hrace.not_le
  cases hk : a.access.kind with
  | write =>
    obtain ⟨e, he, hcov⟩ := h.write a ha hrace.left hk
    exact hc.write e a he hcov
  | read =>
    have hcw : c.access.kind = .write := by
      rcases hrace.write with hw | hw
      · rw [hk] at hw; cases hw
      · exact hw
    obtain ⟨e, he | he, hcov⟩ := h.read a ha hrace.left hk
    · exact hc.write e a he hcov
    · exact hc.read hcw e a he hcov

/-- A call that does not touch `k` changes nothing about it. -/
theorem Dominated.skip {d' : RaceDetector} {c : Call} (h : Dominated k calls d snaps)
    (more : List Clock) (hc : ¬ c.Touches k) (hw : d'.lastWrite.lookup k = d.lastWrite.lookup k)
    (hr : d'.lastRead.lookup k = d.lastRead.lookup k) :
    Dominated k (calls ++ [c]) d' (snaps ++ more) := by
  constructor
  · intro a ha ht hk
    rcases List.mem_append.mp ha with ha | ha
    · obtain ⟨e, he, hcov⟩ := h.write a ha ht hk
      exact ⟨e, hw ▸ he, hcov.mono c more⟩
    · rw [List.mem_singleton] at ha
      exact absurd (ha ▸ ht) hc
  · intro a ha ht hk
    rcases List.mem_append.mp ha with ha | ha
    · obtain ⟨e, he, hcov⟩ := h.read a ha ht hk
      exact ⟨e, by rw [hw, hr]; exact he, hcov.mono c more⟩
    · rw [List.mem_singleton] at ha
      exact absurd (ha ▸ ht) hc

/-- A silent call on `k` that keeps the reads it replaces takes over what
the entries it replaces covered. -/
theorem Dominated.record {d' : RaceDetector} {c : Call} {r : MapRef}
    (h : Dominated k calls d snaps) (more : List Clock) (hr : Holds (snaps ++ more) r c.clock)
    (hc : Checked k calls d snaps c)
    (hkeep : c.access.kind = .read → ∀ e a, d.lastRead.lookup k = some e → Covers calls snaps e a → a.clock.get ≤ c.clock.get)
    (hrec : RecordedAt d' c.access r k (d.lastWrite.lookup k)) :
    Dominated k (calls ++ [c]) d' (snaps ++ more) := by
  -- the entry recorded by `c` covers whatever is below `c`
  have hself : ∀ a : Call, a.clock.get ≤ c.clock.get →
      Covers (calls ++ [c]) (snaps ++ more)
        ⟨c.access.kind, c.access.goroutine, c.access.site, r⟩ a :=
    fun a hle => ⟨c, by simp, rfl, hr, hle⟩
  obtain ⟨hlw, hlr⟩ := hrec
  cases hck : c.access.kind with
  | write =>
    rw [hck] at hself
    simp only [hck, if_true] at hlw
    have hle : ∀ a ∈ calls ++ [c], a.Touches k → a.clock.get ≤ c.clock.get := by
      intro a ha ht
      rcases List.mem_append.mp ha with ha | ha
      · cases hk : a.access.kind with
        | write =>
          obtain ⟨e, he, hcov⟩ := h.write a ha ht hk
          exact hc.write e a he hcov
        | read =>
          obtain ⟨e, he | he, hcov⟩ := h.read a ha ht hk
          · exact hc.write e a he hcov
          · exact hc.read hck e a he hcov
      · rw [List.mem_singleton] at ha
        exact ha ▸ le_refl _
    exact ⟨fun a ha ht _ => ⟨_, hlw, hself a (hle a ha ht)⟩,
      fun a ha ht _ => ⟨_, Or.inl hlw, hself a (hle a ha ht)⟩⟩
  | read =>
    rw [hck] at hself
    simp only [hck, reduceCtorEq, if_false] at hlw hlr
    constructor
    · intro a ha ht hk
      rcases List.mem_append.mp ha with ha | ha
      · obtain ⟨e, he, hcov⟩ := h.write a ha ht hk
        exact ⟨e, hlw ▸ he, hcov.mono c more⟩
      · rw [List.mem_singleton] at ha
        rw [ha, hck] at hk
        cases hk
    · intro a ha ht hk
      rcases List.mem_append.mp ha with ha | ha
      · obtain ⟨e, he | he, hcov⟩ := h.read a ha ht hk
        · exact ⟨e, Or.inl (hlw ▸ he), hcov.mono c more⟩
        · exact ⟨_, Or.inr hlr, hself a (hkeep hck e a he hcov)⟩
      · rw [List.mem_singleton] at ha
        exact ⟨_, Or.inr hlr, hself a (ha ▸ le_refl _)⟩

/-- One call, on a byte it reports nothing on: the invariant is kept, and
no earlier access races with it there. -/
theorem Dominated.run {c : Call} (hdom : Dominated k calls (after mem calls).1 (after mem calls).2)
    (hdisc : ∀ b ∈ calls, Disciplined b c) (hkeep : KeepsReads mem calls c)
    (hsilent : c.Touches k → result mem calls c = none) :
    Dominated k (calls ++ [c]) (after mem (calls ++ [c])).1 (after mem (calls ++ [c])).2 ∧
      ∀ a ∈ calls, ¬ RaceOn k a c := by
  have hst := stored_after mem calls
  obtain ⟨r, d', more, hrun, hr, -, hw, hrd, -⟩ := run_spec mem c hst.own hst.awake
  have hafter : after mem (calls ++ [c])
      = ((RaceDetector.checkBytes ⟨c.callers, (after mem calls).2 ++ more⟩ mem c.access r
            c.access.size.toNat 0 d').2, (after mem calls).2 ++ more) := by
    rw [after_append, show after mem calls = ((after mem calls).1, (after mem calls).2) from rfl,
      hrun]
  rw [hafter]
  by_cases ht : c.Touches k
  · obtain ⟨i, hi, hik⟩ := ht
    have hnone : (RaceDetector.checkBytes ⟨c.callers, (after mem calls).2 ++ more⟩ mem c.access r
        c.access.size.toNat 0 d').1 = none := by
      have := hsilent ⟨i, hi, hik⟩
      rwa [result, show after mem calls = ((after mem calls).1, (after mem calls).2) from rfl,
        hrun] at this
    obtain ⟨hcw, hcr, hrec⟩ := checkBytes_silent (k := k) _ 0 d'
      ⟨i, Nat.zero_le i, by simpa using hi, hik⟩ hnone
    rw [hw] at hcw hrec
    rw [hrd] at hcr
    have hchecked : Checked k calls (after mem calls).1 (after mem calls).2 c :=
      ⟨fun e a he hcov => hcov.le hdisc more (hcw e he),
        fun hkw e a he hcov => hcov.le hdisc more (hcr hkw e he)⟩
    refine ⟨hdom.record more hr hchecked ?_ hrec, fun a ha => hdom.no_race hchecked ha⟩
    rintro hkr e a he ⟨b, hb, hbg, hh, hle⟩
    refine le_trans hle ?_
    by_cases hg : e.goroutine = c.access.goroutine
    · exact (hdisc b hb).1 (hbg.trans hg)
    · have := hkeep hkr i hi e (hik ▸ he) hg
      rw [(Holds.read (h := ⟨c.callers, (after mem calls).2⟩) hh).happensBefore_left] at this
      exact (happensBefore_iff.mp this).2
  · have hne : ∀ j, 0 ≤ j → j < 0 + c.access.size.toNat → c.access.key j ≠ k :=
      fun j _ hj hk => ht ⟨j, by simpa using hj, hk⟩
    have hframe := checkBytes_frame (h := ⟨c.callers, (after mem calls).2 ++ more⟩) mem
      (s := r) (k := k) c.access.size.toNat 0 d' hne
    rw [hw, hrd] at hframe
    exact ⟨hdom.skip more ht hframe.1 hframe.2, fun a _ hrace => ht hrace.right⟩

theorem ReportedOn.append (c : Call) (h : ReportedOn mem k calls) :
    ReportedOn mem k (calls ++ [c]) := by
  obtain ⟨pre, c', post, rfl, ht, hr⟩ := h
  exact ⟨pre, c', post ++ [c], by simp, ht, hr⟩

/-- Along a disciplined run whose steps keep the reads they replace, a byte
on which nothing is reported is dominated and race free. -/
theorem dominated_of_not_reported (calls : List Call) (hdisc : calls.Pairwise Disciplined)
    (hkeep : ∀ pre c post, calls = pre ++ c :: post → KeepsReads mem pre c)
    (hnot : ¬ ReportedOn mem k calls) :
    Dominated k calls (after mem calls).1 (after mem calls).2 ∧
      calls.Pairwise fun a b => ¬ RaceOn k a b := by
  induction calls using List.reverseRecOn with
  | nil => exact ⟨⟨fun a ha => by simp at ha, fun a ha => by simp at ha⟩, List.Pairwise.nil⟩
  | append_singleton calls c ih =>
    rw [List.pairwise_append] at hdisc
    obtain ⟨hd, -, hdc⟩ := hdisc
    obtain ⟨hdom, hpair⟩ := ih hd
      (fun pre c' post heq => hkeep pre c' (post ++ [c]) (by simp [heq]))
      (fun h => hnot (h.append c))
    have hstep := hdom.run (fun b hb => hdc b hb c (by simp)) (hkeep calls c [] rfl)
      (fun ht => by
        cases hres : result mem calls c with
        | none => rfl
        | some => exact absurd ⟨calls, c, [], rfl, ht, by rw [hres]; rfl⟩ hnot)
    refine ⟨hstep.1, List.pairwise_append.mpr ⟨hpair, List.pairwise_singleton _ _, ?_⟩⟩
    intro a ha b hb
    rw [List.mem_singleton] at hb
    exact hb ▸ hstep.2 a ha

/-- **Completeness, where no read is forgotten.** In every disciplined run
in which each read of a byte is ordered after the remembered read it
replaces, two calls that race on a byte make some call touching that byte
return a race, however many readers there are and whatever else was
reported. -/
theorem race_reported (mem : TypeNames) (calls : List Call)
    (hdisc : calls.Pairwise Disciplined)
    (hkeep : ∀ pre c post, calls = pre ++ c :: post → KeepsReads mem pre c)
    (pre mid post : List Call) (a b : Call) (k : AccessKey)
    (hcalls : calls = pre ++ a :: (mid ++ b :: post)) (hrace : RaceOn k a b) :
    ReportedOn mem k calls := by
  by_contra hnot
  have hpair := (dominated_of_not_reported calls hdisc hkeep hnot).2
  rw [hcalls, List.pairwise_append] at hpair
  have := (List.pairwise_cons.mp hpair.2.1).1 b (by simp)
  exact this hrace

/-- The ways to cut a sequence of three calls at one of them. -/
theorem split_three {α : Type} {x y z c : α} {pre post : List α}
    (h : [x, y, z] = pre ++ c :: post) :
    (pre = [] ∧ c = x) ∨ (pre = [x] ∧ c = y) ∨ (pre = [x, y] ∧ c = z) := by
  rcases pre with _ | ⟨p, _ | ⟨q, _ | ⟨r, t⟩⟩⟩ <;> simp at h
  · exact Or.inl ⟨rfl, h.1.symm⟩
  · exact Or.inr (Or.inl ⟨by rw [h.1], h.2.1.symm⟩)
  · exact Or.inr (Or.inr ⟨by rw [h.1, h.2.1], h.2.2.1.symm⟩)

theorem pairwise_three {α : Type} {R : α → α → Prop} {x y z : α} (hxy : R x y) (hxz : R x z)
    (hyz : R y z) : [x, y, z].Pairwise R := by
  simp [hxy, hxz, hyz]

/-- Two ordered reads, then a write unordered with both. -/
theorem race_reported_ordered_reads :
    let r1 := byteCall 2 .read "a.go:1" (some (clockOf [(1, 1), (2, 1)]))
    let r2 := byteCall 3 .read "a.go:2" (some (clockOf [(1, 2), (2, 1), (3, 1)]))
    let w := byteCall 4 .write "a.go:3" (some (clockOf [(1, 3), (4, 1)]))
    ReportedOn (fun _ => some "int") ⟨1, 0⟩ [r1, r2, w] := by
  intro r1 r2 w
  refine race_reported (fun _ => some "int") [r1, r2, w] ?_ ?_ [] [r2] [] r1 w ⟨1, 0⟩ rfl ?_
  · apply pairwise_three <;> exact ⟨fun h => absurd h (by decide), fun _ => by decide⟩
  · intro pre c post h
    rcases split_three h with ⟨rfl, rfl⟩ | ⟨rfl, rfl⟩ | ⟨rfl, rfl⟩
    · intro _ i hi last hlast
      cases hlast
    · intro _ i hi last hlast _
      have h0 : i = 0 := Nat.lt_one_iff.mp hi
      subst h0
      cases hlast
      decide
    · intro hk
      cases hk
  · exact ⟨⟨0, by decide, by decide⟩, ⟨0, by decide, by decide⟩, by decide, Or.inr rfl,
      fun h => absurd (h 2) (by decide), fun h => absurd (h 4) (by decide)⟩

/-- **A race is missed.** Goroutine 1 starts 2, 3 and 4. Goroutines 2 and 3
read a byte, unordered; 3 then sends to 4, which writes the byte. The
write races with the read of 2, but the read of 3 has replaced it, and no
call reports anything. -/
theorem forgotten_read_race_missed :
    let r1 := byteCall 2 .read "a.go:1" (some (clockOf [(1, 1), (2, 1)]))
    let r2 := byteCall 3 .read "a.go:2" (some (clockOf [(1, 2), (3, 1)]))
    let w := byteCall 4 .write "a.go:3" (some (clockOf [(1, 3), (3, 1), (4, 1)]))
    [r1, r2, w].Pairwise Disciplined ∧ RaceOn ⟨1, 0⟩ r1 w ∧
      ¬ ReportedOn (fun _ => some "int") ⟨1, 0⟩ [r1, r2, w] := by
  intro r1 r2 w
  refine ⟨?_, ?_, ?_⟩
  · apply pairwise_three <;> exact ⟨fun h => absurd h (by decide), fun _ => by decide⟩
  · exact ⟨⟨0, by decide, by decide⟩, ⟨0, by decide, by decide⟩, by decide, Or.inr rfl,
      fun h => absurd (h 2) (by decide), fun h => absurd (h 4) (by decide)⟩
  · rintro ⟨pre, c, post, h, -, hres⟩
    rcases split_three h with ⟨rfl, rfl⟩ | ⟨rfl, rfl⟩ | ⟨rfl, rfl⟩ <;> revert hres <;> decide

end Giri.Detector
