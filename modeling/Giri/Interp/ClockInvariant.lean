/-
Giri.Interp.ClockInvariant — the clocks of the interpreter never order more
than synchronization does.

The machine's clocks, its stored clocks and its trace are an instance of
`Lib/Causal.lean`: every part of a step (`Micro`) acquires stored clocks and
perhaps publishes one and ticks, or starts a goroutine, or is an access, or
touches no clock at all (`ClockStep`). `ClockInv` is the library's invariant;
`clockInv` has it in every reachable state.

The order it speaks about is the one given by `Event.src`, which entries a
stored clock came from. That these entries are the ones the memory model
allows is a separate matter (`HappensBefore.lean`).
-/
import Giri.Lib.Causal
import Giri.Interp.Micro

namespace Giri.Interp

open Function (update_self update_of_ne)

variable {V T : Type}

/-! ## §1. The clocks the interpreter stores -/

/-- The clocks stored in a channel. -/
def ChanEntry.stamps (ch : ChanEntry V) : List Stamp :=
  ch.buf.filterMap (·.clock) ++ ch.recvClocks ++ ch.closeClock.toList

variable {ch : ChanEntry V} {st : Stamp}

theorem ChanEntry.mem_stamps : st ∈ ch.stamps ↔
    (∃ it ∈ ch.buf, it.clock = some st) ∨ st ∈ ch.recvClocks ∨ ch.closeClock = some st := by
  simp [ChanEntry.stamps]

/-- The clocks stored in a waiting operation. -/
def Sudog.stamps (sg : Sudog V) : List Stamp := sg.clock.toList ++ sg.peer.toList

theorem Sudog.mem_stamps {sg : Sudog V} :
    st ∈ sg.stamps ↔ sg.clock = some st ∨ sg.peer = some st := by
  simp [Sudog.stamps]

/-- The clocks stored for a primitive. -/
def MutexState.stamps (ms : MutexState) : List Stamp :=
  ms.lastUnlockClock.toList ++ ms.rUnlockClock.toList

theorem MutexState.mem_stamps {ms : MutexState} :
    st ∈ ms.stamps ↔ ms.lastUnlockClock = some st ∨ ms.rUnlockClock = some st := by
  simp [MutexState.stamps]

/-- What the causal order reads of a stored clock. -/
def Stamp.snapshot (st : Stamp) : Causal.Snapshot Gid := ⟨st.clock.get, st.src⟩

/-- The goroutine a go statement starts. -/
def Kind.forks : Kind V T → Option Gid
  | .fork child _ => some child
  | _ => none

def Kind.isAccess : Kind V T → Bool
  | .access => true
  | _ => false

/-- What the causal order reads of an entry of the trace. -/
def Event.entry (e : Event V T) : Causal.Entry Gid where
  proc := e.gid
  fork := e.kind.forks
  src := e.src
  obs := if e.kind.isAccess then some e.after.get else none

namespace Interpreter

/-- The clock `st` is stored somewhere in the interpreter. -/
def Stored (s : Interpreter V T) (st : Stamp) : Prop :=
  (∃ id ch, s.channels id = some ch ∧ st ∈ ch.stamps) ∨
    (∃ w, st ∈ (s.sudogs w).stamps) ∨ ∃ k, st ∈ (s.mutexes k).stamps

/-- The clocks of the goroutines. -/
def clk (s : Interpreter V T) (g : Gid) : Gid → Nat := (s.clockOf g).get

/-- The invariant of `Lib/Causal.lean`, for the interpreter. -/
def ClockInv (s : Interpreter V T) : Prop :=
  Causal.Inv s.clk {x | ∃ st, s.Stored st ∧ st.snapshot = x} (s.trace.map Event.entry)

section Rules

variable {cfg : Config V T} {s t : Interpreter V T} {g : Gid} {o : Option Prim}

/-! ## §2. Merging -/

theorem le_mergeStamp (c : Clock) (o : Option Stamp) : c.get ≤ (mergeStamp c o).get := by
  cases o with
  | none => exact le_refl _
  | some st => exact c.le_merge_left st.clock

theorem stamp_le_mergeStamp (c : Clock) (st : Stamp) :
    st.clock.get ≤ (mergeStamp c (some st)).get :=
  c.le_merge_right st.clock

theorem le_foldl_mergeStamp : ∀ (acq : List (Option Stamp)) (c : Clock),
    c.get ≤ (acq.foldl mergeStamp c).get
  | [], _ => le_refl _
  | o :: acq, c => (le_mergeStamp c o).trans (le_foldl_mergeStamp acq _)

theorem stamp_le_foldl_mergeStamp {st : Stamp} : ∀ {acq : List (Option Stamp)} (c : Clock),
    some st ∈ acq → st.clock.get ≤ (acq.foldl mergeStamp c).get
  | o :: acq, c, hst => by
    rcases List.mem_cons.mp hst with rfl | hst
    · exact (stamp_le_mergeStamp c st).trans (le_foldl_mergeStamp acq _)
    · exact stamp_le_foldl_mergeStamp (mergeStamp c o) hst

/-- Every component of a merged clock comes from one of the clocks merged. -/
theorem foldl_mergeStamp_from (x : Gid) : ∀ (acq : List (Option Stamp)) (c : Clock),
    (acq.foldl mergeStamp c).get x ≤ c.get x ∨
      ∃ st, some st ∈ acq ∧ (acq.foldl mergeStamp c).get x ≤ st.clock.get x
  | [], _ => .inl (le_refl _)
  | o :: acq, c => by
    rw [List.foldl_cons]
    rcases foldl_mergeStamp_from x acq (mergeStamp c o) with hle | ⟨st, hst, hle⟩
    · cases o with
      | none => exact .inl hle
      | some st =>
        have hmax : (mergeStamp c (some st)).get x = max (c.get x) (st.clock.get x) :=
          VectorClock.Clock.get_merge_apply c st.clock x
        rw [hmax, le_max_iff] at hle
        exact hle.imp_right fun hle => ⟨st, List.mem_cons_self, hle⟩
    · exact .inr ⟨st, List.mem_cons_of_mem _ hst, hle⟩

theorem merged_from (acq : List (Option Stamp)) (c : Clock) (x : Gid) :
    (acq.foldl mergeStamp c).get x ≤ c.get x ∨
      ∃ sn ∈ (acq.filterMap id).map Stamp.snapshot,
        (acq.foldl mergeStamp c).get x ≤ sn.clock x := by
  refine (foldl_mergeStamp_from x acq c).imp_right ?_
  rintro ⟨st, hst, hle⟩
  exact ⟨st.snapshot, List.mem_map_of_mem (by simpa using hst), hle⟩

/-! ## §3. What is published -/

/-- `st` publishes the clock `c` at the next position, alone or joined into
a stored clock. -/
def Publishes (s : Interpreter V T) (c : Clock) (st : Stamp) : Prop :=
  st = ⟨c, [s.trace.length]⟩ ∨
    ∃ o, s.Stored o ∧ st = ⟨o.clock.merge c, o.src ++ [s.trace.length]⟩

theorem Publishes.published {c : Clock} (h : s.Publishes c st) :
    Causal.Published {x | ∃ st, s.Stored st ∧ st.snapshot = x} c.get s.trace.length
      st.snapshot := by
  rcases h with rfl | ⟨o, ho, rfl⟩
  · exact ⟨List.mem_singleton_self _, fun k hk => .inl (List.mem_singleton.mp hk),
      fun x => .inl (le_refl _)⟩
  · refine ⟨List.mem_append_right _ (List.mem_singleton_self _), fun k hk => ?_, fun x => ?_⟩
    · rcases List.mem_append.mp hk with hk | hk
      · exact .inr ⟨o.snapshot, ⟨o, ho, rfl⟩, hk⟩
      · exact .inl (List.mem_singleton.mp hk)
    · have hmax := VectorClock.Clock.get_merge_apply o.clock c x
      rcases le_total (o.clock.get x) (c.get x) with hle | hle
      · rw [max_eq_right hle] at hmax
        exact .inl hmax.le
      · rw [max_eq_left hle] at hmax
        exact .inr ⟨o.snapshot, ⟨o, ho, rfl⟩, fun k hk => List.mem_append_left _ hk, hmax.le⟩

/-! ## §4. What a part can do to the clocks -/

/-- The clocks `acq` are stored, and were published by the entries `src`. -/
structure Acquires (s : Interpreter V T) (acq : List (Option Stamp)) (src : List Nat) : Prop where
  stored : ∀ st, some st ∈ acq → s.Stored st
  src : ∀ k, k ∈ src ↔ ∃ st, some st ∈ acq ∧ k ∈ st.src

theorem Acquires.nil : s.Acquires [] [] := ⟨by simp, by simp⟩

theorem Acquires.cons {o : Option Stamp} {acq : List (Option Stamp)} {src : List Nat}
    (ho : ∀ st, o = some st → s.Stored st) (h : s.Acquires acq src) :
    s.Acquires (o :: acq) (srcs o ++ src) := by
  refine ⟨fun st hst => ?_, fun k => ?_⟩
  · rcases List.mem_cons.mp hst with hst | hst
    · exact ho st hst.symm
    · exact h.stored st hst
  · rw [List.mem_append, h.src k]
    cases o <;> simp [srcs]

/-- One clock is acquired. -/
theorem Acquires.one {o : Option Stamp} (ho : ∀ st, o = some st → s.Stored st) :
    s.Acquires [o] (srcs o) :=
  List.append_nil (srcs o) ▸ .cons ho .nil

/-- **A part acquires stored clocks and perhaps publishes one and ticks, or
starts a goroutine, or is an access, or touches no clock.** -/
inductive ClockStep (s t : Interpreter V T) : Prop where
  | sync {g : Gid} (acq : List (Option Stamp)) {k : Kind V T} {src : List Nat}
      {pub : Option Clock} {c : Clock} (hc : c = acq.foldl mergeStamp (s.clockOf g))
      (hacq : s.Acquires acq src) (hk : k.isAccess = false ∧ k.forks = none)
      (htr : t.trace = s.trace ++ [⟨g, k, src, pub, t.clockOf g⟩])
      (hother : ∀ q, q ≠ g → t.clockOf q = s.clockOf q)
      (hself : t.clockOf g = c ∨ t.clockOf g = c.tick g)
      (hst : ∀ st, t.Stored st → s.Stored st ∨ (t.clockOf g = c.tick g ∧ s.Publishes c st))
  | quiet (htr : t.trace = s.trace) (hclk : ∀ g, t.clockOf g = s.clockOf g)
      (hst : ∀ st, t.Stored st → s.Stored st)
  | fork {g child : Gid} {group : Option Prim} {c : Clock} (hne : child ≠ g)
      (hborn : s.clockOf child = VectorClock.Clock.start child)
      (htr : t.trace = s.trace ++ [⟨g, .fork child group, [], none, c⟩])
      (hother : ∀ q, q ≠ g → q ≠ child → t.clockOf q = s.clockOf q)
      (hself : t.clockOf g = (s.clockOf g).tick g)
      (hchild : t.clockOf child = (VectorClock.Clock.start child).merge (s.clockOf g))
      (hst : ∀ st, t.Stored st → s.Stored st)
  | access {g : Gid} (h : t = s.log g .access [] none)

/-- Any number of such steps. -/
def ClockSteps : Interpreter V T → Interpreter V T → Prop := Relation.ReflTransGen ClockStep

theorem clk_eq (hclk : ∀ g, t.clockOf g = s.clockOf g) : t.clk = s.clk :=
  funext fun g => congrArg VectorClock.Clock.get (hclk g)

theorem snapshots_subset (hst : ∀ st, t.Stored st → s.Stored st) :
    {x | ∃ st, t.Stored st ∧ st.snapshot = x} ⊆ {x | ∃ st, s.Stored st ∧ st.snapshot = x} := by
  rintro x ⟨st, hstored, rfl⟩
  exact ⟨st, hst st hstored, rfl⟩

/-- What a tick does to a clock, if there is one: the goroutine's own
component is raised, and no other is changed. -/
theorem get_of_tick {c d : Clock} (h : d = c ∨ d = c.tick g) {x : Gid} (hx : x ≠ g) :
    d.get x = c.get x := by
  rcases h with h | h
  · rw [h]
  · rw [h, VectorClock.Clock.get_tick, if_neg hx]

theorem le_of_tick {c d : Clock} (h : d = c ∨ d = c.tick g) : c.get ≤ d.get := by
  rcases h with h | h
  · rw [h]
  · rw [h]
    exact VectorClock.Clock.le_tick c g

theorem lt_of_tick {c d : Clock} (h : d = c.tick g) : c.get g < d.get g := by
  rw [h, VectorClock.Clock.get_tick, if_pos rfl]
  exact Nat.lt_succ_self _

theorem ClockInv.step (hI : ClockInv s) (h : ClockStep s t) : ClockInv t := by
  unfold ClockInv
  cases h with
  | access h =>
    subst h
    rw [log_trace, List.map_append, List.map_singleton]
    exact Causal.Inv.access hI rfl
  | quiet htr hclk hst =>
    rw [htr, clk_eq hclk]
    exact Causal.Inv.mono hI (snapshots_subset hst)
  | @fork g child group c hne hborn htr hother hself hchild hst =>
    rw [htr, List.map_append, List.map_singleton]
    refine Causal.Inv.entry hI [] (s.clk g) rfl
      ⟨⟨fun _ => le_refl _, fun _ => .inl (le_refl _)⟩, fun x hx => get_of_tick (.inr hself) hx,
        (lt_of_tick hself).le, fun q hq => ?_⟩ nofun fun x hx => .inl (snapshots_subset hst hx)
    by_cases hqc : q = child
    · subst hqc
      refine .inr ⟨rfl, lt_of_tick hself, fun x => ?_⟩
      show (t.clockOf q).get x = max ((s.clockOf q).get x) ((s.clockOf g).get x)
      rw [hchild, hborn, VectorClock.Clock.get_merge_apply]
    · exact .inl (congrArg VectorClock.Clock.get (hother q hq hqc))
  | @sync g acq k src pub c hc hacq hk htr hother hself hst =>
    rw [htr, List.map_append, List.map_singleton]
    refine Causal.Inv.entry hI ((acq.filterMap id).map Stamp.snapshot) c.get ?_
      ⟨⟨hc ▸ le_foldl_mergeStamp acq _, hc ▸ merged_from acq _⟩, fun x hx => get_of_tick hself hx,
        le_of_tick hself g, fun q hq => .inl (congrArg VectorClock.Clock.get (hother q hq))⟩ ?_ ?_
    · show (if k.isAccess then _ else none) = none
      rw [hk.1]; rfl
    · intro x hx
      obtain ⟨st, hst, rfl⟩ := List.mem_map.mp hx
      have hst : some st ∈ acq := by simpa using hst
      exact ⟨⟨st, hacq.stored st hst, rfl⟩, fun k hk => (hacq.src k).mpr ⟨st, hst, hk⟩⟩
    · rintro x ⟨st, hstored, rfl⟩
      rcases hst st hstored with hold | ⟨h, hpub⟩
      · exact .inl ⟨st, hold, rfl⟩
      · refine .inr ⟨lt_of_tick h, ?_⟩
        rw [List.length_map]
        exact hpub.published

/-- The invariant, over any number of steps. -/
theorem ClockSteps.invariant (h : ClockSteps s t) (hI : ClockInv s) : ClockInv t := by
  induction h with
  | refl => exact hI
  | tail _ h ih => exact ih.step h

/-! ## §5. Where a stored clock can come from -/

theorem clockOf_setClock (s : Interpreter V T) (g q : Gid) (c : Clock) :
    (s.setClock g c).clockOf q = if q = g then c else s.clockOf q :=
  setClock_vclock s g q c

theorem clockOf_setClock_self (s : Interpreter V T) (g : Gid) (c : Clock) :
    (s.setClock g c).clockOf g = c := by
  rw [clockOf_setClock, if_pos rfl]

theorem clockOf_setClock_other (s : Interpreter V T) {g q : Gid} (c : Clock) (hq : q ≠ g) :
    (s.setClock g c).clockOf q = s.clockOf q := by
  rw [clockOf_setClock, if_neg hq]

theorem clockOf_tick_self (cfg : Config V T) (s : Interpreter V T) (g : Gid) :
    (s.tick cfg g).clockOf g =
      if cfg.trackRaces then (s.clockOf g).tick g else s.clockOf g :=
  clockOf_setClock_self ..

/-- Every clock stored after a part was stored before it, or is new. -/
theorem stored_from (New : Stamp → Prop)
    (hch : ∀ id ch, t.channels id = some ch → s.channels id = some ch ∨
      ∀ st ∈ ch.stamps, s.Stored st ∨ New st)
    (hsg : ∀ w, t.sudogs w = s.sudogs w ∨ ∀ st ∈ (t.sudogs w).stamps, s.Stored st ∨ New st)
    (hms : ∀ k, t.mutexes k = s.mutexes k ∨ ∀ st ∈ (t.mutexes k).stamps, s.Stored st ∨ New st) :
    ∀ st, t.Stored st → s.Stored st ∨ New st := by
  rintro st (⟨id, ch, hid, hmem⟩ | ⟨w, hmem⟩ | ⟨k, hmem⟩)
  · rcases hch id ch hid with hold | hnew
    · exact .inl (.inl ⟨id, ch, hold, hmem⟩)
    · exact hnew st hmem
  · rcases hsg w with hold | hnew
    · rw [hold] at hmem; exact .inl (.inr (.inl ⟨w, hmem⟩))
    · exact hnew st hmem
  · rcases hms k with hold | hnew
    · rw [hold] at hmem; exact .inl (.inr (.inr ⟨k, hmem⟩))
    · exact hnew st hmem

/-- No clock is new. -/
theorem stored_of_old
    (hch : ∀ id ch, t.channels id = some ch → s.channels id = some ch ∨
      ∀ st ∈ ch.stamps, s.Stored st ∨ False)
    (hsg : ∀ w, t.sudogs w = s.sudogs w ∨ ∀ st ∈ (t.sudogs w).stamps, s.Stored st ∨ False)
    (hms : ∀ k, t.mutexes k = s.mutexes k ∨ ∀ st ∈ (t.mutexes k).stamps, s.Stored st ∨ False)
    (st : Stamp) (hst : t.Stored st) : s.Stored st :=
  (stored_from (fun _ => False) hch hsg hms st hst).resolve_right id

variable {id : ChanID} {New : Stamp → Prop} {k : SyncKey} {ms : MutexState} {w : SudogRef}

/-- One channel is changed: only its clocks have to be looked at. -/
theorem chan_from {ch' : ChanEntry V} (hset : t.channels = Function.update s.channels id (some ch'))
    (hnew : ∀ st ∈ ch'.stamps, s.Stored st ∨ New st) :
    ∀ i ch, t.channels i = some ch → s.channels i = some ch ∨
      ∀ st ∈ ch.stamps, s.Stored st ∨ New st := by
  intro i ch hch
  rw [hset] at hch
  by_cases hi : i = id
  · subst hi
    rw [update_self] at hch
    cases hch
    exact .inr hnew
  · rw [update_of_ne hi] at hch
    exact .inl hch

/-- One sudog is changed. -/
theorem sudog_from {sg : Sudog V} (hset : t.sudogs = Function.update s.sudogs w sg)
    (hnew : ∀ st ∈ sg.stamps, s.Stored st ∨ New st) :
    ∀ x, t.sudogs x = s.sudogs x ∨ ∀ st ∈ (t.sudogs x).stamps, s.Stored st ∨ New st := by
  intro x
  rw [hset]
  by_cases hx : x = w
  · subst hx; rw [update_self]; exact .inr hnew
  · rw [update_of_ne hx]; exact .inl rfl

/-- The state of one primitive is changed. -/
theorem sync_from (hset : t.mutexes = Function.update s.mutexes k ms)
    (hnew : ∀ st ∈ ms.stamps, s.Stored st ∨ New st) :
    ∀ x, t.mutexes x = s.mutexes x ∨ ∀ st ∈ (t.mutexes x).stamps, s.Stored st ∨ New st := by
  intro x
  rw [hset]
  by_cases hx : x = k
  · subst hx; rw [update_self]; exact .inr hnew
  · rw [update_of_ne hx]; exact .inl rfl

theorem stored_of_chan (hch : s.channels id = some ch) (hst : st ∈ ch.stamps) : s.Stored st :=
  .inl ⟨id, ch, hch, hst⟩

theorem stored_chan (hch : s.channels id = some ch)
    (hst : (∃ it ∈ ch.buf, it.clock = some st) ∨ st ∈ ch.recvClocks ∨ ch.closeClock = some st) :
    s.Stored st :=
  stored_of_chan hch (ChanEntry.mem_stamps.mpr hst)

theorem stored_of_sudog (hst : st ∈ (s.sudogs w).stamps) :
    s.Stored st :=
  .inr (.inl ⟨w, hst⟩)

theorem stored_of_sync (hst : st ∈ (s.mutexes k).stamps) :
    s.Stored st :=
  .inr (.inr ⟨k, hst⟩)

theorem stored_sync
    (hst : (s.mutexes k).lastUnlockClock = some st ∨ (s.mutexes k).rUnlockClock = some st) :
    s.Stored st :=
  stored_of_sync (MutexState.mem_stamps.mpr hst)

/-- What `releaseClock` returns is published, and the goroutine has ticked. -/
theorem releaseClock_publishes {u : Interpreter V T} (htr : u.trace = s.trace)
    (hst : u.releaseClock cfg g = some st) :
    (u.tick cfg g).clockOf g = (u.clockOf g).tick g ∧ s.Publishes (u.clockOf g) st := by
  rw [clockOf_tick_self]
  unfold releaseClock at hst
  split at hst
  · rename_i htrack
    cases hst
    exact ⟨if_pos htrack, .inl (by rw [htr])⟩
  · cases hst

theorem joinClock_publishes (s : Interpreter V T) (o : Option Stamp) (g : Gid)
    (ho : ∀ st, o = some st → s.Stored st) : s.Publishes (s.clockOf g) (s.joinClock o g) := by
  cases o with
  | none => exact .inl rfl
  | some st => exact .inr ⟨st, ho st rfl, rfl⟩

/-! ## §6. The parts -/

variable {r : Interpreter V T}

/-- A part that acquires `acq` and then ticks if races are tracked. -/
theorem tick_self_cases (cfg : Config V T) (s : Interpreter V T) (g : Gid) :
    (s.tick cfg g).clockOf g = s.clockOf g ∨ (s.tick cfg g).clockOf g = (s.clockOf g).tick g := by
  rw [clockOf_tick_self]
  split
  · exact .inr rfl
  · exact .inl rfl

theorem ClockSteps.offer (hS : ClockSteps r s) (hch : s.channels id = some ch) (onSend : Bool)
    (val : V) (sel : Option SelRef) (i : Nat) :
    ClockSteps r (s.offer cfg g id ch onSend val sel i) := by
  refine hS.tail <| .sync [] rfl .nil ⟨rfl, rfl⟩ rfl
    (fun q hq => clockOf_setClock_other s _ hq) (tick_self_cases cfg s g) ?_
  refine stored_from _ (chan_from rfl fun st hst => ?_) (sudog_from rfl fun st hst => ?_)
    fun k => .inl rfl
  · refine .inl (stored_of_chan hch ?_)
    split at hst <;> exact hst
  · rcases Sudog.mem_stamps.mp hst with hst | hst
    · exact .inr (releaseClock_publishes rfl hst)
    · cases hst

/-- The clocks of a goroutine that acquires, and then ticks if races are
tracked. -/
theorem acquire_tick_other (cfg : Config V T) (s : Interpreter V T) {g q : Gid}
    (o : Option Stamp) (hq : q ≠ g) : ((s.acquire g o).tick cfg g).clockOf q = s.clockOf q :=
  (clockOf_setClock_other _ _ hq).trans (clockOf_setClock_other _ _ hq)

theorem acquire_tick_self (cfg : Config V T) (s : Interpreter V T) (g : Gid) (o : Option Stamp) :
    ((s.acquire g o).tick cfg g).clockOf g = mergeStamp (s.clockOf g) o ∨
      ((s.acquire g o).tick cfg g).clockOf g = (mergeStamp (s.clockOf g) o).tick g := by
  have h := tick_self_cases cfg (s.acquire g o) g
  rwa [show (s.acquire g o).clockOf g = mergeStamp (s.clockOf g) o from
    clockOf_setClock_self ..] at h

/-- What a goroutine publishes after an acquire. -/
theorem acquire_publishes {o : Option Stamp} (hst : (s.acquire g o).releaseClock cfg g = some st) :
    ((s.acquire g o).tick cfg g).clockOf g = (mergeStamp (s.clockOf g) o).tick g ∧
      s.Publishes (mergeStamp (s.clockOf g) o) st := by
  have h := releaseClock_publishes (s := s) (u := s.acquire g o) rfl hst
  rwa [show (s.acquire g o).clockOf g = mergeStamp (s.clockOf g) o from
    clockOf_setClock_self ..] at h

theorem ClockSteps.bufferedSend (hS : ClockSteps r s) (hch : s.channels id = some ch) (val : V) :
    ClockSteps r (s.bufferedSend cfg g id ch val) := by
  refine hS.tail <| .sync [if ch.nsent ≥ ch.capacity then ch.recvClocks.head? else none] rfl
    (.one fun st hst => ?_) ⟨rfl, rfl⟩ rfl (fun q hq => acquire_tick_other cfg s _ hq)
    (acquire_tick_self cfg s g _) ?_
  · split at hst
    · exact stored_chan hch (.inr (.inl (List.mem_of_mem_head? hst)))
    · cases hst
  · refine stored_from _ (chan_from rfl fun st hst => ?_) (fun w => .inl rfl) fun k => .inl rfl
    rcases ChanEntry.mem_stamps.mp hst with ⟨it, hit, hst⟩ | hst | hst
    · rcases List.mem_append.mp hit with hit | hit
      · exact .inl (stored_chan hch (.inl ⟨it, hit, hst⟩))
      · cases List.mem_singleton.mp hit
        exact .inr (acquire_publishes hst)
    · refine .inl (stored_chan hch (.inr (.inl ?_)))
      simp only at hst
      split at hst
      · exact List.mem_of_mem_tail hst
      · exact hst
    · exact .inl (stored_chan hch (.inr (.inr hst)))

theorem ClockSteps.recvBuffered (hS : ClockSteps r s) {it : ChanItem V} {rest : List (ChanItem V)}
    (hch : s.channels id = some ch) (hbuf : ch.buf = it :: rest) :
    ClockSteps r (s.recvBuffered cfg g id ch it rest) := by
  refine hS.tail <| .sync [it.clock] rfl
    (.one fun st hst => stored_chan hch (.inl ⟨it, by simp [hbuf], hst⟩)) ⟨rfl, rfl⟩ rfl
    (fun q hq => acquire_tick_other cfg s _ hq) (acquire_tick_self cfg s g _) ?_
  · refine stored_from _ (chan_from rfl fun st hst => ?_) (fun w => .inl rfl) fun k => .inl rfl
    rcases ChanEntry.mem_stamps.mp hst with ⟨it', hit, hst⟩ | hst | hst
    · exact .inl (stored_chan hch (.inl ⟨it', by rw [hbuf]; exact List.mem_cons_of_mem _ hit, hst⟩))
    · rcases List.mem_append.mp hst with hst | hst
      · exact .inl (stored_chan hch (.inr (.inl hst)))
      · refine .inr (acquire_publishes ?_)
        rw [Option.mem_toList] at hst
        split at hst
        · exact hst
        · cases hst
    · exact .inl (stored_chan hch (.inr (.inr hst)))

theorem ClockSteps.recvClosed (hS : ClockSteps r s) (hch : s.channels id = some ch)
    (elem : Option T) :
    ClockSteps r (s.recvClosed cfg g id ch elem) := by
  refine hS.tail <| .sync [ch.closeClock] rfl
    (.one fun st hst => stored_chan hch (.inr (.inr hst))) ⟨rfl, rfl⟩ rfl
    (fun q hq => clockOf_setClock_other s _ hq) (.inl (clockOf_setClock_self ..)) ?_
  exact fun st hst => .inl hst

theorem ClockSteps.close (hS : ClockSteps r s) (hch : s.channels id = some ch) :
    ClockSteps r (((s.tick cfg g).setChan id
      { ch with closed := true, closeClock := s.releaseClock cfg g }).log g (.close id) []
        ((s.releaseClock cfg g).map Stamp.clock)) := by
  refine hS.tail <| .sync [] rfl .nil ⟨rfl, rfl⟩ rfl
    (fun q hq => clockOf_setClock_other s _ hq) (tick_self_cases cfg s g) ?_
  refine stored_from _ (chan_from rfl fun st hst => ?_) (fun w => .inl rfl) fun k => .inl rfl
  rcases ChanEntry.mem_stamps.mp hst with hst | hst | hst
  · exact .inl (stored_chan hch (.inl hst))
  · exact .inl (stored_chan hch (.inr (.inl hst)))
  · exact .inr (releaseClock_publishes rfl hst)

/-- Claiming a waiting operation. Replacing a queue of the channel and the
value of the sudog changes no stored clock. -/
theorem ClockSteps.claimBy (hS : ClockSteps r s) (u : Interpreter V T)
    (hclk : u.goroutines = s.goroutines) (htr : u.trace = s.trace)
    (hst : ∀ st, u.Stored st → s.Stored st) (id : ChanID) : ClockSteps r (u.claimBy cfg g id w) := by
  have hU : ClockSteps r u := hS.tail <| .quiet htr (fun q => by unfold clockOf; rw [hclk]) hst
  refine hU.tail <| .sync [(u.sudogs w).clock] rfl
    (.one fun st hst => stored_of_sudog (Sudog.mem_stamps.mpr (.inl hst))) ⟨rfl, rfl⟩ rfl
    (fun q hq => acquire_tick_other cfg u _ hq) (acquire_tick_self cfg u g _) ?_
  · refine stored_from _ (fun i c h => .inl h) (sudog_from rfl fun st hst => ?_) fun k => .inl rfl
    rcases Sudog.mem_stamps.mp hst with hst | hst
    · exact .inl (stored_of_sudog (Sudog.mem_stamps.mpr (.inl hst)))
    · exact .inr (acquire_publishes hst)

theorem ClockSteps.wakeUp (hS : ClockSteps r s) (w : SudogRef) (ticks : Bool) :
    ClockSteps r (s.wakeUp cfg g w ticks) := by
  have hclk : ∀ q, (s.setWait g none).clockOf q = s.clockOf q := fun q => setWait_vclock ..
  have hU : ClockSteps r (s.setWait g none) := hS.tail <| .quiet rfl hclk fun st hst => hst
  refine hU.tail <| .sync [(s.sudogs w).peer] rfl
    (.one fun st hst => stored_of_sudog (Sudog.mem_stamps.mpr (.inr hst))) ⟨rfl, rfl⟩ rfl
    (fun q hq => ?_) ?_ fun st hst => .inl hst
  · exact (clockOf_setClock_other _ _ hq).trans (clockOf_setClock_other _ _ hq)
  · have hacq : ((s.setWait g none).acquire g (s.sudogs w).peer).clockOf g =
        mergeStamp ((s.setWait g none).clockOf g) (s.sudogs w).peer := clockOf_setClock_self ..
    have hself : (s.wakeUp cfg g w ticks).clockOf g = _ := clockOf_setClock_self ..
    rw [hself, hacq]
    split
    · exact .inr rfl
    · exact .inl rfl

/-- A part that changes the state of a primitive, but none of its clocks. -/
theorem ClockSteps.setSync (hS : ClockSteps r s)
    (hlast : ms.lastUnlockClock = (s.mutexes k).lastUnlockClock)
    (hr : ms.rUnlockClock = (s.mutexes k).rUnlockClock) : ClockSteps r (s.setSync k ms) := by
  refine hS.tail <| .quiet rfl (fun _ => rfl) (stored_of_old (fun i c h => .inl h)
    (fun w => .inl rfl) (sync_from rfl fun st hst => .inl ?_))
  refine stored_of_sync (k := k) ?_
  rw [MutexState.mem_stamps] at hst ⊢
  rwa [hlast, hr] at hst

theorem ClockSteps.syncAcquire (hS : ClockSteps r s) (op : SyncOp) (p : Prim)
    {last rUnlock : Option Stamp} (hlast : ∀ st, last = some st → s.Stored st)
    (hr : ∀ st, rUnlock = some st → s.Stored st) :
    ClockSteps r (s.syncAcquire g op p last rUnlock) := by
  refine hS.tail <| .sync [last, rUnlock] rfl (.cons hlast (.one hr)) ⟨rfl, rfl⟩ rfl
    (fun q hq => ?_) (.inl ?_) fun st hst => .inl hst
  · exact (clockOf_setClock_other _ _ hq).trans (clockOf_setClock_other _ _ hq)
  · refine (clockOf_setClock_self ..).trans ?_
    exact congrArg (mergeStamp · rUnlock) (clockOf_setClock_self ..)

theorem ClockSteps.syncRelease (hS : ClockSteps r s) (op : SyncOp) (p : Prim)
    (hms : ∀ st ∈ ms.stamps, s.Stored st ∨ s.Publishes (s.clockOf g) st) :
    ClockSteps r (s.syncRelease g op p ms) := by
  have hself : (s.syncRelease g op p ms).clockOf g = (s.clockOf g).tick g :=
    clockOf_setClock_self ..
  refine hS.tail <| .sync [] rfl .nil ⟨rfl, rfl⟩ rfl (fun q hq => ?_) (.inr hself) ?_
  · exact clockOf_setClock_other (s.setSync p.key ms) _ hq
  · refine stored_from _ (fun i c h => .inl h) (fun w => .inl rfl) (sync_from rfl fun st hst => ?_)
    exact (hms st hst).imp_right fun hpub => ⟨hself, hpub⟩

theorem ClockSteps.addCounter (hS : ClockSteps r s) (p : Prim) (delta : Int) :
    ClockSteps r (s.addCounter p delta) :=
  hS.setSync rfl rfl

theorem ClockSteps.joinRelease (hS : ClockSteps r s) (p : Prim) : ClockSteps r (s.joinRelease g p) := by
  refine hS.syncRelease _ p fun st hst => ?_
  rcases MutexState.mem_stamps.mp hst with hst | hst
  · cases hst
    exact .inr (joinClock_publishes s _ g fun st h => stored_sync (.inl h))
  · exact .inl (stored_sync (.inr hst))

theorem ClockSteps.startChild (hS : ClockSteps r s) (hB : Base s) (h : Running s g)
    (group : Option Prim) (site : String) :
    ClockSteps r ({ s with nextGID := s.nextGID + 1 }.fork g (s.nextGID + 1) group site) := by
  have hne : s.nextGID + 1 ≠ g := by
    have hle := hB.le_nextGID h.1
    intro heq
    rw [← heq] at hle
    exact absurd hle (Int.not_le.mpr (Int.lt_succ _))
  have hborn := (hB.unborn (s.nextGID + 1) (Int.lt_succ _)).2.1
  refine hS.tail <| .fork hne hborn rfl (fun q hq hc => ?_) ?_ ?_ fun st hst => hst
  · refine (clockOf_setClock_other _ _ hq).trans ?_
    exact congrArg Goroutine.vclock (update_of_ne hc ..)
  · refine (clockOf_setClock_self ..).trans ?_
    exact congrArg (fun r : Goroutine V T => r.vclock.tick g) (update_of_ne hne.symm ..)
  · refine (clockOf_setClock_other _ _ hne).trans ?_
    simp [clockOf]

/-- Nothing of what the order looks at is changed. -/
theorem ClockSteps.frame (hS : ClockSteps r s) (htr : t.trace = s.trace)
    (hclk : ∀ g, (t.goroutines g).vclock = (s.goroutines g).vclock)
    (hch : t.channels = s.channels) (hsg : t.sudogs = s.sudogs) (hms : t.mutexes = s.mutexes) :
    ClockSteps r t :=
  hS.tail <| .quiet htr hclk fun st hst => by
    unfold Stored at hst
    rwa [hch, hsg, hms] at hst

theorem ClockSteps.setWait (hS : ClockSteps r s) (g : Gid) (wt : Option (Wait V T)) :
    ClockSteps r (s.setWait g wt) :=
  hS.frame rfl (fun _ => setWait_vclock ..) rfl rfl rfl

theorem ClockSteps.exit (hS : ClockSteps r s) (g : Gid) :
    ClockSteps r (s.modify g fun r => { r with exited := true }) := by
  refine hS.frame rfl (fun q => ?_) rfl rfl rfl
  exact modify_field Goroutine.vclock s g q (f := fun r => { r with exited := true }) fun _ => rfl

/-- Events without clocks, which acquire nothing and publish nothing. -/
theorem ClockSteps.logOnly (hS : ClockSteps r s) {k : Kind V T}
    (hk : k.isAccess = false ∧ k.forks = none) : ClockSteps r (s.log g k [] none) :=
  hS.tail <| .sync [] rfl .nil hk rfl (fun _ _ => rfl) (.inl rfl) fun _ => .inl

/-- Replacing the queues of a channel, and values of sudogs, changes no
stored clock. -/
theorem stored_of_setChan (t : Interpreter V T) {ch' : ChanEntry V} (hch : s.channels id = some ch)
    (hset : t.channels = Function.update s.channels id (some ch'))
    (hstamps : ch'.stamps = ch.stamps) (hsg : ∀ w, (t.sudogs w).stamps = (s.sudogs w).stamps)
    (hms : t.mutexes = s.mutexes) : ∀ st, t.Stored st → s.Stored st :=
  stored_of_old (chan_from hset fun _ hst => .inl (stored_of_chan hch (hstamps ▸ hst)))
    (fun w => .inr fun _ hst => .inl (stored_of_sudog (hsg w ▸ hst)))
    fun k => .inl (congrFun hms k)

theorem stamps_setVal (s : Interpreter V T) (w x : SudogRef) (val : V) :
    (Function.update s.sudogs w { s.sudogs w with val := val } x).stamps =
      (s.sudogs x).stamps := by
  by_cases hx : x = w
  · subst hx; rw [update_self]; rfl
  · rw [update_of_ne hx]

theorem stored_createChannel (capacity : Nat) (refill : Option V) :
    ∀ st, (s.createChannel capacity refill).Stored st → s.Stored st :=
  stored_of_old (chan_from rfl fun st hst => by simp [ChanEntry.stamps] at hst)
    (fun w => .inl rfl) fun k => .inl rfl

/-- **Every part is made of clock steps.** -/
theorem Micro.clockSteps (hB : Base s) (h : Micro cfg s o t) : ClockSteps s t := by
  have hS : ClockSteps s s := .refl
  cases h with
  | quiet h => exact hS.frame h.trace h.vclock h.channels h.sudogs h.mutexes
  | access => exact hS.tail (.access rfl)
  | makeChan capacity refill =>
    exact hS.tail <| .quiet rfl (fun _ => rfl) (stored_createChannel capacity refill)
  | notify v hch =>
    exact hS.tail <| .quiet rfl (fun _ => rfl)
      (stored_of_setChan _ hch rfl rfl (fun _ => rfl) rfl)
  | fork site h => exact hS.startChild hB h none site
  | @memberFork g p site h =>
    have hB' : Base (s.addCounter p 1) := ⟨hB.unborn, hB.chan_le, hB.fits⟩
    exact (hS.addCounter p 1).startChild hB' h (some p) site
  | exit => exact hS.exit _
  | @memberExit g p => exact ((hS.exit g).joinRelease p).addCounter p (-1)
  | park | unpark => exact hS.setWait _ _
  | parkSelect => exact hS.frame rfl (fun q => setWait_vclock ..) rfl rfl rfl
  | @parkOffer g wt id ch onSend val h _ hch =>
    exact (hS.setWait g (some wt)).offer hch onSend val none 0
  | offer h _ _ _ hch => exact hS.offer hch _ _ _ _
  | @claimSend g id ch w rest val h hch =>
    let u := (s.setChan id { ch with recvq := rest }).setSudog w { s.sudogs w with val := val }
    exact hS.claimBy u rfl rfl
      (stored_of_setChan u hch rfl rfl (fun x => stamps_setVal s w x val) rfl) id
  | @claimRecv g id ch w rest h hch =>
    let u := s.setChan id { ch with sendq := rest }
    exact hS.claimBy u rfl rfl (stored_of_setChan u hch rfl rfl (fun _ => rfl) rfl) id
  | wakeUp ticks => exact hS.wakeUp _ ticks
  | @abandonOffer g wt w h =>
    have hU : ClockSteps s ((s.setWait g none).setSudog w { s.sudogs w with done := true }) := by
      refine hS.tail <| .quiet rfl (fun q => setWait_vclock ..) ?_
      exact stored_of_old (fun i c h => .inl h)
        (sudog_from rfl fun st hst => .inl (stored_of_sudog (w := w) hst)) fun k => .inl rfl
    exact hU.logOnly ⟨rfl, rfl⟩
  | @withdraw g cases sw =>
    have hU : ClockSteps s ((s.setWait g none).setSel sw { s.sels sw with fired := true }) :=
      (hS.setWait g none).frame rfl (fun _ => rfl) rfl rfl rfl
    exact hU.logOnly ⟨rfl, rfl⟩
  | bufferedSend val h hch => exact hS.bufferedSend hch val
  | recvBuffered h hch hbuf => exact hS.recvBuffered hch hbuf
  | recvRefill => exact hS.logOnly ⟨rfl, rfl⟩
  | recvClosed elem h hch => exact hS.recvClosed hch elem
  | close h hch => exact hS.close hch
  | @lock g p =>
    have hU : ClockSteps s (s.setSync p.key
        { s.mutexes p.key with locked := true, lockGoroutine := g }) := hS.setSync rfl rfl
    refine hU.syncAcquire _ p (fun st hst => ?_) fun st hst => ?_
    · exact stored_of_sync (k := p.key) (by
        simpa [MutexState.mem_stamps] using Or.inl hst)
    · exact stored_of_sync (k := p.key) (by
        simpa [MutexState.mem_stamps] using Or.inr hst)
  | @rLock g p =>
    have hU : ClockSteps s (s.setSync p.key
        { s.mutexes p.key with readers := (s.mutexes p.key).readers + 1 }) :=
      hS.setSync rfl rfl
    refine hU.syncAcquire _ p (fun st hst => ?_) fun st hst => nomatch hst
    exact stored_of_sync (k := p.key) (by simpa [MutexState.mem_stamps] using Or.inl hst)
  | @unlock _ p | @signal _ p =>
    refine hS.syncRelease _ p fun st hst => ?_
    rcases MutexState.mem_stamps.mp hst with hst | hst
    · cases hst; exact .inr (.inl rfl)
    · exact .inl (stored_sync (.inr hst))
  | @rUnlock g p h =>
    refine hS.syncRelease _ p fun st hst => ?_
    rcases MutexState.mem_stamps.mp hst with hst | hst
    · exact .inl (stored_sync (.inl hst))
    · cases hst; exact .inr (joinClock_publishes s _ g fun st h => stored_sync (.inr h))
  | condWait p | groupWait p =>
    exact hS.syncAcquire _ p (fun st hst => stored_sync (.inl hst)) fun st hst => nomatch hst
  | done p => exact hS.joinRelease p
  | addCounter p delta => exact hS.addCounter p delta
  | refuse p => exact (hS.addCounter p 1).frame rfl (fun _ => rfl) rfl rfl rfl

/-- At the start no clock is stored. -/
theorem stored_init (cfg : Config V T) :
    {x | ∃ st, (init cfg).Stored st ∧ st.snapshot = x} = ∅ := by
  refine Set.ext fun x => ⟨?_, fun h => h.elim⟩
  rintro ⟨st, hst, -⟩
  exfalso
  rcases hst with ⟨id, ch, hch, -⟩ | ⟨w, hmem⟩ | ⟨k, hmem⟩
  · cases hch
  · simp [init, Sudog.stamps] at hmem
  · simp [init, MutexState.stamps] at hmem

theorem clockInv_init (cfg : Config V T) : ClockInv (init cfg) := by
  unfold ClockInv
  rw [stored_init]
  refine Causal.Inv.init fun p q hpq => ?_
  show (VectorClock.Clock.start q).get p < (VectorClock.Clock.start p).get p
  rw [VectorClock.Clock.get_start, VectorClock.Clock.get_start, if_neg hpq, if_pos rfl]
  exact Nat.one_pos

/-- **The clock invariant holds in every reachable state.** -/
theorem clockInv (h : Reachable cfg s) : ClockInv s := by
  have hboth : Base s ∧ ClockInv s :=
    h.invariant (clockInv_init cfg) fun _ _ _ hB hm hI => (hm.clockSteps hB).invariant hI
  exact hboth.2

/-! ## §7. Clocks only grow -/

/-- No clock of a goroutine is smaller in `t`. -/
structure ClocksGrow (s t : Interpreter V T) : Prop where
  spawned : ∀ q, (s.goroutines q).spawned = true → (t.goroutines q).spawned = true
  clock : ∀ q, (s.goroutines q).spawned = true → (s.clockOf q).get ≤ (t.clockOf q).get

theorem ClocksGrow.refl (s : Interpreter V T) : ClocksGrow s s := ⟨fun _ h => h, fun _ _ => le_refl _⟩

theorem ClocksGrow.trans {u : Interpreter V T} (h₁ : ClocksGrow s t) (h₂ : ClocksGrow t u) :
    ClocksGrow s u where
  spawned q hq := h₂.spawned q (h₁.spawned q hq)
  clock q hq := (h₁.clock q hq).trans (h₂.clock q (h₁.spawned q hq))

/-- A goroutine that is there stays. -/
theorem Micro.spawned (h : Micro cfg s o t) {q : Gid} (hq : (s.goroutines q).spawned = true) :
    (t.goroutines q).spawned = true := by
  have hone {u : Interpreter V T} {g : Gid} {c : Clock} (hu : (u.goroutines q).spawned = true) :
      ((u.setClock g c).goroutines q).spawned = true := (setClock_spawned ..).trans hu
  have hwait {g : Gid} {wt : Option (Wait V T)} :
      ((s.setWait g wt).goroutines q).spawned = true := (setWait_spawned ..).trans hq
  have hexit {g : Gid} :
      ((s.modify g fun r => { r with exited := true }).goroutines q).spawned = true :=
    (modify_field Goroutine.spawned s g q (f := fun r => { r with exited := true })
      fun _ => rfl).trans hq
  have hchild {g : Gid} {r : Goroutine V T} (hr : r.spawned = true) :
      ((s.modify g fun _ => r).goroutines q).spawned = true := by
    rw [modify_goroutines, Function.update_apply]
    split
    · exact hr
    · exact hq
  cases h with
  | quiet h => exact (h.spawned q).trans hq
  | access | makeChan | notify | recvRefill | addCounter | refuse => exact hq
  | fork | memberFork => exact hone (hchild rfl)
  | exit => exact hexit
  | memberExit => exact hone hexit
  | park | parkSelect | unpark | abandonOffer | withdraw => exact hwait
  | parkOffer => exact hone hwait
  | wakeUp => exact hone (hone hwait)
  | offer | recvClosed | close | unlock | rUnlock | signal | done => exact hone hq
  | _ => exact hone (hone hq)

/-- A clock step lowers no clock. -/
theorem ClockStep.le (h : ClockStep s t) (q : Gid) : (s.clockOf q).get ≤ (t.clockOf q).get := by
  cases h with
  | access h => rw [h]; exact le_refl _
  | quiet _ hclk => rw [hclk]
  | @fork g child group c hne hborn htr hother hself hchild =>
    by_cases hq : q = g
    · subst hq
      exact le_of_tick (.inr hself)
    · by_cases hc : q = child
      · subst hc
        rw [hchild, hborn]
        exact VectorClock.Clock.le_merge_left _ _
      · rw [hother q hq hc]
  | @sync g acq k src pub c hc hacq hk htr hother hself =>
    by_cases hq : q = g
    · subst hq
      exact (hc ▸ le_foldl_mergeStamp acq _ : (s.clockOf q).get ≤ c.get).trans (le_of_tick hself)
    · rw [hother q hq]

theorem ClockSteps.le (h : ClockSteps s t) (q : Gid) :
    (s.clockOf q).get ≤ (t.clockOf q).get := by
  induction h with
  | refl => exact le_refl _
  | tail _ h ih => exact ih.trans (h.le q)

/-- **Every part keeps or raises every clock.** -/
theorem Micro.clocksGrow (hB : Base s) (h : Micro cfg s o t) : ClocksGrow s t :=
  ⟨fun _ hq => h.spawned hq, fun q _ => (h.clockSteps hB).le q⟩

/-- An entry of the trace has at most the clock its goroutine has now. -/
def EntriesBelow (s : Interpreter V T) : Prop :=
  ∀ e ∈ s.trace, (s.goroutines e.gid).spawned = true ∧ e.after.get ≤ (s.clockOf e.gid).get

theorem EntriesBelow.grow (hI : EntriesBelow s) (h : ClocksGrow s t) (htr : t.trace = s.trace) :
    EntriesBelow t := by
  intro e he
  obtain ⟨hsp, hle⟩ := hI e (htr ▸ he)
  exact ⟨h.spawned _ hsp, hle.trans (h.clock _ hsp)⟩

/-- A new entry has the clock its goroutine has after the operation. -/
theorem EntriesBelow.entry (hI : EntriesBelow s) (h : ClocksGrow s t) {e : Event V T}
    (htr : t.trace = s.trace ++ [e]) (hsp : (s.goroutines e.gid).spawned = true)
    (he : e.after = t.clockOf e.gid) : EntriesBelow t := by
  intro x hx
  rw [htr, List.mem_append, List.mem_singleton] at hx
  rcases hx with hx | rfl
  · obtain ⟨hsp, hle⟩ := hI x hx
    exact ⟨h.spawned _ hsp, hle.trans (h.clock _ hsp)⟩
  · exact ⟨h.spawned _ hsp, le_of_eq (congrArg _ he)⟩

theorem EntriesBelow.micro (hI : EntriesBelow s) (hB : Base s) (h : Micro cfg s o t) :
    EntriesBelow t := by
  have hgrow := h.clocksGrow hB
  cases h with
  | quiet h => exact hI.grow hgrow h.trace
  | makeChan | notify | exit | park | parkSelect | unpark | addCounter | refuse =>
    exact hI.grow hgrow rfl
  | fork site h | memberFork site h | memberExit h | parkOffer val h | access h | offer h | claimSend val h | claimRecv h | wakeUp ticks h
  | abandonOffer h | withdraw h | bufferedSend val h | recvBuffered h | recvRefill h
  | recvClosed elem h | close h | lock p h | rLock p h | unlock p h | rUnlock p h | signal p h
  | condWait p h | groupWait p h | done p h => exact hI.entry hgrow rfl h.1 rfl

/-- What a step of the machine keeps of the two. -/
theorem Step.grow {a : Action V T} (hB : Base s) (hE : EntriesBelow s) (h : Step cfg s a t) :
    Base t ∧ EntriesBelow t ∧ ClocksGrow s t := by
  refine (step_micros hB.fits h).invariant
    (P := fun u => Base u ∧ EntriesBelow u ∧ ClocksGrow s u) ?_ ⟨hB, hE, .refl s⟩
  rintro u _ v hm ⟨hBu, hEu, hgrow⟩
  exact ⟨hBu.micro hm, hEu.micro hBu hm, hgrow.trans (hm.clocksGrow hBu)⟩

theorem entriesBelow_init (cfg : Config V T) : EntriesBelow (init cfg) := nofun

/-! ## §8. Clocks are handed on -/

/-- The clock `c` that goroutine `h` had before entry `n` is in the clock of
everyone who is causally after what `h` has done since. -/
def CarriedFrom (s : Interpreter V T) (h : Gid) (n : Nat) (c : Clock) : Prop :=
  Causal.Carried h n c.get s.clk {x | ∃ st, s.Stored st ∧ st.snapshot = x} (s.trace.map Event.entry)

theorem carriedFrom_start (s : Interpreter V T) (h : Gid) :
    s.CarriedFrom h s.trace.length (s.clockOf h) := by
  have hC := Causal.Carried.start s.clk {x | ∃ st, s.Stored st ∧ st.snapshot = x}
    (s.trace.map Event.entry) h
  rwa [List.length_map] at hC

/-- A published clock has at least the clocks it was made from. -/
theorem Publishes.le {c : Clock} {st : Stamp} (h : s.Publishes c st) : c.get ≤ st.clock.get ∧
    ∀ k ∈ st.src, k = s.trace.length ∨
      ∃ o, s.Stored o ∧ k ∈ o.src ∧ o.clock.get ≤ st.clock.get := by
  rcases h with rfl | ⟨o, ho, rfl⟩
  · exact ⟨le_refl _, fun k hk => .inl (List.mem_singleton.mp hk)⟩
  · refine ⟨VectorClock.Clock.le_merge_right _ _, fun k hk => ?_⟩
    rcases List.mem_append.mp hk with hk | hk
    · exact .inr ⟨o, ho, hk, VectorClock.Clock.le_merge_left _ _⟩
    · exact .inl (List.mem_singleton.mp hk)

theorem CarriedFrom.step {q : Gid} {n : Nat} {d : Clock} (hC : s.CarriedFrom q n d)
    (hI : ClockInv s) (h : ClockStep s t) : t.CarriedFrom q n d := by
  have hgrow : ∀ q, s.clk q ≤ t.clk q := h.le
  unfold CarriedFrom at hC ⊢
  cases h with
  | access h =>
    subst h
    rw [log_trace, List.map_append, List.map_singleton]
    exact hC.entry hI.src_lt (le_refl _) nofun hgrow (le_refl _) nofun fun _ => .inl
  | quiet htr hclk hst =>
    rw [htr, clk_eq hclk]
    exact hC.mono (snapshots_subset hst)
  | @fork g child group c hne hborn htr hother hself hchild hst =>
    rw [htr, List.map_append, List.map_singleton]
    refine hC.entry hI.src_lt (le_refl (s.clk g)) nofun hgrow (hgrow g) ?_
      fun x hx => .inl (snapshots_subset hst hx)
    rintro _ ⟨⟩
    show _ ≤ (t.clockOf child).get
    rw [hchild]
    exact VectorClock.Clock.le_merge_right _ _
  | @sync g acq k src pub c hc hacq hk htr hother hself hst =>
    rw [htr, List.map_append, List.map_singleton]
    refine hC.entry (m := c.get) hI.src_lt (hc ▸ le_foldl_mergeStamp acq _) ?_ hgrow
      (le_of_tick hself) ?_ ?_
    · intro i hi
      obtain ⟨st, hst, hi⟩ := (hacq.src i).mp hi
      exact ⟨st.snapshot, ⟨st, hacq.stored st hst, rfl⟩, hi, hc ▸ stamp_le_foldl_mergeStamp _ hst⟩
    · intro child hf
      rw [show k.forks = some child from hf] at hk
      cases hk.2
    · rintro x ⟨st, hstored, rfl⟩
      rcases hst st hstored with hold | ⟨-, hpub⟩
      · exact .inl ⟨st, hold, rfl⟩
      · refine .inr ⟨hpub.le.1, fun i hi => ?_⟩
        rw [List.length_map]
        rcases hpub.le.2 i hi with hi | ⟨o, ho, hi, hle⟩
        · exact .inl hi
        · exact .inr ⟨o.snapshot, ⟨o, ho, rfl⟩, hi, hle⟩

/-- What a step of the machine keeps of it. -/
theorem Step.carried {a : Action V T} (hB : Base s) (hI : ClockInv s) (h : Step cfg s a t) :
    ClockInv t ∧ ∀ q n d, s.CarriedFrom q n d → t.CarriedFrom q n d := by
  refine ((step_micros hB.fits h).invariant
    (P := fun u => Base u ∧ ClockInv u ∧ ∀ q n d, s.CarriedFrom q n d → u.CarriedFrom q n d) ?_
    ⟨hB, hI, fun _ _ _ hC => hC⟩).2
  rintro u _ v hm ⟨hBu, hIu⟩
  refine ⟨hBu.micro hm, ?_⟩
  have hsteps := hm.clockSteps hBu
  clear hm
  induction hsteps with
  | refl => exact hIu
  | tail _ hst ih => exact ⟨ih.1.step hst, fun q n d hC => (ih.2 q n d hC).step ih.1 hst⟩

end Rules

end Interpreter

end Giri.Interp
