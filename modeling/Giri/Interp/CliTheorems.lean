/-
Giri.Interp.CliTheorems — seeded runs replay, if nothing shows the host.

Under two hosts package-level variables have different IDs; the worlds are
the SAME if every reference leads to the same cell (`World.Same`). Commands
keep that, and an error shows an ID only if it names a variable (`Orderly`).
`Finish` adds errors in the order of two more loops over maps (`Settled`).

`seeded_runs_replay` puts them together, for one run and for the seeds that
`RunN` hands out.
-/
import Giri.Interp.Cli
import Giri.Interp.TablesTheorems

namespace Giri.Cli

open HostMap (Host)
open Effect (Handler Machine Prog)
open Sched (Scheduler Strategy)
open Session (Recorded)
open Tables (Err)

/-! ## §1. Allocations -/

section

variable {Fl St V M γ G D : Type} [DecidableEq G]

variable {w : World Fl St V M γ G D}

namespace World

theorem resolve_global_eq_some {g : G} {id : Nat} :
    w.resolve (.global g) = some id ↔ g ∈ w.globals ∧ w.globals.idxOf g + 1 = id := by
  simp [resolve]

theorem resolve_alloc_eq_some {k id : Nat} :
    w.resolve (.alloc k) = some id ↔ k < w.allocated ∧ w.globals.length + k + 1 = id := by
  simp [resolve]

/-- The IDs of package-level variables come first. -/
theorem resolve_global_le {g : G} {id : Nat} (hr : w.resolve (.global g) = some id) :
    id ≤ w.globals.length := by
  obtain ⟨hg, hid⟩ := resolve_global_eq_some.mp hr
  have hlt := List.idxOf_lt_length_of_mem hg
  omega

theorem resolve_le {r : Ref G} {id : Nat} (hr : w.resolve r = some id) :
    id ≤ w.globals.length + w.allocated := by
  cases r with
  | global =>
    have hle := resolve_global_le hr
    omega
  | alloc =>
    obtain ⟨hk, hid⟩ := resolve_alloc_eq_some.mp hr
    omega

/-- Different references have different IDs. -/
theorem resolve_inj {r r' : Ref G} {id : Nat} (hr : w.resolve r = some id)
    (hr' : w.resolve r' = some id) : r = r' := by
  cases r with
  | global g =>
    cases r' with
    | global g' =>
      obtain ⟨hg, hid⟩ := resolve_global_eq_some.mp hr
      obtain ⟨hg', hid'⟩ := resolve_global_eq_some.mp hr'
      have hidx : w.globals.idxOf g = w.globals.idxOf g' := by omega
      exact congrArg Ref.global ((List.idxOf_inj hg).mp hidx)
    | alloc =>
      have hle := resolve_global_le hr
      obtain ⟨-, hid⟩ := resolve_alloc_eq_some.mp hr'
      omega
  | alloc k =>
    obtain ⟨-, hid⟩ := resolve_alloc_eq_some.mp hr
    cases r' with
    | global =>
      have hle := resolve_global_le hr'
      omega
    | alloc k' =>
      obtain ⟨-, hid'⟩ := resolve_alloc_eq_some.mp hr'
      have hk : k = k' := by omega
      exact congrArg Ref.alloc hk

theorem load_setCell_self {r : Ref G} {id : Nat} (hr : w.resolve r = some id) (d : D) :
    (w.setCell id d).load r = some d := by
  show (w.resolve r).bind (Function.update w.cells id (some d)) = some d
  rw [hr]
  exact Function.update_self id (some d) w.cells

theorem load_setCell_ne {r r' : Ref G} {id : Nat} (hr : w.resolve r = some id) (hne : r' ≠ r)
    (d : D) : (w.setCell id d).load r' = w.load r' := by
  show (w.resolve r').bind (Function.update w.cells id (some d)) = (w.resolve r').bind w.cells
  cases hr' : w.resolve r' with
  | none => rfl
  | some id' =>
    have hid : id' ≠ id := fun heq => hne (resolve_inj (heq ▸ hr') hr)
    exact Function.update_of_ne hid (some d) w.cells

theorem load_allocate_self (w : World Fl St V M γ G D) (d : D) :
    (w.allocate d).load (.alloc w.allocated) = some d := by
  have hr : (w.allocate d).resolve (.alloc w.allocated) =
      some (w.globals.length + w.allocated + 1) := if_pos (Nat.lt_succ_self _)
  show ((w.allocate d).resolve _).bind _ = _
  rw [hr]
  exact Function.update_self (w.globals.length + w.allocated + 1) (some d) w.cells

/-- A new allocation has an ID that no reference had. -/
theorem load_allocate_ne {r : Ref G} (hne : r ≠ .alloc w.allocated) (d : D) :
    (w.allocate d).load r = w.load r := by
  have hr : (w.allocate d).resolve r = w.resolve r := by
    cases r with
    | global => rfl
    | alloc k =>
      have hk : k ≠ w.allocated := fun heq => hne (congrArg Ref.alloc heq)
      have hiff : k < w.allocated + 1 ↔ k < w.allocated := by omega
      show (if k < w.allocated + 1 then _ else _) = if k < w.allocated then _ else _
      simp only [hiff]
      rfl
  show ((w.allocate d).resolve r).bind _ = (w.resolve r).bind w.cells
  rw [hr]
  cases hid : w.resolve r with
  | none => rfl
  | some =>
    have hnew := Nat.ne_of_lt (Nat.lt_succ_of_le (resolve_le hid))
    exact Function.update_of_ne hnew (some d) w.cells

/-- The same cell at the end of every reference. -/
structure Same (w w' : World Fl St V M γ G D) : Prop where
  tables : w.tables.Same w'.tables
  globals : w.globals.Perm w'.globals
  allocated : w'.allocated = w.allocated
  cells : ∀ r, w'.load r = w.load r

namespace Same

variable {w w' : World Fl St V M γ G D} (hw : w.Same w')

include hw

/-- The two IDs of a reference. -/
theorem resolve_cases (r : Ref G) :
    (w.resolve r = none ∧ w'.resolve r = none) ∨
      ∃ id id', w.resolve r = some id ∧ w'.resolve r = some id' := by
  cases r with
  | global g =>
    by_cases hg : g ∈ w.globals
    · exact .inr ⟨_, _, if_pos hg, if_pos (hw.globals.mem_iff.mp hg)⟩
    · exact .inl ⟨if_neg hg, if_neg fun hg' => hg (hw.globals.mem_iff.mpr hg')⟩
  | alloc k =>
    by_cases hk : k < w.allocated
    · exact .inr ⟨_, _, if_pos hk, if_pos (hw.allocated ▸ hk)⟩
    · exact .inl ⟨if_neg hk, if_neg (hw.allocated ▸ hk)⟩

theorem resolve_alloc (k : Nat) : w'.resolve (.alloc k) = w.resolve (.alloc k) := by
  simp [resolve, hw.allocated, hw.globals.length_eq]

theorem resolve_of_few (hfew : w.globals.length ≤ 1) (r : Ref G) : w'.resolve r = w.resolve r := by
  cases r with
  | global =>
    have heq := Host.eq_of_perm_of_length_le_one hw.globals hfew
    simp [resolve, heq]
  | alloc k => exact hw.resolve_alloc k

theorem store (r : Ref G) (d : D) : (w.store r d).Same (w'.store r d) := by
  rcases hw.resolve_cases r with ⟨hr, hr'⟩ | ⟨id, id', hr, hr'⟩
  · unfold World.store
    rw [hr, hr']
    exact hw
  · have hstore : w.store r d = w.setCell id d := by
      unfold World.store
      rw [hr]
    have hstore' : w'.store r d = w'.setCell id' d := by
      unfold World.store
      rw [hr']
    rw [hstore, hstore']
    refine { hw with cells := fun r₁ => ?_ }
    -- the cell of another reference has another ID, in both worlds
    by_cases heq : r₁ = r
    · subst heq
      rw [load_setCell_self hr, load_setCell_self hr']
    · rw [load_setCell_ne hr heq, load_setCell_ne hr' heq]
      exact hw.cells r₁

theorem allocate (d : D) : (w.allocate d).Same (w'.allocate d) := by
  refine ⟨hw.tables, hw.globals, congrArg (· + 1) hw.allocated, fun r => ?_⟩
  by_cases heq : r = .alloc w.allocated
  · subst heq
    rw [load_allocate_self, ← hw.allocated, load_allocate_self]
  · rw [load_allocate_ne heq, load_allocate_ne (by rw [hw.allocated]; exact heq)]
    exact hw.cells r

end Same

end World

/-! ## §2. Commands -/

section

variable {X K : Type}

/-- An error that names an allocation other than a package-level variable. -/
def Unnamed (globals : Nat) : Recorded (Err (Other X)) K → Prop
  | ⟨.other (.about _ id), _⟩ => globals < id ∨ globals ≤ 1
  | _ => True

instance (globals : Nat) (r : Recorded (Err (Other X)) K) : Decidable (Unnamed globals r) := by
  unfold Unnamed
  split <;> infer_instance

/-- The host has not been seen so far: not by the loops over tables, and not
in the ID of a package-level variable. -/
structure Orderly (w : World Fl St V M γ G D) (log : List (Recorded (Err (Other X)) K)) : Prop where
  tables : Tables.Orderly w.tables log
  unnamed : ∀ r ∈ log, Unnamed w.globals.length r

instance (w : World Fl St V M γ G D) (log : List (Recorded (Err (Other X)) K)) :
    Decidable (Orderly w log) :=
  decidable_of_iff (Tables.Orderly w.tables log ∧ ∀ r ∈ log, Unnamed w.globals.length r)
    ⟨fun h => ⟨h.1, h.2⟩, fun h => ⟨h.tables, h.unnamed⟩⟩

omit [DecidableEq G] in
theorem Orderly.log_back {log rs : List (Recorded (Err (Other X)) K)}
    (hgood : Orderly w (log ++ rs)) : Orderly w log :=
  ⟨hgood.tables.log_back, fun r hr => hgood.unnamed r (List.mem_append_left _ hr)⟩

variable [LinearOrder Fl] [LinearOrder St] {rand : Sched.Rand γ} {cfg : Config}

/-- A command that shows nothing now has shown nothing before. -/
theorem handle_back (h : Host) (q : Query Fl St V M X K G D) (w : World Fl St V M γ G D)
    (log : List (Recorded (Err (Other X)) K))
    (hgood : Orderly (handle rand cfg h q w).2.1 (log ++ (handle rand cfg h q w).2.2)) :
    Orderly w log := by
  cases q with
  | table q =>
    exact ⟨(Tables.handle_simulates h h).back q w.tables log hgood.tables, hgood.log_back.unnamed⟩
  | load | violationAt => exact hgood.log_back
  | store r d =>
    have hstore : (w.store r d).tables = w.tables ∧ (w.store r d).globals = w.globals := by
      unfold World.store
      split <;> exact ⟨rfl, rfl⟩
    have hback : Orderly (w.store r d) log := hgood.log_back
    exact ⟨hstore.1 ▸ hback.tables, hstore.2 ▸ hback.unnamed⟩
  | allocate => exact ⟨hgood.log_back.tables, hgood.log_back.unnamed⟩

/-- **A command is answered alike by all hosts.** -/
theorem World.Same.handle {w' : World Fl St V M γ G D} (hw : w.Same w') (h h' : Host)
    (q : Query Fl St V M X K G D) {log : List (Recorded (Err (Other X)) K)}
    (hgood : Orderly (Cli.handle rand cfg h q w).2.1 (log ++ (Cli.handle rand cfg h q w).2.2)) :
    (Cli.handle rand cfg h' q w').1 = (Cli.handle rand cfg h q w).1 ∧
      (Cli.handle rand cfg h q w).2.1.Same (Cli.handle rand cfg h' q w').2.1 ∧
      (Cli.handle rand cfg h' q w').2.2 = (Cli.handle rand cfg h q w).2.2 := by
  cases q with
  | table q =>
    obtain ⟨hans, hsame, hlog⟩ := hw.tables.handle h h' q hgood.tables
    exact ⟨hans, { hw with tables := hsame }, hlog⟩
  | load r => exact ⟨hw.cells r, hw, rfl⟩
  | store r d => exact ⟨rfl, hw.store r d, rfl⟩
  | allocate d => exact ⟨hw.allocated, hw.allocate d, rfl⟩
  | violationAt x r stack =>
    refine ⟨rfl, hw, ?_⟩
    show (w'.resolve r).toList.map _ = (w.resolve r).toList.map _
    suffices hr : w'.resolve r = w.resolve r by rw [hr]
    rcases hw.resolve_cases r with ⟨hr, hr'⟩ | ⟨id, id', hr, hr'⟩
    · rw [hr, hr']
    · have hnamed : w.globals.length < id ∨ w.globals.length ≤ 1 := by
        refine hgood.unnamed ⟨.other (.about x id), some stack⟩ (List.mem_append_right _ ?_)
        show _ ∈ (w.resolve r).toList.map _
        rw [hr]
        exact List.mem_singleton.mpr rfl
      rcases hnamed with hlt | hfew
      · cases r with
        | global => exact absurd (World.resolve_global_le hr) (Nat.not_le.mpr hlt)
        | alloc k => exact hw.resolve_alloc k
      · exact hw.resolve_of_few hfew r

theorem handle_simulates (h h' : Host) :
    Handler.Simulates (Cli.handle rand cfg h : Handler (Query Fl St V M X K G D) _ _ _)
      (Cli.handle rand cfg h') World.Same Orderly where
  back q w log hgood := handle_back h q w log hgood
  step q _ _ _ hw hgood := hw.handle h h' q hgood

end

/-! ## §3. The start and the end of a run -/

omit [DecidableEq G] in
/-- The loop over the members of each package. -/
theorem flatMap_zipIdx_perm (h : Host) (packages : List (List G)) : ∀ n,
    ((packages.zipIdx n).flatMap fun p => h.order p.2 p.1).Perm packages.flatten := by
  induction packages with
  | nil => exact fun n => .refl _
  | cons members packages ih =>
    intro n
    exact (h.perm n members).append (ih (n + 1))

omit [DecidableEq G] in
theorem allocateGlobals_perm (h : Host) (packages : List (List G)) :
    (allocateGlobals h packages).Perm packages.flatten :=
  (flatMap_zipIdx_perm h _ 1).trans (h.perm 0 packages).flatten

variable {X K S : Type} {rand : Sched.Rand γ} {cfg : Config}

variable {p : Program Fl St V M X K G D S}

/-- A variable is described by itself, wherever it is. -/
theorem start_load {h : Host} (hstart : start rand cfg h p = some w) (r : Ref G) :
    w.load r = match r with
      | .global g => if g ∈ p.packages.flatten then some (p.describe g) else none
      | .alloc _ => none := by
  obtain ⟨s, -, rfl⟩ := Option.map_eq_some_iff.mp hstart
  have hperm := allocateGlobals_perm h p.packages
  cases r with
  | alloc => rfl
  | global g =>
    simp only [World.load, World.resolve, hperm.mem_iff]
    split
    · rename_i hg
      have hmem := hperm.mem_iff.mpr hg
      have hget : (allocateGlobals h p.packages)[(allocateGlobals h p.packages).idxOf g]? = some g :=
        List.getElem?_idxOf hmem
      simp [hget]
    · rfl

theorem start_same (h h' : Host) (hstart : start rand cfg h p = some w) :
    ∃ w', start rand cfg h' p = some w' ∧ w.Same w' := by
  obtain ⟨s, hs, hw⟩ := Option.map_eq_some_iff.mp hstart
  obtain ⟨w', hw'⟩ : ∃ w', start rand cfg h' p = some w' := ⟨_, Option.map_eq_some_iff.mpr ⟨s, hs, rfl⟩⟩
  refine ⟨w', hw', ?_, ?_, ?_, fun r => (start_load hw' r).trans (start_load hstart r).symm⟩
  all_goals
    obtain ⟨s', hs', rfl⟩ := Option.map_eq_some_iff.mp hw'
    subst hw
  · cases hs.symm.trans hs'
    exact ⟨.refl _, .refl _, rfl, rfl, rfl, .refl _, fun _ => Tables.GoMap.same_empty, rfl,
      fun _ => .refl _, rfl, .refl _, .refl _, rfl, rfl⟩
  · exact (allocateGlobals_perm h p.packages).trans (allocateGlobals_perm h' p.packages).symm
  · rfl

/-- At the end there is at most one entry in each table that `Finish` loops
over. -/
structure Settled (w : Tables.World Fl St V M γ) : Prop where
  arenas : (w.arenas.entries.filter fun e => !e.2.freed).length ≤ 1
  pending : w.unsafeDetector.pendingUintptrs.entries.length ≤ 1
  cancelFuncs : w.cancelFuncs.entries.length ≤ 1

instance (w : Tables.World Fl St V M γ) : Decidable (Settled w) :=
  decidable_of_iff ((w.arenas.entries.filter fun e => !e.2.freed).length ≤ 1 ∧
      w.unsafeDetector.pendingUintptrs.entries.length ≤ 1 ∧ w.cancelFuncs.entries.length ≤ 1)
    ⟨fun h => ⟨h.1, h.2.1, h.2.2⟩, fun h => ⟨h.arenas, h.pending, h.cancelFuncs⟩⟩

section Finish

variable {w w' : Tables.World Fl St V M γ} (hw : w.Same w') (h h' : Host)

include hw

omit [DecidableEq G] in
theorem arenaLeaks_eq (hone : (w.arenas.entries.filter fun e => !e.2.freed).length ≤ 1) :
    (arenaLeaks cfg h' w' : List (Err (Other X))) = arenaLeaks cfg h w := by
  have hperm : (liveArenas h w).Perm (liveArenas h' w') :=
    (h.order_perm h' w.time w'.time hw.arenas).filter _
  have hlen : (liveArenas h w).length ≤ 1 := by
    unfold liveArenas
    rw [((h.perm w.time w.arenas.entries).filter _).length_eq]
    exact hone
  unfold arenaLeaks
  rw [Host.eq_of_perm_of_length_le_one hperm hlen]

theorem pendingErrors_eq (hone : w.unsafeDetector.pendingUintptrs.entries.length ≤ 1) :
    (pendingErrors cfg h' w' : List (Err (Other X))) = pendingErrors cfg h w := by
  unfold pendingErrors
  rw [hw.checkGCPoint h h' _ fun v hv => ?_]
  -- every error says how many there are
  unfold Tables.checkGCPoint at hv
  split at hv
  · obtain ⟨e, -, rfl⟩ := List.mem_map.mp hv
    exact hone
  · cases hv

theorem checkGoroutineLeaks_eq (deadlock : Option Nat) :
    (checkGoroutineLeaks h' w' deadlock : List (Err (Other X))) = checkGoroutineLeaks h w deadlock := by
  unfold checkGoroutineLeaks
  cases deadlock with
  | some => rfl
  | none =>
    have hids := ((h.order_perm h' w.time w'.time hw.goroutines).filter fun e =>
      e.2.status == .blocked && !e.2.panicked).map (·.1)
    simp only [hw.halting, ← AList.perm_lookup hw.goroutines, Tables.sortIDs_eq_of_perm hids]

theorem cancelLeaks_eq (hone : w.cancelFuncs.entries.length ≤ 1) :
    (cancelLeaks h' w' : List (Err (Other X))) = cancelLeaks h w := by
  have hlen : (h.order w.time w.cancelFuncs.entries).length ≤ 1 := by
    rw [(h.perm w.time w.cancelFuncs.entries).length_eq]
    exact hone
  unfold cancelLeaks
  rw [Host.eq_of_perm_of_length_le_one (h.order_perm h' w.time w'.time hw.cancelFuncs) hlen]

/-- `Finish` finds the same errors. -/
theorem finish_eq (hsettled : Settled w) (deadlock : Option Nat)
    (violations : List (Recorded (Err (Other X)) K)) :
    finish cfg h' w' deadlock violations = finish cfg h w deadlock violations := by
  have hfinal : (finalErrors cfg h' w' deadlock : List (Err (Other X))) =
      finalErrors cfg h w deadlock := by
    unfold finalErrors
    rw [arenaLeaks_eq hw h h' hsettled.arenas, pendingErrors_eq hw.looped h h' hsettled.pending,
      checkGoroutineLeaks_eq hw.looped.looped h h',
      cancelLeaks_eq hw.looped.looped.looped h h' hsettled.cancelFuncs]
  unfold finish
  rw [hfinal]

end Finish

/-! ## §4. Replay -/

variable [LinearOrder Fl] [LinearOrder St]

/-- A run that does not show the host. -/
def Unseen (rand : Sched.Rand γ) (cfg : Config) (h : Host) (p : Program Fl St V M X K G D S)
    (fuel : Nat) : Prop :=
  ∀ r ∈ execution rand cfg h p fuel, Orderly r.2.1 r.2.2 ∧ Settled r.2.1.tables

instance (h : Host) (p : Program Fl St V M X K G D S) (fuel : Nat) :
    Decidable (Unseen rand cfg h p fuel) :=
  inferInstanceAs (Decidable (∀ r ∈ execution rand cfg h p fuel,
    Orderly r.2.1 r.2.2 ∧ Settled r.2.1.tables))

/-- One run. -/
theorem run_eq_of_unseen (h h' : Host) {fuel : Nat} {res : List (Recorded (Err (Other X)) K)}
    (hrun : run rand cfg h p fuel = some res) (hunseen : Unseen rand cfg h p fuel) :
    run rand cfg h' p fuel = some res := by
  obtain ⟨r, hexec, rfl⟩ := Option.map_eq_some_iff.mp hrun
  obtain ⟨hgood, hsettled⟩ := hunseen r hexec
  obtain ⟨w, hstart, hmachine⟩ := Option.bind_eq_some_iff.mp hexec
  obtain ⟨w', hstart', hw⟩ := start_same h h' hstart
  have htied : Effect.Tied World.Same ([] : List (Recorded (Err (Other X)) K)) (w, []) (w', []) :=
    ⟨hw, rfl⟩
  obtain ⟨y', hexec', hrel, hlog⟩ :=
    p.machine.exec_sim (handle_simulates h h') fuel hmachine hgood htied
  have hexecution : execution rand cfg h' p fuel = some (r.1, y') := by
    unfold execution
    rw [hstart']
    exact hexec'
  unfold run
  rw [hexecution, Option.map_some, finish_eq hrel.tables h h' hsettled]
  rw [List.nil_append] at hlog
  rw [hlog]

/-- What `RunN` finds in one run: a violation of it, with the seed if it has
a stack. -/
theorem mem_collect {texts : Texts X} {seed : Int} {f : Found X K}
    (vs : List (Recorded (Err (Other X)) K)) : ∀ {seen : List String},
      f ∈ (collect texts seed vs seen).2 →
        f.violation ∈ vs ∧ f.reproSeed = f.violation.frames.map fun _ => seed := by
  induction vs with
  | nil =>
    intro seen hf
    cases hf
  | cons v vs ih =>
    intro seen hf
    unfold collect at hf
    simp only at hf
    split at hf
    · obtain ⟨hmem, hseed⟩ := ih hf
      exact ⟨List.mem_cons_of_mem _ hmem, hseed⟩
    · rcases List.mem_cons.mp hf with rfl | hf
      · exact ⟨List.mem_cons_self, rfl⟩
      · obtain ⟨hmem, hseed⟩ := ih hf
        exact ⟨List.mem_cons_of_mem _ hmem, hseed⟩

/-- What `RunN` finds was found by one of its runs. -/
theorem mem_runLoop {texts : Texts X} {fuel : Nat} {f : Found X K} (n : Nat) :
    ∀ {hosts : Nat → Host} {g : γ} {seen : List String}
      {all : List (Found X K)}, runLoop rand cfg texts p fuel n hosts g seen = some all → f ∈ all →
      ∃ i < n, ∃ res, run rand (cfg.seeded (seedOf rand i g)) (hosts i) p fuel = some res ∧
        f.violation ∈ res ∧ f.reproSeed = f.violation.frames.map fun _ => seedOf rand i g := by
  induction n with
  | zero =>
    intro hosts g seen all hrun hf
    cases hrun
    cases hf
  | succ n ih =>
    intro hosts g seen all hrun hf
    unfold runLoop at hrun
    obtain ⟨res, hres, hrest⟩ := Option.bind_eq_some_iff.mp hrun
    obtain ⟨rest, hloop, hall⟩ := Option.bind_eq_some_iff.mp hrest
    cases hall
    rcases List.mem_append.mp hf with hf | hf
    · obtain ⟨hmem, hseed⟩ := mem_collect res hf
      exact ⟨0, Nat.succ_pos n, res, hres, hmem, hseed⟩
    · obtain ⟨i, hi, res', hres', hfound⟩ := ih hloop hf
      exact ⟨i + 1, Nat.succ_lt_succ hi, res', hres', hfound⟩

/-- **Seeded runs replay.** A run that does not show the host has the same
violations under every host; and so has the run with the seed that `RunN`
reports with a violation, for all that have a stack. -/
theorem seeded_runs_replay (rand : Sched.Rand γ) (p : Program Fl St V M X K G D S) (cfg : Config)
    (fuel : Nat) :
    (∀ h h' res, run rand cfg h p fuel = some res → Unseen rand cfg h p fuel →
      run rand cfg h' p fuel = some res) ∧
    ∀ (texts : Texts X) (n : Nat) (seed : Int) (hosts : Nat → Host) (all : List (Found X K)),
      runN rand cfg texts p fuel n seed hosts = some all →
      (∀ i < n, Unseen rand (cfg.seeded (seedOf rand i (rand.newSource seed))) (hosts i) p fuel) →
      ∀ f ∈ all, f.violation.frames.isSome = true → ∃ s, f.reproSeed = some s ∧
        ∀ h', ∃ res, run rand (cfg.seeded s) h' p fuel = some res ∧
          ∃ v ∈ res, message texts v.err = message texts f.violation.err := by
  refine ⟨fun h h' res hrun hunseen => run_eq_of_unseen h h' hrun hunseen, ?_⟩
  intro texts n seed hosts all hrun hunseen f hf hstack
  obtain ⟨i, hi, res, hres, hmem, hseed⟩ := mem_runLoop n hrun hf
  obtain ⟨frames, hframes⟩ := Option.isSome_iff_exists.mp hstack
  rw [hframes] at hseed
  refine ⟨_, hseed, fun h' => ⟨res, ?_, f.violation, hmem, rfl⟩⟩
  exact run_eq_of_unseen (hosts i) h' hres (hunseen i hi)

end

/-! ## §5. Programs that show the host -/

section

/-- A generator that counts. -/
def counting : Sched.Rand Nat where
  newSource seed := seed.toNat
  int63 g := (g, g + 1)
  int g := (g, g + 1)
  int63n n g := (g % n, g + 1)
  intn n g := (g % n, g + 1)

/-- Values and keys are numbers, errors and variables are names. -/
abbrev TextQuery : Type := Query Int Nat Unit Unit String (List String) String Unit

abbrev TextProgram : Type := Program Int Nat Unit Unit String (List String) String Unit Nat

/-- A main function without branches, in a package with the variables
`globals`. -/
def script (code : List (Prog TextQuery Answer Unit)) (globals : List String) (hnd : globals.Nodup)
    (deadlock : Option Nat) : TextProgram where
  machine :=
    { initial := 0
      next := fun i => code[i]?.map (·.map fun _ => i + 1) }
  deadlock _ := deadlock
  packages := [globals]
  nodup := by simpa using hnd
  describe _ := ()
  memory := ()

def plainTexts : Texts String where
  plain x := x
  about x alloc := x ++ " (alloc " ++ toString alloc ++ ")"

/-- A data race on the first of two package-level variables. -/
def raceOnGlobal : TextProgram :=
  script [.call (.violationAt "data race on *int" (.global "x") ["main.main"]) fun _ => .done ()]
    ["x", "y"] (by decide) none

/-- `for k := range map[int]struct{}{1: {}, 2: {}}`, with an error in the first
iteration that depends on `k`. -/
def rangeFirst : TextProgram :=
  script
    [.call (.table .makeMap) fun _ => .call (.table (.mapUpdate 0 (some (.int 1)) ())) fun _ =>
      .call (.table (.mapUpdate 0 (some (.int 2)) ())) fun _ => .done (),
     .call (.table (.rangeKeys 0)) fun keys =>
      .call (.table (.violation (.plain
        (if (keys : List (Option (Tables.MapKey Int Nat))).head? = some (some (.int 1)) then
          "division by zero at main.go:7" else "nil pointer dereference at main.go:9"))
        (some ["main.main"]))) fun _ => .done ()]
    [] (by decide) none

/-- Every goroutine is asleep. -/
def asleep : TextProgram :=
  script [] [] (by decide) (some 1)

/-- Two runs with one configuration have different violations, once because of
an ID and once because of a range over a map, and `RunN` reports a deadlock
without a seed. -/
theorem seeded_runs_differ :
    (run counting {} Host.listed raceOnGlobal 9).map (·.map (message plainTexts ·.err)) =
        some ["data race on *int (alloc 1)"] ∧
      (run counting {} Host.reversed raceOnGlobal 9).map (·.map (message plainTexts ·.err)) =
        some ["data race on *int (alloc 2)"] ∧
      (run counting {} Host.listed rangeFirst 9).map (·.map (message plainTexts ·.err)) ≠
        (run counting {} Host.reversed rangeFirst 9).map (·.map (message plainTexts ·.err)) ∧
      (runN counting {} plainTexts asleep 9 1 0 fun _ => Host.listed).map
        (·.map fun f => (f.violation.err, f.reproSeed)) = some [(.other (.deadlock 1), none)] := by
  decide +kernel

/-- A program with a violation, a range over a map with one key, and an
allocation that is named by an error. -/
def orderly : TextProgram :=
  script
    [.call (.table .makeMap) fun _ => .call (.table (.mapUpdate 0 (some (.int 1)) ())) fun _ =>
      .call (.table (.rangeKeys 0)) fun _ => .done (),
     .call (.allocate ()) fun k =>
      .call (.violationAt "use after free" (.alloc k) ["main.main"]) fun _ => .done ()]
    ["x", "y"] (by decide) none

theorem seeded_runs_replay_orderly :
    (run counting {} Host.listed orderly 9).map (·.map (message plainTexts ·.err)) =
        some ["use after free (alloc 3)"] ∧
      run counting {} Host.reversed orderly 9 = run counting {} Host.listed orderly 9 ∧
      ∃ f s, runN counting {} plainTexts orderly 9 1 5 (fun _ => Host.listed) = some [f] ∧
        f.reproSeed = some s ∧ ∀ h', ∃ res, run counting (Config.seeded {} s) h' orderly 9 = some res ∧
          ∃ v ∈ res, message plainTexts v.err = message plainTexts f.violation.err := by
  obtain ⟨hrun, hrunN⟩ := seeded_runs_replay counting orderly {} 9
  have hlen : (runN counting {} plainTexts orderly 9 1 5 fun _ => Host.listed).map
      (·.map (·.violation.frames.isSome)) = some [true] := by decide +kernel
  refine ⟨by decide +kernel, ?_, ?_⟩
  · have hsome : (run counting {} Host.listed orderly 9).isSome = true := by decide +kernel
    obtain ⟨res, hres⟩ := Option.isSome_iff_exists.mp hsome
    rw [hres]
    exact hrun Host.listed Host.reversed res hres (by decide +kernel)
  · obtain ⟨all, hall, hstack⟩ := Option.map_eq_some_iff.mp hlen
    obtain ⟨f, rfl, hframes⟩ := List.map_eq_singleton_iff.mp hstack
    have hunseen : ∀ i < 1, Unseen counting
        (Config.seeded {} (seedOf counting i (counting.newSource 5))) Host.listed orderly 9 := by
      decide +kernel
    obtain ⟨s, hs, hreplay⟩ :=
      hrunN plainTexts 1 5 (fun _ => Host.listed) _ hall hunseen f List.mem_cons_self hframes
    exact ⟨f, s, hall, hs, hreplay⟩

end

end Giri.Cli
