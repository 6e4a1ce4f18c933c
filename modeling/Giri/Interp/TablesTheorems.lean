/-
Giri.Interp.TablesTheorems — which loops over maps the host can be seen in.

Two tables are the SAME if they have the same entries (`World.Same`). Every
command leads from the same tables to the same tables and has the same
answer, whatever the two hosts choose, with two exceptions: the errors of
several pending conversions come in the host's order, and keys that can't be
sorted do (`Orderly`).
-/
import Giri.Interp.Tables
import Giri.Session.EngineTheorems

namespace Giri.Tables

open HostMap (Host)
open Detector (UnsafeDetector UnsafePointerViolation)
open Sched (Scheduler)
open Session (Recorded Env)
open Effect (Handler)

/-! ## §1. Sorting -/

section Keys

variable {Fl St : Type} [LinearOrder Fl] [LinearOrder St]

/-- Without NaNs the comparison of keys is a linear order. -/
theorem keyLess_linear :
    HostMap.Linear (fun a b : Option (MapKey Fl St) => keyLess a b) (·.isSome) where
  asymm a b ha hb hlt := by
    obtain ⟨a, rfl⟩ := Option.isSome_iff_exists.mp ha
    obtain ⟨b, rfl⟩ := Option.isSome_iff_exists.mp hb
    cases a <;> cases b <;> simp_all [keyLess, rank, le_of_lt]
  trans a b c ha hb hc hab hbc := by
    obtain ⟨a, rfl⟩ := Option.isSome_iff_exists.mp ha
    obtain ⟨b, rfl⟩ := Option.isSome_iff_exists.mp hb
    obtain ⟨c, rfl⟩ := Option.isSome_iff_exists.mp hc
    cases a <;> cases b <;> simp [keyLess, rank] at hab ⊢ <;>
      cases c <;> simp [keyLess, rank] at hbc ⊢
    · grind
    · exact hbc.trans hab
    · exact hbc.trans hab
    · exact hbc.trans hab
  total a b ha hb hab hba := by
    obtain ⟨a, rfl⟩ := Option.isSome_iff_exists.mp ha
    obtain ⟨b, rfl⟩ := Option.isSome_iff_exists.mp hb
    cases a with
    | bool x => cases b <;> cases x <;> simp_all [keyLess, rank]
    | nil => cases b <;> simp_all [keyLess, rank]
    | int x | float x | str x =>
      cases b <;> simp [keyLess, rank] at hab hba ⊢
      exact le_antisymm hba hab

theorem sortMapKeys_eq_of_perm {l l' : List (Option (MapKey Fl St))}
    (hp : ∀ k ∈ l, k.isSome = true) (hl : l.Perm l') : sortMapKeys l = sortMapKeys l' :=
  HostMap.sortStable_eq_of_perm keyLess_linear hp hl

end Keys

theorem sortIDs_eq_of_perm {l l' : List Gid} (hl : l.Perm l') :
    World.sortIDs l = World.sortIDs l' := by
  have hlinear : HostMap.Linear (fun a b : Gid => decide (a < b)) (fun _ => True) := by
    constructor
    · intro a b _ _ hab
      simp only [decide_eq_true_eq, decide_eq_false_iff_not] at *
      exact not_lt_of_gt hab
    · intro a b c _ _ _ hab hbc
      simp only [decide_eq_false_iff_not, not_lt] at *
      exact hbc.trans hab
    · intro a b _ _ hab hba
      simp only [decide_eq_false_iff_not, not_lt] at *
      exact le_antisymm hba hab
  exact HostMap.sortStable_eq_of_perm hlinear (fun _ _ => trivial) hl

/-! ## §2. Interpreted maps -/

namespace GoMap

variable {Fl St V : Type}

/-- The same entries. -/
structure Same (m m' : GoMap Fl St V) : Prop where
  entries : m.entries.entries.Perm m'.entries.entries
  nans : m'.nans = m.nans

theorem same_empty : ({} : GoMap Fl St V).Same {} := ⟨.refl _, rfl⟩

variable {m m' : GoMap Fl St V}

theorem Same.size (hm : m.Same m') : m'.size = m.size := by
  unfold GoMap.size
  rw [hm.entries.length_eq, hm.nans]

theorem Same.keys (hm : m.Same m') : m.keys.Perm m'.keys := by
  unfold GoMap.keys
  rw [hm.nans]
  exact ((HostMap.keys_perm hm.entries).map some).append_right _

theorem length_keys (m : GoMap Fl St V) : m.keys.length = m.size := by
  simp [GoMap.keys, GoMap.size, AList.keys, List.keys]

variable [DecidableEq Fl] [DecidableEq St]

theorem Same.lookup (hm : m.Same m') (k : Option (MapKey Fl St)) : m'.lookup k = m.lookup k := by
  cases k with
  | none => rfl
  | some => exact (AList.perm_lookup hm.entries).symm

theorem Same.update (hm : m.Same m') (k : Option (MapKey Fl St)) (v : V) :
    (m.update k v).Same (m'.update k v) := by
  cases k with
  | none => exact ⟨hm.entries, congrArg (· + 1) hm.nans⟩
  | some => exact ⟨AList.perm_insert hm.entries, hm.nans⟩

theorem Same.delete (hm : m.Same m') (k : Option (MapKey Fl St)) :
    (m.delete k).Same (m'.delete k) := by
  cases k with
  | none => exact hm
  | some => exact ⟨AList.perm_erase hm.entries, hm.nans⟩

/-- Deletions don't reach the NaN keys. -/
theorem foldl_delete (ks : List (Option (MapKey Fl St))) : ∀ m : GoMap Fl St V,
    ks.foldl (fun m k => m.delete k) m =
      { m with entries := HostMap.eraseAll m.entries (ks.filterMap id) } := by
  induction ks with
  | nil => intro m; rfl
  | cons k ks ih =>
    intro m
    rw [List.foldl_cons, ih]
    cases k with
    | none | some => rfl

theorem Same.clear (hm : m.Same m') (h h' : Host) (n : Nat) : (m.clear h n).Same (m'.clear h' n) := by
  unfold GoMap.clear
  rw [foldl_delete, foldl_delete]
  exact ⟨HostMap.eraseAll_perm hm.entries ((h.order_perm h' n n hm.keys).filterMap id), hm.nans⟩

theorem Same.copyFrom {src src' : GoMap Fl St V} (hm : m.Same m') (hsrc : src.Same src')
    (h h' : Host) (n : Nat) : (m.copyFrom h n src).Same (m'.copyFrom h' n src') where
  entries := HostMap.updateAll_perm _ hm.entries
    ((List.perm_nodupKeys (h.perm n _)).mpr src.entries.nodupKeys) (h.order_perm h' n n hsrc.entries)
  nans := by
    show m'.nans + src'.nans = m.nans + src.nans
    rw [hm.nans, hsrc.nans]

end GoMap

/-! ## §3. The tables -/

namespace World

variable {Fl St V M γ : Type}

/-- The same entries in every table, and the same number of loops so far. -/
structure Same (w w' : World Fl St V M γ) : Prop where
  goroutines : w.goroutines.entries.Perm w'.goroutines.entries
  hosts : w.hosts.entries.Perm w'.hosts.entries
  runQueue : w'.runQueue = w.runQueue
  halting : w'.halting = w.halting
  sched : w'.sched = w.sched
  unsafeDetector : w.unsafeDetector.Same w'.unsafeDetector
  maps : ∀ r, (w.maps r).Same (w'.maps r)
  nextMap : w'.nextMap = w.nextMap
  clocks : ∀ r, (w.clocks r).entries.Perm (w'.clocks r).entries
  nextClock : w'.nextClock = w.nextClock
  arenas : w.arenas.entries.Perm w'.arenas.entries
  cancelFuncs : w.cancelFuncs.entries.Perm w'.cancelFuncs.entries
  memory : w'.memory = w.memory
  time : w'.time = w.time

/-- The same answer, and the same tables. -/
def Answers {α : Type} (r r' : α × World Fl St V M γ) : Prop := r'.1 = r.1 ∧ r.2.Same r'.2

namespace Same

variable {w w' : World Fl St V M γ} (hw : w.Same w') (h h' : Host)

include hw

theorem looped : w.looped.Same w'.looped := { hw with time := congrArg (· + 1) hw.time }

theorem hosts_keys : w.hosts.keys.Perm w'.hosts.keys := HostMap.keys_perm hw.hosts

theorem waitOver (ready : Gid → Bool) : w'.waitOver ready = w.waitOver ready := by
  funext gid
  unfold World.waitOver
  rw [AList.perm_lookup hw.goroutines]

theorem pickNext (rand : Sched.Rand γ) (self : Gid) (ready : Gid → Bool) :
    Answers (w.pickNext h rand self ready) (w'.pickNext h' rand self ready) := by
  have hmem : self ∈ w'.hosts ↔ self ∈ w.hosts := (AList.mem_of_perm hw.hosts).symm
  have hwaiting : ((h.order w.time w.hosts.keys).filter
        fun id => id != self && w.waitOver ready id).Perm
      ((h'.order w.time w'.hosts.keys).filter fun id => id != self && w.waitOver ready id) :=
    (h.order_perm h' w.time w.time hw.hosts_keys).filter _
  have hcands := sortIDs_eq_of_perm (hwaiting.append_left w.runQueue)
  unfold World.pickNext
  rw [hw.sched, hw.halting, hw.runQueue, ← hw.hosts_keys.length_eq, hw.waitOver, hw.time]
  cases hs : w.sched with
  | none => exact ⟨rfl, hw⟩
  | some s =>
    simp only [hmem]
    split
    · exact ⟨rfl, hw⟩
    · split
      · exact ⟨rfl, hw⟩
      · rw [hcands]
        have hset : ∀ s, (w.setSched s).Same (w'.setSched s) := fun s => { hw with sched := rfl }
        exact ⟨rfl, (hset _).looped⟩

theorem parked (driver : Gid) : Answers (w.parked h driver) (w'.parked h' driver) := by
  unfold World.parked
  rw [← hw.hosts_keys.length_eq, hw.time]
  split
  · exact ⟨rfl, hw⟩
  · exact ⟨(sortIDs_eq_of_perm ((h.order_perm h' _ _ hw.hosts_keys).filter _)).symm, hw.looped⟩

theorem haltAll : (w.haltAll h).Same (w'.haltAll h') := by
  have hperm := HostMap.updateAll_perm (fun old (_ : Goroutine) => old.map Goroutine.panic)
    hw.goroutines ((List.perm_nodupKeys (h.perm w.time _)).mpr w.goroutines.nodupKeys)
    (h.order_perm h' w.time w'.time hw.goroutines)
  have hset : Same { w with halting := true, goroutines := _ }
      { w' with halting := true, goroutines := _ } := { hw with goroutines := hperm, halting := rfl }
  exact hset.looped

theorem blocked : Answers (w.blocked h) (w'.blocked h') := by
  refine ⟨?_, hw.looped⟩
  -- counting doesn't depend on the order
  refine ((h.order_perm h' w.time w'.time hw.goroutines).foldl_eq' ?_ 0).symm
  intro e _ e' _ n
  grind

theorem forgetAll : (w.forgetAll h).Same (w'.forgetAll h') := by
  have hperm := HostMap.eraseAll_perm hw.goroutines
    (h.order_perm h' w.time w'.time (HostMap.keys_perm hw.goroutines))
  have hset : Same { w with goroutines := _, halting := false }
      { w' with goroutines := _, halting := false } := { hw with goroutines := hperm, halting := rfl }
  exact hset.looped

/-! ### Clocks -/

theorem setClock (r : Nat) {c c' : Clocks} (hc : c.entries.Perm c'.entries) :
    (w.setClock r c).Same (w'.setClock r c') := by
  refine { hw with clocks := fun r' => ?_ }
  by_cases hr : r' = r
  · subst hr
    simpa [World.setClock] using hc
  · simpa [World.setClock, hr] using hw.clocks r'

/-- A clock gets the next reference. -/
theorem newClock {c c' : Clocks} (hc : c.entries.Perm c'.entries) :
    Same { w.setClock w.nextClock c with nextClock := w.nextClock + 1 }
      { w'.setClock w'.nextClock c' with nextClock := w'.nextClock + 1 } := by
  have hset : (w.setClock w.nextClock c).Same (w'.setClock w'.nextClock c') := by
    rw [hw.nextClock]
    exact hw.setClock _ hc
  exact { hset with nextClock := congrArg (· + 1) hw.nextClock }

theorem tick (r : Nat) (gid : Gid) : (w.tick r gid).Same (w'.tick r gid) := by
  unfold World.tick
  rw [← AList.perm_lookup (hw.clocks r)]
  exact hw.setClock r (AList.perm_insert (hw.clocks r))

theorem order_clock (r : Nat) :
    (h.order w.time (w.clocks r).entries).Perm (h'.order w'.time (w'.clocks r).entries) :=
  h.order_perm h' _ _ (hw.clocks r)

omit hw in
theorem order_nodupKeys (n : Nat) (c : Clocks) : (h.order n c.entries).NodupKeys :=
  (List.perm_nodupKeys (h.perm n _)).mpr c.nodupKeys

theorem mergeClock (dst src : Nat) : (w.mergeClock h dst src).Same (w'.mergeClock h' dst src) :=
  (hw.setClock dst (HostMap.updateAll_perm _ (hw.clocks dst) (order_nodupKeys h _ _)
    (hw.order_clock h h' src))).looped

theorem mergeEntries (dst src : Nat) : (w.mergeEntries dst src).Same (w'.mergeEntries dst src) :=
  hw.setClock dst (HostMap.updateAll_perm _ (hw.clocks dst) (w.clocks src).nodupKeys
    (hw.clocks src))

theorem copyClock (src : Nat) : Answers (w.copyClock h src) (w'.copyClock h' src) :=
  ⟨hw.nextClock, (hw.newClock (HostMap.updateAll_perm _ (.refl _) (order_nodupKeys h _ _)
    (hw.order_clock h h' src))).looped⟩

theorem happensBefore (a b : Nat) :
    Answers (w.happensBefore h a b) (w'.happensBefore h' a b) := by
  unfold World.happensBefore
  rw [← (HostMap.keys_perm (hw.clocks a)).length_eq]
  split
  · exact ⟨rfl, hw⟩
  · refine ⟨?_, hw.looped⟩
    simp only [← AList.perm_lookup (hw.clocks b)]
    exact (hw.order_clock h h' a).symm.all_eq

theorem sameClock (snap clock : Nat) :
    Answers (w.sameClock h snap clock) (w'.sameClock h' snap clock) := by
  unfold World.sameClock
  rw [← (HostMap.keys_perm (hw.clocks snap)).length_eq,
    ← (HostMap.keys_perm (hw.clocks clock)).length_eq]
  split
  · refine ⟨?_, hw.looped⟩
    simp only [← AList.perm_lookup (hw.clocks snap)]
    exact (hw.order_clock h h' clock).symm.all_eq
  · exact ⟨rfl, hw⟩

/-! ### Interpreted maps -/

theorem setMap (r : Nat) {m m' : GoMap Fl St V} (hm : m.Same m') :
    (w.setMap r m).Same (w'.setMap r m') := by
  refine { hw with maps := fun r' => ?_ }
  by_cases hr : r' = r
  · subst hr
    simpa [World.setMap] using hm
  · simpa [World.setMap, hr] using hw.maps r'

theorem newMap {m m' : GoMap Fl St V} (hm : m.Same m') : Answers (w.newMap m) (w'.newMap m') := by
  have hset : (w.setMap w.nextMap m).Same (w'.setMap w'.nextMap m') := by
    rw [hw.nextMap]
    exact hw.setMap _ hm
  exact ⟨hw.nextMap, { hset with nextMap := congrArg (· + 1) hw.nextMap }⟩

/-- Keys that can be sorted, or can't be out of order. -/
theorem rangeKeys [LinearOrder Fl] [LinearOrder St] (cfg : Config) (r : Nat)
    (hgood : (w.rangeKeys h cfg r).2.tangled = false) :
    Answers (w.rangeKeys h cfg r) (w'.rangeKeys h' cfg r) := by
  have hset : Same (w.rangeKeys h cfg r).2 (w'.rangeKeys h' cfg r).2 := by
    have hflag : ∀ b b', Same { w with tangled := b } { w' with tangled := b' } :=
      fun _ _ => { hw with }
    exact (hflag _ _).looped
  refine ⟨?_, hset⟩
  have hkeys : (h'.order w'.time (w'.maps r).keys).Perm (h.order w.time (w.maps r).keys) :=
    h'.order_perm h _ _ (hw.maps r).keys.symm
  have htangled : 2 ≤ (w.maps r).size → (w.maps r).nans = 0 ∧ cfg.concrete = true := by
    intro hsize
    have hflag : (w.tangled || (2 ≤ (w.maps r).size && (0 < (w.maps r).nans || !cfg.concrete))) =
        false := hgood
    simp_all
  show (if cfg.concrete then sortMapKeys (h'.order w'.time (w'.maps r).keys)
      else h'.order w'.time (w'.maps r).keys) =
    if cfg.concrete then sortMapKeys (h.order w.time (w.maps r).keys)
      else h.order w.time (w.maps r).keys
  by_cases hsize : 2 ≤ (w.maps r).size
  · obtain ⟨hnans, hconcrete⟩ := htangled hsize
    rw [if_pos hconcrete, if_pos hconcrete]
    refine sortMapKeys_eq_of_perm (fun k hk => ?_) hkeys
    have hmem := ((hkeys.trans (h.perm _ _)).mem_iff).mp hk
    simp only [GoMap.keys, hnans, List.replicate_zero, List.append_nil, List.mem_map] at hmem
    obtain ⟨key, -, rfl⟩ := hmem
    rfl
  · -- at most one key
    have hlen : (h.order w.time (w.maps r).keys).length ≤ 1 := by
      rw [(h.perm _ _).length_eq, GoMap.length_keys]
      omega
    rw [Host.eq_of_perm_of_length_le_one hkeys.symm hlen]

variable [DecidableEq Fl] [DecidableEq St]

theorem clearMap (r : Nat) : (w.clearMap h r).Same (w'.clearMap h' r) := by
  unfold World.clearMap
  rw [hw.time]
  exact (hw.setMap r ((hw.maps r).clear h h' w.time)).looped

theorem cloneMap (r : Nat) : Answers (w.cloneMap h r) (w'.cloneMap h' r) := by
  have hclone := GoMap.same_empty.copyFrom (hw.maps r) h h' w.time
  obtain ⟨href, hnew⟩ := hw.newMap hclone
  unfold World.cloneMap
  rw [hw.time]
  exact ⟨href, hnew.looped⟩

theorem copyMap (dst src : Nat) : (w.copyMap h dst src).Same (w'.copyMap h' dst src) := by
  have hset := hw.setMap dst ((hw.maps dst).copyFrom (hw.maps src) h h' w.time)
  have hflag : ∀ b b', Same { w.setMap dst _ with tangled := b } { w'.setMap dst _ with tangled := b' } :=
    fun _ _ => { hset with }
  unfold World.copyMap
  rw [hw.time]
  exact (hflag _ _).looped

end Same

end World

/-! ## §4. Commands -/

section

variable {Fl St V M X K γ : Type} {rand : Sched.Rand γ} {cfg : Config}

/-- An error that was found alone. -/
def Alone : Recorded (Err X) K → Prop
  | ⟨.unsafePointer v, _⟩ => v.among ≤ 1
  | ⟨.other _, _⟩ => True

instance (r : Recorded (Err X) K) : Decidable (Alone r) :=
  match r with
  | ⟨.unsafePointer v, _⟩ => inferInstanceAs (Decidable (v.among ≤ 1))
  | ⟨.other _, _⟩ => inferInstanceAs (Decidable True)

/-- The host has not been seen so far: no keys were ranged over that can't be
sorted, and at every safepoint at most one conversion was pending. -/
structure Orderly (w : World Fl St V M γ) (log : List (Recorded (Err X) K)) : Prop where
  sortable : w.tangled = false
  alone : ∀ r ∈ log, Alone r

instance (w : World Fl St V M γ) (log : List (Recorded (Err X) K)) : Decidable (Orderly w log) :=
  decidable_of_iff (w.tangled = false ∧ ∀ r ∈ log, Alone r)
    ⟨fun h => ⟨h.1, h.2⟩, fun h => ⟨h.sortable, h.alone⟩⟩

theorem Orderly.log_back {w : World Fl St V M γ} {log rs : List (Recorded (Err X) K)}
    (hgood : Orderly w (log ++ rs)) : Orderly w log :=
  ⟨hgood.sortable, fun r hr => hgood.alone r (List.mem_append_left _ hr)⟩

/-! ### What is seen of the host stays so -/

section Tangled

variable (h : Host) (w : World Fl St V M γ)

theorem pickNext_tangled (rand : Sched.Rand γ) (self : Gid) (ready : Gid → Bool) :
    (w.pickNext h rand self ready).2.tangled = w.tangled := by
  unfold World.pickNext
  split
  · rfl
  · split
    · rfl
    · split <;> rfl

theorem parked_tangled (driver : Gid) : (w.parked h driver).2.tangled = w.tangled := by
  unfold World.parked
  split <;> rfl

theorem happensBefore_tangled (a b : Nat) : (w.happensBefore h a b).2.tangled = w.tangled := by
  unfold World.happensBefore
  split <;> rfl

theorem sameClock_tangled (snap clock : Nat) :
    (w.sameClock h snap clock).2.tangled = w.tangled := by
  unfold World.sameClock
  split <;> rfl

theorem recordPending_tangled (d : UnsafeDetector) :
    (recordPending cfg w d).tangled = w.tangled := by
  unfold recordPending
  split <;> rfl

theorem freeArena_tangled (id : Nat) : (freeArena w id).tangled = w.tangled := by
  unfold freeArena
  split <;> rfl

variable [LinearOrder Fl] [LinearOrder St]

theorem handle_tangled (q : Query Fl St V M X K)
    (hgood : (handle rand cfg h q w).2.1.tangled = false) : w.tangled = false := by
  cases q with
  | pickNext self ready => exact (pickNext_tangled h w rand self ready).symm.trans hgood
  | parked driver => exact (parked_tangled h w driver).symm.trans hgood
  | happensBefore a b => exact (happensBefore_tangled h w a b).symm.trans hgood
  | sameClock snap clock => exact (sameClock_tangled h w snap clock).symm.trans hgood
  | rangeKeys r | copyMap dst src => exact (Bool.or_eq_false_iff.mp hgood).1
  | recordUintptr valueID site | recordReflect valueID site | clearUintptrs =>
    exact (recordPending_tangled w _).symm.trans hgood
  | freeArena id => exact (freeArena_tangled w id).symm.trans hgood
  | _ => exact hgood

end Tangled

/-! ### One command -/

/-- The same answer and the same violations, and the same tables. -/
def Alike {α : Type} (x x' : α × World Fl St V M γ × List (Recorded (Err X) K)) : Prop :=
  x'.1 = x.1 ∧ x.2.1.Same x'.2.1 ∧ x'.2.2 = x.2.2

variable {w w' : World Fl St V M γ} (hw : w.Same w') (h h' : Host)

include hw

/-- With at most one conversion pending, a safepoint finds the same errors. -/
theorem World.Same.checkGCPoint (site : String)
    (hone : ∀ v ∈ Tables.checkGCPoint cfg h w site, v.among ≤ 1) :
    Tables.checkGCPoint cfg h' w' site = Tables.checkGCPoint cfg h w site := by
  unfold Tables.checkGCPoint at hone ⊢
  split
  · rename_i hreg
    rw [if_pos hreg] at hone
    rw [hw.time]
    exact hw.unsafeDetector.checkGCPoint h h' w.time site hone
  · rfl

theorem World.Same.recordPending {d d' : UnsafeDetector} (hd : d.Same d') :
    (Tables.recordPending cfg w d).Same (Tables.recordPending cfg w' d') := by
  unfold Tables.recordPending
  split
  · exact { hw with unsafeDetector := hd }
  · exact hw

theorem World.Same.freeArena (id : Nat) : (Tables.freeArena w id).Same (Tables.freeArena w' id) := by
  unfold Tables.freeArena
  rw [← AList.perm_lookup hw.arenas]
  split
  · exact { hw with arenas := AList.perm_insert hw.arenas }
  · exact hw

omit hw in
theorem World.Answers.alike {α : Type} {r r' : α × World Fl St V M γ} (hr : Answers r r')
    {log : List (Recorded (Err X) K)} : Alike (r.1, r.2, log) (r'.1, r'.2, log) :=
  ⟨hr.1, hr.2, rfl⟩

variable [LinearOrder Fl] [LinearOrder St]

/-- **A command is answered alike by all hosts.** -/
theorem World.Same.handle (q : Query Fl St V M X K) {log : List (Recorded (Err X) K)}
    (hgood : Orderly (Tables.handle rand cfg h q w).2.1 (log ++ (Tables.handle rand cfg h q w).2.2)) :
    Alike (Tables.handle rand cfg h q w) (Tables.handle rand cfg h' q w') := by
  cases q with
  | getGoroutine => exact ⟨(AList.perm_lookup hw.goroutines).symm, hw, rfl⟩
  | setGoroutine => exact ⟨rfl, { hw with goroutines := AList.perm_insert hw.goroutines }, rfl⟩
  | forgetGoroutine => exact ⟨rfl, { hw with goroutines := AList.perm_erase hw.goroutines }, rfl⟩
  | setHost => exact ⟨rfl, { hw with hosts := AList.perm_insert hw.hosts }, rfl⟩
  | deleteHost => exact ⟨rfl, { hw with hosts := AList.perm_erase hw.hosts }, rfl⟩
  | enqueue gid => exact ⟨rfl, { hw with runQueue := congrArg (· ++ [gid]) hw.runQueue }, rfl⟩
  | takeTask gid =>
    exact ⟨rfl, { hw with runQueue := congrArg (Sched.Sys.takeTask · gid) hw.runQueue }, rfl⟩
  | clearQueue => exact ⟨rfl, { hw with runQueue := rfl }, rfl⟩
  | onSpawn child =>
    exact ⟨rfl, { hw with sched := congrArg (·.map (·.onSpawn rand child)) hw.sched }, rfl⟩
  | onFinish gid => exact ⟨rfl, { hw with sched := congrArg (·.map (·.onFinish gid)) hw.sched }, rfl⟩
  | pickNext self ready => exact (hw.pickNext h h' rand self ready).alike
  | parked driver => exact (hw.parked h h' driver).alike
  | haltAll => exact ⟨rfl, hw.haltAll h h', rfl⟩
  | blocked => exact (hw.blocked h h').alike
  | newClock => exact ⟨hw.nextClock, hw.newClock (.refl _), rfl⟩
  | tick r gid => exact ⟨rfl, hw.tick r gid, rfl⟩
  | mergeClock dst src => exact ⟨rfl, hw.mergeClock h h' dst src, rfl⟩
  | mergeEntries dst src => exact ⟨rfl, hw.mergeEntries dst src, rfl⟩
  | copyClock src => exact (hw.copyClock h h' src).alike
  | happensBefore a b => exact (hw.happensBefore h h' a b).alike
  | sameClock snap clock => exact (hw.sameClock h h' snap clock).alike
  | makeMap => exact (hw.newMap GoMap.same_empty).alike
  | mapLookup r k => exact ⟨(hw.maps r).lookup k, hw, rfl⟩
  | mapUpdate r k v => exact ⟨rfl, hw.setMap r ((hw.maps r).update k v), rfl⟩
  | mapDelete r k => exact ⟨rfl, hw.setMap r ((hw.maps r).delete k), rfl⟩
  | mapLen r => exact ⟨(hw.maps r).size, hw, rfl⟩
  | rangeKeys r => exact (hw.rangeKeys h h' cfg r hgood.sortable).alike
  | clearMap r => exact ⟨rfl, hw.clearMap h h' r, rfl⟩
  | cloneMap r => exact (hw.cloneMap h h' r).alike
  | copyMap dst src => exact ⟨rfl, hw.copyMap h h' dst src, rfl⟩
  | recordUintptr valueID site =>
    exact ⟨rfl, hw.recordPending (hw.unsafeDetector.recordUintptrConversion valueID site), rfl⟩
  | recordReflect valueID site =>
    exact ⟨rfl, hw.recordPending (hw.unsafeDetector.recordReflectConversion valueID site), rfl⟩
  | clearUintptrs =>
    have hclear : (w.unsafeDetector.clearAllUintptrConversions h w.time).Same
        (w'.unsafeDetector.clearAllUintptrConversions h' w'.time) := by
      rw [hw.time]
      exact hw.unsafeDetector.clearAllUintptrConversions h h' w.time
    exact ⟨rfl, (hw.recordPending hclear).looped, rfl⟩
  | gcSafepoint site stack records =>
    refine ⟨rfl, hw.looped, ?_⟩
    show (if records then (Tables.checkGCPoint cfg h' w' site).map _ else []) =
      if records then (Tables.checkGCPoint cfg h w site).map _ else []
    split
    · rename_i hrec
      rw [hw.checkGCPoint h h' site fun v hv => ?_]
      refine hgood.alone ⟨.unsafePointer v, some stack⟩ (List.mem_append_right _ ?_)
      show _ ∈ if records then _ else _
      rw [if_pos hrec]
      exact List.mem_map.mpr ⟨v, hv, rfl⟩
    · rfl
  | violation => exact ⟨rfl, hw, rfl⟩
  | newArena => exact ⟨rfl, { hw with arenas := AList.perm_insert hw.arenas }, rfl⟩
  | freeArena id => exact ⟨rfl, hw.freeArena id, rfl⟩
  | newCancelFunc =>
    exact ⟨rfl, { hw with cancelFuncs := AList.perm_insert hw.cancelFuncs }, rfl⟩
  | callCancelFunc => exact ⟨rfl, { hw with cancelFuncs := AList.perm_erase hw.cancelFuncs }, rfl⟩
  | getMemory => exact ⟨hw.memory, hw, rfl⟩
  | setMemory => exact ⟨rfl, { hw with memory := rfl }, rfl⟩

omit hw in
theorem handle_simulates :
    Handler.Simulates (Tables.handle rand cfg h : Handler (Query Fl St V M X K) _ _ _)
      (Tables.handle rand cfg h') World.Same Orderly where
  back q w _ hgood := ⟨handle_tangled h w q hgood.sortable, hgood.log_back.alone⟩
  step q _ _ _ hw hgood := hw.handle h h' q hgood

omit hw in
/-- **All hosts are alike in an environment.** -/
theorem env_simulates (memory : M) (sched : Option (Scheduler γ)) :
    (env rand cfg h memory sched : Env (Err X) K M (World Fl St V M γ) (Query Fl St V M X K) _).Simulates
      (env rand cfg h' memory sched) World.Same Orderly where
  commands := handle_simulates h h'
  log_back _ _ _ hgood := hgood.log_back
  gcPoint w w' _ site k hw hgood := by
    show (Tables.checkGCPoint cfg h' w' site).map _ = (Tables.checkGCPoint cfg h w site).map _
    rw [hw.checkGCPoint h h' site fun v hv => ?_]
    refine hgood.alone ⟨.unsafePointer v, some k⟩ (List.mem_append_right _ ?_)
    exact List.mem_map.mpr ⟨_, List.mem_map.mpr ⟨v, hv, rfl⟩, rfl⟩
  passed_back _ _ hgood := ⟨hgood.sortable, hgood.alone⟩
  passed _ _ _ hw _ := hw.looped
  beginSet_back _ _ hgood := hgood
  beginSet _ _ _ hw _ := hw
  endCall_back _ _ hgood := ⟨hgood.sortable, hgood.alone⟩
  endCall _ _ _ hw _ := hw.forgetAll h h'
  view _ _ hw := hw.memory

end

end Giri.Tables
