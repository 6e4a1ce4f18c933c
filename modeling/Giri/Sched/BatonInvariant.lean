/-
Giri.Sched.BatonInvariant — who holds the baton.

`Holder` lists the configurations the hosts can be in: the driver or ONE
other host is active, or one message is in flight to a host that waits for
it, or `runDriver` has returned. Everybody else is at rest (`Idle`,
`DriverRest`, `AbortPlan`). `Inv.step` is the step lemma: every step of
every host leads from one of these configurations to another one. The run
lemma is `inv_run`.
-/
import Giri.Sched.Baton
import Giri.Lib.Transition

namespace Giri.Sched.Sys

open Function (update_self update_of_ne)

variable {σ : Type} {s t : Sys σ} {g h : Gid} {k : PC}

/-! ## §1. Lookups and waits after an update -/

theorem lookup_updateG (m : AList fun _ : Gid => Goroutine σ) (g h : Gid)
    (f : Goroutine σ → Goroutine σ) :
    (updateG m g f).lookup h = if h = g then (m.lookup g).map f else m.lookup h := by
  unfold updateG
  by_cases hh : h = g
  · subst hh
    cases hm : m.lookup h <;> simp [hm]
  · cases m.lookup g <;> simp [hh]

theorem lookup_modify (s : Sys σ) (g h : Gid) (f : Goroutine σ → Goroutine σ) :
    (s.modify g f).goroutines.lookup h =
      if h = g then (s.goroutines.lookup g).map f else s.goroutines.lookup h :=
  lookup_updateG _ _ _ _

variable {G : Goroutine σ}

theorem lookup_modify_self {f : Goroutine σ → Goroutine σ} (hG : s.goroutines.lookup g = some G) :
    (s.modify g f).goroutines.lookup g = some (f G) := by
  rw [lookup_modify, if_pos rfl, hG]
  rfl

/-- Whether a goroutine waits is read off its record alone. -/
theorem waiting_eq_of_lookup {s t : Sys σ}
    (hl : t.goroutines.lookup g = s.goroutines.lookup g) : t.waiting g = s.waiting g := by
  unfold waiting
  rw [hl]

theorem waiting_of_lookup (hG : s.goroutines.lookup g = some G) :
    s.waiting g = (G.status == .blocked && !G.aborted) := by
  simp [waiting, hG]

theorem exists_of_waiting (hw : s.waiting g = true) :
    ∃ G, s.goroutines.lookup g = some G ∧ G.aborted = false := by
  unfold waiting at hw
  split at hw
  · rename_i G hG
    exact ⟨G, hG, by simp_all⟩
  · cases hw

/-- A goroutine whose wait is over waits. -/
theorem waiting_of_waitOver (hw : s.waitOver g = true) : s.waiting g = true := by
  unfold waitOver at hw
  unfold waiting
  cases hG : s.goroutines.lookup g <;> simp_all

theorem waiting_modify_ne (hne : h ≠ g) (f : Goroutine σ → Goroutine σ) :
    (s.modify g f).waiting h = s.waiting h :=
  waiting_eq_of_lookup (by rw [lookup_modify, if_neg hne])

theorem waiting_modify_self (hG : s.goroutines.lookup g = some G) (f : Goroutine σ → Goroutine σ) :
    (s.modify g f).waiting g = ((f G).status == .blocked && !(f G).aborted) :=
  waiting_of_lookup (lookup_modify_self hG)

@[simp] theorem waiting_setPC (p : PC) : (s.setPC g p).waiting h = s.waiting h := rfl

/-- An update that keeps status and `aborted` changes nobody's waiting. -/
theorem waiting_modify_keep (f : Goroutine σ → Goroutine σ)
    (hf : ∀ G, ((f G).status == .blocked && !(f G).aborted) =
      (G.status == .blocked && !G.aborted)) :
    (s.modify g f).waiting h = s.waiting h := by
  by_cases hh : h = g
  · subst hh
    cases hG : s.goroutines.lookup h with
    | none => simp [waiting, lookup_updateG, hG]
    | some G => rw [waiting_modify_self hG, hf G, waiting_of_lookup hG]
  · exact waiting_modify_ne hh f

/-! ## §2. The candidates and the queue -/

theorem mem_candidates (hc : h ∈ s.candidates g) :
    h ∈ s.runQueue ∨ (h ∈ s.hosts ∧ h ≠ g ∧ s.waitOver h = true) := by
  unfold candidates at hc
  split at hc
  · simp at hc
  · split at hc
    · simp at hc
    · simpa [List.mem_insertionSort] using hc

/-- With a scheduler and without a halt, no candidate means that nobody is
queued and that no other host's wait is over. -/
theorem candidates_eq_nil (hnil : s.candidates g = []) (hh : s.halting = false)
    (hs : s.sched = true) :
    s.runQueue = [] ∧ ∀ h ∈ s.hosts, h ≠ g → s.waitOver h = false := by
  unfold candidates at hnil
  rw [if_neg (by simp [hh, hs])] at hnil
  split at hnil
  · rename_i hfew
    refine ⟨List.eq_nil_of_length_eq_zero hfew.1, fun h hmem hne => ?_⟩
    rcases hfew.2 with h0 | ⟨h1, hg⟩
    · rw [List.eq_nil_of_length_eq_zero h0] at hmem
      simp at hmem
    · obtain ⟨x, hx⟩ := List.length_eq_one_iff.mp h1
      rw [hx, List.mem_singleton] at hmem hg
      exact absurd (hmem.trans hg.symm) hne
  · have hlen := congrArg List.length hnil
    rw [List.length_insertionSort, List.length_append, List.length_nil] at hlen
    refine ⟨List.eq_nil_of_length_eq_zero (by omega), fun h hmem hne => ?_⟩
    have hf : s.hosts.filter (fun id => id != g && s.waitOver id) = [] :=
      List.eq_nil_of_length_eq_zero (by omega)
    have := List.filter_eq_nil_iff.mp hf h hmem
    simpa [hne] using this

/-- `takeTask` removes one task and keeps the others. -/
theorem takeTask_perm {q : List Gid} (hg : g ∈ q) : (takeTask q g).Perm (q.erase g) := by
  obtain ⟨l₁, l₂, rfl, hl₁⟩ := List.eq_append_cons_of_mem hg
  have hidx : (l₁ ++ g :: l₂).idxOf g = l₁.length := by
    simp [List.idxOf_append_of_notMem hl₁]
  have herase : (l₁ ++ g :: l₂).erase g = l₁ ++ l₂ := by
    rw [List.erase_append_right _ hl₁, List.erase_cons_head]
  rw [herase]
  -- the last task is the removed one itself, or moves into its place
  rcases List.eq_nil_or_concat l₂ with rfl | ⟨l, x, rfl⟩
  · simp [takeTask, List.idxOf_append_of_notMem hl₁]
  · have hlast : (l₁ ++ g :: l.concat x).getLast? = some x := by
      rw [show l₁ ++ g :: l.concat x = (l₁ ++ g :: l) ++ [x] by simp, List.getLast?_concat]
    unfold takeTask
    rw [hlast]
    simp only [hg, if_true, hidx]
    have hset : (l₁ ++ g :: l.concat x).set l₁.length x = (l₁ ++ x :: l) ++ [x] := by
      simp
    rw [hset, List.dropLast_concat, List.concat_eq_append]
    exact (List.perm_append_left_iff l₁).mpr (List.perm_append_singleton x l).symm

theorem mem_takeTask {q : List Gid} (hnd : q.Nodup) (hg : g ∈ q) :
    h ∈ takeTask q g ↔ h ≠ g ∧ h ∈ q := by
  rw [(takeTask_perm hg).mem_iff, hnd.mem_erase_iff]

theorem nodup_takeTask {q : List Gid} (hnd : q.Nodup) (hg : g ∈ q) : (takeTask q g).Nodup :=
  (takeTask_perm hg).nodup_iff.mpr (hnd.erase g)

/-! ## §3. What a step can do -/

/-- `block` does not return at once. -/
def MustPark (s : Sys σ) (g : Gid) (w : WaitInfo σ) : Prop :=
  ∃ G, s.goroutines.lookup g = some G ∧ G.aborted = false ∧ w.isReady s.shared = false

/-- The places at which `step` returns a state, with what has been tested on
the way there. -/
inductive Stepped (s : Sys σ) : Act σ → Sys σ → Prop where
  | work {g : Gid} {shared : σ} {flags : Flags} : s.canWork g = true →
      Stepped s (.work g shared flags) ((s.setShared shared).modify g (workRecord flags))
  | spawn {g : Gid} {site : String} : s.canWork g = true → s.sched = true →
      Stepped s (.spawn g site) (s.startGoroutine site)
  | passes {g : Gid} {w : WaitInfo σ} {choice : Option Gid} :
      s.pc g = .running → Stepped s (.block g w choice) s
  | parks {g : Gid} {w : WaitInfo σ} {choice : Option Gid} {t : Sys σ} :
      s.pc g = .running → s.MustPark g w → g ≠ s.driverGID →
      (s.modify g (parkRecord w)).handOver g .parked choice = some t →
      Stepped s (.block g w choice) t
  | yields {w : WaitInfo σ} {next : Gid} : s.pc s.driverGID = .running → s.MustPark s.driverGID w →
      next ∈ (s.modify s.driverGID (parkRecord w)).candidates s.driverGID →
      Stepped s (.block s.driverGID w (some next))
        ((s.modify s.driverGID (parkRecord w)).transfer s.driverGID next .parked)
  | asleep {w : WaitInfo σ} : s.pc s.driverGID = .running → s.MustPark s.driverGID w →
      (s.modify s.driverGID (parkRecord w)).candidates s.driverGID = [] →
      Stepped s (.block s.driverGID w none)
        ((s.modify s.driverGID (parkRecord w)).setPC s.driverGID (.woken .quiescent))
  | halt {g : Gid} : s.canWork g = true → Stepped s (.halt g) s.haltAll
  | unwind {g : Gid} {shared : σ} :
      s.pc g = .running → Stepped s (.unwind g shared) (s.setShared shared)
  | bodyReturns {shared : σ} {choice : Option Gid} : s.pc s.driverGID = .running →
      Stepped s (.exit s.driverGID shared choice)
        (((s.setShared shared).finishGoroutine s.driverGID).setPC s.driverGID .looping)
  | unwound {g : Gid} {shared : σ} {choice : Option Gid} {G : Goroutine σ} :
      s.pc g = .running → g ≠ s.driverGID →
      s.goroutines.lookup g = some G → G.aborted = true →
      Stepped s (.exit g shared choice)
        (((s.setShared shared).deleteHost g).setPC g (.sending s.driverGID .exited .ended))
  | ends {g : Gid} {shared : σ} {choice : Option Gid} {t : Sys σ} :
      s.pc g = .running → g ≠ s.driverGID →
      (∀ G, s.goroutines.lookup g = some G → G.aborted = false) →
      (((s.setShared shared).deleteHost g).finishGoroutine g).handOver g .ended choice = some t →
      Stepped s (.exit g shared choice) t
  | send {g : Gid} {dst : Gid} {msg : WakeMsg} {next : PC} :
      s.pc g = .sending dst msg next → s.wake dst = none →
      Stepped s (.send g) ((s.setWake dst (some msg)).setPC g next)
  | wakes {g : Gid} {msg : WakeMsg} : s.pc g = .parked → s.wake g = some msg →
      Stepped s (.receive g) ((s.setWake g none).setPC g (.woken msg))
  | redrains {g : Gid} {msg : WakeMsg} : s.pc g = .draining → s.wake g = some msg →
      Stepped s (.receive g) ((s.setWake g none).setPC g .looping)
  | abortsNext {g : Gid} {msg : WakeMsg} {rest : List Gid} {k : AfterAbort} :
      s.pc g = .aborting rest k → s.wake g = some msg →
      Stepped s (.receive g) ((s.setWake g none).abortNext rest k)
  | resumes {g : Gid} : s.pc g = .woken .run →
      Stepped s (.handle g)
        ((s.modify g fun G => { G with status := .running, wait := none }).setPC g .running)
  | quiesces {g : Gid} : s.pc g = .woken .quiescent →
      Stepped s (.handle g)
        ({ s with deadlock := s.reportDeadlock.deadlock, halting := true }.abortParked .inBlock)
  | aborted {g : Gid} {msg : WakeMsg} : s.pc g = .woken msg → msg = .abort ∨ msg = .exited →
      Stepped s (.handle g) ((s.modify g fun G => { G with aborted := true }).setPC g .running)
  | drains {next : Gid} : s.pc s.driverGID = .looping → next ∈ s.candidates s.driverGID →
      Stepped s (.drain (some next)) (s.transfer s.driverGID next .draining)
  | drained : s.pc s.driverGID = .looping → s.candidates s.driverGID = [] →
      Stepped s (.drain none) (s.setPC s.driverGID .drained)
  | abortAll : s.pc s.driverGID = .drained → Stepped s .abortAll (s.abortParked .atEnd)

theorem running_of_canWork (hc : s.canWork g = true) : s.pc g = .running := by
  unfold canWork at hc
  simp only [Bool.and_eq_true, beq_iff_eq] at hc
  exact hc.1

theorem reportDeadlock_eq : s.reportDeadlock = { s with deadlock := s.reportDeadlock.deadlock } := by
  unfold reportDeadlock
  split <;> rfl

variable {choice : Option Gid}

/-- The answers of `handOver`. -/
theorem handOver_cases (hst : s.handOver g k choice = some t) :
    (∃ next ∈ s.candidates g, t = s.transfer g next k) ∨
      (s.candidates g = [] ∧ t = s.setPC g (.sending s.driverGID .quiescent k)) := by
  unfold handOver at hst
  split at hst <;> split at hst <;> cases hst
  · exact .inl ⟨_, ‹_›, rfl⟩
  · exact .inr ⟨‹_›, rfl⟩

variable {w : WaitInfo σ}

theorem stepped_block (hr : s.pc g = .running) (hst : s.block g w choice = some t) :
    Stepped s (.block g w choice) t := by
  unfold block at hst
  split at hst
  · cases hst
    exact .passes hr
  rename_i G hG
  split at hst
  · cases hst
    exact .passes hr
  rename_i hab
  split at hst
  · cases hst
    exact .passes hr
  rename_i hnot
  have hpark : s.MustPark g w := ⟨G, hG, by simpa using hab, by simpa using hnot⟩
  by_cases hgd : g = s.driverGID
  · subst hgd
    simp only [modify_driverGID, if_true] at hst
    split at hst <;> split at hst <;> cases hst
    · exact .yields hr hpark ‹_›
    · exact .asleep hr hpark ‹_›
  · simp only [modify_driverGID, if_neg hgd] at hst
    exact .parks hr hpark hgd hst

variable {shared : σ}

theorem stepped_exit (hr : s.pc g = .running) (hgd : g ≠ s.driverGID)
    (hst : (s.setShared shared).hostExit g choice = some t) :
    Stepped s (.exit g shared choice) t := by
  unfold hostExit at hst
  cases hG : s.goroutines.lookup g with
  | none =>
    simp only [setShared_goroutines, hG] at hst
    exact .ends hr hgd (fun G h => by rw [hG] at h; cases h) hst
  | some G =>
    simp only [setShared_goroutines, hG] at hst
    split at hst
    · cases hst
      exact .unwound hr hgd hG ‹_›
    · rename_i hab
      exact .ends hr hgd (fun G' h => by rw [hG] at h; cases h; simpa using hab) hst

/-- **What a step can do.** -/
theorem stepped {a : Act σ} (hst : s.step a = some t) : Stepped s a t := by
  cases a with
  | work =>
    simp only [Sys.step, Option.ite_none_right_eq_some, Option.some.injEq] at hst
    exact hst.2 ▸ .work hst.1
  | spawn =>
    simp only [Sys.step, Option.ite_none_right_eq_some, Bool.and_eq_true, Option.some.injEq] at hst
    exact hst.2 ▸ .spawn hst.1.1 hst.1.2
  | block =>
    simp only [Sys.step, Option.ite_none_right_eq_some] at hst
    exact stepped_block hst.1 hst.2
  | halt =>
    simp only [Sys.step, Option.ite_none_right_eq_some, Option.some.injEq] at hst
    exact hst.2 ▸ .halt hst.1
  | unwind =>
    simp only [Sys.step, Option.ite_none_right_eq_some, Option.some.injEq] at hst
    exact hst.2 ▸ .unwind hst.1.1
  | exit g shared choice =>
    simp only [Sys.step, Option.ite_none_right_eq_some] at hst
    obtain ⟨hr, hst⟩ := hst
    split at hst
    · rename_i hgd
      subst hgd
      cases hst
      exact .bodyReturns hr
    · exact stepped_exit hr ‹_› hst
  | send =>
    simp only [Sys.step] at hst
    split at hst
    · split at hst <;> cases hst
      exact .send ‹_› ‹_›
    · cases hst
  | receive =>
    simp only [Sys.step] at hst
    split at hst
    · cases hst
      exact .wakes ‹_› ‹_›
    · split at hst <;> cases hst
      exact .redrains ‹_› ‹_›
    · split at hst <;> cases hst
      exact .abortsNext ‹_› ‹_›
    · cases hst
  | handle g =>
    simp only [Sys.step] at hst
    split at hst
    · rename_i msg hpc
      cases msg with
      | run => cases hst; exact .resumes hpc
      | quiescent =>
        rw [wokenStep, reportDeadlock_eq] at hst
        cases hst
        exact .quiesces hpc
      | abort => cases hst; exact .aborted hpc (.inl rfl)
      | exited => cases hst; exact .aborted hpc (.inr rfl)
      | crash => cases hst
    · cases hst
  | drain =>
    simp only [Sys.step, Option.ite_none_right_eq_some] at hst
    obtain ⟨hpc, hst⟩ := hst
    unfold drainStep at hst
    split at hst <;> split at hst <;> cases hst
    · exact .drains hpc ‹_›
    · exact .drained hpc ‹_›
  | abortAll =>
    simp only [Sys.step, Option.ite_none_right_eq_some, Option.some.injEq] at hst
    exact hst.2 ▸ .abortAll hst.1

/-! ## §4. The configurations -/

/-- The host of `g` is at rest: parked, if it has one. -/
def Idle (s : Sys σ) (g : Gid) : Prop :=
  (g ∈ s.hosts → s.pc g = .parked ∧ s.waiting g = true) ∧
    (g ∉ s.hosts → s.pc g = .absent ∨ s.pc g = .ended)

/-- Where host `g` will rest once it has handed the baton over. -/
def HostRest (s : Sys σ) (g : Gid) (k : PC) : Prop :=
  (k = .parked ∧ g ∈ s.hosts ∧ s.waiting g = true) ∨ (k = .ended ∧ g ∉ s.hosts)

/-- Where the driver rests while others run: in `block`, or in `drainAll`. -/
def DriverRest (s : Sys σ) (k : PC) : Prop :=
  (k = .parked ∧ s.waiting s.driverGID = true) ∨
    (k = .draining ∧ s.waiting s.driverGID = false)

/-- Nothing is runnable, or the program is halting. -/
def Quiet (s : Sys σ) : Prop :=
  s.halting = true ∨ (s.runQueue = [] ∧ ∀ h, s.waitOver h = false)

/-- The hosts `abortParked` still has to see unwind are exactly those left
besides the driver's. -/
structure AbortPlan (s : Sys σ) (todo : List Gid) (k : AfterAbort) : Prop where
  nodup : todo.Nodup
  driver_notMem : s.driverGID ∉ todo
  cover : ∀ h, h ∈ s.hosts ↔ h = s.driverGID ∨ h ∈ todo
  phase : (k = .inBlock ∧ s.halting = true ∧ s.waiting s.driverGID = true) ∨
    (k = .atEnd ∧ s.waiting s.driverGID = false)

/-- The control points at which the driver is active. -/
inductive DriverAt (s : Sys σ) : PC → Prop where
  | runs : s.waiting s.driverGID = false → DriverAt s .running
  | resumes : s.waitOver s.driverGID = true → DriverAt s (.woken .run)
  | asleep : s.waiting s.driverGID = true → Quiet s → DriverAt s (.woken .quiescent)
  | sends (t : Gid) (k : PC) : DriverRest s k → t ≠ s.driverGID → t ∈ s.hosts →
      s.waitOver t = true → DriverAt s (.sending t .run k)
  | loops : s.waiting s.driverGID = false → DriverAt s .looping
  | drained : s.waiting s.driverGID = false → Quiet s → DriverAt s .drained
  | aborts (t : Gid) (rest : List Gid) (k : AfterAbort) : AbortPlan s (t :: rest) k →
      DriverAt s (.sending t .abort (.aborting rest k))

/-- The control points at which another host is active, outside aborts. -/
inductive HostAt (s : Sys σ) (g : Gid) : PC → Prop where
  | runs (G : Goroutine σ) : g ∈ s.hosts → s.goroutines.lookup g = some G →
      G.status = .running → G.aborted = false → HostAt s g .running
  | resumes : g ∈ s.hosts → s.waitOver g = true → HostAt s g (.woken .run)
  | sends (t : Gid) (k : PC) : HostRest s g k → t ≠ g → t ∈ s.hosts →
      s.waitOver t = true → HostAt s g (.sending t .run k)
  | quiet (k : PC) : HostRest s g k → Quiet s →
      HostAt s g (.sending s.driverGID .quiescent k)

/-- The control points at which the host of an aborted goroutine is active,
while the driver has `rest` still to abort. -/
inductive HostAborts (s : Sys σ) (g : Gid) (rest : List Gid) (k : AfterAbort) : PC → Prop where
  | woken : AbortPlan s (g :: rest) k → s.waiting g = true →
      HostAborts s g rest k (.woken .abort)
  | unwinds (G : Goroutine σ) : AbortPlan s (g :: rest) k →
      s.goroutines.lookup g = some G → G.aborted = true → HostAborts s g rest k .running
  | exits : AbortPlan s rest k → g ∉ s.hosts →
      HostAborts s g rest k (.sending s.driverGID .exited .ended)

/-- Every host but the driver's and `g`'s is at rest. -/
def OthersIdle (s : Sys σ) (g : Gid) : Prop :=
  ∀ h, h ≠ s.driverGID → h ≠ g → Idle s h

/-- No message is in flight. -/
def Silent (s : Sys σ) : Prop := s.wake = fun _ => none

/-- The only message in flight is `m`, to `g`. -/
def InFlight (s : Sys σ) (g : Gid) (m : WakeMsg) : Prop :=
  s.wake = Function.update (fun _ => none) g (some m)

/-- Nobody but `g` and the driver is active, and no message is in flight. -/
structure Sole (s : Sys σ) (g : Gid) : Prop where
  driver_mem : s.driverGID ∈ s.hosts
  idle : OthersIdle s g
  silent : Silent s

/-- The control points at which `g` is active. -/
inductive ActiveAt (s : Sys σ) (g : Gid) (p : PC) : Prop where
  | driver : g = s.driverGID → DriverAt s p → ActiveAt s g p
  | host : g ≠ s.driverGID → DriverRest s (s.pc s.driverGID) → HostAt s g p → ActiveAt s g p
  | unwinding : g ≠ s.driverGID → ∀ rest k, s.pc s.driverGID = .aborting rest k →
      HostAborts s g rest k p → ActiveAt s g p

/-- The messages that `g` can be sent. -/
inductive Addressed (s : Sys σ) (g : Gid) (m : WakeMsg) : Prop where
  | toHost : g ≠ s.driverGID → m = .run → g ∈ s.hosts → DriverRest s (s.pc s.driverGID) →
      s.waitOver g = true → Addressed s g m
  | toAborted : g ≠ s.driverGID → m = .abort → ∀ rest k, s.pc s.driverGID = .aborting rest k →
      AbortPlan s (g :: rest) k → Addressed s g m
  | toDriver : g = s.driverGID → DriverRest s (s.pc s.driverGID) →
      (m = .run ∧ s.waitOver s.driverGID = true ∨ m = .quiescent ∧ Quiet s) → Addressed s g m
  | exited : g = s.driverGID → m = .exited → ∀ rest k, s.pc s.driverGID = .aborting rest k →
      AbortPlan s rest k → Addressed s g m

/-- The message `m` is in flight to `g`, and nobody is active. -/
structure Flight (s : Sys σ) (g : Gid) (m : WakeMsg) : Prop where
  driver_mem : s.driverGID ∈ s.hosts
  idle : OthersIdle s s.driverGID
  flight : InFlight s g m
  addressed : Addressed s g m

/-- **Who holds the baton.** -/
inductive Holder (s : Sys σ) : Prop where
  | active (g : Gid) : Sole s g → ActiveAt s g (s.pc g) → Holder s
  | flight (g : Gid) (m : WakeMsg) : Flight s g m → Holder s
  | done : s.hosts = [] → s.runQueue = [] → OthersIdle s s.driverGID → Silent s →
      s.pc s.driverGID = .returned → Holder s

/-- What holds of the tables, whoever has the baton. -/
structure Tables (s : Sys σ) : Prop where
  hosts_nodup : s.hosts.Nodup
  queue_nodup : s.runQueue.Nodup
  queued : ∀ g ∈ s.runQueue, g ∉ s.hosts ∧ s.pc g = .absent ∧
    ∃ G, s.goroutines.lookup g = some G ∧ G.status = .running ∧ G.aborted = false
  fresh : ∀ g, s.nextGID < g →
    s.goroutines.lookup g = none ∧ s.pc g = .absent ∧ g ∉ s.hosts
  waiting_host : ∀ g, s.waiting g = true → g ∈ s.hosts
  single : s.sched = false → s.runQueue = [] ∧ ∀ h ∈ s.hosts, h = s.driverGID

/-- The invariant of the protocol. -/
structure Inv (s : Sys σ) : Prop extends Tables s where
  holder : Holder s

/-! ## §5. Resting hosts under updates -/

theorem Idle.congr (hi : Idle s h) (hpc : t.pc h = s.pc h) (hhosts : h ∈ t.hosts ↔ h ∈ s.hosts)
    (hw : t.waiting h = s.waiting h) : Idle t h := by
  unfold Idle
  rw [hpc, hhosts, hw]
  exact hi

/-- A host at rest is not at any of the active control points. -/
theorem Idle.pc_cases (hi : Idle s h) :
    s.pc h = .parked ∨ s.pc h = .absent ∨ s.pc h = .ended := by
  by_cases hm : h ∈ s.hosts
  · exact .inl (hi.1 hm).1
  · exact .inr (hi.2 hm)

theorem HostRest.idle (hk : HostRest s g k) (hpc : s.pc g = k) : Idle s g := by
  rcases hk with ⟨rfl, hm, hw⟩ | ⟨rfl, hm⟩
  · exact ⟨fun _ => ⟨hpc, hw⟩, fun hn => absurd hm hn⟩
  · exact ⟨fun hn => absurd hn hm, fun _ => .inr hpc⟩

theorem OthersIdle.setPC {p : PC} (ho : OthersIdle s g) : OthersIdle (s.setPC g p) g :=
  fun h hd hg => (ho h hd hg).congr (by simp [hg]) Iff.rfl rfl

/-- When `g` comes to rest, every host but the driver's is. -/
theorem OthersIdle.rest {k : PC} (ho : OthersIdle s g) (hk : HostRest s g k)
    (hpc : s.pc g = k) : OthersIdle s s.driverGID := by
  intro h hd _
  by_cases hh : h = g
  · exact hh ▸ hk.idle hpc
  · exact ho h hd hh

theorem OthersIdle.mono (ho : OthersIdle s s.driverGID) : OthersIdle s g :=
  fun h hd _ => ho h hd hd

/-- A host that exists may move: the queue and the fresh IDs are about
goroutines without one. -/
theorem Tables.setPC {p : PC} (hT : Tables s) (hp : s.pc g ≠ .absent) : Tables (s.setPC g p) := by
  have hne : ∀ h, s.pc h = .absent → (s.setPC g p).pc h = .absent := by
    intro h habs
    have hg : h ≠ g := fun he => hp (he ▸ habs)
    rw [setPC_pc, update_of_ne hg, habs]
  refine ⟨hT.hosts_nodup, hT.queue_nodup, fun h hh => ?_, fun h hh => ?_, hT.waiting_host,
    hT.single⟩
  · obtain ⟨h1, h2, h3⟩ := hT.queued h hh
    exact ⟨h1, hne h h2, h3⟩
  · obtain ⟨h1, h2, h3⟩ := hT.fresh h hh
    exact ⟨h1, hne h h2, h3⟩

theorem AbortPlan.congr {todo : List Gid} {k : AfterAbort} (hp : AbortPlan s todo k)
    (hh : t.hosts = s.hosts) (hd : t.driverGID = s.driverGID)
    (hhalt : s.halting = true → t.halting = true)
    (hw : t.waiting s.driverGID = s.waiting s.driverGID) : AbortPlan t todo k where
  nodup := hp.nodup
  driver_notMem := hd ▸ hp.driver_notMem
  cover := by
    rw [hh, hd]
    exact hp.cover
  phase := by
    rw [hd, hw]
    rcases hp.phase with ⟨hk, hl, hw⟩ | hk
    · exact .inl ⟨hk, hhalt hl, hw⟩
    · exact .inr hk

theorem Tables.setWake {m : Option WakeMsg} (hT : Tables s) : Tables (s.setWake g m) := { hT with }

/-- No candidate, and the one who asked can't run on: nothing is runnable. -/
theorem quiet_of_candidates (hT : Tables s) (hnil : s.candidates g = [])
    (hg : s.waitOver g = false) (hsingle : s.sched = false → g = s.driverGID) : Quiet s := by
  by_cases hh : s.halting = true
  · exact .inl hh
  right
  obtain ⟨hq, hno⟩ : s.runQueue = [] ∧ ∀ h ∈ s.hosts, h ≠ g → s.waitOver h = false := by
    cases hs : s.sched with
    | true => exact candidates_eq_nil hnil (by simpa using hh) hs
    | false =>
      obtain ⟨hq, hone⟩ := hT.single hs
      exact ⟨hq, fun h hm hne => absurd ((hone h hm).trans (hsingle hs).symm) hne⟩
  refine ⟨hq, fun h => ?_⟩
  by_contra hw
  rw [Bool.not_eq_false] at hw
  by_cases he : h = g
  · rw [he, hg] at hw
    cases hw
  · -- a goroutine whose wait is over has a host
    rw [hno h (hT.waiting_host h (waiting_of_waitOver hw)) he] at hw
    cases hw

/-! ## §6. Handing the baton over -/

theorem Sole.modify (hS : Sole s g) (f : Goroutine σ → Goroutine σ) : Sole (s.modify g f) g :=
  ⟨hS.driver_mem, fun h hd hg => (hS.idle h hd hg).congr rfl Iff.rfl (waiting_modify_ne hg f),
    hS.silent⟩

theorem Sole.setShared (shared : σ) (hS : Sole s g) : Sole (s.setShared shared) g := { hS with }

theorem Sole.setPC {p : PC} (hS : Sole s g) : Sole (s.setPC g p) g := { hS with idle := hS.idle.setPC }

theorem Sole.deleteHost (hS : Sole s g) (hg : g ≠ s.driverGID) : Sole (s.deleteHost g) g :=
  ⟨(List.mem_erase_of_ne hg.symm).mpr hS.driver_mem,
    fun h hd hh => (hS.idle h hd hh).congr rfl (List.mem_erase_of_ne hh) rfl, hS.silent⟩

section Move

variable {p : PC} (hT : Tables s)

include hT

/-- The driver moves to `p`. -/
theorem Inv.driverAt (hS : Sole s s.driverGID) (hpc : s.pc s.driverGID ≠ .absent)
    (hat : DriverAt (s.setPC s.driverGID p) p) : Inv (s.setPC s.driverGID p) := by
  refine ⟨hT.setPC hpc, .active s.driverGID hS.setPC (.driver rfl ?_)⟩
  rw [setPC_pc, update_self]
  exact hat

variable (hS : Sole s g) (hg : g ≠ s.driverGID) (hpc : s.pc g ≠ .absent)

include hS hg hpc

/-- Another host moves to `p`. -/
theorem Inv.hostAt (hd : DriverRest (s.setPC g p) (s.pc s.driverGID))
    (hat : HostAt (s.setPC g p) g p) : Inv (s.setPC g p) := by
  refine ⟨hT.setPC hpc, .active g hS.setPC (.host hg ?_ ?_)⟩
  · rw [setPC_driverGID, setPC_pc, update_of_ne hg.symm]
    exact hd
  · rw [setPC_pc, update_self]
    exact hat

/-- The host of an aborted goroutine moves to `p`. -/
theorem Inv.unwindingAt {rest : List Gid} {k : AfterAbort} (hd : s.pc s.driverGID = .aborting rest k)
    (hat : HostAborts (s.setPC g p) g rest k p) : Inv (s.setPC g p) := by
  refine ⟨hT.setPC hpc, .active g hS.setPC (.unwinding hg rest k ?_ ?_)⟩
  · rw [setPC_driverGID, setPC_pc, update_of_ne hg.symm]
    exact hd
  · rw [setPC_pc, update_self]
    exact hat

end Move

variable {next : Gid}

/-- A queued goroutine gets its host. -/
theorem Tables.startHost (hT : Tables s) (hq : next ∈ s.runQueue) (hs : s.sched = true) :
    Tables (s.startHost next) := by
  obtain ⟨hnh, hnpc, G, hG, -⟩ := hT.queued next hq
  refine ⟨List.nodup_cons.mpr ⟨hnh, hT.hosts_nodup⟩, nodup_takeTask hT.queue_nodup hq, ?_, ?_, ?_, ?_⟩
  · intro h hh
    obtain ⟨hne, hh⟩ := (mem_takeTask hT.queue_nodup hq).mp hh
    obtain ⟨h1, h2, h3⟩ := hT.queued h hh
    exact ⟨by simp [hne, h1], by simp [update_of_ne hne, h2], h3⟩
  · intro h hh
    obtain ⟨h1, h2, h3⟩ := hT.fresh h hh
    have hne : h ≠ next := by
      rintro rfl
      rw [h1] at hG
      cases hG
    exact ⟨h1, by simp [update_of_ne hne, h2], by simp [hne, h3]⟩
  · intro h hw
    exact List.mem_cons_of_mem _ (hT.waiting_host h hw)
  · intro hf
    rw [startHost_sched, hs] at hf
    cases hf

/-- There are candidates only with a scheduler. -/
theorem sched_of_candidates (hc : next ∈ s.candidates g) : s.sched = true := by
  unfold candidates at hc
  split at hc
  · simp at hc
  · rename_i hn
    simp only [Bool.or_eq_true, not_or] at hn
    simpa using hn.2

/-- `g` transfers and rests at `k`: it sends to a host that waits, or a
queued goroutine starts to run. -/
theorem Inv.transfer (hT : Tables s) (hS : Sole s g) (hpc : s.pc g ≠ .absent)
    (ho : OthersIdle (s.setPC g k) s.driverGID) (hd : DriverRest s ((s.setPC g k).pc s.driverGID))
    (hsend : next ≠ g → next ∈ s.hosts → s.waitOver next = true → Inv (s.setPC g (.sending next .run k)))
    (hc : next ∈ s.candidates g) : Inv (s.transfer g next k) := by
  unfold Sys.transfer
  split
  · rename_i hn
    rcases mem_candidates hc with hq | ⟨-, hne, hw⟩
    · exact absurd hn (hT.queued next hq).1
    · exact hsend hne hn hw
  · rename_i hn
    rcases mem_candidates hc with hq | ⟨hn', -, -⟩
    swap
    · exact absurd hn' hn
    obtain ⟨-, hnpc, G, hG, hrun, hab⟩ := hT.queued next hq
    have hng : next ≠ g := fun he => hpc (he ▸ hnpc)
    have hnd : next ≠ s.driverGID := fun he => hn (he ▸ hS.driver_mem)
    have hgpc : (s.startHost next).pc g ≠ .absent := by
      simpa [update_of_ne hng.symm] using hpc
    have hmove : ((s.startHost next).setPC g k).pc =
        Function.update (s.setPC g k).pc next .running := Function.update_comm hng _ _ _
    refine ⟨(hT.startHost hq (sched_of_candidates hc)).setPC hgpc,
      .active next ⟨List.mem_cons_of_mem _ hS.driver_mem, fun h hhd hhn => ?_, hS.silent⟩
        (.host hnd ?_ ?_)⟩
    · refine (ho h hhd hhd).congr ?_ (by simp [hhn]) rfl
      rw [hmove, update_of_ne hhn]
    · rw [hmove, setPC_driverGID, startHost_driverGID, update_of_ne hnd.symm]
      exact hd
    · rw [hmove, update_self]
      exact .runs G List.mem_cons_self hG hrun hab

/-- The driver transfers and rests. -/
theorem Inv.driver_transfer (hT : Tables s) (hS : Sole s s.driverGID)
    (hpc : s.pc s.driverGID ≠ .absent) (hk : DriverRest s k) (hc : next ∈ s.candidates s.driverGID) :
    Inv (s.transfer s.driverGID next k) := by
  refine Inv.transfer hT hS hpc hS.idle.setPC ?_ (fun hne hn hw => ?_) hc
  · rw [setPC_pc, update_self]
    exact hk
  · exact Inv.driverAt hT hS hpc (.sends next k hk hne hn hw)

/-- Another host hands over: to the next goroutine, or to the driver. -/
theorem Inv.handOver (hT : Tables s) (hS : Sole s g) (hg : g ≠ s.driverGID)
    (hpc : s.pc g ≠ .absent) (hd : DriverRest s (s.pc s.driverGID)) (hk : HostRest s g k)
    (hw : s.waitOver g = false) (hsched : s.sched = true) (hst : s.handOver g k choice = some t) :
    Inv t := by
  rcases handOver_cases hst with ⟨next, hc, rfl⟩ | ⟨hnil, rfl⟩
  · refine Inv.transfer hT hS hpc (hS.idle.setPC.rest hk (by simp)) ?_ (fun hne hn hw => ?_) hc
    · rw [setPC_pc, update_of_ne hg.symm]
      exact hd
    · exact Inv.hostAt hT hS hg hpc hd (.sends next k hk hne hn hw)
  · have hquiet : Quiet s := quiet_of_candidates hT hnil hw (by simp [hsched])
    exact Inv.hostAt hT hS hg hpc hd (.quiet k hk hquiet)

/-! ## §7. Steps of a running goroutine that keep the baton -/

/-- An active host has the baton. -/
theorem Holder.active_at {p : PC} (hH : Holder s) (hpc : s.pc g = p) (ha : p.active = true) :
    Sole s g ∧ ActiveAt s g p := by
  subst hpc
  -- a host at rest is not active, nor is the driver at rest
  have hidle : ∀ h, Idle s h → g ≠ h := by
    rintro h hi rfl
    rcases hi.pc_cases with h | h | h <;> rw [h] at ha <;> cases ha
  have hrest : DriverRest s (s.pc s.driverGID) → g ≠ s.driverGID := by
    rintro hd rfl
    rcases hd with ⟨h, -⟩ | ⟨h, -⟩ <;> rw [h] at ha <;> cases ha
  have hpos : ∀ p, s.pc s.driverGID = p → p.active = false → g ≠ s.driverGID := by
    rintro p rfl hp rfl
    rw [hp] at ha
    cases ha
  have hall : OthersIdle s s.driverGID → g = s.driverGID := fun ho =>
    of_not_not fun hne => hidle g (ho g hne hne) rfl
  cases hH with
  | active x hS hat =>
    have hgx : g ≠ s.driverGID → g = x := fun hgd =>
      of_not_not fun hne => hidle g (hS.idle g hgd hne) rfl
    have hg : g = x := by
      cases hat with
      | driver hx => exact hx ▸ hall (hx ▸ hS.idle)
      | host hx hd => exact hgx (hrest hd)
      | unwinding hx rest k hd => exact hgx (hpos _ hd rfl)
    exact hg ▸ ⟨hS, hat⟩
  | flight x m hf =>
    cases hf.addressed with
    | toHost _ _ _ hd | toDriver _ hd => exact absurd (hall hf.idle) (hrest hd)
    | toAborted _ _ _ _ hd | exited _ _ _ _ hd => exact absurd (hall hf.idle) (hpos _ hd rfl)
  | done _ _ ho _ hd => exact absurd (hall ho) (hpos _ hd rfl)

/-- The driver, at an active control point. -/
theorem Holder.driver_active {p : PC} (hH : Holder s) (hpc : s.pc s.driverGID = p)
    (ha : p.active = true) : Sole s s.driverGID ∧ DriverAt s p := by
  obtain ⟨hS, ⟨-, hat⟩ | ⟨hne, -⟩ | ⟨hne, -⟩⟩ := hH.active_at hpc ha
  · exact ⟨hS, hat⟩
  · exact absurd rfl hne
  · exact absurd rfl hne

/-- A change that leaves the hosts where they are and everybody's waiting as
it is. -/
structure Frame (s t : Sys σ) : Prop where
  pc : t.pc = s.pc
  wake : t.wake = s.wake
  hosts : t.hosts = s.hosts
  driverGID : t.driverGID = s.driverGID
  halting : s.halting = true → t.halting = true
  waiting : ∀ g, t.waiting g = s.waiting g
  record : ∀ g G, s.goroutines.lookup g = some G →
    ∃ G', t.goroutines.lookup g = some G' ∧ G'.status = G.status ∧ G'.aborted = G.aborted

theorem Frame.othersIdle (hf : Frame s t) (ho : OthersIdle s g) : OthersIdle t g := by
  intro h hd hg
  rw [hf.driverGID] at hd
  exact (ho h hd hg).congr (by rw [hf.pc]) (by rw [hf.hosts]) (hf.waiting h)

theorem Holder.frame (hH : Holder s) (hr : s.pc g = .running) (hf : Frame s t) : Holder t := by
  obtain ⟨hS, hat⟩ := hH.active_at hr rfl
  have hS' : Sole t g :=
    ⟨by rw [hf.hosts, hf.driverGID]; exact hS.driver_mem, hf.othersIdle hS.idle, hf.wake.trans hS.silent⟩
  refine .active g hS' ?_
  rw [hf.pc, hr]
  rcases hat with ⟨hgd, hat⟩ | ⟨hgd, hd, hat⟩ | ⟨hgd, rest, k, hd, hat⟩
  · cases hat with
    | runs hw =>
      exact .driver (hgd.trans hf.driverGID.symm) (.runs (by rw [hf.waiting, hf.driverGID]; exact hw))
  · cases hat with
    | runs G hgm hG hrun hab =>
      obtain ⟨G', hG', hst', hab'⟩ := hf.record g G hG
      refine .host (hf.driverGID ▸ hgd) ?_
        (.runs G' (hf.hosts ▸ hgm) hG' (hst'.trans hrun) (hab'.trans hab))
      unfold DriverRest
      rw [hf.waiting, hf.driverGID, hf.pc]
      exact hd
  · cases hat with
    | unwinds G hp hG hab =>
      obtain ⟨G', hG', -, hab'⟩ := hf.record g G hG
      refine .unwinding (hf.driverGID ▸ hgd) rest k (by rw [hf.driverGID, hf.pc]; exact hd) ?_
      exact .unwinds G' (hp.congr hf.hosts hf.driverGID hf.halting (hf.waiting _)) hG' (hab'.trans hab)

/-- The tables after such a change to existing goroutines. -/
theorem Tables.frame (hT : Tables s) (hf : Frame s t) (hq : t.runQueue = s.runQueue)
    (hn : t.nextGID = s.nextGID) (hsched : t.sched = s.sched)
    (hnone : ∀ g, s.goroutines.lookup g = none → t.goroutines.lookup g = none) : Tables t where
  hosts_nodup := hf.hosts ▸ hT.hosts_nodup
  queue_nodup := hq ▸ hT.queue_nodup
  queued := by
    intro g hg
    rw [hq] at hg
    obtain ⟨h1, h2, G, hG, hst, hab⟩ := hT.queued g hg
    obtain ⟨G', hG', hst', hab'⟩ := hf.record g G hG
    rw [hf.hosts, hf.pc]
    exact ⟨h1, h2, G', hG', hst'.trans hst, hab'.trans hab⟩
  fresh := by
    intro g hg
    rw [hn] at hg
    obtain ⟨h1, h2, h3⟩ := hT.fresh g hg
    rw [hf.hosts, hf.pc]
    exact ⟨hnone g h1, h2, h3⟩
  waiting_host := by
    intro g hg
    rw [hf.waiting] at hg
    rw [hf.hosts]
    exact hT.waiting_host g hg
  single := by
    rw [hq, hf.hosts, hf.driverGID, hsched]
    exact hT.single

/-- An update of one record that keeps its status and `aborted`. -/
theorem Frame.modify (f : Goroutine σ → Goroutine σ)
    (hst : ∀ G, (f G).status = G.status) (hab : ∀ G, (f G).aborted = G.aborted) :
    Frame s (s.modify g f) where
  pc := rfl
  wake := rfl
  hosts := rfl
  driverGID := rfl
  halting := id
  waiting := fun h => waiting_modify_keep f fun G => by rw [hst, hab]
  record := by
    intro h G hG
    rw [lookup_modify]
    by_cases hh : h = g
    · subst hh
      exact ⟨f G, by simp [hG], hst G, hab G⟩
    · exact ⟨G, by simp [hh, hG], rfl, rfl⟩

theorem Inv.work {flags : Flags} (hI : Inv s) (hr : s.pc g = .running) :
    Inv ((s.setShared shared).modify g (workRecord flags)) := by
  have hf := Frame.modify (s := s) (g := g) (workRecord flags) (fun _ => rfl) (fun _ => rfl)
  -- `Frame` does not speak of the shared state
  have hf' : Frame s ((s.setShared shared).modify g (workRecord flags)) :=
    ⟨rfl, rfl, rfl, rfl, id, hf.waiting, hf.record⟩
  refine ⟨hI.toTables.frame hf' rfl rfl rfl fun h hn => ?_, hI.holder.frame hr hf'⟩
  rw [lookup_modify]
  split
  · rename_i he
    subst he
    simp [hn]
  · exact hn

theorem Inv.unwind (hI : Inv s) (hr : s.pc g = .running) :
    Inv (s.setShared shared) := by
  have hf : Frame s (s.setShared shared) :=
    ⟨rfl, rfl, rfl, rfl, id, fun _ => rfl, fun _ G hG => ⟨G, hG, rfl, rfl⟩⟩
  exact ⟨hI.toTables.frame hf rfl rfl rfl fun _ hn => hn, hI.holder.frame hr hf⟩

theorem lookup_foldl_updateG (f : Goroutine σ → Goroutine σ) :
    ∀ (ks : List Gid) (m : AList fun _ : Gid => Goroutine σ), ks.Nodup →
      (ks.foldl (fun m g => updateG m g f) m).lookup h =
        if h ∈ ks then (m.lookup h).map f else m.lookup h
  | [], m, _ => by simp
  | g :: ks, m, hnd => by
    obtain ⟨hg, hnd⟩ := List.nodup_cons.mp hnd
    rw [List.foldl_cons, lookup_foldl_updateG f ks _ hnd, lookup_updateG]
    by_cases hh : h = g
    · subst hh
      simp [hg]
    · simp [hh]

/-- `haltAll` marks every goroutine. -/
theorem lookup_haltAll :
    s.haltAll.goroutines.lookup h =
      (s.goroutines.lookup h).map fun G => { G with panicked := true } := by
  unfold haltAll
  rw [lookup_foldl_updateG _ _ _ s.goroutines.keys_nodup]
  split
  · rfl
  · rename_i hn
    rw [← AList.mem_keys, ← AList.lookup_isSome] at hn
    rw [Option.not_isSome_iff_eq_none.mp hn]
    rfl

theorem frame_haltAll : Frame s s.haltAll where
  pc := rfl
  wake := rfl
  hosts := rfl
  driverGID := rfl
  halting := fun _ => rfl
  waiting := fun h => by
    unfold Sys.waiting
    rw [lookup_haltAll]
    cases s.goroutines.lookup h <;> rfl
  record := fun h G hG => ⟨{ G with panicked := true }, by rw [lookup_haltAll, hG]; rfl, rfl, rfl⟩

theorem Inv.halt (hI : Inv s) (hr : s.pc g = .running) : Inv s.haltAll :=
  ⟨hI.toTables.frame frame_haltAll rfl rfl rfl fun h hn => by rw [lookup_haltAll, hn]; rfl,
    hI.holder.frame hr frame_haltAll⟩

theorem lookup_startGoroutine (site : String) :
    (s.startGoroutine site).goroutines.lookup h =
      if h = s.nextGID + 1 then some (Goroutine.new site) else s.goroutines.lookup h := by
  by_cases hh : h = s.nextGID + 1
  · subst hh
    simp
  · simp [hh]

theorem Inv.spawn {site : String} (hI : Inv s) (hr : s.pc g = .running) (hs : s.sched = true) :
    Inv (s.startGoroutine site) := by
  obtain ⟨hnone, habs, hnh⟩ := hI.fresh (s.nextGID + 1) (Int.lt_succ _)
  have hold : ∀ h G, s.goroutines.lookup h = some G →
      (s.startGoroutine site).goroutines.lookup h = some G := by
    intro h G hG
    have hne : h ≠ s.nextGID + 1 := by
      rintro rfl
      rw [hnone] at hG
      cases hG
    rw [lookup_startGoroutine, if_neg hne, hG]
  have hwait : ∀ h, (s.startGoroutine site).waiting h = s.waiting h := by
    intro h
    by_cases hh : h = s.nextGID + 1
    · subst hh
      simp [waiting, hnone, Goroutine.new]
    · exact waiting_eq_of_lookup (by rw [lookup_startGoroutine, if_neg hh])
  have hf : Frame s (s.startGoroutine site) :=
    ⟨rfl, rfl, rfl, rfl, id, hwait, fun h G hG => ⟨G, hold h G hG, rfl, rfl⟩⟩
  have hnq : s.nextGID + 1 ∉ s.runQueue := by
    intro hq
    obtain ⟨-, -, G, hG, -⟩ := hI.queued _ hq
    rw [hnone] at hG
    cases hG
  refine ⟨⟨hI.hosts_nodup, ?_, ?_, ?_, ?_, ?_⟩, hI.holder.frame hr hf⟩
  · exact List.nodup_append.mpr ⟨hI.queue_nodup, by simp, by
      rintro x hx y hy rfl
      exact hnq (List.mem_singleton.mp hy ▸ hx)⟩
  · intro h hh
    rcases List.mem_append.mp hh with hh | hh
    · obtain ⟨h1, h2, G, hG, h3⟩ := hI.queued h hh
      exact ⟨h1, h2, G, hold h G hG, h3⟩
    · obtain rfl := List.mem_singleton.mp hh
      exact ⟨hnh, habs, Goroutine.new site, by rw [lookup_startGoroutine, if_pos rfl], rfl, rfl⟩
  · intro h hh
    have hlt : s.nextGID + 1 < h := hh
    obtain ⟨h1, h2, h3⟩ := hI.fresh h (Int.lt_trans (Int.lt_succ _) hlt)
    exact ⟨by rw [lookup_startGoroutine, if_neg (Int.ne_of_gt hlt), h1], h2, h3⟩
  · intro h hh
    rw [hwait] at hh
    exact hI.waiting_host h hh
  · intro hn
    have : s.sched = false := hn
    rw [hs] at this
    cases this

/-! ## §8. Blocking and exiting -/

theorem waitOver_false (hw : s.waiting g = false) : s.waitOver g = false := by
  by_contra h
  rw [waiting_of_waitOver (by simpa using h)] at hw
  cases hw

/-- The tables when the record of a goroutine with a host changes. -/
theorem Tables.modify_host (hT : Tables s) (hg : g ∈ s.hosts) (f : Goroutine σ → Goroutine σ) :
    Tables (s.modify g f) := by
  refine ⟨hT.hosts_nodup, hT.queue_nodup, fun h hh => ?_, fun h hh => ?_, fun h hh => ?_,
    hT.single⟩
  · obtain ⟨h1, h2, G, hG, h3⟩ := hT.queued h hh
    have hne : h ≠ g := fun he => h1 (he ▸ hg)
    exact ⟨h1, h2, G, by rw [lookup_modify, if_neg hne, hG], h3⟩
  · obtain ⟨h1, h2, h3⟩ := hT.fresh h hh
    have hne : h ≠ g := fun he => h3 (he ▸ hg)
    exact ⟨by rw [lookup_modify, if_neg hne, h1], h2, h3⟩
  · by_cases he : h = g
    · exact he ▸ hg
    · rw [waiting_modify_ne he] at hh
      exact hT.waiting_host h hh

theorem Tables.setShared (shared : σ) (hT : Tables s) : Tables (s.setShared shared) := { hT with }

theorem DriverRest.modify (hd : DriverRest s k) (hg : g ≠ s.driverGID)
    (f : Goroutine σ → Goroutine σ) : DriverRest (s.modify g f) k := by
  unfold DriverRest
  rw [modify_driverGID, waiting_modify_ne hg.symm]
  exact hd

/-- The scheduler exists once there is a second host. -/
theorem Tables.sched (hT : Tables s) (hg : g ∈ s.hosts) (hne : g ≠ s.driverGID) :
    s.sched = true := by
  by_contra hs
  exact hne ((hT.single (by simpa using hs)).2 g hg)

section Park

variable {w : WaitInfo σ} (hp : s.MustPark g w)

include hp

/-- The goroutine now waits, -/
theorem MustPark.waiting : (s.modify g (parkRecord w)).waiting g = true := by
  obtain ⟨G, hG, hab, -⟩ := hp
  rw [waiting_modify_self hG]
  simp [parkRecord, hab]

/-- … and its wait is not over. -/
theorem MustPark.waitOver : (s.modify g (parkRecord w)).waitOver g = false := by
  obtain ⟨G, hG, -, hnot⟩ := hp
  unfold Sys.waitOver
  rw [lookup_modify_self hG]
  cases hready : w.ready <;> simp_all [parkRecord, WaitInfo.isReady]

end Park

/-- `finishGoroutine` keeps everybody's waiting. -/
theorem waiting_finishGoroutine : (s.finishGoroutine g).waiting h = s.waiting h := by
  refine waiting_modify_keep _ fun G => ?_
  unfold finishRecord
  split
  · rfl
  · rename_i hst
    rw [not_not] at hst
    split
    · simp [hst]
    · split
      · rfl
      · rw [hst]
        rfl

/-- The hosts without one that does not wait. -/
theorem Tables.deleteHost (hT : Tables s) (hw : s.waiting g = false) : Tables (s.deleteHost g) := by
  refine ⟨hT.hosts_nodup.erase g, hT.queue_nodup, fun h hh => ?_, fun h hh => ?_, fun h hh => ?_,
    fun hf => ?_⟩
  · obtain ⟨h1, h2, h3⟩ := hT.queued h hh
    exact ⟨fun hm => h1 (List.mem_of_mem_erase hm), h2, h3⟩
  · obtain ⟨h1, h2, h3⟩ := hT.fresh h hh
    exact ⟨h1, h2, fun hm => h3 (List.mem_of_mem_erase hm)⟩
  · change s.waiting h = true at hh
    have hne : h ≠ g := by
      rintro rfl
      rw [hw] at hh
      cases hh
    exact (hT.hosts_nodup.mem_erase_iff).mpr ⟨hne, hT.waiting_host h hh⟩
  · exact ⟨(hT.single hf).1, fun h hh => (hT.single hf).2 h (List.mem_of_mem_erase hh)⟩

theorem AbortPlan.deleteHost {rest : List Gid} {k : AfterAbort} (hp : AbortPlan s (g :: rest) k)
    (hT : Tables s) : AbortPlan (s.deleteHost g) rest k where
  nodup := (List.nodup_cons.mp hp.nodup).2
  driver_notMem := fun hm => hp.driver_notMem (List.mem_cons_of_mem _ hm)
  cover := by
    intro h
    have hgr : g ∉ rest := (List.nodup_cons.mp hp.nodup).1
    have hgd : s.driverGID ≠ g := fun he => hp.driver_notMem (he ▸ List.mem_cons_self)
    rw [deleteHost_hosts, hT.hosts_nodup.mem_erase_iff, hp.cover h, List.mem_cons]
    constructor
    · rintro ⟨hne, hh | hh | hh⟩
      · exact .inl hh
      · exact absurd hh hne
      · exact .inr hh
    · rintro (rfl | hh)
      · exact ⟨hgd, .inl rfl⟩
      · exact ⟨fun he => hgr (he ▸ hh), .inr (.inr hh)⟩
  phase := hp.phase

section Running

variable (hI : Inv s)

include hI

section Driver

variable (hr : s.pc s.driverGID = .running)

include hr

theorem Inv.yields (hp : s.MustPark s.driverGID w)
    (hc : next ∈ (s.modify s.driverGID (parkRecord w)).candidates s.driverGID) :
    Inv ((s.modify s.driverGID (parkRecord w)).transfer s.driverGID next .parked) := by
  obtain ⟨hS, -⟩ := hI.holder.driver_active hr rfl
  exact Inv.driver_transfer (hI.toTables.modify_host hS.driver_mem _) (hS.modify _) (by simp [hr])
    (.inl ⟨rfl, hp.waiting⟩) hc

theorem Inv.asleep (hp : s.MustPark s.driverGID w)
    (hnil : (s.modify s.driverGID (parkRecord w)).candidates s.driverGID = []) :
    Inv ((s.modify s.driverGID (parkRecord w)).setPC s.driverGID (.woken .quiescent)) := by
  obtain ⟨hS, -⟩ := hI.holder.driver_active hr rfl
  have hT := hI.toTables.modify_host hS.driver_mem (parkRecord w)
  have hquiet := quiet_of_candidates hT hnil hp.waitOver fun _ => rfl
  exact Inv.driverAt hT (hS.modify _) (by simp [hr]) (.asleep hp.waiting hquiet)

theorem Inv.bodyReturns :
    Inv (((s.setShared shared).finishGoroutine s.driverGID).setPC s.driverGID .looping) := by
  obtain ⟨hS, hat⟩ := hI.holder.driver_active hr rfl
  cases hat with
  | runs hw =>
    exact Inv.driverAt ((hI.toTables.setShared shared).modify_host hS.driver_mem _)
      ((hS.setShared shared).modify _) (by simp [hr]) (.loops (waiting_finishGoroutine.trans hw))

end Driver

variable (hr : s.pc g = .running) (hgd : g ≠ s.driverGID)

include hr hgd

theorem Inv.parks (hp : s.MustPark g w)
    (hst : (s.modify g (parkRecord w)).handOver g .parked choice = some t) : Inv t := by
  obtain ⟨hS, ⟨hd, -⟩ | ⟨-, hd, hat⟩ | ⟨-, rest, k, -, hat⟩⟩ := hI.holder.active_at hr rfl
  · exact absurd hd hgd
  · cases hat with
    | runs G hgm =>
      exact Inv.handOver (hI.toTables.modify_host hgm _) (hS.modify _) hgd (by simp [hr])
        (hd.modify hgd _) (.inl ⟨rfl, hgm, hp.waiting⟩) hp.waitOver (hI.toTables.sched hgm hgd) hst
  · cases hat with
    | unwinds G hplan hG hab =>
      obtain ⟨G', hG', hab', -⟩ := hp
      rw [hG] at hG'
      cases hG'
      rw [hab] at hab'
      cases hab'

theorem Inv.ends (hnot : ∀ G, s.goroutines.lookup g = some G → G.aborted = false)
    (hst : (((s.setShared shared).deleteHost g).finishGoroutine g).handOver g .ended choice = some t) :
    Inv t := by
  obtain ⟨hS, ⟨hd, -⟩ | ⟨-, hd, hat⟩ | ⟨-, rest, k, -, hat⟩⟩ := hI.holder.active_at hr rfl
  · exact absurd hd hgd
  · cases hat with
    | runs G hgm hG hrun =>
      have hw : s.waiting g = false := by simp [waiting_of_lookup hG, hrun]
      have hgone : g ∉ s.hosts.erase g := fun h => (hI.hosts_nodup.mem_erase_iff.mp h).1 rfl
      -- record first, host table second: the exiting goroutine still has its host then
      have hT : Tables (((s.setShared shared).finishGoroutine g).deleteHost g) :=
        ((hI.toTables.setShared shared).modify_host hgm _).deleteHost (waiting_finishGoroutine.trans hw)
      exact Inv.handOver hT (((hS.setShared shared).modify _).deleteHost hgd) hgd (by simp [hr])
        (DriverRest.modify (s := s.setShared shared) hd hgd _) (.inr ⟨rfl, hgone⟩)
        (waitOver_false (waiting_finishGoroutine.trans hw)) (hI.toTables.sched hgm hgd) hst
  · cases hat with
    | unwinds G hp hG hab =>
      rw [hnot G hG] at hab
      cases hab

theorem Inv.unwound (hG : s.goroutines.lookup g = some G) (hab : G.aborted = true) :
    Inv (((s.setShared shared).deleteHost g).setPC g (.sending s.driverGID .exited .ended)) := by
  obtain ⟨hS, ⟨hd, -⟩ | ⟨-, hd, hat⟩ | ⟨-, rest, k, hd, hat⟩⟩ := hI.holder.active_at hr rfl
  · exact absurd hd hgd
  · cases hat with
    | runs G' hgm hG' hrun hab' =>
      rw [hG] at hG'
      cases hG'
      rw [hab] at hab'
      cases hab'
  · cases hat with
    | unwinds G' hp =>
      have hw : s.waiting g = false := by simp [waiting_of_lookup hG, hab]
      have hT := hI.toTables.setShared shared
      have hp' : AbortPlan (s.setShared shared) (g :: rest) k := { hp with }
      exact Inv.unwindingAt (hT.deleteHost hw) ((hS.setShared shared).deleteHost hgd) hgd
        (by simp [hr]) hd (.exits { hp'.deleteHost hT with }
          fun h => (hI.hosts_nodup.mem_erase_iff.mp h).1 rfl)

end Running

/-! ## §9. Aborting -/

section Abort

variable {k : AfterAbort} (hT : Tables s) (hS : Sole s s.driverGID)
  (hd : s.pc s.driverGID ≠ .absent)

include hT hS hd

/-- `abortParked` has seen every other host unwind. -/
theorem Inv.abortDone (hp : AbortPlan s [] k) : Inv (s.abortDone k) := by
  have honly : ∀ h, h ∈ s.hosts → h = s.driverGID := fun h hh => by
    simpa using (hp.cover h).mp hh
  cases k with
  | inBlock =>
    refine Inv.driverAt (hT.modify_host hS.driver_mem _) (hS.modify _) hd (.runs ?_)
    obtain ⟨-, -, hw⟩ | ⟨hk, -⟩ := hp.phase
    · obtain ⟨G, hG, -⟩ := exists_of_waiting hw
      rw [setPC_driverGID, modify_driverGID, waiting_setPC, waiting_modify_self hG]
      simp
    · cases hk
  | atEnd =>
    have hw : s.waiting s.driverGID = false := by
      rcases hp.phase with ⟨hk, -⟩ | ⟨-, hw⟩
      · cases hk
      · exact hw
    have hnil : s.hosts.erase s.driverGID = [] := by
      refine List.eq_nil_iff_forall_not_mem.mpr fun h hh => ?_
      obtain ⟨hne, hh⟩ := hT.hosts_nodup.mem_erase_iff.mp hh
      exact hne (honly h hh)
    refine ⟨⟨?_, List.nodup_nil, by simp [Sys.abortDone], fun h hh => ?_, fun h hh => ?_,
      fun _ => ⟨rfl, by simp [Sys.abortDone, hnil]⟩⟩,
      .done hnil rfl (fun h hhd hhn => ?_) hS.silent ?_⟩
    · simp [Sys.abortDone, hnil]
    · obtain ⟨h1, h2, h3⟩ := hT.fresh h hh
      have hne : h ≠ s.driverGID := fun he => h3 (he ▸ hS.driver_mem)
      refine ⟨h1, ?_, by simp [Sys.abortDone, hnil]⟩
      rw [Sys.abortDone, setPC_pc, update_of_ne hne]
      exact h2
    · change s.waiting h = true at hh
      rw [honly h (hT.waiting_host h hh), hw] at hh
      cases hh
    · have hhd : h ≠ s.driverGID := hhd
      have hnm : h ∉ s.hosts := fun hh => hhd (honly h hh)
      refine ⟨fun hh => ?_, fun _ => ?_⟩
      · exact absurd (List.mem_of_mem_erase hh) hnm
      · rw [Sys.abortDone, setPC_pc, update_of_ne hhd]
        exact (hS.idle h hhd hhd).2 hnm
    · simp [Sys.abortDone]

/-- The loop of `abortParked`. -/
theorem Inv.abortNext {todo : List Gid} (hp : AbortPlan s todo k) : Inv (s.abortNext todo k) := by
  cases todo with
  | nil => exact Inv.abortDone hT hS hd hp
  | cons id rest =>
    exact Inv.driverAt hT hS hd (.aborts id rest k { hp with })

theorem Inv.abortParked
    (hphase : (k = .inBlock ∧ s.halting = true ∧ s.waiting s.driverGID = true) ∨
      (k = .atEnd ∧ s.waiting s.driverGID = false)) : Inv (s.abortParked k) := by
  have hm := hS.driver_mem
  unfold Sys.abortParked
  split
  · rename_i hlen
    refine Inv.abortDone hT hS hd ⟨List.nodup_nil, List.not_mem_nil, fun h => ?_, hphase⟩
    obtain ⟨x, hx⟩ := List.length_eq_one_iff.mp
      (Nat.le_antisymm hlen (List.length_pos_of_mem hm))
    rw [hx, List.mem_singleton] at hm
    simp [hx, hm]
  · refine Inv.abortNext hT hS hd ⟨?_, ?_, fun h => ?_, hphase⟩
    · exact (List.perm_insertionSort _ _).nodup_iff.mpr (hT.hosts_nodup.filter _)
    · simp [List.mem_insertionSort]
    · by_cases hh : h = s.driverGID
      · simp [hh, hm]
      · simp [List.mem_insertionSort, hh]

end Abort

/-! ## §10. Sending and receiving -/

variable {m : WakeMsg}

theorem Silent.setWake (hs : Silent s) : InFlight (s.setWake g (some m)) g m := by
  show Function.update s.wake g (some m) = _
  rw [hs]

theorem InFlight.receive (hf : InFlight s g m) : Silent (s.setWake g none) := by
  show Function.update s.wake g none = _
  rw [hf, Function.update_idem]
  exact Function.update_eq_self g _

theorem OthersIdle.setWake {m : Option WakeMsg} (ho : OthersIdle s g) :
    OthersIdle (s.setWake h m) g := ho

theorem Inv.send (hI : Inv s) {dst : Gid} {next : PC} (hpc : s.pc g = .sending dst m next) :
    s.wake dst = none ∧ Inv ((s.setWake dst (some m)).setPC g next) := by
  obtain ⟨⟨hm, ho, hs⟩, hcase⟩ := hI.holder.active_at hpc rfl
  refine ⟨by rw [hs], hI.toTables.setWake.setPC (by simp [hpc]), .flight dst m ?_⟩
  have ho' : OthersIdle ((s.setWake dst (some m)).setPC g next) g := ho.setWake.setPC
  have hfl : InFlight ((s.setWake dst (some m)).setPC g next) dst m := hs.setWake
  have hself : ((s.setWake dst (some m)).setPC g next).pc g = next := by simp
  -- a sender that is not the driver leaves the driver where it is
  have hdpc : g ≠ s.driverGID →
      ((s.setWake dst (some m)).setPC g next).pc s.driverGID = s.pc s.driverGID := fun hgd => by
    rw [setPC_pc, update_of_ne hgd.symm, setWake_pc]
  rcases hcase with ⟨hgd, hat⟩ | ⟨hgd, hd, hat⟩ | ⟨hgd, rest, k, hd, hat⟩
  · -- the driver sends
    subst hgd
    refine ⟨hm, ho', hfl, ?_⟩
    cases hat with
    | sends _ _ hk hdst hmem hw =>
      refine .toHost hdst rfl hmem ?_ hw
      rw [setPC_driverGID, setWake_driverGID, hself]
      exact hk
    | aborts _ rest k hp =>
      have hdst : dst ≠ s.driverGID := fun he => hp.driver_notMem (he ▸ List.mem_cons_self)
      exact .toAborted hdst rfl rest k hself { hp with }
  · -- another host sends, and rests
    have hd' : DriverRest ((s.setWake dst (some m)).setPC g next)
        (((s.setWake dst (some m)).setPC g next).pc s.driverGID) := by
      rw [hdpc hgd]
      exact hd
    cases hat with
    | sends _ _ hk hdst hmem hw =>
      refine ⟨hm, ho'.rest hk hself, hfl, ?_⟩
      by_cases hdd : dst = s.driverGID
      · exact .toDriver hdd hd' (.inl ⟨rfl, hdd ▸ hw⟩)
      · exact .toHost hdd rfl hmem hd' hw
    | quiet _ hk hq =>
      exact ⟨hm, ho'.rest hk hself, hfl, .toDriver rfl hd' (.inr ⟨rfl, hq⟩)⟩
  · cases hat with
    | exits hp hgone =>
      exact ⟨hm, ho'.rest (.inr ⟨rfl, hgone⟩) hself, hfl,
        .exited rfl rfl rest k ((hdpc hgd).trans hd) { hp with }⟩

/-- A message in flight is the only one. -/
theorem Holder.flight_of_wake (hH : Holder s) (hw : s.wake g = some m) : Flight s g m := by
  have hsilent : ¬Silent s := fun hs => by rw [hs] at hw; cases hw
  cases hH with
  | active _ hS => exact absurd hS.silent hsilent
  | done _ _ _ hs => exact absurd hs hsilent
  | flight x n hf =>
    rw [hf.flight] at hw
    by_cases hx : g = x
    · subst hx
      rw [update_self] at hw
      exact Option.some.inj hw ▸ hf
    · rw [update_of_ne hx] at hw
      cases hw

/-- Only the driver receives outside `block`. -/
theorem Flight.driver (hf : Flight s g m) (hpc : s.pc g ≠ .parked) :
    g = s.driverGID ∧ (DriverRest s (s.pc s.driverGID) ∨
      ∃ rest k, s.pc s.driverGID = .aborting rest k ∧ AbortPlan s rest k) := by
  rcases hf.addressed with ⟨hgd, -, hgm, -⟩ | ⟨hgd, -, rest, k, -, hp⟩ | ⟨hgd, hd, -⟩ |
    ⟨hgd, -, rest, k, hd, hp⟩
  · exact absurd ((hf.idle g hgd hgd).1 hgm).1 hpc
  · exact absurd ((hf.idle g hgd hgd).1 ((hp.cover g).mpr (.inr List.mem_cons_self))).1 hpc
  · exact ⟨hgd, .inl hd⟩
  · exact ⟨hgd, .inr ⟨rest, k, hd, hp⟩⟩

theorem Flight.receive (hf : Flight s g m) : Sole (s.setWake g none) g :=
  ⟨hf.driver_mem, hf.idle.mono.setWake, hf.flight.receive⟩

section Receive

variable {m : WakeMsg} (hI : Inv s) (hw : s.wake g = some m)

include hI hw

/-- A receive in `block`. -/
theorem Inv.wakes (hpc : s.pc g = .parked) : Inv ((s.setWake g none).setPC g (.woken m)) := by
  have hf := hI.holder.flight_of_wake hw
  have hT : Tables (s.setWake g none) := hI.toTables.setWake
  have hne : (s.setWake g none).pc g ≠ .absent := by simp [hpc]
  rcases hf.addressed with ⟨hgd, rfl, hgm, hd, hover⟩ | ⟨hgd, rfl, rest, k, hd, hp⟩ |
    ⟨rfl, hd, hc⟩ | ⟨rfl, -, rest, k, hd, -⟩
  · exact Inv.hostAt hT hf.receive hgd hne hd (.resumes hgm hover)
  · have hwait : s.waiting g = true :=
      ((hf.idle g hgd hgd).1 ((hp.cover g).mpr (.inr List.mem_cons_self))).2
    exact Inv.unwindingAt hT hf.receive hgd hne hd (.woken { hp with } hwait)
  · refine Inv.driverAt hT hf.receive hne ?_
    rcases hc with ⟨rfl, hover⟩ | ⟨rfl, hq⟩
    · exact .resumes hover
    · rcases hd with ⟨-, hwait⟩ | ⟨hp, -⟩
      · exact .asleep hwait hq
      · rw [hp] at hpc
        cases hpc
  · rw [hd] at hpc
    cases hpc

/-- A receive in `drainAll`. -/
theorem Inv.redrains (hpc : s.pc g = .draining) : Inv ((s.setWake g none).setPC g .looping) := by
  have hf := hI.holder.flight_of_wake hw
  obtain ⟨rfl, (⟨hp, -⟩ | ⟨-, hwt⟩) | ⟨rest, k, hd, -⟩⟩ := hf.driver (by simp [hpc])
  · rw [hp] at hpc
    cases hpc
  · exact Inv.driverAt hI.toTables.setWake hf.receive (by simp [hpc]) (.loops hwt)
  · rw [hd] at hpc
    cases hpc

/-- A receive in `abortParked`. -/
theorem Inv.abortsNext {rest : List Gid} {k : AfterAbort} (hpc : s.pc g = .aborting rest k) :
    Inv ((s.setWake g none).abortNext rest k) := by
  have hf := hI.holder.flight_of_wake hw
  obtain ⟨rfl, hd | ⟨rest', k', hd, hp⟩⟩ := hf.driver (by simp [hpc])
  · rcases hd with ⟨hp, -⟩ | ⟨hp, -⟩ <;> rw [hp] at hpc <;> cases hpc
  · rw [hd] at hpc
    cases hpc
    exact Inv.abortNext hI.toTables.setWake hf.receive (by simp [hd]) { hp with }

end Receive

/-! ## §11. The switch of `block`, the loop of `drainAll`, and the step lemma -/

section Loops

variable (hI : Inv s)

include hI

theorem Inv.resumes (hpc : s.pc g = .woken .run) :
    Inv ((s.modify g fun G => { G with status := .running, wait := none }).setPC g .running) := by
  obtain ⟨hS, ⟨rfl, hat⟩ | ⟨hgd, hd, hat⟩ | ⟨hgd, rest, k, hd, hat⟩⟩ := hI.holder.active_at hpc rfl
  · cases hat with
    | resumes hover =>
      obtain ⟨G, hG, -⟩ := exists_of_waiting (waiting_of_waitOver hover)
      refine Inv.driverAt (hI.toTables.modify_host hS.driver_mem _) (hS.modify _) (by simp [hpc])
        (.runs ?_)
      rw [setPC_driverGID, modify_driverGID, waiting_setPC, waiting_modify_self hG]
      rfl
  · cases hat with
    | resumes hgm hover =>
      obtain ⟨G, hG, hab⟩ := exists_of_waiting (waiting_of_waitOver hover)
      exact Inv.hostAt (hI.toTables.modify_host hgm _) (hS.modify _) hgd (by simp [hpc])
        (hd.modify hgd _) (.runs _ hgm (lookup_modify_self hG) rfl hab)
  · cases hat

theorem Inv.quiesces (hpc : s.pc g = .woken .quiescent) :
    Inv ({ s with deadlock := s.reportDeadlock.deadlock, halting := true }.abortParked .inBlock) := by
  obtain ⟨hS, ⟨rfl, hat⟩ | ⟨-, -, hat⟩ | ⟨-, rest, k, -, hat⟩⟩ := hI.holder.active_at hpc rfl
  · cases hat with
    | asleep hwait =>
      exact Inv.abortParked { hI.toTables with } { hS with } (by simp [hpc]) (.inl ⟨rfl, rfl, hwait⟩)
  · cases hat
  · cases hat

theorem Inv.aborted (hpc : s.pc g = .woken m) (hm : m = .abort ∨ m = .exited) :
    Inv ((s.modify g fun G => { G with aborted := true }).setPC g .running) := by
  obtain ⟨hS, ⟨-, hat⟩ | ⟨-, -, hat⟩ | ⟨hgd, rest, k, hd, hat⟩⟩ := hI.holder.active_at hpc rfl
  · rcases hm with rfl | rfl <;> cases hat
  · rcases hm with rfl | rfl <;> cases hat
  · cases hat with
    | woken hp hwait =>
      obtain ⟨G, hG, -⟩ := exists_of_waiting hwait
      have hgm : g ∈ s.hosts := (hp.cover g).mpr (.inr List.mem_cons_self)
      exact Inv.unwindingAt (hI.toTables.modify_host hgm _) (hS.modify _) hgd (by simp [hpc]) hd
        (.unwinds _ (hp.congr rfl rfl id (waiting_modify_ne hgd.symm _)) (lookup_modify_self hG) rfl)

theorem Inv.drains (hpc : s.pc s.driverGID = .looping) (hc : next ∈ s.candidates s.driverGID) :
    Inv (s.transfer s.driverGID next .draining) := by
  obtain ⟨hS, hat⟩ := hI.holder.driver_active hpc rfl
  cases hat with
  | loops hw =>
    exact Inv.driver_transfer hI.toTables hS (by simp [hpc]) (.inr ⟨rfl, hw⟩) hc

theorem Inv.drained (hpc : s.pc s.driverGID = .looping) (hnil : s.candidates s.driverGID = []) :
    Inv (s.setPC s.driverGID .drained) := by
  obtain ⟨hS, hat⟩ := hI.holder.driver_active hpc rfl
  cases hat with
  | loops hw =>
    have hquiet := quiet_of_candidates hI.toTables hnil (waitOver_false hw) fun _ => rfl
    exact Inv.driverAt hI.toTables hS (by simp [hpc]) (.drained hw hquiet)

theorem Inv.abortAll (hpc : s.pc s.driverGID = .drained) : Inv (s.abortParked .atEnd) := by
  obtain ⟨hS, hat⟩ := hI.holder.driver_active hpc rfl
  cases hat with
  | drained hw => exact Inv.abortParked hI.toTables hS (by simp [hpc]) (.inr ⟨rfl, hw⟩)

/-- **The step lemma.** -/
theorem Inv.step {a : Act σ} (hst : s.step a = some t) : Inv t := by
  cases stepped hst with
  | work hc => exact hI.work (running_of_canWork hc)
  | spawn hc hs => exact hI.spawn (running_of_canWork hc) hs
  | passes => exact hI
  | parks hr hp hgd hst => exact hI.parks hr hgd hp hst
  | yields hr hp hc => exact hI.yields hr hp hc
  | asleep hr hp hnil => exact hI.asleep hr hp hnil
  | halt hc => exact hI.halt (running_of_canWork hc)
  | unwind hr => exact hI.unwind hr
  | bodyReturns hr => exact hI.bodyReturns hr
  | unwound hr hgd hG hab => exact hI.unwound hr hgd hG hab
  | ends hr hgd hnot hst => exact hI.ends hr hgd hnot hst
  | send hpc => exact (hI.send hpc).2
  | wakes hpc hw => exact hI.wakes hw hpc
  | redrains hpc hw => exact hI.redrains hw hpc
  | abortsNext hpc hw => exact hI.abortsNext hw hpc
  | resumes hpc => exact hI.resumes hpc
  | quiesces hpc => exact hI.quiesces hpc
  | aborted hpc hm => exact hI.aborted hpc hm
  | drains hpc hc => exact hI.drains hpc hc
  | drained hpc hnil => exact hI.drained hpc hnil
  | abortAll hpc => exact hI.abortAll hpc

end Loops

/-- The steps as a relation. -/
def Step (s : Sys σ) (a : Act σ) (t : Sys σ) : Prop := s.step a = some t

theorem lookup_start (shared : σ) (gid : Gid) (sched : Bool) :
    (start shared gid sched).goroutines.lookup h =
      if h = gid then some (Goroutine.new "") else none := by
  unfold start
  by_cases hh : h = gid
  · rw [if_pos hh, hh, AList.lookup_insert]
  · rw [if_neg hh, AList.lookup_insert_ne hh, AList.lookup_empty]

theorem inv_start (shared : σ) (gid : Gid) (sched : Bool) : Inv (start shared gid sched) := by
  have hw : ∀ h, (start shared gid sched).waiting h = false := by
    intro h
    unfold Sys.waiting
    rw [lookup_start]
    by_cases hh : h = gid
    · rw [if_pos hh]
      rfl
    · rw [if_neg hh]
  refine ⟨⟨List.nodup_singleton gid, List.nodup_nil, ?_, ?_, ?_, ?_⟩,
    .active gid ⟨List.mem_singleton_self gid, ?_, rfl⟩ (.driver rfl ?_)⟩
  · intro h hh
    cases hh
  · intro h hh
    have hne : h ≠ gid := Int.ne_of_gt hh
    exact ⟨by rw [lookup_start, if_neg hne], by simp [start, hne], by simpa [start]⟩
  · intro h hh
    rw [hw] at hh
    cases hh
  · intro _
    exact ⟨rfl, fun h hh => List.mem_singleton.mp hh⟩
  · intro h hd _
    have hd : h ≠ gid := hd
    exact ⟨fun hh => absurd (List.mem_singleton.mp hh) hd,
      fun _ => .inl (by simp [start, hd])⟩
  · have hpc : (start shared gid sched).pc gid = .running := by simp [start]
    rw [hpc]
    exact .runs (hw _)

/-- **The run lemma**: the invariant holds in every state a run reaches. -/
theorem inv_run {gid : Gid} {sched : Bool} {acts : List (Act σ)}
    (hrun : Transition.Run Step (start shared gid sched) acts s) : Inv s :=
  hrun.invariant (fun _ _ _ hst hI => hI.step hst) (inv_start shared gid sched)

end Giri.Sched.Sys
