/-
Giri.Call.DeferTheorems — which deferred calls are run, when, and in which
order.

The log of a goroutine is read by a small automaton, one for each frame
(`status`): what is registered goes on a stack, what is run must be on top of
it, nothing may be lost, and the stack must be empty when the frame is
popped. `defers_run_once` says that no frame's automaton goes wrong, and
that after an abort nothing is run any more.

Both need conditions on the program (`DeferOK`). `executeDeferred` drops the
calls it has no case for. A wait given up in a probe takes all deferred calls
of the frames inside the probe with it, although the goroutine is not
aborted. And a goroutine aborted in a deferred call is still inside the loop
of `runFrameDefers`, which looks at `g.Aborted` only when it begins: the
intercepted calls left in the frame are executed (`defers_lost`).
-/
import Giri.Call.Unwind
import Mathlib.Data.List.Induction

namespace Giri.Call

variable {N V W : Type}

/-! ## §1. Reading the log -/

/-- The frame an entry is about. -/
def Event.frame : Event V → Option Nat
  | .registered n _ | .ran n _ | .lost n _ | .popped n => some n
  | _ => none

def Event.isRan : Event V → Bool
  | .ran _ _ => true
  | _ => false

/-- Where a frame is: with deferred calls pending, the last one registered
first; popped; or something went wrong. -/
inductive Status where
  | pending (ds : List Nat)
  | popped
  | wrong
  deriving DecidableEq, Repr

namespace Status

/-- The status of the frame `n` after another entry. -/
def after (n : Nat) (st : Status) : Event V → Status
  | .registered m d =>
    if m = n then
      match st with
      | .pending ds => .pending (d :: ds)
      | _ => .wrong
    else st
  | .ran m d =>
    if m = n then
      match st with
      | .pending (e :: ds) => if e = d then .pending ds else .wrong
      | _ => .wrong
    else st
  | .lost m _ => if m = n then .wrong else st
  | .popped m => if m = n then (if st = .pending [] then .popped else .wrong) else st
  | .recovered _ _ | .aborted | .halted => st

/-- How often `d` is pending. -/
def count (d : Nat) : Status → Nat
  | .pending ds => ds.count d
  | _ => 0

theorem after_other {n : Nat} {e : Event V} (st : Status) (h : e.frame ≠ some n) :
    st.after n e = st := by
  cases e <;> simp_all [after, Event.frame]

theorem ne_wrong {n : Nat} {st : Status} {e : Event V} (h : st.after n e ≠ .wrong) :
    st ≠ .wrong := by
  rintro rfl
  cases e <;> simp [after] at h

end Status

/-- The status of the frame `n` after a log. -/
def status (log : List (Event V)) (n : Nat) : Status := log.foldl (Status.after n) (.pending [])

@[simp] theorem status_append (log : List (Event V)) (e : Event V) (n : Nat) :
    status (log ++ [e]) n = (status log n).after n e := by
  simp [status]

theorem status_other {log : List (Event V)} {e : Event V} {n : Nat} (h : e.frame ≠ some n) :
    status (log ++ [e]) n = status log n := by
  rw [status_append, Status.after_other _ h]

/-- How often the deferred call `d` of the frame `n` was run. -/
def runsOf (log : List (Event V)) (n d : Nat) : Nat :=
  log.countP fun
    | .ran m e => m == n && e == d
    | _ => false

/-- How often it was registered. -/
def registrationsOf (log : List (Event V)) (n d : Nat) : Nat :=
  log.countP fun
    | .registered m e => m == n && e == d
    | _ => false

theorem registrationsOf_append {log : List (Event V)} {e : Event V} (n d : Nat)
    (he : ∀ m k, e ≠ .registered m k) :
    registrationsOf (log ++ [e]) n d = registrationsOf log n d := by
  unfold registrationsOf
  rw [List.countP_append]
  cases e with
  | registered m k => exact absurd rfl (he m k)
  | _ => simp

/-- If nothing went wrong, what was registered was run or is pending. -/
theorem registrationsOf_eq {log : List (Event V)} {n : Nat} (d : Nat)
    (h : status log n ≠ .wrong) :
    registrationsOf log n d = runsOf log n d + (status log n).count d := by
  induction log using List.reverseRecOn with
  | nil => rfl
  | append_singleton log e ih =>
    rw [status_append] at h ⊢
    have hlog := Status.ne_wrong h
    have ih := ih hlog
    unfold registrationsOf runsOf at ih ⊢
    rw [List.countP_append, List.countP_append, ih]
    by_cases hframe : e.frame = some n
    · cases e with
      | registered m e =>
        obtain rfl : m = n := Option.some.inj hframe
        cases hst : status log m with
        | pending => by_cases hd : e = d <;> simp [Status.after, hd, Status.count, Nat.add_assoc]
        | popped => simp [Status.after, hst] at h
        | wrong => exact absurd hst hlog
      | ran m e =>
        obtain rfl : m = n := Option.some.inj hframe
        cases hst : status log m with
        | pending ds =>
          cases ds with
          | nil => simp [Status.after, hst] at h
          | cons e' =>
            by_cases he : e' = e
            · by_cases hd : e = d
              · simp [Status.after, he, hd, Status.count]
                omega
              · simp [Status.after, he, hd, Status.count]
            · simp [Status.after, hst, he] at h
        | popped => simp [Status.after, hst] at h
        | wrong => exact absurd hst hlog
      | lost m =>
        obtain rfl : m = n := Option.some.inj hframe
        simp [Status.after] at h
      | popped m =>
        obtain rfl : m = n := Option.some.inj hframe
        by_cases hst : status log m = .pending []
        · simp [Status.after, hst, Status.count]
        · simp [Status.after, hst] at h
      | recovered | aborted | halted => cases hframe
    · rw [Status.after_other _ hframe]
      cases e <;> simp_all [Event.frame]

/-- A frame that was popped stays popped. -/
theorem status_popped {log : List (Event V)} {n : Nat} (hm : .popped n ∈ log)
    (h : status log n ≠ .wrong) : status log n = .popped := by
  induction log using List.reverseRecOn with
  | nil => cases hm
  | append_singleton log e ih =>
    rw [status_append] at h ⊢
    by_cases he : e = .popped n
    · subst he
      simp only [Status.after, if_true] at h ⊢
      split
      · rfl
      · rename_i hne
        simp [hne] at h
    · have hmem : .popped n ∈ log := by simpa [Ne.symm he] using hm
      have hpopped := ih hmem (Status.ne_wrong h)
      rw [hpopped] at h ⊢
      cases e <;> simp_all [Status.after]

/-! ## §2. Probes -/

namespace Goroutine

variable {env : N → W → W} {s t u : Goroutine N V W} {f : Frame N} {rest : List (Frame N)}
  {a : Act N V}

/-- The frames above a depth. -/
def above (n : Nat) (stack : List (Frame N)) : List (Frame N) := stack.take (stack.length - n)

theorem above_cons {n : Nat} (f : Frame N) {rest : List (Frame N)} (h : n ≤ rest.length) :
    above n (f :: rest) = f :: above n rest := by
  rw [above, above, List.length_cons, Nat.succ_sub h, List.take_succ_cons]

/-- What the defer discipline needs. A deferred call is one of those
`executeDeferred` has a case for. A wait is given up when the frames inside
the probe have no deferred calls pending. And a goroutine is aborted when the
frames that are already running their deferred calls have no intercepted
ones left. -/
def DeferOK (s : Goroutine N V W) : Act N V → Prop
  | .defer callee => callee ≠ .unknown
  | .giveUp => ∀ n ns, s.probes = n :: ns → ∀ f ∈ above n s.stack, f.defers = []
  | .abort => ∀ f ∈ s.stack, f.inBlocks = false → ∀ d ∈ f.defers, d.callee.isNative = false
  | _ => True

/-- A goroutine whose wait was given up is inside a probe, in frames that
have no deferred calls pending. -/
structure ProbeInv (s : Goroutine N V W) : Prop where
  depth : ∀ n ∈ s.probes, n ≤ s.stack.length
  sorted : s.probes.Pairwise (· ≥ ·)
  given : s.blocked = true → s.aborted = false →
    ∃ n ns, s.probes = n :: ns ∧ ∀ f ∈ above n s.stack, f.defers = []

theorem ProbeInv.like (h : ProbeInv s) (hl : Like s u) : ProbeInv u := by
  cases hl
  exact { h with }

/-- Outside of a probe of its own, the frame on top is above all of them. -/
theorem ProbeInv.below (h : ProbeInv s) (hstack : s.stack = f :: rest) (hp : s.inProbe = false) :
    ∀ n ∈ s.probes, n ≤ rest.length := by
  intro n hn
  cases hps : s.probes with
  | nil => rw [hps] at hn; cases hn
  | cons m =>
    have hm : m ≤ s.stack.length := h.depth m (hps ▸ List.mem_cons_self)
    have hne : m ≠ s.stack.length := by
      intro he
      simp [inProbe, hps, he] at hp
    have hlt : m ≤ rest.length := by
      rw [hstack, List.length_cons] at hm hne
      omega
    have hs := h.sorted
    rw [hps] at hn hs
    rcases List.mem_cons.mp hn with rfl | hn
    · exact hlt
    · exact Nat.le_trans ((List.pairwise_cons.mp hs).1 n hn) hlt

/-- The frame on top has no deferred calls if the goroutine gave up. -/
theorem ProbeInv.top (h : ProbeInv s) (hstack : s.stack = f :: rest) (hp : s.inProbe = false)
    (hb : s.blocked = true) (ha : s.aborted = false) : f.defers = [] := by
  obtain ⟨n, ns, hps, hf⟩ := h.given hb ha
  have hn := h.below hstack hp n (hps ▸ List.mem_cons_self)
  refine hf f ?_
  rw [hstack, above_cons f hn]
  exact List.mem_cons_self

/-- The frame on top is replaced. -/
theorem ProbeInv.setTop (h : ProbeInv s) (hstack : s.stack = f :: rest) (hp : s.inProbe = false)
    {f' : Frame N} (hf' : f.defers = [] → f'.defers = []) :
    ProbeInv { s with stack := f' :: rest } where
  depth := by
    have := h.depth
    rwa [hstack] at this
  sorted := h.sorted
  given hb ha := by
    obtain ⟨n, ns, hps, hf⟩ := h.given hb ha
    have hn := h.below hstack hp n (hps ▸ List.mem_cons_self)
    refine ⟨n, ns, hps, fun g hg => ?_⟩
    rw [hstack, above_cons f hn] at hf
    rw [above_cons f' hn] at hg
    rcases List.mem_cons.mp hg with rfl | hg
    · exact hf' (hf f List.mem_cons_self)
    · exact hf g (List.mem_cons_of_mem _ hg)

theorem ProbeInv.pushFrame (h : ProbeInv s) (d : Option Nat) (b : Bool) :
    ProbeInv (s.pushFrame d b) where
  depth n hn := Nat.le_succ_of_le (h.depth n hn)
  sorted := h.sorted
  given hb ha := by
    obtain ⟨n, ns, hps, hf⟩ := h.given hb ha
    refine ⟨n, ns, hps, fun g hg => ?_⟩
    rw [Goroutine.pushFrame, above_cons _ (h.depth n (hps ▸ List.mem_cons_self))] at hg
    rcases List.mem_cons.mp hg with rfl | hg
    · rfl
    · exact hf g hg

theorem ProbeInv.moved (h : ProbeInv s) (hstack : s.stack = f :: rest) (hp : s.inProbe = false)
    (hm : Moved s f rest t) : ProbeInv t := by
  cases hm with
  | phase ph ds hph hds =>
    refine h.setTop hstack hp fun hnil => ?_
    rcases hds with rfl | ⟨-, hds⟩
    · exact hnil
    · exact hds
  | drop =>
    have hbelow := h.below hstack hp
    refine ⟨hbelow, h.sorted, fun hb ha => ?_⟩
    obtain ⟨n, ns, hps, hf⟩ := h.given hb ha
    refine ⟨n, ns, hps, fun g hg => hf g ?_⟩
    rw [hstack, above_cons f (hbelow n (hps ▸ List.mem_cons_self))]
    exact List.mem_cons_of_mem _ hg

theorem ProbeInv.executeDeferred (h : ProbeInv s) (n : Nat) (d : Deferred N) :
    ProbeInv (s.executeDeferred env n d) := by
  have hlog : ∀ (w : W) (e : Event V), ProbeInv ({ s with world := w }.emit e) :=
    fun w e => { h with }
  unfold Goroutine.executeDeferred
  split
  · exact (hlog s.world _).pushFrame _ _
  · exact hlog _ _
  · exact hlog s.world _

theorem inProbe_like (hl : Like s u) : u.inProbe = s.inProbe := by
  cases hl
  rfl

theorem blocked_of_running (h : s.stopped = false) : s.blocked = false := by
  simp only [stopped, Bool.or_eq_false_iff] at h
  exact h.2

theorem ProbeInv.step (h : ProbeInv s) (hok : DeferOK s a) (hst : Step env s a t) :
    ProbeInv t := by
  rcases step_effect hst with ⟨f, rest, hstack, heff⟩ | ⟨-, -, rfl⟩
  · cases heff with
    | call b => exact h.pushFrame none b
    | defer c hf hs =>
      have hb := blocked_of_running hs
      refine ⟨?_, h.sorted, fun hb' _ => absurd (hb.symm.trans hb') nofun⟩
      have := h.depth
      rwa [hstack] at this
    | panic | native | halt => exact { h with }
    | recover =>
      unfold Goroutine.recover
      dsimp only
      split <;> exact { h with }
    | runDefers b hf hs hp => exact h.moved hstack hp (moved_runFrameDefers _)
    | abort => exact { h with given := nofun }
    | giveUp hf hs hp =>
      refine ⟨h.depth, h.sorted, fun _ _ => ?_⟩
      obtain ⟨n, ns, hps⟩ := List.exists_cons_of_ne_nil hp
      exact ⟨n, ns, hps, hok n ns hps⟩
    | probe hf hs =>
      refine ⟨fun n hn => ?_, List.pairwise_cons.mpr ⟨h.depth, h.sorted⟩, fun hb _ => ?_⟩
      · rcases List.mem_cons.mp hn with rfl | hn
        · exact Nat.le_refl _
        · exact h.depth n hn
      · exact absurd ((blocked_of_running hs).symm.trans hb) nofun
    | endProbe =>
      refine ⟨fun n hn => h.depth n (List.mem_of_mem_tail hn), h.sorted.tail, fun hb ha => ?_⟩
      have ha' : s.aborted = false := ha
      simp [ha'] at hb
    | leave b hf hp => exact h.moved hstack hp (moved_leave b)
    | next tr r hf hp =>
      cases hds : f.defers with
      | nil =>
        rw [next_nil env s rest tr r hds]
        exact h.moved hstack hp (moved_afterDefers tr r (.inl hds))
      | cons d =>
        obtain ⟨u, hu, -, hl⟩ := next_cons env s rest tr r hds
        rw [hu]
        refine ProbeInv.executeDeferred (ProbeInv.like ?_ hl) f.id d
        refine h.setTop hstack hp fun hnil => ?_
        rw [hds] at hnil
        cases hnil
    | done tr r run hf hp =>
      obtain ⟨u, hl, hm⟩ := moved_done s rest hf
      exact (h.like hl).moved (hl.stack.trans hstack) ((inProbe_like hl).trans hp) hm
  · exact { h with }

/-! ## §3. The frames -/

/-- The status of a frame on the stack is what is pending in it, and no frame
has gone wrong, unless the goroutine is aborted or halted. -/
structure StatusInv (s : Goroutine N V W) : Prop where
  ids : (s.stack.map (·.id)).Nodup
  idLt : ∀ f ∈ s.stack, f.id < s.nextFrame
  future : ∀ n, s.nextFrame ≤ n → status s.log n = .pending []
  live : s.aborted = false → s.panicked = false →
    ∀ f ∈ s.stack, status s.log f.id = .pending (f.defers.map (·.id))
  right : s.aborted = false → s.panicked = false → ∀ n, status s.log n ≠ .wrong
  known : ∀ f ∈ s.stack, ∀ d ∈ f.defers, d.callee ≠ .unknown
  once : ∀ n d, registrationsOf s.log n d ≤ 1
  fresh : ∀ n d, s.nextDefer ≤ d → registrationsOf s.log n d = 0

theorem StatusInv.like (h : StatusInv s) (hl : Like s u) : StatusInv u := by
  cases hl
  exact { h with }

/-- An entry that is about no frame. -/
theorem StatusInv.emit (h : StatusInv s) {e : Event V} (he : e.frame = none) :
    StatusInv (s.emit e) := by
  have hl : ∀ n, status (s.log ++ [e]) n = status s.log n := by
    intro n
    exact status_other (by rw [he]; nofun)
  have hr : ∀ n d, registrationsOf (s.log ++ [e]) n d = registrationsOf s.log n d :=
    fun n d => registrationsOf_append n d fun m k hk => by rw [hk] at he; cases he
  exact { h with
    future := fun n hn => (hl n).trans (h.future n hn)
    live := fun ha hp f hf => (hl f.id).trans (h.live ha hp f hf)
    right := fun ha hp n => (hl n).symm ▸ h.right ha hp n
    once := fun n d => (hr n d).symm ▸ h.once n d
    fresh := fun n d hle => (hr n d).trans (h.fresh n d hle) }

theorem StatusInv.pushFrame (h : StatusInv s) (d : Option Nat) (b : Bool) :
    StatusInv (s.pushFrame d b) where
  ids := by
    refine List.nodup_cons.mpr ⟨fun hm => ?_, h.ids⟩
    obtain ⟨f, hf, hid⟩ := List.mem_map.mp hm
    exact Nat.ne_of_lt (h.idLt f hf) hid
  idLt f hf := by
    rcases List.mem_cons.mp hf with rfl | hf
    · exact Nat.lt_succ_self _
    · exact Nat.lt_succ_of_lt (h.idLt f hf)
  future n hn := h.future n (Nat.le_of_succ_le hn)
  live ha hp f hf := by
    rcases List.mem_cons.mp hf with rfl | hf
    · exact h.future _ (Nat.le_refl _)
    · exact h.live ha hp f hf
  right := h.right
  known f hf := by
    rcases List.mem_cons.mp hf with rfl | hf
    · nofun
    · exact h.known f hf
  once := h.once
  fresh := h.fresh

/-- The frame on top is replaced, with an entry about it. -/
theorem StatusInv.setTop (h : StatusInv s) (hstack : s.stack = f :: rest) (f' : Frame N)
    {log : List (Event V)} {nd : Nat} (hid : f'.id = f.id)
    (hother : ∀ n, n ≠ f.id → status log n = status s.log n)
    (htop : s.aborted = false → s.panicked = false →
      status log f.id = .pending (f'.defers.map (·.id)))
    (hknown : ∀ d ∈ f'.defers, d.callee ≠ .unknown)
    (honce : ∀ n d, registrationsOf log n d ≤ 1)
    (hfresh : ∀ n d, nd ≤ d → registrationsOf log n d = 0) :
    StatusInv { s with stack := f' :: rest, log := log, nextDefer := nd } where
  ids := by
    have := h.ids
    rw [hstack] at this
    simpa [hid] using this
  idLt g hg := by
    rcases List.mem_cons.mp hg with rfl | hg
    · exact hid ▸ h.idLt f (hstack ▸ List.mem_cons_self)
    · exact h.idLt g (hstack ▸ List.mem_cons_of_mem _ hg)
  future n hn := by
    have hne : n ≠ f.id :=
      fun he => Nat.not_lt.mpr hn (he ▸ h.idLt f (hstack ▸ List.mem_cons_self))
    exact (hother n hne).trans (h.future n hn)
  live ha hp g hg := by
    rcases List.mem_cons.mp hg with rfl | hg
    · exact hid ▸ htop ha hp
    · have hne : g.id ≠ f.id := by
        have := h.ids
        rw [hstack, List.map_cons, List.nodup_cons] at this
        exact fun he => this.1 (he ▸ List.mem_map_of_mem hg)
      exact (hother _ hne).trans (h.live ha hp g (hstack ▸ List.mem_cons_of_mem _ hg))
  right ha hp n := by
    by_cases hn : n = f.id
    · rw [hn, htop ha hp]
      nofun
    · rw [hother n hn]
      exact h.right ha hp n
  known g hg := by
    rcases List.mem_cons.mp hg with rfl | hg
    · exact hknown
    · exact h.known g (hstack ▸ List.mem_cons_of_mem _ hg)
  once := honce
  fresh := hfresh

theorem StatusInv.moved (h : StatusInv s) (hstack : s.stack = f :: rest)
    (hm : Moved s f rest t) : StatusInv t := by
  have hf : f ∈ s.stack := hstack ▸ List.mem_cons_self
  cases hm with
  | phase ph ds hph hds =>
    refine h.setTop hstack _ rfl (fun _ _ => rfl) (fun hab hpa => ?_) ?_ h.once h.fresh
    · obtain rfl := hds.resolve_right fun hd => absurd (hab.symm.trans hd.1) nofun
      exact h.live hab hpa f hf
    · rcases hds with rfl | ⟨-, rfl⟩
      · exact h.known f hf
      · nofun
  | drop hds =>
    have hne : ∀ n, n ≠ f.id → status (s.log ++ [.popped f.id]) n = status s.log n :=
      fun n hn => status_other fun he => hn (Option.some.inj he).symm
    have hids := h.ids
    rw [hstack, List.map_cons, List.nodup_cons] at hids
    have hreg : ∀ n d, registrationsOf (s.log ++ [.popped f.id]) n d =
        registrationsOf s.log n d := fun n d => registrationsOf_append n d nofun
    exact
      { ids := hids.2
        idLt := fun g hg => h.idLt g (hstack ▸ List.mem_cons_of_mem _ hg)
        future := fun n hn => by
          refine (hne n fun he => ?_).trans (h.future n hn)
          exact Nat.not_lt.mpr hn (he ▸ h.idLt f hf)
        live := fun hab hpa g hg => by
          refine (hne g.id fun he => ?_).trans
            (h.live hab hpa g (hstack ▸ List.mem_cons_of_mem _ hg))
          exact hids.1 (he ▸ List.mem_map_of_mem hg)
        right := fun hab hpa n => by
          by_cases hn : n = f.id
          · -- the loop ended because nothing is pending
            have hnil : f.defers = [] := by
              rcases hds with hds | hds | hds
              · exact hds
              · exact absurd (hab.symm.trans hds) nofun
              · exact absurd (hpa.symm.trans hds) nofun
            have hlive := h.live hab hpa f hf
            rw [hnil] at hlive
            subst hn
            show status (s.log ++ [.popped f.id]) f.id ≠ .wrong
            rw [status_append, hlive]
            simp [Status.after]
          · show status (s.log ++ [.popped f.id]) n ≠ .wrong
            rw [hne n hn]
            exact h.right hab hpa n
        known := fun g hg => h.known g (hstack ▸ List.mem_cons_of_mem _ hg)
        once := fun n d => (hreg n d).symm ▸ h.once n d
        fresh := fun n d hle => (hreg n d).trans (h.fresh n d hle) }

/-- A deferred call is registered. -/
theorem StatusInv.defer (h : StatusInv s) (hstack : s.stack = f :: rest) {c : Callee N}
    (hc : c ≠ .unknown) :
    StatusInv ({ s with
      stack := { f with defers := ⟨s.nextDefer, c⟩ :: f.defers } :: rest
      nextDefer := s.nextDefer + 1 }.emit (.registered f.id s.nextDefer)) := by
  have hf : f ∈ s.stack := hstack ▸ List.mem_cons_self
  have hreg : ∀ n d, registrationsOf (s.log ++ [.registered f.id s.nextDefer]) n d =
      registrationsOf s.log n d + if f.id = n ∧ s.nextDefer = d then 1 else 0 := by
    intro n d
    unfold registrationsOf
    rw [List.countP_append]
    by_cases h : f.id = n ∧ s.nextDefer = d <;> simp [h]
  refine h.setTop hstack _ rfl (fun n hn => ?_) (fun ha hp => ?_) (fun d hd => ?_) (fun n d => ?_)
    fun n d hle => ?_
  · exact status_other fun he => hn (Option.some.inj he).symm
  · rw [status_append, h.live ha hp f hf]
    simp [Status.after]
  · rcases List.mem_cons.mp hd with rfl | hd
    · exact hc
    · exact h.known f hf d hd
  · rw [hreg]
    split
    · rename_i heq
      exact Nat.le_of_eq (by rw [h.fresh n d (heq.2 ▸ Nat.le_refl _)])
    · exact h.once n d
  · rw [hreg, if_neg fun heq => Nat.not_succ_le_self _ (heq.2 ▸ hle),
      h.fresh n d (Nat.le_of_succ_le hle)]

/-- A deferred call is taken: it is the last one registered, and it is run. -/
theorem StatusInv.next (h : StatusInv s) (hpr : ProbeInv s) (hstack : s.stack = f :: rest)
    (hp : s.inProbe = false) (tr : Trigger) (r : Bool) : StatusInv (s.next env f rest tr r) := by
  have hf : f ∈ s.stack := hstack ▸ List.mem_cons_self
  cases hds : f.defers with
  | nil =>
    rw [next_nil env s rest tr r hds]
    exact h.moved hstack (moved_afterDefers tr r (.inl hds))
  | cons d ds =>
    obtain ⟨u, hu, hpanic, hl⟩ := next_cons env s rest tr r hds
    obtain ⟨e, he, hran, -, hres⟩ := executeDeferred_cases env u f.id d
    have hframe : e.frame = some f.id := by rcases he with rfl | rfl <;> rfl
    have hnoreg : ∀ m k, e ≠ .registered m k := by rcases he with rfl | rfl <;> nofun
    have htop : s.aborted = false → s.panicked = false →
        status (s.log ++ [e]) f.id = .pending (ds.map (·.id)) := by
      intro ha hpa
      have hb : s.blocked = false := by
        rw [Bool.eq_false_iff]
        intro hb
        rw [hpr.top hstack hp hb ha] at hds
        cases hds
      have hstopped : u.stopped = false := by
        cases hl
        dsimp only at hpanic
        simp [stopped, hpa, hb, hpanic]
      have hc : d.callee ≠ .unknown := h.known f hf d (hds ▸ List.mem_cons_self)
      rw [status_append, h.live ha hpa f hf, hds, hran hstopped hc]
      simp [Status.after]
    have hv := h.setTop hstack { f with
        defers := ds
        phase := .defers tr r (some ⟨d.id, d.callee.isNative, s.panicking⟩) } rfl
      (fun n hn => status_other fun he' => hn (Option.some.inj (hframe.symm.trans he')).symm) htop
      (fun d' hd' => h.known f hf d' (hds ▸ List.mem_cons_of_mem _ hd'))
      (fun n d' => (registrationsOf_append n d' hnoreg).symm ▸ h.once n d')
      fun n d' hle => (registrationsOf_append n d' hnoreg).trans (h.fresh n d' hle)
    have hue : ∀ w : W, StatusInv ({ u with world := w }.emit e) := by
      intro w
      cases hl
      exact { hv with }
    rw [hu]
    rcases hres with ⟨b, hres⟩ | ⟨w, hres⟩
    · rw [hres]
      exact (hue u.world).pushFrame _ _
    · rw [hres]
      exact hue w

theorem StatusInv.step (h : StatusInv s) (hpr : ProbeInv s) (hok : DeferOK s a)
    (hst : Step env s a t) : StatusInv t := by
  rcases step_effect hst with ⟨f, rest, hstack, heff⟩ | ⟨-, -, rfl⟩
  · cases heff with
    | call b => exact h.pushFrame none b
    | defer => exact h.defer hstack hok
    | panic | native | giveUp | probe | endProbe => exact { h with }
    | recover =>
      unfold Goroutine.recover
      dsimp only
      split
      · refine StatusInv.emit ?_ rfl
        exact { h with }
      · refine StatusInv.emit ?_ rfl
        exact { h with }
    | runDefers => exact h.moved hstack (moved_runFrameDefers _)
    | halt =>
      refine StatusInv.emit ?_ rfl
      exact { h with live := nofun, right := nofun }
    | abort =>
      refine StatusInv.emit ?_ rfl
      exact { h with live := nofun, right := nofun }
    | leave b => exact h.moved hstack (moved_leave b)
    | next tr r hf hp => exact h.next hpr hstack hp tr r
    | done tr r run hf =>
      obtain ⟨u, hl, hm⟩ := moved_done s rest hf
      exact (h.like hl).moved (hl.stack.trans hstack) hm
  · exact { h with }

/-! ## §4. After an abort -/

/-- An aborted goroutine stays blocked, and the frames in which deferred calls
are being run have no intercepted ones left; nothing is run after the abort. -/
structure AbortInv (s : Goroutine N V W) : Prop where
  blocked : s.aborted = true → s.blocked = true
  log : .aborted ∈ s.log → s.aborted = true
  inert : s.aborted = true →
    ∀ f ∈ s.stack, f.inBlocks = false → ∀ d ∈ f.defers, d.callee.isNative = false
  quiet : s.log.Pairwise fun x y => x = .aborted → y.isRan = false

/-- Nothing about the abort has changed; an entry may be added. -/
theorem AbortInv.of_stack (h : AbortInv s) (ha : t.aborted = s.aborted)
    (hb : t.aborted = true → t.blocked = s.blocked)
    (hi : s.aborted = true →
      ∀ f ∈ t.stack, f.inBlocks = false → ∀ d ∈ f.defers, d.callee.isNative = false)
    (hl : t.log = s.log ∨ ∃ e, t.log = s.log ++ [e] ∧ e ≠ .aborted ∧
      (s.aborted = true → e.isRan = false)) : AbortInv t where
  blocked hta := (hb hta).trans (h.blocked (ha ▸ hta))
  log hm := by
    rw [ha]
    rcases hl with hl | ⟨e, hl, hne, -⟩
    · exact h.log (hl ▸ hm)
    · rw [hl] at hm
      rcases List.mem_append.mp hm with hm | hm
      · exact h.log hm
      · exact absurd (List.mem_singleton.mp hm).symm hne
  inert hta := hi (ha ▸ hta)
  quiet := by
    rcases hl with hl | ⟨e, hl, -, hran⟩
    · rw [hl]; exact h.quiet
    · rw [hl, List.pairwise_append]
      refine ⟨h.quiet, List.pairwise_singleton .., fun x hx y hy hxa => ?_⟩
      cases List.mem_singleton.mp hy
      exact hran (h.log (hxa ▸ hx))

theorem AbortInv.moved (h : AbortInv s) (hstack : s.stack = f :: rest) (hm : Moved s f rest t) :
    AbortInv t := by
  cases hm with
  | phase ph ds hph hds ha =>
    refine h.of_stack rfl (fun _ => rfl) (fun hab g hg hgb => ?_) (.inl rfl)
    rcases List.mem_cons.mp hg with rfl | hg
    · rcases ha hab with hnil | hfb | ⟨b, hb⟩
      · intro d hd
        rw [hnil] at hd
        cases hd
      · intro d hd
        refine h.inert hab f (hstack ▸ List.mem_cons_self) hfb d ?_
        rcases hds with rfl | ⟨-, hnil⟩
        · exact hd
        · rw [hnil] at hd
          cases hd
      · simp [Frame.inBlocks, hb] at hgb
    · exact h.inert hab g (hstack ▸ List.mem_cons_of_mem _ hg) hgb
  | drop =>
    exact h.of_stack rfl (fun _ => rfl)
      (fun hab g hg => h.inert hab g (hstack ▸ List.mem_cons_of_mem _ hg))
      (.inr ⟨_, rfl, by simp, fun _ => rfl⟩)

theorem AbortInv.like (h : AbortInv s) (hl : Like s u) : AbortInv u := by
  cases hl
  exact { h with }

theorem AbortInv.pushFrame (h : AbortInv s) (d : Option Nat) (b : Bool) :
    AbortInv (s.pushFrame d b) := by
  refine h.of_stack rfl (fun _ => rfl) (fun hab g hg hgb => ?_) (.inl rfl)
  rcases List.mem_cons.mp hg with rfl | hg
  · cases hgb
  · exact h.inert hab g hg hgb

theorem AbortInv.next (h : AbortInv s) (hstack : s.stack = f :: rest) {tr : Trigger} {r : Bool}
    (hph : f.phase = .defers tr r none) : AbortInv (s.next env f rest tr r) := by
  have hf : f ∈ s.stack := hstack ▸ List.mem_cons_self
  have hfb : f.inBlocks = false := by simp [Frame.inBlocks, hph]
  cases hds : f.defers with
  | nil =>
    rw [next_nil env s rest tr r hds]
    exact h.moved hstack (moved_afterDefers tr r (.inl hds))
  | cons d =>
    obtain ⟨u, hu, -, hl⟩ := next_cons env s rest tr r hds
    obtain ⟨e, he, -, hlost, hres⟩ := executeDeferred_cases env u f.id d
    have hquiet : s.aborted = true → e.isRan = false := by
      intro hab
      have hstopped : u.stopped = true := by
        cases hl
        simp [stopped, h.blocked hab]
      rw [hlost hstopped (h.inert hab f hf hfb d (hds ▸ List.mem_cons_self))]
      rfl
    have hue : ∀ w : W, AbortInv ({ u with world := w }.emit e) := by
      intro w
      cases hl
      refine h.of_stack rfl (fun _ => rfl) (fun hab g hg hgb => ?_) (.inr ⟨e, rfl, ?_, hquiet⟩)
      · rcases List.mem_cons.mp hg with rfl | hg
        · exact fun d' hd' => h.inert hab f hf hfb d' (hds ▸ List.mem_cons_of_mem _ hd')
        · exact h.inert hab g (hstack ▸ List.mem_cons_of_mem _ hg) hgb
      · rcases he with rfl | rfl <;> simp
    rw [hu]
    rcases hres with ⟨b, hres⟩ | ⟨w, hres⟩
    · rw [hres]
      exact (hue u.world).pushFrame _ _
    · rw [hres]
      exact hue w

theorem AbortInv.step (h : AbortInv s) (hok : DeferOK s a) (hst : Step env s a t) : AbortInv t := by
  rcases step_effect hst with ⟨f, rest, hstack, heff⟩ | ⟨-, -, rfl⟩
  · have hrunning : s.stopped = false → s.aborted = false := by
      intro hs
      rw [Bool.eq_false_iff]
      intro hab
      exact absurd ((blocked_of_running hs).symm.trans (h.blocked hab)) nofun
    cases heff with
    | call b => exact h.pushFrame none b
    | defer c hf hs =>
      refine h.of_stack rfl (fun _ => rfl) (fun hab => ?_) (.inr ⟨_, rfl, nofun, fun _ => rfl⟩)
      exact absurd ((hrunning hs).symm.trans hab) nofun
    | panic | native | probe => exact { h with }
    | recover =>
      unfold Goroutine.recover
      dsimp only
      split <;> exact h.of_stack rfl (fun _ => rfl) h.inert (.inr ⟨_, rfl, nofun, fun _ => rfl⟩)
    | runDefers => exact h.moved hstack (moved_runFrameDefers _)
    | halt =>
      exact h.of_stack rfl (fun _ => rfl) h.inert (.inr ⟨_, rfl, nofun, fun _ => rfl⟩)
    | abort =>
      refine ⟨fun _ => rfl, fun _ => rfl, fun _ => hok, ?_⟩
      refine List.pairwise_append.mpr ⟨h.quiet, List.pairwise_singleton .., ?_⟩
      intro x _ y hy _
      cases List.mem_singleton.mp hy
      rfl
    | giveUp => exact { h with blocked := fun _ => rfl }
    | endProbe =>
      refine { h with blocked := fun hab => ?_ }
      simp [h.blocked hab, show s.aborted = true from hab]
    | leave b => exact h.moved hstack (moved_leave b)
    | next tr r hf hp => exact h.next hstack hf
    | done tr r run hf =>
      obtain ⟨u, hl, hm⟩ := moved_done s rest hf
      exact (h.like hl).moved (hl.stack.trans hstack) hm
  · exact { h with }

/-! ## §5. Runs -/

theorem statusInv_init (world : W) (b : Bool) (x : Option N) :
    StatusInv (init world b x : Goroutine N V W) where
  ids := by simp [init]
  idLt f hf := by
    cases List.mem_singleton.mp hf
    exact Nat.one_pos
  future _ _ := rfl
  live _ _ f hf := by
    cases List.mem_singleton.mp hf
    rfl
  right _ _ _ := nofun
  known f hf := by
    cases List.mem_singleton.mp hf
    nofun
  once _ _ := Nat.zero_le _
  fresh _ _ _ := rfl

/-- **The defer discipline**, in every run that meets `DeferOK`. As long as
the goroutine is neither aborted nor halted, no frame goes wrong: a deferred
call is run when it is the last one registered that has not been run, none is
lost, and a frame is popped when none is pending; so each deferred call of a
frame that was popped has been run exactly once. After an abort no deferred
call is run. -/
theorem defers_run_once {acts : List (Act N V)} {world : W} {b : Bool} {x : Option N}
    (hrun : Transition.Run (fun s a t => Step env s a t ∧ DeferOK s a) (init world b x) acts s) :
    (s.aborted = false → s.panicked = false →
      (∀ n, status s.log n ≠ .wrong) ∧
      ∀ n d, .popped n ∈ s.log → .registered n d ∈ s.log → runsOf s.log n d = 1) ∧
    s.log.Pairwise fun x y => x = .aborted → y.isRan = false := by
  have hinv : ProbeInv s ∧ StatusInv s ∧ AbortInv s :=
    hrun.invariant (P := fun s => ProbeInv s ∧ StatusInv s ∧ AbortInv s)
      (fun _ _ _ h hI => ⟨hI.1.step h.2 h.1, hI.2.1.step hI.1 h.2 h.1, hI.2.2.step h.2 h.1⟩)
      ⟨⟨nofun, .nil, nofun⟩, statusInv_init world b x, nofun, nofun, nofun, .nil⟩
  obtain ⟨-, hstatus, habort⟩ := hinv
  refine ⟨fun ha hp => ⟨hstatus.right ha hp, fun n d hpop hreg => ?_⟩, habort.quiet⟩
  have hwrong := hstatus.right ha hp n
  have heq : registrationsOf s.log n d = runsOf s.log n d := by
    rw [registrationsOf_eq d hwrong, status_popped hpop hwrong]
    rfl
  have hpos : 0 < registrationsOf s.log n d := List.countP_pos_iff.mpr ⟨_, hreg, by simp⟩
  have hle := hstatus.once n d
  omega

/-- Two deferred calls, a panic, and the second one recovers it. -/
def twoDefers : List (Act Unit Nat) :=
  [.defer (.body false), .defer (.body false), .panic 7, .leave, .next, .recover, .leave, .next,
    .done, .next, .leave, .next, .done, .next, .next]

theorem defers_run_once_two :
    (after twoDefers).stack = [] ∧ runsOf (after twoDefers).log 0 0 = 1 ∧
      runsOf (after twoDefers).log 0 1 = 1 := by
  have hrun : Transition.Run (fun s a t => Step (fun _ w => w) s a t ∧ DeferOK s a)
      (init () false none) twoDefers (after twoDefers) := by
    refine Transition.run_of_guarded (Transition.exec_getD (by decide)) ?_
    exact ⟨nofun, nofun, trivial, trivial, trivial, trivial, trivial, trivial, trivial, trivial,
      trivial, trivial, trivial, trivial, trivial, trivial⟩
  obtain ⟨-, honce⟩ := (defers_run_once hrun).1 rfl rfl
  exact ⟨by decide, honce 0 0 (by decide) (by decide), honce 0 1 (by decide) (by decide)⟩

/-- A deferred intercepted call, and a deferred function that waits forever. -/
def abortInDeferred : List (Act Unit Nat) :=
  [.defer (.native ()), .defer (.body false), .leave, .next, .abort, .leave, .done, .next]

/-- **The discipline fails.** A deferred function value is dropped. A wait
given up in a probe loses the deferred call of the frame in the probe. And
after an abort in a deferred call, the intercepted call that is left is
executed. -/
theorem defers_lost :
    (∃ s : Goroutine Unit Nat Unit,
      Transition.Run (Step fun _ w => w) (init () false none) [.defer .unknown, .leave, .next] s ∧
        s.aborted = false ∧ s.panicked = false ∧ status s.log 0 = .wrong) ∧
    (∃ s : Goroutine Unit Nat Unit,
      Transition.Run (Step fun _ w => w) (init () false none)
        [.probe, .call false, .defer (.body false), .giveUp, .leave, .next] s ∧
        s.aborted = false ∧ s.panicked = false ∧ status s.log 1 = .wrong) ∧
    ∃ s : Goroutine Unit Nat Unit,
      Transition.Run (Step fun _ w => w) (init () false none) abortInDeferred s ∧
        s.log = [.registered 0 0, .registered 0 1, .ran 0 1, .aborted, .popped 1, .ran 0 0] :=
  ⟨⟨_, Transition.run_of_exec (Transition.exec_getD (by decide)), by decide, by decide, by decide⟩,
    ⟨_, Transition.run_of_exec (Transition.exec_getD (by decide)), by decide, by decide, by decide⟩,
    _, Transition.run_of_exec (Transition.exec_getD (by decide)), by decide⟩

end Goroutine

end Giri.Call
