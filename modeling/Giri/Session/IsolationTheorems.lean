/-
Giri.Session.IsolationTheorems — the argument sets of a Run are independent,
as far as calls leave the interpreter as it was.

Two worlds are the SAME for a call if the handles that it was given lead to
the same cells (`World.Same`); which IDs are behind them doesn't matter, and
neither do the cells of other calls. When a call begins it has no handles,
so the worlds before any two calls are the same if the pending conversions
and the index of the scheduler are (`Restored`).

`sets_independent` compares a set of a long Run with a Run on it alone.
-/
import Giri.Session.Isolation
import Giri.Session.SetTheorems

namespace Giri.Isolation

open HostMap (Host)
open Detector (UnsafeDetector UnsafePointerViolation)
open Session
open Effect (Handler Prog Tied)
open Tables (Err)

/-! ## §1. Worlds -/

section

variable {D : Type}

namespace World

/-- The same for a call. -/
structure Same (w w' : World D) : Prop where
  minted : w'.minted = w.minted
  cells : ∀ kind k, w.reaches kind k = true → w'.get kind k = w.get kind k
  unsafeDetector : w'.unsafeDetector = w.unsafeDetector
  sched : w'.sched = w.sched

/-- Nothing is given to a call that begins. -/
theorem same_beginSet {w w' : World D} (hpending : w'.unsafeDetector = w.unsafeDetector)
    (hsched : w'.sched = w.sched) : w.beginSet.Same w'.beginSet where
  minted := rfl
  cells kind k hk := by
    obtain ⟨hlow, hhigh⟩ := Bool.and_eq_true_iff.mp hk
    have hneg : k < ((0 : Nat) : Int) := of_decide_eq_true hhigh
    have hpos : 0 ≤ k := of_decide_eq_true hlow
    omega
  unsafeDetector := hpending
  sched := hsched

theorem get_setCell_self (w : World D) (kind : Kind) (k : Int) (d : D) :
    (w.setCell kind (w.base kind + k) d).get kind k = some d := by
  simp [get, setCell]

theorem get_setCell_ne (w : World D) {kind kind' : Kind} {k k' : Int}
    (hne : ¬(kind' = kind ∧ k' = k)) (d : D) :
    (w.setCell kind (w.base kind + k) d).get kind' k' = w.get kind' k' := by
  by_cases hkind : kind' = kind
  · subst hkind
    have hk : k' ≠ k := fun hk => hne ⟨rfl, hk⟩
    have hid : w.base kind' + k' ≠ w.base kind' + k := by omega
    simp [get, setCell, hid]
  · simp [get, setCell, hkind]

namespace Same

variable {w w' : World D} (hw : w.Same w')

include hw

theorem reaches (kind : Kind) (k : Int) : w'.reaches kind k = w.reaches kind k := by
  simp [World.reaches, hw.minted]

theorem touch (kind : Kind) (k : Int) : (w.touch kind k).Same (w'.touch kind k) := { hw with }

theorem setCell (kind : Kind) (k : Int) (d : D) :
    (w.setCell kind (w.base kind + k) d).Same (w'.setCell kind (w'.base kind + k) d) := by
  refine { hw with cells := fun kind' k' hk => ?_ }
  by_cases heq : kind' = kind ∧ k' = k
  · obtain ⟨rfl, rfl⟩ := heq
    rw [get_setCell_self, get_setCell_self]
  · rw [get_setCell_ne w heq, get_setCell_ne w' heq]
    exact hw.cells kind' k' hk

theorem mint (kind : Kind) (d : D) :
    (w'.mint kind d).1 = (w.mint kind d).1 ∧ (w.mint kind d).2.Same (w'.mint kind d).2 := by
  refine ⟨by simp [World.mint, hw.minted], ?_⟩
  refine ⟨by simp [World.mint, hw.minted], fun kind' k' hk => ?_, hw.unsafeDetector, hw.sched⟩
  show (w'.setCell kind (w'.base kind + w'.minted kind) d).get kind' k' =
    (w.setCell kind (w.base kind + w.minted kind) d).get kind' k'
  rw [hw.minted]
  by_cases heq : kind' = kind ∧ k' = w.minted kind
  · obtain ⟨rfl, rfl⟩ := heq
    rw [get_setCell_self, get_setCell_self]
  · rw [get_setCell_ne w heq, get_setCell_ne w' heq]
    -- any other handle was given before
    refine hw.cells kind' k' ?_
    by_cases hkind : kind' = kind
    · subst hkind
      have hk' : k' ≠ w.minted kind' := fun hk' => heq ⟨rfl, hk'⟩
      simp [World.reaches, World.mint] at hk ⊢
      omega
    · simpa [World.reaches, World.mint, hkind] using hk

theorem next (runnable : List Int) :
    (w'.next runnable).1 = (w.next runnable).1 ∧ (w.next runnable).2.Same (w'.next runnable).2 := by
  unfold World.next
  rw [hw.sched]
  split
  · exact ⟨rfl, { hw with sched := rfl }⟩
  · exact ⟨rfl, hw⟩

theorem recordPending (skip : Bool) {d d' : UnsafeDetector} (hd : d' = d) :
    (Isolation.recordPending skip w d).Same (Isolation.recordPending skip w' d') := by
  unfold Isolation.recordPending
  split
  · exact hw
  · exact { hw with unsafeDetector := hd }

theorem checkGCPoint (h : Host) (skip : Bool) (site : String) :
    Isolation.checkGCPoint h skip w' site = Isolation.checkGCPoint h skip w site := by
  unfold Isolation.checkGCPoint
  rw [hw.unsafeDetector]

theorem endCall (settle : D → D) : (w.endCall settle).Same (w'.endCall settle) := by
  refine { hw with cells := fun kind k hk => ?_ }
  have hcell : w'.cells kind (w'.base kind + k) = w.cells kind (w.base kind + k) :=
    hw.cells kind k hk
  simp only [World.get, World.endCall, hcell]

theorem view : w'.view = w.view := by
  funext kind k
  unfold World.view
  rw [hw.reaches]
  split
  · rename_i hk
    exact hw.cells kind k hk
  · rfl

end Same

end World

/-! ## §2. Commands -/

variable {X K : Type} {h : Host} {skip : Bool}

/-- Nothing but handles was used. -/
def Straight (w : World D) (_ : List (Recorded (Err X) K)) : Prop := w.strayed = false

theorem next_strayed (w : World D) (runnable : List Int) :
    (w.next runnable).2.strayed = w.strayed := by
  unfold World.next
  split <;> rfl

theorem recordPending_strayed (w : World D) (d : UnsafeDetector) :
    (recordPending skip w d).strayed = w.strayed := by
  unfold recordPending
  split <;> rfl

/-- What has strayed stays so. -/
theorem handle_back (q : Query D X K) (w : World D)
    (hgood : (handle h skip q w).2.1.strayed = false) : w.strayed = false := by
  cases q with
  | mint => exact hgood
  | memAllocate d =>
    have hmem : (w.memAllocate skip d).2.strayed = false := hgood
    unfold World.memAllocate at hmem
    split at hmem
    · cases hmem
    · exact hmem
  | get kind k | set kind k d => exact (Bool.or_eq_false_iff.mp hgood).1
  | next runnable => exact (next_strayed w runnable).symm.trans hgood
  | recordUintptr valueID site | recordReflect valueID site | clearUintptrs =>
    exact (recordPending_strayed w _).symm.trans hgood
  | gcSafepoint => exact hgood
  | violation => exact hgood

/-- **A command is answered alike in two calls.** -/
theorem World.Same.handle {w w' : World D} (hw : w.Same w') (q : Query D X K)
    (hgood : (Isolation.handle h skip q w).2.1.strayed = false) :
    (Isolation.handle h skip q w').1 = (Isolation.handle h skip q w).1 ∧
      (Isolation.handle h skip q w).2.1.Same (Isolation.handle h skip q w').2.1 ∧
      (Isolation.handle h skip q w').2.2 = (Isolation.handle h skip q w).2.2 := by
  cases q with
  | mint kind d =>
    obtain ⟨hk, hsame⟩ := hw.mint kind d
    exact ⟨hk, hsame, rfl⟩
  | memAllocate d =>
    have hmem : (w.memAllocate skip d).2.strayed = false := hgood
    obtain ⟨hk, hsame⟩ : (w'.memAllocate skip d).1 = (w.memAllocate skip d).1 ∧
        (w.memAllocate skip d).2.Same (w'.memAllocate skip d).2 := by
      unfold World.memAllocate at hmem ⊢
      cases skip with
      | true => cases hmem
      | false => exact hw.mint .alloc d
    exact ⟨hk, hsame, rfl⟩
  | get kind k =>
    have hk : w.reaches kind k = true := by simpa using (Bool.or_eq_false_iff.mp hgood).2
    exact ⟨hw.cells kind k hk, hw.touch kind k, rfl⟩
  | set kind k d => exact ⟨rfl, (hw.touch kind k).setCell kind k d, rfl⟩
  | next runnable =>
    obtain ⟨hk, hsame⟩ := hw.next runnable
    exact ⟨hk, hsame, rfl⟩
  | recordUintptr | recordReflect =>
    exact ⟨rfl, hw.recordPending skip (by rw [hw.unsafeDetector]), rfl⟩
  | clearUintptrs => exact ⟨rfl, hw.recordPending skip (by rw [hw.unsafeDetector]), rfl⟩
  | gcSafepoint site stack records =>
    refine ⟨rfl, hw, ?_⟩
    show (if records then (Isolation.checkGCPoint h skip w' site).map _ else []) = _
    rw [hw.checkGCPoint]
    rfl
  | violation => exact ⟨rfl, hw, rfl⟩

/-- **Two calls are alike.** -/
theorem env_simulates (settle : D → D) (sched : Option Nat) :
    (env h skip settle sched : Env (Err X) K _ (World D) (Query D X K) Answer).Simulates
      (env h skip settle sched) World.Same Straight where
  commands :=
    { back := fun q w _ hgood => handle_back q w hgood
      step := fun q _ _ _ hw hgood => hw.handle q hgood }
  log_back _ _ _ hgood := hgood
  gcPoint w w' _ site k hw _ := by
    show (Isolation.checkGCPoint h skip w' site).map _ = _
    rw [hw.checkGCPoint]
    rfl
  passed_back _ _ hgood := hgood
  passed _ _ _ hw _ := hw
  beginSet_back _ _ hgood := hgood
  beginSet _ _ _ hw _ := World.same_beginSet hw.unsafeDetector hw.sched
  endCall_back _ _ hgood := hgood
  endCall _ _ _ hw _ := hw.endCall settle
  view _ _ hw := hw.view

end

/-! ## §3. Sets -/

section

variable {I F O V X K A C D : Type} [DecidableEq I]
  {eng : Engine I F O V (Err X) K A C (Kind → Int → Option D) (Query D X K) Answer}
  {h : Host} {skip : Bool} {settle : D → D} {sched : Option Nat}

/-- The pending conversions and the index of the scheduler are those at the
start. -/
structure Restored (w₀ w : World D) : Prop where
  unsafeDetector : w₀.unsafeDetector = w.unsafeDetector
  sched : w₀.sched = w.sched

instance (w₀ w : World D) : Decidable (Restored w₀ w) :=
  decidable_of_iff (w₀.unsafeDetector.pendingUintptrs.entries =
      w.unsafeDetector.pendingUintptrs.entries ∧ w₀.sched = w.sched)
    ⟨fun hw => ⟨congrArg UnsafeDetector.mk (AList.ext hw.1), hw.2⟩,
      fun hw => ⟨congrArg (·.pendingUintptrs.entries) hw.unsafeDetector, hw.sched⟩⟩

/-- **A set whose call begins in a restored world has its entry alone**, for
a function that begins every call anew. -/
theorem sets_independent (hfresh : eng.FreshCalls) (text : X → String) {opts : Options} {fuel : Nat}
    {pre post : List (List A)} {a : List A} {res : Result I V (Recorded (Err X) K) A}
    (hrun : eng.run (env h skip settle sched) opts (none : Option (Hook I V Unit)) () fuel
      (pre ++ a :: post) = some res)
    (hbudget : res.exhausted = false)
    (hstraight : ∀ st ∈ eng.leaves (env h skip settle sched) opts (none : Option (Hook I V Unit)) ()
      fuel (pre ++ [a]), st.core.world.2.strayed = false)
    (hrestored : ∀ s₀ ∈ eng.start (env h skip settle sched) fuel opts.budget,
      ∀ st ∈ eng.leaves (env h skip settle sched) opts (none : Option (Hook I V Unit)) () fuel pre,
        Restored s₀.world.2 st.core.world.2) :
    ∃ res₁, eng.run (env h skip settle sched) opts (none : Option (Hook I V Unit)) () fuel [a] =
        some res₁ ∧
      res.outcomes[pre.length]? = res₁.outcomes[0]? ∧
      res.outputs[pre.length]? = res₁.outputs[0]? ∧
      res.argsAfter[pre.length]? = res₁.argsAfter[0]? ∧
      res.stepsPerSet[pre.length]? = res₁.stepsPerSet[0]? ∧
      (res.entry pre.length).violations.map (category text ·.err) =
        (res₁.entry 0).violations.map (category text ·.err) := by
  obtain ⟨res₁, hres₁, hentry⟩ := Engine.entry_alone (env_simulates settle sched) hfresh hrun hbudget
    (fun s₀ hs₀ st hst =>
      World.same_beginSet (hrestored s₀ hs₀ st hst).unsafeDetector (hrestored s₀ hs₀ st hst).sched)
    (fun st hst => hstraight st hst)
  refine ⟨res₁, hres₁, congrArg Entry.outcome hentry, congrArg Entry.outputs hentry,
    congrArg Entry.argsAfter hentry, congrArg Entry.steps hentry, ?_⟩
  rw [hentry]

end

/-! ## §4. Functions with two sets -/

section

/-- Cells and values are integers, a call stack is a list of names. -/
abbrev IntQuery : Type := Query Int Unit (List String)

/-- A function of one pointer that returns the local `r`. The argument is in
the first allocation of the call. -/
def kernel (code : List ((Nat → Option Int) → Prog IntQuery Answer Int)) (r : Nat) :
    Engine Nat Unit Unit Int (Err Unit) (List String) Int (Nat × List Int) (Kind → Int → Option Int)
      IntQuery Answer :=
  Engine.straight 0 code [r] ["kernel.F"]
    (fun a => .call (.mint .alloc (a.headD 0)) fun k => .done [k])
    (fun _ v => some v) (fun u vals => some (vals.map fun v => u .alloc v))

theorem kernel_freshCalls (code : List ((Nat → Option Int) → Prog IntQuery Answer Int)) (r : Nat) :
    (kernel code r).FreshCalls where
  accepts _ _ _ _ := rfl
  marshal _ _ _ := rfl
  spawn _ _ _ := rfl

/-- A Run of such a function, with detectors and the round-robin scheduler. -/
def runKernel (code : List ((Nat → Option Int) → Prog IntQuery Answer Int)) (r : Nat)
    (args : List (List Int)) : Option (Result Nat Int (Recorded (Err Unit) (List String)) Int) :=
  (kernel code r).run (env Host.listed false id (some 0)) {} (none : Option (Hook Nat Int Unit)) () 100 args

/-- `u := uintptr(unsafe.Pointer(p))`. -/
def toUintptr (_ : Nat → Option Int) : Prog IntQuery Answer Int :=
  .call (.recordUintptr "t0" "k.go:5") fun _ => .done 0

/-- `unsafe.Pointer(u)`. -/
def fromUintptr (_ : Nat → Option Int) : Prog IntQuery Answer Int := .call .clearUintptrs fun _ => .done 0

/-- A call, of a function that does nothing. -/
def callSite (_ : Nat → Option Int) : Prog IntQuery Answer Int :=
  .call (.gcSafepoint "k.go:4" ["kernel.F"] true) fun _ => .done 0

/-- The goroutine that is chosen among the first two of the call. -/
def pick (_ : Nat → Option Int) : Prog IntQuery Answer Int :=
  .call (.next [0, 1]) fun k => .done ((k : Option Int).getD 0)

/-- A conversion that is pending after one call is an error of the next one,
and the scheduler goes on from where one call has left it: the second of two
equal sets is not as it is alone. -/
theorem sets_show_order :
    (runKernel [callSite, toUintptr] 0 [[7], [7]]).map
        (fun res => ((res.entry 0).violations.length, (res.entry 1).violations.length)) = some (0, 1) ∧
      (runKernel [callSite, toUintptr] 0 [[7]]).map (fun res => (res.entry 0).violations.length) =
        some 0 ∧
      (runKernel [pick] 0 [[7], [7]]).map (·.outputs) = some [some [1], some [0]] ∧
      (runKernel [pick] 0 [[7]]).map (·.outputs) = some [some [1]] := by
  decide +kernel

/-- `u := uintptr(unsafe.Pointer(p)); unsafe.Pointer(u); f(); x := *p; *p = x + 1; return x`. -/
def increment : List ((Nat → Option Int) → Prog IntQuery Answer Int) :=
  [toUintptr, fromUintptr, callSite, fun _ => .call (.get .alloc 0) fun x => .done ((x : Option Int).getD 0),
    fun locals => .call (.set .alloc 0 ((locals 3).getD 0 + 1)) fun _ => .done 0]

theorem sets_independent_increment : ∃ res,
    runKernel increment 3 [[5], [7]] = some res ∧ res.outputs = [some [5], some [7]] ∧
      ∃ res₁, runKernel increment 3 [[7]] = some res₁ ∧ res.argsAfter[1]? = res₁.argsAfter[0]? ∧
        res.stepsPerSet[1]? = res₁.stepsPerSet[0]? := by
  have hsome : (runKernel increment 3 [[5], [7]]).isSome = true := by decide +kernel
  obtain ⟨res, hres⟩ := Option.isSome_iff_exists.mp hsome
  have hfacts : (runKernel increment 3 [[5], [7]]).map (fun res => (res.outputs, res.exhausted)) =
      some ([some [5], some [7]], false) := by
    decide +kernel
  rw [hres] at hfacts
  obtain ⟨houtputs, hexhausted⟩ := Prod.mk.inj (Option.some.inj hfacts)
  have hrestored : ∀ s₀ ∈ (kernel increment 3).start (env Host.listed false id (some 0)) 100
        ({} : Options).budget,
      ∀ st ∈ (kernel increment 3).leaves (env Host.listed false id (some 0)) {}
        (none : Option (Hook Nat Int Unit)) () 100 [[5]],
        Restored s₀.world.2 st.core.world.2 := by
    decide +kernel
  have hset : [[5], [7]] = [[5]] ++ [7] :: ([] : List (List Int)) := rfl
  rw [hset] at hres
  obtain ⟨res₁, hres₁, -, -, hargs, hsteps, -⟩ := sets_independent (kernel_freshCalls increment 3)
    (fun _ => "") hres hexhausted (by decide +kernel) hrestored
  exact ⟨res, hres, houtputs, res₁, hres₁, hargs, hsteps⟩

end

end Giri.Isolation
