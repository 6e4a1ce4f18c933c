/-
Giri.Session.OrderTheorems — a Run and the host's map iteration order.

`run_eq_of_orderly`: a Run whose loops over maps are `Orderly` under one
host has the same result under every other.

Two kinds of loops are not. `CheckGCPoint` lists the pending conversions as
the host iterates over them, so with two of them pending the violations of
one call come in either order. And a NaN key makes the comparison of
`sortMapKeys` no order at all: which key comes first depends on where the
NaN was before sorting.
-/
import Giri.Interp.TablesTheorems

namespace Giri.Tables

open HostMap (Host)
open Sched (Scheduler)
open Session (Recorded Env Engine Result Options Hook Good Violation)
open Effect (Prog)

section

variable {I F O V X K A C M Fl St γ H : Type} [DecidableEq I] [LinearOrder Fl] [LinearOrder St]
  {eng : Engine I F O V (Err X) K A C M (Query Fl St V M X K) Answer} {rand : Sched.Rand γ}
  {cfg : Config} {memory : M} {sched : Option (Scheduler γ)} {cache : Option (Hook I V H)}

/-- **A Run whose loops are orderly has the same result under all hosts.** -/
theorem run_eq_of_orderly (h h' : Host) {opts : Options} {hook : H} {fuel : Nat}
    {args : List (List A)} {res : Result I V (Recorded (Err X) K) A}
    (hinit : eng.InitGood (env rand cfg h memory sched) Orderly fuel opts.budget)
    (hrun : eng.run (env rand cfg h memory sched) opts cache hook fuel args = some res)
    (hend : ∀ st ∈ eng.leaves (env rand cfg h memory sched) opts cache hook fuel args,
      Good Orderly st.core) :
    eng.run (env rand cfg h' memory sched) opts cache hook fuel args = some res := by
  have hworld : (env rand cfg h memory sched : Env (Err X) K M (World Fl St V M γ) (Query Fl St V M X K)
      Answer).world.Same (env rand cfg h' memory sched : Env (Err X) K M (World Fl St V M γ)
      (Query Fl St V M X K) Answer).world :=
    ⟨.refl _, .refl _, rfl, rfl, rfl, .refl _, fun _ => GoMap.same_empty, rfl, fun _ => .refl _, rfl,
      .refl _, .refl _, rfl, rfl⟩
  exact Engine.run_sim (env_simulates h h' memory sched) hworld hinit hrun hend

end

/-! ## Functions that show the host -/

section

/-- The queries of functions whose values are integers. A call stack is a
list of names; there are no string keys, so their order is any. -/
abbrev IntQuery : Type := Query Int Nat Int Unit Unit (List String)

/-- A function without arguments that returns the local `r`. -/
def kernel (code : List ((Nat → Option Int) → Prog IntQuery Answer Int)) (r : Nat) :
    Engine Nat Unit Unit Int (Err Unit) (List String) Int (Nat × List Int) Unit IntQuery Answer :=
  Engine.straight 0 code [r] ["kernel.F"] (fun _ => .done []) (fun _ v => some v) (fun _ _ => some [])

def noRand : Sched.Rand Unit where
  newSource _ := ()
  int63 _ := (0, ())
  int _ := (0, ())
  int63n _ _ := (0, ())
  intn _ _ := (0, ())

/-- A Run of such a function with one argument set. -/
def runKernel (h : Host) (code : List ((Nat → Option Int) → Prog IntQuery Answer Int)) (r : Nat) :
    Option (Result Nat Int (Recorded (Err Unit) (List String)) Int) :=
  (kernel code r).run (env noRand {} h () (some (.roundRobin 0))) {} (none : Option (Hook Nat Int Unit)) ()
    100 [[]]

/-- `uintptr(unsafe.Pointer(&x))`. -/
def toUintptr (valueID site : String) (_ : Nat → Option Int) : Prog IntQuery Answer Int :=
  .call (.recordUintptr valueID site) fun _ => .done 0

/-- A call, of a function that does nothing. -/
def callSite (site : String) (_ : Nat → Option Int) : Prog IntQuery Answer Int :=
  .call (.gcSafepoint site ["kernel.F"] true) fun _ => .done 0

/-- `m[k] = v`, for the map in the local 0. -/
def mapSet (k : Option (MapKey Int Nat)) (locals : Nat → Option Int) : Prog IntQuery Answer Int :=
  .call (.mapUpdate ((locals 0).getD 0).toNat k 0) fun _ => .done 0

/-- The first key of `range m` as a number, or -1 for NaN. -/
def firstKey (locals : Nat → Option Int) : Prog IntQuery Answer Int :=
  .call (.rangeKeys ((locals 0).getD 0).toNat) fun keys =>
    match (keys : List (Option (MapKey Int Nat))) with
    | some (.float x) :: _ => .done x
    | _ => .done (-1)

/-- Two uintptrs are pending at a call. -/
def twoUintptrs : List ((Nat → Option Int) → Prog IntQuery Answer Int) :=
  [toUintptr "t0" "k.go:4", toUintptr "t1" "k.go:5", callSite "k.go:6"]

/-- `m := map[float64]int{1: 0, 2: 0, NaN: 0}; for k := range m { return k }`. -/
def nanMap : List ((Nat → Option Int) → Prog IntQuery Answer Int) :=
  [fun _ => .call .makeMap fun r => .done (Int.ofNat r), mapSet (some (.float 1)),
    mapSet (some (.float 2)), mapSet none, firstKey]

/-- The values whose conversions a Run complains about, in its order. -/
def complaints (res : Option (Result Nat Int (Recorded (Err Unit) (List String)) Int)) :
    Option (List String) :=
  res.map fun r => r.violations.map fun v =>
    match v.err.err with
    | .unsafePointer e => e.details
    | .other _ => ""

/-- The violations of one Run come in two orders, and a range over a map
begins with two different keys. -/
theorem run_shows_host :
    (runKernel Host.listed twoUintptrs 2).map (fun r => r.violations.length) = some 2 ∧
      complaints (runKernel Host.listed twoUintptrs 2) ≠
        complaints (runKernel Host.reversed twoUintptrs 2) ∧
      (runKernel Host.listed nanMap 4).map (·.outputs) = some [some [1]] ∧
      (runKernel Host.reversed nanMap 4).map (·.outputs) = some [some [-1]] := by
  decide +kernel

/-- The same with one uintptr and without the NaN. -/
def orderlyKernel : List ((Nat → Option Int) → Prog IntQuery Answer Int) :=
  [fun _ => .call .makeMap fun r => .done (Int.ofNat r), mapSet (some (.float 1)),
    mapSet (some (.float 2)), toUintptr "t0" "k.go:4", callSite "k.go:6", firstKey]

theorem run_eq_of_orderly_orderlyKernel : ∃ res,
    runKernel Host.listed orderlyKernel 5 = some res ∧ res.violations.length = 1 ∧
      runKernel Host.reversed orderlyKernel 5 = some res := by
  have hsome : (runKernel Host.listed orderlyKernel 5).isSome = true := by decide +kernel
  obtain ⟨res, hres⟩ := Option.isSome_iff_exists.mp hsome
  have hlen : (runKernel Host.listed orderlyKernel 5).map (·.violations.length) = some 1 := by
    decide +kernel
  rw [hres] at hlen
  refine ⟨res, hres, Option.some.inj hlen, run_eq_of_orderly Host.listed Host.reversed ?_ hres ?_⟩
  · intro spawn hspawn
    cases hspawn
  · unfold Good
    decide +kernel

end

end Giri.Tables
