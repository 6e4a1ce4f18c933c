/-
Giri.Sched.Strategy — which of the runnable goroutines runs next
(`pkg/scheduler`).

The generator of `math/rand` is a parameter: what it draws is determined by
its state, and the state by the seed and the draws before. The statistics
that schedulers keep are left out: nothing reads them.
-/
import Mathlib.Data.List.Sort
import Giri.Basic

namespace Giri.Sched

/-- `rand.Rand`, with states `γ`. -/
structure Rand (γ : Type) where
  newSource : Int → γ
  int63 : γ → Nat × γ
  int : γ → Nat × γ
  int63n : Nat → γ → Nat × γ
  intn : Nat → γ → Nat × γ

/-- `PCT`. A priority that isn't there is read as 0. -/
structure PCT (γ : Type) where
  rng : γ
  priorities : Gid → Option Int
  changePoints : List Nat
  instructionN : Nat

/-- `Scheduler`: `RoundRobin` with `lastIdx`, `Random` and `PCT`. -/
inductive Scheduler (γ : Type) where
  | roundRobin (lastIdx : Nat)
  | random (rng : γ)
  | pct (s : PCT γ)

/-- `ScheduleStrategy`. -/
inductive Strategy where
  | roundRobin
  | random
  | pct
  deriving DecidableEq, Repr

section

variable {γ : Type} (rand : Rand γ)

namespace PCT

/-- The loop of `NewPCT`. -/
def drawPoints : Nat → γ → List Nat × γ
  | 0, g => ([], g)
  | n + 1, g =>
    let (p, g) := rand.int63n 1000000 g
    let (ps, g) := drawPoints n g
    (p :: ps, g)

/-- `NewPCT`. It panics at a slice of negative length. -/
def new (seed bugDepth : Int) : Option (PCT γ) :=
  if bugDepth < 1 then none
  else
    let (points, g) := drawPoints rand (bugDepth - 1).toNat (rand.newSource seed)
    some
      { rng := g
        priorities := fun _ => none
        changePoints := points.insertionSort (· ≤ ·)
        instructionN := 0 }

/-- `s.priorities[gid] = v`. -/
def setPriority (s : PCT γ) (gid : Gid) (v : Int) : PCT γ :=
  { s with priorities := Function.update s.priorities gid (some v) }

/-- Goroutines that have no priority get one. -/
def assign (s : PCT γ) (runnable : List Gid) : PCT γ :=
  runnable.foldl (fun s gid =>
    match s.priorities gid with
    | some _ => s
    | none =>
      let (v, g) := rand.int s.rng
      { s with rng := g }.setPriority gid v) s

/-- At a change point the priority of a random goroutine drops. -/
def invert (s : PCT γ) (first : Gid) (rest : List Gid) : PCT γ :=
  if s.instructionN ∈ s.changePoints then
    let (k, g) := rand.intn (rest.length + 1) s.rng
    let (v, g) := rand.int g
    { s with rng := g }.setPriority ((first :: rest).getD k first) (-v)
  else s

/-- The goroutine with the highest priority, the first of equals. -/
def highest (s : PCT γ) (first : Gid) (rest : List Gid) : Gid :=
  rest.foldl (fun best gid =>
    if (s.priorities best).getD 0 < (s.priorities gid).getD 0 then gid else best) first

end PCT

/-- `RoundRobin.Next`, for goroutines that come sorted. -/
def roundRobinNext (lastIdx : Nat) (first : Gid) (rest : List Gid) : Gid × Nat :=
  let idx := (lastIdx + 1) % (rest.length + 1)
  ((first :: rest).getD idx first, idx)

namespace Scheduler

/-- The scheduler of an interpreter with a configuration, if `New` returns. -/
def new (strategy : Strategy) (seed bugDepth : Int) : Option (Scheduler γ) :=
  match strategy with
  | .roundRobin => some (.roundRobin 0)
  | .random => some (.random (rand.newSource seed))
  | .pct => (PCT.new rand seed bugDepth).map .pct

/-- `Next`; `none` stands for -1. The runnable goroutines come sorted. -/
def next (s : Scheduler γ) : List Gid → Option Gid × Scheduler γ
  | [] => (none, s)
  | first :: rest =>
    match s with
    | .roundRobin lastIdx =>
      let (gid, idx) := roundRobinNext lastIdx first rest
      (some gid, .roundRobin idx)
    | .random rng =>
      let (k, g) := rand.intn (rest.length + 1) rng
      (some ((first :: rest).getD k first), .random g)
    | .pct s =>
      let s := { s with instructionN := s.instructionN + 1 }
      let s := (s.assign rand (first :: rest)).invert rand first rest
      (some (s.highest first rest), .pct s)

def onSpawn (s : Scheduler γ) (child : Gid) : Scheduler γ :=
  match s with
  | .pct s =>
    let (v, g) := rand.int s.rng
    .pct ({ s with rng := g }.setPriority child v)
  | s => s

def onFinish (s : Scheduler γ) (gid : Gid) : Scheduler γ :=
  match s with
  | .pct s => .pct { s with priorities := Function.update s.priorities gid none }
  | s => s

theorem getD_mem_cons {α : Type} (k : Nat) (first : α) (rest : List α) :
    (first :: rest).getD k first ∈ first :: rest := by
  rw [List.getD_eq_getElem?_getD]
  cases hk : (first :: rest)[k]? with
  | none => exact List.mem_cons_self
  | some => exact List.mem_of_getElem? hk

theorem highest_mem (s : PCT γ) (rest : List Gid) :
    ∀ first, s.highest first rest ∈ first :: rest := by
  unfold PCT.highest
  induction rest with
  | nil => exact fun first => List.mem_cons_self
  | cons gid rest ih =>
    intro first
    rw [List.foldl_cons]
    split
    · exact List.mem_cons_of_mem _ (ih gid)
    · rcases List.mem_cons.mp (ih first) with h | h
      · exact List.mem_cons.mpr (.inl h)
      · exact List.mem_cons_of_mem _ (List.mem_cons_of_mem _ h)

/-- A scheduler picks one of the runnable goroutines, if there are any. -/
theorem next_mem (s : Scheduler γ) {runnable : List Gid} (hne : runnable ≠ []) :
    ∃ gid ∈ runnable, (s.next rand runnable).1 = some gid := by
  match runnable, hne with
  | first :: rest, _ =>
    cases s with
    | roundRobin | random => exact ⟨_, getD_mem_cons _ first rest, rfl⟩
    | pct => exact ⟨_, highest_mem _ rest first, rfl⟩

end Scheduler

end

end Giri.Sched
