/-
Giri.Report.Findings — how a report is put together and counted
(`report/report.go`, `cmd/giri/main.go`).

Findings come into a report in three ways: `build` renders the violations of
a run, `addSuppressed` those that a `//giri:ignore` covers, and `addFindings`
takes findings as they are, fresh or from the analysis cache. Each keeps the
summary by itself. They agree as long as what is handed to `addFindings` as
active is not flagged as suppressed: it counts what it is told, the exit code
and the formatters look at the flag.

What `classifyError` makes of an error is a parameter. It fills in part of a
finding (`Classified`); the suppression flag is not in that part. The other
parameter is `encoding/json`: what a finding is after it has been stored and
loaded. Memory statistics are left out.
-/
import Mathlib.Algebra.BigOperators.Group.List.Basic
import Giri.Report.Location

namespace Giri.Reporting

open Lsp (Bytes)
open Framing (ascii)

/-- `Severity`, an `int`. -/
inductive Severity where
  | error
  | warning
  | info
  | other (n : Int)
  deriving DecidableEq, Repr

def Severity.toString : Severity → String
  | .error => "ERROR"
  | .warning => "WARNING"
  | .info => "INFO"
  | .other _ => "UNKNOWN"

/-- What `classifyError` fills in. -/
structure Classified where
  severity : Severity
  category : Bytes
  message : Bytes := []
  location : Bytes := []
  allocSite : Bytes := []
  freeSite : Bytes := []
  hint : Bytes := []
  detectorName : Bytes := []
  deriving DecidableEq, Repr

/-- `Finding`. -/
structure Finding extends Classified where
  stackTrace : Bytes := []
  goroutineID : Int := 0
  reproSeed : Int := 0
  suppressed : Bool := false
  suppressReason : Bytes := []
  deriving DecidableEq, Repr

/-- `Summary`. A map is a list of its entries. -/
structure Summary where
  totalFindings : Nat := 0
  bySeverity : List (String × Nat) := []
  byCategory : List (Bytes × Nat) := []
  suppressed : Nat := 0
  deriving DecidableEq, Repr

/-- `Report`. -/
structure Report where
  findings : List Finding := []
  summary : Summary := {}
  maxViolations : Int := 0
  deriving DecidableEq, Repr

/-- An error of a run: what a `stackTracer` wraps and tells, and the seed of
a `reproSeeder`. -/
structure Violation (E : Type) where
  underlying : E
  stack : Option (Bytes × Int) := none
  reproSeed : Option Int := none

variable {E : Type} {κ : Type} [DecidableEq κ]

/-! ## §1. Adding findings -/

/-- `m[k]++`. -/
def increment (k : κ) : List (κ × Nat) → List (κ × Nat)
  | [] => [(k, 1)]
  | e :: m => if e.1 = k then (k, e.2 + 1) :: m else e :: increment k m

/-- A finding that counts. -/
def Report.addActive (r : Report) (f : Finding) : Report :=
  { r with
    findings := r.findings ++ [f]
    summary := { r.summary with
      totalFindings := r.summary.totalFindings + 1
      bySeverity := increment f.severity.toString r.summary.bySeverity
      byCategory := increment f.category r.summary.byCategory } }

/-- A finding that does not. -/
def Report.addQuiet (r : Report) (f : Finding) : Report :=
  { r with
    findings := r.findings ++ [{ f with suppressed := true }]
    summary := { r.summary with suppressed := r.summary.suppressed + 1 } }

variable (classifyError : E → Classified)

/-- `findingFromError`. -/
def findingFromError (err : Violation E) : Finding :=
  { classifyError err.underlying with
    stackTrace := (err.stack.map Prod.fst).getD []
    goroutineID := (err.stack.map Prod.snd).getD 0
    reproSeed := err.reproSeed.getD 0 }

/-- `Build`. -/
def build (violations : List (Violation E)) : Report :=
  violations.foldl (fun r err => r.addActive (findingFromError classifyError err)) {}

/-- `FindingsFrom`. -/
def findingsFrom (violations : List (Violation E)) : List Finding :=
  violations.map (findingFromError classifyError)

/-- The reason of a suppression. -/
def ignoreReason : Bytes := ascii "//giri:ignore".toList

/-- `AddSuppressed`. -/
def Report.addSuppressed (r : Report) (violations : List (Violation E)) : Report :=
  violations.foldl (fun r err =>
    r.addQuiet { findingFromError classifyError err with suppressReason := ignoreReason }) r

/-- `AddFindings`. -/
def Report.addFindings (r : Report) (active suppressed : List Finding) : Report :=
  suppressed.foldl (fun r f =>
    r.addQuiet (if f.suppressReason = [] then { f with suppressReason := ignoreReason } else f))
    (active.foldl Report.addActive r)

/-- `ExitCode`. -/
def Report.exitCode (r : Report) : Nat :=
  if r.findings.any fun f => !f.suppressed && decide (f.severity = .error) then 1 else 0

/-! ## §2. Counting -/

/-- The findings that count. -/
def Report.active (r : Report) : List Finding := r.findings.filter fun f => !f.suppressed

/-- The summary counts the findings. -/
structure Counted (r : Report) : Prop where
  total : r.summary.totalFindings = r.active.length
  bySeverity : (r.summary.bySeverity.map Prod.snd).sum = r.active.length
  byCategory : (r.summary.byCategory.map Prod.snd).sum = r.active.length
  suppressed : r.summary.suppressed = (r.findings.filter Finding.suppressed).length

theorem sum_increment (k : κ) (m : List (κ × Nat)) :
    ((increment k m).map Prod.snd).sum = (m.map Prod.snd).sum + 1 := by
  induction m with
  | nil => rfl
  | cons e m ih =>
    rw [increment]
    split
    · simp only [List.map_cons, List.sum_cons]
      omega
    · simp only [List.map_cons, List.sum_cons, ih]
      omega

variable {r : Report} {f : Finding}

theorem Counted.addActive (h : Counted r) (hf : f.suppressed = false) :
    Counted (r.addActive f) := by
  have hactive : (r.addActive f).active.length = r.active.length + 1 := by
    simp [Report.active, Report.addActive, hf]
  refine ⟨?_, ?_, ?_, ?_⟩
  · rw [hactive, ← h.total]; rfl
  · rw [hactive, ← h.bySeverity]; exact sum_increment ..
  · rw [hactive, ← h.byCategory]; exact sum_increment ..
  · simpa [Report.addActive, hf] using h.suppressed

theorem Counted.addQuiet (h : Counted r) (f : Finding) : Counted (r.addQuiet f) := by
  have hactive : (r.addQuiet f).active = r.active := by
    simp [Report.active, Report.addQuiet]
  refine ⟨?_, ?_, ?_, ?_⟩
  · rw [hactive]; exact h.total
  · rw [hactive]; exact h.bySeverity
  · rw [hactive]; exact h.byCategory
  · simp [Report.addQuiet, h.suppressed]

/-- A call on a report. -/
inductive Call (E : Type) where
  | addSuppressed (violations : List (Violation E))
  | addFindings (active suppressed : List Finding)

def Report.call (r : Report) : Call E → Report
  | .addSuppressed violations => r.addSuppressed classifyError violations
  | .addFindings active suppressed => r.addFindings active suppressed

/-- What is handed over as active is not flagged. -/
def Call.Unflagged : Call E → Prop
  | .addSuppressed _ => True
  | .addFindings active _ => ∀ f ∈ active, f.suppressed = false

theorem Counted.call {c : Call E} (h : Counted r) (hc : c.Unflagged) :
    Counted (r.call classifyError c) := by
  cases c with
  | addSuppressed violations =>
    exact List.foldlRecOn (motive := Counted) _ _ h fun _ hr _ _ => hr.addQuiet _
  | addFindings active suppressed =>
    refine List.foldlRecOn (motive := Counted) _ _ ?_ fun _ hr _ _ => hr.addQuiet _
    exact List.foldlRecOn (motive := Counted) _ _ h fun _ hr f hf => hr.addActive (hc f hf)

theorem counted_build (violations : List (Violation E)) :
    Counted (build classifyError violations) :=
  List.foldlRecOn (motive := Counted) _ _ ⟨rfl, rfl, rfl, rfl⟩ fun _ hr _ _ => hr.addActive rfl

theorem exitCode_eq_one : r.exitCode = 1 ↔ ∃ f ∈ r.active, f.severity = .error := by
  simp [Report.exitCode, Report.active, and_assoc]

/-! ## §3. The loop over programs -/

/-- `RunResult`, as far as it is reported. -/
structure RunResult (E : Type) where
  violations : List (Violation E) := []
  suppressedViolations : List (Violation E) := []

variable (json : Finding → Finding)

/-- One program, live or from the cache, where an identical run has stored
its findings. -/
def addProgram (r : Report) (hit : Bool) (result : RunResult E) : Report :=
  let active := findingsFrom classifyError result.violations
  let suppressed := findingsFrom classifyError result.suppressedViolations
  if hit then r.addFindings (active.map json) (suppressed.map json)
  else r.addFindings active suppressed

/-- The loop over programs, with whether each is in the cache. -/
def report (maxViolations : Int) (progs : List (Bool × RunResult E)) : Report :=
  progs.foldl (fun r prog => addProgram classifyError json r prog.1 prog.2)
    { build classifyError ([] : List (Violation E)) with maxViolations }

/-- `encoding/json` returns what it is given of a run. -/
def RunResult.Stored (result : RunResult E) : Prop :=
  ∀ err ∈ result.violations ++ result.suppressedViolations,
    json (findingFromError classifyError err) = findingFromError classifyError err

variable {classifyError} {json}

theorem addProgram_hit {result : RunResult E} (h : result.Stored classifyError json)
    (r : Report) (hit : Bool) :
    addProgram classifyError json r hit result = addProgram classifyError json r false result := by
  have hmap : ∀ errs : List (Violation E), (∀ err ∈ errs, err ∈ result.violations ++
      result.suppressedViolations) → (findingsFrom classifyError errs).map json =
        findingsFrom classifyError errs := by
    intro errs herrs
    rw [findingsFrom, List.map_map]
    exact List.map_congr_left fun err herr => h err (herrs err herr)
  cases hit with
  | false => rfl
  | true =>
    have hactive := hmap _ fun err herr => List.mem_append_left _ herr
    have hsuppressed := hmap _ fun err herr => List.mem_append_right _ herr
    simp only [addProgram, hactive, hsuppressed, if_true, Bool.false_eq_true, if_false]

/-- **The summary counts, and a replayed program contributes what a live one
does.** -/
theorem reports_faithful (classifyError : E → Classified) (json : Finding → Finding) :
    (∀ (violations : List (Violation E)) (calls : List (Call E)), (∀ c ∈ calls, c.Unflagged) →
      let r := calls.foldl (Report.call classifyError) (build classifyError violations)
      Counted r ∧ (r.exitCode = 1 ↔ ∃ f ∈ r.active, f.severity = .error)) ∧
    ∀ (maxViolations : Int) (progs : List (Bool × RunResult E)),
      (∀ prog ∈ progs, prog.2.Stored classifyError json) →
      report classifyError json maxViolations progs =
        report classifyError json maxViolations (progs.map fun prog => (false, prog.2)) := by
  refine ⟨fun violations calls hcalls => ⟨?_, exitCode_eq_one⟩, ?_⟩
  · exact List.foldlRecOn (motive := Counted) _ _ (counted_build classifyError violations)
      fun _ hr c hc => hr.call classifyError (hcalls c hc)
  · intro maxViolations progs
    unfold report
    generalize { build classifyError ([] : List (Violation E)) with maxViolations } = r
    induction progs generalizing r with
    | nil => exact fun _ => rfl
    | cons prog progs ih =>
      intro hstored
      rw [List.foldl_cons, List.map_cons, List.foldl_cons,
        addProgram_hit (hstored prog List.mem_cons_self)]
      exact ih _ fun x hx => hstored x (List.mem_cons_of_mem _ hx)

def race : Finding := { severity := .error, category := ascii "data-race".toList }

/-- A race that counts and one that is suppressed; and one from the cache. -/
theorem reports_faithful_race :
    (({} : Report).addFindings [race] [race]).summary.totalFindings = 1 ∧
    report (E := Unit) (fun _ => race.toClassified) id 0 [(true, { violations := [⟨(), none, none⟩] })] =
      report (fun _ => race.toClassified) id 0 [(false, { violations := [⟨(), none, none⟩] })] := by
  have hfaithful := reports_faithful (E := Unit) (fun _ => race.toClassified) id
  refine ⟨?_, hfaithful.2 0 _ fun _ _ _ _ => rfl⟩
  exact (hfaithful.1 [] [.addFindings [race] [race]] (by
    intro c hc
    cases List.mem_singleton.mp hc
    intro f hf
    cases List.mem_singleton.mp hf
    rfl)).1.total

/-- **A flagged finding that is handed over as active** is counted, though it
is suppressed. -/
theorem flagged_counted :
    let r := ({} : Report).addFindings [{ race with suppressed := true }] []
    r.summary.totalFindings = 1 ∧ r.active = [] ∧ r.summary.suppressed = 0 ∧ r.exitCode = 0 := by
  decide

end Giri.Reporting
