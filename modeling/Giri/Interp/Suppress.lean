/-
Giri.Interp.Suppress — `//giri:ignore` directives (`ParseSuppressions` in
loader.go) and what `recordViolation` does with them.

A directive is a comment. The loader enters its categories into a map under
two keys "file:line", its own line and the next; the interpreter looks up
`currentSite`, which the prologue of every instruction sets.

A run is a list of events: instructions begin and end, violations are
recorded, and the baton passes between goroutines, where `block` keeps the
site of the goroutine that waits. Three fields of a run are history: the
instructions that are being executed, whether the site is still the one of
the innermost of them, and what has been recorded while executing what.
-/
import Giri.Basic
import Giri.Detector.Unsafe
import Giri.Lib.Transition

namespace Giri.Suppress

/-! ## §1. Directives -/

/-- `token.Position`, without the column. -/
structure Position where
  filename : String
  line : Nat
  deriving DecidableEq, Repr

/-- `fmt.Sprintf("%s:%d", filename, line)`. -/
def siteKey (filename : String) (line : Nat) : String :=
  filename ++ ":" ++ toString line

/-- `posString`; `none` is a position that is not valid. -/
def posString : Option Position → String
  | none => "<unknown>"
  | some p => siteKey p.filename p.line

/-- `ast.Comment`: the text, with its slashes, and where it is. -/
structure Comment where
  text : List Char
  pos : Position
  deriving DecidableEq, Repr

/-- `unicode.IsSpace`. -/
def isSpace (c : Char) : Bool :=
  let n := c.toNat
  (9 ≤ n && n ≤ 13) || n == 0x20 || n == 0x85 || n == 0xA0 || n == 0x1680 ||
    (0x2000 ≤ n && n ≤ 0x200A) || n == 0x2028 || n == 0x2029 || n == 0x202F || n == 0x205F ||
    n == 0x3000

/-- `strings.TrimPrefix`. -/
def trimPrefix (pre s : List Char) : List Char :=
  if pre.isPrefixOf s then s.drop pre.length else s

/-- `strings.TrimSpace`. -/
def trimSpace (s : List Char) : List Char :=
  ((s.dropWhile isSpace).reverse.dropWhile isSpace).reverse

/-- `strings.Fields`; `field` is the field so far, reversed. -/
def fieldsFrom (field : List Char) : List Char → List (List Char)
  | [] => if field = [] then [] else [field.reverse]
  | c :: cs =>
    if isSpace c then
      if field = [] then fieldsFrom [] cs else field.reverse :: fieldsFrom [] cs
    else fieldsFrom (c :: field) cs

def fields (s : List Char) : List (List Char) := fieldsFrom [] s

/-- `knownCategories`. -/
def knownCategories : List String :=
  ["use-after-free", "double-free", "out-of-bounds", "uninitialized-read", "arena-escape",
    "data-race", "nil-pointer-deref", "type-assertion-failure", "goroutine-leak", "deadlock",
    "waitgroup", "closed-channel", "double-close", "nil-map-write", "division-by-zero",
    "context-cancel-leak", "mutex-unlock", "negative-shift", "integer-truncation", "nil-channel",
    "make-invalid", "unsafe-slice"]

/-- `IsKnownCategory`. -/
def isKnownCategory (s : String) : Bool :=
  knownCategories.contains s

def directiveName : List Char := "giri:ignore".toList

/-- The categories that a comment lists; `none` if it is no directive. -/
def Comment.cats (c : Comment) : Option (List String) :=
  let text := trimSpace (trimPrefix ['/', '/'] c.text)
  if directiveName.isPrefixOf text then
    some (((fields (trimPrefix directiveName text)).map String.ofList).filter isKnownCategory)
  else none

/-- A `map[string][]string`. -/
abbrev Suppressions : Type := AList fun _ : String => List String

/-- The body of the loop over the comments. -/
def addComment (seen : Suppressions) (c : Comment) : Suppressions :=
  match c.cats with
  | none => seen
  | some cats =>
    (seen.insert (siteKey c.pos.filename c.pos.line) cats).insert
      (siteKey c.pos.filename (c.pos.line + 1)) cats

/-- `ParseSuppressions`, on the comments of all files in the order of its
loops. -/
def parseSuppressions (comments : List Comment) : Suppressions :=
  comments.foldl addComment ∅

/-! ## §2. Violations -/

/-- The dynamic type of an error. -/
inductive ErrorType where
  | useAfterFree
  | doubleFree
  | outOfBounds
  | unsafePointer (rule : Detector.UnsafeRule)
  | uninitializedRead
  | escapedPointer
  | dataRace
  | nilPointerDeref
  | typeAssertion
  | goroutineLeak
  | deadlock
  | waitGroupNegative
  | doubleClose
  | resourceDoubleClose
  | nilMapWrite
  | divisionByZero
  | contextCancelLeak
  | mutexUnlock
  | negativeShift
  | integerTruncation
  | nilChannel
  | invalidMakeArg
  | invalidUnsafeArg
  /-- An error that is not from package shadow. -/
  | other
  deriving DecidableEq, Repr

/-- An `error`: its type, and what `Error()` returns. -/
structure Err where
  type : ErrorType
  text : String
  deriving DecidableEq, Repr

variable (r : Run) (s : Interpreter) (gid : Gid) (err : Err)

/-- `CategoryOf`. -/
def categoryOf : String :=
  match err.type with
  | .useAfterFree => "use-after-free"
  | .doubleFree => "double-free"
  | .outOfBounds => "out-of-bounds"
  | .unsafePointer rule => "unsafe-pointer-" ++ rule.text
  | .uninitializedRead => "uninitialized-read"
  | .escapedPointer => "arena-escape"
  | .dataRace => "data-race"
  | .nilPointerDeref => "nil-pointer-deref"
  | .typeAssertion => "type-assertion-failure"
  | .goroutineLeak => "goroutine-leak"
  | .deadlock => "deadlock"
  | .waitGroupNegative => "waitgroup"
  | .doubleClose => "closed-channel"
  | .resourceDoubleClose => "double-close"
  | .nilMapWrite => "nil-map-write"
  | .divisionByZero => "division-by-zero"
  | .contextCancelLeak => "context-cancel-leak"
  | .mutexUnlock => "mutex-unlock"
  | .negativeShift => "negative-shift"
  | .integerTruncation => "integer-truncation"
  | .nilChannel => "nil-channel"
  | .invalidMakeArg => "make-invalid"
  | .invalidUnsafeArg => "unsafe-slice"
  | .other => ""

/-- `StackFrame`. -/
structure StackFrame where
  funcName : String
  site : String
  deriving DecidableEq, Repr

/-- `Goroutine`, as far as `recordViolation` reads it. -/
structure Goroutine where
  aborted : Bool := false
  spawnSite : String := ""
  stack : List StackFrame := []
  deriving DecidableEq, Repr

/-- `ViolationWithStack`. -/
structure ViolationWithStack where
  err : Err
  gid : Gid
  spawnSite : String
  frames : List StackFrame
  deriving DecidableEq, Repr

/-- The fields of `Interpreter` that `recordViolation` uses. -/
structure Interpreter where
  goroutines : Gid → Option Goroutine
  suppressions : Suppressions
  maxSteps : Nat := 0
  currentSite : String := ""
  violations : List ViolationWithStack := []
  suppressedViolations : List ViolationWithStack := []
  suppressedCount : Nat := 0

namespace Interpreter

/-- The goroutine is unwinding. -/
def aborted (s : Interpreter) (gid : Gid) : Bool :=
  (s.goroutines gid).any (·.aborted)

/-- `captureStack`: innermost frame first. -/
def captureStack : List StackFrame :=
  match s.goroutines gid with
  | none => []
  | some g => g.stack.reverse

def wrap : ViolationWithStack where
  err := err
  gid := gid
  spawnSite := ((s.goroutines gid).map (·.spawnSite)).getD ""
  frames := s.captureStack gid

/-- The suppression check. -/
def suppresses : Bool :=
  if s.currentSite ≠ "" ∧ s.suppressions.entries.length > 0 then
    match s.suppressions.lookup s.currentSite with
    | some cats => cats.isEmpty || cats.contains (categoryOf err)
    | none => false
  else false

/-- `recordViolation`. -/
def recordViolation : Interpreter :=
  if s.aborted gid then s
  else if s.suppresses err then
    { s with
      suppressedCount := s.suppressedCount + 1
      suppressedViolations := s.suppressedViolations ++ [s.wrap gid err] }
  else { s with violations := s.violations ++ [s.wrap gid err] }

end Interpreter

/-! ## §3. Runs -/

/-- A violation, the instruction during which it was recorded, if any, and
the list it went to. -/
structure Entry where
  violation : ViolationWithStack
  instr : Option (Option Position)
  suppressed : Bool
  deriving DecidableEq, Repr

/-- The interpreter between two events. -/
structure Run where
  interp : Interpreter
  driver : Gid
  /-- Who has the baton. -/
  running : Gid
  /-- The variable `site` of `block`, of a goroutine that waits there. -/
  saved : Gid → Option String := fun _ => none
  /-- History: the instructions begun and not ended, innermost first. -/
  executing : Gid → List (Option Position) := fun _ => []
  /-- History: `currentSite` was last set for the innermost of them. -/
  current : Gid → Bool := fun _ => false
  /-- History: the violations recorded. -/
  recorded : List Entry := []

/-- The driver's goroutine, before its first instruction. -/
def Run.init (comments : List Comment) (goroutines : Gid → Option Goroutine) (maxSteps : Nat)
    (driver : Gid) : Run where
  interp :=
    { goroutines := goroutines, suppressions := parseSuppressions comments, maxSteps := maxSteps }
  driver := driver
  running := driver

/-- What happens, in the goroutine that has the baton. -/
inductive Event where
  /-- The prologue of `execInstruction` or `execInstructionSession`. -/
  | begin (pos : Option Position)
  /-- `execOp` returns. -/
  | finish
  | record (gid : Gid) (err : Err)
  /-- `execInstruction`, beyond the step limit: the site is not set. -/
  | limit (pos : Option Position)
  /-- `block` waits, and `next` goes on or is started. -/
  | transfer (next : Gid)
  /-- The goroutine's function returns. -/
  | exit (next : Gid)
  /-- `wakeQuiescent`: the driver's goroutine goes on, as it can't wait any
  longer. -/
  | quiesce
  /-- `wakeAbort`: a waiting goroutine unwinds. -/
  | abort (gid : Gid)

namespace Run

/-- `recordViolation`, during the instruction `instr`. -/
def record (instr : Option (Option Position)) : Run :=
  { r with
    interp := r.interp.recordViolation gid err
    recorded :=
      if r.interp.aborted gid then r.recorded
      else r.recorded ++ [⟨r.interp.wrap gid err, instr, r.interp.suppresses err⟩] }

/-- `wakeRun`: a goroutine that waits in `block` gets its site back. -/
def wake (next : Gid) : Run :=
  { r with
    running := next
    saved := Function.update r.saved next none
    interp := { r.interp with currentSite := (r.saved next).getD r.interp.currentSite } }

def step : Event → Run
  | .begin pos =>
    { r with
      interp := { r.interp with currentSite := posString pos }
      executing := Function.update r.executing r.running (pos :: r.executing r.running)
      current := Function.update r.current r.running true }
  | .finish =>
    { r with
      executing := Function.update r.executing r.running (r.executing r.running).tail
      current := Function.update r.current r.running false }
  | .record gid err => r.record gid err (r.executing r.running).head?
  | .limit pos =>
    r.record r.running
      ⟨.other, "execution limit of " ++ toString r.interp.maxSteps ++ " steps exceeded at " ++
        posString pos⟩ (some pos)
  | .transfer next =>
    { r with saved := Function.update r.saved r.running (some r.interp.currentSite) }.wake next
  | .exit next =>
    { r with
      executing := Function.update r.executing r.running []
      current := Function.update r.current r.running false }.wake next
  | .quiesce =>
    -- the driver may have been the last to run; otherwise its site is not restored
    if r.running = r.driver then r
    else
      { r with
        saved := Function.update (Function.update r.saved r.running (some r.interp.currentSite))
          r.driver none
        running := r.driver
        current := Function.update r.current r.driver false }
  | .abort gid =>
    { r with
      interp := { r.interp with
        goroutines := Function.update r.interp.goroutines gid
          ((r.interp.goroutines gid).map fun g => { g with aborted := true }) }
      saved := Function.update r.saved gid none
      running := gid
      current := Function.update (Function.update r.current r.running false) gid false }

end Run

end Giri.Suppress
