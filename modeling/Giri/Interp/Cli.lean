/-
Giri.Interp.Cli — a whole program, run once or many times
(`interpreter.Run`, `interpreter.RunN`).

The interpreter with a program in it is a machine that gives the commands of
`Interp/Tables.lean`, and a few more: package-level variables are allocated
before it starts, in the order of two loops over maps (the packages, and the
members of each), so the allocation IDs of the variables are the host's
choice. The machine has REFERENCES to allocations. What the interpreter keeps
of an allocation is found by its ID, and errors name it.

A violation is in one list until `Finish` puts the errors found at the end
before it. Suppressed violations, unmodeled calls and memory statistics are
left out.
-/
import Giri.Interp.Tables

namespace Giri.Cli

open HostMap (Host)
open Effect (Handler Machine)
open Sched (Scheduler Strategy)
open Session (Recorded)
open Tables (Err)

/-! ## §1. Errors -/

/-- Errors other than those of pending conversions. `about` are the ones with
the ID of an allocation. -/
inductive Other (X : Type) where
  | plain (x : X)
  | about (x : X) (alloc : AllocID)
  | arenaLeak (id : Nat) (createSite : String)
  | deadlock (goroutineCount : Nat)
  | goroutineLeak (gid : Gid) (g : Tables.Goroutine)
  | contextCancelLeak (rec : Tables.CancelRecord)
  deriving DecidableEq

/-- The texts of the errors that are not spelled out. -/
structure Texts (X : Type) where
  plain : X → String
  about : X → AllocID → String

/-- `Error()`. -/
def message {X : Type} (texts : Texts X) : Err (Other X) → String
  | .unsafePointer v =>
    "unsafe.Pointer violation (" ++ v.rule.text ++ ") at " ++ v.site ++ "\n  " ++ v.details
  | .other (.plain x) => texts.plain x
  | .other (.about x alloc) => texts.about x alloc
  | .other (.arenaLeak id site) =>
    "arena leak: arena " ++ toString id ++ " created at " ++ site ++ " was never freed\n" ++
      "  hint: use defer arena.Free() immediately after creation"
  | .other (.deadlock n) =>
    "deadlock: all goroutines are asleep — " ++ toString n ++ " goroutine(s) blocked"
  | .other (.goroutineLeak gid g) =>
    "goroutine leak: goroutine " ++ toString gid ++ " blocked on " ++ g.blockKind ++ " at " ++
      g.blockSite ++ " (spawned at " ++ g.spawnSite ++ ")"
  | .other (.contextCancelLeak r) =>
    "context-cancel-leak: cancel function created at " ++ r.site ++
      " was never called (goroutine " ++ toString r.gid ++ ")"

/-! ## §2. Allocations -/

/-- A reference to a package-level variable, or to the allocation with a
number among those that the program makes. -/
inductive Ref (G : Type) where
  | global (g : G)
  | alloc (k : Nat)
  deriving DecidableEq

/-- `globals` are in the order of their allocation. `cells` is what the
shadow memory and the tables of the interpreter keep of an allocation. -/
structure World (Fl St V M γ G D : Type) where
  tables : Tables.World Fl St V M γ
  globals : List G
  allocated : Nat := 0
  cells : AllocID → Option D

namespace World

variable {Fl St V M γ G D : Type} [DecidableEq G] (w : World Fl St V M γ G D)

/-- The ID of an allocation. -/
def resolve : Ref G → Option AllocID
  | .global g => if g ∈ w.globals then some (w.globals.idxOf g + 1) else none
  | .alloc k => if k < w.allocated then some (w.globals.length + k + 1) else none

def setCell (id : AllocID) (d : D) : World Fl St V M γ G D :=
  { w with cells := Function.update w.cells id (some d) }

def load (r : Ref G) : Option D := (w.resolve r).bind w.cells

def store (r : Ref G) (d : D) : World Fl St V M γ G D :=
  match w.resolve r with
  | some id => w.setCell id d
  | none => w

/-- `Memory.Allocate`. -/
def allocate (d : D) : World Fl St V M γ G D :=
  { w.setCell (w.globals.length + w.allocated + 1) d with allocated := w.allocated + 1 }

end World

/-! ## §3. Commands -/

/-- What a program may ask for. -/
inductive Query (Fl St V M X K G D : Type) where
  | table (q : Tables.Query Fl St V M (Other X) K)
  | load (r : Ref G)
  | store (r : Ref G) (d : D)
  | allocate (d : D)
  /-- A violation that names an allocation. -/
  | violationAt (x : X) (r : Ref G) (stack : K)

def Answer {Fl St V M X K G D : Type} : Query Fl St V M X K G D → Type
  | .table q => Tables.Answer q
  | .load _ => Option D
  | .allocate _ => Nat
  | _ => Unit

section

variable {Fl St V M X K γ G D S : Type} [LinearOrder Fl] [LinearOrder St] [DecidableEq G]
  (rand : Sched.Rand γ)

/-- The fields of `Config` that the model reads. -/
structure Config where
  strategy : Strategy := .roundRobin
  randomSeed : Int := 0
  bugDepth : Int := 3
  trackArenas : Bool := true
  trackUnsafe : Bool := true

/-- There is an unsafe detector if the configuration says so. A program is
not interpreted in concrete mode: the keys of maps are not sorted. -/
def Config.tables (cfg : Config) : Tables.Config where
  registry := cfg.trackUnsafe
  concrete := false

def handle (cfg : Config) (h : Host) : Handler (Query Fl St V M X K G D) Answer
    (World Fl St V M γ G D) (Recorded (Err (Other X)) K)
  | .table q, w =>
    let (a, tables, log) := Tables.handle rand cfg.tables h q w.tables
    (a, { w with tables := tables }, log)
  | .load r, w => (w.load r, w, [])
  | .store r d, w => ((), w.store r d, [])
  | .allocate d, w => (w.allocated, w.allocate d, [])
  | .violationAt x r stack, w =>
    ((), w, (w.resolve r).toList.map fun id => ⟨.other (.about x id), some stack⟩)

/-! ## §4. `Run` -/

/-- The interpreter with a program. -/
structure Program (Fl St V M X K G D S : Type) where
  machine : Machine S (Query Fl St V M X K G D) Answer
  /-- `interp.deadlock`. -/
  deadlock : S → Option Nat
  /-- The package-level variables of each package. -/
  packages : List (List G)
  nodup : packages.flatten.Nodup
  /-- What a variable is allocated with. -/
  describe : G → D
  memory : M

/-- The loops of `Run` over the packages and their members. -/
def allocateGlobals (h : Host) (packages : List (List G)) : List G :=
  ((h.order 0 packages).zipIdx 1).flatMap fun p => h.order p.2 p.1

/-- `newWithArena`, and the package-level variables. -/
def start (cfg : Config) (h : Host) (p : Program Fl St V M X K G D S) :
    Option (World Fl St V M γ G D) :=
  (Scheduler.new rand cfg.strategy cfg.randomSeed cfg.bugDepth).map fun s =>
    let globals := allocateGlobals h p.packages
    { tables := { sched := some s, memory := p.memory, time := p.packages.length + 1 }
      globals := globals
      cells := fun id => if id = 0 then none else globals[id - 1]?.map p.describe }

/-- The interpreter when no goroutine is left, with the violations. -/
def execution (cfg : Config) (h : Host) (p : Program Fl St V M X K G D S) (fuel : Nat) :
    Option (S × (World Fl St V M γ G D × List (Recorded (Err (Other X)) K))) :=
  (start rand cfg h p).bind fun w =>
    p.machine.exec (handle rand cfg h) fuel p.machine.initial (w, [])

section Finish

variable (cfg : Config) (h : Host) (w : Tables.World Fl St V M γ)

/-- `LiveArenas`. -/
def liveArenas : List ((_ : Nat) × Tables.ArenaState) :=
  (h.order w.time w.arenas.entries).filter fun e => !e.2.freed

/-- `ArenaDetector.CheckFinalize`. -/
def arenaLeaks : List (Err (Other X)) :=
  if cfg.trackArenas then
    (liveArenas h w).map fun e => .other (.arenaLeak e.1 e.2.createSite)
  else []

/-- `UnsafeDetector.CheckFinalize`. -/
def pendingErrors : List (Err (Other X)) :=
  (Tables.checkGCPoint cfg.tables h w "<program end>").map .unsafePointer

/-- `checkGoroutineLeaks`. -/
def checkGoroutineLeaks (deadlock : Option Nat) : List (Err (Other X)) :=
  match deadlock with
  | some n => [.other (.deadlock n)]
  | none =>
    if w.halting then []
    else
      let ids := ((h.order w.time w.goroutines.entries).filter fun e =>
        e.2.status == .blocked && !e.2.panicked).map (·.1)
      (Tables.World.sortIDs ids).filterMap fun id =>
        (w.goroutines.lookup id).map fun g => .other (.goroutineLeak id g)

/-- The loop of `Finish` over `cancelFuncs`. -/
def cancelLeaks : List (Err (Other X)) :=
  (h.order w.time w.cancelFuncs.entries).map fun e => .other (.contextCancelLeak e.2)

/-- What `Finish` adds to the violations. -/
def finalErrors (deadlock : Option Nat) : List (Err (Other X)) :=
  arenaLeaks cfg h w ++ pendingErrors cfg h w.looped ++
    checkGoroutineLeaks h w.looped.looped deadlock ++ cancelLeaks h w.looped.looped.looped

/-- `Finish`. -/
def finish (deadlock : Option Nat) (violations : List (Recorded (Err (Other X)) K)) :
    List (Recorded (Err (Other X)) K) :=
  (finalErrors cfg h w deadlock).map (⟨·, none⟩) ++ violations

end Finish

/-- `Run`, of whose result the violations. `none` if it panics, or the
program has more steps than `fuel`. -/
def run (cfg : Config) (h : Host) (p : Program Fl St V M X K G D S) (fuel : Nat) :
    Option (List (Recorded (Err (Other X)) K)) :=
  (execution rand cfg h p fuel).map fun r =>
    finish cfg h r.2.1.tables (p.deadlock r.1) r.2.2

/-! ## §5. `RunN` -/

/-- A violation in the result of `RunN`; `reproSeed` is a field of
`ViolationWithStack`, and other errors have no place for it. -/
structure Found (X K : Type) where
  violation : Recorded (Err (Other X)) K
  reproSeed : Option Int
  deriving DecidableEq

/-- The errors of one run that no run has found before. -/
def collect (texts : Texts X) (seed : Int) :
    List (Recorded (Err (Other X)) K) → List String → List String × List (Found X K)
  | [], seen => (seen, [])
  | v :: vs, seen =>
    let key := message texts v.err
    if key ∈ seen then collect texts seed vs seen
    else
      let (seen, found) := collect texts seed vs (key :: seen)
      (seen, ⟨v, v.frames.map fun _ => seed⟩ :: found)

/-- The configuration of a run of `RunN`. -/
def Config.seeded (cfg : Config) (seed : Int) : Config :=
  { cfg with strategy := .pct, randomSeed := seed }

/-- The loop of `RunN`: `n` more runs, with the hosts of each. -/
def runLoop (cfg : Config) (texts : Texts X) (p : Program Fl St V M X K G D S) (fuel : Nat) :
    Nat → (Nat → Host) → γ → List String → Option (List (Found X K))
  | 0, _, _, _ => some []
  | n + 1, hosts, g, seen => do
    let (seed, g) := rand.int63 g
    let violations ← run rand (cfg.seeded seed) (hosts 0) p fuel
    let (seen, found) := collect texts seed violations seen
    let rest ← runLoop cfg texts p fuel n (fun i => hosts (i + 1)) g seen
    return found ++ rest

/-- The seed of the `i`-th run. -/
def seedOf : Nat → γ → Int
  | 0, g => (rand.int63 g).1
  | i + 1, g => seedOf i (rand.int63 g).2

/-- `RunN`. -/
def runN (cfg : Config) (texts : Texts X) (p : Program Fl St V M X K G D S) (fuel n : Nat)
    (seed : Int) (hosts : Nat → Host) : Option (List (Found X K)) :=
  runLoop rand cfg texts p fuel n hosts (rand.newSource seed) []

end

end Giri.Cli
