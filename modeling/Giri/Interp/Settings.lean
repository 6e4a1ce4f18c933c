/-
Giri.Interp.Settings — the configuration of a run (`buildConfig` and
`applyProjectConfig` in main.go).

A flag that is not given still has a value, its default, and `buildConfig`
does not tell the two apart. So what `.giri.json` says of the seed, the
strategy, the depth, the limits and verbosity is always overwritten. The
switches of the detectors are read from the file, but a flag for one of them,
or `-all`, counts only together with `-all=false`.
-/
import Giri.Cache.Key

namespace Giri.Settings

open Cache (Config defaultConfig)

/-! ## §1. The code -/

/-- `interpreter.Config`, without `Intercepts`. -/
structure RunConfig extends Config where
  verbose : Bool
  deriving DecidableEq, Repr

/-- The flags given on the command line. -/
structure Flags where
  flagAll : Option Bool := none
  flagArena : Option Bool := none
  flagUnsafe : Option Bool := none
  flagRace : Option Bool := none
  flagInit : Option Bool := none
  flagTrunc : Option Bool := none
  flagDClose : Option Bool := none
  flagStrategy : Option String := none
  flagSeed : Option Int64 := none
  flagDepth : Option Int64 := none
  flagVerbose : Option Bool := none
  flagMaxSteps : Option UInt64 := none
  flagMaxGoroutines : Option Int64 := none

/-- `projectConfig`: the fields that are in `.giri.json`. Those for the output
are left out, and so is the number of runs. -/
structure ProjectConfig where
  all : Option Bool := none
  arena : Option Bool := none
  unsafePointer : Option Bool := none
  race : Option Bool := none
  init : Option Bool := none
  strategy : Option String := none
  seed : Option Int64 := none
  depth : Option Int64 := none
  verbose : Option Bool := none
  maxSteps : Option UInt64 := none
  maxGoroutines : Option Int64 := none

/-- The names of the strategies; any other one leaves the strategy as it is. -/
def strategyOf : String → Option UInt8
  | "roundrobin" => some 0
  | "random" => some 1
  | "pct" => some 3
  | _ => none

def applyProjectConfig (config : RunConfig) (pc : ProjectConfig) : RunConfig :=
  let config := if pc.all = some false then
      { config with
        trackArenas := false, trackUnsafe := false, trackRaces := false, trackInit := false }
    else config
  { config with
    trackArenas := pc.arena.getD config.trackArenas
    trackUnsafe := pc.unsafePointer.getD config.trackUnsafe
    trackRaces := pc.race.getD config.trackRaces
    trackInit := pc.init.getD config.trackInit
    scheduleStrategy := (pc.strategy.bind strategyOf).getD config.scheduleStrategy
    randomSeed := pc.seed.getD config.randomSeed
    bugDepth := pc.depth.getD config.bugDepth
    maxSteps := pc.maxSteps.getD config.maxSteps
    maxGoroutines := pc.maxGoroutines.getD config.maxGoroutines
    verbose := pc.verbose.getD config.verbose }

/-- `buildConfig`, with the defaults that the flags are declared with. -/
def buildConfig (flags : Flags) (pc : Option ProjectConfig) : RunConfig :=
  let config : RunConfig := { toConfig := defaultConfig, verbose := false }
  let config := match pc with
    | some pc => applyProjectConfig config pc
    | none => config
  let config := { config with
    maxSteps := flags.flagMaxSteps.getD 10000000
    maxGoroutines := flags.flagMaxGoroutines.getD 1000
    verbose := flags.flagVerbose.getD false }
  let config := if flags.flagAll.getD true then config else
    { config with
      trackArenas := flags.flagArena.getD false
      trackUnsafe := flags.flagUnsafe.getD false
      trackRaces := flags.flagRace.getD false
      trackInit := flags.flagInit.getD false }
  { config with
    trackInit := flags.flagInit.getD false || config.trackInit
    trackTruncation := flags.flagTrunc.getD false || config.trackTruncation
    trackDoubleClose := flags.flagDClose.getD false || config.trackDoubleClose
    scheduleStrategy :=
      (strategyOf (flags.flagStrategy.getD "roundrobin")).getD config.scheduleStrategy
    randomSeed := flags.flagSeed.getD 0
    bugDepth := flags.flagDepth.getD 3 }

/-! ## §2. Precedence -/

/-- The flag's value, or else the file's, or else the default. -/
def prefer {α : Type} (flag file : Option α) (default : α) : α := (flag.or file).getD default

/-- What the master switch says of the detector of uninitialised reads, which
is off by default: only that it is off. -/
def off (all : Option Bool) : Option Bool := if all = some false then some false else none

/-- The settings as the flags and the file have them. The flag of a detector,
and its field in the file, come before the master switch of the same place. -/
def expected (flags : Flags) (pc : ProjectConfig) : RunConfig where
  trackArenas := prefer (flags.flagArena.or flags.flagAll) (pc.arena.or pc.all) true
  trackUnsafe := prefer (flags.flagUnsafe.or flags.flagAll) (pc.unsafePointer.or pc.all) true
  trackRaces := prefer (flags.flagRace.or flags.flagAll) (pc.race.or pc.all) true
  trackInit := prefer (flags.flagInit.or (off flags.flagAll)) (pc.init.or (off pc.all)) false
  trackTruncation := prefer flags.flagTrunc none false
  trackDoubleClose := prefer flags.flagDClose none false
  scheduleStrategy := prefer (flags.flagStrategy.bind strategyOf) (pc.strategy.bind strategyOf) 0
  randomSeed := prefer flags.flagSeed pc.seed 0
  bugDepth := prefer flags.flagDepth pc.depth 3
  maxSteps := prefer flags.flagMaxSteps pc.maxSteps 10000000
  maxGoroutines := prefer flags.flagMaxGoroutines pc.maxGoroutines 1000
  verbose := prefer flags.flagVerbose pc.verbose false

/-- The flag was given, or the file says nothing, or the default. -/
def Undisputed {α β : Type} (flag : Option α) (file : Option β) (d : β) : Prop :=
  flag.isSome = true ∨ file.getD d = d

/-- `-all=false` was given, or the flags agree with the file about a detector
that is on by default. -/
def Agrees (all flag fileAll file : Option Bool) : Prop :=
  all = some false ∨ ∀ v, flag.or all = some v → (file.or fileAll).getD true = v

theorem getD_eq_prefer_iff {α : Type} (flag file : Option α) (d : α) :
    flag.getD d = prefer flag file d ↔ Undisputed flag file d := by
  cases flag <;> simp [prefer, Undisputed, eq_comm]

theorem detector_eq_prefer_iff (all flag fileAll file : Option Bool) :
    (if all.getD true = true then file.getD (if fileAll = some false then false else true)
      else flag.getD false) = prefer (flag.or all) (file.or fileAll) true ↔
    Agrees all flag fileAll file := by
  -- what the file says of the detector
  have hfile : file.getD (if fileAll = some false then false else true) =
      (file.or fileAll).getD true := by
    rcases file with _ | _ <;> rcases fileAll with _ | _ | _ <;> rfl
  rw [hfile, Agrees]
  generalize file.or fileAll = said
  rcases all with _ | _ | _ <;> cases flag <;> simp [prefer]

/-- **A setting is the flag's, or else the file's, or else the default**:
exactly if the flag was given or the file does not say otherwise than the
default. For a detector, exactly if `-all=false` was given or the flags agree
with the file. -/
theorem settings_precedence (flags : Flags) (file : Option ProjectConfig) :
    let pc := file.getD {}
    let config := buildConfig flags file
    let want := expected flags pc
    (config.trackArenas = want.trackArenas ↔ Agrees flags.flagAll flags.flagArena pc.all pc.arena) ∧
      (config.trackUnsafe = want.trackUnsafe ↔
        Agrees flags.flagAll flags.flagUnsafe pc.all pc.unsafePointer) ∧
      (config.trackRaces = want.trackRaces ↔ Agrees flags.flagAll flags.flagRace pc.all pc.race) ∧
      (config.trackInit = want.trackInit ↔
        ¬(flags.flagInit = some false ∧ flags.flagAll ≠ some false ∧ pc.init = some true)) ∧
      config.trackTruncation = want.trackTruncation ∧
      config.trackDoubleClose = want.trackDoubleClose ∧
      (config.scheduleStrategy = want.scheduleStrategy ↔
        Undisputed flags.flagStrategy (pc.strategy.bind strategyOf) 0) ∧
      (config.randomSeed = want.randomSeed ↔ Undisputed flags.flagSeed pc.seed 0) ∧
      (config.bugDepth = want.bugDepth ↔ Undisputed flags.flagDepth pc.depth 3) ∧
      (config.maxSteps = want.maxSteps ↔ Undisputed flags.flagMaxSteps pc.maxSteps 10000000) ∧
      (config.maxGoroutines = want.maxGoroutines ↔
        Undisputed flags.flagMaxGoroutines pc.maxGoroutines 1000) ∧
      (config.verbose = want.verbose ↔ Undisputed flags.flagVerbose pc.verbose false) := by
  intro pc config want
  have hconfig : config = buildConfig flags (some pc) := by
    cases file with
    | none => simp [config, buildConfig, pc, applyProjectConfig]
    | some => rfl
  rw [hconfig]
  simp only [buildConfig, applyProjectConfig, apply_ite RunConfig.toConfig,
    apply_ite RunConfig.verbose, apply_ite Config.trackArenas, apply_ite Config.trackUnsafe,
    apply_ite Config.trackRaces, apply_ite Config.trackInit, apply_ite Config.trackTruncation,
    apply_ite Config.trackDoubleClose, apply_ite Config.scheduleStrategy,
    apply_ite Config.maxSteps, apply_ite Config.maxGoroutines, ite_self]
  refine ⟨detector_eq_prefer_iff .., detector_eq_prefer_iff .., detector_eq_prefer_iff .., ?_,
    ?_, ?_, ?_, getD_eq_prefer_iff .., getD_eq_prefer_iff .., getD_eq_prefer_iff ..,
    getD_eq_prefer_iff .., getD_eq_prefer_iff ..⟩
  · simp only [want, expected, prefer, defaultConfig, ite_self]
    rcases flags.flagInit with _ | _ | _ <;> rcases flags.flagAll with _ | _ | _ <;>
      rcases pc.init with _ | _ | _ <;> rcases pc.all with _ | _ | _ <;> simp [off]
  · simp [want, expected, prefer, defaultConfig]
  · simp [want, expected, prefer, defaultConfig]
  · cases hflag : flags.flagStrategy with
    | none =>
      have hiff := getD_eq_prefer_iff none (pc.strategy.bind strategyOf) 0
      simpa [want, expected, strategyOf, hflag, Undisputed] using hiff
    | some name => cases hname : strategyOf name <;>
        simp [want, expected, prefer, Undisputed, hflag, hname, defaultConfig]

/-- A file with a seed. -/
def seedFile : ProjectConfig := { seed := some 42 }

/-- The seed of the file is lost, and so is `-race=false`. -/
theorem settings_overwritten :
    (buildConfig {} (some seedFile)).randomSeed = 0 ∧ (expected {} seedFile).randomSeed = 42 ∧
      (buildConfig { flagRace := some false } none).trackRaces = true ∧
      (expected { flagRace := some false } {}).trackRaces = false := by
  decide

end Giri.Settings
