/-
Giri.Cache.Key — the key of a cache entry (cache.go).

`Fingerprint` prints the configuration as fields between semicolons, `Key`
feeds five strings to SHA-256, each behind its length. Both can be read
back (`key_separates`), by the two rules of `Lib/Framing.lean` for
separators and for lengths.
-/
import Giri.Cache.Source

namespace Giri.Cache

open Framing (ascii decimal decimalInt)

/-! ## §1. The key -/

/-- `interpreter.Config`, without `Verbose` and `Intercepts`, which the
fingerprint leaves out. -/
structure Config where
  maxSteps : UInt64
  maxGoroutines : Int64
  /-- `ScheduleStrategy` is a uint8. -/
  scheduleStrategy : UInt8
  randomSeed : Int64
  bugDepth : Int64
  trackUnsafe : Bool
  trackArenas : Bool
  trackRaces : Bool
  trackInit : Bool
  trackTruncation : Bool
  trackDoubleClose : Bool
  deriving DecidableEq, Repr

/-- `DefaultConfig`. -/
def defaultConfig : Config where
  maxSteps := 10000000
  maxGoroutines := 1000
  scheduleStrategy := 0
  randomSeed := 0
  bugDepth := 3
  trackUnsafe := true
  trackArenas := true
  trackRaces := true
  trackInit := false
  trackTruncation := false
  trackDoubleClose := false

/-- `%t`. -/
def formatBool (b : Bool) : Bytes :=
  if b then ascii ['t', 'r', 'u', 'e'] else ascii ['f', 'a', 'l', 's', 'e']

/-- A name, an equals sign and a value. -/
def field (name : String) (value : Bytes) : Bytes :=
  ascii name.toList ++ 61 :: value

/-- The names and values of the fingerprint, in its order. -/
def Config.fields (cfg : Config) : List (String × Bytes) :=
  [("unsafe", formatBool cfg.trackUnsafe), ("arenas", formatBool cfg.trackArenas),
    ("races", formatBool cfg.trackRaces), ("init", formatBool cfg.trackInit),
    ("trunc", formatBool cfg.trackTruncation), ("dclose", formatBool cfg.trackDoubleClose),
    ("maxsteps", decimal cfg.maxSteps.toNat), ("maxgor", decimalInt cfg.maxGoroutines.toInt),
    ("sched", decimal cfg.scheduleStrategy.toNat), ("seed", decimalInt cfg.randomSeed.toInt),
    ("depth", decimalInt cfg.bugDepth.toInt)]

/-- `Fingerprint`. -/
def fingerprint (cfg : Config) : Bytes :=
  [59].intercalate (cfg.fields.map fun f => field f.1 f.2)

/-- What `Key` feeds to SHA-256. -/
def keyStream (sourceHash configFingerprint giriVersion goVersion env : Bytes) : Bytes :=
  [sourceHash, configFingerprint, giriVersion, goVersion, env].flatMap fun part =>
    decimal part.length ++ 58 :: (part ++ [10])

/-- `Key`, for the hash function and its hex encoding. -/
def key (digest : Bytes → Bytes) (sourceHash configFingerprint giriVersion goVersion env : Bytes) :
    Bytes :=
  digest (keyStream sourceHash configFingerprint giriVersion goVersion env)

/-! ## §2. Reading it back -/

theorem formatBool_inj {a b : Bool} (h : formatBool a = formatBool b) : a = b := by
  revert h
  revert a b
  decide

theorem semicolon_notMem_formatBool (b : Bool) : (59 : UInt8) ∉ formatBool b := by
  cases b <;> decide

theorem semicolon_notMem_decimalInt (i : Int) : (59 : UInt8) ∉ decimalInt i := by
  intro h
  have hchar := Framing.mem_decimalInt h
  exact absurd hchar (by decide)

theorem semicolon_notMem_decimal (n : Nat) : (59 : UInt8) ∉ decimal n := by
  intro h
  have hdigit := Framing.digit_of_mem_decimal h
  exact absurd hdigit (by decide)

/-- No field has a semicolon in it. -/
theorem semicolon_notMem_fields (cfg : Config) :
    ∀ x ∈ cfg.fields.map (fun f => field f.1 f.2), (59 : UInt8) ∉ x := by
  have hname : ∀ f ∈ cfg.fields, (59 : UInt8) ∉ ascii f.1.toList ++ [61] := by
    simp only [Config.fields, List.forall_mem_cons, List.not_mem_nil, false_implies, implies_true,
      and_true]
    decide
  have hvalue : ∀ f ∈ cfg.fields, (59 : UInt8) ∉ f.2 := by
    simp [Config.fields, semicolon_notMem_formatBool, semicolon_notMem_decimal,
      semicolon_notMem_decimalInt]
  intro x hx
  obtain ⟨f, hf, rfl⟩ := List.mem_map.mp hx
  have hsplit : field f.1 f.2 = (ascii f.1.toList ++ [61]) ++ f.2 := by simp [field]
  rw [hsplit, List.mem_append, not_or]
  exact ⟨hname f hf, hvalue f hf⟩

theorem fingerprint_inj {cfg cfg' : Config} (h : fingerprint cfg = fingerprint cfg') :
    cfg = cfg' := by
  have hfields := Framing.intercalate_inj (semicolon_notMem_fields cfg)
    (semicolon_notMem_fields cfg') rfl h
  simp only [Config.fields, field, List.map_cons, List.map_nil, List.cons.injEq, List.append_cancel_left_eq,
    true_and, and_true] at hfields
  obtain ⟨h₁, h₂, h₃, h₄, h₅, h₆, h₇, h₈, h₉, h₁₀, h₁₁⟩ := hfields
  cases cfg
  cases cfg'
  simp only [Config.mk.injEq]
  exact ⟨UInt64.toNat_inj.mp (Framing.decimal_inj h₇), Int64.toInt_inj.mp (Framing.decimalInt_inj h₈),
    UInt8.toNat_inj.mp (Framing.decimal_inj h₉), Int64.toInt_inj.mp (Framing.decimalInt_inj h₁₀),
    Int64.toInt_inj.mp (Framing.decimalInt_inj h₁₁), formatBool_inj h₁, formatBool_inj h₂,
    formatBool_inj h₃, formatBool_inj h₄, formatBool_inj h₅, formatBool_inj h₆⟩

theorem keyStream_inj {h f v g e h' f' v' g' e' : Bytes}
    (heq : keyStream h f v g e = keyStream h' f' v' g' e') :
    h = h' ∧ f = f' ∧ v = v' ∧ g = g' ∧ e = e' := by
  have hparts : [h, f, v, g, e] = [h', f', v', g', e'] := Framing.frames_inj heq
  simpa using hparts

/-- **Keys separate inputs.** The five strings can be read off the stream, and
the configuration off its fingerprint. So if the hash function has no
collision, analyses with one key agree in source hash, configuration, versions
and environment. -/
theorem key_separates :
    (∀ h f v g e h' f' v' g' e', keyStream h f v g e = keyStream h' f' v' g' e' →
      h = h' ∧ f = f' ∧ v = v' ∧ g = g' ∧ e = e') ∧
    (∀ cfg cfg', fingerprint cfg = fingerprint cfg' → cfg = cfg') ∧
    (∀ digest, Function.Injective digest → ∀ h cfg v g e h' cfg' v' g' e',
      key digest h (fingerprint cfg) v g e = key digest h' (fingerprint cfg') v' g' e' →
        h = h' ∧ cfg = cfg' ∧ v = v' ∧ g = g' ∧ e = e') := by
  refine ⟨fun _ _ _ _ _ _ _ _ _ _ => keyStream_inj, fun _ _ => fingerprint_inj, ?_⟩
  intro digest hdigest h cfg v g e h' cfg' v' g' e' hkey
  obtain ⟨hh, hf, hv, hg, he⟩ := keyStream_inj (hdigest hkey)
  exact ⟨hh, fingerprint_inj hf, hv, hg, he⟩

theorem key_separates_default :
    key id [1] (fingerprint defaultConfig) [2] [] [] =
        key id [1] (fingerprint { defaultConfig with bugDepth := 3 }) [2] [] [] ∧
      defaultConfig = { defaultConfig with bugDepth := 3 } :=
  ⟨rfl, (key_separates.2.2 id Function.injective_id [1] _ [2] [] [] [1] _ [2] [] [] rfl).2.1⟩

end Giri.Cache
