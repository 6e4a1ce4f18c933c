/-
Giri.Value.MapKeyTheorems — keys and Go's equality.

For integers, booleans and strings a key IS the value: keys are the same iff
the values are equal, and a key converts back to the value. For every other
type the key is a text, and what comes back is a string (`mapKey_exact`).
Equal pointers and equal arrays may have different texts, and different arrays
of strings the same text (`text_keys`).
-/
import Giri.Value.MapKey
import Giri.Memory.StoreTheorems

namespace Giri.MapKey

open Value Memory

/-- The key type is an integer, boolean or string type. -/
def PlainKey (t : GoType) : Prop :=
  ∃ k, t.underlying = .basic k ∧ (k.isInteger = true ∨ isBoolean k = true ∨ isString k = true)

/-- The values of such a type: an integer in its range, a boolean or a
string, which is its own key. -/
theorem plain_cases {sz : Sizes} {t : GoType} (ht : PlainKey t) {a : Raw} {x : GoVal}
    (ha : denote sz t a = some x) :
    (∃ v, a = .int v ∧ x = .int v) ∨ (∃ b, a = .bool b ∧ x = .bool b) ∨
      ∃ s, a = .str s ∧ x = .str s := by
  obtain ⟨k, hk, hkind⟩ := ht
  have hagg : isAggregateType t = false := by simp [isAggregateType, hk]
  cases a with
  | int v =>
    simp only [denote] at ha
    split at ha
    · split at ha
      · cases ha
        exact .inl ⟨v, rfl, rfl⟩
      · cases ha
    · cases ha
  | bool b =>
    simp only [denote, hk] at ha
    split at ha
    · cases ha
      exact .inr (.inl ⟨b, rfl, rfl⟩)
    · cases ha
  | str s =>
    simp only [denote, hk] at ha
    split at ha
    · cases ha
      exact .inr (.inr ⟨s, rfl, rfl⟩)
    · cases ha
  | nil | pointer =>
    cases k <;> simp_all [denote, BasicKind.isInteger, isBoolean, isString]
  | float =>
    cases k <;> simp_all [denote, BasicKind.isInteger, isBoolean, isString, isFloat]
  | complex =>
    cases k <;> simp_all [denote, BasicKind.isInteger, isBoolean, isString, isComplex]
  | iface => simp [denote, hk] at ha
  | agg => simp [denote, hagg] at ha
  | stdlibOpaque => simp [denote] at ha

/-- Types that are no arrays and no structs, and have keys. -/
def ScalarKey (t : GoType) : Prop :=
  match t.underlying with
  | .basic k => k.isInteger = true ∨ isBoolean k = true ∨ isString k = true ∨ k = .unsafePointer
  | .pointer | .interface => True
  | _ => False

/-- The types of keys in question, without floats: a scalar type, or an array
or struct of such. -/
def KeyType (sz : Sizes) (t : GoType) : Prop :=
  if isAggregateType t then ∀ l ∈ layout sz t, ScalarKey l.type else ScalarKey t

/-- Two values of the type have the same key iff they are equal in Go, and a
key converts back to a value that is equal to the one it was made from. -/
def Exact (pr : Printer) (sz : Sizes) (t : GoType) : Prop :=
  ∀ {a b : Raw} {x y : GoVal}, denote sz t a = some x → denote sz t b = some y →
    ((toMapKey pr a).same (toMapKey pr b) = true ↔ x.Equal y) ∧
      ∃ z, denote sz t (valueFromMapKey (toMapKey pr a)) = some z ∧ z.Equal x

theorem PlainKey.exact (pr : Printer) (sz : Sizes) {t : GoType} (ht : PlainKey t) :
    Exact pr sz t := by
  intro a b x y ha hb
  rcases plain_cases ht ha with ⟨v, rfl, rfl⟩ | ⟨v, rfl, rfl⟩ | ⟨v, rfl, rfl⟩ <;>
    rcases plain_cases ht hb with ⟨w, rfl, rfl⟩ | ⟨w, rfl, rfl⟩ | ⟨w, rfl, rfl⟩ <;>
    exact ⟨by simp [toMapKey, Key.same, GoVal.Equal], _, ha, by simp [GoVal.Equal]⟩

/-- A leaf of a key has a zero value. -/
theorem ScalarKey.zeroVal {t : GoType} (h : ScalarKey t) : ∃ x, zeroVal t = some x := by
  unfold ScalarKey at h
  unfold MapKey.zeroVal
  cases hu : t.underlying with
  | basic k => cases k <;> simp [isBoolean, isString, isComplex, isFloat, BasicKind.isInteger]
  | pointer | interface => exact ⟨_, rfl⟩
  | _ => simp [hu] at h

theorem exists_zeroVals {ls : List Leaf} (h : ∀ l ∈ ls, ScalarKey l.type) :
    ∃ xs, ls.mapM (fun l => zeroVal l.type) = some xs := by
  induction ls with
  | nil => exact ⟨[], rfl⟩
  | cons l ls ih =>
    obtain ⟨x, hx⟩ := (h l List.mem_cons_self).zeroVal
    obtain ⟨xs, hxs⟩ := ih fun l hl => h l (List.mem_cons_of_mem _ hl)
    exact ⟨x :: xs, by simp [hx, hxs]⟩

/-- The zero value of a type that is not plain is nil or `zeroAggregate`,
whose key is no key of its own type. -/
theorem exists_text_key {sz : Sizes} {t : GoType} (hkey : KeyType sz t) (ht : ¬PlainKey t) :
    ∃ a x, denote sz t a = some x ∧
      ∀ pr, ∃ s, valueFromMapKey (toMapKey pr a) = .str s ∧ denote sz t (.str s) = none := by
  have hstr (s : String) : denote sz t (.str s) = none := by
    simp only [denote]
    split
    · rename_i k hk
      exact if_neg fun h => ht ⟨k, hk, .inr (.inr h)⟩
    · rfl
  simp only [KeyType] at hkey
  split at hkey
  · rename_i hagg
    obtain ⟨xs, hxs⟩ := exists_zeroVals hkey
    exact ⟨zeroAggregate 0, .agg xs, by simp [zeroAggregate, denote, hagg, hxs],
      fun pr => ⟨_, rfl, hstr _⟩⟩
  · have hnil : ∃ x, denote sz t .nil = some x := by
      simp only [ScalarKey] at hkey
      simp only [denote]
      split at hkey
      · rename_i k hk
        obtain rfl : k = .unsafePointer := by
          by_contra hne
          exact ht ⟨k, hk, by simpa [hne] using hkey⟩
        exact ⟨_, by rw [hk]⟩
      · rename_i hk
        exact ⟨_, by rw [hk]⟩
      · rename_i hk
        exact ⟨_, by rw [hk]⟩
      · exact hkey.elim
    obtain ⟨x, hx⟩ := hnil
    exact ⟨.nil, x, hx, fun pr => ⟨_, rfl, hstr _⟩⟩

/-- **Keys are exact iff the type is plain**: an integer, boolean or string
type. -/
theorem mapKey_exact (pr : Printer) (sz : Sizes) {t : GoType} (ht : KeyType sz t) :
    Exact pr sz t ↔ PlainKey t := by
  refine ⟨fun h => ?_, fun h => h.exact pr sz⟩
  by_contra hplain
  obtain ⟨a, x, ha, hback⟩ := exists_text_key ht hplain
  obtain ⟨s, hs, hnone⟩ := hback pr
  obtain ⟨z, hz, -⟩ := (h ha ha).2
  rw [hs, hnone] at hz
  cases hz

/-- A printer for examples. -/
def plainPrinter : Printer where
  floatText _ := "1.5"
  complexText _ _ := "(1+2i)"
  typeString _ := "T"
  typeAddr _ := 16

theorem mapKey_exact_int8 :
    Exact plainPrinter packed (.named "small" (.basic .int8)) ∧
      ¬Exact plainPrinter packed (.array 2 .pointer) := by
  have hsmall : KeyType packed (.named "small" (.basic .int8)) := .inl rfl
  have hpair : KeyType packed (.array 2 .pointer) := by
    intro l hl
    obtain rfl | rfl := List.mem_pair.mp hl <;> trivial
  refine ⟨(mapKey_exact _ _ hsmall).mpr ⟨.int8, rfl, .inl rfl⟩, fun h => ?_⟩
  obtain ⟨k, hk, -⟩ := (mapKey_exact _ _ hpair).mp h
  cases hk

/-- `&x[1]` of an array at allocation 1. -/
def elemPointer : Raw := .pointer ⟨0xa0, ⟨1, 8⟩, some 0x90⟩

/-- The same place, reached from another pointer. -/
def elemPointerAgain : Raw := .pointer ⟨0xb0, ⟨1, 8⟩, some 0xa8⟩

/-- `[2]int`. -/
def intPair : GoType := .array 2 (.basic .int)

/-- `[2]int{}`, loaded from memory. -/
def gatheredPair : Raw := .agg 0xc0 (layout packed intPair) [.int 0, .int 0] [none, none] false

/-- `[2]string`. -/
def stringPair : GoType := .array 2 (.basic .string)

/-- A `[2]string`, loaded from memory. -/
def strings (a b : String) : Raw :=
  .agg 0xc0 (layout packed stringPair) [.str a, .str b] [none, none] false

/-- **Keys that are texts.** The two pointers are equal, and so are the zero
array and the one that was loaded, but their keys differ. The two arrays of
strings are different, but have one key. Ranging over a map with a nil
pointer as a key yields the string "<nil>". -/
theorem text_keys :
    (∃ x y, denote packed .pointer elemPointer = some x ∧
      denote packed .pointer elemPointerAgain = some y ∧ x.Equal y ∧
      (toMapKey plainPrinter elemPointer).same (toMapKey plainPrinter elemPointerAgain) = false) ∧
    (∃ x y, denote packed intPair (zeroAggregate 0xd0) = some x ∧
      denote packed intPair gatheredPair = some y ∧ x.Equal y ∧
      (toMapKey plainPrinter (zeroAggregate 0xd0)).same (toMapKey plainPrinter gatheredPair) =
        false) ∧
    (∃ x y, denote packed stringPair (strings "a <nil>\x7d \x7bb" "c") = some x ∧
      denote packed stringPair (strings "a" "b <nil>\x7d \x7bc") = some y ∧ ¬ x.Equal y ∧
      (toMapKey plainPrinter (strings "a <nil>\x7d \x7bb" "c")).same
        (toMapKey plainPrinter (strings "a" "b <nil>\x7d \x7bc")) = true) ∧
    denote packed .pointer .nil = some (.pointer none) ∧
    denote packed .pointer (valueFromMapKey (toMapKey plainPrinter .nil)) = none := by
  refine ⟨⟨_, _, rfl, rfl, rfl, by decide +kernel⟩,
    ⟨_, _, rfl, rfl, ⟨rfl, rfl, trivial⟩, by decide +kernel⟩,
    ⟨_, _, rfl, rfl, fun h => ?_, by decide +kernel⟩, rfl, rfl⟩
  have hfirst : "a <nil>\x7d \x7bb" = "a" := h.1
  exact absurd hfirst (by decide)

end Giri.MapKey
