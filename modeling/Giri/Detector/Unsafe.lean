/-
Giri.Detector.Unsafe — the unsafe-pointer detector (`detector.go`).

A uintptr made from a pointer is PENDING until any uintptr is turned back
into a pointer. At a point where the garbage collector may run every pending
conversion is an error, and it stays pending.

Both loops over the map of pending conversions take the order that the host
chooses as an argument (`Lib/HostMap.lean`). The provenance of a conversion
is not kept here: nothing reads it.
-/
import Giri.Lib.HostMap

namespace Giri.Detector

open HostMap (Host)

/-- `shadow.UnsafeRule`. -/
inductive UnsafeRule where
  | conversion
  | uintptr
  | arithmetic
  | syscall
  | reflect
  | sliceHeader
  deriving DecidableEq, Repr

/-- `UnsafeRule.String`. -/
def UnsafeRule.text : UnsafeRule → String
  | .conversion => "rule 1: pointer conversion alignment"
  | .uintptr => "rule 2: uintptr must convert back immediately"
  | .arithmetic => "rule 3: pointer arithmetic must stay within allocation"
  | .syscall => "rule 4: syscall uintptr argument"
  | .reflect => "rule 5: reflect pointer conversion"
  | .sliceHeader => "rule 6: SliceHeader/StringHeader manipulation"

/-- `shadow.UnsafePointerViolation`. `among` is a history variable: the number
of errors that the same check has found. -/
structure UnsafePointerViolation where
  rule : UnsafeRule
  site : String
  details : String
  among : Nat := 1
  deriving DecidableEq, Repr

/-- `pendingConversion`. -/
structure PendingConversion where
  site : String
  rule : UnsafeRule
  deriving DecidableEq, Repr

/-- `UnsafeDetector`. -/
structure UnsafeDetector where
  pendingUintptrs : AList fun _ : String => PendingConversion := ∅

namespace UnsafeDetector

def recordUintptrConversion (d : UnsafeDetector) (valueID site : String) : UnsafeDetector :=
  { d with pendingUintptrs := d.pendingUintptrs.insert valueID ⟨site, .uintptr⟩ }

def recordReflectConversion (d : UnsafeDetector) (valueID site : String) : UnsafeDetector :=
  { d with pendingUintptrs := d.pendingUintptrs.insert valueID ⟨site, .reflect⟩ }

/-- `ClearAllUintptrConversions`. -/
def clearAllUintptrConversions (h : Host) (n : Nat) (d : UnsafeDetector) : UnsafeDetector :=
  { d with pendingUintptrs := HostMap.eraseAll d.pendingUintptrs (h.order n d.pendingUintptrs.keys) }

/-- `CheckGCPoint`. -/
def checkGCPoint (h : Host) (n : Nat) (d : UnsafeDetector) (site : String) :
    List UnsafePointerViolation :=
  (h.order n d.pendingUintptrs.entries).map fun e =>
    { rule := e.2.rule
      site := site
      details := "uintptr value " ++ e.1 ++ " (converted at " ++ e.2.site ++
        ") survived to GC point without conversion back to unsafe.Pointer"
      among := d.pendingUintptrs.entries.length }

/-- The same conversions are pending. -/
def Same (d d' : UnsafeDetector) : Prop :=
  d.pendingUintptrs.entries.Perm d'.pendingUintptrs.entries

variable {d d' : UnsafeDetector}

theorem Same.recordUintptrConversion (hd : d.Same d') (valueID site : String) :
    (d.recordUintptrConversion valueID site).Same (d'.recordUintptrConversion valueID site) :=
  AList.perm_insert hd

theorem Same.recordReflectConversion (hd : d.Same d') (valueID site : String) :
    (d.recordReflectConversion valueID site).Same (d'.recordReflectConversion valueID site) :=
  AList.perm_insert hd

theorem Same.clearAllUintptrConversions (hd : d.Same d') (h h' : Host) (n : Nat) :
    (d.clearAllUintptrConversions h n).Same (d'.clearAllUintptrConversions h' n) :=
  HostMap.eraseAll_perm hd (h.order_perm h' n n (HostMap.keys_perm hd))

/-- Nothing is pending after a conversion back. -/
theorem clearAllUintptrConversions_entries (h : Host) (n : Nat) (d : UnsafeDetector) :
    (d.clearAllUintptrConversions h n).pendingUintptrs.entries = [] := by
  have hempty : (d.clearAllUintptrConversions h n).pendingUintptrs.entries.Perm
      (∅ : AList fun _ : String => PendingConversion).entries := by
    refine HostMap.perm_of_lookup fun k => ?_
    show (HostMap.eraseAll _ _).lookup k = none
    rw [HostMap.lookup_eraseAll]
    split
    · rfl
    · rename_i hk
      rw [AList.lookup_eq_none, AList.mem_keys]
      exact fun hmem => hk ((h.perm n _).mem_iff.mpr hmem)
  exact List.perm_nil.mp hempty

/-- With at most one conversion pending every host finds the same error. -/
theorem Same.checkGCPoint (hd : d.Same d') (h h' : Host) (n : Nat) (site : String)
    (hone : ∀ e ∈ d.checkGCPoint h n site, e.among ≤ 1) :
    d'.checkGCPoint h' n site = d.checkGCPoint h n site := by
  have hlen : d.pendingUintptrs.entries.length ≤ 1 := by
    by_contra hlt
    obtain ⟨e, rest, hcons⟩ : ∃ e rest, h.order n d.pendingUintptrs.entries = e :: rest := by
      refine List.exists_cons_of_ne_nil fun hnil => hlt ?_
      rw [← (h.perm n d.pendingUintptrs.entries).length_eq, hnil]
      exact Nat.zero_le _
    refine hlt (hone _ (List.mem_map.mpr ⟨e, ?_, rfl⟩))
    rw [hcons]
    exact List.mem_cons_self
  have hentries : d'.pendingUintptrs.entries = d.pendingUintptrs.entries :=
    Host.eq_of_perm_of_length_le_one hd hlen
  have horder : h'.order n d.pendingUintptrs.entries = h.order n d.pendingUintptrs.entries :=
    Host.eq_of_perm_of_length_le_one (h.order_perm h' n n (.refl _))
      (Nat.le_trans (Nat.le_of_eq (h.perm n _).length_eq) hlen)
  unfold UnsafeDetector.checkGCPoint
  rw [hentries, horder]

end UnsafeDetector

end Giri.Detector
