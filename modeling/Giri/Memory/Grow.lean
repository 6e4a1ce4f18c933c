/-
Giri.Memory.Grow — how slices grow (`interpreter/concrete.go`).

`growCap` is the formula of Go's runtime: a slice that needs room gets twice
the capacity it had while it is small, and a quarter more (and a constant)
when it is large. An append that reallocates copies all the elements there
are, so what counts is that the capacities form a geometric sequence. Four
times the capacity pays for all the copies made so far, and the next
reallocation raises it by at least as much as it copies.

The runtime's loop stops when a sum overflows; this one does not. Just below
the largest `int` the capacity turns negative, goes on down, turns positive
again, and for some sizes never arrives.
-/
import Mathlib.Algebra.Ring.Int.Defs
import Mathlib.Algebra.Ring.Nat
import Giri.Memory.Bulk
import Giri.Memory.StoreTheorems

namespace Giri.Memory

open Value

variable {S : Type}

/-! ## §1. The loop, with sums of 64 bits -/

/-- An `int`. -/
def wrapInt (x : Int) : Int := x.bmod (2 ^ 64)

/-- The body of the loop of `growCap`. -/
def growNext (newcap : Int) : Int := wrapInt (newcap + wrapInt (newcap + 3 * 256) / 4)

/-- The loop of `growCap`, for at most `fuel` rounds. -/
def growLoopInt (newLen : Int) : Nat → Int → Option Int
  | 0, _ => none
  | fuel + 1, newcap =>
    if newcap < newLen then growLoopInt newLen fuel (growNext newcap) else some newcap

/-- `growCap`, with the overflow of its sums. -/
def growCapInt (fuel : Nat) (oldCap newLen : Int) : Option Int :=
  let doublecap := wrapInt (oldCap + oldCap)
  if doublecap < newLen then some newLen
  else if oldCap < 256 then some doublecap
  else growLoopInt newLen fuel oldCap

theorem wrapInt_of_lt {x : Int} (h₀ : 0 ≤ x) (h : x < 2 ^ 63) : wrapInt x = x :=
  Int.bmod_eq_of_le (by omega) (by omega)

theorem le_growLoop (newcap newLen : Nat) : newLen ≤ growLoop newcap newLen := by
  fun_induction growLoop newcap newLen with
  | case1 newcap hlt ih => exact ih
  | case2 newcap hge => exact Nat.le_of_not_lt hge

/-- Where no sum overflows the loop comes to an end. -/
theorem growLoopInt_eq (newcap newLen : Nat) (h : newLen + (newLen + 767) / 4 < 2 ^ 63) :
    ∃ fuel, growLoopInt newLen fuel newcap = some (growLoop newcap newLen : Int) := by
  fun_induction growLoop newcap newLen with
  | case1 newcap hlt ih =>
    obtain ⟨fuel, hfuel⟩ := ih
    have hnext : growNext newcap = ((newcap + (newcap + 3 * 256) / 4 : Nat) : Int) := by
      rw [growNext, wrapInt_of_lt (x := newcap + 3 * 256) (by omega) (by omega),
        wrapInt_of_lt (by omega) (by omega)]
      omega
    refine ⟨fuel + 1, ?_⟩
    rw [growLoopInt, if_pos (by omega), hnext]
    exact hfuel
  | case2 newcap hge => exact ⟨1, if_neg (by omega)⟩

theorem le_growCap (oldCap newLen : Nat) : newLen ≤ growCap oldCap newLen := by
  unfold growCap
  split
  · exact Nat.le_refl _
  · split
    · omega
    · exact le_growLoop oldCap newLen

theorem growCapInt_eq {oldCap newLen : Nat} (hold : oldCap < 2 ^ 62)
    (hsum : newLen + (newLen + 767) / 4 < 2 ^ 63) :
    ∃ fuel, growCapInt fuel oldCap newLen = some (growCap oldCap newLen : Int) := by
  have hdouble : wrapInt (oldCap + oldCap) = ((oldCap + oldCap : Nat) : Int) := by
    rw [wrapInt_of_lt (by omega) (by omega), Int.natCast_add]
  obtain ⟨fuel, hfuel⟩ := growLoopInt_eq oldCap newLen hsum
  have hthreshold : (oldCap : Int) < 256 ↔ oldCap < 256 := by omega
  refine ⟨fuel, ?_⟩
  simp only [growCapInt, growCap, hdouble, hfuel, Int.ofNat_lt, hthreshold]
  split
  · rfl
  · split <;> rfl

/-- A capacity that is used up is raised by a quarter. -/
theorem growCap_succ (oldCap : Nat) : 5 * oldCap ≤ 4 * growCap oldCap (oldCap + 1) := by
  unfold growCap
  split
  · omega
  · split
    · omega
    · rw [growLoop, if_pos (Nat.lt_succ_self _), growLoop, if_neg (by omega)]
      omega

/-! ## §2. Appends -/

/-- How many elements the append copies from its first argument. -/
def copied (cfg : MemConfig S) (m : Store S) (t : GoType) (base : Option SliceValue)
    (src : Source S) : Nat :=
  let extra := src.elems cfg m t
  if extra.isEmpty || hasRoom (base.getD {}) extra.length then 0 else (base.getD {}).len.toNat

/-- Appends to one slice, each in the memory that there is then: the slice,
and how many elements were copied. -/
def appendAll (cfg : MemConfig S) (t : GoType) :
    Option SliceValue → List (Store S × Source S) → Option SliceValue × Nat
  | base, [] => (base, 0)
  | base, (m, src) :: steps =>
    let (sv, n) := appendAll cfg t (appendConcrete cfg m t base src).1 steps
    (sv, copied cfg m t base src + n)

/-- After `n` appends that have copied `total` elements. -/
structure Grown (base : Option SliceValue) (n total : Nat) : Prop where
  len : (base.getD {}).len = n
  le_cap : (n : Int) ≤ (base.getD {}).cap
  backed : (base.getD {}).backing.isSome ∨ (base.getD {}).cap = 0
  potential : (total : Int) ≤ 4 * (base.getD {}).cap
  total_le : total ≤ 5 * n

variable {cfg : MemConfig S} {m : Store S} {t : GoType} {base : Option SliceValue} {n total : Nat}
  {src : Source S}

/-- One append keeps the potential. -/
theorem Grown.append (h : Grown base n total) (hone : (src.elems cfg m t).length = 1) :
    Grown (appendConcrete cfg m t base src).1 (n + 1) (total + copied cfg m t base src) := by
  obtain ⟨v, hv⟩ := List.length_eq_one_iff.mp hone
  obtain ⟨hlen, hcap, hback, hpot, htot⟩ := h
  by_cases hroom : hasRoom (base.getD {}) 1 = true
  · have hfits := (Bool.and_eq_true_iff.mp hroom).1
    have hsome := (Bool.and_eq_true_iff.mp hroom).2
    simp only [decide_eq_true_eq] at hfits
    simp only [appendConcrete, copied, hv, List.isEmpty_cons, List.length_singleton, hroom,
      Bool.false_eq_true, if_false, if_true, Bool.or_true, Nat.add_zero]
    exact ⟨by simp [hlen], by simpa [hlen] using hfits, .inl hsome, hpot, by omega⟩
  · -- the capacity is used up, or there is no array yet
    have hfull : ((base.getD {}).cap.toNat : Int) = n := by
      simp only [hasRoom, Bool.and_eq_true, decide_eq_true_eq, hlen] at hroom
      rcases hback with hsome | hzero
      · have hlt : ¬ ((n : Int) + ((1 : Nat) : Int) ≤ (base.getD {}).cap) :=
          fun hle => hroom ⟨hle, hsome⟩
        omega
      · omega
    have hgrow := growCap_succ (base.getD {}).cap.toNat
    simp only [appendConcrete, copied, hv, List.isEmpty_cons, List.length_singleton, hroom,
      Bool.false_eq_true, if_false, Bool.or_self, newConcreteSlice, List.length_append,
      List.length_map, List.length_range, hlen, Int.toNat_natCast]
    have hnat : (base.getD {}).cap.toNat = n := by omega
    rw [hnat] at hgrow ⊢
    refine ⟨by simp, ?_, .inl rfl, ?_, by omega⟩
    · simp only [Option.getD_some]
      omega
    · simp only [Option.getD_some]
      omega

theorem Grown.appendAll (steps : List (Store S × Source S)) :
    ∀ {base : Option SliceValue} {n total : Nat}, Grown base n total →
      (∀ p ∈ steps, (p.2.elems cfg p.1 t).length = 1) →
      Grown (appendAll cfg t base steps).1 (n + steps.length)
        (total + (appendAll cfg t base steps).2) := by
  induction steps with
  | nil => exact fun h _ => h
  | cons p steps ih =>
    intro base n total h hone
    have hnext := ih (h.append (hone p List.mem_cons_self))
      fun q hq => hone q (List.mem_cons_of_mem _ hq)
    simpa only [Memory.appendAll, List.length_cons, Nat.add_assoc, Nat.add_comm 1] using hnext

/-- **`growCap` ends with room enough where no sum overflows, and appending
one element after the other copies at most five for each.** -/
theorem growth_amortised (cfg : MemConfig S) (t : GoType) :
    (∀ oldCap newLen : Nat, oldCap < newLen → newLen + (newLen + 767) / 4 < 2 ^ 63 →
      ∃ fuel r, growCapInt fuel oldCap newLen = some r ∧ newLen ≤ r ∧
        (oldCap < 2 ^ 62 → r = growCap oldCap newLen)) ∧
    ∀ steps : List (Store S × Source S), (∀ p ∈ steps, (p.2.elems cfg p.1 t).length = 1) →
      (appendAll cfg t none steps).2 ≤ 5 * steps.length := by
  constructor
  · intro oldCap newLen _ hsum
    by_cases hsmall : oldCap < 2 ^ 62
    · obtain ⟨fuel, hfuel⟩ := growCapInt_eq hsmall hsum
      exact ⟨fuel, _, hfuel, by exact_mod_cast le_growCap oldCap newLen, fun _ => rfl⟩
    · -- twice the capacity is negative
      have hdouble : wrapInt (oldCap + oldCap) < newLen := by
        rw [wrapInt, Int.bmod_def]
        omega
      exact ⟨0, newLen, by rw [growCapInt]; exact if_pos hdouble, le_refl _,
        fun h => absurd h hsmall⟩
  · intro steps hone
    have hnil : Grown none 0 0 := ⟨rfl, le_refl _, .inr rfl, le_refl _, le_refl _⟩
    have hgrown := hnil.appendAll steps hone
    simpa using hgrown.total_le

/-- From 300 to 301, and two appends. -/
theorem growth_amortised_two :
    (∃ fuel r, growCapInt fuel (300 : Nat) (301 : Nat) = some r ∧ ((301 : Nat) : Int) ≤ r ∧
      (300 < 2 ^ 62 → r = growCap 300 301)) ∧
    (appendAll (numbers false) (.basic .int) none
      [({}, .text [.scalar 7]), ({}, .text [.scalar 8])]).2 ≤ 5 * 2 :=
  ⟨(growth_amortised (numbers false) (.basic .int)).1 300 301 (by decide) (by decide),
    (growth_amortised (numbers false) (.basic .int)).2 _ fun p hp => by
      rcases List.mem_pair.mp hp with rfl | rfl <;> rfl⟩

theorem growLoopInt_none {newLen : Int} (newcap : Int) (hlt : newcap < newLen)
    (h : ∀ fuel, growLoopInt newLen fuel (growNext newcap) = none) :
    ∀ fuel, growLoopInt newLen fuel newcap = none
  | 0 => rfl
  | fuel + 1 => by rw [growLoopInt, if_pos hlt, h fuel]

/-- **A loop without end.** The capacity comes to 8198552921648688840, which
is one too small, overflows to -8198552921648690374, and comes back. -/
theorem growCap_diverges :
    ¬ ∃ fuel r, growCapInt fuel 4197659095884128312 8198552921648688841 = some r := by
  have hcycle : ∀ fuel, growLoopInt 8198552921648688841 fuel 8198552921648688840 = none ∧
      growLoopInt 8198552921648688841 fuel (-8198552921648690374) = none := by
    intro fuel
    induction fuel with
    | zero => exact ⟨rfl, rfl⟩
    | succ fuel ih =>
      have hup : growNext 8198552921648688840 = -8198552921648690374 := by decide +kernel
      have hdown : growNext (-8198552921648690374) = 8198552921648688840 := by decide +kernel
      rw [growLoopInt, growLoopInt, if_pos (by decide), if_pos (by decide), hup, hdown]
      exact ⟨ih.2, ih.1⟩
  have hthree := growLoopInt_none 6558842337318950919 (by decide)
    fun fuel => (hcycle fuel).1
  have htwo := growLoopInt_none 5247073869855160582 (by decide) hthree
  have hone := growLoopInt_none 4197659095884128312 (by decide) htwo
  rintro ⟨fuel, r, hr⟩
  cases (hone fuel).symm.trans hr

end Giri.Memory
