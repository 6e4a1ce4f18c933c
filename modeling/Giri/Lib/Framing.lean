/-
Giri.Lib.Framing — when a concatenation of pieces can be taken apart again.

Three ways to keep the pieces of a text apart, over any alphabet:

* a separator that no piece contains (`cut_inj`, `intercalate_inj`);
* codes of which none begins another (`PrefixFree`), such as pieces that
  state their length first (`frame`);
* any codes, unless at the first difference one code word is the other with a
  part more, which the next words of the other text make up (`flatMap_eq_iff`).

Texts are lists. Byte strings, and the decimal numerals the second way uses,
are at the end.
-/
import Mathlib.Data.List.Infix

namespace Framing

variable {α β : Type}

/-! ## §1. Separators -/

/-- Two texts are cut at their first separator. -/
theorem cut_inj {sep : α} : ∀ {x y u v : List α}, sep ∉ x → sep ∉ y →
    x ++ sep :: u = y ++ sep :: v → x = y ∧ u = v
  | [], [], u, v, _, _, h => by simpa using h
  | [], b :: y, u, v, _, hy, h => by
    simp only [List.nil_append, List.cons_append, List.cons.injEq] at h
    exact absurd (h.1 ▸ List.mem_cons_self) hy
  | a :: x, [], u, v, hx, _, h => by
    simp only [List.nil_append, List.cons_append, List.cons.injEq] at h
    exact absurd (h.1 ▸ List.mem_cons_self) hx
  | a :: x, b :: y, u, v, hx, hy, h => by
    simp only [List.cons_append, List.cons.injEq] at h
    obtain ⟨rfl, h⟩ := h
    simp only [List.mem_cons, not_or] at hx hy
    obtain ⟨rfl, rfl⟩ := cut_inj hx.2 hy.2 h
    exact ⟨rfl, rfl⟩

/-- Equally many pieces without a separator, joined by separators. -/
theorem intercalate_inj {sep : α} : ∀ {xs ys : List (List α)}, (∀ x ∈ xs, sep ∉ x) →
    (∀ y ∈ ys, sep ∉ y) → xs.length = ys.length →
      [sep].intercalate xs = [sep].intercalate ys → xs = ys
  | [], [], _, _, _, _ => rfl
  | [x], [y], _, _, _, h => by simpa [List.intercalate] using h
  | x :: x' :: xs, y :: y' :: ys, hx, hy, hlen, h => by
    have hcons : ∀ (z z' : List α) (zs : List (List α)), [sep].intercalate (z :: z' :: zs) =
        z ++ sep :: [sep].intercalate (z' :: zs) := by
      intro z z' zs
      simp [List.intercalate, List.intersperse]
    rw [hcons, hcons] at h
    obtain ⟨rfl, hrest⟩ := cut_inj (hx x List.mem_cons_self) (hy y List.mem_cons_self) h
    rw [intercalate_inj (fun z hz => hx z (List.mem_cons_of_mem _ hz))
      (fun z hz => hy z (List.mem_cons_of_mem _ hz)) (by simpa using hlen) hrest]

/-! ## §2. Prefix-free codes -/

/-- No code word begins another, whatever follows. -/
def PrefixFree (enc : β → List α) : Prop :=
  ∀ a b x y, enc a ++ x = enc b ++ y → a = b

/-- **A sequence of code words can be decoded.** -/
theorem PrefixFree.flatMap_inj {enc : β → List α} (h : PrefixFree enc) (hne : ∀ b, enc b ≠ []) :
    ∀ {xs ys : List β}, xs.flatMap enc = ys.flatMap enc → xs = ys
  | [], [], _ => rfl
  | [], b :: ys, heq => by simp [hne b] at heq
  | a :: xs, [], heq => by simp [hne a] at heq
  | a :: xs, b :: ys, heq => by
    simp only [List.flatMap_cons] at heq
    obtain rfl := h a b _ _ heq
    rw [flatMap_inj h hne (List.append_cancel_left heq)]

/-! ## §3. Code words that run on -/

/-- A part `x` of a code word is made up, word by word, of the next words of
`ys`. The last of them may have a part more, which the words of `xs` make up
in turn, and so on until nothing is left. -/
inductive MadeUp (enc : β → List α) : List α → List β → List β → Prop where
  | nil : MadeUp enc [] [] []
  | word {x b xs ys} (h : MadeUp enc x xs ys) : MadeUp enc (enc b ++ x) xs (b :: ys)
  | turn {x y b xs ys} (hb : enc b = x ++ y) (h : MadeUp enc y ys xs) : MadeUp enc x xs (b :: ys)

theorem MadeUp.append_eq {enc : β → List α} {x : List α} {xs ys : List β}
    (h : MadeUp enc x xs ys) : x ++ xs.flatMap enc = ys.flatMap enc := by
  induction h with
  | nil => rfl
  | word _ ih => rw [List.append_assoc, ih, List.flatMap_cons]
  | turn hb _ ih => rw [List.flatMap_cons, hb, List.append_assoc, ih]

/-- The words that are left get fewer with each step. -/
theorem madeUp_of_append_eq {enc : β → List α} (hne : ∀ b, enc b ≠ []) : ∀ {x : List α}
    {xs ys : List β}, x ++ xs.flatMap enc = ys.flatMap enc → MadeUp enc x xs ys
  | x, xs, [], h => by
    obtain ⟨rfl, hxs⟩ := List.append_eq_nil_iff.mp h
    cases xs with
    | nil => exact .nil
    | cons a xs => exact absurd (List.append_eq_nil_iff.mp hxs).1 (hne a)
  | x, xs, b :: ys, h => by
    rcases List.append_eq_append_iff.mp h with ⟨y, hb, hxs⟩ | ⟨y, rfl, hys⟩
    · exact .turn hb (madeUp_of_append_eq hne hxs.symm)
    · exact .word (madeUp_of_append_eq hne hys.symm)
termination_by _ xs ys => xs.length + ys.length

/-- Where the two sequences differ first, one code word is the other with a
part more, which the next words of the other sequence make up. -/
def RunsOn [DecidableEq β] (enc : β → List α) : List β → List β → Prop
  | a :: xs, b :: ys =>
    if a = b then RunsOn enc xs ys
    else ∃ x, enc a = enc b ++ x ∧ MadeUp enc x xs ys ∨ enc b = enc a ++ x ∧ MadeUp enc x ys xs
  | _, _ => False

/-- **Two sequences with one text.** -/
theorem flatMap_eq_iff [DecidableEq β] {enc : β → List α} (hne : ∀ b, enc b ≠ []) :
    ∀ {xs ys : List β}, xs.flatMap enc = ys.flatMap enc ↔ xs = ys ∨ RunsOn enc xs ys
  | [], [] => by simp
  | [], b :: ys => by simp [RunsOn, hne b]
  | a :: xs, [] => by simp [RunsOn, hne a]
  | a :: xs, b :: ys => by
    by_cases hab : a = b
    · subst hab
      simp [RunsOn, flatMap_eq_iff hne]
    · simp only [List.flatMap_cons, RunsOn, List.cons.injEq, hab, false_and, false_or]
      rw [List.append_eq_append_iff]
      constructor
      · rintro (⟨x, hx, hrest⟩ | ⟨x, hx, hrest⟩)
        · exact ⟨x, .inr ⟨hx, madeUp_of_append_eq hne hrest.symm⟩⟩
        · exact ⟨x, .inl ⟨hx, madeUp_of_append_eq hne hrest.symm⟩⟩
      · rintro ⟨x, ⟨hx, hrest⟩ | ⟨hx, hrest⟩⟩
        · exact .inr ⟨x, hx, hrest.append_eq.symm⟩
        · exact .inl ⟨x, hx, hrest.append_eq.symm⟩

/-! ## §4. Byte strings -/

/-- A string of ASCII characters. -/
def ascii (cs : List Char) : List UInt8 :=
  cs.map fun c => UInt8.ofNat c.toNat

/-- A number in decimal. -/
def decimal (n : Nat) : List UInt8 :=
  ascii (Nat.toDigits 10 n)

theorem toNat_digit {n : Nat} {c : Char} (hc : c ∈ Nat.toDigits 10 n) :
    48 ≤ c.toNat ∧ c.toNat ≤ 57 := by
  have hdigit := Nat.isDigit_of_mem_toDigits (by decide) (by decide) hc
  simp only [Char.isDigit, ge_iff_le, Bool.and_eq_true, decide_eq_true_eq] at hdigit
  exact hdigit

theorem digit_of_mem_decimal {n : Nat} {b : UInt8} (h : b ∈ decimal n) :
    48 ≤ b.toNat ∧ b.toNat ≤ 57 := by
  obtain ⟨c, hc, rfl⟩ := List.mem_map.mp h
  have hdigit := toNat_digit hc
  rw [UInt8.toNat_ofNat_of_lt' (by show c.toNat < 256; omega)]
  exact hdigit

theorem colon_not_mem_decimal (n : Nat) : (58 : UInt8) ∉ decimal n := by
  intro hmem
  have hdigit := digit_of_mem_decimal hmem
  exact absurd hdigit.2 (by decide)

theorem decimal_ne_nil (n : Nat) : decimal n ≠ [] := by
  simp [decimal, ascii, Nat.toDigits_ne_nil]

/-- **A numeral can be read back.** -/
theorem value_decimal (n : Nat) :
    (decimal n).foldl (fun k b => 10 * k + (b.toNat - 48)) 0 = n := by
  rw [decimal, ascii, List.foldl_map]
  refine Eq.trans (List.foldl_ext _ _ 0 fun k c hc => ?_) (Nat.ofDigitChars_toDigits (by decide)
    (le_refl 10))
  have hdigit := toNat_digit hc
  rw [UInt8.toNat_ofNat_of_lt' (by show c.toNat < 256; omega)]
  rfl

theorem decimal_inj {m n : Nat} (h : decimal m = decimal n) : m = n := by
  rw [← value_decimal m, h, value_decimal n]

/-- A number with its sign, if it is negative. -/
def decimalInt (i : Int) : List UInt8 :=
  if i < 0 then 45 :: decimal i.natAbs else decimal i.natAbs

theorem decimalInt_inj {i j : Int} (h : decimalInt i = decimalInt j) : i = j := by
  -- a numeral without sign does not begin with one
  have hsign : ∀ n (ds : List UInt8), decimal n ≠ 45 :: ds := by
    intro n ds heq
    have hmem : (45 : UInt8) ∈ decimal n := heq ▸ List.mem_cons_self
    have hdigit := digit_of_mem_decimal hmem
    exact absurd hdigit.1 (by decide)
  unfold decimalInt at h
  split at h
  · split at h
    · have habs := decimal_inj (List.cons.inj h).2
      omega
    · exact absurd h.symm (hsign _ _)
  · split at h
    · exact absurd h (hsign _ _)
    · have habs := decimal_inj h
      omega

/-- The digits and the sign. -/
theorem mem_decimalInt {i : Int} {b : UInt8} (h : b ∈ decimalInt i) :
    b.toNat = 45 ∨ 48 ≤ b.toNat ∧ b.toNat ≤ 57 := by
  unfold decimalInt at h
  split at h
  · rcases List.mem_cons.mp h with rfl | h
    · exact .inl rfl
    · exact .inr (digit_of_mem_decimal h)
  · exact .inr (digit_of_mem_decimal h)

/-- A piece behind its length: `5:hello` and a newline. -/
def frame (part : List UInt8) : List UInt8 :=
  decimal part.length ++ 58 :: (part ++ [10])

/-- **The length tells where a piece ends**, whatever it contains. -/
theorem frame_prefixFree : PrefixFree frame := by
  intro a b x y h
  simp only [frame, List.append_assoc, List.cons_append] at h
  obtain ⟨hlen, hbody⟩ := cut_inj (colon_not_mem_decimal _) (colon_not_mem_decimal _) h
  exact (List.append_inj hbody (decimal_inj hlen)).1

theorem frames_inj {xs ys : List (List UInt8)} (h : xs.flatMap frame = ys.flatMap frame) :
    xs = ys :=
  frame_prefixFree.flatMap_inj (by simp [frame]) h

end Framing
