/-
Giri.Report.Location — locations are printed and read back
(`report/report.go`, `interpreter/exec.go`).

A location is a file, a line and perhaps a column, with colons between them.
Nothing keeps colons and digits out of a file name, so both readers work from
the right: `parseLocation` takes one number, and a second one if there is
one, and `groupFile` takes numbers away as long as there are any.

What they take for a number is what `strconv.Atoi` reads: digits, perhaps
behind a sign (`Numeral`). A file that ends in a colon and a number can't be
told from a shorter one with a line; every other file comes back.
-/
import Giri.Lsp.Jsonrpc

namespace Giri.Reporting

open Lsp (Bytes atoi digits)
open Framing (ascii decimal)

/-! ## §1. Printing and parsing -/

/-- `token.Position`, as far as it is printed. -/
structure Position where
  filename : Bytes
  line : Nat

/-- `posString`. -/
def posString : Option Position → Bytes
  | none => ascii "<unknown>".toList
  | some p => p.filename ++ 58 :: decimal p.line

/-- A location with a column. -/
def columnString (file : Bytes) (line col : Nat) : Bytes :=
  posString (some ⟨file, line⟩) ++ 58 :: decimal col

/-- What is before and behind `strings.LastIndex(s, ":")`. -/
def cutLast : Bytes → Option (Bytes × Bytes)
  | [] => none
  | b :: bs =>
    match cutLast bs with
    | some (rest, seg) => some (b :: rest, seg)
    | none => if b = 58 then some ([], bs) else none

/-- `ParseLocation`. -/
def parseLocation (s : Bytes) : Bytes × Int × Int :=
  match cutLast s with
  | none => ([], 0, 0)
  | some (rest, seg) =>
    match atoi seg with
    | none => ([], 0, 0)
    | some lastNum =>
      if lastNum ≤ 0 then ([], 0, 0)
      else
        match cutLast rest with
        | none => (rest, lastNum, 0)
        | some (file, seg) =>
          match atoi seg with
          | none => (rest, lastNum, 0)
          | some prevNum => if 0 < prevNum then (file, prevNum, lastNum) else (rest, lastNum, 0)

/-- The loop of `groupFile`, for at most `fuel` rounds. -/
def stripNumbers : Nat → Bytes → Bytes
  | 0, s => s
  | fuel + 1, s =>
    match cutLast s with
    | none => s
    | some (rest, seg) => if (atoi seg).isSome then stripNumbers fuel rest else s

/-- `groupFile`, of the location of a finding. A round takes a colon away, so
the length is fuel enough. -/
def groupFile (location : Bytes) : Bytes :=
  if location = [] then ascii ['?'] else stripNumbers location.length location

/-! ## §2. Numbers at the end of a file -/

/-- An integer as it can be written: digits, perhaps behind a sign. -/
inductive Numeral : Bytes → Int → Prop where
  | unsigned {ds : Bytes} {n : Nat} : digits ds = some n → Numeral ds n
  | plus {ds : Bytes} {n : Nat} : digits ds = some n → Numeral (43 :: ds) n
  | minus {ds : Bytes} {n : Nat} : digits ds = some n → Numeral (45 :: ds) (-n)

/-- The file ends in a colon and an integer in `P`. -/
def EndsIn (P : Int → Prop) (file : Bytes) : Prop :=
  ∃ pre seg n, file = pre ++ 58 :: seg ∧ Numeral seg n ∧ P n

theorem numeral_of_atoi {seg : Bytes} {n : Int} (h : atoi seg = some n) : Numeral seg n := by
  have hrange : ∀ {ds : Bytes} {f : Nat → Int} {p : Nat → Prop} [DecidablePred p],
      ((digits ds).bind fun k => if p k then some (f k) else none) = some n →
        ∃ k, digits ds = some k ∧ f k = n := by
    intro ds f p _ hb
    obtain ⟨k, hk, hf⟩ := Option.bind_eq_some_iff.mp hb
    split at hf
    · exact ⟨k, hk, Option.some.inj hf⟩
    · cases hf
  unfold atoi at h
  split at h
  · obtain ⟨k, hk, rfl⟩ := hrange h
    exact .minus hk
  · obtain ⟨k, hk, rfl⟩ := hrange h
    exact .plus hk
  · obtain ⟨k, hk, rfl⟩ := hrange h
    exact .unsigned hk

/-- The last colon is where the segment behind it has none. -/
theorem cutLast_append (file : Bytes) {seg : Bytes} (h : (58 : UInt8) ∉ seg) :
    cutLast (file ++ 58 :: seg) = some (file, seg) := by
  have hnone : ∀ {bs : Bytes}, (58 : UInt8) ∉ bs → cutLast bs = none := by
    intro bs hbs
    induction bs with
    | nil => rfl
    | cons b bs ih =>
      simp only [List.mem_cons, not_or] at hbs
      rw [cutLast, ih hbs.2]
      exact if_neg (Ne.symm hbs.1)
  induction file with
  | nil => rw [List.nil_append, cutLast, hnone h]; rfl
  | cons b file ih => rw [List.cons_append, cutLast, ih]

theorem of_cutLast {s rest seg : Bytes} (h : cutLast s = some (rest, seg)) :
    s = rest ++ 58 :: seg := by
  induction s generalizing rest with
  | nil => cases h
  | cons b bs ih =>
    rw [cutLast] at h
    split at h
    · rename_i rest' seg' hcut
      cases h
      rw [ih hcut, List.cons_append]
    · split at h
      · rename_i hb
        cases h
        rw [hb, List.nil_append]
      · cases h

/-- What a reader takes for a number is one. -/
theorem endsIn_of_atoi {P : Int → Prop} {s rest seg : Bytes} {n : Int}
    (hcut : cutLast s = some (rest, seg)) (hn : atoi seg = some n) (hP : P n) : EndsIn P s :=
  ⟨rest, seg, n, of_cutLast hcut, numeral_of_atoi hn, hP⟩

/-! ## §3. Reading back -/

theorem cutLast_posString (p : Position) :
    cutLast (posString (some p)) = some (p.filename, decimal p.line) :=
  cutLast_append p.filename (Framing.colon_not_mem_decimal _)

theorem cutLast_columnString (file : Bytes) (line col : Nat) :
    cutLast (columnString file line col) = some (posString (some ⟨file, line⟩), decimal col) :=
  cutLast_append _ (Framing.colon_not_mem_decimal _)

variable {file : Bytes} {line col : Nat}

/-- A file without a number at its end is left alone. -/
theorem stripNumbers_of_not_endsIn (h : ¬ EndsIn (fun _ => True) file) (fuel : Nat) :
    stripNumbers fuel file = file := by
  cases fuel with
  | zero => rfl
  | succ fuel =>
    rw [stripNumbers]
    split
    · rfl
    · rename_i rest seg hcut
      split
      · rename_i hsome
        obtain ⟨n, hn⟩ := Option.isSome_iff_exists.mp hsome
        exact absurd (endsIn_of_atoi hcut hn trivial) h
      · rfl

/-- One round takes the number behind the last colon away. -/
theorem stripNumbers_cut {s rest : Bytes} {fuel n : Nat} (hcut : cutLast s = some (rest, decimal n))
    (hn : n < 2 ^ 63) : stripNumbers (fuel + 1) s = stripNumbers fuel rest := by
  rw [stripNumbers, hcut]
  simp only [Lsp.atoi_decimal hn, Option.isSome_some, if_true]

theorem groupFile_of_length {s : Bytes} (h : 2 ≤ s.length) :
    ∃ fuel, groupFile s = stripNumbers (fuel + 2) s := by
  obtain ⟨fuel, hfuel⟩ := Nat.exists_eq_add_of_le h
  refine ⟨fuel, ?_⟩
  have hne : s ≠ [] := by
    rintro rfl
    exact absurd h (by decide)
  rw [groupFile, if_neg hne, hfuel, Nat.add_comm]

/-- A location is at least a colon and a digit. -/
theorem length_posString (p : Position) : 2 ≤ (posString (some p)).length := by
  have hpos := List.length_pos_iff.mpr (Framing.decimal_ne_nil p.line)
  simp only [posString, List.length_append, List.length_cons]
  omega

/-- **Parsing inverts printing, and so does grouping by file.** -/
theorem location_round_trips (file : Bytes) (line col : Nat)
    (hline : 0 < line ∧ line < 2 ^ 63) (hcol : 0 < col ∧ col < 2 ^ 63) :
    parseLocation (columnString file line col) = (file, (line : Int), (col : Int)) ∧
    (¬ EndsIn (0 < ·) file →
      parseLocation (posString (some ⟨file, line⟩)) = (file, (line : Int), 0)) ∧
    (¬ EndsIn (fun _ => True) file →
      groupFile (columnString file line col) = file ∧
      groupFile (posString (some ⟨file, line⟩)) = file) := by
  have hline₀ : ¬ (line : Int) ≤ 0 := by omega
  have hcol₀ : ¬ (col : Int) ≤ 0 := by omega
  refine ⟨?_, fun hfile => ?_, fun hfile => ⟨?_, ?_⟩⟩
  · rw [parseLocation, cutLast_columnString]
    simp only [Lsp.atoi_decimal hcol.2, if_neg hcol₀, cutLast_posString, Lsp.atoi_decimal hline.2]
    exact if_pos (Int.not_le.mp hline₀)
  · rw [parseLocation, cutLast_posString]
    simp only [Lsp.atoi_decimal hline.2, if_neg hline₀]
    -- a second number would be at the end of the file
    split
    · rfl
    · rename_i rest seg hcut
      split
      · rfl
      · rename_i n hn
        exact if_neg fun hpos => hfile (endsIn_of_atoi hcut hn hpos)
  · obtain ⟨fuel, hfuel⟩ := groupFile_of_length (s := columnString file line col) (by
      have hlen := length_posString ⟨file, line⟩
      simp only [columnString, List.length_append, List.length_cons]
      omega)
    rw [hfuel, stripNumbers_cut (cutLast_columnString ..) hcol.2,
      stripNumbers_cut (cutLast_posString _) hline.2, stripNumbers_of_not_endsIn hfile]
  · obtain ⟨fuel, hfuel⟩ := groupFile_of_length (length_posString ⟨file, line⟩)
    rw [hfuel, stripNumbers_cut (cutLast_posString _) hline.2, stripNumbers_of_not_endsIn hfile]

/-- At line 12, column 3 of `a b:c.go`. -/
theorem location_round_trips_spaced :
    let file := ascii "a b:c.go".toList
    parseLocation (columnString file 12 3) = (file, 12, 3) ∧
      parseLocation (posString (some ⟨file, 12⟩)) = (file, 12, 0) ∧
      groupFile (columnString file 12 3) = file ∧ groupFile (posString (some ⟨file, 12⟩)) = file := by
  have hnot : ∀ P, ¬ EndsIn P (ascii "a b:c.go".toList) := by
    rintro P ⟨pre, seg, n, heq, hnum, -⟩
    -- the only colon is the fourth byte
    rcases pre with _ | ⟨_, _ | ⟨_, _ | ⟨_, _ | ⟨_, pre⟩⟩⟩⟩
    · cases heq
    · cases heq
    · cases heq
    · cases heq
      cases hnum with
      | unsigned h => cases h
    · have hrest : ascii "c.go".toList = pre ++ 58 :: seg := congrArg (List.drop 4) heq
      have hmem : 58 ∈ ascii "c.go".toList := by rw [hrest]; simp
      exact absurd hmem (by decide)
  obtain ⟨hparse, hline, hgroup⟩ :=
    location_round_trips (ascii "a b:c.go".toList) 12 3 ⟨by decide, by decide⟩ ⟨by decide, by decide⟩
  exact ⟨hparse, hline (hnot _), hgroup (hnot _)⟩

end Giri.Reporting
