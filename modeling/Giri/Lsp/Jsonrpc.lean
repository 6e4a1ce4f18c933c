/-
Giri.Lsp.Jsonrpc — messages over a byte stream (`lsp/jsonrpc.go`).

A message is a block of header lines, an empty line, and as many bytes of
JSON as `Content-Length` says. The JSON codec is a parameter, and so is the
type `J` of JSON values inside a message. What the stream still holds is a
list of bytes; that a `bufio.Reader` fills up in pieces can't be seen.

`strings.TrimSpace` looks at Unicode: `spaces` are the encodings of the
characters of `unicode.IsSpace`, and no suffix of a byte string decodes to
one unless it is one of them. `strings.EqualFold` with `Content-Length`
folds ASCII letters only, since none of its letters has a fold outside
ASCII.

`Frame` is a message as the protocol has it, whatever the body; a frame is
read as its body and nothing else (`readMessage_frame`).
-/
import Mathlib.Algebra.Ring.Int.Defs
import Mathlib.Algebra.Ring.Nat
import Mathlib.Data.List.DropRight
import Giri.Lib.Framing

namespace Giri.Lsp

open Framing (ascii decimal)

abbrev Bytes : Type := List UInt8

/-- `responseError`. -/
structure ResponseError where
  code : Int
  message : String
  deriving DecidableEq, Repr

/-- `message`. A member that is `omitempty` and has its zero value is not
encoded: `none`, and an empty method. -/
structure Message (J : Type) where
  jsonrpc : String := ""
  id : Option J := none
  method : String := ""
  params : Option J := none
  result : Option J := none
  error : Option ResponseError := none
  deriving DecidableEq, Repr

/-- The errors of `readMessage`. -/
inductive ReadError where
  | eof
  | unexpectedEOF
  | invalidLength (value : Bytes)
  | missingLength
  /-- `parseError`. -/
  | parse (msg : String)
  deriving DecidableEq, Repr

/-! ## §1. Header lines -/

/-- `strings.TrimRight(line, "\r\n")`. -/
def trimNewline (line : Bytes) : Bytes := line.rdropWhile fun b => b == 13 || b == 10

/-- `strings.Cut(line, ":")`. -/
def cut : Bytes → Option (Bytes × Bytes)
  | [] => none
  | b :: bs => if b = 58 then some ([], bs) else (cut bs).map fun (name, value) => (b :: name, value)

/-- The characters of `unicode.IsSpace`, in UTF-8. -/
def spaces : List Bytes :=
  [[9], [10], [11], [12], [13], [32], [0xc2, 0x85], [0xc2, 0xa0], [0xe1, 0x9a, 0x80],
    [0xe2, 0x80, 0x80], [0xe2, 0x80, 0x81], [0xe2, 0x80, 0x82], [0xe2, 0x80, 0x83],
    [0xe2, 0x80, 0x84], [0xe2, 0x80, 0x85], [0xe2, 0x80, 0x86], [0xe2, 0x80, 0x87],
    [0xe2, 0x80, 0x88], [0xe2, 0x80, 0x89], [0xe2, 0x80, 0x8a], [0xe2, 0x80, 0xa8],
    [0xe2, 0x80, 0xa9], [0xe2, 0x80, 0xaf], [0xe2, 0x81, 0x9f], [0xe3, 0x80, 0x80]]

/-- Take away what is in `sps` at the start, at most `fuel` times. -/
def trimStart (sps : List Bytes) : Nat → Bytes → Bytes
  | 0, bs => bs
  | fuel + 1, bs =>
    match sps.find? (·.isPrefixOf bs) with
    | none => bs
    | some sp => trimStart sps fuel (bs.drop sp.length)

/-- `strings.TrimSpace`. A space has at least one byte, so the length is fuel
enough. -/
def trimSpace (bs : Bytes) : Bytes :=
  let bs := trimStart spaces bs.length bs
  (trimStart (spaces.map List.reverse) bs.length bs.reverse).reverse

/-- ASCII letters in lower case. -/
def lower (b : UInt8) : UInt8 := if 65 ≤ b ∧ b ≤ 90 then b + 32 else b

/-- `strings.EqualFold(name, "Content-Length")`. -/
def isContentLength (name : Bytes) : Bool := name.map lower == ascii "content-length".toList

def isDigit (b : UInt8) : Bool := 48 ≤ b && b ≤ 57

/-- A decimal numeral. -/
def digits (bs : Bytes) : Option Nat :=
  if bs ≠ [] ∧ bs.all isDigit then some (bs.foldl (fun n b => 10 * n + (b.toNat - 48)) 0) else none

/-- `strconv.Atoi`, where `int` has 64 bits. -/
def atoi : Bytes → Option Int
  | 45 :: bs => (digits bs).bind fun n => if n ≤ 2 ^ 63 then some (-n) else none
  | 43 :: bs => (digits bs).bind fun n => if n < 2 ^ 63 then some n else none
  | bs => (digits bs).bind fun n => if n < 2 ^ 63 then some n else none

/-- The body of the loop over header lines: the length, if the line gives
one. -/
def header (line : Bytes) : Except ReadError (Option Int) :=
  match cut line with
  | none => .ok none
  | some (name, value) =>
    if isContentLength (trimSpace name) then
      match atoi (trimSpace value) with
      | none => .error (.invalidLength value)
      | some n => .ok (some n)
    else .ok none

/-! ## §2. Reading and writing -/

/-- The loop over header lines, with `ReadString`: `line` is what has been
read of a line. -/
def readHeaders (contentLength : Int) (line : Bytes) : Bytes → Except ReadError (Int × Bytes)
  | [] => .error .eof
  | b :: rest =>
    if b = 10 then
      match trimNewline (line ++ [b]) with
      | [] => .ok (contentLength, rest)
      | b' :: text =>
        match header (b' :: text) with
        | .error e => .error e
        | .ok n => readHeaders (n.getD contentLength) [] rest
    else readHeaders contentLength (line ++ [b]) rest

variable {J : Type}

/-- `readMessage`: the message or the error, and the rest of the stream. -/
def readMessage (decode : Bytes → Except String (Message J)) (input : Bytes) :
    Except ReadError (Message J) × Bytes :=
  match readHeaders (-1) [] input with
  | .error e => (.error e, [])
  | .ok (contentLength, rest) =>
    if contentLength < 0 then (.error .missingLength, rest)
    else if rest.length < contentLength.toNat then
      (.error (if rest = [] then .eof else .unexpectedEOF), [])
    else
      match decode (rest.take contentLength.toNat) with
      | .error e => (.error (.parse e), rest.drop contentLength.toNat)
      | .ok m => (.ok m, rest.drop contentLength.toNat)

/-- What `write` encodes. -/
def Message.stamped (m : Message J) : Message J := { m with jsonrpc := "2.0" }

/-- `write`. -/
def write (encode : Message J → Bytes) (m : Message J) : Bytes :=
  let body := encode m.stamped
  ascii "Content-Length: ".toList ++ decimal body.length ++ [13, 10, 13, 10] ++ body

/-- `notify`. -/
def notify (method : String) (params : J) : Message J := { method, params := some params }

/-- `respond`; `none` is a nil result. -/
def respond (id : Option J) (result : Option J) : Message J := { id, result }

/-- `respondError`. -/
def respondError (id : Option J) (code : Int) (msg : String) : Message J :=
  { id, error := some ⟨code, msg⟩ }

/-! ## §3. Frames -/

/-- A header line other than `Content-Length`: not blank, and what the
server takes for its name is another. -/
structure Extra (line : Bytes) : Prop where
  newline : 10 ∉ line
  text : ∃ b ∈ line, b ≠ 13
  name : ∀ name value, line = name ++ 58 :: value → 58 ∉ name → isContentLength (trimSpace name) = false

/-- Spaces and tabs, and what ends a line before the newline. -/
def Blank (bs : Bytes) : Prop := ∀ b ∈ bs, b = 32 ∨ b = 9 ∨ b = 13

/-- A well-framed message. Any case will do in `name`. -/
structure Frame where
  before : List Bytes
  name : Bytes
  pad : Bytes
  pad' : Bytes
  after : List Bytes
  sep : Bytes
  body : Bytes
  extra : ∀ line ∈ before ++ after, Extra line
  contentLength : isContentLength name = true
  blank : Blank pad ∧ Blank pad'
  empty : ∀ b ∈ sep, b = 13
  int : body.length < 2 ^ 63

namespace Frame

variable (f : Frame)

def lengthLine : Bytes := f.name ++ 58 :: (f.pad ++ decimal f.body.length ++ f.pad')

/-- The bytes of the frame. -/
def bytes : Bytes :=
  (f.before ++ f.lengthLine :: f.after).flatMap (· ++ [10]) ++ f.sep ++ 10 :: f.body

end Frame

/-! ## §4. What the header lines say -/

section Lines

variable {cl : Int} {line rest : Bytes}

/-- `ReadString` reads to the next newline. -/
theorem readHeaders_line (hline : 10 ∉ line) (acc : Bytes) :
    readHeaders cl acc (line ++ 10 :: rest) = readHeaders cl (acc ++ line) (10 :: rest) := by
  induction line generalizing acc with
  | nil => rw [List.append_nil, List.nil_append]
  | cons b bs ih =>
    have hb : b ≠ 10 := fun h => hline (h ▸ List.mem_cons_self)
    rw [List.cons_append, readHeaders, if_neg hb, ih fun h => hline (List.mem_cons_of_mem _ h),
      List.append_assoc, List.singleton_append]

theorem trimNewline_newline (line : Bytes) : trimNewline (line ++ [10]) = trimNewline line :=
  List.rdropWhile_concat_pos _ _ _ rfl

theorem trimNewline_ne_nil {b : UInt8} (hb : b ∈ line) (h10 : b ≠ 10) (h13 : b ≠ 13) :
    trimNewline line ≠ [] := by
  intro h
  have hall := List.rdropWhile_eq_nil_iff.mp h b hb
  simp [h10, h13] at hall

/-- A line with text is looked at, and the loop goes on. -/
theorem readHeaders_text (hline : 10 ∉ line) {b : UInt8} (hb : b ∈ line) (h13 : b ≠ 13)
    {n : Option Int} (hheader : header (trimNewline line) = .ok n) :
    readHeaders cl [] (line ++ 10 :: rest) = readHeaders (n.getD cl) [] rest := by
  have hne := trimNewline_ne_nil hb (fun h => hline (h ▸ hb)) h13
  rw [readHeaders_line hline, readHeaders, if_pos rfl, trimNewline_newline, List.nil_append]
  cases htrim : trimNewline line with
  | nil => exact absurd htrim hne
  | cons =>
    rw [htrim] at hheader
    simp only [hheader]

theorem cut_eq_some {name value : Bytes} (h : cut line = some (name, value)) :
    line = name ++ 58 :: value ∧ 58 ∉ name := by
  induction line generalizing name with
  | nil => cases h
  | cons b bs ih =>
    rw [cut] at h
    split at h
    · rename_i hb
      cases h
      exact ⟨by rw [hb, List.nil_append], List.not_mem_nil⟩
    · rename_i hb
      obtain ⟨⟨n, v⟩, hcut, heq⟩ := Option.map_eq_some_iff.mp h
      cases heq
      obtain ⟨rfl, hn⟩ := ih hcut
      refine ⟨rfl, fun hin => ?_⟩
      rcases List.mem_cons.mp hin with rfl | hin
      · exact hb rfl
      · exact hn hin

theorem cut_append {name : Bytes} (hname : 58 ∉ name) (value : Bytes) :
    cut (name ++ 58 :: value) = some (name, value) := by
  induction name with
  | nil => rfl
  | cons b bs ih =>
    have hb : b ≠ 58 := fun h => hname (h ▸ List.mem_cons_self)
    rw [List.cons_append, cut, if_neg hb, ih fun h => hname (List.mem_cons_of_mem _ h)]
    rfl

theorem Extra.readHeaders (h : Extra line) : readHeaders cl [] (line ++ 10 :: rest) =
    Lsp.readHeaders cl [] rest := by
  obtain ⟨b, hb, h13⟩ := h.text
  refine readHeaders_text h.newline hb h13 (n := none) ?_
  unfold header
  cases hcut : cut (trimNewline line) with
  | none => rfl
  | some nv =>
    obtain ⟨hline, hname⟩ := cut_eq_some hcut
    -- what is trimmed is behind the colon
    obtain ⟨more, hmore⟩ : trimNewline line <+: line := List.rdropWhile_prefix _ _
    have hother := h.name nv.1 (nv.2 ++ more) (by rw [← hmore, hline]; simp) hname
    simp [hother]

theorem readHeaders_extras {lines : List Bytes} (h : ∀ line ∈ lines, Extra line) :
    readHeaders cl [] (lines.flatMap (· ++ [10]) ++ rest) = readHeaders cl [] rest := by
  induction lines with
  | nil => rfl
  | cons line lines ih =>
    rw [List.flatMap_cons, List.append_assoc, List.append_assoc, List.singleton_append,
      (h line List.mem_cons_self).readHeaders, ih fun l hl => h l (List.mem_cons_of_mem _ hl)]

theorem readHeaders_empty (h : ∀ b ∈ line, b = 13) :
    readHeaders cl [] (line ++ 10 :: rest) = .ok (cl, rest) := by
  have hline : 10 ∉ line := fun hin => nomatch h 10 hin
  have htrim : trimNewline line = [] := List.rdropWhile_eq_nil_iff.mpr fun b hb => by simp [h b hb]
  rw [readHeaders_line hline, readHeaders, if_pos rfl, trimNewline_newline, List.nil_append, htrim]

end Lines

/-! ## §5. The length -/

/-- Digits and letters are among these; no space begins or ends with one. -/
def Solid (b : UInt8) : Prop := 48 ≤ b.toNat ∧ b.toNat ≤ 122

instance (b : UInt8) : Decidable (Solid b) := inferInstanceAs (Decidable (_ ∧ _))

/-- Blanks are spaces, and no space begins with a solid byte. -/
structure Heads (sps : List Bytes) : Prop where
  blank : ∀ b : UInt8, b = 32 ∨ b = 9 ∨ b = 13 → ∀ bs, sps.find? (·.isPrefixOf (b :: bs)) = some [b]
  solid : ∀ sp ∈ sps, ∃ b bs, sp = b :: bs ∧ ¬Solid b

/-- The first bytes of some spaces. -/
theorem solid_of_heads {sps : List Bytes} (hne : [] ∉ sps)
    (hall : ∀ sp ∈ sps, ∀ b ∈ sp.head?, ¬Solid b) (sp : Bytes) (hsp : sp ∈ sps) :
    ∃ b bs, sp = b :: bs ∧ ¬Solid b := by
  cases sp with
  | nil => exact absurd hsp hne
  | cons b bs => exact ⟨b, bs, rfl, hall _ hsp b rfl⟩

theorem heads_spaces : Heads spaces where
  blank := by rintro b (rfl | rfl | rfl) bs <;> rfl
  solid := solid_of_heads (by decide +kernel) (by decide +kernel)

theorem heads_reverse : Heads (spaces.map List.reverse) where
  blank := by rintro b (rfl | rfl | rfl) bs <;> rfl
  solid := solid_of_heads (by decide +kernel) (by decide +kernel)

section Trim

variable {sps : List Bytes} {b c : UInt8} {bs pad pad' ds : Bytes}

theorem Heads.trimStart_solid (h : Heads sps) (hb : Solid b) (fuel : Nat) :
    trimStart sps fuel (b :: bs) = b :: bs := by
  have hnone : sps.find? (·.isPrefixOf (b :: bs)) = none := by
    refine List.find?_eq_none.mpr fun sp hsp hpre => ?_
    obtain ⟨b', bs', rfl, hb'⟩ := h.solid sp hsp
    simp only [List.isPrefixOf, Bool.and_eq_true, beq_iff_eq] at hpre
    exact hb' (hpre.1 ▸ hb)
  cases fuel with
  | zero => rfl
  | succ => simp only [trimStart, hnone]

theorem Heads.trimStart_blank (h : Heads sps) (hpad : Blank pad) (hb : Solid b) :
    ∀ {fuel : Nat}, pad.length ≤ fuel → trimStart sps fuel (pad ++ b :: bs) = b :: bs := by
  induction pad with
  | nil => exact fun _ => h.trimStart_solid hb _
  | cons c pad ih =>
    intro fuel hfuel
    cases fuel with
    | zero => cases hfuel
    | succ =>
      rw [List.cons_append, trimStart, h.blank c (hpad c List.mem_cons_self)]
      exact ih (fun b hb => hpad b (List.mem_cons_of_mem _ hb)) (Nat.le_of_succ_le_succ hfuel)

theorem Blank.reverse (h : Blank pad) : Blank pad.reverse :=
  fun b hb => h b (List.mem_reverse.mp hb)

/-- Blanks on both sides are trimmed. -/
theorem trimSpace_blank (hpad : Blank pad) (hpad' : Blank pad') (hfirst : ds.head? = some b)
    (hb : Solid b) (hlast : ds.getLast? = some c) (hc : Solid c) :
    trimSpace (pad ++ ds ++ pad') = ds := by
  obtain ⟨bs, rfl⟩ := List.head?_eq_some_iff.mp hfirst
  obtain ⟨cs, hcs⟩ := List.getLast?_eq_some_iff.mp hlast
  have hstart : trimStart spaces (pad ++ b :: bs ++ pad').length (pad ++ b :: bs ++ pad') =
      b :: bs ++ pad' := by
    rw [List.append_assoc, List.cons_append]
    exact heads_spaces.trimStart_blank hpad hb (by simp)
  -- the same from the other end
  have hback : (b :: bs ++ pad').reverse = pad'.reverse ++ c :: cs.reverse := by
    rw [hcs]
    simp
  have hrev : c :: cs.reverse = (b :: bs).reverse := by
    rw [hcs]
    simp
  rw [trimSpace, hstart, hback, heads_reverse.trimStart_blank hpad'.reverse hc (by simp; omega),
    hrev, List.reverse_reverse]

theorem trimNewline_append {x y : Bytes} (hb : x.getLast? = some b) (h13 : b ≠ 13) (h10 : b ≠ 10) :
    trimNewline (x ++ y) = x ++ trimNewline y := by
  induction y using List.reverseRecOn with
  | nil =>
    obtain ⟨x, rfl⟩ := List.getLast?_eq_some_iff.mp hb
    have hlast := List.rdropWhile_concat_neg (fun b : UInt8 => b == 13 || b == 10) x b
      (by simp [h13, h10])
    rw [List.append_nil, trimNewline, hlast]
    exact (List.append_nil _).symm
  | append_singleton y c ih =>
    rw [← List.append_assoc]
    unfold trimNewline at ih ⊢
    rw [List.rdropWhile_concat, List.rdropWhile_concat, ih]
    split
    · rfl
    · rw [List.append_assoc]

theorem digits_decimal (n : Nat) : digits (decimal n) = some n := by
  have hall : ∀ b ∈ decimal n, isDigit b = true := by
    intro b hb
    have hdigit := Framing.digit_of_mem_decimal hb
    simp only [isDigit, Bool.and_eq_true, decide_eq_true_eq, UInt8.le_iff_toNat_le]
    exact hdigit
  rw [digits, if_pos ⟨Framing.decimal_ne_nil n, List.all_eq_true.mpr hall⟩, Framing.value_decimal]

theorem atoi_decimal {n : Nat} (h : n < 2 ^ 63) : atoi (decimal n) = some (n : Int) := by
  have hd := digits_decimal n
  obtain ⟨b, bs, heq⟩ := List.exists_cons_of_ne_nil (Framing.decimal_ne_nil n)
  have hb := Framing.digit_of_mem_decimal (heq ▸ List.mem_cons_self : b ∈ decimal n)
  rw [heq] at hd ⊢
  unfold atoi
  split
  · rename_i hbs
    cases hbs
    exact absurd hb.1 (by decide)
  · rename_i hbs
    cases hbs
    exact absurd hb.1 (by decide)
  · rw [hd]
    exact if_pos h

theorem solid_of_lower (h : Solid (lower b)) : Solid b := by
  unfold lower at h
  split at h
  · rename_i hup
    simp only [UInt8.le_iff_toNat_le] at hup
    have h₁ : 65 ≤ b.toNat := hup.1
    have h₂ : b.toNat ≤ 90 := hup.2
    exact ⟨by omega, by omega⟩
  · exact h

/-- The name is not trimmed, whatever its case. -/
theorem trimSpace_contentLength {name : Bytes} (h : isContentLength name = true) :
    trimSpace name = name ∧ 58 ∉ name ∧ 10 ∉ name := by
  have hmap : name.map lower = ascii "content-length".toList := beq_iff_eq.mp h
  have hout {b : UInt8} (hb : lower b ∉ ascii "content-length".toList) : b ∉ name := fun hin =>
    hb (hmap ▸ List.mem_map_of_mem hin)
  refine ⟨?_, hout (by decide), hout (by decide)⟩
  have hhead : (name.map lower).head? = some 99 := by rw [hmap]; rfl
  have hlast : (name.map lower).getLast? = some 104 := by rw [hmap]; rfl
  rw [List.head?_map, Option.map_eq_some_iff] at hhead
  rw [List.getLast?_map, Option.map_eq_some_iff] at hlast
  obtain ⟨b, hb, hlb⟩ := hhead
  obtain ⟨c, hc, hlc⟩ := hlast
  have hsb : Solid b := solid_of_lower (hlb ▸ by decide)
  have hsc : Solid c := solid_of_lower (hlc ▸ by decide)
  have htrim := trimSpace_blank (show Blank [] from nofun) (show Blank [] from nofun) hb hsb hc hsc
  rwa [List.nil_append, List.append_nil] at htrim

end Trim

/-! ## §6. Frames are read as they are -/

namespace Frame

variable (f : Frame) {cl : Int} {rest : Bytes}

theorem header_lengthLine : header (trimNewline f.lengthLine) = .ok (some f.body.length) := by
  obtain ⟨hname, hcolon, -⟩ := trimSpace_contentLength f.contentLength
  have hsolid {b : UInt8} (hb : b ∈ decimal f.body.length) : Solid b := by
    have hdigit := Framing.digit_of_mem_decimal hb
    exact ⟨hdigit.1, by omega⟩
  obtain ⟨b, bs, hfirst⟩ := List.exists_cons_of_ne_nil (Framing.decimal_ne_nil f.body.length)
  obtain ⟨c, hlast⟩ := Option.isSome_iff_exists.mp
    (List.getLast?_isSome.mpr (Framing.decimal_ne_nil f.body.length))
  have hc := hsolid (List.mem_of_getLast? hlast)
  have hline : f.lengthLine = f.name ++ 58 :: (f.pad ++ decimal f.body.length) ++ f.pad' := by
    simp [lengthLine]
  have hend : (f.name ++ 58 :: (f.pad ++ decimal f.body.length)).getLast? = some c := by
    simp [List.getLast?_append, List.getLast?_cons, hlast]
  have hpad' : Blank (trimNewline f.pad') := fun b hb =>
    f.blank.2 b ((List.rdropWhile_prefix _ _).subset hb)
  have h13 : c ≠ 13 := by rintro rfl; exact absurd hc (by decide)
  have h10 : c ≠ 10 := by rintro rfl; exact absurd hc (by decide)
  rw [hline, trimNewline_append hend h13 h10, List.append_assoc, List.cons_append, header,
    cut_append hcolon]
  simp only [hname, f.contentLength, if_true]
  rw [trimSpace_blank f.blank.1 hpad' (hfirst ▸ rfl) (hsolid (hfirst ▸ List.mem_cons_self)) hlast hc,
    atoi_decimal f.int]

theorem readHeaders_lengthLine :
    readHeaders cl [] (f.lengthLine ++ 10 :: rest) = readHeaders f.body.length [] rest := by
  obtain ⟨-, hcolon, hnewline⟩ := trimSpace_contentLength f.contentLength
  have hpad {bs : Bytes} (h : Blank bs) : 10 ∉ bs := fun hin => by
    rcases h 10 hin with h | h | h <;> cases h
  have hdigit : 10 ∉ decimal f.body.length := fun hin =>
    absurd (Framing.digit_of_mem_decimal hin).1 (by decide)
  have hline : 10 ∉ f.lengthLine := by
    simp [lengthLine, hnewline, hpad f.blank.1, hpad f.blank.2, hdigit]
  exact readHeaders_text hline (b := 58) (by simp [lengthLine]) (by decide) f.header_lengthLine

theorem readHeaders_bytes :
    readHeaders (-1) [] (f.bytes ++ rest) = .ok (f.body.length, f.body ++ rest) := by
  have hbefore : ∀ line ∈ f.before, Extra line := fun l hl => f.extra l (List.mem_append_left _ hl)
  have hafter : ∀ line ∈ f.after, Extra line := fun l hl => f.extra l (List.mem_append_right _ hl)
  simp only [bytes, List.flatMap_append, List.flatMap_cons, List.append_assoc, List.cons_append,
    List.nil_append]
  rw [readHeaders_extras hbefore, f.readHeaders_lengthLine, readHeaders_extras hafter,
    readHeaders_empty f.empty]

/-- What reading the frame gives: the message, or the error of the codec. -/
def read (decode : Bytes → Except String (Message J)) : Except ReadError (Message J) :=
  (decode f.body).mapError .parse

/-- **A frame is read as its body, and no further.** -/
theorem readMessage_frame (decode : Bytes → Except String (Message J)) (rest : Bytes) :
    readMessage decode (f.bytes ++ rest) = (f.read decode, rest) := by
  unfold readMessage
  rw [f.readHeaders_bytes]
  simp only [Int.toNat_natCast, List.length_append, List.take_left, List.drop_left, read]
  rw [if_neg (Int.not_lt.mpr (Int.natCast_nonneg _)), if_neg (by omega)]
  cases decode f.body <;> rfl

end Frame

end Giri.Lsp
