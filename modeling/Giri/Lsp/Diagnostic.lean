/-
Giri.Lsp.Diagnostic — findings become diagnostics, and diagnostics reach the
client (`lsp/diagnostic.go`, `lsp/server.go`).

The server tells the client about files by URI, one notification for each
file, and a notification replaces what the client held for it. An analysis
publishes the files that have findings, clears those that had some before,
and remembers the first. The loops run over maps, in any order (`Host`).

What the client holds is the replay of ALL notifications (`replay`). It is
what the last good analysis found as long as different files have different
URIs, and absolute paths do (`pathToURI_inj`). The files of findings are those
of a FileSet, whose names are absolute (`AbsoluteFiles`).

The encoding of `net/url` is a parameter, with the law that a file URL is
parsed back. `filepath.ToSlash` and `FromSlash` do nothing on POSIX hosts.
`uriToPath` drops the slash before a drive letter on every host, so a path
such as `/a:b` does not come back.
-/
import Giri.Lib.HostMap
import Giri.Report.Findings

namespace Giri.Lsp

open Framing (ascii)
open Reporting (Finding Severity parseLocation)
open HostMap (Host)

/-! ## §1. URIs -/

/-- `url.URL`, as far as it is used. -/
structure URL where
  scheme : String
  path : Bytes
  deriving DecidableEq

/-- `net/url`. -/
structure NetURL where
  string : URL → Bytes
  parse : Bytes → Option URL
  /-- A file URL is parsed back. -/
  parse_string : ∀ path, parse (string ⟨"file", 47 :: path⟩) = some ⟨"file", 47 :: path⟩

/-- `strings.TrimPrefix(path, "/")`. -/
def trimSlash : Bytes → Bytes
  | 47 :: path => path
  | path => path

/-- `pathToURI`. -/
def pathToURI (net : NetURL) (path : Bytes) : Bytes := net.string ⟨"file", 47 :: trimSlash path⟩

/-- The slash before a drive letter is dropped. -/
def dropDriveSlash : Bytes → Bytes
  | 47 :: drive :: 58 :: path => drive :: 58 :: path
  | path => path

/-- `uriToPath`. -/
def uriToPath (net : NetURL) (uri : Bytes) : Bytes :=
  match net.parse uri with
  | none => []
  | some u => if u.scheme = "file" then dropDriveSlash u.path else []

def Absolute (path : Bytes) : Prop := path.head? = some 47

/-- What `uriToPath` takes for a path with a drive letter. -/
def DriveLike (path : Bytes) : Prop := ∃ drive rest, path = 47 :: drive :: 58 :: rest

theorem Absolute.exists_cons {path : Bytes} (h : Absolute path) : ∃ rest, path = 47 :: rest := by
  cases path with
  | nil => cases h
  | cons b rest =>
    cases h
    exact ⟨rest, rfl⟩

theorem pathToURI_inj {net : NetURL} {p q : Bytes} (hp : Absolute p) (hq : Absolute q)
    (h : pathToURI net p = pathToURI net q) : p = q := by
  obtain ⟨p, rfl⟩ := hp.exists_cons
  obtain ⟨q, rfl⟩ := hq.exists_cons
  have hparse := congrArg net.parse h
  simpa [pathToURI, trimSlash, net.parse_string] using hparse

theorem uriToPath_pathToURI (net : NetURL) {path : Bytes} (h : Absolute path) :
    uriToPath net (pathToURI net path) = dropDriveSlash path := by
  obtain ⟨rest, rfl⟩ := h.exists_cons
  simp [uriToPath, pathToURI, trimSlash, net.parse_string]

/-- **Paths come back from their URIs unless they look like one with a drive
letter, and no two paths have one URI.** -/
theorem uris_round_trip (net : NetURL) (path : Bytes) (h : Absolute path) :
    (uriToPath net (pathToURI net path) = path ↔ ¬ DriveLike path) ∧
    ∀ path', Absolute path' → pathToURI net path = pathToURI net path' → path = path' := by
  refine ⟨?_, fun path' h' => pathToURI_inj h h'⟩
  rw [uriToPath_pathToURI net h, dropDriveSlash.eq_def]
  split
  · rename_i drive rest
    refine ⟨fun heq => absurd (congrArg List.length heq) (by simp), fun hno => ?_⟩
    exact absurd ⟨drive, rest, rfl⟩ hno
  · rename_i hno
    exact ⟨fun _ ⟨drive, rest, heq⟩ => hno drive rest heq, fun _ => rfl⟩

/-- The bytes of a path that `URL.String` leaves as they are. -/
def unescaped (b : UInt8) : Bool :=
  (65 ≤ b && b ≤ 90) || (97 ≤ b && b ≤ 122) || isDigit b ||
    (ascii "-_.~$&+,/:;=@".toList).contains b

/-- A hexadecimal digit, and back. -/
def hexDigit (d : Nat) : UInt8 := UInt8.ofNat (if d < 10 then 48 + d else 55 + d)

def unhex (b : UInt8) : Nat := if b.toNat < 58 then b.toNat - 48 else b.toNat - 55

def escape (path : Bytes) : Bytes := path.flatMap fun b =>
  if unescaped b then [b] else [37, hexDigit (b.toNat / 16), hexDigit (b.toNat % 16)]

def unescape : Bytes → Bytes
  | 37 :: hi :: lo :: rest => UInt8.ofNat (unhex hi * 16 + unhex lo) :: unescape rest
  | b :: rest => b :: unescape rest
  | [] => []

theorem unescape_escape (path : Bytes) : unescape (escape path) = path := by
  have hhex : ∀ d < 16, unhex (hexDigit d) = d := by decide
  induction path with
  | nil => rfl
  | cons b path ih =>
    have hcons : escape (b :: path) = (if unescaped b then [b] else
        [37, hexDigit (b.toNat / 16), hexDigit (b.toNat % 16)]) ++ escape path := rfl
    rw [hcons]
    split
    · rename_i hb
      have hne : b ≠ 37 := by
        rintro rfl
        cases hb
      rw [List.singleton_append, unescape, ih]
      exact fun _ _ _ heq => absurd heq hne
    · have hlt := b.toNat_lt
      simp only [List.cons_append, List.nil_append, unescape, ih]
      rw [hhex _ (by omega), hhex _ (by omega), Nat.div_add_mod', UInt8.ofNat_toNat]

/-- A codec that escapes as `net/url` does. -/
def NetURL.escaped : NetURL where
  string u := ascii "file://".toList ++ escape u.path
  parse s :=
    if (ascii "file://".toList).isPrefixOf s then some ⟨"file", unescape (s.drop 7)⟩ else none
  parse_string path := by
    rw [if_pos (List.isPrefixOf_iff_prefix.mpr (List.prefix_append _ _))]
    exact congrArg (fun p => some (URL.mk "file" p)) (unescape_escape _)

theorem uris_round_trip_escaped :
    let path := ascii "/a b%20//c:d".toList
    pathToURI .escaped path = ascii "file:///a%20b%2520//c:d".toList ∧
      uriToPath .escaped (pathToURI .escaped path) = path := by
  refine ⟨by decide, (uris_round_trip .escaped (ascii "/a b%20//c:d".toList) rfl).1.mpr ?_⟩
  rintro ⟨drive, rest, heq⟩
  cases heq

/-- **The file `c:x` in the root directory**: its path comes back without the
slash, and no encoding of URIs helps. -/
theorem drive_slash_dropped :
    uriToPath .escaped (pathToURI .escaped (ascii "/c:x".toList)) = ascii "c:x".toList ∧
    ¬ ∃ net : NetURL, uriToPath net (pathToURI net (ascii "/c:x".toList)) =
      ascii "/c:x".toList := by
  refine ⟨uriToPath_pathToURI .escaped rfl, ?_⟩
  rintro ⟨net, hnet⟩
  have hdropped : uriToPath net (pathToURI net (ascii "/c:x".toList)) = _ :=
    uriToPath_pathToURI net rfl
  exact absurd (hdropped.symm.trans hnet) (by decide)

/-! ## §2. Diagnostics -/

/-- `Diagnostic`, with its range on one line. Its source is always giri. -/
structure Diagnostic where
  line : Int
  startChar : Int
  endChar : Int
  severity : Nat
  code : Bytes
  message : Bytes
  deriving DecidableEq, Repr

/-- `severityFor`. -/
def severityFor : Severity → Nat
  | .error => 1
  | .warning => 2
  | _ => 3

/-- `findingToDiagnostic`. -/
def findingToDiagnostic (f : Finding) : Option (Bytes × Diagnostic) :=
  let (file, line, col) := parseLocation f.location
  if file = [] ∨ line ≤ 0 then none
  else some (file, {
    line := line - 1
    startChar := if 0 < col then col - 1 else 0
    endChar := if 0 < col then col - 1 else 2 ^ 20
    severity := severityFor f.severity
    code := f.category
    message := if f.hint = [] then f.message
      else f.message ++ ascii "\n\nhint: ".toList ++ f.hint })

/-- A map from files to diagnostics. -/
abbrev ByFile : Type := AList fun _ : Bytes => List Diagnostic

/-- `add`, for one finding. -/
def addFinding (byFile : ByFile) (f : Finding) : ByFile :=
  match findingToDiagnostic f with
  | none => byFile
  | some (path, d) => byFile.insert path ((byFile.lookup path).getD [] ++ [d])

/-- What `runAnalysis` returns for its active findings. -/
def byFile (findings : List Finding) : ByFile := findings.foldl addFinding ∅

/-- The diagnostics of one file. -/
def diagnosticsOf (findings : List Finding) (path : Bytes) : List Diagnostic :=
  findings.filterMap fun f => (findingToDiagnostic f).bind fun e =>
    if e.1 = path then some e.2 else none

/-! ## §3. Publishing -/

/-- `PublishDiagnosticsParams`. -/
structure Published where
  uri : Bytes
  diagnostics : List Diagnostic
  deriving DecidableEq

/-- `publish`. -/
def publish (net : NetURL) (path : Bytes) (diags : List Diagnostic) : Published :=
  ⟨pathToURI net path, diags⟩

/-- `analyze`: the published set, and the notifications. A failed analysis
has no findings to return. -/
def analyze (net : NetURL) (published : List Bytes) (host : Host) :
    Option (List Finding) → List Bytes × List Published
  | none => (published, [])
  | some findings =>
    let diags := byFile findings
    let cleared := (host.order 1 published).filter fun path => path ∉ diags
    (diags.keys, (host.order 0 diags.entries).map (fun e => publish net e.1 e.2) ++
      cleared.map fun path => publish net path [])

/-- One analysis after the other. -/
def analyzeAll (net : NetURL) (published : List Bytes) :
    List (Host × Option (List Finding)) → List Bytes × List Published
  | [] => (published, [])
  | (host, result) :: runs =>
    let (published, sent) := analyze net published host result
    let (published, later) := analyzeAll net published runs
    (published, sent ++ later)

/-- A client: a notification replaces what it holds for the file. -/
def replay (held : Bytes → List Diagnostic) (sent : List Published) : Bytes → List Diagnostic :=
  sent.foldl (fun held n => Function.update held n.uri n.diagnostics) held

/-- The findings of the last analysis that did not fail. -/
def lastGood (runs : List (Host × Option (List Finding))) : List Finding :=
  ((runs.filterMap Prod.snd).getLast?).getD []

/-- The files of the findings are absolute paths. -/
def AbsoluteFiles (findings : List Finding) : Prop :=
  ∀ f ∈ findings, ∀ e, findingToDiagnostic f = some e → Absolute e.1

/-! ## §4. The client mirrors the last good analysis -/

theorem lookup_byFile (findings : List Finding) (path : Bytes) :
    ((byFile findings).lookup path).getD [] = diagnosticsOf findings path ∧
      (path ∈ byFile findings ↔ diagnosticsOf findings path ≠ []) := by
  induction findings using List.reverseRecOn with
  | nil => exact ⟨rfl, by simp [byFile, diagnosticsOf]⟩
  | append_singleton findings f ih =>
    have hadd : byFile (findings ++ [f]) = addFinding (byFile findings) f := by
      simp [byFile]
    have hsnoc : diagnosticsOf (findings ++ [f]) path =
        diagnosticsOf findings path ++ diagnosticsOf [f] path := List.filterMap_append
    rw [hadd, hsnoc, addFinding]
    cases hf : findingToDiagnostic f with
    | none => simpa [diagnosticsOf, hf] using ih
    | some e =>
      obtain ⟨q, d⟩ := e
      have hone : diagnosticsOf [f] path = if q = path then [d] else [] := by
        simp only [diagnosticsOf, List.filterMap_cons, hf, Option.bind_some, List.filterMap_nil]
        split <;> simp_all
      by_cases hq : q = path
      · subst hq
        simp [hone, ih.1]
      · simpa [hone, hq, Ne.symm hq, AList.lookup_insert_ne] using ih

/-- A file with diagnostics is the file of a finding. -/
theorem AbsoluteFiles.absolute {findings : List Finding} {path : Bytes} (h : AbsoluteFiles findings)
    (hne : diagnosticsOf findings path ≠ []) : Absolute path := by
  obtain ⟨d, hd⟩ := List.exists_mem_of_ne_nil _ hne
  obtain ⟨f, hf, hbind⟩ := List.mem_filterMap.mp hd
  obtain ⟨e, he, hpath⟩ := Option.bind_eq_some_iff.mp hbind
  split at hpath
  · rename_i heq
    exact heq ▸ h f hf e he
  · cases hpath

/-- What the client holds for a file after notifications that all say the
same about it. -/
theorem replay_eq {uri : Bytes} {diags : List Diagnostic} : ∀ {sent : List Published}
    {held : Bytes → List Diagnostic}, (∀ n ∈ sent, n.uri = uri → n.diagnostics = diags) →
      (∃ n ∈ sent, n.uri = uri) ∨ held uri = diags → replay held sent uri = diags := by
  intro sent
  induction sent with
  | nil =>
    intro held _ h
    exact h.resolve_left (by simp)
  | cons n sent ih =>
    intro held hall h
    refine ih (fun n' hn' => hall n' (List.mem_cons_of_mem _ hn')) ?_
    by_cases hn : n.uri = uri
    · right
      subst hn
      exact (Function.update_self ..).trans (hall n List.mem_cons_self rfl)
    · refine h.imp ?_ (Function.update_of_ne (Ne.symm hn) _ _).trans
      rintro ⟨n', hn', heq⟩
      rcases List.mem_cons.mp hn' with rfl | hn'
      · exact absurd heq hn
      · exact ⟨n', hn', heq⟩

/-- The client and the server, when `findings` are the last good ones. -/
structure Mirrors (net : NetURL) (held : Bytes → List Diagnostic) (published : List Bytes)
    (findings : List Finding) : Prop where
  absolute : AbsoluteFiles findings
  held : ∀ path, Absolute path → held (pathToURI net path) = diagnosticsOf findings path
  published : ∀ path, path ∈ published ↔ diagnosticsOf findings path ≠ []

variable {net : NetURL} {held : Bytes → List Diagnostic} {published : List Bytes}
  {findings new : List Finding}

/-- A good analysis: every file is told about once, or nothing changes for
it. -/
theorem Mirrors.analyze (h : Mirrors net held published findings) (hnew : AbsoluteFiles new)
    (host : Host) :
    Mirrors net (replay held (analyze net published host (some new)).2)
      (analyze net published host (some new)).1 new := by
  have hmem : ∀ path, path ∈ byFile new ↔ diagnosticsOf new path ≠ [] := fun path =>
    (lookup_byFile new path).2
  refine ⟨hnew, fun path hpath => replay_eq ?_ ?_, hmem⟩
  · intro n hn huri
    rcases List.mem_append.mp hn with hn | hn
    · obtain ⟨e, he, rfl⟩ := List.mem_map.mp hn
      have he := (host.perm 0 _).mem_iff.mp he
      have hlook : (byFile new).lookup e.1 = some e.2 := AList.mem_lookup_iff.mpr he
      have hne := (hmem e.1).mp (AList.lookup_isSome.mp (hlook ▸ rfl))
      have heq : e.1 = path := pathToURI_inj (hnew.absolute hne) hpath huri
      rw [← heq, ← (lookup_byFile new e.1).1, hlook]
      rfl
    · obtain ⟨q, hq, rfl⟩ := List.mem_map.mp hn
      obtain ⟨hq, hclear⟩ := List.mem_filter.mp hq
      have hold := (h.published q).mp ((host.perm 1 _).mem_iff.mp hq)
      have heq : q = path := pathToURI_inj (h.absolute.absolute hold) hpath huri
      have hnone := mt (hmem q).mpr (of_decide_eq_true hclear)
      exact heq ▸ (not_not.mp hnone).symm
  · by_cases hin : path ∈ byFile new
    · -- published
      left
      obtain ⟨diags, hlook⟩ := Option.isSome_iff_exists.mp (AList.lookup_isSome.mpr hin)
      refine ⟨publish net path diags, List.mem_append_left _ (List.mem_map.mpr ⟨⟨path, diags⟩, ?_, rfl⟩), rfl⟩
      exact (host.perm 0 _).mem_iff.mpr (AList.mem_lookup_iff.mp hlook)
    · by_cases hold : path ∈ published
      · -- cleared
        left
        refine ⟨publish net path [], List.mem_append_right _ (List.mem_map.mpr ⟨path, ?_, rfl⟩), rfl⟩
        exact List.mem_filter.mpr ⟨(host.perm 1 _).mem_iff.mpr hold, decide_eq_true hin⟩
      · right
        rw [h.held path hpath, not_not.mp (mt (h.published path).mpr hold),
          not_not.mp (mt (hmem path).mpr hin)]

theorem replay_append (held : Bytes → List Diagnostic) (sent later : List Published) :
    replay held (sent ++ later) = replay (replay held sent) later :=
  List.foldl_append

/-- Any sequence of analyses, from any state. -/
theorem Mirrors.analyzeAll (runs : List (Host × Option (List Finding))) :
    ∀ {held : Bytes → List Diagnostic} {published : List Bytes} {findings : List Finding},
      Mirrors net held published findings →
      (∀ run ∈ runs, ∀ new, run.2 = some new → AbsoluteFiles new) →
      Mirrors net (replay held (analyzeAll net published runs).2) (analyzeAll net published runs).1
        ((runs.filterMap Prod.snd).getLast?.getD findings) := by
  induction runs with
  | nil => exact fun h _ => h
  | cons run runs ih =>
    obtain ⟨host, result⟩ := run
    intro held published findings h hall
    have htail := fun run hrun => hall run (List.mem_cons_of_mem _ hrun)
    simp only [Lsp.analyzeAll, replay_append]
    cases result with
    | none => exact ih h htail
    | some new =>
      have hnew := hall _ List.mem_cons_self new rfl
      simpa [List.getLast?_cons] using ih (h.analyze hnew host) htail

/-- **The client holds what the last good analysis found, and the server
remembers which files have something.** A failed analysis changes nothing. -/
theorem diagnostics_mirror (net : NetURL) (runs : List (Host × Option (List Finding)))
    (h : ∀ run ∈ runs, ∀ findings, run.2 = some findings → AbsoluteFiles findings) :
    (∀ path,
      let held := replay (fun _ => []) (analyzeAll net [] runs).2
      (Absolute path → held (pathToURI net path) = diagnosticsOf (lastGood runs) path) ∧
      (path ∈ (analyzeAll net [] runs).1 ↔
        Absolute path ∧ held (pathToURI net path) ≠ [])) ∧
    ∀ (published : List Bytes) (host : Host), analyze net published host none = (published, []) := by
  have hstart : Mirrors net (fun _ => []) [] [] :=
    ⟨fun _ hf => absurd hf List.not_mem_nil, fun _ _ => rfl, fun _ => by simp [diagnosticsOf]⟩
  have hmirror := hstart.analyzeAll runs h
  refine ⟨fun path => ⟨hmirror.held path, ?_⟩, fun _ _ => rfl⟩
  rw [hmirror.published path]
  constructor
  · intro hne
    have hpath := hmirror.absolute.absolute hne
    exact ⟨hpath, by rw [hmirror.held path hpath]; exact hne⟩
  · rintro ⟨hpath, hne⟩
    rwa [hmirror.held path hpath] at hne

/-- A finding at line 1 of a file. -/
def findingAt (file : Bytes) (message : Bytes) : Finding :=
  { severity := .error, category := [], message, location := file ++ ascii ":1".toList }

/-- A finding, and then a failed analysis. -/
theorem diagnostics_mirror_failed :
    let runs := [(Host.listed, some [findingAt (ascii "/a".toList) [120]]), (Host.listed, none)]
    (replay (fun _ => []) (analyzeAll .escaped [] runs).2 (pathToURI .escaped (ascii "/a".toList))).length
      = 1 := by
  intro runs
  have hmirror := (diagnostics_mirror .escaped runs (by
    intro run hrun findings hfindings f hf e he
    rcases List.mem_pair.mp hrun with rfl | rfl
    · cases hfindings
      cases List.mem_singleton.mp hf
      cases he
      rfl
    · cases hfindings)).1 (ascii "/a".toList)
  rw [hmirror.1 rfl]
  rfl

end Giri.Lsp
