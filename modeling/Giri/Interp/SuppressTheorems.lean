/-
Giri.Interp.SuppressTheorems — which violations a directive suppresses.

Each directive writes two keys of one map, and a later directive OVERWRITES
what an earlier one wrote: of two directives on adjacent lines the second
one alone decides about its own line (`directive_overwritten`). If
directives that share a line agree, and each violation is recorded while
`currentSite` is still the site of the instruction that is executed, then a
violation is suppressed iff a directive on its line or the line above covers
it (`suppression_exact`).
-/
import Giri.Interp.Suppress
import Giri.Lib.Framing

namespace Giri.Suppress

/-! ## §1. Keys -/

theorem toList_siteKey (filename : String) (line : Nat) :
    (siteKey filename line).toList = filename.toList ++ ':' :: Nat.toDigits 10 line := by
  simp [siteKey]

/-- A key determines file and line: the last colon separates them. -/
theorem siteKey_inj {f f' : String} {l l' : Nat} (h : siteKey f l = siteKey f' l') :
    f = f' ∧ l = l' := by
  have hcolon : ∀ n, ':' ∉ (Nat.toDigits 10 n).reverse := by
    intro n hmem
    have hdigit := Nat.isDigit_of_mem_toDigits (by decide) (by decide) (List.mem_reverse.mp hmem)
    exact absurd hdigit (by decide)
  have hchars := congrArg (List.reverse ∘ String.toList) h
  simp only [Function.comp_apply, toList_siteKey, List.reverse_append, List.reverse_cons,
    List.append_assoc, List.cons_append, List.nil_append] at hchars
  obtain ⟨hdigits, hname⟩ := Framing.cut_inj (hcolon l) (hcolon l') hchars
  refine ⟨String.toList_injective (List.reverse_injective hname), ?_⟩
  have hvalue := congrArg (fun cs => Nat.ofDigitChars 10 cs 0) (List.reverse_injective hdigits)
  simpa using hvalue

theorem siteKey_ne_unknown (f : String) (l : Nat) : siteKey f l ≠ "<unknown>" := by
  intro h
  have hmem : ':' ∈ (siteKey f l).toList := by simp [toList_siteKey]
  rw [h] at hmem
  exact absurd hmem (by decide)

/-! ## §2. The map -/

/-- The comment is a directive with the categories `cats`, on the line of
`p` or on the line above. -/
def Comment.Above (c : Comment) (cats : List String) (p : Position) : Prop :=
  c.cats = some cats ∧ c.pos.filename = p.filename ∧
    (c.pos.line = p.line ∨ c.pos.line + 1 = p.line)

/-- A directive with these categories covers the category `cat`. -/
def Lists (cats : List String) (cat : String) : Prop :=
  cats = [] ∨ cat ∈ cats

theorem lookup_addComment_of_above {seen : Suppressions} {c : Comment} {p : Position}
    {cats : List String} (h : c.Above cats p) :
    (addComment seen c).lookup (posString (some p)) = some cats := by
  obtain ⟨hcats, hfile, hline⟩ := h
  unfold addComment posString
  rw [hcats, hfile]
  dsimp only
  by_cases hnext : c.pos.line + 1 = p.line
  · rw [hnext, AList.lookup_insert]
  · have hsame : c.pos.line = p.line := hline.resolve_right hnext
    rw [AList.lookup_insert_ne, hsame, AList.lookup_insert]
    intro hkey
    exact hnext (siteKey_inj hkey).2.symm

theorem lookup_addComment_of_not_above {seen : Suppressions} {c : Comment} {p : Position}
    (h : ∀ cats, ¬ c.Above cats p) :
    (addComment seen c).lookup (posString (some p)) = seen.lookup (posString (some p)) := by
  unfold addComment
  cases hcats : c.cats with
  | none => rfl
  | some cats =>
    have hkey : ∀ l, (c.pos.line = l ∨ c.pos.line + 1 = l) →
        posString (some p) ≠ siteKey c.pos.filename l := by
      intro l hl heq
      obtain ⟨hfile, hline⟩ := siteKey_inj heq
      exact h cats ⟨hcats, hfile.symm, hline ▸ hl⟩
    dsimp only
    rw [AList.lookup_insert_ne (hkey _ (.inr rfl)), AList.lookup_insert_ne (hkey _ (.inl rfl))]

/-- What is found at a line comes from a directive there or above. -/
theorem exists_above_of_lookup {p : Position} {cats : List String} : ∀ {comments : List Comment}
    {seen : Suppressions}, (comments.foldl addComment seen).lookup (posString (some p)) = some cats →
      seen.lookup (posString (some p)) = some cats ∨ ∃ c ∈ comments, c.Above cats p := by
  intro comments
  induction comments with
  | nil =>
    intro seen h
    exact .inl h
  | cons c comments ih =>
    intro seen h
    rcases ih h with hseen | ⟨c', hc', habove⟩
    · by_cases hc : ∃ cats', c.Above cats' p
      · obtain ⟨cats', habove⟩ := hc
        rw [lookup_addComment_of_above habove] at hseen
        cases hseen
        exact .inr ⟨c, List.mem_cons_self, habove⟩
      · rw [lookup_addComment_of_not_above (fun cats' h => hc ⟨cats', h⟩)] at hseen
        exact .inl hseen
    · exact .inr ⟨c', List.mem_cons_of_mem _ hc', habove⟩

/-- Where there is a directive on the line or above, something is found. -/
theorem lookup_isSome_of_above {p : Position} : ∀ {comments : List Comment} {seen : Suppressions},
    ((seen.lookup (posString (some p))).isSome ∨ ∃ c ∈ comments, ∃ cats, c.Above cats p) →
      ((comments.foldl addComment seen).lookup (posString (some p))).isSome := by
  intro comments
  induction comments with
  | nil =>
    intro seen h
    rcases h with h | ⟨c, hc, -⟩
    · exact h
    · cases hc
  | cons c comments ih =>
    intro seen h
    refine ih ?_
    by_cases hc : ∃ cats, c.Above cats p
    · obtain ⟨cats, habove⟩ := hc
      rw [lookup_addComment_of_above habove]
      exact .inl rfl
    · rcases h with h | ⟨c', hc', habove⟩
      · rw [lookup_addComment_of_not_above (fun cats h => hc ⟨cats, h⟩)]
        exact .inl h
      · rcases List.mem_cons.mp hc' with rfl | hc'
        · exact absurd habove hc
        · exact .inr ⟨c', hc', habove⟩

/-- No directive is at the place of an instruction without a position. -/
theorem lookup_unknown : ∀ {comments : List Comment} {seen : Suppressions},
    seen.lookup (posString none) = none →
      (comments.foldl addComment seen).lookup (posString none) = none := by
  intro comments
  induction comments with
  | nil => exact fun h => h
  | cons c comments ih =>
    intro seen h
    refine ih ?_
    unfold addComment
    split
    · exact h
    · have hkey : ∀ f l, posString none ≠ siteKey f l := fun f l => (siteKey_ne_unknown f l).symm
      rw [AList.lookup_insert_ne (hkey _ _), AList.lookup_insert_ne (hkey _ _)]
      exact h

/-! ## §3. Suppression -/

/-- A directive on the line of the instruction, or on the line above, covers
the category. -/
def Covered (comments : List Comment) (pos : Option Position) (cat : String) : Prop :=
  ∃ p, pos = some p ∧ ∃ c ∈ comments, ∃ cats, c.Above cats p ∧ Lists cats cat

/-- Directives on the same line of a file, or on adjacent lines, cover the
same categories. -/
def Agreeing (comments : List Comment) : Prop :=
  ∀ c ∈ comments, ∀ c' ∈ comments, ∀ cats cats', c.cats = some cats → c'.cats = some cats' →
    c.pos.filename = c'.pos.filename →
    c.pos.line ≤ c'.pos.line + 1 → c'.pos.line ≤ c.pos.line + 1 →
      ∀ cat, Lists cats cat → Lists cats' cat

theorem posString_ne_empty (pos : Option Position) : posString pos ≠ "" := by
  cases pos with
  | none => decide
  | some p =>
    intro h
    have hmem : ':' ∈ (siteKey p.filename p.line).toList := by simp [toList_siteKey]
    rw [show siteKey p.filename p.line = "" from h] at hmem
    cases hmem

/-- The check finds categories that cover the error's. -/
theorem suppresses_iff_lookup {s : Interpreter} (hsite : s.currentSite ≠ "") (err : Err) :
    s.suppresses err = true ↔
      ∃ cats, s.suppressions.lookup s.currentSite = some cats ∧ Lists cats (categoryOf err) := by
  unfold Interpreter.suppresses
  by_cases hlen : s.suppressions.entries.length > 0
  · rw [if_pos ⟨hsite, hlen⟩]
    cases s.suppressions.lookup s.currentSite with
    | none => simp
    | some => simp [Lists]
  · have hempty : s.suppressions = ∅ := by
      refine AList.ext ?_
      exact List.eq_nil_of_length_eq_zero (by omega)
    simp [hempty]

/-- The check, at an instruction whose site is current. -/
theorem suppresses_iff {comments : List Comment} (hagree : Agreeing comments) {s : Interpreter}
    (hmap : s.suppressions = parseSuppressions comments) {pos : Option Position}
    (hsite : s.currentSite = posString pos) (err : Err) :
    s.suppresses err = true ↔ Covered comments pos (categoryOf err) := by
  rw [suppresses_iff_lookup (hsite ▸ posString_ne_empty pos), hmap, hsite]
  cases pos with
  | none =>
    have hnone : (parseSuppressions comments).lookup (posString none) = none :=
      lookup_unknown (AList.lookup_empty _)
    rw [hnone]
    constructor
    · rintro ⟨cats, hcats, -⟩
      cases hcats
    · rintro ⟨p, hp, -⟩
      cases hp
  | some p =>
    constructor
    · rintro ⟨cats, hcats, hlists⟩
      rcases exists_above_of_lookup hcats with hempty | ⟨c, hc, habove⟩
      · rw [AList.lookup_empty] at hempty
        cases hempty
      · exact ⟨p, rfl, c, hc, cats, habove, hlists⟩
    · rintro ⟨p', hp, c, hc, cats, habove, hlists⟩
      cases hp
      have hsome : ((parseSuppressions comments).lookup (posString (some p))).isSome :=
        lookup_isSome_of_above (.inr ⟨c, hc, cats, habove⟩)
      obtain ⟨cats', hcats'⟩ := Option.isSome_iff_exists.mp hsome
      refine ⟨cats', hcats', ?_⟩
      rcases exists_above_of_lookup hcats' with hempty | ⟨c', hc', habove'⟩
      · rw [AList.lookup_empty] at hempty
        cases hempty
      · -- both directives are on the line or the line above
        obtain ⟨hcats, hfile, hline⟩ := habove
        obtain ⟨hcats', hfile', hline'⟩ := habove'
        exact hagree c hc c' hc' cats cats' hcats hcats' (hfile.trans hfile'.symm)
          (by omega) (by omega) _ hlists

/-! ## §4. Runs -/

/-- What is asked of an event: a violation is recorded while no instruction
is executed, or while `currentSite` is still the one of the innermost
instruction, no other instruction having been executed since it began. The
step limit is not exceeded. -/
def Tracked (r : Run) : Event → Prop
  | .record gid _ =>
    r.interp.aborted gid = true ∨ r.executing r.running = [] ∨ r.current r.running = true
  | .limit _ => False
  | _ => True

/-- Each recorded violation is in one of the two lists, in order. -/
structure Split (r : Run) : Prop where
  suppressed : r.interp.suppressedViolations =
    (r.recorded.filter (·.suppressed)).map (·.violation)
  active : r.interp.violations = (r.recorded.filter (!·.suppressed)).map (·.violation)
  count : r.interp.suppressedCount = r.interp.suppressedViolations.length

theorem Split.record {r : Run} (h : Split r) (gid : Gid) (err : Err)
    (instr : Option (Option Position)) : Split (r.record gid err instr) := by
  unfold Run.record Interpreter.recordViolation
  by_cases haborted : r.interp.aborted gid = true
  · simp only [haborted, if_true]
    exact ⟨h.suppressed, h.active, h.count⟩
  · simp only [haborted]
    cases hs : r.interp.suppresses err with
    | true => exact ⟨by simp [h.suppressed], by simp [h.active], by simp [h.count]⟩
    | false => exact ⟨by simp [h.suppressed], by simp [h.active], h.count⟩

theorem Split.step {r : Run} (h : Split r) (e : Event) : Split (r.step e) := by
  cases e with
  | record gid err => exact h.record gid err _
  | limit => exact h.record _ _ _
  | quiesce =>
    unfold Run.step
    dsimp only
    split
    · exact h
    · exact ⟨h.suppressed, h.active, h.count⟩
  | begin | finish | transfer | exit | abort => exact ⟨h.suppressed, h.active, h.count⟩

/-- The site of a goroutine: `currentSite` if it runs, and otherwise what
`block` has kept. -/
def Run.siteOf (r : Run) (g : Gid) : Option String :=
  if g = r.running then some r.interp.currentSite else r.saved g

/-- The site of a goroutine that is `current` is the one of its innermost
instruction, and each violation has gone where it belongs. -/
structure Inv (comments : List Comment) (r : Run) : Prop where
  map : r.interp.suppressions = parseSuppressions comments
  site : ∀ g, r.current g = true →
    ∃ pos rest, r.executing g = pos :: rest ∧ r.siteOf g = some (posString pos)
  exact : ∀ e ∈ r.recorded, ∀ pos, e.instr = some pos →
    (e.suppressed = true ↔ Covered comments pos (categoryOf e.violation.err))

theorem recordViolation_suppressions (s : Interpreter) (gid : Gid) (err : Err) :
    (s.recordViolation gid err).suppressions = s.suppressions := by
  unfold Interpreter.recordViolation
  split
  · rfl
  · split <;> rfl

theorem recordViolation_currentSite (s : Interpreter) (gid : Gid) (err : Err) :
    (s.recordViolation gid err).currentSite = s.currentSite := by
  unfold Interpreter.recordViolation
  split
  · rfl
  · split <;> rfl

section

variable {comments : List Comment} {r t : Run}

/-- Nothing is recorded, and goroutines that stay `current` keep their
instructions and their site. -/
theorem Inv.keep (h : Inv comments r) (hmap : t.interp.suppressions = r.interp.suppressions)
    (hrec : t.recorded = r.recorded)
    (hsite : ∀ g, t.current g = true → r.current g = true ∧ t.executing g = r.executing g ∧
      (∀ s, r.siteOf g = some s → t.siteOf g = some s)) : Inv comments t := by
  refine ⟨hmap.trans h.map, ?_, hrec ▸ h.exact⟩
  intro g hg
  obtain ⟨hg', hexec, hkeep⟩ := hsite g hg
  obtain ⟨pos, rest, hexec', hpos⟩ := h.site g hg'
  exact ⟨pos, rest, hexec.trans hexec', hkeep _ hpos⟩

/-- The baton goes to `next`, who gets its site back. -/
theorem siteOf_wake {next g : Gid} {s : String} (hs : r.saved g = some s) :
    (r.wake next).siteOf g = some s := by
  by_cases hnext : g = next
  · subst hnext
    simp [Run.siteOf, Run.wake, hs]
  · simp [Run.siteOf, Run.wake, hnext, hs]

theorem Inv.begin (h : Inv comments r) (pos : Option Position) :
    Inv comments (r.step (.begin pos)) := by
  refine ⟨h.map, ?_, h.exact⟩
  intro g hg
  by_cases hrun : g = r.running
  · subst hrun
    exact ⟨pos, r.executing r.running, by simp [Run.step], by simp [Run.siteOf, Run.step]⟩
  · have hg' : r.current g = true := by simpa [Run.step, hrun] using hg
    obtain ⟨pos', rest, hexec, hsite⟩ := h.site g hg'
    refine ⟨pos', rest, by simpa [Run.step, hrun] using hexec, ?_⟩
    simpa [Run.siteOf, Run.step, hrun] using hsite

theorem Inv.record (h : Inv comments r) (hagree : Agreeing comments) (gid : Gid) (err : Err)
    (ht : Tracked r (.record gid err)) : Inv comments (r.step (.record gid err)) := by
  refine ⟨?_, ?_, ?_⟩
  · show (r.interp.recordViolation gid err).suppressions = _
    rw [recordViolation_suppressions, h.map]
  · intro g hg
    obtain ⟨pos, rest, hexec, hsite⟩ := h.site g hg
    refine ⟨pos, rest, hexec, ?_⟩
    show (if g = r.running then some (r.interp.recordViolation gid err).currentSite
      else r.saved g) = _
    rw [recordViolation_currentSite]
    exact hsite
  · intro e he pos hpos
    change e ∈ (if r.interp.aborted gid then r.recorded else r.recorded ++
      [⟨r.interp.wrap gid err, (r.executing r.running).head?, r.interp.suppresses err⟩]) at he
    by_cases haborted : r.interp.aborted gid = true
    · rw [if_pos haborted] at he
      exact h.exact e he pos hpos
    · rw [if_neg haborted] at he
      rcases List.mem_append.mp he with he | he
      · exact h.exact e he pos hpos
      · rw [List.mem_singleton.mp he] at hpos ⊢
        have hcurrent : r.current r.running = true := by
          rcases ht with ht | ht | ht
          · exact absurd ht haborted
          · rw [ht] at hpos
            cases hpos
          · exact ht
        obtain ⟨pos', rest, hexec, hsite⟩ := h.site r.running hcurrent
        simp only [Run.siteOf, if_true, Option.some.injEq] at hsite
        rw [hexec] at hpos
        cases hpos
        exact suppresses_iff hagree h.map hsite err

/-- The step lemma. -/
theorem Inv.step (h : Inv comments r) (hagree : Agreeing comments) (e : Event)
    (ht : Tracked r e) : Inv comments (r.step e) := by
  cases e with
  | begin pos => exact h.begin pos
  | record gid err => exact h.record hagree gid err ht
  | limit => exact ht.elim
  | finish =>
    refine h.keep rfl rfl ?_
    intro g hg
    by_cases hrun : g = r.running
    · subst hrun
      simp [Run.step] at hg
    · simp only [Run.step, Function.update_of_ne hrun] at hg ⊢
      exact ⟨hg, trivial, fun s hs => hs⟩
  | transfer =>
    refine h.keep rfl rfl ?_
    intro g hg
    refine ⟨hg, rfl, ?_⟩
    intro s hs
    refine siteOf_wake ?_
    by_cases hrun : g = r.running
    · subst hrun
      simpa [Run.siteOf] using hs
    · simpa [Run.siteOf, hrun] using hs
  | exit =>
    refine h.keep rfl rfl ?_
    intro g hg
    by_cases hrun : g = r.running
    · subst hrun
      simp [Run.step, Run.wake] at hg
    · simp only [Run.step, Run.wake, Function.update_of_ne hrun] at hg
      refine ⟨hg, by simp [Run.step, Run.wake, hrun], ?_⟩
      intro s hs
      refine siteOf_wake ?_
      simpa [Run.siteOf, hrun] using hs
  | quiesce =>
    by_cases hdriver : r.running = r.driver
    · simp only [Run.step, hdriver, if_true]
      exact h
    · refine h.keep (by simp [Run.step, hdriver]) (by simp [Run.step, hdriver]) ?_
      intro g hg
      by_cases hg' : g = r.driver
      · subst hg'
        simp [Run.step, hdriver] at hg
      · simp only [Run.step, hdriver, if_false, Function.update_of_ne hg'] at hg ⊢
        refine ⟨hg, trivial, ?_⟩
        intro s hs
        by_cases hrun : g = r.running
        · subst hrun
          simpa [Run.siteOf, hg'] using hs
        · simpa [Run.siteOf, hg', hrun] using hs
  | abort gid =>
    refine h.keep rfl rfl ?_
    intro g hg
    by_cases hg' : g = gid
    · subst hg'
      simp [Run.step] at hg
    · by_cases hrun : g = r.running
      · subst hrun
        simp [Run.step, hg'] at hg
      · simp only [Run.step, Function.update_of_ne hg', Function.update_of_ne hrun] at hg ⊢
        refine ⟨hg, trivial, ?_⟩
        intro s hs
        simpa [Run.siteOf, hg', hrun] using hs

/-- In every run, each recorded violation is in one of the two lists. -/
theorem split_of_run {goroutines : Gid → Option Goroutine} {maxSteps : Nat} {driver : Gid}
    {events : List Event} (hrun : Transition.Run (fun r e t => r.step e = t)
      (Run.init comments goroutines maxSteps driver) events r) : Split r := by
  refine hrun.invariant (P := Split) ?_ ⟨rfl, rfl, rfl⟩
  rintro r e t rfl h
  exact h.step e

/-- **Suppression is exact.** In every run in which directives that share a
line agree and the site is up to date whenever a violation is recorded: what
was recorded during an instruction is suppressed iff a directive on its line
or on the line above lists the category or lists none; and each violation is
in one of the two lists, in the order of recording. -/
theorem suppression_exact {goroutines : Gid → Option Goroutine} {maxSteps : Nat} {driver : Gid}
    {events : List Event} (hagree : Agreeing comments)
    (hrun : Transition.Run (fun r e t => r.step e = t ∧ Tracked r e)
      (Run.init comments goroutines maxSteps driver) events r) :
    (∀ e ∈ r.recorded, ∀ pos, e.instr = some pos →
      (e.suppressed = true ↔ Covered comments pos (categoryOf e.violation.err))) ∧
    r.interp.suppressedViolations = (r.recorded.filter (·.suppressed)).map (·.violation) ∧
    r.interp.violations = (r.recorded.filter (!·.suppressed)).map (·.violation) := by
  have hsplit : Split r := split_of_run (hrun.mono fun _ _ _ h => h.1)
  have hinv : Inv comments r := by
    refine hrun.invariant (P := Inv comments) ?_ ⟨rfl, nofun, nofun⟩
    rintro r e t ⟨rfl, ht⟩ h
    exact h.step hagree e ht
  exact ⟨hinv.exact, hsplit.suppressed, hsplit.active⟩

end

/-- A data race at line 2 of `f`. -/
def raceAtTwo : List Event :=
  [.begin (some ⟨"f", 2⟩), .record 1 ⟨.dataRace, ""⟩]

/-- The run of these events in a program with one goroutine. -/
def raceRun (comments : List Comment) : Run :=
  raceAtTwo.foldl Run.step (Run.init comments (fun _ => some {}) 0 1)

/-- The directive that lists data races, on line 1. -/
def ignoreRaces : Comment := ⟨"//giri:ignore data-race".toList, ⟨"f", 1⟩⟩

/-- The directive that lists truncations, on line 2. -/
def ignoreTruncations : Comment := ⟨"//giri:ignore integer-truncation".toList, ⟨"f", 2⟩⟩

theorem suppression_exact_ignoreRaces :
    (raceRun [ignoreRaces]).interp.suppressedViolations.map (·.err.type) = [.dataRace] ∧
      ∀ e ∈ (raceRun [ignoreRaces]).recorded, ∀ pos, e.instr = some pos →
        (e.suppressed = true ↔ Covered [ignoreRaces] pos (categoryOf e.violation.err)) := by
  have hagree : Agreeing [ignoreRaces] := by
    intro c hc c' hc' cats cats' hcats hcats' _ _ _ cat hlists
    rw [List.mem_singleton.mp hc] at hcats
    rw [List.mem_singleton.mp hc', hcats] at hcats'
    cases hcats'
    exact hlists
  have hrun : Transition.Run (fun r e t => r.step e = t ∧ Tracked r e)
      (Run.init [ignoreRaces] (fun _ => some {}) 0 1) raceAtTwo (raceRun [ignoreRaces]) :=
    .cons ⟨rfl, trivial⟩ (.single ⟨rfl, .inr (.inr rfl)⟩)
  exact ⟨by decide +kernel, (suppression_exact hagree hrun).1⟩

/-- **A directive is overwritten.** The race at line 2 is recorded during its
instruction, the directive on the line above lists data races, and the race
is not suppressed: the directive on line 2 has taken its place. -/
theorem directive_overwritten :
    (raceRun [ignoreRaces, ignoreTruncations]).recorded.map (fun e => (e.instr, e.suppressed)) =
        [(some (some ⟨"f", 2⟩), false)] ∧
      (raceRun [ignoreRaces, ignoreTruncations]).interp.violations.map (·.err.type) = [.dataRace] ∧
      Covered [ignoreRaces, ignoreTruncations] (some ⟨"f", 2⟩) "data-race" := by
  refine ⟨by decide +kernel, by decide +kernel, ⟨"f", 2⟩, rfl, ignoreRaces, List.mem_cons_self,
    ["data-race"], ⟨by decide +kernel, rfl, .inr rfl⟩, .inr List.mem_cons_self⟩

end Giri.Suppress
