/-
Giri.Report.Format — the formats for people, and their cap
(`report/report.go`).

The text format shows active findings in groups, one for each category and
file, in the order in which the groups come up. `MaxViolations` caps how many
are shown: the loop inside a group stops at the cap, and then so does the
loop over groups. Both stop only at a finding they can't show. The HTML
format goes through all the findings.

The output is a list of pieces, one for each format string of the source
(`Piece`, `Card`). `capParts` says what is shown: of each group a part, and
nothing of what comes after a part that is not the whole. A cap that is used
up at the end of a group leaves the next group a header and no finding.
-/
import Giri.Lib.HostMap
import Giri.Report.Findings

namespace Giri.Reporting

open Lsp (Bytes)
open Framing (ascii)
open HostMap (Host)

/-! ## §1. Groups -/

/-- The category and the file of a finding. -/
def Finding.place (f : Finding) : Bytes × Bytes := (f.category, groupFile f.location)

/-- The key of its group: the two with a NUL between them. -/
def Finding.key (f : Finding) : Bytes := f.place.1 ++ 0 :: f.place.2

/-- One finding more, in the bucket of its key. -/
def addToGroup (f : Finding) : List (Bytes × List Finding) → List (Bytes × List Finding)
  | [] => [(f.key, [f])]
  | (key, g) :: groups =>
    if key = f.key then (key, g ++ [f]) :: groups else (key, g) :: addToGroup f groups

/-- `groupFindings`: the buckets, in the order of their first findings. -/
def groupFindings (findings : List Finding) : List (Bytes × List Finding) :=
  findings.foldl (fun groups f => addToGroup f groups) []

/-! ## §2. Text -/

/-- What is printed. -/
inductive Piece where
  /-- The four lines of the header. -/
  | banner
  /-- `No violations detected.` -/
  | noViolations
  /-- `Found %d violation(s):` -/
  | found (n : Nat)
  /-- `── %s (%s) — %d finding(s) ──` -/
  | group (category file : Bytes) (n : Nat)
  /-- `writeFindingDetail`. -/
  | detail (f : Finding)
  | newline
  /-- `… and %d more (use --max-violations 0 to show all)` -/
  | more (k : Nat)
  /-- `── Suppressed (%d) — via //giri:ignore ──` -/
  | suppressedHeader (n : Nat)
  /-- `  %s: %s  [%s]` -/
  | suppressed (category location reason : Bytes)
  /-- `── Summary ──` -/
  | summary
  /-- `  %s: %d` -/
  | severity (sev : String) (count : Nat)
  /-- `  Suppressed: %d` -/
  | suppressedCount (n : Nat)
  deriving DecidableEq, Repr

/-- The loop over a group: what is printed, `shown` and `limited`. -/
def detailLoop (maxViolations : Int) : Nat → List Finding → List Piece × Nat × Bool
  | shown, [] => ([], shown, false)
  | shown, f :: g =>
    if 0 < maxViolations ∧ maxViolations ≤ shown then ([], shown, true)
    else
      let (out, shown, limited) := detailLoop maxViolations (shown + 1) g
      (.detail f :: out, shown, limited)

/-- The header of a group, from its first finding. -/
def groupHeader (g : List Finding) : List Piece :=
  (g.head?.map fun f => Piece.group f.category (groupFile f.location) g.length).toList

/-- The loop over groups. -/
def groupLoop (maxViolations : Int) : Nat → List (List Finding) → List Piece × Nat × Bool
  | shown, [] => ([], shown, false)
  | shown, g :: groups =>
    let (out, shown, limited) := detailLoop maxViolations shown g
    let out := groupHeader g ++ out ++ [.newline]
    if limited then (out, shown, true)
    else
      let (rest, shown, limited) := groupLoop maxViolations shown groups
      (out ++ rest, shown, limited)

/-- What follows the active findings. -/
def trailer (host : Host) (r : Report) : List Piece :=
  let suppressed := r.findings.filter Finding.suppressed
  (if suppressed = [] then []
    else .suppressedHeader suppressed.length :: suppressed.map (fun f =>
      .suppressed f.category (if f.location = [] then ascii ['?'] else f.location)
        f.suppressReason) ++ [.newline]) ++
  .summary :: (host.order 0 r.summary.bySeverity).map (fun e => .severity e.1 e.2) ++
  if 0 < r.summary.suppressed then [.suppressedCount r.summary.suppressed] else []

/-- `writeText`. -/
def writeText (host : Host) (r : Report) : List Piece :=
  let active := r.active
  let body :=
    if active = [] then [.noViolations]
    else
      let (out, shown, limited) :=
        groupLoop r.maxViolations 0 ((groupFindings active).map Prod.snd)
      .found active.length :: out ++ if limited then [.more (active.length - shown)] else []
  .banner :: body ++ trailer host r

/-! ## §3. HTML -/

/-- What a page shows below its summary. -/
inductive Card where
  | noViolations
  | finding (num : Nat) (badge : String) (category : Bytes) (f : Finding)
  deriving DecidableEq, Repr

def badgeClass (f : Finding) : String :=
  if f.suppressed then "badge-info"
  else
    match f.severity with
    | .error => "badge-error"
    | .warning => "badge-warning"
    | _ => "badge-info"

/-- `writeHTML`. -/
def writeHTML (r : Report) : List Card :=
  (if r.findings = [] then [.noViolations] else []) ++
  r.findings.zipIdx.map fun (f, i) =>
    .finding (i + 1) (badgeClass f)
      (if f.suppressed then
        f.category ++ ascii " [suppressed: ".toList ++ f.suppressReason ++ ascii "]".toList
      else f.category) f

/-! ## §4. What is shown -/

/-- The active findings in a text. -/
def shownText (out : List Piece) : List Finding :=
  out.filterMap fun
    | .detail f => some f
    | _ => none

/-- The numbers in the lines that say how many more there are. -/
def moreText (out : List Piece) : List Nat :=
  out.filterMap fun
    | .more k => some k
    | _ => none

/-- The active findings on a page. -/
def shownHTML (out : List Card) : List Finding :=
  out.filterMap fun
    | .finding _ _ _ f => if f.suppressed then none else some f
    | .noViolations => none

/-- The first finding of each kind, in the order of their appearance. -/
def leaders {κ : Type} [DecidableEq κ] (kind : Finding → κ) : List Finding → List Finding
  | [] => []
  | f :: l => f :: (leaders kind l).filter (kind · ≠ kind f)

/-- The findings by kind. -/
def grouped {κ : Type} [DecidableEq κ] (kind : Finding → κ) (findings : List Finding) :
    List (List Finding) :=
  (leaders kind findings).map fun x => findings.filter (kind · = kind x)

/-- Groups with what is shown of them, if `k` findings can be. -/
def capParts : Nat → List (List Finding) → List (List Finding × List Finding)
  | _, [] => []
  | k, g :: groups =>
    if k < g.length then [(g, g.take k)] else (g, g) :: capParts (k - g.length) groups

/-- A group and what is shown of it, as it is printed. -/
def printPart (p : List Finding × List Finding) : List Piece :=
  groupHeader p.1 ++ p.2.map .detail ++ [.newline]

/-- The cap is used up at the end of a group that is not the last. -/
def Boundary (k : Nat) (groups : List (List Finding)) : Prop :=
  ∃ n < groups.length, (groups.take n).flatten.length = k

/-! ## §5. The loops -/

variable {m shown : Nat}

theorem detailLoop_eq (hm : 0 < m) : ∀ {shown : Nat} (g : List Finding), shown ≤ m →
    detailLoop m shown g = ((g.take (m - shown)).map .detail, shown + min (m - shown) g.length,
      decide (m - shown < g.length)) := by
  intro shown g
  induction g generalizing shown with
  | nil => intro _; simp [detailLoop]
  | cons f g ih =>
    intro hle
    rw [detailLoop]
    by_cases hfull : m = shown
    · rw [if_pos (by omega)]
      simp [hfull]
    · rw [if_neg (by omega), ih (by omega)]
      obtain ⟨k, hk⟩ : ∃ k, m - shown = k + 1 := ⟨m - shown - 1, by omega⟩
      have hk' : m - (shown + 1) = k := by omega
      simp only [hk, hk', List.take_succ_cons, List.map_cons, List.length_cons]
      refine Prod.ext rfl (Prod.ext ?_ ?_)
      · show shown + 1 + min k g.length = shown + min (k + 1) (g.length + 1)
        omega
      · simp

theorem groupLoop_eq (hm : 0 < m) : ∀ {shown : Nat} (groups : List (List Finding)), shown ≤ m →
    groupLoop m shown groups = ((capParts (m - shown) groups).flatMap printPart,
      shown + min (m - shown) groups.flatten.length,
      decide (m - shown < groups.flatten.length)) := by
  intro shown groups
  induction groups generalizing shown with
  | nil => intro _; simp [groupLoop, capParts]
  | cons g groups ih =>
    intro hle
    rw [groupLoop, detailLoop_eq hm g hle, capParts, List.flatten_cons, List.length_append]
    by_cases hlim : m - shown < g.length
    · simp only [hlim, decide_true, if_true, List.flatMap_singleton, printPart]
      refine Prod.ext rfl (Prod.ext ?_ ?_)
      · show shown + min (m - shown) g.length = shown + min (m - shown) (g.length + groups.flatten.length)
        omega
      · exact (decide_eq_true (by omega)).symm
    · simp only [hlim, decide_false, Bool.false_eq_true, if_false]
      rw [ih (by omega), List.take_of_length_le (by omega), List.flatMap_cons]
      have hk : m - (shown + min (m - shown) g.length) = m - shown - g.length := by omega
      refine Prod.ext ?_ (Prod.ext ?_ ?_)
      · rw [hk]; rfl
      · show shown + min (m - shown) g.length + min _ _ = shown + min (m - shown) (_ + _)
        omega
      · exact decide_eq_decide.mpr (by omega)

theorem capParts_shown (k : Nat) (groups : List (List Finding)) :
    ((capParts k groups).map Prod.snd).flatten = groups.flatten.take k := by
  induction groups generalizing k with
  | nil => simp [capParts]
  | cons g groups ih =>
    rw [capParts, List.flatten_cons]
    split
    · rename_i hlt
      simp [List.take_append_of_le_length (Nat.le_of_lt hlt)]
    · rename_i hge
      rw [List.map_cons, List.flatten_cons, ih, List.take_append,
        List.take_of_length_le (Nat.le_of_not_lt hge)]

/-- Something is shown of every group iff the cap is not used up between two. -/
theorem capParts_ne_nil_iff {k : Nat} {groups : List (List Finding)} (hg : ∀ g ∈ groups, g ≠ []) :
    (∀ p ∈ capParts k groups, p.2 ≠ []) ↔ ¬ Boundary k groups := by
  induction groups generalizing k with
  | nil => exact iff_of_true nofun (by rintro ⟨n, hn, -⟩; cases hn)
  | cons g groups ih =>
    have hpos : 0 < g.length := List.length_pos_iff.mpr (hg g List.mem_cons_self)
    -- the first boundary is at zero, and the others are those of the other groups
    have hboundary : Boundary k (g :: groups) ↔
        k = 0 ∨ g.length ≤ k ∧ Boundary (k - g.length) groups := by
      constructor
      · rintro ⟨_ | n, hn, hlen⟩
        · exact .inl hlen.symm
        · rw [List.take_succ_cons, List.flatten_cons, List.length_append] at hlen
          exact .inr ⟨by omega, n, Nat.lt_of_succ_lt_succ hn, by omega⟩
      · rintro (rfl | ⟨hle, n, hn, hlen⟩)
        · exact ⟨0, Nat.succ_pos _, rfl⟩
        · refine ⟨n + 1, Nat.succ_lt_succ hn, ?_⟩
          rw [List.take_succ_cons, List.flatten_cons, List.length_append, hlen]
          omega
    rw [hboundary, capParts]
    split
    · rename_i hlt
      have hne : g ≠ [] := hg g List.mem_cons_self
      simp [hne, Nat.not_le_of_lt hlt]
    · rename_i hge
      rw [List.forall_mem_cons, ih fun g' hg' => hg g' (List.mem_cons_of_mem _ hg'),
        and_iff_right (hg g List.mem_cons_self)]
      have hzero : k ≠ 0 := by omega
      simp [hzero, Nat.le_of_not_lt hge]

/-! ## §6. Grouping -/

section Kinds

variable {κ : Type} [DecidableEq κ] {kind : Finding → κ} {l : List Finding}

theorem leaders_subset (kind : Finding → κ) : leaders kind l ⊆ l := by
  induction l with
  | nil => exact fun _ h => h
  | cons f l ih =>
    intro x hx
    rcases List.mem_cons.mp hx with rfl | hx
    · exact List.mem_cons_self
    · exact List.mem_cons_of_mem _ (ih (List.mem_of_mem_filter hx))

theorem mem_leaders_kind {k : κ} : k ∈ (leaders kind l).map kind ↔ k ∈ l.map kind := by
  induction l with
  | nil => rfl
  | cons f l ih =>
    rw [leaders, List.map_cons, List.map_cons, List.mem_cons, List.mem_cons, ← ih]
    refine or_congr_right' fun hk => ?_
    simp only [List.mem_map, List.mem_filter]
    exact ⟨fun ⟨x, hx, h⟩ => ⟨x, hx.1, h⟩, fun ⟨x, hx, h⟩ => ⟨x, ⟨hx, by simp [h, hk]⟩, h⟩⟩

theorem leaders_apart : (leaders kind l).Pairwise (kind · ≠ kind ·) := by
  induction l with
  | nil => exact .nil
  | cons f l ih =>
    exact .cons (fun x hx => (of_decide_eq_true (List.mem_filter.mp hx).2).symm) (ih.filter _)

theorem leaders_snoc (f : Finding) : leaders kind (l ++ [f]) =
    if kind f ∈ l.map kind then leaders kind l else leaders kind l ++ [f] := by
  induction l with
  | nil => rfl
  | cons x l ih =>
    rw [List.cons_append, leaders, leaders, ih, List.map_cons]
    by_cases hl : kind f ∈ l.map kind
    · rw [if_pos hl, if_pos (List.mem_cons_of_mem _ hl)]
    · rw [if_neg hl, List.filter_append]
      by_cases hx : kind f = kind x
      · simp [hx]
      · rw [if_neg (by simpa [hx] using hl)]
        simp [hx]

/-- Kinds that tell the same findings apart. -/
theorem grouped_congr {κ' : Type} [DecidableEq κ'] {kind' : Finding → κ'}
    (h : ∀ f ∈ l, ∀ g ∈ l, kind f = kind g ↔ kind' f = kind' g) :
    grouped kind l = grouped kind' l := by
  have hleaders : leaders kind l = leaders kind' l := by
    induction l with
    | nil => rfl
    | cons f l ih =>
      rw [leaders, leaders, ih fun f hf g hg =>
        h f (List.mem_cons_of_mem _ hf) g (List.mem_cons_of_mem _ hg)]
      refine congrArg _ (List.filter_congr fun x hx => ?_)
      have hx := List.mem_cons_of_mem f (leaders_subset kind' hx)
      simp [h x hx f List.mem_cons_self]
  rw [grouped, grouped, hleaders]
  refine List.map_congr_left fun x hx => List.filter_congr fun f hf => ?_
  simp [h f hf x (leaders_subset kind' hx)]

/-- The findings of a kind are one group. -/
theorem exists_group (kind : Finding → κ) {f : Finding} (hf : f ∈ l) :
    ∃ g ∈ grouped kind l, ∀ x ∈ l, kind x = kind f → x ∈ g := by
  have hmem : kind f ∈ (leaders kind l).map kind := mem_leaders_kind.mpr (List.mem_map_of_mem hf)
  obtain ⟨y, hy, hkind⟩ := List.mem_map.mp hmem
  refine ⟨_, List.mem_map_of_mem hy, fun x hx hxf => ?_⟩
  simp [hx, hxf, hkind]

theorem kind_eq_of_mem_group {f f' : Finding} {g : List Finding} (hg : g ∈ grouped kind l)
    (hf : f ∈ g) (hf' : f' ∈ g) : kind f = kind f' := by
  obtain ⟨x, -, rfl⟩ := List.mem_map.mp hg
  simp only [List.mem_filter, decide_eq_true_eq] at hf hf'
  exact hf.2.trans hf'.2.symm

end Kinds

theorem grouped_key_eq_iff {l : List Finding} : grouped Finding.key l = grouped Finding.place l ↔
    ∀ f ∈ l, ∀ g ∈ l, f.key = g.key → f.place = g.place := by
  constructor
  · intro h f hf g hg hkey
    obtain ⟨group, hgroup, hmem⟩ := exists_group Finding.key hf
    exact kind_eq_of_mem_group (h ▸ hgroup) (hmem f hf rfl) (hmem g hg hkey.symm)
  · intro h
    exact grouped_congr fun f hf g hg => ⟨h f hf g hg, fun hp => by rw [Finding.key, hp, Finding.key]⟩

variable {f : Finding}

/-- A finding goes to the group of its key, or begins one. -/
theorem addToGroup_map {ls : List Finding} (F : Finding → List Finding)
    (hapart : ls.Pairwise (·.key ≠ ·.key)) :
    addToGroup f (ls.map fun x => (x.key, F x)) =
      if f.key ∈ ls.map Finding.key then
        ls.map fun x => (x.key, if x.key = f.key then F x ++ [f] else F x)
      else ls.map (fun x => (x.key, F x)) ++ [(f.key, [f])] := by
  induction ls with
  | nil => rfl
  | cons x ls ih =>
    obtain ⟨hx, hapart⟩ := List.pairwise_cons.mp hapart
    simp only [List.map_cons, addToGroup, List.mem_cons]
    by_cases hkey : x.key = f.key
    · rw [if_pos hkey, if_pos (.inl hkey.symm), if_pos hkey]
      refine congrArg _ (List.map_congr_left fun y hy => ?_)
      rw [if_neg fun heq => hx y hy (hkey.trans heq.symm)]
    · rw [if_neg hkey, ih hapart]
      by_cases hmem : f.key ∈ ls.map Finding.key
      · rw [if_pos hmem, if_pos (.inr hmem), if_neg hkey]
      · rw [if_neg hmem, if_neg (not_or.mpr ⟨Ne.symm hkey, hmem⟩)]
        rfl

theorem groupFindings_eq (findings : List Finding) :
    (groupFindings findings) = (leaders Finding.key findings).map fun x =>
      (x.key, findings.filter (·.key = x.key)) := by
  induction findings using List.reverseRecOn with
  | nil => rfl
  | append_singleton findings f ih =>
    rw [groupFindings, List.foldl_append, ← groupFindings, ih, List.foldl_cons, List.foldl_nil,
      addToGroup_map _ leaders_apart, leaders_snoc]
    simp only [mem_leaders_kind]
    split
    · refine List.map_congr_left fun x _ => ?_
      by_cases hx : x.key = f.key
      · simp [hx]
      · simp [hx, Ne.symm hx]
    · rename_i hnew
      rw [List.map_append, List.map_singleton]
      have hne : ∀ x ∈ findings, x.key ≠ f.key :=
        fun x hx heq => hnew (List.mem_map.mpr ⟨x, hx, heq⟩)
      congr 1
      · refine List.map_congr_left fun x hx => ?_
        simp [(hne x (leaders_subset _ hx)).symm]
      · have hnone : findings.filter (·.key = f.key) = [] := by
          simpa [List.filter_eq_nil_iff] using hne
        simp [hnone]

/-- Grouping loses no finding and repeats none. -/
theorem groupFindings_perm (findings : List Finding) :
    ((groupFindings findings).map Prod.snd).flatten.Perm findings := by
  have hadd : ∀ (f : Finding) (groups : List (Bytes × List Finding)),
      ((addToGroup f groups).map Prod.snd).flatten.Perm ((groups.map Prod.snd).flatten ++ [f]) := by
    intro f groups
    induction groups with
    | nil => exact .refl _
    | cons e groups ih =>
      rw [addToGroup]
      split
      · simp only [List.map_cons, List.flatten_cons, List.append_assoc]
        exact List.Perm.append_left _ List.perm_append_comm
      · simp only [List.map_cons, List.flatten_cons, List.append_assoc]
        exact List.Perm.append_left _ ih
  induction findings using List.reverseRecOn with
  | nil => exact .refl _
  | append_singleton findings f ih =>
    rw [groupFindings, List.foldl_append, ← groupFindings]
    exact (hadd f _).trans (ih.append_right _)

/-! ## §7. The cap -/

variable {r : Report}

theorem grouped_eq (findings : List Finding) :
    (groupFindings findings).map Prod.snd = grouped Finding.key findings := by
  rw [groupFindings_eq, List.map_map]
  rfl

/-- The text of a report with active findings. -/
theorem writeText_eq (host : Host) (hm : 0 < m) (hmax : r.maxViolations = m)
    (hne : r.active ≠ []) :
    writeText host r = .banner :: .found r.active.length ::
      (capParts m (grouped Finding.key r.active)).flatMap printPart ++
        (if m < r.active.length then [.more (r.active.length - m)] else []) ++ trailer host r := by
  have hlen : (grouped Finding.key r.active).flatten.length = r.active.length := by
    rw [← grouped_eq]
    exact (groupFindings_perm r.active).length_eq
  simp only [writeText, if_neg hne, hmax, grouped_eq, groupLoop_eq hm _ (Nat.zero_le _),
    hlen, Nat.sub_zero, Nat.zero_add, decide_eq_true_eq, List.cons_append, List.append_assoc]
  split
  · rename_i hlt
    rw [Nat.min_eq_left (Nat.le_of_lt hlt)]
  · rfl

/-- What follows shows no active finding. -/
theorem trailer_quiet (host : Host) (r : Report) :
    shownText (trailer host r) = [] ∧ moreText (trailer host r) = [] := by
  simp only [trailer, shownText, moreText]
  split <;> split <;> simp [List.filterMap_map]

theorem parts_shown (parts : List (List Finding × List Finding)) :
    shownText (parts.flatMap printPart) = (parts.map Prod.snd).flatten ∧
      moreText (parts.flatMap printPart) = [] := by
  have hheader : ∀ g : List Finding,
      shownText (groupHeader g) = [] ∧ moreText (groupHeader g) = [] := by
    intro g
    cases g with
    | nil => exact ⟨rfl, rfl⟩
    | cons f g => exact ⟨rfl, rfl⟩
  induction parts with
  | nil => exact ⟨rfl, rfl⟩
  | cons p parts ih =>
    obtain ⟨hshown, hmore⟩ := hheader p.1
    unfold shownText moreText at *
    simp only [List.flatMap_cons, printPart, List.filterMap_append, ih, hshown, hmore,
      List.map_cons, List.flatten_cons, List.filterMap_map]
    simp

theorem shownHTML_eq (r : Report) : shownHTML (writeHTML r) = r.active := by
  have hcards : ∀ (l : List Finding) (n : Nat), ((l.zipIdx n).filterMap fun p =>
      if p.1.suppressed then none else some p.1) = l.filter fun f => !f.suppressed := by
    intro l
    induction l with
    | nil => exact fun _ => rfl
    | cons f l ih =>
      intro n
      cases hf : f.suppressed with
      | true => simp [List.zipIdx_cons, hf, ih]
      | false => simp [List.zipIdx_cons, hf, ih]
  unfold shownHTML writeHTML
  rw [List.filterMap_append, List.filterMap_map]
  split
  · exact hcards r.findings 0
  · exact hcards r.findings 0

/-- **The text shows as many active findings as the cap allows, in groups, and
says how many are left.** Every group it names has something to show iff the
cap does not fall between two groups, and the groups are those by category and
file iff no two of these have one key. The page shows all active findings, and
as many as the cap allows iff there are no more. -/
theorem display_capped (host : Host) (r : Report) (m : Nat) (hm : 0 < m)
    (hmax : r.maxViolations = m) :
    let out := writeText host r
    let groups := grouped Finding.key r.active
    shownText out = groups.flatten.take m ∧ groups.flatten.Perm r.active ∧
    (shownText out).length = min m r.active.length ∧
    moreText out = (if m < r.active.length then [r.active.length - m] else []) ∧
    (r.active ≠ [] → out = .banner :: .found r.active.length ::
      (capParts m groups).flatMap printPart ++
        (if m < r.active.length then [.more (r.active.length - m)] else []) ++ trailer host r) ∧
    ((∀ p ∈ capParts m groups, p.2 ≠ []) ↔ ¬ Boundary m groups) ∧
    (groups = grouped Finding.place r.active ↔
      ∀ f ∈ r.active, ∀ g ∈ r.active, f.key = g.key → f.place = g.place) ∧
    shownHTML (writeHTML r) = r.active ∧
    ((shownHTML (writeHTML r)).length = min m r.active.length ↔ r.active.length ≤ m) := by
  intro out groups
  have hperm : groups.flatten.Perm r.active := by
    rw [show groups = _ from (grouped_eq r.active).symm]
    exact groupFindings_perm r.active
  have hlen : (groups.flatten.take m).length = min m r.active.length := by
    rw [List.length_take, hperm.length_eq]
  have hshown : shownText out = groups.flatten.take m ∧
      moreText out = (if m < r.active.length then [r.active.length - m] else []) := by
    obtain ⟨hquiet, hquiet'⟩ := trailer_quiet host r
    by_cases hne : r.active = []
    · unfold shownText moreText at *
      simp [out, groups, writeText, hne, hquiet, hquiet', grouped, leaders]
    · obtain ⟨hparts, hparts'⟩ := parts_shown (capParts m groups)
      rw [show out = _ from writeText_eq host hm hmax hne, ← capParts_shown]
      unfold shownText moreText at *
      split <;> simp [hquiet, hquiet', hparts, hparts', groups]
  refine ⟨hshown.1, hperm, ?_, hshown.2, writeText_eq host hm hmax, ?_, grouped_key_eq_iff,
    shownHTML_eq r, ?_⟩
  · rw [hshown.1, hlen]
  · refine capParts_ne_nil_iff fun g hg hnil => ?_
    obtain ⟨x, hx, rfl⟩ := List.mem_map.mp hg
    exact absurd (List.mem_filter.mpr ⟨leaders_subset _ hx, decide_eq_true rfl⟩)
      (hnil ▸ List.not_mem_nil)
  · rw [shownHTML_eq]
    omega

/-- Two races in one group, one of them shown. -/
theorem display_capped_races :
    let r : Report := { findings := [race, race], maxViolations := 1 }
    (shownText (writeText .listed r)).length = 1 ∧ moreText (writeText .listed r) = [1] := by
  intro r
  obtain ⟨-, -, hlen, hmore, -⟩ := display_capped .listed r 1 Nat.one_pos rfl
  exact ⟨hlen, hmore⟩

/-- **A race and a deadlock, with a cap of one**: the text names a second group
without a finding, and the page shows both. -/
theorem cap_exceeded :
    let deadlock : Finding := { severity := .error, category := ascii "deadlock".toList }
    let r : Report := { findings := [race, deadlock], maxViolations := 1 }
    writeText .listed r = [.banner, .found 2, .group race.category (ascii ['?']) 1, .detail race,
      .newline, .group deadlock.category (ascii ['?']) 1, .newline, .more 1, .summary] ∧
    shownHTML (writeHTML r) = [race, deadlock] := by
  decide +kernel

end Giri.Reporting
