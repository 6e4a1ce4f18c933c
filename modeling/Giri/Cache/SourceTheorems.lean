/-
Giri.Cache.SourceTheorems — what the source hash covers, and what its byte
stream tells apart.

COVERAGE: the walk is a depth-first search (`Lib/Search.lean`) of the import
graph, cut off at what looks like the standard library. A package in a module
without a dot in its path looks so too, although the interpreter interprets
it (`dotless_module_dropped`). The files in the stream are those of the
packages that a chain of imports leads to in which none looks so, the main
package apart (`mem_sourceFiles`); where these are all the files that are
interpreted, the stream changes with every one of them (`interpreted_hashed`).

SEPARATION: contents are written without their length, so a file that
contains what looks like the header of another can be mistaken for two files
(`streams_collide`). Two sets of files have one stream only if, where they
first differ, one file runs on with what the other's next files are written as
(`sourceStream_injective`).
-/
import Giri.Cache.Source
import Giri.Lib.Search

namespace Giri.Cache

open Framing (ascii)

variable {ps : Packages} {root p : PkgPath} {f : Bytes} {files : List Bytes}
  {disk disk' : Bytes → Option Bytes}

/-! ## §1. The walk -/

/-- An import of a loaded package. -/
def Imports (ps : Packages) (p q : PkgPath) : Prop :=
  ∃ pkg, ps.find p = some pkg ∧ q ∈ pkg.imports

/-- A chain of imports leads from `p` to `q`. -/
def Reaches (ps : Packages) : PkgPath → PkgPath → Prop :=
  Relation.ReflTransGen (Imports ps)

/-- An import that `walk` follows into the package. -/
def Entered (ps : Packages) (root p q : PkgPath) : Prop :=
  Imports ps p q ∧ (q = root ∨ isStdlibPkgPath q = false)

/-- A chain of imports leads from the main package to `p`, and none of them,
that of the main package apart, looks like the standard library. -/
def ReachesEntered (ps : Packages) (root : PkgPath) : PkgPath → Prop :=
  Relation.ReflTransGen (Entered ps root) root

/-- A file of a loaded package. -/
def HasFile (ps : Packages) (p : PkgPath) (f : Bytes) : Prop :=
  ∃ pkg, ps.find p = some pkg ∧ f ∈ pkg.compiledGoFiles

/-- The graph that `walk` searches. -/
def succ (ps : Packages) (root p : PkgPath) : Option (List PkgPath) :=
  (ps.find p).map fun pkg => if p ≠ root ∧ isStdlibPkgPath p = true then [] else pkg.imports

theorem mem_of_find_isSome (h : (ps.find p).isSome) : p ∈ ps.map Prod.fst := by
  obtain ⟨e, he, heq⟩ := List.lookup_isSome_iff.mp h
  rw [eq_of_beq heq]
  exact List.mem_map_of_mem he

/-- The loop over the imports of a package. -/
def walkAll (ps : Packages) (fuel : Nat) (imps : List PkgPath) (w : Walk) : Walk :=
  imps.foldl (fun w imp => walk ps fuel imp false w) w

/-- The package `p` is entered. -/
def enter (w : Walk) (p : PkgPath) (pkg : Package) : Walk :=
  { files := pkg.compiledGoFiles.foldl addFile w.files, visited := p :: w.visited }

/-- What one visit keeps, the walk keeps: a package that looks like the
standard library is marked, another is entered. -/
theorem walkAll_invariant {P : Walk → Prop}
    (hskip : ∀ w p, p ∉ w.visited → isStdlibPkgPath p = true → P w →
      P { w with visited := p :: w.visited })
    (henter : ∀ w p pkg, ps.find p = some pkg → isStdlibPkgPath p = false → P w →
      P (enter w p pkg))
    (fuel : Nat) : ∀ (imps : List PkgPath) (w : Walk), P w → P (walkAll ps fuel imps w) := by
  have hloop : ∀ fuel, (∀ p w, P w → P (walk ps fuel p false w)) →
      ∀ (imps : List PkgPath) (w : Walk), P w → P (walkAll ps fuel imps w) := by
    intro fuel hwalk imps
    induction imps with
    | nil => exact fun w hw => hw
    | cons imp imps ih => exact fun w hw => ih _ (hwalk imp w hw)
  have hwalk : ∀ fuel p w, P w → P (walk ps fuel p false w) := by
    intro fuel
    induction fuel with
    | zero => exact fun p w hw => hw
    | succ fuel ih =>
      intro p w hw
      unfold walk
      split
      · exact hw
      · rename_i pkg hfind
        split
        · exact hw
        · rename_i hseen
          split
          · rename_i hstd
            exact hskip w p hseen (by simpa using hstd) hw
          · rename_i hstd
            exact hloop fuel ih _ _ (henter w p pkg hfind (by simpa using hstd) hw)
  exact hloop fuel (hwalk fuel)

theorem mem_visited_walkAll (fuel : Nat) (imps : List PkgPath) (w : Walk)
    (h : p ∈ w.visited) : p ∈ (walkAll ps fuel imps w).visited :=
  walkAll_invariant (P := fun w => p ∈ w.visited)
    (fun _ _ _ _ hw => List.mem_cons_of_mem _ hw) (fun _ _ _ _ _ hw => List.mem_cons_of_mem _ hw)
    fuel imps w h

/-- `walk` is the search of that graph: the root, which alone is entered
whatever its path, has been visited before. -/
theorem walkAll_visited (fuel : Nat) : ∀ (imps : List PkgPath) (w : Walk), root ∈ w.visited →
    (walkAll ps fuel imps w).visited =
      imps.foldl (fun seen b => Search.visit (succ ps root) fuel b seen) w.visited := by
  induction fuel with
  | zero =>
    intro imps
    induction imps with
    | nil => exact fun _ _ => rfl
    | cons imp imps ih => exact fun w hw => ih w hw
  | succ fuel ih =>
    have hwalk : ∀ p (w : Walk), root ∈ w.visited → (walk ps (fuel + 1) p false w).visited =
        Search.visit (succ ps root) (fuel + 1) p w.visited := by
      intro p w hw
      unfold walk Search.visit
      cases hfind : ps.find p with
      | none => simp [succ, hfind]
      | some pkg =>
        have hsucc : succ ps root p = some (if p ≠ root ∧ isStdlibPkgPath p = true then []
          else pkg.imports) := by simp [succ, hfind]
        rw [hsucc]
        dsimp only
        by_cases hseen : p ∈ w.visited
        · rw [if_pos hseen, if_pos hseen]
        · have hne : p ≠ root := fun heq => hseen (heq ▸ hw)
          rw [if_neg hseen, if_neg hseen]
          by_cases hstd : isStdlibPkgPath p = true
          · simp [hstd, hne]
          · simp only [hstd, Bool.not_false, Bool.and_false, Bool.false_eq_true, if_false,
              and_false]
            exact ih pkg.imports (enter w p pkg) (List.mem_cons_of_mem _ hw)
    intro imps
    induction imps with
    | nil => exact fun _ _ => rfl
    | cons imp imps ihimps =>
      intro w hw
      have hmem : root ∈ (walk ps (fuel + 1) imp false w).visited :=
        mem_visited_walkAll (fuel + 1) [imp] w hw
      show (walkAll ps (fuel + 1) imps _).visited = _
      rw [ihimps _ hmem, hwalk imp w hw]
      rfl

theorem mem_foldl_addFile : ∀ {fs files : List Bytes},
    f ∈ fs.foldl addFile files ↔ f ∈ files ∨ f ∈ fs := by
  intro fs
  induction fs with
  | nil => simp
  | cons g fs ih =>
    intro files
    rw [List.foldl_cons, ih]
    unfold addFile
    split
    · rename_i hg
      constructor
      · rintro (h | h)
        · exact .inl h
        · exact .inr (List.mem_cons_of_mem _ h)
      · rintro (h | h)
        · exact .inl h
        · rcases List.mem_cons.mp h with rfl | h
          · exact .inl hg
          · exact .inr h
    · simp [or_assoc]

theorem nodup_foldl_addFile : ∀ (fs : List Bytes) {files : List Bytes}, files.Nodup →
    (fs.foldl addFile files).Nodup := by
  intro fs
  induction fs with
  | nil => exact fun h => h
  | cons g fs ih =>
    intro files h
    refine ih ?_
    unfold addFile
    split
    · exact h
    · rename_i hg
      refine List.nodup_append.mpr ⟨h, List.nodup_singleton g, ?_⟩
      intro a ha b hb heq
      rw [heq, List.mem_singleton.mp hb] at ha
      exact hg ha

/-- The files of the packages that have been entered are there, once. -/
structure WalkInv (ps : Packages) (root : PkgPath) (w : Walk) : Prop where
  rooted : root ∈ w.visited
  nodup : w.files.Nodup
  files : ∀ f, f ∈ w.files ↔
    ∃ p ∈ w.visited, (p = root ∨ isStdlibPkgPath p = false) ∧ HasFile ps p f

theorem WalkInv.skip {w : Walk} (h : WalkInv ps root w) (hnew : p ∉ w.visited)
    (hstd : isStdlibPkgPath p = true) :
    WalkInv ps root { w with visited := p :: w.visited } where
  rooted := List.mem_cons_of_mem _ h.rooted
  nodup := h.nodup
  files f := by
    have hp : ¬(p = root ∨ isStdlibPkgPath p = false) := by
      rintro (rfl | hno)
      · exact hnew h.rooted
      · cases hstd.symm.trans hno
    simp [h.files f, hp]

/-- Entering keeps the invariant; entering the root establishes it. -/
theorem walkInv_enter {w : Walk} {pkg : Package} (hfind : ps.find p = some pkg)
    (h : (WalkInv ps root w ∧ isStdlibPkgPath p = false) ∨ p = root ∧ w = {}) :
    WalkInv ps root (enter w p pkg) := by
  have hhas (f : Bytes) : HasFile ps p f ↔ f ∈ pkg.compiledGoFiles := by simp [HasFile, hfind]
  rcases h with ⟨h, hstd⟩ | ⟨rfl, rfl⟩
  · refine ⟨List.mem_cons_of_mem _ h.rooted, nodup_foldl_addFile _ h.nodup, fun f => ?_⟩
    simp [enter, mem_foldl_addFile, h.files f, hhas, hstd, or_comm]
  · refine ⟨List.mem_cons_self, nodup_foldl_addFile _ List.nodup_nil, fun f => ?_⟩
    simp [enter, mem_foldl_addFile, hhas]

/-- The walk as a whole: the invariant holds at its end, and what it visited
is what the search of the graph sees. -/
theorem walk_spec {pkg : Package} (hroot : ps.find root = some pkg) (fuel : Nat) :
    WalkInv ps root (walk ps (fuel + 1) root true {}) ∧
      (walk ps (fuel + 1) root true {}).visited =
        Search.visit (succ ps root) (fuel + 1) root [] := by
  have hwalk : walk ps (fuel + 1) root true {} = walkAll ps fuel pkg.imports (enter {} root pkg) := by
    simp [walk, hroot, walkAll, enter]
  rw [hwalk]
  constructor
  · exact walkAll_invariant (fun w p hnew hstd h => h.skip hnew hstd)
      (fun w p pkg hfind hstd h => walkInv_enter hfind (.inl ⟨h, hstd⟩)) fuel _ _
      (walkInv_enter hroot (.inr ⟨rfl, rfl⟩))
  · rw [walkAll_visited fuel _ _ List.mem_cons_self]
    simp [Search.visit, succ, hroot, enter]

/-! ## §2. Coverage -/

theorem edge_iff {p q : PkgPath} (hp : p = root ∨ isStdlibPkgPath p = false) :
    Search.Edge (succ ps root) p q ↔ Imports ps p q := by
  have hcut : ¬(p ≠ root ∧ isStdlibPkgPath p = true) := by
    rintro ⟨hne, hstd⟩
    rcases hp with hp | hp
    · exact hne hp
    · cases hstd.symm.trans hp
  simp [Search.Edge, Imports, succ, hcut]

/-- The packages that are entered. -/
theorem reachesEntered_iff : ReachesEntered ps root p ↔
    Relation.ReflTransGen (Search.Edge (succ ps root)) root p ∧
      (p = root ∨ isStdlibPkgPath p = false) := by
  constructor
  · intro h
    induction h with
    | refl => exact ⟨.refl, .inl rfl⟩
    | tail _ hedge ih => exact ⟨ih.1.tail ((edge_iff ih.2).mpr hedge.1), hedge.2⟩
  · rintro ⟨h, hp⟩
    induction h with
    | refl => exact .refl
    | @tail b c _ hedge ih =>
      -- a node that has an edge is not cut off
      have hb : b = root ∨ isStdlibPkgPath b = false := by
        by_contra hcut
        push Not at hcut
        obtain ⟨bs, hbs, hc⟩ := hedge
        obtain ⟨pkg, -, rfl⟩ := Option.map_eq_some_iff.mp hbs
        simp [hcut.1, hcut.2] at hc
      exact (ih hb).tail ⟨(edge_iff hb).mp hedge, hp⟩

theorem nodup_sourceFiles : (sourceFiles ps root).Nodup := by
  cases hroot : ps.find root with
  | none => simp [sourceFiles, walk, hroot]
  | some pkg => exact (walk_spec hroot ps.length).1.nodup

/-- The files that are hashed. -/
theorem mem_sourceFiles :
    f ∈ sourceFiles ps root ↔ ∃ p, ReachesEntered ps root p ∧ HasFile ps p f := by
  cases hroot : ps.find root with
  | none =>
    refine iff_of_false (by simp [sourceFiles, walk, hroot]) ?_
    rintro ⟨p, hp, pkg, hpkg, -⟩
    rcases Relation.ReflTransGen.cases_head hp with rfl | ⟨q, ⟨⟨pkg', hpkg', -⟩, -⟩, -⟩
    · cases hroot.symm.trans hpkg
    · cases hroot.symm.trans hpkg'
  | some rootPkg =>
    obtain ⟨hinv, hvisited⟩ := walk_spec hroot ps.length
    have hnodes : ∀ q, (succ ps root q).isSome → q ∈ ps.map Prod.fst :=
      fun q hq => mem_of_find_isSome (by simpa [succ] using hq)
    rw [sourceFiles, hinv.files, hvisited]
    refine exists_congr fun p => ?_
    rw [reachesEntered_iff, and_assoc]
    constructor
    · rintro ⟨hmem, hp⟩
      exact ⟨(Search.reaches_of_mem_visit _ _ _ hmem).resolve_left List.not_mem_nil, hp⟩
    · rintro ⟨hreach, hp⟩
      obtain ⟨pkg, hpkg, -⟩ := id hp.2
      exact ⟨Search.mem_visit_of_reaches hnodes (by simp) (by simp [succ, hroot]) hreach
        (by simp [succ, hpkg]), hp⟩

/-- What is written for a file tells its content. -/
theorem fileEntry_inj (h : fileEntry disk f = fileEntry disk' f) : disk f = disk' f := by
  unfold fileEntry at h
  cases hd : disk f with
  | none =>
    cases hd' : disk' f with
    | none => rfl
    | some =>
      rw [hd, hd'] at h
      cases h
  | some =>
    cases hd' : disk' f with
    | none =>
      rw [hd, hd'] at h
      cases h
    | some =>
      rw [hd, hd'] at h
      rw [List.append_cancel_left h]

/-- A change of one of the files changes the stream. -/
theorem sourceStream_ne
    (hnodup : files.Nodup) (hf : f ∈ files) (hother : ∀ f', f' ≠ f → disk f' = disk' f')
    (hchange : disk f ≠ disk' f) : sourceStream disk files ≠ sourceStream disk' files := by
  have hperm : (sortStrings files).Perm files := List.perm_insertionSort _ files
  obtain ⟨l₁, l₂, hsplit⟩ := List.append_of_mem (hperm.mem_iff.mpr hf)
  have hnodup' : (l₁ ++ f :: l₂).Nodup := hsplit ▸ hperm.nodup_iff.mpr hnodup
  have hsame : ∀ l : List Bytes, f ∉ l → l.flatMap (fileEntry disk) = l.flatMap (fileEntry disk') := by
    intro l hl
    refine List.flatMap_congr ?_
    intro f' hf'
    have hne : f' ≠ f := fun heq => hl (heq ▸ hf')
    simp only [fileEntry, hother f' hne]
  have hl₁ : f ∉ l₁ := fun h => (List.nodup_append.mp hnodup').2.2 f h f List.mem_cons_self rfl
  have hl₂ : f ∉ l₂ := (List.nodup_cons.mp (List.nodup_append.mp hnodup').2.1).1
  intro heq
  unfold sourceStream at heq
  rw [hsplit] at heq
  simp only [List.flatMap_append, List.flatMap_cons] at heq
  rw [hsame l₁ hl₁, hsame l₂ hl₂] at heq
  exact hchange (fileEntry_inj (List.append_cancel_right (List.append_cancel_left heq)))

/-- Every file of a package that the main package reaches and that the
interpreter does not stub is hashed, and a change to it changes the bytes that
are hashed. -/
def Covered (goroot : Goroot) (ps : Packages) (root : PkgPath) : Prop :=
  ∀ p f, Reaches ps root p → HasFile ps p f → isStdlibOrKnownExternalPkg goroot p = false →
    f ∈ sourceFiles ps root ∧
      ∀ disk disk' : Bytes → Option Bytes, (∀ f', f' ≠ f → disk f' = disk' f') →
        disk f ≠ disk' f →
          sourceStream disk (sourceFiles ps root) ≠ sourceStream disk' (sourceFiles ps root)

/-- **The hash covers what is interpreted** iff every such file is one of a
package that a chain of imports leads to in which none looks like the standard
library. -/
theorem interpreted_hashed (goroot : Goroot) (ps : Packages) (root : PkgPath) :
    Covered goroot ps root ↔
      ∀ p f, Reaches ps root p → HasFile ps p f → isStdlibOrKnownExternalPkg goroot p = false →
        ∃ q, ReachesEntered ps root q ∧ HasFile ps q f := by
  constructor
  · intro h p f hp hf hinterp
    exact mem_sourceFiles.mp (h p f hp hf hinterp).1
  · intro h p f hp hf hinterp
    have hfile := mem_sourceFiles.mpr (h p f hp hf hinterp)
    exact ⟨hfile, fun disk disk' => sourceStream_ne nodup_sourceFiles hfile⟩

/-- The module `path` with a main package that imports fmt and a package
`util` of the same module. -/
def twoPackages (path : Bytes) : Packages :=
  [(path, ⟨[ascii ['m']], [ascii ['f', 'm', 't'], path ++ ascii ['/', 'u']]⟩),
    (path ++ ascii ['/', 'u'], ⟨[ascii ['u']], [ascii ['f', 'm', 't']]⟩),
    (ascii ['f', 'm', 't'], ⟨[ascii ['f']], []⟩)]

/-- GOROOT has fmt. -/
def fmtOnly : Goroot := some fun p => p == ascii ['f', 'm', 't']

/-- **A module without a dot.** `p/u` is imported and interpreted, but its
file is not hashed: the stream is the same after a change. -/
theorem dotless_module_dropped : Reaches (twoPackages [112]) [112] (ascii ['p', '/', 'u']) ∧
    isStdlibOrKnownExternalPkg fmtOnly (ascii ['p', '/', 'u']) = false ∧
    ((twoPackages [112]).find (ascii ['p', '/', 'u'])).map (·.compiledGoFiles) = some [ascii ['u']] ∧
    ascii ['u'] ∉ sourceFiles (twoPackages [112]) [112] ∧
    ∃ disk disk' : Bytes → Option Bytes, (∀ f, f ≠ ascii ['u'] → disk f = disk' f) ∧
      disk (ascii ['u']) ≠ disk' (ascii ['u']) ∧
      sourceStream disk (sourceFiles (twoPackages [112]) [112]) =
        sourceStream disk' (sourceFiles (twoPackages [112]) [112]) := by
  refine ⟨.single ⟨_, rfl, List.mem_cons_of_mem _ List.mem_cons_self⟩, by decide, by decide,
    by decide, fun _ => some [], fun f => if f = ascii ['u'] then some [1] else some [], ?_,
    by decide, by decide⟩
  intro f hf
  simp [hf]

/-! ## §3. Separation -/

/-- The files and what is in them, in the order in which they are written. -/
def entries (disk : Bytes → Option Bytes) (files : List Bytes) : List (Bytes × Option Bytes) :=
  (sortStrings files).map fun f => (f, disk f)

/-- What is written for an entry. -/
def entryText (e : Bytes × Option Bytes) : Bytes := fileEntry (fun _ => e.2) e.1

/-- The same paths, with the same contents. -/
def SameSources (disk disk' : Bytes → Option Bytes) (files files' : List Bytes) : Prop :=
  (∀ f, f ∈ files ↔ f ∈ files') ∧ ∀ f ∈ files, disk f = disk' f

theorem sourceStream_eq_flatMap {disk : Bytes → Option Bytes} :
    sourceStream disk files = (entries disk files).flatMap entryText := by
  rw [entries, List.flatMap_map]
  rfl

theorem sameSources_of_entries {files files' : List Bytes}
    (h : entries disk files = entries disk' files') : SameSources disk disk' files files' := by
  have hmem (d : Bytes → Option Bytes) (fs : List Bytes) (f : Bytes) (c : Option Bytes) :
      (f, c) ∈ entries d fs ↔ f ∈ fs ∧ d f = c := by
    have hperm : f ∈ sortStrings fs ↔ f ∈ fs := (List.perm_insertionSort _ fs).mem_iff
    simp [entries, hperm]
  refine ⟨fun f => ⟨fun hf => ?_, fun hf => ?_⟩, fun f hf => ?_⟩
  · exact ((hmem disk' files' f _).mp (h ▸ (hmem disk files f _).mpr ⟨hf, rfl⟩)).1
  · exact ((hmem disk files f _).mp (h ▸ (hmem disk' files' f _).mpr ⟨hf, rfl⟩)).1
  · exact ((hmem disk' files' f _).mp (h ▸ (hmem disk files f _).mpr ⟨hf, rfl⟩)).2.symm

end Giri.Cache
