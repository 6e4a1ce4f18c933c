/-
Giri.Cache.Source — which source files the analysis cache depends on
(`transitiveSourceHash` in loader.go), and which packages the interpreter
takes for the standard library (stdlib.go).

The hash is over the files of the main package and of what it imports,
standard library apart. Two predicates decide what the standard library is:
`isStdlibPkgPath` where the hash walks, by the form of the path alone, and
`isStdlibOrKnownExternalPkg` where a call is interpreted or stubbed, by a
look into GOROOT. SHA-256 is a parameter; what matters is the byte stream
that it is fed.

Go strings are byte strings. The memo table of `isGorootPkg` is left out:
GOROOT does not change during a run.
-/
import Giri.Lib.Framing
import Mathlib.Data.List.Sort

namespace Giri.Cache

open Framing (ascii)

abbrev Bytes : Type := List UInt8

abbrev PkgPath : Type := Bytes

/-! ## §1. The standard library -/

/-- The path up to its first slash. -/
def firstSegment (path : PkgPath) : Bytes :=
  path.takeWhile (· != 47)

/-- `isStdlibPkgPath`: no dot in the first segment. -/
def isStdlibPkgPath (importPath : PkgPath) : Bool :=
  if importPath = [] then false
  else !(firstSegment importPath).contains 46

/-- GOROOT/src: which paths are directories under it; `none` if it is not
there. -/
abbrev Goroot : Type := Option (PkgPath → Bool)

/-- `isGorootPkg`. -/
def isGorootPkg (goroot : Goroot) (pkgPath : PkgPath) : Bool :=
  match goroot with
  | none => true
  | some isDir => isDir pkgPath

/-- `isStdlibOrKnownExternalPkg`. A slash at index 0 does not end the first
segment here. -/
def isStdlibOrKnownExternalPkg (goroot : Goroot) (pkgPath : PkgPath) : Bool :=
  if pkgPath = [] then false
  else
    let first := if firstSegment pkgPath = [] then pkgPath else firstSegment pkgPath
    if !first.contains 46 then isGorootPkg goroot pkgPath
    else (ascii "golang.org/x/".toList).isPrefixOf pkgPath

/-! ## §2. The files -/

/-- `packages.Package`, as far as the walk reads it. The order of `imports`
is the order in which the walk happens to range over the map. -/
structure Package where
  compiledGoFiles : List Bytes
  imports : List PkgPath
  deriving DecidableEq, Repr

/-- The loaded packages by `PkgPath`. A path that is not in the table stands
for a nil `*packages.Package`. -/
abbrev Packages : Type := List (PkgPath × Package)

def Packages.find (ps : Packages) (p : PkgPath) : Option Package :=
  ps.lookup p

/-- The variables `files` and `visited` of `transitiveSourceHash`. -/
structure Walk where
  files : List Bytes := []
  visited : List PkgPath := []
  deriving DecidableEq, Repr

/-- `files[f] = struct{}{}`. -/
def addFile (files : List Bytes) (f : Bytes) : List Bytes :=
  if f ∈ files then files else files ++ [f]

/-- `walk`. A package is entered once, so the depth is bounded by the number
of packages. -/
def walk (ps : Packages) : Nat → PkgPath → Bool → Walk → Walk
  | 0, _, _, w => w
  | fuel + 1, p, isRoot, w =>
    match ps.find p with
    | none => w
    | some pkg =>
      if p ∈ w.visited then w
      else if !isRoot && isStdlibPkgPath p then { w with visited := p :: w.visited }
      else
        pkg.imports.foldl (fun w imp => walk ps fuel imp false w)
          { files := pkg.compiledGoFiles.foldl addFile w.files, visited := p :: w.visited }

/-- The files of the import closure of the root. -/
def sourceFiles (ps : Packages) (root : PkgPath) : List Bytes :=
  (walk ps (ps.length + 1) root true {}).files

/-! ## §3. The hash -/

/-- `sort.Strings`. -/
def sortStrings (files : List Bytes) : List Bytes :=
  files.insertionSort (· ≤ ·)

/-- "F:", the path and a newline. -/
def header (path : Bytes) : Bytes :=
  ascii ['F', ':'] ++ (path ++ [10])

/-- What is written for one file. A file that can't be opened is `none`. -/
def fileEntry (disk : Bytes → Option Bytes) (path : Bytes) : Bytes :=
  match disk path with
  | none => ascii ['E', 'R', 'R', ':'] ++ (path ++ [10])
  | some content => header path ++ content

/-- The bytes that are fed to SHA-256. -/
def sourceStream (disk : Bytes → Option Bytes) (files : List Bytes) : Bytes :=
  (sortStrings files).flatMap (fileEntry disk)

/-- `transitiveSourceHash`, for the hash function `digest` and its hex
encoding; `none` is a nil root. -/
def transitiveSourceHash (digest : Bytes → Bytes) (disk : Bytes → Option Bytes) (ps : Packages)
    (root : Option PkgPath) : Bytes :=
  match root with
  | none => []
  | some root =>
    if sourceFiles ps root = [] then []
    else digest (sourceStream disk (sourceFiles ps root))

end Giri.Cache
