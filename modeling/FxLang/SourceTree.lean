import FxLang.Cli

/-!
# Source files in memory

A tree of files that a run of the command line can read in place of a disk. Only files are stored; a
directory is whatever a stored path leads through. Paths are resolved part by part: `.` and empty
parts stay, `..` goes up, and every part needs a directory to start from. Above the root nothing is
known but that there are directories.
-/

namespace FxLang

open Cli (ReadFailure)

/-- Files with their paths from the root and their bytes. -/
structure SourceTree where
  files : List (List String × ByteArray)

namespace SourceTree

/-- The tree of files given by path and content. -/
def ofFiles (files : List (String × ByteArray)) : SourceTree :=
  { files := files.map fun file => (Cli.pathParts file.1, file.2) }

/-- A place that a path leads to. -/
inductive Place where
  /-- The entry at a path from the root. -/
  | entry (path : List String)
  /-- A directory outside the tree. -/
  | outside
deriving DecidableEq, Repr

/-- The bytes of the file at a path. -/
def file? (tree : SourceTree) (path : List String) : Option ByteArray :=
  tree.files.lookup path

/-- A stored path leads through this one. -/
def isDirectory (tree : SourceTree) (path : List String) : Bool :=
  path.isEmpty || tree.files.any fun file => path.length < file.1.length && path.isPrefixOf file.1

/-- Fails at a place that is no directory. -/
def requireDirectory (tree : SourceTree) : Place → Except ReadFailure Unit
  | .outside => .ok ()
  | .entry path =>
    if tree.isDirectory path then .ok ()
    else if (tree.file? path).isSome then .error .notADirectory
    else .error .notFound

/-- The most bytes that a name may have. -/
def maxNameBytes : Nat := 255

/-- The most bytes that a path may have. -/
def maxPathBytes : Nat := 4095

/-- Follows one part of a path out of a directory. -/
def step (place : Place) (part : String) : Except ReadFailure Place :=
  if part = "" || part = "." then .ok place
  else if maxNameBytes < part.utf8ByteSize then .error .nameTooLong
  else
    match place with
    | .outside => if part = ".." then .ok .outside else .error .notFound
    | .entry path =>
      if part = ".." then .ok (if path.isEmpty then .outside else .entry path.dropLast)
      else .ok (.entry (path ++ [part]))

/-- Follows the parts of a path, each of which needs a directory. -/
def walk (tree : SourceTree) : Place → List String → Except ReadFailure Place
  | place, [] => .ok place
  | place, part :: parts => do
    tree.requireDirectory place
    let place ← step place part
    tree.walk place parts

/-- The place that a path leads to, from the root or, behind a leading `/`, from outside. -/
def find (tree : SourceTree) (path : String) : Except ReadFailure Place :=
  if path = "" then .error .notFound
  else if maxPathBytes < path.utf8ByteSize then .error .nameTooLong
  else
    let start : Place := if path.toList.head? = some '/' then .outside else .entry []
    tree.walk start ((Text.split '/' path.toList).map String.ofList)

/-- The source at a path. -/
def read (tree : SourceTree) (path : String) : Except ReadFailure String := do
  match ← tree.find path with
  | .outside => throw .isDirectory
  | .entry path =>
    match tree.file? path with
    | some bytes =>
      match String.fromUTF8? bytes with
      | some source => pure source
      | none => throw .notText
    | none => throw (if tree.isDirectory path then .isDirectory else .notFound)

end SourceTree

end FxLang
