/-!
Files by relative path.

A tree holds the contents of files and the directories around them.  Reading a path walks
its parts from the root of the tree: an empty part and a single dot stay where they are, and
two dots go back.  Every step but the last must lead to a directory, and so must the last
one before a slash at the end.  The directories around the tree are there, but nothing is
known in them.
-/

namespace LessonScript

/-- How a path is read: the text behind it, or the reason why there is none. -/
abbrev FileReader := String → Except String String

inductive FileFault where
  | missing
  | isDirectory
  | notDirectory
  | nameTooLong
  | invalidName
  | invalidText
  deriving DecidableEq

namespace FileFault

def message : FileFault → String
  | missing => "No such file or directory (os error 2)"
  | isDirectory => "Is a directory (os error 21)"
  | notDirectory => "Not a directory (os error 20)"
  | nameTooLong => "File name too long (os error 36)"
  | invalidName => "file name contained an unexpected NUL byte"
  | invalidText => "stream did not contain valid UTF-8"

end FileFault

structure FileTree where
  files : List (List String × ByteArray)
  directories : List (List String)

namespace FileTree

def empty : FileTree :=
  ⟨[], []⟩

def partsOf (path : String) : List String :=
  (path.splitOn "/").filter fun part => part != "" && part != "."

/-- The tree with one more entry; a path with a slash at the end is a directory. -/
def insert (tree : FileTree) (path : String) (contents : ByteArray) : FileTree :=
  let parts := partsOf path
  let around := (List.range parts.length).map parts.take
  if path.endsWith "/" then { tree with directories := parts :: around ++ tree.directories }
  else { files := (parts, contents) :: tree.files, directories := around ++ tree.directories }

def isDirectory (tree : FileTree) (parts : List String) : Bool :=
  parts.all (· == "..") || tree.directories.contains parts

/-- Walks from one place of the tree along further parts.  The place that is reached is
given by its parts, the last one first. -/
def walk (tree : FileTree) : List String → List String → Except FileFault (List String)
  | place, [] => .ok place
  | place, part :: rest =>
    if tree.isDirectory place.reverse then
      if 255 < part.utf8ByteSize then .error .nameTooLong
      else if part = ".." then
        if place.all (· == "..") then walk tree (part :: place) rest
        else walk tree place.tail rest
      else
        let next := part :: place
        if tree.isDirectory next.reverse || (tree.files.lookup next.reverse).isSome then
          walk tree next rest
        else .error .missing
    else .error .notDirectory

def contents? (tree : FileTree) (path : String) : Except FileFault ByteArray := do
  if path.toList.contains '\x00' then .error .invalidName
  else if path.isEmpty then .error .missing
  else if 4096 ≤ path.utf8ByteSize then .error .nameTooLong
  else
    let place ← tree.walk [] (partsOf path)
    if tree.isDirectory place.reverse then .error .isDirectory
    else if path.endsWith "/" || path.endsWith "/." then .error .notDirectory
    else match tree.files.lookup place.reverse with
      | some contents => .ok contents
      | none => .error .missing

def text? (tree : FileTree) (path : String) : Except FileFault String := do
  match String.fromUTF8? (← tree.contents? path) with
  | some text => .ok text
  | none => .error .invalidText

def reader (tree : FileTree) : FileReader := fun path =>
  (tree.text? path).mapError FileFault.message

end FileTree

end LessonScript
