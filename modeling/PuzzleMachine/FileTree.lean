set_option autoImplicit false

namespace PuzzleMachine

inductive ReadError where
  | notFound
  | notDirectory
  | nameTooLong
  | isDirectory
  | notText
  | zeroInPath
  | system (reason : String)
deriving DecidableEq, Repr

def ReadError.message : ReadError → String
  | .notFound => "No such file or directory (os error 2)"
  | .notDirectory => "Not a directory (os error 20)"
  | .nameTooLong => "File name too long (os error 36)"
  | .isDirectory => "Is a directory (os error 21)"
  | .notText => "stream did not contain valid UTF-8"
  | .zeroInPath => "file name contained an unexpected NUL byte"
  | .system reason => reason

structure FileTree where
  files : List (List String × ByteArray)

namespace FileTree

def workingPlace : List String := ["tmp", "working-directory"]

def standardPlaces : List (List String) :=
  workingPlace :: [["bin"], ["boot"], ["dev", "pts"], ["dev", "shm"], ["etc"], ["home"], ["lib"],
    ["media"], ["mnt"], ["opt"], ["proc"], ["root"], ["run"], ["sbin"], ["srv"], ["sys"],
    ["usr", "bin"], ["usr", "lib"], ["usr", "local", "bin"], ["usr", "sbin"], ["usr", "share"],
    ["var", "lib"], ["var", "log"], ["var", "tmp"]]

def nullDevice : List String := ["dev", "null"]

def names (path : String) : List String :=
  (path.splitOn "/").filter fun name => name ≠ "" ∧ name ≠ "."

def ofList (files : List (String × ByteArray)) : FileTree :=
  ⟨files.map fun (path, bytes) => (workingPlace ++ names path, bytes)⟩

def file? (t : FileTree) (place : List String) : Option ByteArray :=
  if place = nullDevice then some .empty else t.files.lookup place

def hasDirectory (t : FileTree) (place : List String) : Bool :=
  standardPlaces.any place.isPrefixOf ||
    t.files.any fun (path, _) => place.isPrefixOf path && place != path

def maxName : Nat := 255

def maxPath : Nat := 4095

def follow (t : FileTree) : List String → List String → Except ReadError (List String)
  | place, [] => .ok place
  | place, name :: rest =>
      -- Every name needs a directory to start from, and the root is its own parent.
      if !t.hasDirectory place then
        .error (if (t.file? place).isSome then .notDirectory else .notFound)
      else if name = "" ∨ name = "." then follow t place rest
      else if name = ".." then follow t place.dropLast rest
      else if maxName < name.utf8ByteSize then .error .nameTooLong
      else follow t (place ++ [name]) rest

def read (t : FileTree) (path : String) : Except ReadError String := do
  if path.toList.contains '\x00' then throw .zeroInPath
  if maxPath < path.utf8ByteSize then throw .nameTooLong
  if path = "" then throw .notFound
  let place ← t.follow (if path.startsWith "/" then [] else workingPlace) (path.splitOn "/")
  match t.file? place with
  | some bytes =>
      match String.fromUTF8? bytes with
      | some text => return text
      | none => throw .notText
  | none => throw (if t.hasDirectory place then .isDirectory else .notFound)

end FileTree
end PuzzleMachine
