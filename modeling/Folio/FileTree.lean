import Folio.Error
import Folio.Path

/-! Trees of files and directories. Paths are relative to the root of the tree; what is outside is taken
for an empty directory. -/
namespace Folio

inductive FileTree where
  | file (bytes : ByteArray)
  | directory (entries : List (String × FileTree))
  deriving Inhabited

namespace FileTree

def empty : FileTree :=
  .directory []

/-! ### Reading -/

/-- The most bytes that a name has. -/
def maxNameBytes : Nat := 255

/-- More bytes than any path has. -/
def maxPathBytes : Nat := 4096

/-- Goes along the parts of a path. `around` holds the directories that lead here, the innermost one
first. -/
def walk (around : List FileTree) (here : FileTree) : List (List Char) → Except FileError FileTree
  | [] => .ok here
  | part :: parts =>
    match here, Path.component? part with
    | .file _, _ => .error .notDirectory
    | .directory entries, some (.name name) =>
      if maxNameBytes < (String.ofList name).utf8ByteSize then .error .nameTooLong
      else
        match Fields.find? (String.ofList name) entries with
        | some next => walk (here :: around) next parts
        | none => .error .notFound
    | .directory _, some _ => walk around.tail (around.headD empty) parts
    | .directory _, none => walk around here parts

/-- The file or directory at a path. No path holds the character zero. -/
def at? (files : FileTree) (path : String) : Except FileError FileTree :=
  if path.toList.contains '\x00' then .error .invalidPath
  else if maxPathBytes ≤ path.utf8ByteSize then .error .nameTooLong
  else walk [] (if Path.isAbsolute path then empty else files) (Text.splitOn '/' path.toList)

def isDirectoryAt (files : FileTree) (path : String) : Bool :=
  files.at? path matches .ok (.directory _)

/-- The text of bytes. -/
def textOf (bytes : ByteArray) : Except FileError String :=
  match String.fromUTF8? bytes with
  | some text => .ok text
  | none => .error .invalidText

/-- The text of the file at a path. -/
def read (files : FileTree) (path : String) : Except FileError String :=
  match files.at? path with
  | .ok (.file bytes) => textOf bytes
  | .ok (.directory _) => .error .isDirectory
  | .error error => .error error

/-- The text of the file at a path, which need not exist. -/
def readIfPresent (files : FileTree) (path : String) : Except FileError (Option String) :=
  match files.read path with
  | .ok text => .ok (some text)
  | .error .notFound => .ok none
  | .error error => .error error

mutual

/-- The number of bytes in all files. -/
def size : FileTree → Nat
  | .file bytes => bytes.size
  | .directory entries => sizes entries

def sizes : List (String × FileTree) → Nat
  | [] => 0
  | (_, tree) :: entries => tree.size + sizes entries

end

/-- Names with a point in front are hidden. -/
def isHidden (name : String) : Bool :=
  name.toList.head? = some '.'

mutual

/-- The files of a tree that are not hidden, in the order of their names, with the names that lead to
them. -/
def visible : FileTree → List (List String × ByteArray)
  | .file bytes => [([], bytes)]
  | .directory entries => visibleEntries entries

def visibleEntries : List (String × FileTree) → List (List String × ByteArray)
  | [] => []
  | (name, tree) :: entries =>
    (if isHidden name then [] else tree.visible.map (fun (names, bytes) => (name :: names, bytes))) ++
      visibleEntries entries

end

/-! ### Writing -/

/-- The names that lead to a path. -/
def names (path : String) : List String :=
  (Path.components path).foldl (fun names component =>
    match component with
    | .name text => names ++ [String.ofList text]
    | .parent => names.dropLast
    | .current => names
    | .root => []) []

/-- Changes what is at the end of the names. Directories on the way that do not exist are made, and so is an
empty one at the end; a file on the way leaves the tree as it is. -/
def changeAt (change : FileTree → FileTree) : List String → FileTree → FileTree
  | [], here => change here
  | name :: names, .directory entries =>
    let inner := (Fields.find? name entries).getD empty
    .directory (Fields.put name (changeAt change names inner) entries)
  | _ :: _, .file bytes => .file bytes

/-- Writes a file. -/
def write (files : FileTree) (path : String) (bytes : ByteArray) : FileTree :=
  changeAt (fun _ => .file bytes) (names path) files

/-- Makes a directory. -/
def makeDirectory (files : FileTree) (path : String) : FileTree :=
  changeAt id (names path) files

/-- Removes what is at the end of the names. -/
def removeAt : List String → FileTree → FileTree
  | name :: names, .directory entries =>
    match names, Fields.find? name entries with
    | [], _ => .directory (Fields.erase name entries)
    | _ :: _, some inner => .directory (Fields.put name (removeAt names inner) entries)
    | _ :: _, none => .directory entries
  | _, here => here

/-- Removes a file, or a directory with all that is in it. -/
def remove (files : FileTree) (path : String) : FileTree :=
  removeAt (names path) files

end FileTree

end Folio
