import NameSearch.Input

/-!
# Files and the paths to them

Files are kept by the names on the way from the root to them.  A path is followed step by step from
the root or from the folder that the program runs in, and every step but the last has to end at a
folder.  Behind a last step that is followed by a slash only a folder is looked for, and nothing is
created.
-/

namespace NameSearch

/-- Why a path cannot be used. -/
inductive PathFault where
  /-- Nothing is there, or not the folder it should be created in. -/
  | missing
  /-- The path leads on from a file. -/
  | notFolder
  /-- The path leads to a folder. -/
  | isFolder
  /-- The path, or a name in it, is too long. -/
  | tooLong
  /-- A NUL character stands in the path. -/
  | holdsNul
  /-- The system gives another reason. -/
  | refused (reason : String)
  deriving DecidableEq

/-- Description of a fault. -/
def PathFault.message : PathFault → String
  | missing => "No such file or directory (os error 2)"
  | notFolder => "Not a directory (os error 20)"
  | isFolder => "Is a directory (os error 21)"
  | tooLong => "File name too long (os error 36)"
  | holdsNul => "file name contained an unexpected NUL byte"
  | refused reason => reason

namespace Path

/-- Number of bytes from which on a path is too long. -/
def lengthBound : Nat := 4096

/-- Number of bytes from which on a name is too long. -/
def nameBound : Nat := 256

/-- The parts of a path between its slashes. -/
def parts (path : List Char) : List (List Char) :=
  path.foldr
    (fun character parts =>
      if character = '/' then [] :: parts
      else
        match parts with
        | [] => [[character]]
        | part :: later => (character :: part) :: later)
    [[]]

/-- The steps that a path takes; slashes side by side are one. -/
def steps (path : String) : List String :=
  ((parts path.toList).filter fun part => !part.isEmpty).map String.ofList

/-- Whether a path starts at the root. -/
def isAbsolute (path : String) : Bool := path.toList.head? == some '/'

/-- Whether a slash stands behind the last step. -/
def endsInSlash (path : String) : Bool := path.toList.getLast? == some '/'

end Path

/-- Some files and the folder that the program runs in.  Folders are there by what is in them. -/
structure FileTree where
  /-- The way from the root to the folder that the program runs in. -/
  home : List String
  /-- The ways to the files, which are distinct, and their contents. -/
  files : List (List String × Bytes) := []
  deriving DecidableEq

namespace FileTree

/-- Content of the file at the end of a way. -/
def content? (tree : FileTree) (way : List String) : Option Bytes := tree.files.lookup way

/-- Whether a way leads to a folder: the home folder is at its end or behind it, or a file is
behind it. -/
def isFolder (tree : FileTree) (way : List String) : Bool :=
  way.isPrefixOf tree.home
    || tree.files.any fun file => way.isPrefixOf file.1 && way.length < file.1.length

/-- What can be found at the end of a way. -/
inductive Spot where
  /-- A folder. -/
  | folder
  /-- A file with its content. -/
  | file (content : Bytes)
  /-- Nothing. -/
  | free
  deriving DecidableEq

/-- Look for a name in the folder at the end of a way. -/
def find (tree : FileTree) (way : List String) (name : String) : Except PathFault Spot :=
  if Path.nameBound ≤ name.utf8ByteSize then .error .tooLong
  else if tree.isFolder (way ++ [name]) then .ok .folder
  else
    match tree.content? (way ++ [name]) with
    | some content => .ok (.file content)
    | none => .ok .free

/-- Take one step from a folder to a folder: a dot stays and two dots go back. -/
def enter (tree : FileTree) (way : List String) (step : String) :
    Except PathFault (List String) :=
  if step = "." then .ok way
  else if step = ".." then .ok way.dropLast
  else
    match tree.find way step with
    | .error fault => .error fault
    | .ok .folder => .ok (way ++ [step])
    | .ok (.file _) => .error .notFolder
    | .ok .free => .error .missing

/-- Where a path leads. -/
inductive Target where
  /-- To a folder, since its last step is no name. -/
  | folder
  /-- To a name in the folder at the end of a way. -/
  | name (way : List String) (name : String)
  deriving DecidableEq

/-- Follow a path up to its last step. -/
def follow (tree : FileTree) (path : String) : Except PathFault Target :=
  if path.toList.contains '\x00' then .error .holdsNul
  else if path.isEmpty then .error .missing
  else if Path.lengthBound ≤ path.utf8ByteSize then .error .tooLong
  else
    let start := if Path.isAbsolute path then [] else tree.home
    match (Path.steps path).getLast? with
    | none => .ok .folder
    | some last =>
      match (Path.steps path).dropLast.foldlM tree.enter start with
      | .error fault => .error fault
      | .ok way => .ok (if last = "." || last = ".." then .folder else .name way last)

/-- Open a path for reading.  A folder can be opened but not read. -/
def openInput (tree : FileTree) (path : String) : Except PathFault Input :=
  let folder : Input := ⟨[], some PathFault.isFolder.message⟩
  match tree.follow path with
  | .error fault => .error fault
  | .ok .folder => .ok folder
  | .ok (.name way name) =>
    match tree.find way name with
    | .error fault => .error fault
    | .ok .folder => .ok folder
    | .ok (.file content) =>
      if Path.endsInSlash path then .error .notFolder else .ok ⟨content, none⟩
    | .ok .free => .error .missing

/-- Replace the content of a file, or create it. -/
def put (tree : FileTree) (way : List String) (content : Bytes) : FileTree :=
  if (tree.content? way).isSome then
    { tree with
      files := tree.files.map fun file => if file.1 == way then (way, content) else file }
  else { tree with files := tree.files ++ [(way, content)] }

/-- Write a file at a path.  A path that ends in a slash is taken for a folder before anything is
looked for there. -/
def save (tree : FileTree) (path : String) (content : Bytes) : Except PathFault FileTree :=
  match tree.follow path with
  | .error fault => .error fault
  | .ok .folder => .error .isFolder
  | .ok (.name way name) =>
    if Path.endsInSlash path then .error .isFolder
    else
      match tree.find way name with
      | .error fault => .error fault
      | .ok .folder => .error .isFolder
      | .ok _ => .ok (tree.put (way ++ [name]) content)

end FileTree
end NameSearch
