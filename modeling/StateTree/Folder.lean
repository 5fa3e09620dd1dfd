import StateTree.Log

/-!
A folder of files, and writing a file only where its text changes. Paths are followed part by part
from the folder itself: an empty part and a dot stay, two dots go up, and every part but the last
has to be a folder.
-/

namespace StateTree

inductive FileError
  | notFound
  | isADirectory
  | notADirectory
  | invalidData
  | invalidInput
  | invalidFilename
  deriving DecidableEq

/-- The names from the folder itself down to a file or to a folder in it. -/
abbrev Path := List String

/-- Files by their paths, and the folders among them. The folder itself has the empty path. -/
structure Folder where
  files : List (Path × ByteArray) := []
  folders : List Path := []

/-- Where the text of a path leads. A path to nothing may end in a slash, as that of a folder. -/
inductive Spot
  | folder (path : Path)
  | file (path : Path) (bytes : ByteArray)
  | absent (path : Path) (slash : Bool)

namespace Folder

/-- The most bytes that a name may have. -/
def longestName : Nat := 255

/-- The most bytes that the text of a path may have. -/
def longestPath : Nat := 4095

def isFolder (f : Folder) (p : Path) : Bool := p = [] || p ∈ f.folders

/-- Follows parts from the folder at `here`, which exists. -/
def follow (f : Folder) : Path → List String → Except FileError Spot
  | here, [] => .ok (.folder here)
  | here, part :: rest =>
    if part = "" || part = "." then f.follow here rest
    else if part = ".." then f.follow here.dropLast rest
    else if longestName < part.utf8ByteSize then .error .invalidFilename
    else
      let next := here ++ [part]
      if f.isFolder next then f.follow next rest
      else
        match f.files.lookup next with
        | some bytes => if rest.isEmpty then .ok (.file next bytes) else .error .notADirectory
        | none =>
          if rest.all (· = "") then .ok (.absent next (!rest.isEmpty)) else .error .notFound

/-- A path holds no null character. -/
def locate (f : Folder) (path : String) : Except FileError Spot :=
  if path.contains '\x00' then .error .invalidInput
  else if longestPath < path.utf8ByteSize then .error .invalidFilename
  else f.follow [] (path.splitOn "/")

def readBytes (f : Folder) (path : String) : Except FileError ByteArray :=
  match f.locate path with
  | .error e => .error e
  | .ok (.folder _) => .error .isADirectory
  | .ok (.file _ bytes) => .ok bytes
  | .ok (.absent _ _) => .error .notFound

/-- The text of a file; its bytes have to be UTF-8. -/
def readText (f : Folder) (path : String) : Except FileError String :=
  match f.readBytes path with
  | .error e => .error e
  | .ok bytes =>
    match String.fromUTF8? bytes with
    | some text => .ok text
    | none => .error .invalidData

/-- Gives a file its bytes, which replace those that it had. -/
def put (f : Folder) (p : Path) (bytes : ByteArray) : Folder :=
  { f with files := (p, bytes) :: f.files.filter fun file => file.1 ≠ p }

def writeBytes (f : Folder) (path : String) (bytes : ByteArray) : Except FileError Folder :=
  match f.locate path with
  | .error e => .error e
  | .ok (.folder _) | .ok (.absent _ true) => .error .isADirectory
  | .ok (.file p _) | .ok (.absent p false) => .ok (f.put p bytes)

/-- Takes away a file, or a folder with all that is in it. -/
def remove (f : Folder) (path : String) : Folder :=
  match f.locate path with
  | .ok (.folder p) | .ok (.file p _) =>
    ⟨f.files.filter fun file => !p.isPrefixOf file.1, f.folders.filter fun q => !p.isPrefixOf q⟩
  | _ => f

/-- Adds the folders that are missing along parts from the folder at `here`, up to a file. -/
def addFolders (f : Folder) : Path → List String → Folder
  | _, [] => f
  | here, part :: rest =>
    if part = "" || part = "." then f.addFolders here rest
    else if part = ".." then f.addFolders here.dropLast rest
    else
      let next := here ++ [part]
      if f.isFolder next then f.addFolders next rest
      else if (f.files.lookup next).isSome then f
      else { f with folders := next :: f.folders }.addFolders next rest

def makeFolder (f : Folder) (path : String) : Folder := f.addFolders [] (path.splitOn "/")

/-- Writes a text unless the file holds it already; says whether it did. A file that cannot be read
as text is left alone. -/
def update (f : Folder) (path text : String) : Folder × Except FileError Bool :=
  let write : Folder × Except FileError Bool :=
    match f.writeBytes path text.toUTF8 with
    | .ok f => (f, .ok true)
    | .error e => (f, .error e)
  match f.readText path with
  | .ok present => if present = text then (f, .ok false) else write
  | .error .notFound => write
  | .error e => (f, .error e)

/-- What is logged of an update. -/
def updateLine? (path text : String) : Except FileError Bool → Option Line
  | .ok true =>
    some ⟨.debug, "generated file written",
      [("path", path), ("bytes", toString text.utf8ByteSize)]⟩
  | .ok false => some ⟨.debug, "generated file unchanged", [("path", path)]⟩
  | .error _ => none

end Folder

end StateTree
