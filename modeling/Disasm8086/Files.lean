/-
Files by path. Reading fails for the usual reasons, each with the text
that the operating system has for it.

A file tree is a directory that is known completely. Paths in it are
resolved component by component, as a file system does it: every
component but the last has to name a directory.
-/

namespace Disasm8086

-- ============================================================== errors

/-- Why a file cannot be read. -/
inductive FileError.Kind where
  | notFound
  | isADirectory
  | notADirectory
  | nameTooLong
  | invalidData
  | other
  deriving DecidableEq, Repr

/-- A reason and the text that explains it. -/
structure FileError where
  kind : FileError.Kind
  message : String
  deriving DecidableEq, Repr

namespace FileError

/-- Nothing has the path. -/
def noSuchFile : FileError := ⟨.notFound, "No such file or directory (os error 2)"⟩

/-- The path leads through a file. -/
def notDirectory : FileError := ⟨.notADirectory, "Not a directory (os error 20)"⟩

/-- The path leads to a directory. -/
def directory : FileError := ⟨.isADirectory, "Is a directory (os error 21)"⟩

/-- The path, or a component of it, has too many bytes. -/
def tooLong : FileError := ⟨.nameTooLong, "File name too long (os error 36)"⟩

/-- The file does not hold text. -/
def notText : FileError := ⟨.invalidData, "stream did not contain valid UTF-8"⟩

end FileError

/-- The text that bytes encode in UTF-8. -/
def decodeText (bytes : List UInt8) : Except FileError String :=
  match String.fromUTF8? ⟨bytes.toArray⟩ with
  | some text => .ok text
  | none => .error .notText

/-- Access to files in some monad. -/
structure FileAccess (m : Type → Type) where
  readFile : String → m (Except FileError (List UInt8))
  pathExists : String → m Bool

-- =============================================================== paths

namespace Path

/-- The most bytes that a component may have. -/
def componentLimit : Nat := 255

/-- The most bytes that a path may have. -/
def limit : Nat := 4095

/-- The components of a path, empty ones left out. -/
def components (path : String) : List String :=
  (path.splitOn "/").filter (!·.isEmpty)

/-- The components of a path that lead on. -/
def plain (path : String) : List String := (components path).filter (· != ".")

/-- The last component of a path, unless it names no file of its own. -/
def fileName (path : String) : String :=
  match (plain path).getLast? with
  | some ".." | none => ""
  | some name => name

end Path

-- =============================================================== trees

/-- A directory with its files and directories, named by their paths. -/
structure FileTree where
  files : List (List String × List UInt8)
  directories : List (List String)

namespace FileTree

/-- The tree with the given files and directories. A directory that holds
a file need not be listed. -/
def ofPaths (files : List (String × List UInt8)) (directories : List String) : FileTree where
  files := files.map fun (path, bytes) => (Path.plain path, bytes)
  directories := directories.map Path.plain

/-- What a path leads to. -/
inductive Place where
  | file (bytes : List UInt8)
  | directory (path : List String)
  /-- A directory above the tree, of which nothing else is known. -/
  | outside

/-- Whether a path names a directory of the tree. -/
def isDirectory (t : FileTree) (path : List String) : Bool :=
  path.isEmpty || t.directories.any (path.isPrefixOf ·) ||
    t.files.any fun (file, _) => path.isPrefixOf file && path != file

/-- What a path without dots names. -/
def find (t : FileTree) (path : List String) : Except FileError Place :=
  match t.files.find? (·.1 == path) with
  | some (_, bytes) => .ok (.file bytes)
  | none => if t.isDirectory path then .ok (.directory path) else .error .noSuchFile

/-- One step along a path. -/
def step (t : FileTree) (place : Place) (component : String) : Except FileError Place :=
  match place with
  | .file _ => .error .notDirectory
  | .outside =>
    if component = "." ∨ component = ".." then .ok .outside
    else if Path.componentLimit < component.utf8ByteSize then .error .tooLong
    else .error .noSuchFile
  | .directory path =>
    if component = "." then .ok place
    else if component = ".." then
      .ok (if path.isEmpty then .outside else .directory path.dropLast)
    else if Path.componentLimit < component.utf8ByteSize then .error .tooLong
    else t.find (path ++ [component])

/-- What a path leads to, seen from the root of the tree. A slash at the
end asks for a directory; the empty path leads nowhere. -/
def resolve (t : FileTree) (path : String) : Except FileError Place := do
  if path.isEmpty then
    throw .noSuchFile
  if Path.limit < path.utf8ByteSize then
    throw .tooLong
  let start := if path.startsWith "/" then .outside else .directory []
  match ← (Path.components path).foldlM t.step start with
  | .file bytes => if path.endsWith "/" then throw .notDirectory else return .file bytes
  | place => return place

/-- The contents of the file at a path. -/
def read (t : FileTree) (path : String) : Except FileError (List UInt8) := do
  match ← t.resolve path with
  | .file bytes => return bytes
  | _ => throw .directory

/-- The contents of the file with a name in the tree; the empty name
stands for the tree itself. -/
def readIn (t : FileTree) (name : String) : Except FileError (List UInt8) :=
  if name.isEmpty then .error .directory else t.read name

/-- Whether a path leads anywhere. -/
def hasPath (t : FileTree) (path : String) : Bool := (t.resolve path).isOk

/-- The tree as a file system. -/
def access (t : FileTree) : FileAccess Id where
  readFile path := t.read path
  pathExists path := t.hasPath path

end FileTree

end Disasm8086
