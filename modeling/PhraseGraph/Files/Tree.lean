import PhraseGraph.Dict
import PhraseGraph.Failure
import PhraseGraph.Files.Path

/-!
# Trees of files

The files that a program reads and writes, as a value: the entry of each absolute path, and the
directory that relative paths start at. Paths are resolved piece by piece, where each piece has to
follow a directory. The length of a path and of its pieces is limited, in bytes.
-/

namespace PhraseGraph

/-- What a path names. -/
inductive FileEntry where
  /-- A file with its content. -/
  | file (content : ByteArray)
  /-- A directory. -/
  | directory

/-- Files and directories. -/
structure FileTree where
  /-- The entries by resolved path: a slash in front of each piece. The root has no entry. -/
  entries : Dict String FileEntry := ∅
  /-- The resolved path that relative paths start at. -/
  here : String := ""
deriving Inhabited

namespace FileTree

/-- The entry of a resolved path. -/
def entry? (t : FileTree) (resolved : String) : Option FileEntry :=
  if resolved.isEmpty then some .directory else t.entries.get? resolved

/-- The resolved path above another one. The root is above itself. -/
def above (resolved : String) : String :=
  "/".intercalate (Path.pieces resolved).dropLast

/-- The bytes that a piece of a path can have. -/
def pieceLimit : Nat := 255

/-- The bytes that a path can have. -/
def pathLimit : Nat := 4095

/-- Follows one piece of a path, which has to be in a directory. -/
def follow (t : FileTree) (resolved piece : String) : Except FileFault String :=
  match t.entry? resolved with
  | none => .error .notFound
  | some (.file _) => .error .notADirectory
  | some .directory =>
    if piece == "" || piece == "." then .ok resolved
    else if piece == ".." then .ok (above resolved)
    else if piece.utf8ByteSize > pieceLimit then .error .nameTooLong
    else .ok (resolved ++ "/" ++ piece)

/-- The resolved form of a path, at which there may be no entry. -/
def resolve (t : FileTree) (path : String) : Except FileFault String :=
  if path.toList.contains (Char.ofNat 0) then .error .zeroByte
  else if path.isEmpty then .error .notFound
  else if path.utf8ByteSize > pathLimit then .error .nameTooLong
  else (Path.pieces path).foldlM t.follow (if Path.isAbsolute path then "" else t.here)

/-- The entry that a path names. -/
def find (t : FileTree) (path : String) : Except FileFault FileEntry := do
  match t.entry? (← t.resolve path) with
  | some entry => return entry
  | none => throw .notFound

/-- The text of a file. -/
def readText (t : FileTree) (path : String) : Except FileFault String := do
  match ← t.find path with
  | .directory => throw .isADirectory
  | .file content =>
    match String.fromUTF8? content with
    | some text => return text
    | none => throw .notText

/-- The name of a resolved path that stands directly below another one. -/
def childName? (directory resolved : String) : Option String :=
  let path := (directory ++ "/").toList
  if path.isPrefixOf resolved.toList then
    let name := resolved.toList.drop path.length
    if name.contains '/' then none else some (String.ofList name)
  else none

/-- The names of the files in a directory, sorted. -/
def fileNames (t : FileTree) (path : String) : Except FileFault (List String) := do
  let resolved ← t.resolve path
  match t.entry? resolved with
  | none => throw .notFound
  | some (.file _) => throw .notADirectory
  | some .directory =>
    return t.entries.entries.filterMap fun (key, entry) =>
      match entry with
      | .file _ => childName? resolved key
      | .directory => none

/-- The tree with a file written, in a directory that exists. -/
def write (t : FileTree) (path : String) (content : ByteArray) : Except FileFault FileTree := do
  let resolved ← t.resolve path
  match t.entry? resolved, t.entry? (above resolved) with
  | some .directory, _ => throw .isADirectory
  | _, some .directory => return { t with entries := t.entries.insert resolved (.file content) }
  | _, some (.file _) => throw .notADirectory
  | _, none => throw .notFound

/-- The names on the way from the root to a path that is taken by its names, whatever they name. -/
def namesTo (t : FileTree) (path : String) : List String :=
  (Path.pieces path).foldl (fun names piece =>
    if piece == "" || piece == "." then names
    else if piece == ".." then names.dropLast
    else names ++ [piece])
    (if Path.isAbsolute path then [] else (Path.pieces t.here).filter fun piece => piece != "")

/-- The resolved paths of which each is one piece longer than the one before. -/
def steps (resolved : String) : List String → List String
  | [] => []
  | piece :: rest => (resolved ++ "/" ++ piece) :: steps (resolved ++ "/" ++ piece) rest

/-- The tree with an entry at a path, and with the directories above. -/
def plant (t : FileTree) (path : String) (entry : FileEntry) : FileTree :=
  let paths := steps "" (t.namesTo path)
  { t with
    entries := match paths.getLast? with
      | none => t.entries
      | some last =>
        let above := paths.dropLast.foldl (fun d path => d.insert path .directory) t.entries
        above.insert last entry }

/-- Whether a resolved path is below another one. -/
def isBelow (directory resolved : String) : Bool :=
  (directory ++ "/").toList.isPrefixOf resolved.toList

/-- The tree without the entries for which `p` holds. -/
def drop (t : FileTree) (p : String → Bool) : FileTree :=
  { t with entries := t.entries.filter fun key _ => !p key }

/-- The tree without what a path names and all that is below it. A directory stays, and is empty, if
    the path does not end in a name or leads through what is below. -/
def remove (t : FileTree) (path : String) : FileTree :=
  match t.resolve path with
  | .error _ => t
  | .ok resolved =>
    let emptied := t.drop (isBelow resolved)
    if Path.endsInName path && (emptied.resolve path).toBool then emptied.drop (· == resolved)
    else emptied

/-- The text of a file, where a fault is blamed on the file. -/
def load (t : FileTree) (path : String) : Except Failure String :=
  match t.readText path with
  | .ok text => .ok text
  | .error fault => .error (.inFile path (.access fault))

/-- The paths of the files in a directory with the given extension, sorted. -/
def filesWith (t : FileTree) (extension directory : String) : Except Failure (List String) :=
  match t.fileNames directory with
  | .error fault => .error (.inFile directory (.access fault))
  | .ok names =>
    .ok ((names.map (Path.join directory)).filter fun path =>
      Path.extension? path == some extension)

end FileTree

end PhraseGraph
