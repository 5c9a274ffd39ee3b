/-!
# Paths

A path is a text of pieces with slashes between them. An empty piece, and a piece of one dot that is
not the first, stand for nothing: they are passed over at the end of a path. A path that begins with
a slash is absolute, all others are relative.
-/

namespace PhraseGraph.Path

/-- The pieces between the slashes, where `piece` is the current one backwards. -/
def splitSlashes (piece : List Char) : List Char → List String
  | [] => [String.ofList piece.reverse]
  | c :: rest =>
    if c == '/' then String.ofList piece.reverse :: splitSlashes [] rest
    else splitSlashes (c :: piece) rest

/-- The pieces of a path. -/
def pieces (path : String) : List String := splitSlashes [] path.toList

/-- Whether the path is absolute. -/
def isAbsolute (path : String) : Bool := path.toList.head? == some '/'

/-- Whether the last piece of the path that is not empty is a name. -/
def endsInName (path : String) : Bool :=
  match ((pieces path).filter fun piece => piece != "").getLast? with
  | none => false
  | some piece => piece != "." && piece != ".."

/-- The second path as it is seen from the first one. -/
def join (base path : String) : String :=
  if isAbsolute path then path
  else if base.isEmpty || base.toList.getLast? == some '/' then base ++ path
  else base ++ "/" ++ path

/-- The pieces of a path from the last one to the first, without those that stand for nothing at its
    end. -/
def dropIdle : List String → List String
  | [] => []
  | [piece] => [piece]
  | piece :: rest => if piece == "" || piece == "." then dropIdle rest else piece :: rest

/-- The pieces of a path from the last one that stands for something to the first. -/
def backwards (path : String) : List String := dropIdle (pieces path).reverse

/-- The path without its last piece. The root and the empty path have none. -/
def parent? (path : String) : Option String :=
  match backwards path with
  | [] => none
  | [piece] => if piece == "" then none else some ""
  | _ :: rest =>
    match dropIdle rest with
    | [""] => some "/"
    | rest => some ("/".intercalate rest.reverse)

/-- The last piece of the path, if it is a name. -/
def fileName? (path : String) : Option String :=
  (backwards path).head?.filter fun piece => piece != "" && piece != "." && piece != ".."

/-- The texts before and after the last dot. -/
def splitDot? : List Char → Option (List Char × List Char)
  | [] => none
  | c :: rest =>
    match splitDot? rest with
    | some (before, after) => some (c :: before, after)
    | none => if c == '.' then some ([], rest) else none

/-- A file name as its stem and its extension. A dot in front belongs to the stem. -/
def splitName (name : String) : String × Option String :=
  match splitDot? name.toList with
  | some (c :: stem, extension) => (String.ofList (c :: stem), some (String.ofList extension))
  | _ => (name, none)

/-- The file name without its extension. -/
def stem? (path : String) : Option String := (fileName? path).map fun name => (splitName name).1

/-- The extension of the file name. -/
def extension? (path : String) : Option String :=
  (fileName? path).bind fun name => (splitName name).2

end PhraseGraph.Path
