import PhraseGraph.Dict
import PhraseGraph.Failure
import PhraseGraph.Json.Decode
import PhraseGraph.Json.Reader

/-!
# The catalogue of the archive

The validity of variables depends on what the archive holds: conventions by year, holidays, sources by
their parent and position, programs by their collection and position, and what each source is part of.
Whoever has answers to such questions is an oracle (`Oracle`), and nothing is promised of the answers.

A catalogue is an oracle that holds all of it in tables (`Catalogue.oracle`). It can be read from a JSON
record in which every field may be left out.
-/

namespace PhraseGraph

/-- Answers to questions about the archive. -/
structure Oracle where
  /-- Whether there is a convention. An empty location or year stands for any. -/
  hasConvention : (location year : String) → Bool
  /-- Whether there is a holiday. An empty year stands for any. -/
  hasHoliday : (holiday year : String) → Bool
  /-- The source at a position of a parent, of one of the given types, or of any if none are given. -/
  source? : (parent position : String) → (types : List Int) → Option String
  /-- The program at a position of a collection. -/
  program? : (collection position : String) → Option String
  /-- Whether a source is above another one. -/
  isAncestor : (ancestor source : String) → Bool

/-- The types of sources by their numbers. Other numbers may occur, but are not looked for unless
    they are asked for. -/
inductive SourceType where
  /-- A collection. -/
  | collection
  /-- A book. -/
  | book
  /-- A volume. -/
  | volume
  /-- A part. -/
  | part
  /-- A weekly portion. -/
  | parasha
  /-- A chapter. -/
  | chapter
  /-- An article. -/
  | article
  /-- A title. -/
  | title
  /-- A letter. -/
  | letter
  /-- An item. -/
  | item
deriving DecidableEq, Repr

namespace SourceType

/-- All types in the order of their numbers. -/
def all : List SourceType :=
  [collection, book, volume, part, parasha, chapter, article, title, letter, item]

/-- The number of a type. -/
def code : SourceType → Int
  | collection => 1
  | book => 2
  | volume => 3
  | part => 4
  | parasha => 5
  | chapter => 6
  | article => 7
  | title => 8
  | letter => 9
  | item => 10

end SourceType

/-- What the archive holds. -/
structure Catalogue where
  /-- The locations of the conventions of each year. -/
  conventions : Dict String Names := ∅
  /-- The years of each holiday. -/
  holidays : Dict String Names := ∅
  /-- The source of each type at each position of a parent. -/
  sources : Dict String (Dict String (Dict Int String)) := ∅
  /-- The program at each position of a collection. -/
  programs : Dict String (Dict String String) := ∅
  /-- The parent of each source. -/
  parents : Dict String String := ∅
deriving Inhabited

/-- The set with a name added. -/
def Names.add (names : Names) (name : String) : Names := names.insert name ()

namespace Catalogue

/-- The catalogue with a convention. -/
def addConvention (c : Catalogue) (location year : String) : Catalogue :=
  { c with conventions := c.conventions.alter year fun locations =>
      Names.add (locations.getD ∅) location }

/-- The catalogue with a holiday of a year. -/
def addHoliday (c : Catalogue) (holiday year : String) : Catalogue :=
  { c with holidays := c.holidays.alter holiday fun years => Names.add (years.getD ∅) year }

/-- The catalogue with a source, which gets the parent that it is at a position of. -/
def addSource (c : Catalogue) (parent position : String) (type : Int) (source : String) :
    Catalogue :=
  { c with
    sources := c.sources.alter parent fun positions => (positions.getD ∅).alter position fun types =>
      (types.getD ∅).insert type source
    parents := c.parents.insert source parent }

/-- The catalogue with a program. -/
def addProgram (c : Catalogue) (collection position program : String) : Catalogue :=
  { c with programs := c.programs.alter collection fun positions =>
      (positions.getD ∅).insert position program }

/-- Whether there is a convention. An empty location or year stands for any. -/
def hasConvention (c : Catalogue) (location year : String) : Bool :=
  let years := if year.isEmpty then c.conventions.values else (c.conventions.get? year).toList
  years.any fun locations =>
    if location.isEmpty then !locations.isEmpty else locations.contains location

/-- Whether there is a holiday. An empty year stands for any. -/
def hasHoliday (c : Catalogue) (holiday year : String) : Bool :=
  match c.holidays.get? holiday with
  | none => false
  | some years => if year.isEmpty then !years.isEmpty else years.contains year

/-- The source at a position of a parent, of the first of the given types that there is one of. If
    no types are given, all are meant. -/
def source? (c : Catalogue) (parent position : String) (types : List Int) : Option String := do
  let positions ← c.sources.get? parent
  let byType ← positions.get? position
  (if types.isEmpty then SourceType.all.map SourceType.code else types).findSome? byType.get?

/-- The program at a position of a collection. -/
def program? (c : Catalogue) (collection position : String) : Option String :=
  (c.programs.get? collection).bind fun positions => positions.get? position

/-- Whether `ancestor` is among the first `steps` sources above `source`. -/
def isAncestorWithin (c : Catalogue) (ancestor : String) : (steps : Nat) → String → Bool
  | 0, _ => false
  | steps + 1, source =>
    match c.parents.get? source with
    | none => false
    | some parent => parent == ancestor || isAncestorWithin c ancestor steps parent

/-- Whether `ancestor` is above `source`. The way up repeats itself at the latest after as many
    steps as there are sources with a parent. -/
def isAncestor (c : Catalogue) (ancestor source : String) : Bool :=
  c.isAncestorWithin ancestor (c.parents.size + 1) source

/-- The answers that are in the tables. -/
def oracle (c : Catalogue) : Oracle where
  hasConvention := c.hasConvention
  hasHoliday := c.hasHoliday
  source? := c.source?
  program? := c.program?
  isAncestor := c.isAncestor

/-- A set of names from a list. -/
def namesOfJson? (j : Json) : Option Names := (j.asList? Json.asText?).map Names.ofList

/-- The number that a name is. Its digits have to stand for themselves. -/
def codeNumber? (name : Json.Literal) : Option Int :=
  match name.plain?.bind Json.readNumber? with
  | some (j, []) => j.asSigned? 64
  | _ => none

/-- The catalogue that a record describes. -/
def ofJson? (j : Json) : Option Catalogue := do
  let fields ← j.knownFields? ["conventions", "holidays", "sources", "programs", "parents"]
  let conventions ← Json.optional? fields "conventions" ∅ (Json.asTextDict? namesOfJson?)
  let holidays ← Json.optional? fields "holidays" ∅ (Json.asTextDict? namesOfJson?)
  let sources ← Json.optional? fields "sources" ∅
    (Json.asTextDict? (Json.asTextDict? (Json.asDict? codeNumber? Json.asText?)))
  let programs ← Json.optional? fields "programs" ∅
    (Json.asTextDict? (Json.asTextDict? Json.asText?))
  let parents ← Json.optional? fields "parents" ∅ (Json.asTextDict? Json.asText?)
  return { conventions, holidays, sources, programs, parents }

end Catalogue

end PhraseGraph
