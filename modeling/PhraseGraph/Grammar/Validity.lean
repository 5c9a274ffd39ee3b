import PhraseGraph.Catalogue
import PhraseGraph.Search
import PhraseGraph.Text.Whole

/-!
# Valid combinations of values

The values that a match binds make sense together only if they refer to something that exists: a
convention at that place in that year, a chapter at that position of that book. Each intent has its
own rule for that (`IntentRule`); an intent without a rule accepts all values. Some rules ask an
oracle, and accept nothing if there is none.
-/

namespace PhraseGraph

/-- The kind of content that programs are. -/
def programContent : String := "programs"

/-- The collection of programs that a position is in if no program is named. -/
def newLifeCollection : String := "zf4lLwyI"

/-- The parts into which sources and programs are divided. -/
inductive Division where
  /-- An article. -/
  | article
  /-- A chapter. -/
  | chapter
  /-- A volume. -/
  | volume
  /-- A part. -/
  | part
  /-- A number. -/
  | number
deriving DecidableEq, Repr

namespace Division

/-- The division that a value of the variable for divisions names. -/
def ofName? : String → Option Division
  | "article" => some article
  | "chapter" => some chapter
  | "volume" => some volume
  | "part" => some part
  | "number" => some number
  | _ => none

/-- The types of sources that a division may be. -/
def sourceTypes : Division → List SourceType
  | article => [.article]
  | chapter | number => [.chapter, .article, .letter]
  | volume => [.volume]
  | part => [.part]

/-- Whether programs have such a division. -/
def isOfPrograms : Division → Bool
  | chapter | number => true
  | article | volume | part => false

end Division

/-- The numbers of the types of sources that the name of a division stands for, if it names one. -/
def divisionSourceTypes? (name : String) : Option (List Int) :=
  (Division.ofName? name).map fun division => division.sourceTypes.map SourceType.code

/-- Whether the name is that of a division of programs. -/
def isProgramDivision (name : String) : Bool :=
  ((Division.ofName? name).map Division.isOfPrograms).getD false

/-- How a variable is bound. -/
inductive Occurrence where
  /-- It is not bound. -/
  | absent
  /-- It is bound once, to the value. -/
  | once (value : String)
  /-- It is bound otherwise: several times, or by an empty list. -/
  | otherwise
deriving DecidableEq, Repr

namespace Occurrence

/-- The value, if it is the only one. -/
def value? : Occurrence → Option String
  | once value => some value
  | _ => none

/-- Whether the variable is bound exactly once. -/
def isOnce (o : Occurrence) : Bool := o.value?.isSome

/-- Whether the variable is bound once or not at all. -/
def atMostOnce : Occurrence → Bool
  | otherwise => false
  | _ => true

end Occurrence

/-- How the variable of the given name is bound. -/
def Assignment.occurrence (m : Assignment) (name : String) : Occurrence :=
  match m.get? name with
  | none => .absent
  | some [value] => .once value
  | some _ => .otherwise

/-- The rules of the intents. -/
inductive IntentRule where
  /-- A text within a program. -/
  | byProgram
  /-- A position in a program, without a text. -/
  | programPosition
  /-- A program, without a text. -/
  | program
  /-- A text within a source. -/
  | bySource
  /-- A position in a source, without a text. -/
  | sourcePosition
  /-- A text within a kind of content. -/
  | byContentType
  /-- A convention. -/
  | conventions
  /-- A holiday. -/
  | holidays
  /-- Two sources of which one is within the other. -/
  | sourcePath
deriving DecidableEq, Repr

namespace IntentRule

/-- The intent that the rule is for. -/
def intent : IntentRule → String
  | byProgram => "by_program"
  | programPosition => "program_position_without_term"
  | program => "by_program_without_term"
  | bySource => "by_source"
  | sourcePosition => "source_position_without_term"
  | byContentType => "by_content_type"
  | conventions => "conventions"
  | holidays => "holidays"
  | sourcePath => "source_path"

/-- All rules. -/
def all : List IntentRule :=
  [byProgram, programPosition, program, bySource, sourcePosition, byContentType, conventions,
    holidays, sourcePath]

/-- The rule of an intent, if it has one. -/
def ofIntent? (intent : String) : Option IntentRule := all.find? fun rule => rule.intent == intent

/-- Whether the kind of content is left open or is that of programs. -/
def allowsPrograms (m : Assignment) : Bool :=
  match m.occurrence contentTypeVariable with
  | .absent => true
  | .once value => value == programContent
  | .otherwise => false

/-- Whether the text is a whole number. -/
def isNumeric (s : String) : Bool := (Text.parseSigned? 64 s).isSome

/-- Whether there is a program at the position, where no program means the default collection. -/
def programExists (oracle : Option Oracle) (program : Option String) (position : String) : Bool :=
  oracle.any fun oracle => (oracle.program? (program.getD newLifeCollection) position).isSome

/-- Whether there is a source at the position, of a type that the division may be. A division that
    is not known does not restrict the types. -/
def sourceExists (oracle : Option Oracle) (source position : String) (division : Option String) :
    Bool :=
  oracle.any fun oracle =>
    (oracle.source? source position ((division.bind divisionSourceTypes?).getD [])).isSome

/-- Whether the values of the variables are valid by the rule. -/
def accepts (oracle : Option Oracle) (m : Assignment) : IntentRule → Bool
  | byProgram =>
    match m.occurrence textVariable with
    | .once text =>
      (m.occurrence programVariable).isOnce && !isNumeric text && allowsPrograms m
    | _ => false
  | programPosition =>
    let division := m.occurrence divisionTypeVariable
    let program := m.occurrence programVariable
    match m.occurrence positionVariable with
    | .once position =>
      allowsPrograms m && program.atMostOnce && division.atMostOnce
        && division.value?.all isProgramDivision
        && isNumeric position && programExists oracle program.value? position
    | _ => false
  | program =>
    (m.occurrence programVariable).isOnce && (m.occurrence positionVariable).atMostOnce
      && allowsPrograms m
  | bySource => (m.occurrence textVariable).isOnce && (m.occurrence sourceVariable).isOnce
  | sourcePosition =>
    let division := m.occurrence divisionTypeVariable
    match m.occurrence positionVariable, m.occurrence sourceVariable with
    | .once position, .once source =>
      division.atMostOnce && sourceExists oracle source position division.value?
    | _, _ => false
  | byContentType =>
    (m.occurrence textVariable).isOnce && (m.occurrence contentTypeVariable).isOnce
  | conventions =>
    let year := m.occurrence yearVariable
    let location := m.occurrence locationVariable
    year.atMostOnce && location.atMostOnce
      && oracle.any fun oracle =>
        oracle.hasConvention (location.value?.getD "") (year.value?.getD "")
  | holidays =>
    let year := m.occurrence yearVariable
    let holiday := m.occurrence holidaysVariable
    year.atMostOnce && holiday.atMostOnce
      && oracle.any fun oracle =>
        oracle.hasHoliday (holiday.value?.getD "") (year.value?.getD "")
  | sourcePath =>
    match m.get? sourceVariable with
    | some [first, second] =>
      let openDivision := match m.occurrence divisionTypeVariable with
        | .absent => true
        | .once value => Division.ofName? value == some .article
        | .otherwise => false
      first != second && openDivision
        && oracle.any fun oracle =>
          oracle.isAncestor first second || oracle.isAncestor second first
    | _ => false

end IntentRule

/-- Whether the values of the variables are valid for the intent. -/
def validVariables (intent : String) (m : Assignment) (oracle : Option Oracle) : Bool :=
  match IntentRule.ofIntent? intent with
  | none => true
  | some rule => rule.accepts oracle m

/-- The findings with valid values. -/
def Findings.valid (intent : String) (f : Findings) (oracle : Option Oracle) : Findings :=
  f.filter fun _ m => validVariables intent m oracle

end PhraseGraph
