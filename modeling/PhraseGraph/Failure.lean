import PhraseGraph.Text.Quoted

/-!
# Failures

Everything that can go wrong while phrases are analyzed, files are read and rules are made, as one
type with a constructor for each cause. A cause belongs to an area (`Failure.area`) and has one
wording (`Failure.message`), which is all that the command line prints of it.
-/

namespace PhraseGraph

/-- Why a file or directory could not be read or written. -/
inductive FileFault where
  /-- Nothing has this name. -/
  | notFound
  /-- A part of the path is not a directory. -/
  | notADirectory
  /-- The path names a directory where a file is wanted. -/
  | isADirectory
  /-- The file exists where a new one is wanted, or a directory cannot be made. -/
  | exists
  /-- The bytes are not the UTF-8 form of a text. -/
  | notText
  /-- The path, or one of its pieces, is longer than paths can be. -/
  | nameTooLong
  /-- There is a zero byte in the path. -/
  | zeroByte
deriving DecidableEq, Repr

/-- The system's words for the fault. -/
def FileFault.message : FileFault → String
  | notFound => "No such file or directory (os error 2)"
  | notADirectory => "Not a directory (os error 20)"
  | isADirectory => "Is a directory (os error 21)"
  | «exists» => "File exists (os error 17)"
  | notText => "stream did not contain valid UTF-8"
  | nameTooLong => "File name too long (os error 36)"
  | zeroByte => "file name contained an unexpected NUL byte"

/-- A violated condition of putting phrasings in the place of a pattern's variables. -/
inductive SubstitutionFault where
  /-- There are not as many phrasings as variables. -/
  | phrasingCount (pattern : String)
  /-- There are not as many variables as places for one in the pattern. -/
  | variableCount (pattern : String) (names : List String)
  /-- A variable of the pattern is not among those given. -/
  | unbound (name pattern : String) (names : List String)
deriving DecidableEq, Repr

/-- The area of the library in which a failure arises. -/
inductive Area where
  /-- Splitting phrases into tokens. -/
  | analysis
  /-- Grammars and the rules made from them. -/
  | grammar
  /-- Variables and their tables. -/
  | tables
  /-- The configuration. -/
  | config
  /-- Matching. -/
  | matching
  /-- A line of a file. -/
  | load
  /-- Reading and writing files. -/
  | file
  /-- Reading JSON. -/
  | json
  /-- A condition that callers have to meet. -/
  | condition
  /-- None of these. -/
  | other
deriving DecidableEq, Repr

/-- A cause of failure. -/
inductive Failure where
  /-- A failure of an area that is described in words. -/
  | stated (area : Area) (text : String)
  /-- A line of a file is at fault, for the reason given in words. -/
  | atLine (file : String) (line : Nat) (text : String)
  /-- An argument is not acceptable. -/
  | invalidArgument (text : String)
  /-- Something failed on behalf of a file. -/
  | inFile (file : String) (cause : Failure)
  /-- A file could not be read or written. -/
  | access (fault : FileFault)
  /-- A text is not JSON, or not of the shape that is wanted. -/
  | json
  /-- A term belongs to two groups of synonyms. -/
  | sharedSynonym (term : String)
  /-- The file of synonyms cannot be read. -/
  | unreadableSynonyms (path : String) (fault : FileFault)
  /-- The file of synonyms does not hold groups of terms. -/
  | malformedSynonyms (path : String)
  /-- No analyzer is set for the language. -/
  | noAnalyzer (language : String)
  /-- A phrase could not be analyzed. -/
  | analyzing (phrase language analyzer : String) (cause : Failure)
  /-- The text of a query could not be analyzed. -/
  | analyzingQuery (phrase language : String) (cause : Failure)
  /-- A phrasing of a variable could not be analyzed. -/
  | analyzingPhrasing (phrasing name language : String) (cause : Failure)
  /-- A pattern in a line of a file could not be analyzed. -/
  | analyzingPattern (file : String) (line : Nat) (pattern language : String) (cause : Failure)
  /-- A line of a file of rules is not a rule. -/
  | malformedRule (file : String) (line : Nat) (text : String)
  /-- A rule names an intent for which no filters are registered. -/
  | unregisteredIntent (file : String) (line : Nat) (intent : String)
  /-- The file's name does not begin with a kind of hit. -/
  | grammarName (path : String)
  /-- The path has no file name. -/
  | fileName (path : String)
  /-- A product has more combinations than can be counted in 64 bits. -/
  | tooManyCombinations (dimensions : Nat)
  /-- A signature names a variable without a table. -/
  | unknownVariable (name intent hitType : String)
  /-- The file of the catalogue is malformed. -/
  | malformedCatalogue (path : String)
  /-- The configuration file is malformed. -/
  | malformedConfig (path : String)
  /-- A configuration needs a language. -/
  | noLanguages
  /-- Synonyms are set for a language that is not among the configured ones. -/
  | synonymLanguage (language : String)
  /-- A condition of substitution does not hold. -/
  | substitution (fault : SubstitutionFault)
  /-- An origin stands for a node that its graph does not have. -/
  | lostNode (place : Nat)
  /-- The slot after a token cannot be counted in 64 bits. -/
  | slotOverflow
  /-- There is no room for a cache with the limit. -/
  | cacheOverflow (limit : Nat)
  /-- A text is compared with a pattern without an end. -/
  | endlessSearch
deriving DecidableEq, Repr

/-- The wording of a violated condition. -/
def SubstitutionFault.message : SubstitutionFault → String
  | phrasingCount pattern => s!"Expected one phrasing per variable for [{pattern}]"
  | variableCount pattern names =>
    s!"Variables count mismatch for [{pattern}]: " ++ Text.showList names
  | unbound name pattern names =>
    s!"Variable {name} of [{pattern}] is not bound by " ++ Text.showList names

namespace Failure

/-- The area a failure belongs to. A failure in a line of a file stays one; what else fails on
    behalf of a file belongs to no area of its own. -/
def area : Failure → Area
  | stated area _ => area
  | atLine .. | analyzingPattern .. | malformedRule .. | unregisteredIntent .. => .load
  | inFile _ cause => if cause.area = .load then .load else .other
  | access _ => .file
  | json => .json
  | sharedSynonym _ | unreadableSynonyms .. | malformedSynonyms _ | noAnalyzer _ | analyzing ..
  | analyzingQuery .. => .analysis
  | analyzingPhrasing .. => .tables
  | grammarName _ | tooManyCombinations _ | unknownVariable .. => .grammar
  | malformedCatalogue _ | malformedConfig _ | noLanguages | synonymLanguage _ => .config
  | substitution _ | lostNode _ | slotOverflow | cacheOverflow _ | endlessSearch => .condition
  | invalidArgument _ | fileName _ => .other

/-- The failure of a caller, who tells of the cause in words of its own. A violated condition ends all
    work, so it is nobody else's failure. -/
def toldBy (cause : Failure) (tell : Failure → Failure) : Failure :=
  if cause.area = .condition then cause else tell cause

end Failure

/-- What stands before the description of a failure of the area. -/
def Area.heading : Area → String
  | analysis => "Analysis error: "
  | grammar => "Grammar error: "
  | tables => "Variable error: "
  | config => "Config error: "
  | matching => "Match error: "
  | file => "I/O error: "
  | json => "JSON error: "
  | load | condition => ""
  | other => "Error: "

namespace Failure

/-- The words for a failure in a line of a file. -/
def atLineText (file : String) (line : Nat) (text : String) : String :=
  s!"[{file}:{line}] {text}"

/-- The whole text of a failure. -/
def message : Failure → String
  | stated area text => area.heading ++ text
  | atLine path line text => atLineText path line text
  | invalidArgument text => Area.other.heading ++ "Invalid argument: " ++ text
  | inFile path cause =>
    if cause.area = .load then cause.message
    else Area.other.heading ++ path ++ ": " ++ cause.message
  | access fault => Area.file.heading ++ fault.message
  | json => Area.json.heading
  | sharedSynonym term =>
    Area.analysis.heading ++ s!"Synonym term '{term}' appears in more than one group"
  | unreadableSynonyms path fault =>
    Area.analysis.heading ++ s!"Failed to read synonym dictionary file '{path}': "
      ++ fault.message
  | malformedSynonyms path =>
    Area.analysis.heading ++ s!"Failed to parse synonym dictionary JSON from '{path}'"
  | noAnalyzer language =>
    Area.analysis.heading ++ s!"No analyzer configured for language '{language}'"
  | analyzing phrase language analyzer cause =>
    Area.analysis.heading ++ s!"Error analyzing [{phrase}] in {language} with analyzer {analyzer}: "
      ++ cause.message
  | analyzingQuery phrase language cause =>
    Area.analysis.heading ++ s!"Error tokenizing simple query: [{phrase}] in {language}: "
      ++ cause.message
  | analyzingPhrasing phrasing name language cause =>
    Area.tables.heading
      ++ s!"Error generating tokens from translation [{phrasing}] of {name} in {language}: "
      ++ cause.message
  | analyzingPattern path line pattern language cause =>
    atLineText path line
      (s!"Error generating tokens from pattern: [{pattern}] in {language}: " ++ cause.message)
  | malformedRule path line text => atLineText path line s!"Error reading pattern: [{text}]"
  | unregisteredIntent path line intent =>
    atLineText path line s!"Filters not found for intent: [{intent}]"
  | grammarName path =>
    Area.grammar.heading ++ s!"Bad grammar file: {path}, expected: <hit-type>.grammar"
  | fileName path => Area.other.heading ++ s!"Invalid argument: Bad file name: {path}"
  | tooManyCombinations dimensions =>
    Area.grammar.heading ++ s!"Cross product of {dimensions} dimensions overflows"
  | unknownVariable name intent hitType =>
    Area.grammar.heading ++ s!"Unknown variable {name} in intent [{intent}] of {hitType}"
  | malformedCatalogue path => Area.config.heading ++ path
  | malformedConfig path => Area.config.heading ++ s!"Invalid config {path}"
  | noLanguages => Area.config.heading ++ "At least one language is required"
  | synonymLanguage language =>
    Area.config.heading ++ s!"Synonyms configured for unknown language [{language}]"
  | substitution fault => fault.message
  | lostNode place => s!"There is no node at place {place}"
  | slotOverflow => "The slot after a token is too large"
  | cacheOverflow limit => s!"There is no room for a cache of {limit} graphs"
  | endlessSearch => "A search does not end"

end Failure

end PhraseGraph
