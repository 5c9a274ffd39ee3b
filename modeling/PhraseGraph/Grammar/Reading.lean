import PhraseGraph.Files.Tree
import PhraseGraph.Grammar.Basic
import PhraseGraph.Graph.Cache

/-!
# Reading grammars

A grammar file is named for the kind of hits its patterns lead to: `landing-page.grammar` for
landing pages. Each of its rules gives an intent one more pattern. Both views are read from the same
rules, and a rule with an intent that is not registered fails in both.

The grammars of a directory are those of its grammar files, in the order of their names.
-/

namespace PhraseGraph

/-- The extension of grammar files. -/
def grammarExtension : String := "grammar"

/-- The name of the file without its extension, which has to be there. -/
def fileStem (path : String) : Except Failure String :=
  match Path.stem? path with
  | some stem => .ok stem
  | none => .error (.fileName path)

/-- The kind of hits that a grammar file is for. -/
def hitTypeOf (path : String) : Except Failure String :=
  if Path.extension? path == some grammarExtension then fileStem path
  else .error (.grammarName path)

/-- The rules of a file. -/
def FileTree.rules (t : FileTree) (path : String) : Except Failure (List RuleLine) := do
  RuleLine.ofContent path (← t.load path)

namespace SearchGrammars

/-- The graph of the pattern of a rule. -/
def graphOfRule (file : String) (analyzer : Analyzer) (rule : RuleLine) : Cached TokenGraph :=
  tryCatch (TokenGraph.cached analyzer rule.value rule.language) fun cause =>
    throw (cause.toldBy (.analyzingPattern file rule.line rule.value rule.language))

/-- The grammars with the patterns of the rules of a file. -/
def addRules (registered : IntentRegistry) (file hitType : String) (analyzer : Analyzer)
    (gs : SearchGrammars) : List RuleLine → Cached SearchGrammars
  | [] => return gs
  | rule :: rest => do
    let filters ← registered.ofRule file rule
    let g ← graphOfRule file analyzer rule
    addRules registered file hitType analyzer (gs.addRule hitType filters rule [g]) rest

/-- The grammars of a file. -/
def ofFile (t : FileTree) (registered : IntentRegistry) (analyzer : Analyzer) (path : String) :
    Cached SearchGrammars := do
  let hitType ← hitTypeOf path
  let rules ← t.rules path
  addRules registered path hitType analyzer ∅ rules

/-- The grammars so far with those of the files. -/
def addFiles (t : FileTree) (registered : IntentRegistry) (analyzer : Analyzer)
    (gs : SearchGrammars) : List String → Cached SearchGrammars
  | [] => return gs
  | path :: rest => do
    let more ← ofFile t registered analyzer path
    addFiles t registered analyzer (gs.merge more) rest

/-- The grammars of the grammar files in a directory. -/
def ofDirectory (t : FileTree) (registered : IntentRegistry) (analyzer : Analyzer)
    (directory : String) : Cached SearchGrammars := do
  let paths ← t.filesWith grammarExtension directory
  addFiles t registered analyzer ∅ paths

end SearchGrammars

namespace TemplateGrammars

/-- The grammars with the patterns of the rules of a file. -/
def addRules (registered : IntentRegistry) (file hitType : String) (gs : TemplateGrammars) :
    List RuleLine → Except Failure TemplateGrammars
  | [] => return gs
  | rule :: rest => do
    let filters ← registered.ofRule file rule
    addRules registered file hitType (gs.addRule hitType filters rule (.single rule.value)) rest

/-- The grammars of a file. -/
def ofFile (t : FileTree) (registered : IntentRegistry) (path : String) :
    Except Failure TemplateGrammars := do
  let hitType ← hitTypeOf path
  let rules ← t.rules path
  addRules registered path hitType ∅ rules

/-- The grammars so far with those of the files. -/
def addFiles (t : FileTree) (registered : IntentRegistry) (gs : TemplateGrammars) :
    List String → Except Failure TemplateGrammars
  | [] => return gs
  | path :: rest => do
    let more ← ofFile t registered path
    addFiles t registered (gs.merge more) rest

/-- The grammars of the grammar files in a directory. -/
def ofDirectory (t : FileTree) (registered : IntentRegistry) (directory : String) :
    Except Failure TemplateGrammars := do
  addFiles t registered ∅ (← t.filesWith grammarExtension directory)

end TemplateGrammars

end PhraseGraph
