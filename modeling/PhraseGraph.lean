import PhraseGraph.Analyzer
import PhraseGraph.Catalogue
import PhraseGraph.Combinations
import PhraseGraph.CommandLine.Arguments
import PhraseGraph.CommandLine.Option
import PhraseGraph.CommandLine.Report
import PhraseGraph.CommandLine.Run
import PhraseGraph.CommandLine.Scan
import PhraseGraph.Config
import PhraseGraph.Config.Defaults
import PhraseGraph.Dict
import PhraseGraph.Engine
import PhraseGraph.Enumeration
import PhraseGraph.Failure
import PhraseGraph.Files.Path
import PhraseGraph.Files.Tree
import PhraseGraph.Grammar.Basic
import PhraseGraph.Grammar.Reading
import PhraseGraph.Grammar.RuleLine
import PhraseGraph.Grammar.Validity
import PhraseGraph.Graph
import PhraseGraph.Graph.Basic
import PhraseGraph.Graph.Cache
import PhraseGraph.Graph.Forest
import PhraseGraph.Graph.Provenance
import PhraseGraph.Graph.Siblings
import PhraseGraph.Intent
import PhraseGraph.Json.Basic
import PhraseGraph.Json.Decode
import PhraseGraph.Json.Literal
import PhraseGraph.Json.Reader
import PhraseGraph.Json.Writer
import PhraseGraph.Main
import PhraseGraph.Match
import PhraseGraph.Pattern
import PhraseGraph.Phrase
import PhraseGraph.Phrase.Expansion
import PhraseGraph.Query
import PhraseGraph.Rule
import PhraseGraph.Rule.Making
import PhraseGraph.Search
import PhraseGraph.StableSort
import PhraseGraph.Synonym
import PhraseGraph.Text.Alphabetic
import PhraseGraph.Text.Blank
import PhraseGraph.Text.Bytes
import PhraseGraph.Text.CamelCase
import PhraseGraph.Text.Case
import PhraseGraph.Text.Case.Cased
import PhraseGraph.Text.Case.Mapping
import PhraseGraph.Text.CodePoints
import PhraseGraph.Text.Numeric
import PhraseGraph.Text.Quoted
import PhraseGraph.Text.Segmentation
import PhraseGraph.Text.Unprintable
import PhraseGraph.Text.Whole
import PhraseGraph.Text.WordBreak.Class
import PhraseGraph.Text.WordBreak.Letters
import PhraseGraph.Text.WordBreak.Marks
import PhraseGraph.Text.WordBreak.Pictographs
import PhraseGraph.Token
import PhraseGraph.Token.Words
import PhraseGraph.Variable
import PhraseGraph.Variable.Tables
import PhraseGraph.Proofs.Matching.Decision
import PhraseGraph.Proofs.Matching.Exactness
import PhraseGraph.Proofs.Forest
import PhraseGraph.Proofs.Reach
import PhraseGraph.Proofs.Origins
import PhraseGraph.Proofs.OriginWalk
import PhraseGraph.Proofs.Merging.Basic
import PhraseGraph.Proofs.Merging.Settling
import PhraseGraph.Proofs.Merging.Termination
import PhraseGraph.Proofs.Merging.Records
import PhraseGraph.Proofs.Merging.Order
import PhraseGraph.Proofs.Merging.Quotient
import PhraseGraph.Proofs.Compaction
import PhraseGraph.Proofs.Merging.Result
import PhraseGraph.Proofs.Merging.Consistent
import PhraseGraph.Proofs.Normalization
import PhraseGraph.Proofs.LostNodes
import PhraseGraph.Proofs.Siblings
import PhraseGraph.Proofs.Slices
import PhraseGraph.Proofs.OriginTexts
import PhraseGraph.Proofs.Sorting
import PhraseGraph.Proofs.Rows
import PhraseGraph.Proofs.RowGraph
import PhraseGraph.Proofs.Matching.Derivations
import PhraseGraph.Proofs.Matching.Depth
import PhraseGraph.Proofs.Matching.Tiling
import PhraseGraph.Proofs.Matching.Modes
import PhraseGraph.Proofs.Readings
import PhraseGraph.Proofs.Stretches
import PhraseGraph.Proofs.Segments
import PhraseGraph.Proofs.Blanks
import PhraseGraph.Proofs.Dictionary
import PhraseGraph.Proofs.Phrasings
import PhraseGraph.Proofs.Cycles
import PhraseGraph.Proofs.Matching.Literals
import PhraseGraph.Proofs.Matching.Synonyms
import PhraseGraph.Proofs.FirstOrigins
import PhraseGraph.Proofs.Offsets
import PhraseGraph.Proofs.Matching.Pieces
import PhraseGraph.Proofs.Matching.Accounting
import PhraseGraph.Proofs.Expansion
import PhraseGraph.Proofs.ForestOrigins
import PhraseGraph.Proofs.Merging.Roots
import PhraseGraph.Proofs.SlotGraph
import PhraseGraph.Proofs.TokenPhrases
import PhraseGraph.Proofs.PatternPhrases
import PhraseGraph.Proofs.WordBoundaries
import PhraseGraph.Proofs.Recutting
import PhraseGraph.Proofs.LowerCase
import PhraseGraph.Proofs.KeptWords
import PhraseGraph.Proofs.StandIns
import PhraseGraph.Proofs.Spelling
import PhraseGraph.Proofs.Results
import PhraseGraph.Proofs.PatternRows
import PhraseGraph.Proofs.CachedWork
import PhraseGraph.Proofs.Intents
import PhraseGraph.Proofs.Entries
import PhraseGraph.Proofs.GrammarViews
import PhraseGraph.Proofs.VariablePlaces
import PhraseGraph.Proofs.PatternNames
import PhraseGraph.Proofs.Sections
import PhraseGraph.Proofs.Signatures
import PhraseGraph.Proofs.Substitution
import PhraseGraph.Proofs.RuleValues
import PhraseGraph.Proofs.LoadedRules
import PhraseGraph.Proofs.TransparentCache
import PhraseGraph.Proofs.CacheIndependence
import PhraseGraph.Proofs.Publishing
import PhraseGraph.Proofs.Matching.Termination
import PhraseGraph.Proofs.Merging.Walk
import PhraseGraph.Proofs.EndSlots
import PhraseGraph.Proofs.TokenOrder
import PhraseGraph.Proofs.Matching.Symmetry
import PhraseGraph.Proofs.LongestTerms
import PhraseGraph.Proofs.RefusedGroups
import PhraseGraph.Proofs.Placements
import PhraseGraph.Proofs.MixedRadix
import PhraseGraph.Proofs.RuleFiles
import PhraseGraph.Proofs.PhraseSearch
import PhraseGraph.Proofs.Ancestors
import PhraseGraph.Proofs.FilledPlaces
import PhraseGraph.Proofs.MergedGrammars
import PhraseGraph.Proofs.UnknownVariables
import PhraseGraph.Proofs.WordSpans
