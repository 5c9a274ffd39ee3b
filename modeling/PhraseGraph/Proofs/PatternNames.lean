import PhraseGraph.Proofs.PatternRows
import PhraseGraph.Proofs.VariablePlaces

/-!
# The variables of a pattern in text and graph

Rules are made by the places for variables in the text of a pattern, and texts are matched by the variables
that the nodes of its graph name. Where no stop words and synonyms are known, the graph is a row of all
words of the pattern, and a node is read as its word with the last character before it
(`Pattern.exists_row_wordNames`). So the nodes name the variables of the places behind which a word ends,
and they name those of all places if and only if a word ends behind each of them
(`ofPhrase_variableNames_eq_iff`).
-/

namespace PhraseGraph

open Text

/-! ### What tokens are read as -/

/-- What a token is read as, where the text has been gone through up to the byte `done`. -/
def nameFrom (cs : List Char) (done : Nat) (t : Token) : String :=
  String.ofList (Pattern.readName (sliceOf cs done t.startOffset).toList
    (sliceOf cs t.startOffset t.endOffset).toList)

/-- What the tokens of a row are read as one after another. -/
def namesFrom (cs : List Char) (done : Nat) : List Token → List String
  | [] => []
  | t :: rest => nameFrom cs done t :: namesFrom cs t.endOffset rest

section Tokens

variable {cs before gap : List Char} {ps : List (List Char)} {tokens : List Token} {done position : Nat}

theorem namesFrom_map_text {f : Token → String} :
    namesFrom cs done (tokens.map fun t => { t with text := f t }) = namesFrom cs done tokens := by
  induction tokens generalizing done with
  | nil => rfl
  | cons t tokens ih =>
    rw [List.map_cons, namesFrom, namesFrom, ih]
    rfl

/-- The tokens of a text are read as its words are. -/
theorem namesFrom_wordTokens (hcs : cs = before ++ (gap ++ ps.flatten)) :
    namesFrom cs (byteLength before) (wordTokens position
      ((withOffsets (byteLength (before ++ gap)) ps).filter fun p => p.2.any isAlphanumeric)) =
        Pattern.wordNames gap ps := by
  induction ps generalizing before gap position with
  | nil => rfl
  | cons piece ps ih =>
    rw [withOffsets, Pattern.wordNames, ← byteLength_append]
    split
    · next hword =>
      have hgap : sliceOf cs (byteLength before) (byteLength (before ++ gap)) = String.ofList gap := by
        rw [hcs, sliceOf_eq]
      have hpiece : sliceOf cs (byteLength (before ++ gap)) (byteLength (before ++ gap ++ piece)) =
          String.ofList piece := by
        rw [hcs, List.flatten_cons, ← List.append_assoc, sliceOf_eq]
      have hrest := @ih (before ++ gap ++ piece) [] (position + 1) (by simp [hcs])
      rw [List.append_nil] at hrest
      rw [List.filter_cons_of_pos (by simpa using hword), wordTokens, namesFrom, nameFrom,
        ← byteLength_append, hgap, hpiece, hrest, String.toList_ofList, String.toList_ofList]
    · next hword =>
      -- A piece without a word is passed over together with what lies before it.
      have hrest := @ih before (gap ++ piece) position (by simp [hcs])
      rw [List.filter_cons_of_neg (by simpa using hword)]
      rwa [← List.append_assoc] at hrest

end Tokens

theorem Origin.variableName_eq {o : Origin} : o.variableName =
    String.ofList (Pattern.readName o.skippedPrefix.toList o.text.toList) := by
  rw [variableName, Pattern.readName]
  cases o.skippedPrefix.toList.getLast? with
  | none => exact String.ofList_toList.symm
  | some c => rw [Option.toList_some, String.ofList_append, String.ofList_toList]

namespace TokenGraph

/-- The variable that a node would name. -/
def variableNameAt? (g : TokenGraph) (id : NodeId) : Option String :=
  (g.firstOrigin? id).map Origin.variableName

/-- A node names the variable that goes by its name. -/
theorem variableAt?_eq {vars : Variables} {g : TokenGraph} {id : NodeId} :
    variableAt? vars g id = (g.variableNameAt? id).bind vars.get? := by
  rw [variableAt?, variableNameAt?]
  cases g.firstOrigin? id <;> rfl

end TokenGraph

namespace InRow

variable {tokens : List Token} {pattern : String} {k n : Nat}

theorem variableNameAt?_ofTokens (h : InRow pattern.toList tokens) (hk : k < tokens.length) :
    (TokenGraph.ofTokens tokens pattern).variableNameAt? k =
      some (nameFrom pattern.toList (doneBefore tokens k) (Forest.tokenAt tokens k)) := by
  obtain ⟨r, hr, -⟩ := Provenance.existsUnique_madeFor pattern hk
  rw [TokenGraph.variableNameAt?, (h.sole hk hr).firstOrigin?_eq, h.onePerSlot.origin_ofTokens hk hr,
    Option.map_some, Origin.variableName_eq, h.skippedPrefix_fill hk hr, h.text_fill hk hr, nameFrom]

/-- The nodes of a row are read as its tokens are. -/
theorem filterMap_variableNameAt? (h : InRow pattern.toList tokens) (hn : k + n = tokens.length) :
    (List.range' k n).filterMap (TokenGraph.ofTokens tokens pattern).variableNameAt? =
      namesFrom pattern.toList (doneBefore tokens k) (tokens.drop k) := by
  induction n generalizing k with
  | zero =>
    have hnone : tokens.drop k = [] := List.drop_of_length_le hn.ge
    rw [hnone]
    rfl
  | succ n ih =>
    have hk : k < tokens.length := by omega
    rw [List.range'_succ, List.filterMap_cons_some (h.variableNameAt?_ofTokens hk),
      List.drop_eq_getElem_cons hk, ← Forest.tokenAt_eq_getElem hk, namesFrom, ih (by omega)]
    rfl

end InRow

/-! ### The names of the nodes -/

namespace Pattern

variable {pattern : String}

/-- Without stop words and synonyms the tokens of a pattern are its words. -/
theorem analyze_eq : ({} : WordAnalyzer).analyze pattern =
    (words pattern).map fun t => { t with text := lowercase t.text } := by
  have hall : ∀ t : Token, (!({} : WordAnalyzer).stopWords.contains t.text) = true := fun _ => rfl
  exact List.filter_eq_self.2 fun t _ => hall t

/-- The graph of a pattern names what its words are read as. -/
theorem exists_row_wordNames (pattern language : String) : ∃ g row,
    TokenGraph.ofPhrase (.uniform {}) pattern language = .ok g ∧ g.IsRow g.roots row ∧
      row.filterMap g.variableNameAt? = wordNames [] (wordPieces pattern.toList) := by
  have hrow : InRow pattern.toList (({} : WordAnalyzer).analyze pattern) :=
    WordAnalyzer.inRow_survivingWords {} pattern
  refine ⟨_, _, rfl, hrow.isRow_ofTokens, ?_⟩
  rw [hrow.filterMap_variableNameAt? (Nat.zero_add _), List.drop_zero, analyze_eq, namesFrom_map_text]
  exact @namesFrom_wordTokens _ [] [] _ 0 flatten_wordPieces.symm

end Pattern

/-- Where no stop words and synonyms are known, the nodes of a pattern name the variables of the places
    behind which a word ends. They name the variables of the pattern if and only if a word ends behind
    each place. -/
theorem ofPhrase_variableNames_eq_iff (pattern language : String) (V : String → Bool)
    (hV : ∀ name, V name = true → Pattern.IsVariableName name) :
    ∃ g row, TokenGraph.ofPhrase (.uniform {}) pattern language = .ok g ∧ g.IsRow g.roots row ∧
      (∀ vars, row.filterMap (variableAt? vars g) =
        (row.filterMap g.variableNameAt?).filterMap vars.get?) ∧
      (Pattern.places pattern).map Pattern.Place.name = Pattern.variableNames pattern ∧
      (row.filterMap g.variableNameAt?).filter V = Pattern.shown V (Pattern.places pattern) ∧
      ((row.filterMap g.variableNameAt?).filter V = (Pattern.variableNames pattern).filter V ↔
        ∀ place ∈ Pattern.places pattern, V place.name = true → place.endsWord = true) := by
  obtain ⟨g, row, hg, hrow, hnames⟩ := Pattern.exists_row_wordNames pattern language
  have hshown : (row.filterMap g.variableNameAt?).filter V =
      Pattern.shown V (Pattern.places pattern) := by
    rw [hnames]
    exact Pattern.wordNames_wordPieces hV _
  refine ⟨g, row, hg, hrow, fun vars => ?_, Pattern.places_map_name pattern, hshown, ?_⟩
  · rw [List.filterMap_filterMap]
    exact List.filterMap_congr fun _ _ => TokenGraph.variableAt?_eq
  · rw [hshown, ← Pattern.places_map_name]
    exact Pattern.shown_eq_iff

namespace Example

/-- The year is a variable of its pattern. -/
theorem congress_year_names :
    (∀ name, (name == "$Year") = true → Pattern.IsVariableName name) ∧
      ∃ g row, TokenGraph.ofPhrase (.uniform {}) "congress $Year" "en" = .ok g ∧
        g.IsRow g.roots row ∧
        (∀ vars, row.filterMap (variableAt? vars g) =
          (row.filterMap g.variableNameAt?).filterMap vars.get?) ∧
        (Pattern.places "congress $Year").map Pattern.Place.name =
          Pattern.variableNames "congress $Year" ∧
        (row.filterMap g.variableNameAt?).filter (· == "$Year") =
          Pattern.shown (· == "$Year") (Pattern.places "congress $Year") ∧
        ((row.filterMap g.variableNameAt?).filter (· == "$Year") =
          (Pattern.variableNames "congress $Year").filter (· == "$Year") ↔
            ∀ place ∈ Pattern.places "congress $Year",
              (place.name == "$Year") = true → place.endsWord = true) := by
  have hname : ∀ name, (name == "$Year") = true → Pattern.IsVariableName name := fun name h =>
    ⟨"Year".toList, by decide, List.all_eq_true.1 (by decide), beq_iff_eq.1 h⟩
  exact ⟨hname, ofPhrase_variableNames_eq_iff "congress $Year" "en" (· == "$Year") hname⟩

/-- Letters and digits are one word, and no node names the variable before the digits. -/
theorem year_with_digits_unnamed :
    ∃ g row, TokenGraph.ofPhrase (.uniform {}) "$Year2019" "en" = .ok g ∧ g.IsRow g.roots row ∧
      row.filterMap g.variableNameAt? = ["$Year2019"] ∧
      (Pattern.variableNames "$Year2019").filter (· == "$Year") = ["$Year"] := by
  refine ⟨.ofTokens (({} : WordAnalyzer).analyze "$Year2019") "$Year2019", [0], rfl, ?_,
    by decide +kernel, by decide +kernel⟩
  have hleaf : (TokenGraph.ofTokens (({} : WordAnalyzer).analyze "$Year2019") "$Year2019").children 0 =
      [] := by decide +kernel
  exact ⟨by decide +kernel, fun _ => rfl, hleaf⟩

end Example

end PhraseGraph
