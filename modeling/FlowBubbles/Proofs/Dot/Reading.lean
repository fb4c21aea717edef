import FlowBubbles.Proofs.Dot.Tokens

/-!
# Reading a drawing back

A document is read in two steps: the scan takes it apart into tokens, and the signs between the
tokens say where each statement and each attribute ends. `Document.tokens` is the bridge between
the two: the scan of a written document yields these tokens (`reads_render`), and from them the
document can be read (`ofTokens?_tokens`). Texts lose their carriage returns on the way, and keys
must be plain names; nothing else is asked of the document.
-/

namespace FlowBubbles.Dot

/-! ## Texts of a document -/

/-- The attribute with its value changed. Its key is no text and stays. -/
def Attribute.mapText (f : String → String) (a : Attribute) : Attribute := ⟨a.key, f a.value⟩

/-- The statement with all its texts changed. -/
def Statement.mapTexts (f : String → String) : Statement → Statement
  | title text => title (f text)
  | node name label attributes => node (f name) (f label) (attributes.map (Attribute.mapText f))
  | edge source target attributes =>
    edge (f source) (f target) (attributes.map (Attribute.mapText f))

/-- The document with all its texts changed. -/
def Document.mapTexts (f : String → String) (d : Document) : Document :=
  ⟨f d.name, d.statements.map (Statement.mapTexts f)⟩

/-- The attributes that a statement brings along. -/
def Statement.attributes : Statement → List Attribute
  | title _ => []
  | node _ _ attributes => attributes
  | edge _ _ attributes => attributes

/-- All keys are plain names. -/
def Document.HasPlainKeys (d : Document) : Prop :=
  ∀ s ∈ d.statements, ∀ a ∈ s.attributes, isPlainName a.key

instance (d : Document) : Decidable d.HasPlainKeys :=
  inferInstanceAs (Decidable (∀ s ∈ d.statements, _))

/-- The label that a node shows has a plain key, too. -/
theorem isPlainName_of_mem_labelled {attributes : List Attribute} (label : String)
    (h : ∀ a ∈ attributes, isPlainName a.key) :
    ∀ a ∈ ⟨"label", label⟩ :: attributes, isPlainName a.key :=
  List.forall_mem_cons.mpr ⟨(by decide : isPlainName "label"), h⟩

/-! ## Tokens of a document -/

/-- The tokens of an attribute. -/
def Attribute.tokens (a : Attribute) : List Token := [.word a.key, .sign '=', .text a.value]

/-- The tokens of attributes between brackets, without the opening bracket. -/
def attributeTokens : List Attribute → List Token
  | [] => [.sign ']']
  | [a] => a.tokens ++ [.sign ']']
  | a :: b :: attributes => a.tokens ++ .sign ',' :: attributeTokens (b :: attributes)

/-- The tokens of a statement, cut at its semicolons. -/
def Statement.pieces : Statement → List (List Token)
  | title text =>
    [[.word "label", .sign '=', .text text], [.word "labelloc", .sign '=', .word "t"]]
  | node name label attributes =>
    [.text name :: .sign '[' :: attributeTokens (⟨"label", label⟩ :: attributes)]
  | edge source target [] => [[.text source, .sign '-', .sign '>', .text target]]
  | edge source target attributes =>
    [.text source :: .sign '-' :: .sign '>' :: .text target :: .sign '[' ::
      attributeTokens attributes]

/-- The tokens of the defaults, cut at the semicolons. -/
def defaultPieces : List (List Token) :=
  [[.word "node", .sign '[', .word "shape", .sign '=', .word "ellipse", .sign ',',
      .word "fontname", .sign '=', .text "Courier", .sign ',',
      .word "fontsize", .sign '=', .word "10", .sign ']'],
    [.word "edge", .sign '[', .word "fontname", .sign '=', .text "Courier", .sign ',',
      .word "fontsize", .sign '=', .word "9", .sign ']']]

/-- The tokens between the opening brace and the end of a document, cut at the semicolons. -/
def Document.pieces (d : Document) : List (List Token) :=
  defaultPieces ++ d.statements.flatMap Statement.pieces ++ [[.sign '\x7d']]

/-- The tokens of a document. -/
def Document.tokens (d : Document) : List Token :=
  .word "digraph" :: .text d.name :: .sign '\x7b' :: [.sign ';'].intercalate d.pieces

/-! ## The scan of a written document -/

theorem reads_attributes {attributes : List Attribute}
    (h : ∀ a ∈ attributes, isPlainName a.key) :
    Reads (renderAttributes attributes)
      (.sign '[' :: attributeTokens (attributes.map (Attribute.mapText withoutReturns))) := by
  have hone : ∀ a ∈ attributes, Reads a.render (a.mapText withoutReturns).tokens := by
    intro a ha
    exact (reads_key (h a ha)).append (reads_quote a.value)
  have hclose : Reads "]" [.sign ']'] := rfl
  have hcomma : Reads ", " [.sign ','] := rfl
  have hopen : Reads "[" [.sign '['] := rfl
  rw [renderAttributes, String.append_assoc]
  refine hopen.append ?_
  -- a comma needs an attribute behind it, so the cases are those of `attributeTokens`
  clear h
  induction attributes using attributeTokens.induct with
  | case1 => exact hclose
  | case2 a =>
    simpa [attributeTokens] using (hone a (by simp)).append hclose
  | case3 a b attributes ih =>
    have hrest := ih fun a ha => hone a (List.mem_cons_of_mem _ ha)
    simpa [attributeTokens, String.append_assoc] using
      ((hone a (by simp)).append hcomma).append hrest

/-- The separator ends every piece but the last. -/
theorem intercalate_concat (ts : List Token) (pieces : List (List Token)) (last : List Token) :
    ts.intercalate (pieces ++ [last]) = pieces.flatMap (· ++ ts) ++ last := by
  induction pieces with
  | nil => simp
  | cons piece pieces ih => simp [List.intercalate_cons_of_ne_nil, ih]

theorem reads_statement {s : Statement} (h : ∀ a ∈ s.attributes, isPlainName a.key) :
    Reads s.render ((s.mapTexts withoutReturns).pieces.flatMap (· ++ [.sign ';'])) := by
  have hindent : Reads "    " [] := rfl
  have hblank : Reads " " [] := rfl
  have harrow : Reads " -> " [.sign '-', .sign '>'] := rfl
  have hend : Reads ";\n" [.sign ';'] := rfl
  cases s with
  | title text =>
    have hlabel : Reads "    label=" [.word "label", .sign '='] := rfl
    have hplace : Reads ";\n    labelloc=t;\n"
        [.sign ';', .word "labelloc", .sign '=', .word "t", .sign ';'] := rfl
    exact (hlabel.append (reads_quote text)).append hplace
  | node name label attributes =>
    have hall := isPlainName_of_mem_labelled label h
    simpa [Statement.render, Statement.mapTexts, Statement.pieces, Statement.attributes,
      Attribute.mapText] using
      (((hindent.append (reads_quote name)).append hblank).append
        (reads_attributes hall)).append hend
  | edge source target attributes =>
    have hends := ((hindent.append (reads_quote source)).append harrow).append (reads_quote target)
    cases attributes with
    | nil => exact hends.append hend
    | cons a attributes =>
      simpa [Statement.render, Statement.mapTexts, Statement.pieces, Statement.attributes] using
        ((hends.append hblank).append (reads_attributes h)).append hend

theorem reads_statements {statements : List Statement}
    (h : ∀ s ∈ statements, ∀ a ∈ s.attributes, isPlainName a.key) :
    Reads (String.join (statements.map Statement.render))
      (((statements.map (Statement.mapTexts withoutReturns)).flatMap Statement.pieces).flatMap
        (· ++ [.sign ';'])) := by
  induction statements with
  | nil => exact reads_empty
  | cons s statements ih =>
    obtain ⟨hs, hrest⟩ := List.forall_mem_cons.mp h
    simpa using (reads_statement hs).append (ih hrest)

theorem reads_preamble : Reads preamble (defaultPieces.flatMap (· ++ [.sign ';'])) := by
  decide +kernel

theorem Document.reads_render {d : Document} (h : d.HasPlainKeys) :
    Reads d.render (d.mapTexts withoutReturns).tokens := by
  have hopen : Reads "digraph " [.word "digraph"] := rfl
  have hbrace : Reads " \x7b\n" [.sign '\x7b'] := rfl
  have hclose : Reads "\x7d\n" [.sign '\x7d'] := rfl
  have hwhole := ((((hopen.append (reads_quote d.name)).append hbrace).append reads_preamble).append
    (reads_statements h)).append hclose
  rw [render, tokens, pieces, intercalate_concat, List.flatMap_append]
  simpa [mapTexts] using hwhole

/-! ## Documents from tokens -/

/-- Reads attributes up to the closing bracket, which is the last token. -/
def readAttributes : List Token → Option (List Attribute)
  | [.sign ']'] => some []
  | [.word key, .sign '=', .text value, .sign ']'] => some [⟨key, value⟩]
  | .word key :: .sign '=' :: .text value :: .sign ',' :: rest =>
    (readAttributes rest).map (⟨key, value⟩ :: ·)
  | _ => none

/-- The node statement with these attributes. The first of them gives the label. -/
def Statement.node? (name : String) : List Attribute → Option Statement
  | label :: attributes =>
    if label.key = "label" then some (node name label.value attributes) else none
  | [] => none

/-- Reads a statement that has no semicolon inside. -/
def Statement.ofPiece? : List Token → Option Statement
  | [.text source, .sign '-', .sign '>', .text target] => some (edge source target [])
  | .text source :: .sign '-' :: .sign '>' :: .text target :: .sign '[' :: rest =>
    (readAttributes rest).map (edge source target)
  | .text name :: .sign '[' :: rest => (readAttributes rest).bind (node? name)
  | _ => none

/-- Reads statements up to the closing brace. -/
def Statement.listOfPieces? : List (List Token) → Option (List Statement)
  | [[.sign '\x7d']] => some []
  | [.word "label", .sign '=', .text text] :: [.word "labelloc", .sign '=', .word "t"] :: rest =>
    (listOfPieces? rest).map (title text :: ·)
  | piece :: rest => (ofPiece? piece).bind fun s => (listOfPieces? rest).map (s :: ·)
  | [] => none

/-- Reads a document from its tokens. -/
def Document.ofTokens? : List Token → Option Document
  | .word "digraph" :: .text name :: .sign '\x7b' :: rest =>
    match rest.splitOn (.sign ';') with
    | nodeDefaults :: edgeDefaults :: pieces =>
      if [nodeDefaults, edgeDefaults] = defaultPieces then
        (Statement.listOfPieces? pieces).map (⟨name, ·⟩)
      else none
    | _ => none
  | _ => none

/-- Reads a document back from its text. -/
def Document.read? (text : String) : Option Document := (tokens? text).bind ofTokens?

theorem readAttributes_attributeTokens (attributes : List Attribute) :
    readAttributes (attributeTokens attributes) = some attributes := by
  induction attributes using attributeTokens.induct with
  | case1 => rfl
  | case2 a => rfl
  | case3 a b attributes ih =>
    simp only [attributeTokens, Attribute.tokens, List.cons_append, List.nil_append,
      readAttributes, ih, Option.map_some]

theorem Statement.listOfPieces?_pieces (s : Statement) (rest : List (List Token)) :
    listOfPieces? (s.pieces ++ rest) = (listOfPieces? rest).map (s :: ·) := by
  cases s with
  | title text => rfl
  | node name label attributes =>
    simp [pieces, listOfPieces?, ofPiece?, readAttributes_attributeTokens, node?]
  | edge source target attributes =>
    cases attributes with
    | nil => simp [pieces, listOfPieces?, ofPiece?]
    | cons a attributes =>
      simp [pieces, listOfPieces?, ofPiece?, readAttributes_attributeTokens]

theorem Statement.listOfPieces?_flatMap (statements : List Statement) :
    listOfPieces? (statements.flatMap pieces ++ [[.sign '\x7d']]) = some statements := by
  induction statements with
  | nil => rfl
  | cons s statements ih =>
    rw [List.flatMap_cons, List.append_assoc, listOfPieces?_pieces, ih, Option.map_some]

theorem semicolon_notMem_attributeTokens (attributes : List Attribute) :
    .sign ';' ∉ attributeTokens attributes := by
  induction attributes using attributeTokens.induct with
  | case1 => decide
  | case2 a => simp [attributeTokens, Attribute.tokens]
  | case3 a b attributes ih => simpa [attributeTokens, Attribute.tokens] using ih

theorem semicolon_notMem_pieces {s : Statement} {piece : List Token} (h : piece ∈ s.pieces) :
    .sign ';' ∉ piece := by
  cases s with
  | title text =>
    obtain rfl | rfl := List.mem_pair.mp h <;> simp
  | node name label attributes =>
    obtain rfl := List.mem_singleton.mp h
    simpa using semicolon_notMem_attributeTokens (⟨"label", label⟩ :: attributes)
  | edge source target attributes =>
    cases attributes with
    | nil =>
      obtain rfl := List.mem_singleton.mp h
      simp
    | cons a attributes =>
      obtain rfl := List.mem_singleton.mp h
      simpa using semicolon_notMem_attributeTokens (a :: attributes)

theorem Document.semicolon_notMem_pieces (d : Document) : ∀ piece ∈ d.pieces, .sign ';' ∉ piece := by
  intro piece h
  simp only [pieces, List.mem_append, List.mem_flatMap, List.mem_singleton] at h
  obtain (hdefault | ⟨s, -, hs⟩) | rfl := h
  · exact (by decide : ∀ piece ∈ defaultPieces, Token.sign ';' ∉ piece) piece hdefault
  · exact Dot.semicolon_notMem_pieces hs
  · decide

theorem Document.ofTokens?_tokens (d : Document) : ofTokens? d.tokens = some d := by
  -- semicolons in texts are no signs, so the cut finds the pieces again
  have hcut : ([.sign ';'].intercalate d.pieces).splitOn (.sign ';') = d.pieces :=
    List.splitOn_intercalate _ d.semicolon_notMem_pieces (by simp [pieces])
  have hpieces : d.pieces =
      defaultPieces[0] :: defaultPieces[1] ::
        (d.statements.flatMap Statement.pieces ++ [[.sign '\x7d']]) := rfl
  simp only [tokens, ofTokens?, hcut]
  rw [hpieces]
  simp [Statement.listOfPieces?_flatMap, defaultPieces]

theorem Document.read?_render {d : Document} (h : d.HasPlainKeys) :
    read? d.render = some (d.mapTexts withoutReturns) := by
  rw [read?, (reads_render h).tokens?_eq, Option.bind_some, ofTokens?_tokens]

end FlowBubbles.Dot
