import FlowBubbles.Proofs.Dot.Reading

/-!
# Texts cannot disturb a drawing

Since a document can be read back, two documents that are written alike are the same, up to
carriage returns. The words and signs of a written document are there whatever its texts say, and
so are its lines: no text opens or closes a statement, and none adds a line.
-/

namespace FlowBubbles.Dot

/-! ## Documents that are written alike -/

/-- Carriage returns leave no trace in the written form. -/
theorem Document.render_withoutReturns (d : Document) :
    (d.mapTexts withoutReturns).render = d.render := by
  have hquote (s : String) : quote (withoutReturns s) = quote s := by
    rw [quote, quote, escape_withoutReturns]
  have hattribute (a : Attribute) : (a.mapText withoutReturns).render = a.render := by
    simp [Attribute.render, Attribute.mapText, hquote]
  have hattributes (attributes : List Attribute) :
      renderAttributes (attributes.map (Attribute.mapText withoutReturns)) =
        renderAttributes attributes := by
    simp [renderAttributes, Function.comp_def, hattribute]
  have hstatement (s : Statement) : (s.mapTexts withoutReturns).render = s.render := by
    rcases s with text | ⟨name, label, attributes⟩ | ⟨source, target, _ | ⟨a, attributes⟩⟩
    · simp [Statement.mapTexts, Statement.render, hquote]
    · have hall := hattributes (⟨"label", label⟩ :: attributes)
      simp only [List.map_cons, Attribute.mapText] at hall
      simp [Statement.mapTexts, Statement.render, hquote, hall]
    · simp [Statement.mapTexts, Statement.render, hquote]
    · have hall := hattributes (a :: attributes)
      simp only [List.map_cons] at hall
      simp [Statement.mapTexts, Statement.render, hquote, hall]
  simp [render, mapTexts, Function.comp_def, hquote, hstatement]

/-- Two documents are written alike only when they agree up to carriage returns. -/
theorem Document.render_eq_render_iff {d d' : Document} (h : d.HasPlainKeys)
    (h' : d'.HasPlainKeys) :
    d.render = d'.render ↔ d.mapTexts withoutReturns = d'.mapTexts withoutReturns := by
  constructor
  · intro heq
    have hread := read?_render h
    rw [heq, read?_render h'] at hread
    exact (Option.some.inj hread).symm
  · intro heq
    rw [← d.render_withoutReturns, heq, d'.render_withoutReturns]

/-! ## Statements and lines of the text -/

/-- The token with nothing between its quotes. -/
def Token.blank : Token → Token := Token.mapText fun _ => ""

@[simp]
theorem Token.blank_word (name : String) : (Token.word name).blank = .word name := rfl

@[simp]
theorem Token.blank_sign (c : Char) : (Token.sign c).blank = .sign c := rfl

@[simp]
theorem Token.blank_text (content : String) : (Token.text content).blank = .text "" := rfl

@[simp]
theorem Token.blank_comp_mapText (f : String → String) :
    Token.blank ∘ Token.mapText f = Token.blank := by
  funext t
  cases t <;> rfl

/-- The words and signs of a text, and the places of its quotes. -/
def skeleton? (text : String) : Option (List Token) := (tokens? text).map (List.map Token.blank)

theorem attributeTokens_mapText (f : String → String) (attributes : List Attribute) :
    attributeTokens (attributes.map (Attribute.mapText f)) =
      (attributeTokens attributes).map (Token.mapText f) := by
  induction attributes using attributeTokens.induct with
  | case1 => rfl
  | case2 a => rfl
  | case3 a b attributes ih =>
    simp_all [attributeTokens, Attribute.tokens, Attribute.mapText, Token.mapText]

theorem Statement.pieces_mapTexts (f : String → String) (s : Statement) :
    (s.mapTexts f).pieces = s.pieces.map (List.map (Token.mapText f)) := by
  rcases s with text | ⟨name, label, attributes⟩ | ⟨source, target, _ | ⟨a, attributes⟩⟩
  · rfl
  · exact congrArg (fun ts => [.text (f name) :: .sign '[' :: ts])
      (attributeTokens_mapText f (⟨"label", label⟩ :: attributes))
  · rfl
  · simpa [mapTexts, pieces, Token.mapText] using attributeTokens_mapText f (a :: attributes)

theorem Document.blank_tokens_mapTexts (f : String → String) (d : Document) :
    (d.mapTexts f).tokens.map Token.blank = d.tokens.map Token.blank := by
  rw [tokens, tokens, pieces, pieces, intercalate_concat, intercalate_concat]
  simp [mapTexts, Statement.pieces_mapTexts, List.map_flatMap, List.flatMap_map, List.flatMap_assoc]

theorem Document.hasPlainKeys_mapTexts (f : String → String) (d : Document) (h : d.HasPlainKeys) :
    (d.mapTexts f).HasPlainKeys := by
  intro s hs a ha
  obtain ⟨s, hs', rfl⟩ := List.mem_map.mp hs
  have hattributes : (s.mapTexts f).attributes = s.attributes.map (Attribute.mapText f) := by
    cases s <;> rfl
  rw [hattributes] at ha
  obtain ⟨a, ha', rfl⟩ := List.mem_map.mp ha
  exact h s hs' a ha'

theorem Document.skeleton?_mapTexts {d : Document} (h : d.HasPlainKeys) (f : String → String) :
    skeleton? (d.mapTexts f).render = skeleton? d.render := by
  have hplain : (d.mapTexts f).HasPlainKeys := d.hasPlainKeys_mapTexts f h
  rw [skeleton?, skeleton?, (reads_render hplain).tokens?_eq, (reads_render h).tokens?_eq]
  simp [blank_tokens_mapTexts]

/-- Whether the statement gives a title. -/
def Statement.isTitle : Statement → Bool
  | title _ => true
  | node _ _ _ | edge _ _ _ => false

theorem count_newline_quote (s : String) : (quote s).toList.count '\n' = 0 := by
  have hescape := List.count_eq_zero_of_not_mem (newline_notMem_escapeChars s.toList)
  simp [quote, escape, hescape]

theorem count_newline_renderAttributes {attributes : List Attribute}
    (h : ∀ a ∈ attributes, isPlainName a.key) :
    (renderAttributes attributes).toList.count '\n' = 0 := by
  have hone : ∀ a ∈ attributes, a.render.toList.count '\n' = 0 := by
    intro a ha
    have hkey : '\n' ∉ a.key.toList := fun hmem =>
      absurd (isWordChar_of_isPlainName (h a ha) _ hmem) (by decide)
    simp [Attribute.render, count_newline_quote, List.count_eq_zero_of_not_mem hkey]
  clear h
  have hall : (", ".intercalate (attributes.map Attribute.render)).toList.count '\n' = 0 := by
    induction attributes using attributeTokens.induct with
    | case1 => simp
    | case2 a => simpa using hone
    | case3 a b attributes ih =>
      have hrest := ih fun a ha => hone a (List.mem_cons_of_mem _ ha)
      have hfirst := hone a List.mem_cons_self
      simpa [String.intercalate_cons_cons, hfirst] using hrest
  simpa [renderAttributes] using hall

/-- A title takes two lines, any other statement takes one. -/
theorem Statement.count_newline_render {s : Statement} (h : ∀ a ∈ s.attributes, isPlainName a.key) :
    s.render.toList.count '\n' = if s.isTitle then 2 else 1 := by
  rcases s with text | ⟨name, label, attributes⟩ | ⟨source, target, _ | ⟨a, attributes⟩⟩
  · simp [render, isTitle, count_newline_quote]
  · have hall : (renderAttributes (⟨"label", label⟩ :: attributes)).toList.count '\n' = 0 :=
      count_newline_renderAttributes (isPlainName_of_mem_labelled label h)
    simp [render, isTitle, count_newline_quote, hall]
  · simp [render, isTitle, count_newline_quote]
  · have hall : (renderAttributes (a :: attributes)).toList.count '\n' = 0 :=
      count_newline_renderAttributes h
    simp [render, isTitle, count_newline_quote, hall]

theorem count_newline_preamble : preamble.toList.count '\n' = 2 := by decide +kernel

theorem count_newline_statements {statements : List Statement}
    (h : ∀ s ∈ statements, ∀ a ∈ s.attributes, isPlainName a.key) :
    (String.join (statements.map Statement.render)).toList.count '\n' =
      statements.length + statements.countP Statement.isTitle := by
  induction statements with
  | nil => rfl
  | cons s statements ih =>
    obtain ⟨hs, hrest⟩ := List.forall_mem_cons.mp h
    rw [List.map_cons, String.join_cons, String.toList_append, List.count_append, ih hrest,
      Statement.count_newline_render hs, List.length_cons, List.countP_cons]
    split <;> omega

/-- A document takes four lines of its own: the first, the two with the defaults, and the last. -/
theorem Document.count_newline_render {d : Document} (h : d.HasPlainKeys) :
    d.render.toList.count '\n' =
      4 + d.statements.length + d.statements.countP Statement.isTitle := by
  have hopen : "digraph ".toList.count '\n' = 0 := rfl
  have hbrace : " \x7b\n".toList.count '\n' = 1 := rfl
  have hclose : "\x7d\n".toList.count '\n' = 1 := rfl
  simp only [render, String.toList_append, List.count_append, count_newline_quote,
    count_newline_statements h, count_newline_preamble, hopen, hbrace, hclose]
  omega

/-! ## The whole -/

/-- A written document can be read back, up to carriage returns. Hence no two documents that differ
in more are written alike. Whatever other texts take the place of its own, the words and signs of a
document and the places of its quotes stay the same, and the number of its lines depends on the
kinds of its statements only. -/
theorem Document.render_unambiguous {d : Document} (h : d.HasPlainKeys) :
    read? d.render = some (d.mapTexts withoutReturns) ∧
      (∀ d' : Document, d'.HasPlainKeys →
        (d.render = d'.render ↔ d.mapTexts withoutReturns = d'.mapTexts withoutReturns)) ∧
      (∀ f : String → String, skeleton? (d.mapTexts f).render = skeleton? d.render) ∧
      d.render.toList.count '\n' =
        4 + d.statements.length + d.statements.countP Statement.isTitle :=
  ⟨read?_render h, fun _ h' => render_eq_render_iff h h', skeleton?_mapTexts h,
    count_newline_render h⟩

/-- A drawing whose texts try to break out of their quotes. -/
def Document.hostile : Document where
  name := "a\"; \x7d\\"
  statements :=
    [.title "one\r\ntwo\\", .node "\"]" "x\" [y=\"" [⟨"shape", "box\\\""⟩],
      .edge "\\" "];\n\x7d" [⟨"style", "<dashed>"⟩, ⟨"_1", ""⟩], .edge "\r" "" []]

theorem Document.render_hostile :
    Document.hostile.HasPlainKeys ∧
      read? Document.hostile.render = some (Document.hostile.mapTexts withoutReturns) ∧
        Document.hostile.render.toList.count '\n' = 9 := by
  have hplain : Document.hostile.HasPlainKeys := by decide
  obtain ⟨hread, -, -, hlines⟩ := Document.render_unambiguous hplain
  exact ⟨hplain, hread, hlines⟩

end FlowBubbles.Dot
