import FlowBubbles.Dot.Drawing
import FlowBubbles.Proofs.Dot.Pairs
import FlowBubbles.Proofs.Dot.Reading

/-!
# What a document draws

The statements of a document draw nodes and edges, one each. `Document.drawnNodes` and
`Document.drawnEdges` list them in the order of the statements. A document of nodes and edges is read
back from its text as one that draws the same nodes and edges, except that labels have lost their
carriage returns (`Document.read?_render_ofParts`). If the nodes come first, each under a name of its
own, and the edges run between these names, every name that an edge uses is declared before it
(`Document.declaresEnds_ofParts`).
-/

namespace FlowBubbles

/-! ## Names -/

theorem toList_nodeName (v : Nat) : (nodeName v).toList = 'n' :: Nat.toDigits 10 v := by
  simp [nodeName, Nat.toString_eq_repr, Nat.toList_repr]

theorem nodeName_injective : Function.Injective nodeName := by
  intro u v h
  have hnames := congrArg String.toList h
  rw [toList_nodeName, toList_nodeName, List.cons.injEq] at hnames
  -- a number is read back from its digits
  have hread := congrArg (Nat.ofDigitChars 10 · 0) hnames.2
  simpa only [Nat.ofDigitChars_toDigits (by decide : 1 < 10) (by decide : 10 ≤ 10)] using hread

/-- The super-root has no name of a node. -/
theorem nodeName_ne_super_root (v : Nat) : nodeName v ≠ "super_root" := by
  intro h
  have hnames := congrArg String.toList h
  rw [toList_nodeName] at hnames
  exact absurd (List.head_eq_of_cons_eq hnames) (by decide)

/-- The names of the nodes at the ends of an edge. -/
def Edge.names (e : Edge) : String × String := (nodeName e.source, nodeName e.target)

theorem Edge.names_injective : Function.Injective Edge.names := by
  rintro ⟨s, t⟩ ⟨s', t'⟩ h
  obtain ⟨hsource, htarget⟩ := Prod.ext_iff.1 h
  obtain rfl := nodeName_injective hsource
  obtain rfl := nodeName_injective htarget
  rfl

namespace Dot

theorem withoutReturns_nodeName (v : Nat) : withoutReturns (nodeName v) = nodeName v := by
  refine withoutReturns_of_notMem fun hmem => ?_
  rw [toList_nodeName, List.mem_cons] at hmem
  rcases hmem with h | h
  · exact absurd h (by decide)
  · exact absurd (Nat.isDigit_of_mem_toDigits (by decide) (by decide) h) (by decide)

/-! ## Nodes and edges of a document -/

/-- A node as it is drawn. -/
structure DrawnNode where
  name : String
  label : String
  attributes : List Attribute
deriving DecidableEq, Repr

/-- An edge as it is drawn. -/
structure DrawnEdge where
  source : String
  target : String
  attributes : List Attribute
deriving DecidableEq, Repr

/-- The names at the ends of an edge. -/
def DrawnEdge.ends (e : DrawnEdge) : String × String := (e.source, e.target)

/-- Whether attributes are read back as they are. -/
def IsSettled (attributes : List Attribute) : Prop :=
  (∀ a ∈ attributes, isPlainName a.key) ∧
    attributes.map (Attribute.mapText withoutReturns) = attributes

instance (attributes : List Attribute) : Decidable (IsSettled attributes) :=
  inferInstanceAs (Decidable (_ ∧ _))

/-- Whether the name and the attributes of a node are read back as they are. -/
def DrawnNode.IsSettled (v : DrawnNode) : Prop :=
  withoutReturns v.name = v.name ∧ Dot.IsSettled v.attributes

/-- Whether the names and the attributes of an edge are read back as they are. -/
def DrawnEdge.IsSettled (e : DrawnEdge) : Prop :=
  withoutReturns e.source = e.source ∧ withoutReturns e.target = e.target ∧
    Dot.IsSettled e.attributes

/-- The node as it is read back. -/
def DrawnNode.shown (v : DrawnNode) : DrawnNode := { v with label := withoutReturns v.label }

/-- The statement that draws a node. -/
def DrawnNode.statement (v : DrawnNode) : Statement := .node v.name v.label v.attributes

/-- The statement that draws an edge. -/
def DrawnEdge.statement (e : DrawnEdge) : Statement := .edge e.source e.target e.attributes

theorem DrawnNode.IsSettled.mapTexts_statement {v : DrawnNode} (h : v.IsSettled) :
    v.statement.mapTexts withoutReturns = v.shown.statement := by
  rw [statement, Statement.mapTexts, h.1, h.2.2]
  rfl

theorem DrawnEdge.IsSettled.mapTexts_statement {e : DrawnEdge} (h : e.IsSettled) :
    e.statement.mapTexts withoutReturns = e.statement := by
  rw [statement, Statement.mapTexts, h.1, h.2.1, h.2.2.2]

/-- The node that a statement draws. -/
def Statement.drawnNode? : Statement → Option DrawnNode
  | node name label attributes => some ⟨name, label, attributes⟩
  | title _ | edge _ _ _ => none

/-- The edge that a statement draws. -/
def Statement.drawnEdge? : Statement → Option DrawnEdge
  | edge source target attributes => some ⟨source, target, attributes⟩
  | title _ | node _ _ _ => none

/-- The names of the nodes that are drawn by a list of statements. -/
def declaredNames (statements : List Statement) : List String :=
  (statements.filterMap Statement.drawnNode?).map DrawnNode.name

namespace Document

/-- The nodes that a document draws. -/
def drawnNodes (d : Document) : List DrawnNode := d.statements.filterMap Statement.drawnNode?

/-- The edges that a document draws. -/
def drawnEdges (d : Document) : List DrawnEdge := d.statements.filterMap Statement.drawnEdge?

/-- The names of the nodes with these attributes. -/
def nodesIn (d : Document) (style : List Attribute) : List String :=
  (d.drawnNodes.filter (·.attributes == style)).map DrawnNode.name

/-- The names at the ends of the edges with these attributes. -/
def edgesIn (d : Document) (style : List Attribute) : List (String × String) :=
  (d.drawnEdges.filter (·.attributes == style)).map DrawnEdge.ends

/-- Whether each name that an edge uses is declared by exactly one of the statements before it. -/
def DeclaresEnds (d : Document) : Prop :=
  ∀ before source target attributes after,
    d.statements = before ++ .edge source target attributes :: after →
      (declaredNames before).count source = 1 ∧ (declaredNames before).count target = 1

/-! ## Documents of a title, nodes and edges -/

/-- The document that draws first nodes and then edges, below a title. -/
def ofParts (name title : String) (nodes : List DrawnNode) (edges : List DrawnEdge) : Document where
  name := name
  statements :=
    .title title :: nodes.map DrawnNode.statement ++ edges.map DrawnEdge.statement

variable {name title : String} {nodes : List DrawnNode} {edges : List DrawnEdge}

theorem filterMap_drawnNode?_nodes (nodes : List DrawnNode) :
    (nodes.map DrawnNode.statement).filterMap Statement.drawnNode? = nodes := by
  rw [List.filterMap_map]
  exact List.filterMap_some

theorem filterMap_drawnNode?_edges (edges : List DrawnEdge) :
    (edges.map DrawnEdge.statement).filterMap Statement.drawnNode? = [] := by
  rw [List.filterMap_map]
  exact List.filterMap_eq_nil_iff.2 fun _ _ => rfl

theorem filterMap_drawnEdge?_nodes (nodes : List DrawnNode) :
    (nodes.map DrawnNode.statement).filterMap Statement.drawnEdge? = [] := by
  rw [List.filterMap_map]
  exact List.filterMap_eq_nil_iff.2 fun _ _ => rfl

theorem filterMap_drawnEdge?_edges (edges : List DrawnEdge) :
    (edges.map DrawnEdge.statement).filterMap Statement.drawnEdge? = edges := by
  rw [List.filterMap_map]
  exact List.filterMap_some

@[simp]
theorem drawnNodes_ofParts : (ofParts name title nodes edges).drawnNodes = nodes := by
  have htitle : (Statement.title title).drawnNode? = none := rfl
  rw [drawnNodes, ofParts, List.filterMap_append, List.filterMap_cons_none htitle,
    filterMap_drawnNode?_nodes, filterMap_drawnNode?_edges, List.append_nil]

@[simp]
theorem drawnEdges_ofParts : (ofParts name title nodes edges).drawnEdges = edges := by
  have htitle : (Statement.title title).drawnEdge? = none := rfl
  rw [drawnEdges, ofParts, List.filterMap_append, List.filterMap_cons_none htitle,
    filterMap_drawnEdge?_nodes, filterMap_drawnEdge?_edges, List.nil_append]

/-- Its text is read back as a document of the same nodes and edges. -/
theorem read?_render_ofParts (hnodes : ∀ v ∈ nodes, v.IsSettled)
    (hedges : ∀ e ∈ edges, e.IsSettled) :
    read? (ofParts name title nodes edges).render =
      some (ofParts (withoutReturns name) (withoutReturns title) (nodes.map DrawnNode.shown)
        edges) := by
  have hplain : (ofParts name title nodes edges).HasPlainKeys := by
    intro s hs
    rcases List.mem_append.1 hs with hs | hs
    · rcases List.mem_cons.1 hs with rfl | hs
      · exact List.forall_mem_nil _
      · obtain ⟨v, hv, rfl⟩ := List.mem_map.1 hs
        exact (hnodes v hv).2.1
    · obtain ⟨e, he, rfl⟩ := List.mem_map.1 hs
      exact (hedges e he).2.2.1
  have hshown : (nodes.map DrawnNode.statement).map (Statement.mapTexts withoutReturns) =
      (nodes.map DrawnNode.shown).map DrawnNode.statement := by
    rw [List.map_map, List.map_map]
    exact List.map_congr_left fun v hv => (hnodes v hv).mapTexts_statement
  have hkept : (edges.map DrawnEdge.statement).map (Statement.mapTexts withoutReturns) =
      edges.map DrawnEdge.statement := by
    rw [List.map_map]
    exact List.map_congr_left fun e he => (hedges e he).mapTexts_statement
  rw [read?_render hplain, mapTexts, ofParts, ofParts, List.map_append, List.map_cons, hshown, hkept]
  rfl

/-- What is no part of the first list stands in the second one. -/
theorem exists_of_append_eq_append_cons {α : Type} {l l' before after : List α} {x : α}
    (h : l ++ l' = before ++ x :: after) (hx : x ∉ l) :
    ∃ middle, before = l ++ middle ∧ l' = middle ++ x :: after := by
  rcases List.append_eq_append_iff.1 h with ⟨middle, hbefore, hl'⟩ | ⟨middle, hl, hrest⟩
  · exact ⟨middle, hbefore, hl'⟩
  · cases middle with
    | nil => exact ⟨[], by rw [hl, List.append_nil, List.append_nil], hrest.symm⟩
    | cons y middle =>
      obtain rfl : x = y := List.head_eq_of_cons_eq hrest
      exact absurd (by simp [hl]) hx

/-- If the nodes have names of their own and the edges run between them, every name that an edge
uses is declared before it. -/
theorem declaresEnds_ofParts (hnodup : (nodes.map DrawnNode.name).Nodup)
    (hends : ∀ e ∈ edges,
      e.source ∈ nodes.map DrawnNode.name ∧ e.target ∈ nodes.map DrawnNode.name) :
    (ofParts name title nodes edges).DeclaresEnds := by
  intro before source target attributes after hsplit
  have hfront : Statement.edge source target attributes ∉
      .title title :: nodes.map DrawnNode.statement := by
    simp [DrawnNode.statement]
  -- before an edge stand all nodes and some edges
  obtain ⟨middle, rfl, hmiddle⟩ := exists_of_append_eq_append_cons hsplit hfront
  obtain ⟨drawn, later, rfl, rfl, hlater⟩ := List.map_eq_append_iff.1 hmiddle
  have hnames : declaredNames (.title title :: nodes.map DrawnNode.statement ++
      drawn.map DrawnEdge.statement) = nodes.map DrawnNode.name := by
    have htitle : (Statement.title title).drawnNode? = none := rfl
    rw [declaredNames, List.filterMap_append, List.filterMap_cons_none htitle,
      filterMap_drawnNode?_nodes, filterMap_drawnNode?_edges, List.append_nil]
  obtain ⟨e, rest, rfl, he, -⟩ := List.map_eq_cons_iff.1 hlater
  obtain ⟨rfl, rfl, -⟩ : e.source = source ∧ e.target = target ∧ e.attributes = attributes := by
    simpa [DrawnEdge.statement] using he
  obtain ⟨hsource, htarget⟩ := hends e (by simp)
  rw [hnames, hnodup.count, hnodup.count]
  exact ⟨if_pos hsource, if_pos htarget⟩

end Document

end Dot

end FlowBubbles
