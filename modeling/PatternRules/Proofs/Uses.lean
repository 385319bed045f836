import PatternRules.Analysis.Reference
import PatternRules.Proofs.Depth

/-!
Which identifiers of a tree are references, by the place where they stand. `Node.occurrences` lists what
stands below a node with the kind of its parent and its index among the children, and `Kind.refersAt` says at
which of these places a rule is referred to. The pass over a tree knows less: it only excludes some parents
and some first children. On trees that obey the grammar of trees the two agree, because the grammar leaves no
other place for an identifier.

* `Node.occurrences_nodes`: every node below is listed once, in pre-order;
* `Kind.isReferencePlace_of_admits`: the places that are not excluded are those that refer;
* `Node.referencesBelow_eq`, `Node.contains_definedNames`: both questions that the pass asks;
* `undefinedReferences_readDocument`: what is reported on the tree of a text.
-/

namespace PatternRules

namespace Kind

/-- Whether a rule is referred to by an identifier that is the child at index `i` of a node of this kind: where
an expression stands, as the subject of a list and as the method of a resolver. -/
def refersAt (parent : Kind) (i : Nat) : Bool :=
  match parent with
  | ruleDefinition | namedCapture => i == 1
  | group | quantified | listMatch | resolverMethod => i == 0
  | alternation | concatenation => true
  | _ => false

end Kind

/-- A node below another one, with its place there: the kind of its parent and its index among the children. -/
structure Occurrence where
  parent : Kind
  index : Nat
  node : Node

/-- A rule is referred to here. -/
def Occurrence.isReference (o : Occurrence) : Bool :=
  o.node.kind == .identifier && o.parent.refersAt o.index

namespace Node

mutual

/-- What stands below a node, in pre-order. -/
def occurrences : Node → List Occurrence
  | ⟨kind, _, children, _⟩ => occurrencesFrom kind 0 children

/-- What stands among the children of a node from index `i` on, and below them. -/
def occurrencesFrom (parent : Kind) (i : Nat) : List Node → List Occurrence
  | [] => []
  | node :: rest => ⟨parent, i, node⟩ :: (occurrences node ++ occurrencesFrom parent (i + 1) rest)

end

/-- The name an identifier stands for. -/
def name (n : Node) : String := n.text?.getD ""

/-- The name is that of a rule or the alias of an import, wherever these stand in the tree. -/
def defines (root : Node) (name : String) : Bool :=
  root.nodes.any fun n =>
    (n.kind == .ruleDefinition && n.children[0]?.bind text? == some name) ||
      (n.kind == .importStatement && n.children[1]?.bind text? == some name)

mutual

theorem nodes_eq_cons : (n : Node) → n.nodes = n :: n.occurrences.map (·.node)
  | ⟨kind, _, children, _⟩ => by
    rw [nodes, occurrences, nodesOf_eq_occurrencesFrom kind 0 children]

theorem nodesOf_eq_occurrencesFrom (parent : Kind) (i : Nat) :
    (ns : List Node) → nodesOf ns = (occurrencesFrom parent i ns).map (·.node)
  | [] => rfl
  | n :: ns => by
    rw [nodesOf, occurrencesFrom, List.map_cons, List.map_append, nodes_eq_cons n,
      nodesOf_eq_occurrencesFrom parent (i + 1) ns, List.cons_append]

end

/-- **Everything below a node is listed once, in pre-order.** -/
theorem occurrences_nodes (n : Node) : n.occurrences.map (·.node) = n.nodes.tail := by
  rw [nodes_eq_cons, List.tail_cons]

end Node

/-! ## Places -/

namespace Kind

theorem getElem?_of_isPrefixOf {ks all : List Kind} {k : Kind} {i : Nat}
    (h : ks.isPrefixOf all = true) (stands : ks[i]? = some k) : all[i]? = some k := by
  obtain ⟨rest, rfl⟩ := List.isPrefixOf_iff_prefix.1 h
  obtain ⟨inside, -⟩ := List.getElem?_eq_some_iff.1 stands
  rw [List.getElem?_append_left inside]
  exact stands

/-- **An identifier that is not at an excluded place is where a rule is referred to**, if the children of its
parent are such as the grammar of trees admits. -/
theorem isReferencePlace_of_admits {parent : Kind} {ks : List Kind} {i : Nat}
    (fits : parent.admits ks = true) (stands : ks[i]? = some identifier) :
    isReferencePlace parent (i == 0) = parent.refersAt i := by
  have part : identifier ∈ parent.parts := mem_parts fits (List.mem_of_getElem? stands)
  cases parent with
  | alternation | concatenation | importStatement | resolverArgument | filter => rfl
  | group =>
    obtain rfl | ⟨body, -, rfl⟩ := eq_of_admits_group fits
    · cases stands
    · rcases i with _ | i
      · rfl
      · cases stands
  | namedCapture =>
    rcases i with _ | _ | i
    · rfl
    · rfl
    -- there is no third child
    · obtain rfl | rfl | ⟨body, -, rfl⟩ := eq_of_admits_namedCapture fits <;> cases stands
  | ruleDefinition =>
    rcases i with _ | _ | i
    · rfl
    · rfl
    -- the third child is a clause, and there is no fourth
    · obtain rfl | ⟨body, -, rfl | rfl⟩ := eq_of_admits_ruleDefinition fits
      · cases stands
      · cases stands
      · rcases i with _ | i <;> cases stands
  | quantified =>
    obtain ⟨subject, quantifier, -, isQuantifier, rfl⟩ := eq_of_admits_quantified fits
    rcases i with _ | _ | i
    · rfl
    · cases stands
      cases isQuantifier
    · cases stands
  | listMatch =>
    rcases i with _ | i
    · rfl
    · have known := getElem?_of_isPrefixOf fits stands
      rcases i with _ | i <;> cases known
  | resolverMethod =>
    rcases i with _ | i
    · rfl
    · simp only [admits, Bool.or_eq_true, beq_iff_eq] at fits
      rcases fits with rfl | rfl
      · cases stands
      · rcases i with _ | i <;> cases stands
  | _ => exact absurd part (by decide)

/-- The first child of a rule is its name. -/
theorem name_of_ruleDefinition {ks : List Kind} {k : Kind} (fits : ruleDefinition.admits ks = true)
    (stands : ks[0]? = some k) : k = identifier := by
  obtain rfl | ⟨body, -, rfl | rfl⟩ := eq_of_admits_ruleDefinition fits <;>
    exact (Option.some.inj stands).symm

/-- Rules and imports are children of the root only, and nothing holds a root. -/
theorem root_of_statement_mem_parts {k statement : Kind}
    (isStatement : statement = ruleDefinition ∨ statement = importStatement) (part : statement ∈ k.parts) :
    k = root := by
  rcases isStatement with rfl | rfl
  · revert part
    cases k <;> decide
  · revert part
    cases k <;> decide

theorem root_notMem_parts (k : Kind) : root ∉ k.parts := by
  cases k <;> decide

end Kind

namespace Node

/-! ## References -/

mutual

theorem referencesBelow_eq : (n : Node) → (∀ m ∈ n.nodes, m.kind.admits (m.children.map kind) = true) →
    referencesBelow n = (n.occurrences.filter Occurrence.isReference).map (·.node)
  | ⟨kind, value, children, span⟩, fits => by
    have admitted : kind.admits (children.map Node.kind) = true := fits _ List.mem_cons_self
    rw [referencesBelow, occurrences]
    refine referencesAmong_eq kind 0 children (fun m hm => fits m (List.mem_cons_of_mem _ hm)) ?_
    intro j n stands identifier
    rw [Nat.zero_add]
    refine Kind.isReferencePlace_of_admits admitted ?_
    rw [List.getElem?_map, stands, Option.map_some, identifier]

theorem referencesAmong_eq (parent : Kind) (i : Nat) : (ns : List Node) →
    (∀ m ∈ nodesOf ns, m.kind.admits (m.children.map kind) = true) →
    (∀ (j : Nat) (n : Node), ns[j]? = some n → n.kind = .identifier →
      isReferencePlace parent (i + j == 0) = parent.refersAt (i + j)) →
    referencesAmong parent (i == 0) ns =
      ((occurrencesFrom parent i ns).filter Occurrence.isReference).map (·.node)
  | [], _, _ => rfl
  | n :: ns, fits, places => by
    have below := referencesBelow_eq n fun m hm => fits m (List.mem_append_left _ hm)
    have behind := referencesAmong_eq parent (i + 1) ns (fun m hm => fits m (List.mem_append_right _ hm)) ?_
    · have here : (n.kind = .identifier ∧ isReferencePlace parent (i == 0)) ↔
          Occurrence.isReference ⟨parent, i, n⟩ = true := by
        rw [Occurrence.isReference, Bool.and_eq_true, beq_iff_eq]
        exact and_congr_right fun identifier => Bool.eq_iff_iff.1 (places 0 n rfl identifier)
      rw [referencesAmong, below, occurrencesFrom, List.filter_cons, List.filter_append]
      rw [show false = (i + 1 == 0) from rfl, behind]
      simp only [here]
      split <;> simp
    · intro j m stands identifier
      rw [Nat.add_assoc, Nat.add_comm 1 j]
      exact places (j + 1) m stands identifier

end

/-! ## Definitions -/

mutual

/-- Whatever stands below a node is the child of some node. -/
theorem parent_of_mem_nodes : (n : Node) → ∀ m ∈ n.nodes, m = n ∨ ∃ p ∈ n.nodes, m ∈ p.children
  | ⟨kind, value, children, span⟩ => by
    intro m hm
    rw [nodes, List.mem_cons] at hm
    refine hm.imp_right fun below => ?_
    rcases parent_of_mem_nodesOf children m below with child | ⟨p, hp, child⟩
    · exact ⟨_, List.mem_cons_self, child⟩
    · exact ⟨p, List.mem_cons_of_mem _ hp, child⟩

theorem parent_of_mem_nodesOf : (ns : List Node) →
    ∀ m ∈ nodesOf ns, m ∈ ns ∨ ∃ p ∈ nodesOf ns, m ∈ p.children
  | [] => by
    intro m hm
    cases hm
  | n :: ns => by
    intro m hm
    rw [nodesOf, List.mem_append] at hm
    rcases hm with hm | hm
    · rcases parent_of_mem_nodes n m hm with rfl | ⟨p, hp, child⟩
      · exact .inl List.mem_cons_self
      · exact .inr ⟨p, List.mem_append_left _ hp, child⟩
    · rcases parent_of_mem_nodesOf ns m hm with child | ⟨p, hp, child⟩
      · exact .inl (List.mem_cons_of_mem _ child)
      · exact .inr ⟨p, List.mem_append_right _ hp, child⟩

end

variable {root : Node}

theorem mem_parts_of_child {p m : Node} (fits : p.kind.admits (p.children.map kind) = true)
    (child : m ∈ p.children) : m.kind ∈ p.kind.parts :=
  Kind.mem_parts fits (List.mem_map_of_mem child)

/-- **A rule or an import stands at the top level.** -/
theorem statement_mem_children (fits : ∀ m ∈ root.nodes, m.kind.admits (m.children.map kind) = true)
    {m : Node} (hm : m ∈ root.nodes) (isRoot : root.kind = .root)
    (isStatement : m.kind = .ruleDefinition ∨ m.kind = .importStatement) : m ∈ root.children := by
  rcases parent_of_mem_nodes root m hm with rfl | ⟨p, hp, child⟩
  · rw [isRoot] at isStatement
    rcases isStatement with h | h <;> cases h
  · have holdsRoot := Kind.root_of_statement_mem_parts isStatement (mem_parts_of_child (fits p hp) child)
    rcases parent_of_mem_nodes root p hp with rfl | ⟨q, hq, below⟩
    · exact child
    · have part := mem_parts_of_child (fits q hq) below
      rw [holdsRoot] at part
      exact absurd part (Kind.root_notMem_parts q.kind)

theorem kind_of_definingChild? {n c : Node} (fits : n.kind.admits (n.children.map kind) = true)
    (h : definingChild? n = some c) : c.kind = .identifier := by
  unfold definingChild? at h
  split at h
  · next rule =>
    rw [rule] at fits
    refine Kind.name_of_ruleDefinition fits ?_
    rw [List.getElem?_map, h, Option.map_some]
  · next import_ =>
    rw [import_] at fits
    have second : (n.children.map kind)[1]? = some c.kind := by rw [List.getElem?_map, h, Option.map_some]
    exact (Option.some.inj (Kind.getElem?_of_isPrefixOf fits second)).symm
  · cases h

theorem definedName?_eq {n : Node} (fits : n.kind.admits (n.children.map kind) = true) :
    definedName? n = (definingChild? n).bind text? := by
  unfold definedName?
  cases h : definingChild? n with
  | none => rfl
  | some c =>
    rw [Option.bind_eq_bind, Option.bind_some, Option.bind_some, if_pos (kind_of_definingChild? fits h)]

theorem definedName?_eq_some {n : Node} (fits : n.kind.admits (n.children.map kind) = true) (name : String) :
    definedName? n = some name ↔
      (n.kind = .ruleDefinition ∧ n.children[0]?.bind text? = some name) ∨
        (n.kind = .importStatement ∧ n.children[1]?.bind text? = some name) := by
  rw [definedName?_eq fits]
  unfold definingChild?
  split
  · next rule => simp [rule]
  · next import_ => simp [import_]
  · next noRule noImport =>
    simp only [Option.bind_none, reduceCtorEq, false_iff, not_or, not_and]
    exact ⟨fun rule => (noRule rule).elim, fun import_ => (noImport import_).elim⟩

theorem contains_definedNames (fits : ∀ m ∈ root.nodes, m.kind.admits (m.children.map kind) = true)
    (isRoot : root.kind = .root) (name : String) :
    (definedNames root).contains name = root.defines name := by
  rw [Bool.eq_iff_iff, List.contains_iff_mem, definedNames, List.mem_filterMap, defines, List.any_eq_true]
  simp only [Bool.or_eq_true, Bool.and_eq_true, beq_iff_eq]
  constructor
  · rintro ⟨n, child, defined⟩
    have hn : n ∈ root.nodes := child_mem_nodes child
    exact ⟨n, hn, (definedName?_eq_some (fits n hn) name).1 defined⟩
  · rintro ⟨n, hn, defined⟩
    have child := statement_mem_children fits hn isRoot (defined.imp And.left And.left)
    exact ⟨n, child, (definedName?_eq_some (fits n hn) name).2 defined⟩

end Node

/-! ## What is reported -/

/-- An identifier has a name. -/
theorem text?_of_isReference {root : Node} (conforms : ∀ n ∈ root.nodes, n.Conforms) {o : Occurrence}
    (ho : o ∈ root.occurrences) (isReference : o.isReference = true) : o.node.text? = some o.node.name := by
  have below : o.node ∈ root.nodes := by
    rw [root.nodes_eq_cons]
    exact List.mem_cons_of_mem _ (List.mem_map_of_mem ho)
  have identifier : o.node.kind = .identifier := by
    rw [Occurrence.isReference, Bool.and_eq_true, beq_iff_eq] at isReference
    exact isReference.1
  have hasText := (conforms _ below).text
  rw [identifier] at hasText
  obtain ⟨name, h⟩ := Option.isSome_iff_exists.1 hasText
  rw [Node.name, h, Option.getD_some]

theorem undefinedReference?_eq {defined : List String} {config : Config} {n : Node}
    (h : n.text? = some n.name) :
    undefinedReference? defined config n =
      if defined.contains n.name || config.isBuiltin n.name then none
      else some (.error .undefinedReference ("Undefined rule reference: " ++ n.name) n.span) := by
  unfold undefinedReference?
  rw [h, Option.bind_eq_bind, Option.bind_some]
  rfl

/-- **Undefined references are reported exactly.** On the tree of a text, one diagnostic stands for every place
where a rule is referred to under a name that no rule has, that is no alias of an import and that is not built
in, in pre-order and wherever the rules and imports stand. Nothing else is reported. -/
theorem undefinedReferences_readDocument (config : Config) (text : String) :
    undefinedReferences config (readDocument text).tree =
      ((readDocument text).tree.occurrences.filter fun o =>
        o.isReference && !(readDocument text).tree.defines o.node.name && !config.isBuiltin o.node.name).map
          fun o => .error .undefinedReference ("Undefined rule reference: " ++ o.node.name) o.node.span := by
  have isRoot := root_readDocument text
  have conforms : ∀ n ∈ (readDocument text).tree.nodes, n.Conforms := fun _ => conforms_of_mem_nodes
  generalize (readDocument text).tree = root at isRoot conforms
  have fits : ∀ n ∈ root.nodes, n.kind.admits (n.children.map Node.kind) = true :=
    fun n hn => (conforms n hn).children
  rw [undefinedReferences, root.referencesBelow_eq fits, List.filterMap_map, List.filterMap_filter,
    ← List.filterMap_eq_map, List.filterMap_filter]
  refine List.filterMap_congr fun o ho => ?_
  cases isReference : o.isReference with
  | false => rfl
  | true =>
    rw [if_pos rfl, Function.comp_apply, undefinedReference?_eq (text?_of_isReference conforms ho isReference),
      Node.contains_definedNames fits isRoot]
    cases root.defines o.node.name <;> cases config.isBuiltin o.node.name <;> rfl

end PatternRules
