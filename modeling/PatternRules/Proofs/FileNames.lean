import Mathlib.Data.List.Nodup
import PatternRules.Proofs.Coordinates
import PatternRules.Proofs.Mentions
import PatternRules.Proofs.Uses

/-!
Which strings of a tree are file names, by the place where they stand. The pass over a tree goes by less than the
place: it takes every string below every flag whose text mentions `optional-tokens`, which on some trees takes a
string twice, or one that names no file. On the tree of a text it takes each file name once, because a flag has
nothing but one list of files below it, and mentions the word if it has one.

* `FileReference.ofFlags_nodes`, `FileReference.filterMap_ofImport?`: what the pass takes is what stands at the
  places of file names;
* `Node.ReadFrom.strings_sorted`: what is read behind a string starts further on;
* `FileReference.inTree_readDocument`: the file names in the tree of a text.
-/

namespace PatternRules

/-- A file is named here for a purpose: by the path of an import, or behind `optional-tokens`. -/
def Occurrence.isFileName (purpose : FilePurpose) (o : Occurrence) : Bool :=
  o.node.kind == .string &&
    match purpose with
    | .importPath => o.parent == .importStatement && o.index == 0
    | .optionalTokens => o.parent == .optionalTokens

/-- What stands here as a file name. -/
def Occurrence.reference (purpose : FilePurpose) (o : Occurrence) : FileReference :=
  ⟨purpose, o.node.text?.getD "", o.node.span⟩

namespace Kind

theorem resolverFlag_of_optionalTokens_mem_parts {k : Kind} (part : optionalTokens ∈ k.parts) :
    k = resolverFlag := by
  revert part
  cases k <;> decide

theorem noStatement_parts {k : Kind} (notRoot : k ≠ root) : ∀ k' ∈ k.parts, k' ≠ importStatement ∧ k' ≠ root := by
  rintro k' part
  constructor
  · rintro rfl
    exact notRoot (root_of_statement_mem_parts (.inr rfl) part)
  · rintro rfl
    exact root_notMem_parts k part

end Kind

namespace Node

theorem Conforms.string {n : Node} (h : n.Conforms) (isString : n.kind = .string) :
    n.children = [] ∧ n.text?.isSome := by
  have fits := h.children
  have text := h.text
  rw [isString] at fits text
  exact ⟨List.map_eq_nil_iff.1 (List.isEmpty_iff.1 fits), text⟩

theorem nodes_eq (n : Node) : n.nodes = n :: nodesOf n.children := by
  obtain ⟨kind, value, children, span⟩ := n
  rw [nodes]

theorem occurrences_eq (n : Node) : n.occurrences = occurrencesFrom n.kind 0 n.children := by
  obtain ⟨kind, value, children, span⟩ := n
  rw [occurrences]

/-- What may stand below a flag. -/
theorem Conforms.resolverFlag {n : Node} (h : n.Conforms) (isFlag : n.kind = .resolverFlag) :
    n.children = [] ∨ ∃ clause, n.children = [clause] ∧ clause.kind = .optionalTokens := by
  have fits := h.children
  rw [isFlag] at fits
  rcases children : n.children with _ | ⟨clause, _ | ⟨more, rest⟩⟩
  · exact .inl rfl
  · rw [children] at fits
    exact .inr ⟨clause, rfl, (List.cons_prefix_cons.1 (List.isPrefixOf_iff_prefix.1 fits)).1⟩
  · rw [children] at fits
    cases (List.cons_prefix_cons.1 (List.isPrefixOf_iff_prefix.1 fits)).2.length_le

theorem Conforms.optionalTokens {n : Node} (h : n.Conforms) (isClause : n.kind = .optionalTokens) :
    ∀ file ∈ n.children, file.kind = .string := by
  have fits := h.children
  rw [isClause] at fits
  exact fun file hfile => eq_of_beq (List.all_eq_true.1 fits _ (List.mem_map_of_mem hfile))

end Node

/-! ## What the pass takes -/

namespace FileReference

open Node (nodesOf occurrencesFrom)

/-- The files that are named for a purpose at some places. -/
def among (purpose : FilePurpose) (os : List Occurrence) : List FileReference :=
  (os.filter (·.isFileName purpose)).map (·.reference purpose)

theorem among_append (purpose : FilePurpose) (os os' : List Occurrence) :
    among purpose (os ++ os') = among purpose os ++ among purpose os' := by
  rw [among, List.filter_append, List.map_append, among, among]

theorem among_cons {purpose : FilePurpose} {o : Occurrence} (names : o.isFileName purpose = true)
    (os : List Occurrence) : among purpose (o :: os) = o.reference purpose :: among purpose os := by
  rw [among, List.filter_cons_of_pos names, List.map_cons, among]

theorem among_cons_of_not {purpose : FilePurpose} {o : Occurrence} (other : ¬ o.isFileName purpose = true)
    (os : List Occurrence) : among purpose (o :: os) = among purpose os := by
  rw [among, List.filter_cons_of_neg other, among]

/-- What is taken below the flags among some nodes. -/
def ofFlags (ns : List Node) : List FileReference :=
  (ns.filter isOptionalTokensFlag).flatMap fun flag =>
    (flag.nodesOfKind .string).filterMap (ofNode? .optionalTokens)

theorem ofFlags_append (ns ms : List Node) : ofFlags (ns ++ ms) = ofFlags ns ++ ofFlags ms := by
  rw [ofFlags, List.filter_append, List.flatMap_append, ofFlags, ofFlags]

theorem ofFlags_cons_of_kind {n : Node} (noFlag : n.kind ≠ .resolverFlag) (ns : List Node) :
    ofFlags (n :: ns) = ofFlags ns := by
  have skipped : ¬ isOptionalTokensFlag n = true := by simp [isOptionalTokensFlag, noFlag]
  rw [ofFlags, List.filter_cons_of_neg skipped, ofFlags]

theorem ofFlags_eq_nil {ns : List Node} (noFlags : ∀ n ∈ ns, n.kind ≠ .resolverFlag) : ofFlags ns = [] := by
  induction ns with
  | nil => rfl
  | cons n ns ih =>
    rw [List.forall_mem_cons] at noFlags
    rw [ofFlags_cons_of_kind noFlags.1, ih noFlags.2]

theorem ofNode?_eq {purpose : FilePurpose} {n : Node} (hasText : n.text?.isSome) (parent : Kind) (i : Nat) :
    ofNode? purpose n = some (Occurrence.reference purpose ⟨parent, i, n⟩) := by
  obtain ⟨literal, value⟩ := Option.isSome_iff_exists.1 hasText
  rw [ofNode?, Occurrence.reference, value]
  rfl

/-- Strings have nothing below them. -/
theorem filterMap_ofNode? (i : Nat) : (ns : List Node) → (∀ n ∈ ns, n.Conforms) →
    (∀ n ∈ ns, n.kind = .string) →
    nodesOf ns = ns ∧
      ns.filterMap (ofNode? .optionalTokens) = among .optionalTokens (occurrencesFrom .optionalTokens i ns)
  | [], _, _ => ⟨rfl, rfl⟩
  | ⟨kind, value, children, span⟩ :: ns, conform, strings => by
    rw [List.forall_mem_cons] at conform strings
    obtain ⟨nodes, taken⟩ := filterMap_ofNode? (i + 1) ns conform.2 strings.2
    obtain ⟨leaf, hasText⟩ := conform.1.string strings.1
    have isString : kind = .string := strings.1
    have leaf : children = [] := leaf
    subst isString leaf
    constructor
    · rw [nodesOf, nodes]
      rfl
    · rw [List.filterMap_cons_some (ofNode?_eq hasText _ i), taken, occurrencesFrom, among_cons rfl]
      rfl

/-- What is taken below a flag is what stands behind its `optional-tokens`. -/
theorem ofFlags_flag {n : Node} (isFlag : n.kind = .resolverFlag) (conform : ∀ m ∈ n.nodes, m.Conforms)
    (named : n.NamesFiles) : ofFlags n.nodes = among .optionalTokens n.occurrences := by
  rcases (conform n n.self_mem_nodes).resolverFlag isFlag with bare | ⟨clause, one, isClause⟩
  · have nothing : n.nodesOfKind .string = [] := by simp [Node.nodesOfKind, n.nodes_eq, bare, isFlag, nodesOf]
    rw [n.nodes_eq, n.occurrences_eq, bare, nodesOf, ofFlags, List.filter_cons]
    split
    · rw [List.filter_nil, List.flatMap_cons, nothing]
      rfl
    · rfl
  · have mentions := named.flag isFlag (by simp [one])
    have inside : clause ∈ n.nodes := Node.child_mem_nodes (one ▸ List.mem_cons_self)
    have strings := (conform clause inside).optionalTokens isClause
    have conform : ∀ file ∈ clause.children, file.Conforms := fun file hfile =>
      conform file (Node.nodes_subset_of_mem n inside (Node.child_mem_nodes hfile))
    obtain ⟨leaves, taken⟩ := filterMap_ofNode? 0 clause.children conform strings
    have all : n.nodes = n :: clause :: clause.children := by
      rw [n.nodes_eq, one, Node.nodesOf_singleton, leaves]
    have files : n.nodesOfKind .string = clause.children := by
      rw [Node.nodesOfKind, all, List.filter_cons_of_neg (by simp [isFlag]),
        List.filter_cons_of_neg (by simp [isClause]), List.filter_eq_self]
      exact fun file hfile => beq_iff_eq.2 (strings file hfile)
    have noFlags : ofFlags (clause :: clause.children) = [] := by
      refine ofFlags_eq_nil (List.forall_mem_cons.2 ⟨by simp [isClause], fun file hfile => ?_⟩)
      simp [strings file hfile]
    have other : ¬ Occurrence.isFileName .optionalTokens ⟨n.kind, 0, clause⟩ = true := by
      simp [Occurrence.isFileName, isClause]
    calc ofFlags n.nodes
      _ = (n.nodesOfKind .string).filterMap (ofNode? .optionalTokens) ++ ofFlags (clause :: clause.children) := by
        rw [all, ofFlags, List.filter_cons_of_pos mentions, List.flatMap_cons, ofFlags]
      _ = among .optionalTokens clause.occurrences := by
        rw [noFlags, List.append_nil, files, taken, clause.occurrences_eq, isClause]
      _ = among .optionalTokens n.occurrences := by
        rw [n.occurrences_eq, one, occurrencesFrom, among_cons_of_not other, occurrencesFrom, List.append_nil]

mutual

theorem ofFlags_nodes : (n : Node) → (∀ m ∈ n.nodes, m.Conforms ∧ m.NamesFiles) → n.kind ≠ .optionalTokens →
    ofFlags n.nodes = among .optionalTokens n.occurrences
  | ⟨kind, value, children, span⟩, good, notClause => by
    by_cases isFlag : kind = .resolverFlag
    -- all that is taken below a flag is taken for this flag, so the recursion ends here
    · exact ofFlags_flag isFlag (fun m hm => (good m hm).1) (good _ (Node.self_mem_nodes _)).2
    · have fits := (good _ (Node.self_mem_nodes _)).1.children
      rw [Node.nodes] at good ⊢
      rw [ofFlags_cons_of_kind isFlag, Node.occurrences]
      refine ofFlags_nodesOf kind 0 children (fun m hm => good m (List.mem_cons_of_mem _ hm)) notClause ?_
      intro c hc isClause
      have part := Node.mem_parts_of_child fits hc
      rw [isClause] at part
      exact isFlag (Kind.resolverFlag_of_optionalTokens_mem_parts part)

theorem ofFlags_nodesOf (parent : Kind) (i : Nat) : (ns : List Node) →
    (∀ m ∈ nodesOf ns, m.Conforms ∧ m.NamesFiles) → parent ≠ .optionalTokens →
    (∀ n ∈ ns, n.kind ≠ .optionalTokens) →
    ofFlags (nodesOf ns) = among .optionalTokens (occurrencesFrom parent i ns)
  | [], _, _, _ => rfl
  | n :: ns, good, notBehind, noClause => by
    rw [nodesOf] at good ⊢
    rw [List.forall_mem_append] at good
    rw [List.forall_mem_cons] at noClause
    have other : ¬ Occurrence.isFileName .optionalTokens ⟨parent, i, n⟩ = true := by
      simp [Occurrence.isFileName, notBehind]
    rw [occurrencesFrom, among_cons_of_not other, among_append, ofFlags_append, ofFlags_nodes n good.1 noClause.1,
      ofFlags_nodesOf parent (i + 1) ns good.2 notBehind noClause.2]

end

mutual

/-- Without an import statement no import names a file, and one does so with its first child only. -/
theorem among_importPath_eq_nil : (n : Node) → (∀ m ∈ n.nodes, m.kind ≠ .importStatement) →
    among .importPath n.occurrences = []
  | ⟨kind, value, children, span⟩, noImport => by
    rw [Node.nodes, List.forall_mem_cons] at noImport
    rw [Node.occurrences]
    exact among_importPath_from_eq_nil kind 0 children (.inl noImport.1) noImport.2

theorem among_importPath_from_eq_nil (parent : Kind) (i : Nat) : (ns : List Node) →
    (parent ≠ .importStatement ∨ 0 < i) → (∀ m ∈ nodesOf ns, m.kind ≠ .importStatement) →
    among .importPath (occurrencesFrom parent i ns) = []
  | [], _, _ => rfl
  | n :: ns, elsewhere, noImport => by
    rw [nodesOf, List.forall_mem_append] at noImport
    have other : ¬ Occurrence.isFileName .importPath ⟨parent, i, n⟩ = true := by
      rcases elsewhere with other | behind
      · simp [Occurrence.isFileName, other]
      · simp [Occurrence.isFileName, Nat.ne_of_gt behind]
    rw [occurrencesFrom, among_cons_of_not other, among_append, among_importPath_eq_nil n noImport.1,
      among_importPath_from_eq_nil parent (i + 1) ns (.inr (Nat.succ_pos i)) noImport.2, List.append_nil]

end

/-- What is taken of an import is its path. -/
theorem ofImport?_statement {n : Node} (isImport : n.kind = .importStatement) (conform : ∀ m ∈ n.nodes, m.Conforms)
    (noImport : ∀ m ∈ nodesOf n.children, m.kind ≠ .importStatement) :
    (ofImport? n).toList = among .importPath n.occurrences := by
  have fits := (conform n n.self_mem_nodes).children
  rw [isImport] at fits
  unfold ofImport?
  rw [n.occurrences_eq, isImport]
  rcases children : n.children with _ | ⟨path, tail⟩
  · rfl
  · rw [children] at fits noImport
    rw [nodesOf, List.forall_mem_append] at noImport
    have isString : path.kind = .string := (List.cons_prefix_cons.1 (List.isPrefixOf_iff_prefix.1 fits)).1
    have inside : path ∈ n.nodes := Node.child_mem_nodes (children ▸ List.mem_cons_self)
    have hasText := ((conform path inside).string isString).2
    have here : Occurrence.isFileName .importPath ⟨.importStatement, 0, path⟩ = true := by
      simp [Occurrence.isFileName, isString]
    rw [occurrencesFrom, among_cons here, among_append, among_importPath_eq_nil path noImport.1,
      among_importPath_from_eq_nil _ 1 tail (.inr Nat.one_pos) noImport.2, List.head?_cons]
    simp [isString, ofNode?_eq hasText .importStatement 0]

theorem ofImport?_eq {n : Node} (conform : ∀ m ∈ n.nodes, m.Conforms)
    (noImport : ∀ m ∈ nodesOf n.children, m.kind ≠ .importStatement) :
    (ofImport? n).toList = among .importPath n.occurrences := by
  by_cases isImport : n.kind = .importStatement
  · exact ofImport?_statement isImport conform noImport
  · have nothing : ofImport? n = none := by
      unfold ofImport?
      cases n.children.head? <;> simp [isImport]
    rw [nothing, among_importPath_eq_nil n]
    · rfl
    · rw [n.nodes_eq, List.forall_mem_cons]
      exact ⟨isImport, noImport⟩

theorem filterMap_ofImport? (parent : Kind) (i : Nat) (other : parent ≠ .importStatement) : (ns : List Node) →
    (∀ m ∈ nodesOf ns, m.Conforms) →
    (∀ n ∈ ns, ∀ m ∈ nodesOf n.children, m.kind ≠ .importStatement) →
    ns.filterMap ofImport? = among .importPath (occurrencesFrom parent i ns)
  | [], _, _ => rfl
  | n :: ns, conform, noImport => by
    rw [nodesOf, List.forall_mem_append] at conform
    rw [List.forall_mem_cons] at noImport
    have notHere : ¬ Occurrence.isFileName .importPath ⟨parent, i, n⟩ = true := by
      simp [Occurrence.isFileName, other]
    rw [occurrencesFrom, among_cons_of_not notHere, among_append, ← ofImport?_eq conform.1 noImport.1,
      ← filterMap_ofImport? parent (i + 1) other ns conform.2 noImport.2, List.filterMap_cons]
    cases ofImport? n <;> rfl

end FileReference

namespace Node

variable {root : Node}

/-- Below the statements of a document there is no import. -/
theorem kind_ne_importStatement (conform : ∀ m ∈ root.nodes, m.Conforms) {n : Node} (statement : n ∈ root.children) :
    ∀ m ∈ nodesOf n.children, m.kind ≠ .importStatement := by
  have inside : n ∈ root.nodes := child_mem_nodes statement
  have below : ∀ m ∈ nodesOf n.children, m ∈ root.nodes := fun m hm =>
    nodes_subset_of_mem root inside (n.nodes_eq ▸ List.mem_cons_of_mem _ hm)
  have notRoot : n.kind ≠ .root := by
    have part := mem_parts_of_child (conform root root.self_mem_nodes).children statement
    intro isRoot
    exact Kind.root_notMem_parts _ (isRoot ▸ part)
  have kinds := kind_of_mem_nodesOf (P := fun k => k ≠ .importStatement ∧ k ≠ .root)
    (fun k here => Kind.noStatement_parts here.2) n.children (fun m hm => (conform m (below m hm)).children)
    fun c hc => Kind.noStatement_parts notRoot _ (mem_parts_of_child (conform n inside).children hc)
  exact fun m hm => (kinds m hm).1

/-! ## The order of strings -/

theorem ReadFrom.position_lt {n : Node} {a b : Cursor} (h : ReadFrom n a b) (isString : n.kind = .string)
    (written : n.text? ≠ some "") : a.position < b.position := by
  obtain ⟨count, rfl⟩ := h.reaches
  have value := h.value_eq
  rw [isString, Parse.textSince_advanceBy] at value
  have some : a.rest.take count ≠ [] := by
    intro nothing
    rw [nothing] at value
    refine written ?_
    rw [text?, value]
    rfl
  rw [Ne, List.take_eq_nil_iff, not_or] at some
  exact Cursor.position_lt_advanceBy (i := 0) (List.length_pos_iff.2 some.2) (Nat.pos_of_ne_zero some.1)

mutual

/-- **A string stands in front of all that is read behind it.** -/
theorem ReadFrom.strings_sorted : (n : Node) → {a b : Cursor} → ReadFrom n a b →
    n.nodes.Pairwise fun m m' => m.kind = .string → m.text? ≠ some "" → m.span.start < m'.span.start
  | ⟨kind, value, children, span⟩, a, b, h => by
    rw [nodes]
    refine .cons ?_ (AllReadFrom.strings_sorted children h.children)
    intro m hm isString
    have leaf : children = [] := (h.conforms.string isString).1
    rw [leaf, nodesOf] at hm
    cases hm

theorem AllReadFrom.strings_sorted : (ns : List Node) → {a b : Cursor} → AllReadFrom ns a b →
    (nodesOf ns).Pairwise fun m m' => m.kind = .string → m.text? ≠ some "" → m.span.start < m'.span.start
  | [], _, _, _ => .nil
  | n :: ns, _, _, .cons _ first rest => by
    rw [nodesOf]
    refine List.pairwise_append.2 ⟨ReadFrom.strings_sorted n first, AllReadFrom.strings_sorted ns rest, ?_⟩
    intro m hm m' hm' isString written
    obtain ⟨x, y, -, read, hy⟩ := first.of_mem_nodes n m hm
    obtain ⟨z, w, hz, read', -⟩ := rest.of_mem_nodes ns m' hm'
    rw [read.span_eq, read'.span_eq]
    exact Position.lt_of_lt_of_le (read.position_lt isString written) (hy.trans hz).position_le

end

mutual

/-- What stands somewhere is a child of what stands above it. -/
theorem exists_parent : (n : Node) → ∀ o ∈ n.occurrences, ∃ p ∈ n.nodes, p.kind = o.parent ∧ o.node ∈ p.children
  | ⟨kind, value, children, span⟩ => by
    intro o ho
    rw [occurrences] at ho
    rw [nodes]
    rcases exists_parent_from kind 0 children o ho with ⟨here, child⟩ | ⟨p, hp, above⟩
    · exact ⟨_, List.mem_cons_self, here.symm, child⟩
    · exact ⟨p, List.mem_cons_of_mem _ hp, above⟩

theorem exists_parent_from (parent : Kind) (i : Nat) : (ns : List Node) → ∀ o ∈ occurrencesFrom parent i ns,
    (o.parent = parent ∧ o.node ∈ ns) ∨ ∃ p ∈ nodesOf ns, p.kind = o.parent ∧ o.node ∈ p.children
  | [] => by
    intro o ho
    cases ho
  | n :: ns => by
    intro o ho
    rw [occurrencesFrom, List.mem_cons, List.mem_append] at ho
    rw [nodesOf]
    rcases ho with rfl | ho | ho
    · exact .inl ⟨rfl, List.mem_cons_self⟩
    · obtain ⟨p, hp, above⟩ := exists_parent n o ho
      exact .inr ⟨p, List.mem_append_left _ hp, above⟩
    · rcases exists_parent_from parent (i + 1) ns o ho with ⟨here, child⟩ | ⟨p, hp, above⟩
      · exact .inl ⟨here, List.mem_cons_of_mem _ child⟩
      · exact .inr ⟨p, List.mem_append_right _ hp, above⟩

end

theorem mem_nodes_of_occurrence {n : Node} {o : Occurrence} (ho : o ∈ n.occurrences) : o.node ∈ n.nodes := by
  rw [nodes_eq_cons]
  exact List.mem_cons_of_mem _ (List.mem_map_of_mem ho)

theorem ReadFrom.occurrences_sorted {n : Node} {a b : Cursor} (h : n.ReadFrom a b) :
    n.occurrences.Pairwise fun o o' =>
      o.node.kind = .string → o.node.text? ≠ some "" → o.node.span.start < o'.node.span.start := by
  have sorted := h.strings_sorted n
  rw [n.nodes_eq_cons, List.pairwise_cons, List.pairwise_map] at sorted
  exact sorted.2

/-- A string stands nowhere else. -/
theorem ReadFrom.eq_of_start_eq {n : Node} {a b : Cursor} (h : n.ReadFrom a b) {o o' : Occurrence}
    (ho : o ∈ n.occurrences) (ho' : o' ∈ n.occurrences)
    (isString : o.node.kind = .string) (written : o.node.text? ≠ some "")
    (isString' : o'.node.kind = .string) (written' : o'.node.text? ≠ some "")
    (same : o.node.span.start = o'.node.span.start) : o = o' := by
  let strings := n.occurrences.filter fun o => o.node.kind = .string ∧ o.node.text? ≠ some ""
  have distinct : (strings.map (·.node.span.start)).Nodup := by
    refine List.pairwise_map.2 ((h.occurrences_sorted.filter _).imp_of_mem fun mem _ lt => ?_)
    obtain ⟨isString, written⟩ := of_decide_eq_true (List.mem_filter.1 mem).2
    exact Position.ne_of_lt (lt isString written)
  have mem : o ∈ strings := List.mem_filter.2 ⟨ho, decide_eq_true ⟨isString, written⟩⟩
  have mem' : o' ∈ strings := List.mem_filter.2 ⟨ho', decide_eq_true ⟨isString', written'⟩⟩
  exact List.inj_on_of_nodup_map distinct mem mem' same

end Node

namespace Occurrence

theorem isString_of_isFileName {purpose : FilePurpose} {o : Occurrence} (names : o.isFileName purpose = true) :
    o.node.kind = .string :=
  eq_of_beq (Bool.and_eq_true_iff.1 names).1

/-- A file name is not empty. -/
theorem written_of_isFileName {root : Node} (named : root.FilesNamed) {o : Occurrence} (ho : o ∈ root.occurrences)
    {purpose : FilePurpose} (names : o.isFileName purpose = true) : o.node.text? ≠ some "" := by
  obtain ⟨p, hp, above, child⟩ := root.exists_parent o ho
  refine (named p hp).written ?_ _ child (isString_of_isFileName names)
  rw [above]
  simp only [isFileName, Bool.and_eq_true] at names
  cases purpose with
  | importPath => exact .inl (eq_of_beq (Bool.and_eq_true_iff.1 names.2).1)
  | optionalTokens => exact .inr (eq_of_beq names.2)

end Occurrence

namespace FileReference

theorem inTree_eq {root : Node} (isRoot : root.kind = .root) (conform : ∀ m ∈ root.nodes, m.Conforms)
    (named : root.FilesNamed) :
    inTree root = among .importPath root.occurrences ++ among .optionalTokens root.occurrences := by
  have imports : root.children.filterMap ofImport? = among .importPath root.occurrences := by
    rw [root.occurrences_eq, isRoot]
    refine filterMap_ofImport? .root 0 (by decide) root.children (fun m hm => conform m ?_) fun n hn => ?_
    · rw [root.nodes_eq]
      exact List.mem_cons_of_mem _ hm
    · exact Node.kind_ne_importStatement conform hn
  have tokens : ofFlags root.nodes = among .optionalTokens root.occurrences :=
    ofFlags_nodes root (fun m hm => ⟨conform m hm, named m hm⟩) (by rw [isRoot]; decide)
  rw [← imports, ← tokens]
  rfl

theorem mem_among {purpose : FilePurpose} {os : List Occurrence} {reference : FileReference} :
    reference ∈ among purpose os ↔ ∃ o ∈ os, o.isFileName purpose = true ∧ o.reference purpose = reference := by
  simp [among, and_assoc]

/-- **The file names in the tree of a text are exact.** They are the paths of the imports and then the strings
behind `optional-tokens`, both in the order in which they stand in the text. No two of them start at one place, and
no other string of the tree is among them. -/
theorem inTree_readDocument (text : String) :
    let tree := (readDocument text).tree
    inTree tree = among .importPath tree.occurrences ++ among .optionalTokens tree.occurrences ∧
      (tree.occurrences.filter fun o => o.isFileName .importPath || o.isFileName .optionalTokens).Pairwise
        (fun o o' => o.node.span.start < o'.node.span.start) ∧
      ∀ o ∈ tree.occurrences, o.node.kind = .string → ∃ literal, o.node.text? = some literal ∧
        ∀ purpose, ⟨purpose, literal, o.node.span⟩ ∈ inTree tree ↔ o.isFileName purpose = true := by
  intro tree
  have isRoot := root_readDocument text
  have conform : ∀ m ∈ tree.nodes, m.Conforms := fun _ => conforms_of_mem_nodes
  have named := filesNamed_readDocument text
  obtain ⟨stop, read⟩ := readDocument_readFrom text
  have listed := inTree_eq isRoot conform named
  refine ⟨listed, ?_, ?_⟩
  · refine (read.occurrences_sorted.filter _).imp_of_mem fun mem _ lt => ?_
    obtain ⟨ho, names⟩ := List.mem_filter.1 mem
    rcases Bool.or_eq_true_iff.1 names with names | names
    · exact lt (Occurrence.isString_of_isFileName names) (Occurrence.written_of_isFileName named ho names)
    · exact lt (Occurrence.isString_of_isFileName names) (Occurrence.written_of_isFileName named ho names)
  · intro o ho isString
    have hasText := ((conform _ (Node.mem_nodes_of_occurrence ho)).string isString).2
    obtain ⟨literal, text⟩ := Option.isSome_iff_exists.1 hasText
    refine ⟨literal, text, fun purpose => ?_⟩
    rw [listed, List.mem_append, mem_among, mem_among]
    constructor
    · intro found
      obtain ⟨purpose', o', ho', names, same⟩ : ∃ purpose', ∃ o' ∈ tree.occurrences,
          o'.isFileName purpose' = true ∧ o'.reference purpose' = ⟨purpose, literal, o.node.span⟩ :=
        found.elim (fun h => ⟨_, h⟩) fun h => ⟨_, h⟩
      have isString' := Occurrence.isString_of_isFileName names
      have written' := Occurrence.written_of_isFileName named ho' names
      have hasText' := ((conform _ (Node.mem_nodes_of_occurrence ho')).string isString').2
      obtain ⟨literal', text'⟩ := Option.isSome_iff_exists.1 hasText'
      rw [Occurrence.reference, text', Option.getD_some] at same
      obtain ⟨rfl, rfl, spans⟩ := FileReference.mk.inj same
      have here : o' = o := read.eq_of_start_eq ho' ho isString' written' isString
        (by rw [text, ← text']; exact written') (congrArg Span.start spans)
      rw [← here]
      exact names
    · intro names
      have same : o.reference purpose = ⟨purpose, literal, o.node.span⟩ := by
        rw [Occurrence.reference, text, Option.getD_some]
      cases purpose with
      | importPath => exact .inl ⟨o, ho, names, same⟩
      | optionalTokens => exact .inr ⟨o, ho, names, same⟩

end FileReference

end PatternRules
