import PatternRules.Analysis.FileReference
import PatternRules.Proofs.Depth
import PatternRules.Proofs.Gives

/-!
What the tree of a reading says of the files it names. A flag that has anything below it mentions `optional-tokens`,
because nothing stands below a flag unless that word was read, and a file name has its first quote, whether or not
it is closed (`Node.NamesFiles`). What can neither name a file nor hold a node that does is left to the grammar of
trees (`Parse.gives_of_reads`).

* `Parse.resolverFlag_gives`, `Parse.importStatement_gives`: what names files;
* `filesNamed_readDocument`: all of the tree of a text.
-/

namespace PatternRules

namespace Kind

/-- Whether no file is named by a node of this kind, nor below it. -/
def namesNoFile (k : Kind) : Bool :=
  !(k == root || k == importStatement || k == resolverDefault || k == ruleDefinition || k == usesClause ||
    k == resolverOptions || k == resolverFlag || k == optionalTokens)

theorem namesNoFile_parts {k : Kind} (noFile : k.namesNoFile = true) : ∀ k' ∈ k.parts, k'.namesNoFile = true := by
  revert noFile
  cases k <;> decide

end Kind

namespace Node

/-- What a node has to do with files: a flag with something below it mentions `optional-tokens`, and what names a
file is no empty text. -/
structure NamesFiles (n : Node) : Prop where
  flag : n.kind = .resolverFlag → n.children ≠ [] → FileReference.isOptionalTokensFlag n = true
  written : n.kind = .importStatement ∨ n.kind = .optionalTokens →
    ∀ c ∈ n.children, c.kind = .string → c.text? ≠ some ""

/-- So it is with a node and all that stands below it. -/
def FilesNamed (n : Node) : Prop := ∀ m ∈ n.nodes, m.NamesFiles

theorem mem_nodesOf {ns : List Node} {m : Node} : m ∈ nodesOf ns ↔ ∃ n ∈ ns, m ∈ n.nodes := by
  induction ns with
  | nil => simp [nodesOf]
  | cons n ns ih => simp [nodesOf, ih]

theorem NamesFiles.of_namesNoFile {n : Node} (noFile : n.kind.namesNoFile = true) : n.NamesFiles := by
  constructor
  · intro flag
    rw [flag] at noFile
    cases noFile
  · rintro (statement | clause)
    · rw [statement] at noFile
      cases noFile
    · rw [clause] at noFile
      cases noFile

/-- A flag names no file itself. -/
theorem NamesFiles.of_flag {value : Option Value} {children : List Node} {span : Span}
    (mentions : children ≠ [] → FileReference.isOptionalTokensFlag ⟨.resolverFlag, value, children, span⟩ = true) :
    NamesFiles ⟨.resolverFlag, value, children, span⟩ :=
  ⟨fun _ => mentions, fun names => by rcases names with names | names <;> cases names⟩

/-- What names files is no flag. -/
theorem NamesFiles.of_files {kind : Kind} {value : Option Value} {children : List Node} {span : Span}
    (noFlag : kind ≠ .resolverFlag) (written : ∀ c ∈ children, c.kind = .string → c.text? ≠ some "") :
    NamesFiles ⟨kind, value, children, span⟩ :=
  ⟨fun flag => absurd flag noFlag, fun _ => written⟩

theorem FilesNamed.node {kind : Kind} {value : Option Value} {children : List Node} {span : Span}
    (self : NamesFiles ⟨kind, value, children, span⟩) (below : ∀ c ∈ children, c.FilesNamed) :
    FilesNamed ⟨kind, value, children, span⟩ := by
  intro m hm
  rw [nodes, List.mem_cons, mem_nodesOf] at hm
  rcases hm with rfl | ⟨c, hc, hm⟩
  · exact self
  · exact below c hc m hm

/-- A node of any kind that holds files only further down. -/
theorem FilesNamed.branch {kind : Kind} {children : List Node} {span : Span}
    (above : kind ≠ .resolverFlag ∧ kind ≠ .importStatement ∧ kind ≠ .optionalTokens)
    (below : ∀ c ∈ children, c.FilesNamed) : FilesNamed (.branch kind children span) :=
  .node ⟨fun flag => absurd flag above.1, fun names => (names.elim above.2.1 above.2.2).elim⟩ below

mutual

/-- What goes down from a kind to the kinds of its parts goes down to all that stands below a node. -/
theorem kind_of_mem_nodes {P : Kind → Prop} (down : ∀ k, P k → ∀ k' ∈ k.parts, P k') : (n : Node) →
    (∀ m ∈ n.nodes, m.kind.admits (m.children.map kind) = true) → P n.kind → ∀ m ∈ n.nodes, P m.kind
  | ⟨kind, value, children, span⟩, fits, here => by
    rw [nodes, List.forall_mem_cons] at fits ⊢
    refine ⟨here, kind_of_mem_nodesOf down children fits.2 fun c hc => ?_⟩
    exact down kind here _ (Kind.mem_parts fits.1 (List.mem_map_of_mem hc))

theorem kind_of_mem_nodesOf {P : Kind → Prop} (down : ∀ k, P k → ∀ k' ∈ k.parts, P k') : (ns : List Node) →
    (∀ m ∈ nodesOf ns, m.kind.admits (m.children.map kind) = true) → (∀ n ∈ ns, P n.kind) →
    ∀ m ∈ nodesOf ns, P m.kind
  | [], _, _ => List.forall_mem_nil _
  | n :: ns, fits, here => by
    rw [nodesOf, List.forall_mem_append] at fits ⊢
    rw [List.forall_mem_cons] at here
    exact ⟨kind_of_mem_nodes down n fits.1 here.1, kind_of_mem_nodesOf down ns fits.2 here.2⟩

end

theorem filesNamed_of_namesNoFile {n : Node} (fits : ∀ m ∈ n.nodes, m.kind.admits (m.children.map kind) = true)
    (noFile : n.kind.namesNoFile = true) : n.FilesNamed :=
  fun m hm => .of_namesNoFile (kind_of_mem_nodes (fun _ => Kind.namesNoFile_parts) n fits noFile m hm)

end Node

namespace Parse

variable {α : Type} {limits : Limits}

/-! ## What names no files -/

section

variable [HasNodes α] {p : Parse α}

theorem gives_of_reads {kinds : List Kind → Prop} (h : Reads kinds p)
    (noFile : ∀ ks, kinds ks → ∀ k ∈ ks, k.namesNoFile = true) : Gives limits Node.FilesNamed p := by
  exact .of_reads h noFile fun _ _ _ read noFile =>
    Node.filesNamed_of_namesNoFile read.admits_of_mem_nodes noFile

theorem gives_of_each {P : Kind → Bool} (h : Reads (Each P) p) (noFile : ∀ k, P k = true → k.namesNoFile = true) :
    Gives limits Node.FilesNamed p :=
  gives_of_reads h fun _ each k mem => noFile k (List.all_eq_true.1 each k mem)

theorem gives_of_kind {k : Kind} (h : Reads (Each (· == k)) p) (noFile : k.namesNoFile = true) :
    Gives limits Node.FilesNamed p :=
  gives_of_each h fun _ same => eq_of_beq same ▸ noFile

end

/-! ## What names files -/

/-- A string has its first quote, whether or not it is closed. -/
theorem string_written : Gives limits (fun n => n.text? ≠ some "") string := by
  intro s
  simp only [string, ensures_bind, ensures_cursor]
  split
  · next quote =>
    obtain ⟨rest, hrest⟩ : ∃ rest, s.cursor.rest = '"' :: rest := List.head?_eq_some_iff.1 quote
    have written (n : Nat) (span : Span) : Node.text? (.leaf .string
        (String.ofList ((s.cursor.advanceBy (n + 1)).textSince s.cursor)) span) ≠ some "" := by
      rw [textSince_advanceBy, hrest, List.take_succ_cons]
      simp [Node.text?, Node.leaf, ← String.toList_inj]
    simp only [ensures_bind, ensures_move]
    split
    · simp only [ensures_bind, ensures_spanFrom]
      refine (report_keeps _ _ limits _).mono fun _ t ht => ?_
      simp only [ensures_textNodeFrom, ensures_pure, ht, HasNodes.nodes_some, HasNodes.nodes_node,
        List.forall_mem_singleton]
      exact written _ _
    · simp only [ensures_textNodeFrom, ensures_bind, ensures_pure, HasNodes.nodes_some, HasNodes.nodes_node,
        List.forall_mem_singleton]
      exact written _ _
  · exact List.forall_mem_nil _

theorem tokensFile_written : Gives limits (fun n => n.text? ≠ some "") tokensFile :=
  fun _ => .anyway fun _ t => string_written.orReport _ t

theorem optionalTokens_gives : Gives limits Node.FilesNamed optionalTokens := by
  intro s
  refine .anyway fun start t => .anyway fun opened u => ?_
  split
  · have files : Gives limits Node.FilesNamed (commaList tokensFile) :=
      (gives_of_kind tokensFile_reads rfl).commaList
    refine ((files u).and (tokensFile_written.commaList u)).bind ?_
    rintro files v ⟨named, written⟩
    rw [HasNodes.nodes_list] at named written
    refine .anyway fun closed w => .eitherWay fun x => ?_
    exact Gives.branchFrom fun _ => .node (.of_files (by decide) fun c hc _ => written c hc) named
  · refine .anyway fun _ v => Gives.branchFrom fun _ => ?_
    exact .node (.of_files (by decide) (List.forall_mem_nil _)) (List.forall_mem_nil _)

theorem occursIn_of_prefix {part text : List Char} (h : part <+: text) :
    FileReference.occursIn part text = true := by
  cases text with
  | nil => rw [List.prefix_nil.1 h]; rfl
  | cons c cs => rw [FileReference.occursIn, List.isPrefixOf_iff_prefix.2 h, Bool.true_or]

/-- The text of a flag that started with the word `optional-tokens` mentions it, wherever the flag ends. -/
theorem isOptionalTokensFlag_textSince {start stop : Cursor} {files : List Node} {span : Span}
    (word : start.peekWord? = some optionalTokensWord)
    (behind : (start.advanceBy optionalTokensWord.length).Reaches stop) : FileReference.isOptionalTokensFlag
      ⟨.resolverFlag, some (.text (String.ofList (stop.textSince start))), files, span⟩ = true := by
  have comes : optionalTokensWord.toList <+: start.rest := by
    unfold Cursor.peekWord? at word
    split at word
    · cases word
    · rw [← Option.some.inj word, String.toList_ofList]
      exact List.takeWhile_prefix _
  obtain ⟨more, rfl⟩ := behind
  rw [← Cursor.advanceBy_add, textSince_advanceBy]
  have taken : optionalTokensWord.toList <+: start.rest.take (optionalTokensWord.length + more) :=
    List.prefix_take_iff.2 ⟨comes, Nat.le_add_right _ _⟩
  have mentions : FileReference.occursIn optionalTokensWord.toList
      (String.ofList (start.rest.take (optionalTokensWord.length + more))).toList = true := by
    rw [String.toList_ofList]
    exact occursIn_of_prefix taken
  exact Bool.and_eq_true_iff.2 ⟨rfl, mentions⟩

theorem resolverFlag_gives : Gives limits Node.FilesNamed resolverFlag := by
  intro s
  simp only [resolverFlag, ensures_bind, ensures_cursor]
  split
  · exact .anyway fun _ t => List.forall_mem_nil _
  · next word found =>
    split
    · simp only [takeLeaf, ensures_bind, ensures_cursor, ensures_move, ensures_textNodeFrom, ensures_pure,
        HasNodes.nodes_list, List.forall_mem_singleton]
      exact .node (.of_flag fun some => absurd rfl some) (List.forall_mem_nil _)
    · split
      · next isTokens =>
        rw [isTokens] at found
        simp only [ensures_bind, ensures_move]
        refine ((optionalTokens_gives _).and (optionalTokens_reads limits _)).mono ?_
        rintro files t ⟨named, read⟩
        have behind := read.read.reaches
        dsimp only at behind
        rw [isTokens] at behind
        simp only [ensures_textNodeFrom, ensures_pure, HasNodes.nodes_list, List.forall_mem_singleton]
        exact .node (.of_flag fun _ => isOptionalTokensFlag_textSince found behind) named
      · exact .anyway fun _ t => List.forall_mem_nil _

theorem nextResolverFlag_gives : Gives limits Node.FilesNamed nextResolverFlag := by
  intro s
  refine .anyway ?_
  rintro (_ | _) t
  · exact List.forall_mem_nil _
  · exact (resolverFlag_gives t).bind fun _ _ named => named

theorem resolverOptions_gives : Gives limits Node.FilesNamed resolverOptions := by
  intro s
  refine .anyway fun _ t => .anyway fun start u => (nextResolverFlag_gives.commaList u).bind ?_
  intro flags v named
  rw [HasNodes.nodes_lists] at named
  exact Gives.branchFrom fun _ => .branch (by decide) named

theorem optionsBehindWith_gives : Gives limits Node.FilesNamed optionsBehindWith := by
  intro s
  refine .anyway fun announced t => ?_
  split
  · refine (resolverOptions_gives t).bind fun options u named => ?_
    rw [ensures_pure, HasNodes.nodes_list]
    exact named
  · exact List.forall_mem_nil _

theorem usesClause_gives (start : Cursor) : Gives limits Node.FilesNamed (usesClause start) := by
  intro s
  have scopes : Gives limits Node.FilesNamed (afterBlank resolverScope) :=
    (gives_of_kind resolverScope_reads rfl).afterBlank
  have methods : Gives limits Node.FilesNamed (afterBlank methodBeforeOptions) :=
    (gives_of_kind methodBeforeOptions_reads rfl).afterBlank
  refine (scopes s).bind fun scope t first => (methods t).bind fun method u second => ?_
  split
  · exact .anyway fun _ v => Gives.branchFrom fun _ => .branch (by decide) (List.forall_mem_nil _)
  · refine (optionsBehindWith_gives u).bind fun options v third => ?_
    rw [HasNodes.nodes_option] at first second
    rw [HasNodes.nodes_list] at third
    refine Gives.branchFrom fun _ => .branch (by decide) ?_
    rw [List.forall_mem_append, List.forall_mem_append]
    exact ⟨⟨first, second⟩, third⟩

theorem usesWithClause_gives : Gives limits Node.FilesNamed usesWithClause := by
  intro s
  refine .anyway fun start t => .anyway fun uses u => ?_
  split
  · exact (usesClause_gives start u).bind fun _ _ named => named
  · exact List.forall_mem_nil _

theorem ruleUses_gives : Gives limits Node.FilesNamed ruleUses := by
  intro s
  refine .anyway fun c t => ?_
  split
  · exact usesWithClause_gives t
  · exact List.forall_mem_nil _

/-! ## Statements -/

/-- Behind its path, an import has no other string. -/
theorem kind_of_importTail {ks : List Kind} (fits : Kind.importStatement.admits (.string :: ks) = true) :
    ∀ k ∈ ks, k = .identifier ∨ k = .importOptions := by
  intro k mem
  have behind := (List.cons_prefix_cons.1 (List.isPrefixOf_iff_prefix.1 fits)).2
  simpa using behind.subset mem

theorem importTail_gives : Gives limits Node.FilesNamed importTail :=
  gives_of_reads importTail_reads fun ks fits k mem => by
    rcases kind_of_importTail fits k mem with rfl | rfl <;> rfl

theorem importStatement_gives : Gives limits Node.FilesNamed importStatement := by
  intro s
  have paths : Gives limits Node.FilesNamed (orReport .importPathMissing (afterBlank string)) :=
    (gives_of_kind string_reads rfl).afterBlank.orReport _
  have written : Gives limits (fun n => n.text? ≠ some "") (orReport .importPathMissing (afterBlank string)) :=
    string_written.afterBlank.orReport _
  refine .anyway fun start t => .anyway fun _ u => ((paths u).and (written u)).bind ?_
  rintro (_ | path) v ⟨named, written⟩
  · refine Gives.branchFrom fun _ => ?_
    exact .node (.of_files (by decide) (List.forall_mem_nil _)) (List.forall_mem_nil _)
  · rw [HasNodes.nodes_some, HasNodes.nodes_node, List.forall_mem_singleton] at named written
    refine ((importTail_gives v).and (importTail_reads limits v)).bind ?_
    rintro tail w ⟨tailNamed, read⟩
    have kinds := kind_of_importTail read.kinds
    rw [HasNodes.nodes_list] at tailNamed kinds
    refine Gives.branchFrom fun _ =>
      .node (.of_files (by decide) ?_) (List.forall_mem_cons.2 ⟨named, tailNamed⟩)
    refine List.forall_mem_cons.2 ⟨fun _ => written, fun c hc isString => ?_⟩
    have noString := kinds _ (List.mem_map_of_mem hc)
    rw [isString] at noString
    rcases noString with h | h <;> cases h

theorem nextImport_gives : Gives limits Node.FilesNamed nextImport := by
  intro s
  refine .anyway fun c t => ?_
  split
  · refine .anyway fun full u => ?_
    split
    · exact List.forall_mem_nil _
    · refine .anyway fun before v => (importStatement_gives v).bind fun node w named => ?_
      refine .anyway fun after x => ?_
      split
      · exact .anyway fun _ y => .anyway fun _ z => named
      · exact .anyway fun _ y => named
  · exact List.forall_mem_nil _

theorem resolverDefault_gives : Gives limits Node.FilesNamed resolverDefault := by
  intro s
  have clauses : Gives limits Node.FilesNamed (orReport .usesMissing (afterBlank usesWithClause)) :=
    usesWithClause_gives.afterBlank.orReport _
  refine .anyway fun start t => .anyway fun _ u => (clauses u).bind fun clause v named => ?_
  rw [HasNodes.nodes_option] at named
  exact Gives.branchFrom fun _ => .branch (by decide) named

theorem resolverSection_gives : Gives limits Node.FilesNamed resolverSection := by
  intro s
  refine .anyway fun here t => ?_
  split
  · refine .anyway fun before u => (resolverDefault_gives u).bind fun node v named => ?_
    refine .anyway fun after w => ?_
    split
    · exact .anyway fun _ x => .anyway fun _ y => named
    · exact .anyway fun _ x => named
  · exact List.forall_mem_nil _

theorem ruleTail_gives (name : String) : Gives limits Node.FilesNamed (ruleTail name) := by
  intro s
  have bodies : Gives limits Node.FilesNamed (orReport (.ruleBodyMissing name) (afterBlank expression)) :=
    (gives_of_each expression_reads fun k isExpression => by
      revert isExpression
      cases k <;> decide).afterBlank.orReport _
  refine .anyway ?_
  rintro (_ | _) t
  · exact List.forall_mem_nil _
  · refine (bodies t).bind ?_
    rintro (_ | body) u first
    · exact List.forall_mem_nil _
    · refine (ruleUses_gives.afterBlank u).bind fun clause v second => ?_
      rw [HasNodes.nodes_some, HasNodes.nodes_node, List.forall_mem_singleton] at first
      rw [HasNodes.nodes_option] at second
      exact List.forall_mem_cons.2 ⟨first, second⟩

theorem rule_gives : Gives limits Node.FilesNamed rule := by
  intro s
  have names : Gives limits Node.FilesNamed identifier := gives_of_kind identifier_reads rfl
  refine .anyway fun start t => .anyway fun before u => (names u).bind ?_
  rintro (_ | name) v first
  · exact List.forall_mem_nil _
  · refine (ruleTail_gives _ v).bind ?_
    rintro ⟨parts, complete⟩ w second
    rw [HasNodes.nodes_some, HasNodes.nodes_node, List.forall_mem_singleton] at first
    exact List.forall_mem_singleton.2 (.branch (by decide) (List.forall_mem_cons.2 ⟨first, second⟩))

theorem nextRule_gives : Gives limits Node.FilesNamed nextRule := by
  intro s
  refine .anyway fun c t => .anyway fun full u => ?_
  split
  · exact List.forall_mem_nil _
  · refine (rule_gives u).bind ?_
    rintro (_ | rule) v named
    · exact List.forall_mem_nil _
    · dsimp only
      split
      · exact .anyway fun _ w => .anyway fun _ x => named
      · exact .anyway fun _ w => named

/-- **What names files in a document does so as the pass over its tree expects.** -/
theorem document_gives : Gives limits Node.FilesNamed document := by
  intro s
  have versions : Gives limits Node.FilesNamed versionSection := by
    refine gives_of_reads versionSection_reads fun ks kinds k mem => ?_
    rcases kinds with rfl | rfl
    · cases mem
    · rw [List.mem_singleton.1 mem]
      rfl
  refine .anyway fun start t => .anyway fun _ u => ?_
  refine (versions u).bind fun version v first => ?_
  refine (nextImport_gives.many v).bind fun imports w second => ?_
  refine (resolverSection_gives w).bind fun resolver x third => ?_
  refine (nextRule_gives.many x).bind fun rules y last => ?_
  rw [HasNodes.nodes_list] at first second third last
  refine Gives.branchFrom fun _ => .branch (by decide) ?_
  rw [List.forall_mem_append, List.forall_mem_append, List.forall_mem_append]
  exact ⟨⟨⟨first, second⟩, third⟩, last⟩

end Parse

theorem filesNamed_readDocument (text : String) : (readDocument text).tree.FilesNamed := by
  rw [tree_readDocument]
  exact Parse.document_gives ⟨.ofChars text.toList, [], false⟩ _ (List.mem_singleton.2 rfl)

end PatternRules
