import PatternRules.Proofs.Codec
import PatternRules.Proofs.Located

/-!
How deep trees are, and how deep their JSON nests. A node costs an object and an array, so a tree of
height `h` takes `2 * h` levels (`Node.levels_toJson_eq`), and the reader's limit on levels is a limit on
heights. Groups and captures are the only nodes that hold expressions again: between two of them the
grammar of trees allows four nodes at most (`Kind.ownHeight_parts`), which bounds the height of a tree by the
number of groups and captures in one another (`Node.height_le`).

* `Node.levels_le_of_ofJson?`: the reader gives up on everything deeper than its limit;
* `readDocument_readBack`: which readings are read back.
-/

namespace PatternRules

namespace Node

mutual

/-- The nodes on the longest way from the root of a tree to a leaf. -/
def height : Node → Nat
  | ⟨_, _, children, _⟩ => heightOf children + 1

def heightOf : List Node → Nat
  | [] => 0
  | node :: rest => max (height node) (heightOf rest)

end

end Node

/-- Whether nodes of this kind hold an expression of their own. -/
def Kind.encloses (k : Kind) : Bool := k == group || k == namedCapture

namespace Node

mutual

/-- How deep groups and captures stand in one another. -/
def nesting : Node → Nat
  | ⟨kind, _, children, _⟩ => nestingOf children + if kind.encloses then 1 else 0

def nestingOf : List Node → Nat
  | [] => 0
  | node :: rest => max (nesting node) (nestingOf rest)

end

/-! ## Levels -/

mutual

/-- **A tree takes two levels of JSON for each node on its longest way.** -/
theorem levels_toJson_eq : (n : Node) → n.toJson.levels = 2 * n.height
  | ⟨kind, value, children, span⟩ => by
    rw [levels_toJson, levelsOfItems_toJson children, height]
    omega

theorem levelsOfItems_toJson : (ns : List Node) →
    Json.levelsOfItems (ns.map toJson) = 2 * heightOf ns
  | [] => rfl
  | n :: ns => by
    rw [List.map_cons, Json.levelsOfItems, levels_toJson_eq n, levelsOfItems_toJson ns, heightOf]
    omega

end

mutual

/-- **The reader gives up on every tree that nests deeper than it may.** -/
theorem levels_le_of_ofJson? : (n : Node) → {levels : Nat} → {read : Node} →
    ofJson? levels n.toJson = some read → 2 * n.height ≤ levels
  | n, 0, read, h => by rw [ofJson?] at h; cases h
  | n, 1, read, h => by rw [ofJson?] at h; cases h
  | ⟨kind, value, children, span⟩, levels + 2, read, h => by
    rw [height]
    suffices below : 2 * heightOf children ≤ levels by omega
    cases children with
    | nil => exact Nat.zero_le _
    | cons c cs =>
      rw [ofJson?, record?_toJson] at h
      have items : childrenJson? (c :: cs) = some (.array ((c :: cs).map toJson)) := rfl
      simp only [items, Json.items?, Nat.zero_lt_succ, if_true, bind, Option.bind_eq_some_iff,
        Option.some.injEq, exists_eq_left'] at h
      obtain ⟨_, _, _, _, _, _, ms, each, _⟩ := h
      exact levelsOfItems_le_of_mapM (c :: cs) each

theorem levelsOfItems_le_of_mapM : (ns : List Node) → {levels : Nat} → {read : List Node} →
    (ns.map toJson).mapM (ofJson? levels) = some read → 2 * heightOf ns ≤ levels
  | [], _, _, _ => Nat.zero_le _
  | n :: ns, levels, read, h => by
    simp only [List.map_cons, List.mapM_cons, bind, Option.bind_eq_some_iff] at h
    obtain ⟨_, first, _, further, _⟩ := h
    have := levels_le_of_ofJson? n first
    have := levelsOfItems_le_of_mapM ns further
    rw [heightOf]
    omega

end

/-! ## Height and nesting -/

end Node

namespace Kind

/-- The height of a tree is at most this number, which goes by the kind of its root, and four more for each
group or capture inside another. -/
def ownHeight : Kind → Nat
  | root => 8
  | ruleDefinition => 7
  | alternation | resolverDefault => 6
  | concatenation | usesClause => 5
  | quantified | resolverMethod | resolverOptions => 4
  | group | namedCapture | listMatch | charClass | importStatement | resolverArguments | resolverFlag => 3
  | versionStatement | importOptions | resolverArgument | optionalTokens | filter | exactRange | range
  | charRange => 2
  | _ => 1

theorem ownHeight_pos (k : Kind) : 0 < k.ownHeight := by cases k <;> decide

/-- The kinds of what may be an expression. -/
def expressions : List Kind :=
  [alternation, concatenation, quantified, group, namedCapture, listMatch, escape, anchor, dot, charClass, string,
   identifier]

/-- The kinds a node of this kind may have among its children. -/
def parts : Kind → List Kind
  | root => [versionStatement, importStatement, resolverDefault, ruleDefinition]
  | versionStatement => [versionLiteral]
  | importStatement => [string, identifier, importOptions]
  | importOptions => [importFlag]
  | resolverDefault => [usesClause]
  | ruleDefinition => usesClause :: expressions
  | usesClause => [resolverScope, resolverMethod, resolverOptions]
  | resolverMethod => [identifier, resolverArguments]
  | resolverArguments => [resolverArgument]
  | resolverArgument => [identifier, string]
  | resolverOptions => [resolverFlag]
  | resolverFlag => [optionalTokens]
  | optionalTokens => [string]
  | alternation => expressions.filter isBranch
  | concatenation => expressions.filter isItem
  | quantified => [questionMark, exactRange, range] ++ expressions.filter isPrimary
  | group | namedCapture => expressions
  | listMatch => [identifier, filter]
  | filter => [identifier, string]
  | exactRange | range => [number]
  | charClass => [charRange, escape, char]
  | charRange => [escape, char]
  | versionLiteral | importFlag | resolverScope | questionMark | escape | anchor | dot | char | string
  | identifier | number => []

theorem mem_dropOne {k k' : Kind} {ks : List Kind} (h : k' ∈ ks) : k' = k ∨ k' ∈ dropOne k ks := by
  cases ks with
  | nil => exact absurd h List.not_mem_nil
  | cons first rest =>
    rw [dropOne]
    split
    · next same =>
      rcases List.mem_cons.1 h with rfl | h
      · exact .inl same
      · exact .inr h
    · exact .inr h

theorem mem_dropWhile {k' : Kind} {ks : List Kind} {p : Kind → Bool} (h : k' ∈ ks) :
    p k' = true ∨ k' ∈ ks.dropWhile p := by
  rw [← List.takeWhile_append_dropWhile (p := p) (l := ks), List.mem_append] at h
  exact h.imp_left (List.mem_takeWhile_imp ·)

theorem mem_expressions {k : Kind} (h : k.isExpression = true) : k ∈ expressions := by
  revert h
  cases k <;> decide

theorem mem_of_isPrefixOf {k : Kind} {ks all : List Kind} (mem : k ∈ ks) (h : ks.isPrefixOf all = true) :
    k ∈ all :=
  (List.isPrefixOf_iff_prefix.1 h).subset mem

theorem mem_parts_root {k : Kind} {ks : List Kind} (mem : k ∈ ks) (h : root.admits ks = true) :
    k ∈ root.parts := by
  rcases mem_dropOne (k := versionStatement) mem with rfl | mem
  · decide
  rcases mem_dropWhile (p := (· == importStatement)) mem with same | mem
  · rw [eq_of_beq same]
    decide
  rcases mem_dropOne (k := resolverDefault) mem with rfl | mem
  · decide
  · rw [eq_of_beq (List.all_eq_true.1 h k mem)]
    decide

/-- A node has children of certain kinds only. -/
theorem mem_parts {k k' : Kind} {ks : List Kind} (h : k.admits ks = true) (mem : k' ∈ ks) : k' ∈ k.parts := by
  cases k with
  | root => exact mem_parts_root mem h
  | ruleDefinition =>
    obtain rfl | ⟨body, expression, rfl | rfl⟩ := eq_of_admits_ruleDefinition h
    · rw [List.mem_singleton.1 mem]
      decide
    · rcases List.mem_pair.1 mem with rfl | rfl
      · decide
      · exact List.mem_cons_of_mem _ (mem_expressions expression)
    · rcases List.mem_cons.1 mem with rfl | mem
      · decide
      · rcases List.mem_pair.1 mem with rfl | rfl
        · exact List.mem_cons_of_mem _ (mem_expressions expression)
        · decide
  | namedCapture =>
    obtain rfl | rfl | ⟨body, expression, rfl⟩ := eq_of_admits_namedCapture h
    · exact absurd mem List.not_mem_nil
    · rw [List.mem_singleton.1 mem]
      decide
    · rcases List.mem_pair.1 mem with rfl | rfl
      · decide
      · exact mem_expressions expression
  | group =>
    obtain rfl | ⟨body, expression, rfl⟩ := eq_of_admits_group h
    · exact absurd mem List.not_mem_nil
    · rw [List.mem_singleton.1 mem]
      exact mem_expressions expression
  | quantified =>
    obtain ⟨subject, quantifier, primary, isQuantifier, rfl⟩ := eq_of_admits_quantified h
    rcases List.mem_pair.1 mem with rfl | rfl
    · revert primary
      cases k' <;> decide
    · revert isQuantifier
      cases k' <;> decide
  | charRange =>
    obtain ⟨low, high, isLow, isHigh, rfl⟩ := eq_of_admits_charRange h
    have char : k'.isClassChar = true := by
      rcases List.mem_pair.1 mem with rfl | rfl
      · exact isLow
      · exact isHigh
    revert char
    cases k' <;> decide
  | alternation | concatenation =>
    simp only [admits, Bool.and_eq_true, List.all_eq_true] at h
    have part := h.2 k' mem
    revert part
    cases k' <;> decide
  | importOptions | resolverArguments | resolverOptions | optionalTokens | charClass =>
    have part := List.all_eq_true.1 h k' mem
    revert part
    cases k' <;> decide
  | versionStatement | importStatement | resolverDefault | resolverFlag | listMatch =>
    exact mem_of_isPrefixOf mem h
  | usesClause =>
    simp only [admits, Bool.or_eq_true] at h
    rcases h with (h | h) | h
    · exact mem_of_isPrefixOf mem h
    · have two : [resolverScope, resolverOptions] ⊆ usesClause.parts := by decide
      exact two (mem_of_isPrefixOf mem h)
    · exact List.mem_cons_of_mem _ (mem_of_isPrefixOf mem h)
  | resolverMethod | filter | range =>
    simp only [admits, Bool.or_eq_true, beq_iff_eq] at h
    rcases h with rfl | rfl <;> revert k' <;> decide
  | resolverArgument =>
    simp only [admits, Bool.or_eq_true, beq_iff_eq] at h
    rcases h with (rfl | rfl) | rfl <;> revert k' <;> decide
  | exactRange =>
    simp only [admits, beq_iff_eq] at h
    subst h
    exact mem
  | versionLiteral | importFlag | resolverScope | questionMark | escape | anchor | dot | char | string
    | identifier | number =>
    rw [List.isEmpty_iff.1 h] at mem
    exact mem

/-- What a node may hold is lower than the node, and a group or a capture makes up for four nodes. -/
theorem ownHeight_parts (k : Kind) :
    ∀ k' ∈ k.parts, k'.ownHeight + 1 ≤ k.ownHeight + if k.encloses then 4 else 0 := by
  cases k <;> decide

end Kind

namespace Node

mutual

/-- **Between two groups there are few other nodes**, so that nesting bounds the height. -/
theorem height_le : (n : Node) → (∀ m ∈ n.nodes, m.kind.admits (m.children.map kind) = true) →
    n.height ≤ 4 * n.nesting + n.kind.ownHeight
  | ⟨kind, value, children, span⟩, conform => by
    rw [nodes] at conform
    have admitted : kind.admits (children.map Node.kind) = true := conform _ List.mem_cons_self
    have lower (c : Node) (hc : c ∈ children) :
        c.kind.ownHeight ≤ kind.ownHeight + (if kind.encloses then 4 else 0) - 1 :=
      Nat.le_sub_one_of_lt (kind.ownHeight_parts _ (Kind.mem_parts admitted (List.mem_map_of_mem hc)))
    have below := heightOf_le children (fun m hm => conform m (List.mem_cons_of_mem _ hm)) lower
    have pos := kind.ownHeight_pos
    rw [height, nesting]
    show heightOf children + 1 ≤ 4 * (nestingOf children + _) + kind.ownHeight
    cases encloses : kind.encloses <;> rw [encloses] at below
    · rw [if_neg Bool.false_ne_true] at below ⊢
      omega
    · rw [if_pos rfl] at below ⊢
      omega

theorem heightOf_le : (ns : List Node) → {most : Nat} →
    (∀ m ∈ nodesOf ns, m.kind.admits (m.children.map kind) = true) →
    (∀ n ∈ ns, n.kind.ownHeight ≤ most) → heightOf ns ≤ 4 * nestingOf ns + most
  | [], _, _, _ => Nat.zero_le _
  | n :: ns, most, conform, lower => by
    rw [nodesOf] at conform
    have first := height_le n fun m hm => conform m (List.mem_append_left _ hm)
    have further := heightOf_le ns (fun m hm => conform m (List.mem_append_right _ hm))
      fun m hm => lower m (List.mem_cons_of_mem _ hm)
    have here := lower n List.mem_cons_self
    rw [heightOf, nestingOf]
    omega

end

end Node

/-! ## Readings -/

theorem Span.LiesIn.fits {s : Span} {text : List Char} (h : s.LiesIn text)
    (short : text.length < 2 ^ 32 - 2) : s.Fits := by
  have stop := h.stop_le
  have line := h.line_le
  have breaks := List.count_le_length (a := '\n') (l := text)
  rw [Span.stop] at stop
  constructor <;> rw [Span.maxColumn] <;> omega

theorem readDocument_fits (text : String) (short : text.toList.length < 2 ^ 32 - 2) :
    (readDocument text).Fits := by
  refine ⟨fun n hn => ⟨(node_liesIn hn).fits short, ?_⟩, fun e he => (error_liesIn he).fits short⟩
  obtain ⟨a, b, -, read⟩ := readFrom_of_mem_nodes hn
  rw [read.value_eq]
  intro v hv
  unfold Kind.valueOf at hv
  split at hv
  · cases hv
    trivial
  · split at hv
    · cases hv
      exact Nat.min_le_right _ _
    · cases hv

theorem Reading.levels_le_of_ofJson? {r read : Reading} {levels : Nat}
    (h : ofJson? levels r.toJson = some read) : r.toJson.levels ≤ levels := by
  rw [r.levels_toJson, Node.levels_toJson_eq]
  have members : Json.record? ["ast", "errors"] r.toJson =
      some [some r.tree.toJson, some (.array (r.errors.map SyntaxError.toJson))] := rfl
  match levels, h with
  | 0, h => simp [ofJson?] at h
  | 1, h => simp [ofJson?] at h
  | levels + 2, h =>
    simp only [ofJson?, members, bind, Option.bind_eq_some_iff] at h
    obtain ⟨tree, readTree, _⟩ := h
    exact Nat.succ_le_succ (Node.levels_le_of_ofJson? r.tree readTree)

theorem height_readDocument_le (text : String) :
    (readDocument text).tree.height ≤ 4 * (readDocument text).tree.nesting + 8 := by
  have bound := (readDocument text).tree.height_le fun m hm => (conforms_of_mem_nodes hm).children
  rwa [root_readDocument] at bound

/-- **Which readings are read back.** The JSON of a reading nests two levels for each node on the longest
way through its tree, and one more. It is read back exactly if that way has at most 63 nodes, which holds
where groups and captures stand in one another at most thirteen deep. -/
theorem readDocument_readBack (text : String) (short : text.toList.length < 2 ^ 32 - 2) :
    (readDocument text).toJson.levels = 2 * (readDocument text).tree.height + 1 ∧
    (Json.decoded? Reading.ofJson? (readDocument text).toJson.compact = some (readDocument text) ↔
      (readDocument text).tree.height ≤ 63) ∧
    ((readDocument text).tree.nesting ≤ 13 →
      Json.decoded? Reading.ofJson? (readDocument text).toJson.compact = some (readDocument text)) := by
  have levels : (readDocument text).toJson.levels = 2 * (readDocument text).tree.height + 1 := by
    rw [Reading.levels_toJson, Node.levels_toJson_eq]
  have readBack : (readDocument text).tree.height ≤ 63 →
      Json.decoded? Reading.ofJson? (readDocument text).toJson.compact = some (readDocument text) := by
    intro low
    refine Json.decoded?_compact (readDocument text).plain_toJson ?_
    refine (readDocument text).ofJson?_toJson (readDocument_fits text short) ?_
    rw [levels, Json.maxLevels]
    omega
  refine ⟨levels, ⟨fun h => ?_, readBack⟩, fun shallow => readBack ?_⟩
  · rw [Json.decoded?, Json.parse_compact (readDocument text).plain_toJson] at h
    have := Reading.levels_le_of_ofJson? h
    rw [levels, Json.maxLevels] at this
    omega
  · have := height_readDocument_le text
    omega

/-- A group with a bar, a range and a capture. -/
theorem readDocument_readBack_group :
    Json.decoded? Reading.ofJson? (readDocument "r = (a\x7b2\x7d | (?P<n>[b-c]))?").toJson.compact =
      some (readDocument "r = (a\x7b2\x7d | (?P<n>[b-c]))?") :=
  (readDocument_readBack "r = (a\x7b2\x7d | (?P<n>[b-c]))?" (by decide)).2.2 (by decide +kernel)

/-- A name in sixty-one groups. -/
def sixtyOneGroups : String :=
  String.ofList ("r = ".toList ++ List.replicate 61 '(' ++ 'a' :: List.replicate 61 ')')

/-- A text without an error whose reading is not read back. -/
example : (readDocument sixtyOneGroups).errors = [] ∧ (readDocument sixtyOneGroups).tree.height = 64 := by
  decide +kernel

end PatternRules
