import PatternRules.Proofs.Depth
import PatternRules.Proofs.Gives
import PatternRules.Proofs.RoundTrip

/-!
How high the trees of readings are. The guard on nesting counts expressions, and what may stand between two of
them is an alternation, a concatenation, a quantified item and a group or a capture. So each level of nesting
adds four nodes to the longest way through a tree (`expressionWithin_lower`), whatever the text. What holds no
expression has a height that goes by its kind (`Node.height_le_of_isFlat`).

* `Node.walk_within`, `Node.pathTo_within`: a tree is walked no deeper than it is high;
* `readDocument_height`: the bound, and that nothing bounds the width of a tree.
-/

namespace PatternRules

/-- Whether a node of this kind holds no expression, neither itself nor below. -/
def Kind.isFlat (k : Kind) : Bool :=
  !(k == root || k == ruleDefinition || k == alternation || k == concatenation || k == quantified || k.encloses)

theorem Kind.isFlat_parts {k : Kind} (flat : k.isFlat = true) : ∀ k' ∈ k.parts, k'.isFlat = true := by
  revert flat
  cases k <;> decide

theorem Kind.encloses_of_isFlat {k : Kind} (flat : k.isFlat = true) : k.encloses = false := by
  revert flat
  cases k <;> decide

namespace Node

/-! ## Heights -/

theorem heightOf_le_iff {ns : List Node} {most : Nat} : heightOf ns ≤ most ↔ ∀ n ∈ ns, n.height ≤ most := by
  induction ns with
  | nil => simp [heightOf]
  | cons n ns ih => rw [heightOf, Nat.max_le, ih, List.forall_mem_cons]

theorem heightOf_append (ns ms : List Node) : heightOf (ns ++ ms) = max (heightOf ns) (heightOf ms) := by
  induction ns with
  | nil => exact (Nat.zero_max _).symm
  | cons n ns ih => rw [List.cons_append, heightOf, ih, heightOf, Nat.max_assoc]

theorem heightOf_singleton (n : Node) : heightOf [n] = n.height := Nat.max_zero _

theorem height_branch (kind : Kind) (children : List Node) (span : Span) :
    (branch kind children span).height = heightOf children + 1 := rfl

/-! ## Nodes without expressions -/

mutual

theorem nesting_of_isFlat : (n : Node) → (∀ m ∈ n.nodes, m.kind.admits (m.children.map kind) = true) →
    n.kind.isFlat = true → n.nesting = 0
  | ⟨kind, value, children, span⟩, conform, flat => by
    rw [nodes] at conform
    have admitted : kind.admits (children.map Node.kind) = true := conform _ List.mem_cons_self
    have below := nestingOf_of_isFlat children (fun m hm => conform m (List.mem_cons_of_mem _ hm))
      fun c hc => Kind.isFlat_parts flat _ (Kind.mem_parts admitted (List.mem_map_of_mem hc))
    have encloses : kind.encloses = false := Kind.encloses_of_isFlat flat
    rw [nesting, below, encloses]
    rfl

theorem nestingOf_of_isFlat : (ns : List Node) →
    (∀ m ∈ nodesOf ns, m.kind.admits (m.children.map kind) = true) →
    (∀ n ∈ ns, n.kind.isFlat = true) → nestingOf ns = 0
  | [], _, _ => rfl
  | n :: ns, conform, flat => by
    rw [nodesOf] at conform
    have first := nesting_of_isFlat n (fun m hm => conform m (List.mem_append_left _ hm))
      (flat n List.mem_cons_self)
    have further := nestingOf_of_isFlat ns (fun m hm => conform m (List.mem_append_right _ hm))
      fun m hm => flat m (List.mem_cons_of_mem _ hm)
    rw [nestingOf, first, further, Nat.max_self]

end

/-- Without an expression below, the kind of a node bounds its height. -/
theorem ReadFrom.height_le_of_isFlat {n : Node} {a b : Cursor} (h : n.ReadFrom a b)
    (flat : n.kind.isFlat = true) : n.height ≤ n.kind.ownHeight := by
  have bound := n.height_le h.admits_of_mem_nodes
  rwa [nesting_of_isFlat n h.admits_of_mem_nodes flat, Nat.mul_zero, Nat.zero_add] at bound

/-! ## Walking a tree -/

mutual

theorem walkBelow_within : (n : Node) → (ancestors : List Node) →
    ∀ visit ∈ n.walkBelow ancestors, visit.2.length + 1 ≤ ancestors.length + n.height
  | ⟨kind, value, children, span⟩, ancestors => by
    intro visit mem
    rw [walkBelow, List.mem_cons] at mem
    rw [height]
    rcases mem with rfl | mem
    · exact Nat.add_le_add_left (Nat.succ_le_succ (Nat.zero_le _)) _
    · have below := walkAmong_within children _ visit mem
      rw [List.length_append, List.length_singleton] at below
      omega

theorem walkAmong_within : (ns : List Node) → (ancestors : List Node) →
    ∀ visit ∈ walkAmong ancestors ns, visit.2.length + 1 ≤ ancestors.length + heightOf ns
  | [], _ => by
    intro visit mem
    rw [walkAmong] at mem
    exact absurd mem List.not_mem_nil
  | n :: ns, ancestors => by
    intro visit mem
    rw [walkAmong, List.mem_append] at mem
    rw [heightOf]
    rcases mem with mem | mem
    · have := walkBelow_within n ancestors visit mem
      omega
    · have := walkAmong_within ns ancestors visit mem
      omega

end

/-- **A node and its ancestors are no more than the tree is high.** -/
theorem walk_within (root : Node) : ∀ visit ∈ root.walk, visit.2.length + 1 ≤ root.height := by
  intro visit mem
  have within := walkBelow_within root [] visit mem
  rwa [List.length_nil, Nat.zero_add] at within

mutual

/-- **The way down to the node at a position is no longer than the tree is high.** -/
theorem pathTo_within : (n : Node) → {p : Position} → {path : List Node} → n.pathTo p = .ok path →
    path.length ≤ n.height
  | ⟨kind, value, children, span⟩, p, path, h => by
    rw [pathTo] at h
    rw [height]
    cases below : pathAmong p children with
    | error fault =>
      rw [below] at h
      cases h
    | ok among =>
      have lower := pathAmong_within children below
      rw [below] at h
      cases among with
      | cons first rest =>
        cases h
        exact Nat.succ_le_succ lower
      | nil =>
        cases here : span.contains p with
        | error fault =>
          simp only [here, bind, Except.bind] at h
          cases h
        | ok inside =>
          simp only [here, bind, Except.bind, pure, Except.pure] at h
          cases h
          split
          · exact Nat.succ_le_succ (Nat.zero_le _)
          · exact Nat.zero_le _

theorem pathAmong_within : (ns : List Node) → {p : Position} → {path : List Node} →
    pathAmong p ns = .ok path → path.length ≤ heightOf ns
  | [], p, path, h => by
    rw [pathAmong] at h
    cases h
    exact Nat.zero_le _
  | n :: ns, p, path, h => by
    rw [pathAmong] at h
    rw [heightOf]
    cases first : pathTo p n with
    | error fault =>
      rw [first] at h
      cases h
    | ok found =>
      have lower := pathTo_within n first
      rw [first] at h
      cases found with
      | nil => exact Nat.le_trans (pathAmong_within ns h) (Nat.le_max_right _ _)
      | cons m ms =>
        cases h
        exact Nat.le_trans lower (Nat.le_max_left _ _)

end

end Node

namespace Parse

open Node (heightOf)

variable {α β : Type} {limits : Limits} {s : ParseState} {most : Nat} {kinds : List Kind → Prop}

/-- The nodes that `p` gives are of at most this height. -/
def Lower [HasNodes α] (limits : Limits) (most : Nat) (p : Parse α) : Prop :=
  ∀ s, Ensures limits s p fun r _ => heightOf (HasNodes.nodes r) ≤ most

/-- Of a list of nodes, and of each of them. -/
theorem lower_iff [HasNodes α] {p : Parse α} : Lower limits most p ↔ Gives limits (·.height ≤ most) p :=
  ⟨fun h s => (h s).mono fun _ _ => Node.heightOf_le_iff.1, fun h s => (h s).mono fun _ _ => Node.heightOf_le_iff.2⟩

namespace Lower

variable [HasNodes α]

theorem mono {p : Parse α} {more : Nat} (h : Lower limits most p) (le : most ≤ more) : Lower limits more p :=
  fun s => (h s).mono fun _ _ low => Nat.le_trans low le

/-- What holds no expression is as low as its kind. -/
theorem of_reads {p : Parse α} (h : Reads kinds p)
    (low : ∀ ks, kinds ks → ∀ k ∈ ks, k.isFlat = true ∧ k.ownHeight ≤ most) : Lower limits most p :=
  lower_iff.2 (.of_reads h low fun _ _ _ read own => Nat.le_trans (read.height_le_of_isFlat own.1) own.2)

theorem of_each {p : Parse α} {P : Kind → Bool} (h : Reads (Each P) p)
    (low : ∀ k, P k = true → k.isFlat = true ∧ k.ownHeight ≤ most) : Lower limits most p :=
  of_reads h fun _ each k mem => low k (List.all_eq_true.1 each k mem)

theorem of_kind {p : Parse α} {k : Kind} (h : Reads (Each (· == k)) p) (flat : k.isFlat = true) :
    Lower limits k.ownHeight p := by
  refine of_each h fun k' same => ?_
  rw [eq_of_beq same]
  exact ⟨flat, Nat.le_refl _⟩

theorem orReport {p : Parse (Option α)} (h : Lower limits most p) (complaint : Complaint) :
    Lower limits most (orReport complaint p) :=
  lower_iff.2 ((lower_iff.1 h).orReport complaint)

theorem afterBlank {p : Parse (Option α)} (h : Lower limits most p) : Lower limits most (afterBlank p) :=
  lower_iff.2 (lower_iff.1 h).afterBlank

theorem many {step : Parse (Option α)} (h : Lower limits most step) : Lower limits most (many step) :=
  lower_iff.2 (lower_iff.1 h).many

end Lower

/-! ## Expressions -/

variable {inner : Parse (Option Node)}

theorem heightOf_toList {r : Option Node} (low : heightOf (HasNodes.nodes r) ≤ most) :
    heightOf r.toList ≤ most := by
  rwa [HasNodes.nodes_option] at low

theorem enclosed_lower (missing : Complaint) (h : Lower limits most inner) :
    Lower limits most (enclosed missing inner) := by
  intro s
  refine (h.afterBlank s).bind fun body t low => ?_
  refine .eitherWay fun u => .anyway fun closed v => .eitherWay fun w => ?_
  rw [ensures_pure, HasNodes.nodes_list]
  exact heightOf_toList low

theorem group_lower (h : Lower limits most inner) : Lower limits (most + 1) (group inner) := by
  intro s
  refine .anyway fun start t => .anyway fun _ u => ?_
  refine (enclosed_lower _ h u).bind fun body v low => ?_
  rw [HasNodes.nodes_list] at low
  rw [ensures_branchFrom, HasNodes.nodes_node, Node.heightOf_singleton, Node.height_branch]
  exact Nat.succ_le_succ low

theorem captureParts_lower (h : Lower limits most inner) : Lower limits (max 1 most) (captureParts inner) := by
  intro s
  refine ((Lower.of_kind identifier_reads rfl).orReport _ s).bind ?_
  rintro (_ | name) t low
  · exact Nat.zero_le _
  · rw [HasNodes.nodes_some, HasNodes.nodes_node, Node.heightOf_singleton] at low
    refine .anyway fun closed u => ?_
    split
    · refine (enclosed_lower _ h u).bind fun body v inside => ?_
      rw [HasNodes.nodes_list] at inside
      have own : Kind.identifier.ownHeight = 1 := rfl
      rw [ensures_pure, HasNodes.nodes_list, Node.heightOf]
      omega
    · refine .anyway fun _ v => ?_
      rw [ensures_pure, HasNodes.nodes_list, Node.heightOf_singleton]
      exact Nat.le_trans low (Nat.le_max_left 1 most)

theorem namedCapture_lower (h : Lower limits most inner) :
    Lower limits (max 1 most + 1) (namedCapture inner) := by
  intro s
  refine .anyway fun start t => .anyway fun _ u => ?_
  refine (captureParts_lower h u).bind fun parts v low => ?_
  rw [HasNodes.nodes_list] at low
  rw [ensures_branchFrom, HasNodes.nodes_node, Node.heightOf_singleton, Node.height_branch]
  exact Nat.succ_le_succ low

/-- A group or a capture stands one node above what it encloses; no other primary is higher than three. -/
theorem primary_lower (h : Lower limits most inner) : Lower limits (max 2 most + 1) (primary inner) := by
  intro s
  refine .anyway fun c t => ?_
  split
  · have capture : Lower limits (max 2 most + 1) (namedCapture inner) := (namedCapture_lower h).mono (by omega)
    exact (capture t).bind fun _ _ low => low
  · split
    · have group : Lower limits (max 2 most + 1) (group inner) := (group_lower h).mono (by omega)
      exact (group t).bind fun _ _ low => low
    · have least : 3 ≤ max 2 most + 1 := Nat.succ_le_succ (Nat.le_max_left 2 most)
      split
      · have list : Lower limits 3 listMatch := .of_kind listMatch_reads rfl
        exact ((list.mono least) t).bind fun _ _ low => low
      · have atom : Lower limits 3 atom := .of_each atom_reads fun k isAtom => by
          revert isAtom
          cases k <;> decide
        exact (atom.mono least) t

theorem quantifier_lower : Lower limits 2 quantifier :=
  .of_each quantifier_reads fun k isQuantifier => by
    revert isQuantifier
    cases k <;> decide

theorem quantified_lower (h : Lower limits most inner) : Lower limits (max 2 most + 2) (quantified inner) := by
  intro s
  refine .anyway fun start t => (primary_lower h t).bind ?_
  rintro (_ | subject) u low
  · exact Nat.zero_le _
  · rw [HasNodes.nodes_some, HasNodes.nodes_node, Node.heightOf_singleton] at low
    refine (quantifier_lower u).bind ?_
    rintro (_ | quantifier) v below
    · rw [ensures_pure, HasNodes.nodes_some, HasNodes.nodes_node, Node.heightOf_singleton]
      exact Nat.le_succ_of_le low
    · rw [HasNodes.nodes_some, HasNodes.nodes_node, Node.heightOf_singleton] at below
      rw [ensures_bind, ensures_branchFrom, ensures_pure, HasNodes.nodes_some, HasNodes.nodes_node,
        Node.heightOf_singleton, Node.height_branch, Node.heightOf, Node.heightOf_singleton]
      omega

theorem item_lower (h : Lower limits most inner) : Lower limits (max 2 most + 2) (item inner) := by
  intro s
  refine .anyway fun boundary t => ?_
  split
  · exact Nat.zero_le _
  · exact quantified_lower h t

theorem joined_lower {first : Node} {further : List Node} (kind : Kind) (start : Cursor)
    (low : heightOf (first :: further) ≤ most) : Ensures limits s (joined kind start first further) fun r _ =>
      heightOf (HasNodes.nodes r) ≤ most + 1 := by
  unfold joined
  split
  · rw [ensures_pure, HasNodes.nodes_some, HasNodes.nodes_node, Node.heightOf_singleton]
    rw [Node.heightOf] at low
    omega
  · rw [ensures_bind, ensures_branchFrom, ensures_pure, HasNodes.nodes_some, HasNodes.nodes_node,
      Node.heightOf_singleton, Node.height_branch]
    exact Nat.succ_le_succ low

/-- Parts, one behind the other, under one node. -/
theorem chain_lower {p step : Parse (Option Node)} (kind : Kind) (h : Lower limits most p)
    (h' : Lower limits most step) : Lower limits (most + 1) (do
      let start ← cursor
      match ← p with
      | none => return none
      | some first =>
        let further ← many step
        joined kind start first further) := by
  intro s
  refine .anyway fun start t => (h t).bind ?_
  rintro (_ | first) u low
  · exact Nat.zero_le _
  · refine (h'.many u).bind fun further v rest => joined_lower kind start ?_
    rw [HasNodes.nodes_list] at rest
    rw [HasNodes.nodes_some, HasNodes.nodes_node, Node.heightOf_singleton] at low
    rw [Node.heightOf]
    exact Nat.max_le.2 ⟨low, rest⟩

theorem concatenation_lower (h : Lower limits most inner) :
    Lower limits (max 2 most + 3) (concatenation inner) :=
  chain_lower .concatenation (item_lower h) (item_lower h).afterBlank

theorem nextBranch_lower (h : Lower limits most inner) : Lower limits (max 2 most + 3) (nextBranch inner) := by
  intro s
  refine .anyway fun bar t => ?_
  split
  · exact (concatenation_lower h).afterBlank.orReport _ t
  · exact Nat.zero_le _

theorem alternation_lower (h : Lower limits most inner) : Lower limits (max 2 most + 4) (alternation inner) :=
  chain_lower .alternation (concatenation_lower h) (nextBranch_lower h)

/-- **Each level of nesting adds four nodes** to the longest way through an expression. -/
theorem expressionWithin_lower (levels : Nat) : Lower limits (4 * levels + 2) (expressionWithin levels) := by
  induction levels with
  | zero => exact fun s => .anyway fun _ _ => Nat.zero_le _
  | succ levels ih => exact (alternation_lower ih).mono (by omega)

theorem expression_lower : Lower limits (4 * limits.depth + 2) expression :=
  fun s => expressionWithin_lower limits.depth s

/-! ## Documents -/

theorem ruleTail_lower (deep : 0 < limits.depth) (name : String) :
    Lower limits (4 * limits.depth + 2) (ruleTail name) := by
  intro s
  refine .anyway fun equals t => ?_
  cases equals with
  | none => exact Nat.zero_le _
  | some _ =>
    refine ((expression_lower.afterBlank).orReport _ t).bind ?_
    rintro (_ | body) u low
    · exact Nat.zero_le _
    · rw [HasNodes.nodes_some, HasNodes.nodes_node, Node.heightOf_singleton] at low
      refine ((Lower.of_kind ruleUses_reads rfl).afterBlank u).bind fun clause v below => ?_
      have below : heightOf clause.toList ≤ 5 := heightOf_toList below
      show heightOf (body :: clause.toList) ≤ _
      rw [Node.heightOf]
      omega

theorem rule_lower (deep : 0 < limits.depth) : Lower limits (4 * limits.depth + 3) rule := by
  intro s
  refine .anyway fun start t => .anyway fun before u => ?_
  refine (Lower.of_kind identifier_reads rfl u).bind ?_
  rintro (_ | name) v low
  · exact Nat.zero_le _
  · rw [HasNodes.nodes_some, HasNodes.nodes_node, Node.heightOf_singleton] at low
    have own : Kind.identifier.ownHeight = 1 := rfl
    refine (ruleTail_lower deep _ v).bind ?_
    rintro ⟨parts, complete⟩ w below
    have below : heightOf parts ≤ 4 * limits.depth + 2 := below
    show heightOf [.branch .ruleDefinition (name :: parts) _] ≤ _
    rw [Node.heightOf_singleton, Node.height_branch, Node.heightOf]
    omega

theorem nextRule_lower (deep : 0 < limits.depth) : Lower limits (4 * limits.depth + 3) nextRule := by
  intro s
  refine .anyway fun c t => .anyway fun full u => ?_
  split
  · exact Nat.zero_le _
  · refine (rule_lower deep u).bind ?_
    rintro (_ | rule) v low
    · exact low
    · dsimp only
      split
      · exact low
      · exact low

theorem document_lower (deep : 0 < limits.depth) : Lower limits (4 * limits.depth + 4) document := by
  intro s
  have versions : Lower limits 2 versionSection := .of_reads versionSection_reads fun ks kinds k mem => by
    rcases kinds with rfl | rfl
    · cases mem
    · rw [List.mem_singleton.1 mem]
      decide
  have resolvers : Lower limits 6 resolverSection := .of_reads resolverSection_reads fun ks kinds k mem => by
    rcases kinds with rfl | rfl
    · cases mem
    · rw [List.mem_singleton.1 mem]
      decide
  have imports : Lower limits 3 (many nextImport) := (Lower.of_kind nextImport_reads rfl).many
  refine .anyway fun start t => .anyway fun _ u => ?_
  refine (versions u).bind fun version v first => (imports v).bind fun imports w second => ?_
  refine (resolvers w).bind fun resolver x third => ((nextRule_lower deep).many x).bind fun rules y last => ?_
  rw [HasNodes.nodes_list] at first second third last
  rw [ensures_branchFrom, HasNodes.nodes_node, Node.heightOf_singleton, Node.height_branch,
    Node.heightOf_append, Node.heightOf_append, Node.heightOf_append]
  omega

end Parse

theorem height_readWithin_le {limits : Limits} (deep : 0 < limits.depth) (text : List Char) :
    (readWithin limits text).1.height ≤ 4 * limits.depth + 4 := by
  have low : Node.heightOf [(readWithin limits text).1] ≤ 4 * limits.depth + 4 :=
    Parse.document_lower deep ⟨.ofChars text, [], false⟩
  rwa [Node.heightOf_singleton] at low

/-! ## Width -/

namespace Abstract

/-- A rule that is its own body. -/
def sameRule (name : Identifier) : Rule := ⟨name, .last (.last (.operand name) none), none⟩

/-- A document with that rule so many times. -/
def sameRules (name : Identifier) (n : Nat) : Document := ⟨none, [], none, List.replicate n (sameRule name)⟩

variable {name : Identifier}

theorem withApart_sameRules (notWith : name.word ≠ "with") (optional : Bool) (n : Nat) :
    withApart optional (List.replicate n (sameRule name)) = true := by
  induction n generalizing optional with
  | zero => rfl
  | succ n ih =>
    have apart : (optional && (sameRule name).name.word == "with") = false := by
      rw [sameRule, beq_false_of_ne notWith, Bool.and_false]
    rw [List.replicate_succ, withApart, apart, ih]
    rfl

theorem unambiguous_sameRules (notWith : name.word ≠ "with") (notUses : name.word ≠ "uses") (n : Nat) :
    (sameRules name n).unambiguous = true := by
  have rule : (sameRule name).unambiguous = true := by
    rw [sameRule, Rule.unambiguous, Expression.unambiguous, Branch.unambiguous, Primary.unambiguous,
      bne_iff_ne.2 notUses]
    rfl
  have rules : (List.replicate n (sameRule name)).all Rule.unambiguous = true := by
    refine List.all_eq_true.2 fun r mem => ?_
    rw [List.eq_of_mem_replicate mem, rule]
  have apart : withApart (sameRules name n).rulesBehindOption (List.replicate n (sameRule name)) = true :=
    withApart_sameRules notWith _ n
  simp only [Document.unambiguous, sameRules] at apart ⊢
  rw [rules, apart]
  rfl

theorem length_render_sameRules (name : Identifier) (n : Nat) : n ≤ (sameRules name n).render.length := by
  have rules : (sameRules name n).render = (List.replicate n (sameRule name)).flatMap (line ·.render) := rfl
  rw [rules, List.length_flatMap, List.map_replicate, List.sum_replicate_nat]
  refine Nat.le_mul_of_pos_right n ?_
  rw [line, List.length_append]
  exact Nat.succ_pos _

/-- **Nothing bounds the width of a tree**, nor the length of a text. -/
theorem exists_wide (n : Nat) :
    ∃ text : String, n ≤ text.length ∧ n ≤ (readDocument text).tree.children.length := by
  have name : ∃ name : Identifier, name.word ≠ "with" ∧ name.word ≠ "uses" :=
    ⟨⟨'a', [], rfl, rfl⟩, by decide, by decide⟩
  obtain ⟨name, notWith, notUses⟩ := name
  refine ⟨(sameRules name n).text, ?_, ?_⟩
  · rw [Document.text, String.length_ofList]
    exact length_render_sameRules name n
  · have text : (sameRules name n).text.toList = (sameRules name n).render := String.toList_ofList
    obtain ⟨outline, -⟩ := readWithin_render (sameRules name n) (unambiguous_sameRules notWith notUses n)
    rw [tree_readDocument, text]
    generalize (readWithin .standard (sameRules name n).render).1 = tree at outline ⊢
    obtain ⟨kind, value, children, span⟩ := tree
    rw [Node.outline_mk] at outline
    have rules : Node.outlines children = (List.replicate n (sameRule name)).map Rule.outline :=
      (Outline.node.inj outline).2.2
    have count := congrArg List.length rules
    rw [Node.outlines_eq_map, List.length_map, List.length_map, List.length_replicate] at count
    exact Nat.le_of_eq count.symm

end Abstract

/-- **The height of a tree is bounded, whatever the text**: no way from the root to a leaf has more than 260
nodes, so no node that is walked has more than 259 above it and no way down to a position is longer. Nothing
bounds the width of a tree or the length of a text. -/
theorem readDocument_height :
    (∀ text : String, (readDocument text).tree.height ≤ 4 * Limits.standard.depth + 4 ∧
      (∀ visit ∈ (readDocument text).tree.walk, visit.2.length + 1 ≤ 4 * Limits.standard.depth + 4) ∧
      ∀ p path, (readDocument text).tree.pathTo p = .ok path →
        path.length ≤ 4 * Limits.standard.depth + 4) ∧
    ∀ n, ∃ text : String, n ≤ text.length ∧ n ≤ (readDocument text).tree.children.length := by
  refine ⟨fun text => ?_, Abstract.exists_wide⟩
  have bound : (readDocument text).tree.height ≤ 4 * Limits.standard.depth + 4 := by
    rw [tree_readDocument]
    exact height_readWithin_le (by decide) text.toList
  exact ⟨bound, fun visit mem => Nat.le_trans (Node.walk_within _ visit mem) bound,
    fun p path found => Nat.le_trans (Node.pathTo_within _ found) bound⟩

end PatternRules
