import PatternRules.Grammar.Leaf
import PatternRules.Proofs.Reach

/-!
The grammar of trees. `Kind.admits` says which children a node of a kind may have, `Kind.valueOf` which
value it carries. `Node.ReadFrom` ties a node to the part of the text it was read from: its span, its
value and its children all come from there, and the children come one behind the other.

* `AllReadFrom.append`, `AllReadFrom.after`, `AllReadFrom.upTo`: what was read in a row;
* `ReadFrom.branch`, `ReadFrom.ofText`: a node above what was read;
* `eq_of_admits_ruleDefinition` and the like: which children a node of a kind has, written out;
* `ReadFrom.of_mem_nodes`, `ReadFrom.conforms`: every node below was read, and obeys the grammar.
-/

namespace PatternRules

namespace Kind

/-! ## Which children a node has -/

/-- The kinds of what is read without looking for parentheses or for a list. -/
def isAtom : Kind → Bool
  | escape | anchor | dot | charClass | string | identifier => true
  | _ => false

/-- The kinds an item of a concatenation has when it is not quantified. -/
def isPrimary : Kind → Bool
  | group | namedCapture | listMatch | escape | anchor | dot | charClass | string | identifier => true
  | _ => false

theorem isPrimary_of_isAtom {k : Kind} (h : k.isAtom = true) : k.isPrimary = true := by
  revert h
  cases k <;> decide

/-- The kinds of the items of a concatenation. -/
def isItem (k : Kind) : Bool := k == quantified || k.isPrimary

/-- The kinds of the branches of an alternation. -/
def isBranch (k : Kind) : Bool := k == concatenation || k.isItem

def isExpression (k : Kind) : Bool := k == alternation || k.isBranch

def isQuantifier : Kind → Bool
  | questionMark | exactRange | range => true
  | _ => false

/-- The kinds of a single character of a class. -/
def isClassChar : Kind → Bool
  | escape | char => true
  | _ => false

/-- The kinds of the members of a class. -/
def isClassItem (k : Kind) : Bool := k == charRange || k.isClassChar

/-- A list of kinds without `k` at its front. -/
def dropOne (k : Kind) : List Kind → List Kind
  | [] => []
  | k' :: ks => if k' = k then ks else k' :: ks

/-- Whether a node of kind `k` may have children of these kinds, in this order. -/
def admits (k : Kind) (children : List Kind) : Bool :=
  match k with
  | root =>
    let afterImports := (dropOne versionStatement children).dropWhile (· == importStatement)
    (dropOne resolverDefault afterImports).all (· == ruleDefinition)
  | versionStatement => children.isPrefixOf [versionLiteral]
  | importStatement => children.isPrefixOf [string, identifier, importOptions]
  | importOptions => children.all (· == importFlag)
  | resolverDefault => children.isPrefixOf [usesClause]
  | ruleDefinition =>
    match children with
    | [name] => name == identifier
    | [name, body] => name == identifier && body.isExpression
    | [name, body, clause] => name == identifier && body.isExpression && clause == usesClause
    | _ => false
  | usesClause =>
    children.isPrefixOf [resolverScope, resolverMethod, resolverOptions] ||
      children.isPrefixOf [resolverScope, resolverOptions] ||
      children.isPrefixOf [resolverMethod, resolverOptions]
  | resolverMethod => children == [identifier] || children == [identifier, resolverArguments]
  | resolverArguments => children.all (· == resolverArgument)
  | resolverArgument =>
    children == [identifier] || children == [identifier, string] || children == [string]
  | resolverOptions => children.all (· == resolverFlag)
  | resolverFlag => children.isPrefixOf [optionalTokens]
  | optionalTokens => children.all (· == string)
  | alternation => decide (2 ≤ children.length) && children.all isBranch
  | concatenation => decide (2 ≤ children.length) && children.all isItem
  | quantified =>
    match children with
    | [subject, quantifier] => subject.isPrimary && quantifier.isQuantifier
    | _ => false
  | group =>
    match children with
    | [] => true
    | [body] => body.isExpression
    | _ => false
  | namedCapture =>
    match children with
    | [] => true
    | [name] => name == identifier
    | [name, body] => name == identifier && body.isExpression
    | _ => false
  | listMatch => children.isPrefixOf [identifier, filter]
  | filter => children == [identifier] || children == [identifier, string]
  | exactRange => children == [number]
  | range => children == [number] || children == [number, number]
  | charClass => children.all isClassItem
  | charRange =>
    match children with
    | [low, high] => low.isClassChar && high.isClassChar
    | _ => false
  | versionLiteral | importFlag | resolverScope | questionMark | escape | anchor | dot | char
  | string | identifier | number => children.isEmpty

/-! ### What admitted children are -/

section Admitted

variable {children : List Kind}

theorem eq_of_admits_group (h : group.admits children = true) :
    children = [] ∨ ∃ body, body.isExpression = true ∧ children = [body] := by
  simp only [admits] at h
  split at h
  · exact .inl rfl
  · exact .inr ⟨_, h, rfl⟩
  · cases h

theorem eq_of_admits_namedCapture (h : namedCapture.admits children = true) :
    children = [] ∨ children = [identifier] ∨
      ∃ body, body.isExpression = true ∧ children = [identifier, body] := by
  simp only [admits] at h
  split at h <;> simp only [Bool.and_eq_true, beq_iff_eq, Bool.false_eq_true] at h
  · exact .inl rfl
  · rw [h]
    exact .inr (.inl rfl)
  · rw [h.1]
    exact .inr (.inr ⟨_, h.2, rfl⟩)

/-- A rule without a body has no clause either. -/
theorem eq_of_admits_ruleDefinition (h : ruleDefinition.admits children = true) :
    children = [identifier] ∨ ∃ body, body.isExpression = true ∧
      (children = [identifier, body] ∨ children = [identifier, body, usesClause]) := by
  simp only [admits] at h
  split at h <;> simp only [Bool.and_eq_true, beq_iff_eq, Bool.false_eq_true] at h
  · rw [h]
    exact .inl rfl
  · rw [h.1]
    exact .inr ⟨_, h.2, .inl rfl⟩
  · rw [h.1.1, h.2]
    exact .inr ⟨_, h.1.2, .inr rfl⟩

theorem eq_of_admits_quantified (h : quantified.admits children = true) :
    ∃ subject quantifier, subject.isPrimary = true ∧ quantifier.isQuantifier = true ∧
      children = [subject, quantifier] := by
  simp only [admits] at h
  split at h
  · rw [Bool.and_eq_true] at h
    exact ⟨_, _, h.1, h.2, rfl⟩
  · cases h

theorem eq_of_admits_charRange (h : charRange.admits children = true) :
    ∃ low high, low.isClassChar = true ∧ high.isClassChar = true ∧ children = [low, high] := by
  simp only [admits] at h
  split at h
  · rw [Bool.and_eq_true] at h
    exact ⟨_, _, h.1, h.2, rfl⟩
  · cases h

end Admitted

/-! ## Which value a node has -/

/-- The kinds of nodes whose value is the text they were read from. -/
def hasText : Kind → Bool
  | versionLiteral | importFlag | resolverScope | resolverFlag | escape | anchor | dot | charClass
  | charRange | char | string | identifier => true
  | _ => false

/-- The value of a node of kind `k` that was read from `text`. -/
def valueOf (k : Kind) (text : List Char) : Option Value :=
  if k.hasText then some (.text (String.ofList text))
  else if k = number then some (.number (min (decimalValue text) Value.maxNumber))
  else none

end Kind

namespace Node

/-- A node obeys the grammar of trees: its children are such as its kind admits, and it has a text or
a number exactly if its kind does. -/
structure Conforms (n : Node) : Prop where
  children : n.kind.admits (n.children.map kind) = true
  text : n.text?.isSome = n.kind.hasText
  number : n.number?.isSome = (n.kind == .number)

/-! ## Where a node was read -/

mutual

/-- The node was read from the text between `a` and `b`. -/
inductive ReadFrom : Node → Cursor → Cursor → Prop where
  | intro {n : Node} {a b : Cursor} (reaches : a.Reaches b) (span : n.span = b.spanFrom a.mark)
      (value : n.value = n.kind.valueOf (b.textSince a))
      (admits : n.kind.admits (n.children.map kind) = true) (children : AllReadFrom n.children a b) :
      ReadFrom n a b

/-- The nodes were read, one behind the other, from the text between `a` and `b`. -/
inductive AllReadFrom : List Node → Cursor → Cursor → Prop where
  | nil {a b : Cursor} (reaches : a.Reaches b) : AllReadFrom [] a b
  | cons {n : Node} {ns : List Node} {a x y b : Cursor} (before : a.Reaches x)
      (first : ReadFrom n x y) (rest : AllReadFrom ns y b) : AllReadFrom (n :: ns) a b

end

namespace ReadFrom

variable {n : Node} {a b : Cursor}

theorem reaches (h : ReadFrom n a b) : a.Reaches b := by
  cases h with
  | intro reaches => exact reaches

theorem span_eq (h : ReadFrom n a b) : n.span = b.spanFrom a.mark := by
  cases h with
  | intro _ span => exact span

theorem value_eq (h : ReadFrom n a b) : n.value = n.kind.valueOf (b.textSince a) := by
  cases h with
  | intro _ _ value => exact value

theorem admits (h : ReadFrom n a b) : n.kind.admits (n.children.map kind) = true := by
  cases h with
  | intro _ _ _ admits => exact admits

theorem children (h : ReadFrom n a b) : AllReadFrom n.children a b := by
  cases h with
  | intro _ _ _ _ children => exact children

end ReadFrom

namespace AllReadFrom

variable {a b c : Cursor} {ns ms : List Node}

theorem reaches (h : AllReadFrom ns a b) : a.Reaches b := by
  induction ns generalizing a with
  | nil =>
    cases h with
    | nil reaches => exact reaches
  | cons n ns ih =>
    cases h with
    | cons before first rest => exact before.trans (first.reaches.trans (ih rest))

theorem single {n : Node} (h : ReadFrom n a b) : AllReadFrom [n] a b :=
  .cons (.refl a) h (.nil (.refl b))

/-- What was read in front of some nodes may hold no node. -/
theorem after (h : a.Reaches b) (h' : AllReadFrom ns b c) : AllReadFrom ns a c := by
  cases h' with
  | nil reaches => exact .nil (h.trans reaches)
  | cons before first rest => exact .cons (h.trans before) first rest

theorem append (h : AllReadFrom ns a b) (h' : AllReadFrom ms b c) :
    AllReadFrom (ns ++ ms) a c := by
  induction ns generalizing a with
  | nil => exact .after h.reaches h'
  | cons n ns ih =>
    cases h with
    | cons before first rest => exact .cons before first (ih rest)

/-- What was read behind some nodes may hold no node. -/
theorem upTo (h : AllReadFrom ns a b) (h' : b.Reaches c) : AllReadFrom ns a c := by
  simpa using h.append (.nil h')

theorem of_mem {n : Node} (h : AllReadFrom ns a b) (hn : n ∈ ns) :
    ∃ x y, a.Reaches x ∧ ReadFrom n x y ∧ y.Reaches b := by
  induction ns generalizing a with
  | nil => exact absurd hn List.not_mem_nil
  | cons m ns ih =>
    cases h with
    | cons before first rest =>
      rcases List.mem_cons.1 hn with rfl | hn
      · exact ⟨_, _, before, first, rest.reaches⟩
      · obtain ⟨x, y, hx, read, hy⟩ := ih rest hn
        exact ⟨x, y, before.trans (first.reaches.trans hx), read, hy⟩

/-- Of two nodes, the second was read from where the first ends or behind it. -/
theorem pairwise (h : AllReadFrom ns a b) :
    ns.Pairwise fun n m => ∃ x y z w, ReadFrom n x y ∧ y.Reaches z ∧ ReadFrom m z w := by
  induction ns generalizing a with
  | nil => exact .nil
  | cons n ns ih =>
    cases h with
    | cons before first rest =>
      refine .cons ?_ (ih rest)
      intro m hm
      obtain ⟨z, w, hz, read, -⟩ := rest.of_mem hm
      exact ⟨_, _, z, w, first, hz, read⟩

end AllReadFrom

/-- A node without a value above what was read. -/
theorem ReadFrom.branch {kind : Kind} {children : List Node} {a b : Cursor}
    (h : AllReadFrom children a b) (bare : ∀ text, kind.valueOf text = none)
    (fits : kind.admits (children.map Node.kind) = true) :
    ReadFrom (.branch kind children (b.spanFrom a.mark)) a b :=
  .intro h.reaches rfl (bare _).symm fits h

/-- A node above what was read that has the text of it as its value. -/
theorem ReadFrom.ofText {kind : Kind} {children : List Node} {a b : Cursor}
    (h : AllReadFrom children a b) (hasText : kind.hasText = true)
    (fits : kind.admits (children.map Node.kind) = true) :
    ReadFrom ⟨kind, some (.text (String.ofList (b.textSince a))), children, b.spanFrom a.mark⟩ a b :=
  .intro h.reaches rfl (by simp [Kind.valueOf, hasText]) fits h

theorem ReadFrom.ofDigits {a b : Cursor} (h : a.Reaches b) :
    ReadFrom (.number (min (decimalValue (b.textSince a)) Value.maxNumber) (b.spanFrom a.mark)) a b :=
  .intro h rfl rfl rfl (.nil h)

/-! ## Every node below -/

mutual

/-- **Every node below was read from a part of the text.** -/
theorem ReadFrom.of_mem_nodes : (n : Node) → {a b : Cursor} → ReadFrom n a b →
    ∀ m ∈ n.nodes, ∃ x y, a.Reaches x ∧ ReadFrom m x y ∧ y.Reaches b
  | ⟨kind, value, children, span⟩, a, b, h => by
    intro m hm
    rw [nodes, List.mem_cons] at hm
    rcases hm with rfl | hm
    · exact ⟨a, b, .refl a, h, .refl b⟩
    · exact AllReadFrom.of_mem_nodes children h.children m hm

theorem AllReadFrom.of_mem_nodes : (ns : List Node) → {a b : Cursor} → AllReadFrom ns a b →
    ∀ m ∈ nodesOf ns, ∃ x y, a.Reaches x ∧ ReadFrom m x y ∧ y.Reaches b
  | [], _, _, _ => by
    intro m hm
    rw [nodesOf] at hm
    exact absurd hm List.not_mem_nil
  | n :: ns, a, b, .cons before first rest => by
    intro m hm
    rw [nodesOf, List.mem_append] at hm
    rcases hm with hm | hm
    · obtain ⟨u, v, hu, read, hv⟩ := ReadFrom.of_mem_nodes n first m hm
      exact ⟨u, v, before.trans hu, read, hv.trans rest.reaches⟩
    · obtain ⟨u, v, hu, read, hv⟩ := AllReadFrom.of_mem_nodes ns rest m hm
      exact ⟨u, v, before.trans (first.reaches.trans hu), read, hv⟩

end

theorem ReadFrom.admits_of_mem_nodes {n : Node} {a b : Cursor} (h : ReadFrom n a b) :
    ∀ m ∈ n.nodes, m.kind.admits (m.children.map kind) = true := by
  intro m hm
  obtain ⟨x, y, -, read, -⟩ := h.of_mem_nodes n m hm
  exact read.admits

theorem ReadFrom.conforms {n : Node} {a b : Cursor} (h : ReadFrom n a b) : n.Conforms := by
  have value := h.value_eq
  unfold Kind.valueOf at value
  by_cases text : n.kind.hasText = true
  · have number : n.kind ≠ .number := by
      intro e
      rw [e] at text
      cases text
    rw [if_pos text] at value
    exact ⟨h.admits, by simp [text?, value, text], by simp [number?, value, number]⟩
  · rw [if_neg text] at value
    by_cases number : n.kind = .number
    · rw [if_pos number] at value
      exact ⟨h.admits, by simp [text?, value, text], by simp [number?, value, number]⟩
    · rw [if_neg number] at value
      exact ⟨h.admits, by simp [text?, value, text], by simp [number?, value, number]⟩

end Node

end PatternRules
