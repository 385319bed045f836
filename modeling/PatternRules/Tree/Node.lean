import PatternRules.Source.Span
import PatternRules.Tree.Kind

/-!
The tree of a document. A node has a kind, perhaps a value, its children in source order and the
span of the text it was read from.
-/

namespace PatternRules

/-- What a node carries beside its children: a piece of text or a number. -/
inductive Value where
  | text (text : String)
  | number (number : Nat)
deriving DecidableEq, Inhabited

/-- The value as text. -/
def Value.render : Value → String
  | text s => s
  | number n => toString n

/-- The largest number a node carries. -/
def Value.maxNumber : Nat := 18446744073709551615

/-- A node of the tree. -/
structure Node where
  kind : Kind
  value : Option Value
  children : List Node
  span : Span
deriving Inhabited

namespace Node

/-- A node with neither value nor children. -/
def bare (kind : Kind) (span : Span) : Node := ⟨kind, none, [], span⟩

/-- A node with a text and no children. -/
def leaf (kind : Kind) (text : String) (span : Span) : Node := ⟨kind, some (.text text), [], span⟩

/-- A node with children and no value. -/
def branch (kind : Kind) (children : List Node) (span : Span) : Node := ⟨kind, none, children, span⟩

/-- A number. -/
def number (n : Nat) (span : Span) : Node := ⟨.number, some (.number n), [], span⟩

/-- The tree of a document of which nothing could be read. -/
def emptyRoot : Node := bare .root (.point ⟨1, 1⟩)

/-- The text of a node. -/
def text? (node : Node) : Option String :=
  match node.value with
  | some (.text s) => some s
  | _ => none

/-- The number of a node. -/
def number? (node : Node) : Option Nat :=
  match node.value with
  | some (.number n) => some n
  | _ => none

mutual

/-- The nodes of a tree, a parent before its children and children in order. -/
def nodes : Node → List Node
  | ⟨kind, value, children, span⟩ => ⟨kind, value, children, span⟩ :: nodesOf children

/-- The nodes of several trees, one tree after the other. -/
def nodesOf : List Node → List Node
  | [] => []
  | node :: rest => nodes node ++ nodesOf rest

end

/-- The number of nodes of a tree. -/
def size (root : Node) : Nat := root.nodes.length

mutual

/-- Whether two trees are the same. -/
def decEq : (a b : Node) → Decidable (a = b)
  | ⟨kind, value, children, span⟩, ⟨kind', value', children', span'⟩ =>
    match decEqList children children' with
    | isFalse h => isFalse fun e => h (congrArg Node.children e)
    | isTrue h =>
      if rest : kind = kind' ∧ value = value' ∧ span = span' then
        isTrue (by rw [h, rest.1, rest.2.1, rest.2.2])
      else
        isFalse fun e => rest (by cases e; exact ⟨rfl, rfl, rfl⟩)

/-- Whether two lists of trees are the same. -/
def decEqList : (as bs : List Node) → Decidable (as = bs)
  | [], [] => isTrue rfl
  | [], _ :: _ => isFalse (by simp)
  | _ :: _, [] => isFalse (by simp)
  | a :: as, b :: bs =>
    match decEq a b, decEqList as bs with
    | isTrue h, isTrue hs => isTrue (by rw [h, hs])
    | isFalse h, _ => isFalse fun e => h (List.cons.inj e).1
    | _, isFalse hs => isFalse fun e => hs (List.cons.inj e).2

end

instance : DecidableEq Node := decEq

end Node

end PatternRules
