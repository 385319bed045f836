import PatternRules.Tree.Node

/-!
Questions about a tree: which node stands at a position, which nodes lead to it, which nodes have a
kind. A node is looked for below its parent first, and the span of a parent does not narrow the
search, because a node that continues on a later line is only spanned on its first.
-/

namespace PatternRules.Node

mutual

/-- The first node, children before parents, whose span contains the position. -/
def findAt (p : Position) : Node → Except Span.Fault (Option Node)
  | ⟨kind, value, children, span⟩ => do
    match ← findAmong p children with
    | some found => return some found
    | none => return if ← span.contains p then some ⟨kind, value, children, span⟩ else none

/-- The first node of several trees whose span contains the position. -/
def findAmong (p : Position) : List Node → Except Span.Fault (Option Node)
  | [] => return none
  | node :: rest => do
    match ← findAt p node with
    | some found => return some found
    | none => findAmong p rest

end

mutual

/-- The nodes from the root down to the one at the position; none if no span contains it. -/
def pathTo (p : Position) : Node → Except Span.Fault (List Node)
  | ⟨kind, value, children, span⟩ => do
    match ← pathAmong p children with
    | [] => return if ← span.contains p then [⟨kind, value, children, span⟩] else []
    | path => return ⟨kind, value, children, span⟩ :: path

/-- The path into the first of several trees that has a node at the position. -/
def pathAmong (p : Position) : List Node → Except Span.Fault (List Node)
  | [] => return []
  | node :: rest => do
    match ← pathTo p node with
    | [] => pathAmong p rest
    | path => return path

end

/-- Whether the node at the position or one above it has a kind. -/
def hasKindOnPath (p : Position) (kind : Kind) (root : Node) : Except Span.Fault Bool := do
  return (← root.pathTo p).any (·.kind == kind)

/-- The nodes of a kind, in pre-order. -/
def nodesOfKind (kind : Kind) (root : Node) : List Node := root.nodes.filter (·.kind == kind)

mutual

/-- The nodes of a tree in pre-order, each with its ancestors, outermost first. -/
def walkBelow (ancestors : List Node) : Node → List (Node × List Node)
  | ⟨kind, value, children, span⟩ =>
    (⟨kind, value, children, span⟩, ancestors) ::
      walkAmong (ancestors ++ [⟨kind, value, children, span⟩]) children

/-- The nodes of several trees with the same ancestors. -/
def walkAmong (ancestors : List Node) : List Node → List (Node × List Node)
  | [] => []
  | node :: rest => walkBelow ancestors node ++ walkAmong ancestors rest

end

/-- The nodes of a tree in pre-order, each with its ancestors. -/
def walk (root : Node) : List (Node × List Node) := root.walkBelow []

end PatternRules.Node
