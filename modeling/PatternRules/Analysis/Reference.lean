import PatternRules.Config
import PatternRules.Diagnostic

/-!
References to rules. A rule defines its name and an import its alias, wherever they stand at the top
level of a document; built-in names are always defined. An identifier is a reference unless it names
the construct it belongs to: a rule, an import, a capture, an argument or a filter.
-/

namespace PatternRules

/-- The child that names what a statement defines. -/
def definingChild? (statement : Node) : Option Node :=
  match statement.kind with
  | .ruleDefinition => statement.children[0]?
  | .importStatement => statement.children[1]?
  | _ => none

/-- The name a statement defines. -/
def definedName? (statement : Node) : Option String := do
  let name ← definingChild? statement
  if name.kind = .identifier then name.text? else none

/-- The names defined at the top level of a document, in order, repetitions included. -/
def definedNames (root : Node) : List String := root.children.filterMap definedName?

/-- Whether an identifier below a node of the given kind is a reference. -/
def isReferencePlace (parent : Kind) (isFirst : Bool) : Bool :=
  match parent with
  | .ruleDefinition | .namedCapture => !isFirst
  | .importStatement | .resolverArgument | .filter => false
  | _ => true

mutual

/-- The references below a node, in pre-order. -/
def referencesBelow : Node → List Node
  | ⟨kind, _, children, _⟩ => referencesAmong kind true children

/-- The references among the children of a node and below them. -/
def referencesAmong (parent : Kind) (isFirst : Bool) : List Node → List Node
  | [] => []
  | node :: rest =>
    (if node.kind = .identifier ∧ isReferencePlace parent isFirst then [node] else []) ++
      referencesBelow node ++ referencesAmong parent false rest

end

/-- The diagnostic for a reference to a name that nothing defines. -/
def undefinedReference? (defined : List String) (config : Config) (node : Node) :
    Option Diagnostic := do
  let name ← node.text?
  if defined.contains name || config.isBuiltin name then
    none
  else
    return .error .undefinedReference ("Undefined rule reference: " ++ name) node.span

/-- A diagnostic for every reference to a name that is neither defined nor built in. -/
def undefinedReferences (config : Config) (root : Node) : List Diagnostic :=
  (referencesBelow root).filterMap (undefinedReference? (definedNames root) config)

end PatternRules
