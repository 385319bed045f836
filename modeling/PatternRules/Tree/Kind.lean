/-!
The kinds of nodes in the tree of a document, and the tags that name them outside.
-/

namespace PatternRules

/-- What a node stands for. -/
inductive Kind where
  | root
  | versionStatement
  | versionLiteral
  | importStatement
  | importOptions
  | importFlag
  | resolverDefault
  | resolverScope
  | ruleDefinition
  | usesClause
  | resolverMethod
  | resolverArguments
  | resolverArgument
  | resolverOptions
  | resolverFlag
  | optionalTokens
  | alternation
  | concatenation
  | quantified
  | group
  | namedCapture
  | listMatch
  | filter
  | questionMark
  | exactRange
  | range
  | escape
  | anchor
  | dot
  | charClass
  | charRange
  | char
  | string
  | identifier
  | number
deriving DecidableEq, Inhabited

namespace Kind

/-- The tag of a kind. -/
def tag : Kind → String
  | root => "root"
  | versionStatement => "version_stmt"
  | versionLiteral => "version_literal"
  | importStatement => "import_stmt"
  | importOptions => "import_opts"
  | importFlag => "import_flag"
  | resolverDefault => "resolver_default"
  | resolverScope => "resolver_scope"
  | ruleDefinition => "rule_def"
  | usesClause => "uses_clause"
  | resolverMethod => "resolver_method"
  | resolverArguments => "resolver_arg_list"
  | resolverArgument => "resolver_arg"
  | resolverOptions => "resolver_with"
  | resolverFlag => "resolver_flag"
  | optionalTokens => "optional_tokens_clause"
  | alternation => "alt"
  | concatenation => "concat"
  | quantified => "quantified"
  | group => "group_expr"
  | namedCapture => "named_capture"
  | listMatch => "list_match"
  | filter => "filter_expr"
  | questionMark => "qmark"
  | exactRange => "exact_range"
  | range => "range"
  | escape => "escape"
  | anchor => "anchor"
  | dot => "dot"
  | charClass => "charclass"
  | charRange => "char_range"
  | char => "char"
  | string => "string"
  | identifier => "identifier"
  | number => "number"

/-- Every kind once. -/
def all : List Kind :=
  [root, versionStatement, versionLiteral, importStatement, importOptions, importFlag,
   resolverDefault, resolverScope, ruleDefinition, usesClause, resolverMethod, resolverArguments,
   resolverArgument, resolverOptions, resolverFlag, optionalTokens, alternation, concatenation,
   quantified, group, namedCapture, listMatch, filter, questionMark, exactRange, range, escape,
   anchor, dot, charClass, charRange, char, string, identifier, number]

/-- The kind with a given tag. -/
def ofTag? (tag : String) : Option Kind := all.find? (·.tag == tag)

theorem mem_all (k : Kind) : k ∈ all := by cases k <;> simp [all]

theorem ofTag?_tag (k : Kind) : ofTag? k.tag = some k := by cases k <;> decide

end Kind

end PatternRules
