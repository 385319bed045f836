/-!
What can be wrong in a document, and how it is said.
-/

namespace PatternRules

/-- A way in which a document leaves the grammar. -/
inductive Complaint where
  | versionNumberMissing
  | importPathMissing
  | asMissing
  | aliasMissing
  | importFlagMissing
  | importFlagUnknown (word : String)
  | usesMissing
  | equalsMissing (rule : String)
  | ruleBodyMissing (rule : String)
  | methodMissing
  | argumentMissing
  | argumentsUnclosed
  | argumentEqualsMissing
  | argumentValueMissing
  | resolverFlagMissing
  | resolverFlagUnknown (word : String)
  | tokensOpenMissing
  | tokensFileMissing
  | tokensUnclosed
  | branchMissing
  | quantifierNumberMissing
  | quantifierUnclosed
  | groupBodyMissing
  | parenthesisUnclosed
  | captureNameMissing
  | captureNameUnclosed
  | captureBodyMissing
  | listNameMissing
  | listUnclosed
  | filterNameMissing
  | filterOpenMissing
  | filterArgumentMissing
  | filterUnclosed
  | escapeIncomplete
  | classUnclosed
  | stringUnterminated
  | numberTooLarge (digits : String)
  | nestingTooDeep (limit : Nat)
deriving DecidableEq

/-- The text of a complaint. -/
def Complaint.message : Complaint → String
  | versionNumberMissing => "Expected version number after 'version'"
  | importPathMissing => "Expected file path string after 'import'"
  | asMissing => "Expected 'as' after import path"
  | aliasMissing => "Expected alias name after 'as'"
  | importFlagMissing => "Expected import flag after 'with'"
  | importFlagUnknown word => "Unknown import flag '" ++ word ++ "'"
  | usesMissing => "Expected 'uses' after 'resolver default'"
  | equalsMissing rule => "Expected '=' after rule name '" ++ rule ++ "'"
  | ruleBodyMissing rule => "Expected expression after '=' in rule '" ++ rule ++ "'"
  | methodMissing => "Expected resolver method name after 'uses'"
  | argumentMissing => "Expected resolver argument"
  | argumentsUnclosed => "Expected ')' to close resolver arguments"
  | argumentEqualsMissing => "Expected '=' after resolver argument name"
  | argumentValueMissing => "Expected string value for resolver argument"
  | resolverFlagMissing => "Expected resolver flag after 'with'"
  | resolverFlagUnknown word => "Unknown resolver flag '" ++ word ++ "'"
  | tokensOpenMissing => "Expected '(' after 'optional-tokens'"
  | tokensFileMissing => "Expected file name string in 'optional-tokens'"
  | tokensUnclosed => "Expected ')' to close 'optional-tokens'"
  | branchMissing => "Expected expression after '|'"
  | quantifierNumberMissing => "Expected number in quantifier"
  | quantifierUnclosed => "Expected '\x7d' to close quantifier"
  | groupBodyMissing => "Expected expression after '('"
  | parenthesisUnclosed => "Expected closing parenthesis"
  | captureNameMissing => "Expected capture name after '(?P<'"
  | captureNameUnclosed => "Expected '>' after capture name"
  | captureBodyMissing => "Expected expression inside named capture"
  | listNameMissing => "Expected list name after '[['"
  | listUnclosed => "Expected ']]' to close list match"
  | filterNameMissing => "Expected filter name after ':'"
  | filterOpenMissing => "Expected '(' after filter name"
  | filterArgumentMissing => "Expected string argument for filter"
  | filterUnclosed => "Expected ')' to close filter"
  | escapeIncomplete => "Incomplete escape sequence"
  | classUnclosed => "Expected ']' to close character class"
  | stringUnterminated => "Unterminated string literal"
  | numberTooLarge digits => "Number '" ++ digits ++ "' is too large"
  | nestingTooDeep limit =>
    "Expression nesting too deep (maximum depth is " ++ toString limit ++ ")"

end PatternRules
