import PatternRules.Grammar.Document

/-!
Abstract documents: what a document can say, without a text. `Document.render` writes one down, one
statement on a line, with one space between items and around `|` and `=`; `Document.outline` is the tree
it stands for, without spans.

Not everything that can be said can be written so that it is read again as it was meant. The word `uses`
ends an expression, a class that opens with a second bracket is a list match, a hyphen between two members
of a class makes a range of them. `Document.unambiguous` leaves these out.
-/

namespace PatternRules

/-! ## Trees without spans -/

/-- A tree without spans. -/
inductive Outline where
  | node (kind : Kind) (value : Option Value) (children : List Outline)

namespace Outline

def leaf (kind : Kind) (text : List Char) : Outline :=
  node kind (some (.text (String.ofList text))) []

def branch (kind : Kind) (children : List Outline) : Outline := node kind none children

def number (n : Nat) : Outline := node .number (some (.number n)) []

/-- One outline for one part, a branch above them for several. -/
def joined (kind : Kind) : List Outline → Outline
  | [part] => part
  | parts => branch kind parts

mutual

/-- Whether two outlines are the same. -/
def decEq : (a b : Outline) → Decidable (a = b)
  | node kind value children, node kind' value' children' =>
    match decEqList children children' with
    | isFalse h => isFalse fun e => h (node.inj e).2.2
    | isTrue h =>
      if rest : kind = kind' ∧ value = value' then
        isTrue (by rw [h, rest.1, rest.2])
      else
        isFalse fun e => rest ⟨(node.inj e).1, (node.inj e).2.1⟩

/-- Whether two lists of outlines are the same. -/
def decEqList : (as bs : List Outline) → Decidable (as = bs)
  | [], [] => isTrue rfl
  | [], _ :: _ => isFalse (by simp)
  | _ :: _, [] => isFalse (by simp)
  | a :: as, b :: bs =>
    match decEq a b, decEqList as bs with
    | isTrue h, isTrue hs => isTrue (by rw [h, hs])
    | isFalse h, _ => isFalse fun e => h (List.cons.inj e).1
    | _, isFalse hs => isFalse fun e => hs (List.cons.inj e).2

end

instance : DecidableEq Outline := decEq

end Outline

namespace Node

mutual

/-- A tree less its spans. -/
def outline : Node → Outline
  | ⟨kind, value, children, _⟩ => .node kind value (outlines children)

/-- Several trees less their spans. -/
def outlines : List Node → List Outline
  | [] => []
  | node :: rest => outline node :: outlines rest

end

@[simp]
theorem outlines_nil : outlines [] = [] := by rw [outlines]

@[simp]
theorem outlines_cons (n : Node) (ns : List Node) : outlines (n :: ns) = n.outline :: outlines ns := by
  rw [outlines]

theorem outlines_singleton {n : Node} {o : Outline} (h : n.outline = o) : outlines [n] = [o] := by
  rw [outlines_cons, outlines_nil, h]

theorem outlines_eq_map (ns : List Node) : outlines ns = ns.map outline := by
  induction ns with
  | nil => rw [outlines_nil, List.map_nil]
  | cons n ns ih => rw [outlines_cons, ih, List.map_cons]

@[simp]
theorem outlines_append (ns ms : List Node) : outlines (ns ++ ms) = outlines ns ++ outlines ms := by
  simp only [outlines_eq_map, List.map_append]

theorem outlines_flatten (nss : List (List Node)) :
    outlines nss.flatten = (nss.map outlines).flatten := by
  induction nss with
  | nil => exact outlines_nil
  | cons ns nss ih => rw [List.flatten_cons, outlines_append, ih, List.map_cons, List.flatten_cons]

@[simp]
theorem outline_mk (kind : Kind) (value : Option Value) (children : List Node) (span : Span) :
    outline ⟨kind, value, children, span⟩ = .node kind value (outlines children) := by
  rw [outline]

@[simp]
theorem outline_branch (kind : Kind) (children : List Node) (span : Span) :
    (branch kind children span).outline = .branch kind (outlines children) :=
  outline_mk kind none children span

theorem outline_leaf (kind : Kind) (text : List Char) (span : Span) :
    (leaf kind (String.ofList text) span).outline = .leaf kind text := by
  rw [leaf, outline_mk, outlines_nil, Outline.leaf]

theorem outline_number (n : Nat) (span : Span) : (number n span).outline = .number n := by
  rw [number, outline_mk, outlines_nil, Outline.number]

end Node

namespace Abstract

/-! ## Words, strings and numbers -/

/-- One or more things. -/
structure Series (α : Type) where
  first : α
  further : List α

namespace Series

variable {α : Type}

def toList (s : Series α) : List α := s.first :: s.further

/-- The things with a comma and a space between them. -/
def render (write : α → List Char) (s : Series α) : List Char :=
  write s.first ++ s.further.flatMap fun x => ',' :: ' ' :: write x

end Series

/-- Options behind the word `with`, if there are any. -/
def withOptions {α : Type} (write : α → List Char) (os : Option (Series α)) : List Char :=
  os.elim [] fun os => ' ' :: ("with".toList ++ ' ' :: os.render write)

/-- A letter or `_`, and more characters of words behind it. -/
structure Identifier where
  first : Char
  further : List Char
  first_start : isIdentStart first = true
  further_word : further.all isWordChar = true

namespace Identifier

def render (i : Identifier) : List Char := i.first :: i.further

def word (i : Identifier) : String := String.ofList i.render

def outline (i : Identifier) : Outline := .leaf .identifier i.render

end Identifier

/-- A character that a backslash may stand in front of: any but a line end. -/
abbrev Escaped := { c : Char // c ≠ '\n' ∧ c ≠ '\r' }

def Escaped.render (c : Escaped) : List Char := ['\\', c.1]

def Escaped.outline (c : Escaped) : Outline := .leaf .escape c.render

/-- A character of a string literal, with or without a backslash. -/
inductive StringPart where
  | plain (c : { c : Char // c ≠ '"' ∧ c ≠ '\\' ∧ c ≠ '\n' ∧ c ≠ '\r' })
  | escaped (c : Escaped)

def StringPart.render : StringPart → List Char
  | plain c => [c.1]
  | escaped c => c.render

/-- A string literal, less its quotes. -/
structure StringLiteral where
  parts : List StringPart

namespace StringLiteral

def render (s : StringLiteral) : List Char := '"' :: (s.parts.flatMap StringPart.render ++ ['"'])

def outline (s : StringLiteral) : Outline := .leaf .string s.render

end StringLiteral

/-- A number that a node can carry. -/
abbrev Number := { n : Nat // n ≤ Value.maxNumber }

def Number.render (n : Number) : List Char := Nat.toDigits 10 n.1

def Number.outline (n : Number) : Outline := .number n.1

/-! ## Expressions -/

/-- How often something occurs. -/
inductive Quantifier where
  | optional
  | exactly (n : Number)
  | atLeast (n : Number)
  | between (least most : Number)

namespace Quantifier

def render : Quantifier → List Char
  | optional => ['?']
  | exactly n => '{' :: (n.render ++ ['}'])
  | atLeast n => '{' :: (n.render ++ [',', '}'])
  | between least most => '{' :: (least.render ++ ',' :: (most.render ++ ['}']))

def outline : Quantifier → Outline
  | optional => .branch .questionMark []
  | exactly n => .branch .exactRange [n.outline]
  | atLeast n => .branch .range [n.outline]
  | between least most => .branch .range [least.outline, most.outline]

end Quantifier

/-- A character of a class, with or without a backslash. -/
inductive ClassChar where
  | plain (c : { c : Char // c ≠ ']' ∧ c ≠ '\\' ∧ c ≠ '\n' })
  | escaped (c : Escaped)

namespace ClassChar

def render : ClassChar → List Char
  | plain c => [c.1]
  | escaped c => c.render

def outline : ClassChar → Outline
  | plain c => .leaf .char [c.1]
  | escaped c => c.outline

end ClassChar

/-- A member of a class. -/
inductive ClassMember where
  | single (c : ClassChar)
  | range (low high : ClassChar)

namespace ClassMember

def render : ClassMember → List Char
  | single c => c.render
  | range low high => low.render ++ '-' :: high.render

def outline : ClassMember → Outline
  | single c => c.outline
  | range low high =>
    .node .charRange (some (.text (String.ofList (range low high).render)))
      [low.outline, high.outline]

end ClassMember

/-- The members of a class. -/
structure CharClass where
  members : List ClassMember

namespace CharClass

def inside (c : CharClass) : List Char := c.members.flatMap ClassMember.render

def render (c : CharClass) : List Char := '[' :: (c.inside ++ [']'])

def outline (c : CharClass) : Outline :=
  .node .charClass (some (.text (String.ofList c.render))) (c.members.map ClassMember.outline)

/-- Whether no single member is taken for the lower end of a range: a hyphen behind one is the last
member. -/
def hyphensApart : List ClassMember → Bool
  | [] => true
  | .range _ _ :: members => hyphensApart members
  | .single _ :: members =>
    let next := members.flatMap ClassMember.render
    (next.head? != some '-' || next == ['-']) && hyphensApart members

/-- Whether the class is read as it was meant: no hyphen makes a range by accident, and the class does
not open like a list match. -/
def unambiguous (c : CharClass) : Bool := hyphensApart c.members && c.inside.head? != some '['

end CharClass

/-- The filter of a list match. -/
structure Filter where
  name : Identifier
  argument : StringLiteral

namespace Filter

def render (f : Filter) : List Char := f.name.render ++ '(' :: (f.argument.render ++ [')'])

def outline (f : Filter) : Outline := .branch .filter [f.name.outline, f.argument.outline]

end Filter

/-- An anchor at either end of a line. -/
inductive Anchor where
  | lineStart
  | lineEnd

def Anchor.render : Anchor → List Char
  | lineStart => ['^']
  | lineEnd => ['$']

mutual

/-- What a quantifier applies to. -/
inductive Primary where
  | operand (name : Identifier)
  | string (s : StringLiteral)
  | escape (c : Escaped)
  | anchor (a : Anchor)
  | dot
  | charClass (c : CharClass)
  | listMatch (name : Identifier) (filter : Option Filter)
  | group (body : Expression)
  | capture (name : Identifier) (body : Expression)

/-- One or more primaries, each with perhaps a quantifier, one behind the other. -/
inductive Branch where
  | last (p : Primary) (q : Option Quantifier)
  | more (p : Primary) (q : Option Quantifier) (further : Branch)

/-- One or more branches to choose from. -/
inductive Expression where
  | last (b : Branch)
  | more (b : Branch) (further : Expression)

end

mutual

def Primary.render : Primary → List Char
  | .operand name => name.render
  | .string s => s.render
  | .escape c => c.render
  | .anchor a => a.render
  | .dot => ['.']
  | .charClass c => c.render
  | .listMatch name filter =>
    '[' :: '[' :: (name.render ++ (filter.elim [] (':' :: ·.render) ++ [']', ']']))
  | .group body => '(' :: (body.render ++ [')'])
  | .capture name body => '(' :: '?' :: 'P' :: '<' :: (name.render ++ '>' :: (body.render ++ [')']))

def Branch.render : Branch → List Char
  | .last p q => p.render ++ q.elim [] Quantifier.render
  | .more p q further => p.render ++ (q.elim [] Quantifier.render ++ ' ' :: further.render)

def Expression.render : Expression → List Char
  | .last b => b.render
  | .more b further => b.render ++ ' ' :: '|' :: ' ' :: further.render

end

/-- A primary with its quantifier, if it has one. -/
def quantifiedOutline (p : Outline) (q : Option Quantifier) : Outline :=
  q.elim p fun q => .branch .quantified [p, q.outline]

mutual

def Primary.outline : Primary → Outline
  | .operand name => name.outline
  | .string s => s.outline
  | .escape c => c.outline
  | .anchor a => .leaf .anchor a.render
  | .dot => .leaf .dot ['.']
  | .charClass c => c.outline
  | .listMatch name filter => .branch .listMatch (name.outline :: filter.toList.map Filter.outline)
  | .group body => .branch .group [.joined .alternation body.outlines]
  | .capture name body =>
    .branch .namedCapture [name.outline, .joined .alternation body.outlines]

/-- The outlines of the items. -/
def Branch.outlines : Branch → List Outline
  | .last p q => [quantifiedOutline p.outline q]
  | .more p q further => quantifiedOutline p.outline q :: further.outlines

/-- The outlines of the branches. -/
def Expression.outlines : Expression → List Outline
  | .last b => [.joined .concatenation b.outlines]
  | .more b further => .joined .concatenation b.outlines :: further.outlines

end

def Branch.outline (b : Branch) : Outline := .joined .concatenation b.outlines

def Expression.outline (e : Expression) : Outline := .joined .alternation e.outlines

mutual

/-- Whether the primary is read as it was meant. No operand is called `uses`, which ends an
expression. -/
def Primary.unambiguous : Primary → Bool
  | .operand name => name.word != "uses"
  | .charClass c => c.unambiguous
  | .group body => body.unambiguous
  | .capture _ body => body.unambiguous
  | _ => true

def Branch.unambiguous : Branch → Bool
  | .last p _ => p.unambiguous
  | .more p _ further => p.unambiguous && further.unambiguous

def Expression.unambiguous : Expression → Bool
  | .last b => b.unambiguous
  | .more b further => b.unambiguous && further.unambiguous

end

mutual

/-- How deep groups and captures nest. -/
def Primary.depth : Primary → Nat
  | .group body => body.depth + 1
  | .capture _ body => body.depth + 1
  | _ => 0

def Branch.depth : Branch → Nat
  | .last p _ => p.depth
  | .more p _ further => max p.depth further.depth

def Expression.depth : Expression → Nat
  | .last b => b.depth
  | .more b further => max b.depth further.depth

end

/-! ## Resolvers -/

/-- An argument of a method, perhaps with a name. -/
structure Argument where
  name : Option Identifier
  value : StringLiteral

namespace Argument

def render (a : Argument) : List Char :=
  a.name.elim [] (fun name => name.render ++ [' ', '=', ' ']) ++ a.value.render

def outline (a : Argument) : Outline :=
  .branch .resolverArgument (a.name.toList.map Identifier.outline ++ [a.value.outline])

end Argument

/-- A method, perhaps with arguments. -/
structure Method where
  name : Identifier
  arguments : Option (Series Argument)

namespace Method

def render (m : Method) : List Char :=
  m.name.render ++ m.arguments.elim [] fun args => '(' :: (args.render Argument.render ++ [')'])

def outline (m : Method) : Outline :=
  .branch .resolverMethod (m.name.outline ::
    m.arguments.toList.map fun args =>
      .branch .resolverArguments (args.toList.map Argument.outline))

end Method

/-- An option of a resolver: a word, or files of optional tokens. -/
inductive ResolverOption where
  | word (w : { w : String // w ∈ resolverFlags })
  | optionalTokens (files : Series StringLiteral)

namespace ResolverOption

def render : ResolverOption → List Char
  | word w => w.1.toList
  | optionalTokens files =>
    optionalTokensWord.toList ++ '(' :: (files.render StringLiteral.render ++ [')'])

def outline : ResolverOption → Outline
  | word w => .leaf .resolverFlag w.1.toList
  | optionalTokens files =>
    .node .resolverFlag (some (.text (String.ofList (optionalTokens files).render)))
      [.branch .optionalTokens (files.toList.map StringLiteral.outline)]

end ResolverOption

/-- A `uses` clause. It names a scope, a method or both. -/
structure UsesClause where
  scope : Option { w : String // w ∈ resolverScopes }
  method : Option Method
  options : Option (Series ResolverOption)
  resolves : scope.isSome ∨ method.isSome

namespace UsesClause

/-- What follows the word `uses`. -/
def inside (u : UsesClause) : List Char :=
  u.scope.elim [] (' ' :: ·.1.toList) ++ (u.method.elim [] (' ' :: ·.render) ++
    withOptions ResolverOption.render u.options)

def render (u : UsesClause) : List Char := "uses".toList ++ u.inside

def outline (u : UsesClause) : Outline :=
  .branch .usesClause
    (u.scope.toList.map (.leaf .resolverScope ·.1.toList) ++ u.method.toList.map Method.outline ++
      u.options.toList.map fun os =>
        .branch .resolverOptions (os.toList.map ResolverOption.outline))

/-- Whether the method is not taken for the word in front of the options, nor for a scope. -/
def unambiguous (u : UsesClause) : Bool :=
  u.method.all fun m => m.name.word != "with" &&
    (u.scope.isSome || decide (m.name.word ∉ resolverScopes))

end UsesClause

/-! ## Statements -/

/-- Digits, at least one. -/
abbrev Digits := { ds : List Char // ds ≠ [] ∧ ds.all Char.isDigit = true }

/-- A version: digits, and more digits behind single dots. -/
structure Version where
  first : Digits
  further : List Digits

namespace Version

def literal (v : Version) : List Char := v.first.1 ++ v.further.flatMap ('.' :: ·.1)

def render (v : Version) : List Char := "version".toList ++ ' ' :: v.literal

def outline (v : Version) : Outline := .branch .versionStatement [.leaf .versionLiteral v.literal]

end Version

/-- An import. -/
structure Import where
  path : StringLiteral
  name : Identifier
  options : Option (Series { w : String // w ∈ importFlags })

namespace Import

def render (i : Import) : List Char :=
  "import".toList ++ (' ' :: i.path.render ++ (' ' :: "as".toList ++
    (' ' :: i.name.render ++ withOptions (·.1.toList) i.options)))

def outline (i : Import) : Outline :=
  .branch .importStatement (i.path.outline :: i.name.outline ::
    i.options.toList.map fun flags =>
      .branch .importOptions (flags.toList.map (.leaf .importFlag ·.1.toList)))

end Import

/-- A rule. -/
structure Rule where
  name : Identifier
  body : Expression
  clause : Option UsesClause

namespace Rule

def render (r : Rule) : List Char :=
  r.name.render ++ ([' ', '='] ++ (' ' :: r.body.render ++ r.clause.elim [] (' ' :: ·.render)))

def outline (r : Rule) : Outline :=
  .branch .ruleDefinition
    (r.name.outline :: r.body.outline :: r.clause.toList.map UsesClause.outline)

/-- Whether body and clause are read as they were meant, and the body nests no deeper than is read. -/
def unambiguous (r : Rule) : Bool :=
  r.body.unambiguous && decide (r.body.depth < Limits.standard.depth) &&
    r.clause.all UsesClause.unambiguous

end Rule

/-- A document. -/
structure Document where
  version : Option Version
  imports : List Import
  resolver : Option UsesClause
  rules : List Rule

/-- What the default resolver starts with. -/
def defaultWords : List Char := "resolver".toList ++ ' ' :: "default".toList

/-- A statement on its line. -/
def line (statement : List Char) : List Char := statement ++ ['\n']

/-- Whether no rule called `with` comes right behind a statement that could go on with options. -/
def withApart : Bool → List Rule → Bool
  | _, [] => true
  | optional, r :: rules =>
    !(optional && r.name.word == "with") && withApart (r.clause.any (·.options.isNone)) rules

namespace Document

def render (d : Document) : List Char :=
  d.version.elim [] (line ·.render) ++ (d.imports.flatMap (line ·.render) ++
    (d.resolver.elim [] (line <| defaultWords ++ ' ' :: ·.render) ++
      d.rules.flatMap (line ·.render)))

def text (d : Document) : String := String.ofList d.render

def outline (d : Document) : Outline :=
  .branch .root (d.version.toList.map Version.outline ++ d.imports.map Import.outline ++
    d.resolver.toList.map (fun u => .branch .resolverDefault [u.outline]) ++
    d.rules.map Rule.outline)

/-- Whether the last statement in front of the rules could go on with options. -/
def rulesBehindOption (d : Document) : Bool :=
  d.resolver.elim (d.imports.getLast?.any (·.options.isNone)) (·.options.isNone)

/-- Whether every part is read as it was meant. -/
def unambiguous (d : Document) : Bool :=
  d.resolver.all UsesClause.unambiguous && d.rules.all Rule.unambiguous &&
    withApart d.rulesBehindOption d.rules

end Document

end Abstract

end PatternRules
