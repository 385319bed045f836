import PatternRules.Proofs.Accepts.Document
import PatternRules.Proofs.Reads.Document

/-!
What is written is read again: the text of an unambiguous document is read to its end without
complaint, and the tree that comes out is the one the document stands for.
-/

namespace PatternRules.Abstract

/-- The text of a document is read to its end, without complaint, and as what the document says. -/
structure Document.ReadsBack (d : Document) : Prop where
  errors : (readDocument d.text).errors = []
  rest : (readWithin .standard d.text.toList).2.cursor.rest = []
  outline : (readDocument d.text).tree.outline = d.outline

instance (d : Document) : Decidable d.ReadsBack :=
  decidable_of_iff
    ((readDocument d.text).errors = [] ∧ (readWithin .standard d.text.toList).2.cursor.rest = [] ∧
      (readDocument d.text).tree.outline = d.outline)
    ⟨fun h => ⟨h.1, h.2.1, h.2.2⟩, fun h => ⟨h.errors, h.rest, h.outline⟩⟩

/-- Reading the rendering of a document from the start. -/
theorem readWithin_render (d : Document) (h : d.unambiguous = true) :
    (readWithin .standard d.render).1.outline = d.outline ∧
      (readWithin .standard d.render).2 =
        (⟨.ofChars d.render, [], false⟩ : ParseState).past d.render.length := by
  have room : ([] : List SyntaxError).length < Limits.standard.errors := by decide
  have accepted := Parse.document_accepts d h rfl ⟨.ofChars d.render, [], false⟩
    (List.append_nil _).symm room
  exact ⟨accepted.2, accepted.1⟩

/-- **Printing and then reading is the identity**, spans aside, on unambiguous documents. -/
theorem readsBack_of_unambiguous (d : Document) (h : d.unambiguous = true) : d.ReadsBack := by
  have text : d.text.toList = d.render := String.toList_ofList
  obtain ⟨tree, state⟩ := readWithin_render d h
  constructor
  · rw [errors_readDocument, text, state]
    rfl
  · rw [text, state]
    exact ParseState.rest_past (List.append_nil _).symm
  · rw [tree_readDocument, text, tree]

/-- A document with one statement of each form. -/
def sample : Document where
  version := some ⟨⟨['1'], by decide⟩, [⟨['2', '0'], by decide⟩]⟩
  imports := [⟨⟨[.plain ⟨'c', by decide⟩]⟩, ⟨'c', "ities".toList, rfl, rfl⟩,
    some ⟨⟨"word-boundary", by decide⟩, [⟨"ignore-case", by decide⟩]⟩⟩]
  resolver := some ⟨some ⟨"local", by decide⟩, none, none, by decide⟩
  rules := [
    ⟨⟨'u', "ses".toList, rfl, rfl⟩,
      .more (.more (.capture ⟨'n', [], rfl, rfl⟩ (.last (.last (.listMatch ⟨'c', "ities".toList, rfl, rfl⟩
          (some ⟨⟨'f', [], rfl, rfl⟩, ⟨[.escaped ⟨'"', by decide⟩]⟩⟩)) none))) (some .optional)
        (.last (.charClass ⟨[.range (.plain ⟨'a', by decide⟩) (.plain ⟨'z', by decide⟩),
          .single (.escaped ⟨'d', by decide⟩), .single (.plain ⟨'-', by decide⟩)]⟩)
          (some (.between ⟨1, by decide⟩ ⟨12, by decide⟩))))
        (.last (.last (.group (.last (.more (.anchor .lineStart) none (.last .dot none))))
          (some (.atLeast ⟨2, by decide⟩)))),
      some ⟨none, some ⟨⟨'m', [], rfl, rfl⟩, some ⟨⟨some ⟨'k', [], rfl, rfl⟩, ⟨[]⟩⟩, [⟨none, ⟨[]⟩⟩]⟩⟩,
        some ⟨.word ⟨"ignore-case", by decide⟩, [.optionalTokens ⟨⟨[]⟩, []⟩]⟩, by decide⟩⟩,
    ⟨⟨'w', "ith".toList, rfl, rfl⟩, .last (.last (.operand ⟨'a', [], rfl, rfl⟩)
      (some (.exactly ⟨3, by decide⟩))), none⟩]

theorem readsBack_sample :
    sample.text =
        "version 1.20\n" ++
        "import \"c\" as cities with word-boundary, ignore-case\n" ++
        "resolver default uses local\n" ++
        "uses = (?P<n>[[cities:f(\"\\\"\")]])? [a-z\\d-]\x7b1,12\x7d | (^ .)\x7b2,\x7d" ++
        " uses m(k = \"\", \"\") with ignore-case, optional-tokens(\"\")\n" ++
        "with = a\x7b3\x7d\n" ∧
      sample.unambiguous = true ∧ sample.ReadsBack :=
  ⟨by decide +kernel, by decide, readsBack_of_unambiguous sample (by decide)⟩

/-! ## What is not read again -/

/-- One rule with nothing but a primary for its body. -/
def ofPrimary (p : Primary) (clause : Option UsesClause) : Document where
  version := none
  imports := []
  resolver := none
  rules := [⟨⟨'r', [], rfl, rfl⟩, .last (.last p none), clause⟩]

/-- A class of single members. -/
def ofChars (members : List ClassChar) : Primary := .charClass ⟨members.map .single⟩

/-- A clause that names a method and nothing else. -/
def ofMethod (name : Identifier) : UsesClause := ⟨none, some ⟨name, none⟩, none, .inr rfl⟩

/-- A dot inside so many groups. -/
def nested : Nat → Primary
  | 0 => .dot
  | n + 1 => .group (.last (.last (nested n) none))

/-- **Not every document reads back.** The word `uses` ends the expression it is meant to be an operand
of, a second bracket opens a list match, a hyphen between two characters makes a range, the words `with`
and `local` are no names of methods, and groups nest only so deep. -/
theorem not_all_readBack :
    ¬ (ofPrimary (.operand ⟨'u', "ses".toList, rfl, rfl⟩) none).ReadsBack ∧
      ¬ (ofPrimary (ofChars [.plain ⟨'[', by decide⟩]) none).ReadsBack ∧
      ¬ (ofPrimary (ofChars [.plain ⟨'a', by decide⟩, .plain ⟨'-', by decide⟩,
        .plain ⟨'z', by decide⟩]) none).ReadsBack ∧
      ¬ (ofPrimary .dot (some (ofMethod ⟨'w', "ith".toList, rfl, rfl⟩))).ReadsBack ∧
      ¬ (ofPrimary .dot (some (ofMethod ⟨'l', "ocal".toList, rfl, rfl⟩))).ReadsBack ∧
      ¬ (ofPrimary (nested 65) none).ReadsBack := by
  decide +kernel

end PatternRules.Abstract
