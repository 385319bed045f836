import PatternRules.Proofs.Mentions
import PatternRules.Proofs.Progress
import PatternRules.Proofs.Settles
import PatternRules.Proofs.Yields

/-!
What character classes are made of. Between the brackets of a class its members stand one behind the other, with
nothing left out and nothing read twice (`Node.Member`), whether they are single characters, escapes or ranges.
A class that is not closed ends in front of the newline, or at the end of the text.

* `classChar_member`, `classItem_member`: one member;
* `Repeats.members`: the members of a class, by induction on the rounds in which they are read;
* `charClass_spelled`: a class;
* `classes_tiled`: every class of a document, every range and every character in it.
-/

namespace PatternRules

/-! ## Text between two places -/

namespace Cursor

variable {c d e : Cursor} {text more : List Char}

/-- Between two places a text is read. -/
structure Spells (c d : Cursor) (text : List Char) : Prop where
  rest : c.rest = text ++ d.rest
  behind : d = c.advanceBy text.length

namespace Spells

theorem nil (c : Cursor) : c.Spells c [] := ⟨rfl, rfl⟩

theorem trans (h : c.Spells d text) (h' : d.Spells e more) : c.Spells e (text ++ more) := by
  constructor
  · rw [h.rest, h'.rest, List.append_assoc]
  · rw [h'.behind, h.behind, List.length_append, advanceBy_add]

theorem single {x : Char} (here : c.peek = some x) : c.Spells c.advance [x] := by
  obtain ⟨rest, hrest⟩ := List.head?_eq_some_iff.1 here
  constructor
  · rw [rest_advance, hrest]
    rfl
  · rfl

theorem reaches (h : c.Spells d text) : c.Reaches d := ⟨_, h.behind⟩

theorem textSince (h : c.Spells d text) : d.textSince c = text := by
  rw [h.behind, Parse.textSince_advanceBy, h.rest, List.take_left]

end Spells

end Cursor

/-! ## Classes and what is in them -/

namespace Node

/-- A character of a class is the character at its place, and it is none that has a meaning in a class. -/
def IsSingle (n : Node) (c : Cursor) : Prop :=
  ∃ x, c.peek = some x ∧ n.text? = some (String.ofList [x]) ∧ x ≠ ']' ∧ x ≠ '\n' ∧ x ≠ '\\'

/-- The text of a range is that of its two ends, with a hyphen in between. -/
def IsRange (n : Node) : Prop :=
  ∃ low high : Node, ∃ first last : List Char, n.children = [low, high] ∧
    low.text? = some (String.ofList first) ∧ high.text? = some (String.ofList last) ∧
    n.text? = some (String.ofList (first ++ '-' :: last))

/-- A class at `c`: a bracket and the texts of its members come next, and then either the closing bracket, which
belongs to the class, or the end of the line or of the text, which does not. -/
def IsClass (n : Node) (c : Cursor) : Prop :=
  ∃ (members : List (List Char)) (tail : List Char),
    n.children.map text? = members.map (fun text => some (String.ofList text)) ∧
    c.rest = '[' :: (members.flatten ++ tail) ∧
    (tail.head? = some ']' ∧ n.text? = some (String.ofList ('[' :: (members.flatten ++ [']']))) ∨
      (tail.head? = none ∨ tail.head? = some '\n') ∧ n.text? = some (String.ofList ('[' :: members.flatten)))

/-- A class, a range or a character of a class starts at `c` and is written there. -/
structure SpelledAt (n : Node) (c : Cursor) : Prop where
  start_eq : n.span.start = c.position
  charClass : n.kind = .charClass → n.IsClass c
  charRange : n.kind = .charRange → n.IsRange
  char : n.kind = .char → n.IsSingle c

/-- A node was read with all of the text between two places, and what stands below it is spelled where it
starts. -/
structure Member (n : Node) (c d : Cursor) (text : List Char) : Prop where
  spells : c.Spells d text
  text_eq : n.text? = some (String.ofList text)
  spelled : ∀ m ∈ n.nodes, ∃ e, c.Reaches e ∧ m.SpelledAt e

/-- A node with a text, above what was read of it. -/
theorem Member.textNode {kind : Kind} {children : List Node} {c d : Cursor} {text : List Char}
    (spells : c.Spells d text)
    (self : SpelledAt ⟨kind, some (.text (String.ofList text)), children, d.spanFrom c.mark⟩ c)
    (below : ∀ m ∈ nodesOf children, ∃ e, c.Reaches e ∧ m.SpelledAt e) :
    Member ⟨kind, some (.text (String.ofList text)), children, d.spanFrom c.mark⟩ c d text := by
  refine ⟨spells, rfl, ?_⟩
  rw [nodes, List.forall_mem_cons]
  exact ⟨⟨c, .refl c, self⟩, below⟩

end Node

namespace Parse

open Node (Member nodesOf)

variable {limits : Limits} {s t : ParseState}

theorem escape_member (here : s.cursor.peek = some '\\') :
    Ensures limits s escape fun n t => ∃ text, Member n s.cursor t.cursor text := by
  have slash := Cursor.Spells.single here
  have node {d : Cursor} {text : List Char} (spells : s.cursor.Spells d text) :
      Member ⟨.escape, some (.text (String.ofList text)), [], d.spanFrom s.cursor.mark⟩ s.cursor d text := by
    refine .textNode spells ⟨rfl, ?_, ?_, ?_⟩ (List.forall_mem_nil _)
    all_goals
      intro other
      cases other
  have incomplete : Ensures limits { s with cursor := s.cursor.advance }
      (do report .escapeIncomplete (← spanFrom s.cursor); textNodeFrom .escape s.cursor [])
      fun n t => ∃ text, Member n s.cursor t.cursor text := by
    simp only [ensures_bind, ensures_spanFrom]
    refine (report_keeps _ _ limits _).mono ?_
    intro _ t same
    rw [ensures_textNodeFrom, same, slash.textSince]
    exact ⟨_, node slash⟩
  simp only [escape, ensures_bind, ensures_cursor, ensures_move, ensures_peek]
  split
  · exact incomplete
  · next x next =>
    split
    · exact incomplete
    · have both := slash.trans (.single next)
      simp only [ensures_bind, ensures_move, ensures_textNodeFrom]
      rw [both.textSince]
      exact ⟨_, node both⟩

theorem classChar_member {x : Char} (here : s.cursor.peek = some x) (opened : x ≠ ']') (inLine : x ≠ '\n') :
    Ensures limits s classChar fun n t => ∃ text, Member n s.cursor t.cursor text := by
  rw [ensures_classChar here]
  split
  · next slash => exact escape_member (slash ▸ here)
  · next noSlash =>
    have read := Cursor.Spells.single here
    have single : (s.cursor.advanceBy 1).textSince s.cursor = [x] := read.textSince
    rw [takeLeaf, ensures_bind, ensures_cursor, ensures_bind, ensures_move, ensures_textNodeFrom, single]
    refine ⟨_, .textNode read ⟨rfl, ?_, ?_, ?_⟩ (List.forall_mem_nil _)⟩
    · intro other
      cases other
    · intro other
      cases other
    · intro _
      exact ⟨x, here, rfl, opened, inLine, noSlash⟩

theorem classItem_member {x : Char} (here : s.cursor.peek = some x) (opened : x ≠ ']') (inLine : x ≠ '\n') :
    Ensures limits s classItem fun n t => ∃ text, Member n s.cursor t.cursor text := by
  rw [classItem, ensures_bind, ensures_cursor]
  refine (classChar_member here opened inLine).bind ?_
  rintro low t ⟨first, hlow⟩
  simp only [atRangeHyphen, ensures_bind, ensures_cursor, ensures_pure]
  split
  · next range =>
    obtain ⟨hyphen, y, there, opened, inLine⟩ := range_of_hyphen range
    have behind := Cursor.Spells.single hyphen
    rw [ensures_bind, ensures_move]
    refine (classChar_member there opened inLine).bind ?_
    rintro high u ⟨last, hhigh⟩
    have spells := (hlow.spells.trans behind).trans hhigh.spells
    rw [List.append_assoc, List.singleton_append] at spells
    rw [ensures_textNodeFrom, spells.textSince]
    refine ⟨_, .textNode spells ⟨rfl, ?_, ?_, ?_⟩ ?_⟩
    · intro other
      cases other
    · exact fun _ => ⟨low, high, first, last, rfl, hlow.text_eq, hhigh.text_eq, rfl⟩
    · intro other
      cases other
    · rw [nodesOf, nodesOf, nodesOf, List.append_nil, List.forall_mem_append]
      refine ⟨hlow.spelled, fun m mem => ?_⟩
      obtain ⟨e, reaches, spelled⟩ := hhigh.spelled m mem
      exact ⟨e, (hlow.spells.trans behind).reaches.trans reaches, spelled⟩
  · exact ⟨first, hlow⟩

/-- A class ends behind its closing bracket, or in front of what comes in its place. -/
def ClassEnds (c d : Cursor) : Prop :=
  c.peek = some ']' ∧ d = c.advance ∨ (c.peek = none ∨ c.peek = some '\n') ∧ d = c

/-- A class goes on with a member, or it ends. -/
def NextMember (c : Cursor) : Option Node → Cursor → Prop
  | none, d => ClassEnds c d
  | some n, d => ∃ text, Member n c d text

theorem nextClassItem_member (limits : Limits) (s : ParseState) :
    Ensures limits s nextClassItem fun r t => NextMember s.cursor r t.cursor := by
  have unclosed (next : s.cursor.peek = none ∨ s.cursor.peek = some '\n') :
      Ensures limits s (do reportHere .classUnclosed; return (none : Option Node)) fun r t =>
        NextMember s.cursor r t.cursor :=
    (reportHere_keeps _ limits s).bind fun _ _ same => .inr ⟨next, same⟩
  rw [nextClassItem, ensures_bind, ensures_peek]
  split
  · next nothing => exact unclosed (.inl nothing)
  · next x here =>
    split
    · next newline => exact unclosed (.inr (newline ▸ here))
    · next inLine =>
      split
      · next closing => exact .inl ⟨closing ▸ here, rfl⟩
      · next opened => exact (classItem_member here opened inLine).bind fun _ _ member => member

/-- **The members of a class stand one behind the other.** By induction on the rounds in which they are read. -/
theorem Repeats.members {items : List Node} (h : Repeats limits nextClassItem s items t) :
    ∃ (members : List (List Char)) (d : Cursor), s.cursor.Spells d members.flatten ∧
      items.map Node.text? = members.map (fun text => some (String.ofList text)) ∧ ClassEnds d t.cursor ∧
      ∀ m ∈ nodesOf items, ∃ e, s.cursor.Reaches e ∧ m.SpelledAt e := by
  induction h with
  | stops nothing =>
    obtain ⟨⟨none, same⟩, ends⟩ := nothing.and (nextClassItem_member limits _)
    rw [none, same] at ends
    exact ⟨[], _, .nil _, rfl, ends, List.forall_mem_nil _⟩
  | goesOn finds further ih =>
    obtain ⟨⟨found, same⟩, next⟩ := finds.and (nextClassItem_member limits _)
    rw [found, same] at next
    obtain ⟨text, member⟩ := next
    obtain ⟨members, d, spells, texts, ends, spelled⟩ := ih
    refine ⟨text :: members, d, member.spells.trans spells, ?_, ends, ?_⟩
    · rw [List.map_cons, List.map_cons, member.text_eq, texts]
    · rw [nodesOf, List.forall_mem_append]
      refine ⟨member.spelled, fun m mem => ?_⟩
      obtain ⟨e, reaches, spelled⟩ := spelled m mem
      exact ⟨e, member.spells.reaches.trans reaches, spelled⟩

/-- **A class is its members between brackets.** -/
theorem charClass_spelled (here : s.cursor.peek = some '[') : Ensures limits s charClass fun n _ =>
    ∀ m ∈ n.nodes, ∃ e, s.cursor.Reaches e ∧ m.SpelledAt e := by
  have bracket := Cursor.Spells.single here
  simp only [charClass, ensures_bind, ensures_cursor, ensures_move]
  refine (many_repeats nextClassItem_consumes limits _).mono ?_
  rintro items t ⟨rounds, -⟩
  obtain ⟨members, d, spells, texts, ends, spelled⟩ := rounds.members
  have inside := bracket.trans spells
  -- What has been read of the class, and what that has to do with what comes next.
  have node {text : List Char} (read : s.cursor.Spells t.cursor text)
      (closes : d.peek = some ']' ∧ text = '[' :: (members.flatten ++ [']']) ∨
        (d.peek = none ∨ d.peek = some '\n') ∧ text = '[' :: members.flatten) :
      Member ⟨.charClass, some (.text (String.ofList text)), items, t.cursor.spanFrom s.cursor.mark⟩
        s.cursor t.cursor text := by
    refine .textNode read ⟨rfl, fun _ => ⟨members, d.rest, texts, inside.rest, ?_⟩, ?_, ?_⟩ fun m mem => ?_
    · rcases closes with ⟨closing, rfl⟩ | ⟨missing, rfl⟩
      · exact .inl ⟨closing, rfl⟩
      · exact .inr ⟨missing, rfl⟩
    · intro other
      cases other
    · intro other
      cases other
    · obtain ⟨e, reaches, spelled⟩ := spelled m mem
      exact ⟨e, bracket.reaches.trans reaches, spelled⟩
  rw [ensures_textNodeFrom]
  rcases ends with ⟨closing, stop⟩ | ⟨missing, stop⟩
  · have read := inside.trans (.single closing)
    rw [← stop] at read
    rw [read.textSince]
    exact (node read (.inl ⟨closing, rfl⟩)).spelled
  · rw [← stop] at inside
    rw [inside.textSince]
    exact (node inside (.inr ⟨missing, rfl⟩)).spelled

end Parse

/-! ## Wherever a class stands -/

/-- Every class below a node is spelled out in the text, and so is what stands in it. -/
def Node.SpellsClasses (text : List Char) (n : Node) : Prop :=
  ∀ m ∈ n.nodes, m.kind.isOfClass = true → ∃ c, (Cursor.ofChars text).Reaches c ∧ m.SpelledAt c

theorem Node.ReadFrom.spellsClasses {n : Node} {a b : Cursor} (h : n.ReadFrom a b)
    (classless : n.kind.isClassless = true) (text : List Char) : n.SpellsClasses text := by
  intro m mem ofClass
  have outside := kind_of_mem_nodes (fun _ => Kind.isClassless_parts) n h.admits_of_mem_nodes classless m mem
  rw [Kind.isClassless, ofClass, Bool.not_true, Bool.and_false] at outside
  cases outside

namespace Parse

/-- What an atom gives is spelled out, if it is a class or stands in one. -/
theorem atom_spelled (text : List Char) : Yields text (Node.SpellsClasses text) atom := by
  have outside {α : Type} [HasNodes α] {k : Kind} {p : Parse α} (h : Reads (Each (· == k)) p)
      (classless : k.isClassless = true) : Yields text (Node.SpellsClasses text) p := by
    refine .of_reads h (P := (·.isClassless = true)) ?_ fun n a b _ read kind => read.spellsClasses kind text
    intro ks all k' mem
    exact eq_of_beq (List.all_eq_true.1 all k' mem) ▸ classless
  intro limits s reached
  simp only [atom, ensures_bind, ensures_peek]
  split
  · exact Yields.nothing limits s reached
  · next c here =>
    split
    · exact (outside escape_reads rfl).asSome limits s reached
    · split
      · exact (outside (takeLeaf_reads rfl rfl 1) rfl).asSome limits s reached
      · split
        · exact (outside (takeLeaf_reads rfl rfl 1) rfl).asSome limits s reached
        · split
          · next opening =>
            refine ((charClass_reads.moves limits s).and (charClass_spelled (opening ▸ here))).bind ?_
            rintro n t ⟨ahead, spelled⟩
            refine ⟨reached.trans ahead, List.forall_mem_singleton.2 fun m mem _ => ?_⟩
            obtain ⟨e, ahead, spelledAt⟩ := spelled m mem
            exact ⟨e, reached.trans ahead, spelledAt⟩
          · split
            · exact outside string_reads rfl limits s reached
            · exact outside identifier_reads rfl limits s reached

theorem spine_spellsClasses (text : List Char) : Spine text (Node.SpellsClasses text) where
  above {kind} children span notFlat below := by
    intro m mem ofClass
    rw [Node.branch, Node.nodes, List.mem_cons, Node.mem_nodesOf] at mem
    rcases mem with rfl | ⟨c, child, mem⟩
    · have flat : kind.isFlat = true := Kind.isFlat_of_isOfClass ofClass
      rw [notFlat] at flat
      cases flat
    · exact below c child m mem ofClass
  classless _ read classless := read.spellsClasses classless text
  atom := atom_spelled text

end Parse

/-- **Classes are tiled by their members.** Wherever a class, a range or a character of a class stands in a
document, its text is made of the texts of its parts, in their order and with nothing in between but the hyphen of
a range; a class leaves off without its closing bracket exactly where the line or the text ends instead; and no
character of a class is a closing bracket, a newline or a backslash. -/
theorem classes_tiled (text : String) : ∀ n ∈ (readDocument text).tree.nodes, n.kind.isOfClass = true →
    ∃ c, (Cursor.ofString text).Reaches c ∧ n.SpelledAt c :=
  readDocument_yields (Parse.spine_spellsClasses text.toList)

/-- A range, an escape and a hyphen at the end of a class that is not closed. -/
theorem classes_tiled_open : ∃ n ∈ (readDocument "r = [a-z\\d-").tree.nodes,
    n.kind.isOfClass = true ∧ n.text? = some "[a-z\\d-" ∧
      ∃ c, (Cursor.ofString "r = [a-z\\d-").Reaches c ∧ n.SpelledAt c := by
  have some : (readDocument "r = [a-z\\d-").tree.nodes.any
      (fun n => n.kind.isOfClass && decide (n.text? = some "[a-z\\d-")) = true := by
    decide +kernel
  obtain ⟨n, mem, here⟩ := List.any_eq_true.1 some
  rw [Bool.and_eq_true, decide_eq_true_eq] at here
  exact ⟨n, mem, here.1, here.2, classes_tiled _ n mem here.1⟩

end PatternRules
