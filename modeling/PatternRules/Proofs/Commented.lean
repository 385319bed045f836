import PatternRules.Proofs.FileViews
import PatternRules.Proofs.Tiling

/-!
File names in comments. In each line of a text the characters of a comment are those from the first `#` that
is neither escaped nor inside a string, a class or a list (`OpensComment`, `comment_iff`). A use of
`optional-tokens` is only looked at if it starts in code, but nobody looks at what its parentheses hold. So a
comment inside the parentheses hands out its quoted texts as file names, and no other comment does
(`fileName_inComment_iff`).
-/

namespace PatternRules

/-! ## Comments -/

/-- A comment opens at index `n` of a line: with a `#`, and behind everything else that the line holds. -/
structure OpensComment (content : List Char) (n : Nat) : Prop where
  hash : content[n]? = some '#'
  comment : (lineRegions content)[n]? = some .comment
  first : ∀ k < n, (lineRegions content)[k]? ≠ some .comment

theorem hash_of_comment {c : Char} {cs : List Char} (h : Region.comment ∈ pieceRegions (c :: cs)) :
    c = '#' ∧ pieceRegions (c :: cs) = List.replicate (cs.length + 1) .comment := by
  by_cases hash : c = '#'
  · exact ⟨hash, by rw [pieceRegions, if_pos hash]⟩
  · rw [pieceRegions, if_neg hash] at h
    split at h
    · cases cs <;> simp at h
    · split at h
      · simp at h
      · split at h
        · split at h <;> simp at h
        · simp at h

/-- Up to some index a line holds no comment, and from there on, with a `#`, nothing else. -/
theorem exists_comment (content : List Char) : ∃ n, (∀ k < n, (lineRegions content)[k]? ≠ some .comment) ∧
    (∀ k, n ≤ k → k < content.length → (lineRegions content)[k]? = some .comment) ∧
    (n < content.length → content[n]? = some '#') := by
  -- by induction on what the pieces leave of the line
  induction h : content.length using Nat.strong_induction_on generalizing content with
  | _ length ih =>
    subst h
    cases content with
    | nil => exact ⟨0, by simp, by simp, by simp⟩
    | cons c cs =>
      by_cases mem : Region.comment ∈ pieceRegions (c :: cs)
      · obtain ⟨rfl, piece⟩ := hash_of_comment mem
        refine ⟨0, by simp, fun k _ inside => ?_, fun _ => rfl⟩
        rw [List.length_cons] at inside
        rw [lineRegions_eq, piece, List.getElem?_append_left (by simpa using inside), List.getElem?_replicate,
          if_pos inside]
      · have positive := length_pieceRegions_pos c cs
        have le := length_pieceRegions_le (c :: cs)
        have shorter : ((c :: cs).drop (pieceRegions (c :: cs)).length).length < (c :: cs).length := by
          rw [List.length_drop]
          omega
        obtain ⟨n, before, behind, hash⟩ := ih _ shorter _ rfl
        rw [lineRegions_eq]
        generalize (pieceRegions (c :: cs)) = piece at *
        refine ⟨piece.length + n, fun k hk => ?_, fun k hk inside => ?_, fun inside => ?_⟩
        · by_cases inPiece : k < piece.length
          · rw [List.getElem?_append_left inPiece]
            exact fun here => mem (List.mem_of_getElem? here)
          · rw [List.getElem?_append_right (by omega)]
            exact before _ (by omega)
        · rw [List.getElem?_append_right (by omega)]
          exact behind _ (by omega) (by rw [List.length_drop]; omega)
        · have := hash (by rw [List.length_drop]; omega)
          rwa [List.getElem?_drop] at this

/-- **A comment opens once in a line and goes on to its end.** -/
theorem comment_iff (content : List Char) {k : Nat} (inside : k < content.length) :
    (lineRegions content)[k]? = some .comment ↔ ∃ n ≤ k, OpensComment content n := by
  obtain ⟨n, before, behind, hash⟩ := exists_comment content
  constructor
  · intro comment
    have le : n ≤ k := by
      by_contra lt
      exact before k (by omega) comment
    exact ⟨n, le, hash (by omega), behind n (Nat.le_refl n) (by omega), before⟩
  · rintro ⟨m, le, opens⟩
    have : n ≤ m := by
      by_contra lt
      exact before m (by omega) opens.comment
    exact behind k (by omega) inside

/-! ## What stands in front of a file name -/

/-- No piece of several characters starts with this one. -/
def isSimple (c : Char) : Bool := c != '#' && c != '\\' && c != '"' && c != '['

theorem lineRegions_append_simple {front : List Char} (simple : ∀ c ∈ front, isSimple c = true)
    (rest : List Char) : lineRegions (front ++ rest) = List.replicate front.length .code ++ lineRegions rest := by
  induction front with
  | nil => rfl
  | cons c front ih =>
    have here : isSimple c = true := simple c List.mem_cons_self
    simp only [isSimple, Bool.and_eq_true, bne_iff_ne] at here
    have piece : pieceRegions (c :: (front ++ rest)) = [.code] := by
      simp [pieceRegions, here]
    rw [List.cons_append, lineRegions_eq, piece, List.length_singleton, List.drop_one, List.tail_cons,
      ih fun d hd => simple d (List.mem_cons_of_mem c hd)]
    rfl

theorem isSimple_of_isWhite {c : Char} (h : Text.isWhite c = true) : isSimple c = true := by
  by_contra special
  have : c = '#' ∨ c = '\\' ∨ c = '"' ∨ c = '[' := by
    simp only [isSimple, Bool.and_eq_true, bne_iff_ne, ne_eq] at special
    tauto
  rcases this with rfl | rfl | rfl | rfl <;> revert h <;> decide

namespace FileReference

/-- In front of the path of an import stands nothing special. -/
theorem importLiteral?_front {line literal : List Char} {index : Nat}
    (h : importLiteral? line = some (index, literal)) :
    ∃ front rest, line = front ++ rest ∧ front.length = index ∧ (∀ c ∈ front, isSimple c = true) ∧
      literal <+: rest := by
  obtain ⟨front, rest, split, length, found, plain⟩ := importLiteral?_split h
  refine ⟨front, rest, split, length, fun c hc => ?_, (quotedFirst?_plain found).2⟩
  rcases plain c hc with white | word
  · exact isSimple_of_isWhite white
  · have all : "import".toList.all isSimple = true := by decide
    exact List.all_eq_true.1 all c word

/-- From the start of a use of `optional-tokens` to its parenthesis no comment opens. -/
theorem optionalTokensFirst?_front {text arguments : List Char} {before : Nat}
    (h : optionalTokensFirst? text = some (before, arguments)) :
    ∀ k < before, text[k]? ≠ some '#' := by
  obtain ⟨front, rest, rfl, rfl, -, plain⟩ := optionalTokensFirst?_split h
  intro k hk hash
  rw [List.getElem?_append_left hk] at hash
  rcases plain '#' (List.mem_of_getElem? hash) with white | word
  · exact absurd white (by decide)
  · exact absurd word (by decide)

theorem optionalTokensUses_front {text arguments : List Char} {i before : Nat}
    (h : (i, before, arguments) ∈ optionalTokensUses text) {n : Nat} (behind : i ≤ n) (inFront : n < i + before) :
    text[n]? ≠ some '#' := by
  obtain ⟨k, length, rfl, -, found⟩ := first_of_mem_matchesFrom h
  obtain ⟨⟨before, arguments⟩, huse, ⟨⟩⟩ := Option.map_eq_some_iff.1 found
  have front := optionalTokensFirst?_front huse (n - k) (by omega)
  rwa [List.getElem?_drop, show k + (n - k) = n by omega] at front

theorem getElem?_of_prefix_drop {part text : List Char} {index k : Nat} (h : part <+: text.drop index)
    (inside : k < part.length) : text[index + k]? = part[k]? := by
  obtain ⟨rest, split⟩ := h
  rw [← List.getElem?_drop, ← split, List.getElem?_append_left inside]

end FileReference

/-! ## File names -/

/-- Behind index `k` of a line the parentheses close of a use of `optional-tokens` that starts in code, and in
front of it, but inside these parentheses, a comment opens. -/
def ScannedLine.CommentsOut (line : ScannedLine) (k : Nat) : Prop :=
  ∃ i before arguments n, (i, before, arguments) ∈ FileReference.optionalTokensUses line.content ∧
    line.chars[i]?.any (·.region == .code) = true ∧ OpensComment line.content n ∧
    i + before ≤ n ∧ n < k ∧ k < i + before + arguments.length

theorem Plain.head {literal : List Char} (h : Plain literal) : literal[0]? = some '"' ∧ 0 < literal.length := by
  obtain ⟨name, rfl, -⟩ := h
  exact ⟨rfl, Nat.succ_pos _⟩

theorem exists_classifyLine {content : List Char} {k : Nat} {c : Char} (hc : content[k]? = some c) :
    ∃ entry, (classifyLine content)[k]? = some entry ∧ entry.char = c ∧ entry.column = k + 1 ∧
      (lineRegions content)[k]? = some entry.region := by
  have inside : k < (lineRegions content).length := by
    rw [length_lineRegions]
    exact (List.getElem?_eq_some_iff.1 hc).1
  have region := List.getElem?_eq_getElem inside
  exact ⟨_, getElem?_placeChars 1 0 hc region, rfl, Nat.add_comm 1 k, region⟩

theorem content_eq {line : ScannedLine} {content : List Char} (chars : line.chars = classifyLine content) :
    line.content = content := by
  rw [ScannedLine.content, chars]
  exact content_classifyLine content 0

namespace FileReference

/-- The path of an import is a string. -/
theorem region_of_import {content literal : List Char} {index : Nat}
    (h : importLiteral? content = some (index, literal)) :
    content[index]? = some '"' ∧ (lineRegions content)[index]? = some .string := by
  obtain ⟨front, rest, rfl, rfl, simple, starts⟩ := importLiteral?_front h
  obtain ⟨⟨name, rfl, -⟩, -⟩ := importLiteral?_plain h
  obtain ⟨behind, rfl⟩ := starts
  constructor
  · rw [List.getElem?_append_right (Nat.le_refl _), Nat.sub_self]
    rfl
  · rw [lineRegions_append_simple simple, List.getElem?_append_right (by simp), List.length_replicate,
      Nat.sub_self, lineRegions_eq]
    rfl

/-- A file name behind `optional-tokens` starts in a comment only if the comment opens between it and the
parenthesis of its use. -/
theorem commentsOut_of_use {line : ScannedLine} {content : List Char} (chars : line.chars = classifyLine content)
    {i before inner : Nat} {arguments literal : List Char}
    (use : (i, before, arguments) ∈ optionalTokensUses line.content)
    (code : line.chars[i]?.any (·.region == .code) = true) (quoted : (inner, literal) ∈ quotedTexts arguments) :
    content[i + before + inner]? = some '"' ∧
      ((lineRegions content)[i + before + inner]? = some .comment → line.CommentsOut (i + before + inner)) := by
  have same := content_eq chars
  rw [same] at use
  obtain ⟨plain, inside⟩ := quotedTexts_plain quoted
  have quote : arguments[inner]? = some '"' := by
    rw [← Nat.add_zero inner, getElem?_of_prefix_drop inside plain.head.2]
    exact plain.head.1
  obtain ⟨innerLt, -⟩ := List.getElem?_eq_some_iff.1 quote
  have here : content[i + before + inner]? = some '"' := by
    rw [getElem?_of_prefix_drop (prefix_of_optionalTokensUses use) innerLt, quote]
  refine ⟨here, fun comment => ?_⟩
  obtain ⟨n, le, opens⟩ := (comment_iff content (List.getElem?_eq_some_iff.1 here).1).1 comment
  -- The comment does not open in front of the use, which starts in code.
  have behind : i < n := by
    by_contra inFront
    have within : i < content.length := by
      have := (List.getElem?_eq_some_iff.1 here).1
      omega
    obtain ⟨entry, found, -, -, region⟩ := exists_classifyLine (List.getElem?_eq_getElem within)
    rw [(comment_iff content within).2 ⟨n, by omega, opens⟩] at region
    rw [chars, found, Option.any_some, ← Option.some.inj region] at code
    cases code
  -- Nor does it open with the word, the parenthesis or the file name.
  have inParentheses : i + before ≤ n := by
    by_contra inFront
    exact optionalTokensUses_front use behind.le (by omega) opens.hash
  have other : n ≠ i + before + inner := by
    rintro rfl
    rw [opens.hash] at here
    cases here
  exact ⟨i, before, arguments, n, same ▸ use, code, same ▸ opens, inParentheses, by omega, by omega⟩

theorem starts_of_mem_inLine {line : ScannedLine} {content : List Char} (chars : line.chars = classifyLine content)
    {r : FileReference} (h : r ∈ inLine line) : r.span.line = line.number ∧
      ∃ k, r.span.column = k + 1 ∧ content[k]? = some '"' ∧
        (r.purpose = .importPath → (lineRegions content)[k]? = some .string) ∧
        ((lineRegions content)[k]? = some .comment → line.CommentsOut k) := by
  rw [inLine, List.mem_append] at h
  rcases h with h | h
  · obtain ⟨⟨index, literal⟩, found, rfl⟩ := List.mem_map.1 h
    rw [content_eq chars] at found
    obtain ⟨quote, string⟩ := region_of_import (Option.mem_toList.1 found)
    refine ⟨rfl, index, rfl, quote, fun _ => string, fun comment => ?_⟩
    rw [string] at comment
    cases comment
  · obtain ⟨⟨i, before, arguments⟩, huse, h⟩ := List.mem_flatMap.1 h
    obtain ⟨⟨inner, literal⟩, quoted, rfl⟩ := List.mem_map.1 h
    obtain ⟨use, inCode⟩ := List.mem_filter.1 huse
    have code : line.chars[i]?.any (·.region == .code) = true := by
      rw [beq_iff_eq, content_eq chars, ScannedLine.regionAt?_byteLength chars,
        Option.map_eq_some_iff] at inCode
      obtain ⟨entry, here, region⟩ := inCode
      rw [here, Option.any_some, region]
      rfl
    obtain ⟨quote, commented⟩ := commentsOut_of_use chars use code quoted
    refine ⟨rfl, i + before + inner, rfl, quote, ?_, commented⟩
    intro isImport
    cases isImport

end FileReference

/-- **A file name starts in a comment exactly if the comment opens inside the parentheses of its use**, which
starts in code itself. The path of an import is never in a comment. -/
theorem fileName_inComment_iff {text : List Char} {r : FileReference}
    (h : r ∈ FileReference.inText (scanText text)) :
    ∃ line ∈ scanText text, line.number = r.span.line ∧ ∃ c, line.chars[r.span.column - 1]? = some c ∧
      c.char = '"' ∧ c.column = r.span.column ∧ (r.purpose = .importPath → c.region = .string) ∧
      (c.region = .comment ↔ line.CommentsOut (r.span.column - 1)) := by
  obtain ⟨line, scanned, h⟩ := List.mem_flatMap.1 h
  obtain ⟨content, chars⟩ : ∃ content, line.chars = classifyLine content := by
    obtain ⟨n, found⟩ := List.mem_iff_getElem?.1 scanned
    obtain ⟨raw, -, rfl⟩ := Option.map_eq_some_iff.1 (getElem?_scanText text n ▸ found)
    exact ⟨_, rfl⟩
  obtain ⟨number, k, column, quote, ofImport, commented⟩ := FileReference.starts_of_mem_inLine chars h
  obtain ⟨c, entry, char, columnOfChar, region⟩ := exists_classifyLine quote
  rw [region, Option.some.injEq] at ofImport commented
  rw [← chars] at entry
  rw [column, Nat.add_sub_cancel]
  refine ⟨line, scanned, number.symm, c, entry, char, columnOfChar, ofImport, commented, fun out => ?_⟩
  -- A comment that opens in front of a character takes it in.
  obtain ⟨_, _, _, n, -, -, opens, -, inFront, -⟩ := out
  rw [content_eq chars] at opens
  have taken := (comment_iff content (List.getElem?_eq_some_iff.1 quote).1).2 ⟨n, inFront.le, opens⟩
  exact Option.some.inj (region.symm.trans taken)

/-- A list of files, the first of which is commented out. -/
def commentedList : String := "r = a uses m with optional-tokens( # not \"old.txt\")\n  \"new.txt\")"

/-- The text is read without an error, and the file in the comment is looked for. -/
theorem fileName_inComment_iff_list : (readDocument commentedList).errors = [] ∧
    ⟨.optionalTokens, "\"old.txt\"", ⟨1, 42, 9⟩⟩ ∈ FileReference.inText (scanText commentedList.toList) ∧
    ∃ line ∈ scanText commentedList.toList, line.number = 1 ∧ line.CommentsOut 41 := by
  have mem : ⟨.optionalTokens, "\"old.txt\"", ⟨1, 42, 9⟩⟩ ∈ FileReference.inText (scanText commentedList.toList) := by
    decide +kernel
  have comment : (scanText commentedList.toList).all fun line =>
      line.number != 1 || line.chars[41]?.all (·.region == .comment) := by
    decide +kernel
  obtain ⟨line, scanned, number, c, entry, -, -, -, commented⟩ := fileName_inComment_iff mem
  refine ⟨by decide +kernel, mem, line, scanned, number, commented.1 ?_⟩
  have here := List.all_eq_true.1 comment line scanned
  rw [number, show (⟨1, 42, 9⟩ : Span).column - 1 = 41 from rfl] at *
  simpa [entry] using here

end PatternRules
