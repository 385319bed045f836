import Mathlib.Data.List.TakeDrop
import PatternRules.Json.Printer
import PatternRules.Json.Reader
import PatternRules.Proofs.Accepts

/-!
JSON text is read back, however it is laid out. A `Layout` says which blanks stand where; the compact and the
indented form are two of them. `ReadBack` says that a value is found again in front of whatever does not go on
with a number. Fuel is no concern, since a value takes at most two units for each of its characters.

* `anyString_written`, `numeral_written`: strings and numbers;
* `itemsFrom_laidOut`, `membersFrom_laidOut`: what stands in an array or an object;
* `Plain.readBack`: every value whose strings have a text and whose numbers are natural, in every layout;
* `parse_compact`, `parse_indented`: the two forms in which values are written.
-/

namespace PatternRules.Json

/-! ## Strings -/

theorem hexValue4?_hexDigit (n : Nat) (h : n < 32) :
    hexValue4? '0' '0' (hexDigit (n / 16)) (hexDigit (n % 16)) = some n := by
  revert n
  decide

theorem stringTail_escapeChar (strict : Bool) (c : Char) (tail : List Char) :
    stringTail strict none (escapeChar c ++ tail) =
      (stringTail strict none tail).map (consText c) := by
  unfold escapeChar
  by_cases quote : c = '"'
  · simp [quote, stringTail, escapeLetter?]
  by_cases backslash : c = '\\'
  · simp [backslash, stringTail, escapeLetter?]
  by_cases b : c = '\x08'
  · simp [b, stringTail, escapeLetter?]
  by_cases f : c = '\x0c'
  · simp [f, stringTail, escapeLetter?]
  by_cases n : c = '\n'
  · simp [n, stringTail, escapeLetter?]
  by_cases r : c = '\r'
  · simp [r, stringTail, escapeLetter?]
  by_cases t : c = '\t'
  · simp [t, stringTail, escapeLetter?]
  simp only [quote, backslash, b, f, n, r, t, if_false]
  by_cases control : c.toNat < 32
  · simp only [if_pos control, List.cons_append, List.nil_append]
    have unit : unit16 none c.toNat = .char c := by
      have low : isLowHalf c.toNat = false := by simp [isLowHalf]; omega
      have high : isHighHalf c.toNat = false := by simp [isHighHalf]; omega
      simp [unit16, low, high]
    rw [stringTail, hexValue4?_hexDigit _ control]
    simp only [unit]
  · simp only [if_neg control, List.cons_append, List.nil_append]
    simp [stringTail, backslash, quote, control]

theorem stringTail_written (strict : Bool) (s rest : List Char) :
    stringTail strict none (s.flatMap escapeChar ++ '"' :: rest) = .ok (some s, rest) := by
  induction s with
  | nil => simp [stringTail]
  | cons c s ih =>
    rw [List.flatMap_cons, List.append_assoc, stringTail_escapeChar, ih]
    rfl

/-- A string is read back behind its opening quote. -/
theorem anyString_written (s : String) (rest : List Char) :
    anyString (s.toList.flatMap escapeChar ++ '"' :: rest) = .ok (some s, rest) := by
  rw [anyString, stringTail_written]
  simp [bind, Except.bind, pure, Except.pure]

/-! ## Numbers -/

/-- The characters that go on with a number. -/
def continuesNumber (c : Char) : Bool := c.isDigit || c == '.' || c == 'e' || c == 'E'

/-- A number is written with a digit in front. -/
theorem toDigits_eq_cons (n : Nat) : ∃ d ds, Nat.toDigits 10 n = d :: ds ∧ d.isDigit = true := by
  cases digits : Nat.toDigits 10 n with
  | nil => exact absurd digits Nat.toDigits_ne_nil
  | cons d ds =>
    exact ⟨d, ds, rfl, Nat.isDigit_of_mem_toDigits (by decide) (by decide) (digits ▸ List.mem_cons_self)⟩

/-- Only zero is written with a zero in front. -/
theorem eq_zero_of_toDigits {n : Nat} (h : (Nat.toDigits 10 n).head? = some '0') : n = 0 := by
  induction n using Nat.strongRecOn with
  | ind n ih =>
    rw [Nat.toDigits_eq_if (by decide)] at h
    split at h
    · next small =>
      have digit : ∀ d < 10, Nat.digitChar d = '0' → d = 0 := by decide
      exact digit n small (Option.some.inj h)
    · next large =>
      have first : (Nat.toDigits 10 (n / 10)).head? = some '0' := by
        rw [List.head?_append] at h
        obtain ⟨d, ds, digits, -⟩ := toDigits_eq_cons (n / 10)
        rwa [digits] at h ⊢
      have := ih _ (by omega) first
      omega

theorem someDigits_toDigits (n : Nat) {rest : List Char} (stop : Stops Char.isDigit rest) :
    someDigits (Nat.toDigits 10 n ++ rest) = .ok (Nat.toDigits 10 n, rest) := by
  have all : (Nat.toDigits 10 n).all Char.isDigit = true := by
    rw [List.all_eq_true]
    exact fun c hc => Nat.isDigit_of_mem_toDigits (by decide) (by decide) hc
  rw [someDigits, List.span_eq_takeWhile_dropWhile, stop.takeWhile_append all,
    stop.dropWhile_append all]
  obtain ⟨d, ds, digits, -⟩ := toDigits_eq_cons n
  rw [digits]

theorem wholePart_toDigits (n : Nat) {rest : List Char} (stop : Stops Char.isDigit rest) :
    wholePart (Nat.toDigits 10 n ++ rest) = .ok (Nat.toDigits 10 n, rest) := by
  have plain : ¬ ((Nat.toDigits 10 n).head? = some '0' ∧ (Nat.toDigits 10 n).length ≠ 1) := by
    rintro ⟨zero, long⟩
    rw [eq_zero_of_toDigits zero] at long
    exact long rfl
  rw [wholePart, someDigits_toDigits n stop]
  exact if_neg plain

theorem fractionPart_stops {rest : List Char} (stop : Stops continuesNumber rest) :
    fractionPart rest = .ok ([], rest) := by
  unfold fractionPart
  split
  · next cs => exact absurd (Stops.cons_iff.1 stop) (by decide)
  · rfl

theorem exponentPart_stops {rest : List Char} (stop : Stops continuesNumber rest) :
    exponentPart rest = .ok (none, rest) := by
  cases rest with
  | nil => rfl
  | cons c cs =>
    have other : ¬ (c = 'e' ∨ c = 'E') := by
      rintro (rfl | rfl) <;> exact absurd (Stops.cons_iff.1 stop) (by decide)
    rw [exponentPart, if_neg other]

/-- **A natural number is read back.** -/
theorem numeral_written (n : Nat) {rest : List Char} (stop : Stops continuesNumber rest) :
    numeral (Nat.toDigits 10 n ++ rest) = .ok (.ofNat n, rest) := by
  have noDigit : Stops Char.isDigit rest := stop.mono fun c h => by
    simp only [continuesNumber, Bool.or_eq_false_iff] at h
    exact h.1.1.1
  have noSign (tail : List Char) : Nat.toDigits 10 n ++ rest ≠ '-' :: tail := by
    obtain ⟨d, ds, digits, digit⟩ := toDigits_eq_cons n
    rw [digits]
    intro same
    rw [(List.cons.inj same).1] at digit
    cases digit
  rw [numeral]
  · simp only [wholePart_toDigits n noDigit, fractionPart_stops stop, exponentPart_stops stop, bind,
      Except.bind]
    rfl
  · exact noSign

/-! ## Blanks -/

theorem skipBlank_cons {c : Char} (blank : isBlank c = false) (cs : List Char) :
    skipBlank (c :: cs) = c :: cs := by
  rw [skipBlank, List.dropWhile_cons_of_neg (by rw [blank]; exact Bool.false_ne_true)]

theorem skipBlank_append {gap : List Char} (blank : gap.all isBlank = true) (cs : List Char) :
    skipBlank (gap ++ cs) = skipBlank cs :=
  List.dropWhile_append_of_pos (List.all_eq_true.1 blank)

theorem value_append {gap : List Char} (blank : gap.all isBlank = true) (fuel : Nat) (cs : List Char) :
    value fuel (gap ++ cs) = value fuel cs := by
  cases fuel with
  | zero => rw [value, value]
  | succ fuel => rw [value, value, skipBlank_append blank]

theorem itemsFrom_append {gap : List Char} (blank : gap.all isBlank = true) (fuel : Nat) (cs : List Char) :
    itemsFrom fuel (gap ++ cs) = itemsFrom fuel cs := by
  cases fuel with
  | zero => rw [itemsFrom, itemsFrom]
  | succ fuel => rw [itemsFrom, itemsFrom, value_append blank]

theorem expectChar_append {gap : List Char} (blank : gap.all isBlank = true) (c : Char) (cs : List Char) :
    expectChar c (gap ++ cs) = expectChar c cs := by
  rw [expectChar, expectChar, skipBlank_append blank]

theorem membersFrom_append {gap : List Char} (blank : gap.all isBlank = true) (fuel : Nat) (cs : List Char) :
    membersFrom fuel (gap ++ cs) = membersFrom fuel cs := by
  cases fuel with
  | zero => rw [membersFrom, membersFrom]
  | succ fuel => rw [membersFrom, membersFrom, expectChar_append blank]

theorem expectChar_cons {c : Char} (blank : isBlank c = false) (cs : List Char) :
    expectChar c (c :: cs) = .ok cs := by
  rw [expectChar, skipBlank_cons blank]
  exact if_pos rfl

/-- A number does not go on behind a blank. -/
theorem stops_gap {gap : List Char} (blank : gap.all isBlank = true) {c : Char} (stop : continuesNumber c = false)
    (cs : List Char) : Stops continuesNumber (gap ++ c :: cs) := by
  cases gap with
  | nil => exact Stops.cons_iff.2 stop
  | cons b gap =>
    rw [List.all_cons, Bool.and_eq_true] at blank
    refine Stops.cons_iff.2 ?_
    have sort := blank.1
    simp only [isBlank, Bool.or_eq_true, beq_iff_eq] at sort
    rcases sort with ((rfl | rfl) | rfl) | rfl <;> rfl

/-! ## Layouts -/

/-- Which blanks stand in a text: in front of the parts of an array or an object and of its closing bracket, which
may depend on how deep they are, and behind a colon. -/
structure Layout where
  gap : Nat → List Char
  colon : List Char
  gap_blank : ∀ depth, (gap depth).all isBlank = true
  colon_blank : colon.all isBlank = true

/-- No blanks at all. -/
def Layout.compact : Layout := ⟨fun _ => [], [], fun _ => rfl, rfl⟩

/-- A line for each part. -/
def Layout.indented : Layout where
  gap depth := '\n' :: List.replicate (2 * depth) ' '
  colon := [' ']
  gap_blank depth := by simp [isBlank]
  colon_blank := rfl

variable (L : Layout)

mutual

/-- The text of a value in a layout, `depth` levels deep. -/
def laidOut (depth : Nat) : Json → List Char
  | .null => ['n', 'u', 'l', 'l']
  | .bool true => ['t', 'r', 'u', 'e']
  | .bool false => ['f', 'a', 'l', 's', 'e']
  | .number n => n.render.toList
  | .string s => (quoteOptional s).toList
  | .array [] => ['[', ']']
  | .array (item :: rest) =>
    '[' :: (L.gap (depth + 1) ++ (laidOut (depth + 1) item ++ laidOutItems depth rest))
  | .object [] => ['{', '}']
  | .object ((name, value) :: rest) =>
    '{' :: (L.gap (depth + 1) ++ ((quoteOptional name).toList ++
      ':' :: (L.colon ++ (laidOut (depth + 1) value ++ laidOutMembers depth rest))))

/-- The items of an array behind the first, and its closing bracket. -/
def laidOutItems (depth : Nat) : List Json → List Char
  | [] => L.gap depth ++ [']']
  | item :: rest => ',' :: (L.gap (depth + 1) ++ (laidOut (depth + 1) item ++ laidOutItems depth rest))

/-- The members of an object behind the first, and its closing brace. -/
def laidOutMembers (depth : Nat) : List (Option String × Json) → List Char
  | [] => L.gap depth ++ ['}']
  | (name, value) :: rest =>
    ',' :: (L.gap (depth + 1) ++ ((quoteOptional name).toList ++
      ':' :: (L.colon ++ (laidOut (depth + 1) value ++ laidOutMembers depth rest))))

end

theorem Layout.gap_compact (depth : Nat) : Layout.compact.gap depth = [] := rfl

theorem Layout.colon_compact : Layout.compact.colon = [] := rfl

theorem toList_newline (depth : Nat) : (newline depth).toList = Layout.indented.gap depth := by
  simp [newline, Layout.indented]

theorem Layout.colon_indented : Layout.indented.colon = [' '] := rfl

mutual

theorem toList_compact (depth : Nat) : (j : Json) → j.compact.toList = j.laidOut .compact depth
  | .null => by rw [compact, laidOut]; rfl
  | .bool true => by rw [compact, laidOut]; rfl
  | .bool false => by rw [compact, laidOut]; rfl
  | .number n => by rw [compact, laidOut]
  | .string s => by rw [compact, laidOut]
  | .array [] => by rw [compact, laidOut]; rfl
  | .array (item :: rest) => by
    simp [compact, laidOut, Layout.gap_compact, toList_compact (depth + 1) item, toList_compactItems depth rest]
  | .object [] => by rw [compact, laidOut]; rfl
  | .object ((name, value) :: rest) => by
    simp [compact, laidOut, Layout.gap_compact, Layout.colon_compact, toList_compact (depth + 1) value,
      toList_compactMembers depth rest]

theorem toList_compactItems (depth : Nat) : (items : List Json) →
    (compactItems items).toList = laidOutItems .compact depth items
  | [] => by simp [compactItems, laidOutItems, Layout.gap_compact]
  | item :: rest => by
    simp [compactItems, laidOutItems, Layout.gap_compact, toList_compact (depth + 1) item,
      toList_compactItems depth rest]

theorem toList_compactMembers (depth : Nat) : (members : List (Option String × Json)) →
    (compactMembers members).toList = laidOutMembers .compact depth members
  | [] => by simp [compactMembers, laidOutMembers, Layout.gap_compact]
  | (name, value) :: rest => by
    simp [compactMembers, laidOutMembers, Layout.gap_compact, Layout.colon_compact,
      toList_compact (depth + 1) value, toList_compactMembers depth rest]

end

mutual

theorem toList_indentedAt (depth : Nat) : (j : Json) → (indentedAt depth j).toList = j.laidOut .indented depth
  | .null => by rw [indentedAt, laidOut]; rfl
  | .bool true => by rw [indentedAt, laidOut]; rfl
  | .bool false => by rw [indentedAt, laidOut]; rfl
  | .number n => by rw [indentedAt, laidOut]
  | .string s => by rw [indentedAt, laidOut]
  | .array [] => by rw [indentedAt, laidOut]; rfl
  | .array (item :: rest) => by
    simp [indentedAt, laidOut, toList_newline, toList_indentedAt (depth + 1) item,
      toList_indentedItems depth rest]
  | .object [] => by rw [indentedAt, laidOut]; rfl
  | .object ((name, value) :: rest) => by
    simp [indentedAt, laidOut, toList_newline, Layout.colon_indented, toList_indentedAt (depth + 1) value,
      toList_indentedMembers depth rest]

theorem toList_indentedItems (depth : Nat) : (items : List Json) →
    (indentedItems depth items).toList = laidOutItems .indented depth items
  | [] => by simp [indentedItems, laidOutItems, toList_newline]
  | item :: rest => by
    simp [indentedItems, laidOutItems, toList_newline, toList_indentedAt (depth + 1) item,
      toList_indentedItems depth rest]

theorem toList_indentedMembers (depth : Nat) : (members : List (Option String × Json)) →
    (indentedMembers depth members).toList = laidOutMembers .indented depth members
  | [] => by simp [indentedMembers, laidOutMembers, toList_newline]
  | (name, value) :: rest => by
    simp [indentedMembers, laidOutMembers, toList_newline, Layout.colon_indented,
      toList_indentedAt (depth + 1) value, toList_indentedMembers depth rest]

end

/-! ## Values -/

/-- Values that are written without loss: strings have a text, numbers are natural. -/
inductive Plain : Json → Prop where
  | null : Plain .null
  | bool (b : Bool) : Plain (.bool b)
  | nat (n : Nat) : Plain (.nat n)
  | text (s : String) : Plain (.text s)
  | array (items : List Json) (each : ∀ j ∈ items, Plain j) : Plain (.array items)
  | object (members : List (String × Json)) (each : ∀ m ∈ members, Plain m.2) :
    Plain (.ofMembers members)

theorem toList_quote (s : String) :
    (quote s).toList = '"' :: (s.toList.flatMap escapeChar ++ ['"']) := by
  simp [quote]

theorem toList_render_ofNat (n : Nat) : (Numeral.ofNat n).render.toList = Nat.toDigits 10 n := by
  simp [Numeral.render, Numeral.ofNat]

variable {L}

theorem laidOut_nat (depth n : Nat) : (nat n).laidOut L depth = Nat.toDigits 10 n := by
  rw [nat, laidOut, toList_render_ofNat]

theorem laidOut_text (depth : Nat) (s : String) :
    (text s).laidOut L depth = '"' :: (s.toList.flatMap escapeChar ++ ['"']) := by
  rw [text, laidOut]
  exact toList_quote s

/-- Members as they stand in an object. -/
def named (members : List (String × Json)) : List (Option String × Json) :=
  members.map fun (name, value) => (some name, value)

/-- A member as it is written. -/
def memberText (L : Layout) (depth : Nat) (m : String × Json) : List Char :=
  (quote m.1).toList ++ ':' :: (L.colon ++ m.2.laidOut L (depth + 1))

theorem laidOut_members (depth : Nat) (m : String × Json) (members : List (String × Json)) :
    (ofMembers (m :: members)).laidOut L depth =
      '{' :: (L.gap (depth + 1) ++ (memberText L depth m ++ laidOutMembers L depth (named members))) := by
  simp [ofMembers, laidOut, quoteOptional, memberText, named]

theorem laidOutMembers_cons (depth : Nat) (m : String × Json) (members : List (String × Json)) :
    laidOutMembers L depth (named (m :: members)) =
      ',' :: (L.gap (depth + 1) ++ (memberText L depth m ++ laidOutMembers L depth (named members))) := by
  simp [laidOutMembers, quoteOptional, memberText, named]

/-- A digit is none of the characters that tell the other values. -/
theorem of_isDigit {c : Char} (digit : c.isDigit = true) : isBlank c = false ∧
    c ∉ ['[', '{', ']', 'n', 't', 'f', '"'] := by
  refine ⟨?_, ?_⟩
  · by_contra blank
    simp only [isBlank, Bool.not_eq_false, Bool.or_eq_true, beq_iff_eq] at blank
    rcases blank with ((rfl | rfl) | rfl) | rfl <;> cases digit
  · intro other
    simp only [List.mem_cons, List.not_mem_nil, or_false] at other
    rcases other with rfl | rfl | rfl | rfl | rfl | rfl | rfl <;> cases digit

/-- What a value is written with at its front: no blank, and nothing that closes. -/
theorem laidOut_head {j : Json} (h : Plain j) (depth : Nat) :
    ∃ c cs, j.laidOut L depth = c :: cs ∧ isBlank c = false ∧ c ≠ ']' := by
  cases h with
  | null => exact ⟨_, _, rfl, by decide, by decide⟩
  | bool b => cases b <;> exact ⟨_, _, rfl, by decide, by decide⟩
  | nat n =>
    obtain ⟨d, ds, digits, digit⟩ := toDigits_eq_cons n
    refine ⟨d, ds, (laidOut_nat depth n).trans digits, (of_isDigit digit).1, ?_⟩
    rintro rfl
    cases digit
  | text s => exact ⟨_, _, laidOut_text depth s, by decide, by decide⟩
  | array items each =>
    cases items with
    | nil => exact ⟨_, _, rfl, by decide, by decide⟩
    | cons item items => exact ⟨_, _, by rw [laidOut], by decide, by decide⟩
  | object members each =>
    cases members with
    | nil => exact ⟨_, _, rfl, by decide, by decide⟩
    | cons m members => exact ⟨_, _, laidOut_members depth m members, by decide, by decide⟩

/-- With two units of fuel for each character a value is read back, and what follows is left. -/
def ReadBack (L : Layout) (j : Json) : Prop :=
  ∀ depth fuel rest, 2 * (j.laidOut L depth).length ≤ fuel → Stops continuesNumber rest →
    value fuel (j.laidOut L depth ++ rest) = .ok (j, rest)

/-- Everything but an array and an object is read in one step. -/
theorem value_scalar {c : Char} {cs : List Char} {fuel : Nat} (blank : isBlank c = false)
    (noArray : c ≠ '[') (noObject : c ≠ '{') : value (fuel + 1) (c :: cs) = scalar (c :: cs) := by
  rw [value, skipBlank_cons blank]
  simp only [if_neg noArray, if_neg noObject]

theorem readBack_nat (n : Nat) : ReadBack L (.nat n) := by
  intro depth fuel rest enough stop
  rw [laidOut_nat] at enough ⊢
  have read := numeral_written n stop
  obtain ⟨d, ds, digits, digit⟩ := toDigits_eq_cons n
  rw [digits] at enough read ⊢
  obtain ⟨fuel, rfl⟩ : ∃ k, fuel = k + 1 := ⟨fuel - 1, by rw [List.length_cons] at enough; omega⟩
  obtain ⟨blank, other⟩ := of_isDigit digit
  simp only [List.mem_cons, List.not_mem_nil, or_false, not_or] at other
  obtain ⟨array, object, -, n, t, f, quote⟩ := other
  rw [List.cons_append, value_scalar blank array object, scalar]
  simp only [if_neg n, if_neg t, if_neg f, digit, Bool.or_true, if_true]
  rw [← List.cons_append, read]
  rfl

theorem readBack_text (s : String) : ReadBack L (.text s) := by
  intro depth fuel rest enough stop
  rw [laidOut_text] at enough ⊢
  obtain ⟨fuel, rfl⟩ : ∃ k, fuel = k + 1 := ⟨fuel - 1, by rw [List.length_cons] at enough; omega⟩
  rw [List.cons_append, value_scalar (by decide) (by decide) (by decide), List.append_assoc]
  have read := anyString_written s rest
  simp only [scalar, List.singleton_append, read]
  rfl

/-- An item and what follows it are read back. -/
theorem itemsFrom_laidOut {item : Json} {items : List Json} (h : ReadBack L item)
    (each : ∀ j ∈ items, ReadBack L j) (depth : Nat) : ∀ fuel rest,
      2 * (item.laidOut L (depth + 1) ++ laidOutItems L depth items).length ≤ fuel →
      itemsFrom fuel (item.laidOut L (depth + 1) ++ (laidOutItems L depth items ++ rest)) =
        .ok (item :: items, rest) := by
  induction items generalizing item with
  | nil =>
    intro fuel rest enough
    rw [laidOutItems, List.length_append, List.length_append, List.length_singleton] at enough
    obtain ⟨fuel, rfl⟩ : ∃ k, fuel = k + 1 := ⟨fuel - 1, by omega⟩
    have blank := L.gap_blank depth
    have first := h (depth + 1) fuel (L.gap depth ++ ']' :: rest) (by omega) (stops_gap blank (by decide) _)
    rw [laidOutItems, List.append_assoc, List.singleton_append, itemsFrom, first]
    simp only [bind, Except.bind, skipBlank_append blank, skipBlank_cons (c := ']') (by decide)]
    rfl
  | cons next items ih =>
    intro fuel rest enough
    rw [laidOutItems, List.length_append, List.length_cons, List.length_append] at enough
    obtain ⟨fuel, rfl⟩ : ∃ k, fuel = k + 1 := ⟨fuel - 1, by omega⟩
    have blank := L.gap_blank (depth + 1)
    have first := h (depth + 1) fuel
      (',' :: (L.gap (depth + 1) ++ (next.laidOut L (depth + 1) ++ (laidOutItems L depth items ++ rest))))
      (by omega) (Stops.cons_iff.2 (by decide))
    have further := ih (each next List.mem_cons_self)
      (fun j hj => each j (List.mem_cons_of_mem _ hj)) fuel rest (by omega)
    rw [laidOutItems, List.cons_append, List.append_assoc, List.append_assoc, itemsFrom, first]
    simp only [bind, Except.bind, skipBlank_cons (c := ',') (by decide), itemsFrom_append blank, further]
    rfl

/-- What is read behind a member: the end of the object, or a comma and further members. -/
def behindMember (fuel : Nat) (member : Option String × Json) (rest : List Char) :
    Except Fault (List (Option String × Json) × List Char) :=
  match skipBlank rest with
  | [] => .error .endOfText
  | c :: rest =>
    if c = '}' then return ([member], rest)
    else if c = ',' then do
      let (members, rest) ← membersFrom fuel rest
      return (member :: members, rest)
    else .error .malformed

/-- The name of a member is read back, and then its value. -/
theorem membersFrom_member {m : String × Json} {depth fuel : Nat} {tail : List Char} {next : Json × List Char}
    (read : value fuel (m.2.laidOut L (depth + 1) ++ tail) = .ok next) :
    membersFrom (fuel + 1) (memberText L depth m ++ tail) = behindMember fuel (some m.1, next.1) next.2 := by
  have name := anyString_written m.1 (':' :: (L.colon ++ (m.2.laidOut L (depth + 1) ++ tail)))
  have text : memberText L depth m ++ tail =
      '"' :: (m.1.toList.flatMap escapeChar ++ '"' :: ':' ::
        (L.colon ++ (m.2.laidOut L (depth + 1) ++ tail))) := by
    simp [memberText, toList_quote]
  rw [text, membersFrom]
  simp only [expectChar_cons (c := '"') (by decide), expectChar_cons (c := ':') (by decide), name,
    value_append L.colon_blank, read, bind, Except.bind]
  rfl

theorem length_memberText (depth : Nat) (m : String × Json) : (memberText L depth m).length =
    (quote m.1).toList.length + 1 + L.colon.length + (m.2.laidOut L (depth + 1)).length := by
  rw [memberText, List.length_append, List.length_cons, List.length_append]
  omega

/-- A member and what follows it are read back. -/
theorem membersFrom_laidOut {m : String × Json} {members : List (String × Json)} (h : ReadBack L m.2)
    (each : ∀ m ∈ members, ReadBack L m.2) (depth : Nat) : ∀ fuel rest,
      2 * (memberText L depth m ++ laidOutMembers L depth (named members)).length ≤ fuel →
      membersFrom fuel (memberText L depth m ++ (laidOutMembers L depth (named members) ++ rest)) =
        .ok (named (m :: members), rest) := by
  induction members generalizing m with
  | nil =>
    intro fuel rest enough
    have close : laidOutMembers L depth (named []) = L.gap depth ++ ['}'] := by
      rw [named, List.map_nil, laidOutMembers]
    rw [close, List.length_append, List.length_append, List.length_singleton, length_memberText] at enough
    obtain ⟨fuel, rfl⟩ : ∃ k, fuel = k + 1 := ⟨fuel - 1, by omega⟩
    have blank := L.gap_blank depth
    have first := h (depth + 1) fuel (L.gap depth ++ '}' :: rest) (by omega) (stops_gap blank (by decide) _)
    rw [close, List.append_assoc, List.singleton_append, membersFrom_member first]
    simp only [behindMember, skipBlank_append blank, skipBlank_cons (c := '}') (by decide)]
    rfl
  | cons next members ih =>
    intro fuel rest enough
    rw [laidOutMembers_cons, List.length_append, List.length_cons, List.length_append, length_memberText] at enough
    obtain ⟨fuel, rfl⟩ : ∃ k, fuel = k + 1 := ⟨fuel - 1, by omega⟩
    have blank := L.gap_blank (depth + 1)
    have first := h (depth + 1) fuel (',' :: (L.gap (depth + 1) ++ (memberText L depth next ++
      (laidOutMembers L depth (named members) ++ rest)))) (by omega) (Stops.cons_iff.2 (by decide))
    have further := ih (each next List.mem_cons_self)
      (fun m hm => each m (List.mem_cons_of_mem _ hm)) fuel rest (by omega)
    rw [laidOutMembers_cons, List.cons_append, List.append_assoc, List.append_assoc, membersFrom_member first]
    simp only [behindMember, skipBlank_cons (c := ',') (by decide), membersFrom_append blank, further]
    rfl

/-- An item cannot be taken for the end of its array. -/
theorem arrayTail_item {gap cs : List Char} {c : Char} {fuel : Nat} (gapBlank : gap.all isBlank = true)
    (blank : isBlank c = false) (open_ : c ≠ ']') :
    arrayTail (fuel + 1) (gap ++ c :: cs) = itemsFrom fuel (c :: cs) := by
  rw [arrayTail, skipBlank_append gapBlank, skipBlank_cons blank]
  split
  · next same => exact absurd (List.cons.inj same).1 open_
  · exact itemsFrom_append gapBlank _ _

theorem readBack_word {j : Json} {c : Char} {cs : List Char} (text : ∀ depth, j.laidOut L depth = c :: cs)
    (blank : isBlank c = false) (noArray : c ≠ '[') (noObject : c ≠ '{')
    (read : ∀ rest, scalar (c :: (cs ++ rest)) = .ok (j, rest)) : ReadBack L j := by
  intro depth fuel rest enough stop
  rw [text] at enough ⊢
  obtain ⟨fuel, rfl⟩ : ∃ k, fuel = k + 1 := ⟨fuel - 1, by rw [List.length_cons] at enough; omega⟩
  rw [List.cons_append, value_scalar blank noArray noObject, read]

theorem readBack_array {items : List Json} (plain : ∀ j ∈ items, Plain j)
    (each : ∀ j ∈ items, ReadBack L j) : ReadBack L (.array items) := by
  intro depth fuel rest enough stop
  obtain ⟨fuel, rfl⟩ : ∃ k, fuel = k + 2 := ⟨fuel - 2, by cases items <;> simp [laidOut] at enough <;> omega⟩
  cases items with
  | nil =>
    have text : (array []).laidOut L depth ++ rest = '[' :: ']' :: rest := by rw [laidOut]; rfl
    rw [text, value, skipBlank_cons (by decide)]
    simp only [arrayTail, skipBlank_cons (c := ']') (by decide), if_true, bind, Except.bind]
    rfl
  | cons item items =>
    rw [laidOut, List.length_cons, List.length_append] at enough
    have read := itemsFrom_laidOut (each item List.mem_cons_self)
      (fun j hj => each j (List.mem_cons_of_mem _ hj)) depth fuel rest (by omega)
    obtain ⟨c, cs, head, blank, open_⟩ := laidOut_head (L := L) (plain item List.mem_cons_self) (depth + 1)
    rw [head, List.cons_append] at read
    rw [laidOut, head, List.cons_append, List.append_assoc, List.append_assoc, value,
      skipBlank_cons (by decide)]
    simp only [if_true, List.cons_append]
    rw [arrayTail_item (L.gap_blank _) blank open_, read]
    rfl

theorem objectTail_member {gap : List Char} (blank : gap.all isBlank = true) {depth fuel : Nat}
    (m : String × Json) (rest : List Char) :
    objectTail (fuel + 1) (gap ++ (memberText L depth m ++ rest)) =
      membersFrom fuel (memberText L depth m ++ rest) := by
  have text : memberText L depth m ++ rest = '"' :: (memberText L depth m ++ rest).tail := by
    simp [memberText, toList_quote]
  rw [objectTail, skipBlank_append blank, membersFrom_append blank, text, skipBlank_cons (by decide)]
  rfl

theorem readBack_object {members : List (String × Json)} (each : ∀ m ∈ members, ReadBack L m.2) :
    ReadBack L (.ofMembers members) := by
  intro depth fuel rest enough stop
  obtain ⟨fuel, rfl⟩ : ∃ k, fuel = k + 2 :=
    ⟨fuel - 2, by cases members <;> simp [ofMembers, laidOut] at enough <;> omega⟩
  cases members with
  | nil =>
    have text : (ofMembers []).laidOut L depth ++ rest = '{' :: '}' :: rest := by
      rw [ofMembers, List.map_nil, laidOut]
      rfl
    rw [text, value, skipBlank_cons (by decide)]
    simp only [objectTail, skipBlank_cons (c := '}') (by decide), if_true, bind, Except.bind]
    rfl
  | cons m members =>
    rw [laidOut_members, List.length_cons, List.length_append] at enough
    have read := membersFrom_laidOut (each m List.mem_cons_self)
      (fun m hm => each m (List.mem_cons_of_mem _ hm)) depth fuel rest (by omega)
    rw [laidOut_members, List.cons_append, List.append_assoc, List.append_assoc, value,
      skipBlank_cons (by decide)]
    simp only [if_true, objectTail_member (L.gap_blank _), read, bind, Except.bind]
    rfl

/-- **A value is read back from its text.** By induction on the value; what follows must not go on with a
number. -/
theorem Plain.readBack {j : Json} (h : Plain j) : ReadBack L j := by
  induction h with
  | null => exact readBack_word (fun _ => rfl) (by decide) (by decide) (by decide) fun rest => rfl
  | bool b =>
    cases b with
    | true => exact readBack_word (fun _ => rfl) (by decide) (by decide) (by decide) fun rest => rfl
    | false => exact readBack_word (fun _ => rfl) (by decide) (by decide) (by decide) fun rest => rfl
  | nat n => exact readBack_nat n
  | text s => exact readBack_text s
  | array items plain each => exact readBack_array plain each
  | object members plain each => exact readBack_object each

/-- **Reading JSON text inverts writing it**, in every layout. -/
theorem parse_laidOut {j : Json} (h : Plain j) : parse (j.laidOut L 0) = .ok j := by
  have read := h.readBack (L := L) 0 (2 * (j.laidOut L 0).length + 2) [] (by omega) Stops.nil
  rw [List.append_nil] at read
  rw [parse, read]
  rfl

theorem parse_compact {j : Json} (h : Plain j) : parse j.compact.toList = .ok j := by
  rw [toList_compact 0]
  exact parse_laidOut h

theorem parse_indented {j : Json} (h : Plain j) : parse j.indented.toList = .ok j := by
  rw [indented, toList_indentedAt]
  exact parse_laidOut h

end PatternRules.Json
