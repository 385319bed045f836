import PatternRules.Grammar.Leaf
import PatternRules.Analysis.FileReference

/-!
How the scan of a line goes on. A line is one piece and then the rest of the line by itself
(`lineRegions_eq`), and carriage returns at the end of a line change nothing in front of them
(`lineRegions_append_returns`).

Strings, classes and list matches end where counting to their end says. Counting goes `Over` what has no such
end: the rest counts by itself.

* `Over.append`: over one text and then another;
* `lengthToClose_of_stringTail`: a closed string ends in the scan where it ends for a reader;
* `over_of_occursIn`: to two brackets it goes over what has no two brackets.
-/

namespace PatternRules

/-! ## Pieces -/

theorem length_pieceRegions_pos (c : Char) (cs : List Char) : 0 < (pieceRegions (c :: cs)).length :=
  List.length_pos_iff.2 (pieceRegions_cons_ne_nil c cs)

@[simp]
theorem regionsWithin_nil (fuel : Nat) : regionsWithin fuel [] = [] := by
  cases fuel <;> simp [regionsWithin, pieceRegions]

theorem regionsWithin_cons (fuel : Nat) (c : Char) (cs : List Char) :
    regionsWithin (fuel + 1) (c :: cs) = pieceRegions (c :: cs) ++
      regionsWithin fuel ((c :: cs).drop (pieceRegions (c :: cs)).length) := by
  rw [regionsWithin]
  split
  · next none => exact absurd none (pieceRegions_cons_ne_nil c cs)
  · rfl

/-- Fuel enough is as good as any. -/
theorem regionsWithin_eq {m n : Nat} {line : List Char} (hm : line.length ≤ m) (hn : line.length ≤ n) :
    regionsWithin m line = regionsWithin n line := by
  induction m generalizing n line with
  | zero => simp_all
  | succ m ih =>
    cases line with
    | nil => simp
    | cons c cs =>
      have positive := length_pieceRegions_pos c cs
      obtain ⟨n, rfl⟩ : ∃ k, n = k + 1 := ⟨n - 1, by simp at hn; omega⟩
      simp only [List.length_cons] at hm hn
      rw [regionsWithin_cons, regionsWithin_cons]
      congr 1
      apply ih <;> simp <;> omega

/-- **A line is one piece and then the rest of the line.** -/
theorem lineRegions_eq (line : List Char) :
    lineRegions line = pieceRegions line ++ lineRegions (line.drop (pieceRegions line).length) := by
  cases line with
  | nil => simp [lineRegions, pieceRegions]
  | cons c cs =>
    have positive := length_pieceRegions_pos c cs
    rw [lineRegions, List.length_cons, regionsWithin_cons]
    congr 1
    apply regionsWithin_eq <;> simp
    omega

/-! ## Counting to an end -/

theorem lengthToClose_cons {close c : Char} (h : c ≠ '\\') (cs : List Char) :
    lengthToClose close (c :: cs) = if c = close then 1 else lengthToClose close cs + 1 := by
  cases cs <;> simp [lengthToClose, h]

theorem lengthToBrackets_cons {c : Char} {cs : List Char} (h : c = ']' → cs.head? ≠ some ']') :
    lengthToBrackets (c :: cs) = lengthToBrackets cs + 1 := by
  cases cs with
  | nil => simp [lengthToBrackets]
  | cons d cs =>
    by_cases bracket : c = ']'
    · have other : d ≠ ']' := by simpa using h bracket
      simp [lengthToBrackets, other]
    · simp [lengthToBrackets, bracket]

/-- Counting goes over a text if it counts all of it and then the rest by itself. -/
def Over (count : List Char → Nat) (text : List Char) : Prop :=
  ∀ rest, count (text ++ rest) = text.length + count rest

namespace Over

variable {count : List Char → Nat} {text more : List Char}

theorem nil (count : List Char → Nat) : Over count [] := fun rest => by simp

theorem append (h : Over count text) (h' : Over count more) : Over count (text ++ more) := by
  intro rest
  rw [List.append_assoc, h, h', List.length_append]
  omega

theorem toClose {close c : Char} (backslash : c ≠ '\\') (other : c ≠ close) :
    Over (lengthToClose close) [c] := by
  intro rest
  simp [lengthToClose_cons backslash, other]
  omega

theorem escaped (close c : Char) : Over (lengthToClose close) ['\\', c] := by
  intro rest
  simp [lengthToClose]
  omega

theorem toBrackets {c : Char} (other : c ≠ ']') : Over lengthToBrackets [c] := by
  intro rest
  simp [lengthToBrackets_cons fun same => absurd same other]
  omega

end Over

/-- A string that is closed is as long for the scan as for a reader. -/
theorem lengthToClose_of_stringTail {cs : List Char} (h : (stringTail cs).2 = true) :
    lengthToClose '"' (cs.takeWhile (· != '\n')) = (stringTail cs).1 := by
  fun_induction stringTail cs with
  | case1 => cases h
  | case2 => cases h
  | case3 => cases h
  | case4 c cs other n closed tail ih =>
    rw [tail] at ih
    simp [lengthToClose, other, ih h]
  | case5 => simp [lengthToClose]
  | case6 => cases h
  | case7 c cs noEnd noMore other inLine n closed tail ih =>
    have backslash : c ≠ '\\' := by
      rintro rfl
      cases cs <;> simp_all
    rw [tail] at ih
    simp only [not_or] at inLine
    simp [lengthToClose_cons backslash, other, inLine, ih h]

/-- What is read of a string that is closed ends with a quote. -/
theorem getLast?_take_stringTail {cs : List Char} (h : (stringTail cs).2 = true) :
    (cs.take (stringTail cs).1).getLast? = some '"' := by
  fun_induction stringTail cs with
  | case1 => cases h
  | case2 => cases h
  | case3 => cases h
  | case4 c cs other n closed tail ih =>
    rw [tail] at ih
    simp [List.getLast?_cons, ih h]
  | case5 => simp
  | case6 => cases h
  | case7 c cs noEnd noMore other inLine n closed tail ih =>
    rw [tail] at ih
    simp [List.getLast?_cons, ih h]

/-- To two brackets counting goes over a text that has no two brackets in a row and does not end with one. -/
theorem over_of_occursIn {text : List Char} (h : FileReference.occursIn [']', ']'] text = false)
    (last : text.getLast? ≠ some ']') : Over lengthToBrackets text := by
  induction text with
  | nil => exact .nil _
  | cons c text ih =>
    intro rest
    simp only [FileReference.occursIn, Bool.or_eq_false_iff] at h
    have next : c = ']' → (text ++ rest).head? ≠ some ']' := by
      rintro rfl
      cases text with
      | nil => simp at last
      | cons d text =>
        intro same
        simp only [List.cons_append, List.head?_cons, Option.some.injEq] at same
        simp [same, List.isPrefixOf] at h
    have more : text.getLast? ≠ some ']' := by
      cases text <;> simp_all
    rw [List.cons_append, lengthToBrackets_cons next, ih h.2 more, List.length_cons]
    omega

/-! ## Carriage returns at the end -/

section

variable {back : List Char} (returns : ∀ c ∈ back, c = '\r')

include returns

theorem lengthToClose_append_returns (front : List Char) {close : Char} (backslash : close ≠ '\\') :
    lengthToClose close front = min (lengthToClose close (front ++ back)) front.length := by
  fun_induction lengthToClose close front with
  | case1 => simp
  | case2 =>
    cases back with
    | nil => simp [lengthToClose]
    | cons c cs => simp [lengthToClose]
  | case3 c cs ih =>
    simp only [List.cons_append, lengthToClose, List.length_cons, ih]
    omega
  | case4 cs => simp [lengthToClose_cons backslash]
  | case5 c cs noEnd noMore other ih =>
    have backslash : c ≠ '\\' := by
      rintro rfl
      cases cs <;> simp_all
    simp only [List.cons_append, lengthToClose_cons backslash, if_neg other, List.length_cons, ih]
    omega

theorem lengthToBrackets_append_returns (front : List Char) :
    lengthToBrackets front = min (lengthToBrackets (front ++ back)) front.length := by
  fun_induction lengthToBrackets front with
  | case1 => simp
  | case2 cs => simp [lengthToBrackets]
  | case3 c cs noBrackets ih =>
    have inFront : c = ']' → cs.head? ≠ some ']' := by
      rintro rfl
      cases cs <;> simp_all
    have inBoth : c = ']' → (cs ++ back).head? ≠ some ']' := by
      intro bracket
      cases cs with
      | nil => cases back <;> simp_all
      | cons d cs => simpa using inFront bracket
    simp only [List.cons_append, lengthToBrackets_cons inBoth, List.length_cons, ih]
    omega

/-- The first piece is the same as far as both lines go. -/
theorem pieceRegions_append_returns (front : List Char) :
    pieceRegions front = (pieceRegions (front ++ back)).take front.length := by
  cases front with
  | nil => simp [pieceRegions]
  | cons c cs =>
    have string := @lengthToClose_append_returns back returns cs '"' (by decide)
    have class' := @lengthToClose_append_returns back returns cs ']' (by decide)
    have list := lengthToBrackets_append_returns returns cs
    have head : (cs ++ back).head? = some '[' ↔ cs.head? = some '[' := by
      cases cs with
      | nil => cases back <;> simp_all
      | cons d cs => simp
    simp only [List.cons_append, pieceRegions, List.length_cons, head]
    split
    · simp
    · split
      · cases cs <;> simp
      · split
        · simp [string, Nat.min_comm]
        · split
          · split
            · simp [list, Nat.min_comm]
            · simp [class', Nat.min_comm]
          · simp

/-- **Carriage returns at the end of a line** change nothing in front of them. -/
theorem lineRegions_append_returns (front : List Char) :
    lineRegions front = (lineRegions (front ++ back)).take front.length := by
  induction length : front.length using Nat.strongRecOn generalizing front with
  | ind n ih =>
    subst length
    have piece := pieceRegions_append_returns returns front
    rw [lineRegions_eq (front ++ back), lineRegions_eq front]
    by_cases fits : (pieceRegions (front ++ back)).length ≤ front.length
    · rw [List.take_of_length_le fits] at piece
      rw [piece, List.drop_append_of_le_length fits, List.take_append, List.take_of_length_le fits]
      congr 1
      cases front with
      | nil => simp [lineRegions]
      | cons c cs =>
        have positive := length_pieceRegions_pos c (cs ++ back)
        rw [← List.cons_append] at positive
        have next := ih _ (by rw [List.length_drop, List.length_cons]; omega)
          ((c :: cs).drop (pieceRegions (c :: cs ++ back)).length) rfl
        rwa [List.length_drop] at next
    · have whole : (pieceRegions front).length = front.length := by
        rw [piece, List.length_take]
        omega
      rw [whole, List.drop_length, List.take_append_of_le_length (by omega), ← piece]
      simp [lineRegions]

end

end PatternRules
