import PatternRules.Proofs.Accepts

/-!
Texts that go on with the same line. `SameLine cs cs'` says that the two texts have the same characters up to
their first line end, whatever that line end is and whatever stands behind it. Looking ahead for characters
that are no line ends cannot tell the two apart.

* `SameLine.isPrefixOf_eq`, `SameLine.startsRule_eq`, `SameLine.versionLength_eq`: each look ahead;
* `length_takeWhile_le_line`, `versionLength_le`, `length_stringTail_le_line`: what is read stays in its line.
-/

namespace PatternRules

/-! ## Lines that are the same -/

/-- A character inside a line. -/
def inLine (c : Char) : Bool := c != '\n' && c != '\r'

/-- Two texts with the same first line, however it ends. -/
inductive SameLine : List Char → List Char → Prop
  | ends {cs cs' : List Char} (stop : Stops inLine cs) (stop' : Stops inLine cs') : SameLine cs cs'
  | next {c : Char} {cs cs' : List Char} (inside : inLine c = true) (rest : SameLine cs cs') :
    SameLine (c :: cs) (c :: cs')

/-- What no end of a line satisfies. -/
theorem outside {p : Char → Bool} (newline : p '\n' = false) (carriage : p '\r' = false) (c : Char)
    (h : inLine c = false) : p c = false := by
  simp only [inLine, Bool.and_eq_false_iff, bne_eq_false_iff_eq] at h
  rcases h with rfl | rfl
  · exact newline
  · exact carriage

theorem inLine_of {p : Char → Bool} (outside : ∀ c, inLine c = false → p c = false) {c : Char}
    (h : p c = true) : inLine c = true := by
  cases line : inLine c with
  | true => rfl
  | false => exact (outside c line).symm.trans h

theorem inLine_of_isWordChar {c : Char} (h : isWordChar c = true) : inLine c = true :=
  inLine_of (outside rfl rfl) h

namespace SameLine

variable {cs cs' : List Char} {p : Char → Bool}

theorem any_head (h : SameLine cs cs') (outside : ∀ c, inLine c = false → p c = false) :
    cs'.head?.any p = cs.head?.any p := by
  cases h with
  | ends stop stop' => rw [stop.mono outside, stop'.mono outside]
  | next inside rest => rfl

theorem takeWhile_eq (h : SameLine cs cs') (outside : ∀ c, inLine c = false → p c = false) :
    cs'.takeWhile p = cs.takeWhile p := by
  induction h with
  | ends stop stop' => rw [(stop.mono outside).takeWhile_eq, (stop'.mono outside).takeWhile_eq]
  | next inside rest ih => rw [List.takeWhile_cons, List.takeWhile_cons, ih]

theorem dropWhile (h : SameLine cs cs') (outside : ∀ c, inLine c = false → p c = false) :
    SameLine (cs.dropWhile p) (cs'.dropWhile p) := by
  induction h with
  | ends stop stop' =>
    rw [(stop.mono outside).dropWhile_eq, (stop'.mono outside).dropWhile_eq]
    exact .ends stop stop'
  | @next c cs cs' inside rest ih =>
    rw [List.dropWhile_cons, List.dropWhile_cons]
    split
    · exact ih
    · exact .next inside rest

theorem isPrefixOf_eq {literal : List Char} (h : SameLine cs cs') (all : literal.all inLine = true) :
    literal.isPrefixOf cs' = literal.isPrefixOf cs := by
  induction h generalizing literal with
  | @ends cs cs' stop stop' =>
    cases literal with
    | nil => rfl
    | cons l literal =>
      rw [List.all_cons, Bool.and_eq_true] at all
      have none (tail : List Char) (stop : Stops inLine tail) :
          (l :: literal).isPrefixOf tail = false := by
        cases tail with
        | nil => rfl
        | cons c tail =>
          have other : l ≠ c := ne_of_kind all.1 (Stops.cons_iff.1 stop)
          simp [List.isPrefixOf, other]
      rw [none _ stop, none _ stop']
  | next inside rest ih =>
    cases literal with
    | nil => rfl
    | cons l literal =>
      rw [List.all_cons, Bool.and_eq_true] at all
      rw [List.isPrefixOf, List.isPrefixOf, ih all.2]

theorem startsAssignment_eq (h : SameLine cs cs') : startsAssignment cs' = startsAssignment cs := by
  have signs (cs : List Char) :
      startsAssignment cs = (['='].isPrefixOf cs && !(['=', '='].isPrefixOf cs)) := by
    unfold startsAssignment
    split
    · simp [List.isPrefixOf]
    · next rest other =>
      cases rest with
      | nil => simp [List.isPrefixOf]
      | cons c rest =>
        have : '=' ≠ c := fun e => other rest (by rw [e])
        simp [List.isPrefixOf, this]
    · next none =>
      cases cs with
      | nil => rfl
      | cons c rest =>
        have : '=' ≠ c := fun e => none rest (by rw [e])
        simp [List.isPrefixOf, this]
  rw [signs, signs, h.isPrefixOf_eq (by decide), h.isPrefixOf_eq (by decide)]

theorem startsRule_eq (h : SameLine cs cs') : startsRule cs' = startsRule cs := by
  rw [startsRule, startsRule, h.any_head (outside rfl rfl),
    ((h.dropWhile (outside rfl rfl)).dropWhile (outside rfl rfl)).startsAssignment_eq]

theorem versionLength_eq (h : SameLine cs cs') : versionLength cs' = versionLength cs := by
  induction h with
  | @ends cs cs' stop stop' =>
    have none (tail : List Char) (stop : Stops inLine tail) : versionLength tail = 0 := by
      cases tail with
      | nil => rfl
      | cons c tail =>
        have other := outside (p := fun c => c.isDigit || c == '.') rfl rfl c stop
        rw [Bool.or_eq_false_iff] at other
        simp [versionLength, other]
    rw [none _ stop, none _ stop']
  | next inside rest ih =>
    rw [versionLength, versionLength, ih, rest.any_head (outside rfl rfl)]

end SameLine

/-! ## Inside the line -/

/-- A run of characters that are no line ends stays in its line. -/
theorem length_takeWhile_le_line {p : Char → Bool} (outside : ∀ c, inLine c = false → p c = false)
    (cs : List Char) : (cs.takeWhile p).length ≤ (cs.takeWhile inLine).length := by
  induction cs with
  | nil => exact Nat.le_refl 0
  | cons c cs ih =>
    rw [List.takeWhile_cons]
    split
    · next part =>
      rw [List.takeWhile_cons_of_pos (inLine_of outside part)]
      exact Nat.succ_le_succ ih
    · exact Nat.zero_le _

/-- A version literal does not leave its line. -/
theorem versionLength_le (cs : List Char) : versionLength cs ≤ (cs.takeWhile inLine).length := by
  induction cs with
  | nil => exact Nat.le_refl 0
  | cons c cs ih =>
    rw [versionLength]
    split
    · next part =>
      have either : (c.isDigit || c == '.') = true := by
        rw [Bool.or_eq_true, Bool.and_eq_true] at part
        rw [Bool.or_eq_true]
        exact part.imp_right And.left
      rw [List.takeWhile_cons_of_pos (inLine_of (outside (p := fun c => c.isDigit || c == '.') rfl rfl) either)]
      exact Nat.succ_le_succ ih
    · exact Nat.zero_le _

theorem length_le_of_isPrefixOf {literal cs : List Char} (all : literal.all inLine = true)
    (h : literal.isPrefixOf cs = true) : literal.length ≤ (cs.takeWhile inLine).length := by
  obtain ⟨tail, rfl⟩ := List.isPrefixOf_iff_prefix.1 h
  rw [List.takeWhile_append_of_pos (List.all_eq_true.1 all), List.length_append]
  exact Nat.le_add_right _ _

/-- A string literal does not leave its line. -/
theorem length_stringTail_le_line {cs : List Char} (noReturn : '\r' ∉ cs) :
    (stringTail cs).1 ≤ (cs.takeWhile inLine).length := by
  have inside {c : Char} {cs : List Char} (noReturn : '\r' ∉ c :: cs) (line : c ≠ '\n') :
      inLine c = true ∧ '\r' ∉ cs := by
    rw [List.mem_cons, not_or] at noReturn
    exact ⟨by simp [inLine, line, Ne.symm noReturn.1], noReturn.2⟩
  fun_induction stringTail cs with
  | case1 => exact Nat.le_refl 0
  | case2 => exact Nat.le_refl 1
  | case3 cs =>
    rw [List.takeWhile_cons_of_pos rfl]
    exact Nat.succ_le_succ (Nat.zero_le _)
  | case4 c cs line n closed rest ih =>
    have first := inside (inside noReturn (by decide)).2 line
    have := ih first.2
    rw [rest] at this
    rw [List.takeWhile_cons_of_pos rfl, List.takeWhile_cons_of_pos first.1]
    simpa using this
  | case5 cs =>
    rw [List.takeWhile_cons_of_pos rfl]
    exact Nat.succ_le_succ (Nat.zero_le _)
  | case6 => exact Nat.zero_le _
  | case7 c cs _ _ _ line n closed rest ih =>
    rw [not_or] at line
    have first := inside noReturn line.1
    have := ih first.2
    rw [rest] at this
    rw [List.takeWhile_cons_of_pos first.1]
    simpa using this

end PatternRules
