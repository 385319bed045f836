import PatternRules.Proofs.JsonText

/-!
What the reading of JSON text shows of the text. A reading that succeeded is taken apart again: which character a value
starts with, what stands between the parts of an array or an object, and how much less is left behind a string.

* `Wanted`, `stringTail_wanted`: a string that is wanted is read like any other, if it has a text;
* `stringTail_leavesLess`: behind a string there is less left than in front of it;
* `Starts`, `value_starts`: the first character of a value says what it is;
* `arrayTail_cases`, `objectTail_cases`: what is not empty goes on with a first part;
* `itemsFrom_succ`, `membersFrom_succ`: a part is followed by what closes it, or by a comma and further parts.
-/

namespace PatternRules

/-! ## Readings that may fail -/

section

variable {ε α β : Type}

theorem bind_eq_ok {r : Except ε α} {f : α → Except ε β} {b : β} :
    r >>= f = .ok b ↔ ∃ a, r = .ok a ∧ f a = .ok b := by
  cases r with
  | error e =>
    constructor
    · intro h
      cases h
    · rintro ⟨a, h, -⟩
      cases h
  | ok a =>
    constructor
    · exact fun h => ⟨a, rfl, h⟩
    · rintro ⟨a, h, next⟩
      cases h
      exact next

theorem map_eq_ok {r : Except ε α} {f : α → β} {b : β} : r.map f = .ok b ↔ ∃ a, r = .ok a ∧ f a = b := by
  cases r with
  | error e =>
    constructor
    · intro h
      cases h
    · rintro ⟨a, h, -⟩
      cases h
  | ok a =>
    constructor
    · exact fun h => ⟨a, rfl, Except.ok.inj h⟩
    · rintro ⟨a, h, rfl⟩
      cases h
      rfl

theorem toOption_bind (r : Except ε α) (f : α → Except ε β) :
    (r >>= f).toOption = r.toOption.bind fun a => (f a).toOption := by
  cases r with
  | error e => rfl
  | ok a => rfl

theorem toOption_eq_some {r : Except ε α} {a : α} : r.toOption = some a ↔ r = .ok a := by
  cases r with
  | error e => simp [Except.toOption]
  | ok b => simp [Except.toOption]

end

namespace Json

/-- Reading what is wanted comes to the same as reading what may go unread, if that has a text; if it has none, there
is a fault. -/
def Wanted (strict loose : Except Fault (Option (List Char) × List Char)) : Prop :=
  ∀ text rest, loose = .ok (text, rest) → strict.toOption = text.map fun text => (some text, rest)

namespace Wanted

variable {strict loose : Except Fault (Option (List Char) × List Char)}

theorem fault (fault : Fault) : Wanted strict (.error fault) := fun _ _ h => by cases h

theorem cons (h : Wanted strict loose) (c : Char) : Wanted (strict.map (consText c)) (loose.map (consText c)) := by
  intro text rest read
  cases loose with
  | error fault => cases read
  | ok outcome =>
    obtain ⟨text', rest'⟩ := outcome
    obtain ⟨rfl, rfl⟩ : text'.map (c :: ·) = text ∧ rest' = rest := by simpa [Except.map, consText] using read
    have same := h text' rest' rfl
    cases strict with
    | error fault =>
      cases text' with
      | none => rfl
      | some text' => cases same
    | ok outcome =>
      cases text' with
      | none => cases same
      | some text' =>
        cases same
        rfl

theorem lost (fault : Fault) : Wanted (.error fault) (loose.map loseText) := by
  intro text rest read
  cases loose with
  | error fault => cases read
  | ok outcome =>
    cases read
    rfl

end Wanted

/-- **A string that is wanted is read like any other**, if it has a text; if it has none, that is a fault. -/
theorem stringTail_wanted (pending : Option Nat) (cs : List Char) :
    Wanted (stringTail true pending cs) (stringTail false pending cs) := by
  fun_induction stringTail false pending cs with
  | case1 => exact .fault _
  | case2 => exact .fault _
  | case3 => exact .fault _
  | case4 pending a b c d rest n value ch unit ih =>
    simp only [stringTail, value, unit]
    exact ih.cons ch
  | case5 pending a b c d rest n value unit ih =>
    simp only [stringTail, value, unit]
    exact ih
  | case6 => exact .fault _
  | case7 pending a b c d rest n value unit _ ih =>
    simp only [stringTail, value, unit, if_true]
    exact .lost _
  | case8 => exact .fault _
  | case9 => exact .fault _
  | case10 pending c cs noCode noUnit e letter here ih =>
    rw [stringTail]
    · simp only [letter, here, if_true]
      exact ih.cons e
    · exact noCode
    · exact noUnit
  | case11 => exact .fault _
  | case12 pending c cs noCode noUnit e letter half _ ih =>
    rw [stringTail]
    · simp only [letter, if_neg half, if_true]
      exact .lost _
    · exact noCode
    · exact noUnit
  | case13 => exact .fault _
  | case14 pending cs =>
    intro text rest read
    cases read
    cases pending with
    | none => rfl
    | some high => rfl
  | case15 => exact .fault _
  | case16 pending c cs noEnd noCode noUnit noLetter _ quote visible here ih =>
    have settled : pending.isSome = false := by rwa [Option.isSome_eq_false_iff]
    rw [stringTail]
    · rw [settled]
      simp only [Bool.and_false, Bool.false_eq_true, if_neg quote, if_neg visible, here, if_true, if_false]
      exact ih.cons c
    · exact noEnd
    · exact noCode
    · exact noUnit
    · exact noLetter
  | case17 pending c cs noEnd noCode noUnit noLetter _ quote visible half ih =>
    have pends : pending.isSome = true := by
      rwa [Option.isNone_iff_eq_none, ← ne_eq, ← Option.isSome_iff_ne_none] at half
    rw [stringTail]
    · rw [pends]
      exact .lost _
    · exact noEnd
    · exact noCode
    · exact noUnit
    · exact noLetter

/-- Less is left behind a reading than `n` characters. -/
def LeavesLess (n : Nat) (r : Except Fault (Option (List Char) × List Char)) : Prop :=
  ∀ outcome, r = .ok outcome → outcome.2.length < n

theorem LeavesLess.map {m n : Nat} {r : Except Fault (Option (List Char) × List Char)} (h : LeavesLess m r)
    (le : m ≤ n) {g : Option (List Char) × List Char → Option (List Char) × List Char}
    (same : ∀ outcome, (g outcome).2 = outcome.2) : LeavesLess n (r.map g) := by
  intro outcome read
  cases r with
  | error fault => cases read
  | ok inner =>
    cases read
    rw [same]
    exact Nat.lt_of_lt_of_le (h inner rfl) le

/-- Behind a string there is less left than in front of it. -/
theorem stringTail_leavesLess (strict : Bool) (pending : Option Nat) (cs : List Char) :
    LeavesLess cs.length (stringTail strict pending cs) := by
  have fault (n : Nat) (fault : Fault) : LeavesLess n (.error fault) := fun _ read => by cases read
  fun_induction stringTail strict pending cs with
  | case4 _ _ _ _ _ _ _ _ _ _ ih => exact ih.map (by simp only [List.length_cons]; omega) fun _ => rfl
  | case5 _ _ _ _ _ _ _ _ _ ih =>
    intro outcome read
    exact Nat.lt_of_lt_of_le (ih outcome read) (by simp only [List.length_cons]; omega)
  | case7 _ _ _ _ _ _ _ _ _ _ ih => exact ih.map (by simp only [List.length_cons]; omega) fun _ => rfl
  | case10 _ _ _ _ _ _ _ _ ih => exact ih.map (by simp only [List.length_cons]; omega) fun _ => rfl
  | case12 _ _ _ _ _ _ _ _ _ ih => exact ih.map (by simp only [List.length_cons]; omega) fun _ => rfl
  | case14 pending cs =>
    intro outcome read
    cases read
    exact Nat.lt_succ_self _
  | case16 _ _ _ _ _ _ _ _ _ _ _ ih => exact ih.map (by simp only [List.length_cons]; omega) fun _ => rfl
  | case17 _ _ _ _ _ _ _ _ _ _ _ ih => exact ih.map (by simp only [List.length_cons]; omega) fun _ => rfl
  | _ => exact fault _ _

theorem wantedString_of_any {cs rest : List Char} {s : Option String} (h : anyString cs = .ok (s, rest)) :
    (wantedString cs).toOption = s.map (·, rest) ∧ rest.length < cs.length := by
  obtain ⟨⟨text, rest'⟩, loose, same⟩ := bind_eq_ok.1 h
  cases same
  refine ⟨?_, stringTail_leavesLess false none cs _ loose⟩
  rw [wantedString, toOption_bind, stringTail_wanted none cs text rest loose]
  cases text with
  | none => rfl
  | some text => rfl

/-! ## Values -/

/-- What a value is, by the character it starts with. -/
inductive Starts : Char → List Char → Json → List Char → Prop
  | array {fuel : Nat} {items : List Json} {cs rest : List Char} (read : arrayTail fuel cs = .ok (items, rest)) :
    Starts '[' cs (.array items) rest
  | object {fuel : Nat} {members : List (Option String × Json)} {cs rest : List Char}
    (read : objectTail fuel cs = .ok (members, rest)) : Starts '{' cs (.object members) rest
  | null {cs rest : List Char} : Starts 'n' cs .null rest
  | true {cs rest : List Char} (read : expectWord ['r', 'u', 'e'] cs = .ok rest) : Starts 't' cs (.bool true) rest
  | false {cs rest : List Char} (read : expectWord ['a', 'l', 's', 'e'] cs = .ok rest) :
    Starts 'f' cs (.bool false) rest
  | number {c : Char} {n : Numeral} {cs rest : List Char} (numeric : (c == '-' || c.isDigit) = Bool.true) :
    Starts c cs (.number n) rest
  | string {s : Option String} {cs rest : List Char} (read : anyString cs = .ok (s, rest)) :
    Starts '"' cs (.string s) rest

theorem scalar_starts {c : Char} {cs rest : List Char} {j : Json} (h : scalar (c :: cs) = .ok (j, rest)) :
    Starts c cs j rest := by
  rw [scalar] at h
  split at h
  · next first =>
    obtain ⟨_, -, same⟩ := map_eq_ok.1 h
    cases same
    exact first ▸ .null
  · split at h
    · next first =>
      obtain ⟨_, read, same⟩ := map_eq_ok.1 h
      cases same
      exact first ▸ .true read
    · split at h
      · next first =>
        obtain ⟨_, read, same⟩ := map_eq_ok.1 h
        cases same
        exact first ▸ .false read
      · split at h
        · next numeric =>
          obtain ⟨_, -, same⟩ := bind_eq_ok.1 h
          cases same
          exact .number numeric
        · split at h
          · next first =>
            obtain ⟨_, read, same⟩ := bind_eq_ok.1 h
            cases same
            exact first ▸ .string read
          · cases h

/-- **A value is what its first character says.** -/
theorem value_starts {fuel : Nat} {cs rest : List Char} {j : Json} (h : value fuel cs = .ok (j, rest)) :
    ∃ c more, skipBlank cs = c :: more ∧ Starts c more j rest := by
  cases fuel with
  | zero =>
    rw [value] at h
    cases h
  | succ fuel =>
    rw [value] at h
    cases text : skipBlank cs with
    | nil =>
      rw [text] at h
      cases h
    | cons c more =>
      refine ⟨c, more, rfl, ?_⟩
      simp only [text] at h
      split at h
      · next first =>
        obtain ⟨_, read, same⟩ := bind_eq_ok.1 h
        cases same
        exact first ▸ .array read
      · split at h
        · next first =>
          obtain ⟨_, read, same⟩ := bind_eq_ok.1 h
          cases same
          exact first ▸ .object read
        · exact scalar_starts h

theorem length_lt_of_skipBlank {cs more : List Char} {c : Char} (front : skipBlank cs = c :: more) :
    more.length < cs.length := by
  have suffix := (List.dropWhile_suffix isBlank (l := cs)).length_le
  rw [← skipBlank, front, List.length_cons] at suffix
  omega

/-- What follows a part of an array or an object: what closes it, or a comma and further parts. -/
theorem behindPart {α : Type} {closing : Char} {part : α} {parts : List α} {behind rest : List Char}
    {next : List Char → Except Fault (List α × List Char)}
    (h : (match skipBlank behind with
      | [] => .error .endOfText
      | c :: rest =>
        if c = closing then return ([part], rest)
        else if c = ',' then do
          let (parts, rest) ← next rest
          return (part :: parts, rest)
        else .error .malformed) = Except.ok (parts, rest)) :
    skipBlank behind = closing :: rest ∧ parts = [part] ∨
      ∃ more further, skipBlank behind = ',' :: more ∧ next more = .ok (further, rest) ∧ parts = part :: further := by
  cases front : skipBlank behind with
  | nil =>
    rw [front] at h
    cases h
  | cons c more =>
    simp only [front] at h
    split at h
    · next closes =>
      cases h
      exact .inl ⟨closes ▸ rfl, rfl⟩
    · split at h
      · next comma =>
        obtain ⟨_, further, same⟩ := bind_eq_ok.1 h
        cases same
        exact .inr ⟨more, _, comma ▸ rfl, further, rfl⟩
      · cases h

theorem itemsFrom_succ {fuel : Nat} {cs rest : List Char} {items : List Json}
    (h : itemsFrom (fuel + 1) cs = .ok (items, rest)) : ∃ item behind, value fuel cs = .ok (item, behind) ∧
      (skipBlank behind = ']' :: rest ∧ items = [item] ∨
        ∃ more further, skipBlank behind = ',' :: more ∧ itemsFrom fuel more = .ok (further, rest) ∧
          items = item :: further) := by
  rw [itemsFrom] at h
  obtain ⟨⟨item, behind⟩, read, h⟩ := bind_eq_ok.1 h
  exact ⟨item, behind, read, behindPart h⟩

theorem membersFrom_succ {fuel : Nat} {cs rest : List Char} {members : List (Option String × Json)}
    (h : membersFrom (fuel + 1) cs = .ok (members, rest)) : ∃ quoted name colon front j behind,
      expectChar '"' cs = .ok quoted ∧ anyString quoted = .ok (name, colon) ∧
      expectChar ':' colon = .ok front ∧ value fuel front = .ok (j, behind) ∧
      (skipBlank behind = '}' :: rest ∧ members = [(name, j)] ∨
        ∃ more further, skipBlank behind = ',' :: more ∧ membersFrom fuel more = .ok (further, rest) ∧
          members = (name, j) :: further) := by
  rw [membersFrom] at h
  obtain ⟨quoted, opening, h⟩ := bind_eq_ok.1 h
  obtain ⟨⟨name, colon⟩, string, h⟩ := bind_eq_ok.1 h
  obtain ⟨front, sign, h⟩ := bind_eq_ok.1 h
  obtain ⟨⟨j, behind⟩, read, h⟩ := bind_eq_ok.1 h
  exact ⟨quoted, name, colon, front, j, behind, opening, string, sign, read, behindPart h⟩

/-- An array is empty, or it goes on with an item. -/
theorem arrayTail_cases {fuel : Nat} {cs rest : List Char} {items : List Json}
    (h : arrayTail fuel cs = .ok (items, rest)) : skipBlank cs = ']' :: rest ∧ items = [] ∨
      (∀ further, skipBlank cs ≠ ']' :: further) ∧ ∃ n, itemsFrom n cs = .ok (items, rest) := by
  cases fuel with
  | zero =>
    rw [arrayTail] at h
    cases h
  | succ fuel =>
    rw [arrayTail] at h
    split at h
    · next closing =>
      cases h
      exact .inl ⟨closing, rfl⟩
    · next open_ => exact .inr ⟨open_, fuel, h⟩

/-- An object is empty, or it goes on with a member. -/
theorem objectTail_cases {fuel : Nat} {cs rest : List Char} {members : List (Option String × Json)}
    (h : objectTail fuel cs = .ok (members, rest)) : skipBlank cs = '}' :: rest ∧ members = [] ∨
      (∀ further, skipBlank cs ≠ '}' :: further) ∧ ∃ n, membersFrom n cs = .ok (members, rest) := by
  cases fuel with
  | zero =>
    rw [objectTail] at h
    cases h
  | succ fuel =>
    rw [objectTail] at h
    split at h
    · next closing =>
      cases h
      exact .inl ⟨closing, rfl⟩
    · next open_ => exact .inr ⟨open_, fuel, h⟩

/-! ## Values of a type -/

/-- The value as a boolean. -/
def bool? : Json → Option Bool
  | .bool b => some b
  | _ => none

/-- The value as an array of texts. -/
def texts? : Json → Option (List String)
  | .array items => items.mapM text?
  | _ => none

theorem text?_eq_some {j : Json} {s : String} : j.text? = some s ↔ j = .text s := by
  cases j with
  | string found => simp [text?, text]
  | _ => simp [text?, text]

theorem bool?_eq_some {j : Json} {b : Bool} : j.bool? = some b ↔ j = .bool b := by
  cases j with
  | bool found => simp [bool?]
  | _ => simp [bool?]

theorem mapM_text?_eq_some {items : List Json} {texts : List String} :
    items.mapM text? = some texts ↔ items = texts.map .text := by
  induction items generalizing texts with
  | nil => cases texts <;> simp
  | cons item items ih =>
    cases texts with
    | nil => simp [List.mapM_cons, Option.bind_eq_some_iff]
    | cons s texts => simp [List.mapM_cons, Option.bind_eq_some_iff, text?_eq_some, ih]

theorem texts?_eq_some {j : Json} {texts : List String} : j.texts? = some texts ↔ j = .array (texts.map .text) := by
  cases j with
  | array items => simp [texts?, mapM_text?_eq_some]
  | _ => simp [texts?]

end Json

end PatternRules
