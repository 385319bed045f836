import PatternRules.Proofs.Coordinates
import PatternRules.Proofs.Regions

/-!
The scan of a line as an automaton. The scan cuts a line into pieces; the automaton reads one character at a
time, looks at one more behind it, and remembers one of nine states in between. Reading a piece brings it back
to where it was (`ScanState.run_pieceRegions`), so both give every character the same region.

* `ScanState.run_toClose`, `ScanState.run_toBrackets`: how the automaton gets to the end of what was opened;
* `lineRegions_eq_run`: the regions of a line;
* `classifyLine_tiles`: the entries of a line, one for each character.
-/

namespace PatternRules

/-- What the automaton remembers from one character to the next. -/
inductive ScanState where
  | code
  | afterBackslash
  | string
  | stringAfterBackslash
  | charClass
  | classAfterBackslash
  | list
  | listClosing
  | comment
deriving DecidableEq

namespace ScanState

/-- The state behind a character, where `next` is the character that follows it. A bracket opens a list if
another one follows. -/
def step (s : ScanState) (c : Char) (next : Option Char) : ScanState :=
  match s with
  | code =>
    if c = '#' then comment
    else if c = '\\' then afterBackslash
    else if c = '"' then string
    else if c = '[' then if next = some '[' then list else charClass
    else code
  | afterBackslash => code
  | string => if c = '\\' then stringAfterBackslash else if c = '"' then code else string
  | stringAfterBackslash => string
  | charClass => if c = '\\' then classAfterBackslash else if c = ']' then code else charClass
  | classAfterBackslash => charClass
  | list => if c = ']' then listClosing else list
  | listClosing => if c = ']' then code else list
  | comment => comment

/-- The region in which a state reads. -/
def inside : ScanState → Region
  | code => .code
  | afterBackslash => .escaped
  | string | stringAfterBackslash => .string
  | charClass | classAfterBackslash => .charClass
  | list | listClosing => .listMatch
  | comment => .comment

/-- The region of a character. What opens a string, a class, a list or a comment belongs to it; a backslash
in code is code. -/
def region (s : ScanState) (c : Char) (next : Option Char) : Region :=
  match s, s.step c next with
  | code, afterBackslash => .code
  | code, opened => opened.inside
  | s, _ => s.inside

/-- The regions of the characters that are read from a state on. -/
def run (s : ScanState) : List Char → List Region
  | [] => []
  | c :: cs => s.region c cs.head? :: run (s.step c cs.head?) cs

/-! ## Up to the end of what was opened -/

theorem run_comment (cs : List Char) : comment.run cs = List.replicate cs.length .comment := by
  induction cs with
  | nil => rfl
  | cons c cs ih => exact congrArg (Region.comment :: ·) ih

/-- In a state that a character closes unless a backslash stands before it, the automaton reads as far as
counting goes. -/
theorem run_toClose (s escaped : ScanState) (close : Char) {r : Region}
    (region : ∀ c next, s.region c next = r) (region' : ∀ c next, escaped.region c next = r)
    (step : ∀ c next, s.step c next = if c = '\\' then escaped else if c = close then code else s)
    (step' : ∀ c next, escaped.step c next = s) (backslash : close ≠ '\\') (cs : List Char) :
    s.run cs = List.replicate (lengthToClose close cs) r ++ code.run (cs.drop (lengthToClose close cs)) := by
  fun_induction lengthToClose close cs with
  | case1 => rfl
  | case2 => simp [run, region]
  | case3 c cs ih => simp [run, region, region', step, step', ih, List.replicate_succ]
  | case4 cs => simp [run, region, step, backslash]
  | case5 c cs noEnd noMore other ih =>
    have plain : c ≠ '\\' := by
      rintro rfl
      cases cs <;> simp_all
    simp [run, region, step, plain, other, ih, List.replicate_succ]

/-- One closing bracket is forgotten unless another one follows. -/
theorem run_listClosing {cs : List Char} (h : cs.head? ≠ some ']') : listClosing.run cs = list.run cs := by
  cases cs with
  | nil => rfl
  | cons c cs =>
    have other : c ≠ ']' := by simpa using h
    simp [run, region, step, inside, other]

/-- In a list the automaton reads as far as the first two closing brackets. -/
theorem run_toBrackets (cs : List Char) :
    list.run cs = List.replicate (lengthToBrackets cs) .listMatch ++ code.run (cs.drop (lengthToBrackets cs)) := by
  fun_induction lengthToBrackets cs with
  | case1 => rfl
  | case2 cs => rfl
  | case3 c cs noBrackets ih =>
    have next : list.run (c :: cs) = .listMatch :: list.run cs := by
      by_cases bracket : c = ']'
      · subst bracket
        have single : cs.head? ≠ some ']' := by
          cases cs <;> simp_all
        rw [← run_listClosing single]
        rfl
      · simp [run, region, step, inside, bracket]
    rw [next, ih, List.replicate_succ]
    rfl

/-! ## Pieces -/

/-- **Behind a piece the automaton is where it was before it.** -/
theorem run_pieceRegions (c : Char) (cs : List Char) :
    code.run (c :: cs) = pieceRegions (c :: cs) ++
      code.run ((c :: cs).drop (pieceRegions (c :: cs)).length) := by
  have toQuote := run_toClose string stringAfterBackslash '"' (fun _ _ => rfl) (fun _ _ => rfl)
    (fun _ _ => rfl) (fun _ _ => rfl) (by decide) cs
  have toBracket := run_toClose charClass classAfterBackslash ']' (fun _ _ => rfl) (fun _ _ => rfl)
    (fun _ _ => rfl) (fun _ _ => rfl) (by decide) cs
  rw [pieceRegions]
  split
  · next hash => simp [run, region, step, inside, hash, run_comment, List.replicate_succ]
  · split
    · next backslash =>
      subst backslash
      cases cs <;> rfl
    · split
      · next quote => simp [run, region, step, inside, quote, toQuote, List.replicate_succ]
      · split
        · next bracket =>
          split
          · next another =>
            simp [run, region, step, inside, bracket, another, run_toBrackets, List.replicate_succ]
          · next single => simp [run, region, step, inside, bracket, single, toBracket, List.replicate_succ]
        · simp [run, region, step, inside, *]

end ScanState

/-- **The regions of a line are those the automaton gives.** -/
theorem lineRegions_eq_run (line : List Char) : lineRegions line = ScanState.code.run line := by
  induction length : line.length using Nat.strongRecOn generalizing line with
  | ind n ih =>
    subst length
    cases line with
    | nil => rfl
    | cons c cs =>
      have positive := length_pieceRegions_pos c cs
      rw [lineRegions_eq, ScanState.run_pieceRegions,
        ih _ (by rw [List.length_drop, List.length_cons]; omega) _ rfl]

theorem map_region_placeChars (column offset : Nat) {cs : List Char} {rs : List Region}
    (length : rs.length = cs.length) : (placeChars column offset cs rs).map (·.region) = rs := by
  induction cs generalizing column offset rs with
  | nil =>
    cases rs with
    | nil => rfl
    | cons r rs => cases length
  | cons c cs ih =>
    cases rs with
    | nil => cases length
    | cons r rs => rw [placeChars, List.map_cons, ih _ _ (Nat.succ.inj length)]

/-- **The scan of a line has one entry for each of its characters, in order**, with its column and the number of
bytes in front of it; and the regions are those the automaton gives. -/
theorem classifyLine_tiles (cs : List Char) :
    (classifyLine cs).length = cs.length ∧
    (∀ (k : Nat) (c : Char), cs[k]? = some c →
      ∃ region, (classifyLine cs)[k]? = some ⟨c, k + 1, byteLength (cs.take k), region⟩) ∧
    (classifyLine cs).map (·.region) = ScanState.code.run cs := by
  have length := length_lineRegions cs
  have regions : (classifyLine cs).map (·.region) = lineRegions cs := map_region_placeChars 1 0 length
  refine ⟨?_, fun k c here => ?_, regions.trans (lineRegions_eq_run cs)⟩
  · rw [← length, ← regions, List.length_map]
  · obtain ⟨inLine, -⟩ := List.getElem?_eq_some_iff.1 here
    have region := List.getElem?_eq_getElem (length ▸ inLine : k < (lineRegions cs).length)
    have entry := getElem?_placeChars 1 0 here region
    rw [Nat.add_comm 1 k, Nat.zero_add] at entry
    exact ⟨_, entry⟩

/-- Between brackets a sign is no code, and behind them it is. -/
example : (ScanState.code.run "[a+][[x]]+".toList).map Region.name =
    List.replicate 4 "CharClass" ++ List.replicate 5 "ListMatch" ++ ["Code"] := by decide

end PatternRules
