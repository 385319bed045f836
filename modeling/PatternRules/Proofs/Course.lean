import PatternRules.Proofs.Settles

/-!
Readings that keep to a course. A `Course` says which places may be reached from which, and which nodes may be
read on the way. Text without marks may be read on every course. A reading `Keeps` to a course if it follows it,
provided that nothing was complained about, that there was room for complaints, and that its nodes are allowed.

* `Keeps.trans`: two readings in a row;
* `Keeps.loud`: behind a complaint nothing is promised any more;
* `OnCourse.orReport`, `Ensures.complaint`: what is missing is complained about;
* `OnCourse.many`: steps, as often as they are repeated;
* `listFilter_onCourse`: between double brackets a course is kept that is kept by strings.
-/

namespace PatternRules

/-- The characters that may be more than themselves. -/
def marks : List Char := ['#', '\\', '"', '[', ']', '\n', '+', '*']

/-- No mark is accepted. -/
def SparesMarks (p : Char → Bool) : Prop := ∀ m ∈ marks, p m = false

instance (p : Char → Bool) : Decidable (SparesMarks p) :=
  decidable_of_iff (marks.all fun m => !p m) (by simp [SparesMarks])

theorem SparesMarks.not_mem {p : Char → Bool} (h : SparesMarks p) {c : Char} (hc : p c = true) : c ∉ marks := by
  intro mem
  simp [h c mem] at hc

/-- All of the text stands for itself. -/
def Unmarked (text : List Char) : Prop := ∀ c ∈ text, c ∉ marks

instance (text : List Char) : Decidable (Unmarked text) :=
  decidable_of_iff (text.all fun c => !marks.contains c) (by simp [Unmarked])

/-- Which places may be reached from which, and which nodes may be read on the way. -/
structure Course where
  leads : Cursor → Cursor → Prop
  allows : Node → Prop
  refl : ∀ c, leads c c
  trans : ∀ {a b c}, leads a b → leads b c → leads a c
  plain : ∀ {c ch}, c.peek = some ch → ch ∉ marks → leads c c.advance

/-- Nothing has been complained about, though there was room for it. -/
structure ParseState.Quiet (limits : Limits) (s : ParseState) : Prop where
  room : 0 < limits.errors
  errors : s.errors = []
  nested : s.nestingReported = false

namespace Course

variable {K : Course} {limits : Limits} {s t u : ParseState} {ns ms : List Node}

/-! ## Plain text -/

theorem along (K : Course) {c : Cursor} {text rest : List Char} (h : c.rest = text ++ rest)
    (plain : Unmarked text) : K.leads c (c.advanceBy text.length) := by
  induction text generalizing c with
  | nil => exact K.refl c
  | cons ch text ih =>
    have first : c.peek = some ch := by simp [Cursor.peek, h]
    refine K.trans (K.plain first (plain ch List.mem_cons_self)) (ih ?_ fun x hx => ?_)
    · simp [h]
    · exact plain x (List.mem_cons_of_mem _ hx)

theorem overRun (K : Course) (c : Cursor) {p : Char → Bool} (h : SparesMarks p) :
    K.leads c (c.advanceBy (c.run p).length) :=
  K.along (List.takeWhile_append_dropWhile (p := p)).symm fun _ hx =>
    h.not_mem (List.mem_takeWhile_imp hx)

theorem overInlineBlank (K : Course) (c : Cursor) : K.leads c c.skipInlineBlank := K.overRun c (by decide)

theorem overWord (K : Course) {c : Cursor} {word : String} (h : c.peekWord? = some word) :
    K.leads c (c.advanceBy word.length) := by
  have run : c.run isWordChar = word.toList := by
    unfold Cursor.peekWord? at h
    split at h
    · cases h
    · cases h
      simp
  have := K.overRun c (p := isWordChar) (by decide)
  rwa [run] at this

theorem overLiteral (K : Course) {c : Cursor} {literal : String} (h : c.checkLiteral literal = true)
    (plain : Unmarked literal.toList) : K.leads c (c.advanceBy literal.length) := by
  obtain ⟨rest, split⟩ := List.isPrefixOf_iff_prefix.1 h
  exact K.along split.symm plain

/-! ## Keeping to a course -/

/-- What was read from `s` to `t` and gave some nodes follows the course, if all was quiet and the nodes are
allowed. -/
def Keeps (K : Course) (limits : Limits) (s t : ParseState) (ns : List Node) : Prop :=
  (∀ n ∈ Node.nodesOf ns, K.allows n) → t.Quiet limits → s.Quiet limits ∧ K.leads s.cursor t.cursor

namespace Keeps

theorem refl (s : ParseState) (ns : List Node) : K.Keeps limits s s ns :=
  fun _ quiet => ⟨quiet, K.refl _⟩

theorem moved {c : Cursor} (h : K.leads s.cursor c) : K.Keeps limits s { s with cursor := c } ns :=
  fun _ quiet => ⟨⟨quiet.room, quiet.errors, quiet.nested⟩, h⟩

theorem inline : K.Keeps limits s { s with cursor := s.cursor.skipInlineBlank } ns :=
  moved (K.overInlineBlank _)

/-- Behind a complaint nothing is promised. -/
theorem loud (h : ¬ t.Quiet limits) : K.Keeps limits s t ns := fun _ quiet => absurd quiet h

/-- Two readings in a row. -/
theorem trans (h : K.Keeps limits s t ns) (h' : K.Keeps limits t u ms) : K.Keeps limits s u (ns ++ ms) := by
  intro allowed quiet
  rw [Node.nodesOf_append] at allowed
  obtain ⟨quiet', behind⟩ := h' (fun n hn => allowed n (List.mem_append_right _ hn)) quiet
  obtain ⟨quiet'', before⟩ := h (fun n hn => allowed n (List.mem_append_left _ hn)) quiet'
  exact ⟨quiet'', K.trans before behind⟩

theorem upTo (h : K.Keeps limits s t ns) (h' : K.Keeps limits t u []) : K.Keeps limits s u ns := by
  simpa using h.trans h'

theorem after (h : K.Keeps limits s t []) (h' : K.Keeps limits t u ms) : K.Keeps limits s u ms :=
  h.trans h'

/-- A node above others. -/
theorem node {kind : Kind} {value : Option Value} {span : Span} (h : K.Keeps limits s t ns) :
    K.Keeps limits s t [⟨kind, value, ns, span⟩] := by
  intro allowed
  rw [Node.nodesOf_singleton] at allowed
  exact h fun n hn => allowed n (List.mem_cons_of_mem _ hn)

/-- The cursor is put back. -/
theorem back (h : K.Keeps limits s t []) : K.Keeps limits s { t with cursor := s.cursor } [] := by
  intro allowed quiet
  exact ⟨(h allowed ⟨quiet.room, quiet.errors, quiet.nested⟩).1, K.refl _⟩

end Keeps

end Course

namespace Parse

variable {α β : Type} [HasNodes α] {K : Course} {limits : Limits} {s : ParseState}

/-- The reading keeps to the course. -/
def OnCourse (K : Course) (p : Parse α) : Prop :=
  ∀ limits s, Ensures limits s p fun r t => K.Keeps limits s t (HasNodes.nodes r)

/-- The reading keeps to the course, and where it finds nothing that has been complained about. -/
def Demands (K : Course) (p : Parse (Option α)) : Prop :=
  ∀ limits s, Ensures limits s p fun r t =>
    r.elim (¬ t.Quiet limits) fun a => K.Keeps limits s t (HasNodes.nodes a)

theorem Demands.onCourse {p : Parse (Option α)} (h : Demands K p) : OnCourse K p := by
  intro limits s
  refine (h limits s).mono ?_
  rintro (_ | a) t kept
  · exact .loud kept
  · exact kept

/-! ## Complaints -/

theorem not_quiet_recording (s : ParseState) (e : SyntaxError) : ¬ (s.recording limits e).Quiet limits := by
  intro quiet
  have none := quiet.errors
  have room := quiet.room
  unfold ParseState.recording at none
  split at none
  · next full => simp [none] at full; omega
  · simp at none

theorem report_loud (complaint : Complaint) (span : Span) :
    Ensures limits s (report complaint span) fun _ t => ¬ t.Quiet limits := by
  rw [ensures_report]
  exact not_quiet_recording s _

theorem reportHere_loud (complaint : Complaint) :
    Ensures limits s (reportHere complaint) fun _ t => ¬ t.Quiet limits := by
  simp only [reportHere, ensures_bind, ensures_cursor]
  exact report_loud complaint _

/-- A complaint that may have to be made. -/
theorem Ensures.complaint (K : Course) {complain : Parse Unit} {rest : Unit → Parse β}
    {post : β → ParseState → Prop} {c : Prop} [Decidable c]
    (loud : Ensures limits s complain fun _ t => ¬ t.Quiet limits)
    (next : ∀ t, K.Keeps limits s t [] → Ensures limits t (rest ()) post) :
    Ensures limits s (if c then complain >>= rest else rest ()) post := by
  split
  · exact loud.bind fun _ t loud => next t (.loud loud)
  · exact next s (.refl s [])

theorem OnCourse.orReport {p : Parse (Option α)} (h : OnCourse K p) (complaint : Complaint) :
    Demands K (orReport complaint p) := by
  intro limits s
  simp only [Parse.orReport, ensures_bind]
  refine (h limits s).mono ?_
  rintro (_ | a) t kept
  · simp only [Option.isNone_none, if_true]
    exact reportHere_loud complaint
  · exact kept

/-! ## Matching -/

theorem accept_onCourse {match? : Cursor → Option Cursor} (h : ∀ c d, match? c = some d → K.leads c d) :
    OnCourse K (accept match?) := by
  intro limits s
  simp only [accept, ensures_bind, ensures_cursor]
  split
  · next d hd => exact .moved (h _ _ hd)
  · exact .refl s []

theorem eatChar_onCourse (K : Course) {c : Char} (plain : c ∉ marks) : OnCourse K (eatChar c) := by
  refine accept_onCourse ?_
  intro a b h
  unfold Cursor.consume? at h
  split at h
  · next here =>
    cases h
    exact K.plain here plain
  · cases h

theorem eatWord_onCourse (K : Course) {word : String} (plain : Unmarked word.toList) :
    OnCourse K (eatWord word) := by
  refine accept_onCourse ?_
  intro a b h
  unfold Cursor.consumeWord? Cursor.consumeLiteral? at h
  split at h
  · split at h
    · next here =>
      cases h
      exact K.overLiteral here plain
    · cases h
  · cases h

/-! ## Repetition -/

theorem OnCourse.manyFuel {step : Parse (Option α)} (h : OnCourse K step) (fuel : Nat) :
    OnCourse K (manyFuel step fuel) := by
  intro limits s
  induction fuel generalizing s with
  | zero => exact .refl s []
  | succ fuel ih =>
    simp only [Parse.manyFuel, ensures_bind]
    refine (h limits s).mono ?_
    rintro (_ | a) t kept
    · exact kept
    · refine (ih t).bind ?_
      intro as u further
      exact kept.trans further

theorem OnCourse.many {step : Parse (Option α)} (h : OnCourse K step) : OnCourse K (many step) :=
  fun limits s => h.manyFuel _ limits s

/-! ## Leaves -/

theorem takeLeaf_keeps (kind : Kind) {n : Nat} (h : K.leads s.cursor (s.cursor.advanceBy n)) :
    Ensures limits s (takeLeaf kind n) fun leaf t => K.Keeps limits s t [leaf] := by
  simp only [takeLeaf, ensures_bind, ensures_cursor, ensures_move, ensures_textNodeFrom]
  exact .moved h

theorem identifier_onCourse (K : Course) : OnCourse K identifier := by
  intro limits s
  simp only [identifier, ensures_bind, ensures_cursor]
  split
  · exact takeLeaf_keeps .identifier (K.overRun _ (by decide))
  · exact .refl s []

theorem number_onCourse (K : Course) : OnCourse K number := by
  intro limits s
  simp only [number, ensures_bind, ensures_cursor]
  split
  · exact .refl s []
  · simp only [ensures_bind, ensures_move, ensures_spanFrom]
    split
    · exact .moved (K.overRun _ (by decide))
    · exact (report_loud _ _).bind fun _ _ loud => .loud loud

/-- A closed string keeps to the course, if its text is allowed. -/
theorem string_onCourse (closed : ∀ (c : Cursor) span, c.peek = some '"' →
      (stringTail c.rest.tail).2 = true →
      K.allows ⟨.string, some (.text (String.ofList (c.rest.take ((stringTail c.rest.tail).1 + 1)))), [], span⟩ →
      K.leads c (c.advanceBy ((stringTail c.rest.tail).1 + 1))) : OnCourse K string := by
  intro limits s
  simp only [string, ensures_bind, ensures_cursor]
  split
  · next quote =>
    simp only [ensures_bind, ensures_move]
    split
    · simp only [ensures_bind, ensures_spanFrom]
      refine (report_loud _ _).mono ?_
      intro _ t loud
      simp only [ensures_textNodeFrom, ensures_pure]
      exact .loud loud
    · next isClosed =>
      simp only [ensures_bind, ensures_textNodeFrom, ensures_pure, textSince_advanceBy]
      intro allowed quiet
      have node := allowed ⟨.string, _, [], _⟩ (by
        rw [HasNodes.nodes_some, HasNodes.nodes_node, Node.nodesOf_singleton]
        exact List.mem_cons_self)
      have leads := closed s.cursor _ quote (by simpa using isClosed) node
      exact ⟨⟨quiet.room, quiet.errors, quiet.nested⟩, leads⟩
  · exact .refl s []

/-! ## Between double brackets -/

section

variable (string : OnCourse K string)

include string

theorem filterArgument_onCourse : OnCourse K filterArgument := by
  intro limits s
  simp only [filterArgument, ensures_bind, ensures_skipInlineBlank]
  refine ((string.orReport _).onCourse limits _).mono ?_
  intro argument t hargument
  refine (eatChar_onCourse K (by decide) limits _).mono ?_
  intro closed u hu
  refine .complaint K (reportHere_loud _) ?_
  intro v hv
  rw [ensures_pure, HasNodes.nodes_list, ← HasNodes.nodes_option]
  exact Course.Keeps.inline.after (hargument.upTo (Course.Keeps.inline.after (hu.upTo hv)))

theorem filter_onCourse : OnCourse K filter := by
  intro limits s
  simp only [filter, ensures_bind, ensures_cursor]
  refine ((identifier_onCourse K).orReport _ limits s).mono ?_
  rintro (_ | name) t hname
  · exact .loud hname
  · simp only [ensures_bind]
    refine (eatChar_onCourse K (by decide) limits t).mono ?_
    intro opened u hu
    split
    · refine (filterArgument_onCourse string limits u).bind ?_
      intro argument v hargument
      rw [HasNodes.nodes_list] at hargument
      exact (Course.Keeps.trans hname (hu.after hargument)).node
    · exact (reportHere_loud _).bind fun _ _ loud => .loud loud

theorem listFilter_onCourse : OnCourse K listFilter := by
  intro limits s
  simp only [listFilter, ensures_bind]
  refine (eatChar_onCourse K (by decide) limits s).mono ?_
  intro announced t ht
  split
  · simp only [ensures_bind, ensures_skipInlineBlank]
    refine (filter_onCourse string limits _).mono ?_
    intro filter u hfilter
    rw [ensures_pure, HasNodes.nodes_list, ← HasNodes.nodes_option]
    exact ht.after (Course.Keeps.inline.after (hfilter.upTo .inline))
  · exact ht

end

end Parse

end PatternRules
