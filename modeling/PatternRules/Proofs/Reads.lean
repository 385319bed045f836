import PatternRules.Proofs.Ensures
import PatternRules.Proofs.NodeGrammar

/-!
What every part of the parser reads. `Reads kinds p` says of a reading `p`, from any state, that it ends
at or behind where it started, that the nodes it gives were read in between, and that their kinds satisfy
`kinds`. The contracts of the combinators come first, then those of the leaves.
-/

namespace PatternRules

/-- Results that hold nodes, in the order in which they were read. -/
class HasNodes (α : Type) where
  nodes : α → List Node

namespace HasNodes

variable {α : Type}

instance : HasNodes Node := ⟨fun n => [n]⟩

instance [HasNodes α] : HasNodes (Option α) := ⟨fun r => r.elim [] nodes⟩

instance [HasNodes α] : HasNodes (List α) := ⟨fun rs => rs.flatMap nodes⟩

@[simp]
theorem nodes_node (n : Node) : nodes n = [n] := rfl

@[simp]
theorem nodes_none [HasNodes α] : nodes (none : Option α) = [] := rfl

@[simp]
theorem nodes_some [HasNodes α] (a : α) : nodes (some a) = nodes a := rfl

theorem nodes_option (n : Option Node) : nodes n = n.toList := by
  cases n with
  | none => rfl
  | some n => rfl

@[simp]
theorem nodes_cons [HasNodes α] (a : α) (as : List α) : nodes (a :: as) = nodes a ++ nodes as := rfl

@[simp]
theorem nodes_list (ns : List Node) : nodes ns = ns := by
  induction ns with
  | nil => rfl
  | cons n ns ih => rw [nodes_cons, nodes_node, ih, List.singleton_append]

@[simp]
theorem nodes_lists (nss : List (List Node)) : nodes nss = nss.flatten := by
  induction nss with
  | nil => rfl
  | cons ns nss ih => rw [nodes_cons, nodes_list, ih, List.flatten_cons]

end HasNodes

/-- Every kind of a list satisfies `P`. -/
def Each (P : Kind → Bool) (kinds : List Kind) : Prop := kinds.all P = true

theorem each_of_each {P Q : Kind → Bool} (weaker : ∀ k, P k = true → Q k = true) (kinds : List Kind)
    (h : Each P kinds) : Each Q kinds := by
  unfold Each at h ⊢
  rw [List.all_eq_true] at h ⊢
  exact fun k hk => weaker k (h k hk)

/-- The nodes were read between two places, and their kinds satisfy `kinds`. -/
structure Found (kinds : List Kind → Prop) (ns : List Node) (a b : Cursor) : Prop where
  read : Node.AllReadFrom ns a b
  kinds : kinds (ns.map Node.kind)

namespace Found

variable {kinds : List Kind → Prop} {P : Kind → Bool} {ns ms : List Node} {a b c : Cursor}

theorem none (h : a.Reaches b) (nothing : kinds []) : Found kinds [] a b := ⟨.nil h, nothing⟩

theorem after (h : a.Reaches b) (found : Found kinds ns b c) : Found kinds ns a c :=
  ⟨.after h found.read, found.kinds⟩

theorem upTo (found : Found kinds ns a b) (h : b.Reaches c) : Found kinds ns a c :=
  ⟨.upTo found.read h, found.kinds⟩

theorem node {n : Node} (h : n.ReadFrom a b) (hk : P n.kind = true) : Found (Each P) [n] a b :=
  ⟨.single h, by simp [Each, hk]⟩

theorem kind {n : Node} (found : Found (Each P) [n] a b) : P n.kind = true := by
  simpa [Each] using found.kinds

/-- A parent that admits some kinds, with and without one more, admits them and the kind of a part that
may be missing. -/
theorem fits {parent k : Kind} {part : Option Node}
    (found : Found (Each (· == k)) part.toList a b) (front : List Kind)
    (nothing : parent.admits (front ++ []) = true) (one : parent.admits (front ++ [k]) = true) :
    parent.admits (front ++ part.toList.map Node.kind) = true := by
  cases part with
  | none => exact nothing
  | some part =>
    rw [Option.toList_some, List.map_singleton, beq_iff_eq.1 found.kind]
    exact one

theorem append (found : Found (Each P) ns a b) (rest : Found (Each P) ms b c) :
    Found (Each P) (ns ++ ms) a c := by
  refine ⟨found.read.append rest.read, ?_⟩
  rw [Each, List.map_append, List.all_append, Bool.and_eq_true]
  exact ⟨found.kinds, rest.kinds⟩

end Found

namespace Parse

variable {α : Type} [HasNodes α] {kinds : List Kind → Prop} {P : Kind → Bool}

/-- From every state, the nodes that `p` gives were read from there to where it ends. -/
def Reads (kinds : List Kind → Prop) (p : Parse α) : Prop :=
  ∀ limits s, Ensures limits s p fun r t => Found kinds (HasNodes.nodes r) s.cursor t.cursor

/-- From every state, `p` ends at or behind where it started. -/
def Moves {α : Type} (p : Parse α) : Prop :=
  ∀ limits s, Ensures limits s p fun _ t => s.cursor.Reaches t.cursor

/-! ## Steps without nodes -/

theorem report_keeps (complaint : Complaint) (span : Span) (limits : Limits) (s : ParseState) :
    Ensures limits s (report complaint span) fun _ t => t.cursor = s.cursor := by
  simp only [report, ensures_bind, ensures_errorsFull]
  split
  · rfl
  · rfl

theorem reportHere_keeps (complaint : Complaint) (limits : Limits) (s : ParseState) :
    Ensures limits s (reportHere complaint) fun _ t => t.cursor = s.cursor :=
  report_keeps complaint _ limits s

/-- A complaint on the way does not move the cursor. -/
theorem Ensures.reporting {β : Type} {limits : Limits} {s : ParseState} {complain : Parse Unit}
    {rest : Unit → Parse β} {post : β → ParseState → Prop} {c : Prop} [Decidable c]
    (keeps : ∀ limits s, Ensures limits s complain fun _ t => t.cursor = s.cursor)
    (h : ∀ t : ParseState, t.cursor = s.cursor → Ensures limits t (rest ()) post) :
    Ensures limits s (if c then complain >>= rest else rest ()) post := by
  split
  · exact (keeps limits s).bind fun _ t ht => h t ht
  · exact h s rfl

theorem report_moves (complaint : Complaint) (span : Span) : Moves (report complaint span) := by
  intro limits s
  refine (report_keeps complaint span limits s).mono ?_
  rintro _ t h
  exact h ▸ .refl _

theorem reportHere_moves (complaint : Complaint) : Moves (reportHere complaint) := by
  intro limits s
  refine (reportHere_keeps complaint limits s).mono ?_
  rintro _ t h
  exact h ▸ .refl _

theorem accept_moves {match? : Cursor → Option Cursor}
    (h : ∀ c d, match? c = some d → c.Reaches d) : Moves (accept match?) := by
  intro limits s
  simp only [accept, ensures_bind, ensures_cursor]
  split
  · next d hd => exact h _ _ hd
  · exact .refl _

theorem eatChar_moves (c : Char) : Moves (eatChar c) :=
  accept_moves fun _ _ => Cursor.reaches_of_consume?

theorem eatLiteral_moves (literal : String) : Moves (eatLiteral literal) :=
  accept_moves fun _ _ => Cursor.reaches_of_consumeLiteral?

theorem eatWord_moves (word : String) : Moves (eatWord word) :=
  accept_moves fun _ _ => Cursor.reaches_of_consumeWord?

/-! ## Combinators -/

theorem Reads.orReport {p : Parse (Option α)} (h : Reads kinds p) (complaint : Complaint) :
    Reads kinds (orReport complaint p) := by
  intro limits s
  simp only [Parse.orReport, ensures_bind]
  refine (h limits s).mono ?_
  intro r t found
  refine .reporting (reportHere_keeps complaint) ?_
  intro u hu
  rw [ensures_pure, hu]
  exact found

theorem Reads.afterBlank {p : Parse (Option α)} (h : Reads kinds p) (nothing : kinds []) :
    Reads kinds (afterBlank p) := by
  intro limits s
  simp only [Parse.afterBlank, ensures_bind, ensures_cursor, ensures_skipBlank]
  refine (h limits _).mono ?_
  rintro (_ | r) t found
  · exact .none (.refl _) nothing
  · exact .after (Cursor.reaches_skipBlank _) found

theorem Moves.found {p : Parse Bool} (h : Moves p) : Moves (found p) := by
  intro limits s
  exact h limits s

theorem Moves.afterBlank {p : Parse (Option Unit)} (h : Moves p) : Moves (afterBlank p) := by
  intro limits s
  simp only [Parse.afterBlank, ensures_bind, ensures_cursor, ensures_skipBlank]
  refine (h limits _).mono ?_
  rintro (_ | _) t reaches
  · exact .refl _
  · exact (Cursor.reaches_skipBlank _).trans reaches

theorem Moves.orReport {β : Type} {p : Parse (Option β)} (h : Moves p) (complaint : Complaint) :
    Moves (orReport complaint p) := by
  intro limits s
  simp only [Parse.orReport, ensures_bind]
  refine (h limits s).mono ?_
  intro r t reaches
  refine .reporting (reportHere_keeps complaint) ?_
  intro u hu
  rw [ensures_pure, hu]
  exact reaches

theorem eatCharAfterBlank_moves (c : Char) : Moves (eatCharAfterBlank c) :=
  (eatChar_moves c).found.afterBlank

theorem eatWordAfterBlank_moves (word : String) : Moves (eatWordAfterBlank word) :=
  (eatWord_moves word).found.afterBlank

theorem Reads.manyFuel {step : Parse (Option α)} (h : Reads (Each P) step) (fuel : Nat) :
    Reads (Each P) (manyFuel step fuel) := by
  intro limits s
  induction fuel generalizing s with
  | zero => exact .none (.refl _) rfl
  | succ fuel ih =>
    simp only [Parse.manyFuel, ensures_bind]
    refine (h limits s).mono ?_
    rintro (_ | r) t found
    · exact found
    · refine (ih t).bind ?_
      intro rs u rest
      exact found.append rest

theorem Reads.many {step : Parse (Option α)} (h : Reads (Each P) step) :
    Reads (Each P) (many step) :=
  fun limits s => h.manyFuel _ limits s

theorem Reads.commaList {item : Parse (Option α)} (h : Reads (Each P) item) :
    Reads (Each P) (commaList item) := by
  have next : Reads (Each P) (do if ← eatCharAfterBlank ',' then item else return none) := by
    intro limits s
    simp only [ensures_bind]
    refine (eatCharAfterBlank_moves ',' limits s).mono ?_
    intro ok t reaches
    split
    · refine (h limits t).mono ?_
      intro r u found
      exact .after reaches found
    · exact .none reaches rfl
  intro limits s
  simp only [Parse.commaList, ensures_bind]
  refine (h limits s).mono ?_
  rintro (_ | r) t found
  · exact found
  · refine (next.many limits t).bind ?_
    intro rs u rest
    exact found.append rest

theorem Reads.weaken {p : Parse α} {kinds' : List Kind → Prop} (h : Reads kinds p)
    (weaker : ∀ ks, kinds ks → kinds' ks) : Reads kinds' p := by
  intro limits s
  refine (h limits s).mono ?_
  intro r t found
  exact ⟨found.read, weaker _ found.kinds⟩

/-- Nodes of one kind are nodes of any class of kinds it belongs to. -/
theorem Reads.ofKind {p : Parse α} {k : Kind} (h : Reads (Each (· == k)) p) (hk : P k = true) :
    Reads (Each P) p := by
  refine h.weaken (each_of_each ?_)
  intro k' same
  rw [beq_iff_eq] at same
  exact same ▸ hk

/-! ## Leaves -/

theorem takeLeaf_reads {k : Kind} (text : k.hasText = true) (leaf : k.admits [] = true) (n : Nat) :
    Reads (Each (· == k)) (takeLeaf k n) := by
  intro limits s
  simp only [takeLeaf, ensures_bind, ensures_cursor, ensures_move, ensures_textNodeFrom]
  exact .node (.ofText (.nil (Cursor.reaches_advanceBy n _)) text leaf) (beq_self_eq_true k)

theorem identifier_reads : Reads (Each (· == .identifier)) identifier := by
  intro limits s
  simp only [identifier, ensures_bind, ensures_cursor]
  split
  · exact takeLeaf_reads rfl rfl _ limits s
  · exact .none (.refl _) rfl

theorem string_reads : Reads (Each (· == .string)) string := by
  intro limits s
  simp only [string, ensures_bind, ensures_cursor]
  split
  · simp only [ensures_bind, ensures_move]
    have reaches := Cursor.reaches_advanceBy ((stringTail s.cursor.rest.tail).1 + 1) s.cursor
    split
    · simp only [ensures_bind, ensures_spanFrom]
      refine (report_keeps _ _ limits _).mono ?_
      intro _ t ht
      simp only [ensures_textNodeFrom, ensures_pure, ht]
      exact .node (.ofText (.nil reaches) rfl rfl) rfl
    · simp only [ensures_bind, ensures_textNodeFrom, ensures_pure]
      exact .node (.ofText (.nil reaches) rfl rfl) rfl
  · exact .none (.refl _) rfl

theorem textSince_run (c : Cursor) (p : Char → Bool) :
    (c.advanceBy (c.run p).length).textSince c = c.run p := by
  have run_le : (c.run p).length ≤ c.rest.length := (List.takeWhile_prefix p).length_le
  rw [Cursor.textSince, Cursor.pos_advanceBy, Nat.min_eq_left run_le, Nat.add_sub_cancel_left]
  exact (List.prefix_iff_eq_take.1 (List.takeWhile_prefix p)).symm

theorem number_reads : Reads (Each (· == .number)) number := by
  intro limits s
  simp only [number, ensures_bind, ensures_cursor]
  split
  · exact .none (.refl _) rfl
  · simp only [ensures_bind, ensures_move, ensures_spanFrom]
    have read := Node.ReadFrom.ofDigits
      (Cursor.reaches_advanceBy (s.cursor.run Char.isDigit).length s.cursor)
    rw [textSince_run] at read
    split
    · next small =>
      rw [Nat.min_eq_left small] at read
      exact .node read rfl
    · next large =>
      refine (report_keeps _ _ limits _).bind ?_
      intro _ t ht
      rw [ensures_pure, ht]
      rw [Nat.min_eq_right (Nat.le_of_not_le large)] at read
      exact .node read rfl

end Parse

end PatternRules
