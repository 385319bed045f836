import PatternRules.Proofs.Height
import PatternRules.Proofs.Twin

/-!
What sort of nodes a text gives. `Yields text Q p` says that `p`, read from any place of the text, ends at a place
of the text, and that each node it gives satisfies `Q`. Unlike `Gives` it may speak of the places where nodes
were read.

What stands between the root and what holds no expression has no value of its own, so that `Q` only has to be
shown of the parts (`Spine`).

* `Yields.bind`, `Yields.passing`: two readings in a row;
* `Spine.expressionWithin`: expressions at every level of nesting;
* `readDocument_yields`: all of the tree of a text.
-/

namespace PatternRules

namespace Kind

/-- Classes, and what stands in them and nowhere else. -/
def isOfClass : Kind → Bool
  | charClass | charRange | char => true
  | _ => false

theorem isFlat_of_isOfClass {k : Kind} (ofClass : k.isOfClass = true) : k.isFlat = true := by
  revert ofClass
  cases k <;> decide

/-- Whether a node of this kind is no part of a class and holds neither an expression nor a class. -/
def isClassless (k : Kind) : Bool := k.isFlat && !k.isOfClass

theorem isClassless_parts {k : Kind} (classless : k.isClassless = true) :
    ∀ k' ∈ k.parts, k'.isClassless = true := by
  revert classless
  cases k <;> decide

end Kind

namespace Parse

variable {α β : Type} {text : List Char} {Q : Node → Prop}

theorem cursor_moves : Moves cursor := fun _ _ => .refl _

theorem move_moves {f : Cursor → Cursor} (h : ∀ c : Cursor, c.Reaches (f c)) : Moves (move f) :=
  fun _ s => h s.cursor

theorem reportUnlessNested_moves (complaint : Complaint) : Moves (reportUnlessNested complaint) := by
  intro limits s
  refine (reportUnlessNested_keeps complaint limits s).mono ?_
  intro _ t same
  exact same ▸ .refl _

theorem reportNesting_moves : Moves reportNesting := by
  intro limits s
  refine (reportNesting_keeps limits s).mono ?_
  intro _ t same
  exact same ▸ .refl _

/-- From every place of the text, `p` comes to a place of it, and each node that it gives satisfies `Q`. -/
def Yields [HasNodes α] (text : List Char) (Q : Node → Prop) (p : Parse α) : Prop :=
  ∀ limits s, (Cursor.ofChars text).Reaches s.cursor → Ensures limits s p fun r t =>
    (Cursor.ofChars text).Reaches t.cursor ∧ ∀ n ∈ HasNodes.nodes r, Q n

namespace Yields

variable [HasNodes α] [HasNodes β]

theorem pure {a : α} (h : ∀ n ∈ HasNodes.nodes a, Q n) : Yields text Q (Pure.pure a) :=
  fun _ _ reached => ⟨reached, h⟩

theorem nothing : Yields text Q (Pure.pure (none : Option α)) := pure (List.forall_mem_nil _)

theorem bind {p : Parse α} {f : α → Parse β} (h : Yields text Q p)
    (next : ∀ a, (∀ n ∈ HasNodes.nodes a, Q n) → Yields text Q (f a)) : Yields text Q (p >>= f) :=
  fun limits s reached =>
    (h limits s reached).bind fun a t ⟨reached', given⟩ => next a given limits t reached'

/-- Something is read on the way that gives no node. -/
theorem passing {γ : Type} {p : Parse γ} {f : γ → Parse β} (moves : Moves p)
    (next : ∀ a, Yields text Q (f a)) : Yields text Q (p >>= f) :=
  fun limits s reached => (moves limits s).bind fun a t ahead => next a limits t (reached.trans ahead)

/-- Something is complained about on the way, or not. -/
theorem complaining {c : Prop} [Decidable c] {complain : Parse Unit} {rest : Unit → Parse β}
    (moves : Moves complain) (h : Yields text Q (rest ())) :
    Yields text Q (if c then complain >>= rest else rest ()) := by
  split
  · exact passing moves fun _ => h
  · exact h

theorem branchFrom {kind : Kind} {start : Cursor} {children : List Node}
    (h : ∀ span, Q (.branch kind children span)) : Yields text Q (branchFrom kind start children) :=
  fun _ _ reached => ⟨reached, List.forall_mem_singleton.2 (h _)⟩

/-- A result of which something is made that has the same nodes. -/
theorem asSome {p : Parse α} (h : Yields text Q p) : Yields text Q (do return some (← p)) :=
  h.bind fun _ given => pure given

theorem of_reads {p : Parse α} {kinds : List Kind → Prop} {P : Kind → Prop} (h : Reads kinds p)
    (each : ∀ ks, kinds ks → ∀ k ∈ ks, P k)
    (q : ∀ n a b, (Cursor.ofChars text).Reaches a → Node.ReadFrom n a b → P n.kind → Q n) :
    Yields text Q p := by
  intro limits s reached
  refine (h limits s).mono fun r t found => ⟨reached.trans found.read.reaches, fun n mem => ?_⟩
  obtain ⟨x, y, before, read, -⟩ := found.read.of_mem mem
  exact q n x y (reached.trans before) read (each _ found.kinds _ (List.mem_map_of_mem mem))

theorem orReport {p : Parse (Option α)} (h : Yields text Q p) (complaint : Complaint) :
    Yields text Q (orReport complaint p) :=
  h.bind fun _ given => complaining (reportHere_moves complaint) (pure given)

theorem afterBlank {p : Parse (Option α)} (h : Yields text Q p) : Yields text Q (afterBlank p) := by
  intro limits s reached
  simp only [Parse.afterBlank, ensures_bind, ensures_cursor, ensures_skipBlank]
  refine (h limits _ (reached.trans (Cursor.reaches_skipBlank _))).mono ?_
  rintro (_ | a) t ⟨reached', given⟩
  · exact ⟨reached, given⟩
  · exact ⟨reached', given⟩

theorem manyFuel {step : Parse (Option α)} (h : Yields text Q step) (fuel : Nat) :
    Yields text Q (manyFuel step fuel) := by
  induction fuel with
  | zero => exact pure (List.forall_mem_nil _)
  | succ fuel ih =>
    refine h.bind ?_
    rintro (_ | a) given
    · exact pure (List.forall_mem_nil _)
    · refine ih.bind fun as further => pure ?_
      rw [HasNodes.nodes_cons, List.forall_mem_append]
      exact ⟨given, further⟩

theorem many {step : Parse (Option α)} (h : Yields text Q step) : Yields text Q (many step) :=
  fun limits s => h.manyFuel _ limits s

theorem enclosed {inner : Parse (Option Node)} (h : Yields text Q inner) (missing : Complaint) :
    Yields text Q (enclosed missing inner) := by
  refine h.afterBlank.bind fun body given => .complaining (reportUnlessNested_moves missing) ?_
  refine .passing (eatCharAfterBlank_moves ')') fun closed => .complaining (reportUnlessNested_moves _) ?_
  rw [HasNodes.nodes_option] at given
  refine .pure ?_
  rwa [HasNodes.nodes_list]

end Yields

/-! ## From the root to what holds no expression -/

/-- `Q` goes up from parts to what stands above them, and is so of what holds neither an expression nor a class. -/
structure Spine (text : List Char) (Q : Node → Prop) : Prop where
  above : ∀ {kind : Kind} {children : List Node} {span : Span}, kind.isFlat = false →
    (∀ c ∈ children, Q c) → Q (.branch kind children span)
  classless : ∀ {n : Node} {a b : Cursor}, (Cursor.ofChars text).Reaches a → n.ReadFrom a b →
    n.kind.isClassless = true → Q n
  atom : Yields text Q atom

namespace Spine

variable (H : Spine text Q)
include H

theorem of_reads [HasNodes α] {p : Parse α} {kinds : List Kind → Prop} (h : Reads kinds p)
    (each : ∀ ks, kinds ks → ∀ k ∈ ks, k.isClassless = true) : Yields text Q p :=
  .of_reads h each fun _ _ _ => H.classless

theorem of_each [HasNodes α] {p : Parse α} {P : Kind → Bool} (h : Reads (Each P) p)
    (each : ∀ k, P k = true → k.isClassless = true) : Yields text Q p :=
  H.of_reads h fun _ all k mem => each k (List.all_eq_true.1 all k mem)

theorem of_kind [HasNodes α] {p : Parse α} {k : Kind} (h : Reads (Each (· == k)) p)
    (classless : k.isClassless = true) : Yields text Q p :=
  H.of_each h fun _ same => eq_of_beq same ▸ classless

section

variable {inner : Parse (Option Node)} (h : Yields text Q inner)
include h

theorem group : Yields text Q (group inner) := by
  refine .passing cursor_moves fun start => .passing (move_moves Cursor.reaches_advance) fun _ => ?_
  refine (h.enclosed _).bind fun body given => .branchFrom fun span => H.above rfl ?_
  rwa [HasNodes.nodes_list] at given

theorem captureParts : Yields text Q (captureParts inner) := by
  refine ((H.of_kind identifier_reads rfl).orReport _).bind ?_
  rintro (_ | name) given
  · exact .pure (List.forall_mem_nil _)
  · have front : ∀ n ∈ [name], Q n := given
    refine .passing (eatChar_moves '>') fun named => ?_
    split
    · refine (h.enclosed _).bind fun body inside => .pure ?_
      rw [HasNodes.nodes_list] at inside ⊢
      exact List.forall_mem_cons.2 ⟨front name List.mem_cons_self, inside⟩
    · refine .passing (reportHere_moves _) fun _ => .pure ?_
      rwa [HasNodes.nodes_list]

theorem namedCapture : Yields text Q (namedCapture inner) := by
  refine .passing cursor_moves fun start => .passing (move_moves (Cursor.reaches_advanceBy 4)) fun _ => ?_
  refine (H.captureParts h).bind fun parts given => .branchFrom fun span => H.above rfl ?_
  rwa [HasNodes.nodes_list] at given

theorem primary : Yields text Q (primary inner) := by
  refine .passing cursor_moves fun c => ?_
  split
  · exact (H.namedCapture h).asSome
  · split
    · exact (H.group h).asSome
    · split
      · exact (H.of_kind listMatch_reads rfl).asSome
      · exact H.atom

theorem quantified : Yields text Q (quantified inner) := by
  have quantifiers : Yields text Q quantifier := H.of_each quantifier_reads fun k isQuantifier => by
    revert isQuantifier
    cases k <;> decide
  refine .passing cursor_moves fun start => (H.primary h).bind ?_
  rintro (_ | subject) given
  · exact .nothing
  · have front : ∀ n ∈ [subject], Q n := given
    refine quantifiers.bind ?_
    rintro (_ | quantifier) behind
    · exact .pure given
    · refine Yields.asSome (.branchFrom fun span => H.above rfl ?_)
      exact List.forall_mem_cons.2 ⟨front subject List.mem_cons_self, behind⟩

theorem item : Yields text Q (item inner) := by
  refine .passing (fun _ _ => .refl _) fun stops => ?_
  split
  · exact .nothing
  · exact H.quantified h

omit h in
/-- Parts, one behind the other, under one node if there are several. -/
theorem chain {p step : Parse (Option Node)} {kind : Kind} (notFlat : kind.isFlat = false)
    (first : Yields text Q p) (further : Yields text Q step) : Yields text Q (do
      let start ← cursor
      match ← p with
      | none => return none
      | some first =>
        let further ← many step
        joined kind start first further) := by
  refine .passing cursor_moves fun start => first.bind ?_
  rintro (_ | first) given
  · exact .nothing
  · have front : ∀ n ∈ [first], Q n := given
    refine further.many.bind fun further behind => ?_
    rw [HasNodes.nodes_list] at behind
    unfold joined
    split
    · exact .pure given
    · refine Yields.asSome (.branchFrom fun span => H.above notFlat ?_)
      exact List.forall_mem_cons.2 ⟨front first List.mem_cons_self, behind⟩

theorem concatenation : Yields text Q (concatenation inner) := H.chain rfl (H.item h) (H.item h).afterBlank

theorem nextBranch : Yields text Q (nextBranch inner) := by
  refine .passing (eatCharAfterBlank_moves '|') fun bar => ?_
  split
  · exact (H.concatenation h).afterBlank.orReport _
  · exact .nothing

theorem alternation : Yields text Q (alternation inner) := H.chain rfl (H.concatenation h) (H.nextBranch h)

end

/-- **Expressions at every level of nesting.** The induction is on the levels that are left. -/
theorem expressionWithin (levels : Nat) : Yields text Q (expressionWithin levels) := by
  induction levels with
  | zero => exact .passing reportNesting_moves fun _ => .nothing
  | succ levels ih => exact H.alternation ih

theorem expression : Yields text Q expression := fun limits => H.expressionWithin limits.depth limits

theorem ruleTail (name : String) : Yields text Q (ruleTail name) := by
  refine .passing (singleEquals_moves.afterBlank.orReport _) ?_
  rintro (_ | _)
  · exact .pure (List.forall_mem_nil _)
  · refine (H.expression.afterBlank.orReport _).bind ?_
    rintro (_ | body) given
    · exact .pure (List.forall_mem_nil _)
    · have front : ∀ n ∈ [body], Q n := given
      refine (H.of_kind ruleUses_reads rfl).afterBlank.bind fun clause behind => .pure ?_
      rw [HasNodes.nodes_option] at behind
      exact List.forall_mem_cons.2 ⟨front body List.mem_cons_self, behind⟩

theorem rule : Yields text Q rule := by
  refine .passing cursor_moves fun start => .passing (fun _ _ => .refl _) fun before => ?_
  refine (H.of_kind identifier_reads rfl).bind ?_
  rintro (_ | name) given
  · exact .nothing
  · have front : ∀ n ∈ [name], Q n := given
    refine (H.ruleTail _).bind fun tail behind => ?_
    have below : ∀ n ∈ name :: tail.1, Q n := List.forall_mem_cons.2 ⟨front name List.mem_cons_self, behind⟩
    have node : Yields text Q (branchFrom .ruleDefinition start (name :: tail.1)) :=
      .branchFrom fun span => H.above rfl below
    exact node.bind fun node given => .passing (fun _ _ => .refl _) fun errors => .pure given

theorem nextRule : Yields text Q nextRule := by
  refine .passing cursor_moves fun c => .passing (fun _ _ => .refl _) fun full => ?_
  split
  · exact .nothing
  · refine H.rule.bind ?_
    rintro (_ | rule) given
    · exact .nothing
    · refine .complaining (move_moves Cursor.reaches_synchronize) ?_
      exact .passing (move_moves Cursor.reaches_skipBlank) fun _ => .pure given

theorem document : Yields text Q document := by
  have versions : Yields text Q versionSection := H.of_reads versionSection_reads fun ks kinds k mem => by
    rcases kinds with rfl | rfl
    · cases mem
    · rw [List.mem_singleton.1 mem]
      rfl
  have resolvers : Yields text Q resolverSection := H.of_reads resolverSection_reads fun ks kinds k mem => by
    rcases kinds with rfl | rfl
    · cases mem
    · rw [List.mem_singleton.1 mem]
      rfl
  refine .passing cursor_moves fun start => .passing (move_moves Cursor.reaches_skipBlank) fun _ => ?_
  refine versions.bind fun version first => (H.of_kind nextImport_reads rfl).many.bind fun imports second => ?_
  refine resolvers.bind fun resolver third => H.nextRule.many.bind fun rules last => ?_
  rw [HasNodes.nodes_list] at first second third last
  refine .branchFrom fun span => H.above rfl ?_
  rw [List.forall_mem_append, List.forall_mem_append, List.forall_mem_append]
  exact ⟨⟨⟨first, second⟩, third⟩, last⟩

end Spine

end Parse

/-- **All of the tree of a text.** -/
theorem readDocument_yields {text : String} {Q : Node → Prop} (H : Parse.Spine text.toList Q) :
    Q (readDocument text).tree := by
  rw [tree_readDocument]
  exact (H.document .standard ⟨.ofChars text.toList, [], false⟩ (.refl _)).2 _ (List.mem_singleton_self _)

end PatternRules
