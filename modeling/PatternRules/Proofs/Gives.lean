import PatternRules.Proofs.Reads

/-!
What sort of nodes a reading gives. `Gives limits Q p` says that each node of the result of `p` satisfies `Q`,
wherever `p` starts. That goes through the combinators whatever `Q` is, and where the grammar of trees has the
answer, it follows from how the nodes were read (`Gives.of_reads`).
-/

namespace PatternRules.Parse

variable {α β : Type} {limits : Limits} {s : ParseState}

/-! ## Steps -/

/-- What is read on the way does not matter. -/
theorem Ensures.anyway {p : Parse α} {f : α → Parse β} {post : β → ParseState → Prop}
    (h : ∀ a t, Ensures limits t (f a) post) : Ensures limits s (p >>= f) post :=
  h _ _

theorem Ensures.eitherWay {c : Prop} [Decidable c] {complain : Parse Unit} {rest : Unit → Parse β}
    {post : β → ParseState → Prop} (h : ∀ t, Ensures limits t (rest ()) post) :
    Ensures limits s (if c then complain >>= rest else rest ()) post := by
  split
  · exact .anyway fun _ => h
  · exact h s

/-- From every state, each node that `p` gives satisfies `Q`. -/
def Gives [HasNodes α] (limits : Limits) (Q : Node → Prop) (p : Parse α) : Prop :=
  ∀ s, Ensures limits s p fun r _ => ∀ n ∈ HasNodes.nodes r, Q n

namespace Gives

variable [HasNodes α] {Q : Node → Prop}

/-- What the grammar of trees says of the nodes of some kinds. -/
theorem of_reads {p : Parse α} {kinds : List Kind → Prop} {P : Kind → Prop} (h : Reads kinds p)
    (each : ∀ ks, kinds ks → ∀ k ∈ ks, P k) (q : ∀ n a b, Node.ReadFrom n a b → P n.kind → Q n) :
    Gives limits Q p := by
  intro s
  refine (h limits s).mono fun r t found n mem => ?_
  obtain ⟨x, y, -, read, -⟩ := found.read.of_mem mem
  exact q n x y read (each _ found.kinds _ (List.mem_map_of_mem mem))

theorem orReport {p : Parse (Option α)} (h : Gives limits Q p) (complaint : Complaint) :
    Gives limits Q (orReport complaint p) :=
  fun s => (h s).bind fun _ _ given => .eitherWay fun _ => given

theorem afterBlank {p : Parse (Option α)} (h : Gives limits Q p) : Gives limits Q (afterBlank p) := by
  intro s
  simp only [Parse.afterBlank, ensures_bind, ensures_cursor, ensures_skipBlank]
  refine (h _).mono ?_
  rintro (_ | a) t given
  · exact given
  · exact given

theorem manyFuel {step : Parse (Option α)} (h : Gives limits Q step) (fuel : Nat) :
    Gives limits Q (manyFuel step fuel) := by
  intro s
  induction fuel generalizing s with
  | zero => exact List.forall_mem_nil _
  | succ fuel ih =>
    refine (h s).bind ?_
    rintro (_ | a) t given
    · exact List.forall_mem_nil _
    · refine (ih t).bind fun as u further => ?_
      rw [ensures_pure, HasNodes.nodes_cons, List.forall_mem_append]
      exact ⟨given, further⟩

theorem many {step : Parse (Option α)} (h : Gives limits Q step) : Gives limits Q (many step) :=
  fun s => h.manyFuel _ s

theorem commaList {item : Parse (Option α)} (h : Gives limits Q item) : Gives limits Q (commaList item) := by
  have next : Gives limits Q (do if ← eatCharAfterBlank ',' then item else return none) := by
    intro s
    refine .anyway fun comma t => ?_
    split
    · exact h t
    · exact List.forall_mem_nil _
  intro s
  refine (h s).bind ?_
  rintro (_ | first) t given
  · exact List.forall_mem_nil _
  · refine (next.many t).bind fun further u rest => ?_
    rw [ensures_pure, HasNodes.nodes_cons, List.forall_mem_append]
    exact ⟨given, rest⟩

/-- A node without a value above what was read. -/
theorem branchFrom {kind : Kind} {start : Cursor} {children : List Node}
    (h : ∀ span, Q (.branch kind children span)) :
    Ensures limits s (branchFrom kind start children) fun r _ => ∀ n ∈ HasNodes.nodes r, Q n :=
  List.forall_mem_singleton.2 (h _)

end Gives

end PatternRules.Parse
