import PatternRules.Proofs.Layout

/-!
Looking up a position in a tree. An occurrence of a node is given by its address, the indices of the
children on the way down from the root, and an ancestor by a prefix of the address. In a tree that was
read from a text, the nodes whose spans cover a position are ancestors of each other, so the node that is
found is the innermost of them.

* `Node.ReadFrom.covers_between`: a position that a span covers lies between the places the node was
  read from;
* `Node.ReadFrom.covering_chain`: of two covering nodes, one is an ancestor of the other;
* `Node.findAt_spec`: on any tree, what is found covers the position and nothing below it does;
* `lookup_innermost`: all of it for the tree of a text.
-/

namespace PatternRules

namespace Span

/-- The position lies in the span. -/
def Covers (s : Span) (p : Position) : Prop :=
  s.line = p.line ∧ s.column ≤ p.column ∧ p.column < s.stop

theorem contains_ok {s : Span} {p : Position} {answer : Bool} (h : s.contains p = .ok answer) :
    answer = true ↔ s.Covers p := by
  unfold contains at h
  split at h
  · next inFront =>
    unfold endColumn at h
    split at h
    · cases h
      simp [Covers, inFront.1, inFront.2, stop]
    · cases h
  · next notInFront =>
    cases h
    simp only [Bool.false_eq_true, false_iff]
    intro covers
    exact notInFront ⟨covers.1, covers.2.1⟩

theorem contains_isOk {s : Span} (fits : s.stop ≤ maxColumn) (p : Position) :
    ∃ answer, s.contains p = .ok answer := by
  unfold contains
  rw [endColumn_eq fits]
  split
  · exact ⟨_, rfl⟩
  · exact ⟨_, rfl⟩

end Span

namespace Node

/-! ## Addresses -/

/-- The node at an address: a list of indices of children, from the root down. -/
def at? (n : Node) : List Nat → Option Node
  | [] => some n
  | i :: address => n.children[i]?.bind fun c => c.at? address

/-- The node at an address covers the position. -/
def CoversAt (p : Position) (n : Node) (address : List Nat) : Prop :=
  ∃ m, n.at? address = some m ∧ m.span.Covers p

theorem coversAt_nil {p : Position} {n : Node} : n.CoversAt p [] ↔ n.span.Covers p := by
  constructor
  · rintro ⟨m, hm, covers⟩
    cases hm
    exact covers
  · exact fun covers => ⟨n, rfl, covers⟩

theorem coversAt_cons {p : Position} {n : Node} {i : Nat} {address : List Nat} :
    n.CoversAt p (i :: address) ↔ ∃ c, n.children[i]? = some c ∧ c.CoversAt p address := by
  simp only [CoversAt, at?, Option.bind_eq_some_iff]
  constructor
  · rintro ⟨m, ⟨c, hc, hm⟩, covers⟩
    exact ⟨c, hc, m, hm, covers⟩
  · rintro ⟨c, hc, m, hm, covers⟩
    exact ⟨m, ⟨c, hc, hm⟩, covers⟩

/-! ## What covers a position in a tree that was read -/

theorem ReadFrom.covers_between {n : Node} {a b : Cursor} {p : Position} (h : ReadFrom n a b)
    (covers : n.span.Covers p) : a.position ≤ p ∧ p < b.position := by
  obtain ⟨line, column, before⟩ := covers
  rw [h.span_eq] at line column before
  rw [Cursor.line_spanFrom] at line
  rw [Cursor.column_spanFrom] at column
  rw [Cursor.stop_spanFrom h.reaches] at before
  refine ⟨Position.le_iff.2 (.inr ⟨line, column⟩), Position.lt_iff.2 ?_⟩
  by_cases same : b.line = a.line
  · rw [if_pos same] at before
    exact .inr ⟨line.symm.trans same.symm, before⟩
  · have later := h.reaches.line_le
    exact .inl (by show p.line < b.line; omega)

theorem ReadFrom.coversAt_between {n : Node} {a b : Cursor} {p : Position} {address : List Nat}
    (h : ReadFrom n a b) (covers : n.CoversAt p address) : a.position ≤ p ∧ p < b.position := by
  induction address generalizing n a b with
  | nil => exact h.covers_between (coversAt_nil.1 covers)
  | cons i address ih =>
    obtain ⟨c, hc, covers⟩ := coversAt_cons.1 covers
    obtain ⟨x, y, hx, read, hy⟩ := h.children.of_mem (List.mem_of_getElem? hc)
    obtain ⟨start, stop⟩ := ih read covers
    exact ⟨Position.le_trans hx.position_le start, Position.lt_of_lt_of_le stop hy.position_le⟩

/-- No position is covered below two children. -/
theorem ReadFrom.not_both {n c d : Node} {a b : Cursor} {p : Position} {i j : Nat}
    {address address' : List Nat} (h : ReadFrom n a b) (less : i < j)
    (hc : n.children[i]? = some c) (hd : n.children[j]? = some d) (covers : c.CoversAt p address) :
    ¬ d.CoversAt p address' := by
  intro covers'
  obtain ⟨hi, rfl⟩ := List.getElem?_eq_some_iff.1 hc
  obtain ⟨hj, rfl⟩ := List.getElem?_eq_some_iff.1 hd
  obtain ⟨x, y, z, w, readC, hyz, readD⟩ := List.pairwise_iff_getElem.1 h.children.pairwise i j hi hj less
  have behind := (readC.coversAt_between covers).2
  have inFront := (readD.coversAt_between covers').1
  exact Position.not_lt_of_le (Position.le_trans hyz.position_le inFront) behind

/-- **The nodes that cover a position are ancestors of each other.** -/
theorem ReadFrom.covering_chain {n : Node} {a b : Cursor} {p : Position} {q r : List Nat}
    (h : ReadFrom n a b) (hq : n.CoversAt p q) (hr : n.CoversAt p r) : q <+: r ∨ r <+: q := by
  induction q generalizing n a b r with
  | nil => exact .inl List.nil_prefix
  | cons i q ih =>
    cases r with
    | nil => exact .inr List.nil_prefix
    | cons j r =>
      obtain ⟨c, hc, coversC⟩ := coversAt_cons.1 hq
      obtain ⟨d, hd, coversD⟩ := coversAt_cons.1 hr
      rcases Nat.lt_trichotomy i j with less | same | more
      · exact absurd coversD (h.not_both less hc hd coversC)
      · subst same
        rw [hc] at hd
        cases hd
        obtain ⟨x, y, -, read, -⟩ := h.children.of_mem (List.mem_of_getElem? hc)
        rcases ih read coversC coversD with below | below
        · exact .inl (List.cons_prefix_cons.2 ⟨rfl, below⟩)
        · exact .inr (List.cons_prefix_cons.2 ⟨rfl, below⟩)
      · exact absurd coversC (h.not_both more hd hc coversD)

/-! ## What is found -/

/-- What a search for a position finds among the nodes at some addresses: one that covers it and has
nothing below that does, or nothing where none does. -/
def FoundAt (p : Position) (nodeAt? : List Nat → Option Node) : Option Node → Prop
  | none => ∀ address m, nodeAt? address = some m → ¬ m.span.Covers p
  | some found => ∃ address, nodeAt? address = some found ∧ found.span.Covers p ∧
      ∀ below m, nodeAt? (address ++ below) = some m → m.span.Covers p → below = []

/-- The node at an address below several trees. -/
def amongAt? (ns : List Node) : List Nat → Option Node
  | [] => none
  | i :: address => ns[i]?.bind fun c => c.at? address

theorem amongAt?_succ (n : Node) (ns : List Node) (i : Nat) (address : List Nat) :
    amongAt? (n :: ns) ((i + 1) :: address) = amongAt? ns (i :: address) := by
  rw [amongAt?, amongAt?, List.getElem?_cons_succ]

/-- A search below a node that found nothing goes on at the node itself. -/
theorem foundAt_self {p : Position} {n : Node} {answer : Bool}
    (below : FoundAt p (amongAt? n.children) none) (h : n.span.contains p = .ok answer) :
    FoundAt p n.at? (if answer then some n else none) := by
  have covers := Span.contains_ok h
  cases answer with
  | true =>
    refine ⟨[], rfl, covers.1 rfl, ?_⟩
    intro address m hm hcovers
    cases address with
    | nil => rfl
    | cons i address => exact absurd hcovers (below (i :: address) m hm)
  | false =>
    intro address m hm hcovers
    cases address with
    | nil =>
      cases hm
      exact Bool.false_ne_true (covers.2 hcovers)
    | cons i address => exact below (i :: address) m hm hcovers

/-- A search in a list that found nothing in the first tree goes on with the others. -/
theorem foundAt_cons {p : Position} {n : Node} {ns : List Node} {found : Option Node}
    (first : FoundAt p n.at? none) (rest : FoundAt p (amongAt? ns) found) :
    FoundAt p (amongAt? (n :: ns)) found := by
  cases found with
  | none =>
    intro address m hm
    match address, hm with
    | 0 :: address, hm => exact first address m hm
    | (i + 1) :: address, hm => exact rest (i :: address) m (by rwa [amongAt?_succ] at hm)
  | some found =>
    obtain ⟨address, hfound, covers, innermost⟩ := rest
    cases address with
    | nil => cases hfound
    | cons i address =>
      refine ⟨(i + 1) :: address, by rwa [amongAt?_succ], covers, ?_⟩
      intro below m hm
      rw [List.cons_append, amongAt?_succ] at hm
      exact innermost below m hm

mutual

/-- **What is found covers the position, and nothing below it does.** -/
theorem findAt_spec (p : Position) : (n : Node) → {found : Option Node} →
    findAt p n = .ok found → FoundAt p n.at? found
  | ⟨kind, value, children, span⟩, found, h => by
    rw [findAt] at h
    cases among : findAmong p children with
    | error fault =>
      rw [among] at h
      cases h
    | ok below =>
      rw [among] at h
      have spec := findAmong_spec p children among
      cases below with
      | some m =>
        cases h
        obtain ⟨address, hm, covers, innermost⟩ := spec
        cases address with
        | nil => cases hm
        | cons i address => exact ⟨i :: address, hm, covers, innermost⟩
      | none =>
        cases contained : span.contains p with
        | error fault =>
          simp [contained, bind, Except.bind] at h
        | ok answer =>
          simp only [contained, bind, Except.bind] at h
          cases h
          exact foundAt_self spec contained

theorem findAmong_spec (p : Position) : (ns : List Node) → {found : Option Node} →
    findAmong p ns = .ok found → FoundAt p (amongAt? ns) found
  | [], found, h => by
    rw [findAmong] at h
    cases h
    intro address m hm
    cases address <;> cases hm
  | n :: ns, found, h => by
    rw [findAmong] at h
    cases first : findAt p n with
    | error fault =>
      rw [first] at h
      cases h
    | ok inFirst =>
      rw [first] at h
      have spec := findAt_spec p n first
      cases inFirst with
      | some m =>
        cases h
        obtain ⟨address, hm, covers, innermost⟩ := spec
        exact ⟨0 :: address, hm, covers, innermost⟩
      | none => exact foundAt_cons spec (findAmong_spec p ns h)

end

mutual

/-- A search answers if every end column fits. -/
theorem findAt_isOk (p : Position) : (n : Node) → (∀ m ∈ n.nodes, m.span.stop ≤ Span.maxColumn) →
    ∃ found, findAt p n = .ok found
  | ⟨kind, value, children, span⟩, fits => by
    rw [nodes] at fits
    obtain ⟨below, hbelow⟩ :=
      findAmong_isOk p children fun m hm => fits m (List.mem_cons_of_mem _ hm)
    obtain ⟨answer, hanswer⟩ := Span.contains_isOk (fits _ List.mem_cons_self) p
    rw [findAt, hbelow]
    cases below with
    | some m => exact ⟨_, rfl⟩
    | none => exact ⟨if answer then some _ else none, by simp only [bind, Except.bind, hanswer]; rfl⟩

theorem findAmong_isOk (p : Position) : (ns : List Node) →
    (∀ m ∈ nodesOf ns, m.span.stop ≤ Span.maxColumn) → ∃ found, findAmong p ns = .ok found
  | [], _ => ⟨none, by rw [findAmong]; rfl⟩
  | n :: ns, fits => by
    rw [nodesOf] at fits
    obtain ⟨first, hfirst⟩ := findAt_isOk p n fun m hm => fits m (List.mem_append_left _ hm)
    obtain ⟨rest, hrest⟩ := findAmong_isOk p ns fun m hm => fits m (List.mem_append_right _ hm)
    rw [findAmong, hfirst]
    cases first with
    | some m => exact ⟨_, rfl⟩
    | none => exact ⟨rest, hrest⟩

end

end Node

/-- **Looking up a position is unambiguous.** In the tree of a text, the nodes that cover a position are
ancestors of each other. Nothing is found exactly if there are none; otherwise what is found is the
innermost of them: every address of a covering node is a prefix of its address. The search answers unless
the text is so long that a column may leave its range. -/
theorem lookup_innermost (text : String) (p : Position) :
    (∀ q r, (readDocument text).tree.CoversAt p q → (readDocument text).tree.CoversAt p r →
      q <+: r ∨ r <+: q) ∧
    (∀ found, (readDocument text).tree.findAt p = .ok found →
      (found = none ↔ ∀ q, ¬ (readDocument text).tree.CoversAt p q) ∧
      ∀ n, found = some n → ∃ address, (readDocument text).tree.at? address = some n ∧
        (readDocument text).tree.CoversAt p address ∧
        ∀ q, (readDocument text).tree.CoversAt p q → q <+: address) ∧
    (text.toList.length < Span.maxColumn → ∃ found, (readDocument text).tree.findAt p = .ok found) := by
  obtain ⟨stop, read⟩ := readDocument_readFrom text
  generalize (readDocument text).tree = tree at read ⊢
  have chain : ∀ q r, tree.CoversAt p q → tree.CoversAt p r → q <+: r ∨ r <+: q :=
    fun _ _ hq hr => read.covering_chain hq hr
  refine ⟨chain, ?_, ?_⟩
  · intro found h
    have spec := Node.findAt_spec p tree h
    cases found with
    | none =>
      refine ⟨⟨fun _ q covers => ?_, fun _ => rfl⟩, fun n hn => by cases hn⟩
      obtain ⟨m, hm, covers⟩ := covers
      exact spec q m hm covers
    | some n =>
      obtain ⟨address, hn, covers, innermost⟩ := spec
      have here : tree.CoversAt p address := ⟨n, hn, covers⟩
      refine ⟨⟨fun hnone => (by cases hnone), fun none => absurd here (none address)⟩, ?_⟩
      intro n' same
      cases same
      refine ⟨address, hn, here, ?_⟩
      intro q hq
      rcases chain q address hq here with above | ⟨below, rfl⟩
      · exact above
      · obtain ⟨m, hm, coversM⟩ := hq
        have nothing : below = [] := innermost below m hm coversM
        exact ⟨[], by simp [nothing]⟩
  · intro short
    refine Node.findAt_isOk p tree ?_
    intro m hm
    obtain ⟨x, y, hx, readHere, -⟩ := read.of_mem_nodes tree m hm
    exact Nat.le_trans (readHere.stop_le hx) short

end PatternRules
