import PatternRules.Proofs.Reads.Document
import PatternRules.Tree.Query

/-!
How the spans of a tree lie in the text. Since every node was read from a part of the text, children
within their parent and siblings one behind the other, their spans nest and follow each other as far as
spans, which end with the line they start on, can show it.

* `Node.ReadFrom.laidOut`: children start on the line of their parent or later, and within it when they
  start on its line; siblings are in order and do not overlap;
* `Node.ReadFrom.starts_sorted`: in pre-order, start positions never go back;
* `spans_laidOut`: both for the tree of every text without carriage returns.
-/

namespace PatternRules

namespace Span

/-- The column behind the span, whether or not it fits in thirty-two bits. -/
def stop (s : Span) : Nat := s.column + s.length

/-- `inner` lies within the span, on the same line. -/
def Holds (s inner : Span) : Prop :=
  s.line = inner.line ∧ s.column ≤ inner.column ∧ inner.stop ≤ s.stop

theorem endColumn_eq {s : Span} (fits : s.stop ≤ maxColumn) : s.endColumn = .ok s.stop :=
  if_pos fits

theorem encloses_eq {s inner : Span} (fits : s.stop ≤ maxColumn) (holds : s.Holds inner) :
    s.encloses inner = .ok true := by
  obtain ⟨line, column, within⟩ := holds
  have fitsInner : inner.stop ≤ maxColumn := Nat.le_trans within fits
  unfold encloses
  rw [if_pos ⟨line, column⟩, endColumn_eq fits, endColumn_eq fitsInner]
  show Except.ok (decide (inner.stop ≤ s.stop)) = _
  rw [decide_eq_true within]

end Span

/-! ## The span between two places -/

namespace Cursor

variable {a b : Cursor}

theorem line_spanFrom (a b : Cursor) : (b.spanFrom a.mark).line = a.line := rfl

theorem column_spanFrom (a b : Cursor) : (b.spanFrom a.mark).column = a.column := rfl

/-- A span ends at the cursor, or with its line. -/
theorem stop_spanFrom (h : a.Reaches b) : (b.spanFrom a.mark).stop =
    if b.line = a.line then b.column else b.lineEndColumn a.mark := by
  show a.column + ((if b.line = a.line then b.column else b.lineEndColumn a.mark) - a.column) = _
  split
  · next same => exact Nat.add_sub_cancel' (h.column_le same)
  · exact Nat.add_sub_cancel' (Nat.le_max_right _ _)

theorem lineEndColumn_eq (h : a.Reaches b) {stop : Nat}
    (found : a.source.lineEnds[a.line - 1]? = some stop) :
    b.lineEndColumn a.mark = max stop a.column := by
  unfold lineEndColumn
  rw [h.source_eq]
  show max (a.source.lineEnds[a.line - 1]?.getD a.column) a.column = _
  rw [found, Option.getD_some]

theorem stop_spanFrom_le {text : List Char} (h : (ofChars text).Reaches a) (h' : a.Reaches b) :
    (b.spanFrom a.mark).stop ≤ text.length + 1 := by
  obtain ⟨stop, found, bound, -⟩ := h.lineEnd
  rw [stop_spanFrom h']
  split
  · exact (h.trans h').column_le_length
  · rw [lineEndColumn_eq h' found]
    exact Nat.max_le.2 ⟨bound, h.column_le_length⟩

/-- Without carriage returns, the span of a part that starts on the line of the whole lies within the
span of the whole. -/
theorem spanFrom_holds {text : List Char} (noReturn : '\r' ∉ text) {x y : Cursor}
    (ha : (ofChars text).Reaches a) (hx : a.Reaches x) (hxy : x.Reaches y) (hy : y.Reaches b)
    (same : x.line = a.line) : (b.spanFrom a.mark).Holds (y.spanFrom x.mark) := by
  refine ⟨same.symm, hx.column_le same, ?_⟩
  obtain ⟨stop, found, -, behind⟩ := (ha.trans hx).lineEnd
  have foundAtA : a.source.lineEnds[a.line - 1]? = some stop := by
    rw [← hx.source_eq, ← same]
    exact found
  obtain ⟨stopY, foundY, -, behindY⟩ := ((ha.trans hx).trans hxy).lineEnd
  have endA := lineEndColumn_eq (hx.trans (hxy.trans hy)) foundAtA
  have endX := lineEndColumn_eq hxy found
  have columnX := behind noReturn
  have columnAX := hx.column_le same
  have lineXY := hxy.line_le
  have lineYB := hy.line_le
  rw [stop_spanFrom hxy, stop_spanFrom (hx.trans (hxy.trans hy))]
  by_cases partEnds : y.line = x.line
  · rw [if_pos partEnds]
    by_cases wholeEnds : b.line = a.line
    · rw [if_pos wholeEnds]
      exact hy.column_le (by omega)
    · rw [if_neg wholeEnds, endA]
      have sameStop : stopY = stop := by
        rw [hxy.source_eq, partEnds, found] at foundY
        exact (Option.some.inj foundY).symm
      have := behindY noReturn
      omega
  · rw [if_neg partEnds, endX]
    have wholeGoesOn : b.line ≠ a.line := by omega
    rw [if_neg wholeGoesOn, endA]
    omega

end Cursor

/-! ## Trees -/

namespace Node

/-- The children of a node start on its line or later and lie within it when they start on its line;
they are in order, and one that starts on the line of an earlier one starts behind it. -/
structure LaidOut (n : Node) : Prop where
  below : ∀ c ∈ n.children, n.span.line ≤ c.span.line
  within : ∀ c ∈ n.children, c.span.line = n.span.line → n.span.Holds c.span
  inOrder : n.children.Pairwise fun c d => c.span.start ≤ d.span.start ∧
    (c.span.line = d.span.line → c.span.stop ≤ d.span.column)

theorem ReadFrom.laidOut {text : List Char} (noReturn : '\r' ∉ text) {n : Node} {a b : Cursor}
    (ha : (Cursor.ofChars text).Reaches a) (h : ReadFrom n a b) : n.LaidOut := by
  constructor
  · intro c hc
    obtain ⟨x, y, hx, read, -⟩ := h.children.of_mem hc
    rw [h.span_eq, read.span_eq]
    exact hx.line_le
  · intro c hc
    obtain ⟨x, y, hx, read, hy⟩ := h.children.of_mem hc
    rw [h.span_eq, read.span_eq]
    exact Cursor.spanFrom_holds noReturn ha hx read.reaches hy
  · refine h.children.pairwise.imp ?_
    rintro c d ⟨x, y, z, w, readC, hyz, readD⟩
    rw [readC.span_eq, readD.span_eq]
    refine ⟨(readC.reaches.trans hyz).position_le, ?_⟩
    intro same
    -- The earlier sibling ends on its line: the later one is still on it.
    have lineXY := readC.reaches.line_le
    have lineYZ := hyz.line_le
    have sameLine : y.line = x.line := by
      rw [Cursor.line_spanFrom, Cursor.line_spanFrom] at same
      omega
    rw [Cursor.stop_spanFrom readC.reaches, if_pos sameLine]
    exact hyz.column_le (by rw [sameLine]; exact same.symm)

theorem ReadFrom.start_mem {n m : Node} {a b : Cursor} (h : ReadFrom n a b) (hm : m ∈ n.nodes) :
    a.position ≤ m.span.start ∧ m.span.start ≤ b.position := by
  obtain ⟨x, y, hx, read, hy⟩ := h.of_mem_nodes n m hm
  rw [read.span_eq]
  exact ⟨hx.position_le, (read.reaches.trans hy).position_le⟩

mutual

/-- **In pre-order, start positions never go back.** -/
theorem ReadFrom.starts_sorted : (n : Node) → {a b : Cursor} → ReadFrom n a b →
    n.nodes.Pairwise fun m m' => m.span.start ≤ m'.span.start
  | ⟨kind, value, children, span⟩, a, b, h => by
    rw [nodes]
    refine .cons ?_ (AllReadFrom.starts_sorted children h.children)
    intro m hm
    have first : (span.start : Position) = a.position := congrArg Span.start h.span_eq
    rw [first]
    exact (h.start_mem (by rw [nodes]; exact List.mem_cons_of_mem _ hm)).1

theorem AllReadFrom.starts_sorted : (ns : List Node) → {a b : Cursor} → AllReadFrom ns a b →
    (nodesOf ns).Pairwise fun m m' => m.span.start ≤ m'.span.start
  | [], _, _, _ => .nil
  | n :: ns, _, _, .cons _ first rest => by
    rw [nodesOf]
    refine List.pairwise_append.2
      ⟨ReadFrom.starts_sorted n first, AllReadFrom.starts_sorted ns rest, ?_⟩
    intro m hm m' hm'
    obtain ⟨z, w, hz, read, -⟩ := rest.of_mem_nodes ns m' hm'
    refine Position.le_trans (first.start_mem hm).2 ?_
    rw [read.span_eq]
    exact hz.position_le

end

mutual

theorem walkBelow_fst : (ancestors : List Node) → (n : Node) →
    (walkBelow ancestors n).map Prod.fst = n.nodes
  | ancestors, ⟨kind, value, children, span⟩ => by
    rw [walkBelow, nodes, List.map_cons, walkAmong_fst]

theorem walkAmong_fst : (ancestors : List Node) → (ns : List Node) →
    (walkAmong ancestors ns).map Prod.fst = nodesOf ns
  | ancestors, [] => by rw [walkAmong, nodesOf, List.map_nil]
  | ancestors, n :: ns => by
    rw [walkAmong, nodesOf, List.map_append, walkBelow_fst, walkAmong_fst]

end

theorem ReadFrom.stop_le {text : List Char} {n : Node} {a b : Cursor}
    (ha : (Cursor.ofChars text).Reaches a) (h : ReadFrom n a b) :
    n.span.stop ≤ text.length + 1 := by
  rw [h.span_eq]
  exact Cursor.stop_spanFrom_le ha h.reaches

end Node

/-- **Spans nest and follow each other.** In the tree of a text without carriage returns, children lie
below or within their parent and siblings one behind the other; start positions never go back on a walk
through the tree. Where no end column leaves its range, the questions about spans say so too. -/
theorem spans_laidOut (text : String) (noReturn : '\r' ∉ text.toList) :
    (∀ n ∈ (readDocument text).tree.nodes, n.LaidOut) ∧
    ((readDocument text).tree.walk.map fun visit => visit.1.span.start).Pairwise (· ≤ ·) ∧
    (text.toList.length < Span.maxColumn → ∀ n ∈ (readDocument text).tree.nodes,
      n.span.endColumn = .ok n.span.stop ∧
      ∀ c ∈ n.children, c.span.line = n.span.line → n.span.encloses c.span = .ok true) := by
  obtain ⟨stop, read⟩ := readDocument_readFrom text
  generalize (readDocument text).tree = tree at read ⊢
  have laidOut : ∀ n ∈ tree.nodes, n.LaidOut := by
    intro n hn
    obtain ⟨x, y, hx, readHere, -⟩ := read.of_mem_nodes tree n hn
    exact readHere.laidOut noReturn hx
  refine ⟨laidOut, ?_, ?_⟩
  · have sorted := read.starts_sorted tree
    rw [← Node.walkBelow_fst [] tree, List.pairwise_map] at sorted
    exact List.pairwise_map.2 sorted
  · intro short n hn
    obtain ⟨x, y, hx, readHere, -⟩ := read.of_mem_nodes tree n hn
    have fits : n.span.stop ≤ Span.maxColumn := Nat.le_trans (readHere.stop_le hx) short
    refine ⟨Span.endColumn_eq fits, ?_⟩
    intro c hc same
    exact Span.encloses_eq fits ((laidOut n hn).within c hc same)

theorem spans_laidOut_rules :
    '\r' ∉ "a = (b\n  c){2} | \"d\" uses exact\nb = [x-z]".toList ∧
    ∀ n ∈ (readDocument "a = (b\n  c){2} | \"d\" uses exact\nb = [x-z]").tree.nodes, n.LaidOut :=
  ⟨by decide, (spans_laidOut _ (by decide)).1⟩

end PatternRules
