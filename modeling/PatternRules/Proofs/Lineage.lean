import Mathlib.Algebra.Group.Nat.Defs
import PatternRules.Proofs.Lookup

/-!
The two questions about a position agree on every tree, whether it was read from a text or not. Spans may
overlap, repeat or lie outside of their parents, so that which node is found goes by the order of the search
alone: `Node.postorder` lists the nodes of a tree in that order, each with its address. The node that is found
and the path to it both come from the first entry that covers the position.

* `Node.mem_postorder`: every node is listed with its address;
* `Node.findAt_eq`: what is found;
* `Node.pathTo_follows`: the path leads down the address of what is found;
* `lookups_agree`: all three questions.
-/

namespace PatternRules

namespace Span

instance (s : Span) (p : Position) : Decidable (s.Covers p) :=
  inferInstanceAs (Decidable (s.line = p.line ∧ s.column ≤ p.column ∧ p.column < s.stop))

theorem contains_eq {s : Span} (fits : s.stop ≤ maxColumn) (p : Position) :
    s.contains p = .ok (decide (s.Covers p)) := by
  obtain ⟨answer, h⟩ := contains_isOk fits p
  rw [h, Bool.eq_iff_iff.2 ((contains_ok h).trans decide_eq_true_iff.symm)]

end Span

namespace Node

/-! ## The order of the search -/

mutual

/-- The nodes of a tree with their addresses: children before their parent, and children in order. -/
def postorder : Node → List (List Nat × Node)
  | ⟨kind, value, children, span⟩ => postorderFrom 0 children ++ [([], ⟨kind, value, children, span⟩)]

/-- The nodes of several trees, where the address of a node begins with the index of its tree, counted from
`i`. -/
def postorderFrom (i : Nat) : List Node → List (List Nat × Node)
  | [] => []
  | n :: ns => ((postorder n).map fun (address, m) => (i :: address, m)) ++ postorderFrom (i + 1) ns

end

mutual

/-- **Every node is listed with its address.** -/
theorem mem_postorder : (n : Node) → {address : List Nat} → {m : Node} →
    ((address, m) ∈ n.postorder ↔ n.at? address = some m)
  | ⟨kind, value, children, span⟩, address, m => by
    rw [postorder, List.mem_append, mem_postorderFrom 0 children, List.mem_singleton]
    cases address with
    | nil => simp [at?, eq_comm]
    | cons j rest =>
      rw [at?, Option.bind_eq_some_iff]
      constructor
      · rintro (⟨_, c, _, same, child, below⟩ | same)
        · rw [Nat.zero_add] at same
          cases same
          exact ⟨c, child, below⟩
        · cases same
      · rintro ⟨c, child, below⟩
        exact .inl ⟨j, c, rest, by rw [Nat.zero_add], child, below⟩

theorem mem_postorderFrom (i : Nat) : (ns : List Node) → {address : List Nat} → {m : Node} →
    ((address, m) ∈ postorderFrom i ns ↔
      ∃ j c rest, address = (i + j) :: rest ∧ ns[j]? = some c ∧ c.at? rest = some m)
  | [], address, m => by simp [postorderFrom]
  | n :: ns, address, m => by
    rw [postorderFrom, List.mem_append, List.mem_map, mem_postorderFrom (i + 1) ns]
    constructor
    · rintro (⟨⟨rest, m'⟩, listed, same⟩ | ⟨j, c, rest, rfl, child, below⟩)
      · cases same
        exact ⟨0, n, rest, rfl, rfl, (mem_postorder n).1 listed⟩
      · exact ⟨j + 1, c, rest, by rw [Nat.add_assoc, Nat.add_comm 1 j], child, below⟩
    · rintro ⟨_ | j, c, rest, rfl, child, below⟩
      · cases child
        exact .inl ⟨(rest, m), (mem_postorder n).2 below, rfl⟩
      · exact .inr ⟨j, c, rest, by rw [Nat.add_assoc, Nat.add_comm 1 j], child, below⟩

end

/-- The entry covers the position. -/
def isCovering (p : Position) (entry : List Nat × Node) : Bool := decide (entry.2.span.Covers p)

/-- The first node in the order of the search that covers the position, with its address. -/
def firstCovering (p : Position) (n : Node) : Option (List Nat × Node) := n.postorder.find? (isCovering p)

/-- Nothing is found only where nothing covers the position. -/
theorem firstCovering_eq_none {p : Position} {n : Node} :
    n.firstCovering p = none ↔ ∀ address, ¬ n.CoversAt p address := by
  rw [firstCovering, List.find?_eq_none]
  constructor
  · rintro none address ⟨m, found, covers⟩
    exact none (address, m) (n.mem_postorder.2 found) (decide_eq_true covers)
  · rintro none ⟨address, m⟩ listed covers
    exact none address ⟨m, n.mem_postorder.1 listed, of_decide_eq_true covers⟩

/-- The entries of the first tree come before those of the others. -/
theorem find?_postorderFrom_cons (p : Position) (i : Nat) (n : Node) (ns : List Node) :
    (postorderFrom i (n :: ns)).find? (isCovering p) =
      ((n.firstCovering p).map fun (address, m) => (i :: address, m)).or
        ((postorderFrom (i + 1) ns).find? (isCovering p)) := by
  rw [postorderFrom, List.find?_append, List.find?_map]
  rfl

/-- The entries below a node come before its own. -/
theorem firstCovering_eq (p : Position) (n : Node) :
    n.firstCovering p = ((postorderFrom 0 n.children).find? (isCovering p)).or
      (if n.span.Covers p then some ([], n) else none) := by
  obtain ⟨kind, value, children, span⟩ := n
  rw [firstCovering, postorder, List.find?_append, List.find?_singleton]
  simp only [isCovering, decide_eq_true_eq]

/-! ## What is found -/

mutual

/-- **What is found is the first node that covers the position.** -/
theorem findAt_eq (p : Position) : (n : Node) → (∀ m ∈ n.nodes, m.span.stop ≤ Span.maxColumn) →
    findAt p n = .ok ((n.firstCovering p).map (·.2))
  | ⟨kind, value, children, span⟩, fits => by
    have contained := Span.contains_eq (fits _ List.mem_cons_self) p
    rw [findAt, findAmong_eq p 0 children fun m hm => fits m (List.mem_cons_of_mem _ hm), firstCovering_eq]
    cases (postorderFrom 0 children).find? (isCovering p) with
    | some entry => rfl
    | none =>
      simp only [Option.map_none, Option.none_or, bind, Except.bind, contained, decide_eq_true_eq]
      split <;> rfl

theorem findAmong_eq (p : Position) (i : Nat) : (ns : List Node) →
    (∀ m ∈ nodesOf ns, m.span.stop ≤ Span.maxColumn) →
    findAmong p ns = .ok (((postorderFrom i ns).find? (isCovering p)).map (·.2))
  | [], _ => rfl
  | n :: ns, fits => by
    rw [findAmong, findAt_eq p n fun m hm => fits m (List.mem_append_left _ hm), find?_postorderFrom_cons]
    cases n.firstCovering p with
    | some entry => rfl
    | none => exact findAmong_eq p (i + 1) ns fun m hm => fits m (List.mem_append_right _ hm)

end

/-! ## The path to it -/

/-- The path leads from a node down an address, from each node to one of its children, and ends at the node
there. -/
inductive Leads : Node → List Nat → List Node → Node → Prop
  | here (n : Node) : Leads n [] [n] n
  | down {n c m : Node} {i : Nat} {address : List Nat} {path : List Node} (child : n.children[i]? = some c)
    (below : Leads c address path m) : Leads n (i :: address) (n :: path) m

theorem Leads.ne_nil {n m : Node} {address : List Nat} {path : List Node} (h : Leads n address path m) :
    path ≠ [] := by
  cases h <;> exact List.cons_ne_nil _ _

/-- The path goes to an entry of the listing; there is none without an entry. -/
def Follows (n : Node) : Option (List Nat × Node) → List Node → Prop
  | none, path => path = []
  | some (address, m), path => Leads n address path m

/-- The path goes from one of several trees to an entry of their listing. -/
def FollowsFrom (i : Nat) (ns : List Node) : Option (List Nat × Node) → List Node → Prop
  | none, path => path = []
  | some (address, m), path =>
    ∃ j c rest, address = (i + j) :: rest ∧ ns[j]? = some c ∧ Leads c rest path m

mutual

/-- **The path leads down the address of what is found.** -/
theorem pathTo_follows (p : Position) : (n : Node) → (∀ m ∈ n.nodes, m.span.stop ≤ Span.maxColumn) →
    ∃ path, pathTo p n = .ok path ∧ n.Follows (n.firstCovering p) path
  | ⟨kind, value, children, span⟩, fits => by
    have contained := Span.contains_eq (fits _ List.mem_cons_self) p
    obtain ⟨below, hbelow, follows⟩ :=
      pathAmong_follows p 0 children fun m hm => fits m (List.mem_cons_of_mem _ hm)
    rw [pathTo, hbelow, firstCovering_eq]
    cases first : (postorderFrom 0 children).find? (isCovering p) with
    | some entry =>
      rw [first] at follows
      obtain ⟨j, c, rest, address, child, leads⟩ := follows
      cases below with
      | nil => exact absurd rfl leads.ne_nil
      | cons c' path =>
        refine ⟨_, rfl, ?_⟩
        rw [Option.some_or, Follows, address, Nat.zero_add]
        exact .down child leads
    | none =>
      rw [first] at follows
      cases follows
      refine ⟨_, by simp only [bind, Except.bind, contained, decide_eq_true_eq]; rfl, ?_⟩
      rw [Option.none_or]
      split
      · exact .here _
      · rfl

theorem pathAmong_follows (p : Position) (i : Nat) : (ns : List Node) →
    (∀ m ∈ nodesOf ns, m.span.stop ≤ Span.maxColumn) →
    ∃ path, pathAmong p ns = .ok path ∧ FollowsFrom i ns ((postorderFrom i ns).find? (isCovering p)) path
  | [], _ => ⟨[], rfl, rfl⟩
  | n :: ns, fits => by
    obtain ⟨path, hpath, follows⟩ := pathTo_follows p n fun m hm => fits m (List.mem_append_left _ hm)
    rw [pathAmong, hpath, find?_postorderFrom_cons]
    cases first : n.firstCovering p with
    | some entry =>
      rw [first] at follows
      cases path with
      | nil => exact absurd rfl (Leads.ne_nil follows)
      | cons c path => exact ⟨_, rfl, 0, n, entry.1, rfl, rfl, follows⟩
    | none =>
      rw [first] at follows
      cases follows
      obtain ⟨path, hpath, follows⟩ :=
        pathAmong_follows p (i + 1) ns fun m hm => fits m (List.mem_append_right _ hm)
      refine ⟨path, hpath, ?_⟩
      rw [Option.map_none, Option.none_or]
      cases further : (postorderFrom (i + 1) ns).find? (isCovering p) with
      | none => rwa [further] at follows
      | some entry =>
        rw [further] at follows
        obtain ⟨j, c, rest, address, child, leads⟩ := follows
        exact ⟨j + 1, c, rest, by rw [address, Nat.add_assoc, Nat.add_comm 1 j], child, leads⟩

end

end Node

/-- **The questions about a position agree on every tree** whose columns stay in their range. What is found is
the first node, children before parents, that covers the position. The path to it is empty where nothing covers
the position, and otherwise leads from the root, from parent to child, down the address of what is found. A kind
is on that path if one of its nodes has it. -/
theorem lookups_agree (root : Node) (p : Position)
    (fits : ∀ m ∈ root.nodes, m.span.column + m.span.length < 2 ^ 32) :
    root.findAt p = .ok ((root.firstCovering p).map (·.2)) ∧
    ∃ path, root.pathTo p = .ok path ∧
      (path = [] ↔ root.findAt p = .ok none) ∧ (path = [] ↔ ∀ address, ¬ root.CoversAt p address) ∧
      (∀ address found, root.firstCovering p = some (address, found) → root.Leads address path found) ∧
      ∀ kind, ∃ answer, root.hasKindOnPath p kind = .ok answer ∧
        (answer = true ↔ ∃ n ∈ path, n.kind = kind) := by
  have fits : ∀ m ∈ root.nodes, m.span.stop ≤ Span.maxColumn := fun m hm => Nat.le_of_lt_succ (fits m hm)
  obtain ⟨path, hpath, follows⟩ := root.pathTo_follows p fits
  have found := root.findAt_eq p fits
  have none_iff : path = [] ↔ root.firstCovering p = none := by
    cases first : root.firstCovering p with
    | none =>
      rw [first] at follows
      exact iff_of_true follows rfl
    | some entry =>
      rw [first] at follows
      exact iff_of_false (Node.Leads.ne_nil follows) (Option.some_ne_none _)
  refine ⟨found, path, hpath, ?_, none_iff.trans Node.firstCovering_eq_none, ?_, fun kind => ?_⟩
  · rw [none_iff, found, Except.ok.injEq, Option.map_eq_none_iff]
  · intro address m first
    rwa [first] at follows
  · refine ⟨path.any (·.kind == kind), by rw [Node.hasKindOnPath, hpath]; rfl, ?_⟩
    simp only [List.any_eq_true, beq_iff_eq]

/-- A name that stands twice in one node, on a line where that node is not, and in front of a text that overlaps
it. -/
def scattered : Node :=
  let name := Node.leaf .identifier "names" ⟨2, 1, 5⟩
  .branch .root [.leaf .dot "." ⟨5, 1, 1⟩, .branch .listMatch [name, name] ⟨1, 7, 9⟩,
    .leaf .string "\"a name\"" ⟨2, 2, 8⟩] ⟨1, 1, 15⟩

theorem lookups_agree_scattered : ∃ path, scattered.pathTo ⟨2, 3⟩ = .ok path ∧
    scattered.Leads [1, 0] path (.leaf .identifier "names" ⟨2, 1, 5⟩) := by
  obtain ⟨-, path, hpath, -, -, leads, -⟩ := lookups_agree scattered ⟨2, 3⟩ (by decide)
  exact ⟨path, hpath, leads [1, 0] _ (by decide)⟩

end PatternRules
