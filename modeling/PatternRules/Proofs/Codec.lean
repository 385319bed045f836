import Mathlib.Data.List.Basic
import PatternRules.Analysis.Codec
import PatternRules.Proofs.JsonText

/-!
What is written as JSON is read back. A value keeps its own members apart by their names, so it is enough
to know the members of what was written (`Node.members`, `Node.record?_toJson`); trees go by induction,
and each of them takes two levels more than its children (`Node.levels_toJson`). `Span.Fits` and its
companions say that the numbers have room in the words they are kept in.

* `Node.ofJson?_toJson`, `Reading.ofJson?_toJson`, `Diagnostic.ofJson?_toJson`: decoding inverts encoding;
* `json_roundTrip`: the same for the texts.
-/

namespace PatternRules

namespace Json

/-! ## Levels -/

mutual

/-- How deep arrays and objects nest in a value. -/
def levels : Json → Nat
  | .array items => levelsOfItems items + 1
  | .object members => levelsOfMembers members + 1
  | _ => 0

def levelsOfItems : List Json → Nat
  | [] => 0
  | item :: rest => max (levels item) (levelsOfItems rest)

def levelsOfMembers : List (Option String × Json) → Nat
  | [] => 0
  | (_, value) :: rest => max (levels value) (levelsOfMembers rest)

end

@[simp]
theorem levels_text (s : String) : (text s).levels = 0 := by simp [text, levels]

@[simp]
theorem levels_nat (n : Nat) : (nat n).levels = 0 := by simp [nat, levels]

/-- The names of the members of an object. -/
def names : Json → List String
  | .object members => members.filterMap (·.1)
  | _ => []

/-- What a text stands for, read with one of the decoders. -/
def decoded? {α : Type} (decode : Nat → Json → Option α) (text : String) : Option α :=
  match parse text.toList with
  | .ok j => decode maxLevels j
  | .error _ => none

theorem decoded?_compact {α : Type} {decode : Nat → Json → Option α} {j : Json} {a : α} (h : Plain j)
    (read : decode maxLevels j = some a) : decoded? decode j.compact = some a := by
  rw [decoded?, parse_compact h]
  exact read

/-! ## Numbers -/

theorem digitsValue_toDigits (n : Nat) : digitsValue (Nat.toDigits 10 n) = n :=
  Nat.ofDigitChars_ten_toDigits

theorem toInt?_ofNat {n : Nat} (h : n ≤ Numeral.maxUnsigned) : (Numeral.ofNat n).toInt? = some n := by
  simp [Numeral.toInt?, Numeral.ofNat, digitsValue_toDigits, h]

theorem nat?_nat {most n : Nat} (small : most ≤ Numeral.maxUnsigned) (h : n ≤ most) :
    nat? most (nat n) = some n := by
  simp only [nat, nat?, toInt?_ofNat (Nat.le_trans h small)]
  exact if_pos h

theorem isReadable_nat {levels n : Nat} (h : n ≤ Numeral.maxUnsigned) :
    (nat n).isReadable levels = true := by
  simp [nat, isReadable, Numeral.number?, toInt?_ofNat h]

end Json

/-! ## What the numbers of a tree, a reading and a diagnostic can be -/

/-- Line, column and length fit in thirty-two bits. -/
structure Span.Fits (s : Span) : Prop where
  line : s.line ≤ Span.maxColumn
  column : s.column ≤ Span.maxColumn
  length : s.length ≤ Span.maxColumn

instance (s : Span) : Decidable s.Fits :=
  decidable_of_iff (s.line ≤ Span.maxColumn ∧ s.column ≤ Span.maxColumn ∧ s.length ≤ Span.maxColumn)
    ⟨fun ⟨line, column, length⟩ => ⟨line, column, length⟩, fun h => ⟨h.line, h.column, h.length⟩⟩

/-- A number fits in sixty-four bits. -/
def Value.Fits : Value → Prop
  | text _ => True
  | number n => n ≤ Value.maxNumber

instance : (v : Value) → Decidable v.Fits
  | .text _ => isTrue trivial
  | .number n => inferInstanceAs (Decidable (n ≤ Value.maxNumber))

def Node.Fits (root : Node) : Prop :=
  ∀ node ∈ root.nodes, node.span.Fits ∧ ∀ v ∈ node.value, v.Fits

instance (root : Node) : Decidable root.Fits :=
  inferInstanceAs (Decidable (∀ node ∈ root.nodes, node.span.Fits ∧ ∀ v ∈ node.value, v.Fits))

structure Reading.Fits (r : Reading) : Prop where
  tree : r.tree.Fits
  errors : ∀ e ∈ r.errors, e.span.Fits

/-! ## Spans and values -/

theorem placeNumber?_nat {n : Nat} (h : n ≤ Span.maxColumn) : placeNumber? (.nat n) = some n :=
  Json.nat?_nat (by decide) h

namespace Span

variable {s : Span}

theorem plain_members (s : Span) : ∀ m ∈ s.members, Json.Plain m.2 := by
  simp [members, Json.Plain.nat]

theorem plain_toJson (s : Span) : Json.Plain s.toJson := .object _ s.plain_members

@[simp]
theorem levels_toJson (s : Span) : s.toJson.levels = 1 := by
  simp [toJson, members, Json.ofMembers, Json.levels, Json.levelsOfMembers]

theorem ofJson?_toJson (h : s.Fits) (levels : Nat) : ofJson? (levels + 1) s.toJson = some s := by
  have members : Json.record? ["line", "column", "length"] s.toJson =
      some [some (.nat s.line), some (.nat s.column), some (.nat s.length)] := rfl
  simp only [ofJson?, members, placeNumber?_nat h.line, placeNumber?_nat h.column,
    placeNumber?_nat h.length]
  rfl

end Span

namespace Value

theorem plain_toJson : (v : Value) → Json.Plain v.toJson
  | text s => .text s
  | number n => .nat n

@[simp]
theorem levels_toJson (v : Value) : v.toJson.levels = 0 := by
  cases v <;> simp [toJson]

theorem ofJson?_toJson {v : Value} (h : v.Fits) : ofJson? v.toJson = some v := by
  cases v with
  | text s => rfl
  | number n =>
    have read : (Json.nat n).nat? maxNumber = some n := Json.nat?_nat (by decide) h
    simp only [toJson, ofJson?, read]
    rfl

theorem optional?_toJson {value : Option Value} (h : ∀ v ∈ value, v.Fits) :
    Json.optional? ofJson? (value.map toJson) = some value := by
  cases value with
  | none => rfl
  | some v =>
    have read := ofJson?_toJson (h v rfl)
    cases v <;> simp only [Option.map_some, toJson, Json.text, Json.nat, Json.optional?] at read ⊢ <;>
      rw [read] <;> rfl

end Value

/-! ## Trees -/

namespace Node

theorem childrenToJson_eq (ns : List Node) : childrenToJson ns = ns.map toJson := by
  induction ns with
  | nil => rfl
  | cons n ns ih => rw [childrenToJson, ih, List.map_cons]

/-- What stands in the text for children: nothing, or an array. -/
def childrenJson? (ns : List Node) : Option Json :=
  if ns.isEmpty then none else some (.array (ns.map toJson))

/-- The members of a node. -/
def members (n : Node) : List (String × Json) :=
  [("type", .text n.kind.tag)] ++ (n.value.map fun v => ("value", v.toJson)).toList ++
    ((childrenJson? n.children).map fun j => ("children", j)).toList ++ [("span", n.span.toJson)]

theorem toJson_eq (n : Node) : n.toJson = .ofMembers n.members := by
  obtain ⟨kind, value, children, span⟩ := n
  rw [toJson, childrenToJson_eq]
  cases value <;> cases children <;> rfl

theorem record?_toJson (n : Node) : Json.record? ["type", "value", "children", "span"] n.toJson =
    some [some (.text n.kind.tag), n.value.map Value.toJson, childrenJson? n.children,
      some n.span.toJson] := by
  obtain ⟨kind, value, children, span⟩ := n
  rw [toJson_eq]
  cases value <;> cases children <;> rfl

/-- A node takes a level, and its span or its children take another. -/
theorem levels_toJson (n : Node) :
    n.toJson.levels = Json.levelsOfItems (n.children.map toJson) + 2 := by
  rw [toJson_eq]
  obtain ⟨kind, value, children, span⟩ := n
  cases value <;> cases children <;>
    simp [members, childrenJson?, Json.ofMembers, Json.levels, Json.levelsOfMembers,
      Json.levelsOfItems]

theorem names_toJson (n : Node) : n.toJson.names =
    ["type"] ++ (if n.value.isSome then ["value"] else []) ++
      (if n.children.isEmpty then [] else ["children"]) ++ ["span"] := by
  rw [toJson_eq]
  obtain ⟨kind, value, children, span⟩ := n
  cases value <;> cases children <;> rfl

mutual

theorem plain_toJson : (n : Node) → Json.Plain n.toJson
  | ⟨kind, value, children, span⟩ => by
    have each := plain_childrenToJson children
    rw [toJson_eq]
    refine .object _ fun m hm => ?_
    simp only [members, List.mem_append, List.mem_singleton, Option.mem_toList,
      Option.map_eq_some_iff] at hm
    obtain ((rfl | ⟨v, -, rfl⟩) | ⟨j, hj, rfl⟩) | rfl := hm
    · exact .text _
    · exact v.plain_toJson
    · obtain ⟨-, rfl⟩ : ¬ children.isEmpty ∧ Json.array (children.map toJson) = j := by
        simpa [childrenJson?] using hj
      exact .array _ each
    · exact span.plain_toJson

theorem plain_childrenToJson : (ns : List Node) → ∀ j ∈ ns.map toJson, Json.Plain j
  | [] => by simp
  | n :: ns => by
    intro j hj
    rcases List.mem_cons.1 hj with rfl | hj
    · exact plain_toJson n
    · exact plain_childrenToJson ns j hj

end

theorem fits_iff (n : Node) : n.Fits ↔
    n.span.Fits ∧ (∀ v ∈ n.value, v.Fits) ∧ ∀ m ∈ nodesOf n.children, m.span.Fits ∧ ∀ v ∈ m.value, v.Fits := by
  obtain ⟨kind, value, children, span⟩ := n
  rw [Fits, nodes]
  simp only [List.mem_cons, forall_eq_or_imp, and_assoc]

mutual

/-- **A tree is read back from its JSON value**, provided it nests no deeper than the reader allows. -/
theorem ofJson?_toJson : (n : Node) → n.Fits → (levels : Nat) → n.toJson.levels ≤ levels →
    ofJson? levels n.toJson = some n
  | ⟨kind, value, children, span⟩, fits, levels, enough => by
    rw [levels_toJson] at enough
    obtain ⟨levels, rfl⟩ : ∃ k, levels = k + 2 := ⟨levels - 2, by omega⟩
    obtain ⟨spanFits, valueFits, childrenFit⟩ := (fits_iff _).1 fits
    have each := mapM_ofJson? children childrenFit levels (by simpa using enough)
    rw [ofJson?, record?_toJson]
    simp only [Value.optional?_toJson valueFits, Span.ofJson?_toJson spanFits, Json.text, Json.tag?,
      Kind.ofTag?_tag, bind, Option.bind]
    cases children with
    | nil => rfl
    | cons c cs =>
      have items : childrenJson? (c :: cs) = some (.array ((c :: cs).map toJson)) := rfl
      simp only [items, Json.items?, Nat.zero_lt_succ, if_true, each]
      rfl

theorem mapM_ofJson? : (ns : List Node) → (∀ m ∈ nodesOf ns, m.span.Fits ∧ ∀ v ∈ m.value, v.Fits) →
    (levels : Nat) → Json.levelsOfItems (ns.map toJson) ≤ levels →
    (ns.map toJson).mapM (ofJson? levels) = some ns
  | [], _, _, _ => rfl
  | n :: ns, fits, levels, enough => by
    rw [nodesOf] at fits
    rw [List.map_cons, Json.levelsOfItems] at enough
    have first := ofJson?_toJson n (fun m hm => fits m (List.mem_append_left _ hm)) levels (by omega)
    have further := mapM_ofJson? ns (fun m hm => fits m (List.mem_append_right _ hm)) levels (by omega)
    rw [List.map_cons, List.mapM_cons, first, further]
    rfl

end

end Node

/-! ## Syntax errors, readings and diagnostics -/

namespace SyntaxError

theorem plain_toJson (e : SyntaxError) : Json.Plain e.toJson := by
  refine .object _ fun m hm => ?_
  rcases List.mem_cons.1 hm with rfl | hm
  · exact .text _
  · exact e.span.plain_members m hm

theorem levels_toJson (e : SyntaxError) : e.toJson.levels = 1 := by
  simp [toJson, Span.members, Json.ofMembers, Json.levels, Json.levelsOfMembers]

theorem ofJson?_toJson (e : SyntaxError) (h : e.span.Fits) (levels : Nat) :
    ofJson? (levels + 1) e.toJson = some e := by
  have small : Span.maxColumn ≤ Json.Numeral.maxUnsigned := by decide
  have readable : ∀ m ∈ ([(some "message", .text e.message), (some "line", .nat e.span.line),
      (some "column", .nat e.span.column), (some "length", .nat e.span.length)] :
        List (Option String × Json)), m.2.isReadable levels = true := by
    simp [Json.text, Json.isReadable, Json.isReadable_nat (Nat.le_trans h.line small),
      Json.isReadable_nat (Nat.le_trans h.column small),
      Json.isReadable_nat (Nat.le_trans h.length small)]
  have members : Json.fields? ["message", "line", "column", "length"]
      [(some "message", .text e.message), (some "line", .nat e.span.line),
        (some "column", .nat e.span.column), (some "length", .nat e.span.length)] =
      some [some (.text e.message), some (.nat e.span.line), some (.nat e.span.column),
        some (.nat e.span.length)] := rfl
  have written : e.toJson = .object [(some "message", .text e.message),
    (some "line", .nat e.span.line), (some "column", .nat e.span.column),
    (some "length", .nat e.span.length)] := rfl
  rw [written, ofJson?, if_pos (List.all_eq_true.2 readable), members]
  simp only [bind, Option.bind, placeNumber?_nat h.line, placeNumber?_nat h.column,
    placeNumber?_nat h.length]
  rfl

end SyntaxError

namespace Reading

theorem plain_toJson (r : Reading) : Json.Plain r.toJson := by
  refine .object _ fun m hm => ?_
  simp only [List.mem_cons, List.not_mem_nil, or_false] at hm
  rcases hm with rfl | rfl
  · exact r.tree.plain_toJson
  · refine .array _ fun j hj => ?_
    obtain ⟨e, -, rfl⟩ := List.mem_map.1 hj
    exact e.plain_toJson

/-- The errors of a reading nest no deeper than its tree. -/
theorem levels_toJson (r : Reading) : r.toJson.levels = r.tree.toJson.levels + 1 := by
  have errors : Json.levelsOfItems (r.errors.map SyntaxError.toJson) ≤ 1 := by
    induction r.errors with
    | nil => decide
    | cons e es ih =>
      rw [List.map_cons, Json.levelsOfItems, e.levels_toJson]
      omega
  have tree := r.tree.levels_toJson
  simp only [toJson, Json.ofMembers, List.map_cons, List.map_nil, Json.levels, Json.levelsOfMembers]
  omega

/-- **A reading is read back from its JSON value**, provided its tree nests no deeper than the reader
allows. -/
theorem ofJson?_toJson (r : Reading) (h : r.Fits) {levels : Nat} (enough : r.toJson.levels ≤ levels) :
    ofJson? levels r.toJson = some r := by
  have tree := r.tree.levels_toJson
  rw [r.levels_toJson] at enough
  obtain ⟨levels, rfl⟩ : ∃ k, levels = k + 3 := ⟨levels - 3, by omega⟩
  have members : Json.record? ["ast", "errors"] r.toJson =
      some [some r.tree.toJson, some (.array (r.errors.map SyntaxError.toJson))] := rfl
  have readTree := r.tree.ofJson?_toJson h.tree (levels + 2) (by omega)
  have readErrors : (r.errors.map SyntaxError.toJson).mapM (SyntaxError.ofJson? (levels + 1)) =
      some r.errors := by
    have each := h.errors
    revert each
    induction r.errors with
    | nil => exact fun _ => rfl
    | cons e es ih =>
      intro each
      rw [List.map_cons, List.mapM_cons, e.ofJson?_toJson (each e List.mem_cons_self),
        ih fun e he => each e (List.mem_cons_of_mem _ he)]
      rfl
  simp only [ofJson?, members, readTree, Json.items?, Nat.zero_lt_succ, if_true, bind, Option.bind,
    readErrors]
  rfl

end Reading

namespace Diagnostic

theorem plain_toJson (d : Diagnostic) : Json.Plain d.toJson := by
  refine .object _ fun m hm => ?_
  simp only [List.mem_append, List.mem_cons, List.not_mem_nil, or_false, List.mem_map] at hm
  obtain (rfl | rfl | rfl | rfl | rfl) | ⟨s, -, rfl⟩ := hm
  · exact d.span.plain_toJson
  all_goals exact .text _

theorem names_toJson (d : Diagnostic) : d.toJson.names =
    ["span", "message", "severity", "code", "source"] ++
      (if d.suggestion.isSome then ["suggestion"] else []) := by
  obtain ⟨span, message, severity, code, source, suggestion⟩ := d
  cases suggestion <;> rfl

/-- **A diagnostic is read back from its JSON value.** -/
theorem ofJson?_toJson (d : Diagnostic) (h : d.span.Fits) (levels : Nat) :
    ofJson? (levels + 2) d.toJson = some d := by
  have members : Json.record? ["span", "message", "severity", "code", "source", "suggestion"] d.toJson =
      some [some d.span.toJson, some (.text d.message), some (.text d.severity.tag),
        some (.text d.code.tag), some (.text d.source), d.suggestion.map Json.text] := by
    obtain ⟨span, message, severity, code, source, suggestion⟩ := d
    cases suggestion <;> rfl
  have severity : Severity.ofJson? (levels + 1) (.text d.severity.tag) = some d.severity :=
    d.severity.ofTag?_tag
  have code : Code.ofJson? (levels + 1) (.text d.code.tag) = some d.code := d.code.ofTag?_tag
  have suggestion : Json.optional? Json.text? (d.suggestion.map Json.text) = some d.suggestion := by
    cases d.suggestion <;> rfl
  simp only [ofJson?, members, Span.ofJson?_toJson h, severity, code, suggestion]
  rfl

end Diagnostic

/-- **JSON round trip.** Trees and readings whose text nests no deeper than the reader allows, syntax
errors and diagnostics are read back from their compact text. The text names a value, children and a
suggestion only where there are any, and the numbers of a syntax error's span beside its message. -/
theorem json_roundTrip :
    (∀ n : Node, n.Fits → n.toJson.levels ≤ Json.maxLevels →
      Json.decoded? Node.ofJson? n.toJson.compact = some n) ∧
    (∀ r : Reading, r.Fits → r.toJson.levels ≤ Json.maxLevels →
      Json.decoded? Reading.ofJson? r.toJson.compact = some r) ∧
    (∀ e : SyntaxError, e.span.Fits →
      Json.decoded? SyntaxError.ofJson? e.toJson.compact = some e) ∧
    (∀ d : Diagnostic, d.span.Fits →
      Json.decoded? Diagnostic.ofJson? d.toJson.compact = some d) ∧
    (∀ n : Node, ("value" ∈ n.toJson.names ↔ n.value ≠ none) ∧
      ("children" ∈ n.toJson.names ↔ n.children ≠ [])) ∧
    (∀ d : Diagnostic, "suggestion" ∈ d.toJson.names ↔ d.suggestion ≠ none) ∧
    ∀ e : SyntaxError, e.toJson.names = ["message", "line", "column", "length"] := by
  refine ⟨fun n fits shallow => ?_, fun r fits shallow => ?_, fun e fits => ?_, fun d fits => ?_,
    fun n => ⟨?_, ?_⟩, fun d => ?_, fun e => rfl⟩
  · exact Json.decoded?_compact n.plain_toJson (n.ofJson?_toJson fits _ shallow)
  · exact Json.decoded?_compact r.plain_toJson (r.ofJson?_toJson fits shallow)
  · exact Json.decoded?_compact e.plain_toJson (e.ofJson?_toJson fits _)
  · exact Json.decoded?_compact d.plain_toJson (d.ofJson?_toJson fits _)
  · rw [n.names_toJson]
    cases n.value <;> simp
  · rw [n.names_toJson]
    cases n.children <;> simp
  · rw [d.names_toJson]
    cases d.suggestion <;> simp

/-- A reading with an error, and with a value that has to be escaped. -/
theorem json_roundTrip_escaped :
    let r : Reading := ⟨.branch .root [.leaf .identifier "\"é\"\n" ⟨1, 1, 4⟩, .number 7 ⟨1, 5, 1⟩]
      ⟨1, 1, 6⟩, [⟨"Expected \"=\"", ⟨1, 6, 0⟩⟩]⟩
    Json.decoded? Reading.ofJson? r.toJson.compact = some r := by
  intro r
  have tree : r.tree.Fits := by decide
  have errors : ∀ e ∈ r.errors, e.span.Fits := by decide
  exact json_roundTrip.2.1 r ⟨tree, errors⟩ (by decide)

end PatternRules
