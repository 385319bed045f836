import PatternRules.Proofs.InOrder
import PatternRules.Proofs.Located

/-!
How diagnostics are merged. Sorting by position is a stable sort: the result is in order, it is the list
itself where that is in order already, it comes out the same whether some diagnostics are left out before or
after, and what is so of diagnostics at one position in their order stays so.

Errors are recorded in the order of their places, and the findings of the validator have been sorted. So an
analysis, which sorts both together, has each of them in their own order (`analyze_merges`).
-/

namespace PatternRules

/-! ## Sorting by position -/

namespace Diagnostic

/-- In the order of their positions. -/
abbrev Ordered (ds : List Diagnostic) : Prop := ds.Pairwise fun d e => d.span.start ≤ e.span.start

variable {d : Diagnostic} {ds : List Diagnostic}

theorem insertByPosition_of_le {other : Diagnostic} {rest : List Diagnostic}
    (h : d.span.start ≤ other.span.start) : insertByPosition d (other :: rest) = d :: other :: rest := by
  rw [insertByPosition]
  exact if_pos h

theorem insertByPosition_of_lt {other : Diagnostic} {rest : List Diagnostic}
    (h : other.span.start < d.span.start) :
    insertByPosition d (other :: rest) = other :: insertByPosition d rest := by
  rw [insertByPosition]
  exact if_neg fun le => Position.not_lt_of_le le h

/-- In front of a list none of which stands before it. -/
theorem insertByPosition_of_ordered (h : Ordered (d :: ds)) : insertByPosition d ds = d :: ds := by
  cases ds with
  | nil => rfl
  | cons other rest => exact insertByPosition_of_le (List.rel_of_pairwise_cons h List.mem_cons_self)

theorem ordered_cons {other : Diagnostic} {rest : List Diagnostic} (h : Ordered (other :: rest))
    (le : d.span.start ≤ other.span.start) : Ordered (d :: other :: rest) := by
  refine List.pairwise_cons.2 ⟨?_, h⟩
  intro e mem
  rcases List.mem_cons.1 mem with rfl | mem
  · exact le
  · exact Position.le_trans le (List.rel_of_pairwise_cons h mem)

theorem insertByPosition_ordered (h : Ordered ds) : Ordered (insertByPosition d ds) := by
  induction ds with
  | nil => exact List.pairwise_singleton _ _
  | cons other rest ih =>
    obtain ⟨first, further⟩ := List.pairwise_cons.1 h
    rcases Position.le_or_lt d.span.start other.span.start with le | lt
    · rw [insertByPosition_of_le le]
      exact ordered_cons h le
    · rw [insertByPosition_of_lt lt]
      refine List.pairwise_cons.2 ⟨?_, ih further⟩
      intro e mem
      rcases mem_insertByPosition mem with rfl | mem
      · exact Position.le_of_lt lt
      · exact first e mem

theorem sortByPosition_ordered (ds : List Diagnostic) : Ordered (sortByPosition ds) := by
  induction ds with
  | nil => exact .nil
  | cons d ds ih => exact insertByPosition_ordered ih

theorem sortByPosition_of_ordered (h : Ordered ds) : sortByPosition ds = ds := by
  induction ds with
  | nil => rfl
  | cons d ds ih =>
    have same := ih (List.pairwise_cons.1 h).2
    show insertByPosition d (sortByPosition ds) = _
    rw [same, insertByPosition_of_ordered h]

theorem filter_insertByPosition (p : Diagnostic → Bool) (d : Diagnostic) (h : Ordered ds) :
    (insertByPosition d ds).filter p =
      if p d then insertByPosition d (ds.filter p) else ds.filter p := by
  induction ds with
  | nil => exact List.filter_cons
  | cons other rest ih =>
    rcases Position.le_or_lt d.span.start other.span.start with le | lt
    · have kept : Ordered (d :: (other :: rest).filter p) :=
        List.Pairwise.sublist (List.filter_sublist.cons_cons d) (ordered_cons h le)
      rw [insertByPosition_of_le le, List.filter_cons, insertByPosition_of_ordered kept]
    · rw [insertByPosition_of_lt lt, List.filter_cons, ih (List.pairwise_cons.1 h).2, List.filter_cons]
      split
      · split
        · exact (insertByPosition_of_lt lt).symm
        · rfl
      · rfl

/-- Some diagnostics may be left out before or after sorting. -/
theorem filter_sortByPosition (p : Diagnostic → Bool) (ds : List Diagnostic) :
    (sortByPosition ds).filter p = sortByPosition (ds.filter p) := by
  induction ds with
  | nil => rfl
  | cons d ds ih =>
    show (insertByPosition d (sortByPosition ds)).filter p = _
    rw [filter_insertByPosition p d (sortByPosition_ordered ds), ih, List.filter_cons]
    split
    · rfl
    · rfl

theorem insertByPosition_stable {R : Diagnostic → Diagnostic → Prop}
    (first : ∀ e ∈ ds, d.span.start = e.span.start → R d e)
    (h : ds.Pairwise fun d e => d.span.start = e.span.start → R d e) :
    (insertByPosition d ds).Pairwise fun d e => d.span.start = e.span.start → R d e := by
  induction ds with
  | nil => exact List.pairwise_singleton _ _
  | cons other rest ih =>
    obtain ⟨next, further⟩ := List.pairwise_cons.1 h
    rcases Position.le_or_lt d.span.start other.span.start with le | lt
    · rw [insertByPosition_of_le le]
      exact List.pairwise_cons.2 ⟨first, h⟩
    · rw [insertByPosition_of_lt lt]
      refine List.pairwise_cons.2 ⟨?_, ih (fun e mem => first e (List.mem_cons_of_mem _ mem)) further⟩
      intro e mem same
      -- What is inserted only moves past diagnostics at earlier positions.
      rcases mem_insertByPosition mem with rfl | mem
      · exact absurd same (Position.ne_of_lt lt)
      · exact next e mem same

/-- **Diagnostics at one position keep their order**: what is so of them in that order stays so. -/
theorem sortByPosition_stable {R : Diagnostic → Diagnostic → Prop}
    (h : ds.Pairwise fun d e => d.span.start = e.span.start → R d e) :
    (sortByPosition ds).Pairwise fun d e => d.span.start = e.span.start → R d e := by
  induction ds with
  | nil => exact .nil
  | cons d ds ih =>
    obtain ⟨first, further⟩ := List.pairwise_cons.1 h
    exact insertByPosition_stable (fun e mem => first e (mem_of_mem_sortByPosition mem)) (ih further)

end Diagnostic

/-! ## Codes -/

theorem code_of_mem_undefinedReferences {config : Config} {root : Node} {d : Diagnostic}
    (h : d ∈ undefinedReferences config root) : d.code = .undefinedReference := by
  obtain ⟨n, -, h⟩ := List.mem_filterMap.1 h
  obtain ⟨name, -, h⟩ := Option.bind_eq_some_iff.1 h
  split at h
  · cases h
  · cases h
    rfl

theorem code_of_mem_unboundedRanges {root : Node} {d : Diagnostic} (h : d ∈ unboundedRanges root) :
    d.code = .unboundedQuantifier := by
  obtain ⟨n, -, rfl⟩ := List.mem_map.1 h
  rfl

theorem code_of_mem_openEndedQuantifiers {lines : List ScannedLine} {d : Diagnostic}
    (h : d ∈ openEndedQuantifiers lines) : d.code = .openEndedQuantifier := by
  obtain ⟨line, -, h⟩ := List.mem_flatMap.1 h
  obtain ⟨sign, -, rfl⟩ := List.mem_map.1 h
  rfl

/-- The diagnostic says that a file is missing. -/
def Diagnostic.IsMissingFile (d : Diagnostic) : Prop :=
  d.code = .missingImportFile ∨ d.code = .missingOptionalTokensFile

theorem FileReference.isMissingFile_of_missing? {place : Surroundings} {r : FileReference} {d : Diagnostic}
    (h : missing? place r = some d) : d.IsMissingFile := by
  obtain ⟨path, -, h⟩ := Option.bind_eq_some_iff.1 h
  split at h
  · cases h
    cases r.purpose with
    | importPath => exact .inl rfl
    | optionalTokens => exact .inr rfl
  · cases h

theorem isMissingFile_of_mem_missingFiles {config : Config} {place : Surroundings} {root : Node}
    {lines : List ScannedLine} {d : Diagnostic} (h : d ∈ missingFiles config place root lines) :
    d.IsMissingFile := by
  unfold missingFiles at h
  split at h
  · obtain ⟨reference, -, h⟩ := List.mem_filterMap.1 h
    exact FileReference.isMissingFile_of_missing? h
  · cases h

/-- **What the validator finds is no syntax error.** -/
theorem code_of_mem_findings {config : Config} {place : Surroundings} {root : Node} {text : List Char}
    {d : Diagnostic} (h : d ∈ findings config place root text) : d.code ≠ .syntaxError := by
  intro same
  simp only [findings, List.mem_append] at h
  rcases h with ((h | h) | h) | h
  · cases same.symm.trans (code_of_mem_undefinedReferences h)
  · cases same.symm.trans (code_of_mem_unboundedRanges h)
  · cases same.symm.trans (code_of_mem_openEndedQuantifiers h)
  · rcases isMissingFile_of_mem_missingFiles h with code | code
    · cases same.symm.trans code
    · cases same.symm.trans code

theorem code_of_mem_validate {config : Config} {place : Surroundings} {root : Node} {text : List Char}
    {d : Diagnostic} (h : d ∈ validate config place root text) : d.code ≠ .syntaxError :=
  code_of_mem_findings (mem_findings_of_mem_validate h)

/-! ## The analysis -/

/-- The errors of a reading and the findings about it, merged: in the order of their positions, each of them
in their own order, and errors first where positions are the same. -/
structure Merges (errors : List SyntaxError) (found diagnostics : List Diagnostic) : Prop where
  ordered : Diagnostic.Ordered diagnostics
  errors : diagnostics.filter (·.code == .syntaxError) = errors.map .ofSyntaxError
  findings : diagnostics.filter (·.code != .syntaxError) = found
  errorsFirst : diagnostics.Pairwise fun d e =>
    d.span.start = e.span.start → e.code = .syntaxError → d.code = .syntaxError

theorem validate_ordered (config : Config) (place : Surroundings) (root : Node) (text : List Char) :
    Diagnostic.Ordered (validate config place root text) := by
  rw [validate]
  exact Diagnostic.sortByPosition_ordered _

theorem merges_sortByPosition {errors : List SyntaxError} {found : List Diagnostic}
    (recorded : errors.Pairwise fun e e' => e.span.start ≤ e'.span.start)
    (ordered : Diagnostic.Ordered found) (codes : ∀ d ∈ found, d.code ≠ .syntaxError) :
    Merges errors found (Diagnostic.sortByPosition (errors.map .ofSyntaxError ++ found)) := by
  have ofError : ∀ d ∈ errors.map Diagnostic.ofSyntaxError, d.code = .syntaxError := by
    intro d mem
    obtain ⟨e, -, rfl⟩ := List.mem_map.1 mem
    rfl
  refine ⟨Diagnostic.sortByPosition_ordered _, ?_, ?_, Diagnostic.sortByPosition_stable ?_⟩
  · have all : (errors.map Diagnostic.ofSyntaxError).filter (·.code == .syntaxError) =
        errors.map .ofSyntaxError := List.filter_eq_self.2 fun d mem => beq_iff_eq.2 (ofError d mem)
    have none : found.filter (·.code == .syntaxError) = [] :=
      List.filter_eq_nil_iff.2 fun d mem => fun same => codes d mem (beq_iff_eq.1 same)
    rw [Diagnostic.filter_sortByPosition, List.filter_append, all, none, List.append_nil]
    exact Diagnostic.sortByPosition_of_ordered (List.pairwise_map.2 recorded)
  · have none : (errors.map Diagnostic.ofSyntaxError).filter (·.code != .syntaxError) = [] :=
      List.filter_eq_nil_iff.2 fun d mem => fun other => bne_iff_ne.1 other (ofError d mem)
    have all : found.filter (·.code != .syntaxError) = found :=
      List.filter_eq_self.2 fun d mem => bne_iff_ne.2 (codes d mem)
    rw [Diagnostic.filter_sortByPosition, List.filter_append, all, none, List.nil_append]
    exact Diagnostic.sortByPosition_of_ordered ordered
  · rw [List.pairwise_append]
    refine ⟨?_, ?_, fun d mem _ _ _ _ => ofError d mem⟩
    · exact List.pairwise_of_forall_mem_list fun d mem _ _ _ _ => ofError d mem
    · exact List.pairwise_of_forall_mem_list fun _ _ e mem _ isError => absurd isError (codes e mem)

/-- **An analysis merges without loss and in order**, since errors are recorded in the order of their
places. -/
theorem analyze_merges (config : Config) (place : Surroundings) (text : String) :
    ((readDocument text).errors.Pairwise fun e e' => e.span.start ≤ e'.span.start) ∧
      Merges (readDocument text).errors
        (validate config place (readDocument text).tree text.toList)
        (analyze config place text).diagnostics := by
  have recorded : (readDocument text).errors.Pairwise fun e e' => e.span.start ≤ e'.span.start := by
    rw [errors_readDocument]
    exact (readWithin_inOrder (by decide) text.toList).sorted
  refine ⟨recorded, ?_⟩
  simp only [analyze, diagnose]
  exact merges_sortByPosition recorded (validate_ordered _ _ _ _) fun d mem => code_of_mem_validate mem

end PatternRules
