import PatternRules.Proofs.Merge

/-!
What the switches of the validator do to its findings. Each check has codes of its own, and the findings of the
checks stand one check behind the other. So the repetitions that are dropped are those of another finding of the
same check, and leaving a check out leaves the others as they are.

* `Diagnostic.filter_dropRepeats`, `Diagnostic.dropRepeats_append`: what is left out before repetitions are dropped;
* `Diagnostic.sortByPosition_sublist`: sorting keeps a list within a list;
* `validate_switches`: the checks for files, and those over the text, switched off.
-/

namespace PatternRules

namespace Diagnostic

variable {ds es : List Diagnostic}

/-! ## Dropping repetitions -/

/-- Diagnostics with certain keys may be left out before or after repetitions are dropped. -/
theorem filter_dropRepeats (p : Span × Code × String → Bool) (ds : List Diagnostic) :
    (dropRepeats ds).filter (p ·.key) = dropRepeats (ds.filter (p ·.key)) := by
  induction ds with
  | nil => rfl
  | cons d ds ih =>
    have swap : ((dropRepeats ds).filter (·.key != d.key)).filter (p ·.key) =
        (dropRepeats (ds.filter (p ·.key))).filter (·.key != d.key) := by
      rw [← ih, List.filter_filter, List.filter_filter]
      simp only [Bool.and_comm]
    rw [dropRepeats, List.filter_cons, List.filter_cons, swap]
    split
    · rfl
    · next left =>
      -- Nothing that stays repeats what was left out.
      refine List.filter_eq_self.2 fun e mem => bne_iff_ne.2 fun same => left ?_
      rw [← same]
      exact (List.mem_filter.1 ((dropRepeats_sublist _).subset mem)).2

/-- What stands behind a list takes nothing from it. -/
theorem dropRepeats_append (ds es : List Diagnostic) : dropRepeats ds <+: dropRepeats (ds ++ es) := by
  induction ds with
  | nil => exact List.nil_prefix
  | cons d ds ih => exact (List.prefix_cons_inj d).2 (ih.filter _)

/-! ## Sorting -/

theorem sublist_insertByPosition (d : Diagnostic) (ds : List Diagnostic) :
    ds.Sublist (insertByPosition d ds) := by
  induction ds with
  | nil => exact List.nil_sublist _
  | cons other rest ih =>
    rcases Position.le_or_lt d.span.start other.span.start with le | lt
    · rw [insertByPosition_of_le le]
      exact List.sublist_cons_self d _
    · rw [insertByPosition_of_lt lt]
      exact ih.cons_cons other

theorem insertByPosition_sublist {d : Diagnostic} (h : ds.Sublist es) (ordered : Ordered es) :
    (insertByPosition d ds).Sublist (insertByPosition d es) := by
  induction h with
  | slnil => exact List.Sublist.refl _
  | @cons ds rest other sub ih =>
    rcases Position.le_or_lt d.span.start other.span.start with le | lt
    · -- What is inserted stands in front of `other`, so in front of all that is behind.
      have front : Ordered (d :: ds) :=
        (ordered_cons ordered le).sublist ((sub.cons other).cons_cons d)
      rw [insertByPosition_of_le le, insertByPosition_of_ordered front]
      exact (sub.cons other).cons_cons d
    · rw [insertByPosition_of_lt lt]
      exact (ih (List.pairwise_cons.1 ordered).2).cons other
  | @cons_cons ds rest other sub ih =>
    rcases Position.le_or_lt d.span.start other.span.start with le | lt
    · rw [insertByPosition_of_le le, insertByPosition_of_le le]
      exact (sub.cons_cons other).cons_cons d
    · rw [insertByPosition_of_lt lt, insertByPosition_of_lt lt]
      exact (ih (List.pairwise_cons.1 ordered).2).cons_cons other

/-- **Sorting keeps a list within a list**: fewer diagnostics come in the order they had among more. -/
theorem sortByPosition_sublist (h : ds.Sublist es) : (sortByPosition ds).Sublist (sortByPosition es) := by
  induction h with
  | slnil => exact List.Sublist.refl _
  | @cons ds rest d _ ih => exact ih.trans (sublist_insertByPosition d _)
  | @cons_cons ds rest d _ ih => exact insertByPosition_sublist ih (sortByPosition_ordered rest)

end Diagnostic

/-! ## Switches -/

/-- Findings as they are handed on: sorted, and without repetitions if these are dropped. -/
def handedOn (drop : Bool) (ds : List Diagnostic) : List Diagnostic :=
  Diagnostic.sortByPosition (if drop then Diagnostic.dropRepeats ds else ds)

theorem filter_handedOn (drop : Bool) (p : Code → Bool) (ds : List Diagnostic) :
    (handedOn drop ds).filter (p ·.code) = handedOn drop (ds.filter (p ·.code)) := by
  rw [handedOn, handedOn, Diagnostic.filter_sortByPosition]
  cases drop with
  | true => exact congrArg _ (Diagnostic.filter_dropRepeats (fun key => p key.2.1) ds)
  | false => rfl

theorem handedOn_append_sublist (drop : Bool) (ds es : List Diagnostic) :
    (handedOn drop ds).Sublist (handedOn drop (ds ++ es)) := by
  refine Diagnostic.sortByPosition_sublist ?_
  cases drop with
  | true => exact (Diagnostic.dropRepeats_append ds es).sublist
  | false => exact List.sublist_append_left ds es

/-- Whether a code is not one for missing files. -/
def Code.isBesideFiles (code : Code) : Bool :=
  code != .missingImportFile && code != .missingOptionalTokensFile

/-- What is found in the tree is about references and ranges. -/
theorem code_of_mem_inTree {config : Config} {root : Node} {d : Diagnostic}
    (h : d ∈ undefinedReferences config root ++ unboundedRanges root) :
    d.code = .undefinedReference ∨ d.code = .unboundedQuantifier :=
  (List.mem_append.1 h).imp code_of_mem_undefinedReferences code_of_mem_unboundedRanges

/-- What is found without the checks for files is all that is not about a missing file. -/
theorem findings_besideFiles (config : Config) (place : Surroundings) (root : Node) (text : List Char) :
    (findings { config with checkFiles := true } place root text).filter (·.code.isBesideFiles) =
      findings { config with checkFiles := false } place root text := by
  have files : (missingFiles { config with checkFiles := true } place root
      (scannedLines config text)).filter (·.code.isBesideFiles) = [] := by
    refine List.filter_eq_nil_iff.2 fun d mem => ?_
    rcases isMissingFile_of_mem_missingFiles mem with code | code
    · rw [code]
      decide
    · rw [code]
      decide
  have beside : (undefinedReferences config root ++ unboundedRanges root ++
      openEndedQuantifiers (scannedLines config text)).filter (·.code.isBesideFiles) =
        undefinedReferences config root ++ unboundedRanges root ++
          openEndedQuantifiers (scannedLines config text) := by
    refine List.filter_eq_self.2 fun d mem => ?_
    rcases List.mem_append.1 mem with mem | mem
    · rcases code_of_mem_inTree mem with code | code
      · rw [code]
        rfl
      · rw [code]
        rfl
    · rw [code_of_mem_openEndedQuantifiers mem]
      rfl
  calc (findings { config with checkFiles := true } place root text).filter (·.code.isBesideFiles)
      = _ ++ _ := List.filter_append _ _
    _ = _ ++ [] := congrArg₂ _ beside files

/-- The files a text names are looked for behind those that the tree names. -/
theorem missingFiles_extends (config : Config) (place : Surroundings) (root : Node)
    (lines : List ScannedLine) :
    missingFiles config place root [] <+: missingFiles config place root lines := by
  unfold missingFiles
  split
  · refine List.IsPrefix.filterMap _ ?_
    exact (List.prefix_append_right_inj _).2 List.nil_prefix
  · exact List.prefix_rfl

/-- With the scan of the text, what it finds comes in between and behind. -/
theorem findings_scanText (config : Config) (place : Surroundings) (root : Node) (text : List Char) :
    ∃ found further,
      findings { config with scanText := true } place root text = found ++ further ∧
        found.filter (·.code != .openEndedQuantifier) =
          findings { config with scanText := false } place root text := by
  obtain ⟨further, behind⟩ := missingFiles_extends config place root (scanText text)
  let inTree := undefinedReferences config root ++ unboundedRanges root
  let named := missingFiles config place root []
  have scanned : (openEndedQuantifiers (scanText text)).filter (·.code != .openEndedQuantifier) = [] := by
    refine List.filter_eq_nil_iff.2 fun d mem => ?_
    rw [code_of_mem_openEndedQuantifiers mem]
    decide
  have kept : inTree.filter (·.code != .openEndedQuantifier) = inTree := by
    refine List.filter_eq_self.2 fun d mem => ?_
    rcases code_of_mem_inTree mem with code | code
    · rw [code]
      rfl
    · rw [code]
      rfl
  have files : named.filter (·.code != .openEndedQuantifier) = named := by
    refine List.filter_eq_self.2 fun d mem => ?_
    rcases isMissingFile_of_mem_missingFiles mem with code | code
    · rw [code]
      rfl
    · rw [code]
      rfl
  refine ⟨inTree ++ openEndedQuantifiers (scanText text) ++ named, further, ?_, ?_⟩
  · rw [List.append_assoc, behind]
    rfl
  · rw [List.filter_append, List.filter_append, scanned, kept, files]
    rfl

/-- **Switching a check off only leaves findings out.** Without the checks for files, just the findings about
missing files are left out; without the scan of the text, what is found has the order it has with it. -/
theorem validate_switches (config : Config) (place : Surroundings) (root : Node) (text : List Char) :
    validate { config with checkFiles := false } place root text =
        (validate { config with checkFiles := true } place root text).filter
          (fun d => d.code != .missingImportFile && d.code != .missingOptionalTokensFile) ∧
      (validate { config with scanText := false } place root text).Sublist
        (validate { config with scanText := true } place root text) := by
  constructor
  · calc validate { config with checkFiles := false } place root text
        = handedOn config.dropRepeats (findings { config with checkFiles := false } place root text) := rfl
      _ = handedOn config.dropRepeats ((findings { config with checkFiles := true } place root
            text).filter (·.code.isBesideFiles)) := by rw [findings_besideFiles]
      _ = (handedOn config.dropRepeats (findings { config with checkFiles := true } place root
            text)).filter (·.code.isBesideFiles) := (filter_handedOn _ Code.isBesideFiles _).symm
  · obtain ⟨found, further, on, off⟩ := findings_scanText config place root text
    have between : (handedOn config.dropRepeats
        (found.filter (·.code != .openEndedQuantifier))).Sublist (handedOn config.dropRepeats found) := by
      rw [← filter_handedOn _ (· != .openEndedQuantifier)]
      exact List.filter_sublist
    rw [off] at between
    have behind : (handedOn config.dropRepeats found).Sublist
        (handedOn config.dropRepeats (findings { config with scanText := true } place root text)) := by
      rw [on]
      exact handedOn_append_sublist _ found further
    exact between.trans behind

end PatternRules
