import PatternRules.Proofs.Passes

/-!
Dropping repetitions and sorting by position do not disturb each other. A repetition has the span of what it
repeats, so among the diagnostics at one position the same are dropped before sorting and after, and how those
at each position stand determines a list that is sorted.

* `Diagnostic.dropRepeats_eq`: what is kept is the first diagnostic of each key, in order;
* `Diagnostic.stablySorted_iff`: there is one stable sort of a list;
* `Diagnostic.sortByPosition_dropRepeats`: both in either order;
* `repetitions_dropped`: so repetitions may as well be dropped from what the validator hands on.
-/

namespace PatternRules

namespace Diagnostic

variable {d : Diagnostic} {ds sorted sorted' : List Diagnostic}

/-! ## The first of each key -/

/-- No diagnostic before index `i` has the key of `d`. -/
def isNewAt (ds : List Diagnostic) (d : Diagnostic) (i : Nat) : Bool := (ds.take i).all (·.key != d.key)

/-- The first diagnostic of each key, in order. -/
def firsts (ds : List Diagnostic) : List Diagnostic :=
  (ds.zipIdx.filter fun (d, i) => isNewAt ds d i).map (·.1)

theorem firsts_cons (d : Diagnostic) (ds : List Diagnostic) :
    firsts (d :: ds) = d :: (firsts ds).filter (·.key != d.key) := by
  have behind (e : Diagnostic) (i : Nat) :
      isNewAt (d :: ds) e (i + 1) = (e.key != d.key && isNewAt ds e i) := by
    rw [isNewAt, List.take_succ_cons, List.all_cons, bne_comm]
    rfl
  rw [firsts, List.zipIdx_cons', List.filter_cons_of_pos rfl, List.map_cons, List.filter_map, List.map_map]
  refine congrArg (d :: ·) ?_
  rw [firsts, List.filter_map, List.filter_filter]
  exact congrArg (List.map _) (List.filter_congr fun (e, i) _ => behind e i)

/-- **What is kept is the first diagnostic of each key.** -/
theorem dropRepeats_eq (ds : List Diagnostic) : dropRepeats ds = firsts ds := by
  induction ds with
  | nil => rfl
  | cons d ds ih => rw [dropRepeats, ih, firsts_cons]

/-! ## Stable sorting -/

/-- The same diagnostics in the order of their positions, where those at one position have the order they had. -/
structure StablySorted (ds sorted : List Diagnostic) : Prop where
  perm : sorted.Perm ds
  ordered : Ordered sorted
  stable : ∀ p, sorted.filter (·.span.start = p) = ds.filter (·.span.start = p)

theorem insertByPosition_perm (d : Diagnostic) (ds : List Diagnostic) :
    (insertByPosition d ds).Perm (d :: ds) := by
  induction ds with
  | nil => exact .refl _
  | cons other rest ih =>
    rcases Position.le_or_lt d.span.start other.span.start with le | lt
    · rw [insertByPosition_of_le le]
    · rw [insertByPosition_of_lt lt]
      exact (ih.cons other).trans (.swap d other rest)

theorem sortByPosition_perm (ds : List Diagnostic) : (sortByPosition ds).Perm ds := by
  induction ds with
  | nil => exact .refl _
  | cons d ds ih => exact (insertByPosition_perm d _).trans (ih.cons d)

theorem sortByPosition_stablySorted (ds : List Diagnostic) : StablySorted ds (sortByPosition ds) where
  perm := sortByPosition_perm ds
  ordered := sortByPosition_ordered ds
  stable p := by
    have level : Ordered (ds.filter (·.span.start = p)) := by
      refine List.pairwise_of_forall_mem_list fun d hd e he => ?_
      rw [of_decide_eq_true (List.mem_filter.1 hd).2, of_decide_eq_true (List.mem_filter.1 he).2]
      exact Position.le_refl p
    rw [filter_sortByPosition, sortByPosition_of_ordered level]

theorem mem_iff_of_filter_eq
    (same : ∀ p, sorted.filter (·.span.start = p) = sorted'.filter (·.span.start = p)) (d : Diagnostic) :
    d ∈ sorted ↔ d ∈ sorted' := by
  have here := congrArg (d ∈ ·) (same d.span.start)
  simpa only [List.mem_filter, decide_true, and_true, eq_iff_iff] using here

theorem start_le_of_ordered {first : Diagnostic} (h : Ordered (first :: ds)) (mem : d ∈ first :: ds) :
    first.span.start ≤ d.span.start := by
  rcases List.mem_cons.1 mem with rfl | mem
  · exact Position.le_refl _
  · exact List.rel_of_pairwise_cons h mem

/-- **What stands at each position determines a list that is in order.** -/
theorem eq_of_filter_eq (ordered : Ordered sorted) (ordered' : Ordered sorted')
    (same : ∀ p, sorted.filter (·.span.start = p) = sorted'.filter (·.span.start = p)) : sorted = sorted' := by
  induction sorted generalizing sorted' with
  | nil =>
    refine (List.eq_nil_iff_forall_not_mem.2 fun d mem => ?_).symm
    exact List.not_mem_nil ((mem_iff_of_filter_eq same d).2 mem)
  | cons d rest ih =>
    have mem_iff := mem_iff_of_filter_eq same
    cases sorted' with
    | nil => exact absurd ((mem_iff d).1 List.mem_cons_self) List.not_mem_nil
    | cons e rest' =>
      -- Each of the two lists has the first of the other, so both begin at one position.
      have level : e.span.start = d.span.start :=
        Position.le_antisymm (start_le_of_ordered ordered' ((mem_iff d).1 List.mem_cons_self))
          (start_le_of_ordered ordered ((mem_iff e).2 List.mem_cons_self))
      have first := same d.span.start
      rw [List.filter_cons, List.filter_cons, if_pos (decide_eq_true rfl), if_pos (decide_eq_true level)] at first
      obtain ⟨rfl, -⟩ := List.cons.inj first
      have further (p : Position) : rest.filter (·.span.start = p) = rest'.filter (·.span.start = p) := by
        have here := same p
        rw [List.filter_cons, List.filter_cons] at here
        split at here
        · exact (List.cons.inj here).2
        · exact here
      rw [ih (List.pairwise_cons.1 ordered).2 (List.pairwise_cons.1 ordered').2 further]

/-- **There is one stable sort of a list.** -/
theorem stablySorted_iff : StablySorted ds sorted ↔ sorted = sortByPosition ds := by
  constructor
  · intro h
    have stable := (sortByPosition_stablySorted ds).stable
    exact eq_of_filter_eq h.ordered (sortByPosition_ordered ds) fun p => (h.stable p).trans (stable p).symm
  · rintro rfl
    exact sortByPosition_stablySorted ds

/-! ## Both in either order -/

/-- A repetition stands at the position of what it repeats. -/
theorem filter_start_dropRepeats (p : Position) (ds : List Diagnostic) :
    (dropRepeats ds).filter (·.span.start = p) = dropRepeats (ds.filter (·.span.start = p)) :=
  filter_dropRepeats (fun key => key.1.start = p) ds

/-- **Repetitions may be dropped before or after sorting.** -/
theorem sortByPosition_dropRepeats (ds : List Diagnostic) :
    sortByPosition (dropRepeats ds) = dropRepeats (sortByPosition ds) := by
  have ordered : Ordered (dropRepeats (sortByPosition ds)) :=
    (sortByPosition_ordered ds).sublist (dropRepeats_sublist _)
  refine eq_of_filter_eq (sortByPosition_ordered _) ordered fun p => ?_
  calc (sortByPosition (dropRepeats ds)).filter (·.span.start = p)
      = (dropRepeats ds).filter (·.span.start = p) := (sortByPosition_stablySorted _).stable p
    _ = dropRepeats (ds.filter (·.span.start = p)) := filter_start_dropRepeats p ds
    _ = dropRepeats ((sortByPosition ds).filter (·.span.start = p)) := by
      rw [(sortByPosition_stablySorted ds).stable p]
    _ = (dropRepeats (sortByPosition ds)).filter (·.span.start = p) := (filter_start_dropRepeats p _).symm

end Diagnostic

/-- **Dropping repetitions and sorting commute.** Of any list of diagnostics, the first of each key is kept, in
order; sorting gives its only stable sort; and it makes no difference which of the two comes first. So to switch
off that the validator drops repetitions, and to drop them from what it hands on, is to leave it switched on. -/
theorem repetitions_dropped :
    (∀ ds : List Diagnostic, Diagnostic.dropRepeats ds = Diagnostic.firsts ds ∧
      (∀ sorted, Diagnostic.StablySorted ds sorted ↔ sorted = Diagnostic.sortByPosition ds) ∧
      Diagnostic.sortByPosition (Diagnostic.dropRepeats ds) =
        Diagnostic.dropRepeats (Diagnostic.sortByPosition ds)) ∧
    ∀ (config : Config) (place : Surroundings) (root : Node) (text : List Char),
      validate { config with dropRepeats := true } place root text =
        Diagnostic.dropRepeats (validate { config with dropRepeats := false } place root text) := by
  refine ⟨fun ds => ?_, fun config place root text => ?_⟩
  · exact ⟨Diagnostic.dropRepeats_eq ds, fun sorted => Diagnostic.stablySorted_iff,
      Diagnostic.sortByPosition_dropRepeats ds⟩
  · exact Diagnostic.sortByPosition_dropRepeats (findings config place root text)

end PatternRules
