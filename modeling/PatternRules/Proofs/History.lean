import Mathlib.Data.List.Induction
import PatternRules.Store

/-!
What a store holds after a history of requests. A history is a list of requests, the oldest first; what is
known about files may change from one to the next. The history alone tells which update stands for a document
(`History.standing?`), and an inversion lemma tells all that an update can do to a store (`submit_handled`).

* `run_coherent`: as long as the files stay as they are, every revision in the store is what a fresh analysis
  of its text gives;
* `run_tells`: look-ups, size and counts of a store are functions of its history.

Texts are told apart by their digests, so both need that no two texts of the history share one
(`Distinguished`).
-/

namespace PatternRules

/-! ## Histories -/

/-- A revision that is handed in, with what is known about files by then. -/
structure Submission where
  probe : FileProbe
  name : String
  version : Int
  text : String
  baseDir : Option String

/-- What a store is asked for. -/
inductive Request where
  | update (submission : Submission)
  | get (name : String) (version : Int)
  | remove (name : String)

namespace Request

def isUpdate : Request → Bool
  | update _ => true
  | get .. | remove _ => false

/-- The text that is handed in. -/
def text? : Request → Option String
  | update s => some s.text
  | get .. | remove _ => none

/-- Whether the request decides what is held of a document. -/
def settles (name : String) : Request → Bool
  | update s => s.name == name
  | remove other => other == name
  | get .. => false

end Request

/-- Requests one after the other, the oldest first. -/
abbrev History := List Request

namespace History

/-- The texts that were handed in. -/
def texts (history : History) : List String := history.filterMap Request.text?

/-- Each request, with those before it; `past` is what came before all of them. -/
def occasionsFrom (past : History) : History → List (History × Request)
  | [] => []
  | request :: rest => (past, request) :: occasionsFrom (past ++ [request]) rest

/-- Each request, with those before it. -/
def occasions (history : History) : List (History × Request) := occasionsFrom [] history

/-- The update that stands for a document, with what was asked before it: the latest update or removal of the
document, if that is an update. -/
def standing? (history : History) (name : String) : Option (History × Submission) :=
  match (history.occasions.filter fun occasion => occasion.2.settles name).getLast? with
  | some (past, .update s) => some (past, s)
  | some (_, .get ..) | some (_, .remove _) | none => none

/-- Whether a request hands in a text that does not stand for its document already. -/
def bringsText : History × Request → Bool
  | (past, .update s) => (past.standing? s.name).all fun earlier => earlier.2.text != s.text
  | (_, .get ..) | (_, .remove _) => false

/-- Whether a request looks up a document that is there, in a version that is not. -/
def looksUpStale : History × Request → Bool
  | (past, .get name version) => (past.standing? name).any fun earlier => earlier.2.version != version
  | (_, .update _) | (_, .remove _) => false

theorem occasionsFrom_append (past front rest : History) :
    occasionsFrom past (front ++ rest) =
      occasionsFrom past front ++ occasionsFrom (past ++ front) rest := by
  induction front generalizing past with
  | nil => rw [List.nil_append, List.append_nil, occasionsFrom, List.nil_append]
  | cons request front ih => simp [occasionsFrom, ih]

@[simp]
theorem occasions_snoc (past : History) (request : Request) :
    occasions (past ++ [request]) = past.occasions ++ [(past, request)] := by
  rw [occasions, occasionsFrom_append]
  rfl

theorem standing?_snoc (past : History) (request : Request) (name : String) :
    standing? (past ++ [request]) name =
      match request with
      | .update s => if s.name = name then some (past, s) else past.standing? name
      | .get .. => past.standing? name
      | .remove other => if other = name then none else past.standing? name := by
  cases request with
  | update s =>
    by_cases h : s.name = name
    · simp [standing?, Request.settles, h]
    · simp [standing?, Request.settles, h]
  | get other version => simp [standing?, Request.settles]
  | remove other =>
    by_cases h : other = name
    · simp [standing?, Request.settles, h]
    · simp [standing?, Request.settles, h]

@[simp]
theorem texts_snoc (past : History) (request : Request) :
    texts (past ++ [request]) = past.texts ++ request.text?.toList := by
  cases request with
  | update s => simp [texts, Request.text?]
  | get name version => simp [texts, Request.text?]
  | remove name => simp [texts, Request.text?]

/-- The update that stands is one of the history, and what comes with it is what was asked before it. -/
theorem prefix_of_standing? {history past : History} {s : Submission} {name : String}
    (h : history.standing? name = some (past, s)) : (past ++ [Request.update s]).IsPrefix history := by
  induction history using List.reverseRecOn with
  | nil => cases h
  | append_singleton front request ih =>
    rw [standing?_snoc] at h
    cases request with
    | update u =>
      dsimp only at h
      split at h
      · cases h
        exact List.prefix_rfl
      · exact (ih h).trans (List.prefix_append _ _)
    | get other version => exact (ih h).trans (List.prefix_append _ _)
    | remove other =>
      dsimp only at h
      split at h
      · cases h
      · exact (ih h).trans (List.prefix_append _ _)

end History

/-- No two of the texts have one digest. -/
def Distinguished (texts : List String) : Prop :=
  ∀ a ∈ texts, ∀ b ∈ texts, fingerprint a = fingerprint b → a = b

instance (texts : List String) : Decidable (Distinguished texts) :=
  inferInstanceAs (Decidable (∀ a ∈ texts, ∀ b ∈ texts, fingerprint a = fingerprint b → a = b))

theorem Distinguished.subset {texts more : List String} (h : Distinguished more)
    (sub : ∀ text ∈ texts, text ∈ more) : Distinguished texts :=
  fun a ha b hb same => h a (sub a ha) b (sub b hb) same

/-- A text is replaced and comes back, another document has it too, and one is forgotten. -/
def History.sample : History :=
  let probe : FileProbe := fun _ => .missing
  [.update ⟨probe, "x", 1, "a", none⟩, .update ⟨probe, "x", 2, "b", none⟩, .get "x" 1,
    .update ⟨probe, "y", 1, "a", some "d"⟩, .update ⟨probe, "y", 2, "a", none⟩, .remove "y",
    .update ⟨probe, "x", 1, "a", none⟩]

theorem History.distinguished_sample : Distinguished History.sample.texts := by
  decide +kernel

/-! ## What a request does -/

namespace Store

/-- Records a revision that is handed in. -/
def submit (store : Store) (s : Submission) : Revision × Store :=
  store.update s.probe s.name s.version s.text s.baseDir

/-- The store after a request. -/
def after (store : Store) : Request → Store
  | .update s => (store.submit s).2
  | .get name version => (store.get name version).2
  | .remove name => (store.remove name).2

/-- The store after a history of requests. -/
def run (config : Config) (history : History) : Store := history.foldl after (empty config)

@[simp]
theorem run_snoc (config : Config) (past : History) (request : Request) :
    run config (past ++ [request]) = (run config past).after request := by
  simp [run]

/-- All that an update can do: the text is new, nothing is new, or the text is the same and the rest is not. -/
inductive Handled (store : Store) (s : Submission) : Revision × Store → Prop
  | fresh (other : ∀ r, store.latest? s.name = some r → r.fingerprint ≠ fingerprint s.text) :
      Handled store s
        (.ofText store.config ⟨s.probe, s.baseDir⟩ s.version s.text,
          (store.put s.name (.ofText store.config ⟨s.probe, s.baseDir⟩ s.version s.text)).countMiss)
  | unchanged (r : Revision) (held : store.latest? s.name = some r)
      (text : r.fingerprint = fingerprint s.text) (version : r.version = s.version)
      (dir : Path.same r.baseDir s.baseDir = true) : Handled store s (r, store.countHit)
  | renewed (r : Revision) (held : store.latest? s.name = some r)
      (text : r.fingerprint = fingerprint s.text) :
      Handled store s
        (r.renew store.config ⟨s.probe, s.baseDir⟩ s.version s.text,
          (store.put s.name (r.renew store.config ⟨s.probe, s.baseDir⟩ s.version s.text)).countHit)

theorem submit_handled (store : Store) (s : Submission) : Handled store s (store.submit s) := by
  simp only [submit, update]
  split
  · next none => exact .fresh fun r held => by rw [none] at held; cases held
  · next r held =>
    split
    · next other => exact .fresh fun r' held' => by rw [held] at held'; cases held'; exact other
    · next text =>
      rw [ne_eq, Decidable.not_not] at text
      split
      · next same => exact .unchanged r held text same.1 same.2
      · exact .renewed r held text

/-- All that a look-up can do. -/
theorem get_eq (store : Store) (name : String) (version : Int) :
    store.get name version =
      ((store.latest? name).filter (·.version == version),
        if (store.latest? name).any (·.version != version) then store.countStale else store) := by
  rw [get]
  cases store.latest? name with
  | none => rfl
  | some r =>
    by_cases h : r.version = version
    · simp [Option.filter, h]
    · simp [Option.filter, h]

variable {store : Store} {s : Submission} {name : String}

theorem mem_of_latest? {r : Revision} (held : store.latest? name = some r) :
    (name, r) ∈ store.entries := by
  obtain ⟨front, rest, split, -⟩ := List.lookup_eq_some_iff.1 held
  rw [split]
  exact List.mem_append_right _ List.mem_cons_self

theorem latest?_remove (store : Store) (name other : String) :
    (store.remove name).2.latest? other = if name = other then none else store.latest? other := by
  simp only [remove, latest?]
  induction store.entries with
  | nil => simp
  | cons entry rest ih =>
    obtain ⟨key, r⟩ := entry
    by_cases hk : key = name
    · subst hk
      by_cases ho : key = other
      · simpa [ho] using ih
      · have : (other == key) = false := by simpa using fun e => ho e.symm
        simpa [ho, List.lookup_cons, this] using ih
    · by_cases ho : key = other
      · subst ho
        have : ¬ name = key := fun e => hk e.symm
        simp [hk, this]
      · have : (other == key) = false := by simpa using fun e => ho e.symm
        simpa [hk, List.lookup_cons, this] using ih

/-- An update answers with what it leaves in the store. -/
theorem latest?_submit (store : Store) (s : Submission) (name : String) :
    (store.submit s).2.latest? name =
      if s.name = name then some (store.submit s).1 else store.latest? name := by
  have put (r : Revision) :
      (store.put s.name r).latest? name = if s.name = name then some r else store.latest? name := by
    split
    · next h => rw [← h, latest?_put_self]
    · next h => rw [latest?_put_of_ne store (fun e => h e.symm)]
  have handled := submit_handled store s
  generalize store.submit s = outcome at handled ⊢
  cases handled with
  | fresh other => exact put _
  | unchanged r held text version dir =>
    show store.latest? name = _
    split
    · next h => rw [← h, held]
    · rfl
  | renewed r held text => exact put _

theorem version_submit (store : Store) (s : Submission) : (store.submit s).1.version = s.version := by
  have handled := submit_handled store s
  generalize store.submit s = outcome at handled ⊢
  cases handled with
  | fresh other => rfl
  | unchanged r held text version dir => exact version
  | renewed r held text => rfl

/-- **Whatever is so of new revisions and kept by renewing them is so of all that a store holds.** -/
theorem forall_revisions {P : Revision → Prop} (h : ∀ entry ∈ store.entries, P entry.2)
    (fresh : P (.ofText store.config ⟨s.probe, s.baseDir⟩ s.version s.text))
    (renewed : ∀ r, P r → r.fingerprint = fingerprint s.text →
      P (r.renew store.config ⟨s.probe, s.baseDir⟩ s.version s.text)) :
    P (store.submit s).1 ∧ ∀ entry ∈ (store.submit s).2.entries, P entry.2 := by
  have put {r : Revision} (hr : P r) : ∀ entry ∈ (store.put s.name r).entries, P entry.2 := by
    intro entry mem
    rcases List.mem_cons.1 mem with rfl | mem
    · exact hr
    · exact h entry (List.mem_filter.1 mem).1
  have handled := submit_handled store s
  generalize store.submit s = outcome at handled ⊢
  cases handled with
  | fresh other => exact ⟨fresh, put fresh⟩
  | unchanged r held text version dir => exact ⟨h _ (mem_of_latest? held), h⟩
  | renewed r held text =>
    have hr := renewed r (h _ (mem_of_latest? held)) text
    exact ⟨hr, put hr⟩

/-! ## What a history does -/

theorem config_after (store : Store) (request : Request) : (store.after request).config = store.config := by
  cases request with
  | update s =>
    have handled := submit_handled store s
    show (store.submit s).2.config = _
    generalize store.submit s = outcome at handled ⊢
    cases handled with
    | fresh other => rfl
    | unchanged r held text version dir => rfl
    | renewed r held text => rfl
  | get name version =>
    simp only [after, get_eq]
    split <;> rfl
  | remove name => rfl

@[simp]
theorem config_run (config : Config) (history : History) : (run config history).config = config := by
  induction history using List.reverseRecOn with
  | nil => rfl
  | append_singleton past request ih => rw [run_snoc, config_after, ih]

theorem entries_get (store : Store) (name : String) (version : Int) :
    (store.get name version).2.entries = store.entries := by
  rw [get_eq]
  dsimp only
  split <;> rfl

/-- The store holds the answer to the update that stands. -/
theorem latest?_run (config : Config) (history : History) (name : String) :
    (run config history).latest? name =
      (history.standing? name).map fun standing => ((run config standing.1).submit standing.2).1 := by
  induction history using List.reverseRecOn with
  | nil => rfl
  | append_singleton past request ih =>
    rw [run_snoc, History.standing?_snoc]
    cases request with
    | update s =>
      rw [after, latest?_submit]
      dsimp only
      split
      · rfl
      · exact ih
    | get other version => rw [after, latest?, entries_get, ← latest?, ih]
    | remove other =>
      rw [after, latest?_remove]
      dsimp only
      split
      · rfl
      · exact ih

theorem forall_revisions_run {P : Revision → Prop} {config : Config} {history : History}
    (fresh : ∀ s, .update s ∈ history → P (.ofText config ⟨s.probe, s.baseDir⟩ s.version s.text))
    (renewed : ∀ s r, .update s ∈ history → P r → r.fingerprint = fingerprint s.text →
      P (r.renew config ⟨s.probe, s.baseDir⟩ s.version s.text)) :
    ∀ entry ∈ (run config history).entries, P entry.2 := by
  induction history using List.reverseRecOn with
  | nil =>
    intro entry mem
    cases mem
  | append_singleton past request ih =>
    have before := ih (fun s mem => fresh s (List.mem_append_left _ mem))
      fun s r mem => renewed s r (List.mem_append_left _ mem)
    rw [run_snoc]
    cases request with
    | update s =>
      have now : Request.update s ∈ past ++ [.update s] := List.mem_append_right _ List.mem_cons_self
      refine (forall_revisions before ?_ ?_).2
      · rw [config_run]
        exact fresh s now
      · intro r hr text
        rw [config_run]
        exact renewed s r now hr text
    | get name version => exact (entries_get _ name version).symm ▸ before
    | remove name => exact fun entry mem => before entry (List.mem_filter.1 mem).1

/-- A revision that was made from one of some texts. -/
structure MadeFrom (texts : List String) (r : Revision) : Prop where
  mem : r.text ∈ texts
  fingerprint : r.fingerprint = PatternRules.fingerprint r.text

theorem madeFrom_run (config : Config) (history : History) :
    ∀ entry ∈ (run config history).entries, MadeFrom history.texts entry.2 := by
  refine forall_revisions_run ?_ ?_
  · exact fun s mem => ⟨List.mem_filterMap.2 ⟨_, mem, rfl⟩, rfl⟩
  · exact fun s r _ made _ => ⟨made.mem, made.fingerprint⟩

theorem MadeFrom.text_eq {texts : List String} {r : Revision} (made : MadeFrom texts r) {text : String}
    (distinct : Distinguished (texts ++ [text])) (same : r.fingerprint = PatternRules.fingerprint text) :
    r.text = text :=
  distinct _ (List.mem_append_left _ made.mem) _ (List.mem_append_right _ List.mem_cons_self)
    (made.fingerprint.symm.trans same)

/-- An update answers with the text that is handed in, be it read now or kept from before. -/
theorem text_submit_run {config : Config} {past : History} {s : Submission}
    (distinct : Distinguished (past.texts ++ [s.text])) :
    ((run config past).submit s).1.text = s.text := by
  have made := madeFrom_run config past
  have handled := submit_handled (run config past) s
  generalize (run config past).submit s = outcome at handled ⊢
  cases handled with
  | fresh other => rfl
  | unchanged r held text version dir => exact (made _ (mem_of_latest? held)).text_eq distinct text
  | renewed r held text => exact (made _ (mem_of_latest? held)).text_eq distinct text

/-! ## Revisions and fresh analyses -/

/-- A revision is what reading and validating its text gives, where it stands. -/
structure Coherent (config : Config) (probe : FileProbe) (r : Revision) : Prop where
  fingerprint : r.fingerprint = PatternRules.fingerprint r.text
  reading : r.reading = readDocument r.text
  diagnostics : r.diagnostics = diagnose config ⟨probe, r.baseDir⟩ (readDocument r.text) r.text.toList

theorem Coherent.ofText (config : Config) (place : Surroundings) (version : Int) (text : String) :
    Coherent config place.probe (.ofText config place version text) where
  fingerprint := by rw [Revision.ofText]
  reading := by rw [Revision.ofText]
  diagnostics := by rw [Revision.ofText]

/-- The reading that is kept is one of the text that is handed in. -/
theorem Coherent.renew {config : Config} {probe : FileProbe} {r : Revision}
    (h : Coherent config probe r) (place : Surroundings) (version : Int) {text : String}
    (same : r.text = text) : Coherent config place.probe (r.renew config place version text) where
  fingerprint := h.fingerprint
  reading := h.reading
  diagnostics := by rw [Revision.renew, h.reading, same]

/-- The answer to an update that is made where nothing but the request is new. -/
structure Answers (config : Config) (probe : FileProbe) (store : Store) (s : Submission)
    (answer : Revision) (after : Store) : Prop where
  coherent : Coherent config probe answer
  version : answer.version = s.version
  text : answer.text = s.text
  baseDir : Path.same answer.baseDir s.baseDir = true
  held : after.latest? s.name = some answer
  others : ∀ name, name ≠ s.name → after.latest? name = store.latest? name

theorem baseDir_submit (store : Store) (s : Submission) :
    Path.same (store.submit s).1.baseDir s.baseDir = true := by
  have refl (dir : Option String) : Path.same dir dir = true := beq_self_eq_true _
  have handled := submit_handled store s
  generalize store.submit s = outcome at handled ⊢
  cases handled with
  | fresh other => exact refl _
  | unchanged r held text version dir => exact dir
  | renewed r held text => exact refl _

theorem coherent_run {config : Config} {probe : FileProbe} {history : History}
    (steady : ∀ s, .update s ∈ history → s.probe = probe) (distinct : Distinguished history.texts) :
    ∀ entry ∈ (run config history).entries,
      Coherent config probe entry.2 ∧ MadeFrom history.texts entry.2 := by
  refine forall_revisions_run (P := fun r => Coherent config probe r ∧ MadeFrom history.texts r) ?_ ?_
  · intro s mem
    rw [steady s mem]
    exact ⟨.ofText config ⟨probe, s.baseDir⟩ _ _, List.mem_filterMap.2 ⟨_, mem, rfl⟩, rfl⟩
  · rintro s r mem ⟨coherent, made⟩ same
    have text : r.text = s.text :=
      distinct _ made.mem _ (List.mem_filterMap.2 ⟨_, mem, rfl⟩) (made.fingerprint.symm.trans same)
    rw [steady s mem]
    exact ⟨coherent.renew ⟨probe, s.baseDir⟩ _ text, made.mem, made.fingerprint⟩

/-- **A store agrees with fresh analyses**: while the files stay as they are, each revision it holds is what
reading and validating its text gives, and so is the answer to an update, which has the version, the text and
the directory that are handed in. What is held of other documents stays. -/
theorem run_coherent {config : Config} {probe : FileProbe} {history : History}
    (steady : ∀ s, .update s ∈ history → s.probe = probe) (distinct : Distinguished history.texts) :
    (∀ entry ∈ (run config history).entries, Coherent config probe entry.2) ∧
      ∀ s, s.probe = probe → Distinguished (history.texts ++ [s.text]) →
        Answers config probe (run config history) s ((run config history).submit s).1
          ((run config history).submit s).2 := by
  refine ⟨fun entry mem => (coherent_run steady distinct entry mem).1, ?_⟩
  intro s same distinct'
  have held : ((run config history).submit s).2.latest? s.name =
      some ((run config history).submit s).1 := by
    rw [latest?_submit, if_pos rfl]
  refine ⟨?_, version_submit _ s, text_submit_run distinct', baseDir_submit _ s, held, ?_⟩
  · -- The answer is held after one more update, so it is one of the revisions of a longer history.
    have steady' : ∀ u, .update u ∈ history ++ [.update s] → u.probe = probe := by
      intro u mem
      rcases List.mem_append.1 mem with mem | mem
      · exact steady u mem
      · cases List.mem_singleton.1 mem
        exact same
    have distinct' : Distinguished (History.texts (history ++ [.update s])) := by
      rw [History.texts_snoc]
      exact distinct'
    have all := @coherent_run config probe _ steady' distinct'
    rw [run_snoc] at all
    exact (all _ (mem_of_latest? held)).1
  · intro name other
    rw [latest?_submit, if_neg fun e => other e.symm]

theorem run_coherent_sample :
    (∀ s, .update s ∈ History.sample → s.probe = fun _ => .missing) ∧
      Distinguished History.sample.texts ∧
      (∀ entry ∈ (run .standard .sample).entries, Coherent .standard (fun _ => .missing) entry.2) ∧
      Answers .standard (fun _ => .missing) (run .standard .sample) ⟨fun _ => .missing, "x", 3, "b", none⟩
        ((run .standard .sample).submit ⟨fun _ => .missing, "x", 3, "b", none⟩).1
        ((run .standard .sample).submit ⟨fun _ => .missing, "x", 3, "b", none⟩).2 := by
  have steady : ∀ s, .update s ∈ History.sample → s.probe = fun _ => .missing := by
    simp [History.sample]
  have distinct := History.distinguished_sample
  have coherent := @run_coherent .standard _ _ steady distinct
  refine ⟨steady, distinct, coherent.1, coherent.2 _ rfl ?_⟩
  exact distinct.subset (by decide)

/-! ## Look-ups and counts -/

/-- What a store shows of its history. -/
structure Tells (config : Config) (history : History) (store : Store) : Prop where
  get : ∀ name version r, (store.get name version).1 = some r ↔
    ∃ past s, history.standing? name = some (past, s) ∧ s.version = version ∧
      ((run config past).submit s).1 = r
  size : ∃ names : List String, names.Nodup ∧
    (∀ name, name ∈ names ↔ (history.standing? name).isSome) ∧ store.size = names.length
  updates : store.counts.hits + store.counts.misses = history.countP Request.isUpdate
  misses : store.counts.misses = history.occasions.countP History.bringsText
  stale : store.counts.stale = history.occasions.countP History.looksUpStale
  getOnly : ∀ name version, (store.get name version).2 =
    { store with counts := { store.counts with stale := (store.get name version).2.counts.stale } }

theorem nodup_names_submit (h : (store.entries.map Prod.fst).Nodup) :
    ((store.submit s).2.entries.map Prod.fst).Nodup := by
  have put (r : Revision) : ((store.put s.name r).entries.map Prod.fst).Nodup := by
    refine List.nodup_cons.2 ⟨?_, h.sublist (List.filter_sublist.map _)⟩
    intro mem
    obtain ⟨entry, mem, same⟩ := List.mem_map.1 mem
    have other := (List.mem_filter.1 mem).2
    rw [same, bne_self_eq_false] at other
    cases other
  have handled := submit_handled store s
  generalize store.submit s = outcome at handled ⊢
  cases handled with
  | fresh other => exact put _
  | unchanged r held text version dir => exact h
  | renewed r held text => exact put _

theorem nodup_names_run (config : Config) (history : History) :
    ((run config history).entries.map Prod.fst).Nodup := by
  induction history using List.reverseRecOn with
  | nil => exact List.nodup_nil
  | append_singleton past request ih =>
    rw [run_snoc]
    cases request with
    | update s => exact nodup_names_submit ih
    | get name version => rwa [after, entries_get]
    | remove name => exact ih.sublist (List.filter_sublist.map _)

/-- An update is counted as a hit or as a miss. -/
theorem counts_submit (store : Store) (s : Submission) :
    (store.submit s).2.counts.stale = store.counts.stale ∧
      (store.submit s).2.counts.hits + (store.submit s).2.counts.misses =
        store.counts.hits + store.counts.misses + 1 := by
  have handled := submit_handled store s
  generalize store.submit s = outcome at handled ⊢
  cases handled with
  | fresh other => exact ⟨rfl, rfl⟩
  | unchanged r held text version dir => exact ⟨rfl, Nat.succ_add _ _⟩
  | renewed r held text => exact ⟨rfl, Nat.succ_add _ _⟩

/-- It is counted as a miss where the text is new. -/
theorem misses_submit (store : Store) (s : Submission) :
    (store.submit s).2.counts.misses = store.counts.misses +
      if (store.latest? s.name).all (·.fingerprint != fingerprint s.text) then 1 else 0 := by
  have handled := submit_handled store s
  generalize store.submit s = outcome at handled ⊢
  cases handled with
  | fresh other =>
    rw [if_pos]
    · rfl
    · cases held : store.latest? s.name with
      | none => rfl
      | some r => simpa using other r held
  | unchanged r held text version dir => simp [held, text, countHit]
  | renewed r held text => simp [held, text, countHit, put]

theorem counts_get (store : Store) (name : String) (version : Int) :
    (store.get name version).2.counts = { store.counts with
      stale := store.counts.stale + if (store.latest? name).any (·.version != version) then 1 else 0 } := by
  rw [get_eq]
  dsimp only
  split
  · rfl
  · rfl

/-- A text is new to the store where it does not stand in the history. -/
theorem bringsText_run {config : Config} {past : History} {s : Submission}
    (distinct : Distinguished (past.texts ++ [s.text])) :
    ((run config past).latest? s.name).all (·.fingerprint != fingerprint s.text) =
      History.bringsText (past, .update s) := by
  have held := latest?_run config past s.name
  rw [held, History.bringsText]
  cases standing : past.standing? s.name with
  | none => rfl
  | some earlier =>
    obtain ⟨front, u⟩ := earlier
    rw [standing, Option.map_some] at held
    have made := madeFrom_run config past _ (mem_of_latest? held)
    -- The texts in front of the standing update are among those of the whole history.
    have text : ((run config front).submit u).1.text = u.text := by
      refine text_submit_run (distinct.subset fun t mem => List.mem_append_left _ ?_)
      have before := (History.prefix_of_standing? standing).sublist.filterMap Request.text?
      rw [← History.texts, History.texts_snoc] at before
      exact before.mem mem
    have known : ((run config front).submit u).1.text ∈ past.texts ++ [s.text] :=
      List.mem_append_left _ made.mem
    have same : ((run config front).submit u).1.fingerprint = fingerprint s.text ↔ u.text = s.text := by
      rw [made.fingerprint, ← text]
      exact ⟨distinct _ known _ (List.mem_append_right _ List.mem_cons_self), congrArg _⟩
    rw [Option.map_some, Option.all_some, Option.all_some, Bool.eq_iff_iff, bne_iff_ne, bne_iff_ne]
    exact not_congr same

variable {config : Config}

/-- A look-up finds what stands, in its version. -/
theorem get_run (config : Config) (history : History) (name : String) (version : Int) (r : Revision) :
    ((run config history).get name version).1 = some r ↔
      ∃ past s, history.standing? name = some (past, s) ∧ s.version = version ∧
        ((run config past).submit s).1 = r := by
  rw [get_eq, latest?_run]
  cases history.standing? name with
  | none => simp
  | some standing =>
    obtain ⟨past, s⟩ := standing
    simp only [Option.map_some, Option.filter_eq_some_iff, Option.some.injEq, Prod.mk.injEq, beq_iff_eq]
    constructor
    · rintro ⟨rfl, version⟩
      exact ⟨past, s, ⟨rfl, rfl⟩, (version_submit _ s).symm.trans version, rfl⟩
    · rintro ⟨_, _, ⟨rfl, rfl⟩, version, rfl⟩
      exact ⟨rfl, (version_submit _ s).trans version⟩

/-- The names under which a store holds something are those for which something stands. -/
theorem mem_names_run (config : Config) (history : History) (name : String) :
    name ∈ (run config history).entries.map Prod.fst ↔ (history.standing? name).isSome := by
  have held : ((run config history).latest? name).isSome = (history.standing? name).isSome := by
    rw [latest?_run, Option.isSome_map]
  rw [← held, latest?, List.lookup_isSome_iff, List.mem_map]
  constructor
  · rintro ⟨entry, mem, rfl⟩
    exact ⟨entry, mem, beq_self_eq_true _⟩
  · rintro ⟨entry, mem, same⟩
    exact ⟨entry, mem, (eq_of_beq same).symm⟩

theorem updates_run (config : Config) (history : History) :
    (run config history).counts.hits + (run config history).counts.misses =
      history.countP Request.isUpdate := by
  induction history using List.reverseRecOn with
  | nil => rfl
  | append_singleton past request ih =>
    rw [run_snoc, List.countP_append, ← ih]
    cases request with
    | update s => exact (counts_submit _ s).2
    | get name version => rw [after, counts_get]; rfl
    | remove name => rfl

theorem misses_run {history : History} (distinct : Distinguished history.texts) :
    (run config history).counts.misses = history.occasions.countP History.bringsText := by
  induction history using List.reverseRecOn with
  | nil => rfl
  | append_singleton past request ih =>
    rw [History.texts_snoc] at distinct
    have before := ih (distinct.subset fun t mem => List.mem_append_left _ mem)
    rw [run_snoc, History.occasions_snoc, List.countP_append, ← before, List.countP_singleton]
    cases request with
    | update s => rw [after, misses_submit, bringsText_run distinct]
    | get name version => rw [after, counts_get]; rfl
    | remove name => rfl

theorem stale_run (config : Config) (history : History) :
    (run config history).counts.stale = history.occasions.countP History.looksUpStale := by
  induction history using List.reverseRecOn with
  | nil => rfl
  | append_singleton past request ih =>
    rw [run_snoc, History.occasions_snoc, List.countP_append, ← ih, List.countP_singleton]
    cases request with
    | update s => exact (counts_submit _ s).1
    | get name version =>
      rw [after, counts_get, latest?_run, History.looksUpStale]
      cases History.standing? past name with
      | none => rfl
      | some standing => simp [version_submit]
    | remove name => rfl

/-- **A store tells its history**: a look-up finds the answer to the update that stands for the document, if
it asks for that version; there are as many revisions as documents for which an update stands; updates are
counted as hits and misses, misses being those that bring a text, and look-ups of other versions as stale. -/
theorem run_tells {history : History} (distinct : Distinguished history.texts) :
    Tells config history (run config history) where
  get := get_run config history
  size := ⟨_, nodup_names_run config history, mem_names_run config history, (List.length_map _).symm⟩
  updates := updates_run config history
  misses := misses_run distinct
  stale := stale_run config history
  getOnly := by
    intro name version
    rw [get_eq]
    dsimp only
    split
    · rfl
    · rfl

theorem run_tells_sample :
    Distinguished History.sample.texts ∧ (run .standard .sample).counts = ⟨1, 4, 1⟩ ∧
      Tells .standard .sample (run .standard .sample) := by
  have distinct := History.distinguished_sample
  exact ⟨distinct, by decide +kernel, run_tells distinct⟩

end Store

end PatternRules
