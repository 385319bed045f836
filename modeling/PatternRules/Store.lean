import PatternRules.Analysis.Validate
import PatternRules.Digest.Sha256

/-!
A store of analysed documents. It holds the latest revision of each document under the name of the
document. If a new revision has the text of the one before, its reading is used again and only the
validation is repeated, because files may have changed; if it has the same version number and
directory too, nothing is done at all. Whether two texts are the same is told by their digests.
-/

namespace PatternRules

/-- An analysed revision of a document. -/
structure Revision where
  version : Int
  fingerprint : String
  text : String
  reading : Reading
  diagnostics : List Diagnostic
  baseDir : Option String

namespace Revision

/-- A revision of a text that has not been read before. -/
def ofText (config : Config) (place : Surroundings) (version : Int) (text : String) : Revision :=
  let reading := readDocument text
  ⟨version, PatternRules.fingerprint text, text, reading, diagnose config place reading text.toList,
    place.baseDir⟩

/-- A revision with the text of an earlier one, whose reading it keeps. -/
def renew (revision : Revision) (config : Config) (place : Surroundings) (version : Int)
    (text : String) : Revision :=
  { revision with
    version
    diagnostics := diagnose config place revision.reading text.toList
    baseDir := place.baseDir }

end Revision

/-- What the store was asked for, and how it fared. -/
structure StoreCounts where
  /-- Updates that used a reading again. -/
  hits : Nat
  /-- Updates that had to read a text. -/
  misses : Nat
  /-- Lookups of a version that is not the latest. -/
  stale : Nat
deriving DecidableEq, Inhabited

/-- The latest revisions of documents, by name. -/
structure Store where
  config : Config
  entries : List (String × Revision)
  counts : StoreCounts

namespace Store

/-- A store without documents. -/
def empty (config : Config) : Store := ⟨config, [], ⟨0, 0, 0⟩⟩

/-- The latest revision of a document. -/
def latest? (store : Store) (name : String) : Option Revision := store.entries.lookup name

/-- Sets the latest revision of a document. -/
def put (store : Store) (name : String) (revision : Revision) : Store :=
  { store with entries := (name, revision) :: store.entries.filter (·.1 != name) }

@[simp]
theorem latest?_put_self (store : Store) (name : String) (revision : Revision) :
    (store.put name revision).latest? name = some revision := by
  simp [latest?, put]

theorem latest?_put_of_ne (store : Store) {name other : String} (h : other ≠ name)
    (revision : Revision) : (store.put name revision).latest? other = store.latest? other := by
  have hne : (other == name) = false := by simpa using h
  simp only [latest?, put, List.lookup_cons, hne]
  induction store.entries with
  | nil => rfl
  | cons entry rest ih =>
    obtain ⟨key, value⟩ := entry
    by_cases hk : key = name
    · simp [hk, List.lookup_cons, ih, hne]
    · simp [hk, List.lookup_cons, ih]

def countHit (store : Store) : Store :=
  { store with counts := { store.counts with hits := store.counts.hits + 1 } }

def countMiss (store : Store) : Store :=
  { store with counts := { store.counts with misses := store.counts.misses + 1 } }

def countStale (store : Store) : Store :=
  { store with counts := { store.counts with stale := store.counts.stale + 1 } }

/-- Records a revision of a document and gives its analysis. -/
def update (store : Store) (probe : FileProbe) (name : String) (version : Int) (text : String)
    (baseDir : Option String) : Revision × Store :=
  let place : Surroundings := ⟨probe, baseDir⟩
  let fresh := Revision.ofText store.config place version text
  match store.latest? name with
  | none => (fresh, (store.put name fresh).countMiss)
  | some revision =>
    if revision.fingerprint ≠ PatternRules.fingerprint text then
      (fresh, (store.put name fresh).countMiss)
    else if revision.version = version ∧ Path.same revision.baseDir baseDir then
      (revision, store.countHit)
    else
      let renewed := revision.renew store.config place version text
      (renewed, (store.put name renewed).countHit)

/-- The analysis of exactly this version of a document. -/
def get (store : Store) (name : String) (version : Int) : Option Revision × Store :=
  match store.latest? name with
  | none => (none, store)
  | some revision =>
    if revision.version = version then (some revision, store) else (none, store.countStale)

/-- Forgets a document and gives its latest revision. -/
def remove (store : Store) (name : String) : Option Revision × Store :=
  (store.latest? name, { store with entries := store.entries.filter (·.1 != name) })

def size (store : Store) : Nat := store.entries.length

end Store

end PatternRules
