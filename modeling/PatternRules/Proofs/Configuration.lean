import Mathlib.Data.List.Perm.Subperm
import PatternRules.Config.Codec
import PatternRules.Proofs.JsonReading

/-!
Configurations as JSON text. A configuration is read straight from its text, without a value in between. It is shown
that this comes to the same as reading the text as a JSON value and taking the members one after the other
(`withMembers?`); what a configuration is and what becomes of it is then a matter of lists of members.

* `readBool_of_value`, `readString_of_value`, `readStrings_of_value`: a value that is wanted is read like any other;
* `readMembers_of_members`, `ofText_of_object`: so are the members of an object;
* `Accepted`, `withMembers?_eq_some`, `exists_withMembers?`: which members make up a configuration, and which one;
* `ofText_render_and_object`: what is written is read back, and objects are read by their members, in any order.
-/

namespace PatternRules

namespace Config

open Json (skipBlank value Starts)

variable {α : Type}

theorem toOption_liftFault (r : Except Json.Fault α) : (liftFault r).toOption = r.toOption := by
  cases r with
  | error fault => rfl
  | ok a => rfl

theorem toOption_wrongType (wanted : WantedType) (cs : List Char) :
    (wrongType wanted cs : Except ConfigFault α).toOption = none := by
  rw [wrongType, toOption_bind]
  cases (foundInstead cs).toOption with
  | none => rfl
  | some found => rfl

section

variable {fuel : Nat} {cs rest : List Char} {j : Json} (h : value fuel cs = .ok (j, rest))
include h

theorem readBool_of_value : (readBool cs).toOption = j.bool?.map (·, rest) := by
  obtain ⟨c, more, front, starts⟩ := Json.value_starts h
  rw [readBool, front]
  cases starts with
  | true read =>
    simp only [toOption_bind, toOption_liftFault, read]
    rfl
  | false read =>
    simp only [toOption_bind, toOption_liftFault, read]
    rfl
  | number numeric =>
    split
    · next same =>
      cases same
      cases numeric
    · next same =>
      cases same
      cases numeric
    · exact toOption_wrongType _ _
  | array read => exact toOption_wrongType _ _
  | object read => exact toOption_wrongType _ _
  | null => exact toOption_wrongType _ _
  | string read => exact toOption_wrongType _ _

theorem readString_of_value : (readString cs).toOption = j.text?.map (·, rest) := by
  obtain ⟨c, more, front, starts⟩ := Json.value_starts h
  rw [readString, front]
  cases starts with
  | string read => exact (toOption_liftFault _).trans (Json.wantedString_of_any read).1
  | number numeric =>
    split
    · next same =>
      cases same
      cases numeric
    · exact toOption_wrongType _ _
  | true read => exact toOption_wrongType _ _
  | false read => exact toOption_wrongType _ _
  | array read => exact toOption_wrongType _ _
  | object read => exact toOption_wrongType _ _
  | null => exact toOption_wrongType _ _

/-- Behind a text there is less left than in front of it. -/
theorem length_lt_of_text (isText : j.text?.isSome = true) : rest.length < cs.length := by
  obtain ⟨c, more, front, starts⟩ := Json.value_starts h
  cases starts with
  | string read =>
    have shorter := (Json.wantedString_of_any read).2
    have := Json.length_lt_of_skipBlank front
    omega
  | _ => cases isText

/-- A value is not the end of an array. -/
theorem skipBlank_head_ne : (skipBlank cs).head? ≠ some ']' := by
  obtain ⟨c, more, front, starts⟩ := Json.value_starts h
  rw [front, List.head?_cons]
  intro same
  cases same
  cases starts with
  | number numeric => cases numeric

end

theorem skipBlank_head_ne_of_items {fuel : Nat} {cs rest : List Char} {items : List Json}
    (h : Json.itemsFrom fuel cs = .ok (items, rest)) : (skipBlank cs).head? ≠ some ']' := by
  cases fuel with
  | zero =>
    rw [Json.itemsFrom] at h
    cases h
  | succ fuel =>
    obtain ⟨item, behind, read, -⟩ := Json.itemsFrom_succ h
    exact skipBlank_head_ne read

/-- **Strings are read as the items of an array**, if each of them is one. By induction on the fuel of the items; each
string is shorter than what its own fuel is for. -/
theorem readStringsFrom_of_items {fuel n : Nat} {cs rest : List Char} {items : List Json}
    (h : Json.itemsFrom fuel cs = .ok (items, rest)) (enough : cs.length < n) :
    (readStringsFrom n cs).toOption = (items.mapM Json.text?).map (·, rest) := by
  induction fuel generalizing n cs items with
  | zero =>
    rw [Json.itemsFrom] at h
    cases h
  | succ fuel ih =>
    obtain ⟨n, rfl⟩ : ∃ k, n = k + 1 := ⟨n - 1, by omega⟩
    obtain ⟨item, behind, read, h⟩ := Json.itemsFrom_succ h
    rw [readStringsFrom, toOption_bind, readString_of_value read]
    cases text : item.text? with
    | none =>
      rcases h with ⟨-, rfl⟩ | ⟨_, _, -, -, rfl⟩
      · simp [List.mapM_cons, text]
      · simp [List.mapM_cons, text]
    | some s =>
      rw [Option.map_some, Option.bind_some]
      rcases h with ⟨closing, rfl⟩ | ⟨more, further, comma, next, rfl⟩
      · have ends : afterItem behind = .ok (false, rest) := by
          rw [afterItem, closing]
          rfl
        rw [toOption_bind, ends]
        simp [List.mapM_cons, text, Except.toOption, pure, Except.pure]
      · have goesOn : afterItem behind = .ok (true, more) := by
          rw [afterItem, comma]
          exact if_neg (skipBlank_head_ne_of_items next)
        have shorter := length_lt_of_text read (by rw [text]; rfl)
        have less := Json.length_lt_of_skipBlank comma
        rw [toOption_bind, goesOn]
        show (readStringsFrom n more >>= fun found => pure (s :: found.1, found.2)).toOption = _
        rw [toOption_bind, ih next (by omega), List.mapM_cons, text]
        cases List.mapM Json.text? further with
        | none => rfl
        | some strings => rfl

theorem readStrings_of_value {fuel : Nat} {cs rest : List Char} {j : Json} (h : value fuel cs = .ok (j, rest)) :
    (readStrings cs).toOption = j.texts?.map (·, rest) := by
  obtain ⟨c, more, front, starts⟩ := Json.value_starts h
  rw [readStrings, front]
  cases starts with
  | array read =>
    rcases Json.arrayTail_cases read with ⟨closing, rfl⟩ | ⟨open_, n, items⟩
    · simp only [closing]
      rfl
    · refine Eq.trans ?_ (readStringsFrom_of_items items (Nat.lt_succ_self _))
      split
      · next more' same =>
        cases same
        split
        · next rest' closing => exact absurd closing (open_ rest')
        · rfl
      · next other => exact absurd rfl (other more)
  | number numeric =>
    split
    · next same =>
      cases same
      cases numeric
    · exact toOption_wrongType _ _
  | true read => exact toOption_wrongType _ _
  | false read => exact toOption_wrongType _ _
  | string read => exact toOption_wrongType _ _
  | object read => exact toOption_wrongType _ _
  | null => exact toOption_wrongType _ _

/-! ## Fields -/

/-- The value of a field. -/
def valueOf (c : Config) : ConfigField → Json
  | .builtins => .array (c.builtins.map .text)
  | .scanText => .bool c.scanText
  | .checkFiles => .bool c.checkFiles
  | .dropRepeats => .bool c.dropRepeats

/-- The configuration with another value for a field, if the value is of the right type. -/
def set? (c : Config) (field : ConfigField) (j : Json) : Option Config :=
  match field with
  | .builtins => j.texts?.map fun builtins => { c with builtins }
  | .scanText => j.bool?.map fun scanText => { c with scanText }
  | .checkFiles => j.bool?.map fun checkFiles => { c with checkFiles }
  | .dropRepeats => j.bool?.map fun dropRepeats => { c with dropRepeats }

theorem readBool_into {fuel : Nat} {cs rest : List Char} {j : Json} (h : value fuel cs = .ok (j, rest))
    (f : Bool → Config) : (do
      let (b, rest) ← readBool cs
      return (f b, rest)).toOption = (j.bool?.map f).map (·, rest) := by
  rw [toOption_bind, readBool_of_value h]
  cases j.bool? with
  | none => rfl
  | some b => rfl

theorem readField_of_value {fuel : Nat} {cs rest : List Char} {j : Json} (h : value fuel cs = .ok (j, rest))
    (c : Config) (field : ConfigField) : (readField c field cs).toOption = (c.set? field j).map (·, rest) := by
  cases field with
  | builtins =>
    rw [readField, toOption_bind, readStrings_of_value h, set?]
    cases j.texts? with
    | none => rfl
    | some strings => rfl
  | scanText =>
    rw [readField, set?]
    exact readBool_into h fun scanText => { c with scanText }
  | checkFiles =>
    rw [readField, set?]
    exact readBool_into h fun checkFiles => { c with checkFiles }
  | dropRepeats =>
    rw [readField, set?]
    exact readBool_into h fun dropRepeats => { c with dropRepeats }

theorem ofName?_eq_some {name : String} {field : ConfigField} :
    ConfigField.ofName? name = some field ↔ name = field.name := by
  constructor
  · intro h
    rw [ConfigField.ofName?] at h
    exact (beq_iff_eq.1 (List.find?_some h :)).symm
  · rintro rfl
    cases field <;> decide

theorem name_injective : Function.Injective ConfigField.name := by
  intro field other same
  have := ofName?_eq_some.2 same
  rw [ofName?_eq_some.2 rfl] at this
  exact Option.some.inj this

/-- The field that a name names, unless it was seen before. -/
def newField? (seen : List ConfigField) (name : Option String) : Option ConfigField :=
  match name.bind ConfigField.ofName? with
  | none => none
  | some field => if field ∈ seen then none else some field

theorem newField?_eq_some {seen : List ConfigField} {name : Option String} {field : ConfigField} :
    newField? seen name = some field ↔ name = some field.name ∧ field ∉ seen := by
  cases name with
  | none => simp [newField?]
  | some name =>
    rw [newField?, Option.bind_some, Option.some_inj, ← ofName?_eq_some]
    cases ConfigField.ofName? name with
    | none => simp
    | some found =>
      simp only [Option.some_inj]
      split
      · next old =>
        constructor
        · intro h
          cases h
        · rintro ⟨rfl, new⟩
          exact absurd old new
      · next new =>
        rw [Option.some_inj]
        exact ⟨fun same => ⟨same, same ▸ new⟩, fun h => h.1⟩

theorem readFieldName_of_any {cs quoted rest : List Char} {name : Option String}
    (opening : Json.expectChar '"' cs = .ok quoted) (h : Json.anyString quoted = .ok (name, rest))
    (seen : List ConfigField) : (readFieldName seen cs).toOption = (newField? seen name).map (·, rest) := by
  rw [readFieldName, toOption_bind, toOption_liftFault, opening]
  show (liftFault (Json.wantedString quoted) >>= _).toOption = _
  rw [toOption_bind, toOption_liftFault, (Json.wantedString_of_any h).1]
  cases name with
  | none => rfl
  | some name =>
    rw [Option.map_some, Option.bind_some, newField?, Option.bind_some]
    cases known : ConfigField.ofName? name with
    | none =>
      simp only [known]
      rfl
    | some field =>
      simp only [known]
      split
      · rfl
      · rfl

/-- The configuration that members give, one after the other. -/
def withMembers? (c : Config) (seen : List ConfigField) : List (Option String × Json) → Option Config
  | [] => some c
  | (name, j) :: members => do
    let field ← newField? seen name
    let c ← c.set? field j
    withMembers? c (field :: seen) members

theorem length_le_of_nodup {seen : List ConfigField} (new : seen.Nodup) : seen.length ≤ 4 := by
  have known : seen ⊆ ConfigField.all := by
    intro field _
    cases field <;> decide
  exact (new.subperm known).length_le

/-- **Members are read as the members of an object**, each of which has to be a field that is new and to have a value
of the right type. By induction on the fuel of the members; a fifth field would not be new. -/
theorem readMembers_of_members {fuel n : Nat} {cs rest : List Char} {members : List (Option String × Json)}
    (h : Json.membersFrom fuel cs = .ok (members, rest)) {c : Config} {seen : List ConfigField} (new : seen.Nodup)
    (enough : 4 < n + seen.length) :
    (readMembers c seen n cs).toOption = (c.withMembers? seen members).map (·, rest) := by
  induction fuel generalizing n cs members c seen with
  | zero =>
    rw [Json.membersFrom] at h
    cases h
  | succ fuel ih =>
    have few := length_le_of_nodup new
    obtain ⟨n, rfl⟩ : ∃ k, n = k + 1 := ⟨n - 1, by omega⟩
    obtain ⟨quoted, name, colon, front, j, behind, opening, string, sign, read, h⟩ := Json.membersFrom_succ h
    obtain ⟨further, rfl⟩ : ∃ further, members = (name, j) :: further := by
      rcases h with ⟨-, rfl⟩ | ⟨_, further, -, -, rfl⟩
      · exact ⟨[], rfl⟩
      · exact ⟨further, rfl⟩
    rw [readMembers, toOption_bind, readFieldName_of_any opening string, withMembers?]
    cases known : newField? seen name with
    | none => rfl
    | some field =>
      show (liftFault (Json.expectChar ':' colon) >>= _).toOption = _
      rw [toOption_bind, toOption_liftFault, sign]
      show (readField c field front >>= _).toOption = _
      rw [toOption_bind, readField_of_value read]
      show _ = ((c.set? field j).bind fun d => d.withMembers? (field :: seen) further).map _
      cases c.set? field j with
      | none => rfl
      | some d =>
        rw [Option.map_some, Option.bind_some, Option.bind_some]
        dsimp only
        rcases h with ⟨closing, same⟩ | ⟨more, members, comma, next, same⟩
        · cases same
          rw [closing]
          rfl
        · cases same
          rw [comma]
          exact ih next (List.nodup_cons.2 ⟨(newField?_eq_some.1 known).2, new⟩) (by rw [List.length_cons]; omega)

/-- **A configuration is read from a text as it is from the members of the object that the text is.** -/
theorem ofText_of_object {text : List Char} {members : List (Option String × Json)}
    (h : Json.parse text = .ok (.object members)) :
    (ofText text).toOption = standard.withMembers? [] members := by
  obtain ⟨⟨j, rest⟩, read, h⟩ := bind_eq_ok.1 h
  obtain ⟨_, ends, same⟩ := bind_eq_ok.1 h
  cases same
  have config : (readConfig text).toOption = (standard.withMembers? [] members).map (·, rest) := by
    obtain ⟨c, more, front, starts⟩ := Json.value_starts read
    cases starts with
    | object read =>
      rw [readConfig, front]
      rcases Json.objectTail_cases read with ⟨closing, rfl⟩ | ⟨open_, n, members⟩
      · simp only [closing]
        rfl
      · refine Eq.trans ?_ (readMembers_of_members (n := 5) members .nil (by decide))
        split
        · next more' same =>
          cases same
          split
          · next rest' closing => exact absurd closing (open_ rest')
          · rfl
        · next more' same => cases same
        · next other _ => exact absurd rfl (other more)
  rw [ofText, toOption_bind, config]
  cases standard.withMembers? [] members with
  | none => rfl
  | some c =>
    show (liftFault (Json.expectEnd rest) >>= _).toOption = _
    rw [toOption_bind, toOption_liftFault, ends]
    rfl

end Config

/-! ## Members that make up a configuration -/

/-- Whether a value is of the type of a field: the names of the builtins are an array of texts, everything else is a
boolean. -/
def ConfigField.Takes : ConfigField → Json → Prop
  | builtins, j => ∃ names : List String, j = .array (names.map .text)
  | _, j => ∃ b, j = .bool b

namespace Config

theorem exists_set?_iff {c : Config} {field : ConfigField} {j : Json} :
    (∃ d, c.set? field j = some d) ↔ field.Takes j := by
  have typed {β : Type} (r : Option β) (f : β → Config) : (∃ d, r.map f = some d) ↔ ∃ b, r = some b := by
    cases r <;> simp
  cases field with
  | builtins => simp only [set?, typed, Json.texts?_eq_some, ConfigField.Takes]
  | scanText => simp only [set?, typed, Json.bool?_eq_some, ConfigField.Takes]
  | checkFiles => simp only [set?, typed, Json.bool?_eq_some, ConfigField.Takes]
  | dropRepeats => simp only [set?, typed, Json.bool?_eq_some, ConfigField.Takes]

/-- The field has the new value, and nothing else is changed. -/
theorem valueOf_set? {c d : Config} {field : ConfigField} {j : Json} (h : c.set? field j = some d) :
    d.valueOf = Function.update c.valueOf field j := by
  funext other
  cases field <;> simp only [set?, Option.map_eq_some_iff, Json.bool?_eq_some, Json.texts?_eq_some] at h <;>
    obtain ⟨_, rfl, rfl⟩ := h <;> cases other <;> rfl

theorem eq_of_valueOf {c d : Config} (h : ∀ field, c.valueOf field = d.valueOf field) : c = d := by
  have text : Function.Injective Json.text := fun s t same => by simpa [Json.text] using same
  have names := h .builtins
  have scan := h .scanText
  have files := h .checkFiles
  have repeats := h .dropRepeats
  simp only [valueOf, Json.array.injEq, Json.bool.injEq, text.list_map.eq_iff] at names scan files repeats
  cases c
  cases d
  simp_all

/-- Members that make up a configuration, in any order: no name stands twice, each is the name of a field, and each
value is of the type of its field. -/
structure Accepted (members : List (Option String × Json)) : Prop where
  distinct : (members.map Prod.fst).Nodup
  fields : ∀ m ∈ members, ∃ field : ConfigField, m.1 = some field.name ∧ field.Takes m.2

theorem accepted_cons {m : Option String × Json} {members : List (Option String × Json)} :
    Accepted (m :: members) ↔ (m.1 ∉ members.map Prod.fst ∧
      ∃ field : ConfigField, m.1 = some field.name ∧ field.Takes m.2) ∧ Accepted members := by
  constructor
  · rintro ⟨distinct, fields⟩
    rw [List.map_cons, List.nodup_cons] at distinct
    exact ⟨⟨distinct.1, fields m List.mem_cons_self⟩, distinct.2, fun m hm => fields m (List.mem_cons_of_mem _ hm)⟩
  · rintro ⟨⟨new, field⟩, distinct, fields⟩
    refine ⟨List.nodup_cons.2 ⟨new, distinct⟩, ?_⟩
    rw [List.forall_mem_cons]
    exact ⟨field, fields⟩

theorem withMembers?_cons {c d : Config} {seen : List ConfigField} {name : Option String} {j : Json}
    {members : List (Option String × Json)} :
    c.withMembers? seen ((name, j) :: members) = some d ↔ ∃ field c', name = some field.name ∧ field ∉ seen ∧
      c.set? field j = some c' ∧ c'.withMembers? (field :: seen) members = some d := by
  simp [withMembers?, Option.bind_eq_some_iff, newField?_eq_some, and_assoc]

/-- The members do not name a field that was seen before. -/
def Unseen (seen : List ConfigField) (members : List (Option String × Json)) : Prop :=
  ∀ field ∈ seen, some field.name ∉ members.map Prod.fst

theorem unseen_cons {field : ConfigField} {seen : List ConfigField} {members : List (Option String × Json)} :
    Unseen (field :: seen) members ↔ some field.name ∉ members.map Prod.fst ∧ Unseen seen members :=
  List.forall_mem_cons

/-- **Members that are accepted make up a configuration.** By induction on the members; the fields that were seen do
not come again. -/
theorem exists_withMembers? {members : List (Option String × Json)} (h : Accepted members) (c : Config)
    {seen : List ConfigField} (unseen : Unseen seen members) : ∃ d, c.withMembers? seen members = some d := by
  induction members generalizing c seen with
  | nil => exact ⟨c, rfl⟩
  | cons m members ih =>
    obtain ⟨name, j⟩ := m
    obtain ⟨⟨new, field, rfl, takes⟩, accepted⟩ := accepted_cons.1 h
    obtain ⟨c', set⟩ := exists_set?_iff (c := c).2 takes
    have fresh : field ∉ seen := fun old => unseen field old List.mem_cons_self
    have later : Unseen (field :: seen) members :=
      unseen_cons.2 ⟨new, fun other old here => unseen other old (List.mem_cons_of_mem _ here)⟩
    obtain ⟨d, rest⟩ := ih accepted c' later
    exact ⟨d, withMembers?_cons.2 ⟨field, c', rfl, fresh, set, rest⟩⟩

/-- **Only members that are accepted make up a configuration, and it takes their values.** By induction on the members;
what a member sets is kept, since its field does not come again. -/
theorem withMembers?_eq_some {members : List (Option String × Json)} {c d : Config} {seen : List ConfigField}
    (h : c.withMembers? seen members = some d) : (Accepted members ∧ Unseen seen members) ∧
      ∀ field, d.valueOf field = (members.lookup (some field.name)).getD (c.valueOf field) := by
  induction members generalizing c seen with
  | nil =>
    cases h
    exact ⟨⟨⟨.nil, fun m hm => nomatch hm⟩, fun field _ => List.not_mem_nil⟩, fun field => rfl⟩
  | cons m members ih =>
    obtain ⟨name, j⟩ := m
    obtain ⟨field, c', rfl, fresh, set, rest⟩ := withMembers?_cons.1 h
    obtain ⟨⟨accepted, later⟩, values⟩ := ih rest
    obtain ⟨new, unseen⟩ := unseen_cons.1 later
    refine ⟨⟨accepted_cons.2 ⟨⟨new, field, rfl, exists_set?_iff.1 ⟨c', set⟩⟩, accepted⟩, ?_⟩, ?_⟩
    · intro other old here
      rcases List.mem_cons.1 here with same | here
      · cases name_injective (Option.some.inj same)
        exact fresh old
      · exact unseen other old here
    · intro other
      rw [values other, valueOf_set? set]
      by_cases same : other = field
      · subst same
        have absent : members.lookup (some other.name) = none :=
          List.lookup_eq_none_iff.2 fun m here => bne_iff_ne.2 fun eq => new (eq ▸ List.mem_map_of_mem here)
        rw [absent, List.lookup_cons_self, Function.update_self]
        rfl
      · have differs : (some other.name == some field.name) = false := by
          simpa using fun eq => same (name_injective eq)
        rw [Function.update_of_ne same, List.lookup_cons, differs]

/-! ## The configuration of a text -/

theorem exists_ofText {text : List Char} {members : List (Option String × Json)}
    (h : Json.parse text = .ok (.object members)) (accepted : Accepted members) : ∃ c, ofText text = .ok c ∧
      ∀ field, c.valueOf field = (members.lookup (some field.name)).getD (standard.valueOf field) := by
  have unseen : Unseen [] members := fun field old => nomatch old
  obtain ⟨c, made⟩ := exists_withMembers? accepted standard unseen
  have read : ofText text = .ok c := toOption_eq_some.1 ((ofText_of_object h).trans made)
  exact ⟨c, read, (withMembers?_eq_some made).2⟩

theorem ofText_error {text : List Char} {members : List (Option String × Json)}
    (h : Json.parse text = .ok (.object members)) (refused : ¬ Accepted members) :
    ∃ fault, ofText text = .error fault := by
  cases read : ofText text with
  | error fault => exact ⟨fault, rfl⟩
  | ok c =>
    have made : standard.withMembers? [] members = some c := by rw [← ofText_of_object h, read]; rfl
    exact absurd (withMembers?_eq_some made).1.1 refused

/-- The members of a configuration as it is written. -/
def writtenMembers (c : Config) : List (Option String × Json) :=
  ConfigField.all.map fun field => (some field.name, c.valueOf field)

theorem toJson_eq (c : Config) : c.toJson = .object c.writtenMembers := rfl

theorem plain_toJson (c : Config) : Json.Plain c.toJson := by
  refine .object _ fun m hm => ?_
  simp only [List.mem_cons, List.not_mem_nil, or_false] at hm
  obtain rfl | rfl | rfl | rfl := hm
  · refine .array _ fun j hj => ?_
    obtain ⟨name, -, rfl⟩ := List.mem_map.1 hj
    exact .text name
  · exact .bool _
  · exact .bool _
  · exact .bool _

theorem accepted_writtenMembers (c : Config) : Accepted c.writtenMembers where
  distinct := by
    have names : c.writtenMembers.map Prod.fst = ConfigField.all.map fun field => some field.name := rfl
    rw [names]
    decide
  fields := by
    intro m hm
    obtain ⟨field, -, rfl⟩ := List.mem_map.1 hm
    refine ⟨field, rfl, ?_⟩
    cases field with
    | builtins => exact ⟨c.builtins, rfl⟩
    | scanText => exact ⟨c.scanText, rfl⟩
    | checkFiles => exact ⟨c.checkFiles, rfl⟩
    | dropRepeats => exact ⟨c.dropRepeats, rfl⟩

theorem lookup_writtenMembers (c : Config) (field : ConfigField) :
    c.writtenMembers.lookup (some field.name) = some (c.valueOf field) := by
  cases field <;> rfl

/-- **A configuration is read back from its text.** -/
theorem ofText_render (c : Config) : ofText c.render.toList = .ok c := by
  have object : Json.parse c.render.toList = .ok (.object c.writtenMembers) := by
    rw [← toJson_eq]
    exact Json.parse_indented c.plain_toJson
  obtain ⟨d, read, values⟩ := exists_ofText object c.accepted_writtenMembers
  have same : d = c := eq_of_valueOf fun field => by rw [values field, lookup_writtenMembers, Option.getD_some]
  rw [read, same]

/-- **Configurations are what their text says.** What is written is read back. A text that is an object whose members
name fields, each at most once and in any order, with values of their types, is a configuration with these values and
the standard ones for all other fields. An object with a name that is no field, or with a name that stands twice, is
refused, wherever the name stands and whatever its value is. -/
theorem ofText_render_and_object : (∀ c : Config, ofText c.render.toList = .ok c) ∧
    ∀ (text : List Char) (members : List (Option String × Json)), Json.parse text = .ok (.object members) →
      (Accepted members → ∃ c, ofText text = .ok c ∧
        ∀ field, c.valueOf field = (members.lookup (some field.name)).getD (standard.valueOf field)) ∧
      ((∃ m ∈ members, ∀ field : ConfigField, m.1 ≠ some field.name) → ∃ fault, ofText text = .error fault) ∧
      (¬ (members.map Prod.fst).Nodup → ∃ fault, ofText text = .error fault) := by
  refine ⟨ofText_render, fun text members object => ⟨exists_ofText object, ?_, ?_⟩⟩
  · rintro ⟨m, here, unknown⟩
    refine ofText_error object fun accepted => ?_
    obtain ⟨field, known, -⟩ := accepted.fields m here
    exact unknown field known
  · exact fun twice => ofText_error object fun accepted => twice accepted.distinct

/-- Two fields, the later one first; a name that is no field; a name that stands twice. -/
theorem ofText_render_and_object_cases :
    ofText "\x7b\"check_files\":false,\"builtin_resolvers\":[\"geo\"]\x7d".toList =
        .ok ⟨["geo"], true, false, true⟩ ∧
      (∃ fault, ofText "\x7b\"colour\":\"blue\"\x7d".toList = .error fault) ∧
      ∃ fault, ofText "\x7b\"check_files\":false,\"check_files\":false\x7d".toList = .error fault := by
  have object {members : List (String × Json)} (text : String) (plain : ∀ m ∈ members, Json.Plain m.2)
      (same : (Json.ofMembers members).compact = text) : Json.parse text.toList = .ok (.ofMembers members) :=
    same ▸ Json.parse_compact (.object members plain)
  refine ⟨?_, ?_, ?_⟩
  · have plain : ∀ m ∈ [("check_files", Json.bool false), ("builtin_resolvers", .array [.text "geo"])],
        Json.Plain m.2 := by
      intro m hm
      simp only [List.mem_cons, List.not_mem_nil, or_false] at hm
      obtain rfl | rfl := hm
      · exact .bool false
      · exact .array _ fun j hj => List.mem_singleton.1 hj ▸ .text "geo"
    have accepted :
        Accepted [(some "check_files", .bool false), (some "builtin_resolvers", .array [.text "geo"])] := by
      refine ⟨by decide, fun m hm => ?_⟩
      simp only [List.mem_cons, List.not_mem_nil, or_false] at hm
      obtain rfl | rfl := hm
      · exact ⟨.checkFiles, rfl, false, rfl⟩
      · exact ⟨.builtins, rfl, ["geo"], rfl⟩
    have parsed := object "\x7b\"check_files\":false,\"builtin_resolvers\":[\"geo\"]\x7d" plain (by decide +kernel)
    obtain ⟨c, read, values⟩ := (ofText_render_and_object.2 _ _ parsed).1 accepted
    rw [read]
    refine congrArg Except.ok (eq_of_valueOf fun field => ?_)
    rw [values field]
    cases field <;> rfl
  · have plain : ∀ m ∈ [("colour", Json.text "blue")], Json.Plain m.2 :=
      List.forall_mem_singleton.2 (.text "blue")
    refine (ofText_render_and_object.2 _ _ (object _ plain (by decide +kernel))).2.1 ⟨_, List.mem_cons_self, ?_⟩
    intro field
    cases field <;> decide
  · have plain : ∀ m ∈ [("check_files", Json.bool false), ("check_files", .bool false)], Json.Plain m.2 := by
      simp [Json.Plain.bool]
    exact (ofText_render_and_object.2 _ _ (object _ plain (by decide +kernel))).2.2 (by decide)

end Config

end PatternRules
