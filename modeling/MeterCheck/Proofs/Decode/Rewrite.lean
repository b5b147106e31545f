import MeterCheck.Proofs.Decode.Written
import Mathlib.Logic.Relation

/-!
# Presentations of a document

The same record can be written in many ways: its members stand in any order, members that nobody
knows may stand among them, and null may stand for an absent value.

* `Form`: the records in a document, with the fields that may be null;
* `Rewrites`, `Form.Same`: one rewriting of a document, and any number of them;
* `Fields.RewritesValues`: what a rewriting does to the values of one name;
* `Reader.Respects`, `Fields.Respects`: what is read does not depend on the presentation. One lemma
  for each way of putting readers together.
-/

namespace MeterCheck

variable {α β : Type}

/-- Where the records stand in a document. -/
inductive Form where
  /-- A value that is taken as it is. -/
  | value
  | list (item : Form)
  /-- The value of a field for which null means the same as absence. -/
  | nullable (form : Form)
  | record (fields : List (String × Form))

/-- One rewriting, at any depth of a document. -/
inductive Rewrites : Form → Json → Json → Prop
  | permute {fields : List (String × Form)} {members members' : Members}
      (perm : members.Perm members') :
      Rewrites (.record fields) (.object members) (.object members')
  /-- A new member of a name that no field has, with any sound value. -/
  | insert {fields : List (String × Form)} {before after : Members} {name : String} {v : Json}
      (unknown : name ∉ fields.map Prod.fst) (sound : v.sound = true) :
      Rewrites (.record fields) (.object (before ++ after)) (.object (before ++ (name, v) :: after))
  /-- A null where a member has been absent. -/
  | null {fields : List (String × Form)} {before after : Members} {name : String} {form : Form}
      (field : fields.lookup name = some (.nullable form))
      (absent : name ∉ (before ++ after).map Prod.fst) :
      Rewrites (.record fields) (.object (before ++ after))
        (.object (before ++ (name, .null) :: after))
  | member {fields : List (String × Form)} {before after : Members} {name : String} {form : Form}
      {v v' : Json} (field : fields.lookup name = some form) (inner : Rewrites form v v') :
      Rewrites (.record fields) (.object (before ++ (name, v) :: after))
        (.object (before ++ (name, v') :: after))
  /-- A record that is written as the array of its fields. -/
  | position {fields : List (String × Form)} {before after : List Json} {name : String}
      {form : Form} {v v' : Json} (field : fields[before.length]? = some (name, form))
      (inner : Rewrites form v v') :
      Rewrites (.record fields) (.array (before ++ v :: after)) (.array (before ++ v' :: after))
  /-- A null at the end of such an array, where the next field has been absent. -/
  | last {fields : List (String × Form)} {items : List Json} {name : String} {form : Form}
      (field : fields[items.length]? = some (name, .nullable form)) :
      Rewrites (.record fields) (.array items) (.array (items ++ [.null]))
  | item {form : Form} {before after : List Json} {v v' : Json} (inner : Rewrites form v v') :
      Rewrites (.list form) (.array (before ++ v :: after)) (.array (before ++ v' :: after))
  | nullable {form : Form} {v v' : Json} (inner : Rewrites form v v') :
      Rewrites (.nullable form) v v'

/-- Two presentations of one document: any number of rewritings, each in either direction. -/
def Form.Same (form : Form) : Json → Json → Prop := Relation.EqvGen (Rewrites form)

namespace Rewrites

variable {form : Form} {v v' : Json}

/-- Only arrays and objects are rewritten. -/
theorem ne_null (h : Rewrites form v v') : v ≠ .null ∧ v' ≠ .null := by
  induction h with
  | permute | insert | null | member | position | last | item => simp
  | nullable _ ih => exact ih

theorem sound_iff (h : Rewrites form v v') : v.sound = true ↔ v'.sound = true := by
  have hnull : Json.null.sound = true := rfl
  induction h with
  | permute perm => simp only [Json.sound_object, perm.mem_iff]
  | insert _ sound => simp [or_imp, forall_and, sound]
  | null => simp [or_imp, forall_and, hnull]
  | member _ _ ih => simp [or_imp, forall_and, ih]
  | position _ _ ih => simp [or_imp, forall_and, ih]
  | last => simp [or_imp, forall_and, hnull]
  | item _ ih => simp [or_imp, forall_and, ih]
  | nullable _ ih => exact ih

end Rewrites

/-- What the reader gives for a document does not change when it is rewritten. -/
def Reader.Respects (read : Reader α) (form : Form) : Prop :=
  ∀ v v', Rewrites form v v' → ∀ a, read v = .ok a ↔ read v' = .ok a

def Fields.Respects (fields : Fields α) (forms : List (String × Form)) : Prop :=
  ∀ members members', Rewrites (.record forms) (.object members) (.object members') →
    ∀ a, fields.read members = .ok a ↔ fields.read members' = .ok a

/-- **Any number of rewritings** leaves what is read unchanged. -/
theorem Reader.Respects.same {read : Reader α} {form : Form} (h : read.Respects form) {v v' : Json}
    (hsame : form.Same v v') (a : α) : read v = .ok a ↔ read v' = .ok a := by
  induction hsame with
  | rel v v' hstep => exact h v v' hstep a
  | refl v => exact Iff.rfl
  | symm v v' _ ih => exact ih.symm
  | trans v v' v'' _ _ ih ih' => exact ih.trans ih'

/-! ## Readers -/

namespace Reader.Respects

variable {read : Reader α} {form : Form}

theorem value (read : Reader α) : read.Respects .value := by
  intro v v' h
  cases h

theorem list (h : read.Respects form) : (Reader.list read).Respects (.list form) := by
  intro v v' hstep as
  cases hstep with
  | item inner =>
    simp only [Reader.list, List.mapM_append, List.mapM_cons, bind_eq_ok, h _ _ inner]

theorem optional (h : read.Respects form) : read.optional.Respects (.nullable form) := by
  intro v v' hstep o
  cases hstep with
  | nullable inner =>
    obtain ⟨hv, hv'⟩ := inner.ne_null
    rw [Reader.optional_of_ne hv, Reader.optional_of_ne hv']
    simp only [map_eq_ok, h v v' inner]

theorem orDefault (h : read.Respects form) (default : α) :
    (read.orDefault default).Respects (.nullable form) := by
  intro v v' hstep a
  cases hstep with
  | nullable inner =>
    obtain ⟨hv, hv'⟩ := inner.ne_null
    rw [Reader.orDefault_of_ne hv, Reader.orDefault_of_ne hv']
    exact h v v' inner a

end Reader.Respects

/-! ## Fields -/

namespace Fields

variable {name : String} {members members' : Members} {forms : List (String × Form)} {form : Form}

/-- The values of all members of one name, in text order. -/
def valuesOf (name : String) (members : Members) : List Json :=
  (members.filter (·.1 = name)).map Prod.snd

@[simp]
theorem valuesOf_append (name : String) (members members' : Members) :
    valuesOf name (members ++ members') = valuesOf name members ++ valuesOf name members' := by
  simp [valuesOf]

theorem valuesOf_cons_self (name : String) (v : Json) (members : Members) :
    valuesOf name ((name, v) :: members) = v :: valuesOf name members := by
  simp [valuesOf]

theorem valuesOf_cons_of_ne {n : String} (h : n ≠ name) (v : Json) (members : Members) :
    valuesOf name ((n, v) :: members) = valuesOf name members := by
  simp [valuesOf, h]

theorem valuesOf_eq_nil (h : name ∉ members.map Prod.fst) : valuesOf name members = [] := by
  rw [valuesOf, ← map_snd_occurrences, occurrences_of_not_mem h, List.map_nil]

/-- A field is read from the only value of its name. -/
theorem read_eq_ok_iff {read : Reader α} {absent : Except DecodeError α} {a : α} :
    (field name read absent).read members = .ok a ↔
      valuesOf name members = [] ∧ absent = .ok a ∨
        ∃ v, valuesOf name members = [v] ∧ read v = .ok a := by
  rw [valuesOf, ← map_snd_occurrences]
  simp only [field]
  cases occurrences name members with
  | nil => simp [mapError_eq_ok]
  | cons first rest =>
    obtain ⟨i, v⟩ := first
    cases hread : read v with
    | error e => cases rest <;> simp [hread]
    | ok b => cases rest <;> simp [hread]

/-- What one rewriting does to the values of a name whose field has that form. -/
inductive RewritesValues (form : Form) : List Json → List Json → Prop
  | permute {vs vs' : List Json} (perm : vs.Perm vs') : RewritesValues form vs vs'
  | null {inner : Form} (nullable : form = .nullable inner) : RewritesValues form [] [.null]
  | value {before after : List Json} {v v' : Json} (inner : Rewrites form v v') :
      RewritesValues form (before ++ v :: after) (before ++ v' :: after)

/-- **One rewriting of a record**, seen from one of its fields. -/
theorem rewritesValues (hform : forms.lookup name = some form)
    (h : Rewrites (.record forms) (.object members) (.object members')) :
    RewritesValues form (valuesOf name members) (valuesOf name members') := by
  cases h with
  | permute perm => exact .permute ((perm.filter _).map _)
  | @insert _ before after n v unknown _ =>
    have hne : n ≠ name := by
      rintro rfl
      exact unknown (List.mem_map_of_mem (Table.mem_of_lookup hform))
    rw [valuesOf_append, valuesOf_append, valuesOf_cons_of_ne hne]
    exact .permute (.refl _)
  | @null _ before after n inner field absent =>
    by_cases hname : n = name
    · subst hname
      rw [valuesOf_eq_nil absent]
      rw [List.map_append, List.mem_append, not_or] at absent
      rw [valuesOf_append, valuesOf_cons_self, valuesOf_eq_nil absent.1, valuesOf_eq_nil absent.2]
      exact .null (Option.some.inj (hform.symm.trans field))
    · rw [valuesOf_append, valuesOf_append, valuesOf_cons_of_ne hname]
      exact .permute (.refl _)
  | @member _ before after n form' v v' field inner =>
    rw [valuesOf_append, valuesOf_append]
    by_cases hname : n = name
    · subst hname
      rw [valuesOf_cons_self, valuesOf_cons_self]
      obtain rfl : form = form' := Option.some.inj (hform.symm.trans field)
      exact .value inner
    · rw [valuesOf_cons_of_ne hname, valuesOf_cons_of_ne hname]
      exact .permute (.refl _)

/-- A value that is taken as it is stays among the values of its name. -/
theorem RewritesValues.perm {vs vs' : List Json} (h : RewritesValues .value vs vs') :
    vs.Perm vs' := by
  cases h with
  | permute perm => exact perm
  | null nullable => cases nullable
  | value inner => cases inner

end Fields

namespace Fields.Respects

variable {name : String} {forms : List (String × Form)} {form : Form} {read : Reader α}

/-- A field for which null may stand has to read it as absence. -/
theorem field (h : read.Respects form) (hform : forms.lookup name = some form)
    {absent : Except DecodeError α}
    (hnull : ∀ inner, form = .nullable inner → read .null = absent) :
    (Fields.field name read absent).Respects forms := by
  intro members members' hstep a
  rw [read_eq_ok_iff, read_eq_ok_iff]
  have hvalues := rewritesValues hform hstep
  generalize valuesOf name members = vs at hvalues
  generalize valuesOf name members' = vs' at hvalues
  cases hvalues with
  | permute perm =>
    simp only [← List.perm_nil, ← List.perm_singleton, perm.congr_left]
  | null nullable => simp [hnull _ nullable]
  | @value before after v v' inner =>
    have hnil (w : Json) : before ++ w :: after ≠ [] := by simp
    have hone (w : Json) {u : Json} :
        before ++ w :: after = [u] ↔ before = [] ∧ after = [] ∧ w = u := by
      rw [List.append_eq_singleton_iff]
      simp [and_comm]
    simp only [hnil, hone, false_and, false_or]
    constructor
    · rintro ⟨_, ⟨hbefore, hafter, rfl⟩, hread⟩
      exact ⟨v', ⟨hbefore, hafter, rfl⟩, (h _ _ inner a).1 hread⟩
    · rintro ⟨_, ⟨hbefore, hafter, rfl⟩, hread⟩
      exact ⟨v, ⟨hbefore, hafter, rfl⟩, (h _ _ inner a).2 hread⟩

/-- A field for which null may not stand. -/
theorem withDefault (h : read.Respects form) (hform : forms.lookup name = some form)
    (hnull : ∀ inner, form ≠ .nullable inner) (default : α) :
    (Fields.withDefault name read default).Respects forms :=
  field h hform fun inner heq => (hnull inner heq).elim

theorem required (h : read.Respects form) (hform : forms.lookup name = some form)
    (hnull : ∀ inner, form ≠ .nullable inner) : (Fields.required name read).Respects forms :=
  field h hform fun inner heq => (hnull inner heq).elim

theorem optional (h : read.Respects form) (hform : forms.lookup name = some (.nullable form)) :
    (Fields.optional name read).Respects forms :=
  field h.optional hform fun _ _ => rfl

theorem orDefault (h : read.Respects form) (hform : forms.lookup name = some (.nullable form))
    (default : α) : (Fields.orDefault name read default).Respects forms :=
  field (h.orDefault default) hform fun _ _ => rfl

theorem map (g : α → β) {fields : Fields α} (h : fields.Respects forms) :
    (g <$> fields).Respects forms := by
  intro members members' hstep b
  simp only [Fields.map_eq_ok, h members members' hstep]

theorem seq {fields : Fields (α → β)} {field : Fields α} (h : fields.Respects forms)
    (hfield : field.Respects forms) : (fields <*> field).Respects forms := by
  intro members members' hstep b
  simp only [Fields.seq_eq_ok, h members members' hstep, hfield members members' hstep]

end Fields.Respects

/-! ## Records -/

namespace Rewrites

variable {forms : List (String × Form)}

/-- A record stays an object or an array when it is rewritten. -/
theorem record_cases {v v' : Json} (h : Rewrites (.record forms) v v') :
    (∃ members members', v = .object members ∧ v' = .object members') ∨
      ∃ items items', v = .array items ∧ v' = .array items' := by
  cases h with
  | permute | insert | null | member => exact .inl ⟨_, _, rfl, rfl⟩
  | position | last => exact .inr ⟨_, _, rfl, rfl⟩

/-- The fields before the one at a place. -/
theorem exists_split {i : Nat} {name : String} {form : Form} (hnodup : (forms.map Prod.fst).Nodup)
    (hfield : forms[i]? = some (name, form)) : ∃ forms₁ forms₂,
      forms = forms₁ ++ (name, form) :: forms₂ ∧ forms₁.length = i ∧
        name ∉ forms₁.map Prod.fst := by
  obtain ⟨hlt, hget⟩ := List.getElem?_eq_some_iff.1 hfield
  have hsplit : forms = forms.take i ++ (name, form) :: forms.drop (i + 1) := by
    rw [← hget, List.cons_getElem_drop_succ, List.take_append_drop]
  refine ⟨_, _, hsplit, List.length_take_of_le hlt.le, fun hmem => ?_⟩
  rw [hsplit, List.map_append, List.map_cons, List.nodup_append] at hnodup
  exact hnodup.2.2 name hmem name List.mem_cons_self rfl

variable {forms₁ forms₂ : List (String × Form)} {name : String} {form : Form}

theorem lookup_append_cons (h : name ∉ forms₁.map Prod.fst) :
    (forms₁ ++ (name, form) :: forms₂).lookup name = some form := by
  refine List.lookup_eq_some_iff.2 ⟨forms₁, forms₂, rfl, fun p hp => ?_⟩
  rw [bne_iff_ne]
  rintro rfl
  exact h (List.mem_map_of_mem hp)

theorem zip_append_cons {before : List Json} (hlength : forms₁.length = before.length)
    (rest : List Json) :
    ((forms₁ ++ (name, form) :: forms₂).map Prod.fst).zip (before ++ rest) =
      (forms₁.map Prod.fst).zip before ++ (name :: forms₂.map Prod.fst).zip rest := by
  rw [List.map_append, List.zip_append (by rw [List.length_map, hlength]), List.map_cons]

/-- An array of fields is rewritten as the members that it stands for. -/
theorem zip (hnodup : (forms.map Prod.fst).Nodup) {items items' : List Json}
    (h : Rewrites (.record forms) (.array items) (.array items')) :
    Rewrites (.record forms) (.object ((forms.map Prod.fst).zip items))
        (.object ((forms.map Prod.fst).zip items')) ∧
      (items.length ≤ forms.length ↔ items'.length ≤ forms.length) := by
  cases h with
  | position field inner =>
    obtain ⟨forms₁, forms₂, rfl, hlength, hname⟩ := exists_split hnodup field
    rw [zip_append_cons hlength, zip_append_cons hlength, List.zip_cons_cons, List.zip_cons_cons]
    exact ⟨.member (lookup_append_cons hname) inner, by simp⟩
  | @last _ _ name form field =>
    obtain ⟨forms₁, forms₂, rfl, hlength, hname⟩ := exists_split hnodup field
    have habsent : name ∉ ((forms₁.map Prod.fst).zip items ++ []).map Prod.fst := by
      rw [List.append_nil]
      intro hmem
      obtain ⟨⟨_, v⟩, hm, rfl⟩ := List.mem_map.1 hmem
      exact hname (List.of_mem_zip hm).1
    have hnone : ((forms₁ ++ (name, .nullable form) :: forms₂).map Prod.fst).zip (items ++ []) =
        (forms₁.map Prod.fst).zip items ++ [] := zip_append_cons hlength []
    rw [List.append_nil items] at hnone
    rw [hnone, zip_append_cons hlength, List.zip_cons_cons, List.zip_nil_right]
    refine ⟨.null (lookup_append_cons hname) habsent, ?_⟩
    simp only [List.length_append, List.length_cons, List.length_nil]
    omega

end Rewrites

/-- A record respects the form of its fields, also when it is written as an array. -/
theorem Fields.Respects.record {record : Record α} {forms : List (String × Form)}
    (h : record.fields.Respects forms) (hnames : record.fields.names = forms.map Prod.fst)
    (hnodup : (forms.map Prod.fst).Nodup) (source : Source) :
    (record.read source).Respects (.record forms) := by
  intro v v' hstep a
  rcases hstep.record_cases with ⟨members, members', rfl, rfl⟩ | ⟨items, items', rfl, rfl⟩
  · rw [Record.read, Record.read, mapError_eq_ok, mapError_eq_ok]
    exact h members members' hstep a
  · obtain ⟨hzip, hlength⟩ := hstep.zip hnodup
    rw [Record.read, Record.read, Record.readItems_eq_ok, Record.readItems_eq_ok, hnames,
      List.length_map, h _ _ hzip a, hlength]

end MeterCheck
