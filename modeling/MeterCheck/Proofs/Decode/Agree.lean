import MeterCheck.Proofs.Decode.Written
import MeterCheck.Proofs.Json.Distinct

/-!
# Reading a document and reading its value

* `Reader.Agrees`, `Fields.Agrees`: what is read from a plain document is read from its canonical
  form. One lemma for each way of putting readers together;
* `Fields.Agrees.record`: so it is for records, whatever they are read from.
-/

namespace MeterCheck

variable {α β : Type}

/-- The first reads from a document what the second reads from its value. -/
def Reader.Agrees (read read' : Reader α) : Prop :=
  ∀ v, v.Plain → ∀ a, read v = .ok a ↔ read' v.canonical = .ok a

/-- The members of a document in any order, each with its value. -/
structure Members.Stands (members members' : Members) : Prop where
  nodup : (members.map Prod.fst).Nodup
  plain : ∀ m ∈ members, m.2.Plain
  perm : members'.Perm (members.map fun m => (m.1, m.2.canonical))

def Fields.Agrees (fields fields' : Fields α) : Prop :=
  ∀ members members', Members.Stands members members' →
    ∀ a, fields.read members = .ok a ↔ fields'.read members' = .ok a

namespace Members.Stands

variable {members members' : Members}

theorem map_fst_perm (h : Stands members members') :
    (members'.map Prod.fst).Perm (members.map Prod.fst) := by
  have hperm := h.perm.map Prod.fst
  rwa [List.map_map] at hperm

theorem mem_iff (h : Stands members members') {name : String} {w : Json} :
    (name, w) ∈ members' ↔ ∃ v, (name, v) ∈ members ∧ v.canonical = w := by
  rw [h.perm.mem_iff, List.mem_map]
  constructor
  · rintro ⟨⟨n, v⟩, hm, heq⟩
    cases heq
    exact ⟨v, hm, rfl⟩
  · rintro ⟨v, hm, rfl⟩
    exact ⟨(name, v), hm, rfl⟩

/-- The members of an object stand in its canonical form. -/
theorem of_object (h : (Json.object members).Plain) :
    Stands members (Table.ofList (members.map fun m => (m.1, m.2.canonical))) := by
  refine ⟨h.nodup, fun m hm => h.of_member hm, Table.perm_ofList ?_⟩
  rw [List.map_map]
  exact h.nodup

theorem map_fst_zip_sublist (names : List String) (items : List Json) :
    ((names.zip items).map Prod.fst).Sublist names := by
  induction names generalizing items with
  | nil => exact .slnil
  | cons name names ih =>
    cases items with
    | nil => exact List.nil_sublist _
    | cons v items => exact (ih items).cons_cons name

/-- Items that are given names. -/
theorem of_items {items : List Json} (h : (Json.array items).Plain) {names : List String}
    (hnames : names.Nodup) : Stands (names.zip items) (names.zip (items.map Json.canonical)) := by
  refine ⟨hnames.sublist ?_, fun m hm => h.of_item (List.of_mem_zip hm).2, ?_⟩
  · exact map_fst_zip_sublist names items
  · rw [List.zip_map_right]
    exact .refl _

end Members.Stands

/-! ## Readers -/

namespace Reader.Agrees

variable {read read' : Reader α}

/-- A reader of any document may look at its value instead. -/
theorem document {f : Json → α} (h : ∀ v, f v.canonical = f v) :
    Agrees (fun v => (Reader.document v).map f) (fun v => (Reader.document v).map f) := by
  intro v hv a
  have hread : Reader.document v = .ok v := if_pos hv.sound
  have hread' : Reader.document v.canonical = .ok v.canonical :=
    if_pos (Json.sound_canonical hv.sound)
  simp only [map_eq_ok, hread, hread', Except.ok.injEq, exists_eq_left', h]

theorem text : Agrees Reader.text Reader.text := by
  intro v _ s
  cases v with
  | string => exact Iff.rfl
  | null | bool | int | double | array | object | flawed =>
    simp [Reader.text, Json.canonical, mismatch_ne_ok]

theorem mapM_iff (h : read.Agrees read') {items : List Json} (hitems : ∀ v ∈ items, v.Plain)
    (as : List α) : items.mapM read = .ok as ↔ (items.map Json.canonical).mapM read' = .ok as := by
  induction items generalizing as with
  | nil => simp
  | cons v items ih =>
    obtain ⟨hv, hrest⟩ := List.forall_mem_cons.1 hitems
    simp only [List.map_cons, List.mapM_cons, bind_eq_ok, h v hv, ih hrest]

theorem list (h : read.Agrees read') : (Reader.list read).Agrees (Reader.list read') := by
  intro v hv as
  cases v with
  | array items =>
    rw [Json.canonical_array]
    exact mapM_iff h (fun v => hv.of_item) as
  | null | bool | int | double | string | object | flawed =>
    simp [Reader.list, Json.canonical, mismatch_ne_ok]

theorem optional (h : read.Agrees read') : read.optional.Agrees read'.optional := by
  intro v hv o
  by_cases hnull : v = .null
  · rw [hnull]
    exact Iff.rfl
  · rw [Reader.optional_of_ne hnull, Reader.optional_of_ne (Json.canonical_ne_null hnull)]
    simp only [map_eq_ok, h v hv]

theorem orDefault (h : read.Agrees read') (default : α) :
    (read.orDefault default).Agrees (read'.orDefault default) := by
  intro v hv a
  by_cases hnull : v = .null
  · rw [hnull]
    exact Iff.rfl
  · rw [Reader.orDefault_of_ne hnull, Reader.orDefault_of_ne (Json.canonical_ne_null hnull)]
    exact h v hv a

end Reader.Agrees

/-! ## Fields -/

namespace Fields

/-- What a field means where no name is repeated. -/
theorem field_eq_ok {name : String} {read : Reader α} {absent : Except DecodeError α}
    {members : Members} (hnodup : (members.map Prod.fst).Nodup) {a : α} :
    (field name read absent).read members = .ok a ↔
      (name ∉ members.map Prod.fst ∧ absent = .ok a) ∨
        ∃ v, (name, v) ∈ members ∧ read v = .ok a := by
  by_cases hname : name ∈ members.map Prod.fst
  · obtain ⟨⟨_, v⟩, hv, rfl⟩ := List.mem_map.1 hname
    rw [read_eq_ok_of_mem hnodup hv]
    constructor
    · intro hread
      exact .inr ⟨v, hv, hread⟩
    · rintro (⟨hnot, -⟩ | ⟨w, hw, hread⟩)
      · exact (hnot hname).elim
      · cases List.inj_on_of_nodup_map hnodup hv hw rfl
        exact hread
  · have hnone : ∀ v, (name, v) ∉ members := fun v hv => hname (List.mem_map_of_mem hv)
    rw [read_eq_ok_of_not_mem hname]
    simp [hname, hnone]

end Fields

namespace Fields.Agrees

theorem field {read read' : Reader α} (h : read.Agrees read') (name : String)
    (absent : Except DecodeError α) :
    (Fields.field name read absent).Agrees (Fields.field name read' absent) := by
  intro members members' hstands a
  have hnodup' := hstands.map_fst_perm.symm.nodup hstands.nodup
  rw [Fields.field_eq_ok hstands.nodup, Fields.field_eq_ok hnodup',
    hstands.map_fst_perm.mem_iff]
  refine or_congr Iff.rfl ?_
  constructor
  · rintro ⟨v, hv, hread⟩
    exact ⟨v.canonical, hstands.mem_iff.2 ⟨v, hv, rfl⟩, (h v (hstands.plain _ hv) a).1 hread⟩
  · rintro ⟨w, hw, hread⟩
    obtain ⟨v, hv, rfl⟩ := hstands.mem_iff.1 hw
    exact ⟨v, hv, (h v (hstands.plain _ hv) a).2 hread⟩

theorem withDefault {read read' : Reader α} (h : read.Agrees read') (name : String) (default : α) :
    (Fields.withDefault name read default).Agrees (Fields.withDefault name read' default) :=
  field h name _

theorem optional {read read' : Reader α} (h : read.Agrees read') (name : String) :
    (Fields.optional name read).Agrees (Fields.optional name read') :=
  withDefault h.optional name none

theorem orDefault {read read' : Reader α} (h : read.Agrees read') (name : String) (default : α) :
    (Fields.orDefault name read default).Agrees (Fields.orDefault name read' default) :=
  withDefault (h.orDefault default) name default

theorem map (g : α → β) {fields fields' : Fields α} (h : fields.Agrees fields') :
    (g <$> fields).Agrees (g <$> fields') := by
  intro members members' hstands b
  simp only [Fields.map_eq_ok, h members members' hstands]

theorem seq {fields fields' : Fields (α → β)} {field field' : Fields α}
    (h : fields.Agrees fields') (hfield : field.Agrees field') :
    (fields <*> field).Agrees (fields' <*> field') := by
  intro members members' hstands b
  simp only [Fields.seq_eq_ok, h members members' hstands, hfield members members' hstands]

end Fields.Agrees

/-! ## Records -/

theorem Fields.Agrees.record {record record' : Record α} (h : record.fields.Agrees record'.fields)
    (hnames : record.fields.names = record'.fields.names) (hnodup : record.fields.names.Nodup)
    (source source' : Source) : (record.read source).Agrees (record'.read source') := by
  intro v hv a
  cases v with
  | object members =>
    rw [Json.canonical_object, Record.read, Record.read, mapError_eq_ok, mapError_eq_ok]
    exact h members _ (.of_object hv) a
  | array items =>
    rw [Json.canonical_array, Record.read, Record.read, Record.readItems_eq_ok,
      Record.readItems_eq_ok, List.length_map, ← hnames, h _ _ (.of_items hv hnodup)]
  | null | bool | int | double | string | flawed =>
    simp [Record.read, Json.canonical, mismatch_ne_ok]

end MeterCheck
