import MeterCheck.Proofs.Decode.Ensures
import MeterCheck.Proofs.Json.RoundTrip

/-!
# Reading what was written

* `Fields.read_of_mem`, `Fields.read_of_not_mem`: a field whose name no other member has;
* `Json.present`: the members of a written record, without those that are absent;
* `Fields.optional_present`, `Fields.orDefault_present`: the fields of a written record;
* `decode_text`: a document that fits is decoded from its written form.
-/

namespace MeterCheck

variable {α β : Type} {read : Reader α} {name : String} {v : Json} {a : α} {members : Members}

/-! ## Readers -/

namespace Reader

theorem optional_of_ne (h : v ≠ .null) : read.optional v = (read v).map some := by
  unfold optional
  split
  · exact absurd rfl h
  · rfl

theorem orDefault_of_ne (h : v ≠ .null) (default : α) : read.orDefault default v = read v := by
  unfold orDefault
  split
  · exact absurd rfl h
  · rfl

theorem list_map {f : β → Json} {g : β → α} {bs : List β} (h : ∀ b ∈ bs, read (f b) = .ok (g b)) :
    Reader.list read (.array (bs.map f)) = .ok (bs.map g) := by
  rw [list]
  induction bs with
  | nil => rfl
  | cons b bs ih =>
    obtain ⟨hb, hbs⟩ := List.forall_mem_cons.1 h
    rw [List.map_cons, List.mapM_cons, hb, ih hbs]
    rfl

end Reader

theorem Record.read_object {record : Record α} (h : record.fields.read members = .ok a)
    (source : Source) : record.read source (.object members) = .ok a :=
  mapError_eq_ok.2 h

theorem decode_text {n : Nat} (hv : v.Within n) (hn : n ≤ Json.maxDepth)
    (h : read v.reread = .ok a) : decode read v.text = .ok a := by
  rw [decode, Json.parse?_text (hv.mono hn)]
  exact mapError_eq_ok.2 h

/-! ## Fields -/

namespace Fields

theorem filter_of_nodup (hnodup : (members.map Prod.fst).Nodup) (hmem : (name, v) ∈ members) :
    members.filter (·.1 = name) = [(name, v)] := by
  induction members with
  | nil => cases hmem
  | cons m members ih =>
    obtain ⟨hm, hrest⟩ := List.nodup_cons.1 hnodup
    rcases List.mem_cons.1 hmem with rfl | hmem
    · have hnone : members.filter (·.1 = name) = [] := by
        refine List.filter_eq_nil_iff.2 fun m' hm' hname => hm ?_
        exact List.mem_map.2 ⟨m', hm', of_decide_eq_true hname⟩
      rw [List.filter_cons_of_pos (by simp), hnone]
    · have hne : m.1 ≠ name := by
        rintro rfl
        exact hm (List.mem_map.2 ⟨_, hmem, rfl⟩)
      rw [List.filter_cons_of_neg (by simpa using hne), ih hrest hmem]

/-- A member whose name no other member has is the only one of its name. -/
theorem occurrences_of_mem (hnodup : (members.map Prod.fst).Nodup) (hmem : (name, v) ∈ members) :
    ∃ i, occurrences name members = [(i, v)] := by
  have hfound := map_snd_occurrences name members
  rw [filter_of_nodup hnodup hmem] at hfound
  obtain ⟨⟨i, w⟩, rest, hoccurrences, hw, hrest⟩ := List.map_eq_cons_iff.1 hfound
  obtain rfl : w = v := hw
  obtain rfl := List.map_eq_nil_iff.1 hrest
  exact ⟨i, hoccurrences⟩

theorem occurrences_of_not_mem (h : name ∉ members.map Prod.fst) :
    occurrences name members = [] := by
  have hfound := map_snd_occurrences name members
  have hnone : members.filter (·.1 = name) = [] := by
    refine List.filter_eq_nil_iff.2 fun m hm hname => h ?_
    exact List.mem_map.2 ⟨m, hm, of_decide_eq_true hname⟩
  rw [hnone] at hfound
  exact List.map_eq_nil_iff.1 hfound

/-- The only member of a name is the one that is read. -/
theorem read_eq_ok_of_mem {absent : Except DecodeError α} (hnodup : (members.map Prod.fst).Nodup)
    (hmem : (name, v) ∈ members) :
    (field name read absent).read members = .ok a ↔ read v = .ok a := by
  obtain ⟨i, hoccurrences⟩ := occurrences_of_mem hnodup hmem
  simp only [field, hoccurrences]
  cases read v <;> simp

theorem read_of_mem {absent : Except DecodeError α} (hnodup : (members.map Prod.fst).Nodup)
    (hmem : (name, v) ∈ members) (h : read v = .ok a) :
    (field name read absent).read members = .ok a :=
  (read_eq_ok_of_mem hnodup hmem).2 h

/-- A field that no member has means what its absence means. -/
theorem read_eq_ok_of_not_mem {absent : Except DecodeError α} (h : name ∉ members.map Prod.fst) :
    (field name read absent).read members = .ok a ↔ absent = .ok a := by
  simp only [field, occurrences_of_not_mem h]
  exact mapError_eq_ok

theorem read_of_not_mem {default : α} (h : name ∉ members.map Prod.fst) :
    (withDefault name read default).read members = .ok default :=
  (read_eq_ok_of_not_mem h).2 rfl

end Fields

/-! ## Written records -/

namespace Json

/-- The members of a record that are written. -/
def present (ms : List (String × Option Json)) : Members :=
  ms.filterMap fun (name, v) => v.map fun v => (name, v)

theorem ofMembers_eq (ms : List (String × Option Json)) : ofMembers ms = .object (present ms) := rfl

variable {ms : List (String × Option Json)}

theorem mem_present (h : (name, some v) ∈ ms) : (name, v) ∈ present ms :=
  List.mem_filterMap.2 ⟨_, h, rfl⟩

theorem exists_of_mem_present {m : String × Json} (h : m ∈ present ms) : (m.1, some m.2) ∈ ms := by
  obtain ⟨⟨n, o⟩, hmem, ho⟩ := List.mem_filterMap.1 h
  obtain ⟨w, hw, rfl⟩ := Option.map_eq_some_iff.1 ho
  obtain rfl : o = some w := hw
  exact hmem

theorem map_fst_present_sublist (ms : List (String × Option Json)) :
    ((present ms).map Prod.fst).Sublist (ms.map Prod.fst) := by
  induction ms with
  | nil => exact .slnil
  | cons m ms ih =>
    obtain ⟨n, _ | w⟩ := m
    · exact .cons _ ih
    · exact .cons_cons _ ih

theorem not_mem_present (hnodup : (ms.map Prod.fst).Nodup) (h : (name, none) ∈ ms) :
    name ∉ (present ms).map Prod.fst := by
  intro hmem
  obtain ⟨m, hm, rfl⟩ := List.mem_map.1 hmem
  have hsome := exists_of_mem_present hm
  cases List.inj_on_of_nodup_map hnodup h hsome rfl

theorem reread_ofMembers (ms : List (String × Option Json)) :
    (ofMembers ms).reread = .object (present (ms.map fun m => (m.1, m.2.map reread))) := by
  rw [ofMembers_eq, reread_object]
  congr 1
  induction ms with
  | nil => rfl
  | cons m ms ih =>
    obtain ⟨n, _ | w⟩ := m
    · exact ih
    · exact congrArg _ ih

theorem within_map {f : β → Json} {n : Nat} {o : Option β} (h : ∀ b ∈ o, (f b).Within n) :
    ∀ v ∈ o.map f, v.Within n := by
  intro v hv
  obtain ⟨b, hb, rfl⟩ := Option.map_eq_some_iff.1 hv
  exact h b hb

theorem within_array_map {f : β → Json} {n : Nat} {bs : List β} (h : ∀ b ∈ bs, (f b).Within n) :
    (array (bs.map f)).Within (n + 1) := by
  refine .array fun v hv => ?_
  obtain ⟨b, hb, rfl⟩ := List.mem_map.1 hv
  exact h b hb

theorem map_reread {f : β → Json} (h : ∀ b, (f b).reread = f b) (o : Option β) :
    (o.map f).map reread = o.map f := by
  rw [Option.map_map]
  exact congrArg (o.map ·) (funext h)

theorem within_ofMembers {n : Nat} (h : ∀ m ∈ ms, ∀ v ∈ m.2, v.Within n) :
    (ofMembers ms).Within (n + 1) :=
  .object fun m hm => h _ (exists_of_mem_present hm) m.2 rfl

end Json

namespace Fields

variable {ms : List (String × Option Json)}

/-- An optional field is written if it has a value, which is not null. -/
theorem optional_present {f : β → Json} {g : β → α} {o : Option β}
    (hnodup : (ms.map Prod.fst).Nodup) (hmem : (name, o.map f) ∈ ms)
    (hnull : ∀ b ∈ o, f b ≠ .null) (h : ∀ b ∈ o, read (f b) = .ok (g b)) :
    (Fields.optional name read).read (Json.present ms) = .ok (o.map g) := by
  cases o with
  | none => exact read_of_not_mem (Json.not_mem_present hnodup hmem)
  | some b =>
    refine read_of_mem (hnodup.sublist (Json.map_fst_present_sublist ms)) (Json.mem_present hmem) ?_
    rw [Reader.optional_of_ne (hnull b rfl), h b rfl]
    rfl

theorem optional_present_self {f : α → Json} {o : Option α} (hnodup : (ms.map Prod.fst).Nodup)
    (hmem : (name, o.map f) ∈ ms) (hnull : ∀ a, f a ≠ .null) (h : ∀ a ∈ o, read (f a) = .ok a) :
    (Fields.optional name read).read (Json.present ms) = .ok o := by
  have hoptional : (Fields.optional name read).read (Json.present ms) = .ok (o.map id) :=
    optional_present hnodup hmem (fun a _ => hnull a) h
  rwa [Option.map_id] at hoptional

theorem orDefault_present {default : α} (hnodup : (ms.map Prod.fst).Nodup)
    (hmem : (name, some v) ∈ ms) (hnull : v ≠ .null) (h : read v = .ok a) :
    (Fields.orDefault name read default).read (Json.present ms) = .ok a := by
  refine read_of_mem (hnodup.sublist (Json.map_fst_present_sublist ms)) (Json.mem_present hmem) ?_
  rw [Reader.orDefault_of_ne hnull, h]

end Fields

end MeterCheck
