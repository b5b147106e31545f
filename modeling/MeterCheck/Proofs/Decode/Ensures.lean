import MeterCheck.Decode.Fields
import MeterCheck.Proofs.Json.Tree
import Mathlib.Data.List.Forall2

/-!
# What readers ensure

* `Reader.forall₂_of_list`, `Fields.lookup_of_read`, `Record.exists_of_read`: the parts of what is
  read come from the parts of the document;
* `Reader.Ensures`, `Fields.Ensures`: every value that is read has a property. One lemma for each
  way of putting readers together.
-/

namespace MeterCheck

variable {α β : Type}

def Reader.Ensures (read : Reader α) (P : α → Prop) : Prop := ∀ v a, read v = .ok a → P a

def Fields.Ensures (fields : Fields α) (P : α → Prop) : Prop :=
  ∀ members a, fields.read members = .ok a → P a

theorem mismatch_ne_ok {expected : String} {v : Json} {a : α} :
    mismatch expected v ≠ .ok a := by
  unfold mismatch
  split <;> simp

theorem map_eq_ok {ε : Type} {x : Except ε α} {f : α → β} {b : β} :
    x.map f = .ok b ↔ ∃ a, x = .ok a ∧ f a = b := by
  cases x <;> simp [Except.map]

theorem mapError_eq_ok {ε ε' : Type} {x : Except ε α} {f : ε → ε'} {a : α} :
    x.mapError f = .ok a ↔ x = .ok a := by
  cases x with
  | error e => exact ⟨nofun, nofun⟩
  | ok b =>
    change (.ok b : Except ε' α) = .ok a ↔ _
    rw [Except.ok.injEq, Except.ok.injEq]

theorem mapError_eq_error {ε ε' : Type} {x : Except ε α} {f : ε → ε'} {e : ε'} :
    x.mapError f = .error e ↔ ∃ a, x = .error a ∧ f a = e := by
  cases x with
  | error a =>
    change (.error (f a) : Except ε' α) = .error e ↔ _
    simp only [Except.error.injEq, exists_eq_left']
  | ok a =>
    constructor
    · intro h
      cases h
    · rintro ⟨_, h, -⟩
      cases h

theorem bind_eq_ok {ε : Type} {x : Except ε α} {f : α → Except ε β} {b : β} :
    x >>= f = .ok b ↔ ∃ a, x = .ok a ∧ f a = .ok b := by
  cases x <;> simp [bind, Except.bind]

theorem bind_eq_error {ε : Type} {x : Except ε α} {f : α → Except ε β} {e : ε} :
    x >>= f = .error e ↔ x = .error e ∨ ∃ a, x = .ok a ∧ f a = .error e := by
  cases x <;> simp [bind, Except.bind]

theorem exists_left_of_forall₂ {R : α → β → Prop} {xs : List α} {ys : List β}
    (h : List.Forall₂ R xs ys) {y : β} (hy : y ∈ ys) : ∃ x ∈ xs, R x y := by
  induction h with
  | nil => cases hy
  | cons hxy _ ih =>
    rcases List.mem_cons.1 hy with rfl | hy
    · exact ⟨_, List.mem_cons_self, hxy⟩
    · obtain ⟨x, hx, hxy⟩ := ih hy
      exact ⟨x, List.mem_cons_of_mem _ hx, hxy⟩

theorem map_eq_of_forall₂ {γ : Type} {f : α → γ} {g : β → γ} {xs : List α} {ys : List β}
    (h : List.Forall₂ (fun x y => g y = f x) xs ys) : ys.map g = xs.map f := by
  induction h with
  | nil => rfl
  | cons hxy _ ih => rw [List.map_cons, List.map_cons, hxy, ih]

/-- A text is read as the document it holds. -/
theorem decode_eq_ok {read : Reader α} {text : String} {a : α} :
    decode read text = .ok a ↔ ∃ v, Json.parse? text = some v ∧ read v = .ok a := by
  rw [decode]
  cases Json.parse? text with
  | none => simp
  | some v =>
    simp only [Option.some.injEq, exists_eq_left']
    exact mapError_eq_ok

theorem decode_ok {read : Reader α} {P : α → Prop} (h : read.Ensures P) {text : String} {a : α}
    (ha : decode read text = .ok a) : P a := by
  obtain ⟨v, -, hv⟩ := decode_eq_ok.1 ha
  exact h v a hv

namespace Reader

variable {read : Reader α} {v : Json}

theorem forall₂_of_mapM {items : List Json} {as : List α} (h : items.mapM read = .ok as) :
    List.Forall₂ (fun c a => read c = .ok a) items as := by
  induction items generalizing as with
  | nil =>
    cases h
    exact .nil
  | cons c items ih =>
    rw [List.mapM_cons] at h
    obtain ⟨a, ha, h⟩ := bind_eq_ok.1 h
    obtain ⟨rest, hrest, h⟩ := bind_eq_ok.1 h
    cases h
    exact .cons ha (ih hrest)

/-- A list is read item by item, in order. -/
theorem forall₂_of_list {as : List α} (h : Reader.list read v = .ok as) :
    List.Forall₂ (fun c a => read c = .ok a) v.children as := by
  unfold Reader.list at h
  split at h
  · exact forall₂_of_mapM h
  · exact (mismatch_ne_ok h).elim

/-- Everything in a list is read from an item. -/
theorem exists_of_list {as : List α} (h : Reader.list read v = .ok as) :
    ∀ a ∈ as, ∃ c ∈ v.children, read c = .ok a :=
  fun _ ha => exists_left_of_forall₂ (forall₂_of_list h) ha

theorem read_of_optional {o : Option α} (h : read.optional v = .ok o) :
    ∀ a ∈ o, read v = .ok a ∧ v ≠ .null := by
  unfold Reader.optional at h
  split at h
  · cases h
    simp
  · rename_i hnull
    obtain ⟨a, ha, rfl⟩ := map_eq_ok.1 h
    rintro _ ⟨⟩
    exact ⟨ha, hnull⟩

theorem read_of_orDefault {default a : α} (h : read.orDefault default v = .ok a) :
    a = default ∨ read v = .ok a := by
  unfold Reader.orDefault at h
  split at h
  · cases h
    exact .inl rfl
  · exact .inr h

end Reader

namespace Reader.Ensures

variable {read : Reader α} {P : α → Prop}

theorem list (h : read.Ensures P) : (Reader.list read).Ensures fun as => ∀ a ∈ as, P a := by
  intro v as has a ha
  obtain ⟨c, _, hc⟩ := exists_of_list has a ha
  exact h c a hc

theorem optional (h : read.Ensures P) : read.optional.Ensures fun o => ∀ a ∈ o, P a :=
  fun v _ ho a ha => h v a (read_of_optional ho a ha).1

theorem orDefault (h : read.Ensures P) {default : α} (hdefault : P default) :
    (read.orDefault default).Ensures P := by
  intro v a ha
  rcases read_of_orDefault ha with rfl | ha
  · exact hdefault
  · exact h v a ha

end Reader.Ensures

namespace Fields

theorem both_eq_ok {f : Except Fault (α → β)} {x : Except Fault α} {b : β} :
    both f x = .ok b ↔ ∃ g a, f = .ok g ∧ x = .ok a ∧ g a = b := by
  cases f <;> cases x <;> simp [both]

/-- Fields are read one after the other, each independently of the others. -/
theorem seq_eq_ok {fields : Fields (α → β)} {field : Fields α} {members : Members} {b : β} :
    (fields <*> field).read members = .ok b ↔
      ∃ g a, fields.read members = .ok g ∧ field.read members = .ok a ∧ g a = b :=
  both_eq_ok

theorem map_eq_ok {g : α → β} {field : Fields α} {members : Members} {b : β} :
    (g <$> field).read members = .ok b ↔ ∃ a, field.read members = .ok a ∧ g a = b := by
  change both (.ok g) (field.read members) = .ok b ↔ _
  rw [both_eq_ok]
  simp

theorem map_snd_occurrences (name : String) (members : Members) :
    (occurrences name members).map Prod.snd = (members.filter (·.1 = name)).map Prod.snd := by
  have hfrom (k : Nat) : ((members.zipIdx k).filterMap fun m =>
      if m.1.1 = name then some (m.2, m.1.2) else none).map Prod.snd =
      (members.filter (·.1 = name)).map Prod.snd := by
    induction members generalizing k with
    | nil => rfl
    | cons m members ih =>
      obtain ⟨n, v⟩ := m
      by_cases hn : n = name <;> simp [List.zipIdx_cons, hn, ih]
  exact hfrom 0

theorem head?_occurrences (name : String) (members : Members) :
    ((occurrences name members).map Prod.snd).head? = members.lookup name := by
  rw [map_snd_occurrences]
  induction members with
  | nil => rfl
  | cons m members ih =>
    obtain ⟨n, v⟩ := m
    rw [Table.lookup_cons_ite]
    by_cases hname : n = name
    · simp [hname]
    · rw [if_neg (Ne.symm hname), ← ih, List.filter_cons_of_neg (by simpa using hname)]

/-- A field has what is meant by its absence, or is read from the first member of its name. -/
theorem lookup_of_read {name : String} {read : Reader α} {absent : Except DecodeError α}
    {members : Members} {a : α} (h : (field name read absent).read members = .ok a) :
    members.lookup name = none ∧ absent = .ok a ∨
      ∃ v, members.lookup name = some v ∧ read v = .ok a := by
  rw [← head?_occurrences]
  simp only [field] at h
  split at h
  · rename_i hnone
    exact .inl ⟨by rw [hnone]; rfl, mapError_eq_ok.1 h⟩
  · rename_i i v rest hfound
    split at h
    · cases h
    · rename_i hread
      split at h
      · cases h
        exact .inr ⟨v, by rw [hfound]; rfl, hread⟩
      · cases h

theorem exists_of_field {name : String} {read : Reader α} {absent : Except DecodeError α}
    {members : Members} {a : α} (h : (field name read absent).read members = .ok a) :
    absent = .ok a ∨ ∃ m ∈ members, read m.2 = .ok a := by
  rcases lookup_of_read h with ⟨-, habsent⟩ | ⟨v, hlookup, hread⟩
  · exact .inl habsent
  · exact .inr ⟨(name, v), Table.mem_of_lookup hlookup, hread⟩

/-- Everything in a list that may be missing is read from a part of a member. -/
theorem exists_of_list {name : String} {read : Reader α} {members : Members} {as : List α}
    (h : (orDefault name (Reader.list read) []).read members = .ok as) :
    ∀ a ∈ as, ∃ m ∈ members, ∃ c ∈ m.2.children, read c = .ok a := by
  rcases exists_of_field h with hdefault | ⟨m, hm, h⟩
  · cases hdefault
    simp
  · rcases Reader.read_of_orDefault h with rfl | h
    · simp
    · exact fun a ha => ⟨m, hm, Reader.exists_of_list h a ha⟩

end Fields

namespace Fields.Ensures

variable {read : Reader α} {P : α → Prop}

theorem field {name : String} {absent : Except DecodeError α} (h : read.Ensures P)
    (habsent : ∀ a, absent = .ok a → P a) : (Fields.field name read absent).Ensures P := by
  intro members a ha
  rcases exists_of_field ha with ha | ⟨m, _, ha⟩
  · exact habsent a ha
  · exact h m.2 a ha

theorem required (name : String) (h : read.Ensures P) : (Fields.required name read).Ensures P :=
  field h fun _ ha => nomatch ha

theorem withDefault (name : String) (h : read.Ensures P) {default : α} (hdefault : P default) :
    (Fields.withDefault name read default).Ensures P := by
  apply field h
  intro a ha
  cases ha
  exact hdefault

theorem optional (name : String) (h : read.Ensures P) :
    (Fields.optional name read).Ensures fun o => ∀ a ∈ o, P a :=
  withDefault name h.optional (by simp)

theorem orDefault (name : String) (h : read.Ensures P) {default : α} (hdefault : P default) :
    (Fields.orDefault name read default).Ensures P :=
  withDefault name (h.orDefault hdefault) hdefault

end Fields.Ensures

namespace Record

variable {record : Record α} {source : Source} {v : Json} {a : α}

/-- The members of a record as it is written, also of one that is written as an array. -/
def members (record : Record α) : Json → Members
  | .object members => members
  | .array items => record.fields.names.zip items
  | _ => []

theorem members_congr {record' : Record α} (h : record.fields.names = record'.fields.names)
    (v : Json) : record.members v = record'.members v := by
  cases v with
  | array items => rw [members, members, h]
  | null | bool | int | double | string | object | flawed => rfl

theorem mem_children {m : String × Json} (hm : m ∈ record.members v) : m.2 ∈ v.children := by
  cases v with
  | object members => exact List.mem_map_of_mem hm
  | array items => exact (List.of_mem_zip hm).2
  | null | bool | int | double | string | flawed => cases hm

/-- An array has the fields of a record if it is not longer. -/
theorem readItems_eq_ok {items : List Json} : record.readItems source items = .ok a ↔
    record.fields.read (record.fields.names.zip items) = .ok a ∧
      items.length ≤ record.fields.names.length := by
  simp only [readItems]
  cases hread : record.fields.read (record.fields.names.zip items) with
  | error fault =>
    obtain ⟨i, e⟩ := fault
    dsimp only
    split <;> simp
  | ok b =>
    dsimp only
    split
    · rename_i hlt
      simp [hlt]
    · rename_i hle
      simp [Nat.not_lt.1 hle]

/-- A record is read from its members. -/
theorem read_members (h : record.read source v = .ok a) :
    record.fields.read (record.members v) = .ok a := by
  unfold read at h
  split at h
  · exact mapError_eq_ok.1 h
  · exact (readItems_eq_ok.1 h).1
  · exact (mismatch_ne_ok h).elim

theorem exists_of_read (h : record.read source v = .ok a) :
    ∃ members, record.fields.read members = .ok a ∧ ∀ m ∈ members, m.2 ∈ v.children :=
  ⟨record.members v, read_members h, fun _ => mem_children⟩

end Record

theorem Record.ensures_read (record : Record α) {P : α → Prop} (h : record.fields.Ensures P)
    (source : Source) : (record.read source).Ensures P := by
  intro v a ha
  exact h _ a (read_members ha)

end MeterCheck
