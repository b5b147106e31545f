import MeterCheck.Proofs.Decode.Written
import MeterCheck.Proofs.Json.Weight

/-!
# Where what is read comes from

* `Fields.lookup_of_orDefault`: a field is read from the first member of its name, if that is not
  null;
* `Reader.map_of_list`: a list is read item by item, in order;
* `Reader.Sized`, `Fields.Sized`: what is read is smaller than the document that it is read from.
-/

namespace MeterCheck

variable {α β : Type} {read : Reader α} {name : String} {members : Members} {a : α}

/-! ## Fields and lists -/

namespace Fields

theorem lookup_of_orDefault {default : α} (h : (orDefault name read default).read members = .ok a) :
    (members.lookup name = none ∨ members.lookup name = some .null) ∧ a = default ∨
      ∃ v, members.lookup name = some v ∧ v ≠ .null ∧ read v = .ok a := by
  rcases lookup_of_read h with ⟨hnone, hdefault⟩ | ⟨v, hv, hread⟩
  · exact .inl ⟨.inl hnone, (Except.ok.inj hdefault).symm⟩
  · by_cases hnull : v = .null
    · subst hnull
      exact .inl ⟨.inr hv, (Except.ok.inj hread).symm⟩
    · rw [Reader.orDefault_of_ne hnull] at hread
      exact .inr ⟨v, hv, hnull, hread⟩

end Fields

theorem Reader.map_of_list {f : α → β} {g : Json → β} {v : Json} {as : List α}
    (h : Reader.list read v = .ok as) (hitem : ∀ v a, read v = .ok a → f a = g v) :
    as.map f = v.children.map g :=
  map_eq_of_forall₂ ((Reader.forall₂_of_list h).imp fun _ _ => hitem _ _)

/-! ## Sizes -/

theorem Record.weight_lt {record : Record α} {v : Json} {m : String × Json}
    (hm : m ∈ record.members v) : m.2.weight < v.weight :=
  Json.weight_lt_of_mem_children (mem_children hm)

/-- What is read is smaller than the document. -/
def Reader.Sized (size : α → Nat) (read : Reader α) : Prop :=
  ∀ v a, read v = .ok a → size a < v.weight

/-- What is read is no larger than every member may be. -/
def Fields.Sized (size : α → Nat) (fields : Fields α) : Prop :=
  ∀ members a n, fields.read members = .ok a → (∀ m ∈ members, m.2.weight ≤ n) → size a ≤ n

theorem Reader.text_sized : Reader.Sized (fun _ => 0) Reader.text :=
  fun v _ _ => v.weight_pos

theorem Reader.Sized.list {size : α → Nat} (h : read.Sized size) :
    (Reader.list read).Sized fun as => (as.map fun a => size a + 1).sum := by
  intro v as has
  rw [Json.weight_eq]
  refine Nat.lt_succ_of_le ?_
  change (as.map fun a => size a + 1).sum ≤ _
  have hforall := Reader.forall₂_of_list has
  clear has
  generalize v.children = items at hforall ⊢
  induction hforall with
  | nil => exact Nat.le_refl 0
  | cons hread _ ih =>
    rw [List.map_cons, List.sum_cons, Json.totalWeight_cons]
    exact Nat.add_le_add (h _ _ hread) ih

/-- A list that may be missing. -/
theorem Fields.Sized.list {size : α → Nat} (h : read.Sized size) (name : String) :
    (Fields.orDefault name (Reader.list read) []).Sized fun as =>
      (as.map fun a => size a + 1).sum := by
  intro members as n has hn
  rcases exists_of_field has with habsent | ⟨m, hm, hread⟩
  · rw [← Except.ok.inj habsent]
    exact Nat.zero_le n
  · rcases Reader.read_of_orDefault hread with rfl | hread
    · exact Nat.zero_le n
    · exact (h.list m.2 as hread).le.trans (hn m hm)

theorem Fields.Sized.record {record : Record α} {size : α → Nat} (h : record.fields.Sized size)
    (source : Source) : (record.read source).Sized size := by
  intro v a ha
  have hsmall : ∀ m ∈ record.members v, m.2.weight ≤ v.weight - 1 := fun m hm =>
    Nat.le_sub_one_of_lt (Record.weight_lt hm)
  exact Nat.lt_of_le_pred v.weight_pos (h _ a _ (Record.read_members ha) hsmall)

end MeterCheck
