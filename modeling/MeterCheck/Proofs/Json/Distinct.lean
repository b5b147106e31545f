import MeterCheck.Proofs.Json.Tree

/-!
# Documents that repeat no name

* `Json.Distinct`: no object has two members of one name;
* `Json.Plain`: a sound document of that kind;
* `Table.perm_ofList`: a table of such members holds all of them;
* `Json.canonical_canonical`: a canonical document stands for itself.
-/

namespace MeterCheck

namespace Table

variable {α : Type} {name : String} {f : Option α → α} {t : Table α} {pairs : List (String × α)}

/-- A new name adds one entry. -/
theorem perm_upsert (f : Option α → α) (h : name ∉ t.map Prod.fst) :
    (t.upsert name f).Perm ((name, f none) :: t) := by
  induction t with
  | nil => exact .refl _
  | cons e rest ih =>
    obtain ⟨n, a⟩ := e
    simp only [List.map_cons, List.mem_cons, not_or] at h
    rw [upsert]
    split
    · exact .refl _
    · rw [if_neg h.1]
      exact ((ih h.2).cons (n, a)).trans (.swap (name, f none) (n, a) rest)

/-- A last name goes to the end. -/
theorem upsert_eq_append (f : Option α → α) (h : ∀ e ∈ t, e.1 < name) :
    t.upsert name f = t ++ [(name, f none)] := by
  induction t with
  | nil => rfl
  | cons e rest ih =>
    obtain ⟨n, a⟩ := e
    obtain ⟨hn, hrest⟩ := List.forall_mem_cons.1 h
    have hne : name ≠ n := fun heq => String.lt_irrefl n (heq ▸ hn)
    rw [upsert, if_neg (String.lt_asymm hn), if_neg hne, ih hrest, List.cons_append]

theorem perm_ofList (h : (pairs.map Prod.fst).Nodup) : (ofList pairs).Perm pairs := by
  suffices hfold : ∀ t : Table α, ((t ++ pairs).map Prod.fst).Nodup →
      (pairs.foldl (fun t p => t.upsert p.1 fun _ => p.2) t).Perm (t ++ pairs) from
    hfold [] h
  clear h
  induction pairs with
  | nil => simp
  | cons p rest ih =>
    intro t h
    have hmiddle : (t ++ p :: rest).Perm ((p :: t) ++ rest) := List.perm_middle
    have hnodup := (hmiddle.map Prod.fst).nodup h
    have hp : p.1 ∉ t.map Prod.fst := by
      simp only [List.cons_append, List.map_cons, List.map_append, List.nodup_cons,
        List.mem_append, not_or] at hnodup
      exact hnodup.1.1
    have hupsert := (perm_upsert (fun _ => p.2) hp).append_right rest
    rw [List.foldl_cons]
    exact (ih _ ((hupsert.map Prod.fst).symm.nodup hnodup)).trans (hupsert.trans hmiddle.symm)

/-- A table that is in order stays as it is. -/
theorem ofList_of_sorted (h : t.Sorted) : ofList t = t := by
  suffices hfold : ∀ before : Table α, (before ++ t).Sorted →
      t.foldl (fun t p => t.upsert p.1 fun _ => p.2) before = before ++ t from hfold [] h
  clear h
  induction t with
  | nil => simp
  | cons p rest ih =>
    intro before h
    have hbefore : ∀ e ∈ before, e.1 < p.1 := fun e he =>
      (List.pairwise_append.1 h).2.2 e he p List.mem_cons_self
    rw [List.foldl_cons, upsert_eq_append _ hbefore, ih _ (by simpa using h)]
    simp

end Table

namespace Json

/-- No object has two members of one name. -/
inductive Distinct : Json → Prop where
  | null : Distinct .null
  | bool (b : Bool) : Distinct (.bool b)
  | int (n : Int) : Distinct (.int n)
  | double (x : Binary64) : Distinct (.double x)
  | string (s : String) : Distinct (.string s)
  | array {items : List Json} (all : ∀ v ∈ items, Distinct v) : Distinct (.array items)
  | object {members : List (String × Json)} (names : (members.map Prod.fst).Nodup)
      (all : ∀ m ∈ members, Distinct m.2) : Distinct (.object members)
  | flawed : Distinct .flawed

namespace Distinct

@[simp]
theorem array_iff {items : List Json} : (Json.array items).Distinct ↔ ∀ v ∈ items, v.Distinct := by
  constructor
  · intro h
    cases h with
    | array all => exact all
  · exact .array

@[simp]
theorem object_iff {members : List (String × Json)} : (Json.object members).Distinct ↔
    (members.map Prod.fst).Nodup ∧ ∀ m ∈ members, m.2.Distinct := by
  constructor
  · intro h
    cases h with
    | object names all => exact ⟨names, all⟩
  · exact fun h => .object h.1 h.2

attribute [simp] null bool int double string flawed

end Distinct

/-- A sound document that repeats no name. -/
structure Plain (v : Json) : Prop where
  sound : v.sound = true
  distinct : v.Distinct

namespace Plain

theorem of_item {items : List Json} (h : (array items).Plain) {v : Json} (hv : v ∈ items) :
    v.Plain :=
  ⟨(sound_array items).1 h.sound v hv, Distinct.array_iff.1 h.distinct v hv⟩

theorem of_member {members : List (String × Json)} (h : (object members).Plain) {m : String × Json}
    (hm : m ∈ members) : m.2.Plain :=
  ⟨(sound_object members).1 h.sound m hm, (Distinct.object_iff.1 h.distinct).2 m hm⟩

theorem nodup {members : List (String × Json)} (h : (object members).Plain) :
    (members.map Prod.fst).Nodup :=
  (Distinct.object_iff.1 h.distinct).1

end Plain

theorem canonical_array (items : List Json) :
    (array items).canonical = .array (items.map canonical) := by
  rw [canonical, canonicalItems_eq_map]

theorem canonical_object (members : List (String × Json)) : (object members).canonical =
    .object (Table.ofList (members.map fun m => (m.1, m.2.canonical))) := by
  rw [canonical, canonicalMembers_eq_map]

theorem canonical_eq_int {v : Json} {n : Int} : v.canonical = .int n ↔ v = .int n := by
  cases v <;> simp [canonical]

theorem canonical_canonical (v : Json) : v.canonical.canonical = v.canonical := by
  induction v using induct with
  | array items ih =>
    rw [canonical_array, canonical_array, List.map_map]
    exact congrArg array (List.map_congr_left ih)
  | object members ih =>
    have hmap : (Table.ofList (canonicalMembers members)).map (fun m => (m.1, m.2.canonical)) =
        Table.ofList (canonicalMembers members) := by
      refine (List.map_congr_left fun m hm => ?_).trans (List.map_id _)
      obtain ⟨m', hm', rfl⟩ := mem_canonicalMembers hm
      exact congrArg (m'.1, ·) (ih m' hm')
    rw [canonical, canonical_object, hmap, Table.ofList_of_sorted (Table.sorted_ofList _)]
  | null | bool | int | double | string | flawed => rfl

end Json

end MeterCheck
