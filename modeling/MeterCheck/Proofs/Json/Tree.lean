import MeterCheck.Json.Printer

/-!
# Induction over documents

* `Json.induct`: a property of all documents, with one hypothesis for the items of an array and one
  for the members of an object;
* the functions on documents, as maps over items and members.
-/

namespace MeterCheck

namespace Json

/-- What holds of a container if it holds of its parts holds of every document. -/
@[elab_as_elim]
theorem induct {P : Json → Prop} (null : P .null) (bool : ∀ b, P (.bool b)) (int : ∀ n, P (.int n))
    (double : ∀ x, P (.double x)) (string : ∀ s, P (.string s))
    (array : ∀ items, (∀ v ∈ items, P v) → P (.array items))
    (object : ∀ members, (∀ m ∈ members, P m.2) → P (.object members))
    (flawed : P .flawed) (v : Json) : P v :=
  @Json.rec P (fun items => ∀ v ∈ items, P v) (fun members => ∀ m ∈ members, P m.2)
    (fun m => P m.2) null bool int double string array object flawed (by simp)
    (fun _ _ hv hrest => List.forall_mem_cons.2 ⟨hv, hrest⟩) (by simp)
    (fun _ _ hm hrest => List.forall_mem_cons.2 ⟨hm, hrest⟩) (fun _ _ hv => hv) v

/-- The items of an array, or the values of the members of an object. -/
def children : Json → List Json
  | .array items => items
  | .object members => members.map Prod.snd
  | _ => []

/-! ## Written forms -/

theorem itemTokens_eq_map (items : List Json) : itemTokens items = items.map tokens := by
  induction items with
  | nil => rfl
  | cons v rest ih => rw [itemTokens, ih, List.map_cons]

theorem memberTokens_eq_map (members : List (String × Json)) :
    memberTokens members =
      members.map fun m => .string (some m.1) :: .colon :: m.2.tokens := by
  induction members with
  | nil => rfl
  | cons m rest ih => rw [memberTokens, ih, List.map_cons]

theorem tokens_array (items : List Json) :
    (array items).tokens =
      .openArray :: [.comma].intercalate (items.map tokens) ++ [.closeArray] := by
  rw [tokens, itemTokens_eq_map]

theorem tokens_object (members : List (String × Json)) :
    (object members).tokens =
      .openObject :: [.comma].intercalate
        (members.map fun m => .string (some m.1) :: .colon :: m.2.tokens) ++ [.closeObject] := by
  rw [tokens, memberTokens_eq_map]

theorem toList_text_of_word {v : Json} {cs : List Char} (h : v.tokens = [.word cs]) :
    v.text.toList = cs := by
  simp [text, h, Token.chars]

/-! ## Sound documents -/

@[simp]
theorem sound_array (items : List Json) :
    (array items).sound = true ↔ ∀ v ∈ items, v.sound = true := by
  rw [sound]
  induction items with
  | nil => simp [soundItems]
  | cons v rest ih => simp [soundItems, ih]

@[simp]
theorem sound_object (members : List (String × Json)) :
    (object members).sound = true ↔ ∀ m ∈ members, m.2.sound = true := by
  rw [sound]
  induction members with
  | nil => simp [soundMembers]
  | cons m rest ih => simp [soundMembers, ih]

/-! ## Canonical documents -/

theorem canonicalItems_eq_map (items : List Json) : canonicalItems items = items.map canonical := by
  induction items with
  | nil => rfl
  | cons v rest ih => rw [canonicalItems, ih, List.map_cons]

theorem canonicalMembers_eq_map (members : List (String × Json)) :
    canonicalMembers members = members.map fun m => (m.1, m.2.canonical) := by
  induction members with
  | nil => rfl
  | cons m rest ih => rw [canonicalMembers, ih, List.map_cons]

/-- Every member of a canonical object is the canonical form of one that was written. -/
theorem mem_canonicalMembers {members : List (String × Json)} {m : String × Json}
    (h : m ∈ Table.ofList (canonicalMembers members)) :
    ∃ m' ∈ members, m = (m'.1, m'.2.canonical) := by
  have hmem := Table.mem_of_mem_ofList h
  rw [canonicalMembers_eq_map] at hmem
  obtain ⟨m', hm', rfl⟩ := List.mem_map.1 hmem
  exact ⟨m', hm', rfl⟩

theorem canonical_ne_null {v : Json} (h : v ≠ .null) : v.canonical ≠ .null := by
  cases v <;> simp_all [canonical]

theorem sound_canonical {v : Json} (h : v.sound = true) : v.canonical.sound = true := by
  induction v using induct with
  | array items ih =>
    rw [canonical, canonicalItems_eq_map, sound_array]
    rw [sound_array] at h
    intro w hw
    obtain ⟨v, hv, rfl⟩ := List.mem_map.1 hw
    exact ih v hv (h v hv)
  | object members ih =>
    rw [canonical, sound_object]
    rw [sound_object] at h
    intro w hw
    obtain ⟨m, hm, rfl⟩ := mem_canonicalMembers hw
    exact ih m hm (h m hm)
  | null | bool | int | double | string | flawed => exact h

end Json

end MeterCheck
