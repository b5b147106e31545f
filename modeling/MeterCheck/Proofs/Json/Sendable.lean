import MeterCheck.Proofs.Decode.Written
import MeterCheck.Proofs.Json.Distinct
import MeterCheck.Proofs.Json.Weight

/-!
# Documents that can be sent

* `Sendable`: a document that fits and repeats no name. One lemma for each way of putting such
  documents together;
* `Sendable.parse?_text`: who reads the written form finds such a document again.
-/

namespace MeterCheck.Json

/-- Fits into `n` levels and repeats no name. -/
structure Sendable (n : Nat) (v : Json) : Prop where
  within : v.Within n
  distinct : v.Distinct

variable {n m : Nat} {v : Json}

theorem distinct_of_ofWord? {cs : List Char} (h : ofWord? cs = some v) : v.Distinct := by
  have hweight := weight_ofWord? h
  rw [weight_eq] at hweight
  have hlength := length_le_totalWeight v.children
  have hnone : v.children = [] := List.eq_nil_of_length_eq_zero (by omega)
  cases v with
  | array items => exact .array (by simp [show items = [] from hnone])
  | object members => simp [List.map_eq_nil_iff.1 hnone]
  | null | bool | int | double | string | flawed => simp

theorem Distinct.reread (h : v.Distinct) : v.reread.Distinct := by
  induction h with
  | double x =>
    rw [Json.reread]
    cases hword : ofWord? x.text with
    | none => exact .flawed
    | some w => exact distinct_of_ofWord? hword
  | array all ih =>
    rw [reread_array]
    refine .array fun w hw => ?_
    obtain ⟨v, hv, rfl⟩ := List.mem_map.1 hw
    exact ih v hv
  | object names all ih =>
    rw [reread_object]
    refine .object ?_ fun w hw => ?_
    · rw [List.map_map]
      exact names
    · obtain ⟨m, hm, rfl⟩ := List.mem_map.1 hw
      exact ih m hm
  | null | flawed => exact .null
  | bool b => exact .bool b
  | int i => exact .int i
  | string s => exact .string s

namespace Sendable

theorem mono (h : v.Sendable n) (hle : n ≤ m) : v.Sendable m := ⟨h.within.mono hle, h.distinct⟩

theorem bool (b : Bool) : (Json.bool b).Sendable n := ⟨.bool b, .bool b⟩

theorem string (s : String) : (Json.string s).Sendable n := ⟨.string s, .string s⟩

theorem ofNat {k : Nat} (h : k < 2 ^ 64) : (Json.ofNat k).Sendable n :=
  ⟨.int (by omega) (by omega), .int k⟩

theorem double {x : Binary64} (h : x.Proper) : (Json.double x).Sendable n := ⟨.double h, .double x⟩

theorem object {members : List (String × Json)} (names : (members.map Prod.fst).Nodup)
    (all : ∀ m ∈ members, m.2.Sendable n) : (Json.object members).Sendable (n + 1) :=
  ⟨.object fun m hm => (all m hm).within, .object names fun m hm => (all m hm).distinct⟩

theorem array_map {α : Type} {f : α → Json} {as : List α} (h : ∀ a ∈ as, (f a).Sendable n) :
    (array (as.map f)).Sendable (n + 1) := by
  refine ⟨within_array_map fun a ha => (h a ha).within, .array fun v hv => ?_⟩
  obtain ⟨a, ha, rfl⟩ := List.mem_map.1 hv
  exact (h a ha).distinct

theorem ofMembers {ms : List (String × Option Json)} (names : (ms.map Prod.fst).Nodup)
    (h : ∀ m ∈ ms, ∀ v ∈ m.2, v.Sendable n) : (ofMembers ms).Sendable (n + 1) :=
  object (names.sublist (map_fst_present_sublist ms)) fun m hm =>
    h _ (exists_of_mem_present hm) m.2 rfl

/-- **What is sent is received.** -/
theorem parse?_text (h : v.Sendable maxDepth) :
    parse? v.text = some v.reread ∧ v.reread.Plain :=
  ⟨Json.parse?_text h.within, h.within.sound_reread, h.distinct.reread⟩

end Sendable

end MeterCheck.Json
