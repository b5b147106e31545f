import MeterCheck.Proofs.Json.Sendable
import MeterCheck.Proofs.Report.Quiet
import MeterCheck.Proofs.Shape.Findings

/-!
# Shape reports that can be sent

* `Mark.sendable`: a mark can be sent;
* `ShapeReport.measureCount_lt`: a document has more parts than measures are counted in it;
* `ShapeReport.sendable`: so the report on its shape can be sent.
-/

namespace MeterCheck

theorem Mark.sendable (m : Mark) (n : Nat) : m.toJson.Sendable (n + 1) := by
  refine .object (by simp) ?_
  simp only [List.forall_mem_cons]
  exact ⟨.string _, .string _, .string _, .string _, by simp⟩

theorem Json.length_lt_of_canonical {v : Json} {items : List Json}
    (h : v.canonical = .array items) : items.length < v.weight := by
  cases v with
  | array items' =>
    rw [canonical_array, array.injEq] at h
    rw [← h, List.length_map, weight_eq]
    exact Nat.lt_succ_of_le (length_le_totalWeight items')
  | null | bool | int | double | string | object | flawed => cases h

namespace ShapeReport

theorem measureCount_lt (v : Json) :
    (ofValue v.canonical).measureCount < v.weight := by
  change (((v.canonical.member? "measures").bind Json.items?).getD []).length < _
  cases hitems : (v.canonical.member? "measures").bind Json.items? with
  | none => exact v.weight_pos
  | some items =>
    obtain ⟨w, hw, harray⟩ := Option.bind_eq_some_iff.1 hitems
    cases v with
    | object members =>
      obtain ⟨m, hm, heq⟩ := Json.mem_canonicalMembers (Table.mem_of_lookup hw)
      have hlt : m.2.weight < (Json.object members).weight :=
        Json.weight_lt_of_mem_children (List.mem_map_of_mem hm)
      rw [Json.items?_eq_some, (Prod.mk.inj heq).2] at harray
      exact (Json.length_lt_of_canonical harray).trans hlt
    | null | bool | int | double | string | array | flawed => cases hw

theorem sendable {r : ShapeReport} (h : r.measureCount < 2 ^ 64) :
    r.toJson.Sendable 3 := by
  refine .object (by simp) ?_
  simp only [List.forall_mem_cons]
  exact ⟨.string _, .bool _, .array_map fun _ _ => .string _, .array_map fun _ _ => .string _,
    .ofNat h, .bool _, .bool _, .array_map fun mark _ => mark.sendable 0, by simp⟩

theorem exists_status (r : ShapeReport) : ∃ status ∈ ["success", "error"],
    r.toJson.reread.member? "status" = some (.string status) := by
  refine ⟨if r.valid then "success" else "error", ?_, ?_⟩
  · split <;> simp
  · rw [toJson, Json.reread_object]
    rfl

theorem quiet_check (v : Json) : (check v).Quiet := by
  intro message
  simp only [check]
  split
  · simp [Logged.tell]
  · simp

end ShapeReport

end MeterCheck
