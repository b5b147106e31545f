import MeterCheck.Proofs.Json.Numeral
import MeterCheck.Proofs.Json.Scaling
import MeterCheck.Proofs.Json.Tree

/-!
# What the document of a text holds

* `Within`: numbers that fit, and no more than so many arrays and objects inside each other;
* `State.holds_step`: one token keeps that of all that has been read, level by level;
* `within_of_parse?`: so it holds of every document that is read from a text.
-/

namespace MeterCheck.Json

/-- Integers of 64 bits, finite doubles, and at most `n` arrays and objects inside each other. -/
inductive Within : Nat → Json → Prop where
  | null {n : Nat} : Within n .null
  | bool {n : Nat} (b : Bool) : Within n (.bool b)
  | int {n : Nat} {i : Int} (low : -2 ^ 63 ≤ i) (high : i < 2 ^ 64) : Within n (.int i)
  | double {n : Nat} {x : Binary64} (proper : x.Proper) : Within n (.double x)
  | string {n : Nat} (s : String) : Within n (.string s)
  | array {n : Nat} {items : List Json} (all : ∀ v ∈ items, Within n v) :
    Within (n + 1) (.array items)
  | object {n : Nat} {members : List (String × Json)} (all : ∀ m ∈ members, Within n m.2) :
    Within (n + 1) (.object members)
  | flawed {n : Nat} : Within n .flawed

variable {n m : Nat} {v : Json} {t : Token} {stack : List Frame} {st st' : State}

theorem Within.mono (h : v.Within n) (hle : n ≤ m) : v.Within m := by
  induction h generalizing m with
  | null => exact .null
  | bool b => exact .bool b
  | int low high => exact .int low high
  | double proper => exact .double proper
  | string s => exact .string s
  | array all ih =>
    obtain ⟨m, rfl⟩ := Nat.exists_eq_add_of_le' (le_trans (Nat.succ_pos _) hle)
    exact .array fun v hv => ih v hv (Nat.le_of_succ_le_succ hle)
  | object all ih =>
    obtain ⟨m, rfl⟩ := Nat.exists_eq_add_of_le' (le_trans (Nat.succ_pos _) hle)
    exact .object fun v hv => ih v hv (Nat.le_of_succ_le_succ hle)
  | flawed => exact .flawed

theorem Within.of_mem_children {c : Json} (h : v.Within (n + 1)) (hc : c ∈ v.children) :
    c.Within n := by
  cases h with
  | array all => exact all c hc
  | object all =>
    obtain ⟨m, hm, rfl⟩ := List.mem_map.1 hc
    exact all m hm
  | null | bool | int | double | string | flawed => cases hc

theorem Within.canonical (h : v.Within n) : v.canonical.Within n := by
  induction h with
  | null => exact .null
  | bool b => exact .bool b
  | int low high => exact .int low high
  | double proper => exact .double proper
  | string s => exact .string s
  | array all ih =>
    rw [Json.canonical, canonicalItems_eq_map]
    refine .array fun w hw => ?_
    obtain ⟨v, hv, rfl⟩ := List.mem_map.1 hw
    exact ih v hv
  | object all ih =>
    rw [Json.canonical]
    refine .object fun w hw => ?_
    obtain ⟨m, hm, rfl⟩ := mem_canonicalMembers hw
    exact ih m hm
  | flawed => exact .flawed

/-! ## Words -/

theorem proper_ofNat {s : Nat} (h : s < 2 ^ 64) : (Binary64.ofNat s).Proper := by
  have hmax : 2 ^ 64 < (2 ^ 54 - 1) * 2 ^ 970 := by decide +kernel
  exact (Binary64.rounds_ofNat (Binary64.natCast_lt_overflow (h.trans hmax))).proper

theorem within_toJson (a : Numeral) : a.toJson.Within n := by
  have hs := Numeral.absorb_lt (by decide : 0 < 2 ^ 64) a.whole
  simp only [Numeral.toJson]
  generalize Numeral.absorb 0 a.whole = first at *
  obtain ⟨s, skipped⟩ := first
  dsimp only at hs ⊢
  by_cases hinteger : a.fraction = [] ∧ a.exponent = none ∧ skipped = []
  · rw [if_pos hinteger]
    split
    · exact .int (by omega) (by omega)
    · split
      · exact .double (proper_ofNat hs).neg
      · exact .int (by omega) (by omega)
  · have hs' := Numeral.absorb_lt hs a.fraction
    rw [if_neg hinteger]
    split
    · rename_i x hx
      have hproper := Numeral.proper_of_scaled? hs' hx
      refine .double ?_
      split
      · exact hproper.neg
      · exact hproper
    · exact .flawed

theorem within_of_ofWord? {cs : List Char} (h : ofWord? cs = some v) : v.Within n := by
  unfold ofWord? at h
  split_ifs at h
  · cases h
    exact .null
  · cases h
    exact .bool true
  · cases h
    exact .bool false
  · obtain ⟨a, _, rfl⟩ := Option.map_eq_some_iff.1 h
    exact within_toJson a

/-! ## The machine -/

/-- Everything in the frame holds at most `n` levels. -/
def Frame.Holds (n : Nat) : Frame → Prop
  | .array items => ∀ v ∈ items, v.Within n
  | .object members => ∀ m ∈ members, m.2.Within n
  | .member _ members => ∀ m ∈ members, m.2.Within n

/-- Each frame holds no more levels than its place allows. -/
def StackHolds : List Frame → Prop
  | [] => True
  | frame :: stack => frame.Holds (maxDepth - (stack.length + 1)) ∧ StackHolds stack

def State.Holds : State → Prop
  | .reading _ stack => StackHolds stack
  | .done v => v.Within maxDepth

namespace State

theorem holds_deliver (hv : v.Within (maxDepth - stack.length)) (hstack : StackHolds stack)
    (h : deliver v stack = some st) : st.Holds := by
  unfold deliver at h
  split at h <;> cases h
  · exact hv
  · exact ⟨List.forall_mem_cons.2 ⟨hv, hstack.1⟩, hstack.2⟩
  · exact ⟨List.forall_mem_cons.2 ⟨hv, hstack.1⟩, hstack.2⟩

/-- A container that is nested too deep has no value. -/
theorem holds_deliverContainer (hv : v.Within (maxDepth - (stack.length + 1) + 1))
    (hstack : StackHolds stack) (h : deliverContainer v stack = some st) : st.Holds := by
  unfold deliverContainer at h
  split at h
  · refine holds_deliver ?_ hstack h
    rwa [Nat.sub_add_eq, Nat.sub_add_cancel (by omega)] at hv
  · exact holds_deliver .flawed hstack h

theorem holds_closeArray (hstack : StackHolds stack) (h : closeArray stack = some st) :
    st.Holds := by
  unfold closeArray at h
  split at h
  · refine holds_deliverContainer (.array fun v hv => ?_) hstack.2 h
    exact hstack.1 v (List.mem_reverse.1 hv)
  · cases h

/-- All members have their names, or the object has no value. -/
theorem mapM_named_eq_some_iff {members : List (Option String × Json)}
    {named : List (String × Json)} :
    (members.mapM fun m => m.1.map fun name => (name, m.2)) = some named ↔
      members = named.map fun m => (some m.1, m.2) := by
  induction members generalizing named with
  | nil => cases named <;> simp
  | cons m members ih =>
    obtain ⟨_ | name, v⟩ := m
    · cases named <;> simp
    · simp only [List.mapM_cons, Option.map_some, Option.bind_eq_bind, Option.bind_some,
        Option.bind_eq_some_iff, ih]
      constructor
      · rintro ⟨rest, rfl, h⟩
        cases h
        rfl
      · intro h
        obtain ⟨⟨_, _⟩, rest, rfl, hm, hrest⟩ := List.map_eq_cons_iff.1 h.symm
        cases hm
        exact ⟨rest, hrest.symm, rfl⟩

theorem within_ofNamed {members : List (Option String × Json)}
    (h : ∀ m ∈ members, m.2.Within n) : (ofNamed members).Within (n + 1) := by
  unfold ofNamed
  split
  · rename_i named hnamed
    refine .object fun m hm => ?_
    have hmembers := mapM_named_eq_some_iff.1 hnamed
    rw [hmembers] at h
    exact h _ (List.mem_map_of_mem hm)
  · exact .flawed

theorem holds_closeObject (hstack : StackHolds stack) (h : closeObject stack = some st) :
    st.Holds := by
  unfold closeObject at h
  split at h
  · refine holds_deliverContainer (within_ofNamed fun m hm => ?_) hstack.2 h
    exact hstack.1 m (List.mem_reverse.1 hm)
  · cases h

theorem holds_value (hstack : StackHolds stack) (h : value stack t = some st) : st.Holds := by
  unfold value at h
  split at h
  · obtain ⟨v, hv, h⟩ := Option.bind_eq_some_iff.1 h
    exact holds_deliver (within_of_ofWord? hv) hstack h
  · refine holds_deliver ?_ hstack h
    unfold ofText
    split
    · exact .string _
    · exact .flawed
  · cases h
    exact ⟨by simp [Frame.Holds], hstack⟩
  · cases h
    exact ⟨by simp [Frame.Holds], hstack⟩
  · cases h

theorem holds_name (hstack : StackHolds stack) (h : name stack t = some st) : st.Holds := by
  unfold name at h
  split at h
  · split at h
    · cases h
      exact hstack
    · cases h
  · cases h

/-- **One token.** What has been read so far keeps to the levels of its place. -/
theorem holds_step (hst : st.Holds) (h : step st t = some st') : st'.Holds := by
  unfold step at h
  split at h
  · cases h
  · exact holds_value hst h
  · exact holds_closeArray hst h
  · exact holds_value hst h
  · exact holds_name hst h
  · exact holds_closeObject hst h
  · exact holds_name hst h
  · cases h
    exact hst
  · cases h
  · split at h <;> cases h
    · exact hst
    · exact hst
  · exact holds_closeArray hst h
  · exact holds_closeObject hst h
  · cases h

/-- **All tokens**, by induction on them. -/
theorem holds_run {ts : List Token} (hst : st.Holds) (h : ts.foldlM step st = some st') :
    st'.Holds := by
  induction ts generalizing st with
  | nil =>
    cases h
    exact hst
  | cons t ts ih =>
    rw [List.foldlM_cons] at h
    obtain ⟨next, hnext, h⟩ := Option.bind_eq_some_iff.1 h
    exact ih (holds_step hst hnext) h

end State

/-- **What a text holds.** Its numbers fit, and nothing is nested too deep. -/
theorem within_of_parse? {text : String} (h : parse? text = some v) : v.Within maxDepth := by
  obtain ⟨ts, _, h⟩ := Option.bind_eq_some_iff.1 h
  obtain ⟨st, hst, h⟩ := Option.bind_eq_some_iff.1 h
  have hstart : State.start.Holds := trivial
  have hholds := State.holds_run hstart hst
  cases st with
  | reading next stack => cases h
  | done w =>
    cases h
    exact hholds

end MeterCheck.Json
