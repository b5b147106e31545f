import MeterCheck.Shape.Check

/-!
# What the shape check finds

* `Json.HasMeasure`, `Json.HasEvent`: the parts of a score, told by their indices;
* `Json.Violates`, `Json.Omits`: what is wrong with a document and what it does without, each with
  its place;
* `Json.mem_findings`, `Json.nodup_findings`: the check finds all of this, each once;
* `Json.WellShaped`: a document that can be read as a score;
* `ShapeReport.check_complete`: what the report says.
-/

namespace MeterCheck

namespace Json

/-- Measure `i` of a score. -/
def HasMeasure (score : Json) (i : Nat) (m : Json) : Prop :=
  ∃ items, score.member? "measures" = some (.array items) ∧ items[i]? = some m

/-- Event `j` of a voice of measure `i`. -/
def HasEvent (score : Json) (i : Nat) (hand : Hand) (j : Nat) (e : Json) : Prop :=
  ∃ m events, score.HasMeasure i m ∧ m.member? hand.key = some (.array events) ∧
    events[j]? = some e

/-- What keeps a document from being a score. -/
inductive Violates (score : Json) : Finding → Prop where
  | scoreNotObject (kind : score.isObject = false) : Violates score .scoreNotObject
  | missingMeasures (object : score.isObject = true) (measures : score.member? "measures" = none)
      (notes : score.member? "notes" = none) : Violates score .missingMeasures
  | measuresNotArray {v : Json} (has : score.member? "measures" = some v)
      (kind : v.items? = none) : Violates score .measuresNotArray
  | measureNotObject {i : Nat} {m : Json} (has : score.HasMeasure i m)
      (kind : m.isObject = false) : Violates score (.measureNotObject i)
  | voiceNotArray {i : Nat} {hand : Hand} {m v : Json} (has : score.HasMeasure i m)
      (voice : m.member? hand.key = some v) (kind : v.items? = none) :
    Violates score (.voiceNotArray i hand)
  | eventNotObject {i j : Nat} {hand : Hand} {e : Json} (has : score.HasEvent i hand j e)
      (kind : e.isObject = false) : Violates score (.eventNotObject i hand j)

/-- What a document leaves out that a score should have. -/
inductive Omits (score : Json) : Finding → Prop where
  | id {i : Nat} {m : Json} (has : score.HasMeasure i m) (object : m.isObject = true)
      (omits : m.member? "id" = none) : Omits score (.missingId i)
  | field {i j : Nat} {hand : Hand} {e : Json} {field : EventField}
      (has : score.HasEvent i hand j e) (object : e.isObject = true)
      (omits : e.member? field.text = none) : Omits score (.missingField i hand j field)
  | key (object : score.isObject = true) (omits : score.member? "key" = none) :
    Omits score .missingKey
  | tempo (object : score.isObject = true) (omits : score.member? "tempo" = none) :
    Omits score .missingTempo

section

variable {v m e : Json} {f : Finding} {i j : Nat} {hand : Hand}

@[simp]
theorem lacks_eq_true {name : String} : v.lacks name = true ↔ v.member? name = none := by
  rw [lacks, Option.isNone_iff_eq_none]

@[simp]
theorem mem_findingIf {condition : Bool} {g : Finding} :
    f ∈ findingIf condition g ↔ condition = true ∧ f = g := by
  cases condition <;> simp [findingIf]

/-! ## Items -/

/-- The findings in the items of an array; `other` if there is something else in its place. -/
def itemFindings (place : Option Json) (other : Finding) (g : Nat → Json → List Finding) :
    List Finding :=
  place.elim [] fun v => v.items?.elim [other] fun items => (items.mapIdx g).flatten

theorem items?_eq_some {items : List Json} : v.items? = some items ↔ v = .array items := by
  cases v <;> simp [items?]

theorem items?_eq_none : v.items? = none ↔ ∀ items, v ≠ .array items := by
  cases v <;> simp [items?]

theorem mem_itemFindings {place : Option Json} {other : Finding}
    {g : Nat → Json → List Finding} : f ∈ itemFindings place other g ↔
      (∃ v, place = some v ∧ v.items? = none ∧ f = other) ∨
        ∃ items i x, place = some (.array items) ∧ items[i]? = some x ∧ f ∈ g i x := by
  cases place with
  | none => simp [itemFindings]
  | some v =>
    cases hv : v.items? with
    | none => simp [itemFindings, hv, items?_eq_none.1 hv]
    | some items =>
      cases items?_eq_some.1 hv
      simp only [itemFindings, Option.elim, items?, List.mem_flatten, List.mem_mapIdx,
        List.getElem?_eq_some_iff]
      constructor
      · rintro ⟨_, ⟨i, hi, rfl⟩, hf⟩
        exact .inr ⟨items, i, items[i], rfl, ⟨hi, rfl⟩, hf⟩
      · rintro (⟨_, ⟨⟩, ⟨⟩, -⟩ | ⟨_, i, _, ⟨⟩, ⟨hi, rfl⟩, hf⟩)
        exact ⟨_, ⟨i, hi, rfl⟩, hf⟩

/-- What is found in different items is different, if it tells its item. -/
theorem nodup_itemFindings {place : Option Json} {other : Finding}
    {g : Nat → Json → List Finding} (index : Finding → Option Nat)
    (hindex : ∀ i x f, f ∈ g i x → index f = some i) (h : ∀ i x, (g i x).Nodup) :
    (itemFindings place other g).Nodup := by
  cases place with
  | none => simp [itemFindings]
  | some v =>
    cases hv : v.items? with
    | none => simp [itemFindings, hv]
    | some items =>
      simp only [itemFindings, Option.elim, hv]
      refine List.pairwise_flatten.2 ⟨?_, List.pairwise_iff_getElem.2 ?_⟩
      · intro l hl
        obtain ⟨i, hi, rfl⟩ := List.mem_mapIdx.1 hl
        exact h i items[i]
      · intro i j hi hj hlt f hf f' hf' heq
        rw [List.getElem_mapIdx] at hf hf'
        have hsame := (hindex i _ f hf).symm.trans (heq ▸ hindex j _ f' hf')
        exact absurd (Option.some.inj hsame) (Nat.ne_of_lt hlt)

theorem voiceFindings_eq (i : Nat) (m : Json) (hand : Hand) : voiceFindings i m hand =
    itemFindings (m.member? hand.key) (.voiceNotArray i hand) (eventFindings i hand) := by
  unfold voiceFindings itemFindings
  split
  · simp [*]
  · simp [*, items?]
  · rename_i v hnot hv
    simp [hv, items?_eq_none.2 hnot]

theorem measuresFindings_eq (score : Json) : measuresFindings score =
    itemFindings (score.member? "measures") .measuresNotArray measureFindings := by
  unfold measuresFindings itemFindings
  split
  · simp [*]
  · simp [*, items?]
  · rename_i v hnot hv
    simp [hv, items?_eq_none.2 hnot]

/-! ## All findings -/

theorem mem_eventFindings : f ∈ eventFindings i hand j e ↔
    e.isObject = false ∧ f = .eventNotObject i hand j ∨
      e.isObject = true ∧
        ∃ field, e.member? field.text = none ∧ f = .missingField i hand j field := by
  unfold eventFindings
  cases e.isObject with
  | false => simp
  | true =>
    have hboth : ∀ field, field ∈ EventField.both := by
      intro field
      cases field <;> simp [EventField.both]
    simp [hboth]

theorem mem_measureFindings : f ∈ measureFindings i m ↔
    m.isObject = false ∧ f = .measureNotObject i ∨
      m.isObject = true ∧ (m.member? "id" = none ∧ f = .missingId i ∨
        ∃ hand, f ∈ voiceFindings i m hand) := by
  unfold measureFindings
  cases m.isObject with
  | false => simp
  | true =>
    have hboth : ∀ hand, hand ∈ Hand.both := by
      intro hand
      cases hand <;> simp [Hand.both]
    simp [hboth]

theorem isObject_of_member {name : String} {w : Json} (h : v.member? name = some w) :
    v.isObject = true := by
  cases v with
  | object => rfl
  | null | bool | int | double | string | array | flawed => cases h

theorem HasEvent.of_mem (has : v.HasEvent i hand j e) (h : f ∈ eventFindings i hand j e) :
    v.Violates f ∨ v.Omits f := by
  rcases mem_eventFindings.1 h with ⟨hkind, rfl⟩ | ⟨hobject, field, homits, rfl⟩
  · exact .inl (.eventNotObject has hkind)
  · exact .inr (.field has hobject homits)

theorem HasMeasure.of_mem (has : v.HasMeasure i m) (h : f ∈ measureFindings i m) :
    v.Violates f ∨ v.Omits f := by
  rcases mem_measureFindings.1 h with
    ⟨hkind, rfl⟩ | ⟨hobject, ⟨homits, rfl⟩ | ⟨hand, h⟩⟩
  · exact .inl (.measureNotObject has hkind)
  · exact .inr (.id has hobject homits)
  · rw [voiceFindings_eq, mem_itemFindings] at h
    rcases h with ⟨w, hvoice, hkind, rfl⟩ | ⟨events, j, e, hvoice, he, h⟩
    · exact .inl (.voiceNotArray has hvoice hkind)
    · exact HasEvent.of_mem ⟨m, events, has, hvoice, he⟩ h

/-- Everything that is found is there. -/
theorem of_mem_findings (h : f ∈ v.findings) : v.Violates f ∨ v.Omits f := by
  unfold findings at h
  cases hobject : v.isObject with
  | false =>
    simp only [hobject, Bool.false_eq_true, ↓reduceIte, List.mem_singleton] at h
    exact .inl (h ▸ .scoreNotObject hobject)
  | true =>
    simp only [hobject, ↓reduceIte, List.mem_append, mem_findingIf, Bool.and_eq_true,
      lacks_eq_true, measuresFindings_eq, mem_itemFindings] at h
    rcases h with ((⟨⟨hmeasures, hnotes⟩, rfl⟩ | ⟨w, hw, hkind, rfl⟩ | ⟨items, i, m, hw, hm, h⟩) |
      ⟨homits, rfl⟩) | ⟨homits, rfl⟩
    · exact .inl (.missingMeasures hobject hmeasures hnotes)
    · exact .inl (.measuresNotArray hw hkind)
    · exact HasMeasure.of_mem ⟨items, hw, hm⟩ h
    · exact .inr (.key hobject homits)
    · exact .inr (.tempo hobject homits)

theorem mem_findings_of_measures (h : f ∈ measuresFindings v) : f ∈ v.findings := by
  have hobject : v.isObject = true := by
    rw [measuresFindings_eq, mem_itemFindings] at h
    rcases h with ⟨_, hw, -⟩ | ⟨_, _, _, hw, -⟩ <;> exact isObject_of_member hw
  simp [findings, hobject, h]

theorem HasMeasure.mem_findings (has : v.HasMeasure i m) (h : f ∈ measureFindings i m) :
    f ∈ v.findings := by
  obtain ⟨items, hitems, hm⟩ := has
  apply mem_findings_of_measures
  rw [measuresFindings_eq, mem_itemFindings]
  exact .inr ⟨items, i, m, hitems, hm, h⟩

theorem HasMeasure.mem_findings_of_voice (has : v.HasMeasure i m)
    (h : f ∈ voiceFindings i m hand) : f ∈ v.findings := by
  have hobject : m.isObject = true := by
    rw [voiceFindings_eq, mem_itemFindings] at h
    rcases h with ⟨_, hw, -⟩ | ⟨_, _, _, hw, -⟩ <;> exact isObject_of_member hw
  exact has.mem_findings (mem_measureFindings.2 (.inr ⟨hobject, .inr ⟨hand, h⟩⟩))

theorem HasEvent.mem_findings (has : v.HasEvent i hand j e) (h : f ∈ eventFindings i hand j e) :
    f ∈ v.findings := by
  obtain ⟨m, events, hm, hvoice, he⟩ := has
  apply hm.mem_findings_of_voice
  rw [voiceFindings_eq, mem_itemFindings]
  exact .inr ⟨events, j, e, hvoice, he, h⟩

theorem Violates.mem_findings (h : v.Violates f) : f ∈ v.findings := by
  cases h with
  | scoreNotObject kind => simp [findings, kind]
  | missingMeasures object measures notes => simp [findings, object, measures, notes]
  | measuresNotArray has kind =>
    apply mem_findings_of_measures
    rw [measuresFindings_eq, mem_itemFindings]
    exact .inl ⟨_, has, kind, rfl⟩
  | measureNotObject has kind => exact has.mem_findings (mem_measureFindings.2 (.inl ⟨kind, rfl⟩))
  | voiceNotArray has voice kind =>
    apply has.mem_findings_of_voice
    rw [voiceFindings_eq, mem_itemFindings]
    exact .inl ⟨_, voice, kind, rfl⟩
  | eventNotObject has kind => exact has.mem_findings (mem_eventFindings.2 (.inl ⟨kind, rfl⟩))

theorem Omits.mem_findings (h : v.Omits f) : f ∈ v.findings := by
  cases h with
  | id has object omits =>
    exact has.mem_findings (mem_measureFindings.2 (.inr ⟨object, .inl ⟨omits, rfl⟩⟩))
  | field has object omits =>
    exact has.mem_findings (mem_eventFindings.2 (.inr ⟨object, _, omits, rfl⟩))
  | key object omits => simp [findings, object, omits]
  | tempo object omits => simp [findings, object, omits]

theorem Violates.severity_eq (h : v.Violates f) : f.severity = .error := by
  cases h <;> rfl

theorem Omits.severity_eq (h : v.Omits f) : f.severity = .warning := by
  cases h <;> rfl

theorem violates_iff : v.Violates f ↔ f ∈ v.findings ∧ f.severity = .error := by
  constructor
  · exact fun h => ⟨h.mem_findings, h.severity_eq⟩
  · rintro ⟨hf, hseverity⟩
    refine (of_mem_findings hf).resolve_right fun h => ?_
    cases hseverity.symm.trans h.severity_eq

theorem omits_iff : v.Omits f ↔ f ∈ v.findings ∧ f.severity = .warning := by
  constructor
  · exact fun h => ⟨h.mem_findings, h.severity_eq⟩
  · rintro ⟨hf, hseverity⟩
    refine (of_mem_findings hf).resolve_left fun h => ?_
    cases hseverity.symm.trans h.severity_eq

/-! ## Each once -/

theorem nodup_findingIf (condition : Bool) (g : Finding) : (findingIf condition g).Nodup := by
  cases condition <;> simp [findingIf]

theorem nodup_eventFindings (i : Nat) (hand : Hand) (j : Nat) (e : Json) :
    (eventFindings i hand j e).Nodup := by
  unfold eventFindings
  split
  · simp only [EventField.both, List.flatMap_cons, List.flatMap_nil, List.append_nil]
    refine List.nodup_append.2 ⟨nodup_findingIf _ _, nodup_findingIf _ _, ?_⟩
    simp
  · simp

end

end Json

/-- The measure that a finding is about. -/
def Finding.measure? : Finding → Option Nat
  | measureNotObject i => some i
  | missingId i => some i
  | voiceNotArray i _ => some i
  | eventNotObject i _ _ => some i
  | missingField i _ _ _ => some i
  | _ => none

/-- The hand that a finding is about. -/
def Finding.hand? : Finding → Option Hand
  | voiceNotArray _ hand => some hand
  | eventNotObject _ hand _ => some hand
  | missingField _ hand _ _ => some hand
  | _ => none

/-- The event that a finding is about. -/
def Finding.event? : Finding → Option Nat
  | eventNotObject _ _ j => some j
  | missingField _ _ j _ => some j
  | _ => none

namespace Json

section

variable {v m e : Json} {f : Finding} {i j : Nat} {hand : Hand}

theorem place_of_mem_eventFindings (h : f ∈ eventFindings i hand j e) :
    f.measure? = some i ∧ f.hand? = some hand ∧ f.event? = some j := by
  rcases mem_eventFindings.1 h with ⟨-, rfl⟩ | ⟨-, _, -, rfl⟩ <;> exact ⟨rfl, rfl, rfl⟩

theorem place_of_mem_voiceFindings (h : f ∈ voiceFindings i m hand) :
    f.measure? = some i ∧ f.hand? = some hand := by
  rw [voiceFindings_eq, mem_itemFindings] at h
  rcases h with ⟨_, -, -, rfl⟩ | ⟨_, _, _, -, -, h⟩
  · exact ⟨rfl, rfl⟩
  · obtain ⟨hmeasure, hhand, -⟩ := place_of_mem_eventFindings h
    exact ⟨hmeasure, hhand⟩

theorem measure?_of_mem_measureFindings (h : f ∈ measureFindings i m) : f.measure? = some i := by
  rcases mem_measureFindings.1 h with ⟨-, rfl⟩ | ⟨-, ⟨-, rfl⟩ | ⟨hand, h⟩⟩
  · rfl
  · rfl
  · exact (place_of_mem_voiceFindings h).1

theorem nodup_voiceFindings (i : Nat) (m : Json) (hand : Hand) :
    (voiceFindings i m hand).Nodup := by
  rw [voiceFindings_eq]
  exact nodup_itemFindings Finding.event? (fun _ _ _ h => (place_of_mem_eventFindings h).2.2)
    (nodup_eventFindings i hand)

theorem nodup_measureFindings (i : Nat) (m : Json) : (measureFindings i m).Nodup := by
  unfold measureFindings
  split
  · simp only [Hand.both, List.flatMap_cons, List.flatMap_nil, List.append_nil]
    refine List.nodup_append.2 ⟨nodup_findingIf _ _, List.nodup_append.2
      ⟨nodup_voiceFindings i m .right, nodup_voiceFindings i m .left, ?_⟩, ?_⟩
    · rintro f hright _ hleft rfl
      cases (place_of_mem_voiceFindings hright).2.symm.trans (place_of_mem_voiceFindings hleft).2
    · rintro f hid _ hvoices rfl
      obtain rfl := (mem_findingIf.1 hid).2
      rcases List.mem_append.1 hvoices with h | h <;> cases (place_of_mem_voiceFindings h).2
  · simp

theorem nodup_findings (v : Json) : v.findings.Nodup := by
  have hmeasures : (measuresFindings v).Nodup := by
    rw [measuresFindings_eq]
    exact nodup_itemFindings Finding.measure? (fun _ _ _ => measure?_of_mem_measureFindings)
      nodup_measureFindings
  have hplace : ∀ f ∈ measuresFindings v, f = .measuresNotArray ∨ ∃ i, f.measure? = some i := by
    intro f hf
    rw [measuresFindings_eq, mem_itemFindings] at hf
    rcases hf with ⟨_, -, -, rfl⟩ | ⟨_, i, _, -, -, hf⟩
    · exact .inl rfl
    · exact .inr ⟨i, measure?_of_mem_measureFindings hf⟩
  have hother {g : Finding} {condition : Bool} (hg : g ≠ .measuresNotArray)
      (hnone : g.measure? = none) :
      ∀ f ∈ measuresFindings v, ∀ f' ∈ findingIf condition g, f ≠ f' := by
    rintro f hf f' hf' rfl
    obtain rfl := (mem_findingIf.1 hf').2
    rcases hplace f hf with rfl | ⟨i, hi⟩
    · exact hg rfl
    · cases hnone.symm.trans hi
  unfold findings
  split
  · simp only [List.nodup_append, List.mem_append]
    refine ⟨⟨⟨nodup_findingIf _ _, hmeasures, ?_⟩, nodup_findingIf _ _, ?_⟩,
      nodup_findingIf _ _, ?_⟩
    · exact fun f hf f' hf' heq => hother (by simp) rfl f' hf' f hf heq.symm
    · rintro f (hf | hf) f' hf'
      · rw [(mem_findingIf.1 hf).2, (mem_findingIf.1 hf').2]
        simp
      · exact hother (by simp) rfl f hf f' hf'
    · rintro f ((hf | hf) | hf) f' hf'
      · rw [(mem_findingIf.1 hf).2, (mem_findingIf.1 hf').2]
        simp
      · exact hother (by simp) rfl f hf f' hf'
      · rw [(mem_findingIf.1 hf).2, (mem_findingIf.1 hf').2]
        simp
  · simp

end

/-! ## Documents of the right shape -/

/-- Each voice that the measure has is a list of objects. -/
structure MeasureShaped (m : Json) : Prop where
  object : m.isObject = true
  voices : ∀ (hand : Hand) v, m.member? hand.key = some v →
    ∃ events, v = .array events ∧ ∀ e ∈ events, e.isObject = true

/-- An object that has measures or notes, where the measures are a list of measures. -/
structure WellShaped (score : Json) : Prop where
  object : score.isObject = true
  present : score.member? "measures" ≠ none ∨ score.member? "notes" ≠ none
  measures : ∀ v, score.member? "measures" = some v →
    ∃ items, v = .array items ∧ ∀ m ∈ items, m.MeasureShaped

theorem exists_items {v : Json} (h : v.items? ≠ none) : ∃ items, v = .array items := by
  obtain ⟨items, hitems⟩ := Option.ne_none_iff_exists'.1 h
  exact ⟨items, items?_eq_some.1 hitems⟩

theorem wellShaped_iff {v : Json} : v.WellShaped ↔ ∀ f, ¬ v.Violates f := by
  constructor
  · rintro ⟨hobject, hpresent, hmeasures⟩ f h
    have hshaped {i : Nat} {m : Json} (has : v.HasMeasure i m) : m.MeasureShaped := by
      obtain ⟨items, hitems, hm⟩ := has
      obtain ⟨_, ⟨⟩, hall⟩ := hmeasures _ hitems
      exact hall m (List.mem_of_getElem? hm)
    cases h with
    | scoreNotObject kind => cases hobject.symm.trans kind
    | missingMeasures object measures notes => exact hpresent.elim (· measures) (· notes)
    | measuresNotArray has kind =>
      obtain ⟨items, rfl, -⟩ := hmeasures _ has
      cases kind
    | measureNotObject has kind => cases (hshaped has).object.symm.trans kind
    | voiceNotArray has voice kind =>
      obtain ⟨events, rfl, -⟩ := (hshaped has).voices _ _ voice
      cases kind
    | eventNotObject has kind =>
      obtain ⟨m, events, has, hvoice, he⟩ := has
      obtain ⟨_, ⟨⟩, hall⟩ := (hshaped has).voices _ _ hvoice
      cases (hall _ (List.mem_of_getElem? he)).symm.trans kind
  · intro h
    have hobject : v.isObject = true :=
      Bool.of_not_eq_false fun hkind => h _ (.scoreNotObject hkind)
    refine ⟨hobject, ?_, fun w hw => ?_⟩
    · by_cases hmeasures : v.member? "measures" = none
      · exact .inr fun hnotes => h _ (.missingMeasures hobject hmeasures hnotes)
      · exact .inl hmeasures
    · obtain ⟨items, rfl⟩ := exists_items fun hkind => h _ (.measuresNotArray hw hkind)
      refine ⟨items, rfl, fun m hm => ?_⟩
      obtain ⟨i, hi⟩ := List.mem_iff_getElem?.1 hm
      have has : v.HasMeasure i m := ⟨items, hw, hi⟩
      refine ⟨Bool.of_not_eq_false fun hkind => h _ (.measureNotObject has hkind), ?_⟩
      intro hand voice hvoice
      obtain ⟨events, rfl⟩ := exists_items fun hkind => h _ (.voiceNotArray has hvoice hkind)
      refine ⟨events, rfl, fun e he => ?_⟩
      obtain ⟨j, hj⟩ := List.mem_iff_getElem?.1 he
      exact Bool.of_not_eq_false fun hkind =>
        h _ (.eventNotObject ⟨m, events, has, hvoice, hj⟩ hkind)

end Json

namespace ShapeReport

variable {v : Json}

theorem value_check (v : Json) : (check v).value = ofValue v := by
  simp only [check]
  split <;> rfl

theorem valid_ofValue : (ofValue v).valid = true ↔ v.WellShaped := by
  rw [Json.wellShaped_iff]
  simp only [ofValue, build, Diagnostics.hasErrors, Json.violates_iff]
  simp [Finding.mark]

/--
**The shape check is sound and complete.** A document is valid exactly if it has the shape of a
score. There is one mark for each thing that is wrong with it or that it leaves out, and no other:
an error for what keeps it from being a score, and a warning for what it leaves out. The messages
are those of the marks, in their order.
-/
theorem check_complete (v : Json) :
    let r := (check v).value
    (r.valid = true ↔ v.WellShaped) ∧
    (r.marks = v.findings.map Finding.mark ∧ v.findings.Nodup ∧
      (∀ f, v.Violates f ↔ f ∈ v.findings ∧ f.mark.severity = .error) ∧
      ∀ f, v.Omits f ↔ f ∈ v.findings ∧ f.mark.severity = .warning) ∧
    r.errors = (r.marks.filter (·.severity = .error)).map Mark.message ∧
    r.warnings = (r.marks.filter (·.severity = .warning)).map Mark.message ∧
    r.toJson.member? "status" = some (.string (if r.valid then "success" else "error")) ∧
    (∀ items, v.member? "measures" = some (.array items) → r.measureCount = items.length) ∧
    ((∀ items, v.member? "measures" ≠ some (.array items)) → r.measureCount = 0) := by
  intro r
  have hr : r = ofValue v := value_check v
  refine ⟨hr ▸ valid_ofValue, ⟨hr ▸ rfl, Json.nodup_findings v, fun _ => Json.violates_iff,
    fun _ => Json.omits_iff⟩, hr ▸ rfl, hr ▸ rfl, rfl, fun items hitems => ?_, fun hnone => ?_⟩
  · simp [hr, ofValue, build, hitems, Json.items?]
  · cases hplace : v.member? "measures" with
    | none => simp [hr, ofValue, build, hplace]
    | some w =>
      have hitems : w.items? = none := Json.items?_eq_none.2 fun items h => hnone items (h ▸ hplace)
      simp [hr, ofValue, build, hplace, hitems]

/-- A measure that is no object, then one with a text for a voice and two faulty events. -/
example : (Json.object [("measures", .array [.string "oops", .object
    [("right_hand", .string "C4 quarter"),
     ("left_hand", .array [.object [("notes", .array [])], .int 5])]])]).findings =
    [.measureNotObject 0, .missingId 1, .voiceNotArray 1 .right,
     .missingField 1 .left 0 .duration, .eventNotObject 1 .left 1, .missingKey, .missingTempo] := by
  decide

end ShapeReport

end MeterCheck
