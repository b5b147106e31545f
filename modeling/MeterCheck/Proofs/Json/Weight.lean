import MeterCheck.Proofs.Json.Within

/-!
# A document is no larger than its text

* `weight`: the number of values in a document;
* `State.weight_step`: a token adds at most one value;
* `weight_le_of_parse?`: so a document has at most as many values as its text has characters.
-/

namespace MeterCheck.Json

mutual

/-- The number of values in a document, itself included. -/
def weight : Json → Nat
  | .array items => itemsWeight items + 1
  | .object members => membersWeight members + 1
  | _ => 1

def itemsWeight : List Json → Nat
  | [] => 0
  | v :: rest => v.weight + itemsWeight rest

def membersWeight : List (String × Json) → Nat
  | [] => 0
  | (_, v) :: rest => v.weight + membersWeight rest

end

/-- The number of values in a list of documents. -/
def totalWeight (vs : List Json) : Nat := (vs.map weight).sum

variable {v : Json} {vs : List Json} {t : Token} {ts : List Token} {stack : List Frame}
  {st st' : State}

theorem totalWeight_cons (v : Json) (vs : List Json) :
    totalWeight (v :: vs) = v.weight + totalWeight vs := by
  simp [totalWeight]

theorem totalWeight_perm {ws : List Json} (h : vs.Perm ws) : totalWeight vs = totalWeight ws :=
  (h.map weight).sum_nat

theorem weight_eq (v : Json) : v.weight = totalWeight v.children + 1 := by
  have hitems (items : List Json) : itemsWeight items = totalWeight items := by
    induction items with
    | nil => rfl
    | cons v rest ih => rw [itemsWeight, totalWeight_cons, ih]
  have hmembers (members : List (String × Json)) :
      membersWeight members = totalWeight (members.map Prod.snd) := by
    induction members with
    | nil => rfl
    | cons m rest ih => rw [membersWeight, List.map_cons, totalWeight_cons, ih]
  cases v with
  | array items => rw [weight, hitems]; rfl
  | object members => rw [weight, hmembers]; rfl
  | null | bool | int | double | string | flawed => rfl

theorem weight_pos (v : Json) : 0 < v.weight := by
  rw [weight_eq]
  exact Nat.succ_pos _

theorem weight_le_of_mem (h : v ∈ vs) : v.weight ≤ totalWeight vs :=
  List.single_le_sum (by simp) _ (List.mem_map_of_mem h)

theorem weight_lt_of_mem_children {w : Json} (h : w ∈ v.children) : w.weight < v.weight := by
  rw [weight_eq v]
  exact Nat.lt_succ_of_le (weight_le_of_mem h)

theorem length_le_totalWeight (vs : List Json) : vs.length ≤ totalWeight vs := by
  induction vs with
  | nil => exact Nat.le_refl _
  | cons v vs ih =>
    have hpos := v.weight_pos
    rw [totalWeight_cons, List.length_cons]
    omega

/-! ## Tokens -/

/-- The tokens that have begun and are not complete, but will be if the text ends here. -/
def Mode.pending : Mode → Nat
  | .word _ => 1
  | _ => 0

namespace Mode

theorem start_pending {c : Char} {m : Mode} (h : start c = some (ts, m)) :
    ts.length + m.pending ≤ 1 := by
  unfold start at h
  split_ifs at h
  · cases h
    decide
  · cases h
    decide
  · cases h
    exact Nat.le_refl 1
  · obtain ⟨t, _, h⟩ := Option.map_eq_some_iff.1 h
    cases h
    exact Nat.le_refl 1

/-- A character completes at most one token that it does not begin. -/
theorem step_pending {c : Char} {m m' : Mode} (h : m.step c = some (ts, m')) :
    ts.length + m'.pending ≤ m.pending + 1 := by
  unfold step at h
  split at h
  · exact (start_pending h).trans (Nat.le_add_left 1 _)
  · split at h
    · cases h
      simp [pending]
    · obtain ⟨⟨ts, m⟩, hstart, h⟩ := Option.map_eq_some_iff.1 h
      cases h
      exact Nat.add_right_comm ts.length 1 m'.pending ▸ Nat.succ_le_succ (start_pending hstart)
  · split_ifs at h <;> cases h <;> simp [pending]
  · split_ifs at h
    · cases h
      simp [pending]
    · obtain ⟨c, _, h⟩ := Option.map_eq_some_iff.1 h
      cases h
      simp [pending]
  · obtain ⟨d, _, h⟩ := Option.map_eq_some_iff.1 h
    split at h <;> cases h <;> simp [pending]

end Mode

theorem length_le_of_lexFrom {m : Mode} {cs : List Char} (h : lexFrom m cs = some ts) :
    ts.length ≤ m.pending + cs.length := by
  induction cs generalizing m ts with
  | nil =>
    rw [lexFrom] at h
    unfold Mode.finish at h
    split at h <;> cases h
    · exact Nat.zero_le _
    · exact Nat.le_refl 1
  | cons c cs ih =>
    obtain ⟨⟨first, m'⟩, hstep, h⟩ := Option.bind_eq_some_iff.1 h
    obtain ⟨rest, hrest, h⟩ := Option.bind_eq_some_iff.1 h
    cases h
    have hfirst := Mode.step_pending hstep
    have hlength := ih hrest
    rw [List.length_append, List.length_cons]
    omega

/-! ## The machine -/

/-- The values in a frame, and the container that it will become. -/
def Frame.weight : Frame → Nat
  | .array items => totalWeight items + 1
  | .object members => totalWeight (members.map Prod.snd) + 1
  | .member _ members => totalWeight (members.map Prod.snd) + 1

def stackWeight (stack : List Frame) : Nat := (stack.map Frame.weight).sum

theorem stackWeight_cons (frame : Frame) (stack : List Frame) :
    stackWeight (frame :: stack) = frame.weight + stackWeight stack := by
  simp [stackWeight]

def State.weight : State → Nat
  | .reading _ stack => stackWeight stack
  | .done v => v.weight

theorem Numeral.weight_toJson (a : Numeral) : a.toJson.weight = 1 := by
  simp only [toJson]
  generalize absorb 0 a.whole = first
  obtain ⟨s, skipped⟩ := first
  dsimp only
  split
  · split
    · rfl
    · split <;> rfl
  · split <;> rfl

theorem weight_ofText (s : Option String) : (ofText s).weight = 1 := by
  cases s <;> rfl

theorem weight_ofWord? {cs : List Char} (h : ofWord? cs = some v) : v.weight = 1 := by
  unfold ofWord? at h
  split_ifs at h
  · cases h
    rfl
  · cases h
    rfl
  · cases h
    rfl
  · obtain ⟨a, _, rfl⟩ := Option.map_eq_some_iff.1 h
    exact Numeral.weight_toJson a

namespace State

theorem weight_deliver (h : deliver v stack = some st) :
    st.weight = v.weight + stackWeight stack := by
  unfold deliver at h
  split at h <;> cases h
  · rfl
  · simp only [weight, stackWeight_cons, Frame.weight, totalWeight_cons]
    omega
  · simp only [weight, stackWeight_cons, Frame.weight, List.map_cons, totalWeight_cons]
    omega

theorem weight_deliverContainer (h : deliverContainer v stack = some st) :
    st.weight ≤ v.weight + stackWeight stack := by
  unfold deliverContainer at h
  split at h
  · exact (weight_deliver h).le
  · have hpos := v.weight_pos
    rw [weight_deliver h]
    exact Nat.add_le_add_right hpos _

theorem weight_closeArray (h : closeArray stack = some st) : st.weight ≤ stackWeight stack := by
  unfold closeArray at h
  split at h
  · rename_i items stack
    have hweight : (Json.array items.reverse).weight = totalWeight items + 1 := by
      rw [weight_eq]
      exact congrArg (· + 1) (totalWeight_perm items.reverse_perm)
    rw [stackWeight_cons, Frame.weight, ← hweight]
    exact weight_deliverContainer h
  · cases h

theorem weight_ofNamed_le (members : List (Option String × Json)) :
    (ofNamed members).weight ≤ totalWeight (members.map Prod.snd) + 1 := by
  unfold ofNamed
  split
  · rename_i named hnamed
    rw [mapM_named_eq_some_iff.1 hnamed, weight_eq, List.map_map]
    exact Nat.le_refl _
  · exact Nat.le_add_left 1 _

theorem weight_closeObject (h : closeObject stack = some st) : st.weight ≤ stackWeight stack := by
  unfold closeObject at h
  split at h
  · rename_i members stack
    have hweight : totalWeight (members.reverse.map Prod.snd) =
        totalWeight (members.map Prod.snd) :=
      totalWeight_perm (members.reverse_perm.map _)
    have hnamed := weight_ofNamed_le members.reverse
    have hdeliver := weight_deliverContainer h
    rw [stackWeight_cons, Frame.weight]
    omega
  · cases h

theorem weight_value (h : value stack t = some st) : st.weight ≤ stackWeight stack + 1 := by
  unfold value at h
  split at h
  · obtain ⟨v, hv, h⟩ := Option.bind_eq_some_iff.1 h
    rw [weight_deliver h, weight_ofWord? hv, Nat.add_comm]
  · rw [weight_deliver h, weight_ofText, Nat.add_comm]
  · cases h
    rw [weight, stackWeight_cons, Nat.add_comm]
    exact Nat.le_refl _
  · cases h
    rw [weight, stackWeight_cons, Nat.add_comm]
    exact Nat.le_refl _
  · cases h

theorem weight_name (h : name stack t = some st) : st.weight ≤ stackWeight stack := by
  unfold name at h
  split at h
  · split at h
    · cases h
      exact Nat.le_refl _
    · cases h
  · cases h

/-- **One token.** At most one value is added. -/
theorem weight_step (h : step st t = some st') : st'.weight ≤ st.weight + 1 := by
  unfold step at h
  split at h
  · cases h
  · exact weight_value h
  · exact (weight_closeArray h).trans (Nat.le_succ _)
  · exact weight_value h
  · exact (weight_name h).trans (Nat.le_succ _)
  · exact (weight_closeObject h).trans (Nat.le_succ _)
  · exact (weight_name h).trans (Nat.le_succ _)
  · cases h
    exact Nat.le_succ _
  · cases h
  · split at h <;> cases h
    · exact Nat.le_succ _
    · exact Nat.le_succ _
  · exact (weight_closeArray h).trans (Nat.le_succ _)
  · exact (weight_closeObject h).trans (Nat.le_succ _)
  · cases h

/-- **All tokens**, by induction on them. -/
theorem weight_run (h : ts.foldlM step st = some st') : st'.weight ≤ st.weight + ts.length := by
  induction ts generalizing st with
  | nil =>
    cases h
    exact Nat.le_refl _
  | cons t ts ih =>
    rw [List.foldlM_cons] at h
    obtain ⟨next, hnext, h⟩ := Option.bind_eq_some_iff.1 h
    have hrest := ih h
    have hstep := weight_step hnext
    rw [List.length_cons]
    omega

end State

/-- **What a text holds** has no more values than the text has characters. -/
theorem weight_le_of_parse? {text : String} (h : parse? text = some v) :
    v.weight ≤ text.length := by
  obtain ⟨ts, hts, h⟩ := Option.bind_eq_some_iff.1 h
  obtain ⟨st, hst, h⟩ := Option.bind_eq_some_iff.1 h
  have htokens : ts.length ≤ 0 + text.toList.length := length_le_of_lexFrom hts
  have hweight : st.weight ≤ 0 + ts.length := State.weight_run hst
  rw [String.length_toList] at htokens
  cases st with
  | reading next stack => cases h
  | done w =>
    cases h
    exact (hweight.trans (by omega))

end MeterCheck.Json
