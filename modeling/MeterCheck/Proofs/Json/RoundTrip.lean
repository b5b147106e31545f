import MeterCheck.Proofs.Json.Decimal
import MeterCheck.Proofs.Json.Lexing
import MeterCheck.Proofs.Json.Within

/-!
# A written document is read again

* `reread`: what comes back. A double may come back as another one, and nothing else changes;
* `Delivers`: tokens that are read as a value wherever a value may stand;
* `parse?_text`: the written form of a document that fits is read, as what comes back.
-/

namespace MeterCheck.Json

mutual

/-- The document that is read from the written form. -/
def reread : Json → Json
  | .double x => (ofWord? x.text).getD .flawed
  | .array items => .array (rereadItems items)
  | .object members => .object (rereadMembers members)
  | .flawed => .null
  | v => v

def rereadItems : List Json → List Json
  | [] => []
  | v :: rest => v.reread :: rereadItems rest

def rereadMembers : List (String × Json) → List (String × Json)
  | [] => []
  | (name, v) :: rest => (name, v.reread) :: rereadMembers rest

end

theorem rereadItems_eq_map (items : List Json) : rereadItems items = items.map reread := by
  induction items with
  | nil => rfl
  | cons v rest ih => rw [rereadItems, ih, List.map_cons]

theorem rereadMembers_eq_map (members : List (String × Json)) :
    rereadMembers members = members.map fun m => (m.1, m.2.reread) := by
  induction members with
  | nil => rfl
  | cons m rest ih => rw [rereadMembers, ih, List.map_cons]

theorem reread_array (items : List Json) : (array items).reread = .array (items.map reread) := by
  rw [reread, rereadItems_eq_map]

theorem reread_object (members : List (String × Json)) :
    (object members).reread = .object (members.map fun m => (m.1, m.2.reread)) := by
  rw [reread, rereadMembers_eq_map]

variable {n : Nat} {v : Json} {ts : List Token} {t : Token} {stack : List Frame}

/-- No part of what comes back is flawed. -/
theorem Within.sound_reread (h : v.Within n) : v.reread.sound = true := by
  induction h with
  | double proper =>
    obtain ⟨y, hy⟩ := exists_ofWord?_text proper
    rw [reread, hy]
    rfl
  | array all ih =>
    rw [reread_array, sound_array]
    intro w hw
    obtain ⟨v, hv, rfl⟩ := List.mem_map.1 hw
    exact ih v hv
  | object all ih =>
    rw [reread_object, sound_object]
    intro w hw
    obtain ⟨m, hm, rfl⟩ := List.mem_map.1 hw
    exact ih m hm
  | null | bool | int | string | flawed => rfl

/-- What is sound and not null does not become null. -/
theorem Within.reread_ne_null (h : v.Within n) (hsound : v.sound = true) (hnull : v ≠ .null) :
    v.reread ≠ .null := by
  cases h with
  | null => exact absurd rfl hnull
  | double proper =>
    obtain ⟨y, hy⟩ := exists_ofWord?_text proper
    rw [reread, hy]
    simp
  | array all => simp [reread_array]
  | object all => simp [reread_object]
  | bool | int | string => simp [reread]
  | flawed => cases hsound

/-! ## Runs of the machine -/

namespace State

/-- The state after some tokens. -/
def run (st : State) (ts : List Token) : Option State := ts.foldlM step st

theorem run_cons {st st' : State} (h : step st t = some st') (ts : List Token) :
    run st (t :: ts) = run st' ts := by
  rw [run, List.foldlM_cons, h]
  rfl

theorem run_singleton (st : State) (t : Token) : run st [t] = step st t := by
  rw [run, List.foldlM_cons]
  cases step st t <;> rfl

theorem run_append (st : State) (ts ts' : List Token) :
    run st (ts ++ ts') = (run st ts).bind fun st' => run st' ts' :=
  List.foldlM_append

end State

open State

/-- The tokens are read as the value inside any arrays and objects that leave `n` levels. -/
def Delivers (n : Nat) (ts : List Token) (v : Json) : Prop :=
  ∀ stack : List Frame, stack.length + n ≤ maxDepth →
    run (.reading .value stack) ts = deliver v stack

theorem delivers_word {cs : List Char} (h : ofWord? cs = some v) : Delivers n [.word cs] v := by
  intro stack _
  rw [run_singleton, step, value, h]
  rfl

/-- The first token of a document ends no array. -/
theorem exists_tokens_eq_cons (v : Json) : ∃ t ts, v.tokens = t :: ts ∧ t ≠ .closeArray := by
  cases v with
  | bool b => cases b <;> exact ⟨_, _, rfl, by simp⟩
  | null | int | double | string | array | object | flawed => exact ⟨_, _, rfl, by simp⟩

/-- The first item may stand where the array may end. -/
theorem run_firstItem (v : Json) (stack : List Frame) (ts : List Token) :
    run (.reading .firstItem stack) (v.tokens ++ ts) =
      run (.reading .value stack) (v.tokens ++ ts) := by
  obtain ⟨t, rest, hv, ht⟩ := exists_tokens_eq_cons v
  have hstep : step (.reading .firstItem stack) t = step (.reading .value stack) t := by
    cases t with
    | closeArray => exact absurd rfl ht
    | openArray | openObject | closeObject | colon | comma | word | string => rfl
  rw [hv, List.cons_append, run, run, List.foldlM_cons, List.foldlM_cons, hstep]

theorem intercalate_cons (parts : List (List Token)) (ts : List Token) (t : Token) :
    [t].intercalate (ts :: parts) = ts ++ parts.flatMap (t :: ·) := by
  induction parts generalizing ts with
  | nil => simp
  | cons p parts ih => rw [List.intercalate_cons_cons, ih, List.flatMap_cons]; simp

theorem run_items {items : List Json} (h : ∀ v ∈ items, Delivers n v.tokens v.reread)
    (hstack : stack.length + 1 + n ≤ maxDepth) (before : List Json) :
    run (.reading .separator (.array before :: stack)) ((items.map tokens).flatMap (.comma :: ·)) =
      some (.reading .separator (.array ((items.map reread).reverse ++ before) :: stack)) := by
  induction items generalizing before with
  | nil => rfl
  | cons v items ih =>
    obtain ⟨hv, hitems⟩ := List.forall_mem_cons.1 h
    have hcomma : step (.reading .separator (.array before :: stack)) .comma =
        some (.reading .value (.array before :: stack)) := rfl
    rw [List.map_cons, List.flatMap_cons, List.cons_append, run_cons hcomma, run_append,
      hv (.array before :: stack) hstack]
    simp only [deliver, Option.bind_some, ih hitems]
    simp

/-- A container that is not nested too deep is handed over as it is. -/
theorem deliverContainer_eq (v : Json) (h : stack.length + (n + 1) ≤ maxDepth) :
    deliverContainer v stack = deliver v stack := by
  rw [deliverContainer, if_pos (by omega)]

theorem delivers_array {items : List Json} (h : ∀ v ∈ items, Delivers n v.tokens v.reread) :
    Delivers (n + 1) (array items).tokens (array items).reread := by
  intro stack hstack
  have hopen : step (.reading .value stack) .openArray =
      some (.reading .firstItem (.array [] :: stack)) := rfl
  rw [tokens_array, reread_array, List.cons_append, run_cons hopen]
  cases items with
  | nil => exact (run_singleton _ _).trans (deliverContainer_eq _ hstack)
  | cons v items =>
    obtain ⟨hv, hitems⟩ := List.forall_mem_cons.1 h
    have hinner : (Frame.array [] :: stack).length + n ≤ maxDepth := by
      rw [List.length_cons]
      omega
    have hfirst : deliver v.reread (.array [] :: stack) =
        some (.reading .separator (.array [v.reread] :: stack)) := rfl
    rw [List.map_cons, intercalate_cons, List.append_assoc, run_firstItem, run_append, hv _ hinner,
      hfirst, Option.bind_some, run_append, run_items hitems (by omega), Option.bind_some,
      run_singleton, step, closeArray, deliverContainer_eq _ hstack]
    simp

/-! ## Objects -/

/-- A name, a colon and a value. -/
def memberTokensOf (m : String × Json) : List Token :=
  .string (some m.1) :: .colon :: m.2.tokens

theorem run_member {m : String × Json} (h : Delivers n m.2.tokens m.2.reread)
    (hstack : stack.length + 1 + n ≤ maxDepth) {next : Expect}
    (hnext : next = .name ∨ next = .firstName) (before : List (Option String × Json)) :
    run (.reading next (.object before :: stack)) (memberTokensOf m) =
      some (.reading .separator (.object ((some m.1, m.2.reread) :: before) :: stack)) := by
  have hname : step (.reading next (.object before :: stack)) (.string (some m.1)) =
      some (.reading .colon (.member (some m.1) before :: stack)) := by
    rcases hnext with rfl | rfl <;> rfl
  have hcolon : step (.reading .colon (.member (some m.1) before :: stack)) .colon =
      some (.reading .value (.member (some m.1) before :: stack)) := rfl
  rw [memberTokensOf, run_cons hname, run_cons hcolon,
    h (.member (some m.1) before :: stack) hstack]
  rfl

theorem run_members {members : List (String × Json)}
    (h : ∀ m ∈ members, Delivers n m.2.tokens m.2.reread)
    (hstack : stack.length + 1 + n ≤ maxDepth) (before : List (Option String × Json)) :
    run (.reading .separator (.object before :: stack))
        ((members.map memberTokensOf).flatMap (.comma :: ·)) =
      some (.reading .separator
        (.object ((members.map fun m => (some m.1, m.2.reread)).reverse ++ before) :: stack)) := by
  induction members generalizing before with
  | nil => rfl
  | cons m members ih =>
    obtain ⟨hm, hmembers⟩ := List.forall_mem_cons.1 h
    have hcomma : step (.reading .separator (.object before :: stack)) .comma =
        some (.reading .name (.object before :: stack)) := rfl
    rw [List.map_cons, List.flatMap_cons, List.cons_append, run_cons hcomma, run_append,
      run_member hm hstack (.inl rfl)]
    simp only [Option.bind_some, ih hmembers]
    simp

theorem ofNamed_map (members : List (String × Json)) :
    ofNamed (members.map fun m => (some m.1, m.2)) = .object members := by
  have h := mapM_named_eq_some_iff.2 (Eq.refl (members.map fun m => (some m.1, m.2)))
  unfold ofNamed
  split
  · rename_i named hnamed
    cases hnamed.symm.trans h
    rfl
  · rename_i hnone
    cases hnone.symm.trans h

theorem delivers_object {members : List (String × Json)}
    (h : ∀ m ∈ members, Delivers n m.2.tokens m.2.reread) :
    Delivers (n + 1) (object members).tokens (object members).reread := by
  intro stack hstack
  have hopen : step (.reading .value stack) .openObject =
      some (.reading .firstName (.object [] :: stack)) := rfl
  have htokens : (object members).tokens = .openObject ::
      [.comma].intercalate (members.map memberTokensOf) ++ [.closeObject] := tokens_object members
  rw [htokens, reread_object, List.cons_append, run_cons hopen]
  cases members with
  | nil => exact (run_singleton _ _).trans (deliverContainer_eq _ hstack)
  | cons m members =>
    obtain ⟨hm, hmembers⟩ := List.forall_mem_cons.1 h
    rw [List.map_cons, intercalate_cons, List.append_assoc, run_append,
      run_member hm (by omega) (.inr rfl)]
    have hreverse : ((members.map fun m => (some m.1, m.2.reread)).reverse ++
        [(some m.1, m.2.reread)]).reverse =
        ((m :: members).map fun m => (m.1, m.2.reread)).map fun m => (some m.1, m.2) := by
      simp [Function.comp_def]
    rw [Option.bind_some, run_append, run_members hmembers (by omega), Option.bind_some,
      run_singleton, step, closeObject, deliverContainer_eq _ hstack, hreverse, ofNamed_map]

/-! ## Documents -/

theorem Within.delivers (h : v.Within n) : Delivers n v.tokens v.reread := by
  induction h with
  | null | flawed => exact delivers_word rfl
  | bool b => cases b <;> exact delivers_word rfl
  | int low high => exact delivers_word (ofWord?_ofInt low high)
  | double proper =>
    obtain ⟨y, hy⟩ := exists_ofWord?_text proper
    rw [reread, hy]
    exact delivers_word hy
  | string s =>
    intro stack _
    exact run_singleton _ _
  | array all ih => exact delivers_array ih
  | object all ih => exact delivers_object ih

/-- **A written document is read again.** -/
theorem parse?_text (h : v.Within maxDepth) : parse? v.text = some v.reread := by
  have hrun : run State.start v.tokens = some (.done v.reread) := h.delivers [] (by simp)
  have htokens : ofTokens? v.tokens = some v.reread := by
    change (run State.start v.tokens).bind State.result? = _
    rw [hrun]
    rfl
  rw [parse?, lex_text, Option.bind_some, htokens]

end MeterCheck.Json
