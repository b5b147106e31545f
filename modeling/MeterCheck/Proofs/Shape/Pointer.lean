import MeterCheck.Proofs.Shape.Findings
import MeterCheck.Proofs.Text.Numeral
import MeterCheck.Proofs.Text.Pieces
import Mathlib.Data.List.Nodup

/-!
# Where marks point

* `Json.at?`: the value in a document that a path leads to, read as a JSON pointer;
* `Json.at?_text`: the path of a pointer leads where its steps lead;
* `Pointer.ofText_text`: a pointer is read back from its path;
* `Json.Faulty`: the offending value of an error;
* `ShapeReport.marks_located`: marks have different paths, those of errors lead to the offending
  value, and those of warnings go one step beyond an object without that member.
-/

namespace MeterCheck

/-! ## Paths -/

namespace Json

/-- In a token `~1` stands for a slash and `~0` for a tilde. -/
def unescape : List Char → List Char
  | '~' :: '1' :: cs => '/' :: unescape cs
  | '~' :: '0' :: cs => '~' :: unescape cs
  | c :: cs => c :: unescape cs
  | [] => []

/-- Digits without a leading zero. -/
def index? (token : List Char) : Option Nat :=
  if token.head? = some '0' ∧ token ≠ ['0'] then none else Text.natural? token

/-- The part of a value that a token leads to. -/
def enter? (v : Json) (token : List Char) : Option Json :=
  match v with
  | .object _ => v.member? (String.ofList (unescape token))
  | .array items => (index? token).bind fun i => items[i]?
  | _ => none

/-- The value that a path leads to. There is a token after each slash. -/
def at? (v : Json) (path : String) : Option Json :=
  match path.toList.splitOn '/' with
  | [] :: tokens => tokens.foldlM enter? v
  | _ => none

theorem unescape_of_not_mem {cs : List Char} (h : '~' ∉ cs) : unescape cs = cs := by
  fun_induction unescape cs with
  | case1 => exact absurd List.mem_cons_self h
  | case2 => exact absurd List.mem_cons_self h
  | case3 c cs _ _ ih => rw [ih fun hcs => h (List.mem_cons_of_mem c hcs)]
  | case4 => rfl

end Json

/-! ## Steps and their tokens -/

namespace Step

/-- An item, or a member whose name has small letters and underscores alone. -/
def isSimple : Step → Bool
  | member name => name.toList.all fun c => c.isLower || c == '_'
  | item _ => true

def token : Step → List Char
  | member name => name.toList
  | item index => Nat.toDigits 10 index

/-- The step that a token stands for, if names are no numbers. -/
def ofToken (token : List Char) : Step :=
  (Text.natural? token).elim (member (String.ofList token)) item

variable {s : Step}

theorem toList_text (s : Step) : s.text.toList = '/' :: s.token := by
  cases s with
  | member name => exact String.toList_append
  | item index =>
    rw [text, String.toList_append, Nat.toList_repr]
    rfl

theorem not_mem_token (h : s.isSimple = true) {c : Char} (hc : c = '/' ∨ c = '~') :
    c ∉ s.token := by
  intro hmem
  cases s with
  | member name =>
    have hsimple := List.all_eq_true.1 h c hmem
    rcases hc with rfl | rfl <;> cases hsimple
  | item index =>
    have hdigit := Text.isDigit_of_mem_toDigits hmem
    unfold Text.IsDigit at hdigit
    rcases hc with rfl | rfl <;> exact absurd hdigit (by decide)

/-- There are no digits in a name. -/
theorem ofToken_token (h : s.isSimple = true) : ofToken s.token = s := by
  cases s with
  | member name =>
    have hdigits : ("0123456789".toList.all fun c => !(c.isLower || c == '_')) = true := by decide
    have hname : Text.natural? name.toList = none := by
      rw [Option.eq_none_iff_forall_ne_some]
      intro n hn
      obtain ⟨hne, hall, -⟩ := Text.natural?_eq_some_iff.1 hn
      obtain ⟨c, hc⟩ := List.exists_mem_of_ne_nil _ hne
      have hdigit := List.all_eq_true.1 hdigits c (hall c hc).mem_digits
      rw [List.all_eq_true.1 h c hc] at hdigit
      cases hdigit
    rw [ofToken, token, hname, Option.elim, String.ofList_toList]
  | item index => rw [ofToken, token, Text.natural?_toDigits, Option.elim]

end Step

/-! ## Pointers and their paths -/

namespace Pointer

def IsSimple (p : Pointer) : Prop := ∀ s ∈ p, s.isSimple = true

/-- The pointer that a path is written for, if names are no numbers. -/
def ofText (path : String) : Pointer := (path.toList.splitOn '/').tail.map Step.ofToken

variable {p : Pointer}

theorem toList_text (p : Pointer) : p.text.toList = (p.map Step.token).flatMap ('/' :: ·) := by
  simp only [text, String.toList_join, List.flatMap_map, Step.toList_text]

theorem tokens_text (h : p.IsSimple) : p.text.toList.splitOn '/' = [] :: p.map Step.token := by
  rw [toList_text]
  refine Text.splitOn_flatMap_cons fun t ht => ?_
  obtain ⟨s, hs, rfl⟩ := List.mem_map.1 ht
  exact Step.not_mem_token (h s hs) (.inl rfl)

theorem ofText_text (h : p.IsSimple) : ofText p.text = p := by
  rw [ofText, tokens_text h, List.tail_cons, List.map_map]
  exact (List.map_congr_left fun s hs => Step.ofToken_token (h s hs)).trans p.map_id

theorem text_append_member (p : Pointer) (name : String) :
    text (p ++ [.member name]) = p.text ++ "/" ++ name := by
  rw [text, List.map_append, String.join_append, String.append_assoc]
  rfl

end Pointer

namespace Json

variable {v w : Json} {p : Pointer} {s : Step}

/-- The part of a value that a step leads to. -/
def part? (v : Json) : Step → Option Json
  | .member name => v.member? name
  | .item index => v.items?.bind fun items => items[index]?

/-- The value that a pointer leads to. -/
def follow (v : Json) (p : Pointer) : Option Json := p.foldlM part? v

theorem index?_toDigits (n : Nat) : index? (Nat.toDigits 10 n) = some n := by
  rw [index?, if_neg fun h => h.2 (Text.head_toDigits h.1), Text.natural?_toDigits]

theorem enter?_name {name : String} (h : (Step.member name).isSimple = true)
    (hobject : v.isObject = true) : v.enter? name.toList = v.member? name := by
  have hname : '~' ∉ name.toList := Step.not_mem_token h (.inr rfl)
  cases v with
  | object members => rw [enter?, unescape_of_not_mem hname, String.ofList_toList]
  | null | bool | int | double | string | array | flawed => cases hobject

theorem enter?_token (hs : s.isSimple = true) (h : v.part? s = some w) :
    v.enter? s.token = some w := by
  cases s with
  | member name => exact (enter?_name hs (isObject_of_member h)).trans h
  | item index =>
    cases v with
    | array items =>
      rw [enter?, Step.token, index?_toDigits]
      exact h
    | null | bool | int | double | string | object | flawed => cases h

theorem foldlM_tokens (hp : p.IsSimple) (h : v.follow p = some w) :
    (p.map Step.token).foldlM enter? v = some w := by
  induction p generalizing v with
  | nil => exact h
  | cons s p ih =>
    obtain ⟨hs, hrest⟩ := List.forall_mem_cons.1 hp
    obtain ⟨u, hu, hw⟩ := Option.bind_eq_some_iff.1 h
    rw [List.map_cons, List.foldlM_cons, enter?_token hs hu]
    exact ih hrest hw

/-- The path of a pointer leads where its steps lead. -/
theorem at?_text (hp : p.IsSimple) (h : v.follow p = some w) : v.at? p.text = some w := by
  rw [at?, Pointer.tokens_text hp]
  exact foldlM_tokens hp h

/-- One step beyond an object is the member of that name. -/
theorem at?_text_append (h : v.follow p = some w) (hobject : w.isObject = true) {name : String}
    (hp : Pointer.IsSimple (p ++ [.member name])) :
    v.at? (Pointer.text (p ++ [.member name])) = w.member? name := by
  obtain ⟨hfirst, hlast⟩ := List.forall_mem_append.1 hp
  rw [at?, Pointer.tokens_text hp]
  simp [foldlM_tokens hfirst h, Step.token, enter?_name (hlast _ List.mem_cons_self) hobject]

theorem follow_append (v : Json) (p q : Pointer) :
    v.follow (p ++ q) = (v.follow p).bind fun w => w.follow q :=
  List.foldlM_append

theorem HasMeasure.follow {i : Nat} {m : Json} (h : v.HasMeasure i m) :
    v.follow (Finding.measurePointer i) = some m := by
  obtain ⟨items, hitems, hm⟩ := h
  simp [Json.follow, Finding.measurePointer, part?, hitems, items?, hm]

theorem HasMeasure.follow_member {i : Nat} {m u : Json} (h : v.HasMeasure i m) {name : String}
    (hu : m.member? name = some u) :
    v.follow (Finding.measurePointer i ++ [.member name]) = some u := by
  rw [follow_append, h.follow]
  simp [Json.follow, part?, hu]

theorem HasEvent.follow {i j : Nat} {hand : Hand} {e : Json} (h : v.HasEvent i hand j e) :
    v.follow (Finding.eventPointer i hand j) = some e := by
  obtain ⟨m, events, hm, hvoice, he⟩ := h
  rw [Finding.eventPointer, follow_append, hm.follow]
  simp [Json.follow, part?, hvoice, items?, he]

/-- The value that an error of this kind is about. -/
inductive Faulty (root : Json) : String → Json → Prop where
  | notScore (kind : root.isObject = false) : Faulty root "score_not_object" root
  | noMeasures (object : root.isObject = true) (measures : root.member? "measures" = none)
      (notes : root.member? "notes" = none) : Faulty root "missing_measures" root
  | notArray {kind : String} {w : Json} (mem : kind ∈ ["measures_not_array", "hand_not_array"])
      (other : w.items? = none) : Faulty root kind w
  | notObject {kind : String} {w : Json} (mem : kind ∈ ["measure_not_object", "event_not_object"])
      (other : w.isObject = false) : Faulty root kind w

theorem Violates.located {f : Finding} (h : v.Violates f) :
    ∃ w, v.follow f.pointer = some w ∧ v.Faulty f.kind w := by
  cases h with
  | scoreNotObject kind => exact ⟨v, rfl, .notScore kind⟩
  | missingMeasures object measures notes => exact ⟨v, rfl, .noMeasures object measures notes⟩
  | measuresNotArray has kind =>
    refine ⟨_, ?_, .notArray (by simp [Finding.kind]) kind⟩
    simp [follow, Finding.pointer, part?, has]
  | measureNotObject has kind => exact ⟨_, has.follow, .notObject (by simp [Finding.kind]) kind⟩
  | voiceNotArray has voice kind =>
    exact ⟨_, has.follow_member voice, .notArray (by simp [Finding.kind]) kind⟩
  | eventNotObject has kind => exact ⟨_, has.follow, .notObject (by simp [Finding.kind]) kind⟩

/-- What is left out is a member of an object. -/
theorem Omits.located {f : Finding} (h : v.Omits f) :
    ∃ p name w, f.pointer = p ++ [.member name] ∧ f.kind = "missing_" ++ name ∧
      v.follow p = some w ∧ w.isObject = true ∧ w.member? name = none := by
  cases h with
  | id has object omits => exact ⟨_, _, _, rfl, rfl, has.follow, object, omits⟩
  | field has object omits => exact ⟨_, _, _, rfl, rfl, has.follow, object, omits⟩
  | key object omits => exact ⟨[], _, _, rfl, rfl, rfl, object, omits⟩
  | tempo object omits => exact ⟨[], _, _, rfl, rfl, rfl, object, omits⟩

end Json

/-! ## Findings -/

namespace Finding

variable {f g : Finding}

theorem isSimple_pointer (f : Finding) : f.pointer.IsSimple := by
  have hitem (i : Nat) : (Step.item i).isSimple = true := rfl
  have hkey (hand : Hand) : (Step.member hand.key).isSimple = true := by
    cases hand <;> decide
  have hfield (field : EventField) : (Step.member field.text).isSimple = true := by
    cases field <;> decide
  have hnames : ∀ name ∈ ["measures", "id", "key", "tempo"],
      (Step.member name).isSimple = true := by
    decide
  cases f <;> simp_all [Pointer.IsSimple, pointer, eventPointer, measurePointer]

theorem eq_of_pointer_eq (h : f.pointer = g.pointer) (hne : f.pointer ≠ []) : f = g := by
  have hkey (hand hand' : Hand) : hand.key = hand'.key ↔ hand = hand' := by
    cases hand <;> cases hand' <;> decide
  have hid (hand : Hand) : hand.key ≠ "id" := by
    cases hand <;> decide
  have hfield (field field' : EventField) : field.text = field'.text ↔ field = field' := by
    cases field <;> cases field' <;> decide
  cases f <;> cases g <;> simp_all [pointer, eventPointer, measurePointer]

/-- One thing at most is said about the document as a whole. -/
theorem eq_of_pointer_nil {v : Json} (hf : f ∈ v.findings) (h : f.pointer = []) :
    f = if v.isObject then .missingMeasures else .scoreNotObject := by
  rcases Json.of_mem_findings hf with hviolates | homits
  · cases hviolates with
    | scoreNotObject kind => rw [kind]; rfl
    | missingMeasures object => rw [object]; rfl
    | measuresNotArray | measureNotObject | voiceNotArray | eventNotObject => cases h
  · obtain ⟨p, name, w, hpointer, -⟩ := homits.located
    exact absurd (hpointer.symm.trans h) (by simp)

theorem eq_of_mem_findings {v : Json} (hf : f ∈ v.findings) (hg : g ∈ v.findings)
    (h : f.pointer = g.pointer) : f = g := by
  by_cases hroot : f.pointer = []
  · rw [eq_of_pointer_nil hf hroot, eq_of_pointer_nil hg (h ▸ hroot)]
  · exact eq_of_pointer_eq h hroot

end Finding

namespace ShapeReport

/-- A mark one step beyond an object, where there is nothing. -/
structure Vacant (v : Json) (m : Mark) : Prop where
  located : ∃ parent name w, m.path = parent ++ "/" ++ name ∧ m.kind = "missing_" ++ name ∧
    v.at? parent = some w ∧ w.isObject = true ∧ w.member? name = none
  absent : v.at? m.path = none

/--
**Marks locate what they are about.** All marks on a document have different paths. Read as a
pointer, the path of an error leads to the offending value: the document itself if it is no object
or has no measures, and else a value that is no array or no object. The path of a warning is that of
an object with the name of a member that the object does not have, so that it leads nowhere.
-/
theorem marks_located (v : Json) :
    let marks := (check v).value.marks
    (marks.map Mark.path).Nodup ∧
    (∀ m ∈ marks, m.severity = .error → ∃ w, v.at? m.path = some w ∧ v.Faulty m.kind w) ∧
    ∀ m ∈ marks, m.severity = .warning → Vacant v m := by
  intro marks
  have hmarks : marks = v.findings.map Finding.mark := by
    rw [show marks = (ofValue v).marks from congrArg ShapeReport.marks (value_check v)]
    rfl
  rw [hmarks]
  simp only [List.forall_mem_map]
  refine ⟨?unique, fun f hf hseverity => ?error, fun f hf hseverity => ?warning⟩
  case unique =>
    rw [List.map_map]
    refine (Json.nodup_findings v).map_on fun f hf g hg h => ?_
    refine Finding.eq_of_mem_findings hf hg ?_
    rw [← Pointer.ofText_text f.isSimple_pointer, ← Pointer.ofText_text g.isSimple_pointer]
    exact congrArg Pointer.ofText h
  case error =>
    obtain ⟨w, hfollow, hfaulty⟩ := (Json.violates_iff.2 ⟨hf, hseverity⟩).located
    exact ⟨w, Json.at?_text f.isSimple_pointer hfollow, hfaulty⟩
  case warning =>
    obtain ⟨p, name, w, hpointer, hkind, hfollow, hobject, homits⟩ :=
      (Json.omits_iff.2 ⟨hf, hseverity⟩).located
    have hsimple := hpointer ▸ f.isSimple_pointer
    have hpath : f.mark.path = Pointer.text (p ++ [.member name]) := congrArg Pointer.text hpointer
    refine ⟨⟨p.text, name, w, ?_, hkind, ?_, hobject, homits⟩, ?_⟩
    · rw [hpath, Pointer.text_append_member]
    · exact Json.at?_text (List.forall_mem_append.1 hsimple).1 hfollow
    · rw [hpath, Json.at?_text_append hfollow hobject hsimple, homits]

/-- There is a number in the place of an event, and the event before it has no duration. -/
theorem marks_located_of_nested :
    let events : Json := .array [.object [("notes", .array [.string "C3"])], .int 5]
    let v : Json := .object [("measures", .array [.string "oops", .object
      [("right_hand", .string "C4 quarter"), ("left_hand", events)]])]
    let number : Mark := (Finding.eventNotObject 1 .left 1).mark
    let event : Mark := (Finding.missingField 1 .left 0 .duration).mark
    (number ∈ (check v).value.marks ∧ number.severity = .error ∧
      number.path = "/measures/1/left_hand/1" ∧ v.at? number.path = some (.int 5) ∧
      v.Faulty number.kind (.int 5)) ∧
    event ∈ (check v).value.marks ∧ event.severity = .warning ∧
      event.path = "/measures/1/left_hand/0/duration" ∧ Vacant v event := by
  intro events v number event
  obtain ⟨-, herror, hwarning⟩ := marks_located v
  have hnumber : number ∈ (check v).value.marks := by decide +kernel
  have hevent : event ∈ (check v).value.marks := by decide +kernel
  have hpath : number.path = "/measures/1/left_hand/1" := by decide +kernel
  have hpath' : event.path = "/measures/1/left_hand/0/duration" := by decide +kernel
  have hat : v.at? number.path = some (.int 5) :=
    Json.at?_text (Finding.isSimple_pointer (.eventNotObject 1 .left 1)) rfl
  obtain ⟨w, hw, hfaulty⟩ := herror number hnumber rfl
  cases hat.symm.trans hw
  exact ⟨⟨hnumber, rfl, hpath, hat, hfaulty⟩, hevent, rfl, hpath', hwarning event hevent rfl⟩

end ShapeReport

end MeterCheck
