import MeterCheck.Proofs.Score.Written
import MeterCheck.Proofs.TimeSignature.Grammar

/-!
# The two forms of a signature

A score gives a signature as a text, or as a pair of integers that are not checked yet.

* `SignatureSpec.decimal`: the text of a pair;
* `SignatureSpec.Restates`, `Score.Restates`: one form in the place of the other, anywhere in a
  score;
* `SignatureSpec.resolve_decimal`: both forms resolve alike, also where they do not resolve;
* `TimeSignature.parse_text`: a signature is read from the text it is shown as;
* `SignatureSpec.forms_agree`: so a score has the same run in either form.
-/

namespace MeterCheck

namespace TimeSignature

theorem side_ofInt (n : Int) : Side (Text.ofInt n).toList n := by
  have hspells := Text.spells_ofInt n
  rw [side_iff, hspells.trim_eq]
  exact hspells

/-- An integer is written without a slash. -/
theorem halves_ofInt (n d : Int) : Halves (Text.ofInt n ++ "/" ++ Text.ofInt d)
    (Text.ofInt n).toList (Text.ofInt d).toList := by
  have hslash (k : Int) : (Text.ofInt k).toList.count '/' = 0 := by
    apply List.count_eq_zero_of_not_mem
    intro h
    exact absurd (Text.mem_numberChars_of_mem_ofInt h) (by decide)
  have hsplit : (Text.ofInt n ++ "/" ++ Text.ofInt d).toList =
      (Text.ofInt n).toList ++ '/' :: (Text.ofInt d).toList := by
    simp
  refine ⟨?_, hsplit⟩
  rw [hsplit, List.count_append, List.count_cons_self, hslash, hslash]

end TimeSignature

namespace SignatureSpec

/-- The decimal text of a pair. -/
def decimal (n d : Int) : SignatureSpec := .text (Text.ofInt n ++ "/" ++ Text.ofInt d)

/-- The same specification, or a pair of words and its text in the place of each other. -/
inductive Restates : SignatureSpec → SignatureSpec → Prop where
  | same (spec : SignatureSpec) : Restates spec spec
  | asText {n d : Int} (numerator : IsWord n) (denominator : IsWord d) :
      Restates (.pair n d) (decimal n d)
  | asPair {n d : Int} (numerator : IsWord n) (denominator : IsWord d) :
      Restates (decimal n d) (.pair n d)

variable {n d : Int} {spec spec' : SignatureSpec}

theorem check_decimal (hn : IsWord n) (hd : IsWord d) :
    (decimal n d).check = (pair n d).check := by
  have hleft : TimeSignature.readPart .numerator (Text.ofInt n).toList = .ok n :=
    TimeSignature.readPart_eq_ok.2 ⟨TimeSignature.side_ofInt n, hn⟩
  have hright : TimeSignature.readPart .denominator (Text.ofInt d).toList = .ok d :=
    TimeSignature.readPart_eq_ok.2 ⟨TimeSignature.side_ofInt d, hd⟩
  change TimeSignature.parse _ = TimeSignature.check n d
  rw [TimeSignature.parse_of_halves (TimeSignature.halves_ofInt n d), hleft, hright]
  rfl

/-- An error quotes a pair as its text, so that it does not tell the forms apart. -/
theorem resolve_decimal (hn : IsWord n) (hd : IsWord d) :
    (decimal n d).resolve = (pair n d).resolve := by
  rw [resolve, resolve, check_decimal hn hd]
  rfl

theorem Restates.resolve_eq (h : spec.Restates spec') : spec'.resolve = spec.resolve := by
  cases h with
  | same => rfl
  | asText hn hd => exact resolve_decimal hn hd
  | asPair hn hd => exact (resolve_decimal hn hd).symm

theorem map_resolve_of_rel {own own' : Option SignatureSpec} (h : Option.Rel Restates own own') :
    own'.map resolve = own.map resolve := by
  cases h with
  | none => rfl
  | some h => exact congrArg some h.resolve_eq

theorem resolveDefault_of_rel {own own' : Option SignatureSpec} (h : Option.Rel Restates own own') :
    resolveDefault own' = resolveDefault own := by
  cases h with
  | none => rfl
  | some h => simp only [resolveDefault, Run.resolve, h.resolve_eq]

end SignatureSpec

theorem TimeSignature.text_eq (s : TimeSignature) :
    SignatureSpec.text s.text = .decimal s.numerator s.denominator := rfl

/-- What is shown is read again. -/
theorem TimeSignature.parse_text {s : TimeSignature} (h : s.Proper) : parse s.text = .ok s := by
  have hn := h.numerator_lt
  have hd := h.denominator_lt
  have hcheck : (SignatureSpec.text s.text).check = .ok s := by
    rw [text_eq, SignatureSpec.check_decimal ⟨by omega, by omega⟩ ⟨by omega, by omega⟩]
    exact check_eq_ok.2 ⟨rfl, rfl, h⟩
  exact hcheck

/-! ## Scores -/

/-- A measure in which one form of its signature may stand for the other. -/
structure Measure.Restates (m m' : Measure) : Prop where
  signature : Option.Rel SignatureSpec.Restates m.signature m'.signature
  rest : m' = { m with signature := m'.signature }

namespace Score

/-- A score in which one form of a signature may stand for the other, in any number of places. -/
structure Restates (s s' : Score) : Prop where
  signature : Option.Rel SignatureSpec.Restates s.signature s'.signature
  measures : List.Forall₂ Measure.Restates s.measures s'.measures
  rest : s' = { s with signature := s'.signature, measures := s'.measures }

variable {s s' : Score}

theorem Restates.carry_eq (h : s.Restates s') (current : TimeSignature) :
    carry current s'.measures = carry current s.measures := by
  refine carry_congr (h.measures.imp fun m m' hm => ⟨?_, ?_⟩) current
  · rw [hm.rest]
  · exact SignatureSpec.map_resolve_of_rel hm.signature

/-- A verdict is made under the signature that was resolved. -/
theorem Restates.judgeAll_eq (h : s.Restates s') (settings : Settings)
    (signatures : List TimeSignature) :
    judgeAll settings s'.measures signatures = judgeAll settings s.measures signatures := by
  refine judgeAll_congr (h.measures.imp fun m m' hm => ?_) settings signatures
  rw [hm.rest]
  rfl

theorem Restates.run_eq (h : s.Restates s') (settings : Settings) :
    s'.run settings = s.run settings := by
  have hempty : s'.measures.isEmpty = s.measures.isEmpty := by
    rw [Bool.eq_iff_iff, List.isEmpty_iff_length_eq_zero, List.isEmpty_iff_length_eq_zero,
      h.measures.length_eq]
  have hdefault := SignatureSpec.resolveDefault_of_rel h.signature
  simp only [run, hdefault, hempty, h.carry_eq, h.judgeAll_eq]

end Score

namespace SignatureSpec

/--
**The two forms of a signature agree.** Any two words are read from a document as a text and as a
pair, and both resolve to the same signature or fail with the same error. A signature with positive
parts is read from the text it is shown as, and the pair of its parts resolves to it. In a score any
forms may be exchanged: its report or its error is the same, and so is the log of the run.
-/
theorem forms_agree :
    (∀ n d : Int, IsWord n → IsWord d →
      reader (.string (Text.ofInt n ++ "/" ++ Text.ofInt d)) = .ok (decimal n d) ∧
      reader (.object [("numerator", .int n), ("denominator", .int d)]) = .ok (.pair n d) ∧
      (decimal n d).resolve = (pair n d).resolve) ∧
    (∀ s : TimeSignature, s.Proper →
      TimeSignature.parse s.text = .ok s ∧ (ofSignature s).resolve = .ok s) ∧
    ∀ s s' : Score, s.Restates s' → ∀ settings,
      s'.validate settings = s.validate settings ∧ s'.run settings = s.run settings := by
  refine ⟨?forms, ?shown, ?scores⟩
  case forms =>
    intro n d hn hd
    have hfits : (pair n d).Fits := ⟨(isSigned64_iff n).2 hn, (isSigned64_iff d).2 hd⟩
    exact ⟨rfl, reader_toJson hfits, resolve_decimal hn hd⟩
  case shown =>
    intro s hs
    exact ⟨TimeSignature.parse_text hs, resolve_ofSignature hs⟩
  case scores =>
    intro s s' h settings
    have hrun := h.run_eq settings
    exact ⟨congrArg (fun x : Run Report => x.run.value) hrun, hrun⟩

/-- The least word for a numerator: both forms fail alike, and so does a score in either form. -/
theorem forms_agree_of_least :
    let least : Int := -9223372036854775808
    let e : SignatureError := ⟨"-9223372036854775808/4", .notPositive .numerator least⟩
    let s : Score := { Score.empty with
      signature := some (.pair 3 4)
      measures := [.empty (.number 1) (some (.text "-9223372036854775808/4"))] }
    let s' : Score := { Score.empty with
      signature := some (.text "3/4")
      measures := [.empty (.number 1) (some (.pair least 4))] }
    IsWord least ∧ IsWord 4 ∧ (text "-9223372036854775808/4").resolve = .error e ∧
      (pair least 4).resolve = .error e ∧ TimeSignature.Proper ⟨3, 4⟩ ∧
      TimeSignature.parse "3/4" = .ok ⟨3, 4⟩ ∧ s.Restates s' ∧
      s.validate .default = .error (.malformedSignature e) ∧
      s'.validate .default = .error (.malformedSignature e) := by
  intro least e s s'
  have hleast : IsWord least := by decide
  have hthree : IsWord 3 := by decide
  have hfour : IsWord 4 := by decide
  have hproper : TimeSignature.Proper ⟨3, 4⟩ := by constructor <;> decide
  have hdefault : decimal 3 4 = .text "3/4" := by decide +kernel
  have hown : decimal least 4 = .text "-9223372036854775808/4" := by decide +kernel
  have hpair : (pair least 4).resolve = .error e := by decide +kernel
  have hrestates : s.Restates s' :=
    ⟨.some (hdefault ▸ .asText hthree hfour),
      .cons ⟨.some (hown ▸ .asPair hleast hfour), rfl⟩ .nil, rfl⟩
  obtain ⟨hforms, hshown, hscores⟩ := forms_agree
  have htext := (hforms least 4 hleast hfour).2.2
  rw [hown, hpair] at htext
  have hparse := (hshown ⟨3, 4⟩ hproper).1
  have hrun := (hscores s s' hrestates .default).1
  have herror : s'.validate .default = .error (.malformedSignature e) := by decide +kernel
  exact ⟨hleast, hfour, htext, hpair, hproper, hparse, hrestates, hrun ▸ herror, herror⟩

end SignatureSpec

end MeterCheck
