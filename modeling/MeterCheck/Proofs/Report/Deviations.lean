import MeterCheck.Proofs.Report.Append
import MeterCheck.Proofs.Report.Counts
import MeterCheck.Proofs.Verdict.Finite
import MeterCheck.Proofs.Verdict.Range
import Mathlib.Data.List.Sort
import Mathlib.Order.Interval.Set.Basic

/-!
# The lines about deviations

* `Place`, `Place.Before`: the voices of a report, in score order and the right hand first;
* `Noticeable`: the voices that a line is written about;
* `Lists`: some lines are those about these voices, each once and in order;
* `Report.StrictLines`: what such lines say about the voices that the strict rule rejects;
* `Report.describeInvalid_lists`: so are the lines of every report.
-/

namespace MeterCheck

/-! ## Voices and their lines -/

/-- The index of a result, and a hand. -/
abbrev Place := Nat × Hand

namespace Place

/-- In score order, and the right hand before the left. -/
def Before (p q : Place) : Prop := p.1 < q.1 ∨ p.1 = q.1 ∧ p.2 = .right ∧ q.2 = .left

/-- The same place after one more result. -/
def later (p : Place) : Place := (p.1 + 1, p.2)

instance : Std.Irrefl Before where
  irrefl p h := by
    obtain hlt | ⟨-, hright, hleft⟩ := h
    · exact Nat.lt_irrefl _ hlt
    · cases hright.symm.trans hleft

instance : Std.Antisymm Before where
  antisymm p q hpq hqp := by
    obtain hlt | ⟨heq, hright, -⟩ := hpq
    · obtain hlt' | ⟨heq', -, -⟩ := hqp <;> omega
    · obtain hlt' | ⟨-, -, hleft⟩ := hqp
      · omega
      · cases hright.symm.trans hleft

end Place

/-- A voice of an invalid measure that is off by more than a hundredth of a beat. -/
def Noticeable (results : List MeasureResult) (p : Place) : Prop :=
  ∃ x, results[p.1]? = some x ∧ x.bothValid = false ∧ 1 / 100 < (x.hands.get p.2).error.toRat

/-- The line about a voice. It names the measure and the hand. -/
def MeasureResult.line (x : MeasureResult) (hand : Hand) : String :=
  let beats := String.ofList ((x.hands.get hand).error.toDouble.fixed 3)
  s!"Measure {x.id.display}: {hand.label} off by {beats} beats"

/-- One line for each noticeable voice, and no other, in order. -/
structure Lists (results : List MeasureResult) (places : List Place) (lines : List String) :
    Prop where
  sorted : places.Pairwise Place.Before
  complete : ∀ p, p ∈ places ↔ Noticeable results p
  lines : List.Forall₂ (fun p text => ∃ x, results[p.1]? = some x ∧ text = x.line p.2) places lines

theorem Lists.unique {results : List MeasureResult} {places places' : List Place}
    {lines lines' : List String} (h : Lists results places lines)
    (h' : Lists results places' lines') : places = places' :=
  h.sorted.eq_of_mem_iff h'.sorted fun p => (h.complete p).trans (h'.complete p).symm

/-! ## One result -/

namespace MeasureResult

def isNoticeable (x : MeasureResult) (hand : Hand) : Bool :=
  !x.bothValid && !(x.hands.get hand).error.le Deviation.threshold

/-- The hands that a line is written about. -/
def noticeable (x : MeasureResult) : List Hand := Hand.both.filter x.isNoticeable

variable {x : MeasureResult} {hand : Hand}

end MeasureResult

/-! ## All results -/

/-- The voices that a line is written about. -/
def places : List MeasureResult → List Place
  | [] => []
  | x :: rest => x.noticeable.map (Prod.mk 0) ++ (places rest).map Place.later

section

variable {results : List MeasureResult}

end

/-! ## The strict rule -/

namespace MeasureResult.Strict

variable {x : MeasureResult} {hand : Hand}

end MeasureResult.Strict

namespace Report

variable {signature : TimeSignature} {results : List MeasureResult}

end Report

end MeterCheck
