import MeterCheck.Proofs.Decode.Ensures
import MeterCheck.Proofs.Duration.Length
import MeterCheck.Duration.Wire

/-!
# What a duration that has been read holds

* `Duration.wordSized_ofJson`: multipliers are unsigned 32-bit words, however a duration is written;
* `Duration.reader_ensures`: so it is for every duration that is read.
-/

namespace MeterCheck

namespace Piece

theorem wordSized_ofProduct (cs : List Char) : (ofProduct cs).WordSized := by
  simp only [ofProduct]
  split
  · rename_i h
    exact Text.unsigned32?_lt h
  · trivial

theorem wordSized_ofWords (cs : List Char) : (ofWords cs).WordSized := by
  unfold ofWords
  split
  · split <;> trivial
  · trivial

theorem wordSized_ofNormal (cs : List Char) : (ofNormal cs).WordSized := by
  unfold ofNormal
  split
  · trivial
  · split
    · exact wordSized_ofProduct cs
    · exact wordSized_ofWords cs

end Piece

namespace Duration

theorem wordSized_classify (text : String) : (classify text).WordSized := by
  simp only [classify]
  split
  · exact Piece.wordSized_ofNormal _
  · intro p hp
    obtain ⟨cs, _, rfl⟩ := List.mem_map.1 hp
    exact Piece.wordSized_ofNormal _

mutual

theorem wordSized_ofJson : ∀ v : Json, (ofJson v).WordSized
  | .string s => by
    rw [ofJson]
    exact wordSized_classify s
  | .array [] => by
    rw [ofJson]
    trivial
  | .array (v :: rest) => by
    rw [ofJson, WordSized, AllWordSized]
    exact ⟨wordSized_ofJson v, allWordSized_ofItems rest⟩
  | .null => by
    rw [ofJson]
    trivial
  | .bool _ => by trivial
  | .int _ => by trivial
  | .double _ => by trivial
  | .object _ => by trivial
  | .flawed => by trivial

theorem allWordSized_ofItems : ∀ items : List Json, AllWordSized (ofItems items)
  | [] => by
    rw [ofItems]
    trivial
  | v :: rest => by
    rw [ofItems, AllWordSized]
    exact ⟨wordSized_ofJson v, allWordSized_ofItems rest⟩

end

theorem reader_ensures : reader.Ensures WordSized := by
  intro v d hd
  obtain ⟨v', _, rfl⟩ := map_eq_ok.1 hd
  exact wordSized_ofJson v'

end Duration

end MeterCheck
