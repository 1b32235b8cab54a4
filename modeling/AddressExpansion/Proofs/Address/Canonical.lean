import AddressExpansion.Address.Document
import AddressExpansion.Proofs.Address.RoundTrip
import AddressExpansion.Proofs.Distinct
import AddressExpansion.Proofs.Json.Strings

/-! # Canonical text stands for the literal

A literal and its canonical text determine each other. The text can take the place of the literal
wherever it is compared, written again or kept in a document.
-/

namespace AddressExpansion

namespace Address

theorem text_injective : Function.Injective text := by
  intro a b same
  have read := classify_text a
  rw [same, classify_text b] at read
  exact (Option.some.inj read).symm

theorem parse_text (a : Address) : parse a.text = .ok a := by
  rw [parse, classify_text]

theorem ofDocument_toValue (layout : Json.Layout) (a : Address) :
    ofDocument (a.toValue.text layout) = .ok a := by
  have token : Json.readString .keep
      (Json.skipGap (a.toValue.text layout).toList) = some (a.text, []) := by
    have read : Json.readString .keep (Json.writeString a.text ++ []) = some (a.text, []) :=
      Json.readString_writeString a.text
    rw [List.append_nil] at read
    rw [Json.Value.text, String.toList_ofList]
    exact read
  unfold ofDocument
  rw [token]
  dsimp only
  rw [parse_text]
  rfl

/-- Canonical text and literals correspond one to one. The text of a literal is read as the
    literal, host or block, so literals are equal exactly if their texts are, and repeated ones
    can be dropped by value or by text. Canonical text is its own canonical text, and a document
    that holds it gives the literal back. -/
theorem text_corresponds :
    (∀ a : Address, classify a.text = some a ∧ parse a.text = .ok a) ∧
    (∀ a b : Address, a = b ↔ a.text = b.text) ∧
    (∀ as : List Address, distinct (as.map text) = (distinct as).map text) ∧
    (∀ token : String, ((classify token).map text).bind
      (fun canonical => (classify canonical).map text) = (classify token).map text) ∧
    (∀ (a : Address) (layout : Json.Layout),
      Json.Value.parse? (a.toValue.text layout) = some (.string a.text) ∧
      ofDocument (a.toValue.text layout) = .ok a) := by
  refine ⟨fun a => ⟨classify_text a, parse_text a⟩, fun a b => text_injective.eq_iff.symm,
    distinct_map text_injective, ?_, ?_⟩
  · intro token
    cases classify token with
    | none => rfl
    | some a => rw [Option.map_some, Option.bind_some, classify_text, Option.map_some]
  · intro a layout
    exact ⟨Json.Value.parse?_string layout a.text, ofDocument_toValue layout a⟩

end Address

end AddressExpansion
