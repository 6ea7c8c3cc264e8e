import LambdaDeploy.Proofs.Text.Nesting

/-!
# Identifiers

The names that need no quoting anywhere in an outline: they are made of characters that are
neither blanks nor brackets nor any other sign that a reader looks for.

* `Text.isNameChar` — letters, digits and underscores.
* `IsIdentifier` — non-empty names of such characters.
-/

namespace LambdaDeploy

namespace Text

/-- A letter, a digit or an underscore.  Beyond ASCII every character that is not blank counts
as a letter. -/
def isNameChar (c : Char) : Bool :=
  c.isAlphanum || c == '_' || (decide (0x80 ≤ c.toNat) && !isBlank c)

variable {c d : Char}

theorem isBlank_of_isNameChar (h : isNameChar c = true) : isBlank c = false := by
  simp only [isNameChar, Bool.or_eq_true, Bool.and_eq_true, Bool.not_eq_true', beq_iff_eq] at h
  rcases h with (h | rfl) | h
  · change ((decide (c.val ≥ 65 ∧ c.val ≤ 90) || (decide (c.val ≥ 97) && decide (c.val ≤ 122))) ||
      (decide (c.val ≥ 48) && decide (c.val ≤ 57))) = true at h
    simp only [Bool.or_eq_true, Bool.and_eq_true, decide_eq_true_eq, ge_iff_le,
      UInt32.le_iff_toNat_le] at h
    -- the codes of the three ranges as natural numbers
    change ((65 ≤ c.toNat ∧ c.toNat ≤ 90) ∨ (97 ≤ c.toNat ∧ c.toNat ≤ 122)) ∨
      (48 ≤ c.toNat ∧ c.toNat ≤ 57) at h
    simp only [isBlank, Bool.or_eq_false_iff, Bool.and_eq_false_iff, decide_eq_false_iff_not,
      beq_eq_false_iff_ne]
    omega
  · decide
  · exact h.2

theorem ne_of_isNameChar (h : isNameChar c = true) (hd : isNameChar d = false) : c ≠ d := by
  rintro rfl
  rw [hd] at h
  cases h

theorem bracketValue_of_isNameChar (h : isNameChar c = true) : bracketValue c = 0 := by
  have hsigns : ∀ d ∈ ['(', ')', '<', '>', '{', '}', '[', ']'], isNameChar d = false := by decide
  exact bracketValue_eq_zero fun d hd => ne_of_isNameChar h (hsigns d hd)

end Text

open Text

/-- A name of letters, digits and underscores, which is not empty. -/
structure IsIdentifier (name : String) : Prop where
  ne_empty : name ≠ ""
  plain : ∀ c ∈ name.toList, isNameChar c = true

instance (name : String) : Decidable (IsIdentifier name) :=
  decidable_of_iff (name ≠ "" ∧ ∀ c ∈ name.toList, isNameChar c = true)
    ⟨fun h => ⟨h.1, h.2⟩, fun h => ⟨h.ne_empty, h.plain⟩⟩

namespace IsIdentifier

variable {name : String}

theorem tight (h : IsIdentifier name) : Tight name.toList :=
  .of_forall (by simpa using h.ne_empty) fun c hc => isBlank_of_isNameChar (h.plain c hc)

theorem ne_nil (h : IsIdentifier name) : name.toList ≠ [] := h.tight.ne_nil

theorem exists_getLast? (h : IsIdentifier name) :
    ∃ c, name.toList.getLast? = some c ∧ isNameChar c = true :=
  ⟨_, List.getLast?_eq_some_getLast h.ne_nil, h.plain _ (List.getLast_mem h.ne_nil)⟩

/-- A sign that no name holds. -/
theorem ne (h : IsIdentifier name) {d : Char} (hd : isNameChar d = false) :
    ∀ c ∈ name.toList, c ≠ d := fun c hc => ne_of_isNameChar (h.plain c hc) hd

theorem settled (h : IsIdentifier name) : Settled name.toList :=
  .of_forall fun c hc =>
    ⟨bracketValue_of_isNameChar (h.plain c hc), h.ne (by decide) c hc, h.ne (by decide) c hc⟩

end IsIdentifier

end LambdaDeploy
