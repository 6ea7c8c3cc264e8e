import LambdaDeploy.Proofs.Text.Cutting
import LambdaDeploy.Text.Bracket

/-!
# Lines between braces

The readers of an outline count braces line by line, and take the first line that closes what
stood open for the end of a body.

* `StaysOpen` — lines that do not close the brace they stand behind.
* `Closes` — such lines, and the line behind them that closes the brace.
* `Balanced` — lines that can stand in a body: they close no brace but those that they open, and
  leave none open.
* `Balanced.append`, `Balanced.intercalate`, `Balanced.between` — how such lines are put together.
-/

namespace LambdaDeploy.Text

variable {depth : Int} {first last : List Char} {texts others : List (List Char)}

/-- Lines that stand behind open braces, `depth` of them, and close the last one nowhere. -/
def StaysOpen : Int → List (List Char) → Prop
  | _, [] => True
  | depth, line :: texts =>
    0 < depth + braceDelta line ∧ StaysOpen (depth + braceDelta line) texts

/-- Decides whether lines close the brace they stand behind. -/
def StaysOpen.decide :
    (depth : Int) → (texts : List (List Char)) → Decidable (StaysOpen depth texts)
  | _, [] => .isTrue trivial
  | depth, line :: texts =>
    have := StaysOpen.decide (depth + braceDelta line) texts
    inferInstanceAs (Decidable (0 < depth + braceDelta line ∧
      StaysOpen (depth + braceDelta line) texts))

instance : Decidable (StaysOpen depth texts) := StaysOpen.decide depth texts

/-- Opening less closing braces of some lines. -/
def totalDelta : List (List Char) → Int
  | [] => 0
  | line :: texts => braceDelta line + totalDelta texts

@[simp] theorem totalDelta_nil : totalDelta [] = 0 := rfl

@[simp] theorem totalDelta_cons (line : List Char) (texts : List (List Char)) :
    totalDelta (line :: texts) = braceDelta line + totalDelta texts := rfl

@[simp] theorem totalDelta_append (texts others : List (List Char)) :
    totalDelta (texts ++ others) = totalDelta texts + totalDelta others := by
  induction texts with
  | nil => simp
  | cons line texts ih => simp [ih, Int.add_assoc]

theorem StaysOpen.mono (h : StaysOpen depth texts) {deeper : Int} (hdepth : depth ≤ deeper) :
    StaysOpen deeper texts := by
  induction texts generalizing depth deeper with
  | nil => trivial
  | cons line texts ih =>
    obtain ⟨hline, hrest⟩ := h
    exact ⟨by omega, ih hrest (by omega)⟩

theorem StaysOpen.pos (h : StaysOpen depth texts) (hdepth : 0 < depth) :
    0 < depth + totalDelta texts := by
  induction texts generalizing depth with
  | nil => simpa using hdepth
  | cons line texts ih =>
    rw [totalDelta_cons, ← Int.add_assoc]
    exact ih h.2 h.1

theorem StaysOpen.append (h : StaysOpen depth texts)
    (hothers : StaysOpen (depth + totalDelta texts) others) :
    StaysOpen depth (texts ++ others) := by
  induction texts generalizing depth with
  | nil => simpa using hothers
  | cons line texts ih =>
    obtain ⟨hline, hrest⟩ := h
    refine ⟨hline, ih hrest ?_⟩
    rwa [totalDelta_cons, ← Int.add_assoc] at hothers

/-- A line that closes one more brace than the lines in front of it leave open, or several
more; no line in front of it does. -/
structure Closes (texts : List (List Char)) (last : List Char) : Prop where
  inside : StaysOpen 1 texts
  closing : 1 + totalDelta texts + braceDelta last ≤ 0

instance (texts : List (List Char)) (last : List Char) : Decidable (Closes texts last) :=
  decidable_of_iff (StaysOpen 1 texts ∧ 1 + totalDelta texts + braceDelta last ≤ 0)
    ⟨fun h => ⟨h.1, h.2⟩, fun h => ⟨h.inside, h.closing⟩⟩

/-- Lines that can stand in a body: they close no brace that they do not open, and leave none
open. -/
structure Balanced (texts : List (List Char)) : Prop where
  inside : StaysOpen 1 texts
  even : totalDelta texts = 0

instance (texts : List (List Char)) : Decidable (Balanced texts) :=
  decidable_of_iff (StaysOpen 1 texts ∧ totalDelta texts = 0)
    ⟨fun h => ⟨h.1, h.2⟩, fun h => ⟨h.inside, h.even⟩⟩

namespace Balanced

theorem nil : Balanced [] := ⟨trivial, rfl⟩

theorem append (h : Balanced texts) (hothers : Balanced others) : Balanced (texts ++ others) := by
  refine ⟨h.inside.append ?_, ?_⟩
  · rw [h.even]
    exact hothers.inside
  · rw [totalDelta_append, h.even, hothers.even]
    rfl

/-- Lines without braces. -/
theorem of_forall (h : ∀ line ∈ texts, braceDelta line = 0) : Balanced texts := by
  induction texts with
  | nil => exact nil
  | cons line texts ih =>
    rw [List.forall_mem_cons] at h
    have hinside : StaysOpen 1 [line] := ⟨by rw [h.1]; decide, trivial⟩
    have hline : Balanced [line] := ⟨hinside, by rw [totalDelta_cons, h.1]; rfl⟩
    exact hline.append (ih h.2)

theorem intercalate {sep : List (List Char)} {bodies : List (List (List Char))}
    (hsep : Balanced sep) (h : ∀ body ∈ bodies, Balanced body) :
    Balanced (sep.intercalate bodies) := by
  induction bodies with
  | nil => exact nil
  | cons body bodies ih =>
    rw [List.forall_mem_cons] at h
    cases bodies with
    | nil => simpa using h.1
    | cons next bodies =>
      rw [List.intercalate_cons_cons]
      exact (h.1.append hsep).append (ih h.2)

/-- A line that opens a brace, a body, and a line that closes the brace again. -/
theorem between (hfirst : braceDelta first = 1) (h : Balanced texts)
    (hlast : braceDelta last = -1) : Balanced ([first] ++ texts ++ [last]) := by
  have hdeeper : StaysOpen (1 + totalDelta [first]) texts := h.inside.mono (by simp [hfirst])
  have hopened : StaysOpen 1 [first] := ⟨by omega, trivial⟩
  refine ⟨(hopened.append hdeeper).append ⟨?_, trivial⟩, ?_⟩
  · simp [hfirst, h.even, hlast]
  · simp [hfirst, h.even, hlast]

end Balanced

end LambdaDeploy.Text
