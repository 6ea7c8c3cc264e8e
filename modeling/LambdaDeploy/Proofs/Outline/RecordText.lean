import LambdaDeploy.Proofs.Outline.TypeExpression
import LambdaDeploy.Proofs.Outline.TypeReading

/-!
# The texts of record types

A record type is kept as it is written, so that its text is known from the type.  An equals sign
in a type expression can only stand in the fields of a record, and then in the type it means.

* `Ty.Mentions` — the record types that occur in a type.
* `infix_of_mentions` — a record that is read stands in the text that is read.
* `TypeExpr.exists_mentions` — the record around an equals sign occurs in the meaning.
-/

namespace LambdaDeploy

open Text

namespace Ty

variable {type : Ty} {types : List Ty} {record : String}

/-- A record type with this text occurs in the type. -/
inductive Mentions (record : String) : Ty → Prop
  | record : Mentions record (.record record)
  | array {element : Ty} (inner : Mentions record element) : Mentions record (.array element)
  | map {element : Ty} (inner : Mentions record element) : Mentions record (.map element)
  | union {type : Ty} {types : List Ty} (mem : type ∈ types) (inner : Mentions record type) :
      Mentions record (.union types)

theorem Mentions.occurs (h : Mentions record type) : Occurs (.record record) type := by
  induction h with
  | record => exact .self
  | array _ ih => exact .array ih
  | map _ ih => exact .map ih
  | union mem _ ih => exact .member mem ih

/-- A union with all alternatives of a type mentions what the type does. -/
theorem Mentions.union_of_members (h : Mentions record type) (hsubset : type.members ⊆ types) :
    Mentions record (.union types) := by
  induction h generalizing types with
  | record => exact .union (hsubset (by simp [members])) .record
  | array inner => exact .union (hsubset (by simp [members])) (.array inner)
  | map inner => exact .union (hsubset (by simp [members])) (.map inner)
  | union hmem _ ih =>
    rw [members, membersOfAll_eq_flatMap] at hsubset
    exact ih fun member hmember => hsubset (List.mem_flatMap_of_mem hmem hmember)

end Ty

namespace Outline

variable {scope : Scope} {barred : Bool} {record : String} {text : List Char}

/-- A record that is read stands in the text that is read. -/
theorem infix_of_mentions (h : (readType scope text).Mentions record) : record.toList <:+: text :=
  (readFrom_readType scope text).infix_of_occurs rfl h.occurs

/-- The record around an equals sign occurs in what the expression means. -/
theorem TypeExpr.exists_mentions (e : TypeExpr scope barred) (h : '=' ∈ e.text) :
    ∃ record, e.meaning.Mentions record ∧ '=' ∈ record.toList := by
  have hname : ∀ {name : String}, IsIdentifier name → '=' ∉ name.toList := fun hname hmem =>
    hname.ne (by decide) '=' hmem rfl
  have hblank : ∀ blanks : Blanks, '=' ∉ blanks.text := fun blanks hmem =>
    absurd (blanks.blank '=' hmem) (by decide)
  induction e with
  | builtin b =>
    have hplain : ∀ b : Builtin, '=' ∉ b.name.toList := by
      intro b
      cases b <;> decide
    exact absurd h (hplain b)
  | qualified modulePrefix name _ _ hqualifier hsound =>
    simp [text, hname hqualifier, hname hsound] at h
  | declared _ _ _ hsound => exact absurd h (hname hsound)
  | record gap fields =>
    exact ⟨_, .record, by rwa [String.toList_ofList]⟩
  | parens left inner right ih => exact ih (by simpa [text, hblank] using h)
  | union first left right second ihfirst ihsecond =>
    have hparts : '=' ∈ first.text ∨ '=' ∈ second.text := by simpa [text, hblank] using h
    rcases hparts with hpart | hpart
    · obtain ⟨record, hrecord, hsign⟩ := ihfirst hpart
      exact ⟨record, .union_of_members hrecord (List.subset_append_left _ _), hsign⟩
    · obtain ⟨record, hrecord, hsign⟩ := ihsecond hpart
      exact ⟨record, .union_of_members hrecord (List.subset_append_right _ _), hsign⟩
  | optional inner gap ih =>
    obtain ⟨record, hrecord, hsign⟩ := ih (by simpa [text, hblank] using h)
    exact ⟨record, .union_of_members hrecord (List.subset_append_left _ _), hsign⟩
  | array element gap ih =>
    obtain ⟨record, hrecord, hsign⟩ := ih (by simpa [text, hblank] using h)
    exact ⟨record, .array hrecord, hsign⟩
  | map left element right ih =>
    obtain ⟨record, hrecord, hsign⟩ := ih (by simpa [text, hblank] using h)
    exact ⟨record, .map hrecord, hsign⟩

end Outline

end LambdaDeploy
