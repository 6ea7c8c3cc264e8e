import LambdaDeploy.Proofs.Outline.TypeForm
import LambdaDeploy.Proofs.Text.Counting
import LambdaDeploy.Proofs.Text.Parts
import LambdaDeploy.Proofs.Ty.Leaves

/-!
# What any text is read as

Every text is read as a type, however its brackets and bars stand.  Reading never looks at anything
but parts of the text, and puts types together in few ways.  So what holds of the types put together
in these ways holds of all that are read.

* `ReadFrom` — the types that can be put together from parts of a text.
* `readFrom_readType` — **every type that is read is one of them.**
* `ReadFrom.normal` — they are in normal form.
* `ReadFrom.infix_of_occurs` — what they keep as it is written stands in the text.
-/

namespace LambdaDeploy.Outline

open Text

variable {scope : Scope} {text whole : List Char} {type : Ty}

/-- The types that can be put together from parts of a text: a type that is kept as it is written
is one of the parts, and a union is made of at least one type. -/
inductive ReadFrom (text : List Char) : Ty → Prop
  | builtin (b : Builtin) : ReadFrom text (.builtin b)
  | named (package : Package) (name : String) : ReadFrom text (.named package name)
  | record {part : List Char} (part_of : part <:+: text) :
      ReadFrom text (.record (String.ofList part))
  | unresolved {part : List Char} (part_of : part <:+: text) :
      ReadFrom text (.unresolved (String.ofList part))
  | array {element : Ty} (inner : ReadFrom text element) : ReadFrom text (.array element)
  | map {element : Ty} (inner : ReadFrom text element) : ReadFrom text (.map element)
  | union {types : List Ty} (some : types ≠ []) (each : ∀ type ∈ types, ReadFrom text type) :
      ReadFrom text (.ofMembers types)

namespace ReadFrom

/-- Parts of a part are parts. -/
theorem mono (h : ReadFrom text type) (hpart : text <:+: whole) : ReadFrom whole type := by
  induction h with
  | builtin b => exact .builtin b
  | named package name => exact .named package name
  | record part_of => exact .record (part_of.trans hpart)
  | unresolved part_of => exact .unresolved (part_of.trans hpart)
  | array _ ih => exact .array ih
  | map _ ih => exact .map ih
  | union some _ ih => exact .union some ih

/-- The types are in normal form. -/
theorem normal (h : ReadFrom text type) : type.Normal := by
  induction h with
  | builtin b => exact .builtin b
  | named package name => exact .named package name
  | record => exact .record _
  | unresolved => exact .unresolved _
  | array _ ih => exact .array ih
  | map _ ih => exact .map ih
  | union some _ ih => exact Ty.normal_ofMembers some ih

/-- What the types keep as it is written stands in the text. -/
theorem infix_of_occurs {part : Ty} {kept : String} (h : ReadFrom text type)
    (hkept : part.keptText? = some kept) (hoccurs : Ty.Occurs part type) :
    kept.toList <:+: text := by
  induction h with
  | builtin b =>
    cases hoccurs
    cases hkept
  | named package name =>
    cases hoccurs
    cases hkept
  | record part_of | unresolved part_of =>
    cases hoccurs
    cases hkept
    rwa [String.toList_ofList]
  | array _ ih =>
    cases hoccurs with
    | self => cases hkept
    | array inner => exact ih inner
  | map _ ih =>
    cases hoccurs with
    | self => cases hkept
    | map inner => exact ih inner
  | union _ _ ih =>
    have hplain : part.isUnion = false := by
      cases part with
      | union members => cases hkept
      | _ => rfl
    obtain ⟨member, hmember, hinner⟩ := Ty.exists_occurs_of_ofMembers hplain hoccurs
    exact ih member hmember hinner

end ReadFrom

/-! ## Reading -/

theorem readFrom_readName (scope : Scope) (text : List Char) :
    ReadFrom text (readName scope text) := by
  rw [readName]
  split
  · split
    · exact .named _ _
    · exact .unresolved (List.infix_refl text)
  · split
    · exact .named _ _
    · exact .unresolved (List.infix_refl text)

theorem infix_of_mapElement? {element : List Char} (h : mapElement? text = some element) :
    element <:+: text := by
  obtain ⟨rest, hrest, helement⟩ := Option.bind_eq_some_iff.1 h
  exact (infix_of_beforeSuffix? helement).trans (infix_of_afterPrefix? hrest)

/-- **Every type that is read** is put together from parts of the text. -/
theorem readFrom_readType (scope : Scope) (text : List Char) :
    ReadFrom text (readType scope text) := by
  refine readType.induct (fun text => ReadFrom text (readType scope text))
    (fun text => ReadFrom text (readMember scope text))
    ?parens ?members ?builtin ?optional ?enclosed ?array ?map ?record ?name text
  case parens =>
    intro text inner hparens ih
    rw [readType_eq, hparens]
    exact ih.mono ((infix_of_stripParens? hparens).trans (infix_trim text))
  case members =>
    intro text hparens ih
    rw [readType_eq, hparens]
    refine .union ?_ fun type htype => ?_
    · simp [splitTop, splitTopFrom_ne_nil]
    · obtain ⟨member, hmember, rfl⟩ := List.mem_map.1 htype
      have hpart : trim member <:+: text :=
        ((infix_trim member).trans (infix_of_mem_splitTop hmember)).trans (infix_trim text)
      exact (ih member hmember).mono hpart
  case builtin =>
    intro text b hb
    rw [readMember_eq, hb]
    exact .builtin b
  case optional =>
    intro text hb inner hoptional ih
    rw [readMember_eq, hb, hoptional]
    refine .union (by simp) fun type htype => ?_
    rcases List.mem_cons.1 htype with rfl | hnil
    · exact ih.mono (infix_of_beforeSuffix? hoptional)
    · rw [List.mem_singleton.1 hnil]
      exact .builtin .nil
  case enclosed =>
    intro text hb hoptional inner hparens ih
    rw [readMember_eq, hb, hoptional, hparens]
    exact ih.mono (infix_of_stripParens? hparens)
  case array =>
    intro text hb hoptional hparens element harray ih
    rw [readMember_eq, hb, hoptional, hparens, harray]
    exact .array (ih.mono (infix_of_beforeSuffix? harray))
  case map =>
    intro text hb hoptional hparens harray element hmap ih
    rw [readMember_eq, hb, hoptional, hparens, harray, hmap]
    exact .map (ih.mono (infix_of_mapElement? hmap))
  case record =>
    intro text hb hoptional hparens harray hmap hrecord
    rw [readMember_eq, hb, hoptional, hparens, harray, hmap]
    dsimp only
    rw [if_pos hrecord]
    exact .record (List.infix_refl text)
  case name =>
    intro text hb hoptional hparens harray hmap hrecord
    rw [readMember_eq, hb, hoptional, hparens, harray, hmap]
    dsimp only
    rw [if_neg hrecord]
    exact readFrom_readName scope text

end LambdaDeploy.Outline
