import LambdaDeploy.Proofs.Ty.Normal
import Mathlib.Data.List.Basic

/-!
# Putting types together and opening them

A union is built by opening the unions among its members by one level, and a single member stands
for itself.  The alternatives of a type are found by opening unions to any depth.  The first of the
two never changes what the second one finds, whatever unions it is given: nested ones, empty ones
and unions of a single type.

* `Ty.members_ofMembers` — **the alternatives of some types together are those of each, in order.**
* `Ty.members_ofMembers_map` — types may be put together in parts.
* `Ty.isResolved_eq_all_members`, `Ty.isResolved_ofMembers` — whether names are left unresolved.
* `Ty.normal_ofMembers_iff`, `Ty.Normal.ofMembers_members` — types in normal form.
-/

namespace LambdaDeploy.Ty

variable {type : Ty} {types : List Ty}

/-! ## Alternatives -/

/-- A type is opened by one level first, and then to any depth. -/
theorem flatMap_members_alternatives (type : Ty) :
    type.alternatives.flatMap members = type.members := by
  cases type with
  | union types => rw [alternatives, members, membersOfAll_eq_flatMap]
  | _ => exact List.flatMap_singleton _ _

/-- **The alternatives of some types together are those of each, in order.** -/
theorem members_ofMembers (types : List Ty) : (ofMembers types).members = types.flatMap members := by
  have hopened : (types.flatMap alternatives).flatMap members = types.flatMap members := by
    rw [List.flatMap_assoc]
    exact List.flatMap_congr fun type _ => flatMap_members_alternatives type
  rw [← hopened, ofMembers]
  split
  case h_1 type hone => rw [hone, List.flatMap_singleton]
  case h_2 => rw [members, membersOfAll_eq_flatMap]

/-- Types may be put together in parts, and these in turn. -/
theorem members_ofMembers_map (parts : List (List Ty)) :
    (ofMembers (parts.map ofMembers)).members = (ofMembers parts.flatten).members := by
  rw [members_ofMembers, members_ofMembers, List.flatMap_map, ← List.flatMap_id,
    List.flatMap_assoc]
  exact List.flatMap_congr fun part _ => members_ofMembers part

/-! ## Resolution -/

mutual

/-- A type is resolved exactly if its alternatives are. -/
theorem isResolved_eq_all_members :
    (type : Ty) → type.isResolved = type.members.all isResolved
  | union types => by rw [isResolved, members, areResolved_eq_all_membersOfAll types]
  | builtin _ | named .. | array _ | map _ | record _ | unresolved _ => by simp [members]

theorem areResolved_eq_all_membersOfAll :
    (types : List Ty) → areResolved types = (membersOfAll types).all isResolved
  | [] => rfl
  | type :: types => by
    rw [areResolved, membersOfAll, List.all_append, isResolved_eq_all_members type,
      areResolved_eq_all_membersOfAll types]

end

/-- Some types together are resolved exactly if each of them is. -/
theorem isResolved_ofMembers :
    (ofMembers types).isResolved = true ↔ ∀ type ∈ types, type.isResolved = true := by
  have hall : (ofMembers types).isResolved = types.all isResolved := by
    rw [isResolved_eq_all_members, members_ofMembers, List.all_flatMap]
    simp only [← isResolved_eq_all_members]
  rw [hall, List.all_eq_true]

/-! ## Normal form -/

/-- Types in normal form make up a type in normal form, if there are any. -/
theorem normal_ofMembers_iff (h : ∀ type ∈ types, Normal type) :
    Normal (ofMembers types) ↔ types ≠ [] := by
  constructor
  · -- the union of no types has no members
    rintro hnormal rfl
    cases hnormal with
    | union many => exact absurd many (by decide)
  · exact fun hne => normal_ofMembers hne h

/-- A type in normal form is made up of its alternatives. -/
theorem Normal.ofMembers_members (h : Normal type) : ofMembers type.members = type := by
  refine h.ofMembers_eq ?_
  calc
    type.members.flatMap alternatives = type.members.flatMap members :=
      List.flatMap_congr fun member hmember => (h.of_mem_members member hmember).members_eq.symm
    _ = type.members := flatMap_members_eq_self (isUnion_of_mem_members type)

/-- **Putting types together and opening them agree**, for any types at all.  The alternatives of
some types together are those of each, one after the other.  So they are resolved exactly if each of
them is, and it does not matter in which parts they are put together.  If all are in normal form,
what they make up is in normal form exactly if there are any; and a type in normal form is made up
of its own alternatives. -/
theorem ofMembers_agrees_with_members (types : List Ty) :
    (ofMembers types).members = types.flatMap members ∧
    ((ofMembers types).isResolved = true ↔ ∀ type ∈ types, type.isResolved = true) ∧
    (∀ parts : List (List Ty), parts.flatten = types →
      (ofMembers (parts.map ofMembers)).members = (ofMembers types).members) ∧
    ((∀ type ∈ types, Normal type) → (Normal (ofMembers types) ↔ types ≠ [])) ∧
    ∀ type : Ty, Normal type → ofMembers type.members = type := by
  refine ⟨members_ofMembers types, isResolved_ofMembers, ?_, normal_ofMembers_iff,
    fun type h => h.ofMembers_members⟩
  rintro parts rfl
  exact members_ofMembers_map parts

/-- Two types in two parts, the first one a union, and three types that are no normal form. -/
theorem ofMembers_agrees_with_members_sample :
    let result : Ty := union [builtin .json, builtin .error]
    let types : List Ty := [result, builtin .nil]
    let raw : List Ty := [union [union [union []], union [builtin .int]], array (union [result])]
    ([[result], [builtin .nil]].flatten = types ∧
        (ofMembers ([[result], [builtin .nil]].map ofMembers)).members =
          (ofMembers types).members) ∧
      ((∀ type ∈ types, Normal type) ∧ (Normal (ofMembers types) ↔ types ≠ [])) ∧
      (Normal result ∧ ofMembers result.members = result) ∧
      (ofMembers raw).members = [builtin .int, array (union [result])] := by
  intro result types raw
  have hresult : Normal result :=
    .union (by decide) (by decide) (by simp [Normal.builtin])
  have htypes : ∀ type ∈ types, Normal type := by
    simpa [types] using ⟨hresult, Normal.builtin .nil⟩
  obtain ⟨-, -, hparts, hnormal, hself⟩ := ofMembers_agrees_with_members types
  refine ⟨⟨rfl, hparts _ rfl⟩, ⟨htypes, hnormal htypes⟩, ⟨hresult, hself result hresult⟩, ?_⟩
  rw [(ofMembers_agrees_with_members raw).1]
  decide

end LambdaDeploy.Ty
