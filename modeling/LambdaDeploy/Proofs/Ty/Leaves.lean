import LambdaDeploy.Proofs.Ty.Normal
import Mathlib.Data.List.Perm.Basic
import Mathlib.Logic.Relation

/-!
# The leaves of a type, and what occurs in it

Unions may stand in unions to any depth, and types in arrays and maps.  What a check says about
such a type is stated of its leaves, or of the types that occur in it, and not of the way in which
its unions are put together.

* `Ty.Leaf` — what is found in a type by opening unions; `Ty.mem_members_iff`.
* `Ty.Occurs` — the types that a type is made of; `Ty.Normal.of_occurs`, `Ty.isResolved_iff`.
* `Ty.Regroups`, `Ty.Regrouped` — a step that only changes how a union is put together, and
  types that such steps lead to.
* `Ty.Regrouped.isResolved_eq`, `Ty.Regrouped.all_members_eq` — **what regrouping keeps.**
-/

namespace LambdaDeploy.Ty

variable {type other leaf part : Ty} {types others : List Ty}

/-! ## Leaves -/

/-- The first type is a leaf of the second: it is found there by opening unions. -/
inductive Leaf : Ty → Ty → Prop
  | self {type : Ty} (plain : type.isUnion = false) : Leaf type type
  | member {leaf type : Ty} {types : List Ty} (mem : type ∈ types) (inner : Leaf leaf type) :
      Leaf leaf (.union types)

theorem leaf_union_iff : Leaf leaf (.union types) ↔ ∃ type ∈ types, Leaf leaf type := by
  constructor
  · intro h
    cases h with
    | self plain => cases plain
    | member mem inner => exact ⟨_, mem, inner⟩
  · rintro ⟨type, mem, inner⟩
    exact .member mem inner

theorem leaf_iff_eq (h : type.isUnion = false) : Leaf leaf type ↔ leaf = type := by
  constructor
  · intro hleaf
    cases hleaf with
    | self => rfl
    | member => cases h
  · rintro rfl
    exact .self h

mutual

/-- The alternatives of a type are its leaves. -/
theorem mem_members_iff : (type : Ty) → (leaf ∈ type.members ↔ Leaf leaf type)
  | union types => by
    rw [members, mem_membersOfAll_iff types, leaf_union_iff]
  | builtin _ | named .. | array _ | map _ | record _ | unresolved _ => by
    rw [members, List.mem_singleton, leaf_iff_eq rfl]

theorem mem_membersOfAll_iff :
    (types : List Ty) → (leaf ∈ membersOfAll types ↔ ∃ type ∈ types, Leaf leaf type)
  | [] => by simp [membersOfAll]
  | type :: types => by
    rw [membersOfAll, List.mem_append, mem_members_iff type, mem_membersOfAll_iff types]
    simp

end

/-! ## Parts -/

/-- The type is made of others, and this is one of them, or the type itself. -/
inductive Occurs (part : Ty) : Ty → Prop
  | self : Occurs part part
  | member {type : Ty} {types : List Ty} (mem : type ∈ types) (inner : Occurs part type) :
      Occurs part (.union types)
  | array {element : Ty} (inner : Occurs part element) : Occurs part (.array element)
  | map {element : Ty} (inner : Occurs part element) : Occurs part (.map element)

/-- The text that a type keeps as it is written. -/
def keptText? : Ty → Option String
  | record text | unresolved text => some text
  | _ => none

/-- What a type in normal form is made of is in normal form. -/
theorem Normal.of_occurs (h : Occurs part type) (htype : type.Normal) : part.Normal := by
  induction h with
  | self => exact htype
  | member mem _ ih =>
    cases htype with
    | union _ _ each => exact ih (each _ mem)
  | array _ ih =>
    cases htype with
    | array inner => exact ih inner
  | map _ ih =>
    cases htype with
    | map inner => exact ih inner

theorem Occurs.of_mem_alternatives {alternative : Ty} (hmem : alternative ∈ type.alternatives)
    (h : Occurs part alternative) : Occurs part type := by
  cases type with
  | union members => exact .member hmem h
  | _ =>
    obtain rfl := List.mem_singleton.1 hmem
    exact h

/-- What occurs in the union of some types and is no union occurs in one of the types. -/
theorem exists_occurs_of_ofMembers (hpart : part.isUnion = false)
    (h : Occurs part (ofMembers types)) : ∃ type ∈ types, Occurs part type := by
  have hfound : ∃ alternative ∈ types.flatMap alternatives, Occurs part alternative := by
    rw [ofMembers] at h
    split at h
    · rename_i alternative hone
      exact ⟨alternative, by rw [hone]; exact List.mem_singleton_self _, h⟩
    · cases h with
      | self => cases hpart
      | member mem inner => exact ⟨_, mem, inner⟩
  obtain ⟨alternative, hmem, halternative⟩ := hfound
  obtain ⟨type, htype, hmem⟩ := List.mem_flatMap.1 hmem
  exact ⟨type, htype, halternative.of_mem_alternatives hmem⟩

theorem not_occurs_union_iff {text : String} :
    ¬Occurs (.unresolved text) (.union types) ↔
      ∀ type ∈ types, ¬Occurs (.unresolved text) type := by
  constructor
  · exact fun h type mem inner => h (.member mem inner)
  · intro h hoccurs
    cases hoccurs with
    | member mem inner => exact h _ mem inner

mutual

/-- A type is resolved exactly if no unresolved name occurs in it. -/
theorem isResolved_iff :
    (type : Ty) → (type.isResolved = true ↔ ∀ text, ¬Occurs (.unresolved text) type)
  | unresolved text => iff_of_false nofun fun h => h text .self
  | union types => by
    rw [isResolved, areResolved_iff types]
    simp only [not_occurs_union_iff]
    exact ⟨fun h text type mem => h type mem text, fun h type mem text => h text type mem⟩
  | array element => by
    rw [isResolved, isResolved_iff element]
    refine forall_congr' fun text => not_congr ⟨.array, ?_⟩
    rintro (_ | _ | inner | _)
    exact inner
  | map element => by
    rw [isResolved, isResolved_iff element]
    refine forall_congr' fun text => not_congr ⟨.map, ?_⟩
    rintro (_ | _ | _ | inner)
    exact inner
  | builtin _ | named .. | record _ => iff_of_true rfl fun _ h => by cases h

theorem areResolved_iff :
    (types : List Ty) →
      (areResolved types = true ↔ ∀ type ∈ types, ∀ text, ¬Occurs (.unresolved text) type)
  | [] => by simp [areResolved]
  | type :: types => by
    rw [areResolved, Bool.and_eq_true, isResolved_iff type, areResolved_iff types,
      List.forall_mem_cons]

end

/-! ## Regrouping -/

/-- One change to how a union is put together, at any depth of a type. -/
inductive Regroups : Ty → Ty → Prop
  /-- A union among the members gives way to its own members. -/
  | opened (front types back : List Ty) :
      Regroups (.union (front ++ .union types :: back)) (.union (front ++ types ++ back))
  /-- A single member stands for itself. -/
  | single (type : Ty) : Regroups (.union [type]) type
  /-- A member that is there already is left out. -/
  | repeated {type : Ty} {front back : List Ty} (mem : type ∈ front ++ back) :
      Regroups (.union (front ++ type :: back)) (.union (front ++ back))
  | reordered {types others : List Ty} (perm : types.Perm others) :
      Regroups (.union types) (.union others)
  | member {type other : Ty} (front back : List Ty) (inner : Regroups type other) :
      Regroups (.union (front ++ type :: back)) (.union (front ++ other :: back))
  | array {element other : Ty} (inner : Regroups element other) :
      Regroups (.array element) (.array other)
  | map {element other : Ty} (inner : Regroups element other) :
      Regroups (.map element) (.map other)

/-- The types differ in nothing but how their unions are put together. -/
def Regrouped : Ty → Ty → Prop := Relation.EqvGen Regroups

/-- What one change keeps, any number of them keeps, in either direction. -/
theorem Regrouped.eq_of_step {β : Type} (observe : Ty → β)
    (hstep : ∀ {type other}, Regroups type other → observe type = observe other)
    (h : Regrouped type other) : observe type = observe other := by
  induction h with
  | rel _ _ hrel => exact hstep hrel
  | refl => rfl
  | symm _ _ _ ih => exact ih.symm
  | trans _ _ _ _ _ ihfirst ihsecond => exact ihfirst.trans ihsecond

/-- An element that is there already adds nothing to what all have. -/
theorem all_eq_of_mem {p : Ty → Bool} {front back : List Ty} (mem : type ∈ front ++ back) :
    (front ++ type :: back).all p = (front ++ back).all p := by
  rw [List.perm_middle.all_eq, List.all_cons]
  cases hall : (front ++ back).all p with
  | false => exact Bool.and_false _
  | true => rw [List.all_eq_true.1 hall type mem, Bool.and_true]

theorem Regroups.isResolved_eq (h : Regroups type other) : type.isResolved = other.isResolved := by
  induction h with
  | opened front types back => simp [isResolved, areResolved_eq_all]
  | single type => simp [isResolved, areResolved_eq_all]
  | repeated mem =>
    rw [isResolved, isResolved, areResolved_eq_all, areResolved_eq_all, all_eq_of_mem mem]
  | reordered perm =>
    rw [isResolved, isResolved, areResolved_eq_all, areResolved_eq_all, perm.all_eq]
  | member front back _ ih => simp [isResolved, areResolved_eq_all, ih]
  | array _ ih => rw [isResolved, isResolved, ih]
  | map _ ih => rw [isResolved, isResolved, ih]

/-- **Regrouping a type leaves no name unresolved that was resolved, and the other way round.** -/
theorem Regrouped.isResolved_eq (h : Regrouped type other) :
    type.isResolved = other.isResolved :=
  h.eq_of_step isResolved Regroups.isResolved_eq

/-- A property of all alternatives, which no array and no map has. -/
theorem Regroups.all_members_eq {p : Ty → Bool} (harray : ∀ element, p (.array element) = false)
    (hmap : ∀ element, p (.map element) = false) (h : Regroups type other) :
    type.members.all p = other.members.all p := by
  induction h with
  | opened front types back =>
    simp [members, membersOfAll_eq_flatMap, List.all_flatMap]
  | single type => simp [members, membersOfAll_eq_flatMap]
  | repeated mem =>
    rw [members, members, membersOfAll_eq_flatMap, membersOfAll_eq_flatMap, List.all_flatMap,
      List.all_flatMap, all_eq_of_mem mem]
  | reordered perm =>
    rw [members, members, membersOfAll_eq_flatMap, membersOfAll_eq_flatMap, List.all_flatMap,
      List.all_flatMap, perm.all_eq]
  | member front back _ ih =>
    simp [members, membersOfAll_eq_flatMap, List.all_flatMap, ih]
  | array => simp [members, harray]
  | map => simp [members, hmap]

/-- **Regrouping a type keeps what can be said of all alternatives but arrays and maps.** -/
theorem Regrouped.all_members_eq {p : Ty → Bool} (harray : ∀ element, p (.array element) = false)
    (hmap : ∀ element, p (.map element) = false) (h : Regrouped type other) :
    type.members.all p = other.members.all p :=
  h.eq_of_step (fun type => type.members.all p) (Regroups.all_members_eq harray hmap)

end LambdaDeploy.Ty
