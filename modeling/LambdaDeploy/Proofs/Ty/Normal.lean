import LambdaDeploy.Ty

/-!
# Types in normal form

A type is in normal form if no union in it stands directly inside another one and every union
has at least two members.  Then a type has one way to be written as a union, and opening it by
one level opens it to any depth.

* `Ty.Normal` — types in normal form.
* `Ty.isUnion_of_mem_members` — the alternatives of a type are no unions.
* `Ty.members_union` — a union of such types has them as its alternatives.
* `Ty.Normal.members_eq` — in normal form one level of opening is enough.
* `Ty.normal_ofMembers` — types in normal form make up a type in normal form.
* `Ty.Normal.ofMembers_eq` — the union of some types is known by their alternatives.
-/

namespace LambdaDeploy.Ty

variable {type : Ty} {types : List Ty}

/-! ## Alternatives -/

theorem members_of_not_isUnion (h : type.isUnion = false) : type.members = [type] := by
  cases type with
  | union members => cases h
  | _ => rw [members]

mutual

/-- The alternatives of a type are no unions. -/
theorem isUnion_of_mem_members : (type : Ty) → ∀ member ∈ type.members, member.isUnion = false
  | union types => by
    rw [members]
    exact isUnion_of_mem_membersOfAll types
  | builtin _ | named .. | array _ | map _ | record _ | unresolved _ => by
    intro member h
    rw [members, List.mem_singleton] at h
    rw [h]
    rfl

theorem isUnion_of_mem_membersOfAll :
    (types : List Ty) → ∀ member ∈ membersOfAll types, member.isUnion = false
  | [] => by simp [membersOfAll]
  | type :: types => by
    intro member h
    rw [membersOfAll, List.mem_append] at h
    rcases h with h | h
    · exact isUnion_of_mem_members type member h
    · exact isUnion_of_mem_membersOfAll types member h

end

theorem flatMap_members_eq_self (h : ∀ type ∈ types, type.isUnion = false) :
    types.flatMap members = types := by
  induction types with
  | nil => rfl
  | cons type types ih =>
    rw [List.forall_mem_cons] at h
    rw [List.flatMap_cons, members_of_not_isUnion h.1, ih h.2]
    rfl

/-- The alternatives of a union are its members, if none of them is a union. -/
theorem members_union (h : ∀ type ∈ types, type.isUnion = false) :
    (union types).members = types := by
  rw [members, membersOfAll_eq_flatMap, flatMap_members_eq_self h]

theorem members_union_append (first second : Ty) :
    (union (first.members ++ second.members)).members = first.members ++ second.members := by
  apply members_union
  intro member hmember
  rcases List.mem_append.1 hmember with hmember | hmember
  · exact isUnion_of_mem_members first member hmember
  · exact isUnion_of_mem_members second member hmember

/-! ## Normal form -/

/-- No union in the type stands directly inside another one, and every union has at least two
members. -/
inductive Normal : Ty → Prop
  | builtin (b : Builtin) : Normal (.builtin b)
  | named (package : Package) (name : String) : Normal (.named package name)
  | record (text : String) : Normal (.record text)
  | unresolved (text : String) : Normal (.unresolved text)
  | array {element : Ty} (inner : Normal element) : Normal (.array element)
  | map {element : Ty} (inner : Normal element) : Normal (.map element)
  | union {types : List Ty} (many : 2 ≤ types.length)
      (opened : ∀ type ∈ types, type.isUnion = false) (each : ∀ type ∈ types, Normal type) :
      Normal (.union types)

/-- In normal form opening a union by one level opens it to any depth. -/
theorem Normal.members_eq (h : Normal type) : type.members = type.alternatives := by
  cases h with
  | union _ hopened => exact members_union hopened
  | _ => exact members_of_not_isUnion rfl

theorem Normal.of_mem_members (h : Normal type) : ∀ member ∈ type.members, Normal member := by
  intro member hmember
  rw [h.members_eq] at hmember
  cases h with
  | union _ _ heach => exact heach member hmember
  | _ =>
    rw [List.mem_singleton.1 hmember]
    constructor <;> assumption

theorem Normal.length_members_pos (h : Normal type) : 0 < type.members.length := by
  rw [h.members_eq]
  cases h with
  | union hmany => exact Nat.lt_of_lt_of_le (by decide) hmany
  | _ => exact Nat.zero_lt_one

/-! ## Unions -/

/-- The alternatives of two types make a union in normal form. -/
theorem Normal.union_members {other : Ty} (h : Normal type) (hother : Normal other) :
    Normal (.union (type.members ++ other.members)) := by
  refine .union ?_ ?_ ?_
  · have hfirst := h.length_members_pos
    have hsecond := hother.length_members_pos
    rw [List.length_append]
    omega
  · intro member hmember
    rcases List.mem_append.1 hmember with hmember | hmember
    · exact isUnion_of_mem_members type member hmember
    · exact isUnion_of_mem_members other member hmember
  · intro member hmember
    rcases List.mem_append.1 hmember with hmember | hmember
    · exact h.of_mem_members member hmember
    · exact hother.of_mem_members member hmember

/-- Some types in normal form make up a type in normal form. -/
theorem normal_ofMembers (hne : types ≠ []) (h : ∀ type ∈ types, Normal type) :
    Normal (ofMembers types) := by
  have hplain : ∀ member ∈ types.flatMap alternatives,
      member.isUnion = false ∧ Normal member := by
    intro member hmember
    obtain ⟨type, htype, hmember⟩ := List.mem_flatMap.1 hmember
    rw [← (h type htype).members_eq] at hmember
    exact ⟨isUnion_of_mem_members type member hmember, (h type htype).of_mem_members member hmember⟩
  have hsome : 0 < (types.flatMap alternatives).length := by
    obtain ⟨type, others, rfl⟩ := List.exists_cons_of_ne_nil hne
    have htype := h type List.mem_cons_self
    have hpos := htype.length_members_pos
    rw [htype.members_eq] at hpos
    rw [List.flatMap_cons, List.length_append]
    omega
  rw [ofMembers]
  split
  · rename_i member hone
    exact (hplain member (hone ▸ List.mem_singleton_self member)).2
  · rename_i hmany
    refine .union ?_ (fun member hmember => (hplain member hmember).1)
      fun member hmember => (hplain member hmember).2
    -- a single alternative is the other case
    match hlist : types.flatMap alternatives with
    | [] => simp [hlist] at hsome
    | [member] => exact absurd hlist (hmany member)
    | _ :: _ :: _ => simp

/-- Types with the alternatives of a type in normal form make up this type. -/
theorem Normal.ofMembers_eq (h : Normal type)
    (halternatives : types.flatMap alternatives = type.members) :
    ofMembers types = type := by
  rw [ofMembers, halternatives, h.members_eq]
  cases h with
  | union hmany =>
    rw [alternatives]
    split
    · rename_i hone
      rw [List.length_singleton] at hmany
      omega
    · rfl
  | _ => rfl

end LambdaDeploy.Ty
