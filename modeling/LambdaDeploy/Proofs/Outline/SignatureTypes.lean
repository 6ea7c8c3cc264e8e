import LambdaDeploy.Proofs.Outline.ParamReading
import LambdaDeploy.Proofs.Outline.TypeReading
import LambdaDeploy.Proofs.Program.Transcript

/-!
# The types of a program that is read

A header is cut into its name, its parameters and its result, and what is found at the place of a
type is read as one, whatever it is.  So the types of a program are made of parts of its outline.

* `readParam_types`, `readReturns_type` — the types in a header.
* `readFrom_of_readHeader` — all types of a function are read from its header.
* `Program.ofOutline_types` — **the types of a program are in normal form**, and what they keep as
  it is written stands in the outline.
-/

namespace LambdaDeploy

open Text Outline

/-- The types of a function's signature. -/
def FunctionDecl.types (f : FunctionDecl) : List Ty :=
  f.params.map (·.type) ++ (f.restParam.toList.map (·.type) ++ f.returnType.toList)

namespace Outline

variable {scope : Scope} {text piece result : List Char} {list : ParamList}

/-! ## Parameters -/

/-- The types of the parameters that are read so far. -/
def ParamList.types (list : ParamList) : List Ty :=
  list.params.map (·.type) ++ list.rest.toList.map (·.type)

theorem infix_cutDefault (text : List Char) : (cutDefault text).1 <:+: text := by
  rw [cutDefault]
  split
  · rename_i decl value hcut
    exact (infix_trim decl).trans (infix_of_cutFirst? hcut).1
  · exact List.infix_refl text

/-- The type of a parameter is read from its text. -/
theorem readParam_types {one : ParamList} (h : readParam scope {} piece = .ok one) :
    ∀ type ∈ one.types, ReadFrom piece type := by
  rw [readParam] at h
  dsimp only [Option.isSome_none] at h
  rw [if_neg Bool.false_ne_true] at h
  split at h
  · cases h
  · rename_i front name hcut
    have hdecl : front <:+: piece := (infix_of_cutLast? hcut).1.trans (infix_cutDefault piece)
    have hfront : trim front <:+: piece := (infix_trim front).trans hdecl
    split at h
    · rename_i element hdots
      have helement : trim element <:+: piece :=
        (infix_trim element).trans ((infix_of_beforeSuffix? hdots).trans hfront)
      split at h
      · cases h
      · cases h
        intro type htype
        rw [List.mem_singleton.1 htype]
        exact (readFrom_readType scope _).mono helement
    · cases h
      intro type htype
      rw [List.mem_singleton.1 htype]
      exact (readFrom_readType scope _).mono hfront

theorem readParams_types (h : readParams scope text = .ok list) :
    ∀ type ∈ list.types, ReadFrom text type := by
  have hparts : ∀ piece ∈ ((splitTop ',' text).map trim).filter (· ≠ []), piece <:+: text := by
    intro piece hpiece
    obtain ⟨whole, hwhole, rfl⟩ := List.mem_map.1 (List.mem_filter.1 hpiece).1
    exact (infix_trim whole).trans (infix_of_mem_splitTop hwhole)
  refine foldlM_prefix
    (fun done (list : ParamList) => (∀ piece ∈ done, piece <:+: text) →
      ∀ type ∈ list.types, ReadFrom text type) ?_ (by simp [ParamList.types]) h hparts
  intro done list piece next hdone hstep hall
  rw [List.forall_mem_append] at hall
  have hpiece : piece <:+: text := hall.2 piece (List.mem_singleton_self piece)
  obtain ⟨-, one, hone, rfl⟩ := exists_of_readParam hstep
  intro type htype
  simp only [ParamList.types, List.map_append, List.append_assoc] at htype
  rcases List.mem_append.1 htype with hold | hnew
  · exact hdone hall.1 type (List.mem_append_left _ hold)
  · exact (readParam_types hone type hnew).mono hpiece

/-! ## Headers -/

theorem infix_of_readOpening {hasBody : Bool} (h : readOpening text = .ok (result, hasBody)) :
    result <:+: text := by
  rw [readOpening] at h
  split at h
  · rename_i front hempty
    cases h
    exact (infix_trim front).trans (infix_of_beforeSuffix? hempty)
  · split at h
    · rename_i front hopen
      cases h
      exact (infix_trim front).trans (infix_of_beforeSuffix? hopen)
    · cases h

theorem readReturns_type {returnType : Option Ty}
    (h : readReturns scope text = .ok returnType) : ∀ type ∈ returnType, ReadFrom text type := by
  rw [readReturns] at h
  split at h
  · cases h
    intro type htype
    cases htype
  · split at h
    · rename_i c rest hword
      cases h
      obtain ⟨after, hafter, htrim⟩ := Option.map_eq_some_iff.1 hword
      intro type htype
      cases htype
      refine (readFrom_readType scope (c :: rest)).mono ?_
      rw [← htrim]
      exact (infix_trim after).trans (infix_of_afterPrefix? hafter)
    · cases h

theorem readFrom_of_readSignature {isPublic hasBody : Bool} {place : Location} {f : FunctionDecl}
    (h : readSignature scope isPublic place text = .ok (f, hasBody)) :
    ∀ type ∈ f.types, ReadFrom text type := by
  obtain ⟨start, stop, name, list, result, returnType, hlist, hresult, hreturns, rfl⟩ :=
    exists_of_readSignature h
  have hparams : (text.take stop).drop (start + 1) <:+: text :=
    (List.drop_suffix _ _).isInfix.trans (List.take_prefix _ _).isInfix
  have hbehind : trim (text.drop (stop + 1)) <:+: text :=
    (infix_trim _).trans (List.drop_suffix _ _).isInfix
  intro type htype
  simp only [FunctionDecl.types, ← List.append_assoc] at htype
  rcases List.mem_append.1 htype with htype | htype
  · exact (readParams_types hlist type htype).mono hparams
  · have hreturned := readReturns_type hreturns type (Option.mem_toList.1 htype)
    exact hreturned.mono ((infix_of_readOpening hresult).trans hbehind)

theorem infix_of_afterWord? {word after : List Char} (h : afterWord? word text = some after) :
    after <:+: text := by
  obtain ⟨rest, hrest, rfl⟩ := Option.map_eq_some_iff.1 h
  exact (infix_trimStart rest).trans (infix_of_afterPrefix? hrest)

/-- All types of a function are read from its header. -/
theorem readFrom_of_readHeader {hasBody : Bool} {place : Location} {f : FunctionDecl}
    (h : readHeader scope place text = .ok (f, hasBody)) :
    ∀ type ∈ f.types, ReadFrom text type := by
  rw [readHeader] at h
  split at h
  rename_i isPublic rest hpublic
  have hrest : rest <:+: text := by
    split at hpublic
    · rename_i after hafter
      cases hpublic
      exact infix_of_afterWord? hafter
    · cases hpublic
      exact List.infix_refl text
  split at h
  · cases h
  · rename_i after hafter
    intro type htype
    exact (readFrom_of_readSignature h type htype).mono ((infix_of_afterWord? hafter).trans hrest)

end Outline

/-! ## Whole outlines -/

namespace Program

variable {program : Program} {text : String}

/-- **The types of a program that is read are in normal form**, whatever stands in the outline at
the place of a type: no union stands directly inside another, and every union has at least two
members.  A record type and a name that stands for no type keep a part of the outline. -/
theorem ofOutline_types (h : ofOutline text = .ok program) :
    ∀ f ∈ program.functions, ∀ type ∈ f.types,
      (∀ members, Ty.Occurs (.union members) type →
        2 ≤ members.length ∧ ∀ member ∈ members, member.isUnion = false) ∧
      ∀ kept, Ty.Occurs (.record kept) type ∨ Ty.Occurs (.unresolved kept) type →
        kept.toList <:+: text.toList := by
  intro f hf type htype
  obtain ⟨document, p, hdeclares, hlines⟩ := exists_passage_of_mem_functions h hf
  have hheader : p.header ∈ numberedLines text.toList := hlines (by simp [Passage.lines])
  have hread : ReadFrom text.toList type :=
    (readFrom_of_readHeader hdeclares.header type htype).mono
      ((infix_trim _).trans (infix_of_mem_numberedLines hheader))
  refine ⟨fun members hoccurs => ?_, fun kept hoccurs => ?_⟩
  · cases hread.normal.of_occurs hoccurs with
    | union many opened => exact ⟨many, opened⟩
  · rcases hoccurs with hoccurs | hoccurs
    · exact hread.infix_of_occurs rfl hoccurs
    · exact hread.infix_of_occurs rfl hoccurs

end Program

/-- An outline with bars, brackets and question marks at unusual places of its types. -/
def garbled : String := "document orders \x7b
function place(a||b? x, (d|(e)?)|record \x7b int i; \x7d y, >f|g[ z) returns |(h|m:k)?| \x7b\x7d
\x7d
"

theorem Program.ofOutline_types_garbled :
    ∃ program, Program.ofOutline garbled = .ok program ∧
      (∃ f ∈ program.functions, ∃ type ∈ f.types, type.isUnion = true) ∧
      ∀ f ∈ program.functions, ∀ type ∈ f.types, ∀ members,
        Ty.Occurs (.union members) type → 2 ≤ members.length := by
  have h : (Program.ofOutline garbled).toOption.any (fun program =>
      decide (∃ f ∈ program.functions, ∃ type ∈ f.types, type.isUnion = true)) = true := by
    rw [Program.ofOutline, show garbled = String.ofList _ from rfl, String.toList_ofList]
    decide +kernel
  obtain ⟨program, hread, hunion⟩ := exists_ok_of_any h
  refine ⟨program, hread, of_decide_eq_true hunion, ?_⟩
  intro f hf type htype members hoccurs
  exact ((Program.ofOutline_types hread f hf type htype).1 members hoccurs).1

end LambdaDeploy
