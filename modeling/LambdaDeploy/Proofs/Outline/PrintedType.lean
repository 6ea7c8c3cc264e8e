import LambdaDeploy.Proofs.Outline.Printable
import LambdaDeploy.Proofs.Outline.TypeExpression
import LambdaDeploy.Proofs.Program.Qualifying

/-!
# Reading printed types

The written form of a type is the text of a type expression, and what that expression means is
the type itself.  So the type is read back.

* `Scope.Printable.exists_qualify` — how a name of an imported package is written.
* `Scope.exists_typeExpr` — the expression that a written type is the text of.
* `Scope.readType_renderType` — **a printed type is read back.**
* `Scope.nested_renderType`, `Scope.ordinary_renderType` — what a written type does not hold.
-/

namespace LambdaDeploy.Scope

open Text Outline

variable {scope : Scope} {type : Ty} {types : List Ty}

/-! ## Qualified names -/

/-- A name of an imported package is written behind the prefix of an import of it. -/
theorem Printable.exists_qualify (h : scope.Printable) {i : Import} (hi : i ∈ scope.imports)
    (name : String) :
    ∃ j ∈ scope.imports, j.package = i.package ∧
      scope.qualify i.package name = j.modulePrefix ++ ":" ++ name := by
  obtain ⟨j, hj, horg, hname, hqualify⟩ := Scope.exists_qualify hi (h.foreign i hi) name
  have hversion := (h.imports j hj).version.trans (h.imports i hi).version.symm
  refine ⟨j, hj, ?_, hqualify⟩
  cases hjp : j.package
  cases hip : i.package
  simp_all

/-! ## Types as expressions -/

/-- Members that are no unions are joined by bars to the text of their union. -/
theorem exists_union (hne : types ≠ []) (hopened : ∀ type ∈ types, type.isUnion = false)
    (heach : ∀ type ∈ types, ∃ barred, ∃ e : TypeExpr scope barred,
      e.text = (scope.renderType type).toList ∧ e.meaning = type) :
    ∃ barred, ∃ e : TypeExpr scope barred,
      e.text = (String.intercalate "|" (types.map scope.renderType)).toList ∧
        e.meaning.members = types ∧ (2 ≤ types.length → e.meaning = .union types) := by
  induction types with
  | nil => exact absurd rfl hne
  | cons type types ih =>
    rw [List.forall_mem_cons] at hopened heach
    obtain ⟨barred, e, htext, hmeaning⟩ := heach.1
    have hmembers : e.meaning.members = [type] := by
      rw [hmeaning, Ty.members_of_not_isUnion hopened.1]
    cases types with
    | nil => exact ⟨barred, e, by simp [htext], hmembers, fun hmany => absurd hmany (by simp)⟩
    | cons next types =>
      obtain ⟨_, rest, hrest, hothers, -⟩ := ih (by simp) hopened.2 heach.2
      have hunion : (TypeExpr.union e .none .none rest).meaning =
          .union (type :: next :: types) := by
        rw [TypeExpr.meaning, hmembers, hothers]
        rfl
      refine ⟨true, .union e .none .none rest, ?_, ?_, fun _ => hunion⟩
      · simp [TypeExpr.text, htext, hrest, Blanks.none, String.toList_intercalate]
      · rw [hunion, Ty.members_union (List.forall_mem_cons.2 ⟨hopened.1, hopened.2⟩)]

theorem exists_typeExpr (hscope : scope.Printable) (h : scope.PrintableType type) :
    ∃ barred, ∃ e : TypeExpr scope barred,
      e.text = (scope.renderType type).toList ∧ e.meaning = type ∧
        (barred = true → type.isUnion = true) := by
  induction h with
  | builtin b => exact ⟨false, .builtin b, rfl, rfl, by simp⟩
  | @declared name hknown =>
    obtain ⟨hname, hbuiltin⟩ := hscope.types name hknown
    have htype : scope.hasType name = true := by simpa [hasType] using hknown
    refine ⟨false, .declared name htype hbuiltin hname, ?_, rfl, by simp⟩
    rw [renderType, qualify_own]
    rfl
  | @imported i name hi hname =>
    obtain ⟨j, hj, hpackage, hqualify⟩ := hscope.exists_qualify hi name
    refine ⟨false, .qualified j.modulePrefix name j (importAs?_of_mem hscope.distinct hj)
      (hscope.prefixes j hj) hname, ?_, ?_, by simp⟩
    · rw [renderType, hqualify]
      simp [TypeExpr.text]
    · rw [TypeExpr.meaning, hpackage]
  | @union types hmany hopened _ ih =>
    have hne : types ≠ [] := by
      rintro rfl
      simp at hmany
    obtain ⟨barred, e, htext, -, hmeaning⟩ := exists_union hne hopened fun type htype => by
      obtain ⟨barred, e, htext, hmeaning, -⟩ := ih type htype
      exact ⟨barred, e, htext, hmeaning⟩
    refine ⟨barred, e, ?_, hmeaning hmany, fun _ => rfl⟩
    rw [renderType, renderTypes_eq_map, htext]
  | @array element _ ih =>
    obtain ⟨barred, e, htext, hmeaning, hbarred⟩ := ih
    cases hunion : element.isUnion with
    | true =>
      refine ⟨false, .array (.parens .none e .none) .none, ?_, ?_, by simp⟩
      · rw [renderType, if_pos hunion]
        simp [TypeExpr.text, htext, Blanks.none]
      · rw [TypeExpr.meaning, TypeExpr.meaning, hmeaning]
    | false =>
      cases barred with
      | true => exact absurd (hbarred rfl) (by simp [hunion])
      | false =>
        refine ⟨false, .array e .none, ?_, ?_, by simp⟩
        · rw [renderType, if_neg (by simp [hunion])]
          simp [TypeExpr.text, htext, Blanks.none]
        · rw [TypeExpr.meaning, hmeaning]
  | @map element _ ih =>
    obtain ⟨barred, e, htext, hmeaning, -⟩ := ih
    refine ⟨false, .map .none e .none, ?_, ?_, by simp⟩
    · rw [renderType]
      simp [TypeExpr.text, htext, Blanks.none]
    · rw [TypeExpr.meaning, hmeaning]
  | @record fields hfields =>
    have htext : String.ofList (recordText .one fields) =
        "record \x7b" ++ String.ofList fields ++ "\x7d" := by
      rw [← String.toList_inj]
      simp [recordText, Blanks.one]
    refine ⟨false, .record .one fields hfields.nested, ?_, ?_, by simp⟩
    · rw [renderType, ← htext, String.toList_ofList]
      rfl
    · rw [TypeExpr.meaning, htext]

/-! ## Reading and scanning -/

/-- **A printed type is read back.** -/
theorem readType_renderType (hscope : scope.Printable) (h : scope.PrintableType type) :
    readType scope (scope.renderType type).toList = type := by
  obtain ⟨barred, e, htext, hmeaning, -⟩ := exists_typeExpr hscope h
  rw [← htext, e.reads.type, hmeaning]

theorem tight_renderType (hscope : scope.Printable) (h : scope.PrintableType type) :
    Tight (scope.renderType type).toList := by
  obtain ⟨barred, e, htext, -⟩ := exists_typeExpr hscope h
  exact htext ▸ e.tight_text

/-- A written type is properly nested, and outside its brackets there are no commas and no
dots. -/
theorem nested_renderType (hscope : scope.Printable) (h : scope.PrintableType type) :
    Nested (fun c => c ≠ ',' ∧ c ≠ '.') (scope.renderType type).toList := by
  obtain ⟨barred, e, htext, -⟩ := exists_typeExpr hscope h
  have hsign : ∀ c, TypeExpr.Outer barred c → c ≠ ',' ∧ c ≠ '.' := by
    intro c hc
    constructor
    all_goals
      rintro rfl
      revert hc
      simp [TypeExpr.Outer]
      decide
  exact htext ▸ e.nested_text.mono hsign

theorem ordinary_identifier {name : String} (h : IsIdentifier name) :
    ∀ c ∈ name.toList, Ordinary c := fun c hc =>
  ⟨h.ne (by decide) c hc, h.ne (by decide) c hc, h.ne (by decide) c hc⟩

/-- A written type holds no equals sign, no quote and no line end. -/
theorem ordinary_renderType (hscope : scope.Printable) (h : scope.PrintableType type) :
    ∀ c ∈ (scope.renderType type).toList, Ordinary c := by
  have hjoin : ∀ {first second : String}, (∀ c ∈ first.toList, Ordinary c) →
      (∀ c ∈ second.toList, Ordinary c) → ∀ c ∈ (first ++ second).toList, Ordinary c := by
    intro first second hfirst hsecond c hc
    rw [String.toList_append, List.mem_append] at hc
    exact hc.elim (hfirst c) (hsecond c)
  induction h with
  | builtin b =>
    rw [renderType]
    cases b <;> decide
  | @declared name hknown =>
    rw [renderType, qualify_own]
    exact ordinary_identifier (hscope.types name hknown).1
  | @imported i name hi hname =>
    obtain ⟨j, hj, -, hqualify⟩ := hscope.exists_qualify hi name
    rw [renderType, hqualify]
    exact hjoin (hjoin (ordinary_identifier (hscope.prefixes j hj)) (by decide))
      (ordinary_identifier hname)
  | @union types _ _ _ ih =>
    rw [renderType, renderTypes_eq_map, String.toList_intercalate]
    refine forall_mem_intercalate (by decide) fun text htext => ?_
    obtain ⟨_, hwritten, rfl⟩ := List.mem_map.1 htext
    obtain ⟨type, htype, rfl⟩ := List.mem_map.1 hwritten
    exact ih type htype
  | array _ ih =>
    rw [renderType]
    split
    · exact hjoin (hjoin (by decide) ih) (by decide)
    · exact hjoin ih (by decide)
  | map _ ih =>
    rw [renderType]
    exact hjoin (hjoin (by decide) ih) (by decide)
  | record hfields =>
    rw [renderType]
    refine hjoin (hjoin (by decide) ?_) (by decide)
    rw [String.toList_ofList]
    exact hfields.ordinary

theorem settled_renderType (hscope : scope.Printable) (h : scope.PrintableType type) :
    Settled (scope.renderType type).toList :=
  ⟨(nested_renderType hscope h).any, fun c hc => (ordinary_renderType hscope h c hc).2⟩

end LambdaDeploy.Scope
