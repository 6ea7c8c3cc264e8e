import LambdaDeploy.Proofs.Outline.ParamReading
import LambdaDeploy.Proofs.Outline.PrintedType
import Mathlib.Data.List.TakeWhile

/-!
# Reading printed annotations and parameters

The parts of a function's header, each read back from its written form.

* `Scope.readAnnotation_qualify` — an annotation.
* `Scope.readsAs_renderParam`, `Scope.readParam_renderRestParam` — one parameter, with or
  without a default value, and a rest parameter.
* `Scope.ParamText` — what a written parameter is like.
* `Scope.readParams_paramTexts` — **a printed parameter list is read back.**
-/

namespace LambdaDeploy.Scope

open Text Outline

variable {scope : Scope}

/-! ## Annotations -/

/-- A printed annotation is read back. -/
theorem readAnnotation_qualify (hscope : scope.Printable) {a : Annotation}
    (h : scope.PrintableAnnotation a) :
    readAnnotation scope (scope.qualify a.package a.name).toList = .ok a := by
  have hreference : ∀ {text : List Char}, (∀ c ∈ text, isNameChar c = true ∨ c = ':') →
      text.takeWhile (fun c => !(isBlank c || c == '{')) = text := by
    intro text htext
    rw [List.takeWhile_eq_self_iff]
    intro c hc
    rcases htext c hc with hname | rfl
    · have hbrace : c ≠ '{' := ne_of_isNameChar hname (by decide)
      simp [isBlank_of_isNameChar hname, hbrace]
    · decide
  have hcolon : ∀ {name : String}, IsIdentifier name → ∀ c ∈ name.toList, (c == ':') = false :=
    fun hname c hc => beq_eq_false_iff_ne.2 (hname.ne (by decide) c hc)
  rcases h.package with hown | ⟨i, hi, himported⟩
  · have hne : a.name.toList ≠ [] := by simpa using h.name.ne_empty
    rw [hown, qualify_own, readAnnotation, hreference fun c hc => .inl (h.name.plain c hc),
      cutFirst?_eq_none (hcolon h.name)]
    simp [hne, ← hown]
  · obtain ⟨j, hj, hpackage, hqualify⟩ := hscope.exists_qualify hi a.name
    have hqualifier := hscope.prefixes j hj
    have htext : (scope.qualify a.package a.name).toList =
        j.modulePrefix.toList ++ ':' :: a.name.toList := by
      rw [← himported, hqualify]
      simp
    have hplain : ∀ c ∈ j.modulePrefix.toList ++ ':' :: a.name.toList,
        isNameChar c = true ∨ c = ':' := by
      intro c hc
      rcases List.mem_append.1 hc with hc | hc
      · exact .inl (hqualifier.plain c hc)
      · exact (List.mem_cons.1 hc).elim .inr fun hc => .inl (h.name.plain c hc)
    rw [htext, readAnnotation, hreference hplain,
      cutFirst?_append_cons (hcolon hqualifier) (by decide)]
    simp only [String.ofList_toList, importAs?_of_mem hscope.distinct hj]
    rw [hpackage, himported]

/-! ## One parameter -/

/-- The type and the name of a parameter as they are written. -/
def declText (scope : Scope) (param : Param) : List Char :=
  (scope.renderType param.type).toList ++ ' ' :: param.name.toList

variable {param : Param}

theorem tight_declText (hscope : scope.Printable) (h : scope.PrintableParam param) :
    Tight (scope.declText param) := by
  have hbetween := (tight_renderType hscope h.type).between h.name.tight [' ']
  simpa [declText] using hbetween

theorem ordinary_declText (hscope : scope.Printable) (h : scope.PrintableParam param) :
    ∀ c ∈ scope.declText param, Ordinary c := by
  intro c hc
  rcases List.mem_append.1 hc with hc | hc
  · exact ordinary_renderType hscope h.type c hc
  · rcases List.mem_cons.1 hc with rfl | hc
    · decide
    · exact ordinary_identifier h.name c hc

theorem nested_declText (hscope : scope.Printable) (h : scope.PrintableParam param) :
    Nested (· ≠ ',') (scope.declText param) := by
  have htype := (nested_renderType hscope h.type).mono fun c hc => hc.1
  have hname : Nested (· ≠ ',') param.name.toList := .of_forall fun c hc =>
    ⟨bracketValue_of_isNameChar (h.name.plain c hc), h.name.ne (by decide) c hc⟩
  exact htype.append (.plain (by decide) (by decide) hname)

theorem toList_renderParam (scope : Scope) (param : Param) :
    (scope.renderParam param).toList =
      scope.declText param ++ defaultText (param.default.map String.toList) := by
  rw [renderParam, declText]
  cases param.default <;> simp [defaultText]

/-- A printed parameter is read back. -/
theorem readsAs_renderParam (hscope : scope.Printable) (h : scope.PrintableParam param) :
    ReadsAs scope (trim (scope.renderParam param).toList) param := by
  have htype := tight_renderType hscope h.type
  have hequals : '=' ∉ (scope.renderType param.type).toList := fun hmem =>
    (ordinary_renderType hscope h.type _ hmem).1 rfl
  have hdots : beforeSuffix? ['.', '.', '.'] (scope.renderType param.type).toList = none := by
    obtain ⟨front, c, hlast, -⟩ := htype.closes
    have hend : (scope.renderType param.type).toList.getLast? = some c := by
      rw [hlast, List.getLast?_concat]
    refine beforeSuffix?_eq_none ['.', '.'] hend ?_
    rcases (nested_renderType hscope h.type).getLast?_cases hend with hc | ⟨opening, hpair⟩
    · exact hc.2
    · cases hpair <;> decide
  have hvalue : (param.default.map String.toList).map (fun text => String.ofList (trim text)) =
      param.default := by
    cases hdefault : param.default with
    | none => rfl
    | some value => simp [(h.default value hdefault).trimmed]
  rw [toList_renderParam, ReadsAs, declText,
    readParam_decl htype hequals hdots h.name _ rfl, readType_renderType hscope h.type, hvalue]
  rfl

/-- A printed rest parameter is read back as the rest parameter. -/
theorem readParam_renderRestParam (hscope : scope.Printable) (h : scope.PrintableParam param)
    (hdefault : param.default = none) {list : ParamList} (hrest : list.rest = none) :
    readParam scope list (trim (scope.renderRestParam param).toList) =
      .ok { list with rest := some param } := by
  have htype := tight_renderType hscope h.type
  have htext : (scope.renderRestParam param).toList =
      ((scope.renderType param.type).toList ++ ['.', '.', '.']) ++ ' ' :: param.name.toList := by
    simp [renderRestParam]
  have htight : Tight (scope.renderRestParam param).toList := by
    have hbetween := htype.between h.name.tight ['.', '.', '.', ' ']
    simpa [htext] using hbetween
  have hequals : ∀ c ∈ (scope.renderRestParam param).toList, (c == '=') = false := by
    intro c hc
    rw [beq_eq_false_iff_ne]
    simp only [htext, List.mem_append, List.mem_cons] at hc
    rcases hc with (hc | hc) | rfl | hc
    · exact (ordinary_renderType hscope h.type c hc).1
    · rintro rfl
      simp at hc
    · decide
    · exact h.name.ne (by decide) c hc
  have helement : Tight ((scope.renderType param.type).toList ++ ['.', '.', '.']) := by
    have hbetween := htype.between (.of_forall (by simp) (by decide) : Tight ['.', '.', '.']) []
    simpa using hbetween
  rw [readParam, hrest, htight.trim_eq, cutDefault, cutFirst?_eq_none hequals]
  have hcut : cutLast? isBlank ((scope.renderType param.type).toList ++ ['.', '.', '.'] ++
      ' ' :: param.name.toList) =
        some ((scope.renderType param.type).toList ++ ['.', '.', '.'], param.name.toList) :=
    cutLast?_append_cons (by decide) fun c hc => isBlank_of_isNameChar (h.name.plain c hc)
  simp only [Option.isSome_none, Bool.false_eq_true, if_false, htext, hcut, helement.trim_eq,
    beforeSuffix?_append, htype.trim_eq, readType_renderType hscope h.type, String.ofList_toList]
  rw [← hdefault]

/-! ## Parameter lists -/

/-- The parameters of a function as they are written. -/
def paramTexts (scope : Scope) (params : List Param) (rest : Option Param) : List (List Char) :=
  (params.map fun param => (scope.renderParam param).toList) ++
    rest.toList.map fun param => (scope.renderRestParam param).toList

theorem toList_intercalate_params (scope : Scope) (params : List Param) (rest : Option Param) :
    (String.intercalate ", "
      (params.map scope.renderParam ++ rest.toList.map scope.renderRestParam)).toList =
        [',', ' '].intercalate (scope.paramTexts params rest) := by
  rw [String.toList_intercalate, paramTexts, List.map_append, List.map_map, List.map_map]
  rfl

variable {params : List Param} {rest : Option Param}

/-- What a written parameter is like: properly nested without commas outside brackets, without
quotes and line ends, and not blank. -/
structure ParamText (text : List Char) : Prop where
  nested : Nested (· ≠ ',') text
  plain : ∀ c ∈ text, c ≠ '"' ∧ c ≠ '\n'
  notBlank : trim text ≠ []

theorem ParamText.settled {text : List Char} (h : ParamText text) : Settled text :=
  ⟨h.nested.any, h.plain⟩

theorem ParamText.uncut {text : List Char} (h : ParamText text) : Uncut ',' 0 text :=
  h.nested.uncut_top (by decide)

theorem paramText_renderParam (hscope : scope.Printable) (h : scope.PrintableParam param) :
    ParamText (scope.renderParam param).toList := by
  have htail : ∀ c ∈ defaultText (param.default.map String.toList),
      bracketValue c = 0 ∧ c ≠ ',' ∧ c ≠ '"' ∧ c ≠ '\n' := by
    cases hdefault : param.default with
    | none => simp [defaultText]
    | some value =>
      have hsign : ∀ c ∈ [' ', '=', ' '], bracketValue c = 0 ∧ c ≠ ',' ∧ c ≠ '"' ∧ c ≠ '\n' := by
        decide
      intro c hc
      exact (List.mem_append.1 hc).elim (hsign c) ((h.default value hdefault).plain c)
  rw [toList_renderParam]
  refine ⟨?_, ?_, ?_⟩
  · exact (nested_declText hscope h).append
      (.of_forall fun c hc => ⟨(htail c hc).1, (htail c hc).2.1⟩)
  · intro c hc
    rcases List.mem_append.1 hc with hc | hc
    · exact (ordinary_declText hscope h c hc).2
    · exact (htail c hc).2.2
  · intro hblank
    have hdecl := tight_declText hscope h
    have hcut := cutDefault_decl hdecl
      (fun hmem => (ordinary_declText hscope h _ hmem).1 rfl) (param.default.map String.toList)
    rw [hblank] at hcut
    exact hdecl.ne_nil (congrArg Prod.fst hcut).symm

theorem paramText_renderRestParam (hscope : scope.Printable) (h : scope.PrintableParam param) :
    ParamText (scope.renderRestParam param).toList := by
  have htext : (scope.renderRestParam param).toList =
      (scope.renderType param.type).toList ++ (['.', '.', '.', ' '] ++ param.name.toList) := by
    simp [renderRestParam]
  refine ⟨?_, ?_, ?_⟩
  · have hdots : Nested (· ≠ ',') ['.', '.', '.', ' '] := .of_forall (by decide)
    have hwords : Nested (· ≠ ',') param.name.toList := .of_forall fun c hc =>
      ⟨bracketValue_of_isNameChar (h.name.plain c hc), h.name.ne (by decide) c hc⟩
    rw [htext]
    exact ((nested_renderType hscope h.type).mono fun c hc => hc.1).append (hdots.append hwords)
  · have hdots : Settled ['.', '.', '.', ' '] := .of_forall (by decide)
    rw [htext]
    exact ((settled_renderType hscope h.type).append (hdots.append h.name.settled)).plain
  · have htight := (tight_renderType hscope h.type).between h.name.tight
      ['.', '.', '.', ' ']
    rw [htext, ← List.append_assoc, htight.trim_eq]
    exact htight.ne_nil

theorem paramText_of_mem (hscope : scope.Printable)
    (hparams : ∀ param ∈ params, scope.PrintableParam param)
    (hrest : ∀ param ∈ rest, scope.PrintableParam param ∧ param.default = none) :
    ∀ text ∈ scope.paramTexts params rest, ParamText text := by
  intro text htext
  rcases List.mem_append.1 htext with htext | htext
  · obtain ⟨param, hparam, rfl⟩ := List.mem_map.1 htext
    exact paramText_renderParam hscope (hparams param hparam)
  · obtain ⟨param, hparam, rfl⟩ := List.mem_map.1 htext
    exact paramText_renderRestParam hscope (hrest param (Option.mem_toList.1 hparam)).1

/-- **A printed parameter list is read back.** -/
theorem readParams_paramTexts (hscope : scope.Printable)
    (hparams : ∀ param ∈ params, scope.PrintableParam param)
    (hrest : ∀ param ∈ rest, scope.PrintableParam param ∧ param.default = none) :
    readParams scope ([',', ' '].intercalate (scope.paramTexts params rest)) =
      .ok { params := params, rest := rest } := by
  have htexts := paramText_of_mem hscope hparams hrest
  have hpieces : paramPieces ([',', ' '].intercalate (scope.paramTexts params rest)) =
      (scope.paramTexts params rest).map trim :=
    paramPieces_intercalate
      (fun text htext => ⟨(htexts text htext).uncut, (htexts text htext).notBlank⟩)
      fun text htext => (htexts text (List.dropLast_subset _ htext)).nested.bracketSum_eq
  have hfirst : (params.map fun param => trim (scope.renderParam param).toList).foldlM
      (readParam scope) {} = .ok { params := params } := by
    refine (foldlM_readParam_eq_ok_iff rfl).2 (List.forall₂_map_left_iff.2 ?_)
    exact List.forall₂_same.2 fun param hparam => readsAs_renderParam hscope (hparams param hparam)
  rw [readParams, ← paramPieces, hpieces, paramTexts, List.map_append, List.foldlM_append,
    List.map_map, Function.comp_def, hfirst]
  cases rest with
  | none => rfl
  | some param =>
    obtain ⟨hparam, hdefault⟩ := hrest param rfl
    have hlast : readParam scope { params := params } (trim (scope.renderRestParam param).toList) =
        .ok { params := params, rest := some param } :=
      readParam_renderRestParam hscope hparam hdefault rfl
    simp only [Option.toList_some, List.map_cons, List.map_nil, List.foldlM_cons, List.foldlM_nil,
      bind, Except.bind, hlast]
    rfl

end LambdaDeploy.Scope
