import LambdaDeploy.Proofs.Outline.ParamExpression
import LambdaDeploy.Proofs.Program.LastDocument

/-!
# Parameters with default values

The brace counter of an outline passes over string literals.  The scan for the parenthesis that
closes a parameter list and the scan for the commas in it do not, and the latter takes the signs
`<` and `>` for brackets.  So a default value can move the end of a parameter or of the list.
Which ones do is known exactly.

* `headerText` — a header with parameter expressions and an empty body.
* `readHeader_params_iff` — when it is read as it is written.
* `expression_headerText`, `isLine_headerText` — it is a line of its own with even braces, whatever
  its default values are.
* `Program.ofOutline_defaults_iff` — **when a header in a document is read as it is written.**
-/

namespace LambdaDeploy

open Text Outline

namespace Outline

variable {scope : Scope} {name : String} {params : List (ParamExpr scope)} {place : Location}

/-! ## The header -/

/-- A header with an empty body. -/
def headerText (name : String) (params : List (ParamExpr scope)) : List Char :=
  "function ".toList ++ (name.toList ++ '(' :: (ParamExpr.listText params ++ [')', ' ', '{', '}']))

/-- **A header is read as it is written exactly if the counting scans find its parameters and its
closing parenthesis.** -/
theorem readHeader_params_iff (hname : IsIdentifier name) (place : Location) :
    (∃ f, readHeader scope place (headerText name params) = .ok (f, false) ∧ f.name = name ∧
        f.params = params.map ParamExpr.meaning ∧ f.restParam = none) ↔
      ParamExpr.Separable params ∧ ParensMatch (ParamExpr.listText params) := by
  unfold headerText
  rw [readHeader_function hname]
  constructor
  · rintro ⟨f, hread, -, hparams, hrest⟩
    obtain ⟨n, hclose, hlist⟩ := exists_readParams_of_readSignature hname hread
    rw [hparams, hrest] at hlist
    obtain ⟨rfl, hseparable⟩ := ParamExpr.separable_of_readsAs (by decide) (by decide) hclose
      (readParams_eq_ok_iff.1 hlist)
    exact ⟨hseparable, closingParen?_behind_iff.1 hclose⟩
  · rintro ⟨hseparable, hmatch⟩
    have hlist := readParams_eq_ok_iff.2 (ParamExpr.forall₂_readsAs_of_separable hseparable)
    have hopening : readOpening (trim [' ', '{', '}']) = .ok ([], false) := by decide
    refine ⟨{ name := name, params := params.map ParamExpr.meaning, location := place }, ?_,
      rfl, rfl, rfl⟩
    rw [readSignature_eq hname, closingParen?_behind_iff.2 hmatch]
    dsimp only
    rw [List.take_left, List.drop_length_add_append, List.drop_one, List.tail_cons, hlist, hopening]
    rfl

/-! ## The line of a header -/

theorem expression_name (hname : IsIdentifier name) : Expression name.toList := by
  have hsigns : ∀ d ∈ ['"', '(', ')', '[', ']', '\x7b', '\x7d'], isNameChar d = false := by decide
  exact .of_forall fun c hc d hd => ne_of_isNameChar (hname.plain c hc) (hsigns d hd)

theorem ParamExpr.expression_text (p : ParamExpr scope) : Expression p.text := by
  have hdecl : Expression p.declText :=
    p.nested.append (.plain (by decide) (expression_name p.soundName))
  rw [text, valueText]
  cases p.default with
  | none => simpa [defaultText] using hdecl
  | some d =>
    have hsign : Expression [' ', '=', ' '] := .of_forall (by decide)
    exact hdecl.append (hsign.append d.nested)

theorem ParamExpr.oneLine_text (p : ParamExpr scope) : ∀ c ∈ p.text, c ≠ '\n' := by
  have hname := p.soundName.ne (d := '\n') (by decide)
  have htype : ∀ c ∈ p.type.text, c ≠ '\n' := fun c hc heq => p.oneLine (heq ▸ hc)
  have hvalue : ∀ c ∈ p.valueText, c ≠ '\n' := by
    rw [valueText]
    cases p.default with
    | none => exact List.forall_mem_nil _
    | some d =>
      refine List.forall_mem_append.2 ⟨by decide, fun c hc heq => d.oneLine (heq ▸ hc)⟩
  exact List.forall_mem_append.2
    ⟨List.forall_mem_append.2 ⟨htype, List.forall_mem_cons.2 ⟨by decide, hname⟩⟩, hvalue⟩

/-- A header with an empty body is an expression. -/
theorem expression_headerText (hname : IsIdentifier name) (params : List (ParamExpr scope)) :
    Expression (headerText name params) := by
  have hkeyword : Expression "function ".toList := .of_forall (by decide)
  have hlist : Expression (ParamExpr.listText params) := by
    refine .intercalate (.of_forall (by decide)) fun text htext => ?_
    obtain ⟨p, -, rfl⟩ := List.mem_map.1 htext
    exact p.expression_text
  have hbody : Expression [' ', '{', '}'] :=
    .plain (by decide) (.group .curly (by decide) .nil .nil)
  exact hkeyword.append ((expression_name hname).append (.group .round (by decide) hlist hbody))

theorem tight_headerText (name : String) (params : List (ParamExpr scope)) :
    Tight (headerText name params) := by
  have hkeyword : "function ".toList = "function".toList ++ [' '] := rfl
  have hword : Tight "function".toList := .of_forall (by decide) (by decide)
  have hbrace : Tight ['}'] := .of_forall (by simp) (by decide)
  have hshape : headerText name params = "function".toList ++
      (' ' :: (name.toList ++ '(' :: (ParamExpr.listText params ++ [')', ' ', '{']))) ++ ['}'] := by
    unfold headerText
    rw [hkeyword]
    simp only [List.append_assoc, List.cons_append, List.nil_append]
  rw [hshape]
  exact hword.between hbrace _

theorem isLine_headerText (hname : IsIdentifier name) (params : List (ParamExpr scope)) :
    IsLine (headerText name params) := by
  have hlist : ∀ c ∈ ParamExpr.listText params, c ≠ '\n' := by
    refine forall_mem_intercalate (by decide) fun text htext => ?_
    obtain ⟨p, -, rfl⟩ := List.mem_map.1 htext
    exact p.oneLine_text
  have hall : ∀ c ∈ headerText name params, c ≠ '\n' :=
    List.forall_mem_append.2 ⟨by decide, List.forall_mem_append.2
      ⟨hname.ne (by decide), List.forall_mem_cons.2
        ⟨by decide, List.forall_mem_append.2 ⟨hlist, by decide⟩⟩⟩⟩
  have hline : IsLine ([] ++ headerText name params) :=
    .of_tight (by simp) (tight_headerText name params) fun hend => hall _ hend rfl
  exact hline

end Outline

namespace Program

variable {program : Program} {base : String}

/-- **Parameter lists with default values are read correctly exactly if** no record type among the
parameters has an equals sign, no default value has a comma where the brackets in front of it add
up to zero, the brackets of every default value but the last add up to zero, and the parentheses
of the whole list match.  Angle brackets count, and so do brackets in string literals. -/
theorem ofOutline_defaults_iff (hended : base.toList.getLast? = some '\n')
    (h : ofOutline (base ++ "\x7d\n") = .ok program) {name : String} (hname : IsIdentifier name)
    (params : List (ParamExpr program.toScope)) :
    (∃ next f, ofOutline (base ++ String.ofList (headerText name params) ++ "\n\x7d\n") = .ok next ∧
        program.Gains next f ∧ f.name = name ∧ f.params = params.map ParamExpr.meaning ∧
          f.restParam = none) ↔
      ParamExpr.Separable params ∧ ParensMatch (ParamExpr.listText params) := by
  have hstart : ∀ c, (headerText name params).head? = some c → c = 'f' := by
    rintro c hc
    cases hc
    rfl
  have heven : braceDelta (headerText name params) = 0 := by
    rw [← List.append_nil (headerText name params),
      (expression_headerText hname params).braceDelta_append]
    rfl
  obtain ⟨place, hread, haccept⟩ := exists_place_of_insert hended (isLine_headerText hname params)
    (tight_headerText name params) (fun rest heq => by cases hstart '@' (by rw [heq]; rfl))
    (fun hcomment => by cases hstart ';' hcomment) heven h
  rw [← readHeader_params_iff hname place]
  constructor
  · rintro ⟨next, f, hnext, hgains, hparams⟩
    obtain ⟨g, hg, hother⟩ := hread next hnext
    have hsame : [f] = [g] := List.append_cancel_left (hgains.functions.symm.trans hother.functions)
    cases hsame
    exact ⟨f, hg, hparams⟩
  · rintro ⟨f, hf, hparams⟩
    obtain ⟨next, hnext, hgains⟩ := haccept f hf
    exact ⟨next, f, hnext, hgains, hparams⟩

end Program

/-! ## Samples -/

/-- An outline whose document is not closed yet. -/
def unclosed : String := "type Parcel;
document orders \x7b
"

/-- The program of the outline when its document is closed. -/
def unfilled : Program where
  package := ⟨"$anon", ".", "0.0.0"⟩
  types := ["Parcel"]
  documents := [⟨"orders", [], ""⟩]

theorem ofOutline_unclosed : Program.ofOutline (unclosed ++ "\x7d\n") = .ok unfilled := by
  have htext : unclosed ++ "\x7d\n" = "type Parcel;\ndocument orders \x7b\n\x7d\n" := rfl
  rw [htext, Program.ofOutline,
    show "type Parcel;\ndocument orders \x7b\n\x7d\n" = String.ofList _ from rfl,
    String.toList_ofList]
  exact eq_ok_of_toOption (by decide)

/-- The parameter `string separator = ","`. -/
def separatorParam : ParamExpr unfilled.toScope where
  type := .builtin .string
  name := "separator"
  default := some (.quoted [','] (.of_forall (by decide)) (by decide))
  oneLine := by decide
  nested := (TypeExpr.nested_text (.builtin .string)).expression (by decide)
  soundName := by decide

/-- The parameters `Parcel parcel, string title = "(a, b)", boolean few = n < 3`. -/
def parcelParams : List (ParamExpr unfilled.toScope) :=
  let parcel : TypeExpr unfilled.toScope false :=
    .declared "Parcel" (by decide) (by decide) (by decide)
  [{ type := parcel
     name := "parcel"
     oneLine := by decide
     nested := parcel.nested_text.expression (by decide)
     soundName := by decide },
   { separatorParam with
     name := "title"
     default := some (.quoted "(a, b)".toList (.of_forall (by decide)) (by decide))
     soundName := by decide },
   { type := .builtin .boolean
     name := "few"
     default := some ⟨"n < 3".toList, by decide, by decide, .of_forall (by decide)⟩
     oneLine := by decide
     nested := (TypeExpr.nested_text (.builtin .boolean)).expression (by decide)
     soundName := by decide }]

/-- The outline with a function that has these parameters. -/
def filled : String := "type Parcel;
document orders \x7b
function place(Parcel parcel, string title = \"(a, b)\", boolean few = n < 3) \x7b\x7d
\x7d
"

theorem Program.ofOutline_defaults_iff_sample :
    ∃ next f, Program.ofOutline filled = .ok next ∧ next.functions = [f] ∧
      f.params = [⟨"parcel", .named unfilled.package "Parcel", none⟩,
        ⟨"title", .builtin .string, some "\"(a, b)\""⟩,
        ⟨"few", .builtin .boolean, some "n < 3"⟩] := by
  have hname : IsIdentifier "place" := by decide
  have htext : unclosed ++ String.ofList (headerText "place" parcelParams) ++ "\n\x7d\n" =
      filled := by decide
  have hconditions : ParamExpr.Separable parcelParams ∧
      ParensMatch (ParamExpr.listText parcelParams) := by decide +kernel
  obtain ⟨next, f, hnext, hgains, -, hparams, -⟩ :=
    (Program.ofOutline_defaults_iff (by decide) ofOutline_unclosed hname parcelParams).2
      hconditions
  rw [htext] at hnext
  exact ⟨next, f, hnext, hgains.functions, hparams⟩

/-- The same document with a comma in the default value. -/
def refused : String := "type Parcel;
document orders \x7b
function place(string separator = \",\") \x7b\x7d
\x7d
"

/-- A comma in a string literal ends a parameter. -/
theorem comma_in_literal_refused :
    ¬ ∀ params : List (ParamExpr unfilled.toScope), ∃ next f,
        Program.ofOutline (unclosed ++ String.ofList (headerText "place" params) ++ "\n\x7d\n") =
          .ok next ∧ unfilled.Gains next f ∧ f.params = params.map ParamExpr.meaning := by
  intro hall
  obtain ⟨next, -, hnext, -⟩ := hall [separatorParam]
  have htext : unclosed ++ String.ofList (headerText "place" [separatorParam]) ++ "\n\x7d\n" =
      refused := by decide
  have hrefused : Program.ofOutline refused = .error (.outline 3 (.incompleteParameter "\"")) := by
    rw [Program.ofOutline, show refused = String.ofList _ from rfl, String.toList_ofList]
    decide
  rw [htext, hrefused] at hnext
  cases hnext

end LambdaDeploy
