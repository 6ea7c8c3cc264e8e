import LambdaDeploy.Proofs.Outline.PrintedParams

/-!
# Reading printed headers

The header of a function, read back from its written form.

* `Scope.toList_renderSignature` — the parts of a written header.
* `Scope.readReturns_printed`, `Scope.readSignature_printed` — the parts are read one after the
  other.
* `Scope.readHeader_renderSignature` — **a printed header is read back.**
* `Scope.headerLine` — a written header is a line of its own that opens one brace.
-/

namespace LambdaDeploy.Scope

open Text Outline

variable {scope : Scope} {f : FunctionDecl}

/-! ## The parts of a header -/

/-- The result type of a function as it is written behind the parameters. -/
def resultText (scope : Scope) (f : FunctionDecl) : List Char :=
  match f.returnType with
  | some type => " returns ".toList ++ (scope.renderType type).toList
  | none => []

/-- The words in front of a function's name. -/
def keywords (f : FunctionDecl) : List Char :=
  (if f.isPublic then "public ".toList else []) ++ "function ".toList

/-- The written form of a header from the function's name on. -/
def signatureText (scope : Scope) (f : FunctionDecl) : List Char :=
  f.name.toList ++ '(' :: ([',', ' '].intercalate (scope.paramTexts f.params f.restParam) ++
    ')' :: (scope.resultText f ++ [' ', '{']))

theorem toList_renderSignature (scope : Scope) (f : FunctionDecl) :
    (scope.renderSignature f).toList = keywords f ++ scope.signatureText f := by
  have hkeywords : (if f.isPublic then "public " else "").toList =
      if f.isPublic then "public ".toList else [] := by
    split <;> rfl
  rw [renderSignature]
  cases hreturn : f.returnType with
  | none =>
    simp only [String.toList_append, hkeywords, toList_intercalate_params, keywords,
      signatureText, resultText, hreturn, List.append_assoc]
    rfl
  | some type =>
    simp only [String.toList_append, hkeywords, toList_intercalate_params, keywords,
      signatureText, resultText, hreturn, List.append_assoc]
    rfl

/-! ## Reading the parts -/

theorem trim_resultText (hscope : scope.Printable) {type : Ty}
    (h : scope.PrintableType type) :
    Tight ("returns ".toList ++ (scope.renderType type).toList) := by
  have hword : Tight "returns".toList := .of_forall (by decide) (by decide)
  exact hword.between (tight_renderType hscope h) [' ']

/-- The end of a header is split at its opening brace. -/
theorem readOpening_printed (hscope : scope.Printable) (h : scope.PrintableFunction f) :
    readOpening (trim (scope.resultText f ++ [' ', '{'])) =
      .ok (trim (scope.resultText f), true) := by
  have hbrace : Tight ['{'] := .of_forall (by simp) (by decide)
  have hbody : ∀ result, readOpening (result ++ ['{']) = .ok (trim result, true) := by
    intro result
    have hempty : beforeSuffix? ['{', '}'] (result ++ ['{']) = none :=
      beforeSuffix?_eq_none ['{'] List.getLast?_concat (by decide)
    rw [readOpening, hempty, beforeSuffix?_append]
  cases hreturn : f.returnType with
  | none =>
    rw [resultText, hreturn]
    exact hbody []
  | some type =>
    have htype := trim_resultText hscope (h.returnType type hreturn)
    have htext : scope.resultText f =
        [' '] ++ ("returns ".toList ++ (scope.renderType type).toList) := by
      rw [resultText, hreturn]
      rfl
    have htail : trim (scope.resultText f ++ [' ', '{']) =
        ("returns ".toList ++ (scope.renderType type).toList) ++ [' '] ++ ['{'] := by
      have hpad : trim ([' '] ++ ("returns ".toList ++ (scope.renderType type).toList ++ [' '] ++
          ['{'])) = "returns ".toList ++ (scope.renderType type).toList ++ [' '] ++ ['{'] :=
        trim_blank_append (by decide) (htype.between hbrace [' ']).trim_eq
      rw [htext]
      simpa using hpad
    rw [htail, hbody, htext, trim_append_blank (by decide) htype.trim_eq,
      trim_blank_append (by decide) htype.trim_eq]

theorem readReturns_printed (hscope : scope.Printable) (h : scope.PrintableFunction f) :
    readReturns scope (trim (scope.resultText f)) = .ok f.returnType := by
  cases hreturn : f.returnType with
  | none =>
    rw [resultText, hreturn]
    rfl
  | some type =>
    have hprintable := h.returnType type hreturn
    have htype := tight_renderType hscope hprintable
    have htext : trim (scope.resultText f) =
        "returns".toList ++ ([' '] ++ (scope.renderType type).toList) := by
      have hblank : ∀ c ∈ [' '], isBlank c = true := by decide
      rw [resultText, hreturn]
      exact trim_blank_append hblank (trim_resultText hscope hprintable).trim_eq
    have htrim : (afterPrefix? "returns".toList (trim (scope.resultText f))).map trim =
        some (scope.renderType type).toList := by
      rw [htext, afterPrefix?_append, Option.map_some, trim_blank_append (by decide) htype.trim_eq]
    obtain ⟨c, rest, hcons, -⟩ := htype.opens
    rw [readReturns, if_neg (by rw [htext]; simp), htrim, hcons]
    simp only [← hcons, readType_renderType hscope hprintable]

/-- A printed header is read back from the function's name on. -/
theorem readSignature_printed (hscope : scope.Printable) (h : scope.PrintableFunction f)
    (isPublic : Bool) (place : Location) :
    readSignature scope isPublic place (scope.signatureText f) =
      .ok ({ name := f.name, isPublic := isPublic, params := f.params, restParam := f.restParam,
             returnType := f.returnType, location := place }, true) := by
  have htexts := paramText_of_mem hscope h.params h.restParam
  have hnested : Nested (fun _ => True)
      ([',', ' '].intercalate (scope.paramTexts f.params f.restParam)) :=
    .intercalate (.of_forall (by decide)) fun text htext => (htexts text htext).nested.any
  have hparams := readParams_paramTexts hscope h.params h.restParam
  have hopening := readOpening_printed hscope h
  rw [signatureText, readSignature_eq h.name, closingParen?_behind hnested]
  dsimp only
  rw [List.take_left, List.drop_length_add_append, List.drop_one, List.tail_cons, hparams,
    hopening]
  simp only [bind, Except.bind, readReturns_printed hscope h]
  rfl

/-- **A printed header is read back**, but for annotations and body. -/
theorem readHeader_renderSignature (hscope : scope.Printable) (h : scope.PrintableFunction f)
    (place : Location) :
    readHeader scope place (scope.renderSignature f).toList =
      .ok ({ name := f.name, isPublic := f.isPublic, params := f.params,
             restParam := f.restParam, returnType := f.returnType, location := place }, true) := by
  rw [toList_renderSignature, keywords, List.append_assoc, ← readSignature_printed hscope h]
  cases f.isPublic with
  | true => exact readHeader_public h.name scope place _
  | false => exact readHeader_function h.name scope place _

/-! ## The line of a header -/

theorem settled_resultText (hscope : scope.Printable) (h : scope.PrintableFunction f) :
    Settled (scope.resultText f) := by
  cases hreturn : f.returnType with
  | none =>
    rw [resultText, hreturn]
    exact .of_forall (by simp)
  | some type =>
    have hword : Settled " returns ".toList := .of_forall (by decide)
    rw [resultText, hreturn]
    exact hword.append (settled_renderType hscope (h.returnType type hreturn))

theorem settled_keywords (f : FunctionDecl) : Settled (keywords f) := by
  rw [keywords]
  cases f.isPublic
  all_goals exact .of_forall (by decide)

/-- The braces of a written header cancel out, but for the one at its end. -/
theorem exists_settled_renderSignature (hscope : scope.Printable)
    (h : scope.PrintableFunction f) :
    ∃ front, (scope.renderSignature f).toList = front ++ ['{'] ∧ Settled front := by
  have htexts := paramText_of_mem hscope h.params h.restParam
  have hparams : Settled ([',', ' '].intercalate (scope.paramTexts f.params f.restParam)) :=
    .intercalate (.of_forall (by decide)) fun text htext => (htexts text htext).settled
  have hblank : Settled [' '] := .of_forall (by decide)
  refine ⟨keywords f ++ (f.name.toList ++ (('(' ::
    ([',', ' '].intercalate (scope.paramTexts f.params f.restParam) ++ [')'])) ++
      (scope.resultText f ++ [' ']))), ?_, ?_⟩
  · rw [toList_renderSignature, signatureText]
    simp
  · exact (settled_keywords f).append (h.name.settled.append ((hparams.enclosed .round).append
      ((settled_resultText hscope h).append hblank)))

/-- A written header begins with a word. -/
theorem exists_cons_renderSignature (scope : Scope) (f : FunctionDecl) :
    ∃ c rest, (scope.renderSignature f).toList = c :: rest ∧ isNameChar c = true := by
  rw [toList_renderSignature, keywords]
  cases f.isPublic
  all_goals exact ⟨_, _, rfl, by decide⟩

/-- A written header is a line of its own that opens one brace. -/
theorem headerLine (hscope : scope.Printable) (h : scope.PrintableFunction f) :
    PrintableLine (scope.renderSignature f).toList ∧
      braceDelta (scope.renderSignature f).toList = 1 := by
  obtain ⟨front, htext, hsettled⟩ := exists_settled_renderSignature hscope h
  obtain ⟨c, rest, hstart, hc⟩ := exists_cons_renderSignature scope f
  have htight : Tight (scope.renderSignature f).toList :=
    ⟨⟨c, rest, hstart, isBlank_of_isNameChar hc⟩, ⟨front, '{', htext, by decide⟩⟩
  refine ⟨⟨htight, ?_, ?_⟩, ?_⟩
  · rw [htext, List.mem_append, not_or]
    exact ⟨fun hend => (hsettled.plain _ hend).2 rfl, by decide⟩
  · rw [hstart, List.head?_cons]
    exact fun hsame => ne_of_isNameChar hc (by decide) (Option.some.inj hsame)
  · rw [htext, hsettled.braceDelta_append]
    decide

end LambdaDeploy.Scope
