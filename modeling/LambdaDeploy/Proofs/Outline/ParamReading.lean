import LambdaDeploy.Outline.Header
import LambdaDeploy.Proofs.Steps
import LambdaDeploy.Proofs.Text.Counting
import LambdaDeploy.Proofs.Text.Identifier
import Mathlib.Data.List.Forall2

/-!
# Reading parameter lists

What the reader of a header makes of the text between its parentheses, piece by piece.

* `cutDefault_decl`, `readParam_decl` — a type, a name and perhaps a default value.
* `ReadsAs` — the parameter that a piece is read as.
* `foldlM_readParam_eq_ok_iff` — pieces are read as the parameters that each of them is read as.
* `paramPieces_intercalate` — joined pieces are found again.
* `readHeader_function`, `readHeader_public` — the words in front of a function's name.
* `readSignature_eq` — a header from its name on, split at the closing parenthesis.
-/

namespace LambdaDeploy.Outline

open Text

variable {scope : Scope} {list next : ParamList} {text decl type : List Char} {name : String}
  {param : Param} {texts pieces : List (List Char)} {params : List Param}

/-! ## One parameter -/

/-- A default value as it is written behind a parameter. -/
def defaultText : Option (List Char) → List Char
  | none => []
  | some value => [' ', '=', ' '] ++ value

/-- A default value is cut off again, without the blanks around it. -/
theorem cutDefault_decl (htight : Tight decl) (hequals : '=' ∉ decl) (value : Option (List Char)) :
    cutDefault (trim (decl ++ defaultText value)) =
      (decl, value.map fun text => String.ofList (trim text)) := by
  have hno : ∀ c ∈ decl, (c == '=') = false := fun c hc =>
    beq_eq_false_iff_ne.2 fun heq => hequals (heq ▸ hc)
  cases value with
  | none =>
    rw [defaultText, List.append_nil, htight.trim_eq, cutDefault, cutFirst?_eq_none hno]
    rfl
  | some value =>
    -- a blank value leaves nothing behind the sign
    obtain ⟨rest, hrest, hvalue⟩ : ∃ rest, trim (decl ++ defaultText (some value)) =
        (decl ++ [' ']) ++ '=' :: rest ∧ trim rest = trim value := by
      obtain ⟨left, right, hleft, hright, htext⟩ := exists_trim_append value
      by_cases hblank : trim value = []
      · have hsign := htight.between (.of_forall (by simp) (by decide) : Tight ['=']) [' ']
        have hpad : ∀ c ∈ ' ' :: value, isBlank c = true := by
          rw [htext, hblank, List.append_nil, List.forall_mem_cons]
          exact ⟨by decide, fun c hc => (List.mem_append.1 hc).elim (hleft c) (hright c)⟩
        refine ⟨[], ?_, by rw [hblank]; rfl⟩
        have htrim := trim_append_blank hpad hsign.trim_eq
        simpa [defaultText] using htrim
      · have hfilled : Tight (trim value) := .of_trim (trim_trim value) hblank
        have hfront : ∀ c ∈ ' ' :: left, isBlank c = true :=
          List.forall_mem_cons.2 ⟨by decide, hleft⟩
        refine ⟨(' ' :: left) ++ trim value, ?_, trim_blank_append hfront (trim_trim value)⟩
        have htrim := trim_append_blank hright
          (htight.between hfilled ([' ', '=', ' '] ++ left)).trim_eq
        have hshape : decl ++ defaultText (some value) =
            decl ++ ([' ', '=', ' '] ++ left) ++ trim value ++ right := by
          conv_lhs => rw [htext]
          simp [defaultText]
        rw [hshape, htrim]
        simp
    have hbefore : ∀ c ∈ decl ++ [' '], (c == '=') = false := by
      intro c hc
      rcases List.mem_append.1 hc with hc | hc
      · exact hno c hc
      · rw [List.mem_singleton.1 hc]
        decide
    have hdecl : trim (decl ++ [' ']) = decl := trim_append_blank (by decide) htight.trim_eq
    rw [hrest, cutDefault, cutFirst?_append_cons hbefore (by decide)]
    simp [hdecl, hvalue]

/-- A type, a name and perhaps a default value are read as one more parameter. -/
theorem readParam_decl (htype : Tight type) (hequals : '=' ∉ type)
    (hdots : beforeSuffix? ['.', '.', '.'] type = none) (hname : IsIdentifier name)
    (value : Option (List Char)) (hrest : list.rest = none) :
    readParam scope list (trim (type ++ ' ' :: name.toList ++ defaultText value)) =
      .ok { list with
        params := list.params ++
          [⟨name, readType scope type, value.map fun text => String.ofList (trim text)⟩] } := by
  have hdecl : Tight (type ++ ' ' :: name.toList) := by
    simpa using htype.between hname.tight [' ']
  have hsign : '=' ∉ type ++ ' ' :: name.toList := by
    intro hmem
    rcases List.mem_append.1 hmem with hmem | hmem
    · exact hequals hmem
    · exact hname.ne (by decide) '=' ((List.mem_cons.1 hmem).resolve_left (by decide)) rfl
  have hcut : cutLast? isBlank (type ++ ' ' :: name.toList) = some (type, name.toList) :=
    cutLast?_append_cons (by decide) fun c hc => isBlank_of_isNameChar (hname.plain c hc)
  rw [readParam, hrest, cutDefault_decl hdecl hsign]
  simp only [Option.isSome_none, Bool.false_eq_true, if_false, hcut, htype.trim_eq, hdots,
    String.ofList_toList]

/-- The text is read as this parameter. -/
def ReadsAs (scope : Scope) (text : List Char) (param : Param) : Prop :=
  readParam scope {} text = .ok { params := [param] }

/-- What a piece is read as does not depend on the parameters in front of it. -/
theorem readParam_eq (hrest : list.rest = none) (text : List Char) :
    readParam scope list text =
      (readParam scope {} text).map fun one => ⟨list.params ++ one.params, one.rest⟩ := by
  rw [readParam, readParam, hrest]
  simp only [Option.isSome_none, Bool.false_eq_true, if_false]
  split
  · rfl
  · split
    · split
      · rfl
      · simp [Except.map]
    · rfl

/-- A piece that is read behind other parameters is read as it is alone, and none of the others is
a rest parameter. -/
theorem exists_of_readParam (h : readParam scope list text = .ok next) :
    list.rest = none ∧ ∃ one, readParam scope {} text = .ok one ∧
      next = ⟨list.params ++ one.params, one.rest⟩ := by
  have hnone : list.rest = none := by
    rw [readParam] at h
    split at h
    · cases h
    · rename_i hnone
      simpa using hnone
  rw [readParam_eq hnone] at h
  cases hone : readParam scope {} text with
  | error fault =>
    rw [hone] at h
    cases h
  | ok one =>
    rw [hone] at h
    cases h
    exact ⟨hnone, one, rfl, rfl⟩

/-- A piece is read as a parameter, or as a rest parameter. -/
theorem readParam_cases {one : ParamList} (h : readParam scope {} text = .ok one) :
    (∃ param, one = ⟨[param], none⟩) ∨ ∃ rest, one = ⟨[], some rest⟩ := by
  rw [readParam] at h
  dsimp only [Option.isSome_none] at h
  rw [if_neg Bool.false_ne_true] at h
  split at h
  · cases h
  · split at h
    · split at h
      · cases h
      · cases h
        exact .inr ⟨_, rfl⟩
    · cases h
      exact .inl ⟨_, rfl⟩

/-! ## Many parameters -/

/-- Nothing is read behind a rest parameter. -/
theorem isSome_rest_of_foldlM (hrest : list.rest.isSome)
    (h : texts.foldlM (readParam scope) list = .ok next) : next.rest.isSome := by
  cases texts with
  | nil =>
    cases h
    exact hrest
  | cons text texts =>
    rw [List.foldlM_cons, readParam, if_pos hrest] at h
    cases h

/-- Parameters that are read stay. -/
theorem prefix_of_foldlM (h : texts.foldlM (readParam scope) list = .ok next) :
    list.params <+: next.params := by
  refine foldlM_invariant (fun read : ParamList => list.params <+: read.params) ?_
    (List.prefix_refl _) h
  intro read text more hread hmore
  obtain ⟨-, one, -, rfl⟩ := exists_of_readParam hmore
  exact hread.trans (List.prefix_append _ _)

/-- Pieces are read as the parameters that each of them is read as. -/
theorem foldlM_readParam_eq_ok_iff (hrest : list.rest = none) :
    texts.foldlM (readParam scope) list = .ok ⟨list.params ++ params, none⟩ ↔
      List.Forall₂ (ReadsAs scope) texts params := by
  induction texts generalizing list params with
  | nil =>
    obtain ⟨before, rest⟩ := list
    cases hrest
    simp [pure, Except.pure]
  | cons text texts ih =>
    rw [List.foldlM_cons, readParam_eq hrest, List.forall₂_cons_left_iff]
    cases hone : readParam scope {} text with
    | error fault =>
      refine iff_of_false (fun h => by cases h) ?_
      rintro ⟨param, _, hread, -⟩
      rw [ReadsAs, hone] at hread
      cases hread
    | ok one =>
      simp only [Except.map, bind, Except.bind]
      rcases readParam_cases hone with ⟨param, rfl⟩ | ⟨rest, rfl⟩
      · have hothers (others : List Param) :
            texts.foldlM (readParam scope) ⟨list.params ++ [param], none⟩ =
                .ok ⟨list.params ++ param :: others, none⟩ ↔
              List.Forall₂ (ReadsAs scope) texts others := by
          have hmore : (⟨list.params ++ [param], none⟩ : ParamList).rest = none := rfl
          rw [List.append_cons list.params param others]
          exact ih hmore
        constructor
        · intro h
          obtain ⟨others, hmore⟩ := prefix_of_foldlM h
          rw [List.append_assoc, List.append_cancel_left_eq, List.singleton_append] at hmore
          subst hmore
          exact ⟨param, others, hone, (hothers others).1 h, rfl⟩
        · rintro ⟨read, others, hread, hmore, rfl⟩
          rw [ReadsAs, hone] at hread
          cases hread
          exact (hothers others).2 hmore
      · refine iff_of_false (fun h => ?_) ?_
        · have hsome := isSome_rest_of_foldlM rfl h
          cases hsome
        · rintro ⟨read, _, hread, -⟩
          rw [ReadsAs, hone] at hread
          cases hread

/-- The pieces of a parameter list that are read. -/
def paramPieces (text : List Char) : List (List Char) :=
  ((splitTop ',' text).map trim).filter (· ≠ [])

/-- A list without a rest parameter is read piece by piece. -/
theorem readParams_eq_ok_iff :
    readParams scope text = .ok { params := params } ↔
      List.Forall₂ (ReadsAs scope) (paramPieces text) params := by
  have hnothing : ({} : ParamList).rest = none := rfl
  exact foldlM_readParam_eq_ok_iff hnothing

/-! ## Pieces -/

theorem map_trim_consFirst (hne : pieces ≠ []) :
    (consFirst ' ' pieces).map trim = pieces.map trim := by
  cases pieces with
  | nil => exact absurd rfl hne
  | cons piece pieces =>
    have htrim : trim (' ' :: piece) = trim piece := by
      rw [trim, trim, ← List.singleton_append, trimStart_append_of_blank (by decide)]
    rw [consFirst, List.map_cons, List.map_cons, htrim]

/-- A blank in front of a parameter list does not matter. -/
theorem paramPieces_blank (text : List Char) : paramPieces (' ' :: text) = paramPieces text := by
  have hblank : splitTop ',' (' ' :: text) = consFirst ' ' (splitTop ',' text) :=
    splitTopFrom_cons (by decide)
  have hsome : splitTop ',' text ≠ [] := splitTopFrom_ne_nil
  rw [paramPieces, hblank, map_trim_consFirst hsome]
  rfl

/-- An uncut text is one piece. -/
theorem paramPieces_of_uncut (h : Uncut ',' 0 text) (hne : trim text ≠ []) :
    paramPieces text = [trim text] := by
  rw [paramPieces, splitTop_of_uncut h]
  simp [hne]

/-- A comma at depth zero ends a piece. -/
theorem paramPieces_append (hzero : bracketSum text = 0) (rest : List Char) :
    paramPieces (text ++ ',' :: rest) = paramPieces text ++ paramPieces rest := by
  rw [paramPieces, splitTop_append_cons (by decide) hzero, List.map_append, List.filter_append]
  rfl

/-- Joined pieces are found again, up to the blanks around them. -/
theorem paramPieces_intercalate (h : ∀ piece ∈ pieces, Uncut ',' 0 piece ∧ trim piece ≠ [])
    (hclosed : ∀ piece ∈ pieces.dropLast, bracketSum piece = 0) :
    paramPieces ([',', ' '].intercalate pieces) = pieces.map trim := by
  induction pieces with
  | nil => rfl
  | cons piece pieces ih =>
    obtain ⟨⟨huncut, hne⟩, hothers⟩ := List.forall_mem_cons.1 h
    cases pieces with
    | nil => simpa using paramPieces_of_uncut huncut hne
    | cons next pieces =>
      rw [List.dropLast_cons_cons, List.forall_mem_cons] at hclosed
      rw [List.intercalate_cons_cons, List.append_assoc, List.cons_append, List.singleton_append,
        paramPieces_append hclosed.1, paramPieces_of_uncut huncut hne, paramPieces_blank,
        ih hothers hclosed.2]
      rfl

/-! ## Headers -/

theorem afterWord?_function (hname : IsIdentifier name) (text : List Char) :
    afterWord? "function ".toList ("function ".toList ++ (name.toList ++ text)) =
      some (name.toList ++ text) := by
  have hstart : trimStart (name.toList ++ text) = name.toList ++ text := by
    obtain ⟨c, rest, hcons, hc⟩ := hname.tight.opens
    apply trimStart_eq_self
    rw [hcons]
    rintro d hd
    cases hd
    exact hc
  rw [afterWord?, afterPrefix?_append, Option.map_some, hstart]

/-- The word in front of a name is taken off. -/
theorem readHeader_function (hname : IsIdentifier name) (scope : Scope) (place : Location)
    (text : List Char) :
    readHeader scope place ("function ".toList ++ (name.toList ++ text)) =
      readSignature scope false place (name.toList ++ text) := by
  have hprivate : ∀ rest, afterWord? "public ".toList ("function ".toList ++ rest) = none :=
    fun _ => rfl
  simp only [readHeader, hprivate, afterWord?_function hname]

theorem readHeader_public (hname : IsIdentifier name) (scope : Scope) (place : Location)
    (text : List Char) :
    readHeader scope place ("public ".toList ++ ("function ".toList ++ (name.toList ++ text))) =
      readSignature scope true place (name.toList ++ text) := by
  have hpublic : ∀ rest, afterWord? "public ".toList ("public ".toList ++
      ("function ".toList ++ rest)) = some ("function ".toList ++ rest) := by
    intro rest
    rw [afterWord?, afterPrefix?_append]
    rfl
  simp only [readHeader, hpublic, afterWord?_function hname]

/-- A header from its name on, split at the parenthesis that closes the one behind the name. -/
theorem readSignature_eq (hname : IsIdentifier name) (scope : Scope) (isPublic : Bool)
    (place : Location) (text : List Char) :
    readSignature scope isPublic place (name.toList ++ '(' :: text) =
      match closingParen? 1 text with
      | none => .error .unbalancedParameters
      | some n => do
        let list ← readParams scope (text.take n)
        let (result, hasBody) ← readOpening (trim (text.drop (n + 1)))
        let returnType ← readReturns scope result
        return ({ name := name, isPublic := isPublic, params := list.params,
                  restParam := list.rest, returnType := returnType, location := place },
                hasBody) := by
  have hstart : (name.toList ++ '(' :: text).findIdx? (· == '(') = some name.toList.length := by
    have hparen : ∀ c ∈ name.toList, (c == '(') = false := fun c hc =>
      beq_eq_false_iff_ne.2 (hname.ne (by decide) c hc)
    rw [List.findIdx?_append, List.findIdx?_eq_none_iff.2 hparen]
    simp [List.findIdx?_cons]
  have hmatching : matchingParen? (name.toList ++ '(' :: text) name.toList.length =
      (closingParen? 1 text).map (· + 1 + name.toList.length) := by
    have hvalue : parenValue '(' = 1 := by decide
    rw [matchingParen?, List.drop_left, closingParen?, if_neg (by decide), hvalue, Option.map_map]
    rfl
  have hbehind (n : Nat) : (name.toList ++ '(' :: text).drop (n + 1 + name.toList.length) =
      text.drop n := by
    rw [Nat.add_comm, ← List.drop_drop, List.drop_left, List.drop_succ_cons]
  rw [readSignature, hstart]
  dsimp only
  rw [List.take_left, hname.tight.trim_eq, if_neg hname.tight.ne_nil, hmatching]
  cases closingParen? 1 text with
  | none => rfl
  | some n =>
    have hinside : ((name.toList ++ '(' :: text).take (n + 1 + name.toList.length)).drop
        (name.toList.length + 1) = text.take n := by
      have hfirst := hbehind 0
      rw [List.drop_zero, Nat.zero_add, Nat.add_comm] at hfirst
      rw [List.drop_take, hfirst]
      congr 1
      omega
    have hafter : (name.toList ++ '(' :: text).drop (n + 1 + name.toList.length + 1) =
        text.drop (n + 1) := by
      rw [← hbehind (n + 1)]
      congr 1
      omega
    dsimp only [Option.map_some]
    rw [hinside, hafter, String.ofList_toList]

/-- A header that is read has its parameters in front of the closing parenthesis. -/
theorem exists_readParams_of_readSignature (hname : IsIdentifier name) {isPublic hasBody : Bool}
    {place : Location} {f : FunctionDecl}
    (h : readSignature scope isPublic place (name.toList ++ '(' :: text) = .ok (f, hasBody)) :
    ∃ n, closingParen? 1 text = some n ∧
      readParams scope (text.take n) = .ok ⟨f.params, f.restParam⟩ := by
  rw [readSignature_eq hname] at h
  cases hclose : closingParen? 1 text with
  | none =>
    rw [hclose] at h
    cases h
  | some n =>
    rw [hclose] at h
    obtain ⟨list, hlist, h⟩ := exists_of_bind_eq_ok h
    obtain ⟨⟨result, opens⟩, -, h⟩ := exists_of_bind_eq_ok h
    obtain ⟨returnType, -, h⟩ := exists_of_bind_eq_ok h
    cases h
    exact ⟨n, rfl, hlist⟩

end LambdaDeploy.Outline
