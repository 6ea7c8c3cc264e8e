import LambdaDeploy.Proofs.Outline.ParamReading
import LambdaDeploy.Proofs.Outline.RecordText
import LambdaDeploy.Proofs.Text.Expression

/-!
# Parameter expressions

A parameter is written as a type, a name and perhaps a default value.  The default value may be
any expression, and the reader does not know expressions: it ends a parameter at a comma and the
list at a parenthesis, and only counts brackets on the way.

* `DefaultExpr`, `ParamExpr` — parameters as the format describes them, with their text and
  meaning.
* `Separable` — what the counting scans need to find the parameters again.
* `forall₂_readsAs_of_separable` — then every parameter is read as what it means.
* `separable_of_readsAs` — and otherwise not, wherever the list is taken to end.
-/

namespace LambdaDeploy.Outline

open Text

variable {scope : Scope}

/-! ## Parameters -/

/-- A default value: an expression on one line. -/
structure DefaultExpr where
  text : List Char
  tight : Tight text
  oneLine : '\n' ∉ text
  nested : Expression text

/-- A string literal as a default value. -/
def DefaultExpr.quoted (body : List Char) (h : LiteralBody body) (oneLine : '\n' ∉ body) :
    DefaultExpr where
  text := '"' :: (body ++ ['"'])
  tight := ⟨⟨'"', body ++ ['"'], rfl, by decide⟩, ⟨'"' :: body, '"', by simp, by decide⟩⟩
  oneLine := by simp [oneLine]
  nested := .literal h .nil

/-- A parameter as it is written in a scope: a type and a name on one line, and perhaps a default
value. -/
structure ParamExpr (scope : Scope) where
  {barred : Bool}
  type : TypeExpr scope barred
  name : String
  default : Option DefaultExpr := none
  oneLine : '\n' ∉ type.text
  nested : Expression type.text
  soundName : IsIdentifier name

namespace ParamExpr

variable {p : ParamExpr scope} {params : List (ParamExpr scope)}

/-- The type and the name of a parameter. -/
def declText (p : ParamExpr scope) : List Char := p.type.text ++ ' ' :: p.name.toList

/-- The default value behind a parameter. -/
def valueText (p : ParamExpr scope) : List Char := defaultText (p.default.map (·.text))

def text (p : ParamExpr scope) : List Char := p.declText ++ p.valueText

/-- The parameter that an expression stands for. -/
def meaning (p : ParamExpr scope) : Param where
  name := p.name
  type := p.type.meaning
  default := p.default.map fun value => String.ofList value.text

/-- Parameters as they are written between the parentheses of a header. -/
def listText (params : List (ParamExpr scope)) : List Char :=
  [',', ' '].intercalate (params.map text)

/-- What is written behind a parameter. -/
def moreText : List (ParamExpr scope) → List Char
  | [] => []
  | p :: params => [',', ' '] ++ listText (p :: params)

theorem listText_cons (p : ParamExpr scope) (params : List (ParamExpr scope)) :
    listText (p :: params) = p.text ++ moreText params := by
  cases params with
  | nil => simp [listText, moreText]
  | cons q params => simp [listText, moreText, List.intercalate_cons_cons]

theorem tight_declText (p : ParamExpr scope) : Tight p.declText := by
  simpa [declText] using p.type.tight_text.between p.soundName.tight [' ']

theorem nested_declText (p : ParamExpr scope) : Nested (· ≠ ',') p.declText := by
  have hcomma : ∀ c, TypeExpr.Outer p.barred c → c ≠ ',' := by
    rintro c hc rfl
    revert hc
    simp [TypeExpr.Outer]
    decide
  have hname : Nested (· ≠ ',') p.name.toList := .of_forall fun c hc =>
    ⟨bracketValue_of_isNameChar (p.soundName.plain c hc), p.soundName.ne (by decide) c hc⟩
  exact (p.type.nested_text.mono hcomma).append (.plain (by decide) (by decide) hname)

theorem uncut_declText (p : ParamExpr scope) : Uncut ',' 0 p.declText :=
  p.nested_declText.uncut_top (by decide)

/-! ## One parameter -/

/-- A parameter with another text behind the sign is read as one with this default value. -/
theorem readsAs (hequals : '=' ∉ p.type.text) (value : Option (List Char)) :
    ReadsAs scope (trim (p.declText ++ defaultText value))
      ⟨p.name, p.type.meaning, value.map fun text => String.ofList (trim text)⟩ := by
  have hdots : beforeSuffix? ['.', '.', '.'] p.type.text = none := by
    obtain ⟨front, c, hlast, -⟩ := p.type.tight_text.closes
    have hend : p.type.text.getLast? = some c := by rw [hlast, List.getLast?_concat]
    refine beforeSuffix?_eq_none ['.', '.'] hend ?_
    rintro rfl
    rcases p.type.nested_text.getLast?_cases hend with hc | ⟨opening, hpair⟩
    · revert hc
      simp [TypeExpr.Outer]
      decide
    · cases hpair
  rw [ReadsAs, declText, readParam_decl p.type.tight_text hequals hdots p.soundName value rfl,
    readType_text]
  rfl

theorem readsAs_text (hequals : '=' ∉ p.type.text) : ReadsAs scope (trim p.text) p.meaning := by
  have hvalue : (p.default.map (·.text)).map (fun text => String.ofList (trim text)) =
      p.default.map fun value => String.ofList value.text := by
    rw [Option.map_map]
    refine congrArg (Option.map · p.default) (funext fun value => ?_)
    rw [Function.comp, value.tight.trim_eq]
  have hread := p.readsAs hequals (p.default.map (·.text))
  rwa [hvalue] at hread

end ParamExpr

/-! ## What a piece is read as -/

variable {text tail after first decl value : List Char} {others : List (List Char)}
  {param other : Param} {depth : Int} {n : Nat}

theorem ReadsAs.unique (h : ReadsAs scope text param) (hother : ReadsAs scope text other) :
    param = other := by
  rw [ReadsAs, h] at hother
  cases hother
  rfl

theorem not_mem_fst_cutDefault (text : List Char) : '=' ∉ (cutDefault text).1 := by
  rw [cutDefault]
  cases hcut : cutFirst? (· == '=') text with
  | none =>
    intro hmem
    obtain ⟨before, after, rfl, hbefore⟩ := List.eq_append_cons_of_mem hmem
    have hno : ∀ c ∈ before, (c == '=') = false := fun c hc =>
      beq_eq_false_iff_ne.2 fun heq => hbefore (heq ▸ hc)
    rw [cutFirst?_append_cons hno (by decide)] at hcut
    cases hcut
  | some cut =>
    obtain ⟨before, after⟩ := cut
    obtain ⟨-, -, hbefore, -⟩ := cutFirst?_eq_some_iff.1 hcut
    intro hmem
    have hsign := hbefore '=' ((infix_trim before).subset hmem)
    cases hsign

/-- The type of a parameter is read from what stands in front of the first equals sign. -/
theorem ReadsAs.noEquals (h : ReadsAs scope text param) {record : String}
    (hmentions : param.type.Mentions record) : '=' ∉ record.toList := by
  rw [ReadsAs, readParam] at h
  dsimp only [Option.isSome_none] at h
  rw [if_neg Bool.false_ne_true] at h
  split at h
  · cases h
  · rename_i type name hcut
    split at h
    · split at h <;> cases h
    · cases h
      intro hmem
      have htype := (infix_of_mentions hmentions).trans (infix_trim type)
      have hdecl := htype.trans (infix_of_cutLast? hcut).1
      exact not_mem_fst_cutDefault text (hdecl.subset hmem)

/-- A type with an equals sign is never read. -/
theorem ParamExpr.noEquals {p : ParamExpr scope} (h : ReadsAs scope text p.meaning) :
    '=' ∉ p.type.text := by
  intro hsign
  obtain ⟨record, hmentions, hmem⟩ := p.type.exists_mentions hsign
  exact h.noEquals hmentions hmem

/-! ## The first piece -/

theorem trim_append_ne_nil (h : Tight decl) (rest : List Char) : trim (decl ++ rest) ≠ [] := by
  intro hblank
  obtain ⟨c, more, rfl, hc⟩ := h.opens
  obtain ⟨left, right, hleft, hright, htext⟩ := exists_trim_append (c :: more ++ rest)
  rw [hblank, List.append_nil] at htext
  have hmem : c ∈ left ++ right := by
    rw [← htext]
    exact List.mem_cons_self
  rcases List.mem_append.1 hmem with hmem | hmem
  · rw [hleft c hmem] at hc
    cases hc
  · rw [hright c hmem] at hc
    cases hc

/-- A declaration goes into the first piece. -/
theorem paramPieces_decl (hnested : Nested (· ≠ ',') decl) (htight : Tight decl)
    (hsplit : splitTop ',' text = first :: others) :
    paramPieces (decl ++ text) =
      trim (decl ++ first) :: (others.map trim).filter (· ≠ []) := by
  have hpieces : splitTop ',' (decl ++ text) = (decl ++ first) :: others := by
    rw [hnested.splitTop_append (by decide), hsplit]
    rfl
  rw [paramPieces, hpieces]
  simp [trim_append_ne_nil htight]

/-- A text that is cut off too late has something behind it that trimming does not take away. -/
theorem eq_of_trim_eq (hfront : first <+: value ++ tail) (htight : Tight value)
    (htrim : trim first = value) (htail : ∀ c, tail.head? = some c → isBlank c = false) :
    first = value := by
  obtain ⟨rest, hrest⟩ := hfront
  obtain ⟨left, right, hleft, hright, hfirst⟩ := exists_trim_append first
  rw [htrim] at hfirst
  have hnone : left = [] := by
    cases left with
    | nil => rfl
    | cons b left =>
      obtain ⟨c, more, rfl, hc⟩ := htight.opens
      have hsame : b = c := by
        rw [hfirst] at hrest
        exact (List.cons.inj hrest).1
      rw [← hsame, hleft b List.mem_cons_self] at hc
      cases hc
  rw [hnone, List.nil_append] at hfirst
  rw [hfirst, List.append_assoc, List.append_cancel_left_eq] at hrest
  cases right with
  | nil => rw [hfirst, List.append_nil]
  | cons b right =>
    have hb := htail b (by rw [← hrest]; rfl)
    rw [hright b List.mem_cons_self] at hb
    cases hb

/-! ## Where the list ends -/

/-- Behind the last parameter the first closing parenthesis ends the list. -/
theorem eq_zero_of_closingParen? (hafter : ')' ∉ after)
    (h : closingParen? depth (')' :: after) = some n) : n = 0 := by
  cases n with
  | zero => rfl
  | succ n =>
    have hend := getElem?_of_closingParen? h
    rw [List.getElem?_cons_succ] at hend
    exact absurd (List.mem_of_getElem? hend) hafter

/-- A comma and a blank are passed over. -/
theorem closingParen?_comma (h : closingParen? depth (',' :: ' ' :: text) = some n) :
    ∃ k, closingParen? depth text = some k ∧ n = k + 2 := by
  have hcomma : parenValue ',' = 0 := by decide
  have hblank : parenValue ' ' = 0 := by decide
  rw [closingParen?, if_neg (by simp), closingParen?, if_neg (by simp), hcomma, hblank,
    Int.add_zero, Int.add_zero, Option.map_map] at h
  obtain ⟨k, hk, rfl⟩ := Option.map_eq_some_iff.1 h
  exact ⟨k, hk, rfl⟩

namespace ParamExpr

variable {p : ParamExpr scope} {params : List (ParamExpr scope)}

/-- What follows a parameter: a comma, or the parenthesis that closes the list. -/
def Follows (tail : List Char) : Prop :=
  (∃ rest, tail = ',' :: rest) ∨ ∃ rest, tail = ')' :: rest ∧ ')' ∉ rest

theorem Follows.isBlank_head (h : Follows tail) :
    ∀ c, tail.head? = some c → isBlank c = false := by
  rcases h with ⟨rest, rfl⟩ | ⟨rest, rfl, -⟩
  all_goals
    rintro c hc
    cases hc
    decide

theorem follows_moreText (params : List (ParamExpr scope)) (hafter : ')' ∉ after) :
    Follows (moreText params ++ ')' :: after) := by
  cases params with
  | nil => exact .inr ⟨after, rfl, hafter⟩
  | cons p params => exact .inl ⟨_, rfl⟩

/-- **A parameter that is read right ends where it is written to end**: the piece that it is read
from is no shorter and no longer. -/
theorem eq_valueText_of_readsAs (hdepth : 0 < depth) (htail : Follows tail)
    (hclose : closingParen? depth (p.valueText ++ tail) = some n)
    (hsplit : splitTop ',' ((p.valueText ++ tail).take n) = first :: others)
    (hread : ReadsAs scope (trim (p.declText ++ first)) p.meaning) : first = p.valueText := by
  have hequals := noEquals hread
  rw [valueText] at hclose hsplit ⊢
  cases hdefault : p.default with
  | none =>
    rw [hdefault] at hclose hsplit
    simp only [Option.map_none, defaultText, List.nil_append] at hclose hsplit ⊢
    rcases htail with ⟨rest, rfl⟩ | ⟨rest, rfl, hrest⟩
    · -- a comma behind a declaration always ends the piece
      have hfront := (prefix_of_splitTop (by decide) hsplit).trans (List.take_prefix n _)
      rcases List.prefix_cons_iff.1 hfront with rfl | ⟨more, rfl, -⟩
      · rfl
      · exact absurd rfl ((splitTopFrom_eq_cons (by decide) hsplit).1.1 rfl)
    · obtain rfl := eq_zero_of_closingParen? hrest hclose
      cases hsplit
      rfl
  | some d =>
    rw [hdefault] at hclose hsplit
    simp only [Option.map_some, defaultText, List.append_assoc] at hclose hsplit ⊢
    have hsign : Nested (· ≠ ',') [' ', '=', ' '] := .of_forall (by decide)
    rw [closingParen?_append hsign hdepth] at hclose
    obtain ⟨m, -, rfl⟩ := Option.map_eq_some_iff.1 hclose
    rw [Nat.add_comm, List.take_length_add_append, hsign.splitTop_append (by decide)] at hsplit
    obtain ⟨value, more, hvalue⟩ : ∃ value more,
        splitTop ',' ((d.text ++ tail).take m) = value :: more :=
      List.exists_cons_of_ne_nil splitTopFrom_ne_nil
    rw [hvalue] at hsplit
    cases hsplit
    have hsame := hread.unique (p.readsAs hequals (some value))
    have htrim : trim value = d.text := by
      have hdefaults := congrArg Param.default hsame
      rw [meaning, hdefault] at hdefaults
      exact (String.ofList_inj.1 (Option.some.inj hdefaults)).symm
    have hfront := (prefix_of_splitTop (by decide) hvalue).trans (List.take_prefix m _)
    rw [eq_of_trim_eq hfront d.tight htrim htail.isBlank_head]

/-- What the reader needs to find parameters again.  It takes the first equals sign of a parameter
for the one in front of the default value, and every comma for the end of a parameter where the
brackets in front of it add up to zero, those in string literals included. -/
structure Separable (params : List (ParamExpr scope)) : Prop where
  equals : ∀ p ∈ params, '=' ∉ p.type.text
  commas : ∀ p ∈ params, ∀ value ∈ p.default, Uncut ',' 0 value.text
  brackets : ∀ p ∈ params.dropLast, ∀ value ∈ p.default, bracketSum value.text = 0

instance (params : List (ParamExpr scope)) : Decidable (Separable params) :=
  decidable_of_iff
    ((∀ p ∈ params, '=' ∉ p.type.text) ∧
      (∀ p ∈ params, ∀ value ∈ p.default, Uncut ',' 0 value.text) ∧
        ∀ p ∈ params.dropLast, ∀ value ∈ p.default, bracketSum value.text = 0)
    ⟨fun h => ⟨h.1, h.2.1, h.2.2⟩, fun h => ⟨h.equals, h.commas, h.brackets⟩⟩

theorem Separable.nil : Separable ([] : List (ParamExpr scope)) :=
  ⟨List.forall_mem_nil _, List.forall_mem_nil _, List.forall_mem_nil _⟩

theorem separable_singleton : Separable [p] ↔
    '=' ∉ p.type.text ∧ ∀ value ∈ p.default, Uncut ',' 0 value.text := by
  constructor
  · intro h
    exact ⟨h.equals p List.mem_cons_self, h.commas p List.mem_cons_self⟩
  · rintro ⟨hequals, hcommas⟩
    exact ⟨List.forall_mem_singleton.2 hequals, List.forall_mem_singleton.2 hcommas,
      List.forall_mem_nil _⟩

theorem separable_cons {q : ParamExpr scope} : Separable (p :: q :: params) ↔
    '=' ∉ p.type.text ∧ (∀ value ∈ p.default, Uncut ',' 0 value.text) ∧
      (∀ value ∈ p.default, bracketSum value.text = 0) ∧ Separable (q :: params) := by
  constructor
  · intro h
    exact ⟨h.equals p List.mem_cons_self, h.commas p List.mem_cons_self,
      h.brackets p List.mem_cons_self, (List.forall_mem_cons.1 h.equals).2,
      (List.forall_mem_cons.1 h.commas).2, (List.forall_mem_cons.1 h.brackets).2⟩
  · rintro ⟨hequals, hcommas, hbrackets, hothers⟩
    exact ⟨List.forall_mem_cons.2 ⟨hequals, hothers.equals⟩,
      List.forall_mem_cons.2 ⟨hcommas, hothers.commas⟩,
      List.forall_mem_cons.2 ⟨hbrackets, hothers.brackets⟩⟩

theorem uncut_valueText :
    Uncut ',' 0 p.valueText ↔ ∀ value ∈ p.default, Uncut ',' 0 value.text := by
  have hsign : Uncut ',' 0 [' ', '=', ' '] ∧ bracketSum [' ', '=', ' '] = 0 := by decide
  rw [valueText]
  cases p.default with
  | none => simp [defaultText, Uncut]
  | some d =>
    rw [Option.map_some, defaultText, uncut_append, hsign.2]
    simp [hsign.1]

theorem bracketSum_valueText :
    bracketSum p.valueText = 0 ↔ ∀ value ∈ p.default, bracketSum value.text = 0 := by
  have hsign : bracketSum [' ', '=', ' '] = 0 := by decide
  rw [valueText]
  cases p.default with
  | none => simp [defaultText]
  | some d =>
    rw [Option.map_some, defaultText, bracketSum_append, hsign]
    simp

/-- **Parameters that are read right are separable, and the list ends where it is written to
end.**  By induction on the parameters; what the default values in front have opened and not
closed is carried along as the depth of parentheses. -/
theorem separable_of_readsAs (hdepth : 0 < depth) (hafter : ')' ∉ after)
    (hclose : closingParen? depth (listText params ++ ')' :: after) = some n)
    (hread : List.Forall₂ (ReadsAs scope)
      (paramPieces ((listText params ++ ')' :: after).take n)) (params.map meaning)) :
    n = (listText params).length ∧ Separable params := by
  induction params generalizing depth n with
  | nil => exact ⟨eq_zero_of_closingParen? hafter hclose, .nil⟩
  | cons p params ih =>
    rw [listText_cons, text, List.append_assoc, List.append_assoc] at hclose hread
    rw [closingParen?_append p.nested_declText hdepth] at hclose
    obtain ⟨m, hbehind, rfl⟩ := Option.map_eq_some_iff.1 hclose
    obtain ⟨first, others, hsplit⟩ : ∃ first others,
        splitTop ',' ((p.valueText ++ (moreText params ++ ')' :: after)).take m) =
          first :: others :=
      List.exists_cons_of_ne_nil splitTopFrom_ne_nil
    rw [Nat.add_comm, List.take_length_add_append,
      paramPieces_decl p.nested_declText p.tight_declText hsplit, List.map_cons,
      List.forall₂_cons] at hread
    obtain ⟨hfirst, hothers⟩ := hread
    have hequals := noEquals hfirst
    obtain rfl := eq_valueText_of_readsAs hdepth (follows_moreText params hafter) hbehind hsplit
      hfirst
    have hle : p.valueText.length ≤ m :=
      Nat.le_trans (prefix_of_splitTop (by decide) hsplit).length_le (List.length_take_le m _)
    obtain ⟨hopen, k, hk, rfl⟩ := closingParen?_append_of_le hdepth hbehind hle
    obtain ⟨huncut, hend⟩ := splitTopFrom_eq_cons (by decide) hsplit
    rw [List.take_length_add_append] at hend
    rw [uncut_valueText] at huncut
    cases params with
    | nil =>
      obtain rfl := eq_zero_of_closingParen? hafter hk
      refine ⟨?_, separable_singleton.2 ⟨hequals, huncut⟩⟩
      simp [listText, text, Nat.add_comm]
    | cons q params =>
      have htail : moreText (q :: params) ++ ')' :: after =
          ',' :: ' ' :: (listText (q :: params) ++ ')' :: after) := rfl
      rw [htail] at hk hend
      obtain ⟨j, hj, rfl⟩ := closingParen?_comma hk
      rw [List.take_succ_cons, List.take_succ_cons] at hend
      rcases hend with ⟨hwhole, -⟩ | ⟨rest, hcut, hzero, rfl⟩
      · simp at hwhole
      · rw [List.append_cancel_left_eq] at hcut
        cases hcut
        rw [Int.zero_add, bracketSum_valueText] at hzero
        rw [← splitTop, ← paramPieces, paramPieces_blank] at hothers
        obtain ⟨rfl, hseparable⟩ := ih hopen hj hothers
        refine ⟨?_, separable_cons.2 ⟨hequals, huncut, hzero, hseparable⟩⟩
        rw [listText_cons p, text, moreText]
        simp only [List.length_append, List.length_cons, List.length_nil]
        omega

/-- Separable parameters are found again, and each is read as what it means. -/
theorem forall₂_readsAs_of_separable (h : Separable params) :
    List.Forall₂ (ReadsAs scope) (paramPieces (listText params)) (params.map meaning) := by
  have huncut : ∀ p ∈ params, Uncut ',' 0 p.text := by
    intro p hp
    rw [text, uncut_append, p.nested_declText.bracketSum_eq]
    exact ⟨p.uncut_declText, uncut_valueText.2 (h.commas p hp)⟩
  have hclosed : ∀ p ∈ params.dropLast, bracketSum p.text = 0 := by
    intro p hp
    rw [text, bracketSum_append, p.nested_declText.bracketSum_eq, Int.zero_add]
    exact bracketSum_valueText.2 (h.brackets p hp)
  have hpieces : paramPieces (listText params) = (params.map text).map trim := by
    refine paramPieces_intercalate ?_ ?_
    · intro piece hpiece
      obtain ⟨p, hp, rfl⟩ := List.mem_map.1 hpiece
      exact ⟨huncut p hp, trim_append_ne_nil p.tight_declText _⟩
    · intro piece hpiece
      rw [← List.map_dropLast] at hpiece
      obtain ⟨p, hp, rfl⟩ := List.mem_map.1 hpiece
      exact hclosed p hp
  rw [hpieces, List.map_map, List.forall₂_map_left_iff, List.forall₂_map_right_iff]
  exact List.forall₂_same.2 fun p hp => readsAs_text (h.equals p hp)

end ParamExpr

end LambdaDeploy.Outline
