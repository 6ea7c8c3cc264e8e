import LambdaDeploy.Proofs.Outline.TypeForm
import LambdaDeploy.Proofs.Text.Counting

/-!
# Type expressions

The format describes types by a grammar.  The reader knows no grammar: it looks at the ends of
a text and at the bars outside its brackets.  Here the grammar is a data type, each expression
has a text and a meaning, and reading the text gives the meaning.

* `TypeExpr`, `TypeExpr.text`, `TypeExpr.meaning` — expressions, with blanks wherever the
  format allows them and parentheses wherever the writer likes them.
* `TypeExpr.nested_text` — the text of an expression is properly nested, and bars outside its
  brackets belong to unions.
* `TypeExpr.reads` — every part of an expression is read as what it means, by induction over
  the expression.
* `readType_text` — **reading the text of a type expression gives its meaning.**
-/

namespace LambdaDeploy.Outline

open Text

/-! ## The grammar -/

/-- Blanks between the parts of a type. -/
structure Blanks where
  text : List Char
  blank : ∀ c ∈ text, isBlank c = true

namespace Blanks

/-- No blanks. -/
def none : Blanks := ⟨[], fun _ h => absurd h List.not_mem_nil⟩

/-- One blank. -/
def one : Blanks := ⟨[' '], fun _ h => List.mem_singleton.1 h ▸ rfl⟩

end Blanks

/-- The text of a record type: the word, perhaps blanks, and braces around its fields. -/
def recordText (gap : Blanks) (fields : List Char) : List Char :=
  ['r', 'e', 'c', 'o', 'r', 'd'] ++ (gap.text ++ '{' :: (fields ++ ['}']))

/-- A type as it is written in a scope.  It is barred if it is a union without parentheses;
the signs `?` and `[]` only stand behind types that are not. -/
inductive TypeExpr (scope : Scope) : (barred : Bool) → Type
  | builtin (b : Builtin) : TypeExpr scope false
  | qualified (modulePrefix name : String) (i : Import)
      (imported : scope.importAs? modulePrefix = some i)
      (soundPrefix : IsIdentifier modulePrefix) (soundName : IsIdentifier name) :
      TypeExpr scope false
  | declared (name : String) (known : scope.hasType name = true)
      (free : Builtin.ofName? name = none) (soundName : IsIdentifier name) :
      TypeExpr scope false
  | record (gap : Blanks) (fields : List Char) (nested : Nested (fun _ => True) fields) :
      TypeExpr scope false
  | parens {barred : Bool} (left : Blanks) (inner : TypeExpr scope barred) (right : Blanks) :
      TypeExpr scope false
  | union {barredFirst barredSecond : Bool} (first : TypeExpr scope barredFirst)
      (left right : Blanks) (second : TypeExpr scope barredSecond) : TypeExpr scope true
  | optional (inner : TypeExpr scope false) (gap : Blanks) : TypeExpr scope false
  | array (element : TypeExpr scope false) (gap : Blanks) : TypeExpr scope false
  | map {barred : Bool} (left : Blanks) (element : TypeExpr scope barred) (right : Blanks) :
      TypeExpr scope false

namespace TypeExpr

variable {scope : Scope} {barred : Bool}

/-- The text of an expression. -/
def text {barred : Bool} : TypeExpr scope barred → List Char
  | builtin b => b.name.toList
  | qualified modulePrefix name .. => modulePrefix.toList ++ ':' :: name.toList
  | declared name .. => name.toList
  | record gap fields _ => recordText gap fields
  | parens left inner right => '(' :: (left.text ++ inner.text ++ right.text ++ [')'])
  | union first left right second =>
    (first.text ++ left.text) ++ '|' :: (right.text ++ second.text)
  | optional inner gap => (inner.text ++ gap.text) ++ ['?']
  | array element gap => (element.text ++ gap.text) ++ ['[', ']']
  | map left element right =>
    ['m', 'a', 'p', '<'] ++ (left.text ++ element.text ++ right.text ++ ['>'])

/-- The type that an expression stands for. -/
def meaning {barred : Bool} : TypeExpr scope barred → Ty
  | builtin b => .builtin b
  | qualified _ name i .. => .named i.package name
  | declared name .. => .named scope.package name
  | record gap fields _ => .record (String.ofList (recordText gap fields))
  | parens _ inner _ => inner.meaning
  | union first _ _ second => .union (first.meaning.members ++ second.meaning.members)
  | optional inner _ => .union (inner.meaning.members ++ [.builtin .nil])
  | array element _ => .array element.meaning
  | map _ element _ => .map element.meaning

/-- The meaning of an expression is in normal form. -/
theorem normal_meaning (e : TypeExpr scope barred) : e.meaning.Normal := by
  induction e with
  | builtin b => exact .builtin b
  | qualified _ name i => exact .named i.package name
  | declared name => exact .named scope.package name
  | record => exact .record _
  | parens _ _ _ ih => exact ih
  | union _ _ _ _ ihfirst ihsecond => exact ihfirst.union_members ihsecond
  | optional _ _ ih => exact ih.union_members (.builtin .nil)
  | array _ _ ih => exact .array ih
  | map _ _ _ ih => exact .map ih

/-! ## Texts -/

theorem tight_name (b : Builtin) : Tight b.name.toList :=
  .of_forall (by cases b <;> decide) (by cases b <;> decide)

/-- The text of an expression has no blank at its ends. -/
theorem tight_text (e : TypeExpr scope barred) : Tight e.text := by
  induction e with
  | builtin b => exact tight_name b
  | qualified modulePrefix name _ _ hqualifier hname =>
    have h := hqualifier.tight.between hname.tight [':']
    simpa [text] using h
  | declared _ _ _ hname => exact hname.tight
  | record gap fields =>
    have hword : Tight ['r', 'e', 'c', 'o', 'r', 'd'] := .of_forall (by simp) (by decide)
    have hbrace : Tight ['}'] := .of_forall (by simp) (by decide)
    have h := hword.between hbrace (gap.text ++ '{' :: fields)
    simpa [text, recordText] using h
  | parens left inner right =>
    have hopening : Tight ['('] := .of_forall (by simp) (by decide)
    have hclosing : Tight [')'] := .of_forall (by simp) (by decide)
    have h := hopening.between hclosing (left.text ++ inner.text ++ right.text)
    simpa [text] using h
  | union first left right second ihfirst ihsecond =>
    have h := ihfirst.between ihsecond (left.text ++ '|' :: right.text)
    simpa [text] using h
  | optional inner gap ih => exact ih.between (.of_forall (by simp) (by decide)) gap.text
  | array element gap ih => exact ih.between (.of_forall (by simp) (by decide)) gap.text
  | map left element right =>
    have hopening : Tight ['m', 'a', 'p', '<'] := .of_forall (by simp) (by decide)
    have hclosing : Tight ['>'] := .of_forall (by simp) (by decide)
    have h := hopening.between hclosing (left.text ++ element.text ++ right.text)
    simpa [text] using h

/-- The characters that stand outside the brackets of a type. -/
def Outer (barred : Bool) (c : Char) : Prop :=
  isNameChar c = true ∨ isBlank c = true ∨ c = ':' ∨ c = '?' ∨ barred = true ∧ c = '|'

theorem Outer.widen {c : Char} (h : Outer barred c) : Outer true c := by
  rcases h with h | h | h | h | ⟨-, h⟩
  · exact .inl h
  · exact .inr (.inl h)
  · exact .inr (.inr (.inl h))
  · exact .inr (.inr (.inr (.inl h)))
  · exact .inr (.inr (.inr (.inr ⟨rfl, h⟩)))

theorem nested_word {word : List Char} (h : ∀ c ∈ word, isNameChar c = true) :
    Nested (Outer barred) word :=
  .of_forall fun c hc => ⟨bracketValue_of_isNameChar (h c hc), .inl (h c hc)⟩

theorem nested_blanks (blanks : Blanks) : Nested (Outer barred) blanks.text :=
  .of_forall fun c hc =>
    ⟨bracketValue_of_isBlank (blanks.blank c hc), .inr (.inl (blanks.blank c hc))⟩

theorem nested_name (b : Builtin) : Nested (Outer barred) b.name.toList := by
  have hplain : ∀ b : Builtin, b ≠ .nil → ∀ c ∈ b.name.toList, isNameChar c = true := by
    intro b
    cases b <;> decide
  by_cases hb : b = .nil
  · subst hb
    exact .group .round (.nil _) (.nil _)
  · exact nested_word (hplain b hb)

/-- The text of an expression is properly nested.  A bar outside its brackets belongs to a
union. -/
theorem nested_text (e : TypeExpr scope barred) : Nested (Outer barred) e.text := by
  induction e with
  | builtin b => exact nested_name b
  | qualified _ _ _ _ hqualifier hname =>
    have hcolon : Outer false ':' := .inr (.inr (.inl rfl))
    exact (nested_word hqualifier.plain).append (.plain (by decide) hcolon (nested_word hname.plain))
  | declared _ _ _ hname => exact nested_word hname.plain
  | record gap fields hnested =>
    have hword : Nested (Outer false) ['r', 'e', 'c', 'o', 'r', 'd'] := nested_word (by decide)
    exact hword.append ((nested_blanks gap).append (.enclosed .curly hnested))
  | parens left inner right ih =>
    exact .enclosed .round (((nested_blanks left).append ih).append (nested_blanks right))
  | union first left right second ihfirst ihsecond =>
    have hbar : Outer true '|' := .inr (.inr (.inr (.inr ⟨rfl, rfl⟩)))
    have hfirst := ihfirst.mono fun _ => Outer.widen
    have hsecond := ihsecond.mono fun _ => Outer.widen
    exact (hfirst.append (nested_blanks left)).append
      (.plain (by decide) hbar ((nested_blanks right).append hsecond))
  | optional inner gap ih =>
    have hsign : Outer false '?' := .inr (.inr (.inr (.inl rfl)))
    exact (ih.append (nested_blanks gap)).append (.plain (by decide) hsign (.nil _))
  | array element gap ih =>
    exact (ih.append (nested_blanks gap)).append (.group .square (.nil _) (.nil _))
  | map left element right ih =>
    have hword : Nested (Outer false) ['m', 'a', 'p'] := nested_word (by decide)
    exact hword.append
      (.enclosed .angle (((nested_blanks left).append ih).append (nested_blanks right)))

/-! ## Reading -/

/-- The alternatives of a type, read from the pieces of a text between its bars. -/
def alternativesOf (scope : Scope) (text : List Char) : List Ty :=
  (splitTop '|' text).flatMap fun piece => (readMember scope (trim piece)).alternatives

/-- Blanks around a text do not change what it stands for. -/
theorem readType_pad {text : List Char} (h : Tight text) (left right : Blanks) :
    readType scope (left.text ++ text ++ right.text) = readType scope text := by
  rw [readType_eq, readType_eq, trim_pad left.blank right.blank h.trim_eq, h.trim_eq]

/-- What reading an expression gives: its type, and the alternatives of that type, also with
blanks around the text. -/
structure Reads (e : TypeExpr scope barred) : Prop where
  type : readType scope e.text = e.meaning
  alternatives : ∀ left right : Blanks,
    alternativesOf scope (left.text ++ e.text ++ right.text) = e.meaning.members

theorem Reads.padded {e : TypeExpr scope barred} (h : e.Reads) (left right : Blanks) :
    readType scope (left.text ++ e.text ++ right.text) = e.meaning := by
  rw [readType_pad e.tight_text, h.type]

theorem Reads.behind {e : TypeExpr scope barred} (h : e.Reads) (gap : Blanks) :
    readType scope (e.text ++ gap.text) = e.meaning :=
  h.padded ⟨[], by simp⟩ gap

/-- An expression that is not enclosed in parentheses is read by its alternatives. -/
theorem Reads.of_alternatives {e : TypeExpr scope barred} (hopen : stripParens? e.text = none)
    (h : ∀ left right : Blanks,
      alternativesOf scope (left.text ++ e.text ++ right.text) = e.meaning.members) : e.Reads := by
  refine ⟨?_, h⟩
  have halternatives := h ⟨[], by simp⟩ ⟨[], by simp⟩
  rw [readType_eq, e.tight_text.trim_eq, hopen]
  apply e.normal_meaning.ofMembers_eq
  rw [List.flatMap_map]
  simpa [alternativesOf] using halternatives

/-- Without bars outside brackets there is one alternative to read. -/
theorem alternativesOf_eq (e : TypeExpr scope false) (hmember : readMember scope e.text = e.meaning)
    (left right : Blanks) :
    alternativesOf scope (left.text ++ e.text ++ right.text) = e.meaning.members := by
  have hnobar : ∀ c, Outer false c → c ≠ '|' := by
    rintro c hc rfl
    revert hc
    simp [Outer]
    decide
  have hnested : Nested (· ≠ '|') (left.text ++ e.text ++ right.text) :=
    (((nested_blanks left).append e.nested_text).append (nested_blanks right)).mono hnobar
  rw [alternativesOf, splitTop_of_uncut (hnested.uncut_top (by decide)), List.flatMap_singleton,
    trim_pad left.blank right.blank e.tight_text.trim_eq, hmember, e.normal_meaning.members_eq]

theorem Reads.of_member {e : TypeExpr scope false} (hopen : stripParens? e.text = none)
    (hmember : readMember scope e.text = e.meaning) : e.Reads :=
  .of_alternatives hopen (e.alternativesOf_eq hmember)

theorem stripParens?_name (b : Builtin) : stripParens? b.name.toList = none := by
  cases b <;> decide

theorem stripParens?_of_name {name : List Char} (hname : ∀ c ∈ name, isNameChar c = true)
    (hne : name ≠ []) (text : List Char) : stripParens? (text ++ name) = none := by
  have hlast : (text ++ name).getLast? = some (name.getLast hne) := by
    rw [List.getLast?_append, List.getLast?_eq_some_getLast hne]
    rfl
  exact stripParens?_eq_none_of_getLast? hlast
    (ne_of_isNameChar (hname _ (List.getLast_mem hne)) (by decide))

/-- Reading an expression gives what it means, by induction over the expression. -/
theorem reads (e : TypeExpr scope barred) : e.Reads := by
  induction e with
  | builtin b => exact .of_member (stripParens?_name b) (readMember_builtin scope b)
  | qualified modulePrefix name i himport hqualifier hname =>
    refine .of_member ?_ (readMember_qualified himport hqualifier hname)
    have hopen := stripParens?_of_name hname.plain hname.ne_nil (modulePrefix.toList ++ [':'])
    simpa [text] using hopen
  | declared name hknown hbuiltin hname =>
    exact .of_member (stripParens?_of_name hname.plain hname.ne_nil [])
      (readMember_declared hknown hbuiltin hname)
  | record gap fields hnested =>
    refine .of_member ?_ (readMember_record scope gap.text fields gap.blank)
    have hlast : (recordText gap fields).getLast? = some '}' := by
      rw [recordText, ← List.cons_append, ← List.append_assoc, ← List.append_assoc,
        List.getLast?_concat]
    exact stripParens?_eq_none_of_getLast? hlast (by decide)
  | parens left inner right ih =>
    have hnested := ((nested_blanks left).append inner.nested_text).append (nested_blanks right)
    have hne : left.text ++ inner.text ++ right.text ≠ [] := by
      simp [inner.tight_text.ne_nil]
    have hmember : readMember scope (parens left inner right).text = inner.meaning := by
      exact (readMember_parens scope hnested hne).trans (ih.padded left right)
    refine ⟨?_, alternativesOf_eq _ hmember⟩
    have hinner : stripParens? (parens left inner right).text =
        some (left.text ++ inner.text ++ right.text) := stripParens?_enclosed hnested hne
    rw [readType_eq, tight_text _ |>.trim_eq, hinner]
    exact ih.padded left right
  | union first left right second ihfirst ihsecond =>
    refine .of_alternatives ?_ fun outerLeft outerRight => ?_
    · have hbefore := first.nested_text.append (nested_blanks left)
      exact stripParens?_eq_none_of_append hbefore (by simp [first.tight_text.ne_nil]) (by simp)
    · have hshape : outerLeft.text ++ (union first left right second).text ++ outerRight.text =
          (outerLeft.text ++ first.text ++ left.text) ++
            '|' :: (right.text ++ second.text ++ outerRight.text) := by
        simp [text]
      have hbefore := ((nested_blanks outerLeft).append first.nested_text).append
        (nested_blanks left)
      calc alternativesOf scope (outerLeft.text ++ (union first left right second).text ++
            outerRight.text)
          = alternativesOf scope (outerLeft.text ++ first.text ++ left.text) ++
              alternativesOf scope (right.text ++ second.text ++ outerRight.text) := by
            rw [hshape, alternativesOf, splitTop_append_cons (by decide) hbefore.bracketSum_eq,
              List.flatMap_append]
            rfl
        _ = first.meaning.members ++ second.meaning.members := by
            rw [ihfirst.alternatives, ihsecond.alternatives]
        _ = (union first left right second).meaning.members :=
            (Ty.members_union_append _ _).symm
  | optional inner gap ih =>
    refine .of_member (stripParens?_eq_none_of_getLast? List.getLast?_concat (by decide)) ?_
    have hmember : readMember scope (optional inner gap).text =
        .ofMembers [inner.meaning, .builtin .nil] := by
      rw [text, readMember_optional, ih.behind]
    rw [hmember]
    apply (optional inner gap).normal_meaning.ofMembers_eq
    have hnil : (Ty.builtin .nil).members = [.builtin .nil] := Ty.members_of_not_isUnion rfl
    rw [meaning, ← hnil, Ty.members_union_append, inner.normal_meaning.members_eq]
    rfl
  | array element gap ih =>
    have hlast : (array element gap).text.getLast? = some ']' := by simp [text]
    refine .of_member (stripParens?_eq_none_of_getLast? hlast (by decide)) ?_
    rw [text, readMember_array, ih.behind]
    rfl
  | map left element right ih =>
    have hlast : (map left element right).text.getLast? = some '>' := by
      rw [text, ← List.append_assoc, List.getLast?_concat]
    refine .of_member (stripParens?_eq_none_of_getLast? hlast (by decide)) ?_
    rw [text, readMember_map, ih.padded]
    rfl

end TypeExpr

/-- **Type syntax means what the format says**: the text of a type expression is read as the
meaning of the expression. -/
theorem readType_text {scope : Scope} {barred : Bool} (e : TypeExpr scope barred) :
    readType scope e.text = e.meaning :=
  e.reads.type

/-- A scope with an import and a declared type. -/
def orderScope : Scope where
  package := ⟨"acme", "orders", "0.0.0"⟩
  imports := [.plain ⟨"ballerinax", "awslambda", "0.0.0"⟩ []]
  types := ["Order"]

/-- A type expression with every form of grouping. -/
def orderExpr : TypeExpr orderScope true :=
  let context : TypeExpr orderScope false :=
    .qualified "awslambda" "Context" _ rfl (by decide) (by decide)
  let element : TypeExpr orderScope false :=
    .array (.parens .none (.union (.builtin .json) .one .one context) .none) .one
  .union (.optional (.map .none element .none) .none) .none .none
    (.declared "Order" (by decide) (by decide) (by decide))

theorem readType_text_sample :
    readType orderScope "map<(json | awslambda:Context) []>?|Order".toList =
      .union
        [.map (.array (.union
          [.builtin .json, .named ⟨"ballerinax", "awslambda", "0.0.0"⟩ "Context"])),
          .builtin .nil, .named ⟨"acme", "orders", "0.0.0"⟩ "Order"] := by
  have htext : orderExpr.text = "map<(json | awslambda:Context) []>?|Order".toList := by
    decide
  rw [← htext, readType_text orderExpr]
  rfl

end LambdaDeploy.Outline
