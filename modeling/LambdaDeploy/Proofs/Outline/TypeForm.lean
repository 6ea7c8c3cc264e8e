import LambdaDeploy.Outline.TypeText
import LambdaDeploy.Proofs.Text.Identifier
import LambdaDeploy.Proofs.Text.Nesting
import LambdaDeploy.Proofs.Ty.Normal

/-!
# The forms of a type

The reader of types tries its cases in a fixed order, and each looks at an end of the text only.
For a text of each form the case that is meant is the first one that applies.

* `ofName?_eq_none_of_getLast?` — no builtin type ends like the other forms do.
* `readMember_eq` — the cases in their order.
* `readMember_optional`, `readMember_parens`, `readMember_array`, `readMember_map`,
  `readMember_record`, `readMember_qualified`, `readMember_declared` — one for each form.
-/

namespace LambdaDeploy.Outline

open Text

variable {scope : Scope} {text inner : List Char}

/-! ## Names of builtin types -/

theorem ofName?_eq_none_of_getLast? {c : Char} (hlast : text.getLast? = some c)
    (hc : c ∈ ['?', ']', '>', '}']) : Builtin.ofName? (String.ofList text) = none := by
  cases hbuiltin : Builtin.ofName? (String.ofList text) with
  | none => rfl
  | some b =>
    have hname :=
      congrArg (fun s : String => s.toList.getLast?) (Builtin.name_eq_of_ofName? hbuiltin)
    simp only [String.toList_ofList, hlast] at hname
    have hends : ∀ b : Builtin, ∀ c ∈ ['?', ']', '>', '}'], b.name.toList.getLast? ≠ some c := by
      intro b
      cases b <;> decide
    exact absurd hname (hends b c hc)

theorem ofName?_eq_none_of_mem (h : ':' ∈ text) : Builtin.ofName? (String.ofList text) = none := by
  cases hbuiltin : Builtin.ofName? (String.ofList text) with
  | none => rfl
  | some b =>
    have hname := congrArg String.toList (Builtin.name_eq_of_ofName? hbuiltin)
    rw [String.toList_ofList] at hname
    rw [← hname] at h
    have hfree : ∀ b : Builtin, ':' ∉ b.name.toList := by
      intro b
      cases b <;> decide
    exact absurd h (hfree b)

/-- Only the empty pair of parentheses is a name. -/
theorem ofName?_eq_none_of_parens (h : inner ≠ []) :
    Builtin.ofName? (String.ofList ('(' :: (inner ++ [')']))) = none := by
  cases hbuiltin : Builtin.ofName? (String.ofList ('(' :: (inner ++ [')']))) with
  | none => rfl
  | some b =>
    have hname := congrArg String.toList (Builtin.name_eq_of_ofName? hbuiltin)
    rw [String.toList_ofList] at hname
    have hshort : ∀ b : Builtin, b.name.toList.head? = some '(' → b.name.toList.length = 2 := by
      intro b
      cases b <;> decide
    have hlength := hshort b (by rw [hname]; rfl)
    have hpositive := List.length_pos_iff.2 h
    rw [hname, List.length_cons, List.length_append, List.length_singleton] at hlength
    omega

/-! ## Endings -/

theorem optionalOf?_eq_none {c : Char} (hlast : text.getLast? = some c) (hc : c ≠ '?') :
    optionalOf? text = none :=
  beforeSuffix?_eq_none [] hlast hc

theorem arrayElement?_eq_none {c : Char} (hlast : text.getLast? = some c) (hc : c ≠ ']') :
    arrayElement? text = none :=
  beforeSuffix?_eq_none ['['] hlast hc

theorem mapElement?_eq_none {c : Char} (hlast : text.getLast? = some c) (hc : c ≠ '>') :
    mapElement? text = none := by
  rw [mapElement?, Option.bind_eq_none_iff]
  intro rest hrest
  obtain rfl := afterPrefix?_eq_some_iff.1 hrest
  cases helement : beforeSuffix? ['>'] rest with
  | none => rfl
  | some element =>
    obtain rfl := beforeSuffix?_eq_some_iff.1 helement
    rw [← List.append_assoc, List.getLast?_concat] at hlast
    exact absurd (Option.some.inj hlast).symm hc

theorem isRecord_eq_false {c : Char} (hlast : text.getLast? = some c) (hc : c ≠ '}') :
    isRecord text = false := by
  rw [isRecord]
  split
  · simp [hlast, hc]
  · rfl

/-! ## One case for each form -/

/-- The cases of a type without bars, in the order in which they are tried. -/
theorem readMember_eq (scope : Scope) (text : List Char) :
    readMember scope text =
      match Builtin.ofName? (String.ofList text) with
      | some b => .builtin b
      | none =>
        match optionalOf? text with
        | some inner => .ofMembers [readType scope inner, .builtin .nil]
        | none =>
          match stripParens? text with
          | some inner => readType scope inner
          | none =>
            match arrayElement? text with
            | some element => .array (readType scope element)
            | none =>
              match mapElement? text with
              | some element => .map (readType scope element)
              | none =>
                if isRecord text then .record (String.ofList text) else readName scope text := by
  rw [readMember]
  cases Builtin.ofName? (String.ofList text) with
  | some b => rfl
  | none =>
    dsimp only
    split
    · rename_i h
      rw [h]
    · rename_i h
      rw [h]
      dsimp only
      split
      · rename_i h
        rw [h]
      · rename_i h
        rw [h]
        dsimp only
        split
        · rename_i h
          rw [h]
        · rename_i h
          rw [h]
          dsimp only
          split
          · rename_i h
            rw [h]
          · rename_i h
            rw [h]

theorem readMember_builtin (scope : Scope) (b : Builtin) :
    readMember scope b.name.toList = .builtin b := by
  rw [readMember_eq, String.ofList_toList, Builtin.ofName?_name]

theorem readMember_optional (scope : Scope) (inner : List Char) :
    readMember scope (inner ++ ['?']) = .ofMembers [readType scope inner, .builtin .nil] := by
  rw [readMember_eq, ofName?_eq_none_of_getLast? List.getLast?_concat (by decide), optionalOf?,
    beforeSuffix?_append]

theorem readMember_parens {allowed : Char → Prop} (scope : Scope) (h : Nested allowed inner)
    (hne : inner ≠ []) : readMember scope ('(' :: (inner ++ [')'])) = readType scope inner := by
  have hlast : ('(' :: (inner ++ [')'])).getLast? = some ')' := by
    rw [← List.cons_append, List.getLast?_concat]
  rw [readMember_eq, ofName?_eq_none_of_parens hne, optionalOf?_eq_none hlast (by decide),
    stripParens?_enclosed h hne]

theorem readMember_array (scope : Scope) (element : List Char) :
    readMember scope (element ++ ['[', ']']) = .array (readType scope element) := by
  have hlast : (element ++ ['[', ']']).getLast? = some ']' := by simp
  rw [readMember_eq, ofName?_eq_none_of_getLast? hlast (by decide),
    optionalOf?_eq_none hlast (by decide), stripParens?_eq_none_of_getLast? hlast (by decide),
    arrayElement?, beforeSuffix?_append]

theorem readMember_map (scope : Scope) (element : List Char) :
    readMember scope (['m', 'a', 'p', '<'] ++ (element ++ ['>'])) =
      .map (readType scope element) := by
  have hlast : (['m', 'a', 'p', '<'] ++ (element ++ ['>'])).getLast? = some '>' := by
    rw [← List.append_assoc, List.getLast?_concat]
  rw [readMember_eq, ofName?_eq_none_of_getLast? hlast (by decide),
    optionalOf?_eq_none hlast (by decide), stripParens?_eq_none_of_getLast? hlast (by decide),
    arrayElement?_eq_none hlast (by decide), mapElement?, afterPrefix?_append, Option.bind_some,
    beforeSuffix?_append]

/-- The text of a record: its braces may stand apart from the word. -/
theorem readMember_record (scope : Scope) (gap fields : List Char)
    (hgap : ∀ c ∈ gap, isBlank c = true) :
    readMember scope (['r', 'e', 'c', 'o', 'r', 'd'] ++ (gap ++ '{' :: (fields ++ ['}']))) =
      .record (String.ofList
        (['r', 'e', 'c', 'o', 'r', 'd'] ++ (gap ++ '{' :: (fields ++ ['}'])))) := by
  have hlast : (['r', 'e', 'c', 'o', 'r', 'd'] ++ (gap ++ '{' :: (fields ++ ['}']))).getLast? =
      some '}' := by
    rw [← List.cons_append, ← List.append_assoc, ← List.append_assoc, List.getLast?_concat]
  have hrecord : isRecord (['r', 'e', 'c', 'o', 'r', 'd'] ++ (gap ++ '{' :: (fields ++ ['}']))) =
      true := by
    have hopen : trimStart (gap ++ '{' :: (fields ++ ['}'])) = '{' :: (fields ++ ['}']) := by
      rw [trimStart_append_of_blank hgap, trimStart_eq_self]
      intro d hd
      cases hd
      decide
    rw [isRecord, afterPrefix?_append]
    simp only [hopen, hlast]
    rfl
  have hmap : mapElement? (['r', 'e', 'c', 'o', 'r', 'd'] ++ (gap ++ '{' :: (fields ++ ['}']))) =
      none := mapElement?_eq_none hlast (by decide)
  rw [readMember_eq, ofName?_eq_none_of_getLast? hlast (by decide),
    optionalOf?_eq_none hlast (by decide), stripParens?_eq_none_of_getLast? hlast (by decide),
    arrayElement?_eq_none hlast (by decide), hmap]
  simp only [hrecord, if_true]

/-- A text that ends in a character of names stands for a builtin type or for a name. -/
theorem readMember_of_name {c : Char} (hlast : text.getLast? = some c) (hc : isNameChar c = true)
    (hbuiltin : Builtin.ofName? (String.ofList text) = none) :
    readMember scope text = readName scope text := by
  have hend : ∀ d, isNameChar d = false → c ≠ d := fun d hd => ne_of_isNameChar hc hd
  rw [readMember_eq, hbuiltin, optionalOf?_eq_none hlast (hend '?' (by decide)),
    stripParens?_eq_none_of_getLast? hlast (hend ')' (by decide)),
    arrayElement?_eq_none hlast (hend ']' (by decide)),
    mapElement?_eq_none hlast (hend '>' (by decide))]
  simp only [isRecord_eq_false hlast (hend '}' (by decide)), Bool.false_eq_true, if_false]

theorem readMember_qualified {modulePrefix name : String} {i : Import}
    (himport : scope.importAs? modulePrefix = some i) (hqualifier : IsIdentifier modulePrefix)
    (hname : IsIdentifier name) :
    readMember scope (modulePrefix.toList ++ ':' :: name.toList) = .named i.package name := by
  obtain ⟨c, hlast, hc⟩ := hname.exists_getLast?
  have hend : (modulePrefix.toList ++ ':' :: name.toList).getLast? = some c := by
    rw [List.getLast?_append, List.getLast?_cons, hlast]
    rfl
  have hbefore : ∀ d ∈ modulePrefix.toList, (d == ':') = false := fun d hd =>
    beq_eq_false_iff_ne.2 (hqualifier.ne (by decide) d hd)
  rw [readMember_of_name hend hc (ofName?_eq_none_of_mem (by simp)), readName,
    cutFirst?_append_cons hbefore (by decide)]
  simp [himport]

theorem readMember_declared {name : String} (hknown : scope.hasType name = true)
    (hbuiltin : Builtin.ofName? name = none) (hname : IsIdentifier name) :
    readMember scope name.toList = .named scope.package name := by
  obtain ⟨c, hlast, hc⟩ := hname.exists_getLast?
  have hnone : ∀ d ∈ name.toList, (d == ':') = false := fun d hd =>
    beq_eq_false_iff_ne.2 (hname.ne (by decide) d hd)
  rw [readMember_of_name hlast hc (by simpa using hbuiltin), readName, cutFirst?_eq_none hnone]
  simp [hknown]

end LambdaDeploy.Outline
