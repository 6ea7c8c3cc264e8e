import LambdaDeploy.Text.Cut

/-!
# What cutting gives back

The cuts of a text, for texts that are put together from known pieces.

* `splitWhere_append_cons` — a separator cuts the text in two, whatever stands around it.
* `splitWhere_intercalate` — joined pieces are found again.
* `cutFirst?_append_cons`, `cutLast?_append_cons` — one separator.
* `trim_eq_self_iff` — a text is trimmed if no blank stands at its ends.
* `trim_pad` — blanks around a text do not matter.
* `exists_trim_append` — nothing but blanks is cut off.
* `Tight` — texts with no blank at either end, and how they are put together.
-/

namespace LambdaDeploy.Text

/-- A property of the characters of a text is decided by going through the text, even where it
could be decided for all characters there are. -/
instance (priority := high) decidableForallMem {P : Char → Prop} [DecidablePred P]
    (text : List Char) : Decidable (∀ c ∈ text, P c) := List.decidableBAll P text

section Separators

variable {α : Type} {p : α → Bool} {c : α} {text before after : List α}
  {pieces others : List (List α)}

/-! ## Pieces -/

theorem consFirst_append (h : pieces ≠ []) :
    consFirst c (pieces ++ others) = consFirst c pieces ++ others := by
  cases pieces with
  | nil => exact absurd rfl h
  | cons piece pieces => rfl

theorem consFirst_ne_nil : consFirst c pieces ≠ [] := by
  cases pieces <;> simp [consFirst]

theorem splitWhere_ne_nil : splitWhere p text ≠ [] := by
  cases text with
  | nil => simp
  | cons d text =>
    rw [splitWhere_cons]
    split
    · simp
    · exact consFirst_ne_nil

/-- A text without separators is its only piece. -/
theorem splitWhere_of_forall (h : ∀ d ∈ text, p d = false) : splitWhere p text = [text] := by
  induction text with
  | nil => rfl
  | cons d text ih =>
    rw [List.forall_mem_cons] at h
    rw [splitWhere_cons, h.1, ih h.2]
    rfl

/-- A separator ends the last piece of what stands before it. -/
theorem splitWhere_append_cons (hc : p c = true) :
    splitWhere p (before ++ c :: after) = splitWhere p before ++ splitWhere p after := by
  induction before with
  | nil => simp [splitWhere_cons, hc]
  | cons d before ih =>
    rw [List.cons_append, splitWhere_cons, splitWhere_cons, ih]
    split
    · rfl
    · exact consFirst_append splitWhere_ne_nil

/-- No piece holds a separator. -/
theorem eq_false_of_mem_splitWhere {piece : List α} (h : piece ∈ splitWhere p text) :
    ∀ d ∈ piece, p d = false := by
  induction text generalizing piece with
  | nil => simp_all
  | cons e text ih =>
    rw [splitWhere_cons] at h
    split at h
    · rcases List.mem_cons.1 h with rfl | h
      · simp
      · exact ih h
    · rename_i he
      cases hpieces : splitWhere p text with
      | nil => exact absurd hpieces splitWhere_ne_nil
      | cons first others =>
        rw [hpieces] at ih h
        rcases List.mem_cons.1 h with rfl | h
        · exact List.forall_mem_cons.2 ⟨by simpa using he, ih (by simp)⟩
        · exact ih (by simp [h])

/-- Pieces without separators are found again after they were joined. -/
theorem splitWhere_intercalate (hc : p c = true) (hne : pieces ≠ [])
    (h : ∀ piece ∈ pieces, ∀ d ∈ piece, p d = false) :
    splitWhere p ([c].intercalate pieces) = pieces := by
  induction pieces with
  | nil => exact absurd rfl hne
  | cons piece pieces ih =>
    rw [List.forall_mem_cons] at h
    cases pieces with
    | nil => simpa using splitWhere_of_forall h.1
    | cons next pieces =>
      rw [List.intercalate_cons_cons, List.append_assoc, List.singleton_append,
        splitWhere_append_cons hc, splitWhere_of_forall h.1, ih (by simp) h.2]
      rfl

/-- What holds of the elements of a separator and of all pieces holds of their join. -/
theorem forall_mem_intercalate {P : α → Prop} {sep : List α} {pieces : List (List α)}
    (hsep : ∀ d ∈ sep, P d) (h : ∀ piece ∈ pieces, ∀ d ∈ piece, P d) :
    ∀ d ∈ sep.intercalate pieces, P d := by
  induction pieces with
  | nil => simp
  | cons piece pieces ih =>
    rw [List.forall_mem_cons] at h
    cases pieces with
    | nil => simpa using h.1
    | cons next pieces =>
      rw [List.intercalate_cons_cons]
      intro d hd
      rcases List.mem_append.1 hd with hd | hd
      · exact (List.mem_append.1 hd).elim (h.1 d) (hsep d)
      · exact ih h.2 d hd

/-- What respects joining two pieces respects joining many. -/
theorem intercalate_map {β : Type} {translate : List α → List β} (hnil : translate [] = [])
    (happend : ∀ l l', translate (l ++ l') = translate l ++ translate l') (sep : List α)
    (pieces : List (List α)) :
    translate (sep.intercalate pieces) = (translate sep).intercalate (pieces.map translate) := by
  induction pieces with
  | nil => simpa using hnil
  | cons piece pieces ih =>
    cases pieces with
    | nil => simp
    | cons next pieces =>
      rw [List.intercalate_cons_cons, happend, happend, ih]
      simp only [List.map_cons, List.intercalate_cons_cons]

theorem intercalate_concat (sep last : List α) (hne : pieces ≠ []) :
    sep.intercalate (pieces ++ [last]) = sep.intercalate pieces ++ sep ++ last := by
  induction pieces with
  | nil => exact absurd rfl hne
  | cons piece pieces ih =>
    cases pieces with
    | nil => simp
    | cons next pieces =>
      rw [List.cons_append, List.cons_append, List.intercalate_cons_cons, ← List.cons_append,
        ih (by simp), List.intercalate_cons_cons]
      simp

/-! ## One separator -/

theorem cutFirst?_append_cons (hbefore : ∀ b ∈ before, p b = false) (hc : p c = true) :
    cutFirst? p (before ++ c :: after) = some (before, after) :=
  cutFirst?_eq_some_iff.2 ⟨c, hc, hbefore, rfl⟩

theorem cutFirst?_eq_none (h : ∀ d ∈ text, p d = false) : cutFirst? p text = none := by
  cases hcut : cutFirst? p text with
  | none => rfl
  | some cut =>
    obtain ⟨d, hd, -, rfl⟩ := cutFirst?_eq_some_iff.1 hcut
    rw [h d (by simp)] at hd
    cases hd

theorem cutLast?_append_cons (hc : p c = true) (hafter : ∀ a ∈ after, p a = false) :
    cutLast? p (before ++ c :: after) = some (before, after) := by
  have hcut : cutFirst? p (after.reverse ++ c :: before.reverse) =
      some (after.reverse, before.reverse) :=
    cutFirst?_append_cons (fun a ha => hafter a (List.mem_reverse.1 ha)) hc
  rw [cutLast?, List.reverse_append, List.reverse_cons, List.append_assoc,
    List.singleton_append, hcut]
  simp

end Separators

variable {c : Char} {text left right : List Char} {pieces : List (List Char)}

/-! ## Known endings -/

theorem beforeSuffix?_append (tail rest : List Char) :
    beforeSuffix? tail (rest ++ tail) = some rest :=
  beforeSuffix?_eq_some_iff.2 rfl

/-- A text whose last character is another one does not end like that. -/
theorem beforeSuffix?_eq_none {d : Char} (front : List Char) (hlast : text.getLast? = some c)
    (hc : c ≠ d) : beforeSuffix? (front ++ [d]) text = none := by
  cases hsuffix : beforeSuffix? (front ++ [d]) text with
  | none => rfl
  | some rest =>
    rw [beforeSuffix?_eq_some_iff.1 hsuffix, ← List.append_assoc, List.getLast?_concat] at hlast
    exact absurd (Option.some.inj hlast).symm hc

/-! ## Trimming -/

theorem trimEnd_eq_reverse (text : List Char) :
    trimEnd text = (trimStart text.reverse).reverse := rfl

theorem trimStart_eq_self (h : ∀ d, text.head? = some d → isBlank d = false) :
    trimStart text = text := by
  cases text with
  | nil => rfl
  | cons d text => simp [trimStart, h d rfl]

theorem trimEnd_eq_self (h : ∀ d, text.getLast? = some d → isBlank d = false) :
    trimEnd text = text := by
  rw [trimEnd_eq_reverse, trimStart_eq_self (by simpa using h), List.reverse_reverse]

theorem isBlank_of_head?_trimStart {d : Char} (h : (trimStart text).head? = some d) :
    isBlank d = false := by
  induction text with
  | nil => cases h
  | cons e text ih =>
    rw [trimStart, List.dropWhile_cons] at h
    split at h
    · exact ih h
    · rename_i he
      cases h
      simpa using he

theorem isBlank_of_getLast?_trimEnd {d : Char} (h : (trimEnd text).getLast? = some d) :
    isBlank d = false := by
  rw [trimEnd_eq_reverse, List.getLast?_reverse] at h
  exact isBlank_of_head?_trimStart h

/-- A text is trimmed if and only if neither of its ends is blank. -/
theorem trim_eq_self_iff :
    trim text = text ↔
      (∀ d, text.head? = some d → isBlank d = false) ∧
        ∀ d, text.getLast? = some d → isBlank d = false := by
  constructor
  · intro h
    have hlast : ∀ d, text.getLast? = some d → isBlank d = false := by
      intro d hd
      rw [← h] at hd
      exact isBlank_of_getLast?_trimEnd hd
    have hlength : (trimStart text).length = text.length := by
      have hstart := length_trimStart_le text
      have hend : (trim text).length ≤ (trimStart text).length := length_trimEnd_le _
      rw [h] at hend
      omega
    have hstart : trimStart text = text :=
      (List.dropWhile_sublist isBlank).eq_of_length hlength
    refine ⟨fun d hd => ?_, hlast⟩
    rw [← hstart] at hd
    exact isBlank_of_head?_trimStart hd
  · rintro ⟨hhead, hlast⟩
    rw [trim, trimStart_eq_self hhead, trimEnd_eq_self hlast]

theorem trimStart_append_of_blank (hleft : ∀ d ∈ left, isBlank d = true) :
    trimStart (left ++ text) = trimStart text := by
  induction left with
  | nil => rfl
  | cons d left ih =>
    rw [List.forall_mem_cons] at hleft
    rw [List.cons_append, trimStart, List.dropWhile_cons, if_pos hleft.1]
    exact ih hleft.2

theorem trimEnd_append_of_blank (hright : ∀ d ∈ right, isBlank d = true) :
    trimEnd (text ++ right) = trimEnd text := by
  rw [trimEnd_eq_reverse, trimEnd_eq_reverse, List.reverse_append,
    trimStart_append_of_blank fun d hd => hright d (List.mem_reverse.1 hd)]

/-- Blanks around a text that is trimmed are cut off again. -/
theorem trim_pad (hleft : ∀ d ∈ left, isBlank d = true) (hright : ∀ d ∈ right, isBlank d = true)
    (h : trim text = text) : trim (left ++ text ++ right) = text := by
  obtain ⟨hhead, hlast⟩ := trim_eq_self_iff.1 h
  rw [List.append_assoc, trim, trimStart_append_of_blank hleft]
  cases text with
  | nil =>
    rw [List.nil_append, ← List.append_nil right, trimStart_append_of_blank hright]
    rfl
  | cons d text =>
    rw [trimStart_eq_self (by simpa using hhead), trimEnd_append_of_blank hright,
      trimEnd_eq_self hlast]

theorem trim_append_blank (hright : ∀ d ∈ right, isBlank d = true) (h : trim text = text) :
    trim (text ++ right) = text := by
  have hnone : ∀ d ∈ ([] : List Char), isBlank d = true := by simp
  have hpad := trim_pad hnone hright h
  rwa [List.nil_append] at hpad

theorem trim_blank_append (hleft : ∀ d ∈ left, isBlank d = true) (h : trim text = text) :
    trim (left ++ text) = text := by
  have hnone : ∀ d ∈ ([] : List Char), isBlank d = true := by simp
  have hpad := trim_pad hleft hnone h
  rwa [List.append_nil] at hpad

theorem isBlank_of_mem_takeWhile {d : Char} (h : d ∈ text.takeWhile isBlank) :
    isBlank d = true :=
  List.all_eq_true.1 List.all_takeWhile d h

theorem exists_trimEnd_append (text : List Char) :
    ∃ right, (∀ d ∈ right, isBlank d = true) ∧ text = trimEnd text ++ right := by
  refine ⟨(text.reverse.takeWhile isBlank).reverse,
    fun d hd => isBlank_of_mem_takeWhile (List.mem_reverse.1 hd), ?_⟩
  rw [trimEnd, ← List.reverse_append, List.takeWhile_append_dropWhile, List.reverse_reverse]

/-- A text is what trimming leaves of it, with blanks around. -/
theorem exists_trim_append (text : List Char) :
    ∃ left right, (∀ d ∈ left, isBlank d = true) ∧ (∀ d ∈ right, isBlank d = true) ∧
      text = left ++ trim text ++ right := by
  obtain ⟨right, hright, hend⟩ := exists_trimEnd_append (trimStart text)
  refine ⟨text.takeWhile isBlank, right, fun d hd => isBlank_of_mem_takeWhile hd, hright, ?_⟩
  rw [List.append_assoc, trim, ← hend]
  exact List.takeWhile_append_dropWhile.symm

theorem trim_trim (text : List Char) : trim (trim text) = trim text := by
  refine trim_eq_self_iff.2 ⟨fun d hd => ?_, fun d hd => isBlank_of_getLast?_trimEnd hd⟩
  obtain ⟨right, -, hend⟩ := exists_trimEnd_append (trimStart text)
  have hhead : (trimStart text).head? = some d := by
    rw [hend, List.head?_append]
    exact Option.or_eq_some_iff.2 (.inl hd)
  exact isBlank_of_head?_trimStart hhead

/-! ## Tight texts -/

/-- A text that is not empty and has no blank at either end. -/
structure Tight (text : List Char) : Prop where
  opens : ∃ c rest, text = c :: rest ∧ isBlank c = false
  closes : ∃ front c, text = front ++ [c] ∧ isBlank c = false

namespace Tight

theorem ne_nil (h : Tight text) : text ≠ [] := by
  obtain ⟨c, rest, rfl, -⟩ := h.opens
  exact List.cons_ne_nil c rest

theorem trim_eq (h : Tight text) : trim text = text := by
  rw [trim_eq_self_iff]
  constructor
  · obtain ⟨c, rest, rfl, hc⟩ := h.opens
    intro d hd
    cases hd
    exact hc
  · obtain ⟨front, c, rfl, hc⟩ := h.closes
    intro d hd
    rw [List.getLast?_concat] at hd
    cases hd
    exact hc

theorem of_trim (h : trim text = text) (hne : text ≠ []) : Tight text := by
  obtain ⟨hhead, hlast⟩ := trim_eq_self_iff.1 h
  obtain ⟨c, rest, rfl⟩ := List.exists_cons_of_ne_nil hne
  obtain ⟨front, d, hd⟩ := (List.eq_nil_or_concat (c :: rest)).resolve_left hne
  rw [List.concat_eq_append] at hd
  exact ⟨⟨c, rest, rfl, hhead c rfl⟩, ⟨front, d, hd, hlast d (by rw [hd, List.getLast?_concat])⟩⟩

instance (text : List Char) : Decidable (Tight text) :=
  decidable_of_iff (trim text = text ∧ text ≠ [])
    ⟨fun h => .of_trim h.1 h.2, fun h => ⟨h.trim_eq, h.ne_nil⟩⟩

theorem of_forall (hne : text ≠ []) (h : ∀ c ∈ text, isBlank c = false) : Tight text :=
  of_trim (trim_eq_self_iff.2
    ⟨fun c hc => h c (List.mem_of_head? hc), fun c hc => h c (List.mem_of_getLast? hc)⟩) hne

/-- What stands between two tight texts does not matter. -/
theorem between (hleft : Tight left) (hright : Tight right) (middle : List Char) :
    Tight (left ++ middle ++ right) := by
  constructor
  · obtain ⟨c, rest, rfl, hc⟩ := hleft.opens
    exact ⟨c, rest ++ middle ++ right, by simp, hc⟩
  · obtain ⟨front, c, rfl, hc⟩ := hright.closes
    exact ⟨left ++ middle ++ front, c, by simp, hc⟩

theorem intercalate (sep : List Char) (hne : pieces ≠ []) (h : ∀ piece ∈ pieces, Tight piece) :
    Tight (sep.intercalate pieces) := by
  induction pieces with
  | nil => exact absurd rfl hne
  | cons piece pieces ih =>
    rw [List.forall_mem_cons] at h
    cases pieces with
    | nil => simpa using h.1
    | cons next pieces =>
      rw [List.intercalate_cons_cons]
      exact h.1.between (ih (by simp) h.2) sep

end Tight

end LambdaDeploy.Text
