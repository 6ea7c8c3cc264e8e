import LambdaDeploy.Outline.Layout
import LambdaDeploy.Proofs.Outline.Printable
import LambdaDeploy.Proofs.Text.Cutting

/-!
# Reading printed declarations

The declarations of a scope, written one below the other, and read again.

* `Scope.renderDeclarations` — the lines of a scope: its package, its imports, its types.
* `words_append_cons`, `map_trim_splitWhere` — the texts that declarations are cut into.
* `Declaration` — a line that declares something.
* `declaration_package`, `declaration_import`, `declaration_type` — the three kinds of lines.
* `foldlM_renderDeclarations` — **the lines of a scope declare the scope.**
-/

namespace LambdaDeploy

open Text Outline

/-! ## Writing declarations -/

namespace Scope

/-- The written form of a package declaration. -/
def renderPackage (package : Package) : String := "module " ++ package.path ++ ";"

/-- The written form of an import, together with the names that the package exports. -/
def renderExports (i : Import) : String :=
  "import " ++ i.package.path ++
    (if i.modulePrefix = i.package.name then "" else " as " ++ i.modulePrefix) ++
    (if i.exports = [] then "" else " \x7b " ++ String.intercalate ", " i.exports ++ " \x7d") ++ ";"

/-- The written form of a type declaration. -/
def renderTypeName (name : String) : String := "type " ++ name ++ ";"

/-- The lines that declare a scope: its package, its imports and its types. -/
def renderDeclarations (scope : Scope) : List String :=
  [renderPackage scope.package] ++ scope.imports.map renderExports ++
    scope.types.map renderTypeName

end Scope

namespace Outline

variable {text : List Char} {names : List (List Char)} {package : Package} {i : Import}
  {name : String}

/-! ## Cutting declarations -/

theorem words_of_forall (hne : text ≠ []) (h : ∀ c ∈ text, isBlank c = false) :
    words text = [text] := by
  rw [words, splitWhere_of_forall h]
  simp [hne]

theorem words_append_cons {c : Char} (hc : isBlank c = true) (before after : List Char) :
    words (before ++ c :: after) = words before ++ words after := by
  rw [words, splitWhere_append_cons hc, List.filter_append]
  rfl

theorem words_identifier (h : IsIdentifier name) : words name.toList = [name.toList] :=
  words_of_forall h.ne_nil fun c hc => isBlank_of_isNameChar (h.plain c hc)

/-- Joined names are found again, whatever blanks stand around them. -/
theorem map_trim_splitWhere {left right : List Char} (hleft : ∀ c ∈ left, isBlank c = true)
    (hright : ∀ c ∈ right, isBlank c = true) (hne : names ≠ [])
    (h : ∀ name ∈ names, Tight name ∧ ',' ∉ name) :
    (splitWhere (· == ',') (left ++ [',', ' '].intercalate names ++ right)).map trim = names := by
  have hcomma : ∀ {text : List Char}, ',' ∉ text → ∀ c ∈ text, (c == ',') = false :=
    fun htext c hc => beq_eq_false_iff_ne.2 fun hsame => htext (hsame ▸ hc)
  have hblank : ∀ {text : List Char}, (∀ c ∈ text, isBlank c = true) → ',' ∉ text :=
    fun htext hc => absurd (htext _ hc) (by decide)
  induction names generalizing left with
  | nil => exact absurd rfl hne
  | cons name names ih =>
    rw [List.forall_mem_cons] at h
    obtain ⟨⟨htight, hname⟩, hothers⟩ := h
    cases names with
    | nil =>
      have hpiece : ',' ∉ left ++ name ++ right := by
        simp [hblank hleft, hname, hblank hright]
      rw [List.intercalate_singleton, splitWhere_of_forall (hcomma hpiece), List.map_singleton,
        trim_pad hleft hright htight.trim_eq]
    | cons next names =>
      have hshape : left ++ [',', ' '].intercalate (name :: next :: names) ++ right =
          (left ++ name) ++ ',' :: ([' '] ++ [',', ' '].intercalate (next :: names) ++ right) := by
        rw [List.intercalate_cons_cons]
        simp
      have hpiece : ',' ∉ left ++ name := by simp [hblank hleft, hname]
      rw [hshape, splitWhere_append_cons (by decide), splitWhere_of_forall (hcomma hpiece),
        List.map_append, ih (by decide) (by simp) hothers, List.map_singleton,
        trim_blank_append hleft htight.trim_eq]
      rfl

/-! ## Packages -/

theorem toList_path (package : Package) :
    package.path.toList = package.org.toList ++ '/' :: package.name.toList := by
  simp [Package.path]

theorem mem_path (h : package.Printable) {c : Char} (hc : c ∈ package.path.toList) :
    isNameChar c = true ∨ c = '/' := by
  rw [toList_path] at hc
  rcases List.mem_append.1 hc with hc | hc
  · exact .inl (h.org.plain c hc)
  · exact (List.mem_cons.1 hc).elim .inr fun hc => .inl (h.name.plain c hc)

theorem tight_path (h : package.Printable) : Tight package.path.toList := by
  refine .of_forall (by simp [toList_path]) fun c hc => ?_
  rcases mem_path h hc with hname | rfl
  · exact isBlank_of_isNameChar hname
  · decide

/-- A printed package is read back. -/
theorem readPackage_path (h : package.Printable) :
    readPackage package.path.toList = .ok package := by
  have hslash : ∀ c ∈ package.org.toList, (c == '/') = false := fun c hc =>
    beq_eq_false_iff_ne.2 (h.org.ne (by decide) c hc)
  obtain ⟨c, org, horg⟩ := List.exists_cons_of_ne_nil h.org.ne_nil
  obtain ⟨d, name, hname⟩ := List.exists_cons_of_ne_nil h.name.ne_nil
  rw [toList_path, readPackage, cutFirst?_append_cons hslash (by decide), horg, hname]
  dsimp only
  rw [← horg, ← hname, String.ofList_toList, String.ofList_toList, ← h.version]

/-! ## Imports -/

/-- An import as it is written before the exported names. -/
def importHead (i : Import) : List Char :=
  i.package.path.toList ++
    if i.modulePrefix = i.package.name then [] else " as ".toList ++ i.modulePrefix.toList

theorem tight_importHead (hpackage : i.package.Printable) (hqualifier : IsIdentifier i.modulePrefix) :
    Tight (importHead i) := by
  rw [importHead]
  split
  · rw [List.append_nil]
    exact tight_path hpackage
  · rw [← List.append_assoc]
    exact (tight_path hpackage).between hqualifier.tight _

theorem mem_importHead (hpackage : i.package.Printable) (hqualifier : IsIdentifier i.modulePrefix)
    {c : Char} (hc : c ∈ importHead i) : isNameChar c = true ∨ c = '/' ∨ c = ' ' := by
  rw [importHead] at hc
  rcases List.mem_append.1 hc with hc | hc
  · exact (mem_path hpackage hc).imp_right .inl
  · split at hc
    · cases hc
    · rcases List.mem_append.1 hc with hc | hc
      · have hword : ∀ c ∈ " as ".toList, isNameChar c = true ∨ c = '/' ∨ c = ' ' := by decide
        exact hword c hc
      · exact .inl (hqualifier.plain c hc)

/-- The package and the module prefix of a printed import are read back. -/
theorem readImportHead_importHead (hpackage : i.package.Printable)
    (hqualifier : IsIdentifier i.modulePrefix) :
    readImportHead (importHead i) = .ok { i with exports := [] } := by
  have hpath : words i.package.path.toList = [i.package.path.toList] := by
    refine words_of_forall (tight_path hpackage).ne_nil fun c hc => ?_
    rcases mem_path hpackage hc with hname | rfl
    · exact isBlank_of_isNameChar hname
    · decide
  rw [importHead]
  split
  · rename_i hplain
    rw [List.append_nil, readImportHead, hpath]
    simp only [readPackage_path hpackage, bind, Except.bind, pure, Except.pure, Import.plain,
      hplain]
  · have hwords : words (i.package.path.toList ++ (" as ".toList ++ i.modulePrefix.toList)) =
        [i.package.path.toList, ['a', 's'], i.modulePrefix.toList] := by
      have hshape : i.package.path.toList ++ (" as ".toList ++ i.modulePrefix.toList) =
          i.package.path.toList ++ ' ' :: (['a', 's'] ++ ' ' :: i.modulePrefix.toList) := rfl
      have has : words ['a', 's'] = [['a', 's']] := by decide
      rw [hshape, words_append_cons (by decide), words_append_cons (by decide), hpath, has,
        words_identifier hqualifier]
      rfl
    rw [readImportHead, hwords]
    simp only [readPackage_path hpackage, bind, Except.bind, pure, Except.pure,
      String.ofList_toList]

/-- The names that a package exports as they are written between braces. -/
def exportNames (i : Import) : List Char :=
  [',', ' '].intercalate (i.exports.map String.toList)

theorem exportName (h : ∀ name ∈ i.exports, IsIdentifier name) :
    ∀ name ∈ i.exports.map String.toList, Tight name ∧ ',' ∉ name ∧ '\n' ∉ name := by
  intro name hname
  obtain ⟨exported, hmem, rfl⟩ := List.mem_map.1 hname
  have hidentifier := h exported hmem
  exact ⟨hidentifier.tight, fun hcomma => hidentifier.ne (by decide) _ hcomma rfl,
    fun hend => hidentifier.ne (by decide) _ hend rfl⟩

theorem readExports_exportNames (h : ∀ name ∈ i.exports, IsIdentifier name) (hne : i.exports ≠ []) :
    readExports (exportNames i ++ [' ']) = i.exports := by
  have hnames : ∀ name ∈ i.exports.map String.toList, Tight name ∧ ',' ∉ name := fun name hname =>
    ⟨(exportName h name hname).1, (exportName h name hname).2.1⟩
  have hpieces : (splitWhere (· == ',') ([] ++ exportNames i ++ [' '])).map trim =
      i.exports.map String.toList :=
    map_trim_splitWhere (by simp) (by decide) (by simpa using hne) hnames
  have hkept : ∀ name ∈ i.exports.map String.toList, decide (name ≠ []) = true := fun name hname =>
    decide_eq_true (hnames name hname).1.ne_nil
  rw [List.nil_append] at hpieces
  rw [readExports, hpieces, List.filter_eq_self.2 hkept, List.map_map]
  have hback : (String.ofList ∘ String.toList) = id := funext fun _ => String.ofList_toList
  rw [hback, List.map_id]

/-- The export list of an import as it is written behind its head. -/
def exportList (i : Import) : List Char :=
  if i.exports = [] then [] else [' ', '{', ' '] ++ exportNames i ++ [' ', '}']

theorem tight_importText (hpackage : i.package.Printable) (hqualifier : IsIdentifier i.modulePrefix) :
    Tight (importHead i ++ exportList i) := by
  have hhead := tight_importHead hpackage hqualifier
  have hclosing : Tight ['}'] := .of_forall (by simp) (by decide)
  rw [exportList]
  split
  · rwa [List.append_nil]
  · have hbetween := hhead.between hclosing ([' ', '{', ' '] ++ exportNames i ++ [' '])
    simpa using hbetween

theorem oneLine_importText (hpackage : i.package.Printable) (hqualifier : IsIdentifier i.modulePrefix)
    (hexports : ∀ name ∈ i.exports, IsIdentifier name) :
    '\n' ∉ importHead i ++ exportList i := by
  have hhead : '\n' ∉ importHead i := fun hmem =>
    (mem_importHead hpackage hqualifier hmem).elim (absurd · (by decide)) (absurd · (by decide))
  have hnames : ∀ c ∈ exportNames i, c ≠ '\n' :=
    forall_mem_intercalate (by decide) fun name hname c hc hsame =>
      (exportName hexports name hname).2.2 (hsame ▸ hc)
  rw [List.mem_append, exportList]
  split
  · simpa using hhead
  · have hlist : '\n' ∉ exportNames i := fun hmem => hnames _ hmem rfl
    simp [hhead, hlist]

theorem toList_renderExports (i : Import) :
    (Scope.renderExports i).toList =
      "import".toList ++ [' '] ++ (importHead i ++ exportList i) ++ [';'] := by
  by_cases hplain : i.modulePrefix = i.package.name
  all_goals by_cases hnone : i.exports = []
  all_goals
    simp [Scope.renderExports, importHead, exportList, exportNames, String.toList_intercalate,
      hplain, hnone]

/-- A printed import is read back. -/
theorem readImport_importText (hpackage : i.package.Printable)
    (hqualifier : IsIdentifier i.modulePrefix) (hexports : ∀ name ∈ i.exports, IsIdentifier name) :
    readImport (importHead i ++ exportList i) = .ok i := by
  have hbrace : ∀ c ∈ importHead i, (c == '{') = false := by
    intro c hc
    rcases mem_importHead hpackage hqualifier hc with hname | rfl | rfl
    · exact beq_eq_false_iff_ne.2 (ne_of_isNameChar hname (by decide))
    · decide
    · decide
  have hhead := readImportHead_importHead hpackage hqualifier
  rw [exportList]
  split
  · rename_i hnone
    rw [List.append_nil, readImport, cutFirst?_eq_none hbrace]
    dsimp only
    rw [hhead, ← hnone]
  · rename_i hsome
    have hshape : importHead i ++ ([' ', '{', ' '] ++ exportNames i ++ [' ', '}']) =
        (importHead i ++ [' ']) ++ '{' :: ([' '] ++ (exportNames i ++ [' ', '}'])) := by simp
    have hbefore : ∀ c ∈ importHead i ++ [' '], (c == '{') = false := by
      intro c hc
      rcases List.mem_append.1 hc with hc | hc
      · exact hbrace c hc
      · rw [List.mem_singleton.1 hc]
        decide
    have hnames : Tight (exportNames i) :=
      .intercalate _ (by simpa using hsome) fun name hname => (exportName hexports name hname).1
    have hclosing : Tight ['}'] := .of_forall (by simp) (by decide)
    have htrimmed : trim ([' '] ++ (exportNames i ++ [' ', '}'])) =
        (exportNames i ++ [' ']) ++ ['}'] := by
      have hlist : exportNames i ++ [' ', '}'] = (exportNames i ++ [' ']) ++ ['}'] := by simp
      rw [hlist]
      exact trim_blank_append (by decide) (hnames.between hclosing [' ']).trim_eq
    have hblank : trim (importHead i ++ [' ']) = importHead i :=
      trim_append_blank (by decide) (tight_importHead hpackage hqualifier).trim_eq
    rw [hshape, readImport, cutFirst?_append_cons hbefore (by decide)]
    dsimp only
    rw [htrimmed, beforeSuffix?_append, hblank, hhead]
    simp only [bind, Except.bind, pure, Except.pure, readExports_exportNames hexports hsome]

/-! ## Lines that declare something -/

/-- A line outside documents that changes the scope of an outline. -/
structure Declaration (text : List Char) (update : Scope → Scope) : Prop extends
    PrintableLine text where
  noDocument : afterPrefix? "document ".toList text = none
  declares : ∀ scope, declare scope text = .ok (update scope)

/-- A word, an argument and a semicolon make a line. -/
theorem keywordLine {word : String} (hword : IsIdentifier word) {argument : List Char}
    (h : Tight argument) (hend : '\n' ∉ argument) :
    PrintableLine (word.toList ++ [' '] ++ argument ++ [';']) := by
  have hsemicolon : Tight [';'] := .of_forall (by simp) (by decide)
  refine ⟨?_, ?_, ?_⟩
  · have hbetween := (hword.tight.between h [' ']).between hsemicolon []
    rwa [List.append_nil] at hbetween
  · have hnone : '\n' ∉ word.toList := fun hmem => hword.ne (by decide) _ hmem rfl
    simp [hnone, hend]
  · obtain ⟨c, rest, hcons⟩ := List.exists_cons_of_ne_nil hword.ne_nil
    have hc : c ≠ ';' := hword.ne (by decide) c (by simp [hcons])
    simpa [hcons] using hc

theorem declaration_package (h : package.Printable) :
    Declaration (Scope.renderPackage package).toList fun scope =>
      { scope with package := package } := by
  have hword : IsIdentifier "module" := by decide
  have hpath := tight_path h
  have hend : '\n' ∉ package.path.toList := fun hmem =>
    (mem_path h hmem).elim (absurd · (by decide)) (absurd · (by decide))
  have htext : (Scope.renderPackage package).toList =
      "module".toList ++ [' '] ++ package.path.toList ++ [';'] := by
    simp [Scope.renderPackage]
  rw [htext]
  refine ⟨keywordLine hword hpath hend, rfl, fun scope => ?_⟩
  have hkeyword : "module".toList ++ [' '] ++ package.path.toList =
      "module ".toList ++ package.path.toList := rfl
  rw [declare, beforeSuffix?_append]
  dsimp only
  rw [(hword.tight.between hpath _).trim_eq, hkeyword, afterPrefix?_append]
  dsimp only
  rw [hpath.trim_eq, readPackage_path h]
  rfl

theorem declaration_import (hpackage : i.package.Printable)
    (hqualifier : IsIdentifier i.modulePrefix) (hexports : ∀ name ∈ i.exports, IsIdentifier name) :
    Declaration (Scope.renderExports i).toList fun scope => scope.addImport i := by
  have hword : IsIdentifier "import" := by decide
  have hargument := tight_importText hpackage hqualifier
  have hend := oneLine_importText hpackage hqualifier hexports
  rw [toList_renderExports]
  refine ⟨keywordLine hword hargument hend, rfl, fun scope => ?_⟩
  have hkeyword : "import".toList ++ [' '] ++ (importHead i ++ exportList i) =
      "import ".toList ++ (importHead i ++ exportList i) := rfl
  have hother : afterPrefix? "module ".toList ("import ".toList ++ (importHead i ++ exportList i)) =
      none := rfl
  rw [declare, beforeSuffix?_append]
  dsimp only
  rw [(hword.tight.between hargument _).trim_eq, hkeyword, hother]
  dsimp only
  rw [afterPrefix?_append]
  dsimp only
  rw [hargument.trim_eq, readImport_importText hpackage hqualifier hexports]
  rfl

theorem declaration_type (h : IsIdentifier name) :
    Declaration (Scope.renderTypeName name).toList fun scope => scope.declareType name := by
  have hword : IsIdentifier "type" := by decide
  have hend : '\n' ∉ name.toList := fun hmem => h.ne (by decide) _ hmem rfl
  have htext : (Scope.renderTypeName name).toList =
      "type".toList ++ [' '] ++ name.toList ++ [';'] := by
    simp [Scope.renderTypeName]
  have hread : readTypeName name.toList = .ok name := by
    have hany : name.toList.any isBlank = false := by
      rw [List.any_eq_false]
      exact fun c hc => by simp [isBlank_of_isNameChar (h.plain c hc)]
    rw [readTypeName, if_neg (by simp [h.ne_empty, hany]), String.ofList_toList]
  rw [htext]
  refine ⟨keywordLine hword h.tight hend, rfl, fun scope => ?_⟩
  have hkeyword : "type".toList ++ [' '] ++ name.toList = "type ".toList ++ name.toList := rfl
  have hmodule : afterPrefix? "module ".toList ("type ".toList ++ name.toList) = none := rfl
  have himport : afterPrefix? "import ".toList ("type ".toList ++ name.toList) = none := rfl
  rw [declare, beforeSuffix?_append]
  dsimp only
  rw [(hword.tight.between h.tight _).trim_eq, hkeyword, hmodule]
  dsimp only
  rw [himport]
  dsimp only
  rw [afterPrefix?_append]
  dsimp only
  rw [h.tight.trim_eq, hread]
  rfl

/-! ## All declarations -/

variable {scope : Scope} {lines : List Line}

theorem step_declaration {text : List Char} {update : Scope → Scope} (h : Declaration text update)
    {line : Line} (hline : line.text = text) (scope : Scope) (blocks : List Block) :
    Layout.step { scope := scope, blocks := blocks } line =
      .ok { scope := update scope, blocks := blocks } := by
  have htrimmed : line.trimmed = text := by rw [Line.trimmed, hline, h.tight.trim_eq]
  rw [Layout.step]
  dsimp only
  rw [Layout.stepOutside, htrimmed]
  dsimp only
  rw [if_neg (not_or.2 ⟨h.tight.ne_nil, h.noComment⟩), h.noDocument]
  dsimp only
  rw [h.declares]

/-- Several declarations of one kind. -/
theorem foldlM_declarations {α : Type} {items : List α} {write : α → String}
    {update : α → Scope → Scope} (h : ∀ a ∈ items, Declaration (write a).toList (update a))
    (hlines : lines.map (·.text) = items.map fun a => (write a).toList) (scope : Scope) :
    lines.foldlM Layout.step { scope := scope } =
      .ok { scope := items.foldl (fun scope a => update a scope) scope } := by
  induction items generalizing lines scope with
  | nil =>
    obtain rfl := List.map_eq_nil_iff.1 hlines
    rfl
  | cons a items ih =>
    rw [List.forall_mem_cons] at h
    obtain ⟨line, others, rfl, hline, hothers⟩ := List.map_eq_cons_iff.1 hlines
    rw [List.foldlM_cons, step_declaration h.1 hline]
    simp only [bind, Except.bind]
    exact ih h.2 hothers _

theorem foldl_addImport (imports : List Import) (scope : Scope) :
    imports.foldl (fun scope i => scope.addImport i) scope =
      { scope with imports := scope.imports ++ imports } := by
  induction imports generalizing scope with
  | nil => simp
  | cons i imports ih =>
    rw [List.foldl_cons, ih, Scope.addImport, List.append_assoc]
    rfl

theorem foldl_declareType (names : List String) (scope : Scope) :
    names.foldl (fun scope name => scope.declareType name) scope =
      { scope with types := scope.types ++ names } := by
  induction names generalizing scope with
  | nil => simp
  | cons name names ih =>
    rw [List.foldl_cons, ih, Scope.declareType, List.append_assoc]
    rfl

/-- **The lines of a scope declare the scope.** -/
theorem foldlM_renderDeclarations (hscope : scope.Printable)
    (hlines : lines.map (·.text) = scope.renderDeclarations.map String.toList) :
    lines.foldlM Layout.step Layout.start = .ok { scope := scope } := by
  rw [Scope.renderDeclarations, List.map_append, List.map_append, List.map_singleton,
    List.map_map, List.map_map] at hlines
  obtain ⟨front, types, rfl, hfront, htypes⟩ := List.map_eq_append_iff.1 hlines
  obtain ⟨package, imports, rfl, hpackage, himports⟩ := List.map_eq_append_iff.1 hfront
  have hprintable : ∀ package ∈ [scope.package], Declaration (Scope.renderPackage package).toList
      fun scope => { scope with package := package } := by
    rw [List.forall_mem_singleton]
    exact declaration_package hscope.package
  have hown := foldlM_declarations hprintable hpackage
  have himported := foldlM_declarations (fun i hi => declaration_import (hscope.imports i hi)
    (hscope.prefixes i hi) (hscope.exports i hi)) himports
  have hdeclared := foldlM_declarations
    (fun name hname => declaration_type (hscope.types name hname).1) htypes
  rw [List.foldlM_append, List.foldlM_append, Layout.start, hown]
  simp only [bind, Except.bind, himported, hdeclared, foldl_addImport, foldl_declareType,
    List.foldl_cons, List.foldl_nil, List.nil_append]

end Outline

end LambdaDeploy
