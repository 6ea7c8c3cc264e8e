import LambdaDeploy.Proofs.Outline.Extent
import LambdaDeploy.Proofs.Outline.Renumbering

/-!
# Declarations between documents

Declarations may stand anywhere outside documents.  All of them are read before the first
function is, so that what an outline describes depends on its declarations, in order, and on its
documents, in order, and not on how the two are mixed.

* `Itemized` — a text that is seen as declarations, documents, blank lines and comments.
* `composed_iff` — declarations and documents are read apart from each other.
* `composed_of_item` — one item, and then items in turn, are read as what they are composed of.
* `Extent.Alike` — documents with the same text, wherever they stand.
* `Program.ofOutline_eq_ok_iff` — what a text is read as, from its declarations and documents.
* `Program.ofOutline_interleaved` — **two ways to mix the same declarations and documents.**
-/

namespace LambdaDeploy

open Text Outline

namespace Outline

variable {scope result : Scope} {blocks before : List Block} {items others : List Item}
  {layout : Layout} {text : String}

/-! ## Items of a text -/

/-- The lines of a document: a header, whether or not it can be read, and what it opens up to the
line that closes it. -/
structure Extent.Delimited (e : Extent) : Prop where
  header : (afterPrefix? "document ".toList e.header.trimmed).isSome
  noComment : e.closing.trimmed.head? ≠ some ';'
  closes : Closes ((kept e.inside).map (·.trimmed)) e.closing.trimmed

instance (e : Extent) : Decidable e.Delimited :=
  decidable_of_iff
    ((afterPrefix? "document ".toList e.header.trimmed).isSome ∧
      e.closing.trimmed.head? ≠ some ';' ∧
      Closes ((kept e.inside).map (·.trimmed)) e.closing.trimmed)
    ⟨fun ⟨hheader, hnoComment, hcloses⟩ => ⟨hheader, hnoComment, hcloses⟩,
      fun h => ⟨h.header, h.noComment, h.closes⟩⟩

namespace Item

/-- A line that begins no document, or all lines of one. -/
def Delimited : Item → Prop
  | outside line => afterPrefix? "document ".toList line.trimmed = none
  | document e => e.Delimited

instance : (item : Item) → Decidable item.Delimited
  | outside line =>
    inferInstanceAs (Decidable (afterPrefix? "document ".toList line.trimmed = none))
  | document e => inferInstanceAs (Decidable e.Delimited)

/-- The declaration on a line outside documents.  Blank lines and comments are none. -/
def declaration? : Item → Option (List Char)
  | outside line => if Idle line then none else some line.trimmed
  | document _ => none

theorem declaration?_of_idle {line : Line} (h : Idle line) : declaration? (outside line) = none :=
  if_pos h

theorem declaration?_of_not_idle {line : Line} (h : ¬Idle line) :
    declaration? (outside line) = some line.trimmed :=
  if_neg h

end Item

/-- The text is seen as a sequence of declarations, documents, blank lines and comments. -/
structure Itemized (text : String) (items : List Item) : Prop where
  lines : numberedLines text.toList = items.flatMap Item.lines
  delimited : ∀ item ∈ items, item.Delimited

/-! ## Reading items -/

theorem Extent.Encloses.delimited {e : Extent} {block : Block} (h : e.Encloses block) :
    e.Delimited := by
  obtain ⟨rest, hrest, -⟩ := h.header
  exact ⟨by rw [hrest]; rfl, h.noComment, h.closes⟩

/-- What is read has its items apart from each other. -/
theorem Composed.delimited (h : Composed scope items result blocks) :
    ∀ item ∈ items, item.Delimited := by
  induction h with
  | nil => exact List.forall_mem_nil _
  | idle hidle _ ih => exact List.forall_mem_cons.2 ⟨hidle.noHeader, ih⟩
  | declaration _ hnoHeader _ _ ih => exact List.forall_mem_cons.2 ⟨hnoHeader, ih⟩
  | document hextent _ ih => exact List.forall_mem_cons.2 ⟨hextent.delimited, ih⟩

/-- **Declarations and documents are read apart from each other.** -/
theorem composed_iff (hitems : ∀ item ∈ items, item.Delimited) :
    Composed scope items result blocks ↔
      (items.filterMap Item.declaration?).foldlM declare scope = .ok result ∧
        List.Forall₂ Extent.Encloses (items.filterMap Item.extent?) blocks := by
  constructor
  · intro h
    refine ⟨?_, h.documents⟩
    clear hitems
    induction h with
    | nil => rfl
    | idle hidle _ ih =>
      rw [List.filterMap_cons_none (Item.declaration?_of_idle hidle)]
      exact ih
    | declaration hidle _ hdeclare _ ih =>
      rw [List.filterMap_cons_some (Item.declaration?_of_not_idle hidle), List.foldlM_cons,
        hdeclare]
      exact ih
    | document _ _ ih => exact ih
  · rintro ⟨hdeclared, hextents⟩
    induction items generalizing scope blocks with
    | nil =>
      cases hdeclared
      cases hextents
      exact .nil result
    | cons item items ih =>
      obtain ⟨hitem, hrest⟩ := List.forall_mem_cons.1 hitems
      cases item with
      | outside line =>
        by_cases hidle : Idle line
        · rw [List.filterMap_cons_none (Item.declaration?_of_idle hidle)] at hdeclared
          exact .idle hidle (ih hrest hdeclared hextents)
        · rw [List.filterMap_cons_some (Item.declaration?_of_not_idle hidle),
            List.foldlM_cons] at hdeclared
          obtain ⟨next, hdeclare, hdeclared⟩ := exists_of_bind_eq_ok hdeclared
          exact .declaration hidle hitem hdeclare (ih hrest hdeclared hextents)
      | document e =>
        cases hextents with
        | cons hextent hextents => exact .document hextent (ih hrest hdeclared hextents)

/-- **An item, and what it is read as.** -/
theorem composed_of_item {item : Item} (hitem : item.Delimited)
    (h : item.lines.foldlM Layout.step { scope := scope, blocks := before } = .ok layout) :
    ∃ added, layout = { scope := layout.scope, blocks := before ++ added } ∧
      Composed scope [item] layout.scope added := by
  cases item with
  | outside line =>
    have hstep : Layout.stepOutside { scope := scope, blocks := before } line = .ok layout := by
      rw [Item.lines, List.foldlM_cons] at h
      obtain ⟨next, hnext, hdone⟩ := exists_of_bind_eq_ok h
      cases hdone
      exact hnext
    refine ⟨[], ?_⟩
    rw [List.append_nil]
    rw [Layout.stepOutside] at hstep
    dsimp only at hstep
    split at hstep
    · rename_i hidle
      cases hstep
      exact ⟨rfl, .idle hidle (.nil scope)⟩
    · rename_i hidle
      have hnoHeader : afterPrefix? "document ".toList line.trimmed = none := hitem
      rw [hnoHeader] at hstep
      dsimp only at hstep
      split at hstep
      · rename_i result hdeclare
        cases hstep
        exact ⟨rfl, .declaration hidle hnoHeader hdeclare (.nil result)⟩
      · cases hstep
  | document e =>
    obtain ⟨rest, hopens⟩ := Option.isSome_iff_exists.1 hitem.header
    cases hname : readDocumentName rest with
    | ok name =>
      have hextent : e.Encloses ⟨name, kept e.inside⟩ :=
        ⟨⟨rest, hopens, hname⟩, rfl, hitem.noComment, hitem.closes⟩
      rw [Item.lines, foldlM_extent hextent] at h
      cases h
      exact ⟨_, rfl, .document hextent (.nil scope)⟩
    | error fault =>
      have hfilled : ¬Idle e.header := by
        intro hidle
        rw [hidle.noHeader] at hopens
        cases hopens
      have hstep : Layout.step { scope := scope, blocks := before } e.header =
          .error (.outline e.header.number fault) := by
        refine (if_neg hfilled).trans ?_
        rw [hopens]
        dsimp only
        rw [hname]
      rw [Item.lines, Extent.lines, List.foldlM_cons, hstep] at h
      cases h

/-- Items, and what they are read as one after the other. -/
theorem composed_of_foldlM (hitems : ∀ item ∈ items, item.Delimited)
    (h : (items.flatMap Item.lines).foldlM Layout.step { scope := scope, blocks := before } =
      .ok layout) :
    ∃ blocks, layout = { scope := layout.scope, blocks := before ++ blocks } ∧
      Composed scope items layout.scope blocks := by
  induction items generalizing scope before with
  | nil =>
    cases h
    exact ⟨[], by rw [List.append_nil], .nil scope⟩
  | cons item items ih =>
    obtain ⟨hitem, hrest⟩ := List.forall_mem_cons.1 hitems
    rw [List.flatMap_cons, List.foldlM_append] at h
    obtain ⟨next, hnext, h⟩ := exists_of_bind_eq_ok h
    obtain ⟨added, hadded, hfirst⟩ := composed_of_item hitem hnext
    rw [hadded] at h
    obtain ⟨blocks, hlayout, hcomposed⟩ := ih hrest h
    refine ⟨added ++ blocks, ?_, hfirst.append hcomposed⟩
    rw [← List.append_assoc]
    exact hlayout

/-- **The layout of a text, from its declarations and its documents.** -/
theorem Itemized.ofLines_eq_ok_iff (h : Itemized text items) :
    Layout.ofLines (numberedLines text.toList) = .ok layout ↔
      layout.current = none ∧
      (items.filterMap Item.declaration?).foldlM declare Layout.start.scope =
        .ok layout.scope ∧
      List.Forall₂ Extent.Encloses (items.filterMap Item.extent?) layout.blocks := by
  rw [h.lines, ← composed_iff h.delimited]
  constructor
  · intro hread
    obtain ⟨next, hnext, hfinish⟩ := exists_of_bind_eq_ok hread
    obtain ⟨blocks, hlayout, hcomposed⟩ := composed_of_foldlM h.delimited hnext
    rw [hlayout] at hfinish
    cases hfinish
    exact ⟨rfl, hcomposed⟩
  · rintro ⟨hcurrent, hcomposed⟩
    exact Outline.ofLines_eq_ok_iff.2 ⟨items, rfl, hcurrent, hcomposed⟩

/-! ## Documents with the same text -/

/-- The lines of the two documents say the same, wherever they stand. -/
structure Extent.Alike (e other : Extent) : Prop where
  header : other.header.trimmed = e.header.trimmed
  inside : other.inside.map (·.text) = e.inside.map (·.text)
  closing : other.closing.trimmed = e.closing.trimmed

/-- A line is kept for its text. -/
theorem kept_renumber (ρ : Nat → Nat) (lines : List Line) :
    kept (lines.map (Line.renumber ρ)) = (kept lines).map (Line.renumber ρ) :=
  List.filter_map

theorem kept_of_text {lines others : List Line}
    (h : others.map (·.text) = lines.map (·.text)) :
    (kept others).map (Line.renumber fun _ => 0) = (kept lines).map (Line.renumber fun _ => 0) := by
  have hsame : others.map (Line.renumber fun _ => 0) = lines.map (Line.renumber fun _ => 0) := by
    have htexts := congrArg (List.map (Line.mk 0)) h
    rwa [List.map_map, List.map_map] at htexts
  rw [← kept_renumber, ← kept_renumber, hsame]

theorem trimmed_kept_of_text {lines others : List Line}
    (h : others.map (·.text) = lines.map (·.text)) :
    (kept others).map (·.trimmed) = (kept lines).map (·.trimmed) := by
  have htrimmed := congrArg (List.map (·.trimmed)) (kept_of_text h)
  rwa [List.map_map, List.map_map] at htrimmed

namespace Extent.Alike

variable {e other : Extent} {block : Block}

theorem symm (h : e.Alike other) : other.Alike e :=
  ⟨h.header.symm, h.inside.symm, h.closing.symm⟩

theorem encloses (h : e.Alike other) (hblock : e.Encloses block) :
    other.Encloses ⟨block.name, kept other.inside⟩ where
  header := by
    rw [Opens, h.header]
    exact hblock.header
  inside := rfl
  noComment := by
    rw [h.closing]
    exact hblock.noComment
  closes := by
    rw [h.closing, trimmed_kept_of_text h.inside]
    exact hblock.closes

theorem block_renumber (h : e.Alike other) (hblock : e.Encloses block) :
    Block.renumber (fun _ => 0) ⟨block.name, kept other.inside⟩ =
      block.renumber fun _ => 0 := by
  have hlines := kept_of_text h.inside
  rw [← hblock.inside] at hlines
  exact congrArg (Block.mk block.name) hlines

end Extent.Alike

/-- Documents with the same text are read the same, but for the numbers of their lines. -/
theorem exists_encloses_of_alike {extents others : List Extent}
    (halike : List.Forall₂ Extent.Alike extents others)
    (h : List.Forall₂ Extent.Encloses extents blocks) :
    ∃ moved, List.Forall₂ Extent.Encloses others moved ∧
      moved.map (Block.renumber fun _ => 0) = blocks.map (Block.renumber fun _ => 0) := by
  induction halike generalizing blocks with
  | nil =>
    cases h
    exact ⟨[], .nil, rfl⟩
  | @cons _ other _ _ hfirst _ ih =>
    cases h with
    | @cons _ block _ _ hblock hrest =>
      obtain ⟨moved, hmoved, hsame⟩ := ih hrest
      refine ⟨⟨block.name, kept other.inside⟩ :: moved, .cons (hfirst.encloses hblock) hmoved, ?_⟩
      rw [List.map_cons, List.map_cons, hfirst.block_renumber hblock, hsame]

/-- The declarations and the documents of two texts are the same, each in the same order.
How they are mixed, and which blank lines and comments stand between them, is left open. -/
structure SameParts (items others : List Item) : Prop where
  declarations : others.filterMap Item.declaration? = items.filterMap Item.declaration?
  documents :
    List.Forall₂ Extent.Alike (items.filterMap Item.extent?) (others.filterMap Item.extent?)

theorem SameParts.symm (h : SameParts items others) : SameParts others items :=
  ⟨h.declarations.symm, (h.documents.imp fun _ _ halike => halike.symm).flip⟩

end Outline

namespace Program

variable {program : Program} {text other : String} {items others : List Item}

/-- Every outline that is read can be seen as items. -/
theorem exists_itemized (h : ofOutline text = .ok program) : ∃ items, Itemized text items := by
  obtain ⟨layout, hlayout, -⟩ := exists_of_bind_eq_ok h
  obtain ⟨items, hlines, -, hcomposed⟩ := ofLines_eq_ok_iff.1 hlayout
  exact ⟨items, hlines, hcomposed.delimited⟩

/-- **What a text is read as, from its declarations and its documents.** -/
theorem ofOutline_eq_ok_iff (h : Itemized text items) :
    ofOutline text = .ok program ↔
      ∃ scope blocks,
        (items.filterMap Item.declaration?).foldlM declare Layout.start.scope = .ok scope ∧
        List.Forall₂ Extent.Encloses (items.filterMap Item.extent?) blocks ∧
        blocks.foldlM addBlock (ofScope scope) = .ok program := by
  constructor
  · intro hread
    obtain ⟨layout, hlayout, hblocks⟩ := exists_of_bind_eq_ok hread
    obtain ⟨-, hscope, hextents⟩ := h.ofLines_eq_ok_iff.1 hlayout
    exact ⟨layout.scope, layout.blocks, hscope, hextents, hblocks⟩
  · rintro ⟨scope, blocks, hscope, hextents, hblocks⟩
    have hlayout : Layout.ofLines (numberedLines text.toList) =
        .ok { scope := scope, blocks := blocks } :=
      h.ofLines_eq_ok_iff.2 ⟨rfl, hscope, hextents⟩
    rw [ofOutline, hlayout]
    exact hblocks

/-- What one of the texts is read as, the other is read as too. -/
theorem exists_ofOutline_of_sameParts (htext : Itemized text items)
    (hother : Itemized other others) (hsame : SameParts items others)
    (h : ofOutline text = .ok program) :
    ∃ moved, ofOutline other = .ok moved ∧
      moved.renumber (fun _ => 0) = program.renumber fun _ => 0 := by
  obtain ⟨scope, blocks, hscope, hextents, hblocks⟩ := (ofOutline_eq_ok_iff htext).1 h
  obtain ⟨movedBlocks, hmoved, hrenumber⟩ := exists_encloses_of_alike hsame.documents hextents
  have hread : (blocks.map (Block.renumber fun _ => 0)).foldlM addBlock (ofScope scope) =
      renumbered (fun _ => 0) (renumber fun _ => 0) (blocks.foldlM addBlock (ofScope scope)) :=
    foldlM_addBlock_renumber rfl blocks scope
  rw [← hrenumber, foldlM_addBlock_renumber rfl, hblocks] at hread
  obtain ⟨moved, hmovedBlocks, hprogram⟩ := renumbered_eq_ok_iff.1 hread
  refine ⟨moved, (ofOutline_eq_ok_iff hother).2 ⟨scope, movedBlocks, ?_, hmoved, hmovedBlocks⟩,
    hprogram⟩
  rw [hsame.declarations]
  exact hscope

/-- **Two ways to mix the same declarations and documents.**  If one of the texts can be read, so
can the other; and then they have the same package, imports and types, the same documents, and
the same functions with the same ids, each at the same place but for its line. -/
theorem ofOutline_interleaved (htext : Itemized text items) (hother : Itemized other others)
    (hsame : SameParts items others) :
    ((∃ program, ofOutline text = .ok program) ↔ ∃ program, ofOutline other = .ok program) ∧
      ∀ program moved, ofOutline text = .ok program → ofOutline other = .ok moved →
        moved.toScope = program.toScope ∧ moved.documents = program.documents ∧
          moved.functions.map (FunctionDecl.renumber fun _ => 0) =
            program.functions.map (FunctionDecl.renumber fun _ => 0) := by
  refine ⟨⟨?_, ?_⟩, ?_⟩
  · rintro ⟨program, h⟩
    obtain ⟨moved, hmoved, -⟩ := exists_ofOutline_of_sameParts htext hother hsame h
    exact ⟨moved, hmoved⟩
  · rintro ⟨moved, h⟩
    obtain ⟨program, hprogram, -⟩ := exists_ofOutline_of_sameParts hother htext hsame.symm h
    exact ⟨program, hprogram⟩
  · intro program moved h hmoved
    obtain ⟨found, hfound, hrenumber⟩ := exists_ofOutline_of_sameParts htext hother hsame h
    rw [hmoved] at hfound
    cases hfound
    have hscope := congrArg Program.toScope hrenumber
    have hdocuments := congrArg Program.documents hrenumber
    have hfunctions := congrArg Program.functions hrenumber
    exact ⟨hscope, hdocuments, hfunctions⟩

end Program

/-- An outline whose declarations come first. -/
def ahead : String := "module shop/demo;
type Order;
document orders \x7b
function place(Order order) \x7b\x7d
\x7d
"

/-- The same outline, but for a declaration that stands behind the document, and a comment. -/
def behind : String := "module shop/demo;
document orders \x7b
function place(Order order) \x7b\x7d
\x7d
; what an order is
type Order;
"

theorem Program.ofOutline_interleaved_sample :
    ∃ program moved, Program.ofOutline ahead = .ok program ∧
      Program.ofOutline behind = .ok moved ∧ moved.toScope = program.toScope ∧
        moved.documents = program.documents := by
  have hread : (Program.ofOutline ahead).toOption.any (fun _ => true) = true := by
    rw [Program.ofOutline, show ahead = String.ofList _ from rfl, String.toList_ofList]
    decide
  obtain ⟨program, hprogram, -⟩ := exists_ok_of_any hread
  have hahead : Itemized ahead [.outside ⟨1, "module shop/demo;".toList⟩,
      .outside ⟨2, "type Order;".toList⟩,
      .document ⟨⟨3, "document orders \x7b".toList⟩,
        [⟨4, "function place(Order order) \x7b\x7d".toList⟩], ⟨5, "\x7d".toList⟩⟩] := by
    constructor
    · rw [show ahead = String.ofList _ from rfl, String.toList_ofList]
      decide
    · decide
  have hbehind : Itemized behind [.outside ⟨1, "module shop/demo;".toList⟩,
      .document ⟨⟨2, "document orders \x7b".toList⟩,
        [⟨3, "function place(Order order) \x7b\x7d".toList⟩], ⟨4, "\x7d".toList⟩⟩,
      .outside ⟨5, "; what an order is".toList⟩, .outside ⟨6, "type Order;".toList⟩] := by
    constructor
    · rw [show behind = String.ofList _ from rfl, String.toList_ofList]
      decide
    · decide
  obtain ⟨hreads, hparts⟩ := Program.ofOutline_interleaved hahead hbehind
    ⟨by decide, .cons ⟨rfl, rfl, rfl⟩ .nil⟩
  obtain ⟨moved, hmoved⟩ := hreads.1 ⟨program, hprogram⟩
  obtain ⟨hscope, hdocuments, -⟩ := hparts program moved hprogram hmoved
  exact ⟨program, moved, hprogram, hmoved, hscope, hdocuments⟩

end LambdaDeploy
