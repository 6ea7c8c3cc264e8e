import LambdaDeploy.Outline.Layout
import LambdaDeploy.Proofs.Steps
import LambdaDeploy.Proofs.Text.Braces
import Mathlib.Data.List.Forall2

/-!
# The lines of a document

An outline's lines are items: a document from its header to the line that closes it, or a single
line outside documents.

* `Extent.Encloses` — the document that the lines of an extent are read as.
* `Composed` — what the items of an outline declare.
* `Layout.Covers.step` — one more line, and where it goes.
* `foldlM_extent` — the lines of an extent are read as one more document.
* `ofLines_eq_ok_iff` — **an outline's lines have a layout exactly if they are items that it is
  composed of.**
-/

namespace LambdaDeploy.Outline

open Text

variable {scope result : Scope} {name : String} {line header : Line} {inside : List Line}
  {block : Block} {blocks : List Block} {layout next : Layout}

/-! ## Kinds of lines -/

/-- The lines that are no comments. -/
def kept (lines : List Line) : List Line := lines.filter (·.trimmed.head? ≠ some ';')

theorem kept_append (lines others : List Line) :
    kept (lines ++ others) = kept lines ++ kept others := List.filter_append ..

theorem kept_cons_of_comment (h : line.trimmed.head? = some ';') (lines : List Line) :
    kept (line :: lines) = kept lines := by
  simp [kept, h]

theorem kept_cons (h : line.trimmed.head? ≠ some ';') (lines : List Line) :
    kept (line :: lines) = line :: kept lines := by
  simp [kept, h]

/-- The line says nothing: it is blank, or a comment. -/
def Idle (line : Line) : Prop := line.trimmed = [] ∨ line.trimmed.head? = some ';'

instance (line : Line) : Decidable (Idle line) :=
  inferInstanceAs (Decidable (line.trimmed = [] ∨ line.trimmed.head? = some ';'))

/-- A blank line or a comment does not begin like a document. -/
theorem Idle.noHeader (h : Idle line) :
    afterPrefix? "document ".toList line.trimmed = none := by
  cases htext : line.trimmed with
  | nil => rfl
  | cons c rest =>
    rcases h with hblank | hcomment
    · rw [htext] at hblank
      cases hblank
    · rw [htext] at hcomment
      cases hcomment
      rfl

/-- The line is the header of a document of this name. -/
def Opens (line : Line) (name : String) : Prop :=
  ∃ rest, afterPrefix? "document ".toList line.trimmed = some rest ∧
    readDocumentName rest = .ok name

/-- A document's header is neither blank nor a comment. -/
theorem Opens.not_idle (h : Opens line name) : ¬Idle line := by
  obtain ⟨rest, hfront, -⟩ := h
  intro hidle
  rw [hidle.noHeader] at hfront
  cases hfront

/-! ## Documents -/

/-- The lines of one document. -/
structure Extent where
  header : Line
  inside : List Line
  /-- The line that closes the document. -/
  closing : Line

namespace Extent

/-- All lines of a document. -/
def lines (e : Extent) : List Line := e.header :: (e.inside ++ [e.closing])

/-- The document that some lines are read as: its lines are those inside, without comments.  Of
the line that closes it only the braces matter. -/
structure Encloses (e : Extent) (block : Block) : Prop where
  header : Opens e.header block.name
  inside : block.lines = kept e.inside
  noComment : e.closing.trimmed.head? ≠ some ';'
  closes : Closes ((kept e.inside).map (·.trimmed)) e.closing.trimmed

end Extent

/-! ## Outlines -/

/-- A document, or a line outside documents. -/
inductive Item where
  | outside (line : Line)
  | document (e : Extent)

namespace Item

def lines : Item → List Line
  | outside line => [line]
  | document e => e.lines

def extent? : Item → Option Extent
  | outside _ => none
  | document e => some e

end Item

/-- The lines of a document that are no comments stand in order among those of the outline. -/
theorem kept_sublist_of_mem {items : List Item} {e : Extent}
    (he : e ∈ items.filterMap Item.extent?) :
    (kept e.inside).Sublist (items.flatMap Item.lines) := by
  obtain ⟨item, hitem, hextent⟩ := List.mem_filterMap.1 he
  have hlines : (kept e.inside).Sublist item.lines := by
    cases item with
    | outside line => cases hextent
    | document other =>
      cases hextent
      exact List.filter_sublist.trans
        ((List.sublist_append_left e.inside [e.closing]).trans (List.sublist_cons_self _ _))
  rw [List.flatMap_def]
  exact hlines.trans (List.sublist_flatten_of_mem (List.mem_map_of_mem hitem))

/-- What some items are read as: the scope that their declarations lead to from `scope`, and
their documents. -/
inductive Composed : Scope → List Item → Scope → List Block → Prop
  | nil (scope : Scope) : Composed scope [] scope []
  | idle {scope result : Scope} {line : Line} {items : List Item} {blocks : List Block}
      (hidle : Idle line) (hrest : Composed scope items result blocks) :
      Composed scope (.outside line :: items) result blocks
  | declaration {scope next result : Scope} {line : Line} {items : List Item}
      {blocks : List Block} (hidle : ¬Idle line)
      (hnoHeader : afterPrefix? "document ".toList line.trimmed = none)
      (hdeclare : declare scope line.trimmed = .ok next)
      (hrest : Composed next items result blocks) :
      Composed scope (.outside line :: items) result blocks
  | document {scope result : Scope} {e : Extent} {block : Block} {items : List Item}
      {blocks : List Block} (hextent : e.Encloses block)
      (hrest : Composed scope items result blocks) :
      Composed scope (.document e :: items) result (block :: blocks)

namespace Composed

variable {items others : List Item}

theorem append {more : List Block} {last : Scope} (h : Composed scope items result blocks)
    (hothers : Composed result others last more) :
    Composed scope (items ++ others) last (blocks ++ more) := by
  induction h with
  | nil => exact hothers
  | idle hidle _ ih => exact .idle hidle (ih hothers)
  | declaration hidle hnoHeader hdeclare _ ih =>
    exact .declaration hidle hnoHeader hdeclare (ih hothers)
  | document hextent _ ih => exact .document hextent (ih hothers)

theorem documents (h : Composed scope items result blocks) :
    List.Forall₂ Extent.Encloses (items.filterMap Item.extent?) blocks := by
  induction h with
  | nil => exact .nil
  | idle _ _ ih => exact ih
  | declaration _ _ _ _ ih => exact ih
  | document hextent _ ih => exact .cons hextent ih

/-- A line outside documents is a declaration unless it says nothing. -/
theorem outside (h : Composed scope items result blocks) (hline : .outside line ∈ items) :
    Idle line ∨ afterPrefix? "document ".toList line.trimmed = none ∧
      ∃ before next, declare before line.trimmed = .ok next := by
  induction h with
  | nil => cases hline
  | idle hidle _ ih =>
    rcases List.mem_cons.1 hline with heq | hrest
    · cases heq
      exact .inl hidle
    · exact ih hrest
  | @declaration scope next _ _ _ _ _ hnoHeader hdeclare _ ih =>
    rcases List.mem_cons.1 hline with heq | hrest
    · cases heq
      exact .inr ⟨hnoHeader, scope, next, hdeclare⟩
    · exact ih hrest
  | document _ _ ih =>
    rcases List.mem_cons.1 hline with heq | hrest
    · cases heq
    · exact ih hrest

end Composed

/-! ## Where a line goes -/

/-- The part of an outline that is read so far, and its lines: items, and then a document that is
not closed yet. -/
inductive Layout.Covers : List Line → Layout → Prop
  | outside {items : List Item} {scope : Scope} {blocks : List Block}
      (hitems : Composed Layout.start.scope items scope blocks) :
      Covers (items.flatMap Item.lines) { scope := scope, blocks := blocks }
  | inside {items : List Item} {scope : Scope} {blocks : List Block} {header : Line}
      {name : String} {inside : List Line}
      (hitems : Composed Layout.start.scope items scope blocks) (hheader : Opens header name)
      (hopen : StaysOpen 1 ((kept inside).map (·.trimmed))) :
      Covers (items.flatMap Item.lines ++ header :: inside)
        { scope := scope
          blocks := blocks
          current := some
            { name := name
              lines := kept inside
              header := header.number
              depth := 1 + totalDelta ((kept inside).map (·.trimmed)) } }

namespace Layout.Covers

variable {items : List Item}

/-- One more item. -/
theorem item (hitems : Composed Layout.start.scope items scope blocks) {more : Item}
    {added : List Block} (hmore : Composed scope [more] result added) :
    Covers (items.flatMap Item.lines ++ more.lines)
      { scope := result, blocks := blocks ++ added } := by
  have hlines : items.flatMap Item.lines ++ more.lines =
      (items ++ [more]).flatMap Item.lines := by
    rw [List.flatMap_append, List.flatMap_singleton]
  rw [hlines]
  exact .outside (hitems.append hmore)

/-- One more line outside documents. -/
theorem stepOutside (hitems : Composed Layout.start.scope items scope blocks)
    (hstep : Layout.stepOutside { scope := scope, blocks := blocks } line = .ok next) :
    Covers (items.flatMap Item.lines ++ [line]) next := by
  rw [Layout.stepOutside] at hstep
  dsimp only at hstep
  split at hstep
  · rename_i hidle
    cases hstep
    rw [← List.append_nil blocks]
    have hone : Composed scope [.outside line] scope [] := .idle hidle (.nil scope)
    exact .item hitems hone
  · rename_i hfilled
    split at hstep
    · -- the header of a document
      rename_i rest hfront
      split at hstep
      · rename_i name hname
        cases hstep
        exact .inside hitems ⟨rest, hfront, hname⟩ trivial
      · cases hstep
    · rename_i hnoHeader
      split at hstep
      · rename_i result hdeclare
        cases hstep
        rw [← List.append_nil blocks]
        exact .item hitems (.declaration hfilled hnoHeader hdeclare (.nil result))
      · cases hstep

/-- One more line inside a document. -/
theorem stepInside (hitems : Composed Layout.start.scope items scope blocks)
    (hheader : Opens header name) (hopen : StaysOpen 1 ((kept inside).map (·.trimmed)))
    (line : Line) :
    Covers (items.flatMap Item.lines ++ header :: (inside ++ [line]))
      (Layout.stepInside
        { scope := scope
          blocks := blocks
          current := some
            { name := name
              lines := kept inside
              header := header.number
              depth := 1 + totalDelta ((kept inside).map (·.trimmed)) } }
        { name := name
          lines := kept inside
          header := header.number
          depth := 1 + totalDelta ((kept inside).map (·.trimmed)) } line) := by
  rw [Layout.stepInside]
  dsimp only
  split
  · -- a comment
    rename_i hcomment
    have hsame : kept (inside ++ [line]) = kept inside := by
      rw [kept_append, kept_cons_of_comment hcomment]
      exact List.append_nil _
    rw [← hsame] at hopen ⊢
    exact .inside hitems hheader hopen
  · rename_i hnoComment
    split
    · -- the closing line
      rename_i hclosing
      have hextent : Extent.Encloses ⟨header, inside, line⟩ ⟨name, kept inside⟩ :=
        ⟨hheader, rfl, hnoComment, hopen, hclosing⟩
      exact .item hitems (.document hextent (.nil scope))
    · rename_i hdepth
      have hone : kept (inside ++ [line]) = kept inside ++ [line] := by
        rw [kept_append, kept_cons hnoComment]
        rfl
      have htotal : 1 + totalDelta ((kept inside).map (·.trimmed)) + braceDelta line.trimmed =
          1 + totalDelta ((kept (inside ++ [line])).map (·.trimmed)) := by
        simp [hone, Int.add_assoc]
      rw [htotal, ← hone]
      refine .inside hitems hheader ?_
      rw [hone, List.map_append]
      exact hopen.append ⟨Int.not_le.1 hdepth, trivial⟩

/-- **One more line, and where it goes**: it stands outside documents, or belongs to one, or
completes it. -/
theorem step {lines : List Line} (h : Covers lines layout) (hstep : layout.step line = .ok next) :
    Covers (lines ++ [line]) next := by
  cases h with
  | outside hitems => exact stepOutside hitems hstep
  | inside hitems hheader hopen =>
    cases hstep
    rw [List.append_assoc]
    exact stepInside hitems hheader hopen line

end Layout.Covers

theorem Layout.covers_of_foldlM {lines : List Line}
    (h : lines.foldlM Layout.step start = .ok layout) : Covers lines layout :=
  foldlM_prefix Covers (fun _ _ _ _ hdone hstep => hdone.step hstep) (.outside (.nil _)) h

/-! ## Reading a document -/

/-- The lines of a document are kept but for comments. -/
theorem foldlM_kept (blocks : List Block) {block : OpenBlock}
    (hopen : StaysOpen block.depth ((kept inside).map (·.trimmed))) :
    inside.foldlM Layout.step { scope := scope, blocks := blocks, current := some block } =
      .ok { scope := scope
            blocks := blocks
            current := some
              { block with
                lines := block.lines ++ kept inside
                depth := block.depth + totalDelta ((kept inside).map (·.trimmed)) } } := by
  induction inside generalizing block with
  | nil => simp [kept, pure, Except.pure]
  | cons line inside ih =>
    rw [List.foldlM_cons, Layout.step]
    by_cases hcomment : line.trimmed.head? = some ';'
    · rw [kept_cons_of_comment hcomment] at hopen ⊢
      simp only [Layout.stepInside, if_pos hcomment, bind, Except.bind]
      exact ih hopen
    · rw [kept_cons hcomment] at hopen ⊢
      obtain ⟨hdepth, hrest⟩ := hopen
      simp only [Layout.stepInside, if_neg hcomment, if_neg (Int.not_le.2 hdepth), bind,
        Except.bind]
      rw [ih hrest]
      simp [Int.add_assoc]

/-- **The lines of an extent are read as one more document.** -/
theorem foldlM_extent {e : Extent} (h : e.Encloses block) (blocks : List Block) :
    e.lines.foldlM Layout.step { scope := scope, blocks := blocks } =
      .ok { scope := scope, blocks := blocks ++ [block] } := by
  obtain ⟨rest, hfront, hname⟩ := h.header
  have hcloses := h.closes
  rw [← h.inside] at hcloses
  have hfilled : ¬(e.header.trimmed = [] ∨ e.header.trimmed.head? = some ';') := h.header.not_idle
  have hopening : Layout.step { scope := scope, blocks := blocks } e.header =
      .ok { scope := scope
            blocks := blocks
            current := some { name := block.name, header := e.header.number } } := by
    rw [Layout.step]
    dsimp only
    rw [Layout.stepOutside]
    dsimp only
    rw [if_neg hfilled, hfront]
    dsimp only
    rw [hname]
  rw [Extent.lines, List.foldlM_cons, hopening]
  simp only [bind, Except.bind, List.foldlM_append]
  rw [foldlM_kept blocks h.closes.inside]
  simp only [bind, Except.bind, List.nil_append, List.foldlM_cons, List.foldlM_nil, Layout.step,
    Layout.stepInside, if_neg h.noComment, ← h.inside, if_pos hcloses.closing]
  rfl

/-! ## Whole outlines -/

/-- Items are read as what they are composed of. -/
theorem foldlM_items {items : List Item} (h : Composed scope items result blocks)
    (before : List Block) :
    (items.flatMap Item.lines).foldlM Layout.step { scope := scope, blocks := before } =
      .ok { scope := result, blocks := before ++ blocks } := by
  induction h generalizing before with
  | nil => simp [pure, Except.pure]
  | @idle scope _ line _ _ hidle _ ih =>
    have hstep : Layout.step { scope := scope, blocks := before } line =
        .ok { scope := scope, blocks := before } := if_pos hidle
    rw [List.flatMap_cons, Item.lines, List.singleton_append, List.foldlM_cons, hstep]
    exact ih before
  | @declaration scope next _ line _ _ hidle hnoHeader hdeclare _ ih =>
    have hstep : Layout.step { scope := scope, blocks := before } line =
        .ok { scope := next, blocks := before } := by
      refine (if_neg hidle).trans ?_
      rw [hnoHeader]
      dsimp only
      rw [hdeclare]
    rw [List.flatMap_cons, Item.lines, List.singleton_append, List.foldlM_cons, hstep]
    exact ih before
  | document hextent _ ih =>
    rw [List.flatMap_cons, Item.lines, List.foldlM_append, foldlM_extent hextent]
    simp only [bind, Except.bind]
    rw [ih, List.append_assoc]
    rfl

/-- **An outline's lines have a layout exactly if they are items that it is composed of.** -/
theorem ofLines_eq_ok_iff {lines : List Line} :
    Layout.ofLines lines = .ok layout ↔
      ∃ items, lines = items.flatMap Item.lines ∧ layout.current = none ∧
        Composed Layout.start.scope items layout.scope layout.blocks := by
  constructor
  · intro h
    obtain ⟨read, hlines, hfinish⟩ := exists_of_bind_eq_ok h
    cases Layout.covers_of_foldlM hlines with
    | outside hitems =>
      cases hfinish
      exact ⟨_, rfl, rfl, hitems⟩
    | inside => cases hfinish
  · rintro ⟨items, rfl, hcurrent, hitems⟩
    obtain ⟨scope, blocks, current⟩ := layout
    cases hcurrent
    have hread : (items.flatMap Item.lines).foldlM Layout.step Layout.start =
        .ok { scope := scope, blocks := [] ++ blocks } := foldlM_items hitems []
    rw [Layout.ofLines, hread]
    rfl

end LambdaDeploy.Outline
