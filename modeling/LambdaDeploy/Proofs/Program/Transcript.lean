import LambdaDeploy.Proofs.Outline.Extent
import LambdaDeploy.Proofs.Outline.Passage
import LambdaDeploy.Proofs.Program.Built
import LambdaDeploy.Proofs.Program.Holding

/-!
# Programs that are read from an outline

Every line of an outline that is read ends up somewhere: it is a declaration, or belongs to a
document and there to a function, or it is blank or a comment.

* `Program.Gives` — the document that a block becomes.
* `Program.exists_items_of_ofOutline` — the items of an outline, and the program they are read as.
* `Program.exists_passage_of_mem_functions` — every function has a passage in the outline;
  `Program.origin_of_ofOutline`.
* `Program.ofOutline_accounts_for_lines` — **where every line of an outline goes.**
-/

namespace LambdaDeploy

open Text Outline

namespace Program

variable {program next : Program} {scope : Scope} {block : Block} {blocks : List Block}
  {d : Document} {documents : List Document} {text : String}

/-! ## Documents and their blocks -/

/-- The document is read from the block: it has the block's name and text, and its ids stand for
the functions that the block declares. -/
structure Gives (program : Program) (block : Block) (d : Document) : Prop where
  name : d.name = block.name
  source : d.source = String.ofList (dedent (block.lines.map (·.text)))
  functions : ∃ functions, block.functions program.toScope = .ok functions ∧
    d.functions.map program.function? = functions.map some

/-- Further functions leave the documents that are there as they are. -/
theorem Gives.mono (h : program.Gives block d) (hscope : next.toScope = program.toScope)
    {more : List FunctionDecl} (hmore : next.functions = program.functions ++ more) :
    next.Gives block d := by
  obtain ⟨functions, hread, hids⟩ := h.functions
  refine ⟨h.name, h.source, functions, hscope ▸ hread, ?_⟩
  rw [← hids]
  refine List.map_congr_left fun id hid => ?_
  have hfound : program.function? id ∈ functions.map some := hids ▸ List.mem_map_of_mem hid
  obtain ⟨f, -, hf⟩ := List.mem_map.1 hfound
  obtain ⟨hlt, -⟩ := List.getElem?_eq_some_iff.1 hf.symm
  rw [function?, function?, hmore, List.getElem?_append_left hlt]

/-- The blocks of an outline become the documents of its program, in order. -/
theorem gives_of_foldlM (h : blocks.foldlM addBlock (ofScope scope) = .ok program) :
    program.toScope = scope ∧ List.Forall₂ program.Gives blocks program.documents := by
  refine foldlM_prefix
    (fun done (program : Program) => program.toScope = scope ∧
      List.Forall₂ program.Gives done program.documents) ?_ ⟨rfl, .nil⟩ h
  rintro done program block next ⟨hscope, hdone⟩ hadd
  obtain ⟨functions, hread, -⟩ := exists_of_bind_eq_ok hadd
  rw [addBlock_eq hread] at hadd
  cases hadd
  refine ⟨hscope, List.rel_append (hdone.imp fun _ _ h => h.mono rfl rfl) (.cons ?_ .nil)⟩
  exact ⟨rfl, rfl, functions, hread, map_function?_range' program.functions functions⟩

/-- **The items of an outline, and the program they are read as.** -/
theorem exists_items_of_ofOutline (h : ofOutline text = .ok program) :
    ∃ items blocks, numberedLines text.toList = items.flatMap Item.lines ∧
      Composed Layout.start.scope items program.toScope blocks ∧
      List.Forall₂ program.Gives blocks program.documents := by
  obtain ⟨layout, hlayout, hblocks⟩ := exists_of_bind_eq_ok h
  obtain ⟨items, hlines, -, hitems⟩ := ofLines_eq_ok_iff.1 hlayout
  obtain ⟨hscope, hdocuments⟩ := gives_of_foldlM hblocks
  exact ⟨items, layout.blocks, hlines, hscope ▸ hitems, hdocuments⟩

/-! ## Where every line goes -/

/-- The lines of a document and what became of them: some are the passages of its functions, in
order, and the others are comments or blank. -/
structure Spells (program : Program) (e : Extent) (d : Document) : Prop where
  header : Opens e.header d.name
  noComment : e.closing.trimmed.head? ≠ some ';'
  closes : Closes ((kept e.inside).map (·.trimmed)) e.closing.trimmed
  functions : ∃ passages rest functions,
    kept e.inside = passages.flatMap Passage.lines ++ rest ∧
      (∀ line ∈ rest, line.trimmed = []) ∧
      List.Forall₂ (Passage.Declares program.toScope d.name) passages functions ∧
      d.functions.map program.function? = functions.map some

theorem Spells.of_gives {e : Extent} (hextent : e.Encloses block) (h : program.Gives block d) :
    program.Spells e d := by
  obtain ⟨functions, hread, hids⟩ := h.functions
  obtain ⟨passages, rest, hlines, hrest, hpassages⟩ := functions_eq_ok_iff.1 hread
  exact ⟨h.name ▸ hextent.header, hextent.noComment, hextent.closes,
    passages, rest, functions, hextent.inside ▸ hlines, hrest, h.name ▸ hpassages, hids⟩

theorem forall₂_spells {extents : List Extent}
    (hextents : List.Forall₂ Extent.Encloses extents blocks)
    (h : List.Forall₂ program.Gives blocks documents) :
    List.Forall₂ program.Spells extents documents := by
  induction hextents generalizing documents with
  | nil =>
    cases h
    exact .nil
  | cons hextent _ ih =>
    cases h with
    | cons hgives hrest => exact .cons (.of_gives hextent hgives) (ih hrest)

/-- **Every function has a passage in the outline.** -/
theorem exists_passage_of_mem_functions (h : ofOutline text = .ok program) {f : FunctionDecl}
    (hf : f ∈ program.functions) :
    ∃ document p, Passage.Declares program.toScope document p f ∧
      p.lines ⊆ numberedLines text.toList := by
  obtain ⟨items, blocks, hlines, hitems, hdocuments⟩ := exists_items_of_ofOutline h
  obtain ⟨id, hid⟩ := List.mem_iff_getElem?.1 hf
  have horder := (consistent_of_ofOutline h).mem_order_of_function? hid
  obtain ⟨d, hd, hmem⟩ := List.mem_flatMap.1 horder
  obtain ⟨e, he, hspells⟩ :=
    exists_of_mem_forall₂ (forall₂_spells hitems.documents hdocuments) hd
  obtain ⟨passages, rest, functions, hkept, -, hdeclares, hids⟩ := hspells.functions
  have hfound : program.function? id ∈ functions.map some := hids ▸ List.mem_map_of_mem hmem
  rw [function?, hid] at hfound
  obtain ⟨_, hfunction, ⟨⟩⟩ := List.mem_map.1 hfound
  obtain ⟨p, hp, hdeclares⟩ := exists_of_mem_forall₂ hdeclares hfunction
  refine ⟨d.name, p, hdeclares, fun line hline => ?_⟩
  rw [hlines]
  apply (kept_sublist_of_mem he).subset
  rw [hkept]
  exact List.mem_append_left _ (List.mem_flatMap_of_mem hp hline)

/-- All functions of an outline are written by the user: the header of each one says so. -/
theorem origin_of_ofOutline (h : ofOutline text = .ok program) :
    ∀ f ∈ program.functions, f.origin = .written := by
  intro f hf
  obtain ⟨document, p, hp, -⟩ := exists_passage_of_mem_functions h hf
  exact (bare_of_readHeader hp.header).origin

/-- **Where every line of an outline goes.**  Outside documents a line is a declaration unless it
is blank or a comment.  The lines of each document, without comments, are the passages of its
functions: annotations, a header, and statements up to the first line that closes the braces of
the body.  Of a closing line nothing but its braces is used, and of an annotation nothing behind
its name, so that other text on these lines is lost. -/
theorem ofOutline_accounts_for_lines (h : ofOutline text = .ok program) :
    ∃ items : List Item, numberedLines text.toList = items.flatMap Item.lines ∧
      (∀ line, .outside line ∈ items → Idle line ∨
        afterPrefix? "document ".toList line.trimmed = none ∧
          ∃ before next, declare before line.trimmed = .ok next) ∧
      List.Forall₂ program.Spells (items.filterMap Item.extent?) program.documents := by
  obtain ⟨items, blocks, hlines, hitems, hdocuments⟩ := exists_items_of_ofOutline h
  exact ⟨items, hlines, fun _ hline => hitems.outside hline,
    forall₂_spells hitems.documents hdocuments⟩

end Program

/-- An outline with a statement on the line that closes the body. -/
def crowded : String := "document orders \x7b
function place() \x7b
save(); \x7d
\x7d
"

theorem Program.ofOutline_accounts_for_lines_sample :
    ∃ program, Program.ofOutline crowded = .ok program ∧
      ∃ items : List Item, numberedLines crowded.toList = items.flatMap Item.lines ∧
        List.Forall₂ program.Spells (items.filterMap Item.extent?) program.documents := by
  have h : (Program.ofOutline crowded).toOption.any (fun _ => true) = true := by
    rw [Program.ofOutline, show crowded = String.ofList _ from rfl, String.toList_ofList]
    decide
  obtain ⟨program, hread, -⟩ := exists_ok_of_any h
  obtain ⟨items, hlines, -, hdocuments⟩ := Program.ofOutline_accounts_for_lines hread
  exact ⟨program, hread, items, hlines, hdocuments⟩

/-- A statement on the line that closes a body is lost. -/
theorem statement_lost_on_closing_line :
    ¬ ∀ (text : String) (program : Program), Program.ofOutline text = .ok program →
        ∀ line ∈ numberedLines text.toList, ¬Idle line → line.trimmed ≠ ['}'] →
          line.trimmed.getLast? = some ';' ∨ line.trimmed.getLast? = some '{' ∨
            line.trimmed.head? = some '@' ∨ beforeSuffix? ['{', '}'] line.trimmed ≠ none ∨
              ∃ f ∈ program.functions, .verbatim (String.ofList line.trimmed) ∈ f.body := by
  intro hkept
  have h : (Program.ofOutline crowded).toOption.any (fun program =>
      decide (∀ f ∈ program.functions, f.body = [])) = true := by
    rw [Program.ofOutline, show crowded = String.ofList _ from rfl, String.toList_ofList]
    decide
  obtain ⟨program, hread, hbodies⟩ := exists_ok_of_any h
  have hbodies := of_decide_eq_true hbodies
  have hline : ⟨3, "save(); \x7d".toList⟩ ∈ numberedLines crowded.toList := by
    rw [show crowded = String.ofList _ from rfl, String.toList_ofList]
    decide
  rcases hkept crowded program hread _ hline (by decide) (by decide) with
    hlast | hlast | hfirst | hempty | ⟨f, hf, hstmt⟩
  · exact absurd hlast (by decide)
  · exact absurd hlast (by decide)
  · exact absurd hfirst (by decide)
  · exact absurd (by decide) hempty
  · rw [hbodies f hf] at hstmt
    cases hstmt

end LambdaDeploy
