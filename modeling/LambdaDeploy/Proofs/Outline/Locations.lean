import LambdaDeploy.Proofs.Outline.Renumbering
import LambdaDeploy.Proofs.Program.Transcript
import LambdaDeploy.Proofs.Text.Lines

/-!
# Where functions stand

A function that is read knows the place where it starts: the line of its first annotation, or the
line of its header.  Lines are numbered before comments are left out, and blank lines may stand
between annotations, so the number is that of the line in the whole text.

* `Passage.start` — the line at which the lines of a function start.
* `location_of_declares` — **the function stands there.**
* `pairwise_starts` — the lines at which the functions of a document start, in order.
* `Program.ofOutline_locations` — **where the functions of a program stand.**
-/

namespace LambdaDeploy

open Text Outline

variable {scope : Scope} {document : String} {text : List Char} {line : Line}
  {lines : List Line} {passages : List Passage} {p : Passage} {f : FunctionDecl}

namespace Outline

/-! ## The start of a function -/

/-- The line at which the lines of a function start: its first annotation, or its header. -/
def Passage.start (p : Passage) : Line := (filled p.marks).head?.getD p.header

/-- The function starts at the line: this is the line of its first annotation, with nothing but
blank lines in front of it, or the line of its header if it has no annotation. -/
structure Starts (scope : Scope) (p : Passage) (f : FunctionDecl) (start : Line) : Prop where
  header : f.annotations = [] → start = p.header
  annotation : ∀ a more, f.annotations = a :: more → ∃ blanks others,
    p.marks = blanks ++ start :: others ∧ (∀ blank ∈ blanks, blank.trimmed = []) ∧
      Annotates scope start a

/-- The location is that of a line of the text: it has the line's number, which counts the lines
from 1, and one more than the bytes that the blanks in front of the line's text take. -/
structure Locates (text : List Char) (document : String) (start : Line) (location : Location) :
    Prop where
  document : location.document = document
  number : location.line = start.number
  line : ∃ i, start.number = i + 1 ∧ (Text.lines text)[i]? = some start.text
  column : location.column = 1 + byteLength (start.text.takeWhile isBlank)

/-- A line that is not blank is found behind blank lines. -/
theorem exists_of_filled_eq_cons {more : List Line} (h : filled lines = line :: more) :
    ∃ blanks others, lines = blanks ++ line :: others ∧ ∀ blank ∈ blanks, blank.trimmed = [] := by
  obtain ⟨blanks, others, rfl, hblanks, -⟩ := List.filter_eq_cons_iff.1 h
  exact ⟨blanks, others, rfl, by simpa using hblanks⟩

theorem Passage.starts (h : p.Declares scope document f) : Starts scope p f p.start := by
  have hmarks := h.marks
  rw [Passage.start]
  cases hfilled : filled p.marks with
  | nil =>
    rw [hfilled, List.forall₂_nil_left_iff] at hmarks
    refine ⟨fun _ => rfl, fun a more hannotations => ?_⟩
    rw [hmarks] at hannotations
    cases hannotations
  | cons line rest =>
    rw [hfilled] at hmarks
    obtain ⟨first, others, hfirst, -, hannotations⟩ := List.forall₂_cons_left_iff.1 hmarks
    refine ⟨fun hnone => ?_, fun a more hmore => ?_⟩
    · rw [hannotations] at hnone
      cases hnone
    · rw [hannotations] at hmore
      cases hmore
      obtain ⟨blanks, behind, hlines, hblanks⟩ := exists_of_filled_eq_cons hfilled
      exact ⟨blanks, behind, hlines, hblanks, hfirst⟩

theorem Passage.start_mem (p : Passage) : p.start ∈ p.lines := by
  rw [Passage.start, Passage.lines]
  cases hfilled : filled p.marks with
  | nil => simp
  | cons line rest =>
    have hmem : line ∈ filled p.marks := hfilled ▸ List.mem_cons_self
    exact List.mem_append_left _ (List.mem_filter.1 hmem).1

/-! ## Locations -/

theorem location_of_readHeader {hasBody : Bool} {place : Location} {header : List Char}
    (h : readHeader scope place header = .ok (f, hasBody)) : f.location = place := by
  rw [readHeader_place] at h
  cases hread : readHeader scope {} header with
  | error fault =>
    rw [hread] at h
    cases h
  | ok found =>
    rw [hread] at h
    cases h
    rfl

/-- **A function stands where its lines start.** -/
theorem location_of_declares (h : p.Declares scope document f) :
    f.location = place document p.start := by
  have hlocation : f.location = (firstPlace? document p.marks).getD (place document p.header) :=
    location_of_readHeader (f := { f with annotations := [], body := [] }) h.header
  rw [hlocation, firstPlace?, Passage.start]
  cases (filled p.marks).head? with
  | none => rfl
  | some line => rfl

theorem locates_of_declares (h : p.Declares scope document f)
    (hlines : p.lines ⊆ numberedLines text) : Locates text document p.start f.location := by
  obtain ⟨i, hnumber, hline⟩ := exists_number_of_mem_numberedLines (hlines p.start_mem)
  rw [location_of_declares h]
  exact ⟨rfl, rfl, ⟨i, hnumber, hline⟩, Nat.add_comm _ _⟩

/-! ## Their order -/

/-- The lines at which some functions start stand in the order of the functions. -/
theorem pairwise_starts (h : Numbered (passages.flatMap Passage.lines)) :
    passages.Pairwise fun p q => p.start.number < q.start.number := by
  obtain ⟨-, hpairs⟩ := List.pairwise_flatMap.1 h
  exact hpairs.imp fun hpair => hpair _ (Passage.start_mem _) _ (Passage.start_mem _)

/-- So the functions of a document have increasing line numbers. -/
theorem pairwise_lines {functions : List FunctionDecl}
    (h : Numbered (passages.flatMap Passage.lines))
    (hdeclares : List.Forall₂ (Passage.Declares scope document) passages functions) :
    (functions.map (·.location.line)).Pairwise (· < ·) := by
  have hlines : List.Forall₂ (fun (p : Passage) (f : FunctionDecl) =>
      p.start.number = f.location.line) passages functions := by
    refine hdeclares.imp fun p f hp => ?_
    rw [location_of_declares hp]
    rfl
  have hnumbers : passages.map (·.start.number) = functions.map (·.location.line) := by
    rw [← List.forall₂_eq_eq_eq, List.forall₂_map_left_iff, List.forall₂_map_right_iff]
    exact hlines
  rw [← hnumbers, List.pairwise_map]
  exact pairwise_starts h

end Outline

/-! ## Whole outlines -/

namespace Program

variable {program : Program}

/-- The functions of a document stand in their lines, in order: the document's lines are theirs,
apart from comments, and each has the location of the line that it starts at. -/
structure Placed (program : Program) (text : List Char) (e : Extent) (d : Document) : Prop where
  header : Opens e.header d.name
  functions : ∃ passages rest functions,
    kept e.inside = passages.flatMap Passage.lines ++ rest ∧
      (∀ line ∈ rest, line.trimmed = []) ∧
      d.functions.map program.function? = functions.map some ∧
      List.Forall₂ (fun p f => p.Declares program.toScope d.name f ∧
        ∃ line, Starts program.toScope p f line ∧ Locates text d.name line f.location)
        passages functions ∧
      (functions.map (·.location.line)).Pairwise (· < ·)

theorem Placed.of_spells {e : Extent} {d : Document} (h : program.Spells e d)
    (hlines : kept e.inside ⊆ numberedLines text) (hnumbered : Numbered (kept e.inside)) :
    program.Placed text e d := by
  obtain ⟨passages, rest, functions, hkept, hrest, hdeclares, hids⟩ := h.functions
  rw [hkept] at hlines hnumbered
  refine ⟨h.header, passages, rest, functions, hkept, hrest, hids, ?_, ?_⟩
  · have hmem : ∀ p ∈ passages, p.lines ⊆ numberedLines text := by
      intro p hp line hline
      exact hlines (List.mem_append_left _ (List.mem_flatMap_of_mem hp hline))
    refine ((List.forall₂_and_left _ _).2 ⟨hmem, hdeclares⟩).imp fun p f hp => ?_
    exact ⟨hp.2, p.start, Passage.starts hp.2, locates_of_declares hp.2 hp.1⟩
  · exact pairwise_lines (List.pairwise_append.1 hnumbered).1 hdeclares

/-- **Where the functions of a program stand.**  Every function is in a document, and its location
names this document.  The location has the number in the whole text, and the indentation in bytes,
of one and the same line: that of the function's first annotation, or of its header if it has none.
Within a document the numbers increase from function to function. -/
theorem ofOutline_locations {text : String} (h : ofOutline text = .ok program) :
    (∀ id f, program.function? id = some f → ∃ d ∈ program.documents, id ∈ d.functions) ∧
    ∃ items : List Item, numberedLines text.toList = items.flatMap Item.lines ∧
      List.Forall₂ (program.Placed text.toList) (items.filterMap Item.extent?)
        program.documents := by
  refine ⟨fun id f hf => ?_, ?_⟩
  · exact List.mem_flatMap.1 ((consistent_of_ofOutline h).mem_order_of_function? hf)
  · obtain ⟨items, blocks, hlines, hitems, hdocuments⟩ := exists_items_of_ofOutline h
    refine ⟨items, hlines, ?_⟩
    have hextents : ∀ e ∈ items.filterMap Item.extent?,
        (kept e.inside).Sublist (numberedLines text.toList) := by
      intro e he
      rw [hlines]
      exact kept_sublist_of_mem he
    have hspells := forall₂_spells hitems.documents hdocuments
    refine ((List.forall₂_and_left _ _).2 ⟨hextents, hspells⟩).imp fun e d hd => ?_
    exact .of_spells hd.2 hd.1.subset ((numbered_numberedLines text.toList).sublist hd.1)

end Program

/-- An outline with comments and blank lines around annotations, and blanks of several bytes in
front of them. -/
def indented : String := "; orders\n\ndocument orders \x7b
; comment
\u3000 @First

  ; comment
\u00a0@Second
function place() \x7b
\x7d
\tfunction cancel() \x7b\x7d
\x7d
"

theorem Program.ofOutline_locations_indented :
    ∃ program, Program.ofOutline indented = .ok program ∧
      program.functions.map (·.location) = [⟨"orders", 5, 5⟩, ⟨"orders", 11, 2⟩] ∧
      ∃ items : List Item, numberedLines indented.toList = items.flatMap Item.lines ∧
        List.Forall₂ (program.Placed indented.toList) (items.filterMap Item.extent?)
          program.documents := by
  have h : (Program.ofOutline indented).toOption.any (fun program =>
      decide (program.functions.map (·.location) =
        [⟨"orders", 5, 5⟩, ⟨"orders", 11, 2⟩])) = true := by
    rw [Program.ofOutline, show indented = String.ofList _ from rfl, String.toList_ofList]
    decide
  obtain ⟨program, hread, hlocations⟩ := exists_ok_of_any h
  exact ⟨program, hread, of_decide_eq_true hlocations, (Program.ofOutline_locations hread).2⟩

end LambdaDeploy
