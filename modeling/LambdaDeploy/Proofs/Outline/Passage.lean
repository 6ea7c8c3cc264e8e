import LambdaDeploy.Outline.Document
import LambdaDeploy.Proofs.Steps
import LambdaDeploy.Proofs.Text.Braces
import Mathlib.Data.List.Forall2

/-!
# The lines of a function

A document's lines are passages, one for each function: its annotations, its header, and the
lines of its body up to the one that closes it.  So what stands in a document is known line by
line.

* `bare_of_readHeader` — what a header says nothing about.
* `Passage.Declares` — the function that the lines of a passage declare.
* `Reading.Covers.step` — one more line, and where it goes.
* `foldlM_passage` — the lines of a passage are read as one more function.
* `functions_eq_ok_iff` — **a document's lines declare some functions exactly if they are their
  passages**, and then blank lines.
-/

namespace LambdaDeploy.Outline

open Text

variable {scope : Scope} {document : String} {line : Line} {marks : List Line}
  {annotations : List Annotation} {f : FunctionDecl} {functions : List FunctionDecl}
  {reading next : Reading} {passages : List Passage}

/-! ## Blank lines and annotations -/

/-- The lines that are not blank. -/
def filled (lines : List Line) : List Line := lines.filter (·.trimmed ≠ [])

theorem filled_append (lines others : List Line) :
    filled (lines ++ others) = filled lines ++ filled others := List.filter_append ..

theorem filled_cons_of_blank (h : line.trimmed = []) (lines : List Line) :
    filled (line :: lines) = filled lines := by
  simp [filled, h]

theorem filled_cons (h : line.trimmed ≠ []) (lines : List Line) :
    filled (line :: lines) = line :: filled lines := by
  simp [filled, h]

/-- The line is this annotation. -/
def Annotates (scope : Scope) (line : Line) (a : Annotation) : Prop :=
  ∃ text, line.trimmed = '@' :: text ∧ readAnnotation scope text = .ok a

/-- The place of the first line that is not blank. -/
def firstPlace? (document : String) (lines : List Line) : Option Location :=
  (filled lines).head?.map (place document)

/-- The statements on the lines of a body. -/
def statements (lines : List Line) : List Stmt :=
  (filled lines).map fun line => .verbatim (String.ofList line.trimmed)

theorem statements_concat (lines : List Line) (line : Line) :
    statements (lines ++ [line]) = statements lines ++
      (if line.trimmed = [] then [] else [.verbatim (String.ofList line.trimmed)]) := by
  rw [statements, filled_append, List.map_append]
  by_cases hblank : line.trimmed = []
  · rw [filled_cons_of_blank hblank, if_pos hblank]
    rfl
  · rw [filled_cons hblank, if_neg hblank]
    rfl

/-! ## Headers -/

/-- What a header says nothing about. -/
structure Bare (f : FunctionDecl) : Prop where
  origin : f.origin = .written
  annotations : f.annotations = []
  body : f.body = []

/-- What a header is read as comes from three parts of it: the parameters between two parentheses,
the opening brace, and what stands in between. -/
theorem exists_of_readSignature {isPublic hasBody : Bool} {place : Location} {text : List Char}
    (h : readSignature scope isPublic place text = .ok (f, hasBody)) :
    ∃ start stop name list result returnType,
      readParams scope ((text.take stop).drop (start + 1)) = .ok list ∧
      readOpening (trim (text.drop (stop + 1))) = .ok (result, hasBody) ∧
      readReturns scope result = .ok returnType ∧
      f = { name := name, isPublic := isPublic, params := list.params, restParam := list.rest,
            returnType := returnType, location := place } := by
  simp only [readSignature] at h
  split at h
  · cases h
  · rename_i start hstart
    split at h
    · cases h
    · split at h
      · cases h
      · rename_i stop hstop
        obtain ⟨list, hlist, hopening⟩ := exists_of_bind_eq_ok h
        obtain ⟨⟨result, opens⟩, hresult, hreturns⟩ := exists_of_bind_eq_ok hopening
        obtain ⟨returnType, hreturnType, hlast⟩ := exists_of_bind_eq_ok hreturns
        cases hlast
        exact ⟨start, stop, _, list, result, returnType, hlist, hresult, hreturnType, rfl⟩

theorem bare_of_readSignature {isPublic hasBody : Bool} {place : Location} {text : List Char}
    (h : readSignature scope isPublic place text = .ok (f, hasBody)) : Bare f := by
  obtain ⟨_, _, _, _, _, _, -, -, -, rfl⟩ := exists_of_readSignature h
  exact ⟨rfl, rfl, rfl⟩

theorem bare_of_readHeader {hasBody : Bool} {place : Location} {text : List Char}
    (h : readHeader scope place text = .ok (f, hasBody)) : Bare f := by
  rw [readHeader] at h
  split at h
  split at h
  · cases h
  · exact bare_of_readSignature h

/-- A header is neither blank nor an annotation. -/
theorem start_of_readHeader {place : Location} {text : List Char} {result : FunctionDecl × Bool}
    (h : readHeader scope place text = .ok result) : text ≠ [] ∧ ∀ rest, text ≠ '@' :: rest := by
  constructor
  · rintro rfl
    cases h
  · rintro rest rfl
    cases h

/-! ## Passages -/

/-- The lines of one function. -/
structure Passage where
  /-- Blank lines and annotations in front of the header. -/
  marks : List Line
  header : Line
  /-- The lines of the body. -/
  inside : List Line := []
  /-- The line that closes the body; there is none if the header does. -/
  closing : Option Line := none

namespace Passage

/-- All lines of a passage. -/
def lines (p : Passage) : List Line := p.marks ++ p.header :: (p.inside ++ p.closing.toList)

/-- The function that the lines of a passage declare, up to the line that closes its body. -/
structure Begins (scope : Scope) (document : String) (p : Passage) (f : FunctionDecl)
    (hasBody : Bool) : Prop where
  marks : List.Forall₂ (Annotates scope) (filled p.marks) f.annotations
  /-- The function stands where its first annotation does. -/
  header : readHeader scope
    ((firstPlace? document p.marks).getD (place document p.header)) p.header.trimmed =
      .ok ({ f with annotations := [], body := [] }, hasBody)
  body : f.body = statements p.inside

/-- The function that the lines of a passage declare.  Of the line that closes the body only
the braces matter. -/
structure Declares (scope : Scope) (document : String) (p : Passage) (f : FunctionDecl) : Prop
    extends Begins scope document p f p.closing.isSome where
  closes : ∀ line ∈ p.closing, Closes (p.inside.map (·.trimmed)) line.trimmed
  single : p.closing = none → p.inside = []

end Passage

/-- Blank lines in front of a passage belong to it. -/
theorem Passage.Declares.blank_append {p : Passage} (h : p.Declares scope document f)
    {blank : List Line} (hblank : ∀ line ∈ blank, line.trimmed = []) :
    Declares scope document { p with marks := blank ++ p.marks } f := by
  have hnone : filled blank = [] := List.filter_eq_nil_iff.2 (by simpa using hblank)
  have hsame : filled (blank ++ p.marks) = filled p.marks := by
    rw [filled_append, hnone, List.nil_append]
  have hmarks := h.marks
  have hheader := h.header
  rw [firstPlace?, ← hsame] at hheader
  rw [← hsame] at hmarks
  exact ⟨⟨hmarks, hheader, h.body⟩, h.closes, h.single⟩

/-! ## Where a line goes -/

/-- The part of a document that is read so far, and its lines: the passages of the functions
that are complete, and then what is not yet. -/
inductive Reading.Covers (scope : Scope) (document : String) : List Line → Reading → Prop
  /-- Annotations wait for a header. -/
  | waiting {passages : List Passage} {functions : List FunctionDecl} {marks : List Line}
      {annotations : List Annotation}
      (hpassages : List.Forall₂ (Passage.Declares scope document) passages functions)
      (hmarks : List.Forall₂ (Annotates scope) (filled marks) annotations) :
      Covers scope document (passages.flatMap Passage.lines ++ marks)
        { functions := functions, annotations := annotations, first := firstPlace? document marks }
  /-- A body is open. -/
  | within {passages : List Passage} {functions : List FunctionDecl} {p : Passage}
      {f : FunctionDecl}
      (hpassages : List.Forall₂ (Passage.Declares scope document) passages functions)
      (hbegins : p.Begins scope document f true) (hopen : p.closing = none)
      (hinside : StaysOpen 1 (p.inside.map (·.trimmed))) :
      Covers scope document (passages.flatMap Passage.lines ++ p.lines)
        { functions := functions
          current := some
            { function := f
              header := p.header.number
              depth := 1 + totalDelta (p.inside.map (·.trimmed)) } }

namespace Reading.Covers

/-- A passage that is read to its end. -/
theorem complete (hpassages : List.Forall₂ (Passage.Declares scope document) passages functions)
    {p : Passage} (h : p.Declares scope document f) :
    Covers scope document (passages.flatMap Passage.lines ++ p.lines)
      { functions := functions ++ [f] } := by
  have hlines : passages.flatMap Passage.lines ++ p.lines =
      (passages ++ [p]).flatMap Passage.lines ++ [] := by
    rw [List.flatMap_append, List.flatMap_singleton, List.append_nil]
  rw [hlines]
  exact .waiting (List.rel_append hpassages (.cons h .nil)) .nil

/-- One more line outside bodies. -/
theorem stepOutside (hpassages : List.Forall₂ (Passage.Declares scope document) passages functions)
    (hmarks : List.Forall₂ (Annotates scope) (filled marks) annotations)
    (hstep : Reading.stepOutside scope document
      { functions := functions, annotations := annotations, first := firstPlace? document marks }
        line = .ok next) :
    Covers scope document (passages.flatMap Passage.lines ++ (marks ++ [line])) next := by
  rw [Reading.stepOutside] at hstep
  split at hstep
  case h_1 hblank =>
    -- a blank line
    cases hstep
    have hsame : filled (marks ++ [line]) = filled marks := by
      rw [filled_append, filled_cons_of_blank hblank]
      exact List.append_nil _
    rw [firstPlace?, ← hsame]
    exact .waiting hpassages (hsame ▸ hmarks)
  case h_2 text htext =>
    -- an annotation
    split at hstep
    · cases hstep
    · rename_i a hread
      cases hstep
      have hone : filled (marks ++ [line]) = filled marks ++ [line] := by
        rw [filled_append, filled_cons (by simp [htext])]
        rfl
      have hannotation : List.Forall₂ (Annotates scope) [line] [a] :=
        .cons ⟨text, htext, hread⟩ .nil
      have hfirst : some ((firstPlace? document marks).getD (place document line)) =
          firstPlace? document (marks ++ [line]) := by
        rw [firstPlace?, firstPlace?, hone]
        cases filled marks <;> rfl
      rw [hfirst]
      exact .waiting hpassages (hone ▸ List.rel_append hmarks hannotation)
  case h_3 =>
    -- a header
    split at hstep
    · cases hstep
    · rename_i f hasBody hread
      have hbare := bare_of_readHeader hread
      have hbegins : Passage.Begins scope document { marks := marks, header := line }
          { f with annotations := annotations } hasBody := by
        refine ⟨hmarks, ?_, hbare.body⟩
        dsimp only
        rw [hread, ← hbare.annotations, ← hbare.body]
      cases hasBody with
      | true =>
        cases hstep
        exact .within hpassages hbegins rfl trivial
      | false =>
        cases hstep
        refine .complete hpassages ⟨hbegins, ?_, fun _ => rfl⟩
        intro last hlast
        cases hlast

/-- One more line inside a body. -/
theorem stepInside (hpassages : List.Forall₂ (Passage.Declares scope document) passages functions)
    {p : Passage} (hbegins : p.Begins scope document f true) (hopen : p.closing = none)
    (hinside : StaysOpen 1 (p.inside.map (·.trimmed))) (line : Line) :
    Covers scope document (passages.flatMap Passage.lines ++ (p.lines ++ [line]))
      (Reading.stepInside { functions := functions }
        { function := f
          header := p.header.number
          depth := 1 + totalDelta (p.inside.map (·.trimmed)) } line) := by
  obtain ⟨marks, header, inside, closing⟩ := p
  cases hopen
  rw [Reading.stepInside]
  dsimp only at hinside ⊢
  split
  · -- the closing line
    rename_i hclosing
    have hlines : Passage.lines { marks, header, inside } ++ [line] =
        Passage.lines { marks, header, inside, closing := some line } := by
      simp [Passage.lines]
    rw [hlines]
    refine .complete hpassages ⟨⟨hbegins.marks, hbegins.header, hbegins.body⟩, ?_, ?_⟩
    · intro last hlast
      cases hlast
      exact ⟨hinside, hclosing⟩
    · intro hnone
      cases hnone
  · -- a line of the body
    rename_i hdepth
    have hlines : Passage.lines { marks, header, inside } ++ [line] =
        Passage.lines { marks, header, inside := inside ++ [line] } := by
      simp [Passage.lines]
    have htotal : 1 + totalDelta (inside.map (·.trimmed)) + braceDelta line.trimmed =
        1 + totalDelta ((inside ++ [line]).map (·.trimmed)) := by
      simp [Int.add_assoc]
    rw [hlines, htotal]
    refine .within hpassages ⟨hbegins.marks, hbegins.header, ?_⟩ rfl ?_
    · rw [hbegins.body, statements_concat]
    · rw [List.map_append]
      exact hinside.append ⟨Int.not_le.1 hdepth, trivial⟩

/-- **One more line, and where it goes**: it waits with the annotations, or belongs to a body, or
completes a passage. -/
theorem step {lines : List Line} (h : Covers scope document lines reading)
    (hstep : reading.step scope document line = .ok next) :
    Covers scope document (lines ++ [line]) next := by
  cases h with
  | waiting hpassages hmarks =>
    rw [List.append_assoc]
    exact stepOutside hpassages hmarks hstep
  | within hpassages hbegins hopen hinside =>
    cases hstep
    rw [List.append_assoc]
    exact stepInside hpassages hbegins hopen hinside line

end Reading.Covers

theorem Reading.covers_of_foldlM {lines : List Line}
    (h : lines.foldlM (Reading.step scope document) {} = .ok reading) :
    Covers scope document lines reading :=
  foldlM_prefix (Covers scope document) (fun _ _ _ _ hdone hstep => hdone.step hstep)
    (.waiting .nil .nil) h

/-! ## Reading a passage -/

/-- Blank lines and annotations are gathered up for the header that follows. -/
theorem foldlM_marks (hmarks : List.Forall₂ (Annotates scope) (filled marks) annotations)
    (gathered : List Annotation) (first : Option Location) :
    marks.foldlM (Reading.step scope document)
        { functions := functions, annotations := gathered, first := first } =
      .ok { functions := functions
            annotations := gathered ++ annotations
            first := first.or (firstPlace? document marks) } := by
  induction marks generalizing annotations gathered first with
  | nil =>
    cases hmarks
    simp [firstPlace?, filled, pure, Except.pure]
  | cons line marks ih =>
    rw [List.foldlM_cons, Reading.step]
    by_cases hblank : line.trimmed = []
    · rw [filled_cons_of_blank hblank] at hmarks
      simp only [Reading.stepOutside, hblank, bind, Except.bind]
      rw [ih hmarks, firstPlace?, firstPlace?, filled_cons_of_blank hblank]
    · rw [filled_cons hblank] at hmarks
      obtain ⟨a, annotations, ⟨text, htext, hread⟩, hrest, rfl⟩ :=
        List.forall₂_cons_left_iff.1 hmarks
      simp only [Reading.stepOutside, htext, hread, bind, Except.bind]
      rw [ih hrest, firstPlace?, firstPlace?, filled_cons hblank, List.append_assoc]
      cases first <;> rfl

/-- The lines of a body become its statements. -/
theorem foldlM_inside {inside : List Line} (current : OpenFunction)
    (hopen : StaysOpen current.depth (inside.map (·.trimmed))) :
    inside.foldlM (Reading.step scope document)
        { functions := functions, current := some current } =
      .ok { functions := functions
            current := some
              { current with
                function :=
                  { current.function with
                    body := current.function.body ++ statements inside }
                depth := current.depth + totalDelta (inside.map (·.trimmed)) } } := by
  induction inside generalizing current with
  | nil => simp [statements, filled, pure, Except.pure]
  | cons line inside ih =>
    obtain ⟨hdepth, hrest⟩ := hopen
    have hstatements : statements (line :: inside) =
        (if line.trimmed = [] then [] else [.verbatim (String.ofList line.trimmed)]) ++
          statements inside := by
      rw [← List.singleton_append, statements, filled_append, List.map_append]
      exact congrArg (· ++ _) (statements_concat [] line)
    rw [List.foldlM_cons, Reading.step]
    simp only [Reading.stepInside, if_neg (Int.not_le.2 hdepth), bind, Except.bind]
    rw [ih _ hrest, hstatements]
    simp [Int.add_assoc]

/-- A header ends the annotations in front of it, and may open a body. -/
theorem step_begins {p : Passage} {hasBody : Bool} (h : p.Begins scope document f hasBody)
    (functions : List FunctionDecl) :
    Reading.step scope document
        { functions := functions
          annotations := f.annotations
          first := firstPlace? document p.marks } p.header =
      .ok (if hasBody then
        { functions := functions
          current := some { function := { f with body := [] }, header := p.header.number } }
      else { functions := functions ++ [{ f with body := [] }] }) := by
  obtain ⟨hfilled, hplain⟩ := start_of_readHeader h.header
  rw [Reading.step]
  dsimp only
  rw [Reading.stepOutside]
  split
  case h_1 hblank => exact absurd hblank hfilled
  case h_2 text hat => exact absurd hat (hplain text)
  case h_3 =>
    rw [h.header]
    cases hasBody <;> rfl

/-- **The lines of a passage are read as one more function.** -/
theorem foldlM_passage {p : Passage} (h : p.Declares scope document f)
    (functions : List FunctionDecl) :
    p.lines.foldlM (Reading.step scope document) { functions := functions } =
      .ok { functions := functions ++ [f] } := by
  have hsame : { f with body := statements p.inside } = f := by rw [← h.body]
  rw [Passage.lines, List.foldlM_append, foldlM_marks h.marks [] none]
  simp only [bind, Except.bind, List.nil_append, Option.none_or, List.foldlM_cons]
  rw [step_begins h.toBegins functions]
  cases hclosing : p.closing with
  | none =>
    have hbare : { f with body := [] } = f := by
      rw [h.single hclosing] at hsame
      exact hsame
    rw [h.single hclosing, hbare]
    rfl
  | some last =>
    have hcloses := h.closes last hclosing
    simp only [Option.isSome_some, if_true, List.foldlM_append]
    rw [foldlM_inside _ hcloses.inside]
    simp only [bind, Except.bind, List.nil_append, Option.toList_some, List.foldlM_cons,
      List.foldlM_nil, Reading.step, Reading.stepInside, if_pos hcloses.closing, hsame]
    rfl

theorem foldlM_passages
    (h : List.Forall₂ (Passage.Declares scope document) passages functions)
    (before : List FunctionDecl) :
    (passages.flatMap Passage.lines).foldlM (Reading.step scope document)
        { functions := before } =
      .ok { functions := before ++ functions } := by
  induction h generalizing before with
  | nil => simp [pure, Except.pure]
  | cons hpassage _ ih =>
    rw [List.flatMap_cons, List.foldlM_append, foldlM_passage hpassage]
    simp only [bind, Except.bind]
    rw [ih, List.append_assoc]
    rfl

/-! ## Whole documents -/

/-- In a list that belongs to another one element by element, every element belongs to one. -/
theorem exists_of_mem_forall₂ {α β : Type} {R : α → β → Prop} {l : List α} {m : List β} {b : β}
    (h : List.Forall₂ R l m) (hb : b ∈ m) : ∃ a ∈ l, R a b := by
  induction h with
  | nil => cases hb
  | @cons a c _ _ hac _ ih =>
    rcases List.mem_cons.1 hb with rfl | hb
    · exact ⟨a, List.mem_cons_self, hac⟩
    · obtain ⟨other, hother, hrel⟩ := ih hb
      exact ⟨other, List.mem_cons_of_mem _ hother, hrel⟩

/-- **A document's lines declare some functions exactly if they are their passages**, and then
blank lines. -/
theorem functions_eq_ok_iff {block : Block} :
    block.functions scope = .ok functions ↔
      ∃ passages rest, block.lines = passages.flatMap Passage.lines ++ rest ∧
        (∀ line ∈ rest, line.trimmed = []) ∧
        List.Forall₂ (Passage.Declares scope block.name) passages functions := by
  constructor
  · intro h
    obtain ⟨reading, hlines, hfinish⟩ := exists_of_bind_eq_ok h
    have hcovers := Reading.covers_of_foldlM hlines
    generalize hall : block.lines = all at hcovers
    cases hcovers with
    | @waiting passages functions marks annotations hpassages hmarks =>
      rw [Reading.finish] at hfinish
      dsimp only at hfinish
      split at hfinish
      · rename_i hnone
        cases hfinish
        rw [hnone, List.forall₂_nil_right_iff] at hmarks
        refine ⟨passages, marks, rfl, fun line hline => ?_, hpassages⟩
        simpa using List.filter_eq_nil_iff.1 hmarks line hline
      · cases hfinish
    | within => cases hfinish
  · rintro ⟨passages, rest, hlines, hblank, hpassages⟩
    have hrest : filled rest = [] := List.filter_eq_nil_iff.2 (by simpa using hblank)
    have hmarks : List.Forall₂ (Annotates scope) (filled rest) [] := by
      rw [hrest]
      exact .nil
    rw [Block.functions, hlines, List.foldlM_append, foldlM_passages hpassages]
    simp only [bind, Except.bind, List.nil_append]
    rw [foldlM_marks hmarks [] none]
    rfl

end LambdaDeploy.Outline
