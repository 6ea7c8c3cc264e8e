import LambdaDeploy.Outline.Reader
import LambdaDeploy.Proofs.Program.Holding

/-!
# Line numbers

The number of a line goes into the places of functions and into the place of an error, and
nowhere else.  So whoever changes the numbers of the lines of some documents finds these changed
in the same way, and everything else as it was.

* `renumbered` — a result after a change of line numbers.
* `foldlM_renumbered` — steps that respect line numbers respect them one after the other.
* `readHeader_renumber`, `Reading.step_renumber` — a header, and any line of a document.
* `Block.functions_renumber` — **the functions of a document whose lines are renumbered.**
* `Layout.ofLines_mapLines` — the declarations and documents of lines that say the same, with other
  numbers and other blanks around them.
* `Program.foldlM_addBlock_renumber`, `Program.ofLines_renumber` — **the program of renumbered
  documents, and of renumbered lines.**
-/

namespace LambdaDeploy

open Text

variable {ρ : Nat → Nat}

/-! ## Changes of line numbers -/

def Location.renumber (ρ : Nat → Nat) (place : Location) : Location :=
  { place with line := ρ place.line }

def FunctionDecl.renumber (ρ : Nat → Nat) (f : FunctionDecl) : FunctionDecl :=
  { f with location := f.location.renumber ρ }

/-- Only an error about an outline has a line. -/
def BuildError.renumber (ρ : Nat → Nat) : BuildError → BuildError
  | outline line fault => .outline (ρ line) fault
  | other => other

def Program.renumber (ρ : Nat → Nat) (program : Program) : Program :=
  { program with functions := program.functions.map (FunctionDecl.renumber ρ) }

def Text.Line.renumber (ρ : Nat → Nat) (line : Line) : Line := { line with number := ρ line.number }

def Outline.Block.renumber (ρ : Nat → Nat) (block : Block) : Block :=
  { block with lines := block.lines.map (Line.renumber ρ) }

/-! ## Results -/

section Results

variable {α β γ : Type}

/-- A result after a change of line numbers: its value is changed as told, an error in its
line. -/
def renumbered (ρ : Nat → Nat) (change : α → β) : Except BuildError α → Except BuildError β
  | .ok a => .ok (change a)
  | .error e => .error (e.renumber ρ)

theorem renumbered_eq_ok_iff {change : α → β} {x : Except BuildError α} {b : β} :
    renumbered ρ change x = .ok b ↔ ∃ a, x = .ok a ∧ change a = b := by
  cases x with
  | error e => simp [renumbered]
  | ok a => simp [renumbered]

/-- Steps that respect line numbers respect them one after the other. -/
theorem foldlM_renumbered {change : β → β} {relabel : α → α} {step : β → α → Except BuildError β}
    (hstep : ∀ b a, step (change b) (relabel a) = renumbered ρ change (step b a))
    (l : List α) (b : β) :
    (l.map relabel).foldlM step (change b) = renumbered ρ change (l.foldlM step b) := by
  induction l generalizing b with
  | nil => rfl
  | cons a l ih =>
    rw [List.map_cons, List.foldlM_cons, List.foldlM_cons, hstep]
    cases hnext : step b a with
    | error e => rfl
    | ok next => exact ih next

end Results

namespace Outline

variable {scope : Scope} {document : String}

/-! ## The lines of a document -/

/-- The place of a function does not matter for reading its header. -/
theorem readSignature_place (isPublic : Bool) (place : Location) (text : List Char) :
    readSignature scope isPublic place text =
      (readSignature scope isPublic {} text).map fun (f, hasBody) =>
        ({ f with location := place }, hasBody) := by
  unfold readSignature
  -- the place is put into the function that is read, and no branch asks for it
  split
  · rfl
  · dsimp only
    split
    · rfl
    · split
      · rfl
      · simp only [bind, Except.bind]
        split
        · rfl
        · split
          · rfl
          · split
            · rfl
            · rfl

theorem readHeader_place (place : Location) (text : List Char) :
    readHeader scope place text =
      (readHeader scope {} text).map fun (f, hasBody) =>
        ({ f with location := place }, hasBody) := by
  unfold readHeader
  split
  split
  · rfl
  · exact readSignature_place ..

theorem readHeader_renumber (place : Location) (text : List Char) :
    readHeader scope (place.renumber ρ) text =
      (readHeader scope place text).map fun (f, hasBody) => (f.renumber ρ, hasBody) := by
  rw [readHeader_place, readHeader_place place]
  cases readHeader scope {} text with
  | error fault => rfl
  | ok found => rfl

def OpenFunction.renumber (ρ : Nat → Nat) (f : OpenFunction) : OpenFunction :=
  { f with function := f.function.renumber ρ, header := ρ f.header }

def Reading.renumber (ρ : Nat → Nat) (reading : Reading) : Reading where
  functions := reading.functions.map (FunctionDecl.renumber ρ)
  annotations := reading.annotations
  first := reading.first.map (Location.renumber ρ)
  current := reading.current.map (OpenFunction.renumber ρ)

namespace Reading

theorem getD_first_renumber (first : Option Location) (line : Line) :
    (first.map (Location.renumber ρ)).getD (place document (line.renumber ρ)) =
      (first.getD (place document line)).renumber ρ := by
  cases first <;> rfl

theorem stepOutside_renumber (reading : Reading) (line : Line) :
    (reading.renumber ρ).stepOutside scope document (line.renumber ρ) =
      renumbered ρ (renumber ρ) (reading.stepOutside scope document line) := by
  have htrimmed : (line.renumber ρ).trimmed = line.trimmed := rfl
  unfold stepOutside
  rw [htrimmed]
  split
  · rfl
  · split
    · rfl
    · simp only [renumbered, renumber, getD_first_renumber]
      rfl
  · simp only [renumber, getD_first_renumber, readHeader_renumber]
    cases readHeader scope (reading.first.getD (place document line)) line.trimmed with
    | error fault => rfl
    | ok found =>
      obtain ⟨f, hasBody⟩ := found
      cases hasBody with
      | true => rfl
      | false => simp [Except.map, renumbered, renumber, FunctionDecl.renumber]

theorem stepInside_renumber (reading : Reading) (f : OpenFunction) (line : Line) :
    (reading.renumber ρ).stepInside (f.renumber ρ) (line.renumber ρ) =
      (reading.stepInside f line).renumber ρ := by
  have htrimmed : (line.renumber ρ).trimmed = line.trimmed := rfl
  unfold stepInside
  rw [htrimmed]
  dsimp only [OpenFunction.renumber]
  split
  · simp [renumber]
  · rfl

/-- **A line of a document that is renumbered.** -/
theorem step_renumber (reading : Reading) (line : Line) :
    (reading.renumber ρ).step scope document (line.renumber ρ) =
      renumbered ρ (renumber ρ) (reading.step scope document line) := by
  unfold step
  cases hcurrent : reading.current with
  | none =>
    have hnone : (reading.renumber ρ).current = none := by simp [renumber, hcurrent]
    rw [hnone]
    exact stepOutside_renumber reading line
  | some f =>
    have hsome : (reading.renumber ρ).current = some (f.renumber ρ) := by
      simp [renumber, hcurrent]
    rw [hsome]
    exact congrArg Except.ok (stepInside_renumber reading f line)

/-- A document that has no line has no number, and keeps none. -/
theorem finish_renumber (hzero : ρ 0 = 0) (reading : Reading) :
    (reading.renumber ρ).finish =
      renumbered ρ (List.map (FunctionDecl.renumber ρ)) reading.finish := by
  obtain ⟨functions, annotations, first, current⟩ := reading
  unfold finish renumber
  cases current with
  | some f => rfl
  | none =>
    dsimp only [Option.map_none]
    split
    · rfl
    · cases first with
      | none => simp [renumbered, BuildError.renumber, hzero]
      | some place => rfl

end Reading

/-- **The functions of a document whose lines are renumbered.** -/
theorem Block.functions_renumber (hzero : ρ 0 = 0) (block : Block) :
    (block.renumber ρ).functions scope =
      renumbered ρ (List.map (FunctionDecl.renumber ρ)) (block.functions scope) := by
  have hlines : (block.renumber ρ).lines.foldlM (Reading.step scope block.name) {} =
      renumbered ρ (Reading.renumber ρ) (block.lines.foldlM (Reading.step scope block.name) {}) :=
    foldlM_renumbered Reading.step_renumber block.lines {}
  have hname : (block.renumber ρ).name = block.name := rfl
  unfold functions
  rw [hname, hlines]
  cases block.lines.foldlM (Reading.step scope block.name) {} with
  | error e => rfl
  | ok reading => exact reading.finish_renumber hzero

end Outline

/-! ## Declarations and documents -/

/-- Every line is exchanged for one that says the same, with another number and perhaps other
blanks around it. -/
structure SaysSame (ρ : Nat → Nat) (change : Line → Line) : Prop where
  trimmed : ∀ line, (change line).trimmed = line.trimmed
  number : ∀ line, (change line).number = ρ line.number

theorem saysSame_renumber (ρ : Nat → Nat) : SaysSame ρ (Line.renumber ρ) :=
  ⟨fun _ => rfl, fun _ => rfl⟩

namespace Outline

variable {change : Line → Line}

def Block.mapLines (change : Line → Line) (block : Block) : Block :=
  { block with lines := block.lines.map change }

def OpenBlock.mapLines (ρ : Nat → Nat) (change : Line → Line) (block : OpenBlock) : OpenBlock :=
  { block with lines := block.lines.map change, header := ρ block.header }

namespace Layout

def mapLines (ρ : Nat → Nat) (change : Line → Line) (layout : Layout) : Layout where
  scope := layout.scope
  blocks := layout.blocks.map (Block.mapLines change)
  current := layout.current.map (OpenBlock.mapLines ρ change)

theorem stepOutside_mapLines (h : SaysSame ρ change) (layout : Layout) (line : Line) :
    (layout.mapLines ρ change).stepOutside (change line) =
      renumbered ρ (mapLines ρ change) (layout.stepOutside line) := by
  unfold stepOutside
  rw [h.trimmed, h.number]
  dsimp only [mapLines]
  split
  · rfl
  · split
    · split <;> rfl
    · split <;> rfl

theorem stepInside_mapLines (h : SaysSame ρ change) (layout : Layout) (block : OpenBlock)
    (line : Line) :
    (layout.mapLines ρ change).stepInside (block.mapLines ρ change) (change line) =
      (layout.stepInside block line).mapLines ρ change := by
  unfold stepInside
  rw [h.trimmed]
  dsimp only [OpenBlock.mapLines]
  split
  · rfl
  · split
    · simp [mapLines, Block.mapLines]
    · simp [mapLines, OpenBlock.mapLines]

/-- **A line of an outline that is exchanged.** -/
theorem step_mapLines (h : SaysSame ρ change) (layout : Layout) (line : Line) :
    (layout.mapLines ρ change).step (change line) =
      renumbered ρ (mapLines ρ change) (layout.step line) := by
  unfold step
  cases hcurrent : layout.current with
  | none =>
    have hnone : (layout.mapLines ρ change).current = none := by simp [mapLines, hcurrent]
    rw [hnone]
    exact stepOutside_mapLines h layout line
  | some block =>
    have hsome : (layout.mapLines ρ change).current = some (block.mapLines ρ change) := by
      simp [mapLines, hcurrent]
    rw [hsome]
    exact congrArg Except.ok (stepInside_mapLines h layout block line)

theorem finish_mapLines (layout : Layout) :
    (layout.mapLines ρ change).finish = renumbered ρ (mapLines ρ change) layout.finish := by
  obtain ⟨scope, blocks, current⟩ := layout
  cases current <;> rfl

/-- **The declarations and documents of an outline whose lines are exchanged.** -/
theorem ofLines_mapLines (h : SaysSame ρ change) (lines : List Line) :
    ofLines (lines.map change) = renumbered ρ (mapLines ρ change) (ofLines lines) := by
  have hlines : (lines.map change).foldlM step start =
      renumbered ρ (mapLines ρ change) (lines.foldlM step start) :=
    foldlM_renumbered (step_mapLines h) lines start
  unfold ofLines
  rw [hlines]
  cases lines.foldlM step start with
  | error e => rfl
  | ok layout => exact layout.finish_mapLines

end Layout

end Outline

/-! ## The program of some documents -/

namespace Program

open Outline

theorem addBlock_renumber (hzero : ρ 0 = 0) (program : Program) (block : Block) :
    (program.renumber ρ).addBlock (block.renumber ρ) =
      renumbered ρ (renumber ρ) (program.addBlock block) := by
  have hfunctions : (block.renumber ρ).functions (program.renumber ρ).toScope =
      renumbered ρ (List.map (FunctionDecl.renumber ρ)) (block.functions program.toScope) :=
    block.functions_renumber hzero
  cases hread : block.functions program.toScope with
  | error e =>
    have hfails : (block.renumber ρ).functions (program.renumber ρ).toScope =
        .error (e.renumber ρ) := by
      rw [hfunctions, hread]
      rfl
    unfold addBlock
    rw [hread, hfails]
    rfl
  | ok functions =>
    have hmoved : (block.renumber ρ).functions (program.renumber ρ).toScope =
        .ok (functions.map (FunctionDecl.renumber ρ)) := by
      rw [hfunctions, hread]
      rfl
    rw [addBlock_eq hread, addBlock_eq hmoved]
    simp [renumbered, renumber, Block.renumber, Function.comp_def, Line.renumber]

/-- **The program of renumbered documents.** -/
theorem foldlM_addBlock_renumber (hzero : ρ 0 = 0) (blocks : List Block) (scope : Scope) :
    (blocks.map (Block.renumber ρ)).foldlM addBlock (ofScope scope) =
      renumbered ρ (renumber ρ) (blocks.foldlM addBlock (ofScope scope)) :=
  foldlM_renumbered (addBlock_renumber hzero) blocks (ofScope scope)

/-! ## The program of some lines -/

/-- The program that the lines of an outline describe. -/
def ofLines (lines : List Line) : Except BuildError Program := do
  let layout ← Layout.ofLines lines
  layout.blocks.foldlM addBlock (ofScope layout.scope)

theorem ofOutline_eq_ofLines (text : String) :
    ofOutline text = ofLines (numberedLines text.toList) := rfl

/-- The program of lines that are exchanged, if exchanging them in a document does the same. -/
theorem ofLines_map {change : Line → Line} (hsame : SaysSame ρ change)
    (hadd : ∀ program block, (renumber ρ program).addBlock (block.mapLines change) =
      renumbered ρ (renumber ρ) (program.addBlock block)) (lines : List Line) :
    ofLines (lines.map change) = renumbered ρ (renumber ρ) (ofLines lines) := by
  unfold ofLines
  rw [Layout.ofLines_mapLines hsame]
  cases Layout.ofLines lines with
  | error e => rfl
  | ok layout => exact foldlM_renumbered hadd layout.blocks (ofScope layout.scope)

/-- **The program of renumbered lines.** -/
theorem ofLines_renumber (hzero : ρ 0 = 0) (lines : List Line) :
    ofLines (lines.map (Line.renumber ρ)) = renumbered ρ (renumber ρ) (ofLines lines) :=
  ofLines_map (saysSame_renumber ρ) (addBlock_renumber hzero) lines

end Program

end LambdaDeploy
