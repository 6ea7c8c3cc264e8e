import LambdaDeploy.CommandLine.Arguments
import LambdaDeploy.Proofs.Steps

/-!
# Command lines without an executable

The option `--executable` can be taken out of a list of arguments: with its value in the same
argument or in the next one, but not behind `--`, where everything is an outline.  What is left
asks for the same build without an executable.

* `Request.withoutExecutable` — the arguments that are left.
* `Request.ofArguments_withoutExecutable` — **they ask for the same build otherwise.**
-/

namespace LambdaDeploy

/-- A build that packages nothing. -/
def Arguments.withoutExecutable (arguments : Arguments) : Arguments :=
  { arguments with executable := none }

namespace Gathered

variable {g g' : Gathered} {s : Switch} {text : String}

def withoutExecutable (g : Gathered) : Gathered := { g with executable := none }

/-- The executable is the value of its own option only. -/
theorem withoutExecutable_of_option (h : g.option .executable text = .ok g') :
    g'.withoutExecutable = g.withoutExecutable := by
  obtain ⟨value, -, hvalue⟩ := exists_of_bind_eq_ok h
  cases hvalue
  rfl

theorem option_withoutExecutable (hs : s ≠ .executable) (h : g.option s text = .ok g') :
    g.withoutExecutable.option s text = .ok g'.withoutExecutable := by
  cases s with
  | executable => exact absurd rfl hs
  | emit | memorySize | timeout | layer =>
    obtain ⟨value, hset, hvalue⟩ := exists_of_bind_eq_ok h
    cases hvalue
    simp only [option, withoutExecutable, hset, bind, Except.bind]
    rfl

theorem positional_withoutExecutable (h : g.positional text = .ok g') :
    g.withoutExecutable.positional text = .ok g'.withoutExecutable := by
  rw [positional] at h ⊢
  simp only [withoutExecutable]
  cases houtline : g.outline with
  | some outline =>
    rw [houtline] at h
    cases h
  | none =>
    rw [houtline] at h
    obtain ⟨outline, hpath, houtline⟩ := exists_of_bind_eq_ok h
    cases houtline
    rw [hpath]
    rfl

theorem finish_withoutExecutable {a : Arguments} (h : g.finish = .ok (.build a)) :
    g.withoutExecutable.finish = .ok (.build a.withoutExecutable) := by
  rw [finish] at h ⊢
  simp only [withoutExecutable]
  cases houtline : g.outline with
  | none =>
    rw [houtline] at h
    cases h
  | some outline =>
    rw [houtline] at h
    cases h
    rfl

end Gathered

/-- What is expected once the option of the executable is taken out. -/
def Expecting.withoutExecutable : Expecting → Expecting
  | .value .executable => .anything
  | expecting => expecting

theorem Expecting.withoutExecutable_value {s : Switch} (hs : s ≠ .executable) :
    (Expecting.value s).withoutExecutable = .value s := by
  cases s with
  | executable => exact absurd rfl hs
  | emit | memorySize | timeout | layer => rfl

namespace Request

variable {g : Gathered} {s : Switch} {a : Arguments} {text name : String} {rest : List String}
  {value : Option String} {expecting : Expecting}

/-- The arguments without the option `--executable` and its value. -/
def withoutExecutable : Expecting → List String → List String
  | _, [] => []
  | .outline, text :: rest => text :: rest
  | .value s, text :: rest =>
    if s = .executable then withoutExecutable .anything rest
    else text :: withoutExecutable .anything rest
  | .anything, text :: rest =>
    match Argument.ofText text with
    | .separator => text :: rest
    | .long name value =>
      match Switch.ofName? name with
      | some s =>
        let behind := withoutExecutable (if value.isSome then .anything else .value s) rest
        if s = .executable then behind else text :: behind
      | none => text :: withoutExecutable .anything rest
    | _ => text :: withoutExecutable .anything rest

/-! ## Reading single arguments -/

/-- No option with a value is called `version` or `help`. -/
theorem ne_inquiry (hname : Switch.ofName? name = some s) : name ≠ "version" ∧ name ≠ "help" := by
  constructor
  · rintro rfl
    cases hname
  · rintro rfl
    cases hname

/-- Reading is by the kind of the next argument. -/
theorem read_anything_cons (g : Gathered) (text : String) (rest : List String) :
    read .anything g (text :: rest) =
      match Argument.ofText text with
      | .separator => read .outline g rest
      | .plain word => g.positional word >>= fun g => read .anything g rest
      | .short ('V' :: _) => .ok .version
      | .short ('h' :: _) => .ok .help
      | .short _ => .error (.unknownOption text)
      | .long "version" none => .ok .version
      | .long "version" (some _) => .error (.unexpectedValue "version")
      | .long "help" none => .ok .help
      | .long "help" (some _) => .error (.unexpectedValue "help")
      | .long name value =>
        match Switch.ofName? name with
        | none => .error (.unknownOption text)
        | some s =>
          match value with
          | some value => g.option s value >>= fun g => read .anything g rest
          | none => read (.value s) g rest := rfl

theorem read_value_cons (s : Switch) (g : Gathered) (text : String) (rest : List String) :
    read (.value s) g (text :: rest) =
      match Argument.ofText text with
      | .plain word => g.option s word >>= fun g => read .anything g rest
      | _ => .error (.missingValue s.name) := rfl

/-- Behind `--` every argument is an outline. -/
theorem read_outline_cons (g : Gathered) (text : String) (rest : List String) :
    read .outline g (text :: rest) = (g.positional text >>= fun g => read .outline g rest) := rfl

/-- An option with a known name has its value in the same argument or in the next one. -/
theorem read_long (htext : Argument.ofText text = .long name value)
    (hname : Switch.ofName? name = some s) (g : Gathered) (rest : List String) :
    read .anything g (text :: rest) =
      value.elim (read (.value s) g rest)
        fun value => g.option s value >>= fun g => read .anything g rest := by
  rw [read_anything_cons, htext]
  split
  all_goals rename_i heq
  all_goals cases heq
  · exact absurd rfl (ne_inquiry hname).1
  · exact absurd rfl (ne_inquiry hname).1
  · exact absurd rfl (ne_inquiry hname).2
  · exact absurd rfl (ne_inquiry hname).2
  · rw [hname]
    cases value with
    | none => rfl
    | some value => rfl

/-- The arguments of a build are options with known names, outlines, and `--`. -/
theorem cases_of_read_anything (h : read .anything g (text :: rest) = .ok (.build a)) :
    Argument.ofText text = .separator ∨
      (∃ word, Argument.ofText text = .plain word) ∨
      ∃ name value s, Argument.ofText text = .long name value ∧
        Switch.ofName? name = some s := by
  rw [read_anything_cons] at h
  cases htext : Argument.ofText text with
  | separator => exact .inl rfl
  | plain word => exact .inr (.inl ⟨word, rfl⟩)
  | short letters =>
    rw [htext] at h
    split at h <;> simp_all
  | long name value =>
    cases hname : Switch.ofName? name with
    | some s => exact .inr (.inr ⟨name, value, s, rfl, hname⟩)
    | none =>
      rw [htext] at h
      split at h <;> simp_all

theorem read_separator (htext : Argument.ofText text = .separator) (g : Gathered)
    (rest : List String) : read .anything g (text :: rest) = read .outline g rest := by
  rw [read_anything_cons, htext]

theorem read_plain {word : String} (htext : Argument.ofText text = .plain word) (g : Gathered)
    (rest : List String) :
    read .anything g (text :: rest) =
      (g.positional word >>= fun g => read .anything g rest) := by
  rw [read_anything_cons, htext]

theorem read_value {word : String} (htext : Argument.ofText text = .plain word) (g : Gathered)
    (rest : List String) :
    read (.value s) g (text :: rest) =
      (g.option s word >>= fun g => read .anything g rest) := by
  rw [read_value_cons, htext]

/-- The value of an option is no option. -/
theorem plain_of_read_value (h : read (.value s) g (text :: rest) = .ok (.build a)) :
    ∃ word, Argument.ofText text = .plain word := by
  rw [read_value_cons] at h
  cases htext : Argument.ofText text with
  | plain word => exact ⟨word, rfl⟩
  | separator | long name value | short letters =>
    rw [htext] at h
    cases h

/-! ## Taking the option out -/

/-- Behind `--` there are no options. -/
theorem read_outline_withoutExecutable (h : read .outline g rest = .ok (.build a)) :
    read .outline g.withoutExecutable rest = .ok (.build a.withoutExecutable) := by
  induction rest generalizing g with
  | nil => exact Gathered.finish_withoutExecutable h
  | cons text rest ih =>
    rw [read_outline_cons] at h ⊢
    obtain ⟨next, hpositional, hrest⟩ := exists_of_bind_eq_ok h
    rw [Gathered.positional_withoutExecutable hpositional]
    exact ih hrest

/-- The option of the executable is taken out of the arguments that are left to read. -/
theorem read_withoutExecutable (h : read expecting g rest = .ok (.build a)) :
    read expecting.withoutExecutable g.withoutExecutable (withoutExecutable expecting rest) =
      .ok (.build a.withoutExecutable) := by
  induction rest generalizing expecting g with
  | nil =>
    cases expecting with
    | anything | outline => exact Gathered.finish_withoutExecutable h
    | value s => cases h
  | cons text rest ih =>
    cases expecting with
    | outline =>
      exact read_outline_withoutExecutable h
    | value s =>
      obtain ⟨word, hword⟩ := plain_of_read_value h
      rw [read_value hword] at h
      obtain ⟨next, hoption, hrest⟩ := exists_of_bind_eq_ok h
      have hbehind := ih hrest
      rw [withoutExecutable]
      split
      · subst_vars
        rwa [Gathered.withoutExecutable_of_option hoption] at hbehind
      · rename_i hs
        rw [Expecting.withoutExecutable_value hs, read_value hword,
          Gathered.option_withoutExecutable hs hoption]
        exact hbehind
    | anything =>
      rcases cases_of_read_anything h with htext | ⟨word, htext⟩ | ⟨name, value, s, htext, hname⟩
      · rw [withoutExecutable, htext]
        rw [read_separator htext] at h
        show read .anything g.withoutExecutable (text :: rest) = _
        rw [read_separator htext]
        exact read_outline_withoutExecutable h
      · rw [withoutExecutable, htext]
        rw [read_plain htext] at h
        obtain ⟨next, hpositional, hrest⟩ := exists_of_bind_eq_ok h
        show read .anything g.withoutExecutable (text :: withoutExecutable .anything rest) = _
        rw [read_plain htext, Gathered.positional_withoutExecutable hpositional]
        exact ih hrest
      · rw [withoutExecutable, htext]
        dsimp only
        rw [hname]
        dsimp only
        cases value with
        | none =>
          rw [read_long htext hname] at h
          have hbehind := ih h
          split
          · subst_vars
            exact hbehind
          · rename_i hs
            show read .anything g.withoutExecutable (text :: _) = _
            rw [read_long htext hname]
            rwa [Expecting.withoutExecutable_value hs] at hbehind
        | some value =>
          rw [read_long htext hname] at h
          obtain ⟨next, hoption, hrest⟩ := exists_of_bind_eq_ok h
          have hbehind := ih hrest
          split
          · subst_vars
            rwa [Gathered.withoutExecutable_of_option hoption] at hbehind
          · rename_i hs
            show read .anything g.withoutExecutable (text :: _) = _
            rw [read_long htext hname, Option.elim_some,
              Gathered.option_withoutExecutable hs hoption]
            exact hbehind

/-- **Without the option `--executable`, a list of arguments asks for the same build without an
executable.** -/
theorem ofArguments_withoutExecutable {arguments : List String}
    (h : ofArguments arguments = .ok (.build a)) :
    ofArguments (withoutExecutable .anything arguments) = .ok (.build a.withoutExecutable) :=
  read_withoutExecutable h

/-- Behind `--` the same words are an outline. -/
example :
    withoutExecutable .anything ["--executable", "app", "--emit=out.bal", "--", "--executable"] =
      ["--emit=out.bal", "--", "--executable"] := by decide

end Request

end LambdaDeploy
