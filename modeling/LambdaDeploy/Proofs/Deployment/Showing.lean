import LambdaDeploy.Proofs.Deployment.Failing

/-!
# What packaging shows

Packaging writes to an output before and after it writes the archive, line by line, and each of
the two groups ends at the first line that is not taken whole.  An output that takes a given
number of bytes sees one text all the same, and loses nothing but its end: once a line is cut,
there is no room for a later one.

* `Sink.write_append` — two texts in turn are one text.
* `run_showAll` — lines that are written up to the first that is refused are one text.
* `Deployment.outcome` — packaging as a function of the files: how it ends, what it leaves and
  the text that it shows.
* `run_package_eq` — **packaging on a machine is this function**, whatever the output does.
* `package_under_limit` — a limit on the output cuts the text off, and changes nothing else.
-/

namespace LambdaDeploy

/-! ## Bytes of a text -/

/-- Collecting bytes from a place on, behind those that are collected already. -/
theorem toList_loop (bytes : ByteArray) (i : Nat) (done : List UInt8) :
    ByteArray.toList.loop bytes i done = done.reverse ++ bytes.data.toList.drop i := by
  have hsize : bytes.data.toList.length = bytes.size := rfl
  -- on the number of bytes that are left
  induction hleft : bytes.size - i generalizing i done with
  | zero =>
    have hpast : ¬i < bytes.size := by omega
    rw [ByteArray.toList.loop, if_neg hpast, List.drop_eq_nil_of_le (by omega), List.append_nil]
  | succ n ih =>
    have hlt : i < bytes.data.toList.length := by omega
    have hbyte : bytes.get! i = bytes.data.toList[i] := by
      simp [ByteArray.get!, hsize ▸ hlt]
    rw [ByteArray.toList.loop, if_pos (hsize ▸ hlt), ih _ _ (by omega), hbyte,
      List.drop_eq_getElem_cons hlt]
    simp

/-- The bytes of a text that is put together are those of its parts. -/
theorem toList_toUTF8_append (text more : String) :
    (text ++ more).toUTF8.toList = text.toUTF8.toList ++ more.toUTF8.toList := by
  unfold ByteArray.toList
  simp [toList_loop]

/-! ## Outputs with a limit -/

namespace Sink

theorem write_empty (sink : Sink) : sink.write "" = (true, sink) := by
  obtain ⟨taken, room⟩ := sink
  cases room with
  | none => simp [write]
  | some n => simp [write]

/-- **Two texts in turn are one text.**  It is taken whole if both are. -/
theorem write_append (sink : Sink) (text more : String) :
    sink.write (text ++ more) =
      ((sink.write text).1 && ((sink.write text).2.write more).1,
        ((sink.write text).2.write more).2) := by
  obtain ⟨taken, room⟩ := sink
  unfold write
  rw [toList_toUTF8_append]
  generalize text.toUTF8.toList = first
  generalize more.toUTF8.toList = second
  cases room with
  | none => simp
  | some n =>
    have hfits : first.length + second.length ≤ n ↔
        first.length ≤ n ∧ second.length ≤ n - first.length := by omega
    simp [hfits, List.take_append, Nat.sub_sub]

/-- Once a text is refused there is no room for another one. -/
theorem write_of_refused {sink : Sink} {text : String} (h : (sink.write text).1 = false)
    (more : String) : ((sink.write text).2.write more).2 = (sink.write text).2 := by
  obtain ⟨taken, room⟩ := sink
  unfold write at h ⊢
  generalize text.toUTF8.toList = first at h ⊢
  cases room with
  | none => simp at h
  | some n =>
    have hfull : n - first.length = 0 := by
      have hrefused : n < first.length := by simpa using h
      omega
    simp [hfull]

end Sink

/-! ## Packaging as a function of the files -/

section Machines

variable (machine : Machine)

/-- **Lines that are written up to the first that is refused are one text.** -/
theorem run_showAll (texts : List String) :
    (Terminal.showAll texts : StateM Machine Unit) machine =
      ((), { machine with output := (machine.output.write (String.join texts)).2 }) := by
  induction texts generalizing machine with
  | nil => rw [show String.join [] = "" from rfl, Sink.write_empty]; rfl
  | cons text texts ih =>
    have hout : (Terminal.output text : StateM Machine Bool) machine =
        ((machine.output.write text).1,
          { machine with output := (machine.output.write text).2 }) := rfl
    unfold Terminal.showAll
    simp only [bind, StateT.bind]
    rw [hout, String.join_cons, Sink.write_append]
    cases htaken : (machine.output.write text).1 with
    | true => exact ih _
    | false =>
      rw [Sink.write_of_refused htaken]
      rfl

/-- How packaging ends, the files that it leaves, and the text that it shows.  All of it depends
on the files alone. -/
def Deployment.outcome (zip : ZipLibrary) (settings : Deployment) (dispatcher : Dispatcher)
    (executable : Bytes) (program : Program) (handlers : List String) (files : FileSystem) :
    Except BuildError (Option Bytes) × FileSystem × String :=
  if handlers = [] then (.ok none, files, "")
  else
    let summary := String.join (program.summary dispatcher handlers)
    match files.replaceArchive zip settings executable with
    | (.error e, after) => (.error e, after, summary)
    | (.ok archive, after) =>
      match artifactBaseName executable with
      | .error e => (.error e, after, summary)
      | .ok base =>
        (.ok (some archive), after,
          summary ++ String.join (settings.instructions archive.display base))

variable (zip : ZipLibrary) (settings : Deployment) (dispatcher : Dispatcher)
  (executable : Bytes) (program : Program) (handlers : List String)

/-- **Packaging on a machine is a function of its files**, and shows one text. -/
theorem run_package_eq :
    (settings.package zip dispatcher executable program handlers :
        ExceptT BuildError (StateM Machine) (Option Bytes)).run machine =
      let outcome := settings.outcome zip dispatcher executable program handlers machine.files
      (outcome.1, { machine with
        files := outcome.2.1
        output := (machine.output.write outcome.2.2).2 }) := by
  by_cases hhandlers : handlers = []
  · rw [hhandlers, package_nil, Deployment.outcome, if_pos rfl]
    show (_, machine) = (_, { machine with output := (machine.output.write "").2 })
    rw [Sink.write_empty]
  · rw [run_package zip settings dispatcher executable program machine hhandlers, run_showAll,
      run_writeArchive, Deployment.outcome, if_neg hhandlers]
    dsimp only
    rcases machine.files.replaceArchive zip settings executable with ⟨e | archive, after⟩
    · rfl
    · dsimp only
      cases artifactBaseName executable with
      | error e => rfl
      | ok base =>
        dsimp only
        rw [run_showAll, Sink.write_append]

/-- **A limit on the output changes nothing but the output.**  With an output that takes `limit`
bytes and then no more, packaging ends as with one that takes everything, with the same value or
the same error, and leaves the same files and the same error output.  What the output has taken
is the beginning of the whole text, as far as the limit goes. -/
theorem package_under_limit (limit : Nat) :
    let run (output : Sink) := (settings.package zip dispatcher executable program handlers :
      ExceptT BuildError (StateM Machine) (Option Bytes)).run { machine with output := output }
    let whole := (run {}).2.output.taken
    (run { room := some limit }).1 = (run {}).1 ∧
      (run { room := some limit }).2 =
        { (run {}).2 with output := ⟨whole.take limit, some (limit - whole.length)⟩ } := by
  intro run whole
  have hrun : ∀ output, run output =
      ((settings.outcome zip dispatcher executable program handlers machine.files).1,
        { machine with
          files := (settings.outcome zip dispatcher executable program handlers machine.files).2.1
          output := (output.write
            (settings.outcome zip dispatcher executable program handlers machine.files).2.2).2 }) :=
    fun output => run_package_eq { machine with output := output } zip settings dispatcher
      executable program handlers
  have hwhole : whole = (settings.outcome zip dispatcher executable program handlers
      machine.files).2.2.toUTF8.toList := by
    show (run {}).2.output.taken = _
    rw [hrun]
    rfl
  rw [hrun, hrun, hwhole]
  exact ⟨rfl, rfl⟩

end Machines

end LambdaDeploy
