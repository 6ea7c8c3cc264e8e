import LambdaDeploy.Deployment.Terminal
import LambdaDeploy.FileSystem.Canonical
import LambdaDeploy.FileSystem.Operation
import LambdaDeploy.FileSystem.Store

/-!
# Machines

A machine as a value: its files, what was written to its output, and what was
written to its error output.  A build that runs on such a machine changes nothing
else.

* `Sink` — an output that takes a given number of bytes at most.
* `Machine` — instances of `FileStore` and `Terminal` for `StateM Machine`.
-/

namespace LambdaDeploy

/-- An output: the bytes it has taken, and how many more it takes; without a
number it takes all. -/
structure Sink where
  taken : List UInt8 := []
  room : Option Nat := none
deriving DecidableEq, Repr, Inhabited

/-- Writes a text to an output, which takes as much of it as there is room for. -/
def Sink.write (sink : Sink) (text : String) : Bool × Sink :=
  let bytes := text.toUTF8.toList
  match sink.room with
  | none => (true, { sink with taken := sink.taken ++ bytes })
  | some n =>
    (decide (bytes.length ≤ n),
      { taken := sink.taken ++ bytes.take n, room := some (n - bytes.length) })

/-- A machine as far as a build can see it. -/
structure Machine where
  files : FileSystem := {}
  output : Sink := {}
  /-- What was written to the error output. -/
  errors : String := ""

namespace Machine

/-- An operation that changes files; a failure changes none. -/
def changing (operation : FileSystem → Except FileError FileSystem) (machine : Machine) :
    Except FileError Unit × Machine :=
  match operation machine.files with
  | .ok files => (.ok (), { machine with files := files })
  | .error cause => (.error cause, machine)

instance : FileStore (StateM Machine) where
  canonicalize path := fun machine => (machine.files.canonicalize path, machine)
  unlink path := changing fun files => files.unlink path
  openRead path := fun machine => (machine.files.openRead path, machine)
  write path content := changing fun files => files.write path content

instance : Terminal (StateM Machine) where
  output text := fun machine =>
    let (all, sink) := machine.output.write text
    (all, { machine with output := sink })
  report text := fun machine => ((), { machine with errors := machine.errors ++ text })

end Machine

end LambdaDeploy
