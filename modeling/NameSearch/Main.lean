import NameSearch.CommandLine.Program

/-!
# The program on a system

Files, the terminal and the two channels are those of the system here.  What is opened, read,
printed and written is decided in `NameSearch.CommandLine`.
-/

namespace NameSearch

/-- What an error of the system is in the terms of a run. -/
def PathFault.ofError : IO.Error → PathFault
  | .noFileOrDirectory .. => missing
  | .noSuchThing .. => missing
  | .inappropriateType _ 20 _ => notFolder
  | .inappropriateType _ 21 _ => isFolder
  | .invalidArgument _ 36 _ => tooLong
  | .permissionDenied _ code reason => refused s!"{reason} (os error {code})"
  | error => refused (toString error)

namespace CommandLine

/-- Take the result of a system call as a value. -/
def attempt {α : Type} (action : IO α) : IO (Except PathFault α) := do
  match ← action.toBaseIO with
  | .ok value => return .ok value
  | .error error => return .error (PathFault.ofError error)

/-- Something of the system that can be read from. -/
structure Source where
  /-- The bytes. -/
  stream : IO.FS.Stream
  /-- How many bytes are waited for at once. -/
  size : USize

namespace Source

/-- The terminal, which is not made to wait for more than has been typed. -/
def terminal : IO Source := return ⟨← IO.getStdin, 1⟩

/-- Read piece by piece as far as a reading goes. -/
partial def readThrough (source : Source) (reading : Reading) : IO Choice.Result := do
  match ← attempt (source.stream.read source.size) with
  | .error fault => return reading.finish (some fault.message)
  | .ok piece =>
    if piece.isEmpty then return reading.finish none
    else
      match reading.feed piece.data.toList with
      | .error result => return result
      | .ok reading => source.readThrough reading

/-- The bytes up to a line feed, behind some that have been read before. -/
partial def readLine (source : Source) (earlier : ByteArray) : IO Input := do
  match ← attempt (source.stream.read source.size) with
  | .error fault => return ⟨earlier.data.toList, some fault.message⟩
  | .ok piece =>
    let line := earlier ++ piece
    if piece.isEmpty || piece.data.contains Byte.lineFeed then return ⟨line.data.toList, none⟩
    else source.readLine line

end Source

instance : Host IO Source where
  terminal := Source.terminal
  openFile path := attempt do return ⟨.ofHandle (← IO.FS.Handle.mk path .read), 65536⟩
  readThrough := Source.readThrough
  ask message := do
    IO.print message
    (← IO.getStdout).flush
    return (Prompt.ask message (← (← Source.terminal).readLine .empty)).answer
  print text := IO.print text
  warn text := IO.eprint text
  save path content := attempt (IO.FS.writeBinFile path content.toByteArray)

/-- Go on with a run until it ends, and give the exit code. -/
partial def Phase.perform : Phase → IO Nat
  | ended code => return code
  | asking command entries => do
    match ← command.turn entries with
    | some code => return code
    | none => (asking command entries).perform

/-- Perform what some arguments ask for and give the exit code. -/
def perform (arguments : List String) : IO Nat := do
  match read arguments with
  | .error refusal =>
    IO.eprintln s!"error: {refusal.message}"
    return 2
  | .ok request => (← request.start).perform

end CommandLine
end NameSearch

def main (arguments : List String) : IO UInt32 := do
  return (← NameSearch.CommandLine.perform arguments).toUInt32
