import NameSearch.CommandLine.Program

/-!
# Runs over values

Where files and a terminal are values, what a run prints and which files it leaves behind can be
told from its arguments alone.  A conversation ends because each prompt takes something from the
terminal.
-/

namespace NameSearch
namespace CommandLine

/-- What can be seen of a run. -/
structure Scene where
  /-- Text printed so far. -/
  output : String := ""
  /-- Text printed so far on the channel for errors. -/
  errors : String := ""
  /-- The files as they are now. -/
  tree : FileTree
  deriving DecidableEq

namespace Scene

/-- Print a text. -/
def print (scene : Scene) (text : String) : Scene := { scene with output := scene.output ++ text }

/-- Print a text on the channel for errors. -/
def warn (scene : Scene) (text : String) : Scene := { scene with errors := scene.errors ++ text }

variable (scene : Scene) (text : String)

@[simp]
theorem output_print : (scene.print text).output = scene.output ++ text := rfl

@[simp]
theorem output_warn : (scene.warn text).output = scene.output := rfl

end Scene

/-- A run that has ended. -/
structure Ending where
  /-- Exit code: zero unless the run failed. -/
  code : Nat
  /-- What can be seen of it. -/
  scene : Scene
  deriving DecidableEq

/-- End a run that succeeded. -/
def succeed (scene : Scene) : Ending := ⟨0, scene⟩

/-- Files and a terminal as values, and what can be seen of a run there. -/
structure World where
  /-- What can be seen. -/
  scene : Scene
  /-- What is still to be read from the terminal. -/
  terminal : Input

namespace World

/-- Print a text. -/
def print (world : World) (text : String) : World :=
  { world with scene := world.scene.print text }

/-- Print a text on the channel for errors. -/
def warn (world : World) (text : String) : World :=
  { world with scene := world.scene.warn text }

/-- Show a message at the terminal and take the answer to it. -/
def ask (world : World) (message : String) : Except LineFault (Option String) × World :=
  let exchange := Prompt.ask message world.terminal
  (exchange.answer, { world.print exchange.shown with terminal := exchange.rest })

/-- Write a file. -/
def save (world : World) (path : String) (content : Bytes) : Except PathFault Unit × World :=
  match world.scene.tree.save path content with
  | .error fault => (.error fault, world)
  | .ok tree => (.ok (), { world with scene := { world.scene with tree } })

end World

instance : Host (StateM World) Input where
  terminal := modifyGet fun world => (world.terminal, world)
  openFile path := modifyGet fun world => (world.scene.tree.openInput path, world)
  readThrough input reading := return reading.through input
  ask message := modifyGet fun world => world.ask message
  print text := modify fun world => world.print text
  warn text := modify fun world => world.warn text
  save path content := modifyGet fun world => world.save path content

namespace World

variable (world : World)

/-- What some steps come to in a world. -/
def after {α : Type} (steps : StateM World α) : α × World := (steps.run world).run

@[simp]
theorem after_pure {α : Type} (value : α) : world.after (pure value) = (value, world) := rfl

@[simp]
theorem after_bind {α β : Type} (first : StateM World α) (later : α → StateM World β) :
    world.after (first >>= later) = (world.after first).2.after (later (world.after first).1) := rfl

@[simp]
theorem after_map {α β : Type} (change : α → β) (steps : StateM World α) :
    world.after (change <$> steps) = (change (world.after steps).1, (world.after steps).2) := rfl

@[simp]
theorem after_terminal : world.after Host.terminal = (world.terminal, world) := rfl

@[simp]
theorem after_openFile (path : String) :
    world.after (Host.openFile path) = (world.scene.tree.openInput path, world) := rfl

@[simp]
theorem after_readThrough (input : Input) (reading : Reading) :
    world.after (Host.readThrough input reading) = (reading.through input, world) := rfl

@[simp]
theorem after_ask (message : String) : world.after (Host.ask message) = world.ask message := rfl

@[simp]
theorem after_print (text : String) :
    world.after (Host.print text) = ((), world.print text) := rfl

@[simp]
theorem after_warn (text : String) : world.after (Host.warn text) = ((), world.warn text) := rfl

@[simp]
theorem after_save (path : String) (content : Bytes) :
    world.after (Host.save path content) = world.save path content := rfl

@[simp]
theorem after_tell (failure : Failure) :
    world.after failure.tell = (1, world.warn failure.report) := rfl

@[simp]
theorem terminal_print (text : String) : (world.print text).terminal = world.terminal := rfl

@[simp]
theorem terminal_warn (text : String) : (world.warn text).terminal = world.terminal := rfl

@[simp]
theorem terminal_save (path : String) (content : Bytes) :
    (world.save path content).2.terminal = world.terminal := by
  rw [save]
  split <;> rfl

end World

namespace Command

/-- What opening the input comes to. -/
def openInput (command : Command) (tree : FileTree) (terminal : Input) : Except Failure Input :=
  match command.inputPath? with
  | none => .ok terminal
  | some path =>
    match tree.openInput path with
    | .error fault => .error (.unopened path fault)
    | .ok input => .ok input

@[simp]
theorem after_openSource (command : Command) (world : World) :
    world.after command.openSource =
      (command.openInput world.scene.tree world.terminal, world) := by
  rw [openSource, openInput]
  cases command.inputPath? with
  | none => rfl
  | some path =>
      simp only [World.after_bind, World.after_openFile]
      cases world.scene.tree.openInput path <;> rfl

theorem terminal_answer (command : Command) (entries : List Entry) (query : String)
    (world : World) :
    (world.after (command.answer entries query)).2.terminal = world.terminal := by
  rw [answer]
  simp only [World.after_bind, World.after_print]
  cases command.exportPath with
  | none => simp
  | some path =>
      simp only [World.after_bind, World.after_save]
      split <;> simp

/-- A query that is answered has been taken from the terminal. -/
theorem length_terminal_lt {command : Command} {entries : List Entry} {world later : World}
    (taken : world.after (command.turn entries) = (none, later)) :
    later.terminal.data.length < world.terminal.data.length := by
  rw [turn] at taken
  simp only [World.after_bind, World.after_ask, World.ask] at taken
  split at taken
  · cases taken
  · cases taken
  · next query answered =>
      simp only [World.after_bind, World.after_pure] at taken
      obtain ⟨-, rfl⟩ := Prod.mk.inj taken
      rw [terminal_answer]
      exact Prompt.length_rest_lt answered

/-- Ask for queries and answer them until none is given. -/
def converse (command : Command) (entries : List Entry) (world : World) : Ending :=
  match taken : world.after (command.turn entries) with
  | (some code, later) => ⟨code, later.scene⟩
  | (none, later) =>
    have := length_terminal_lt taken
    command.converse entries later
termination_by world.terminal.data.length

end Command

/-- The rest of a run. -/
def Phase.finish : Phase → World → Ending
  | ended code, world => ⟨code, world.scene⟩
  | asking command entries, world => command.converse entries world

@[simp]
theorem finish_ended (code : Nat) (world : World) :
    (Phase.ended code).finish world = ⟨code, world.scene⟩ := rfl

/-- Do what is asked for on some files, at a terminal. -/
def Request.run (request : Request) (tree : FileTree) (terminal : Input) : Ending :=
  let (phase, world) := World.after ⟨{ tree }, terminal⟩ request.start
  phase.finish world

/-- Run the program with some arguments on some files, at a terminal. -/
def run (arguments : List String) (tree : FileTree) (terminal : Input) : Except Refusal Ending :=
  match read arguments with
  | .error refusal => .error refusal
  | .ok request => .ok (request.run tree terminal)

end CommandLine
end NameSearch
