import NameSearch.CommandLine.Run
import NameSearch.Proofs.CommandLine.AddedQuery
import NameSearch.Proofs.Entry.Scanning
import NameSearch.Proofs.Entry.Streaming
import NameSearch.Proofs.Prompting
import NameSearch.Proofs.Saving

/-!
# Conversations

A run that asks for queries answers each of them as a run with that query would, whatever it was
asked before: the entries are not read again, and an export replaces the one before it.
-/

namespace NameSearch
namespace CommandLine

/-! ## Exports -/

/-- What an export comes to. -/
structure Exported where
  /-- The files behind it. -/
  tree : FileTree
  /-- What is said about it if it succeeded. -/
  notice : Option String := none
  /-- The path that could not be written, and why. -/
  refusal : Option (String × PathFault) := none

namespace Exported

/-- What a conversation prints about an export. -/
def remark (exported : Exported) : String := exported.notice.elim "" (· ++ "\n")

/-- What a conversation prints about an export on the channel for errors. -/
def warning (exported : Exported) : String :=
  exported.refusal.elim "" fun (path, fault) => exportFailedText path fault

/-- How a run with a query ends after its report and an export. -/
def ending (exported : Exported) (report : String) : Ending where
  code := if exported.refusal.isSome then 1 else 0
  scene :=
    { output := report ++ exported.notice.getD ""
      errors := exported.refusal.elim "" fun (path, fault) => (Failure.unsaved path fault).report
      tree := exported.tree }

end Exported

namespace Command

variable (command : Command)

/-- Export some entries, if a run does so. -/
def exported (tree : FileTree) (entries : List Entry) : Exported :=
  match command.exportPath with
  | none => { tree }
  | some path =>
    match tree.save path (command.format.content entries) with
    | .error fault => { tree, refusal := some (path, fault) }
    | .ok saved => { tree := saved, notice := some (exportedText entries.length path) }

section Exports

variable {command} {tree : FileTree} {path : String} {entries : List Entry}

@[simp]
theorem exported_of_none (noPath : command.exportPath = none) :
    command.exported tree entries = { tree } := by
  rw [exported, noPath]

@[simp]
theorem exported_of_error (isPath : command.exportPath = some path) {fault : PathFault}
    (refused : tree.save path (command.format.content entries) = .error fault) :
    command.exported tree entries = { tree, refusal := some (path, fault) } := by
  rw [exported, isPath]
  dsimp only
  rw [refused]

@[simp]
theorem exported_of_ok (isPath : command.exportPath = some path) {saved : FileTree}
    (done : tree.save path (command.format.content entries) = .ok saved) :
    command.exported tree entries =
      { tree := saved, notice := some (exportedText entries.length path) } := by
  rw [exported, isPath]
  dsimp only
  rw [done]

/-- An export comes to what it would without the one before it. -/
theorem exported_exported (earlier later : List Entry) :
    command.exported (command.exported tree earlier).tree later = command.exported tree later := by
  cases given : command.exportPath with
  | none => simp [given]
  | some path =>
      cases done : tree.save path (command.format.content earlier) with
      | error fault => rw [exported_of_error given done]
      | ok saved =>
          obtain ⟨again, fresh, replaced⟩ :=
            FileTree.save_of_save done (command.format.content later)
          rw [exported_of_ok given done, exported_of_ok given fresh, exported_of_ok given replaced]

theorem openInput_exported (isPath : command.exportPath = some path) {content : Bytes}
    {saved : FileTree} (writable : tree.save path content = .ok saved) (entries : List Entry) :
    (command.exported tree entries).tree.openInput path =
      .ok ⟨command.format.content entries, none⟩ := by
  obtain ⟨again, done, -⟩ := FileTree.save_of_save writable (command.format.content entries)
  rw [exported_of_ok isPath done]
  exact FileTree.openInput_of_save done

end Exports

/-! ## Single runs -/

section Single

variable {command} {tree : FileTree} {terminal input : Input} {entries : List Entry}
  {query : String}

theorem openInput_of_path {path : String} (named : command.inputPath? = some path)
    (opened : tree.openInput path = .ok input) (terminal : Input) :
    command.openInput tree terminal = .ok input := by
  rw [openInput, named]
  dsimp only
  rw [opened]

theorem through_selecting (query : String) (input : Input) :
    (command.selecting query).through input =
      command.settings.select (Query.parse (Bytes.ofString query)) command.comparison input :=
  command.settings.through_selecting input _ _

/-- Without a limit it makes no difference whether entries are chosen while they are read. -/
theorem through_selecting_of_readAll (loaded : command.settings.readAll input = .ok entries)
    (unlimited : command.settings.limit = 0) (query : String) :
    (command.selecting query).through input = .ok (command.selectFrom query entries) := by
  rw [Settings.readAll] at loaded
  rw [through_selecting, selectFrom, Settings.select, Feed.scan_of_lt _ (.inl unlimited), loaded,
    choose_of_lt _ _ _ (.inl unlimited)]
  rfl

theorem run_of_asked (asked : command.query = some query) :
    (Request.search command).run tree terminal =
      let after := World.after ⟨{ tree }, terminal⟩ (command.answerOnce query)
      ⟨after.1, after.2.scene⟩ := by
  simp [Request.run, Request.start, asked]

theorem run_of_selection (asked : command.query = some query)
    (opened : command.openInput tree terminal = .ok input) {selection : Selection}
    (chosen : (command.selecting query).through input = .ok selection) :
    (Request.search command).run tree terminal =
      (command.exported tree selection.matched).ending (command.report selection) := by
  rw [run_of_asked asked, answerOnce]
  simp only [World.after_bind, after_openSource, opened, World.after_readThrough, chosen,
    World.after_print]
  cases given : command.exportPath with
  | none => simp [given, Exported.ending, World.print, Scene.print]
  | some path =>
      cases done : tree.save path (command.format.content selection.matched) with
      | error fault =>
          simp [given, done, Exported.ending, World.print, Scene.print, World.save, World.warn,
            Scene.warn]
      | ok saved =>
          simp [given, done, Exported.ending, World.print, Scene.print, World.save]

theorem run_of_readAll (asked : command.query = some query)
    (opened : command.openInput tree terminal = .ok input)
    (loaded : command.settings.readAll input = .ok entries)
    (unlimited : command.settings.limit = 0) :
    (Request.search command).run tree terminal =
      let selection := command.selectFrom query entries
      (command.exported tree selection.matched).ending (command.report selection) :=
  run_of_selection asked opened (through_selecting_of_readAll loaded unlimited query)

end Single

/-! ## Conversations -/

section Steps

variable (entries : List Entry)

/-- What the answer to a query makes of a scene. -/
def answered (scene : Scene) (query : String) : Scene :=
  let selection := command.selectFrom query entries
  let exported := command.exported scene.tree selection.matched
  { output := scene.output ++ (command.report selection ++ "\n" ++ exported.remark)
    errors := scene.errors ++ exported.warning
    tree := exported.tree }

variable {world : World}

@[simp]
theorem after_answer (query : String) (world : World) :
    world.after (command.answer entries query) =
      ((), { world with scene := command.answered entries world.scene query }) := by
  rw [answer, answered]
  generalize command.selectFrom query entries = selection
  simp only [World.after_bind, World.after_print]
  cases given : command.exportPath with
  | none => simp [given, Exported.remark, Exported.warning, World.print, Scene.print]
  | some path =>
      cases done : world.scene.tree.save path (command.format.content selection.matched) with
      | error fault =>
          simp [given, done, Exported.remark, Exported.warning, World.print, Scene.print,
            World.save, World.warn, Scene.warn]
      | ok saved =>
          simp [given, done, Exported.remark, Exported.warning, World.print, Scene.print,
            World.save, String.append_assoc]

theorem after_turn_of_none (ended : (Prompt.ask promptText world.terminal).answer = .ok none) :
    (world.after (command.turn entries)).1 = some 0 ∧
      (world.after (command.turn entries)).2.scene = world.scene.print promptText := by
  rw [turn]
  simp [World.ask, ended, Prompt.shown_ask, World.print]

theorem after_turn_of_some {query : String}
    (asked : (Prompt.ask promptText world.terminal).answer = .ok (some query)) :
    world.after (command.turn entries) =
      (none, ⟨command.answered entries (world.scene.print promptText) query,
        (Prompt.ask promptText world.terminal).rest⟩) := by
  rw [turn]
  simp [World.ask, asked, Prompt.shown_ask, World.print]

theorem converse_of_none (ended : (Prompt.ask promptText world.terminal).answer = .ok none) :
    command.converse entries world = succeed (world.scene.print promptText) := by
  have turned := command.after_turn_of_none entries ended
  rw [converse]
  split
  · next code later taken =>
      rw [taken] at turned
      obtain ⟨code, scene⟩ := turned
      rw [succeed, ← scene, ← Option.some.inj code]
  · next later taken =>
      rw [taken] at turned
      cases turned.1

theorem converse_of_some {query : String}
    (asked : (Prompt.ask promptText world.terminal).answer = .ok (some query)) :
    command.converse entries world =
      command.converse entries
        ⟨command.answered entries (world.scene.print promptText) query,
          (Prompt.ask promptText world.terminal).rest⟩ := by
  have turned := command.after_turn_of_some entries asked
  rw [converse]
  split
  · next code later taken =>
      rw [taken] at turned
      cases turned
  · next later taken =>
      rw [taken] at turned
      exact congrArg (command.converse entries) (Prod.mk.inj turned).2

end Steps

section Runs

variable (entries : List Entry)

/-- What a prompt that a query is given to makes of a scene. -/
def turned (scene : Scene) (query : String) : Scene :=
  command.answered entries (scene.print promptText) query

/-- A conversation takes its turns in order and ends with a prompt that no query is given to. -/
theorem converse_of_typed {queries : List String} {terminal : Input}
    (typed : Prompt.Typed queries terminal) (scene : Scene) :
    command.converse entries ⟨scene, terminal⟩ =
      succeed ((queries.foldl (command.turned entries) scene).print promptText) := by
  induction queries generalizing terminal scene with
  | nil => exact command.converse_of_none entries (Prompt.answer_of_typed_nil promptText typed)
  | cons query later induction =>
      obtain ⟨asked, rest⟩ := Prompt.answer_of_typed_cons promptText typed
      exact (command.converse_of_some entries asked).trans
        (induction rest (command.turned entries scene query))

/-- What turns come to depends on the files there were before the first of them. -/
theorem foldl_turned (tree : FileTree) (queries : List String) (scene : Scene)
    (unchanged : ∀ matched, command.exported scene.tree matched = command.exported tree matched) :
    let chosen := fun query => command.selectFrom query entries
    let exported := fun query => command.exported tree (chosen query).matched
    queries.foldl (command.turned entries) scene =
      { output := scene.output ++ String.join (queries.map fun query =>
          promptText ++ command.report (chosen query) ++ "\n" ++ (exported query).remark)
        errors := scene.errors ++ String.join (queries.map fun query => (exported query).warning)
        tree := queries.getLast?.elim scene.tree fun last => (exported last).tree } := by
  intro chosen exported
  induction queries generalizing scene with
  | nil => simp
  | cons query later induction =>
      have taken : command.turned entries scene query =
          { output := scene.output ++ (promptText ++ command.report (chosen query) ++ "\n" ++
              (exported query).remark)
            errors := scene.errors ++ (exported query).warning
            tree := (exported query).tree } := by
        have same := unchanged (chosen query).matched
        rw [turned, answered]
        simp only [Scene.print, String.append_assoc]
        rw [same]
      have still : ∀ matched, command.exported (command.turned entries scene query).tree matched =
          command.exported tree matched := by
        intro matched
        rw [taken]
        exact exported_exported _ matched
      rw [List.foldl_cons, induction _ still, taken]
      simp only [List.map_cons, String.join_cons, String.append_assoc, List.getLast?_cons]
      cases later.getLast? <;> rfl

variable {entries}

/-- A run without a query is a conversation about the entries that it reads first. -/
theorem run_of_asking {command : Command} (asking : command.query = none) {path : String}
    (named : command.inputPath? = some path) {tree : FileTree} {terminal input : Input}
    (opened : command.openInput tree terminal = .ok input)
    (loaded : command.settings.readAll input = .ok entries) :
    (Request.search command).run tree terminal =
      command.converse entries ⟨{ output := header entries.length, tree }, terminal⟩ := by
  have read := command.settings.through_loading input
  rw [loaded] at read
  rw [Request.run, Request.start, asking]
  dsimp only
  rw [prepare, named]
  simp [opened, read, Except.map, Phase.finish, World.print, Scene.print]

end Runs

end Command

/-- A run that asks for queries answers each of them as a run with that query answers it. -/
theorem run_agrees_with_single_runs {arguments : List String} {command : Command}
    (searching : read arguments = .ok (.search command)) (asking : command.query = none)
    {path : String} (named : command.inputPath? = some path) {tree : FileTree} {input : Input}
    (opened : tree.openInput path = .ok input) {entries : List Entry}
    (loaded : command.settings.readAll input = .ok entries)
    (unlimited : command.settings.limit = 0) {queries : List String} {terminal : Input}
    (typed : Prompt.Typed queries terminal) :
    let chosen := fun query => command.selectFrom query entries
    let exported := fun query => command.exported tree (chosen query).matched
    (∀ query other, run (queryArgument query :: arguments) tree other =
        .ok ((exported query).ending (command.report (chosen query)))) ∧
      ∃ final, run arguments tree terminal = .ok (succeed final) ∧
        final.output = header entries.length
          ++ String.join (queries.map fun query =>
            promptText ++ command.report (chosen query) ++ "\n" ++ (exported query).remark)
          ++ promptText ∧
        final.errors = String.join (queries.map fun query => (exported query).warning) ∧
        final.tree = (queries.getLast?.elim tree fun last => (exported last).tree) ∧
        ∀ last target, queries.getLast? = some last → command.exportPath = some target →
          tree.IsWritable target → final.tree.openInput target =
            .ok ⟨command.format.content (chosen last).matched, none⟩ := by
  intro chosen exported
  have openedAt := Command.openInput_of_path named opened
  constructor
  · intro query other
    let asked : Command := { command with query := some query }
    have answered : (Request.search asked).run tree other =
        (exported query).ending (command.report (chosen query)) :=
      Command.run_of_readAll rfl (openedAt other) loaded unlimited
    rw [run, read_queryArgument query searching asking]
    exact congrArg Except.ok answered
  · have turns := command.foldl_turned entries tree queries
      { output := header entries.length, tree } fun matched => rfl
    have conversed := Command.run_of_asking asking named (openedAt terminal) loaded
    rw [command.converse_of_typed entries typed, turns] at conversed
    rw [run, searching]
    refine ⟨_, congrArg Except.ok conversed, rfl, String.empty_append, rfl, ?_⟩
    intro last target isLast isPath writable
    obtain ⟨content, saved, done⟩ := writable
    simp only [Scene.print, isLast]
    exact Command.openInput_exported isPath done _

/-- Two queries whose answers are exported over the input itself: the second is answered with an
entry that the file does not hold any more. -/
theorem run_agrees_with_single_runs_over_input :
    let tree : FileTree := ⟨["home"], [(["home", "in"], Bytes.ofString "ab\nc\n")]⟩
    let terminal : Input := ⟨Bytes.ofString "c" ++ Byte.lineFeed :: Bytes.ofString "b", none⟩
    ∃ final, run ["--export=in", "in"] tree terminal = .ok (succeed final) ∧
      final.output = header 2
        ++ "filter> === Results ===\nEntries scanned: 2\nEntries matched: 1 (50.0%)\n\n  c\n\n"
        ++ "Exported 1 entries to in\n\n"
        ++ "filter> === Results ===\nEntries scanned: 2\nEntries matched: 1 (50.0%)\n\n  ab\n\n"
        ++ "Exported 1 entries to in\n\nfilter> " ∧
      final.errors = "" ∧
      final.tree.openInput "in" = .ok ⟨Bytes.ofString "ab\n", none⟩ := by
  intro tree terminal
  let command : Command := { input := some "in", exportPath := some "in" }
  have searching : read ["--export=in", "in"] = .ok (.search command) := by decide +kernel
  have named : command.inputPath? = some "in" := by rfl
  have opened : tree.openInput "in" = .ok ⟨Bytes.ofString "ab\nc\n", none⟩ := by rfl
  have loaded : command.settings.readAll ⟨Bytes.ofString "ab\nc\n", none⟩ =
      .ok [⟨1, ["ab"]⟩, ⟨2, ["c"]⟩] := rfl
  have typed : Prompt.Typed ["c", "b"] terminal :=
    .line ⟨by decide, by decide, by decide⟩ (.last ⟨by decide, by decide, by decide⟩)
  obtain ⟨-, final, ended, shown, silent, -, kept⟩ :=
    run_agrees_with_single_runs searching rfl named opened loaded rfl typed
  have writable : tree.IsWritable "in" := ⟨[], _, rfl⟩
  have first : command.selectFrom "c" [⟨1, ["ab"]⟩, ⟨2, ["c"]⟩] = ⟨2, [⟨2, ["c"]⟩]⟩ := by
    dsimp only [command]
    decide +kernel
  have second : command.selectFrom "b" [⟨1, ["ab"]⟩, ⟨2, ["c"]⟩] = ⟨2, [⟨1, ["ab"]⟩]⟩ := by
    dsimp only [command]
    decide +kernel
  refine ⟨final, ended, shown.trans ?_, silent.trans ?_, (kept "b" "in" rfl rfl writable).trans ?_⟩
  · simp only [List.map_cons, List.map_nil, first, second]
    dsimp only [command, tree]
    decide +kernel
  · simp only [List.map_cons, List.map_nil, first, second]
    dsimp only [command, tree]
    rfl
  · simp only [second]
    rfl

end CommandLine
end NameSearch
