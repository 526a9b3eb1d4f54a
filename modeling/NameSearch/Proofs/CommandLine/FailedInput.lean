import NameSearch.Proofs.CommandLine.Conversation

/-!
# Runs whose input fails

The input is read before anything is printed or written.  So a run whose input fails has nothing to
take back: it tells why on the channel for errors, with an exit code of one, and leaves the files as
they were.  Any other run prints something.  A run with a query whose limit is reached never meets
what is wrong behind the last entry it takes.
-/

namespace NameSearch
namespace CommandLine
namespace Command

/-- How the input of a run can fail. -/
inductive InputFails (command : Command) (tree : FileTree) (terminal : Input) : Failure → Prop where
  /-- It cannot be opened. -/
  | unopened {path : String} {fault : PathFault} (named : command.inputPath? = some path)
      (closed : tree.openInput path = .error fault) :
      InputFails command tree terminal (.unopened path fault)
  /-- It cannot be scanned for the entries that satisfy a query. -/
  | unscanned {query : String} {input : Input} {failure : ReadFailure}
      (asked : command.query = some query) (opened : command.openInput tree terminal = .ok input)
      (stopped : command.settings.select (Query.parse (Bytes.ofString query)) command.comparison
        input = .error failure) :
      InputFails command tree terminal (.unread failure)
  /-- It cannot be loaded before queries are asked for. -/
  | unloaded {path : String} {input : Input} {failure : ReadFailure} (asking : command.query = none)
      (named : command.inputPath? = some path) (opened : tree.openInput path = .ok input)
      (stopped : command.settings.readAll input = .error failure) :
      InputFails command tree terminal (.unread failure)
  /-- It should be read where queries are asked for. -/
  | noInput (asking : command.query = none) (unnamed : command.inputPath? = none) :
      InputFails command tree terminal .noInput

section Failing

variable {command : Command} {tree : FileTree} {terminal : Input}

theorem openInput_of_error {path : String} {fault : PathFault}
    (named : command.inputPath? = some path) (closed : tree.openInput path = .error fault) :
    command.openInput tree terminal = .error (.unopened path fault) := by
  simp only [openInput, named, closed]

theorem openInput_eq_ok_of_path {path : String} {input : Input}
    (named : command.inputPath? = some path) (opened : command.openInput tree terminal = .ok input) :
    tree.openInput path = .ok input := by
  rw [openInput, named] at opened
  dsimp only at opened
  split at opened
  · cases opened
  · next found => rw [found, Except.ok.inj opened]

theorem inputFails_of_openInput {failure : Failure}
    (unopened : command.openInput tree terminal = .error failure) :
    command.InputFails tree terminal failure := by
  rw [openInput] at unopened
  split at unopened
  · cases unopened
  · next path named =>
      split at unopened
      · next fault closed =>
          obtain rfl := Except.error.inj unopened
          exact .unopened named closed
      · cases unopened

@[simp]
theorem scene_warn (text : String) :
    (World.warn ⟨{ tree }, terminal⟩ text).scene = { errors := text, tree } := by
  simp [World.warn, Scene.warn]

/-- A run whose input fails does nothing but tell why. -/
theorem InputFails.run_eq {failure : Failure} (fails : command.InputFails tree terminal failure) :
    (Request.search command).run tree terminal =
      ⟨1, { output := "", errors := failure.report, tree }⟩ := by
  cases fails with
  | unopened named closed =>
      have unopened : command.openInput tree terminal = _ := openInput_of_error named closed
      cases asked : command.query with
      | none => simp [Request.run, Request.start, asked, prepare, named, unopened]
      | some query => simp [run_of_asked asked, answerOnce, unopened]
  | unscanned asked opened stopped =>
      simp [run_of_asked asked, answerOnce, opened, through_selecting, stopped]
  | unloaded asking named opened stopped =>
      have openedAt := openInput_of_path named opened terminal
      simp [Request.run, Request.start, asking, prepare, named, openedAt,
        Settings.through_loading, stopped, Except.map]
  | noInput asking unnamed => simp [Request.run, Request.start, asking, prepare, unnamed]

theorem inputFails_iff_of_asked {query : String} {input : Input}
    (asked : command.query = some query) (opened : command.openInput tree terminal = .ok input)
    {failure : Failure} :
    command.InputFails tree terminal failure ↔
      ∃ fault, failure = .unread fault ∧
        command.settings.select (Query.parse (Bytes.ofString query)) command.comparison input =
          .error fault := by
  constructor
  · intro fails
    cases fails with
    | unopened named closed =>
        rw [openInput_of_error named closed] at opened
        cases opened
    | @unscanned other given fault same openedAt stopped =>
        obtain rfl := Option.some.inj (asked.symm.trans same)
        obtain rfl := Except.ok.inj (opened.symm.trans openedAt)
        exact ⟨fault, rfl, stopped⟩
    | unloaded asking =>
        rw [asked] at asking
        cases asking
    | noInput asking =>
        rw [asked] at asking
        cases asking
  · rintro ⟨fault, rfl, stopped⟩
    exact .unscanned asked opened stopped

end Failing

/-! ## What other runs print -/

section Printing

variable {command : Command}

theorem report_ne_empty (selection : Selection) : command.report selection ≠ "" := by
  intro empty
  unfold report Report.text at empty
  have counted := (String.append_eq_empty_iff.mp empty).1
  exact absurd (String.append_eq_empty_iff.mp counted).2 (by decide)

theorem header_ne_empty (count : Nat) : header count ≠ "" := by
  intro empty
  unfold header at empty
  exact absurd (String.append_eq_empty_iff.mp empty).2 (by decide)

theorem exists_output_turn (entries : List Entry) (world : World) :
    ∃ more, (world.after (command.turn entries)).2.scene.output = world.scene.output ++ more := by
  rw [turn]
  cases answer : (Prompt.ask promptText world.terminal).answer with
  | error fault => exact ⟨promptText, by simp [World.ask, answer, World.print, World.warn]⟩
  | ok asked =>
      cases asked with
      | none => exact ⟨promptText, by simp [World.ask, answer, World.print]⟩
      | some query =>
          simp only [World.after_bind, World.after_ask, World.ask, answer, World.print,
            after_answer, World.after_pure, answered, Scene.output_print, Prompt.shown_ask,
            String.append_assoc]
          exact ⟨_, rfl⟩

/-- A conversation takes back nothing that was printed before. -/
theorem exists_output_converse (entries : List Entry) (world : World) :
    ∃ more, (command.converse entries world).scene.output = world.scene.output ++ more := by
  fun_induction command.converse entries world with
  | case1 world code later taken =>
      obtain ⟨more, grown⟩ := command.exists_output_turn entries world
      rw [taken] at grown
      exact ⟨more, grown⟩
  | case2 world later taken _ induction =>
      obtain ⟨first, grown⟩ := command.exists_output_turn entries world
      obtain ⟨more, same⟩ := induction
      rw [taken] at grown
      exact ⟨first ++ more, by rw [same, grown, String.append_assoc]⟩

variable {tree : FileTree} {terminal input : Input}

theorem output_run_of_asked_ne_empty {query : String} (asked : command.query = some query)
    (opened : command.openInput tree terminal = .ok input) {selection : Selection}
    (chosen : (command.selecting query).through input = .ok selection) :
    ((Request.search command).run tree terminal).scene.output ≠ "" := by
  rw [run_of_selection asked opened chosen]
  exact fun empty => report_ne_empty selection (String.append_eq_empty_iff.mp empty).1

theorem output_run_of_asking_ne_empty (asking : command.query = none) {path : String}
    (named : command.inputPath? = some path)
    (opened : command.openInput tree terminal = .ok input) {entries : List Entry}
    (loaded : command.settings.readAll input = .ok entries) :
    ((Request.search command).run tree terminal).scene.output ≠ "" := by
  obtain ⟨more, grown⟩ := command.exists_output_converse entries
    ⟨{ output := header entries.length, tree }, terminal⟩
  rw [run_of_asking asking named opened loaded, grown]
  exact fun empty => header_ne_empty _ (String.append_eq_empty_iff.mp empty).1

/-- A run prints something unless its input fails. -/
theorem inputFails_or_output_ne_empty (command : Command) (tree : FileTree) (terminal : Input) :
    (∃ failure, command.InputFails tree terminal failure) ∨
      ((Request.search command).run tree terminal).scene.output ≠ "" := by
  cases opened : command.openInput tree terminal with
  | error failure => exact .inl ⟨failure, inputFails_of_openInput opened⟩
  | ok input =>
      cases asked : command.query with
      | some query =>
          cases chosen : command.settings.select (Query.parse (Bytes.ofString query))
              command.comparison input with
          | error failure => exact .inl ⟨_, .unscanned asked opened chosen⟩
          | ok selection =>
              have selected := (command.through_selecting query input).trans chosen
              exact .inr (output_run_of_asked_ne_empty asked opened selected)
      | none =>
          cases named : command.inputPath? with
          | none => exact .inl ⟨_, .noInput asked named⟩
          | some path =>
              have openedAt := openInput_eq_ok_of_path named opened
              cases loaded : command.settings.readAll input with
              | error failure => exact .inl ⟨_, .unloaded asked named openedAt loaded⟩
              | ok entries =>
                  exact .inr (output_run_of_asking_ne_empty asked named opened loaded)

end Printing

end Command

/-- A run whose input fails leaves everything as it was.  It exits with one, tells why on the channel
for errors, prints nothing and leaves the files alone; and only such a run prints nothing.  A run
with a query that opens its input fails at it just when the reader is stopped before as many entries
as the limit are chosen.  With that many, it ends with the report on them and an export, whatever
stops the reader behind the last of them. -/
theorem run_of_inputFails {arguments : List String} {command : Command}
    (searching : read arguments = .ok (.search command)) (tree : FileTree) (terminal : Input) :
    ∃ ending, run arguments tree terminal = .ok ending ∧
      (∀ failure, command.InputFails tree terminal failure →
        ending = ⟨1, { output := "", errors := failure.report, tree }⟩) ∧
      ((∃ failure, command.InputFails tree terminal failure) ↔ ending.scene.output = "") ∧
      ∀ query input, command.query = some query → command.openInput tree terminal = .ok input →
        let isWanted :=
          Entry.satisfies command.settings (Query.parse (Bytes.ofString query)) command.comparison
        let limit := command.settings.limit
        let feed := command.settings.feed input
        (∀ failure, command.InputFails tree terminal failure ↔
          ∃ fault, failure = .unread fault ∧ feed.failure = some fault ∧
            (limit = 0 ∨ feed.entries.countP isWanted < limit)) ∧
        (0 < limit → limit ≤ feed.entries.countP isWanted →
          ∃ scanned, Feed.IsPlaceOf isWanted limit scanned feed.entries ∧
            let selection : Selection := ⟨scanned, (feed.entries.filter isWanted).take limit⟩
            ending = (command.exported tree selection.matched).ending
              (command.report selection)) := by
  have ended : run arguments tree terminal = .ok ((Request.search command).run tree terminal) := by
    rw [run, searching]
  refine ⟨_, ended, ?_, ?_, ?_⟩
  · intro failure fails
    exact fails.run_eq
  · constructor
    · rintro ⟨failure, fails⟩
      rw [fails.run_eq]
    · intro silent
      have either := command.inputFails_or_output_ne_empty tree terminal
      exact either.resolve_right fun printed => printed silent
  · intro query input asked opened isWanted limit feed
    constructor
    · intro failure
      rw [Command.inputFails_iff_of_asked asked opened]
      simp only [Settings.select, Feed.scan_eq_error_iff]
      rfl
    · intro positive enough
      obtain ⟨scanned, place, chosen⟩ := Feed.scan_of_le isWanted positive enough
      refine ⟨scanned, place, ?_⟩
      have selected := (command.through_selecting query input).trans chosen
      exact Command.run_of_selection asked opened selected

/-- The second line of the input is no text.  A run that wants a second entry fails at it, and so does
one that asks for queries; the file to export to is kept.  A run that wants one entry replaces it. -/
theorem run_of_inputFails_behind_match :
    let tree : FileTree := ⟨["home"],
      [(["home", "in"], Bytes.ofString "ab\n" ++ 255 :: Bytes.ofString "\nac\n"),
        (["home", "out"], Bytes.ofString "kept")]⟩
    let terminal : Input := ⟨Bytes.ofString "a\n", none⟩
    let failed : Ending := ⟨1,
      { output := ""
        errors := "Error: Failed to read input line 2\n\nCaused by:\n    "
          ++ "stream did not contain valid UTF-8\n"
        tree }⟩
    run ["--export=out", "--query=a", "--limit=2", "in"] tree terminal = .ok failed ∧
      run ["--export=out", "--limit=1", "in"] tree terminal = .ok failed ∧
      ∃ ending, run ["--export=out", "--query=a", "--limit=1", "in"] tree terminal = .ok ending ∧
        ending.code = 0 ∧
        ending.scene.tree.openInput "out" = .ok ⟨Bytes.ofString "ab\n", none⟩ := by
  intro tree terminal failed
  let asking : Command :=
    { input := some "in", exportPath := some "out", settings := { limit := 1 } }
  let one : Command := { asking with query := some "a" }
  let two : Command := { one with settings := { limit := 2 } }
  let input : Input := ⟨Bytes.ofString "ab\n" ++ 255 :: Bytes.ofString "\nac\n", none⟩
  let fault : ReadFailure := .line 2 .notText
  let query := Query.parse (Bytes.ofString "a")
  have opened : tree.openInput "in" = .ok input := by rfl
  have readTwo : read ["--export=out", "--query=a", "--limit=2", "in"] = .ok (.search two) := by
    decide +kernel
  have readAsking : read ["--export=out", "--limit=1", "in"] = .ok (.search asking) := by
    decide +kernel
  have readOne : read ["--export=out", "--query=a", "--limit=1", "in"] = .ok (.search one) := by
    decide +kernel
  have unread : Failure.report (.unread fault) = failed.scene.errors := by
    decide +kernel
  have openedTwo : two.openInput tree terminal = .ok input := by rfl
  have stoppedTwo : two.settings.select query two.comparison input = .error fault := by
    decide +kernel
  have failsTwo : two.InputFails tree terminal (.unread fault) :=
    .unscanned rfl openedTwo stoppedTwo
  have stoppedAsking : asking.settings.readAll input = .error fault := by decide +kernel
  have failsAsking : asking.InputFails tree terminal (.unread fault) :=
    .unloaded rfl rfl opened stoppedAsking
  obtain ⟨_, endedTwo, wholeTwo, -⟩ := run_of_inputFails readTwo tree terminal
  obtain ⟨_, endedAsking, wholeAsking, -⟩ := run_of_inputFails readAsking tree terminal
  obtain ⟨ending, endedOne, -, -, early⟩ := run_of_inputFails readOne tree terminal
  obtain ⟨scanned, -, same⟩ := (early "a" input rfl rfl).2 (by decide) (by decide +kernel)
  have taken : ((one.settings.feed input).entries.filter
      (Entry.satisfies one.settings query one.comparison)).take one.settings.limit =
        [⟨1, ["ab"]⟩] := by
    decide +kernel
  have saved : tree.save "out" (Bytes.ofString "ab\n") =
      .ok { tree with
        files := [(["home", "in"], input.data), (["home", "out"], Bytes.ofString "ab\n")] } := by
    rfl
  have given : one.exportPath = some "out" := rfl
  dsimp only at same
  have exported : one.exported tree [⟨1, ["ab"]⟩] = _ := one.exported_of_ok given saved
  rw [taken, exported] at same
  subst same
  refine ⟨?_, ?_, _, endedOne, rfl, rfl⟩
  · rw [endedTwo, wholeTwo _ failsTwo, unread]
  · rw [endedAsking, wholeAsking _ failsAsking, unread]

end CommandLine
end NameSearch
