import NameSearch.Proofs.Bytes.Lines
import NameSearch.Proofs.Prompting

/-!
# Prompts one after the other

Prompts that follow one another take the lines of an input in order, one line each, whatever each of
them makes of its line.  Behind the last line they find that the input ends or cannot be read on.
-/

namespace NameSearch

namespace Input

/-- The lines of an input as prompts take them, each with the line feed that ends it.  Bytes behind
the last line feed are a line where the input ends there and there are any. -/
def typedLines (input : Input) : List Bytes :=
  let (ended, rest) := Bytes.lines input.data
  ended.map (· ++ [Byte.lineFeed]) ++
    if input.failure.isSome || rest.isEmpty then [] else [rest]

section Lines

variable {line : Bytes} (unbroken : Byte.lineFeed ∉ line)

include unbroken

theorem typedLines_of_line (later : Bytes) (failure : Option String) :
    typedLines ⟨line ++ Byte.lineFeed :: later, failure⟩ =
      (line ++ [Byte.lineFeed]) :: typedLines ⟨later, failure⟩ := by
  simp only [typedLines, Bytes.lines_of_line unbroken, List.map_cons, List.cons_append]

theorem typedLines_of_unbroken (failure : Option String) :
    typedLines ⟨line, failure⟩ = if failure.isSome || line.isEmpty then [] else [line] := by
  simp only [typedLines, Bytes.lines_of_unbroken unbroken, List.map_nil, List.nil_append]

end Lines

end Input

namespace Prompt

deriving instance DecidableEq for Exchange

/-! ## The answer to a line -/

/-- What is answered to a line. -/
structure IsReplyTo (line : Bytes) (answer : Except LineFault (Option String)) : Prop where
  /-- A line that is no text is an error. -/
  fault_iff : ∀ fault, answer = .error fault ↔ fault = .notText ∧ ¬line.IsText
  /-- A blank line is no answer. -/
  none_iff : answer = .ok none ↔
    ∃ text, Bytes.ofString text = line ∧ Text.isBlank text = true
  /-- Any other line is the answer itself without the carriage returns and line feeds at its end. -/
  some_iff : ∀ reply, answer = .ok (some reply) ↔
    Text.isBlank reply = false ∧ Text.IsTrimmed reply ∧
      ∃ ends : String, ends.toList.all Text.isLineEnd = true ∧
        Bytes.ofString (reply ++ ends) = line

theorem isReplyTo_of_not_isText {line : Bytes} (noText : ¬line.IsText) :
    IsReplyTo line (.error .notText) where
  fault_iff fault := by
    rw [Except.error.injEq]
    exact ⟨fun same => ⟨same.symm, noText⟩, fun ⟨same, _⟩ => same.symm⟩
  none_iff := by
    refine ⟨nofun, ?_⟩
    rintro ⟨text, encoded, -⟩
    exact absurd ⟨text, encoded⟩ noText
  some_iff reply := by
    refine ⟨nofun, ?_⟩
    rintro ⟨-, -, ends, -, encoded⟩
    exact absurd ⟨reply ++ ends, encoded⟩ noText

theorem isReplyTo_ofString (text : String) :
    IsReplyTo (Bytes.ofString text)
      (.ok (if Text.isBlank text then none else some (Text.dropLineEnds text))) where
  fault_iff fault := by
    refine ⟨nofun, ?_⟩
    rintro ⟨-, noText⟩
    exact absurd ⟨text, rfl⟩ noText
  none_iff := by
    rw [Except.ok.injEq]
    constructor
    · intro nothing
      refine ⟨text, rfl, ?_⟩
      by_contra filled
      rw [if_neg filled] at nothing
      cases nothing
    · rintro ⟨other, encoded, blank⟩
      rw [← Bytes.ofString_injective encoded, if_pos blank]
  some_iff reply := by
    rw [Except.ok.injEq]
    constructor
    · intro answered
      split at answered
      · cases answered
      · next filled =>
          obtain rfl := Option.some.inj answered
          obtain ⟨ends, ended, whole⟩ := Text.exists_dropLineEnds_append text
          refine ⟨?_, Text.isTrimmed_dropLineEnds text, ends, ended, by rw [whole]⟩
          rw [Text.isBlank_dropLineEnds, Bool.eq_false_iff.mpr filled]
    · rintro ⟨filled, trimmed, ends, ended, encoded⟩
      obtain rfl := Bytes.ofString_injective encoded
      have dropped : Text.dropLineEnds (reply ++ ends) = reply :=
        Text.dropLineEnds_eq_iff.mpr ⟨trimmed, ends, ended, rfl⟩
      rw [← Text.isBlank_dropLineEnds, dropped, filled, if_neg Bool.false_ne_true]

theorem isReplyTo_reply (line : Bytes) : IsReplyTo line (reply line) := by
  by_cases isText : line.IsText
  · obtain ⟨text, rfl⟩ := isText
    rw [reply_ofString, Text.isBlank_dropLineEnds]
    exact isReplyTo_ofString text
  · rw [reply, Bytes.text?_eq_none_iff.mpr isText]
    exact isReplyTo_of_not_isText isText

/-! ## One prompt -/

/-- What is answered behind the last line: nothing at the end of the input, and why it cannot be
read on where it goes on. -/
def answerAtEnd (input : Input) : Except LineFault (Option String) :=
  match input.failure with
  | none => .ok none
  | some reason => .error (.unreadable reason)

/-- What a prompt takes from an input, by its answer and by what it leaves: the first line, or where
there is no line all that is left. -/
inductive Takes (input : Input) : Except LineFault (Option String) → Input → Prop
  /-- The first line is taken, and those behind it are left. -/
  | line {first later : Bytes} {answer : Except LineFault (Option String)}
      (data : input.data = first ++ later)
      (cut : input.typedLines = first :: Input.typedLines ⟨later, input.failure⟩)
      (answered : IsReplyTo first answer) : Takes input answer ⟨later, input.failure⟩
  /-- There is no line, and nothing is left. -/
  | atEnd (noLine : input.typedLines = []) : Takes input (answerAtEnd input) ⟨[], input.failure⟩

theorem takes_ask (message : String) (input : Input) :
    Takes input (ask message input).answer (ask message input).rest := by
  obtain ⟨data, failure⟩ := input
  by_cases broken : Byte.lineFeed ∈ data
  · obtain ⟨line, later, rfl, unbroken⟩ := List.eq_append_cons_of_mem broken
    rw [ask_of_line message unbroken]
    exact .line (List.append_cons line Byte.lineFeed later)
      (Input.typedLines_of_line unbroken later failure) (isReplyTo_reply _)
  · have lines := Input.typedLines_of_unbroken broken failure
    cases failure with
    | some reason =>
        rw [ask_of_unreadable message broken]
        exact .atEnd lines
    | none =>
        rw [ask_of_last message broken]
        cases data with
        | nil => exact .atEnd lines
        | cons byte later => exact .line (List.append_nil _).symm lines (isReplyTo_reply _)

/-! ## Many prompts -/

/-- Prompts one after the other: each reads on where the one before it stopped. -/
def askEach : List String → Input → List Exchange
  | [], _ => []
  | message :: later, input =>
    let exchange := ask message input
    exchange :: askEach later exchange.rest

theorem map_shown_askEach (messages : List String) (input : Input) :
    (askEach messages input).map Exchange.shown = messages := by
  induction messages generalizing input with
  | nil => rfl
  | cons message later induction => rw [askEach, List.map_cons, shown_ask, induction]

/-- A prompt that `index` prompts stand in front of takes the line that `index` lines stand in front
of, and leaves what stands behind it.  Where there are no more lines, it leaves nothing. -/
structure TakesLine (input : Input) (index : Nat) (exchange : Exchange) : Prop where
  /-- What is left ends as the input does. -/
  failure : exchange.rest.failure = input.failure
  /-- The line is answered. -/
  reply : ∀ line, input.typedLines[index]? = some line → IsReplyTo line exchange.answer
  /-- The lines up to this one have been taken, and nothing more. -/
  data : index < input.typedLines.length →
    (input.typedLines.take (index + 1)).flatten ++ exchange.rest.data = input.data
  /-- Behind the last line there is nothing to answer, and nothing is left. -/
  atEnd : input.typedLines.length ≤ index →
    exchange.answer = answerAtEnd input ∧ exchange.rest.data = []

theorem Takes.takesLine_zero {input : Input} {exchange : Exchange}
    (takes : Takes input exchange.answer exchange.rest) : TakesLine input 0 exchange := by
  obtain ⟨shown, answer, rest⟩ := exchange
  cases takes with
  | line data cut answered =>
      refine ⟨rfl, fun line isFirst => ?_, fun _ => ?_, fun none => ?_⟩
      · rw [cut, List.getElem?_cons_zero, Option.some.injEq] at isFirst
        exact isFirst ▸ answered
      · rw [cut, data, List.take_succ_cons, List.take_zero, List.flatten_singleton]
      · rw [cut] at none
        exact absurd none (Nat.not_succ_le_zero _)
  | atEnd noLine =>
      refine ⟨rfl, fun line isFirst => ?_, fun some => ?_, fun _ => ⟨rfl, rfl⟩⟩
      · rw [noLine] at isFirst
        cases isFirst
      · rw [noLine] at some
        exact absurd some (Nat.not_lt_zero 0)

theorem Takes.takesLine_succ {input rest : Input} {answer : Except LineFault (Option String)}
    (takes : Takes input answer rest) {index : Nat} {exchange : Exchange}
    (later : TakesLine rest index exchange) : TakesLine input (index + 1) exchange := by
  cases takes with
  | line data cut answered =>
      refine ⟨later.failure, fun line isLine => ?_, fun inside => ?_, fun behind => ?_⟩
      · rw [cut, List.getElem?_cons_succ] at isLine
        exact later.reply line isLine
      · rw [cut, List.length_cons] at inside
        rw [cut, data, List.take_succ_cons, List.flatten_cons, List.append_assoc,
          later.data (Nat.lt_of_succ_lt_succ inside)]
      · rw [cut, List.length_cons] at behind
        exact later.atEnd (Nat.le_of_succ_le_succ behind)
  | atEnd noLine =>
      have noneLeft : Input.typedLines ⟨[], input.failure⟩ = [] :=
        (Input.typedLines_of_unbroken List.not_mem_nil input.failure).trans (by simp)
      refine ⟨later.failure, fun line isLine => ?_, fun inside => ?_, fun _ => ?_⟩
      · rw [noLine] at isLine
        cases isLine
      · rw [noLine] at inside
        exact absurd inside (Nat.not_lt_zero _)
      · exact later.atEnd (by rw [noneLeft]; exact Nat.zero_le index)

/-- Every prompt shows its message, and the prompts take the lines of the input one by one, so that
no line is lost and none is taken twice.  Whatever a prompt makes of its line, the next one reads on
behind it; and behind the last line every prompt is told that the input ends or why it cannot be
read on. -/
theorem askEach_takes_lines (messages : List String) (input : Input) :
    (askEach messages input).map Exchange.shown = messages ∧
      ∀ index exchange, (askEach messages input)[index]? = some exchange →
        TakesLine input index exchange := by
  refine ⟨map_shown_askEach messages input, ?_⟩
  induction messages generalizing input with
  | nil =>
      intro index exchange asked
      cases asked
  | cons message later induction =>
      intro index exchange asked
      have takes := takes_ask message input
      cases index with
      | zero =>
          obtain rfl := Option.some.inj asked
          exact takes.takesLine_zero
      | succ index => exact takes.takesLine_succ (induction _ index exchange asked)

/-- A line that a blank one and one that is no text follow, and a last one that no line feed ends;
and an input that breaks off behind its first line. -/
theorem askEach_takes_lines_mixed :
    let messages := ["> ", "> ", "? ", "", "> "]
    let input : Input := ⟨Bytes.ofString "q \r\r\n \n" ++ [255, 10] ++ Bytes.ofString "é", none⟩
    let garbled : Exchange := ⟨"? ", .error .notText, ⟨Bytes.ofString "é", none⟩⟩
    let last : Exchange := ⟨"", .ok (some "é"), ⟨[], none⟩⟩
    let broken : Input := ⟨Bytes.ofString "a\nb", some "gone"⟩
    let lost : Exchange := ⟨"> ", .error (.unreadable "gone"), ⟨[], some "gone"⟩⟩
    (askEach messages input).map Exchange.answer =
        [.ok (some "q "), .ok none, .error .notText, .ok (some "é"), .ok none] ∧
      ((askEach messages input)[2]? = some garbled ∧ TakesLine input 2 garbled) ∧
      ((askEach messages input)[3]? = some last ∧ TakesLine input 3 last) ∧
      (askEach messages broken)[1]? = some lost ∧ TakesLine broken 1 lost := by
  intro messages input garbled last broken lost
  have third : (askEach messages input)[2]? = some garbled := by decide +kernel
  have fourth : (askEach messages input)[3]? = some last := by decide +kernel
  have second : (askEach messages broken)[1]? = some lost := by decide +kernel
  have takes := (askEach_takes_lines messages input).2
  have answers : (askEach messages input).map Exchange.answer =
      [.ok (some "q "), .ok none, .error .notText, .ok (some "é"), .ok none] := by decide +kernel
  refine ⟨answers, ⟨third, takes 2 garbled third⟩, ⟨fourth, takes 3 last fourth⟩, second, ?_⟩
  exact (askEach_takes_lines messages broken).2 1 lost second

end Prompt
end NameSearch
