import NameSearch.Input
import NameSearch.Text

/-!
# Asking for a line

Each prompt shows its message and takes one line from the terminal.  A line that is no text is an
error but is taken like any other; a blank line and the end of the input both give nothing.
-/

namespace NameSearch

namespace Input

/-- Take the next line, with the line feed that ends it if there is one; nothing is left at the
end of the input. -/
def takeLine (input : Input) : Except LineFault (Option Bytes) × Input :=
  let line := input.data.takeWhile (· != Byte.lineFeed)
  match input.data.dropWhile (· != Byte.lineFeed), input.failure with
  | mark :: rest, _ => (.ok (some (line ++ [mark])), { input with data := rest })
  | [], some reason => (.error (.unreadable reason), { input with data := [] })
  | [], none => (.ok (if line.isEmpty then none else some line), { input with data := [] })

theorem length_takeLine_lt {input : Input} {line : Bytes}
    (taken : input.takeLine.1 = .ok (some line)) :
    input.takeLine.2.data.length < input.data.length := by
  unfold takeLine at *
  cases dropped : input.data.dropWhile (· != Byte.lineFeed) with
  | cons mark rest =>
    have kept : input.data.dropWhile (· != Byte.lineFeed) <:+ input.data :=
      List.dropWhile_suffix _
    have bound := kept.length_le
    rw [dropped, List.length_cons] at bound
    exact bound
  | nil =>
    cases failed : input.failure with
    | some reason => simp [dropped, failed] at taken
    | none =>
      cases data : input.data with
      | nil => simp [data, failed] at taken
      | cons byte later => simp

end Input

namespace Prompt

/-- What a line that was typed asks for: nothing if it is blank. -/
def reply (line : Bytes) : Except LineFault (Option String) :=
  match line.text? with
  | none => .error .notText
  | some text =>
    let text := Text.dropLineEnds text
    .ok (if Text.isBlank text then none else some text)

/-- One prompt: what was shown, what was answered and what is left to be read. -/
structure Exchange where
  /-- Text shown before reading. -/
  shown : String
  /-- The answer. -/
  answer : Except LineFault (Option String)
  /-- The rest of the input. -/
  rest : Input

/-- Show a message and take one line. -/
def ask (message : String) (input : Input) : Exchange :=
  match input.takeLine with
  | (.error fault, rest) => ⟨message, .error fault, rest⟩
  | (.ok none, rest) => ⟨message, .ok none, rest⟩
  | (.ok (some line), rest) => ⟨message, reply line, rest⟩

/-- A prompt that is answered has taken at least one byte. -/
theorem length_rest_lt {message text : String} {input : Input}
    (answered : (ask message input).answer = .ok (some text)) :
    (ask message input).rest.data.length < input.data.length := by
  rcases taken : input.takeLine with ⟨fault | (_ | line), rest⟩
  · simp [ask, taken] at answered
  · simp [ask, taken] at answered
  · have shorter := Input.length_takeLine_lt (show input.takeLine.1 = _ by rw [taken])
    simpa [ask, taken] using shorter

end Prompt
end NameSearch
