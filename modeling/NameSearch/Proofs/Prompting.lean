import Mathlib.Data.List.DropRight
import NameSearch.Prompt
import NameSearch.Proofs.Bytes.Encoding

/-!
# Typed queries

Queries are typed one in a line, up to a blank line or the end of the input.  Each prompt takes the
next of them and leaves those behind it, and the prompt behind the last takes none.
-/

namespace NameSearch

/-! ## Line ends -/

namespace Text

/-- No carriage return and no line feed stands at the end of a text. -/
def IsTrimmed (text : String) : Prop :=
  ∀ last, text.toList.getLast? = some last → isLineEnd last = false

@[simp]
theorem toList_dropLineEnds (text : String) :
    (dropLineEnds text).toList = text.toList.rdropWhile isLineEnd :=
  String.toList_ofList

theorem dropLineEnds_append {ends : String} (ended : ends.toList.all isLineEnd = true)
    (text : String) : dropLineEnds (text ++ ends) = dropLineEnds text := by
  have passed : ∀ character ∈ ends.toList.reverse, isLineEnd character = true := by
    simpa using ended
  rw [dropLineEnds, String.toList_append, List.reverse_append,
    List.dropWhile_append_of_pos passed, ← dropLineEnds]

theorem dropLineEnds_eq_self {text : String} (trimmed : IsTrimmed text) :
    dropLineEnds text = text := by
  rw [← String.toList_inj, toList_dropLineEnds, List.rdropWhile_eq_self_iff]
  intro filled
  rw [trimmed _ (List.getLast?_eq_some_getLast filled)]
  exact Bool.false_ne_true

theorem isTrimmed_dropLineEnds (text : String) : IsTrimmed (dropLineEnds text) := by
  intro last isLast
  rw [toList_dropLineEnds] at isLast
  have filled : text.toList.rdropWhile isLineEnd ≠ [] := by
    intro nothing
    rw [nothing] at isLast
    cases isLast
  rw [List.getLast?_eq_some_getLast filled, Option.some.injEq] at isLast
  rw [← isLast]
  exact Bool.eq_false_iff.mpr (List.rdropWhile_last_not _ _ filled)

theorem exists_dropLineEnds_append (text : String) :
    ∃ ends : String, ends.toList.all isLineEnd = true ∧ dropLineEnds text ++ ends = text := by
  refine ⟨String.ofList (text.toList.rtakeWhile isLineEnd), ?_, ?_⟩
  · rw [String.toList_ofList, List.all_eq_true]
    exact fun character member => List.mem_rtakeWhile_imp member
  · rw [← String.toList_inj, String.toList_append, toList_dropLineEnds, String.toList_ofList,
      List.rdropWhile_append_rtakeWhile]

/-- A text is what is left of another just when only line ends are missing, and all of them. -/
theorem dropLineEnds_eq_iff {whole text : String} :
    dropLineEnds whole = text ↔
      IsTrimmed text ∧ ∃ ends : String, ends.toList.all isLineEnd = true ∧ text ++ ends = whole := by
  constructor
  · rintro rfl
    exact ⟨isTrimmed_dropLineEnds whole, exists_dropLineEnds_append whole⟩
  · rintro ⟨trimmed, ends, ended, rfl⟩
    rw [dropLineEnds_append ended, dropLineEnds_eq_self trimmed]

theorem isSpace_of_isLineEnd {character : Char} (ends : isLineEnd character = true) :
    isSpace character = true := by
  simp only [isLineEnd, Bool.or_eq_true, beq_iff_eq] at ends
  rcases ends with rfl | rfl <;> rfl

theorem isBlank_dropLineEnds (text : String) : isBlank (dropLineEnds text) = isBlank text := by
  obtain ⟨ends, ended, whole⟩ := exists_dropLineEnds_append text
  have blank : ends.toList.all isSpace = true := by
    rw [List.all_eq_true] at ended ⊢
    exact fun character member => isSpace_of_isLineEnd (ended character member)
  conv => rhs; rw [← whole]
  rw [isBlank, isBlank, String.toList_append, List.all_append, blank, Bool.and_true]

end Text

/-! ## Single prompts -/

section Lines

variable {line : Bytes} (unbroken : Byte.lineFeed ∉ line)

include unbroken

theorem Bytes.ne_lineFeed_of_mem (byte : UInt8) (member : byte ∈ line) :
    (byte != Byte.lineFeed) = true := by
  rw [bne_iff_ne]
  rintro rfl
  exact unbroken member

theorem Input.takeLine_of_line (later : Bytes) (failure : Option String) :
    takeLine ⟨line ++ Byte.lineFeed :: later, failure⟩ =
      (.ok (some (line ++ [Byte.lineFeed])), ⟨later, failure⟩) := by
  have inLine := Bytes.ne_lineFeed_of_mem unbroken
  have behind : (Byte.lineFeed :: later).takeWhile (· != Byte.lineFeed) = [] := rfl
  have left : (Byte.lineFeed :: later).dropWhile (· != Byte.lineFeed) = Byte.lineFeed :: later :=
    rfl
  simp only [takeLine, List.takeWhile_append_of_pos inLine, List.dropWhile_append_of_pos inLine,
    behind, left, List.append_nil]

theorem Input.takeLine_of_last :
    takeLine ⟨line, none⟩ = (.ok (if line.isEmpty then none else some line), ⟨[], none⟩) := by
  have inLine := Bytes.ne_lineFeed_of_mem unbroken
  simp only [takeLine, List.takeWhile_eq_self_iff.mpr inLine, List.dropWhile_eq_nil_iff.mpr inLine]

/-- Where the input cannot be read on, what stands in front of that is lost. -/
theorem Input.takeLine_of_unreadable (reason : String) :
    takeLine ⟨line, some reason⟩ = (.error (.unreadable reason), ⟨[], some reason⟩) := by
  have inLine := Bytes.ne_lineFeed_of_mem unbroken
  simp only [takeLine, List.dropWhile_eq_nil_iff.mpr inLine]

end Lines

namespace Prompt

/-- A text that is taken as the answer to a prompt. -/
structure IsAnswer (text : String) : Prop where
  filled : Text.isBlank text = false
  unbroken : '\n' ∉ text.toList
  unreturned : text.toList.getLast? ≠ some '\r'

theorem IsAnswer.dropLineEnds_eq {text : String} (isAnswer : IsAnswer text) :
    Text.dropLineEnds text = text := by
  apply Text.dropLineEnds_eq_self
  intro last isLast
  have noReturn : last ≠ '\r' := by
    rintro rfl
    exact isAnswer.unreturned isLast
  have noFeed : last ≠ '\n' := by
    rintro rfl
    exact isAnswer.unbroken (List.mem_of_getLast? isLast)
  rw [Text.isLineEnd, beq_false_of_ne noReturn, beq_false_of_ne noFeed, Bool.or_false]

theorem reply_ofString (text : String) :
    reply (Bytes.ofString text) =
      .ok (if Text.isBlank (Text.dropLineEnds text) then none
        else some (Text.dropLineEnds text)) := by
  rw [reply, Bytes.text?_ofString]

theorem reply_ofString_lineFeed (text : String) :
    reply (Bytes.ofString text ++ [Byte.lineFeed]) = reply (Bytes.ofString text) := by
  have ended : Bytes.ofString text ++ [Byte.lineFeed] = Bytes.ofString (text ++ "\n") :=
    (Bytes.ofString_append text "\n").symm
  rw [ended, reply_ofString, reply_ofString, Text.dropLineEnds_append rfl]

theorem reply_of_isBlank {text : String} (blank : Text.isBlank text = true) :
    reply (Bytes.ofString text) = .ok none := by
  rw [reply_ofString, if_pos ((Text.isBlank_dropLineEnds text).trans blank)]

theorem IsAnswer.reply_eq {text : String} (isAnswer : IsAnswer text) :
    reply (Bytes.ofString text) = .ok (some text) := by
  rw [reply_ofString, isAnswer.dropLineEnds_eq, isAnswer.filled, if_neg Bool.false_ne_true]

section Lines

variable (message : String) {line : Bytes} (unbroken : Byte.lineFeed ∉ line)

include unbroken

theorem ask_of_line (later : Bytes) (failure : Option String) :
    ask message ⟨line ++ Byte.lineFeed :: later, failure⟩ =
      ⟨message, reply (line ++ [Byte.lineFeed]), ⟨later, failure⟩⟩ := by
  rw [ask, Input.takeLine_of_line unbroken]

theorem ask_of_last : ask message ⟨line, none⟩ = ⟨message, reply line, ⟨[], none⟩⟩ := by
  rw [ask, Input.takeLine_of_last unbroken]
  cases line with
  | nil => rfl
  | cons byte later => rfl

theorem ask_of_unreadable (reason : String) :
    ask message ⟨line, some reason⟩ =
      ⟨message, .error (.unreadable reason), ⟨[], some reason⟩⟩ := by
  rw [ask, Input.takeLine_of_unreadable unbroken]

end Lines

@[simp]
theorem shown_ask (message : String) (input : Input) : (ask message input).shown = message := by
  rw [ask]
  split <;> rfl

/-! ## What is typed -/

/-- What can be read from a terminal where some queries are typed.  A blank line ends them, whatever
follows, and so does the end of the input, which may also come right behind the last of them. -/
inductive Typed : List String → Input → Prop
  /-- A blank line follows. -/
  | blank {text : String} (blank : Text.isBlank text = true) (unbroken : '\n' ∉ text.toList)
      (later : Bytes) (failure : Option String) :
      Typed [] ⟨Bytes.ofString text ++ Byte.lineFeed :: later, failure⟩
  /-- The input ends, perhaps behind some blanks. -/
  | ended {text : String} (blank : Text.isBlank text = true) (unbroken : '\n' ∉ text.toList) :
      Typed [] ⟨Bytes.ofString text, none⟩
  /-- A query stands in a line. -/
  | line {query : String} (isAnswer : IsAnswer query) {queries : List String} {later : Bytes}
      {failure : Option String} (typed : Typed queries ⟨later, failure⟩) :
      Typed (query :: queries) ⟨Bytes.ofString query ++ Byte.lineFeed :: later, failure⟩
  /-- The input ends behind a query. -/
  | last {query : String} (isAnswer : IsAnswer query) :
      Typed [query] ⟨Bytes.ofString query, none⟩

theorem answer_of_typed_nil (message : String) {input : Input} (typed : Typed [] input) :
    (ask message input).answer = .ok none := by
  cases typed with
  | blank blank unbroken later failure =>
      rw [ask_of_line message (mt Bytes.lineFeed_mem_ofString_iff.mp unbroken)]
      exact (reply_ofString_lineFeed _).trans (reply_of_isBlank blank)
  | ended blank unbroken =>
      rw [ask_of_last message (mt Bytes.lineFeed_mem_ofString_iff.mp unbroken)]
      exact reply_of_isBlank blank

theorem answer_of_typed_cons (message : String) {query : String} {queries : List String}
    {input : Input} (typed : Typed (query :: queries) input) :
    (ask message input).answer = .ok (some query) ∧ Typed queries (ask message input).rest := by
  cases typed with
  | line isAnswer rest =>
      rw [ask_of_line message (mt Bytes.lineFeed_mem_ofString_iff.mp isAnswer.unbroken)]
      exact ⟨(reply_ofString_lineFeed query).trans isAnswer.reply_eq, rest⟩
  | last isAnswer =>
      rw [ask_of_last message (mt Bytes.lineFeed_mem_ofString_iff.mp isAnswer.unbroken)]
      have nothing : Typed [] ⟨Bytes.ofString "", none⟩ := .ended rfl (by decide)
      exact ⟨isAnswer.reply_eq, nothing⟩

end Prompt
end NameSearch
