import Mathlib.Data.List.Forall2
import NameSearch.Proofs.Bytes.Stopping
import NameSearch.Proofs.Search.Loosening
import NameSearch.Proofs.Search.Separator

/-!
# Passing over fillers

The loose comparison takes one way of passing over fillers, from left to right.  No other way gets
further: a text is found wherever the bytes that are no fillers are accepted in order, and what it
covers ends with a byte that the text itself meets.
-/

namespace NameSearch
namespace Comparison

/-- The bytes of a text that are no fillers. -/
def letters (text : Bytes) : Bytes := text.filter (!isFiller ·)

/-- As many bytes as the text has, each accepted at its place. -/
abbrev Accepts : Bytes → Bytes → Prop :=
  List.Forall₂ fun sought byte => accepts sought byte = true

/-- Some way of passing over fillers on both sides brings a text and some bytes together. -/
inductive Meets : Bytes → Bytes → Prop where
  | nil : Meets [] []
  /-- A byte of the text accepts the byte it meets. -/
  | hit {sought byte : UInt8} {text bytes : Bytes} (accepted : accepts sought byte = true)
      (later : Meets text bytes) : Meets (sought :: text) (byte :: bytes)
  /-- A filler of the text is left out. -/
  | leave {sought : UInt8} {text bytes : Bytes} (filler : isFiller sought = true)
      (later : Meets text bytes) : Meets (sought :: text) bytes
  /-- A filler among the bytes is passed over. -/
  | pass {byte : UInt8} {text bytes : Bytes} (filler : isFiller byte = true)
      (later : Meets text bytes) : Meets text (byte :: bytes)

/-- The last of some bytes is met by a byte of the text itself, and behind that byte the text has
only fillers left. -/
def EndsInHit (text bytes : Bytes) : Prop :=
  ∃ front sought rest before byte, text = front ++ sought :: rest ∧ bytes = before ++ [byte] ∧
    Meets front before ∧ accepts sought byte = true ∧ ∀ filler ∈ rest, isFiller filler = true

/-! ## Letters -/

@[simp]
theorem letters_nil : letters [] = [] := rfl

@[simp]
theorem letters_cons_of_filler {byte : UInt8} (filler : isFiller byte = true) (text : Bytes) :
    letters (byte :: text) = letters text := by
  simp [letters, filler]

@[simp]
theorem letters_cons_of_letter {byte : UInt8} (letter : isFiller byte = false) (text : Bytes) :
    letters (byte :: text) = byte :: letters text := by
  simp [letters, letter]

theorem letters_of_fillers {text : Bytes} (fillers : ∀ byte ∈ text, isFiller byte = true) :
    letters text = [] := by
  simpa [letters] using fillers

@[simp]
theorem letters_append (front back : Bytes) :
    letters (front ++ back) = letters front ++ letters back :=
  List.filter_append ..

@[simp]
theorem letters_dropWhile (text : Bytes) : letters (text.dropWhile isFiller) = letters text := by
  have parts := List.takeWhile_append_dropWhile (p := isFiller) (l := text)
  have fillers : letters (text.takeWhile isFiller) = [] :=
    letters_of_fillers fun _ taken => of_mem_takeWhile taken
  conv_rhs => rw [← parts, letters_append, fillers, List.nil_append]

theorem isFiller_eq_of_accepts {sought byte : UInt8} (accepted : accepts sought byte = true) :
    isFiller byte = isFiller sought := by
  cases filler : isFiller sought with
  | false => exact isFiller_of_accepts accepted filler
  | true =>
      have noLower : Byte.isLower sought = false := by
        simp only [isFiller, Bool.or_eq_true, beq_iff_eq] at filler
        rcases filler with (((rfl | rfl) | rfl) | rfl) | rfl <;> rfl
      have same : sought = byte := by simpa [accepts, noLower] using accepted
      rw [← same, filler]

/-! ## Ways of passing over fillers -/

/-- Whatever way is taken, the letters of the text are accepted in order. -/
theorem Meets.letters {text bytes : Bytes} (meets : Meets text bytes) :
    Accepts (letters text) (letters bytes) := by
  induction meets with
  | nil => exact .nil
  | @hit sought byte _ _ accepted _ induction =>
      have alike := isFiller_eq_of_accepts accepted
      cases filler : isFiller sought with
      | true =>
          rw [filler] at alike
          simpa [filler, alike] using induction
      | false =>
          rw [filler] at alike
          rw [letters_cons_of_letter filler, letters_cons_of_letter alike]
          exact .cons accepted induction
  | leave filler _ induction => simpa [filler] using induction
  | pass filler _ induction => simpa [filler] using induction

theorem Meets.passAll {fillers : Bytes} (filler : ∀ byte ∈ fillers, isFiller byte = true)
    {text bytes : Bytes} (later : Meets text bytes) : Meets text (fillers ++ bytes) := by
  induction fillers with
  | nil => exact later
  | cons byte fillers induction =>
      exact .pass (filler byte List.mem_cons_self)
        (induction fun other member => filler other (List.mem_cons_of_mem byte member))

theorem meets_nil_of_fillers {text : Bytes} (fillers : ∀ byte ∈ text, isFiller byte = true) :
    Meets text [] := by
  induction text with
  | nil => exact .nil
  | cons byte text induction =>
      exact .leave (fillers byte List.mem_cons_self)
        (induction fun other member => fillers other (List.mem_cons_of_mem byte member))

theorem Meets.append {front back before behind : Bytes} (first : Meets front before)
    (second : Meets back behind) : Meets (front ++ back) (before ++ behind) := by
  induction first with
  | nil => exact second
  | hit accepted _ induction => exact .hit accepted induction
  | leave filler _ induction => exact .leave filler induction
  | pass filler _ induction => exact .pass filler induction

theorem EndsInHit.meets {text bytes : Bytes} (ends : EndsInHit text bytes) : Meets text bytes := by
  obtain ⟨front, sought, rest, before, byte, rfl, rfl, first, accepted, fillers⟩ := ends
  exact first.append (.hit accepted (meets_nil_of_fillers fillers))

/-! ## The way that is taken -/

/-- No byte is passed over behind the last one that is met: there are no bytes, and the text has
only fillers, or they end in a hit. -/
def StopsAtHit (text bytes : Bytes) : Prop :=
  (bytes = [] ∧ ∀ byte ∈ text, isFiller byte = true) ∨ EndsInHit text bytes

namespace StopsAtHit

variable {sought byte : UInt8} {text bytes : Bytes}

theorem meets (stops : StopsAtHit text bytes) : Meets text bytes := by
  rcases stops with ⟨rfl, fillers⟩ | ends
  · exact meets_nil_of_fillers fillers
  · exact ends.meets

theorem hit (accepted : accepts sought byte = true) (stops : StopsAtHit text bytes) :
    EndsInHit (sought :: text) (byte :: bytes) := by
  rcases stops with ⟨rfl, fillers⟩ | ⟨front, final, rest, before, last, rfl, rfl, first, met, left⟩
  · exact ⟨[], sought, text, [], byte, rfl, rfl, .nil, accepted, fillers⟩
  · exact ⟨sought :: front, final, rest, byte :: before, last, rfl, rfl, .hit accepted first, met,
      left⟩

theorem leave (filler : isFiller sought = true) (stops : StopsAtHit text bytes) :
    StopsAtHit (sought :: text) bytes := by
  rcases stops with ⟨rfl, fillers⟩ | ⟨front, final, rest, before, last, rfl, rfl, first, met, left⟩
  · exact .inl ⟨rfl, List.forall_mem_cons.mpr ⟨filler, fillers⟩⟩
  · exact .inr ⟨sought :: front, final, rest, before, last, rfl, rfl, .leave filler first, met,
      left⟩

end StopsAtHit

theorem take_skipped {candidate later : Bytes} {byte : UInt8}
    (dropped : candidate.dropWhile isFiller = byte :: later) (rest : Nat) :
    candidate.take (rest + ((candidate.takeWhile isFiller).length + 1)) =
      candidate.takeWhile isFiller ++ byte :: later.take rest := by
  have whole := List.takeWhile_append_dropWhile (p := isFiller) (l := candidate)
  generalize candidate.takeWhile isFiller = fillers at *
  rw [← whole, dropped, Nat.add_left_comm, List.take_length_add_append, List.take_succ_cons]

theorem EndsInHit.passAll {fillers : Bytes} (filler : ∀ byte ∈ fillers, isFiller byte = true)
    {text bytes : Bytes} (ends : EndsInHit text bytes) : EndsInHit text (fillers ++ bytes) := by
  obtain ⟨front, final, rest, before, last, rfl, rfl, first, met, left⟩ := ends
  exact ⟨front, final, rest, fillers ++ before, last, rfl, (List.append_assoc ..).symm,
    first.passAll filler, met, left⟩

theorem stopsAtHit_of_looseRest {text candidate : Bytes} {covered : Nat}
    (found : looseRest text candidate = some covered) :
    StopsAtHit text (candidate.take covered) := by
  induction text generalizing candidate covered with
  | nil =>
      obtain rfl := Option.some.inj found
      exact .inl ⟨rfl, fun _ member => nomatch member⟩
  | cons sought text induction =>
      cases filler : isFiller sought with
      | true =>
          cases candidate with
          | nil =>
              simp only [looseRest, filler, if_true] at found
              exact (induction found).leave filler
          | cons byte later =>
              simp only [looseRest, filler, if_true] at found
              split at found
              · next accepted =>
                  obtain ⟨rest, rested, rfl⟩ := Option.map_eq_some_iff.mp found
                  exact .inr ((induction rested).hit accepted)
              · exact (induction found).leave filler
      | false =>
          simp only [looseRest, filler, Bool.false_eq_true, if_false] at found
          split at found
          · cases found
          · next byte later dropped =>
              split at found
              · next accepted =>
                  obtain ⟨rest, rested, rfl⟩ := Option.map_eq_some_iff.mp found
                  rw [take_skipped dropped]
                  exact .inr (((induction rested).hit accepted).passAll
                    fun _ taken => of_mem_takeWhile taken)
              · cases found

/-- The rest of a text is found wherever its letters are accepted by the next ones. -/
theorem exists_looseRest {text candidate initial : Bytes}
    (accepted : Accepts (letters text) initial) (first : initial <+: letters candidate) :
    ∃ covered, looseRest text candidate = some covered := by
  induction text generalizing candidate initial with
  | nil => exact ⟨0, rfl⟩
  | cons sought text induction =>
      cases filler : isFiller sought with
      | true =>
          rw [letters_cons_of_filler filler] at accepted
          cases candidate with
          | nil => simpa only [looseRest, filler, if_true] using induction accepted first
          | cons byte later =>
              cases hit : accepts sought byte with
              | true =>
                  rw [letters_cons_of_filler ((isFiller_eq_of_accepts hit).trans filler)] at first
                  obtain ⟨covered, found⟩ := induction accepted first
                  exact ⟨covered + 1, by simp [looseRest, filler, hit, found]⟩
              | false =>
                  obtain ⟨covered, found⟩ := induction accepted first
                  exact ⟨covered, by simp [looseRest, filler, hit, found]⟩
      | false =>
          rw [letters_cons_of_letter filler] at accepted
          obtain ⟨byte, initial, hit, following, rfl⟩ := List.forall₂_cons_left_iff.mp accepted
          rw [← letters_dropWhile] at first
          cases dropped : candidate.dropWhile isFiller with
          | nil => simp [dropped] at first
          | cons next later =>
              have letter : isFiller next = false := by
                have stopped := List.head?_dropWhile_not isFiller candidate
                simpa [dropped] using stopped
              rw [dropped, letters_cons_of_letter letter, List.cons_prefix_cons] at first
              obtain ⟨rfl, inside⟩ := first
              obtain ⟨covered, found⟩ := induction following inside
              refine ⟨covered + ((candidate.takeWhile isFiller).length + 1), ?_⟩
              simp [looseRest, filler, dropped, hit, found]

/-! ## The loose comparison -/

theorem drop_eq_cons_iff {candidate following : Bytes} {offset : Nat} {byte : UInt8} :
    candidate.drop offset = byte :: following ↔
      candidate[offset]? = some byte ∧ candidate.drop (offset + 1) = following := by
  rcases Nat.lt_or_ge offset candidate.length with inside | outside
  · rw [List.drop_eq_getElem_cons inside, List.cons_eq_cons, List.getElem?_eq_getElem inside,
      Option.some.injEq]
  · simp [List.drop_of_length_le outside, List.getElem?_eq_none outside]

/-- A text is found with its first byte at the offset and the rest of it behind that. -/
theorem loose_eq_succ_iff {candidate text : Bytes} {offset rest : Nat} :
    loose candidate offset text = rest + 1 ↔
      ∃ sought later byte, text = sought :: later ∧ candidate[offset]? = some byte ∧
        accepts sought byte = true ∧
        looseRest later (candidate.drop (offset + 1)) = some rest := by
  simp only [loose]
  constructor
  · intro found
    split at found
    · next sought later byte following cut =>
        obtain ⟨here, rfl⟩ := drop_eq_cons_iff.mp cut
        split at found
        · next accepted =>
            refine ⟨sought, later, byte, rfl, here, accepted, ?_⟩
            cases rested : looseRest later (candidate.drop (offset + 1)) with
            | none => simp [rested] at found
            | some covered => simpa [rested] using found
        · cases found
    · cases found
  · rintro ⟨sought, later, byte, rfl, here, accepted, rested⟩
    have cut := drop_eq_cons_iff.mpr ⟨here, rfl⟩
    simp [cut, accepted, rested]

/-- The loose comparison finds a text exactly where its first byte is accepted and its other letters
are accepted in order by the next ones, so wherever some way of passing over fillers leads to it.
What it covers lies in the candidate, holds as many letters as the text, and ends with a byte that
the text itself meets. -/
theorem loose_finds (candidate : Bytes) (offset : Nat) (text : Bytes) :
    (loose candidate offset text ≠ 0 ↔
      ∃ sought later byte initial, text = sought :: later ∧ candidate[offset]? = some byte ∧
        accepts sought byte = true ∧ initial <+: letters (candidate.drop (offset + 1)) ∧
        Accepts (letters later) initial) ∧
    (∀ sought later byte span, text = sought :: later → candidate[offset]? = some byte →
      accepts sought byte = true → span <+: candidate.drop (offset + 1) → Meets later span →
      loose candidate offset text ≠ 0) ∧
    (loose candidate offset text ≠ 0 →
      let stop := offset + loose candidate offset text
      stop ≤ candidate.length ∧
        Accepts (letters text.tail) (letters (candidate.extract (offset + 1) stop)) ∧
        EndsInHit text (candidate.extract offset stop)) := by
  have complete : ∀ sought later byte initial, text = sought :: later →
      candidate[offset]? = some byte → accepts sought byte = true →
      initial <+: letters (candidate.drop (offset + 1)) → Accepts (letters later) initial →
      loose candidate offset text ≠ 0 := by
    intro sought later byte initial whole here accepted first following
    obtain ⟨rest, rested⟩ := exists_looseRest following first
    rw [loose_eq_succ_iff.mpr ⟨sought, later, byte, whole, here, accepted, rested⟩]
    exact Nat.succ_ne_zero rest
  refine ⟨⟨fun found => ?_, ?_⟩, ?_, fun found => ?_⟩
  · obtain ⟨rest, covered⟩ := Nat.exists_eq_succ_of_ne_zero found
    obtain ⟨sought, later, byte, whole, here, accepted, rested⟩ := loose_eq_succ_iff.mp covered
    have meets := (stopsAtHit_of_looseRest rested).meets
    refine ⟨sought, later, byte, _, whole, here, accepted, ?_, meets.letters⟩
    exact (List.take_prefix rest _).filter _
  · rintro ⟨sought, later, byte, initial, whole, here, accepted, first, following⟩
    exact complete sought later byte initial whole here accepted first following
  · intro sought later byte span whole here accepted first meets
    exact complete sought later byte _ whole here accepted (first.filter _) meets.letters
  · obtain ⟨rest, covered⟩ := Nat.exists_eq_succ_of_ne_zero found
    obtain ⟨sought, later, byte, rfl, here, accepted, rested⟩ := loose_eq_succ_iff.mp covered
    have stops := stopsAtHit_of_looseRest rested
    have bound := looseRest_le rested
    have inside : offset < candidate.length := (List.getElem?_eq_some_iff.mp here).1
    have cut := drop_eq_cons_iff.mpr ⟨here, rfl⟩
    rw [List.length_drop] at bound
    intro stop
    have reaches : stop = offset + (rest + 1) := congrArg (offset + ·) covered
    rw [reaches]
    refine ⟨by omega, ?_, ?_⟩
    · rw [List.tail_cons, List.extract_eq_take_drop, Nat.add_comm rest, ← Nat.add_assoc,
        Nat.add_sub_cancel_left]
      exact stops.meets.letters
    · rw [List.extract_eq_take_drop, Nat.add_sub_cancel_left, cut, List.take_succ_cons]
      exact stops.hit accepted

/-- `e.q_-8.` is found in `x E-Q 8-` from the `E` on, by a way that would go on to the last hyphen;
the way that is taken stops at the `8`. -/
theorem loose_finds_between_fillers :
    let candidate := Bytes.ofString "x E-Q 8-"
    let text := Bytes.ofString "e.q_-8."
    Meets (Bytes.ofString ".q_-8.") (Bytes.ofString "-Q 8-") ∧ loose candidate 2 text = 5 ∧
      EndsInHit text (Bytes.ofString "E-Q 8") := by
  intro candidate text
  have meets : Meets (Bytes.ofString ".q_-8.") (Bytes.ofString "-Q 8-") :=
    .leave rfl (.pass rfl (.hit rfl (.leave rfl (.leave rfl (.pass rfl (.hit rfl (.leave rfl
      (.pass rfl .nil))))))))
  obtain ⟨-, complete, tight⟩ := loose_finds candidate 2 text
  have found : loose candidate 2 text ≠ 0 :=
    complete _ _ _ _ rfl rfl rfl (by decide) meets
  exact ⟨meets, by decide, (tight found).2.2⟩

end Comparison
end NameSearch
