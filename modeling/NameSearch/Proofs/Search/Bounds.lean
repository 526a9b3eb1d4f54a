import NameSearch.Proofs.Search.Anchoring
import NameSearch.Proofs.Search.Surroundings

/-!
# Searching within bounds

A machine reads bytes by index, cuts texts between two indices and counts in words.  The search is
written out here with each of these steps able to fail.  For candidates that a machine can hold none
of them fails, whatever a given comparison answers, and the answer is the one of the search itself.
-/

namespace NameSearch

/-- A step that a machine cannot take. -/
inductive Fault where
  /-- A byte is read at or behind the end. -/
  | index
  /-- A text is cut at ends that are out of order or behind its end. -/
  | range
  /-- A difference is below zero. -/
  | underflow
  /-- A sum is more than a word holds. -/
  | overflow
  deriving DecidableEq

namespace Checked

/-! ## Steps of a machine -/

/-- Numbers below this limit fit into a word. -/
def wordLimit : Nat := UInt64.size

/-- The byte at an index. -/
def byteAt (bytes : Bytes) (index : Nat) : Except Fault UInt8 :=
  if inside : index < bytes.length then .ok bytes[index] else .error .index

/-- The bytes from one index up to another. -/
def cut (bytes : Bytes) (start stop : Nat) : Except Fault Bytes :=
  if start ≤ stop ∧ stop ≤ bytes.length then .ok (bytes.extract start stop) else .error .range

/-- A difference that may be below zero. -/
def minus? (whole part : Nat) : Option Nat := if part ≤ whole then some (whole - part) else none

/-- A sum that may not fit into a word. -/
def plus? (left right : Nat) : Option Nat :=
  if left + right < wordLimit then some (left + right) else none

/-- A difference that must not be below zero. -/
def minus (whole part : Nat) : Except Fault Nat :=
  (minus? whole part).elim (.error .underflow) .ok

/-- A sum that must fit into a word. -/
def plus (left right : Nat) : Except Fault Nat :=
  (plus? left right).elim (.error .overflow) .ok

/-! ## The search, step by step -/

/-- A text without the mark in front of it. -/
def behindMark (text : Bytes) : Except Fault Bytes :=
  if Pattern.leftAnchor text.head? = .free then return text else cut text 1 text.length

/-- A text without the mark behind it. -/
def beforeMark (text : Bytes) : Except Fault Bytes := do
  if Pattern.rightAnchor text.getLast? = .free then return text
  else cut text 0 (← minus text.length 1)

/-- The pattern of a token. -/
def pattern (token : Token) : Except Fault Pattern := do
  let left := Pattern.leftAnchor token.text.head?
  let behind ← behindMark token.text
  let right := Pattern.rightAnchor behind.getLast?
  let text ← beforeMark behind
  if text = [] then return ⟨token.text, .free, .free, false⟩
  else if token.isQuoted && Pattern.isOneWord text then
    return ⟨text, Pattern.orWord left, Pattern.orWord right, true⟩
  else return ⟨text, left, right, false⟩

/-- The exact comparison; no text is found in a window that does not lie in the candidate. -/
def exact (candidate : Bytes) (offset : Nat) (text : Bytes) : Except Fault Nat := do
  let stop ← plus offset text.length
  if offset ≤ stop ∧ stop ≤ candidate.length then
    let window ← cut candidate offset stop
    return if Comparison.startsWith text window then text.length else 0
  else return 0

/-- Whether an occurrence fits; its length may be anything that a comparison answers. -/
def fits (pattern : Pattern) (candidate : Bytes) (offset length : Nat) : Except Fault Bool :=
  if length = 0 then return false
  else
    match (plus? offset length).filter (· ≤ candidate.length) with
    | none => return false
    | some stop => do
      let before ← (minus? offset 1).mapM (byteAt candidate)
      return pattern.left.allows before && pattern.right.allows candidate[stop]?

/-- Search one candidate: all its offsets by a comparison that is asked, and otherwise those behind
which there is room for the text. -/
def searchIn (asked : Option Comparison) (pattern : Pattern) (candidate : Bytes) :
    Except Fault Bool :=
  match asked with
  | some comparison =>
    (List.range candidate.length).anyM fun offset =>
      fits pattern candidate offset (comparison candidate offset pattern.text)
  | none =>
    if pattern.text.length ≤ candidate.length then do
      let room ← minus candidate.length pattern.text.length
      let offsets ← plus room 1
      (List.range offsets).anyM fun offset => do
        fits pattern candidate offset (← exact candidate offset pattern.text)
    else return false

/-- Search candidates for a term. -/
def search (given : Option Comparison) (token : Token) (candidates : List Bytes) :
    Except Fault Bool := do
  let pattern ← pattern token
  candidates.anyM (searchIn (pattern.inUse given) pattern)

/-! ## No step fails -/

@[simp]
theorem byteAt_of_lt {bytes : Bytes} {index : Nat} (inside : index < bytes.length) :
    byteAt bytes index = .ok bytes[index] := by
  rw [byteAt, dif_pos inside]

@[simp]
theorem cut_of_le {bytes : Bytes} {start stop : Nat} (ordered : start ≤ stop)
    (inside : stop ≤ bytes.length) : cut bytes start stop = .ok (bytes.extract start stop) := by
  rw [cut, if_pos ⟨ordered, inside⟩]

@[simp]
theorem minus_of_le {whole part : Nat} (least : part ≤ whole) :
    minus whole part = .ok (whole - part) := by
  simp [minus, minus?, least]

@[simp]
theorem plus_of_lt {left right : Nat} (word : left + right < wordLimit) :
    plus left right = .ok (left + right) := by
  simp [plus, plus?, word]

theorem ok_bind {α β : Type} (value : α) (next : α → Except Fault β) :
    (Except.ok value >>= next) = next value := rfl

theorem anyM_eq_ok {α : Type} {p : α → Except Fault Bool} {q : α → Bool} {list : List α}
    (same : ∀ element ∈ list, p element = .ok (q element)) :
    list.anyM p = .ok (list.any q) := by
  induction list with
  | nil => rfl
  | cons first later induction =>
      have here := same first List.mem_cons_self
      have rest := induction fun element member => same element (List.mem_cons_of_mem first member)
      rw [List.anyM, here, List.any_cons]
      cases q first with
      | true => rfl
      | false => exact rest

/-! ## The search stays within bounds -/

theorem behindMark_eq (text : Bytes) : behindMark text = .ok (Pattern.behindMark text) := by
  rw [behindMark, Pattern.behindMark]
  split
  · rfl
  · next marked =>
      cases text with
      | nil => exact absurd rfl marked
      | cons first rest =>
          simp [List.extract_eq_take_drop]

theorem beforeMark_eq (text : Bytes) : beforeMark text = .ok (Pattern.beforeMark text) := by
  rw [beforeMark, Pattern.beforeMark]
  split
  · rfl
  · next marked =>
      have filled : text ≠ [] := by
        rintro rfl
        exact marked rfl
      rw [minus_of_le (List.length_pos_iff.mpr filled), ok_bind,
        cut_of_le (Nat.zero_le _) (Nat.sub_le _ _), List.dropLast_eq_take]
      simp [List.extract_eq_take_drop]

theorem pattern_eq (token : Token) : pattern token = .ok (Pattern.ofToken token) := by
  simp only [pattern, behindMark_eq, beforeMark_eq, ok_bind, Pattern.ofToken_eq]
  split
  · rfl
  · split <;> rfl

theorem exact_eq {candidate text : Bytes} {offset : Nat} (word : candidate.length < wordLimit)
    (room : offset + text.length ≤ candidate.length) :
    exact candidate offset text = .ok (Comparison.exact candidate offset text) := by
  have window : Comparison.startsWith text ((candidate.drop offset).take text.length) =
      Comparison.startsWith text (candidate.drop offset) := by
    rw [Bool.eq_iff_iff, Comparison.startsWith_iff, Comparison.startsWith_iff]
    constructor
    · rintro ⟨span, after, cut, accepted⟩
      refine ⟨span, after ++ (candidate.drop offset).drop text.length, ?_, accepted⟩
      rw [← List.append_assoc, ← cut, List.take_append_drop]
    · rintro ⟨span, after, cut, accepted⟩
      refine ⟨span, [], ?_, accepted⟩
      rw [cut, accepted.length_eq, List.take_left, List.append_nil]
  have first : offset ≤ offset + text.length := Nat.le_add_right _ _
  rw [exact, plus_of_lt (by omega), ok_bind, if_pos ⟨first, room⟩, cut_of_le first room, ok_bind,
    List.extract_eq_take_drop, Nat.add_sub_cancel_left, window, Comparison.exact]
  rfl

theorem fits_eq {candidate : Bytes} (word : candidate.length < wordLimit) (pattern : Pattern)
    (offset length : Nat) :
    fits pattern candidate offset length = .ok (pattern.fits candidate offset length) := by
  rw [fits, Pattern.fits]
  split
  · next nothing => simp [nothing]; rfl
  · next positive =>
    rcases Nat.lt_or_ge candidate.length (offset + length) with outside | inside
    · have refused : (plus? offset length).filter (· ≤ candidate.length) = none := by
        rw [plus?]
        split
        · simpa using outside
        · rfl
      have long : ¬offset + length ≤ candidate.length := by omega
      simp [refused, long]
      rfl
    · have stop : (plus? offset length).filter (· ≤ candidate.length) = some (offset + length) := by
        rw [plus?, if_pos (by omega)]
        simpa using inside
      have before : (minus? offset 1).mapM (byteAt candidate) =
          .ok (if offset = 0 then none else candidate[offset - 1]?) := by
        cases offset with
        | zero => rfl
        | succ offset =>
            have earlier : offset < candidate.length := by omega
            simp [minus?, earlier]
      have notEmpty : (length != 0) = true := bne_iff_ne.mpr positive
      simp only [stop, before, ok_bind, notEmpty, decide_eq_true inside]
      rfl

variable {candidate : Bytes} {pattern : Pattern}

theorem searchIn_eq (word : candidate.length < wordLimit) (filled : pattern.text ≠ [])
    (asked : Option Comparison) :
    searchIn asked pattern candidate =
      .ok (pattern.occursIn (asked.getD Comparison.exact) candidate) := by
  cases asked with
  | some comparison => exact anyM_eq_ok fun offset _ => fits_eq word pattern offset _
  | none =>
      have positive := List.length_pos_iff.mpr filled
      rw [Option.getD_none, ← Pattern.found_searchExactly, Pattern.searchExactly, searchIn]
      simp only
      split
      · next room =>
          rw [minus_of_le room, ok_bind, plus_of_lt (by omega), ok_bind, Nat.sub_add_comm room]
          apply anyM_eq_ok
          intro offset member
          have behind := List.mem_range.mp member
          rw [exact_eq word (by omega), ok_bind]
          exact fits_eq word pattern offset _
      · next short =>
          have none : candidate.length + 1 - pattern.text.length = 0 := by omega
          rw [none]
          rfl

/-- The search for a term that is not empty takes no step that fails, through candidates that a
machine can hold and for any comparison, and answers whether some candidate contains the term. -/
theorem search_eq {token : Token} (filled : token.text ≠ []) {candidates : List Bytes}
    (words : ∀ candidate ∈ candidates, candidate.length < wordLimit)
    (given : Option Comparison) :
    search given token candidates = .ok (contains candidates given token false) := by
  rw [search, pattern_eq, ok_bind]
  apply anyM_eq_ok
  intro candidate member
  have present := (Pattern.reads_ofToken token).text_ne_nil filled
  rw [searchIn_eq (words candidate member) present, ← Pattern.chosen_eq]
  rfl

end Checked
end NameSearch
