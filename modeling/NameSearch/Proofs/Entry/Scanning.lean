import NameSearch.Entry.Reading

/-!
# Scanning and loading

Choosing entries while they are read gives what loading all of them and choosing afterwards gives.
The two differ only where the scan stops early: it has then looked at the entries up to the last one
it takes, and it has not met a failure that lies behind them.
-/

namespace NameSearch
namespace Feed

/-! ## What a feed delivers -/

@[simp]
theorem ofItems_cons (item : Except ReadFailure (Option Entry))
    (items : List (Except ReadFailure (Option Entry))) (failure : Option ReadFailure) :
    ofItems (item :: items) failure = deliver item (ofItems items failure) := rfl

theorem failure_ofItems_append {items : List (Except ReadFailure (Option Entry))}
    (faultless : ∀ item ∈ items, ∃ given, item = .ok given)
    (later : List (Except ReadFailure (Option Entry))) (failure : Option ReadFailure) :
    (ofItems (items ++ later) failure).failure = (ofItems later failure).failure := by
  induction items with
  | nil => rfl
  | cons item items induction =>
      obtain ⟨⟨given, rfl⟩, behind⟩ := List.forall_mem_cons.mp faultless
      rw [List.cons_append, ofItems_cons, ← induction behind]
      cases given <;> rfl

theorem mem_of_mem_entries {items : List (Except ReadFailure (Option Entry))}
    {failure : Option ReadFailure} {entry : Entry}
    (member : entry ∈ (ofItems items failure).entries) : .ok (some entry) ∈ items := by
  induction items with
  | nil => cases member
  | cons item items induction =>
      rw [ofItems_cons] at member
      match item with
      | .error fault => cases member
      | .ok none => exact List.mem_cons_of_mem _ (induction member)
      | .ok (some first) =>
          rcases List.mem_cons.mp member with rfl | later
          · exact List.mem_cons_self
          · exact List.mem_cons_of_mem _ (induction later)

theorem load_of_failure {feed : Feed} {failure : ReadFailure}
    (stopped : feed.failure = some failure) : feed.load = .error failure := by
  rw [load, stopped]

theorem entries_of_load {feed : Feed} {entries : List Entry} (loaded : feed.load = .ok entries) :
    feed.entries = entries := by
  rw [load] at loaded
  split at loaded
  · cases loaded
  · exact Except.ok.inj loaded

/-! ## Scanning -/

/-- The entry at `position`, counted from one, is the `number`th of the wanted ones. -/
def IsPlaceOf (isWanted : Entry → Bool) (number position : Nat) (entries : List Entry) : Prop :=
  ∃ front entry later, entries = front ++ entry :: later ∧ isWanted entry = true ∧
    front.countP isWanted + 1 = number ∧ position = front.length + 1

section Place

variable {isWanted : Entry → Bool} {number position : Nat} {entries : List Entry} {entry : Entry}

theorem isPlaceOf_first (wanted : isWanted entry = true) :
    IsPlaceOf isWanted 1 1 (entry :: entries) :=
  ⟨[], entry, entries, rfl, wanted, rfl, rfl⟩

theorem IsPlaceOf.cons_wanted (place : IsPlaceOf isWanted number position entries)
    (wanted : isWanted entry = true) :
    IsPlaceOf isWanted (number + 1) (position + 1) (entry :: entries) := by
  obtain ⟨front, last, later, rfl, taken, rfl, rfl⟩ := place
  exact ⟨entry :: front, last, later, rfl, taken, by simp [wanted], rfl⟩

theorem IsPlaceOf.cons_unwanted (place : IsPlaceOf isWanted number position entries)
    (unwanted : isWanted entry = false) :
    IsPlaceOf isWanted number (position + 1) (entry :: entries) := by
  obtain ⟨front, last, later, rfl, taken, rfl, rfl⟩ := place
  exact ⟨entry :: front, last, later, rfl, taken, by simp [unwanted], rfl⟩

theorem IsPlaceOf.number_le (place : IsPlaceOf isWanted number position entries) :
    number ≤ position := by
  obtain ⟨front, last, later, -, -, rfl, rfl⟩ := place
  have counted := front.countP_le_length (p := isWanted)
  omega

end Place

/-- A scan that finds fewer entries than it may take meets the end of the feed. -/
theorem scanFrom_of_lt (isWanted : Entry → Bool) (failure : Option ReadFailure) {limit : Nat}
    {entries : List Entry} (few : limit = 0 ∨ entries.countP isWanted < limit) (scanned : Nat)
    (chosen : List Entry) :
    scanFrom isWanted failure limit scanned chosen entries =
      match failure with
      | some failure => .error failure
      | none => .ok ⟨scanned + entries.length, chosen.reverse ++ entries.filter isWanted⟩ := by
  induction entries generalizing limit scanned chosen with
  | nil => cases failure <;> simp [scanFrom]
  | cons entry later induction =>
      cases wanted : isWanted entry with
      | true =>
          have notLast : limit ≠ 1 := by
            rintro rfl
            simp [wanted] at few
          have fewer : limit - 1 = 0 ∨ later.countP isWanted < limit - 1 := by
            simp only [List.countP_cons, wanted, if_true] at few
            omega
          simp [scanFrom, wanted, notLast, induction fewer, Nat.add_assoc, Nat.add_comm 1]
      | false =>
          have fewer : limit = 0 ∨ later.countP isWanted < limit := by
            simpa [wanted] using few
          simp [scanFrom, wanted, induction fewer, Nat.add_assoc, Nat.add_comm 1]

/-- A scan that finds as many entries as it may take stops at the last one it takes. -/
theorem scanFrom_of_le (isWanted : Entry → Bool) (failure : Option ReadFailure) {limit : Nat}
    {entries : List Entry} (positive : 0 < limit) (enough : limit ≤ entries.countP isWanted)
    (scanned : Nat) (chosen : List Entry) :
    ∃ position, IsPlaceOf isWanted limit position entries ∧
      scanFrom isWanted failure limit scanned chosen entries =
        .ok ⟨scanned + position, chosen.reverse ++ (entries.filter isWanted).take limit⟩ := by
  induction entries generalizing limit scanned chosen with
  | nil => simp at enough; omega
  | cons entry later induction =>
      cases wanted : isWanted entry with
      | true =>
          obtain _ | _ | more := limit
          · exact absurd positive (Nat.lt_irrefl 0)
          · exact ⟨1, isPlaceOf_first wanted, by simp [scanFrom, wanted]⟩
          · have rest : more + 1 ≤ later.countP isWanted := by
              simpa [wanted] using enough
            obtain ⟨position, place, same⟩ :=
              induction (Nat.succ_pos more) rest (scanned + 1) (entry :: chosen)
            refine ⟨position + 1, place.cons_wanted wanted, ?_⟩
            simp [scanFrom, wanted, same, Nat.add_assoc, Nat.add_comm 1]
      | false =>
          have rest : limit ≤ later.countP isWanted := by simpa [wanted] using enough
          obtain ⟨position, place, same⟩ := induction positive rest (scanned + 1) chosen
          refine ⟨position + 1, place.cons_unwanted wanted, ?_⟩
          simp [scanFrom, wanted, same, Nat.add_assoc, Nat.add_comm 1]

theorem scan_of_lt (isWanted : Entry → Bool) {limit : Nat} {feed : Feed}
    (few : limit = 0 ∨ feed.entries.countP isWanted < limit) :
    feed.scan limit isWanted =
      feed.load.map fun entries => ⟨entries.length, entries.filter isWanted⟩ := by
  rw [scan, scanFrom_of_lt isWanted feed.failure few, load]
  cases feed.failure <;> simp [Except.map]

theorem scan_of_le (isWanted : Entry → Bool) {limit : Nat} {feed : Feed} (positive : 0 < limit)
    (enough : limit ≤ feed.entries.countP isWanted) :
    ∃ scanned, IsPlaceOf isWanted limit scanned feed.entries ∧
      feed.scan limit isWanted = .ok ⟨scanned, (feed.entries.filter isWanted).take limit⟩ := by
  obtain ⟨scanned, place, same⟩ := scanFrom_of_le isWanted feed.failure positive enough 0 []
  exact ⟨scanned, place, by simpa [scan] using same⟩

/-- A scan fails with the failure that stops its feed, unless it takes enough entries before. -/
theorem scan_eq_error_iff {isWanted : Entry → Bool} {limit : Nat} {feed : Feed}
    {failure : ReadFailure} :
    feed.scan limit isWanted = .error failure ↔
      feed.failure = some failure ∧ (limit = 0 ∨ feed.entries.countP isWanted < limit) := by
  by_cases few : limit = 0 ∨ feed.entries.countP isWanted < limit
  · rw [scan_of_lt isWanted few, load, and_iff_left few]
    cases feed.failure <;> simp [Except.map]
  · have enough : limit ≤ feed.entries.countP isWanted := by omega
    obtain ⟨scanned, -, chosen⟩ := scan_of_le isWanted (by omega) enough
    simp [chosen, few]

theorem length_matched_le (isWanted : Entry → Bool) (limit : Nat) {feed : Feed}
    {selection : Selection} (chosen : feed.scan limit isWanted = .ok selection) :
    selection.matched.length ≤ selection.scanned ∧
      (0 < limit → selection.matched.length ≤ limit) := by
  by_cases few : limit = 0 ∨ feed.entries.countP isWanted < limit
  · rw [scan_of_lt isWanted few, load] at chosen
    cases stopped : feed.failure with
    | some failure => simp [stopped, Except.map] at chosen
    | none =>
        simp only [stopped, Except.map, Except.ok.injEq] at chosen
        subst chosen
        rw [List.countP_eq_length_filter] at few
        exact ⟨List.length_filter_le .., fun positive => by dsimp only; omega⟩
  · have enough : limit ≤ feed.entries.countP isWanted := by omega
    obtain ⟨scanned, place, same⟩ := scan_of_le isWanted (by omega) enough
    rw [chosen, Except.ok.injEq] at same
    subst same
    have taken := List.length_take_le limit (feed.entries.filter isWanted)
    exact ⟨Nat.le_trans taken place.number_le, fun _ => taken⟩

end Feed

theorem choose_of_lt (settings : Settings) (query : Query) (comparison : Option Comparison)
    {entries : List Entry}
    (few : settings.limit = 0 ∨
      entries.countP (Entry.satisfies settings query comparison) < settings.limit) :
    Entry.choose settings query comparison entries =
      entries.filter (Entry.satisfies settings query comparison) := by
  simp only [Entry.choose]
  split
  · rfl
  · next limited =>
      rw [List.countP_eq_length_filter] at few
      exact List.take_of_length_le (by omega)

/-- Choosing entries while reading agrees with reading all of them and choosing afterwards.  Where
all can be read, the same are chosen, and those looked at are all, or those up to the last one
wanted.  Where they cannot, that is told as it is, unless enough are wanted in front of the
failure. -/
theorem select_agrees_with_readAll (settings : Settings) (query : Query)
    (comparison : Option Comparison) (input : Input) :
    let isWanted := Entry.satisfies settings query comparison
    let delivered := (settings.feed input).entries
    (∀ entries, settings.readAll input = .ok entries →
      ∃ scanned,
        settings.select query comparison input =
            .ok ⟨scanned, Entry.choose settings query comparison entries⟩ ∧
          (settings.limit = 0 ∨ entries.countP isWanted < settings.limit →
            scanned = entries.length) ∧
          (0 < settings.limit ∧ settings.limit ≤ entries.countP isWanted →
            Feed.IsPlaceOf isWanted settings.limit scanned entries)) ∧
      (∀ failure, settings.readAll input = .error failure →
        (settings.limit = 0 ∨ delivered.countP isWanted < settings.limit →
          settings.select query comparison input = .error failure) ∧
        (0 < settings.limit ∧ settings.limit ≤ delivered.countP isWanted →
          ∃ scanned, Feed.IsPlaceOf isWanted settings.limit scanned delivered ∧
            settings.select query comparison input =
              .ok ⟨scanned, (delivered.filter isWanted).take settings.limit⟩)) ∧
      ∀ selection, settings.select query comparison input = .ok selection →
        selection.matched.length ≤ selection.scanned ∧
          (0 < settings.limit → selection.matched.length ≤ settings.limit) := by
  intro isWanted delivered
  refine ⟨fun entries loaded => ?_, fun failure stopped => ⟨fun few => ?_, fun enough => ?_⟩,
    fun selection chosen => Feed.length_matched_le isWanted settings.limit chosen⟩
  · have same : delivered = entries := Feed.entries_of_load loaded
    by_cases few : settings.limit = 0 ∨ entries.countP isWanted < settings.limit
    · have fewDelivered : settings.limit = 0 ∨ delivered.countP isWanted < settings.limit := by
        rwa [same]
      refine ⟨entries.length, ?_, fun _ => rfl, fun enough => absurd few (by omega)⟩
      rw [Settings.select, Feed.scan_of_lt isWanted fewDelivered, choose_of_lt _ _ _ few]
      rw [Settings.readAll] at loaded
      rw [loaded]
      rfl
    · have positive : 0 < settings.limit := by omega
      have enough : settings.limit ≤ delivered.countP isWanted := by rw [same]; omega
      obtain ⟨scanned, place, chosen⟩ := Feed.scan_of_le isWanted positive enough
      refine ⟨scanned, ?_, fun contrary => absurd contrary few, fun _ => same ▸ place⟩
      rw [Settings.select, chosen, Entry.choose, if_neg (by omega), ← same]
  · rw [Settings.select, Feed.scan_of_lt isWanted few]
    rw [Settings.readAll] at stopped
    rw [stopped]
    rfl
  · exact Feed.scan_of_le isWanted enough.1 enough.2

/-- One entry is wanted and found in front of a failure that would be met behind it. -/
theorem select_agrees_with_readAll_early :
    let settings : Settings := { limit := 1 }
    let query : Query := ⟨[Token.bare (Bytes.ofString "a")]⟩
    let input : Input := ⟨Bytes.ofString "ab\nc\n", some "gone"⟩
    let isWanted := Entry.satisfies settings query none
    let delivered := (settings.feed input).entries
    settings.readAll input = .error (.line 3 (.unreadable "gone")) ∧
      1 ≤ delivered.countP isWanted ∧
      ∃ scanned, Feed.IsPlaceOf isWanted 1 scanned delivered ∧
        settings.select query none input =
          .ok ⟨scanned, (delivered.filter isWanted).take 1⟩ := by
  intro settings query input isWanted delivered
  have stopped : settings.readAll input = .error (.line 3 (.unreadable "gone")) := rfl
  have enough : 1 ≤ delivered.countP isWanted := by decide
  have early := (select_agrees_with_readAll settings query none input).2.1 _ stopped
  exact ⟨stopped, enough, early.2 ⟨Nat.one_pos, enough⟩⟩

end NameSearch
