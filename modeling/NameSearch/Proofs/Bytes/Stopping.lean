import NameSearch.Bytes

/-!
# Where a scan stops

A scan that takes elements while they satisfy `p` does not see what stands behind the element that
stops it.
-/

namespace NameSearch

variable {α : Type} {p : α → Bool}

theorem of_mem_takeWhile {element : α} {list : List α} (taken : element ∈ list.takeWhile p) :
    p element = true :=
  List.all_eq_true.mp List.all_takeWhile element taken

theorem of_dropWhile_eq_nil {list : List α} (nothing : list.dropWhile p = []) {element : α}
    (member : element ∈ list) : p element = true := by
  have parts := List.takeWhile_append_dropWhile (p := p) (l := list)
  rw [nothing, List.append_nil] at parts
  rw [← parts] at member
  exact of_mem_takeWhile member

theorem takeWhile_append_stop {stop : α} (stops : p stop = false) (front back : List α) :
    (front ++ stop :: back).takeWhile p = front.takeWhile p := by
  have taken : (stop :: back).takeWhile p = [] := by simp [stops]
  rw [List.takeWhile_append, taken, List.append_nil]
  split
  · next whole => exact ((List.takeWhile_prefix p).eq_of_length whole).symm
  · rfl

theorem dropWhile_append_stop {stop : α} (stops : p stop = false) (front back : List α) :
    (front ++ stop :: back).dropWhile p = front.dropWhile p ++ stop :: back := by
  have kept : (stop :: back).dropWhile p = stop :: back := by simp [stops]
  rw [List.dropWhile_append, kept]
  split
  · next whole => rw [List.isEmpty_iff.mp whole, List.nil_append]
  · rfl

end NameSearch
