import NameSearch.Entry
import NameSearch.Input

/-!
# Feeds of entries

A feed is what a reader delivers from an input: entries in order and, where something is wrong with
the input, the failure it stops at.  Loading a feed needs all of it.  Scanning a feed chooses
entries on the way and stops as soon as enough are chosen, so that a failure behind that point is
never met.
-/

namespace NameSearch

/-- Entries in order, and the failure they stop at. -/
structure Feed where
  /-- The entries that are delivered. -/
  entries : List Entry
  /-- What stops the reader, unless the input ends. -/
  failure : Option ReadFailure := none
  deriving DecidableEq

/-- The entries chosen from an input. -/
structure Selection where
  /-- How many entries have been looked at. -/
  scanned : Nat := 0
  /-- Those that were chosen, in order. -/
  matched : List Entry := []
  deriving DecidableEq

namespace Feed

/-- Put what one line or record gave in front of a feed; a failure stops it at once. -/
def deliver : Except ReadFailure (Option Entry) → Feed → Feed
  | .ok (some entry), feed => { feed with entries := entry :: feed.entries }
  | .ok none, feed => feed
  | .error failure, _ => ⟨[], some failure⟩

/-- The feed of some lines or records that ends as given. -/
def ofItems (items : List (Except ReadFailure (Option Entry))) (failure : Option ReadFailure) :
    Feed :=
  items.foldr deliver ⟨[], failure⟩

/-- All entries, unless something stops the reader. -/
def load (feed : Feed) : Except ReadFailure (List Entry) :=
  match feed.failure with
  | some failure => .error failure
  | none => .ok feed.entries

/-- Choose from the entries that are still to come, after `scanned` of them have been looked at and
those in `chosen` taken, the last one first.  At most `limit` more are taken, where zero means any
number; the scan stops with the last of them. -/
def scanFrom (isWanted : Entry → Bool) (failure : Option ReadFailure) :
    (limit scanned : Nat) → (chosen : List Entry) → List Entry → Except ReadFailure Selection
  | _, scanned, chosen, [] =>
    match failure with
    | some failure => .error failure
    | none => .ok ⟨scanned, chosen.reverse⟩
  | limit, scanned, chosen, entry :: later =>
    if isWanted entry then
      if limit = 1 then .ok ⟨scanned + 1, (entry :: chosen).reverse⟩
      else scanFrom isWanted failure (limit - 1) (scanned + 1) (entry :: chosen) later
    else scanFrom isWanted failure limit (scanned + 1) chosen later

/-- Choose entries while they are delivered, up to a limit; zero means no limit. -/
def scan (limit : Nat) (isWanted : Entry → Bool) (feed : Feed) : Except ReadFailure Selection :=
  scanFrom isWanted feed.failure limit 0 [] feed.entries

end Feed
end NameSearch
