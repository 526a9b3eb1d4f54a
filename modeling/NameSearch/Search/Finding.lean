import NameSearch.Search.Pattern

/-!
# Searching candidates for a pattern

The search looks at the candidates in order and at the offsets of each in order, and stops at the
first occurrence that fits.  A finding says whether there was one, and which questions were put to
a given comparison on the way.
-/

namespace NameSearch

/-- One question put to a comparison. -/
structure Probe where
  /-- The candidate searched. -/
  candidate : Bytes
  /-- The offset looked at. -/
  offset : Nat
  /-- The text searched for. -/
  text : Bytes
  deriving DecidableEq

/-- The result of a search. -/
structure Finding where
  /-- Whether the pattern was found. -/
  found : Bool
  /-- The questions put to the given comparison, in order. -/
  probes : List Probe := []
  deriving DecidableEq

namespace Pattern

/-- Search one candidate by the exact comparison. -/
def searchExactly (pattern : Pattern) (candidate : Bytes) : Finding :=
  ⟨(List.range (candidate.length + 1 - pattern.text.length)).any fun offset =>
    pattern.fits candidate offset (Comparison.exact candidate offset pattern.text), []⟩

/-- Search one candidate by a given comparison, which is asked at every offset up to the first
that fits. -/
def searchBy (comparison : Comparison) (pattern : Pattern) (candidate : Bytes) : Finding :=
  let offsets := List.range candidate.length
  let missed := offsets.takeWhile fun offset =>
    !pattern.fits candidate offset (comparison candidate offset pattern.text)
  ⟨decide (missed.length < offsets.length),
    (offsets.take (missed.length + 1)).map fun offset => ⟨candidate, offset, pattern.text⟩⟩

/-- Search one candidate; quoted words are always compared exactly. -/
def searchIn (comparison : Option Comparison) (pattern : Pattern) (candidate : Bytes) : Finding :=
  match comparison with
  | some comparison =>
    if pattern.isQuotedWord then pattern.searchExactly candidate
    else pattern.searchBy comparison candidate
  | none => pattern.searchExactly candidate

/-- Search candidates in order up to the first that holds the pattern. -/
def search (comparison : Option Comparison) (pattern : Pattern) : List Bytes → Finding
  | [] => ⟨false, []⟩
  | candidate :: later =>
    let here := pattern.searchIn comparison candidate
    if here.found then here
    else
      let rest := pattern.search comparison later
      ⟨rest.found, here.probes ++ rest.probes⟩

end Pattern
end NameSearch
