/-!
# Sequences

Operations on lists that several parts of the library share: cutting at bounds that may be
negative or lie beyond the end, ordering without disturbing equals, and adding up.
-/

set_option autoImplicit false

namespace CodeProse

/-- The offset that a bound names in a list of `length` items: a negative bound counts from
the end, and a bound beyond either end is moved to that end. -/
def boundary (length : Nat) (bound : Int) : Nat :=
  if bound < 0 then (length + bound).toNat else min bound.toNat length

/-- The part of a list up to a bound. -/
def upTo {α : Type} (items : List α) (bound : Int) : List α :=
  items.take (boundary items.length bound)

/-- The part of a list from a bound on. -/
def since {α : Type} (items : List α) (bound : Int) : List α :=
  items.drop (boundary items.length bound)

/-- The part of a list between two offsets; empty when they are out of order. -/
def slice {α : Type} (items : List α) (start stop : Nat) : List α :=
  (items.take stop).drop start

/-- Puts an item before the first one it may stand before. -/
def insertInOrder {α : Type} (before : α → α → Bool) (item : α) : List α → List α
  | [] => [item]
  | other :: rest =>
      if before item other then item :: other :: rest
      else other :: insertInOrder before item rest

/-- Orders a list by a total, reflexive and transitive relation. Items that may stand before
each other keep their order. -/
def stableSort {α : Type} (before : α → α → Bool) (items : List α) : List α :=
  items.foldr (insertInOrder before) []

/-- Keeps the first of the items that have a key in common. -/
def firstOfEach {α κ : Type} [BEq κ] (key : α → κ) : List α → List κ → List α
  | [], _ => []
  | item :: rest, seen =>
      if seen.contains (key item) then firstOfEach key rest seen
      else item :: firstOfEach key rest (key item :: seen)

def total (numbers : List Nat) : Nat :=
  numbers.foldr (· + ·) 0

/-- Cuts a list into pieces of `size` items; the last one may be shorter. -/
def chunks {α : Type} (size : Nat) (items : List α) : List (List α) :=
  chunksWithin items.length items
where
  /-- At most `limit` pieces, which suffices when `limit` is the number of items. -/
  chunksWithin : Nat → List α → List (List α)
    | 0, _ => []
    | limit + 1, items =>
        if items.isEmpty then []
        else items.take size :: chunksWithin limit (items.drop size)

end CodeProse
