import CodeProse.Cache.Basic
import CodeProse.Json.Reader
import CodeProse.Json.Writer

/-!
# Exchanging caches

A cache as a JSON text. What is written can be read back; a text of another shape is refused
and leaves the cache as it is.
-/

set_option autoImplicit false

namespace CodeProse

namespace CacheEntry

def toJson (entry : CacheEntry) : Json :=
  .object
    [("value", .string entry.value), ("timestamp", .int entry.timestamp),
      ("hits", .int entry.hits), ("size", .int entry.size)]

/-- The entry that a JSON value stands for. Truth values are no numbers here. -/
def ofJson? (value : Json) : Option CacheEntry :=
  match value.field "value", value.field "timestamp", value.field "hits", value.field "size" with
  | .string text, .int timestamp, .int hits, .int size => some ⟨text, timestamp, hits, size⟩
  | _, _, _, _ => none

end CacheEntry

/-- The counter that a member of an object stands for; a missing one is zero. -/
def Counter.ofMember? (name : Text) (members : List (Text × Json)) : Option Counter :=
  match Json.member? name members with
  | none => some (.number 0)
  | some (.int value) => some (.number value)
  | some (.bool value) => some (.flag value)
  | some _ => none

namespace Cache

/-- Sets the entry of a digest, in its place if there is one and at the end otherwise. -/
def setEntry (digest : Text) (entry : CacheEntry) :
    List (Text × CacheEntry) → List (Text × CacheEntry)
  | [] => [(digest, entry)]
  | (other, old) :: rest =>
      if other = digest then (digest, entry) :: rest
      else (other, old) :: setEntry digest entry rest

def entriesOfJson? : List Json → Option (List (Text × CacheEntry))
  | items => items.foldlM addItem []
where
  /-- Adds the entry of one item. -/
  addItem (entries : List (Text × CacheEntry)) : Json → Option (List (Text × CacheEntry))
    | .array [.string digest, .object members] =>
        (CacheEntry.ofJson? (.object members)).map fun entry => setEntry digest entry entries
    | _ => none

def writtenIntegers (cache : Cache) (now : Int) : List Int :=
  now :: cache.hits.value :: cache.misses.value ::
    cache.entries.flatMap fun entry => [entry.2.timestamp, entry.2.hits, entry.2.size]

def toJson (cache : Cache) (now : Int) : Json :=
  .object
    [("cache", .array (cache.entries.map fun entry =>
        .array [.string entry.1, entry.2.toJson])),
      ("stats", .object [("hits", cache.hits.toJson), ("misses", cache.misses.toJson)]),
      ("timestamp", .int now)]

/-- The cache as a JSON text; nothing when an integer is too long to be written. -/
def export? (cache : Cache) (now : Int) : Option Text :=
  if (cache.writtenIntegers now).any isUnwritable then none
  else some ((cache.toJson now).write .ascii)

def ofJson? (cache : Cache) : Json → Option Cache
  | .object members =>
      match Json.member? "cache" members, Json.member? "stats" members with
      | some (.array items), some (.object counts) => do
          let entries ← entriesOfJson? items
          let hits ← Counter.ofMember? "hits" counts
          let misses ← Counter.ofMember? "misses" counts
          return { cache with entries, hits, misses }
      | _, _ => none
  | _ => none

/-- The cache with the entries and counts of a JSON text, or nothing when the text is refused.
A text that is well formed but cannot be read, for one because collections in it are nested deeper
than `depth`, is an error. -/
def import? (depth : Nat) (cache : Cache) (text : Text) : Except Json.ReadError (Option Cache) :=
  match Json.read depth text with
  | .ok value => .ok (cache.ofJson? value)
  | .error .malformed => .ok none
  | .error fault => .error fault

end Cache

end CodeProse
