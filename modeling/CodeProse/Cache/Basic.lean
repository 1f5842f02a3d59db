import CodeProse.Digest.Sha256
import CodeProse.Json.Basic
import CodeProse.Sequence
import CodeProse.Text.Encoding

/-!
# The cache of corrections

Corrected texts under the digests of their keys. A key that has no form in UTF-8 has no digest, and
such a text is not stored. An entry that is older than the age limit is forgotten when it is asked
for. Where a new text would not fit, the entries with the fewest hits for their age make room first.
Every operation takes the time as an argument.
-/

set_option autoImplicit false

namespace CodeProse

structure CacheEntry where
  value : Text
  timestamp : Int
  hits : Int
  size : Int
deriving DecidableEq

/-- A count. One that came from outside may be a truth value, which counts as one or zero and
is shown as it came until something is added. -/
inductive Counter where
  | number (value : Int)
  | flag (value : Bool)
deriving DecidableEq

namespace Counter

def value : Counter → Int
  | number value => value
  | flag value => if value then 1 else 0

def next (counter : Counter) : Counter :=
  number (counter.value + 1)

def toJson : Counter → Json
  | number value => .int value
  | flag value => .bool value

end Counter

/-- How many bytes the texts may take together, and how many milliseconds one is kept. -/
structure CacheLimits where
  maxSize : Int := 10 * 1024 * 1024
  maxAge : Int := 7 * 24 * 60 * 60 * 1000
deriving DecidableEq

/-- The stored texts by digest, in the order in which they were stored, and how often a text
that was asked for was found or not. -/
structure Cache where
  limits : CacheLimits := {}
  entries : List (Text × CacheEntry) := []
  hits : Counter := .number 0
  misses : Counter := .number 0
deriving DecidableEq

structure CacheStats where
  size : Int
  entries : Nat
  hits : Counter
  misses : Counter
  hitRate : Binary64
  oldestEntry : Int
  newestEntry : Int
deriving DecidableEq

/-- What became of a text that should be stored. -/
inductive StoreOutcome where
  | tooLarge (size : Nat)
  | stored
  | storedAfterEviction (evicted size : Nat)
deriving DecidableEq

/-- Why the cache gives up: a text has no form in UTF-8, or the entries cannot be ordered by their
scores, because one of those lies beyond the numbers of the format. -/
inductive CacheFault where
  | unencodable
  | unranked
deriving DecidableEq

namespace Cache

def length (cache : Cache) : Nat :=
  cache.entries.length

def totalSize (cache : Cache) : Int :=
  cache.entries.foldr (fun entry size => entry.2.size + size) 0

def dropDigest (digest : Text) (entries : List (Text × CacheEntry)) : List (Text × CacheEntry) :=
  entries.filter fun entry => entry.1 ≠ digest

def isExpired (cache : Cache) (now : Int) (entry : CacheEntry) : Bool :=
  cache.limits.maxAge < now - entry.timestamp

def forget (cache : Cache) (digest : Text) : Cache :=
  { cache with entries := dropDigest digest cache.entries }

/-- Counts a hit of the entry with a digest. -/
def touch (digest : Text) (entries : List (Text × CacheEntry)) : List (Text × CacheEntry) :=
  entries.map fun entry =>
    if entry.1 = digest then (entry.1, { entry.2 with hits := entry.2.hits + 1 }) else entry

/-- What stands for a key in the cache. -/
def digestOf (key : Text) : Except CacheFault Text :=
  (Sha256.ofText? key).elim (.error .unencodable) .ok

/-- The text under a digest, counted as found or not. An expired one is forgotten. -/
def find (cache : Cache) (now : Int) (digest : Text) : Option Text × Cache :=
  let missed (cache : Cache) : Option Text × Cache :=
    (none, { cache with misses := cache.misses.next })
  match cache.entries.lookup digest with
  | none => missed cache
  | some entry =>
      if cache.isExpired now entry then missed (cache.forget digest)
      else
        (some entry.value,
          { cache with entries := touch digest cache.entries, hits := cache.hits.next })

/-- Whether a text is stored under a digest; nothing is counted. An expired one is forgotten. -/
def holds (cache : Cache) (now : Int) (digest : Text) : Bool × Cache :=
  match cache.entries.lookup digest with
  | none => (false, cache)
  | some entry => if cache.isExpired now entry then (false, cache.forget digest) else (true, cache)

/-- Applies an operation on digests to a key. A key without a digest leaves the cache as it is. -/
def withDigest {α : Type} (cache : Cache) (key : Text) (operation : Text → α × Cache) :
    Except CacheFault α × Cache :=
  match digestOf key with
  | .ok digest => ((operation digest).map .ok id)
  | .error fault => (.error fault, cache)

def get (cache : Cache) (now : Int) (key : Text) : Except CacheFault (Option Text) × Cache :=
  cache.withDigest key (cache.find now)

def has (cache : Cache) (now : Int) (key : Text) : Except CacheFault Bool × Cache :=
  cache.withDigest key (cache.holds now)

def delete (cache : Cache) (key : Text) : Except CacheFault Bool × Cache :=
  cache.withDigest key fun digest =>
    ((cache.entries.lookup digest).isSome, cache.forget digest)

/-- The hits of an entry per millisecond of its age. -/
def score? (now : Int) (entry : CacheEntry) : Option Binary64 :=
  Binary64.ofRatio? entry.hits (max (now - entry.timestamp) 1)

def scored? (now : Int) (entries : List (Text × CacheEntry)) :
    Option (List (Binary64 × Text × CacheEntry)) :=
  entries.mapM fun entry => (score? now entry.2).map fun score => (score, entry)

/-- The digests that have to go, taken from the front, until the excess is gone. -/
def victims : Int → List (Text × CacheEntry) → List Text
  | _, [] => []
  | excess, (digest, entry) :: rest =>
      if excess ≤ 0 then [] else digest :: victims (excess - entry.size) rest

def append (cache : Cache) (now : Int) (digest value : Text) (size : Nat) : Cache :=
  { cache with entries := cache.entries ++ [(digest, ⟨value, now, 0, size⟩)] }

/-- Stores a text of some size under a digest, in place of the one that was stored there. The clock
is read twice: to rank the entries, and to stamp the new one. A text that alone is larger than the
limit is not stored and replaces nothing. -/
def put (cache : Cache) (ranking stamp : Int) (digest value : Text) (size : Nat) :
    Except CacheFault StoreOutcome × Cache :=
  if cache.limits.maxSize < size then (.ok (.tooLarge size), cache)
  else
    let cache := cache.forget digest
    let excess := cache.totalSize + size - cache.limits.maxSize
    if excess ≤ 0 then (.ok .stored, cache.append stamp digest value size)
    else
      match scored? ranking cache.entries with
      | none => (.error .unranked, cache)
      | some scored =>
          let ranked := stableSort (fun left right => Binary64.lessEq left.1 right.1) scored
          let evicted := victims excess (ranked.map Prod.snd)
          let kept :=
            { cache with entries := cache.entries.filter fun entry => !evicted.contains entry.1 }
          (.ok (.storedAfterEviction evicted.length size), kept.append stamp digest value size)

/-- Stores a text under a key. A key or a text that has no form in UTF-8 changes nothing. -/
def store (cache : Cache) (ranking stamp : Int) (key value : Text) :
    Except CacheFault StoreOutcome × Cache :=
  match digestOf key, value.utf8Size? with
  | .ok digest, some size => cache.put ranking stamp digest value size
  | _, _ => (.error .unencodable, cache)

def set (cache : Cache) (now : Int) (key value : Text) : Except CacheFault StoreOutcome × Cache :=
  cache.store now now key value

/-- Stores several texts, up to the first that the cache gives up on. The clock is read anew for
each of them: `time` tells what it shows at each reading. -/
def preload (cache : Cache) (time : Nat → Int) :
    List (Text × Text) → Except CacheFault Unit × Cache
  | [] => (.ok (), cache)
  | (key, value) :: rest =>
      match cache.store (time 0) (time 1) key value with
      | (.error fault, cache) => (.error fault, cache)
      | (.ok _, cache) => cache.preload (fun reading => time (reading + 2)) rest

def clear (cache : Cache) : Cache :=
  { limits := cache.limits }

def cleanup (cache : Cache) (now : Int) : Nat × Cache :=
  let kept := cache.entries.filter fun entry => !cache.isExpired now entry.2
  (cache.entries.length - kept.length, { cache with entries := kept })

/-- Keeps the entries with the highest scores and tells how many went; a negative number of
them leaves out that many of the lowest. Nothing when the scores cannot be ordered. -/
def optimize? (cache : Cache) (now maxEntries : Int) : Option (Int × Cache) :=
  let count : Int := cache.entries.length
  if count ≤ maxEntries then some (0, cache)
  else do
    let scored ← scored? now cache.entries
    let ranked := stableSort (fun left right => Binary64.lessEq right.1 left.1) scored
    return (count - maxEntries,
      { cache with entries := upTo (ranked.map Prod.snd) maxEntries })

/-- The shortened digests and hits of the entries found most often. -/
def topEntries (cache : Cache) (limit : Int) : List (Text × Int) :=
  let ranked := stableSort (fun left right => right.2.hits ≤ left.2.hits) cache.entries
  (upTo ranked limit).map fun entry => (entry.1.take 16, entry.2.hits)

/-- The share of hits in all questions; zero before the first one. -/
def hitRate? (cache : Cache) : Option Binary64 :=
  let accesses := cache.hits.value + cache.misses.value
  if accesses = 0 then some 0 else Binary64.ofRatio? cache.hits.value accesses

/-- Size, age and use. The oldest entry of an empty cache is of now, the newest of time zero. -/
def stats? (cache : Cache) (now : Int) : Option CacheStats := do
  let hitRate ← cache.hitRate?
  let timestamps := cache.entries.map fun entry => entry.2.timestamp
  return {
    size := cache.totalSize
    entries := cache.length
    hits := cache.hits
    misses := cache.misses
    hitRate
    oldestEntry := timestamps.min?.getD now
    newestEntry := timestamps.max?.getD 0 }

def configure (cache : Cache) (maxSize maxAge : Option Int) : Cache :=
  { cache with
    limits :=
      { maxSize := maxSize.getD cache.limits.maxSize
        maxAge := maxAge.getD cache.limits.maxAge } }

/-- The cache itself, or one under the usual limits where it holds nothing. -/
def orDefault (cache : Cache) : Cache :=
  if cache.entries.isEmpty then {} else cache

end Cache

end CodeProse
