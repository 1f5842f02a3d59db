import CodeProse.Run.Basic

/-!
# Answers

The JSON values by which the web service answers: spans in the order of the document, the
corrections of a run with what was done to the text, and the state of the cache.
-/

set_option autoImplicit false

namespace CodeProse

def Position.toJson (position : Position) : Json :=
  .object [("line", .int position.line), ("column", .int position.column)]

def Span.toJson (span : Span) : Json :=
  .object
    [("text", .string span.text), ("type", .string span.kind.name),
      ("start", span.range.start.toJson), ("end", span.range.stop.toJson),
      ("confidence", .float span.confidence), ("context", Json.ofText? span.context)]

def Change.toJson (change : Change) : Json :=
  .object
    [("type", .string change.kind), ("original", .string change.draft),
      ("corrected", .string change.corrected), ("explanation", Json.ofText? change.explanation)]

def Correction.toJson (correction : Correction) : Json :=
  .object
    [("text", .string correction.text), ("original", .string correction.draft),
      ("start", correction.range.start.toJson), ("end", correction.range.stop.toJson),
      ("confidence", .float correction.confidence),
      ("changes", .array (correction.changes.map Change.toJson))]

/-- The counts of a run. Its duration is not measured. -/
def RunStats.toJson (stats : RunStats) : Json :=
  .object
    [("total_texts", Json.ofNat stats.totalTexts), ("corrected", Json.ofNat stats.corrected),
      ("cached", Json.ofNat stats.cached), ("failed", Json.ofNat stats.failed),
      ("duration", .float 0)]

def spansAnswer (spans : List Span) : Json :=
  .object [("spans", .array ((Span.inDocumentOrder spans).map Span.toJson))]

/-- A run with the corrections that it is answered by, and the text where that was changed. -/
def runAnswer (run : Run) (corrections : List Correction) (text : Option Text) : Json :=
  .object
    [("state", .string run.state.name), ("corrections", .array (corrections.map Correction.toJson)),
      ("stats", run.stats.toJson), ("text", Json.ofText? text)]

def CacheStats.toJson (stats : CacheStats) : Json :=
  .object
    [("size", .int stats.size), ("entries", Json.ofNat stats.entries),
      ("hits", stats.hits.toJson), ("misses", stats.misses.toJson),
      ("hit_rate", .float stats.hitRate), ("oldest_entry", .int stats.oldestEntry),
      ("newest_entry", .int stats.newestEntry)]

end CodeProse
