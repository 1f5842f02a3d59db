import CodeProse.Sequence
import CodeProse.Text.Blank
import CodeProse.Text.Encoding

/-!
# Log records

What the parts of the program report while they work. A record names the part that reports,
how serious the report is, and a message; the console shows it with or without the part's
name. Records below the shown severity are left out.
-/

set_option autoImplicit false

namespace CodeProse

inductive Severity where
  | debug
  | info
  | warning
  | error
  | critical
deriving DecidableEq

namespace Severity

def name : Severity → Text
  | debug => "DEBUG"
  | info => "INFO"
  | warning => "WARNING"
  | error => "ERROR"
  | critical => "CRITICAL"

def ofName? (text : Text) : Option Severity :=
  [debug, info, warning, error, critical].find? fun severity => severity.name = text

end Severity

/-- One report. The component is empty when the program as a whole reports. -/
structure LogRecord where
  component : Text
  severity : Severity
  message : Text
deriving DecidableEq

def loggerName : Text := "textlint_ai"

/-- Whether the console shows details, and whether the records also go to a file. -/
structure LogSettings where
  verbose : Bool := false
  toFile : Bool := false
deriving DecidableEq

namespace LogSettings

/-- How many places the records go to. -/
def handlerCount (settings : LogSettings) : Nat :=
  if settings.toFile then 2 else 1

def shows (settings : LogSettings) (record : LogRecord) : Bool :=
  settings.verbose || record.severity ≠ .debug

end LogSettings

namespace LogRecord

/-- The name of the part that reports, as the console shows it. -/
def shownComponent (record : LogRecord) : Text :=
  if record.component.isEmpty then "core" else record.component

def fullName (record : LogRecord) : Text :=
  if record.component.isEmpty then loggerName else loggerName ++ .scalar '.' :: record.component

def consoleLine (verbose : Bool) (record : LogRecord) : Text :=
  let source := if verbose then .scalar ' ' :: record.shownComponent ++ ":".toText else []
  "[textlint-ai] ".toText ++ record.severity.name ++ source ++ .scalar ' ' :: record.message

/-- A record in a file, behind the time. -/
def fileLine (record : LogRecord) : Text :=
  record.severity.name ++ .scalar ' ' :: record.fullName ++ ": ".toText ++ record.message

end LogRecord

namespace LogSettings

def console (settings : LogSettings) (records : List LogRecord) : List Text :=
  (records.filter settings.shows).map (LogRecord.consoleLine settings.verbose)

/-- The lines in the file. One that has no form in UTF-8 is not written. -/
def file (settings : LogSettings) (records : List LogRecord) : List Text :=
  if settings.toFile then
    ((records.filter settings.shows).map LogRecord.fileLine).filter fun line =>
      line.toUtf8?.isSome
  else []

end LogSettings

/-- A text on one line with single spaces, cut to `limit` characters with an ellipsis. The cut
itself is taken at `limit - 3`, which counts from the end where it is negative. -/
def Text.excerpt (text : Text) (limit : Int) : Text :=
  let flat := " ".toText.intercalate text.words
  if flat.length ≤ limit then flat else upTo flat (limit - 3) ++ "...".toText

end CodeProse
