import CodeProse.Cache.Basic
import CodeProse.Files.TextFile
import CodeProse.Json.Reader
import CodeProse.Numeric.Reading
import CodeProse.Text.Quoted
import CodeProse.Yaml.Cursor

/-!
# Failures

Why an operation gives no result. The library reports failures of its own kinds; a service may
fail in ways that it names itself; and some inputs cannot be computed with.
-/

set_option autoImplicit false

namespace CodeProse

inductive FailureKind where
  | configuration
  | transient
  | parse
  | cacheImport
  | noActiveTarget
  | undoMismatch
  | general
deriving DecidableEq

/-- Inputs that cannot be computed with. -/
inductive Fault where
  | undecodable (fault : DecodeFault)
  | integerTooLong (digits : Nat)
  | integerUnwritable
  | integerTooLarge
  | quotientTooLarge
  | unknownAddress (address : Text)
  | emptyStep
  | negativeLimit
  | missingItem
  | unreadableFile (fault : FileFault)
  | unencodable
  | unreadableSettings (fault : Yaml.Fault)
  | nestedTooDeep (collection : Text)
deriving DecidableEq

/-- Why an operation gives no result. -/
inductive Failure where
  | reported (kind : FailureKind) (message : Text)
  | foreign (name message : Text)
  | fault (cause : Fault)
deriving DecidableEq

def DecodeFault.message (fault : DecodeFault) : Text :=
  let place :=
    if fault.width = 1 then
      "byte 0x".toText ++ Text.hexDigits 2 fault.byte.toNat ++ " in position ".toText ++
        Text.ofNat fault.offset
    else
      "bytes in position ".toText ++ Text.ofNat fault.offset ++
        .scalar '-' :: Text.ofNat (fault.offset + fault.width - 1)
  fault.encoding.quoted ++ " codec can't decode ".toText ++ place ++ ": ".toText ++ fault.reason

def tooManyDigits (detail : Text) : Text :=
  "Exceeds the limit (".toText ++ Text.ofNat integerDigitLimit ++
    " digits) for integer string conversion".toText ++ detail ++
    "; use sys.set_int_max_str_digits() to increase the limit".toText

def Fault.message : Fault → Text
  | undecodable fault => fault.message
  | integerTooLong digits =>
      tooManyDigits (": value has ".toText ++ Text.ofNat digits ++ " digits".toText)
  | integerUnwritable => tooManyDigits []
  | integerTooLarge => "int too large to convert to float"
  | quotientTooLarge => "integer division result too large for a float"
  | unknownAddress address => "unknown url type: ".toText ++ address.quoted
  | emptyStep => "range() arg 3 must not be zero"
  | negativeLimit => "maxlen must be non-negative"
  | missingItem => "list index out of range"
  | unreadableFile _ => "file cannot be read"
  | unencodable => "text cannot be encoded"
  | unreadableSettings _ => "settings cannot be read"
  | nestedTooDeep collection =>
      "maximum recursion depth exceeded while decoding a JSON ".toText ++ collection ++
        " from a unicode string".toText

def OpenFault.toFault : OpenFault → Fault
  | .file fault => .unreadableFile fault
  | .undecodable fault => .undecodable fault

def CacheFault.toFault : CacheFault → Fault
  | .unencodable => .unencodable
  | .unranked => .quotientTooLarge

/-- The fault of a JSON text that cannot be computed with; none for one that is malformed. -/
def Fault.ofReadError? : Json.ReadError → Option Fault
  | .malformed => none
  | .integerTooLong digits => some (.integerTooLong digits)
  | .nestedTooDeep collection => some (.nestedTooDeep collection)

namespace Failure

def message : Failure → Text
  | reported _ message => message
  | foreign _ message => message
  | fault cause => cause.message

/-- Whether a failure lies in the configuration, so that trying again is of no use. -/
def isConfiguration : Failure → Bool
  | reported .configuration _ => true
  | _ => false

def ofFile (fault : FileFault) : Failure :=
  .fault (.unreadableFile fault)

def emptyReply : Failure :=
  .reported .transient "Correction service returned an empty response"

/-- The failure of a request that was never made. -/
def exhausted : Failure :=
  .reported .transient "Correction failed after retries"

end Failure

end CodeProse
