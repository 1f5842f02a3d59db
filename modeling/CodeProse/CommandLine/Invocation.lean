import CodeProse.CommandLine.Reading
import CodeProse.Numeric.Reading

/-!
# Invocations

The commands of the program and their options. A command line names a command and, behind it,
what the command needs; the verbose option may stand before or behind the name. What nothing
has a use for is refused when all the rest has been read.
-/

set_option autoImplicit false

namespace CodeProse

def programName : Text := "textlint-ai"

inductive CommandName where
  | scan
  | check
  | analyze
  | serve
deriving DecidableEq

/-- A file to work on, with the settings and the language to use for it. -/
structure Target where
  path : Text
  config : Option Text := none
  language : Option Text := none
deriving DecidableEq

inductive Task where
  | scan
  | check (apply : Bool)
  | analyze
deriving DecidableEq

inductive Command where
  | work (task : Task) (target : Target)
  | serve (host : Option Text) (port : Option Int)
deriving DecidableEq

/-- A command, and whether it is to tell what it does. -/
structure Invocation where
  command : Command
  verbose : Bool := false
deriving DecidableEq

namespace CommandName

def all : List CommandName :=
  [scan, check, analyze, serve]

def text : CommandName → Text
  | scan => "scan"
  | check => "check"
  | analyze => "analyze"
  | serve => "serve"

def ofText? (text : Text) : Option CommandName :=
  all.find? fun name => name.text = text

end CommandName

def helpRule : OptionRule := ⟨.help, ["-h", "--help"], false⟩

def verboseRule : OptionRule := ⟨.verbose, ["-v", "--verbose"], false⟩

def targetRules : List OptionRule :=
  [helpRule, verboseRule, ⟨.config, ["--config"], true⟩, ⟨.language, ["--language"], true⟩]

def portRule : OptionRule := ⟨.port, ["--port"], true⟩

def CommandName.rules : CommandName → List OptionRule
  | .scan | .analyze => targetRules
  | .check => targetRules ++ [⟨.apply, ["--apply"], false⟩]
  | .serve => [helpRule, verboseRule, ⟨.host, ["--host"], true⟩, portRule]

def CommandName.grammar (name : CommandName) : Grammar where
  program := programName ++ .scalar ' ' :: name.text
  options := name.rules
  operand := if name = .serve then none else some (.one "path")

def programGrammar : Grammar where
  program := programName
  options := [helpRule, verboseRule]
  operand := some (.rest "command")

/-- What the arguments of a command have said so far. -/
structure CommandArguments where
  path : Text := []
  config : Option Text := none
  language : Option Text := none
  apply : Bool := false
  host : Option Text := some "127.0.0.1"
  port : Option Int := some 8000
  verbose : Bool := false
deriving DecidableEq

namespace CommandName

def command (name : CommandName) (arguments : CommandArguments) : Command :=
  let target : Target := ⟨arguments.path, arguments.config, arguments.language⟩
  match name with
  | scan => .work .scan target
  | check => .work (.check arguments.apply) target
  | analyze => .work .analyze target
  | serve => .serve arguments.host arguments.port

def readPort (name : CommandName) (value : Text) : Except Stop Int :=
  match readInt? value with
  | some port => .ok port
  | none =>
      .error
        (.misuse name.grammar.program
          (portRule.complaint ("invalid int value: ".toText ++ value.quoted)))

/-- Takes up an item of a command line. -/
def take (name : CommandName) (arguments : CommandArguments) :
    Item → Except Stop CommandArguments
  | .operands texts => .ok { arguments with path := texts.headD [] }
  | .option rule value =>
      match rule.key with
      | .help => .error .help
      | .verbose => .ok { arguments with verbose := true }
      | .config => .ok { arguments with config := value }
      | .language => .ok { arguments with language := value }
      | .apply => .ok { arguments with apply := true }
      | .host => .ok { arguments with host := value }
      | .port => do
          return { arguments with port := ← value.mapM name.readPort }

end CommandName

/-- What the arguments of the program have said so far: whether the log is full, the command,
and what that had no use for. -/
structure ProgramArguments where
  verbose : Bool := false
  command : Option Command := none
  left : List Text := []
deriving DecidableEq

def unknownCommand (name : Text) : Text :=
  "argument command: invalid choice: ".toText ++ name.quoted ++ " (choose from ".toText ++
    ", ".toText.intercalate (CommandName.all.map fun name => name.text.quoted) ++ ")".toText

namespace ProgramArguments

def takeCommand (arguments : ProgramArguments) (name : Text) (rest : List Text) :
    Except Stop ProgramArguments :=
  match CommandName.ofText? name with
  | none => .error (.misuse programName (unknownCommand name))
  | some name => do
      let (given, left) ← name.grammar.read name.take {} rest
      return {
        verbose := arguments.verbose || given.verbose
        command := some (name.command given)
        left }

def take (arguments : ProgramArguments) : Item → Except Stop ProgramArguments
  | .operands [] => .ok arguments
  | .operands (name :: rest) => arguments.takeCommand name rest
  | .option rule _ =>
      if rule.key = .help then .error .help else .ok { arguments with verbose := true }

end ProgramArguments

def Invocation.ofArguments (arguments : List Text) : Except Stop Invocation := do
  let (given, left) ← programGrammar.read ProgramArguments.take {} arguments
  match given.command, left ++ given.left with
  | some command, [] => return ⟨command, given.verbose⟩
  | _, left =>
      throw (.misuse programName ("unrecognized arguments: ".toText ++ " ".toText.intercalate left))

end CodeProse
