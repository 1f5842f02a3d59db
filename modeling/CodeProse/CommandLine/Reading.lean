import CodeProse.CommandLine.Grammar

/-!
# Reading command lines

The arguments are read from the front. Each option and each operand is handed to an action, in
the order in which they are met; what the grammar has no use for is left over. The reading
stops at the first mistake.
-/

set_option autoImplicit false

namespace CodeProse

/-- Why the reading of a command line stops: help is asked for, or a program is misused. -/
inductive Stop where
  | help
  | misuse (program message : Text)
deriving DecidableEq

/-- An option with its value, or the operands. -/
inductive Item where
  | option (rule : OptionRule) (value : Option Text)
  | operands (texts : List Text)
deriving DecidableEq

/-- The options that one argument uses, and the last of them where it waits for its value. -/
structure Cluster where
  items : List Item := []
  waiting : Option OptionRule := none
deriving DecidableEq

/-- A command line that has been read: the state behind all actions, what is left over, and
the operand that is still missing. -/
structure CommandReading (α : Type) where
  state : α
  left : List Text
  missing : Option Operand

/-- The value that a text gives to an option. Two hyphens give it none. -/
def givenValue (text : Text) : Option Text :=
  if text = separatorText then none else some text

namespace Cluster

def alone (rule : OptionRule) : Cluster :=
  if rule.takesValue then { waiting := some rule } else { items := [.option rule none] }

/-- The cluster behind one more option without a value. -/
def behind (rule : OptionRule) (cluster : Cluster) : Cluster :=
  { cluster with items := .option rule none :: cluster.items }

end Cluster

def isShortName : Text → Bool
  | '-' :: char :: _ => char ≠ '-'
  | _ => false

def leave (texts : List Text) {α : Type} (reading : CommandReading α) : CommandReading α :=
  { reading with left := texts ++ reading.left }

namespace Grammar

/-- The options in an argument that joins a text on to a name. Behind a letter that takes no
value, each letter of the text is an option of its own. -/
def expand (grammar : Grammar) (rule : OptionRule) (name : Text) : Text → Except Text Cluster
  | [] =>
      if rule.takesValue then .ok { items := [.option rule (some [])] }
      else .error (rule.ignored [])
  | char :: rest =>
      if rule.takesValue then .ok { items := [.option rule (givenValue (char :: rest))] }
      else
        match if isShortName name then grammar.rule? ['-', char] else none with
        | none => .error (rule.ignored (char :: rest))
        | some next =>
            (if rest.isEmpty then .ok (.alone next) else grammar.expand next ['-', char] rest).map
              (Cluster.behind rule)

def cluster (grammar : Grammar) (occurrence : Occurrence) : Except Text Cluster :=
  match occurrence.attached with
  | none => .ok (.alone occurrence.rule)
  | some text => grammar.expand occurrence.rule occurrence.name text

variable {α : Type}

/-- Reads tokens, with an operand that may still be missing. The separator goes with the
operand it stands next to. -/
def readTokens (grammar : Grammar) (act : α → Item → Except Stop α) :
    Option Operand → List Token → α → Except Stop (CommandReading α)
  | operand, [], state => .ok ⟨state, [], operand⟩
  | operand, .unknown text :: rest, state =>
      (grammar.readTokens act operand rest state).map (leave [text])
  | operand, .option _ occurrence :: rest, state =>
      match grammar.cluster occurrence with
      | .error message => .error (.misuse grammar.program message)
      | .ok cluster =>
          match cluster.waiting, rest with
          | none, rest => do
              grammar.readTokens act operand rest (← cluster.items.foldlM act state)
          | some rule, .operand value :: rest => do
              let items := cluster.items ++ [.option rule (some value)]
              grammar.readTokens act operand rest (← items.foldlM act state)
          | some rule, _ =>
              .error (.misuse grammar.program (rule.complaint "expected one argument"))
  | some (.rest _), .operand text :: rest, state => do
      return ⟨← act state (.operands (text :: rest.map Token.text)), [], none⟩
  | some (.rest _), .separator :: .operand text :: rest, state => do
      return ⟨← act state (.operands (separatorText :: text :: rest.map Token.text)), [], none⟩
  | some (.one _), .separator :: .operand text :: rest, state => do
      grammar.readTokens act none rest (← act state (.operands [text]))
  | some (.one _), .operand text :: .separator :: rest, state => do
      grammar.readTokens act none rest (← act state (.operands [text]))
  | some (.one _), .operand text :: rest, state => do
      grammar.readTokens act none rest (← act state (.operands [text]))
  | operand, token :: rest, state =>
      (grammar.readTokens act operand rest state).map (leave [token.text])

/-- Reads a command line. The result is the state behind all actions and what is left over. -/
def read (grammar : Grammar) (act : α → Item → Except Stop α) (start : α)
    (arguments : List Text) : Except Stop (α × List Text) :=
  match grammar.tokens arguments with
  | .error message => .error (.misuse grammar.program message)
  | .ok tokens =>
      match grammar.readTokens act grammar.operand tokens start with
      | .error stop => .error stop
      | .ok ⟨_, _, some operand⟩ =>
          .error
            (.misuse grammar.program
              ("the following arguments are required: ".toText ++ operand.name))
      | .ok ⟨state, left, none⟩ => .ok (state, left)

end Grammar

end CodeProse
