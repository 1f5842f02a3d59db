import CodeProse.Text.Basic
import CodeProse.Text.CharacterClass
import CodeProse.Text.Quoted

/-!
# Grammars of command lines

A command line is a list of arguments. A grammar says which options and operands it takes. An
option is spelled by one of its names, by the beginning of a long name that fits no other, or
as a letter in a cluster of letters; its value is joined on by an equals sign, follows as an
argument of its own, or is the rest of a cluster. Behind two hyphens everything is an operand.
-/

set_option autoImplicit false

namespace CodeProse

inductive OptionKey where
  | help
  | verbose
  | config
  | language
  | apply
  | host
  | port
deriving DecidableEq

/-- An option: its names, and whether it takes a value. -/
structure OptionRule where
  key : OptionKey
  names : List Text
  takesValue : Bool := false
deriving DecidableEq

/-- What a command line takes besides options: one argument, or everything from the first
operand on. -/
inductive Operand where
  | one (name : Text)
  | rest (name : Text)
deriving DecidableEq

structure Grammar where
  program : Text
  options : List OptionRule
  operand : Option Operand := none
deriving DecidableEq

/-- The use of an option in an argument, under one of its names, with the text joined on to
that name. -/
structure Occurrence where
  rule : OptionRule
  name : Text
  attached : Option Text := none
deriving DecidableEq

/-- An argument and what it looks like. The separator is the first argument of two hyphens. -/
inductive Token where
  | separator
  | operand (text : Text)
  | unknown (text : Text)
  | option (text : Text) (occurrence : Occurrence)
deriving DecidableEq

/-- The argument behind which there are no more options. -/
def separatorText : Text := "--"

namespace Token

def text : Token → Text
  | separator => separatorText
  | operand text => text
  | unknown text => text
  | option text _ => text

end Token

namespace OptionRule

/-- The names of an option, as messages show them. -/
def label (rule : OptionRule) : Text :=
  "/".toText.intercalate rule.names

def complaint (rule : OptionRule) (message : Text) : Text :=
  "argument ".toText ++ rule.label ++ ": ".toText ++ message

def ignored (rule : OptionRule) (text : Text) : Text :=
  rule.complaint ("ignored explicit argument ".toText ++ text.quoted)

end OptionRule

namespace Operand

def name : Operand → Text
  | one name => name
  | rest name => name

end Operand

def splitAtEquals (text : Text) : Text × Option Text :=
  match text.span (· ≠ .scalar '=') with
  | (name, _ :: value) => (name, some value)
  | (name, []) => (name, none)

/-- Whether a text is a minus sign with a number: digits, or a point between digits of which
only the second are needed. A line feed may follow. -/
def isNegativeNumber (text : Text) : Bool :=
  let isDigit (char : CodePoint) : Bool := (digitValue? char).isSome
  match text.dropFinalLineFeed with
  | '-' :: number =>
      match number.span isDigit with
      | (digits, []) => !digits.isEmpty
      | (_, '.' :: fraction) => !fraction.isEmpty && fraction.all isDigit
      | _ => false
  | _ => false

namespace Grammar

def named (grammar : Grammar) : List (Text × OptionRule) :=
  grammar.options.flatMap fun rule => rule.names.map fun name => (name, rule)

def rule? (grammar : Grammar) (name : Text) : Option OptionRule :=
  grammar.named.lookup name

/-- The option that an argument spells by a full name. -/
def fullName? (grammar : Grammar) (argument : Text) : Option Occurrence :=
  match grammar.rule? argument, splitAtEquals argument with
  | some rule, _ => some { rule, name := argument }
  | none, (name, some value) =>
      (grammar.rule? name).map fun rule => ⟨rule, name, some value⟩
  | none, (_, none) => none

/-- The options that an argument with two hyphens may spell by the beginning of a name. -/
def abbreviated (grammar : Grammar) (argument : Text) : List Occurrence :=
  let (start, value) := splitAtEquals argument
  (grammar.named.filter fun entry => start.isPrefixOf entry.1).map fun entry =>
    ⟨entry.2, entry.1, value⟩

/-- The options that an argument with one hyphen may spell: by its first letter, the others
joined on, or by the beginning of a name. -/
def clustered (grammar : Grammar) (argument : Text) : List Occurrence :=
  grammar.named.filterMap fun (name, rule) =>
    if name = argument.take 2 then some ⟨rule, name, some (argument.drop 2)⟩
    else if argument.isPrefixOf name then some { rule, name }
    else none

def candidates (grammar : Grammar) (argument : Text) : List Occurrence :=
  if separatorText.isPrefixOf argument then grammar.abbreviated argument
  else grammar.clustered argument

/-- What an argument looks like; more than one fitting option is a mistake. Arguments without
a hyphen, a lone hyphen, and, unless they spell an option, negative numbers and arguments with
a space are operands. -/
def token (grammar : Grammar) (argument : Text) : Except Text Token :=
  match argument with
  | '-' :: _ :: _ =>
      match grammar.fullName? argument with
      | some occurrence => .ok (.option argument occurrence)
      | none =>
          match grammar.candidates argument with
          | [occurrence] => .ok (.option argument occurrence)
          | [] =>
              if isNegativeNumber argument || argument.any (· == .scalar ' ') then
                .ok (.operand argument)
              else .ok (.unknown argument)
          | occurrences =>
              .error
                ("ambiguous option: ".toText ++ argument ++ " could match ".toText ++
                  ", ".toText.intercalate (occurrences.map Occurrence.name))
  | _ => .ok (.operand argument)

def tokens (grammar : Grammar) : List Text → Except Text (List Token)
  | [] => .ok []
  | argument :: rest =>
      if argument = separatorText then .ok (.separator :: rest.map .operand)
      else do
        let token ← grammar.token argument
        return token :: (← grammar.tokens rest)

end Grammar

end CodeProse
