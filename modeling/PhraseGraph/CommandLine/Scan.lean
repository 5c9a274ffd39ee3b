import PhraseGraph.CommandLine.Option

/-!
# Scanning the command line

The words of a level are read from left to right. A word that begins with two dashes names an option,
perhaps with a value behind an equals sign; a word that begins with one dash has the letters of
options, where a value may follow at once. Any other word is the value of the option before it, or a
command, or an argument. After a word of two dashes only arguments follow.

An option whose value is a word of its own takes effect only when the next option or argument is
read, or the level ends. So its value is checked late: a fault further on may come first.
-/

namespace PhraseGraph.CommandLine

/-- What is read of a level so far. -/
structure Scan where
  /-- The options that took effect, with their values. -/
  given : List (OptionId × String) := []
  /-- The option that is still to take effect, with its value if that is there. -/
  pending : Option (OptionSpec × Option String) := none
  /-- Whether only arguments follow. -/
  onlyArguments : Bool := false
  /-- The arguments. -/
  arguments : List String := []
deriving Repr

namespace Scan

/-- The texts between the commas, where `item` is the current one backwards. -/
def splitCommas (item : List Char) : List Char → List String
  | [] => [String.ofList item.reverse]
  | c :: rest =>
    if c == ',' then String.ofList item.reverse :: splitCommas [] rest
    else splitCommas (c :: item) rest

/-- Whether an option has taken effect. -/
def has (s : Scan) (o : OptionId) : Bool := s.given.any fun entry => entry.1 == o

/-- Checks the values of an option, and takes them up. -/
def takeValues (s : Scan) (o : OptionId) : List String → Except UsageFault Scan
  | [] => .ok s
  | value :: rest => do
    o.check value
    takeValues { s with given := s.given ++ [(o, value)] } o rest

/-- Lets an option take effect, with the value that it takes. -/
def apply (s : Scan) (o : OptionSpec) (value : String) : Except UsageFault Scan :=
  match o.arity with
  | .stop fault => .error fault
  | .counted => .ok { s with given := s.given ++ [(o.id, value)] }
  | .flag =>
    if s.has o.id then .error .conflict else .ok { s with given := s.given ++ [(o.id, value)] }
  | .single => if s.has o.id then .error .conflict else s.takeValues o.id [value]
  | .repeated => s.takeValues o.id [value]
  | .separated => s.takeValues o.id (splitCommas [] value.toList)

/-- Lets the pending option take effect. It has to have its value by now. -/
def settle (s : Scan) : Except UsageFault Scan :=
  match s.pending with
  | none => .ok s
  | some (_, none) => .error .invalidValue
  | some (o, some value) => { s with pending := none }.apply o value

/-- Whether the pending option waits for its value. -/
def awaits (s : Scan) : Option OptionSpec :=
  match s.pending with
  | some (o, none) => some o
  | _ => none

/-- Reads an option that takes a value, which may be attached. -/
def readValued (s : Scan) (o : OptionSpec) (attached : Option String) : Except UsageFault Scan := do
  let s ← s.settle
  match attached with
  | some value => s.apply o value
  | none => return { s with pending := some (o, none) }

/-- Reads an option that is written as a word, perhaps with a value. -/
def readLong (l : Level) (s : Scan) (word : List Char) : Except UsageFault Scan :=
  let (name, value) := match splitAtSign? '=' word with
    | some (name, value) => (name, some (String.ofList value))
    | none => (word, none)
  match l.ofLong? (String.ofList name) with
  | none => .error .unknownArgument
  | some o =>
    if o.arity.takesValue then s.readValued o value
    else
      match value with
      | some _ => .error .surplusValue
      | none => do (← s.settle).apply o ""

/-- The value that the letters after that of an option are, if there are any. An equals sign in
    front does not belong to it. -/
def attachedValue? : List Char → Option String
  | [] => none
  | '=' :: value => some (String.ofList value)
  | value => some (String.ofList value)

/-- Reads options that are written as letters. -/
def readShort (l : Level) (s : Scan) : List Char → Except UsageFault Scan
  | [] => .ok s
  | c :: rest =>
    match l.ofShort? c with
    | none => .error .unknownArgument
    | some o =>
      if o.arity.takesValue then s.readValued o (attachedValue? rest)
      else do readShort l (← (← s.settle).apply o "") rest

/-- Reads an argument, if the level has room for it. -/
def readArgument (l : Level) (s : Scan) (word : String) : Except UsageFault Scan :=
  if s.arguments.length < l.arguments then do
    let s ← s.settle
    return { s with arguments := s.arguments ++ [word] }
  else if l.commands.isEmpty || (s.onlyArguments && l.commands.contains word) then
    .error .unknownArgument
  else .error .unknownCommand

/-- Reads a word that is no command, before only arguments follow. -/
def readWord (l : Level) (s : Scan) (word : String) : Except UsageFault Scan :=
  match word.toList with
  | ['-', '-'] => .ok { s with onlyArguments := true }
  | '-' :: '-' :: name => s.readLong l name
  | '-' :: c :: letters => s.readShort l (c :: letters)
  | _ =>
    match s.awaits with
    | some o => .ok { s with pending := some (o, some word) }
    | none => s.readArgument l word

end Scan

/-- Scans the words of a level up to its end, or up to a command, which comes with the words after
    it. -/
def Level.scan (l : Level) (s : Scan) :
    List String → Except UsageFault (Scan × Option (String × List String))
  | [] => .ok (s, none)
  | word :: rest =>
    if s.onlyArguments then do l.scan (← s.readArgument l word) rest
    else if s.awaits.isNone && l.commands.contains word then .ok (s, some (word, rest))
    else do l.scan (← s.readWord l word) rest

end PhraseGraph.CommandLine
