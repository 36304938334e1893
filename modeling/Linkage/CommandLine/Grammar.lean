import Linkage.Number.Reading
import Linkage.Text.Quoted
import Linkage.Text.Sorted

/-!
# Grammars of command lines

A command line is read word by word. A word that begins with a dash is an option: one that is
spelled out, one that is spelled by the beginning of a single long spelling, or one that no
grammar knows. An option may take an argument: the next word, or what follows an equals sign.
Short options without arguments may share a dash, and an equals sign does not keep them from
it. A negative number, and a word with a blank, is no option unless it is spelled like one.
After a divider of two dashes no word is an option; a divider that is attached to an option
leaves it with nothing.

All words are told apart before the first one is acted on. A grammar may end at its first word
that is no option: that word is a command, and the rest is left for the grammar of the command.
-/

namespace Linkage.CommandLine

/-- What kind of argument an option takes. -/
inductive ArgumentKind where
  | text | number | integer
  deriving DecidableEq, Repr

/-- What an option does. -/
inductive Effect where
  /-- It asks for help. -/
  | help
  /-- It leaves a mark. -/
  | mark
  /-- It stores its argument. -/
  | store (kind : ArgumentKind)
  deriving DecidableEq, Repr

/-- An **option** of a grammar. -/
structure OptionRule where
  /-- Its spellings, the long one last. -/
  spellings : List String
  /-- What it does. -/
  effect : Effect
  /-- Whether it has to be given. -/
  isRequired : Bool
  deriving DecidableEq, Repr

namespace OptionRule

/-- The name of an option. -/
def key (o : OptionRule) : String := o.spellings.getLast?.getD ""

/-- All spellings of an option. -/
def title (o : OptionRule) : String := Text.join "/" o.spellings

end OptionRule

/-- A **grammar** of command lines. -/
structure Grammar where
  /-- The name of the program. -/
  program : String
  /-- The options. -/
  options : List OptionRule
  /-- The commands that may follow the options. -/
  commands : List String

/-- Why a command line is refused. -/
inductive Refusal where
  /-- An option is the beginning of several spellings. -/
  | ambiguous (given : String) (spellings : List String)
  /-- An option lacks its argument. -/
  | noArgument (o : OptionRule)
  /-- An option that takes no argument has one. -/
  | needlessArgument (o : OptionRule) (given : String)
  /-- An argument is not of the kind that its option takes. -/
  | badArgument (o : OptionRule) (kind : ArgumentKind) (given : String)
  /-- Options that have to be given are missing. -/
  | missing (options : List OptionRule)
  /-- There is no such command. -/
  | unknownCommand (given : String) (commands : List String)
  /-- Some words mean nothing. -/
  | unrecognized (words : List String)
  deriving DecidableEq, Repr

/-- The name of a kind of argument. -/
def ArgumentKind.label : ArgumentKind → String
  | text => "str"
  | number => "float"
  | integer => "int"

/-- The wording for a command line that is refused. -/
def Refusal.message : Refusal → String
  | ambiguous given spellings =>
    "ambiguous option: " ++ given ++ " could match " ++ Text.join ", " spellings
  | noArgument o => "argument " ++ o.title ++ ": expected one argument"
  | needlessArgument o given =>
    "argument " ++ o.title ++ ": ignored explicit argument " ++ Text.quoted given
  | badArgument o kind given =>
    "argument " ++ o.title ++ ": invalid " ++ kind.label ++ " value: " ++ Text.quoted given
  | missing options =>
    "the following arguments are required: " ++ Text.join ", " (options.map OptionRule.title)
  | unknownCommand given commands =>
    "argument command: invalid choice: " ++ Text.quoted given ++ " (choose from " ++
      Text.join ", " (commands.map Text.quoted) ++ ")"
  | unrecognized words => "unrecognized arguments: " ++ Text.join " " words

/-- Why reading a command line ends early. -/
inductive Stop where
  /-- Help is asked for. -/
  | help
  /-- The command line is refused. -/
  | refused (r : Refusal)
  deriving DecidableEq, Repr

/-- What a word of a command line is. -/
inductive Token where
  /-- No option. -/
  | word
  /-- The divider. -/
  | divider
  /-- An option that the grammar does not know. -/
  | unknown
  /-- An option, how it is spelled, and the argument attached to it. -/
  | option (o : OptionRule) (spelling : String) (attached : Option (List Char))

/-- What an option has been given. -/
inductive Given where
  /-- Nothing, where an argument belongs. -/
  | nothing
  /-- A mark. -/
  | mark
  /-- A text. -/
  | text (s : String)
  /-- A number. -/
  | number (x : Float)
  /-- An integer. -/
  | integer (n : Int)

/-- What has been read of a command line. -/
structure Arguments where
  /-- What the options have been given, by their names and in order. -/
  settings : List (String × Given) := []
  /-- The words that mean nothing. -/
  strays : List String := []
  /-- The command and the words after it. -/
  command : Option (String × List String) := none

namespace Grammar

variable (g : Grammar)

/-- All spellings with their options. -/
def spelled : List (String × OptionRule) :=
  g.options.flatMap fun o => o.spellings.map fun s => (s, o)

/-- The divider between options and other words. -/
def dividerWord : String := "--"

/-- Whether a word has two dashes at its beginning. -/
def isLong (cs : List Char) : Bool := ['-', '-'].isPrefixOf cs

/-- What stands before and after the first equals sign of a word. -/
def cutAtEquals (cs : List Char) : Option (List Char × List Char) :=
  match cs.dropWhile (· != '=') with
  | _ :: after => some (cs.takeWhile (· != '='), after)
  | [] => none

/-- The options that a word may be short for, each with its spelling and an argument. -/
def candidates (cs : List Char) : List (OptionRule × String × Option (List Char)) :=
  if isLong cs then
    let (start, attached) :=
      match cutAtEquals cs with
      | some (before, after) => (before, some after)
      | none => (cs, none)
    (g.spelled.filter fun s => start.isPrefixOf s.1.toList).map fun s => (s.2, s.1, attached)
  else
    g.spelled.filterMap fun s =>
      if s.1.toList = cs.take 2 then some (s.2, s.1, some (cs.drop 2))
      else if cs.isPrefixOf s.1.toList then some (s.2, s.1, none)
      else none

/-- Whether a character is a decimal digit of any script. -/
def isDecimal (c : Char) : Bool := (Text.decimalValue? c).isSome

/-- Digits with at most one point, which is not the last character. -/
def isDecimalFraction (cs : List Char) : Bool :=
  match cs.dropWhile isDecimal with
  | [] => !cs.isEmpty
  | c :: after => c == '.' && !after.isEmpty && after.all isDecimal

/-- Whether a word is a negative number; a line break may follow it. -/
def isNegativeNumber (cs : List Char) : Bool :=
  match cs with
  | '-' :: rest =>
    isDecimalFraction rest || (rest.getLast? == some '\n' && isDecimalFraction rest.dropLast)
  | _ => false

/-- What a word that begins with a dash and is not spelled out is. -/
def abbreviated (given : String) (cs : List Char) : Except Refusal Token :=
  match g.candidates cs with
  | [(o, spelling, attached)] => .ok (.option o spelling attached)
  | [] => .ok (if isNegativeNumber cs || cs.contains ' ' then .word else .unknown)
  | several => .error (.ambiguous given (several.map fun c => c.2.1))

/-- What a word is. -/
def token (given : String) : Except Refusal Token :=
  match given.toList with
  | '-' :: rest =>
    match g.spelled.lookup given with
    | some o => .ok (.option o given none)
    | none =>
      if rest.isEmpty then .ok .word
      else
        match cutAtEquals ('-' :: rest) with
        | some (before, after) =>
          match g.spelled.lookup (String.ofList before) with
          | some o => .ok (.option o (String.ofList before) (some after))
          | none => g.abbreviated given ('-' :: rest)
        | none => g.abbreviated given ('-' :: rest)
  | _ => .ok .word

/-- What the words of a command line are. -/
def tokens : List String → Except Refusal (List (String × Token))
  | [] => .ok []
  | w :: rest =>
    if w = dividerWord then .ok ((w, .divider) :: rest.map fun v => (v, .word))
    else do
      let t ← g.token w
      return (w, t) :: (← tokens rest)

/-- The options behind a shared dash, from the one that is spelled out on, each with its
argument. An option that takes an argument takes all that is attached. Behind one that takes
none, every letter has to be an option in turn; otherwise, behind a long spelling, or when the
attached argument is empty, what is attached is refused. -/
def bundle (o : OptionRule) (spelling : String) :
    List Char → Except Refusal (List (OptionRule × Option String))
  | [] =>
    match o.effect with
    | .store _ => .ok [(o, some "")]
    | _ => .error (.needlessArgument o "")
  | c :: rest =>
    let attached := String.ofList (c :: rest)
    match o.effect with
    | .store _ => .ok [(o, some attached)]
    | _ =>
      let next := String.ofList ['-', c]
      match if isLong spelling.toList then none else g.spelled.lookup next with
      | none => .error (.needlessArgument o attached)
      | some o' =>
        if rest.isEmpty then .ok [(o, none), (o', none)]
        else (bundle o' next rest).map ((o, none) :: ·)

/-- An argument as a value of the kind that its option takes. A divider is no argument. -/
def convert (o : OptionRule) (kind : ArgumentKind) (given : String) : Except Stop Given :=
  if given = dividerWord then .ok .nothing
  else match kind with
  | .text => .ok (.text given)
  | .number =>
    match readFloat? given with
    | some x => .ok (.number x)
    | none => .error (.refused (.badArgument o kind given))
  | .integer =>
    match readInt? given with
    | some n => .ok (.integer n)
    | none => .error (.refused (.badArgument o kind given))

/-- The arguments after an option has acted. -/
def act (a : Arguments) (o : OptionRule) (given : Option String) : Except Stop Arguments :=
  match o.effect with
  | .help => .error .help
  | .mark => .ok { a with settings := a.settings ++ [(o.key, .mark)] }
  | .store kind =>
    match given with
    | none => .error (.refused (.noArgument o))
    | some s => do
      let v ← convert o kind s
      return { a with settings := a.settings ++ [(o.key, v)] }

/-- Reads words that have been told apart, while an option may be waiting for its argument. -/
def readTokens : Arguments → Option OptionRule → List (String × Token) → Except Stop Arguments
  | a, none, [] => .ok a
  | _, some o, [] => .error (.refused (.noArgument o))
  | a, some o, (w, .word) :: rest => do readTokens (← act a o (some w)) none rest
  | _, some o, _ :: _ => .error (.refused (.noArgument o))
  | a, none, (w, .word) :: rest =>
    if g.commands.isEmpty then readTokens { a with strays := a.strays ++ [w] } none rest
    else .ok { a with command := some (w, rest.map Prod.fst) }
  | a, none, (w, .divider) :: rest =>
    if g.commands.isEmpty || rest.isEmpty then
      readTokens { a with strays := a.strays ++ [w] } none rest
    else .ok { a with command := some (w, rest.map Prod.fst) }
  | a, none, (w, .unknown) :: rest => readTokens { a with strays := a.strays ++ [w] } none rest
  | a, none, (_, .option o spelling attached) :: rest =>
    match attached with
    | some cs =>
      match g.bundle o spelling cs with
      | .error r => .error (.refused r)
      | .ok acts => do
        let a ← acts.foldlM (fun a e => act a e.1 e.2) a
        readTokens a none rest
    | none =>
      match o.effect with
      | .store _ => readTokens a (some o) rest
      | _ => do readTokens (← act a o none) none rest

/-- Reads a command line: all words are told apart first, and last all options that have to be
given must have been. -/
def read (words : List String) : Except Stop Arguments := do
  match g.tokens words with
  | .error r => throw (.refused r)
  | .ok ts =>
    let a ← g.readTokens {} none ts
    match g.options.filter fun o => o.isRequired && !(a.settings.any fun s => s.1 == o.key) with
    | [] => return a
    | missing => throw (.refused (.missing missing))

end Grammar

end Linkage.CommandLine
