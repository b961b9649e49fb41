import GraphLowering.Decimal.Literal
import GraphLowering.Shape

/-!
# Options of a command line

Options stand as `--name value` or `--name=value`; `-o` is short for `--output`, `-V` for
`--version` and `-h` for `--help`. A flag has no value. A list of sizes is given in pieces between
commas and over several occurrences of its option; any other option may be given once. A side of a
command line is a run of options up to the first word that is not one.
-/

namespace GraphLowering.Command

/-! ## Values -/

/-- A size in decimal digits, with an optional plus sign. -/
def size? (text : String) : Option Nat :=
  let digits := match text.toList with
    | '+' :: rest => rest
    | digits => digits
  if digits.isEmpty ∨ ¬ digits.all Char.isDigit ∨ maxSize < Decimal.ofDigits digits then none
  else some (Decimal.ofDigits digits)

def pieces : List Char → List (List Char)
  | [] => [[]]
  | c :: rest =>
    match pieces rest with
    | [] => [[c]]
    | p :: ps => if c = ',' then [] :: p :: ps else (c :: p) :: ps

/-- The sizes in a list of texts, each of which is one or more pieces. -/
def sizes? (texts : List String) : Option (List Nat) :=
  (texts.flatMap fun text => pieces text.toList).mapM fun piece => size? (String.ofList piece)

inductive OptionForm where
  /-- No value. -/
  | flag
  | file
  | float
  | size
  /-- A list of sizes, which may be given in several parts. -/
  | sizes
deriving DecidableEq

def OptionForm.accepts : OptionForm → String → Bool
  | flag, _ => false
  | file, text => text ≠ ""
  | float, text => (Decimal.readFloat32? text).isSome
  | size, text => (size? text).isSome
  | sizes, text => (sizes? [text]).isSome

abbrev OptionTable := List (String × OptionForm)

/-- An option with its value; the value of a flag is empty. -/
abbrev Occurrence := String × String

def valuesOf (given : List Occurrence) (name : String) : List String :=
  (given.filter (·.1 == name)).map (·.2)

/-! ## Scanning -/

inductive Token where
  /-- An option, with its value if that is part of the argument. -/
  | option (name : String) (value : Option String)
  /-- `--`, after which nothing is an option. -/
  | endOfOptions
  | word (text : String)
deriving DecidableEq

namespace Token

/-- An option by its letter. What follows the letter of `-o` is its value, after an equals sign if
there is one. -/
def ofLetter (letter : Char) (attached : List Char) : Token :=
  match letter, attached with
  | 'h', _ => .option "help" none
  | 'V', _ => .option "version" none
  | 'o', [] => .option "output" none
  | 'o', '=' :: value => .option "output" (some (String.ofList value))
  | 'o', value => .option "output" (some (String.ofList value))
  | _, _ => .option (String.singleton letter) none

def ofName (text : List Char) : Token :=
  let name := String.ofList (text.takeWhile (· ≠ '='))
  match text.dropWhile (· ≠ '=') with
  | [] => .option name none
  | _ :: value => .option name (some (String.ofList value))

/-- What an argument is. A lone `-` is a word. -/
def ofArgument (argument : String) : Token :=
  match argument.toList with
  | ['-', '-'] => .endOfOptions
  | '-' :: '-' :: rest => ofName rest
  | '-' :: letter :: rest => ofLetter letter rest
  | _ => .word argument

end Token

def isValue (argument : String) : Bool :=
  Token.ofArgument argument = .word argument

structure Side where
  options : OptionTable
  /-- The options that have been given, in their order. -/
  given : List Occurrence

/-- Adds an option with a value, unless it is there already and may be given once only. -/
def Side.add? (s : Side) (name : String) (form : OptionForm) (value : String) : Option Side :=
  if form ≠ .sizes ∧ s.given.any (·.1 == name) then none
  else some { s with given := s.given ++ [(name, value)] }

def Side.addValue? (s : Side) (name : String) (form : OptionForm) (value : String) : Option Side :=
  if form.accepts value then s.add? name form value else none

inductive SideEnd where
  | version
  | help
  /-- The options of the side, the first word after them, and what follows it. -/
  | options (given : List Occurrence) (word : Option String) (rest : List String)

/-- Reads the options of one side of the command line, up to the first word. Only the first side may
ask for the version. -/
def scan (first : Bool) (side : Side) : List String → Option SideEnd
  | [] => some (.options side.given none [])
  | argument :: rest =>
    match Token.ofArgument argument with
    | .word text => some (.options side.given (some text) rest)
    | .endOfOptions => if rest.isEmpty then some (.options side.given none []) else none
    | .option name value =>
      if name = "help" ∧ value = none then some .help
      else if name = "version" ∧ value = none ∧ first then some .version
      else
        match side.options.lookup name, value, rest with
        | none, _, _ => none
        | some .flag, none, rest => (side.add? name .flag "").bind fun side => scan first side rest
        | some form, some value, rest =>
          (side.addValue? name form value).bind fun side => scan first side rest
        | some _, none, [] => none
        | some form, none, value :: rest =>
          if isValue value then (side.addValue? name form value).bind fun side => scan first side rest
          else none

end GraphLowering.Command
