import InventoryFeed.Text.Ascii
import InventoryFeed.Word

/-!
# The grammar of command lines

A form says what may follow a command: options, one argument by position, or a further command. A
long option takes its value after `=` or as the next word, a letter takes it at once or as the next
word, and letters without a value may share one dash. A word that an option still waits for is its
value even if it names a command; after `--` every word is an argument by position. An option's value
is checked when the next option or argument comes, or at the end.
-/

namespace InventoryFeed.CommandLine

/-- Why words make no command. -/
inductive UsageError where
  /-- Help was asked for. -/
  | helpWanted
  /-- There is nothing where a command is needed. -/
  | nothingGiven
  /-- There are options where a command is needed, but no command. -/
  | missingCommand
  /-- There is no such command. -/
  | unknownCommand
  /-- There is no such option, or one argument too many. -/
  | unknownArgument
  /-- An option or argument that is needed is missing. -/
  | missingArgument
  /-- A value is missing or none of those that are allowed. -/
  | badValue
  /-- A value is no number in range. -/
  | badNumber
  /-- An option without a value was given one. -/
  | unwantedValue
  /-- An option was given twice. -/
  | repeatedArgument
  deriving DecidableEq, Repr

/-- The name of a refusal's kind. -/
def UsageError.kind : UsageError → String
  | helpWanted => "DisplayHelp"
  | nothingGiven => "DisplayHelpOnMissingArgumentOrSubcommand"
  | missingCommand => "MissingSubcommand"
  | unknownCommand => "InvalidSubcommand"
  | unknownArgument => "UnknownArgument"
  | missingArgument => "MissingRequiredArgument"
  | badValue => "InvalidValue"
  | badNumber => "ValueValidation"
  | unwantedValue => "TooManyValues"
  | repeatedArgument => "ArgumentConflict"

/-- What may be given as a value. -/
inductive ValueKind where
  /-- Any text. -/
  | text
  /-- Any text but the empty one. -/
  | path
  /-- A natural number below `2 ^ 64`. -/
  | count
  /-- A truth value. -/
  | truth
  /-- One of several names. -/
  | oneOf (names : List String)
  deriving DecidableEq, Repr

/-- A value that was given. -/
inductive Given where
  /-- A text. -/
  | text (value : String)
  /-- A number. -/
  | count (value : UInt64)
  /-- A truth value. -/
  | truth (value : Bool)
  deriving DecidableEq, Repr

/-- Read a number: digits, with a plus before them or without. -/
def readCount (word : String) : Except UsageError UInt64 :=
  let digits := match word.toList with
    | '+' :: digits => digits
    | digits => digits
  if digits.isEmpty || !digits.all Ascii.isDigit then .error .badNumber
  else
    let n := Ascii.ofDigits 10 digits
    if n < Word.unsignedEnd then .ok (UInt64.ofNat n) else .error .badNumber

/-- Read a word as a value. -/
def ValueKind.read (word : String) : ValueKind → Except UsageError Given
  | .text => .ok (.text word)
  | .path => if word.isEmpty then .error .badValue else .ok (.text word)
  | .count => (readCount word).map .count
  | .truth =>
    if word = "true" then .ok (.truth true)
    else if word = "false" then .ok (.truth false)
    else .error .badValue
  | .oneOf names => if word ∈ names then .ok (.text word) else .error .badValue

/-- How many values an option takes. -/
inductive Arity where
  /-- None: the option is there or not. -/
  | bare
  /-- One. -/
  | one
  /-- One, or none if nothing follows that can be one, which counts as the word given here. -/
  | atMostOne (missing : String)
  deriving DecidableEq, Repr

/-- An option, or an argument by position. -/
structure Parameter where
  /-- The name; that of an option is written after two dashes. -/
  name : String
  /-- The letter that stands for the name. -/
  letter : Option Char
  /-- How many values it takes. -/
  arity : Arity
  /-- What its value may be. -/
  kind : ValueKind
  /-- Whether it must be given. -/
  required : Bool
  deriving DecidableEq, Repr

/-- The option by which help is asked for. -/
def helpOption : Parameter := ⟨"help", some 'h', .bare, .truth, false⟩

/-- What may follow a command. -/
inductive Form where
  /-- The command's name, its options, its argument by position and the commands below it. -/
  | mk (name : String) (options : List Parameter) (argument : Option Parameter)
    (commands : List Form)

namespace Form

/-- The command's name. -/
def name : Form → String
  | mk name _ _ _ => name

/-- The options, that for help among them. -/
def options : Form → List Parameter
  | mk _ options _ _ => helpOption :: options

/-- The argument by position. -/
def argument : Form → Option Parameter
  | mk _ _ argument _ => argument

/-- The commands below. -/
def commands : Form → List Form
  | mk _ _ _ commands => commands

/-- The command of a name below a command; `help` is one wherever there are others. -/
def command? (form : Form) (word : String) : Option Form :=
  if form.commands.isEmpty then none
  else (mk "help" [] none [] :: form.commands).find? fun sub => sub.name = word

/-- What comes of asking for help on a command below. -/
def help : Form → List String → UsageError
  | _, [] => .helpWanted
  | form, word :: rest =>
    match form.command? word with
    | some sub => help sub rest
    | none => .unknownCommand

/-- The parameters that must be given. -/
def required (form : Form) : List Parameter :=
  (form.options ++ form.argument.toList).filter (·.required)

end Form

/-- What is known of the words after a command so far. -/
structure Progress where
  /-- The values by the names of their parameters. -/
  given : List (String × Given)
  /-- The parameter whose value is not checked yet, and the words for it. -/
  waiting : Option (Parameter × List String)
  /-- Whether the next word is a value of that parameter unless it is an option. -/
  wantsValue : Bool
  /-- Whether only arguments by position follow. -/
  plain : Bool
  /-- Whether the argument by position was given. -/
  argumentGiven : Bool

namespace Progress

/-- Before the first word. -/
def start : Progress := ⟨[], none, false, false, false⟩

/-- Give a parameter its value. -/
def give (p : Progress) (parameter : Parameter) (word : String) : Except UsageError Progress :=
  if p.given.any fun entry => entry.1 = parameter.name then .error .repeatedArgument
  else do
    let value ← parameter.kind.read word
    pure { p with given := p.given ++ [(parameter.name, value)] }

/-- Check the value that waits. -/
def settle (p : Progress) : Except UsageError Progress :=
  let settled := { p with waiting := none, wantsValue := false }
  match p.waiting with
  | none => .ok settled
  | some (parameter, word :: _) => settled.give parameter word
  | some (parameter, []) =>
    match parameter.arity with
    | .atMostOne missing => settled.give parameter missing
    | _ => .error .badValue

/-- Take an option without a value. -/
def mark (p : Progress) (option : Parameter) : Except UsageError Progress := do
  let p ← p.settle
  if option = helpOption then .error .helpWanted else p.give option "true"

/-- Take an option with the value that is written with it, or wait for the value. -/
def take (p : Progress) (option : Parameter) : Option String → Except UsageError Progress
  | some word => do (← p.settle).give option word
  | none => do pure { ← p.settle with waiting := some (option, []), wantsValue := true }

/-- The name and the value of a long option. -/
def splitLong : List Char → List Char × Option (List Char)
  | [] => ([], none)
  | '=' :: rest => ([], some rest)
  | c :: rest =>
    let (name, value) := splitLong rest
    (c :: name, value)

/-- A word behind two dashes. -/
def long (form : Form) (word : List Char) (p : Progress) : Except UsageError Progress :=
  let (name, value) := splitLong word
  match form.options.find? fun option => option.name.toList = name with
  | none => .error .unknownArgument
  | some option =>
    if option.arity ≠ .bare then p.take option (value.map String.ofList)
    else if value.isSome then .error .unwantedValue
    else p.mark option

/-- The value that is written after a letter. -/
def attached : List Char → Option String
  | [] => none
  | '=' :: rest => some (String.ofList rest)
  | rest => some (String.ofList rest)

/-- Letters behind one dash. -/
def letters (form : Form) : List Char → Progress → Except UsageError Progress
  | [], p => .ok p
  | c :: rest, p =>
    match form.options.find? fun option => option.letter = some c with
    | none => .error .unknownArgument
    | some option =>
      if option.arity ≠ .bare then p.take option (attached rest)
      else do letters form rest (← p.mark option)

/-- A word that is no option. -/
def word (form : Form) (text : String) (p : Progress) : Except UsageError Progress :=
  match form.argument with
  | some argument =>
    if p.argumentGiven then .error .unknownArgument
    else do pure { ← p.settle with waiting := some (argument, [text]), argumentGiven := true }
  | none =>
    if form.commands.isEmpty then .error .unknownArgument
    else if p.plain && (form.command? text).isSome then .error .unknownArgument
    else .error .unknownCommand

/-- A word that names no command. -/
def next (form : Form) (text : String) (p : Progress) : Except UsageError Progress :=
  if p.plain then p.word form text
  else
    match text.toList with
    | ['-', '-'] => .ok { p with plain := true }
    | '-' :: '-' :: rest => p.long form rest
    | '-' :: c :: rest => p.letters form (c :: rest)
    | _ =>
      match p.wantsValue, p.waiting with
      | true, some (parameter, _) =>
        .ok { p with waiting := some (parameter, [text]), wantsValue := false }
      | _, _ => p.word form text

/-- The command of a word, if commands may come now. -/
def command? (form : Form) (text : String) (p : Progress) : Option Form :=
  if p.plain || p.wantsValue then none else form.command? text

end Progress

/-- The commands that were named, one below the other, and the values that were given; those of a
command below come first. -/
structure Reading where
  /-- The names of the commands. -/
  commands : List String
  /-- The values by the names of their parameters. -/
  given : List (String × Given)

namespace Reading

/-- The value of a parameter. -/
def value? (r : Reading) (name : String) : Option Given :=
  (r.given.find? fun entry => entry.1 = name).map (·.2)

/-- The text that was given. -/
def text? (r : Reading) (name : String) : Option String :=
  match r.value? name with
  | some (.text s) => some s
  | _ => none

/-- The number that was given. -/
def count? (r : Reading) (name : String) : Option UInt64 :=
  match r.value? name with
  | some (.count n) => some n
  | _ => none

/-- The truth value that was given. -/
def truth? (r : Reading) (name : String) : Option Bool :=
  match r.value? name with
  | some (.truth b) => some b
  | _ => none

end Reading

namespace Form

/-- What comes of the words after a command when there are no more. -/
def conclude (form : Form) (p : Progress) : Except UsageError Reading := do
  let p ← p.settle
  let has (parameter : Parameter) : Bool := p.given.any fun entry => entry.1 = parameter.name
  if !form.commands.isEmpty then
    .error (if p.given.isEmpty then .nothingGiven else .missingCommand)
  else if form.required.all has then pure ⟨[], p.given⟩
  else .error .missingArgument

/-- Read the words after a command, some of which are known. -/
def readFrom (form : Form) (p : Progress) : List String → Except UsageError Reading
  | [] => form.conclude p
  | word :: rest =>
    match p.command? form word with
    | none => do readFrom form (← p.next form word) rest
    | some sub =>
      if sub.name = "help" then .error (form.help rest)
      else do
        let below ← readFrom sub .start rest
        let p ← p.settle
        pure ⟨sub.name :: below.commands, below.given ++ p.given⟩

/-- Read the words after a command. -/
def read (form : Form) (words : List String) : Except UsageError Reading :=
  form.readFrom .start words

end Form

end InventoryFeed.CommandLine
