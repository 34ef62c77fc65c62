import Keymap.Command.Run
import Keymap.Text.Decimal

/-!
# Command-line arguments

A reader of command lines, with which the program runs. A command line consists of words and
options. An option has a letter after one dash or a name after two, and may take a value: what
follows it in the same argument, after an equals sign if the option is named, or else the next
argument, whatever that is. Letters of options without values may share a dash. Two dashes alone end
the options.

## Key results

- `idle_readLine` — reading a command line changes nothing
-/

namespace Keymap

/-! ## Options -/

/-- The options of all commands. -/
inductive Flag where
  | help
  | version
  | verbose
  | keyCount
  | trees
  | output
  | inPlace
  | placeholder
  | validate
  | noValidate
  deriving DecidableEq, Repr

namespace Flag

/-- Whether an option takes a value. -/
def takesValue : Flag → Bool
  | .keyCount | .output | .placeholder => true
  | _ => false

/-- The letter of an option. -/
def letter? : Flag → Option Char
  | .verbose => some 'v'
  | .keyCount => some 'k'
  | .output => some 'o'
  | .inPlace => some 'i'
  | .placeholder => some 'p'
  | _ => none

/-- The name of an option. -/
def name : Flag → Text
  | .help => "--help".toList
  | .version => "--version".toList
  | .verbose => "--verbose".toList
  | .keyCount => "--key-count".toList
  | .trees => "--ast".toList
  | .output => "--output".toList
  | .inPlace => "--in-place".toList
  | .placeholder => "--placeholder".toList
  | .validate => "--validate".toList
  | .noValidate => "--no-validate".toList

end Flag

/-- The options and words of a command line, in order. An option without a value has an empty
one. -/
structure Arguments where
  flags : List (Flag × Text)
  words : List Text
  deriving DecidableEq, Repr

namespace Arguments

/-- Whether an option was given. -/
def has (arguments : Arguments) (flag : Flag) : Bool :=
  arguments.flags.any (·.1 == flag)

/-- The value of an option, the last one if it was given repeatedly. -/
def value? (arguments : Arguments) (flag : Flag) : Option Text :=
  (arguments.flags.reverse.find? (·.1 == flag)).map (·.2)

/-- The options given before. -/
def withFlags (arguments : Arguments) (flags : List (Flag × Text)) : Arguments :=
  { arguments with flags := flags ++ arguments.flags }

end Arguments

/-! ## Reading arguments -/

/-- What the letters behind a dash say: the options with their values, and an option that still
waits for its value. -/
def readLetters (known : List Flag) : Text → Option (List (Flag × Text) × Option Flag)
  | [] => some ([], none)
  | c :: rest => do
    let flag ← known.find? (·.letter? == some c)
    if flag.takesValue then
      if rest.isEmpty then return ([], some flag) else return ([(flag, rest)], none)
    else
      let (flags, waiting) ← readLetters known rest
      return ((flag, []) :: flags, waiting)

/-- What an argument that begins with a dash says. -/
def readOption (known : List Flag) (argument : Text) :
    Option (List (Flag × Text) × Option Flag) :=
  let name := argument.takeWhile (· ≠ '=')
  let value := argument.drop (name.length + 1)
  match known.find? (·.name == name) with
  | some flag =>
    match flag.takesValue, argument.contains '=' with
    | true, true => some ([(flag, value)], none)
    | true, false => some ([], some flag)
    | false, true => none
    | false, false => some ([(flag, [])], none)
  | none =>
    match argument with
    | '-' :: '-' :: _ => none
    | _ => readLetters known (argument.drop 1)

/-- Whether an argument is an option rather than a word. -/
def isOption : Text → Bool
  | '-' :: _ :: _ => true
  | _ => false

/-- Two dashes alone. -/
def dashes : Text := "--".toList

/-- The options and words of a command line, or nothing if an option is not known, lacks its value
or has one that it does not take. Options may follow words only if they are `mixed` with them. -/
def readArguments (known : List Flag) (mixed : Bool) : List Text → Option Arguments
  | [] => some ⟨[], []⟩
  | argument :: rest =>
    if argument = dashes then some ⟨[], rest⟩
    else if isOption argument then
      match readOption known argument, rest with
      | none, _ => none
      | some (flags, none), rest => (readArguments known mixed rest).map (·.withFlags flags)
      | some (_, some _), [] => none
      | some (flags, some flag), value :: rest =>
        (readArguments known mixed rest).map (·.withFlags (flags ++ [(flag, value)]))
    else if mixed then
      (readArguments known mixed rest).map fun later =>
        { later with words := argument :: later.words }
    else some ⟨[], argument :: rest⟩

/-! ## Commands -/

/-- The commands. -/
inductive CommandName where
  | showLayers
  | setKey
  | addLayer
  deriving DecidableEq, Repr

namespace CommandName

/-- The command of a word. -/
def ofWord? (word : Text) : Option CommandName :=
  if word = "show".toList then some .showLayers
  else if word = "set".toList then some .setKey
  else if word = "add-layer".toList then some .addLayer
  else none

/-- The options of a command. -/
def flags : CommandName → List Flag
  | .showLayers => [.help, .keyCount, .trees]
  | .setKey => [.help, .keyCount, .output, .inPlace]
  | .addLayer => [.help, .placeholder, .validate, .noValidate, .output, .inPlace]

end CommandName

/-- The version of the program. -/
def versionText : Text := "kmedit, version 1.0.0\n".toList

/-- How the program is used. -/
def helpText : Text :=
  ("Usage: kmedit [-v] COMMAND\n\n" ++
    "  show SOURCE [-k COUNT] [--ast]\n" ++
    "  set SOURCE LAYER KEY VALUE [-k COUNT] [-o FILE | -i]\n" ++
    "  add-layer SOURCE [-p KEY] [--validate | --no-validate] [-o FILE | -i]\n").toList

/-- The options that stand before a command. -/
def mainFlags : List Flag := [.help, .version, .verbose]

namespace Arguments

/-- What an option asks for that makes everything else superfluous. -/
def answer? (arguments : Arguments) : Option Text :=
  arguments.flags.findSome? fun flag =>
    match flag.1 with
    | .help => some helpText
    | .version => some versionText
    | _ => none

/-- The number of keys that is asked for. No answer means that it is no number. -/
def keyCount? (arguments : Arguments) : Option (Option Int) :=
  match arguments.value? .keyCount with
  | none => some none
  | some numeral => numeral.toInt?.map some

/-- Whether the result shall be parsed again, if anything is said about it. -/
def validate? (arguments : Arguments) : Option Bool :=
  (arguments.flags.reverse.find? fun flag => flag.1 == .validate || flag.1 == .noValidate).map
    (·.1 == .validate)

/-- Where the result shall go. -/
def target (arguments : Arguments) : Target :=
  ⟨arguments.value? .output, arguments.has .inPlace⟩

/-- The request that arguments make of a command, if their words and numbers are right. -/
def request? (arguments : Arguments) : CommandName → Option Request
  | .showLayers => do
    let [source] := arguments.words | none
    return .showLayers source (← arguments.keyCount?) (arguments.has .trees)
  | .setKey => do
    let [source, layer, key, value] := arguments.words | none
    return .setKey source (← layer.toInt?) (← key.toInt?) value (← arguments.keyCount?)
      arguments.target
  | .addLayer => do
    let [source] := arguments.words | none
    return .addLayer source (arguments.value? .placeholder) arguments.validate? arguments.target

end Arguments

/-! ## Reading command lines -/

section

variable {m : Type → Type} [Monad m]

/-- Whether the paths of a request stand for what they should: the source for a file, the output
for anything but a directory. -/
def admits (standing : Text → m Standing) (request : Request) : m Bool := do
  let source ← standing request.source
  let output ← match request.target?.bind Target.output with
    | some path => standing path
    | none => pure .missing
  return source == .file && output != .directory

/-- Read the arguments that follow a command. -/
def readCommand (standing : Text → m Standing) (verbose : Bool) (command : CommandName)
    (rest : List Text) : m Asked :=
  match readArguments command.flags true rest with
  | none => return .refuse true
  | some arguments =>
    match arguments.answer?, arguments.request? command with
    | some text, _ => return .answer true text
    | none, none => return .refuse true
    | none, some request => do
      if ← admits standing request then return .serve verbose request
      else return .refuse true

/-- Read a command line. A first word that is no command is taken for options once more. -/
def readLine (standing : Text → m Standing) : LineReader m := fun line =>
  -- Help and version are answered before the command is looked at.
  match line, readArguments mainFlags false line with
  | [], _ => return .answer false helpText
  | _, none => return .refuse false
  | _, some arguments =>
    match arguments.answer?, arguments.words with
    | some text, _ => return .answer false text
    | none, [] => return .refuse false
    | none, word :: rest =>
      match CommandName.ofWord? word with
      | some command => readCommand standing (arguments.has .verbose) command rest
      | none =>
        match (readArguments mainFlags false (word :: rest)).bind Arguments.answer? with
        | some text => return .answer false text
        | none => return .refuse false

end

/-! ## Reading changes nothing -/

section

variable {World : Type} {standing : Text → StateM World Standing}

theorem idle_admits (h : ∀ path, Idle (standing path)) (request : Request) :
    Idle (admits standing request) := by
  rw [admits]
  refine (h request.source).bind fun _ => ?_
  split
  · exact (h _).bind fun _ => idle_pure _
  · exact (idle_pure _).bind fun _ => idle_pure _

theorem idle_readCommand (h : ∀ path, Idle (standing path)) (verbose : Bool)
    (command : CommandName) (rest : List Text) :
    Idle (readCommand standing verbose command rest) := by
  rw [readCommand]
  split
  · exact idle_pure _
  · split
    · exact idle_pure _
    · exact idle_pure _
    · refine (idle_admits h _).bind fun admitted => ?_
      split <;> exact idle_pure _

/-- Reading a command line changes nothing, as long as looking at a path does not. -/
theorem idle_readLine (h : ∀ path, Idle (standing path)) (line : List Text) :
    Idle (readLine standing line) := by
  rw [readLine.eq_def]
  split
  · exact idle_pure _
  · exact idle_pure _
  · split
    · exact idle_pure _
    · exact idle_pure _
    · split
      · exact idle_readCommand h _ _ _
      · split <;> exact idle_pure _

end

end Keymap
