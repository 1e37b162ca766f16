import ColumnSampling.Config
import ColumnSampling.Storage.Basic

/-!
# Command line

The words of a command line are settings and one of three commands with settings of its own. General
settings may stand before the command and after it, where they count. Words are read one by one, and
a value is only looked at when the next setting or the end of its part of the line is reached.
-/

namespace ColumnSampling

inductive Command where
  /-- Write a configuration file. -/
  | init (overwrite : Bool)
  /-- Show what a node keeps. -/
  | custody (nodeId : Option NodeId) (count : Option UInt64) (json : Bool)
  /-- Show the network parameters. -/
  | spec (json : Bool)
deriving DecidableEq

structure Arguments where
  home : Option String
  config : Option String
  logLevel : Option LogLevel
  logFormat : Option LogFormat
  command : Command
deriving DecidableEq

/-- Why a command line names no command that can be run. -/
inductive UsageError where
  /-- Help was asked for. -/
  | help
  /-- The line is empty. -/
  | missingEverything
  | version
  | unknownArgument
  | conflict
  | unknownCommand
  | missingCommand
  /-- A value is missing or none of those allowed. -/
  | invalidValue
  /-- A value cannot be read. -/
  | unreadableValue
  | tooManyValues
deriving DecidableEq, Repr

namespace Arguments

inductive Flag where
  | home
  | config
  | logLevel
  | logFormat
  | help
  | version
  | overwrite
  | nodeId
  | count
  | json
deriving DecidableEq, Repr

def Flag.takesValue : Flag → Bool
  | help | version | overwrite | json => false
  | _ => true

inductive Setting where
  | home (path : String)
  | config (path : String)
  | logLevel (level : LogLevel)
  | logFormat (format : LogFormat)
  | nodeId (id : NodeId)
  | count (n : UInt64)
  | mark (flag : Flag)
deriving DecidableEq

def Setting.flag : Setting → Flag
  | .home _ => .home
  | .config _ => .config
  | .logLevel _ => .logLevel
  | .logFormat _ => .logFormat
  | .nodeId _ => .nodeId
  | .count _ => .count
  | .mark flag => flag

/-- The part of the line that is read: before the command, or after it. -/
inductive Part where
  | general
  | init
  | custody
  | spec
deriving DecidableEq, Repr

def Part.commands : List (String × Part) :=
  [("init", .init), ("custody", .custody), ("spec", .spec)]

def Part.flags (part : Part) : List (String × Flag) :=
  [("home", .home), ("config", .config), ("log-level", .logLevel), ("log-format", .logFormat),
    ("help", .help)] ++
  match part with
  | .general => [("version", .version)]
  | .init => [("overwrite", .overwrite)]
  | .custody => [("node-id", .nodeId), ("count", .count), ("json", .json)]
  | .spec => [("json", .json)]

/-- The settings that one letter stands for. -/
def Part.letters (part : Part) : List (Char × Flag) :=
  ('h', .help) :: if part = .general then [('V', .version)] else []

/-- What was read of a part of the line. -/
structure Progress where
  given : List Setting := []
  /-- A setting whose value was not looked at, or has not come yet. -/
  waiting : Option (Flag × Option String) := none

def readSetting (flag : Flag) (text : String) : Except UsageError Setting :=
  let path (f : String → Setting) : Except UsageError Setting :=
    if text = "" then .error .invalidValue else .ok (f text)
  let need {α : Type} (cause : UsageError) (f : α → Setting) (x : Option α) :
      Except UsageError Setting :=
    match x with
    | none => .error cause
    | some v => .ok (f v)
  match flag with
  | .home => path .home
  | .config => path .config
  | .logLevel => need .invalidValue .logLevel (LogLevel.ofName? text)
  | .logFormat => need .invalidValue .logFormat (LogFormat.ofName? text)
  | .nodeId => need .unreadableValue .nodeId (NodeId.ofText text).toOption
  | .count => need .unreadableValue .count (Text.readWord text)
  | flag => .ok (.mark flag)

namespace Progress

/-- Takes a setting, which must not be there yet. -/
def give (p : Progress) (flag : Flag) (text : String) : Except UsageError Progress :=
  if p.given.any (·.flag = flag) then .error .conflict
  else do
    return { given := p.given ++ [← readSetting flag text], waiting := none }

/-- Looks at the value that waits. -/
def settle (p : Progress) : Except UsageError Progress :=
  match p.waiting with
  | none => .ok p
  | some (_, none) => .error .invalidValue
  | some (flag, some text) => p.give flag text

def expectsValue (p : Progress) : Bool :=
  match p.waiting with
  | some (_, none) => true
  | _ => false

/-- Takes the name of a setting, and its value if one is attached. -/
def take (p : Progress) (flag : Flag) (value : Option String) : Except UsageError Progress :=
  if !flag.takesValue && value.isSome then .error .tooManyValues
  else do
    let p ← p.settle
    match flag, value with
    | .help, _ => .error .help
    | .version, _ => .error .version
    | flag, some text => p.give flag text
    | flag, none =>
      if flag.takesValue then return { p with waiting := some (flag, none) } else p.give flag ""

end Progress

inductive Word where
  /-- Two dashes alone: no setting follows. -/
  | dashes
  | long (name : List Char) (value : Option String)
  | letters (first : Char)
  | plain
deriving DecidableEq

def Word.ofText (text : String) : Word :=
  match text.toList with
  | ['-', '-'] => .dashes
  | '-' :: '-' :: rest =>
    match rest.span (· ≠ '=') with
    | (name, '=' :: value) => .long name (some (String.ofList value))
    | (name, _) => .long name none
  | '-' :: c :: _ => .letters c
  | _ => .plain

/-- Why a word that is no setting may not stand where it does. -/
def misplaced (part : Part) (afterDashes : Bool) (word : String) : UsageError :=
  let isCommand := (Part.commands.lookup word).isSome || word = "help"
  if part = .general && !(afterDashes && isCommand) then .unknownCommand else .unknownArgument

def helpOn : (words : List String) → UsageError
  | [] => .help
  | [word] => if (Part.commands.lookup word).isSome || word = "help" then .help else .unknownCommand
  | _ => .unknownCommand

/-- Reads a part of the line up to its end or to the command. -/
def scan (part : Part) : (afterDashes : Bool) → (words : List String) → (p : Progress) →
    Except UsageError (Progress × Option (Part × List String))
  | _, [], p => .ok (p, none)
  | true, word :: _, _ => .error (misplaced part true word)
  | false, word :: rest, p =>
    let atCommand := part = .general && !p.expectsValue
    match if atCommand then Part.commands.lookup word else none with
    | some command => .ok (p, some (command, rest))
    | none =>
      if atCommand && word = "help" then .error (helpOn rest)
      else match Word.ofText word with
        | .dashes => scan part true rest p
        | .long name value =>
          match part.flags.lookup (String.ofList name) with
          | none => .error .unknownArgument
          | some flag =>
            match p.take flag value with
            | .error cause => .error cause
            | .ok p => scan part false rest p
        | .letters c =>
          match part.letters.lookup c with
          | none => .error .unknownArgument
          | some flag =>
            match p.take flag none with
            | .error cause => .error cause
            | .ok p => scan part false rest p
        | .plain =>
          match p.waiting with
          | some (flag, none) => scan part false rest { p with waiting := some (flag, some word) }
          | _ => .error (misplaced part false word)

def marked (given : List Setting) (flag : Flag) : Bool := given.contains (.mark flag)

def commandOf (part : Part) (given : List Setting) : Command :=
  match part with
  | .custody =>
    .custody (given.findSome? fun | .nodeId id => some id | _ => none)
      (given.findSome? fun | .count n => some n | _ => none) (marked given .json)
  | .spec => .spec (marked given .json)
  | _ => .init (marked given .overwrite)

def parse (words : List String) : Except UsageError Arguments := do
  let (general, command) ← scan .general false words {}
  match command with
  | none =>
    let general ← general.settle
    .error (if general.given.isEmpty then .missingEverything else .missingCommand)
  | some (part, rest) =>
    let (own, _) ← scan part false rest {}
    let own ← own.settle
    let general ← general.settle
    let given := own.given ++ general.given
    return { home := given.findSome? fun | .home path => some path | _ => none
             config := given.findSome? fun | .config path => some path | _ => none
             logLevel := given.findSome? fun | .logLevel level => some level | _ => none
             logFormat := given.findSome? fun | .logFormat format => some format | _ => none
             command := commandOf part own.given }

/-- The home of the program: as given, or below the home of the user. -/
def homeFolder (a : Arguments) (env : Environment) : Except FileError String :=
  match a.home with
  | some home => .ok home
  | none =>
    match (env "HOME").filter (· ≠ "") with
    | some home => .ok (Path.join home ".peerdas")
    | none => .error .noHome

def configFolder (a : Arguments) (env : Environment) : Except FileError String :=
  (a.homeFolder env).map fun home => Path.join home "config"

def configPath (a : Arguments) (env : Environment) : Except FileError String :=
  match a.config with
  | some path => .ok path
  | none => (a.configFolder env).map fun folder => Path.join folder "config.toml"

end Arguments

end ColumnSampling
