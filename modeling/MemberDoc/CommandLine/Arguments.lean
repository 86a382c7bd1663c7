import MemberDoc.CommandLine.Usage
import MemberDoc.Text.Similarity

set_option autoImplicit false

/-! Reading a command line. Arguments are read from left to right, and the first one that is
wrong or asks for help decides. -/

namespace MemberDoc.CommandLine

inductive Command where
  | generate (flags : List Flag)
  | init
  /-- Print a text and do nothing else. -/
  | print (text : Text)
  deriving DecidableEq

inductive Asked where
  | run (flags : List Flag)
  | help
  | version
  deriving DecidableEq

def similarTip? (kind : String) (word : Text) (known : List Text) : Option Tip :=
  match Text.similarTo word known with
  | [] => none
  | names => some (.similar kind names)

def strayArgument (topic : Topic) (dashed : Bool) (argument : Text) : UsageError :=
  let usage := some (usage topic)
  if dashed && (topic.command? argument).isSome then
    ⟨.unexpectedArgument argument, some (.dashed argument), usage, true⟩
  else if topic.commands.isEmpty then ⟨.unexpectedArgument argument, none, usage, true⟩
  else
    let tip := similarTip? "subcommand" argument (topic.commands.map Prod.fst)
    ⟨.unknownCommand argument, tip, usage, true⟩

/-- A command among later arguments that has an option like a given one, with its position. -/
def laterOption? (name : Text) (rest : List Text) (command : Text × Topic) : Option (Nat × Tip) := do
  let option ← Text.mostSimilar? name (command.2.switches.map Switch.name)
  let position ← rest.idxOf? command.1
  return (position, .elsewhere command.1 ('-' :: '-' :: option))

def earlier (best : Option (Nat × Tip)) (next : Nat × Tip) : Option (Nat × Tip) :=
  match best with
  | none => some next
  | some known => if next.1 < known.1 then some next else some known

def firstTip? (tips : List (Nat × Tip)) : Option Tip :=
  (tips.foldl earlier none).map Prod.snd

/-- A long option that a topic does not have, after some flags and before further arguments. -/
def unknownOption (topic : Topic) (flags : List Flag) (name : Text) (rest : List Text) : UsageError :=
  let fault := Fault.unexpectedArgument ('-' :: '-' :: name)
  let given := flags.map Switch.flag
  let similar := (Text.mostSimilar? name (topic.switches.map Switch.name)).bind fun name =>
    topic.switches.find? (·.name == name)
  match similar with
  | some switch =>
      let used := if given.contains switch then given else given ++ [switch]
      ⟨fault, some (.similar "argument" [switch.long]), some (usageWith topic used), true⟩
  | none =>
      ⟨fault, firstTip? (topic.commands.filterMap (laterOption? name rest)), some (usageWith topic given),
        true⟩

/-- A flag that has been given once may not be given again. -/
def addFlag (topic : Topic) (flags : List Flag) (flag : Flag) : Except UsageError (List Flag) :=
  if flags.contains flag then .error ⟨.repeated flag, none, some (usage topic), true⟩
  else .ok (flags ++ [flag])

def readLetters (topic : Topic) (flags : List Flag) : Text → Except UsageError Asked
  | [] => .ok (.run flags)
  | letter :: rest =>
      match topic.switches.find? (·.letter? == some letter) with
      | some (.flag flag) => do readLetters topic (← addFlag topic flags flag) rest
      | some .help => .ok .help
      | some .version => .ok .version
      | none => .error ⟨.unexpectedArgument ['-', letter], none, some (usage topic), true⟩

def splitValue (option : Text) : Text × Option Text :=
  match option.span (· ≠ '=') with
  | (name, _ :: value) => (name, some value)
  | (name, []) => (name, none)

def readLong (topic : Topic) (flags : List Flag) (option : Text) (rest : List Text) :
    Except UsageError Asked :=
  let (name, value) := splitValue option
  match topic.switches.find? (·.name == name), value with
  | none, _ => .error (unknownOption topic flags name rest)
  | some switch, some value =>
      .error ⟨.unexpectedValue value switch, none, some (usageForValue topic flags switch), true⟩
  | some (.flag flag), none => (addFlag topic flags flag).map .run
  | some .help, none => .ok .help
  | some .version, none => .ok .version

def readArguments (topic : Topic) (flags : List Flag) : List Text → Except UsageError Asked
  | [] => .ok (.run flags)
  | argument :: rest =>
      match argument with
      | ['-', '-'] =>
          match rest with
          | [] => .ok (.run flags)
          | extra :: _ => .error (strayArgument topic true extra)
      | '-' :: '-' :: option => do
          match ← readLong topic flags option rest with
          | .run flags => readArguments topic flags rest
          | asked => return asked
      | '-' :: letter :: letters => do
          match ← readLetters topic flags (letter :: letters) with
          | .run flags => readArguments topic flags rest
          | asked => return asked
      | extra => .error (strayArgument topic false extra)

/-- Set the flags that are not given from their variables. -/
def applyEnvironment (environment : Environment) (flags : List Flag) :
    List Flag → Except UsageError (List Flag)
  | [] => .ok flags
  | flag :: rest =>
      match if flags.contains flag then none else flag.environmentName?.bind fun name => environment.lookup name with
      | none => applyEnvironment environment flags rest
      | some value =>
          if value = "true".toList then applyEnvironment environment (flags ++ [flag]) rest
          else if value = "false".toList then applyEnvironment environment flags rest
          else
            let similar := Text.mostSimilar? value ["true".toList, "false".toList]
            .error ⟨.invalidVariable flag value, similar.map fun name => .similar "value" [name], none, true⟩

/-- The command of a topic with some flags. Without a command the help is printed. -/
def commandOf (environment : Environment) : Topic → List Flag → Except UsageError Command
  | .generate, flags => (applyEnvironment environment flags Flag.all).map .generate
  | .init, _ => .ok .init
  | topic, _ => .ok (.print (help environment topic))

def parseTopic (environment : Environment) (topic : Topic) (arguments : List Text) :
    Except UsageError Command := do
  match ← readArguments topic [] arguments with
  | .run flags => commandOf environment topic flags
  | .help => return .print (help environment topic)
  | .version => return .print versionText

/-- The help on a topic, or on a command of it that is named. -/
def parseHelp (environment : Environment) (topic : Topic) : List Text → Except UsageError Command
  | [] => .ok (.print (help environment topic))
  | name :: rest =>
      match topic.command? name with
      | some command => parseHelp environment command rest
      | none => .error ⟨.unknownCommand name, none, some (usage topic), topic ≠ .help⟩

def parse (environment : Environment) (arguments : List Text) : Except UsageError Command :=
  match arguments with
  | [] => parseTopic environment .program []
  | argument :: rest =>
      match Topic.program.command? argument with
      | some .help => parseHelp environment .program rest
      | some topic => parseTopic environment topic rest
      | none => parseTopic environment .program arguments

end MemberDoc.CommandLine
