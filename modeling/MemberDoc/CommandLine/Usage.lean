import MemberDoc.CommandLine.Terminal

set_option autoImplicit false

/-! The commands and their options, the help on them, and the answers to wrong requests. -/

namespace MemberDoc.CommandLine

abbrev Environment := List (Text × Text)

inductive Flag where
  | apply
  | reset
  | overwrite
  | verbose
  deriving DecidableEq

def Flag.all : List Flag :=
  [.apply, .reset, .overwrite, .verbose]

/-- The environment variable that sets a flag which is not given. -/
def Flag.environmentName? : Flag → Option Text
  | .reset => some "VMDOC_RESET".toList
  | .overwrite => some "VMDOC_OVERWRITE".toList
  | _ => none

/-- An option: a flag, or the wish to be told something instead. -/
inductive Switch where
  | flag (flag : Flag)
  | help
  | version
  deriving DecidableEq

namespace Switch

def name : Switch → Text
  | .flag .apply => "apply".toList
  | .flag .reset => "reset".toList
  | .flag .overwrite => "overwrite".toList
  | .flag .verbose => "verbose".toList
  | .help => "help".toList
  | .version => "version".toList

def long (switch : Switch) : Text :=
  '-' :: '-' :: switch.name

def letter? : Switch → Option Char
  | .flag .verbose => some 'v'
  | .help => some 'h'
  | .version => some 'V'
  | _ => none

def description : Switch → Text
  | .flag .apply => "Actually write the documents (default is dry-run)".toList
  | .flag .reset => "Discard existing property and method tags before rendering".toList
  | .flag .overwrite => "Replace existing tags that a configured member redefines".toList
  | .flag .verbose => "Enable verbose output".toList
  | .help => "Print help".toList
  | .version => "Print version".toList

end Switch

/-- The program or one of its commands. -/
inductive Topic where
  | program
  | generate
  | init
  | help
  deriving DecidableEq

namespace Topic

def title : Topic → Text
  | .program => "vmdoc".toList
  | .generate => "vmdoc generate".toList
  | .init => "vmdoc init".toList
  | .help => "vmdoc help".toList

def synopsis : Topic → Text
  | .program => " [COMMAND]".toList
  | .generate => " [OPTIONS]".toList
  | .init => []
  | .help => " [COMMAND]...".toList

def description : Topic → Text
  | .program => "Annotate class sources with doc blocks describing their virtual (magic) members".toList
  | .generate => "Write doc blocks describing virtual members of the configured classes".toList
  | .init => "Initialize a new .vmdocrc.json configuration file".toList
  | .help => "Print this message or the help of the given subcommand(s)".toList

def switches : Topic → List Switch
  | .program => [.help, .version]
  | .generate => Flag.all.map .flag ++ [.help]
  | .init => [.help]
  | .help => []

def commands : Topic → List (Text × Topic)
  | .program => [("generate".toList, .generate), ("init".toList, .init), ("help".toList, .help)]
  | _ => []

def command? (topic : Topic) (name : Text) : Option Topic :=
  topic.commands.lookup name

end Topic

def usageTitle (topic : Topic) : Text :=
  Style.heading.apply "Usage:".toList ++ [' '] ++ Style.literal.apply topic.title

def usage (topic : Topic) : Text :=
  usageTitle topic ++ topic.synopsis

def column (width : Nat) (name : Text) : Text :=
  List.replicate (width - name.length + 2) ' '

def widest (names : List Text) : Nat :=
  names.foldl (fun width name => max width name.length) 0

def variableNote (environment : Environment) : Switch → Text
  | .flag flag =>
      match flag.environmentName? with
      | some name =>
          " [env: ".toList ++ name ++ ['='] ++ (environment.lookup name).getD [] ++ [']']
      | none => []
  | _ => []

def hang (width : Nat) (text : Text) : Text :=
  text.flatMap fun c => if c = '\n' then '\n' :: List.replicate width ' ' else [c]

def switchRow (environment : Environment) (width : Nat) (switch : Switch) : Text :=
  let letter := match switch.letter? with
    | some letter => Style.literal.apply ['-', letter] ++ [',', ' ']
    | none => List.replicate 4 ' '
  [' ', ' '] ++ letter ++ Style.literal.apply switch.long ++ column width switch.long ++
    hang (width + 8) (switch.description ++ variableNote environment switch) ++ ['\n']

def commandRow (width : Nat) (command : Text × Topic) : Text :=
  [' ', ' '] ++ Style.literal.apply command.1 ++ column width command.1 ++ command.2.description ++ ['\n']

def titledRows (heading : String) (rows : List Text) : List Text :=
  if rows.isEmpty then []
  else [Style.heading.apply (heading.toList ++ [':']) ++ ['\n'] ++ rows.flatten]

def argumentRows : Topic → List Text
  | .help => ["  [COMMAND]...  Print help for the subcommand(s)\n".toList]
  | _ => []

def help (environment : Environment) (topic : Topic) : Text :=
  let commands := topic.commands.map (commandRow (widest (topic.commands.map Prod.fst)))
  let switches := topic.switches.map (switchRow environment (widest (topic.switches.map Switch.long)))
  topic.description ++ ['\n', '\n'] ++ usage topic ++ ['\n', '\n'] ++
    Text.joinWith ['\n'] (titledRows "Commands" commands ++ titledRows "Arguments" (argumentRows topic) ++
      titledRows "Options" switches)

def versionText : Text :=
  "vmdoc 0.1.0\n".toList

inductive Fault where
  | unknownCommand (name : Text)
  | unexpectedArgument (argument : Text)
  | unexpectedValue (value : Text) (switch : Switch)
  | repeated (flag : Flag)
  | invalidVariable (flag : Flag) (value : Text)
  deriving DecidableEq

/-- What may have been meant. -/
inductive Tip where
  | similar (kind : String) (names : List Text)
  /-- The option belongs to a command that follows. -/
  | elsewhere (command option : Text)
  /-- The command stands behind a double dash. -/
  | dashed (command : Text)
  deriving DecidableEq

structure UsageError where
  fault : Fault
  tip : Option Tip
  usage : Option Text
  /-- Whether the help option is mentioned. -/
  mentionsHelp : Bool
  deriving DecidableEq

/-- The usage with some of the switches, or the general one without any. -/
def usageWith (topic : Topic) (switches : List Switch) : Text :=
  if switches = [] then usage topic
  else usageTitle topic ++ switches.flatMap fun switch => ' ' :: Style.literal.apply switch.long

/-- The usage for a switch that cannot have a value. Flags that are given before stand for any
choice of flags. -/
def usageForValue (topic : Topic) (flags : List Flag) (switch : Switch) : Text :=
  let choice := Text.joinWith ['|'] (Flag.all.map fun flag => (Switch.flag flag).long)
  match flags, switch with
  | [], _ => usageWith topic [switch]
  | _ :: _, .flag _ => usageTitle topic ++ " <".toList ++ choice ++ ['>']
  | _ :: _, _ => usageWith topic [switch] ++ " <".toList ++ choice ++ ['>']

def inQuotes (style : Style) (text : Text) : Text :=
  ['\x27'] ++ style.apply text ++ ['\x27']

def Fault.message : Fault → Text
  | .unknownCommand name => "unrecognized subcommand ".toList ++ inQuotes .invalid name
  | .unexpectedArgument argument =>
      "unexpected argument ".toList ++ inQuotes .invalid argument ++ " found".toList
  | .unexpectedValue value switch =>
      "unexpected value ".toList ++ inQuotes .invalid value ++ " for ".toList ++
        inQuotes .literal switch.long ++ " found; no more were expected".toList
  | .repeated flag =>
      "the argument ".toList ++ inQuotes .invalid (Switch.flag flag).long ++
        " cannot be used multiple times".toList
  | .invalidVariable flag value =>
      let option := (Switch.flag flag).long
      (if value = [] then
        "a value is required for ".toList ++ inQuotes .invalid option ++ " but none was supplied".toList
      else
        "invalid value ".toList ++ inQuotes .invalid value ++ " for ".toList ++ inQuotes .literal option) ++
      "\n  [possible values: ".toList ++ Style.valid.apply "true".toList ++ [',', ' '] ++
      Style.valid.apply "false".toList ++ [']']

def Tip.message : Tip → Text
  | .similar kind [name] =>
      "a similar ".toList ++ kind.toList ++ " exists: ".toList ++ inQuotes .valid name
  | .similar kind names =>
      "some similar ".toList ++ kind.toList ++ "s exist: ".toList ++
        Text.joinWith [',', ' '] (names.map (inQuotes .valid))
  | .elsewhere command option => inQuotes .valid (command ++ ' ' :: option) ++ " exists".toList
  | .dashed command =>
      "subcommand ".toList ++ inQuotes .valid command ++ " exists; to use it, remove the ".toList ++
        inQuotes .invalid ['-', '-'] ++ " before it".toList

def UsageError.text (failure : UsageError) : Text :=
  let paragraph := fun text : Text => ['\n', '\n'] ++ text
  Style.error.apply "error:".toList ++ [' '] ++ failure.fault.message ++
    (match failure.tip with
      | some tip => paragraph ([' ', ' '] ++ Style.valid.apply "tip:".toList ++ [' '] ++ tip.message)
      | none => []) ++
    (match failure.usage with
      | some usage => paragraph usage
      | none => []) ++
    (if failure.mentionsHelp then
      paragraph ("For more information, try ".toList ++ inQuotes .literal Switch.help.long ++ ['.'])
    else []) ++
    ['\n']

end MemberDoc.CommandLine
