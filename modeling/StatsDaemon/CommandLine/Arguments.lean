import StatsDaemon.Config
import StatsDaemon.Text.Pieces
import StatsDaemon.Version

namespace StatsDaemon.CommandLine

inductive Item where
  | folder
  | bind
  | mode
  | flushInterval
  | shutdownTimeout
  | verbose
  | json
  deriving DecidableEq, Repr

namespace Item

def name : Item → String
  | .folder => "config"
  | .bind => "bind"
  | .mode => "mode"
  | .flushInterval => "flush-interval"
  | .shutdownTimeout => "shutdown-timeout"
  | .verbose => "verbose"
  | .json => "json"

def letter? : Item → Option Char
  | .folder => some 'c'
  | .bind => some 'b'
  | .verbose => some 'v'
  | _ => none

def variableName : Item → String
  | .folder => "TALLY_CONFIG_PATH"
  | .bind => "TALLY_BIND"
  | .mode => "TALLY_MODE"
  | .flushInterval => "TALLY_FLUSH_INTERVAL"
  | .shutdownTimeout => "TALLY_SHUTDOWN_TIMEOUT"
  | .verbose => "TALLY_VERBOSE"
  | .json => "TALLY_LOG_JSON"

def isSwitch : Item → Bool
  | .verbose | .json => true
  | _ => false

def accepts (i : Item) (value : String) : Bool :=
  match i with
  | .folder => !value.isEmpty
  | .mode => (Config.Mode.ofName? value).isSome
  | .verbose | .json => value = "true" || value = "false"
  | _ => true

end Item

inductive Level where
  | program
  | run
  | config
  | configShow
  deriving DecidableEq, Repr

namespace Level

def title : Level → String
  | .program => programName
  | .run => programName ++ "-run"
  | .config => programName ++ "-config"
  | .configShow => programName ++ "-config-show"

def items : Level → List Item
  | .run => [.folder, .bind, .mode, .flushInterval, .shutdownTimeout, .verbose, .json]
  | _ => [.folder]

def command? (l : Level) (name : String) : Option Level :=
  match l with
  | .program => if name = "run" then some .run else if name = "config" then some .config else none
  | .config => if name = "show" then some .configShow else none
  | _ => none

def isGroup : Level → Bool
  | .program | .config => true
  | _ => false

def hasHelp : Level → List String → Bool
  | _, [] => true
  | l, name :: rest =>
    match l.command? name with
    | some command => command.hasHelp rest
    | none => l.isGroup && name = "help" && rest.isEmpty

end Level

inductive Stop where
  | version (level : Level)
  | help
  | misuse
  deriving DecidableEq, Repr

-- What a level has been given. The value of an option may stand in the next argument; it is looked
-- at when the next option comes, or at the end.
structure Given where
  values : List (Item × String) := []
  awaited : Option (Item × Option String) := none

namespace Given

def add (g : Given) (i : Item) (value : String) : Except Stop Given :=
  if i.accepts value && !g.values.any (·.1 = i) then
    .ok { g with values := g.values ++ [(i, value)] }
  else .error .misuse

def settle (g : Given) : Except Stop Given :=
  match g.awaited with
  | none => .ok g
  | some (_, none) => .error .misuse
  | some (i, some value) => { g with awaited := none }.add i value

def option (g : Given) (i : Item) (attached : Option String) : Except Stop Given := do
  let g ← g.settle
  match i.isSwitch, attached with
  | true, none => g.add i "true"
  | true, some _ => .error .misuse
  | false, some value => g.add i value
  | false, none => .ok { g with awaited := some (i, none) }

def stop (g : Given) (s : Stop) : Except Stop Given := do
  let _ ← g.settle
  .error s

end Given

namespace Level

def readName (l : Level) (g : Given) (name : String) (attached : Option String) :
    Except Stop Given :=
  if name = "help" || name = "version" then
    if attached.isSome then .error .misuse
    else g.stop (if name = "help" then .help else .version l)
  else match l.items.find? (·.name = name) with
    | some i => g.option i attached
    | none => .error .misuse

-- Options by their letters; what follows an option with a value is its value.
def readLetters (l : Level) (g : Given) : List Char → Except Stop Given
  | [] => .ok g
  | 'h' :: _ => g.stop .help
  | 'V' :: _ => g.stop (.version l)
  | c :: rest =>
    match l.items.find? (·.letter? = some c) with
    | none => .error .misuse
    | some i =>
      if i.isSwitch then
        match g.option i none with
        | .ok g => l.readLetters g rest
        | .error stop => .error stop
      else match rest with
        | [] => g.option i none
        | '=' :: value => g.option i (some (String.ofList value))
        | value => g.option i (some (String.ofList value))

end Level

inductive Shape where
  -- After it, no argument is an option.
  | separator
  | named (name : String) (attached : Option String)
  | lettered (letters : List Char)
  | word

def Shape.of (argument : String) : Shape :=
  match argument.toList with
  | ['-', '-'] => .separator
  | '-' :: '-' :: rest =>
    match Text.cut '=' rest with
    | some (name, value) => .named (String.ofList name) (some (String.ofList value))
    | none => .named (String.ofList rest) none
  | '-' :: c :: rest => .lettered (c :: rest)
  | _ => .word

def Level.read (l : Level) (g : Given) : List String → Except Stop (List (Level × Given))
  | [] => do
    let g ← g.settle
    if l.isGroup then .error .misuse else .ok [(l, g)]
  | argument :: rest =>
    match Shape.of argument with
    | .separator => do
      let g ← g.settle
      if l.isGroup || !rest.isEmpty then .error .misuse else .ok [(l, g)]
    | .named name attached =>
      match l.readName g name attached with
      | .ok g => l.read g rest
      | .error stop => .error stop
    | .lettered letters =>
      match l.readLetters g letters with
      | .ok g => l.read g rest
      | .error stop => .error stop
    | .word =>
      match g.awaited with
      | some (i, none) => l.read { g with awaited := some (i, some argument) } rest
      | _ =>
        match l.command? argument with
        | some command => do
          let inner ← command.read {} rest
          let g ← g.settle
          .ok ((l, g) :: inner)
        | none => .error (if l.isGroup && argument = "help" && l.hasHelp rest then .help else .misuse)

inductive Command where
  | run (overrides : Config.Overrides)
  | showConfig
  deriving DecidableEq

structure Invocation where
  folder : String
  command : Command
  deriving DecidableEq

def variablesAccepted (environment : String → Option String) (l : Level) (g : Given) : Bool :=
  l.items.all fun i => g.values.any (·.1 = i) || (environment i.variableName).all i.accepts

-- The value of an item: that of the innermost argument, else that of the variable.
def value? (environment : String → Option String) (read : List (Level × Given)) (i : Item) :
    Option String :=
  let given := read.reverse.findSome? fun (_, g) => (g.values.find? (·.1 = i)).map Prod.snd
  given.or (environment i.variableName)

def overridesOf (value : Item → Option String) : Config.Overrides :=
  let ifSet (i : Item) (text : String) := if value i = some "true" then some text else none
  { mode := value .mode
    bind := value .bind
    flushInterval := value .flushInterval
    logLevel := ifSet .verbose Logging.Level.debug.name
    logFormat := ifSet .json Logging.Format.json.name
    shutdownTimeout := value .shutdownTimeout }

def defaultFolder : String := ".tally"

def parse (environment : String → Option String) (arguments : List String) :
    Except Stop Invocation := do
  let read ← Level.program.read {} arguments
  let value := value? environment read
  if read.any fun (l, g) => !variablesAccepted environment l g then .error .misuse
  else
    .ok
      { folder := (value .folder).getD defaultFolder
        command := if read.any (·.1 = .run) then .run (overridesOf value) else .showConfig }

end StatsDaemon.CommandLine
