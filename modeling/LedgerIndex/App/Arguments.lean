/-!
# Arguments

The command line: options that hold for every command, a command, and the switches of that
command.  Options may stand before and after the command; those after it count more.
-/

namespace LedgerIndex.App

/-- What to do. -/
inductive Command where
  /-- index until interrupted, from the beginning if `isForced` -/
  | run (isForced : Bool)
  | status (isJson : Bool)
  /-- delete everything, if that is confirmed -/
  | reset (isConfirmed : Bool)
  | info
  | version
  deriving DecidableEq, Repr, Inhabited

/-- Values of the options that hold for every command. -/
structure Options where
  config : Option String
  url : Option String
  database : Option String
  deriving DecidableEq, Repr, Inhabited

namespace Options

/-- No option is given. -/
def none : Options := ⟨.none, .none, .none⟩

/-- The options of `a`, and those of `b` where `a` has none. -/
def or (a b : Options) : Options :=
  ⟨a.config.or b.config, a.url.or b.url, a.database.or b.database⟩

end Options

/-- What a command line asks for. -/
structure Arguments where
  options : Options
  command : Command
  deriving DecidableEq, Repr, Inhabited

/-- What comes of reading a command line. -/
inductive Parsed where
  | command (a : Arguments)
  /-- show how to use the program, or one of its commands -/
  | help (command : Option String)
  | version
  /-- the line makes no sense -/
  | refused
  deriving DecidableEq, Repr, Inhabited

/-! ## The words of a command line -/

/-- The commands, each with the names of its switch. -/
def commands : List (String × List String) :=
  [ ("run", ["force"]), ("status", ["json"]), ("reset", ["yes", "force"]), ("info", []),
    ("version", []) ]

/-- The name of the command that shows how to use the others. -/
def helpCommand : String := "help"

/-- What a command does, with its switch set or not. -/
def Command.named? : String → Bool → Option Command
  | "run", isSet => some (.run isSet)
  | "status", isSet => some (.status isSet)
  | "reset", isSet => some (.reset isSet)
  | "info", _ => some .info
  | "version", _ => some .version
  | _, _ => none

/-- What was found so far, before the command or after it. -/
structure Found where
  options : Options
  /-- the switch of the command is set -/
  isSet : Bool
  deriving DecidableEq, Repr, Inhabited

/-- Sets an option, unless it was set before.  A path may not be empty. -/
def Found.setOption (f : Found) (name value : String) : Option Found :=
  match name with
  | "config" =>
    if f.options.config.isSome ∨ value = "" then none
    else some { f with options.config := some value }
  | "rpc-url" =>
    if f.options.url.isSome then none else some { f with options.url := some value }
  | "database-url" =>
    if f.options.database.isSome then none else some { f with options.database := some value }
  | _ => none

/-- Sets the switch, unless it was set before. -/
def Found.setSwitch (f : Found) : Option Found :=
  if f.isSet then none else some { f with isSet := true }

/-- The options that take a value. -/
def optionNames : List String := ["config", "rpc-url", "database-url"]

/-- What one word of a command line is. -/
inductive Word where
  /-- an option with its value, if the value stands in the same word -/
  | option (name : String) (value : Option String)
  | switch
  | help
  | version
  /-- nothing but what is no option may follow -/
  | separator
  | plain (s : String)
  | unknown
  deriving DecidableEq, Repr, Inhabited

/-- The word is meant as an option, so it cannot be a value. -/
def looksLikeOption (s : String) : Bool :=
  match s.toList with
  | '-' :: _ :: _ => true
  | _ => false

/-- What a word is, before the command or after one with the given switches. -/
def Word.ofString (isFirst : Bool) (switches : List String) (s : String) : Word :=
  match s.toList with
  | ['-', '-'] => .separator
  | '-' :: '-' :: cs =>
    let name := String.ofList (cs.takeWhile (· != '='))
    let value := if cs.contains '=' then some (String.ofList ((cs.dropWhile (· != '=')).drop 1))
      else none
    if optionNames.contains name then .option name value
    else if value.isSome then .unknown
    else if name = "help" then .help
    else if name = "version" ∧ isFirst then .version
    else if switches.contains name then .switch
    else .unknown
  | ['-', 'c'] => .option "config" none
  | '-' :: 'c' :: '=' :: cs => .option "config" (some (String.ofList cs))
  | '-' :: 'c' :: cs => .option "config" (some (String.ofList cs))
  | '-' :: 'h' :: _ => .help
  | '-' :: 'V' :: _ => if isFirst then .version else .unknown
  | ['-'] => .plain s
  | '-' :: _ => .unknown
  | _ => .plain s

/-! ## Reading -/

/-- What a stretch of words comes to. -/
inductive Stretch where
  | ended (f : Found)
  /-- a command, and the words after it -/
  | command (f : Found) (name : String) (rest : List String)
  | help
  | version
  | refused
  deriving Inhabited

/-- Reads words up to a command. -/
def readStretch (isFirst : Bool) (switches : List String) : Found → List String → Stretch
  | f, [] => .ended f
  | f, word :: rest =>
    match Word.ofString isFirst switches word with
    | .option name (some value) =>
      match f.setOption name value with
      | some f => readStretch isFirst switches f rest
      | none => .refused
    | .option name none =>
      match rest with
      | [] => .refused
      | value :: rest =>
        if looksLikeOption value then .refused
        else
          match f.setOption name value with
          | some f => readStretch isFirst switches f rest
          | none => .refused
    | .switch =>
      match f.setSwitch with
      | some f => readStretch isFirst switches f rest
      | none => .refused
    | .help => .help
    | .version => .version
    | .separator => if rest.isEmpty then .ended f else .refused
    | .plain name => if isFirst then .command f name rest else .refused
    | .unknown => .refused

/-- The switches of a command, if there is such a command. -/
def switches? (name : String) : Option (List String) :=
  (commands.find? (·.1 == name)).map (·.2)

/-- Reads what follows the command that shows help: the name of one command at most. -/
def readHelp : List String → Parsed
  | [] => .help none
  | [name] =>
    if name = helpCommand ∨ (switches? name).isSome then .help (some name) else .refused
  | _ => .refused

/-- Reads a command line. -/
def Parsed.ofWords (words : List String) : Parsed :=
  match readStretch true [] ⟨.none, false⟩ words with
  | .help => .help none
  | .version => .version
  | .ended _ | .refused => .refused
  | .command before name rest =>
    if name = helpCommand then readHelp rest
    else
      match switches? name with
      | none => .refused
      | some switches =>
        match readStretch false switches ⟨.none, false⟩ rest with
        | .ended after =>
          ((Command.named? name after.isSet).map fun command =>
            .command ⟨after.options.or before.options, command⟩).getD .refused
        | .help => .help (some name)
        | .command _ _ _ | .version | .refused => .refused

end LedgerIndex.App
