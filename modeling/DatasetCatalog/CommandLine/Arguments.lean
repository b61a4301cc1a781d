/-!
# Arguments

A command is given options and operands in any order. An option may have a short form, and short
forms may be written together; its value follows it at once or as the next argument, which must not
look like an option. After two dashes everything is an operand. Only repeatable options may be given
twice.
-/

namespace DatasetCatalog.CommandLine

structure OptionSpec where
  long : String
  short : Option Char := none
  takesValue : Bool := false
  repeatable : Bool := false
deriving DecidableEq

/-- Why arguments do not lead to a command. -/
inductive Stop
  /-- Help is asked for. -/
  | help
  /-- The version is asked for. -/
  | version
  | refused
deriving DecidableEq

/-- Options by their long forms, with their values, and operands, in the order in which they stand. -/
structure Arguments where
  options : List (String × String) := []
  operands : List String := []
  /-- An option whose value comes next. -/
  pending : Option OptionSpec := none
  /-- Whether only operands follow. -/
  closed : Bool := false

namespace Arguments

def values (a : Arguments) (name : String) : List String :=
  (a.options.filter fun o => o.1 == name).map Prod.snd

def value? (a : Arguments) (name : String) : Option String := (a.values name).head?

def has (a : Arguments) (name : String) : Bool := !(a.values name).isEmpty

/-- Whether an argument looks like an option. A single dash does not. -/
def isDashed (argument : String) : Bool :=
  argument.toList.head? == some '-' && argument ≠ "-"

def give (a : Arguments) (o : OptionSpec) (value : String) : Except Stop Arguments :=
  if o.long == "help" then .error .help
  else if o.long == "version" then .error .version
  else if a.has o.long && !o.repeatable then .error .refused
  else .ok { a with options := a.options ++ [(o.long, value)], pending := none }

def giveLong (specs : List OptionSpec) (a : Arguments) (chars : List Char) : Except Stop Arguments :=
  let name := String.ofList (chars.takeWhile (· ≠ '='))
  match specs.find? fun o => o.long == name, chars.dropWhile (· ≠ '=') with
  | none, _ => .error .refused
  | some o, [] => if o.takesValue then .ok { a with pending := some o } else a.give o ""
  | some o, _ :: value => if o.takesValue then a.give o (String.ofList value) else .error .refused

/-- Adds options written in their short forms, without the dash. -/
def giveShort (specs : List OptionSpec) (a : Arguments) : List Char → Except Stop Arguments
  | [] => .ok a
  | c :: rest =>
    match specs.find? fun o => o.short == some c with
    | none => .error .refused
    | some o =>
      if o.takesValue then
        match rest with
        | [] => .ok { a with pending := some o }
        | '=' :: value => a.give o (String.ofList value)
        | value => a.give o (String.ofList value)
      else (a.give o "").bind fun a => a.giveShort specs rest

def add (specs : List OptionSpec) (a : Arguments) (argument : String) : Except Stop Arguments :=
  match a.pending with
  | some o => if isDashed argument then .error .refused else a.give o argument
  | none =>
    if a.closed || !isDashed argument then .ok { a with operands := a.operands ++ [argument] }
    else
      match argument.toList with
      | ['-', '-'] => .ok { a with closed := true }
      | '-' :: '-' :: long => a.giveLong specs long
      | '-' :: short => a.giveShort specs short
      | _ => .error .refused

def complete (a : Arguments) : Except Stop Arguments :=
  if a.pending.isSome then .error .refused else .ok a

def read (specs : List OptionSpec) (arguments : List String) : Except Stop Arguments :=
  (arguments.foldlM (add specs) {}).bind complete

/-- The options before the first operand, and the arguments from this on. -/
def readLeading (specs : List OptionSpec) (a : Arguments) :
    List String → Except Stop (Arguments × List String)
  | [] => a.complete.map fun a => (a, [])
  | argument :: rest =>
    if a.pending.isNone && !isDashed argument then .ok (a, argument :: rest)
    else if argument == "--" then .error .refused
    else (a.add specs argument).bind fun a => a.readLeading specs rest

end Arguments

end DatasetCatalog.CommandLine
