namespace Datatypes

inductive Format where
  | text
  | json
deriving DecidableEq, Repr

structure Settings where
  format : Format := .text
  quiet : Bool := false
deriving DecidableEq, Repr

structure GenerateOptions where
  input : String
  ns : String
  conventions : Option String := none
  manifest : String := "composer.json"
  outDir : Option String := none
  dryRun : Bool := false
deriving DecidableEq, Repr

inductive Command where
  | generate (options : GenerateOptions)
  | parse (file : String)
  | conventions (file : Option String)
deriving DecidableEq, Repr

inductive Request where
  | version
  | run (settings : Settings) (command : Command)
deriving DecidableEq, Repr

namespace Command

structure Arguments where
  flags : List String := []
  values : List (String × String) := []
  words : List String := []
deriving DecidableEq, Repr

structure Level where
  flags : List String
  options : List String

def splitOption (arg : String) : String × Option String :=
  let name := arg.toList.takeWhile (· ≠ '=')
  match arg.toList.drop name.length with
  | [] => (arg, none)
  | _ :: value => (String.ofList name, some (String.ofList value))

def startsWith (start arg : String) : Bool := start.toList.isPrefixOf arg.toList

def isDashed (arg : String) : Bool := startsWith "-" arg && arg ≠ "-"

def formatNamed : String → Option Format
  | "text" => some .text
  | "json" => some .json
  | _ => none

def isValue (option value : String) : Bool :=
  if option = "--output" then (formatNamed value).isSome else value ≠ ""

namespace Arguments

def addFlag (a : Arguments) (name : String) (value : Option String) : Option Arguments :=
  if value.isSome || a.flags.contains name then none
  else some { a with flags := name :: a.flags }

def addValue (a : Arguments) (name value : String) : Option Arguments :=
  if (a.values.lookup name).isSome || !isValue name value then none
  else some { a with values := (name, value) :: a.values }

def value? (a : Arguments) (name : String) : Option String := a.values.lookup name

end Arguments

/-- Reads a flag or an option. The value of an option is attached to it, or it is the argument
that comes next; the result tells whether that one has been taken. -/
def readOption (level : Level) (a : Arguments) (arg : String) (next : Option String) :
    Option (Arguments × Bool) :=
  let (name, attached) := splitOption arg
  if level.flags.contains name then (a.addFlag name attached).map (·, false)
  else if level.options.contains name then
    match attached, next with
    | some v, _ => (a.addValue name v).map (·, false)
    | none, some v => if isDashed v then none else (a.addValue name v).map (·, true)
    | none, none => none
  else none

def readLevel (level : Level) (onlyWords : Bool) (a : Arguments) :
    List String → Option Arguments
  | [] => some a
  | arg :: rest =>
    if onlyWords || !isDashed arg then
      readLevel level onlyWords { a with words := a.words ++ [arg] } rest
    else if arg = "--" then readLevel level true a rest
    else match readOption level a arg rest.head?, rest with
      | none, _ => none
      | some (a, true), _ :: rest => readLevel level false a rest
      | some (a, _), rest => readLevel level false a rest

def globalLevel : Level := ⟨["--quiet", "--verbose"], ["--output"]⟩

inductive Start where
  | version
  | command (a : Arguments) (name : String) (rest : List String)

def readStart (a : Arguments) : List String → Option Start
  | [] => none
  | arg :: rest =>
    if !isDashed arg then some (.command a arg rest)
    else if arg = "--version" || startsWith "-V" arg then some .version
    else match readOption globalLevel a arg rest.head?, rest with
      | none, _ => none
      | some (a, true), _ :: rest => readStart a rest
      | some (a, _), rest => readStart a rest

def level? : String → Option Level
  | "generate" =>
    some ⟨"--dry-run" :: globalLevel.flags,
      ["--conventions", "--composer", "--out-dir"] ++ globalLevel.options⟩
  | "parse" => some globalLevel
  | "conventions" => some ⟨globalLevel.flags, "--conventions" :: globalLevel.options⟩
  | _ => none

def ofArguments (name : String) (a : Arguments) : Option Command :=
  match name, a.words with
  | "generate", [input, ns] =>
    if input = "" || ((a.value? "--composer").isSome && (a.value? "--out-dir").isSome) then none
    else some (.generate {
      input := input
      ns := ns
      conventions := a.value? "--conventions"
      manifest := (a.value? "--composer").getD "composer.json"
      outDir := a.value? "--out-dir"
      dryRun := a.flags.contains "--dry-run" })
  | "parse", [file] => if file = "" then none else some (.parse file)
  | "conventions", [] => some (.conventions (a.value? "--conventions"))
  | _, _ => none

def settings (before after : Arguments) : Settings where
  format :=
    (((after.value? "--output").or (before.value? "--output")).bind formatNamed).getD .text
  quiet := before.flags.contains "--quiet" || after.flags.contains "--quiet"

def readArguments (args : List String) : Option Request :=
  match readStart {} args with
  | none => none
  | some .version => some .version
  | some (.command before name rest) =>
    match level? name with
    | none => none
    | some level =>
      match readLevel level false {} rest with
      | none => none
      | some after =>
        (ofArguments name after).map fun command => .run (settings before after) command

end Command

end Datatypes
