import Stencil.Table
/-!
# Arguments of the command line

The commands of the program and how they are written. An option takes a value, which is attached
to it or follows it, and may be given once; after two hyphens alone everything is an operand.
-/

namespace Stencil

/-- How a rendered template is printed. -/
inductive OutputFormat
  | html
  | json
  deriving DecidableEq

/-- What the program is asked to do. -/
inductive Command
  /-- Prints one template, with the variables from a file if there is one. -/
  | render (name root : String) (frameFile : Option String) (format : OutputFormat)
  | build (root : String)
  | check (root : String)
  /-- Prints the tokens of a file. -/
  | tokens (file : String)
  deriving DecidableEq

namespace CommandLine

/-- An option with a value. -/
structure Flag where
  name : String
  letter : Option Char

/-- The folder of the project. -/
def rootFlag : Flag := ⟨"root", some 'r'⟩

/-- The file with the variables. -/
def variableFlag : Flag := ⟨"vars", none⟩

/-- How a rendered template is printed. -/
def formatFlag : Flag := ⟨"format", none⟩

/-- What has been read of the arguments. -/
structure Given where
  /-- The values of the options by their names. -/
  values : Table String
  operands : List String

/-- Whether an argument is an option and not an operand. -/
def isOption : List Char → Bool
  | '-' :: _ :: _ => true
  | _ => false

/-- The option that an argument names, with the value attached to it. -/
def flag? (flags : List Flag) : List Char → Option (Flag × Option (List Char))
  | '-' :: '-' :: cs => do
    let name := cs.takeWhile (· != '=')
    let flag ← flags.find? fun f => f.name.toList == name
    return (flag, (cs.drop name.length).tail?)
  | '-' :: c :: cs => do
    let flag ← flags.find? fun f => f.letter == some c
    match cs with
    | [] => return (flag, none)
    | '=' :: value => return (flag, some value)
    | value => return (flag, some value)
  | _ => none

/-- The arguments after one more value of an option. No value is empty, and no option is given
twice. -/
def Given.withValue? (g : Given) (flag : Flag) (value : List Char) : Option Given :=
  if value.isEmpty || Table.has g.values flag.name then none
  else some { g with values := Table.insert g.values flag.name (String.ofList value) }

/-- Reads arguments. -/
def read? (flags : List Flag) (g : Given) : List String → Option Given
  | [] => some g
  | "--" :: rest => some { g with operands := g.operands ++ rest }
  | arg :: rest =>
    if isOption arg.toList then
      match flag? flags arg.toList with
      | some (flag, some value) => do read? flags (← g.withValue? flag value) rest
      | some (flag, none) =>
        match rest with
        | [] => none
        | value :: rest =>
          if isOption value.toList then none
          else do read? flags (← g.withValue? flag value.toList) rest
      | none => none
    else read? flags { g with operands := g.operands ++ [arg] } rest

/-- The folder of the project; the working folder if it is not given. -/
def Given.root (g : Given) : String :=
  (Table.get? g.values rootFlag.name).getD "."

/-- How the result is printed. -/
def Given.format? (g : Given) : Option OutputFormat :=
  match Table.get? g.values formatFlag.name with
  | none => some .html
  | some "html" => some .html
  | some "json" => some .json
  | some _ => none

/-- The command that some arguments ask for. -/
def command? : List String → Option Command
  | "render" :: args => do
    let g ← read? [rootFlag, variableFlag, formatFlag] ⟨[], []⟩ args
    match g.operands with
    | [name] => return .render name g.root (Table.get? g.values variableFlag.name) (← g.format?)
    | _ => none
  | "build" :: args => do
    let g ← read? [rootFlag] ⟨[], []⟩ args
    if g.operands.isEmpty then return .build g.root else none
  | "check" :: args => do
    let g ← read? [rootFlag] ⟨[], []⟩ args
    if g.operands.isEmpty then return .check g.root else none
  | "tokens" :: args => do
    let g ← read? [] ⟨[], []⟩ args
    match g.operands with
    | [file] => if file.isEmpty then none else return .tokens file
    | _ => none
  | _ => none

example : command? ["render", "page", "-rsite", "--format=json"] =
    some (.render "page" "site" none .json) := by decide +kernel
example : command? ["build", "--root"] = none := by decide +kernel

end CommandLine

end Stencil
