import Stencil.CommandLine.Arguments
import Stencil.Project.Build
import Stencil.Project.Check
import Stencil.Text.Quoted
/-!
# Commands

What the program prints and how it ends. Whatever goes wrong ends a command with one message.
-/

namespace Stencil

/-- How a command has ended. -/
structure Outcome where
  code : Nat
  /-- What is printed. -/
  output : String
  /-- What is told besides, line by line. -/
  notes : List String
  /-- Why the command failed. -/
  failure : Option String

namespace Outcome

/-- The end of a command that has printed something. -/
def printed (output : String) : Outcome := ⟨0, output, [], none⟩

/-- The end of a command that has failed. -/
def failed (message : String) : Outcome := ⟨1, "", [], some message⟩

/-- The end of a call with wrong arguments. -/
def misused : Outcome := ⟨2, "", [], none⟩

end Outcome

/-- A token on a line of its own. -/
def Token.listing (t : Token) : String :=
  Text.padLeft 4 (toString t.line) ++ "  " ++ Text.padRight 10 t.kind.label ++ " " ++
    String.ofList (Text.quoted t.text.toList) ++ "\n"

/-- A rendered tree as it is printed. -/
def OutputFormat.print (format : OutputFormat) (t : Tree) : String :=
  match format with
  | html => t.innerHtml ++ "\n"
  | json => t.json.sorted.pretty "" ++ "\n"

namespace Command

variable {m : Type → Type} [Monad m]

/-- Something that can fail to be loaded, as a part of a command. -/
def loading {α : Type} (x : ExceptT LoadError m α) : ExceptT String m α :=
  x.adapt LoadError.message

/-- The full path of the folder of a project. -/
def fullRoot (d : Disk m) (root : String) : ExceptT String m String := do
  match ← d.fullPath? root with
  | some path => return path
  | none => throw ("项目目录 " ++ root ++ " 不存在")

/-- Renders a template of a project. -/
def runRender (d : Disk m) (name root : String) (file : Option String) (format : OutputFormat) :
    ExceptT String m Outcome := do
  let p ← loading (d.project (← fullRoot d root))
  let e ← loading (p.engine d)
  let frame ← loading (p.frame d file)
  let r := e.renderAlone name frame
  match r.outcome with
  | .ok node => return .printed (format.print ((r.document .empty).tree node))
  | .error _ => throw ("渲染模板 " ++ name ++ " 失败")

/-- Builds a project. -/
def runBuild (d : Disk m) (root : String) : ExceptT String m Outcome := do
  let p ← loading (d.project (← fullRoot d root))
  let e ← loading (p.engine d)
  let frame ← loading (p.frame d none)
  let stats ← (p.build d e frame).adapt BuildError.message
  if stats.failed = 0 then return .printed ""
  else throw ("构建未完成：" ++ toString stats.failed ++ " 个模板渲染失败")

/-- Checks a project. -/
def runCheck (d : Disk m) (root : String) : ExceptT String m Outcome := do
  let found ← loading (d.check (← fullRoot d root))
  let failure := "检查未通过：" ++ toString found.errors.length ++ " 个错误，" ++
    toString found.warnings.length ++ " 个警告"
  return {
    code := if found.errors.isEmpty then 0 else 1
    output := ""
    notes := found.warnings ++ found.errors
    failure := if found.errors.isEmpty then none else some failure }

/-- Prints the tokens of a file. -/
def runTokens (d : Disk m) (file : String) : ExceptT String m Outcome := do
  match ← d.read? file with
  | none => throw ("读取 " ++ file ++ " 失败")
  | some source =>
    match Lexer.tokenize Grammar.standard.vocabulary source with
    | .ok ts => return .printed (String.join (ts.map Token.listing))
    | .error e => throw (CompileError.ofSyntaxError e).message

/-- Runs a command on a disk. -/
def run (d : Disk m) (c : Command) : m Outcome := do
  let end? ← (match c with
    | render name root file format => runRender d name root file format
    | build root => runBuild d root
    | check root => runCheck d root
    | tokens file => runTokens d file).run
  match end? with
  | .ok outcome => return outcome
  | .error message => return .failed message

end Command

/-- Runs the program with the given arguments. -/
def CommandLine.run {m : Type → Type} [Monad m] (d : Disk m) (args : List String) : m Outcome :=
  match CommandLine.command? args with
  | some c => c.run d
  | none => pure .misused

end Stencil
