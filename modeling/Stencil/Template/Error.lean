import Stencil.Text.Pieces
import Stencil.Text.Quoted
import Stencil.Token.Basic
/-!
# Errors in templates

Why a template cannot be read, at which line, and how this is told: with the name of the template
and the lines around the place when they are known.
-/

namespace Stencil

/-- Why a template cannot be read. -/
inductive SyntaxFault
  | unclosedString (quote : Char)
  | tooDeep (limit : Nat)
  | unexpectedEnd
  /-- What was expected, and the token that stood there instead; none at the end. -/
  | expected (what : String) (found : Option (TokenKind × String))
  | required (what : String)
  | nothingBefore (text : String)
  | notInfix (text : String)
  | unexpected (kind : TokenKind) (text : String)
  | invalidNumber (text : String)
  | unclosedBlock
  | strayEnd
  | attributeName (found : String)
  | elementName (found : String)
  | elseWithoutOwner
  | branchAfterElse
  | testedElseOfLoop
  | loopWithoutNames
  | loopWithoutBody
  | elementWithoutText
  | lostBranches
  | lostElseOwner
  | lostLoop
  deriving DecidableEq

namespace SyntaxFault

/-- Whether the fault lies in the division into tokens. -/
def isLexical : SyntaxFault → Bool
  | unclosedString _ => true
  | _ => false

/-- How a token is named that stands in the way. -/
def foundText : Option (TokenKind × String) → String
  | none => "模板结尾"
  | some (.newline, _) => "行尾"
  | some (kind, text) => kind.label ++ " '" ++ text ++ "'"

/-- The text of the fault. -/
def message : SyntaxFault → String
  | unclosedString quote => "未闭合的字符串，缺少 " ++ String.ofList [quote]
  | tooDeep limit => "嵌套深度超过上限 " ++ toString limit
  | unexpectedEnd => "模板意外结束"
  | expected what found => "期望" ++ what ++ "，但找到 " ++ foundText found
  | required what => "此处需要" ++ what
  | nothingBefore text => "'" ++ text ++ "' 之前缺少表达式"
  | notInfix text => "'" ++ text ++ "' 不能用作中缀运算符"
  | unexpected kind text =>
    "意外的 " ++ kind.label ++ " '" ++ String.ofList (Text.escaped text.toList) ++ "'"
  | invalidNumber text => "无效的数字：'" ++ text ++ "'"
  | unclosedBlock => "代码块未闭合"
  | strayEnd => "多余的 '@end'，没有需要闭合的代码块"
  | attributeName found => "'=' 左侧必须是属性名，实际为 " ++ found
  | elementName found => "期望元素名（div、span 等），但找到 " ++ found
  | elseWithoutOwner => "'else' 之前没有可衔接的 if 或 for 语句"
  | branchAfterElse => "无条件的 else 之后不能再有分支"
  | testedElseOfLoop => "for 循环的 else 分支不能带条件"
  | loopWithoutNames => "for 循环缺少变量名"
  | loopWithoutBody => "for 循环既没有代码块也没有循环体表达式"
  | elementWithoutText => "elex 需要一个表达式作为元素文本"
  | lostBranches => "if 语句的分支栈丢失"
  | lostElseOwner => "else 分支所属的语句丢失"
  | lostLoop => "for 循环的分支栈丢失"

/-- Advice that goes with some faults. -/
def hint? : SyntaxFault → Option String
  | unclosedString _ => some "字符串不能跨行"
  | unclosedBlock => some "每个以 ':' 开始的代码块都需要一个 '@end'"
  | testedElseOfLoop => some "for 循环只支持一个 '@else:'"
  | loopWithoutBody => some "在数据源之后加 ':' 开始代码块，或直接写一个表达式"
  | elementWithoutText => some "例如：@elex li item.name"
  | _ => none

end SyntaxFault

/-- A fault at a line. -/
structure SyntaxError where
  line : Nat
  fault : SyntaxFault
  deriving DecidableEq

/-- A line of a template near an error. -/
structure ExcerptLine where
  number : Nat
  text : String
  /-- Whether the error is in this line. -/
  marked : Bool
  deriving DecidableEq

namespace ExcerptLine

/-- The line with its number in a column of the given width. -/
def display (width : Nat) (l : ExcerptLine) : String :=
  "  " ++ (if l.marked then ">" else " ") ++ " " ++ Text.padLeft width (toString l.number) ++
    " | " ++ l.text ++ "\n"

end ExcerptLine

/-- The lines of a source. A line feed ends a line, with or without a carriage return before it,
and what follows the last one is a line if it is not empty. -/
def sourceLines (source : String) : List String :=
  let pieces := source.toList.splitOn '\n'
  let ended := pieces.dropLast.map fun l => if l.getLast? == some '\r' then l.dropLast else l
  let last := pieces.getLastD []
  (ended ++ if last.isEmpty then [] else [last]).map String.ofList

/-- The lines of a source from two before `line` to two after it. -/
def excerpt (source : String) (line : Nat) : List ExcerptLine :=
  let lines := sourceLines source
  let first := line - 3
  let shown := (lines.take (min (line + 2) lines.length)).drop first
  shown.zipIdx.map fun e => ⟨first + e.2 + 1, e.1, first + e.2 + 1 == line⟩

/-- An error with the place where it is. A fault that belongs to no named template has the empty
name. -/
structure CompileError where
  template : String
  error : SyntaxError
  excerpt : List ExcerptLine
  deriving DecidableEq

namespace CompileError

/-- The error without a template. -/
def ofSyntaxError (e : SyntaxError) : CompileError := ⟨"", e, []⟩

/-- The error in a template with this name and source. -/
def inTemplate (name source : String) (e : SyntaxError) : CompileError :=
  ⟨name, e, Stencil.excerpt source e.line⟩

/-- The first line of the text, which says where the error is. -/
def heading (e : CompileError) : String :=
  let kind := if e.error.fault.isLexical then "词法错误" else "语法错误"
  if e.template.isEmpty then
    "plates " ++ kind ++ "（第 " ++ toString e.error.line ++ " 行）\n"
  else
    "plates " ++ kind ++ "\n  → " ++ e.template ++ ":" ++ toString e.error.line ++ "\n\n"

/-- The lines around the place. -/
def context (e : CompileError) : String :=
  let width := (toString (e.excerpt.getLast?.elim 0 ExcerptLine.number)).length
  String.join (e.excerpt.map (ExcerptLine.display width))

/-- The text of the error. -/
def message (e : CompileError) : String :=
  e.heading ++ e.context ++ "  错误：" ++ e.error.fault.message ++
    match e.error.fault.hint? with
    | some hint => "\n  提示：" ++ hint
    | none => ""

end CompileError

end Stencil
