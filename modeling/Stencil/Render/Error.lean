import Stencil.Value.Basic
/-!
# Rendering errors

The causes for which a rendering stops, and the text for each.
-/

namespace Stencil

/-- Why a rendering stopped. -/
inductive RenderError
  | undefinedVariable (path : String)
  | notIndexable (kind : Kind)
  | nonNumericIndex (index : String)
  | notIterable (kind : Kind)
  | loopArity (names values : Nat)
  | objectLoopArity (names : Nat)
  | unsupportedContainer (kind : Kind)
  | unknownFilter (name : String)
  | notCallable (kind : Kind)
  | templateNotFound (name : String)
  | typeMismatch (operator : String) (left right : Kind)
  | divisionByZero
  | emptyMemberName
  | invalidNumber (text : String)
  | depthExceeded (limit : Nat)
  | function (name message : String)
  deriving DecidableEq

namespace RenderError

/-- The word for the cause. -/
def label : RenderError → String
  | undefinedVariable _ => "UndefinedVariable"
  | notIndexable _ => "NotIndexable"
  | nonNumericIndex _ => "NonNumericIndex"
  | notIterable _ => "NotIterable"
  | loopArity _ _ => "LoopArity"
  | objectLoopArity _ => "ObjectLoopArity"
  | unsupportedContainer _ => "UnsupportedContainer"
  | unknownFilter _ => "UnknownFilter"
  | notCallable _ => "NotCallable"
  | templateNotFound _ => "TemplateNotFound"
  | typeMismatch _ _ _ => "TypeMismatch"
  | divisionByZero => "DivisionByZero"
  | emptyMemberName => "EmptyMemberName"
  | invalidNumber _ => "InvalidNumber"
  | depthExceeded _ => "DepthExceeded"
  | function _ _ => "Function"

/-- The text of the error. -/
def message : RenderError → String
  | undefinedVariable path => "未定义的变量：'" ++ path ++ "'"
  | notIndexable kind => "无法对 " ++ kind.name ++ " 类型的值做下标访问"
  | nonNumericIndex index => "数组下标必须是数字，实际为：'" ++ index ++ "'"
  | notIterable kind => "只能遍历数组或对象，实际为 " ++ kind.name
  | loopArity names values =>
    "绑定数量不匹配：循环声明了 " ++ toString names ++ " 个变量名，但当前元素提供了 " ++
      toString values ++ " 个值"
  | objectLoopArity names =>
    "遍历对象的键和值需要恰好两个变量名，当前为 " ++ toString names ++ " 个"
  | unsupportedContainer kind => "成员判断无法处理 " ++ kind.name ++ " 类型的容器"
  | unknownFilter name => "未找到过滤器：'" ++ name ++ "'"
  | notCallable kind => kind.name ++ " 类型的值不可调用"
  | templateNotFound name => "未找到模板：'" ++ name ++ "'"
  | typeMismatch operator left right =>
    "运算符 '" ++ operator ++ "' 不支持 " ++ left.name ++ " 与 " ++ right.name ++ " 的组合"
  | divisionByZero => "整数除以零"
  | emptyMemberName => "对象字面量的成员缺少名称"
  | invalidNumber text => "无效的数字：'" ++ text ++ "'"
  | depthExceeded limit => "嵌套深度超过上限 " ++ toString limit
  | function name message => "函数 '" ++ name ++ "' 执行失败：" ++ message

end RenderError

end Stencil
