import StackExpr.Source.Text
import StackExpr.Type.Resolve

/-! What checking can object to, and how each objection reads. -/
namespace StackExpr

/-- The construct in which a value of the wrong type turned up. -/
inductive Place where
  | operands (op : BinaryOp)
  | operand (op : UnaryOp)
  | updated (op : UpdateOp)
  | assignment (name : String)
  | compound (op : AssignOp) (name : String)
  | test
  | branches
  | element
  | initializer (name : String)
  | result
  | spreadSource
  | other (description : String)
  deriving DecidableEq

def Place.text : Place → String
  | operands op => "'" ++ op.text ++ "' operands"
  | operand op => "'" ++ op.text ++ "' operand"
  | updated op => "'" ++ op.text ++ "' operand"
  | assignment name => "assignment to " ++ name
  | compound op name => "'" ++ op.text ++ "' assignment to " ++ name
  | test => "conditional test"
  | branches => "conditional branches"
  | element => "array element"
  | initializer name => "initializer of " ++ name
  | result => "result"
  | spreadSource => "spread source"
  | other description => description

/-- What a place asks of a type. -/
inductive Demand where
  | type (t : Ty)
  | numeric | integral | boolean | record
  deriving DecidableEq

def Demand.text : Demand → String
  | type t => t.text
  | numeric => "numeric"
  | integral => "integral"
  | boolean => "boolean"
  | record => "Record"

/-- Members an ordered map has no room for. -/
inductive RejectedMember where
  | code (form : MemberForm)
  | symbolKey
  deriving DecidableEq

def RejectedMember.text : RejectedMember → String
  | code .method => "method"
  | code .getter => "getter"
  | code .setter => "setter"
  | symbolKey => "symbol key"

inductive CheckError where
  | typeMismatch (place : Place) (expected : Demand) (found : Ty) (span : Span)
  | invalidCast (source target : Ty) (span : Span)
  | keyMismatch (label : String) (expected found : Ty) (span : Span)
  | spreadKeys (container : RecordTy) (found : Ty) (span : Span)
  | valueMismatch (label : String) (expected found : Ty) (span : Span)
  | spreadValues (container : RecordTy) (found : Ty) (span : Span)
  | rejectedMember (member : RejectedMember) (label : String) (span : Span)
  | unsupportedOperator (op : String) (span : Span)
  | unsupportedSymbol (description : String) (span : Span)
  | undefinedVariable (name : String) (span : Span)
  | duplicateDeclaration (name : String) (span : Span)
  | invalidTarget (target : String) (span : Span)
  | missingType (name : String) (span : Span)
  | invalidType (bad : BadTypeExpr)

/-- The category of an error, which stays the same however it is worded. -/
inductive ErrorKind where
  | typeMismatch | invalidCast | keyTypeMismatch | incompatibleKeyType | valueTypeMismatch
  | incompatibleValueType | unsupportedPropertyKind | unsupportedOperator | unsupportedExpression
  | undefinedVariable | duplicateDeclaration | invalidAssignmentTarget | missingType
  | invalidTypeExpression | stackVerification
  deriving DecidableEq

/-- A short identifier of the category, for tools. -/
def ErrorKind.code : ErrorKind → String
  | typeMismatch => "tsjvm::compile::type_mismatch"
  | invalidCast => "tsjvm::compile::invalid_cast"
  | keyTypeMismatch => "tsjvm::compile::record::key_type_mismatch"
  | incompatibleKeyType => "tsjvm::compile::record::incompatible_key_type"
  | valueTypeMismatch => "tsjvm::compile::record::value_type_mismatch"
  | incompatibleValueType => "tsjvm::compile::record::incompatible_value_type"
  | unsupportedPropertyKind => "tsjvm::compile::record::unsupported_property_kind"
  | unsupportedOperator => "tsjvm::compile::unsupported_operator"
  | unsupportedExpression => "tsjvm::compile::unsupported_expression"
  | undefinedVariable => "tsjvm::compile::undefined_variable"
  | duplicateDeclaration => "tsjvm::compile::duplicate_declaration"
  | invalidAssignmentTarget => "tsjvm::compile::invalid_assignment_target"
  | missingType => "tsjvm::compile::missing_type"
  | invalidTypeExpression => "tsjvm::compile::invalid_type_annotation"
  | stackVerification => "tsjvm::compile::stack_verification"

namespace CheckError

def kind : CheckError → ErrorKind
  | typeMismatch .. => .typeMismatch
  | invalidCast .. => .invalidCast
  | keyMismatch .. => .keyTypeMismatch
  | spreadKeys .. => .incompatibleKeyType
  | valueMismatch .. => .valueTypeMismatch
  | spreadValues .. => .incompatibleValueType
  | rejectedMember .. => .unsupportedPropertyKind
  | unsupportedOperator .. => .unsupportedOperator
  | unsupportedSymbol .. => .unsupportedExpression
  | undefinedVariable .. => .undefinedVariable
  | duplicateDeclaration .. => .duplicateDeclaration
  | invalidTarget .. => .invalidAssignmentTarget
  | missingType .. => .missingType
  | invalidType .. => .invalidTypeExpression

def span : CheckError → Span
  | typeMismatch _ _ _ s | invalidCast _ _ s | keyMismatch _ _ _ s | spreadKeys _ _ s
  | valueMismatch _ _ _ s | spreadValues _ _ s | rejectedMember _ _ s | unsupportedOperator _ s
  | unsupportedSymbol _ s | undefinedVariable _ s | duplicateDeclaration _ s | invalidTarget _ s
  | missingType _ s => s
  | invalidType bad => bad.written.span

def message : CheckError → String
  | typeMismatch place expected found _ =>
    s!"Type mismatch in {place.text}: expected {expected.text}, found {found.text}"
  | invalidCast source target _ => s!"Invalid cast from {source.text} to {target.text}"
  | keyMismatch label expected found _ =>
    s!"Key type mismatch for key '{label}': expected {expected.text}, found {found.text}"
  | spreadKeys container found _ =>
    s!"Incompatible key type in {container.text}: " ++
      s!"expected {container.key.text}, found {found.text}"
  | valueMismatch label expected found _ =>
    s!"Value type mismatch for property '{label}': expected {expected.text}, found {found.text}"
  | spreadValues container found _ =>
    s!"Incompatible value type in {container.text}: " ++
      s!"expected {container.value.text}, found {found.text}"
  | rejectedMember member label _ => s!"Unsupported {member.text} '{label}' in object literal"
  | unsupportedOperator op _ => s!"Unsupported operator '{op}'"
  | unsupportedSymbol description _ =>
    s!"Unsupported expression: symbol '{description}' has no value representation"
  | undefinedVariable name _ => s!"Undefined variable: {name}"
  | duplicateDeclaration name _ => s!"Variable {name} is already declared"
  | invalidTarget target _ => s!"Invalid assignment target: {target}"
  | missingType name _ => s!"Cannot determine the type of {name}"
  | invalidType bad => s!"Invalid type annotation {bad.written.text}: {bad.fault.text}"

/-- Advice on how to mend the error. -/
def help? : CheckError → Option String
  | typeMismatch .. =>
    some <| "No promotion or conversion is defined between these types; " ++
      "add an explicit cast if one exists"
  | invalidCast .. =>
    some "Only numeric-to-numeric, boxing, and checked reference casts are defined"
  | keyMismatch _ expected _ _ => some s!"Keys of this record must be {expected.text}"
  | spreadKeys container _ _ =>
    some s!"The spread record's key type must be assignable to {container.key.text}"
  | valueMismatch _ expected _ _ =>
    some s!"Values of this record must be assignable to {expected.text}"
  | spreadValues container _ _ =>
    some s!"The spread record's value type must be assignable to {container.value.text}"
  | rejectedMember .. =>
    some <| "Object literals compile to ordered maps, " ++
      "which hold only string or numeric keys and plain values"
  | undefinedVariable .. => some "Declare the variable before using it"
  | invalidTarget .. => some "Only local variables can be assigned or updated"
  | missingType .. => some "Add a type annotation or an initializer"
  | unsupportedOperator .. | unsupportedSymbol .. | duplicateDeclaration .. | invalidType .. => none

/-- The remark put under the offending source text. -/
def label : CheckError → String
  | typeMismatch _ _ found _ => s!"found {found.text}"
  | invalidCast source target _ => s!"cannot cast {source.text} to {target.text}"
  | keyMismatch label _ found _ => s!"key '{label}' is {found.text}"
  | spreadKeys _ found _ => s!"spread of {found.text} keys"
  | valueMismatch label _ found _ => s!"'{label}' is {found.text}"
  | spreadValues _ found _ => s!"spread of {found.text} values"
  | rejectedMember member _ _ => s!"{member.text} not allowed here"
  | unsupportedOperator .. => "operator not supported"
  | unsupportedSymbol .. => "cannot be compiled to a value"
  | undefinedVariable .. => "undefined variable"
  | duplicateDeclaration .. => "redeclared here"
  | invalidTarget .. => "not assignable"
  | missingType .. => "no annotation or initializer"
  | invalidType bad => bad.fault.text

end CheckError
end StackExpr
