/-! Operators of the source language and their spelling. -/
namespace StackExpr

inductive BinaryOp where
  | add | subtract | multiply | divide | modulo | power
  | equal | notEqual | strictEqual | strictNotEqual
  | less | lessEqual | greater | greaterEqual
  | logicalAnd | logicalOr
  | bitAnd | bitOr | bitXor
  | shiftLeft | shiftRight | unsignedShiftRight
  | nullish | isIn | instanceOf
  deriving DecidableEq

def BinaryOp.text : BinaryOp → String
  | .add => "+"
  | .subtract => "-"
  | .multiply => "*"
  | .divide => "/"
  | .modulo => "%"
  | .power => "**"
  | .equal => "=="
  | .notEqual => "!="
  | .strictEqual => "==="
  | .strictNotEqual => "!=="
  | .less => "<"
  | .lessEqual => "<="
  | .greater => ">"
  | .greaterEqual => ">="
  | .logicalAnd => "&&"
  | .logicalOr => "||"
  | .bitAnd => "&"
  | .bitOr => "|"
  | .bitXor => "^"
  | .shiftLeft => "<<"
  | .shiftRight => ">>"
  | .unsignedShiftRight => ">>>"
  | .nullish => "??"
  | .isIn => "in"
  | .instanceOf => "instanceof"

def BinaryOp.all : List BinaryOp :=
  [.add, .subtract, .multiply, .divide, .modulo, .power, .equal, .notEqual, .strictEqual,
    .strictNotEqual, .less, .lessEqual, .greater, .greaterEqual, .logicalAnd, .logicalOr, .bitAnd,
    .bitOr, .bitXor, .shiftLeft, .shiftRight, .unsignedShiftRight, .nullish, .isIn, .instanceOf]

def BinaryOp.ofText? (s : String) : Option BinaryOp := all.find? (·.text == s)

inductive UnaryOp where
  | plus | minus | not | complement | typeOf | void | delete
  deriving DecidableEq

def UnaryOp.text : UnaryOp → String
  | .plus => "+"
  | .minus => "-"
  | .not => "!"
  | .complement => "~"
  | .typeOf => "typeof"
  | .void => "void"
  | .delete => "delete"

def UnaryOp.all : List UnaryOp := [.plus, .minus, .not, .complement, .typeOf, .void, .delete]

def UnaryOp.ofText? (s : String) : Option UnaryOp := all.find? (·.text == s)

/-- What separates the operator from its operand: words need a blank. -/
def UnaryOp.gap : UnaryOp → String
  | .typeOf | .void | .delete => " "
  | _ => ""

inductive UpdateOp where
  | increment | decrement
  deriving DecidableEq

def UpdateOp.text : UpdateOp → String
  | .increment => "++"
  | .decrement => "--"

def UpdateOp.all : List UpdateOp := [.increment, .decrement]

def UpdateOp.ofText? (s : String) : Option UpdateOp := all.find? (·.text == s)

def UpdateOp.delta : UpdateOp → Int8
  | .increment => 1
  | .decrement => -1

inductive AssignOp where
  | set
  | add | subtract | multiply | divide | modulo
  | shiftLeft | shiftRight | unsignedShiftRight
  | bitAnd | bitOr | bitXor
  deriving DecidableEq

/-- The operator a compound assignment applies first; none for plain assignment. -/
def AssignOp.binary? : AssignOp → Option BinaryOp
  | .set => none
  | .add => some .add
  | .subtract => some .subtract
  | .multiply => some .multiply
  | .divide => some .divide
  | .modulo => some .modulo
  | .shiftLeft => some .shiftLeft
  | .shiftRight => some .shiftRight
  | .unsignedShiftRight => some .unsignedShiftRight
  | .bitAnd => some .bitAnd
  | .bitOr => some .bitOr
  | .bitXor => some .bitXor

def AssignOp.text (op : AssignOp) : String :=
  match op.binary? with
  | some binary => binary.text ++ "="
  | none => "="

def AssignOp.all : List AssignOp :=
  [.set, .add, .subtract, .multiply, .divide, .modulo, .shiftLeft, .shiftRight,
    .unsignedShiftRight, .bitAnd, .bitOr, .bitXor]

def AssignOp.ofText? (s : String) : Option AssignOp := all.find? (·.text == s)

end StackExpr
