import StackExpr.Check.Error
import StackExpr.Typed.Basic

/-! The variables of a unit and the slots they take. -/
namespace StackExpr

/-- Declared locals in order, and the first slot after them. -/
structure Scope where
  locals : List LocalDecl
  nextSlot : Nat

namespace Scope

def empty : Scope := ⟨[], 0⟩

def find? (scope : Scope) (name : String) : Option LocalDecl :=
  scope.locals.find? (·.name == name)

def lookup (scope : Scope) (name : String) (span : Span) : Except CheckError LocalDecl :=
  match scope.find? name with
  | some found => .ok found
  | none => .error (.undefinedVariable name span)

/-- The scope with one more local, in the next free slot. -/
def push (scope : Scope) (name : String) (type : Ty) (span : Span) : Scope :=
  ⟨scope.locals ++ [⟨⟨name, scope.nextSlot, type⟩, span⟩], scope.nextSlot + type.stackKind.size⟩

def declare (scope : Scope) (name : String) (type : Ty) (span : Span) :
    Except CheckError (Local × Scope) :=
  match scope.find? name with
  | some _ => .error (.duplicateDeclaration name span)
  | none => .ok (⟨name, scope.nextSlot, type⟩, scope.push name type span)

/-- A read of a variable. -/
def read (scope : Scope) (name : String) (span : Span) : Except CheckError Typed :=
  match scope.lookup name span with
  | .ok found => .ok (.read found.toLocal ⟨found.type, span⟩)
  | .error e => .error e

/-- The variable an assignment or update writes to, if its target names one. -/
def target (scope : Scope) (e : Expr) : Except CheckError Local :=
  match e.bare with
  | .var name _ =>
    match scope.lookup name e.span with
    | .ok found => .ok found.toLocal
    | .error e => .error e
  | _ => .error (.invalidTarget e.text e.span)

end Scope
end StackExpr
