import StackExpr.Check.Expr

/-! Checking of units: declarations in order, then the body. -/
namespace StackExpr.Check

/-- A name is not yet in scope in its own initializer. -/
def declarationValue (scope : Scope) (d : Declaration) : Except CheckError (Ty × Typed) :=
  match d.type, d.initializer with
  | none, none => .error (.missingType d.name d.span)
  | none, some e => do
    let value ← expr scope .none e
    if value.type.isNull then throw (.missingType d.name d.span)
    else return (value.type, value)
  | some written, initializer =>
    match written.resolve with
    | .error bad => .error (.invalidType bad)
    | .ok type =>
      match initializer with
      | some e => do
        let value ← exprTo scope type (.place (.initializer d.name)) e
        return (type, value)
      | none => .ok (type, .constant (Constant.zero type) ⟨type, d.span⟩)

def declaration (scope : Scope) (d : Declaration) : Except CheckError (Initializer × Scope) := do
  let (type, value) ← declarationValue scope d
  let (var, scope) ← scope.declare d.name type d.nameSpan
  return (⟨var, value⟩, scope)

def declarations (scope : Scope) : List Declaration → Except CheckError (List Initializer × Scope)
  | [] => .ok ([], scope)
  | d :: rest => do
    let (first, scope) ← declaration scope d
    let (others, scope) ← declarations scope rest
    return (first :: others, scope)

/-- The body's value at the declared result type, or as it comes. -/
def body (scope : Scope) (e : Expr) (returns : Option TypeExpr) :
    Except CheckError (Typed × Ty) :=
  match returns with
  | none => do
    let typed ← expr scope .none e
    return (typed, typed.type)
  | some written =>
    match written.resolve with
    | .error bad => .error (.invalidType bad)
    | .ok type => do
      let typed ← exprTo scope type (.place .result) e
      return (typed, type)

def unit (u : SourceUnit) : Except CheckError TypedUnit := do
  let (initializers, scope) ← declarations .empty u.declarations
  let (typed, type) ← body scope u.body u.returns
  return ⟨u.name, scope.locals, initializers, typed, type, scope.nextSlot⟩

end StackExpr.Check
