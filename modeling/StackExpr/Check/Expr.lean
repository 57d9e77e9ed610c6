import StackExpr.Check.Literal
import StackExpr.Check.Operation
import StackExpr.Check.Scope

/-! Checking of expressions.

Operands are checked left to right, each once, and the first objection ends the check. A hint says
what type the surroundings would like: it shapes literals and converts nothing. -/
namespace StackExpr

/-- Who is to blame when a value does not fit where it goes. -/
inductive Site where
  | place (p : Place)
  | key (label : String) (declared : Ty)
  | value (label : String) (declared : Ty)

def Site.mismatch (site : Site) (expected found : Ty) (span : Span) : CheckError :=
  match site with
  | .place p => .typeMismatch p (.type expected) found span
  | .key label declared => .keyMismatch label declared found span
  | .value label declared => .valueMismatch label declared found span

/-- The wished-for type, and whom the elements of a list literal answer to. -/
structure Hint where
  type : Option Ty
  elements : Site

namespace Hint

def none : Hint := ⟨.none, .place .element⟩

def of (t : Ty) : Hint := ⟨some t, .place .element⟩

/-- The hint for a property value of a record with declared values. -/
def ofValue (label : String) (declared : Ty) : Hint :=
  match declared with
  | .array element => ⟨some declared, .value (label ++ " (array element)") element⟩
  | _ => of declared.storage

/-- The hint as it reaches the branches of a conditional. -/
def branch (h : Hint) : Hint := ⟨h.type, .place .element⟩

def record? (h : Hint) : Option RecordTy := h.type >>= Ty.record?

end Hint

namespace Check

/-- A value for a place of a declared type: a literal that keeps its value there, or else what the
expression was checked to, with the implicit conversions. -/
def fit (e : Expr) (target : Ty) (site : Site) (checked : Except CheckError Typed) :
    Except CheckError Typed :=
  match e.narrowed? target with
  | some constant => .ok constant
  | none => do
    let typed ← checked
    match typed.assignTo? target with
    | some converted => return converted
    | none => throw (site.mismatch target typed.type typed.span)

/-- An element of a list with declared elements; primitives admit no `null`. -/
def fitElement (e : Expr) (declared : Ty) (site : Site) (checked : Except CheckError Typed) :
    Except CheckError Typed := do
  let typed ← fit e declared.storage site checked
  if declared.isPrimitive && typed.innermost?.any Constant.isNull then
    throw (site.mismatch declared .null e.span)
  else return typed

/-- A computed key at the declared key type; `null` is no key. -/
def fitKey (e : Expr) (label : String) (declared : Ty) (checked : Except CheckError Typed) :
    Except CheckError Typed := do
  let typed ← fit e declared.storage (.key label declared) checked
  if typed.type.isNull then throw (.keyMismatch label declared .null e.span)
  else return typed

/-- A property value at the declared value type. A list literal answers for its own elements and
stands where its brackets are. -/
def fitValue (e : Expr) (label : String) (declared : Ty) (checked : Except CheckError Typed) :
    Except CheckError Typed :=
  match declared, e.bare with
  | .prim k, .null _ => .error (.valueMismatch label (.prim k) .null e.span)
  | .array _, .array _ extent _ => do return (← checked).moveTo extent
  | _, _ => fit e declared.storage (.value label declared) checked

def isObject (e : Expr) : Bool :=
  match e.bare with
  | .object .. => true
  | _ => false

def isSymbol (e : Expr) : Bool :=
  match e.bare with
  | .symbol .. => true
  | _ => false

/-- Code members and symbol keys condemn a literal before any entry is looked at. -/
def rejectMembers : List Property → Except CheckError Unit
  | [] => .ok ()
  | .member form key span :: _ => .error (.rejectedMember (.code form) key.label span)
  | .keyed (.computed source span) _ _ :: rest =>
    if isSymbol source then .error (.rejectedMember .symbolKey source.text span)
    else rejectMembers rest
  | _ :: rest => rejectMembers rest

/-- The key and value types a spread brings in; under a constraint they must fit it. -/
def spreadTypes (constraint : Option RecordTy) (type : Ty) (sourceSpan span : Span) :
    Except CheckError RecordTy :=
  match type, constraint with
  | .record k v, some c =>
    if !k.storesInto c.key then .error (.spreadKeys c k span)
    else if !v.storesInto c.value then .error (.spreadValues c v span)
    else .ok ⟨k.storage, v.storage⟩
  | .record k v, none => .ok ⟨k.storage, v.storage⟩
  | .any, some c => .error (.spreadValues c .any span)
  | .any, none => .ok ⟨.any, .any⟩
  | found, _ => .error (.typeMismatch .spreadSource .record found sourceSpan)

def fixedEntry (key : Constant × Ty) (value : Typed) (order : Nat) (form : EntryForm)
    (span : Span) : Entry :=
  .fixed key.1 key.2 value ⟨order, form, key.2, value.type, span⟩

/-- Whether an entry leaves the keys of a free literal strings. -/
def hasStringKeys : Entry → Bool
  | .spread _ tag => tag.keyType.isString
  | _ => true

/-- The type of a literal: what is declared, or what its spreads allow. -/
def recordType (constraint : Option RecordTy) (entries : List Entry) : RecordTy :=
  match constraint with
  | some c => c
  | none => if entries.all hasStringKeys then .free else ⟨.any, .any⟩

/-- The type a literal key is taken at. -/
def declaredKey (constraint : Option RecordTy) : Ty :=
  match constraint with
  | some c => c.key
  | none => .string

def fitPropertyValue (constraint : Option RecordTy) (label : String) (e : Expr)
    (checked : Except CheckError Typed) : Except CheckError Typed :=
  match constraint with
  | some c => fitValue e label c.value checked
  | none => do return (← checked).boxed

def fitPropertyKey (constraint : Option RecordTy) (label : String) (e : Expr)
    (checked : Except CheckError Typed) : Except CheckError Typed :=
  match constraint with
  | some c => fitKey e label c.key checked
  | none => do return (← checked).stringified

def valueHint (constraint : Option RecordTy) (label : String) : Hint :=
  match constraint with
  | some c => .ofValue label c.value
  | none => .none

def keyHint (constraint : Option RecordTy) : Hint :=
  match constraint with
  | some c => .of c.key.storage
  | none => .none

/-- A literal that is spread in place is held to the constraint of the literal around it. -/
def spreadHint (constraint : Option RecordTy) (e : Expr) : Hint :=
  match constraint with
  | some c => if isObject e then .of c.toTy else .none
  | none => .none

mutual

def expr (scope : Scope) (hint : Hint) : Expr → Except CheckError Typed
  | .int value span => .ok (.ofWhole value span)
  | .float value span => .ok (.constant (.double value) ⟨.prim .double, span⟩)
  | .string value span => .ok (.constant (.string value) ⟨.string, span⟩)
  | .boolean value span => .ok (.constant (.boolean value) ⟨.prim .boolean, span⟩)
  | .null span => .ok (.constant .null ⟨.null, span⟩)
  | .var name span => scope.read name span
  | .binary op left right extent _ =>
    match op.category? with
    | none => .error (.unsupportedOperator op.text extent)
    | some _ => do
      let l ← expr scope .none left
      let r ← expr scope .none right
      Typed.ofBinary op l r extent
  | .unary op operand extent _ =>
    match op with
    | .typeOf | .void | .delete => .error (.unsupportedOperator op.text extent)
    | _ => do
      let e ← expr scope .none operand
      Typed.ofUnary op e extent
  | .update op before target extent _ => do
    let var ← scope.target target
    Typed.ofUpdate op before var extent
  | .assign op target value extent _ => do
    let var ← scope.target target
    match op.binary? with
    | none =>
      let v ← fit value var.type (.place (.assignment var.name)) (expr scope (.of var.type) value)
      return .assign var v ⟨var.type, extent⟩
    | some binary =>
      let v ← expr scope .none value
      Typed.ofCompound op binary var target.span v extent
  | .conditional test yes no extent _ => do
    let t ← Typed.ofTest (← expr scope .none test)
    let y ← expr scope hint.branch yes
    let n ← expr scope hint.branch no
    Typed.ofBranches t y n extent
  | .cast operand target extent _ =>
    match target.resolve with
    | .error bad => .error (.invalidType bad)
    | .ok type => do
      let e ← expr scope (.of type) operand
      Typed.ofCast e type extent
  | .object props extent _ => do
    rejectMembers props
    let entries ← properties scope hint.record? 0 props
    let type := recordType hint.record? entries
    return .record ⟨type, hint.record?.isSome, extent⟩ entries ⟨type.toTy, extent⟩
  | .array items extent _ =>
    match hint.type with
    | some (.array declared) => do
      let es ← elements scope declared hint.elements items
      return .list es ⟨.array declared.storage, extent⟩
    | _ => do
      let es ← freeElements scope items
      return .list es ⟨.array (Typed.commonType es), extent⟩
  | .symbol description _ span => .error (.unsupportedSymbol description span)
  | .paren inner span => do return (← expr scope hint inner).moveTo span

/-- The elements of a list with a declared element type. -/
def elements (scope : Scope) (declared : Ty) (site : Site) :
    List Expr → Except CheckError (List Typed)
  | [] => .ok []
  | e :: rest => do
    let typed ← fitElement e declared site (expr scope (.of declared.storage) e)
    return typed :: (← elements scope declared site rest)

/-- The elements of a list nothing is declared about. -/
def freeElements (scope : Scope) : List Expr → Except CheckError (List Typed)
  | [] => .ok []
  | e :: rest => do
    let typed ← expr scope .none e
    return typed.boxed :: (← freeElements scope rest)

/-- The key comes before the value. -/
def property (scope : Scope) (constraint : Option RecordTy) (order : Nat) :
    Property → Except CheckError Entry
  | .keyed (.computed source keySpan) value span => do
    let label := (Key.computed source keySpan).label
    let k ← fitPropertyKey constraint label source (expr scope (keyHint constraint) source)
    let v ← fitPropertyValue constraint label value (expr scope (valueHint constraint label) value)
    return .computed k v ⟨order, .computed, k.type, v.type, span⟩
  | .keyed key value span => do
    let k ← key.constant (declaredKey constraint)
    let v ← fitPropertyValue constraint key.label value
      (expr scope (valueHint constraint key.label) value)
    return fixedEntry k v order .literal span
  | .shorthand name span => do
    let k ← (Key.name name span).constant (declaredKey constraint)
    let v ← fitPropertyValue constraint name (.var name span) (scope.read name span)
    return fixedEntry k v order .shorthand span
  | .spread source span => do
    let typed ← expr scope (spreadHint constraint source) source
    let typed := if isObject source then typed.moveTo source.span else typed
    let types ← spreadTypes constraint typed.type source.span span
    return .spread typed ⟨order, .spread, types.key, types.value, span⟩
  | .member form key span => .error (.rejectedMember (.code form) key.label span)

def properties (scope : Scope) (constraint : Option RecordTy) (order : Nat) :
    List Property → Except CheckError (List Entry)
  | [] => .ok []
  | p :: rest => do
    let entry ← property scope constraint order p
    return entry :: (← properties scope constraint (order + 1) rest)

end

/-- An expression whose value goes to a place of a declared type. -/
def exprTo (scope : Scope) (target : Ty) (site : Site) (e : Expr) : Except CheckError Typed :=
  fit e target site (expr scope (.of target) e)

end Check
end StackExpr
