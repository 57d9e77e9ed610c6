import StackExpr.Proofs.Coercions
import StackExpr.Proofs.Parentheses

/-! Strict equalities are loose ones.

Types are known when an equality is checked, so `===` compares no more strictly than `==`. A unit
can be compared with the same unit in which every strict operator is written as the loose one. -/
namespace StackExpr

def BinaryOp.loose : BinaryOp → BinaryOp
  | .strictEqual => .equal
  | .strictNotEqual => .notEqual
  | op => op

/-- A loose operator is known if the strict one is. -/
theorem BinaryOp.category?_loose (op : BinaryOp) :
    op.loose.category? = none ↔ op.category? = none := by
  cases op <;> decide

mutual

/-- The expression with every strict operator made loose. -/
def Expr.loose : Expr → Expr
  | .binary op left right extent span => .binary op.loose left.loose right.loose extent span
  | .unary op operand extent span => .unary op operand.loose extent span
  | .update op before target extent span => .update op before target.loose extent span
  | .assign op target value extent span => .assign op target.loose value.loose extent span
  | .conditional test yes no extent span =>
    .conditional test.loose yes.loose no.loose extent span
  | .cast operand target extent span => .cast operand.loose target extent span
  | .object properties extent span => .object (Property.allLoose properties) extent span
  | .array items extent span => .array (Expr.allLoose items) extent span
  | .paren inner span => .paren inner.loose span
  | e => e

def Expr.allLoose : List Expr → List Expr
  | [] => []
  | e :: rest => e.loose :: Expr.allLoose rest

def Property.loose : Property → Property
  | .keyed key value span => .keyed key.loose value.loose span
  | .spread source span => .spread source.loose span
  | .member form key span => .member form key.loose span
  | p => p

def Property.allLoose : List Property → List Property
  | [] => []
  | p :: rest => p.loose :: Property.allLoose rest

def Key.loose : Key → Key
  | .computed source span => .computed source.loose span
  | key => key

end

def Declaration.loose (d : Declaration) : Declaration :=
  { d with initializer := d.initializer.map Expr.loose }

def SourceUnit.loose (u : SourceUnit) : SourceUnit :=
  { u with declarations := u.declarations.map Declaration.loose, body := u.body.loose }

namespace Expr

@[simp] theorem span_loose (e : Expr) : e.loose.span = e.span := by cases e <;> rfl

theorem bare_loose (e : Expr) : e.loose.bare = e.bare.loose := by
  cases e with
  | paren inner span => exact bare_loose inner
  | _ => rfl

theorem literal?_loose (e : Expr) : e.loose.literal? = e.literal? := by
  cases e with
  | paren inner span => exact literal?_loose inner
  | unary op operand extent span =>
    cases op with
    | plus => exact literal?_loose operand
    | minus => rw [loose, literal?, literal?, literal?_loose operand]
    | _ => rfl
  | _ => rfl

theorem constantAt?_loose (k : Kind) (e : Expr) : e.loose.constantAt? k = e.constantAt? k := by
  cases e with
  | paren inner span => exact constantAt?_loose k inner
  | _ =>
    rw [constantAt?, constantAt?, literal?_loose]
    rfl

/-- A literal has no operators that could be strict. -/
theorem narrowed?_loose (e : Expr) (target : Ty) :
    e.loose.narrowed? target = e.narrowed? target := by
  rw [narrowed?, narrowed?, span_loose]
  simp only [constantAt?_loose]

end Expr

namespace Check

theorem Agrees.refl {α : Type} (x : Except CheckError α) : Agrees id x x := by
  cases x with
  | ok a => exact .ok rfl
  | error e => exact .error rfl

end Check

/-- The two families of equalities differ in name only. -/
theorem Coercion.equality?_category (c c' : Category) (l r : Ty) :
    equality? c' l r = (equality? c l r).map ({ · with category := c' }) := by
  unfold equality?
  split
  · simp only [numeric?, bind, pure, Option.map_bind, Function.comp_def, Option.map_some]
  split
  · simp only [boolean?, bind, pure, Option.map_bind, Function.comp_def, Option.map_some]
  · split_ifs <;> rfl

namespace Typed

open Check (Agrees)

/-- An equality of either family is a comparison of the same operands. -/
theorem ofBinary_equality {op : BinaryOp}
    (hop : op ∈ [.equal, .notEqual, .strictEqual, .strictNotEqual]) (l r : Typed) (s : Span) :
    ofBinary op l r s =
      match Coercion.equality? .looseEquality l.type r.type with
      | some c =>
        .ok (.compare op.comparison c.mode (l.through c.left) (r.through c.right)
          ⟨.prim .boolean, s⟩)
      | none => .error (.typeMismatch (.operands op) (.type l.type) r.type s) := by
  have hstrict := Coercion.equality?_category .looseEquality .strictEquality l.type r.type
  simp only [List.mem_cons, List.not_mem_nil, or_false] at hop
  cases hc : Coercion.equality? .looseEquality l.type r.type with
  | none =>
    rw [hc] at hstrict
    rcases hop with rfl | rfl | rfl | rfl <;>
      simp [ofBinary, BinaryOp.category?, Category.coerce?, hc, hstrict]
  | some c =>
    rw [hc] at hstrict
    obtain ⟨hcategory, hresult⟩ := Coercion.equality?_eq_some hc
    rcases hop with rfl | rfl | rfl | rfl <;>
      simp [ofBinary, BinaryOp.category?, Category.coerce?, hc, hstrict, ofCoercion, hcategory,
        hresult]

/-- Strict and loose operators make the same tree, or fail alike. -/
theorem ofBinary_loose (op : BinaryOp) (l r : Typed) (s : Span) :
    Agrees id (ofBinary op l r s) (ofBinary op.loose l r s) := by
  cases op with
  | strictEqual | strictNotEqual =>
    rw [BinaryOp.loose, ofBinary_equality (by decide), ofBinary_equality (by decide)]
    split
    · exact .ok rfl
    · exact .error rfl
  | _ => exact .refl _

end Typed

namespace Check

variable {e : Expr} {site site' : Site} {label label' : String}
  {checked checked' : Except CheckError Typed}

/-- What fits a place does so with loose operators. -/
theorem fit_loose (target : Ty) (hs : site.kind = site'.kind) (hc : Agrees id checked checked') :
    Agrees id (fit e target site checked) (fit e.loose target site' checked') := by
  apply agrees_fit_of _ _ hs hc
  · rw [e.narrowed?_loose, Option.map_id]
    rfl
  · intro typed
    rw [Option.map_id]
    rfl

theorem fitElement_loose (declared : Ty) (hs : site.kind = site'.kind)
    (hc : Agrees id checked checked') :
    Agrees id (fitElement e declared site checked)
      (fitElement e.loose declared site' checked') := by
  apply (fit_loose declared.storage hs hc).bind
  intro typed
  dsimp only [id]
  split
  · apply Agrees.error
    rw [Site.kind_mismatch, Site.kind_mismatch, hs]
  · exact .refl _

theorem fitPropertyKey_loose (constraint : Option RecordTy) (hc : Agrees id checked checked') :
    Agrees id (fitPropertyKey constraint label e checked)
      (fitPropertyKey constraint label' e.loose checked') := by
  cases constraint with
  | none => exact hc.bind fun typed => .refl _
  | some c =>
    apply (fit_loose c.key.storage (by rfl) hc).bind
    intro typed
    dsimp only [id]
    split
    · exact .error rfl
    · exact .refl _

theorem fitValue_loose (declared : Ty) (hc : Agrees id checked checked') :
    Agrees id (fitValue e label declared checked) (fitValue e.loose label' declared checked') := by
  have hfit : Agrees id (fit e declared.storage (.value label declared) checked)
      (fit e.loose declared.storage (.value label' declared) checked') := fit_loose _ rfl hc
  unfold fitValue
  rw [e.bare_loose]
  cases hb : e.bare with
  | null span =>
    cases declared with
    | prim k => exact .error rfl
    | _ => exact hfit
  | array items extent span =>
    cases declared with
    | array element => exact hc.bind fun typed => .refl _
    | _ => exact hfit
  | _ => cases declared <;> exact hfit

/-- Property values are fitted alike, whatever label a mismatch would name. -/
theorem fitPropertyValue_loose (constraint : Option RecordTy) (hc : Agrees id checked checked') :
    Agrees id (fitPropertyValue constraint label e checked)
      (fitPropertyValue constraint label' e.loose checked') := by
  cases constraint with
  | none => exact hc.bind fun typed => .refl _
  | some c => exact fitValue_loose c.value hc

theorem isObject_loose (e : Expr) : isObject e.loose = isObject e := by
  unfold isObject
  rw [e.bare_loose]
  cases e.bare <;> rfl

theorem isSymbol_loose (e : Expr) : isSymbol e.loose = isSymbol e := by
  unfold isSymbol
  rw [e.bare_loose]
  cases e.bare <;> rfl

theorem rejectMembers_loose (ps : List Property) :
    Agrees id (rejectMembers ps) (rejectMembers (Property.allLoose ps)) := by
  induction ps with
  | nil => exact .refl _
  | cons p rest ih =>
    cases p with
    | member form key span => exact .error rfl
    | keyed key value span =>
      cases key with
      | computed source keySpan =>
        rw [Property.allLoose, Property.loose, Key.loose, rejectMembers, rejectMembers,
          isSymbol_loose]
        split
        · exact .error rfl
        · exact ih
      | _ => exact ih
    | _ => exact ih

/-- A target is a variable, with no operators in it. -/
theorem target_loose (scope : Scope) (e : Expr) :
    Agrees id (scope.target e) (scope.target e.loose) := by
  unfold Scope.target
  rw [e.bare_loose, e.span_loose]
  cases e.bare with
  | var name span => exact .refl _
  | _ => exact .error rfl

-- A computed key is labelled by its source text, so hints agree up to their labels only.
mutual

/-- An expression and its loose form are both accepted, with the same tree, or both refused for the
same kind of reason. -/
theorem expr_loose {scope : Scope} (e : Expr) {hint hint' : Hint} (hh : hint.Alike hint') :
    Agrees id (expr scope hint e) (expr scope hint' e.loose) := by
  cases e with
  | int | float | string | boolean | null | var | symbol => exact .refl _
  | binary op left right extent span =>
    by_cases hop : op.category? = none
    · simp only [Expr.loose, expr, hop, op.category?_loose.mpr hop]
      exact .error rfl
    · rw [Expr.loose, expr_binary_eq hop, expr_binary_eq (mt op.category?_loose.mp hop)]
      apply (expr_loose left (.refl _)).bind
      intro l
      apply (expr_loose right (.refl _)).bind
      intro r
      exact Typed.ofBinary_loose op l r extent
  | unary op operand extent span =>
    cases op with
    | typeOf | void | delete => exact .error rfl
    | _ =>
      apply (expr_loose operand (.refl _)).bind
      intro typed
      exact .refl _
  | update op before target extent span =>
    apply (target_loose scope target).bind
    intro x
    exact .refl _
  | assign op target value extent span =>
    rw [Expr.loose, expr, expr, Expr.span_loose]
    apply (target_loose scope target).bind
    intro x
    cases op.binary? with
    | none =>
      apply (fit_loose x.type rfl (expr_loose value (.refl _))).bind
      intro v
      exact .refl _
    | some binary =>
      apply (expr_loose value (.refl _)).bind
      intro v
      exact .refl _
  | conditional test yes no extent span =>
    apply (expr_loose test (.refl _)).bind
    intro typed
    apply (Agrees.refl (Typed.ofTest typed)).bind
    intro t
    apply (expr_loose yes hh.branch).bind
    intro y
    apply (expr_loose no hh.branch).bind
    intro n
    exact .refl _
  | cast operand target extent span =>
    rw [Expr.loose, expr, expr]
    cases target.resolve with
    | error bad => exact .refl _
    | ok type =>
      apply (expr_loose operand (.refl _)).bind
      intro typed
      exact .refl _
  | object ps extent span =>
    rw [Expr.loose, expr, expr, ← hh.record?]
    apply (rejectMembers_loose ps).bind
    intro _
    apply (properties_loose hint.record? 0 ps).bind
    intro entries
    exact .refl _
  | array items extent span =>
    rw [Expr.loose, expr, expr, ← hh.type]
    split
    · next declared hd =>
      apply (elements_loose declared hh.elements items).bind
      intro es
      exact .refl _
    · apply (freeElements_loose items).bind
      intro es
      exact .refl _
  | paren inner span =>
    apply (expr_loose inner hh).bind
    intro typed
    exact .refl _

theorem elements_loose {scope : Scope} (declared : Ty) {site site' : Site}
    (hs : site.kind = site'.kind) (items : List Expr) :
    Agrees id (elements scope declared site items)
      (elements scope declared site' (Expr.allLoose items)) := by
  cases items with
  | nil => exact .refl _
  | cons e rest =>
    apply (fitElement_loose declared hs (expr_loose e (.refl _))).bind
    intro typed
    apply (elements_loose declared hs rest).bind
    intro others
    exact .refl _

theorem freeElements_loose {scope : Scope} (items : List Expr) :
    Agrees id (freeElements scope items) (freeElements scope (Expr.allLoose items)) := by
  cases items with
  | nil => exact .refl _
  | cons e rest =>
    apply (expr_loose e (.refl _)).bind
    intro typed
    apply (freeElements_loose rest).bind
    intro others
    exact .refl _

theorem property_loose {scope : Scope} (constraint : Option RecordTy) (order : Nat)
    (p : Property) :
    Agrees id (property scope constraint order p) (property scope constraint order p.loose) := by
  cases p with
  | member => exact .error rfl
  | shorthand name span => exact .refl _
  | spread source span =>
    have hhint : spreadHint constraint source.loose = spreadHint constraint source := by
      unfold spreadHint
      rw [isObject_loose]
    rw [Property.loose, property, property, hhint, isObject_loose, Expr.span_loose]
    apply (expr_loose source (.refl _)).bind
    intro typed
    exact .refl _
  | keyed key value span =>
    cases key with
    | computed source keySpan =>
      apply (fitPropertyKey_loose constraint (expr_loose source (.refl _))).bind
      intro k
      apply (fitPropertyValue_loose constraint (expr_loose value (.valueHint constraint _ _))).bind
      intro v
      exact .refl _
    | _ =>
      apply (Agrees.refl _).bind
      intro k
      apply (fitPropertyValue_loose constraint (expr_loose value (.refl _))).bind
      intro v
      exact .refl _

theorem properties_loose {scope : Scope} (constraint : Option RecordTy) (order : Nat)
    (ps : List Property) :
    Agrees id (properties scope constraint order ps)
      (properties scope constraint order (Property.allLoose ps)) := by
  cases ps with
  | nil => exact .refl _
  | cons p rest =>
    apply (property_loose constraint order p).bind
    intro entry
    apply (properties_loose constraint (order + 1) rest).bind
    intro others
    exact .refl _

end

theorem declarationValue_loose (scope : Scope) (d : Declaration) :
    Agrees id (declarationValue scope d) (declarationValue scope d.loose) := by
  obtain ⟨name, nameSpan, type, initializer, span⟩ := d
  cases initializer with
  | none => exact .refl _
  | some e =>
    cases type with
    | none =>
      apply (expr_loose e (.refl _)).bind
      intro value
      exact .refl _
    | some written =>
      simp only [Declaration.loose, Option.map_some, declarationValue]
      cases written.resolve with
      | error bad => exact .refl _
      | ok type =>
        apply (fit_loose type (by rfl) (expr_loose e (.refl _))).bind
        intro value
        exact .refl _

theorem declarations_loose (scope : Scope) (ds : List Declaration) :
    Agrees id (declarations scope ds) (declarations scope (ds.map Declaration.loose)) := by
  induction ds generalizing scope with
  | nil => exact .refl _
  | cons d rest ih =>
    have hfirst : Agrees id (declaration scope d) (declaration scope d.loose) := by
      apply (declarationValue_loose scope d).bind
      intro checked
      exact .refl _
    apply hfirst.bind
    intro first
    apply (ih first.2).bind
    intro others
    exact .refl _

theorem body_loose (scope : Scope) (e : Expr) (returns : Option TypeExpr) :
    Agrees id (body scope e returns) (body scope e.loose returns) := by
  cases returns with
  | none =>
    apply (expr_loose e (.refl _)).bind
    intro typed
    exact .refl _
  | some written =>
    simp only [body]
    cases written.resolve with
    | error bad => exact .refl _
    | ok type =>
      apply (fit_loose type (by rfl) (expr_loose e (.refl _))).bind
      intro typed
      exact .refl _

/-- A unit and the same unit with loose operators are both accepted, with the same tree, or both
refused for the same kind of reason. -/
theorem unit_loose (u : SourceUnit) : Agrees id (unit u) (unit u.loose) := by
  apply (declarations_loose .empty u.declarations).bind
  intro declared
  apply (body_loose declared.2 u.body u.returns).bind
  intro typed
  exact .refl _

end Check

/-- A unit and its loose form compile alike. -/
theorem compile_loose (o : Options) (u : SourceUnit) :
    (compile o u.loose).mapError CompileError.kind = (compile o u).mapError CompileError.kind := by
  have h := Check.unit_loose u
  unfold compile
  generalize Check.unit u = checked at h ⊢
  generalize Check.unit u.loose = checked' at h ⊢
  cases h with
  | error h => exact congrArg Except.error h.symm
  | ok h =>
    subst h
    rfl

end StackExpr
