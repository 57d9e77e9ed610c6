import StackExpr.Proofs.Places

/-! Parentheses around whole expressions change nothing.

Many decisions of the check look at how an operand is written: whether it is a literal under signs,
a null, a list, an object or a variable. All of them look through parentheses, so a unit can be
compared with the same unit without parentheses and places. -/
namespace StackExpr

mutual

def TypeExpr.plain : TypeExpr → TypeExpr
  | .simple name _ => .simple name .origin
  | .generic name args _ => .generic name (TypeExpr.allPlain args) .origin

def TypeExpr.allPlain : List TypeExpr → List TypeExpr
  | [] => []
  | t :: rest => t.plain :: TypeExpr.allPlain rest

end

mutual

/-- The expression without its parentheses, with every node at the origin. -/
def Expr.plain : Expr → Expr
  | .int value _ => .int value .origin
  | .float value _ => .float value .origin
  | .string value _ => .string value .origin
  | .boolean value _ => .boolean value .origin
  | .null _ => .null .origin
  | .var name _ => .var name .origin
  | .binary op left right _ _ => .binary op left.plain right.plain .origin .origin
  | .unary op operand _ _ => .unary op operand.plain .origin .origin
  | .update op before target _ _ => .update op before target.plain .origin .origin
  | .assign op target value _ _ => .assign op target.plain value.plain .origin .origin
  | .conditional test yes no _ _ => .conditional test.plain yes.plain no.plain .origin .origin
  | .cast operand target _ _ => .cast operand.plain target.plain .origin .origin
  | .object properties _ _ => .object (Property.allPlain properties) .origin .origin
  | .array items _ _ => .array (Expr.allPlain items) .origin .origin
  | .symbol description wellKnown _ => .symbol description wellKnown .origin
  | .paren inner _ => inner.plain

def Expr.allPlain : List Expr → List Expr
  | [] => []
  | e :: rest => e.plain :: Expr.allPlain rest

def Property.plain : Property → Property
  | .keyed key value _ => .keyed key.plain value.plain .origin
  | .shorthand name _ => .shorthand name .origin
  | .spread source _ => .spread source.plain .origin
  | .member form key _ => .member form key.plain .origin

def Property.allPlain : List Property → List Property
  | [] => []
  | p :: rest => p.plain :: Property.allPlain rest

def Key.plain : Key → Key
  | .name text _ => .name text .origin
  | .string value _ => .string value .origin
  | .int value _ => .int value .origin
  | .float value _ => .float value .origin
  | .boolean value _ => .boolean value .origin
  | .null _ => .null .origin
  | .computed source _ => .computed source.plain .origin

end

def Declaration.plain (d : Declaration) : Declaration :=
  ⟨d.name, .origin, d.type.map TypeExpr.plain, d.initializer.map Expr.plain, .origin⟩

def SourceUnit.plain (u : SourceUnit) : SourceUnit :=
  ⟨u.name, u.declarations.map Declaration.plain, u.body.plain, u.returns.map TypeExpr.plain⟩

namespace Expr

@[simp] theorem span_plain (e : Expr) : e.plain.span = .origin := by
  cases e with
  | paren inner span => exact span_plain inner
  | _ => rfl

@[simp] theorem bare_plain (e : Expr) : e.plain.bare = e.plain := by
  cases e with
  | paren inner span => exact bare_plain inner
  | _ => rfl

/-- Parentheses around an expression are gone in the plain one. -/
theorem plain_bare (e : Expr) : e.bare.plain = e.plain := by
  cases e with
  | paren inner span => exact plain_bare inner
  | _ => rfl

/-- What is a variable without parentheses is one inside them. -/
theorem bare_of_plain_var {e : Expr} {name : String} {s : Span} (h : e.plain = .var name s) :
    ∃ s', e.bare = .var name s' := by
  cases e with
  | paren inner span => exact bare_of_plain_var (e := inner) h
  | var => exact ⟨_, by cases h; rfl⟩
  | _ => cases h

theorem bare_of_plain_null {e : Expr} {s : Span} (h : e.plain = .null s) :
    ∃ s', e.bare = .null s' := by
  cases e with
  | paren inner span => exact bare_of_plain_null (e := inner) h
  | null => exact ⟨_, rfl⟩
  | _ => cases h

theorem bare_of_plain_array {e : Expr} {items : List Expr} {x s : Span}
    (h : e.plain = .array items x s) : ∃ items' x' s', e.bare = .array items' x' s' := by
  cases e with
  | paren inner span => exact bare_of_plain_array (e := inner) h
  | array => exact ⟨_, _, _, rfl⟩
  | _ => cases h

/-- Literals are seen through parentheses and signs. -/
@[simp] theorem literal?_plain (e : Expr) : e.plain.literal? = e.literal? := by
  cases e with
  | paren inner span => exact literal?_plain inner
  | unary op operand extent span =>
    cases op with
    | plus => exact literal?_plain operand
    | minus => rw [plain, literal?, literal?, literal?_plain operand]
    | _ => rfl
  | _ => rfl

@[simp] theorem constantAt?_plain (k : Kind) (e : Expr) :
    e.plain.constantAt? k = e.constantAt? k := by
  cases e with
  | paren inner span => exact constantAt?_plain k inner
  | _ =>
    rw [constantAt?, constantAt?, literal?_plain]
    rfl

/-- Inside parentheses a literal is narrowed alike, to a constant at another place. -/
theorem narrowed?_plain (e : Expr) (target : Ty) :
    e.plain.narrowed? target = (e.narrowed? target).map Typed.unplaced := by
  rw [narrowed?, narrowed?, span_plain]
  cases target.kind? with
  | none => rfl
  | some k =>
    simp only [constantAt?_plain, bind, Option.bind_some]
    cases e.constantAt? k with
    | none => rfl
    | some c => cases target <;> rfl

end Expr

namespace TypeExpr

theorem toOption_bind {α β : Type} (x : Except BadTypeExpr α) (k : α → Except BadTypeExpr β) :
    (x >>= k).toOption = x.toOption.bind fun a => (k a).toOption := by cases x <;> rfl

/-- Types without places resolve to the same type, or neither does. -/
theorem resolveAt_plain (place : TypePlace) (t : TypeExpr) :
    (t.plain.resolveAt place).toOption = (t.resolveAt place).toOption := by
  cases t with
  | simple name span => rfl
  | generic name args span =>
    match args with
    | [] | _ :: _ :: _ :: _ => rfl
    | [element] =>
      simp only [plain, allPlain, resolveAt]
      split
      · rw [toOption_bind, toOption_bind, resolveAt_plain .value element]
      · rfl
    | [key, value] =>
      simp only [plain, allPlain, resolveAt]
      split
      · simp only [toOption_bind, resolveAt_plain .recordKey key, resolveAt_plain .value value]
      · rfl

end TypeExpr

/-- The kind of error at a site, which does not depend on its label. -/
def Site.kind : Site → ErrorKind
  | .place _ => .typeMismatch
  | .key _ _ => .keyTypeMismatch
  | .value _ _ => .valueTypeMismatch

/-- The kind of a mismatch is that of its site, whatever types it names. -/
theorem Site.kind_mismatch (site : Site) (expected found : Ty) (s : Span) :
    (site.mismatch expected found s).kind = site.kind := by
  cases site <;> rfl

/-- Hints that differ in labels only. -/
structure Hint.Alike (h h' : Hint) : Prop where
  type : h.type = h'.type
  elements : h.elements.kind = h'.elements.kind

namespace Hint.Alike

theorem refl (h : Hint) : h.Alike h := ⟨rfl, rfl⟩

theorem record? {h h' : Hint} (ha : h.Alike h') : h.record? = h'.record? := by
  rw [Hint.record?, Hint.record?, ha.type]

theorem branch {h h' : Hint} (ha : h.Alike h') : h.branch.Alike h'.branch := ⟨ha.type, rfl⟩

/-- Labels go into messages only. -/
theorem valueHint (constraint : Option RecordTy) (label label' : String) :
    (Check.valueHint constraint label).Alike (Check.valueHint constraint label') := by
  cases constraint with
  | none => exact .refl _
  | some c =>
    unfold Check.valueHint Hint.ofValue
    dsimp only
    split
    · exact ⟨rfl, rfl⟩
    · exact .refl _

end Hint.Alike

namespace Check

/-- What is done with a written type, once it is resolved. -/
theorem agrees_resolve {α β : Type} {f : α → β} (t : TypeExpr) {k : Ty → Except CheckError α}
    {l : Ty → Except CheckError β} (hk : ∀ type, Agrees f (k type) (l type)) :
    Agrees f (match t.resolve with | .error bad => .error (.invalidType bad) | .ok type => k type)
      (match t.plain.resolve with
        | .error bad => .error (.invalidType bad)
        | .ok type => l type) := by
  have h := t.resolveAt_plain .value
  unfold TypeExpr.resolve
  cases hx : t.resolveAt .value with
  | error bad =>
    cases hy : t.plain.resolveAt .value with
    | error bad' => exact .error rfl
    | ok type' =>
      rw [hx, hy] at h
      cases h
  | ok type =>
    cases hy : t.plain.resolveAt .value with
    | error bad' =>
      rw [hx, hy] at h
      cases h
    | ok type' =>
      rw [hx, hy] at h
      cases h
      exact hk type

variable {e : Expr} {site site' : Site} {label label' : String}
  {checked checked' : Except CheckError Typed}

/-- A tree that is moved is the same tree without its place. -/
theorem Agrees.moveTo (h : Agrees Typed.unplaced checked checked') (s : Span) :
    Agrees Typed.unplaced (do return (← checked).moveTo s) checked' := by
  cases h with
  | ok h => exact .ok ((Typed.unplaced_moveTo ..).trans h)
  | error h => exact .error h

/-- What fits a place does so after any change to trees that conversions commute with. -/
theorem agrees_fit_of {f : Typed → Typed} {e e' : Expr} {target : Ty}
    (hn : e'.narrowed? target = (e.narrowed? target).map f)
    (ha : ∀ t, (f t).assignTo? target = (t.assignTo? target).map f) (hs : site.kind = site'.kind)
    (hc : Agrees f checked checked') :
    Agrees f (fit e target site checked) (fit e' target site' checked') := by
  unfold fit
  rw [hn]
  cases e.narrowed? target with
  | some constant => exact .ok rfl
  | none =>
    apply hc.bind
    intro typed
    rw [ha]
    cases typed.assignTo? target with
    | some converted => exact .ok rfl
    | none =>
      apply Agrees.error
      rw [Site.kind_mismatch, Site.kind_mismatch, hs]

/-- What fits a place fits it without parentheses. -/
theorem agrees_fit (target : Ty) (hs : site.kind = site'.kind)
    (hc : Agrees Typed.unplaced checked checked') :
    Agrees Typed.unplaced (fit e target site checked) (fit e.plain target site' checked') :=
  agrees_fit_of (e.narrowed?_plain target) (Typed.assignTo?_unplaced target) hs hc

theorem agrees_fitElement (declared : Ty) (hs : site.kind = site'.kind)
    (hc : Agrees Typed.unplaced checked checked') :
    Agrees Typed.unplaced (fitElement e declared site checked)
      (fitElement e.plain declared site' checked') := by
  apply (agrees_fit declared.storage hs hc).bind
  intro typed
  rw [Typed.innermost?_unplaced]
  split
  · apply Agrees.error
    rw [Site.kind_mismatch, Site.kind_mismatch, hs]
  · exact .ok rfl

theorem agrees_fitPropertyKey (constraint : Option RecordTy)
    (hc : Agrees Typed.unplaced checked checked') :
    Agrees Typed.unplaced (fitPropertyKey constraint label e checked)
      (fitPropertyKey constraint label' e.plain checked') := by
  cases constraint with
  | none => exact hc.bind fun typed => .ok (Typed.unplaced_stringified typed)
  | some c =>
    apply (agrees_fit c.key.storage (by rfl) hc).bind
    intro typed
    rw [Typed.type_unplaced]
    split
    · exact .error rfl
    · exact .ok rfl

theorem agrees_fitValue (declared : Ty) (hc : Agrees Typed.unplaced checked checked') :
    Agrees Typed.unplaced (fitValue e label declared checked)
      (fitValue e.plain label' declared checked') := by
  have hplain := e.plain_bare
  unfold fitValue
  rw [e.bare_plain]
  split
  · next hb =>
    rw [hb] at hplain
    rw [← hplain]
    exact .error rfl
  · next hb =>
    rw [hb] at hplain
    rw [← hplain]
    apply hc.bind
    intro typed
    apply Agrees.ok
    rw [Typed.unplaced_moveTo, Typed.moveTo_unplaced]
  · next hnull harray =>
    split
    · next hp =>
      obtain ⟨s, hb⟩ := Expr.bare_of_plain_null hp
      exact absurd hb (hnull _ _ rfl)
    · next hp =>
      obtain ⟨items, x, s, hb⟩ := Expr.bare_of_plain_array hp
      exact absurd hb (harray _ _ _ _ rfl)
    · exact agrees_fit _ rfl hc

theorem agrees_fitPropertyValue (constraint : Option RecordTy)
    (hc : Agrees Typed.unplaced checked checked') :
    Agrees Typed.unplaced (fitPropertyValue constraint label e checked)
      (fitPropertyValue constraint label' e.plain checked') := by
  cases constraint with
  | none => exact hc.bind fun typed => .ok (Typed.unplaced_boxed typed)
  | some c => exact agrees_fitValue c.value hc

theorem isObject_plain (e : Expr) : isObject e.plain = isObject e := by
  cases e with
  | paren inner span => exact isObject_plain inner
  | _ => rfl

theorem isSymbol_plain (e : Expr) : isSymbol e.plain = isSymbol e := by
  cases e with
  | paren inner span => exact isSymbol_plain inner
  | _ => rfl

/-- An object literal that is spread is recognized inside parentheses. -/
theorem spreadHint_plain (constraint : Option RecordTy) (e : Expr) :
    spreadHint constraint e.plain = spreadHint constraint e := by
  unfold spreadHint
  rw [isObject_plain]

theorem agrees_rejectMembers (ps : List Property) :
    Agrees id (rejectMembers ps) (rejectMembers (Property.allPlain ps)) := by
  induction ps with
  | nil => exact .ok rfl
  | cons p rest ih =>
    cases p with
    | member form key span => exact .error rfl
    | keyed key value span =>
      cases key with
      | computed source keySpan =>
        rw [Property.allPlain, Property.plain, Key.plain, rejectMembers, rejectMembers,
          isSymbol_plain]
        split
        · exact .error rfl
        · exact ih
      | _ => exact ih
    | _ => exact ih

theorem agrees_spreadTypes (constraint : Option RecordTy) (type : Ty) (at₁ at₂ s₁ s₂ : Span) :
    Agrees id (spreadTypes constraint type at₁ s₁) (spreadTypes constraint type at₂ s₂) := by
  unfold spreadTypes
  split
  · split
    · exact .error rfl
    split
    · exact .error rfl
    · exact .ok rfl
  · exact .ok rfl
  · exact .error rfl
  · exact .ok rfl
  · exact .error rfl

/-- Written keys have no parentheses, so they are kept as they are. -/
theorem agrees_constant {key : Key} (declared : Ty)
    (hk : ∀ source span, key ≠ .computed source span) :
    Agrees id (key.constant declared) (key.plain.constant declared) := by
  have hlabel : key.plain.label = key.label := by
    cases key with
    | computed source span => exact absurd rfl (hk source span)
    | _ => rfl
  have hliteral : key.plain.literal? = key.literal? := by cases key <;> rfl
  unfold Key.constant
  rw [hlabel, hliteral]
  split
  · split
    · exact .ok rfl
    · exact .error rfl
  · split
    · exact .ok rfl
    · exact .error rfl

theorem agrees_fixed {key key' : Except CheckError (Constant × Ty)} (order : Nat) (form : EntryForm)
    (s : Span) (hk : Agrees id key key') (hv : Agrees Typed.unplaced checked checked') :
    Agrees Entry.unplaced (do return fixedEntry (← key) (← checked) order form s)
      (do return fixedEntry (← key') (← checked') order form .origin) := by
  apply hk.bind
  intro k
  apply hv.bind
  intro v
  apply Agrees.ok
  simp [fixedEntry, Entry.unplaced, EntryTag.unplaced]

/-- The type of a record does not depend on places. -/
theorem recordType_unplaced (constraint : Option RecordTy) (entries : List Entry) :
    recordType constraint (Entry.allUnplaced entries) = recordType constraint entries := by
  have hall : (Entry.allUnplaced entries).all hasStringKeys = entries.all hasStringKeys := by
    induction entries with
    | nil => rfl
    | cons entry rest ih =>
      rw [Entry.allUnplaced, List.all_cons, List.all_cons, ih]
      cases entry <;> rfl
  unfold recordType
  rw [hall]

end Check

def Scope.unplaced (scope : Scope) : Scope :=
  ⟨scope.locals.map LocalDecl.unplaced, scope.nextSlot⟩

namespace Scope

open Check (Agrees)

theorem find?_unplaced (scope : Scope) (name : String) :
    scope.unplaced.find? name = (scope.find? name).map LocalDecl.unplaced :=
  List.find?_map ..

theorem agrees_read (scope : Scope) (name : String) (s : Span) :
    Agrees Typed.unplaced (scope.read name s) (scope.unplaced.read name .origin) := by
  unfold read lookup
  rw [find?_unplaced]
  cases scope.find? name with
  | none => exact .error rfl
  | some found => exact .ok rfl

/-- A target in parentheses is the same variable. -/
theorem agrees_target (scope : Scope) (e : Expr) :
    Agrees id (scope.target e) (scope.unplaced.target e.plain) := by
  have hplain := e.plain_bare
  unfold target
  rw [e.bare_plain]
  split
  · next name s hb =>
    rw [hb] at hplain
    rw [← hplain]
    dsimp only [Expr.plain, lookup]
    rw [find?_unplaced]
    cases scope.find? name with
    | none => exact .error rfl
    | some found => exact .ok rfl
  · next hvar =>
    split
    · next hp =>
      obtain ⟨s, hb⟩ := Expr.bare_of_plain_var hp
      exact absurd hb (hvar _ _)
    · exact .error rfl

theorem agrees_declare (scope : Scope) (name : String) (type : Ty) (s : Span) :
    Agrees (Prod.map id Scope.unplaced) (scope.declare name type s)
      (scope.unplaced.declare name type .origin) := by
  unfold declare
  rw [find?_unplaced]
  cases scope.find? name with
  | some found => exact .error rfl
  | none =>
    apply Agrees.ok
    simp [push, unplaced, LocalDecl.unplaced]

end Scope

namespace Check

theorem expr_binary_eq {scope : Scope} {hint : Hint} {op : BinaryOp} {left right : Expr}
    {extent span : Span} (hop : op.category? ≠ none) :
    expr scope hint (.binary op left right extent span) = (do
      let l ← expr scope .none left
      let r ← expr scope .none right
      Typed.ofBinary op l r extent) := by
  obtain ⟨category, hc⟩ := Option.ne_none_iff_exists'.mp hop
  rw [expr]
  simp only [hc]

mutual

/-- An expression and its plain form are both accepted, with one tree up to places, or both refused
for the same kind of reason. -/
theorem agrees_expr {scope : Scope} (e : Expr) {hint hint' : Hint} (hh : hint.Alike hint') :
    Agrees Typed.unplaced (expr scope hint e) (expr scope.unplaced hint' e.plain) := by
  cases e with
  | int value span => exact .ok (Typed.unplaced_ofWhole value span)
  | float | string | boolean | null => exact .ok rfl
  | symbol => exact .error rfl
  | var name span => exact scope.agrees_read name span
  | binary op left right extent span =>
    rw [Expr.plain, expr, expr]
    cases op.category? with
    | none => exact .error rfl
    | some category =>
      apply (agrees_expr left (.refl _)).bind
      intro l
      apply (agrees_expr right (.refl _)).bind
      intro r
      exact Typed.agrees_ofBinary op l r extent
  | unary op operand extent span =>
    cases op with
    | typeOf | void | delete => exact .error rfl
    | _ =>
      apply (agrees_expr operand (.refl _)).bind
      intro typed
      exact Typed.agrees_ofUnary _ typed extent
  | update op before target extent span =>
    apply (scope.agrees_target target).bind
    intro x
    exact Typed.agrees_ofUpdate op before x extent
  | assign op target value extent span =>
    rw [Expr.plain, expr, expr, Expr.span_plain]
    apply (scope.agrees_target target).bind
    intro x
    cases op.binary? with
    | none =>
      apply (agrees_fit x.type rfl (agrees_expr value (.refl _))).bind
      intro v
      exact .ok rfl
    | some binary =>
      apply (agrees_expr value (.refl _)).bind
      intro v
      exact Typed.agrees_ofCompound op binary x target.span v extent
  | conditional test yes no extent span =>
    apply (agrees_expr test (.refl _)).bind
    intro typed
    apply (Typed.agrees_ofTest typed).bind
    intro t
    apply (agrees_expr yes hh.branch).bind
    intro y
    apply (agrees_expr no hh.branch).bind
    intro n
    exact Typed.agrees_ofBranches t y n extent
  | cast operand target extent span =>
    rw [Expr.plain, expr, expr]
    apply agrees_resolve
    intro type
    apply (agrees_expr operand (.refl _)).bind
    intro typed
    exact Typed.agrees_ofCast typed type extent
  | object ps extent span =>
    rw [Expr.plain, expr, expr, ← hh.record?]
    apply (agrees_rejectMembers ps).bind
    intro _
    apply (agrees_properties hint.record? 0 ps).bind
    intro entries
    apply Agrees.ok
    rw [recordType_unplaced]
    rfl
  | array items extent span =>
    rw [Expr.plain, expr, expr, ← hh.type]
    split
    · next declared hd =>
      apply (agrees_elements declared hh.elements items).bind
      intro es
      exact .ok rfl
    · apply (agrees_freeElements items).bind
      intro es
      apply Agrees.ok
      rw [Typed.commonType_unplaced]
      rfl
  | paren inner span => exact (agrees_expr inner hh).moveTo span

theorem agrees_elements {scope : Scope} (declared : Ty) {site site' : Site}
    (hs : site.kind = site'.kind) (items : List Expr) :
    Agrees Typed.allUnplaced (elements scope declared site items)
      (elements scope.unplaced declared site' (Expr.allPlain items)) := by
  cases items with
  | nil => exact .ok rfl
  | cons e rest =>
    apply (agrees_fitElement declared hs (agrees_expr e (.refl _))).bind
    intro typed
    apply (agrees_elements declared hs rest).bind
    intro others
    exact .ok rfl

theorem agrees_freeElements {scope : Scope} (items : List Expr) :
    Agrees Typed.allUnplaced (freeElements scope items)
      (freeElements scope.unplaced (Expr.allPlain items)) := by
  cases items with
  | nil => exact .ok rfl
  | cons e rest =>
    apply (agrees_expr e (.refl _)).bind
    intro typed
    apply (agrees_freeElements rest).bind
    intro others
    apply Agrees.ok
    rw [Typed.allUnplaced, Typed.unplaced_boxed]

theorem agrees_property {scope : Scope} (constraint : Option RecordTy) (order : Nat)
    (p : Property) :
    Agrees Entry.unplaced (property scope constraint order p)
      (property scope.unplaced constraint order p.plain) := by
  cases p with
  | member => exact .error rfl
  | shorthand name span =>
    exact agrees_fixed order .shorthand span (agrees_constant _ nofun)
      (agrees_fitPropertyValue constraint (scope.agrees_read name span))
  | spread source span =>
    rw [Property.plain, property, property, spreadHint_plain, isObject_plain]
    apply (agrees_expr source (.refl _)).bind
    intro typed
    dsimp only
    have hmoved : (if isObject source then typed.unplaced.moveTo source.plain.span
        else typed.unplaced) =
        (if isObject source then typed.moveTo source.span else typed).unplaced := by
      split
      · rw [Expr.span_plain, Typed.moveTo_unplaced, Typed.unplaced_moveTo]
      · rfl
    rw [hmoved, Typed.type_unplaced]
    apply (agrees_spreadTypes constraint _ _ _ _ _).bind
    intro types
    exact .ok rfl
  | keyed key value span =>
    cases key with
    | computed source keySpan =>
      apply (agrees_fitPropertyKey constraint (agrees_expr source (.refl _))).bind
      intro k
      apply (agrees_fitPropertyValue constraint
        (agrees_expr value (.valueHint constraint _ _))).bind
      intro v
      apply Agrees.ok
      simp [Entry.unplaced, EntryTag.unplaced]
    | _ =>
      exact agrees_fixed order .literal span (agrees_constant _ nofun)
        (agrees_fitPropertyValue constraint (agrees_expr value (.valueHint constraint _ _)))

theorem agrees_properties {scope : Scope} (constraint : Option RecordTy) (order : Nat)
    (ps : List Property) :
    Agrees Entry.allUnplaced (properties scope constraint order ps)
      (properties scope.unplaced constraint order (Property.allPlain ps)) := by
  cases ps with
  | nil => exact .ok rfl
  | cons p rest =>
    apply (agrees_property constraint order p).bind
    intro entry
    apply (agrees_properties constraint (order + 1) rest).bind
    intro others
    exact .ok rfl

end

theorem agrees_declarationValue (scope : Scope) (d : Declaration) :
    Agrees (Prod.map id Typed.unplaced) (declarationValue scope d)
      (declarationValue scope.unplaced d.plain) := by
  obtain ⟨name, nameSpan, type, initializer, span⟩ := d
  cases type with
  | none =>
    cases initializer with
    | none => exact .error rfl
    | some e =>
      apply (agrees_expr e (.refl _)).bind
      intro value
      rw [Typed.type_unplaced]
      split
      · exact .error rfl
      · exact .ok rfl
  | some written =>
    apply agrees_resolve
    intro type
    cases initializer with
    | none => exact .ok rfl
    | some e =>
      apply (agrees_fit type (by rfl) (agrees_expr e (.refl _))).bind
      intro value
      exact .ok rfl

theorem agrees_declaration (scope : Scope) (d : Declaration) :
    Agrees (Prod.map Initializer.unplaced Scope.unplaced) (declaration scope d)
      (declaration scope.unplaced d.plain) := by
  apply (agrees_declarationValue scope d).bind
  rintro ⟨type, value⟩
  apply (scope.agrees_declare d.name type d.nameSpan).bind
  rintro ⟨x, after⟩
  exact .ok rfl

/-- Declarations agree with their plain forms, each in the scope that those before it made. -/
theorem agrees_declarations (scope : Scope) (ds : List Declaration) :
    Agrees (Prod.map (List.map Initializer.unplaced) Scope.unplaced) (declarations scope ds)
      (declarations scope.unplaced (ds.map Declaration.plain)) := by
  induction ds generalizing scope with
  | nil => exact .ok rfl
  | cons d rest ih =>
    apply (agrees_declaration scope d).bind
    rintro ⟨first, after⟩
    apply (ih after).bind
    rintro ⟨others, last⟩
    exact .ok rfl

theorem agrees_body (scope : Scope) (e : Expr) (returns : Option TypeExpr) :
    Agrees (Prod.map Typed.unplaced id) (body scope e returns)
      (body scope.unplaced e.plain (returns.map TypeExpr.plain)) := by
  cases returns with
  | none =>
    apply (agrees_expr e (.refl _)).bind
    intro typed
    exact .ok (Prod.ext rfl (Typed.type_unplaced typed).symm)
  | some written =>
    apply agrees_resolve
    intro type
    apply (agrees_fit type (by rfl) (agrees_expr e (.refl _))).bind
    intro typed
    exact .ok rfl

/-- A unit and the same unit without parentheses are both accepted, with the same tree up to places,
or both refused for the same kind of reason. -/
theorem agrees_unit (u : SourceUnit) : Agrees TypedUnit.unplaced (unit u) (unit u.plain) := by
  apply (agrees_declarations .empty u.declarations).bind
  rintro ⟨initializers, scope⟩
  apply (agrees_body scope u.body u.returns).bind
  rintro ⟨typed, type⟩
  exact .ok rfl

end Check

/-- A unit and its plain form compile alike. -/
theorem compile_plain (o : Options) (u : SourceUnit) :
    (compile o u.plain).mapError CompileError.kind = (compile o u).mapError CompileError.kind := by
  have h := Check.agrees_unit u
  unfold compile
  generalize Check.unit u = checked at h ⊢
  generalize Check.unit u.plain = checked' at h ⊢
  cases h with
  | error h => exact congrArg Except.error h.symm
  | @ok t _ h =>
    subst h
    have hemit := Emit.unit_unplaced o t
    cases hx : Emit.unit o t.unplaced with
    | error f =>
      cases hy : Emit.unit o t with
      | error f' =>
        simp only [hx, hy]
        rfl
      | ok s =>
        rw [hx, hy] at hemit
        cases hemit
    | ok s =>
      rw [hx] at hemit
      cases hy : Emit.unit o t with
      | error f' =>
        rw [hy] at hemit
        cases hemit
      | ok s' =>
        rw [hy] at hemit
        cases hemit
        simp only [hx, hy]
        rfl

/-- Units that differ only in parentheses and places are compiled to the same code, or are refused
for the same kind of reason. -/
theorem compile_ignores_parentheses (o : Options) {u u' : SourceUnit} (h : u.plain = u'.plain) :
    (compile o u).mapError CompileError.kind = (compile o u').mapError CompileError.kind := by
  calc
    (compile o u).mapError CompileError.kind
    _ = (compile o u.plain).mapError CompileError.kind := (compile_plain o u).symm
    _ = (compile o u'.plain).mapError CompileError.kind := by rw [h]
    _ = (compile o u').mapError CompileError.kind := compile_plain o u'

/-- `let c: char = "x"; let n: int = -1; {["a"]: [n = 2, n++], ...{b: [c + n]}}`, as it stands and
with every expression in parentheses. -/
theorem compile_ignores_parentheses_everywhere :
    let o := Span.origin
    let ints := TypeExpr.generic "Array" [.simple "int" o] o
    let wrapped := fun wrap : Expr → Expr =>
      let n := wrap (.var "n" o)
      let items := wrap (.ofArray [wrap (.ofAssign .set n (wrap (.int 2 o))),
        wrap (.ofUpdate .increment false n)])
      let rest := wrap (.ofObject [.ofKeyed (.name "b" o)
        (wrap (.ofArray [wrap (.ofBinary .add (wrap (.var "c" o)) n)]))])
      SourceUnit.mk "wrapped"
        [⟨"c", o, some (.simple "char" o), some (wrap (.string "x" o)), o⟩,
          ⟨"n", o, some (.simple "int" o), some (wrap (.ofUnary .minus (wrap (.int 1 o)))), o⟩]
        (wrap (.ofObject [.ofKeyed (.ofComputed (wrap (.string "a" o))) items, .ofSpread rest]))
        (some (.generic "Record" [.simple "String" o, ints] o))
    (∃ t, Check.unit (wrapped .ofParen) = .ok t) ∧
      (wrapped id).plain = (wrapped .ofParen).plain ∧
      (compile .default (wrapped id)).mapError CompileError.kind =
        (compile .default (wrapped .ofParen)).mapError CompileError.kind :=
  ⟨⟨_, rfl⟩, rfl, compile_ignores_parentheses .default rfl⟩

end StackExpr
