import StackExpr.Proofs.Checked

/-! What expressions do to variables, in the order of evaluation.

Conversions, literals taken at a declared kind and the places of values have no effects, so the tree
of an accepted expression has the effects that were written, in their order. -/
namespace StackExpr

/-- Something done to a variable: a read, a step of plus or minus one, or an assignment. -/
inductive Effect (ν : Type) where
  | read (var : ν)
  | update (var : ν) (delta : Int8) (before : Bool)
  | assign (var : ν)
  deriving DecidableEq

namespace Effect

variable {ν μ : Type}

def var : Effect ν → ν
  | read x | update x _ _ | assign x => x

def map (f : ν → μ) : Effect ν → Effect μ
  | read x => read (f x)
  | update x delta before => update (f x) delta before
  | assign x => assign (f x)

end Effect

/-- The name that an expression is, parentheses aside. -/
def Expr.name? (e : Expr) : Option String :=
  match e.bare with
  | .var name _ => some name
  | _ => none

mutual

/-- The effects of an expression as it is written: operands from left to right, an assignment after
its value, and a compound one also reads its variable before. -/
def Expr.effects : Expr → List (Effect String)
  | .int _ _ | .float _ _ | .string _ _ | .boolean _ _ | .null _ | .symbol _ _ _ => []
  | .var name _ => [.read name]
  | .binary _ left right _ _ => left.effects ++ right.effects
  | .unary _ operand _ _ => operand.effects
  | .update op before target _ _ => target.name?.toList.map (.update · op.delta before)
  | .assign op target value _ _ =>
    (if op = .set then [] else target.name?.toList.map .read) ++ value.effects ++
      target.name?.toList.map .assign
  | .conditional test yes no _ _ => test.effects ++ yes.effects ++ no.effects
  | .cast operand _ _ _ => operand.effects
  | .object properties _ _ => Property.allEffects properties
  | .array items _ _ => Expr.allEffects items
  | .paren inner _ => inner.effects

def Expr.allEffects : List Expr → List (Effect String)
  | [] => []
  | e :: rest => e.effects ++ Expr.allEffects rest

/-- A computed key comes before its value; a shorthand property is one read. -/
def Property.effects : Property → List (Effect String)
  | .keyed key value _ => key.effects ++ value.effects
  | .shorthand name _ => [.read name]
  | .spread source _ => source.effects
  | .member _ key _ => key.effects

def Property.allEffects : List Property → List (Effect String)
  | [] => []
  | p :: rest => p.effects ++ Property.allEffects rest

def Key.effects : Key → List (Effect String)
  | .computed source _ => source.effects
  | _ => []

end

mutual

/-- The effects of a typed tree in the order of its evaluation. -/
def Typed.effects : Typed → List (Effect Local)
  | .constant _ _ => []
  | .read x _ => [.read x]
  | .convert e _ _ | .negate _ e _ | .complement _ e _ | .not e _ => e.effects
  | .arith _ _ l r _ | .power l r _ | .compare _ _ l r _ | .logical _ l r _ | .concat l r _ =>
    l.effects ++ r.effects
  | .update x delta before _ => [.update x delta before]
  | .assign x e _ => e.effects ++ [.assign x]
  | .conditional t y n _ => t.effects ++ y.effects ++ n.effects
  | .record _ entries _ => Entry.allEffects entries
  | .list items _ => Typed.allEffects items

def Typed.allEffects : List Typed → List (Effect Local)
  | [] => []
  | e :: rest => e.effects ++ Typed.allEffects rest

def Entry.effects : Entry → List (Effect Local)
  | .fixed _ _ value _ => value.effects
  | .computed key value _ => key.effects ++ value.effects
  | .spread source _ => source.effects

def Entry.allEffects : List Entry → List (Effect Local)
  | [] => []
  | e :: rest => e.effects ++ Entry.allEffects rest

end

namespace Typed

variable {l r e t : Typed} {span : Span}

/-- A tree that is given another type and place has the effects it had. -/
@[simp] theorem effects_withTag (tag : Tag) (e : Typed) : (e.withTag tag).effects = e.effects := by
  cases e <;> simp only [withTag, effects]

@[simp] theorem effects_moveTo (place : Span) (e : Typed) :
    (e.moveTo place).effects = e.effects := effects_withTag ..

/-- Conversions have no effects. -/
@[simp] theorem effects_through (steps : List Conversion) (e : Typed) :
    (e.through steps).effects = e.effects := by
  induction steps generalizing e with
  | nil => rfl
  | cons c rest ih =>
    have hstep : (e.step c).effects = e.effects := by rw [step, effects]
    exact (ih (e.step c)).trans hstep

@[simp] theorem effects_boxed (e : Typed) : e.boxed.effects = e.effects := effects_through ..

theorem effects_stringified (e : Typed) : e.stringified.effects = e.effects := by
  rw [stringified]
  split
  · rfl
  · exact effects_through ..

theorem effects_ofCoercion {op : BinaryOp} {c : Coercion} :
    (ofCoercion op c l r span).effects = l.effects ++ r.effects := by
  unfold ofCoercion
  split <;> rw [effects]

/-- An operator has the effects of its operands, from left to right. -/
theorem effects_ofBinary {op : BinaryOp} (h : ofBinary op l r span = .ok t) :
    t.effects = l.effects ++ r.effects := by
  rcases ofBinary_eq_ok h with ⟨-, rfl⟩ | ⟨-, h⟩ | ⟨-, category, c, -, -, rfl⟩
  · rw [effects, effects_stringified, effects_stringified]
  · obtain ⟨left, right, -, -, -, -, rfl⟩ := ofPower_eq_ok h
    rw [effects, effects_through, effects_through]
  · rw [effects_ofCoercion, effects_through, effects_through]

theorem effects_ofUnary {op : UnaryOp} (h : ofUnary op e span = .ok t) :
    t.effects = e.effects := by
  rcases ofUnary_eq_ok h with ⟨-, steps, -, -, rfl⟩ | ⟨-, k, steps, -, rfl⟩ |
    ⟨-, k, steps, -, rfl⟩ | ⟨-, k, steps, -, rfl⟩
  · rw [effects, effects_through]
  · rw [effects_moveTo, effects_through]
  · rw [effects, effects_through]
  · rw [effects, effects_through]

end Typed

namespace Expr

variable {e : Expr}

theorem effects_bare (e : Expr) : e.bare.effects = e.effects := by
  cases e with
  | paren inner span =>
    rw [bare, effects]
    exact effects_bare inner
  | _ => rfl

theorem effects_of_literal? {l : Literal} (h : e.literal? = some l) : e.effects = [] := by
  induction e using literal?.induct generalizing l with
  | case1 | case2 => rw [effects]
  | case3 inner span ih | case4 inner extent span ih =>
    rw [effects]
    exact ih h
  | case5 operand extent span ih =>
    obtain ⟨inner, hi, -⟩ := Option.bind_eq_some_iff.mp h
    rw [effects]
    exact ih hi
  | case6 => simp [literal?] at h

/-- A literal has no effects, whatever kind it is taken at. -/
theorem effects_of_narrowed? {target : Ty} {t : Typed} (h : e.narrowed? target = some t) :
    e.effects = [] ∧ t.effects = [] := by
  obtain ⟨k, d, hd, hform⟩ := narrowed?_eq_some h
  constructor
  · rcases literal_of_constantAt? hd with ⟨l, hl⟩ | ⟨text, span, hb⟩
    · exact effects_of_literal? hl
    · rw [← effects_bare, hb]
      rfl
  · rcases hform with ⟨-, rfl⟩ | ⟨-, rfl⟩ <;> rfl

end Expr

/-- The effects that are written, each on the variable that its name stands for. -/
structure Scope.Resolves (scope : Scope) (written : List (Effect String))
    (found : List (Effect Local)) : Prop where
  names : found.map (Effect.map Local.name) = written
  vars : ∀ x ∈ found, (scope.find? x.var.name).map (·.toLocal) = some x.var

namespace Scope

variable {scope : Scope} {name : String} {span : Span} {e : Expr} {x : Local} {t : Typed}

theorem resolves_nil : scope.Resolves [] [] := ⟨rfl, nofun⟩

/-- Names stand for their variables in one part of an expression as in another. -/
theorem Resolves.append {w w' : List (Effect String)} {f f' : List (Effect Local)}
    (h : scope.Resolves w f) (h' : scope.Resolves w' f') :
    scope.Resolves (w ++ w') (f ++ f') := by
  constructor
  · rw [List.map_append, h.names, h'.names]
  · intro x hx
    rcases List.mem_append.mp hx with hx | hx
    · exact h.vars x hx
    · exact h'.vars x hx

theorem resolves_single {x : Effect Local}
    (h : (scope.find? x.var.name).map (·.toLocal) = some x.var) :
    scope.Resolves [x.map Local.name] [x] := by
  constructor
  · rfl
  · intro y hy
    rw [List.mem_singleton.mp hy]
    exact h

theorem name_of_find? {found : LocalDecl} (h : scope.find? name = some found) :
    found.name = name := by
  simpa using List.find?_some h

theorem resolves_read (h : scope.read name span = .ok t) :
    scope.Resolves [.read name] t.effects := by
  obtain ⟨found, hf, rfl⟩ := Check.read_eq_ok h
  have hn := name_of_find? hf
  have hs : scope.Resolves [.read found.name] [.read found.toLocal] :=
    resolves_single (x := .read found.toLocal) (by
      simp only [Effect.var, hn, hf, Option.map_some])
  rwa [hn] at hs

/-- The target of an assignment is a name, and the variable is the one of that name. -/
theorem target_resolves (h : scope.target e = .ok x) :
    e.name? = some x.name ∧ (scope.find? x.name).map (·.toLocal) = some x := by
  obtain ⟨name, place, found, hb, hf, rfl⟩ := Check.target_eq_ok h
  have hn := name_of_find? hf
  constructor
  · rw [Expr.name?, hb, hn]
  · rw [hn, hf]
    rfl

end Scope

namespace Check

variable {scope : Scope} {e : Expr} {t : Typed} {checked : Except CheckError Typed}

/-- An expression keeps its effects at its place. -/
theorem resolves_fitted (h : Fitted e checked t)
    (hc : ∀ typed, checked = .ok typed → scope.Resolves e.effects typed.effects) :
    scope.Resolves e.effects t.effects := by
  rcases h with ⟨target, hn⟩ | ⟨typed, ht, ⟨steps, rfl⟩ | ⟨place, rfl⟩⟩
  · obtain ⟨he, ht⟩ := Expr.effects_of_narrowed? hn
    rw [he, ht]
    exact Scope.resolves_nil
  · rw [Typed.effects_through]
    exact hc typed ht
  · rw [Typed.effects_moveTo]
    exact hc typed ht

mutual

/-- The tree of an accepted expression has the effects that were written. -/
theorem resolves_expr (e : Expr) (hint : Hint) {t : Typed} (h : expr scope hint e = .ok t) :
    scope.Resolves e.effects t.effects := by
  cases e with
  | int value span =>
    cases h
    rw [Typed.ofWhole]
    split <;> exact Scope.resolves_nil
  | float _ _ | string _ _ | boolean _ _ | null _ =>
    cases h
    exact Scope.resolves_nil
  | symbol _ _ _ => cases h
  | var name span => exact Scope.resolves_read h
  | binary op left right extent span =>
    obtain ⟨-, l, r, hl, hr, h⟩ := binary_eq_ok h
    rw [Expr.effects, Typed.effects_ofBinary h]
    exact (resolves_expr left .none hl).append (resolves_expr right .none hr)
  | unary op operand extent span =>
    obtain ⟨-, typed, ht, h⟩ := unary_eq_ok h
    rw [Expr.effects, Typed.effects_ofUnary h]
    exact resolves_expr operand .none ht
  | update op before target extent span =>
    obtain ⟨x, hx, h⟩ := update_eq_ok h
    obtain ⟨-, rfl⟩ := Typed.ofUpdate_eq_ok h
    obtain ⟨hn, hf⟩ := Scope.target_resolves hx
    rw [Expr.effects, hn]
    exact Scope.resolves_single (x := .update x op.delta before) hf
  | assign op target value extent span =>
    obtain ⟨x, hx, h⟩ := assign_eq_ok h
    obtain ⟨hn, hf⟩ := Scope.target_resolves hx
    have hassign : scope.Resolves [.assign x.name] [.assign x] :=
      Scope.resolves_single (x := .assign x) hf
    rw [Expr.effects, hn]
    rcases h with ⟨hop, v, hv, rfl⟩ | ⟨hop, binary, v, -, hv, h⟩
    · rw [if_pos hop]
      exact (resolves_fitted (fitted_fit hv) fun _ => resolves_expr value _).append hassign
    · obtain ⟨combined, steps, hb, -, rfl⟩ := Typed.ofCompound_eq_ok h
      have hread : scope.Resolves [.read x.name] [.read x] :=
        Scope.resolves_single (x := .read x) hf
      rw [if_neg hop, Typed.effects, Typed.effects_through, Typed.effects_ofBinary hb]
      exact (hread.append (resolves_expr value .none hv)).append hassign
  | conditional test yes no extent span =>
    obtain ⟨c, c', y, n, hc, hc', hy, hn, h⟩ := conditional_eq_ok h
    obtain ⟨-, rfl⟩ := Typed.ofTest_eq_ok hc'
    obtain ⟨type, left, right, -, rfl⟩ := Typed.ofBranches_eq_ok h
    rw [Expr.effects, Typed.effects]
    simp only [Typed.effects_through]
    exact ((resolves_expr test .none hc).append (resolves_expr yes hint.branch hy)).append
      (resolves_expr no hint.branch hn)
  | cast operand written extent span =>
    obtain ⟨type, typed, -, ht, h⟩ := cast_eq_ok h
    obtain ⟨steps, -, rfl⟩ := Typed.ofCast_eq_ok h
    rw [Expr.effects, Typed.effects_withTag, Typed.effects_through]
    exact resolves_expr operand (.of type) ht
  | object props extent span =>
    obtain ⟨entries, he, rfl⟩ := object_eq_ok h
    exact resolves_properties props hint.record? 0 he
  | array items extent span =>
    rcases array_eq_ok h with ⟨declared, es, -, he, rfl⟩ | ⟨-, es, he, rfl⟩
    · exact resolves_elements items declared hint.elements he
    · exact resolves_freeElements items he
  | paren inner span =>
    obtain ⟨typed, ht, rfl⟩ := paren_eq_ok h
    rw [Expr.effects, Typed.effects_moveTo]
    exact resolves_expr inner hint ht

theorem resolves_elements (items : List Expr) (declared : Ty) (site : Site) {es : List Typed}
    (h : elements scope declared site items = .ok es) :
    scope.Resolves (Expr.allEffects items) (Typed.allEffects es) := by
  cases items with
  | nil =>
    cases h
    exact Scope.resolves_nil
  | cons e rest =>
    obtain ⟨first, others, rfl, hf, ho⟩ := elements_eq_ok h
    exact (resolves_fitted (fitted_fitElement hf) fun _ => resolves_expr e _).append
      (resolves_elements rest declared site ho)

theorem resolves_freeElements (items : List Expr) {es : List Typed}
    (h : freeElements scope items = .ok es) :
    scope.Resolves (Expr.allEffects items) (Typed.allEffects es) := by
  cases items with
  | nil =>
    cases h
    exact Scope.resolves_nil
  | cons e rest =>
    obtain ⟨first, others, rfl, hf, ho⟩ := freeElements_eq_ok h
    rw [Expr.allEffects, Typed.allEffects, Typed.effects_boxed]
    exact (resolves_expr e .none hf).append (resolves_freeElements rest ho)

theorem resolves_property (p : Property) (constraint : Option RecordTy) (order : Nat)
    {entry : Entry} (h : property scope constraint order p = .ok entry) :
    scope.Resolves p.effects entry.effects := by
  cases p with
  | keyed key value span =>
    have hvalue label {v} (hv : fitPropertyValue constraint label value
        (expr scope (valueHint constraint label) value) = .ok v) :=
      resolves_fitted (fitted_fitPropertyValue hv) fun _ => resolves_expr value _
    cases key with
    | computed source place =>
      obtain ⟨k, v, hk, hv, rfl⟩ := computed_eq_ok h
      have hkey := resolves_fitted (fitted_fitPropertyKey hk) fun _ => resolves_expr source _
      exact hkey.append (hvalue _ hv)
    | _ =>
      obtain ⟨k, v, -, hv, rfl⟩ := keyed_eq_ok h fun _ _ => Key.noConfusion
      exact hvalue _ hv
  | shorthand name span =>
    obtain ⟨k, v, -, hv, rfl⟩ := shorthand_eq_ok h
    exact resolves_fitted (fitted_fitPropertyValue hv) fun _ => Scope.resolves_read
  | spread source span =>
    obtain ⟨typed, place, types, ht, -, rfl⟩ := spread_eq_ok h
    rw [Property.effects, Entry.effects, Typed.effects_moveTo]
    exact resolves_expr source _ ht
  | member form key span => cases h

theorem resolves_properties (props : List Property) (constraint : Option RecordTy) (order : Nat)
    {entries : List Entry} (h : properties scope constraint order props = .ok entries) :
    scope.Resolves (Property.allEffects props) (Entry.allEffects entries) := by
  cases props with
  | nil =>
    cases h
    exact Scope.resolves_nil
  | cons p rest =>
    obtain ⟨first, others, rfl, hf, ho⟩ := properties_eq_ok h
    exact (resolves_property p constraint order hf).append
      (resolves_properties rest constraint (order + 1) ho)

end

end Check

/-- The tree of an accepted expression reads, counts and assigns what is written, in the order in
which it is written, whatever is asked of the expression. Each effect is on the variable that the
scope has under the name. -/
theorem check_keeps_effects {scope : Scope} {e : Expr} {t : Typed}
    (h : (∃ hint, Check.expr scope hint e = .ok t) ∨
      ∃ target site, Check.exprTo scope target site e = .ok t) :
    t.effects.map (Effect.map Local.name) = e.effects ∧
      ∀ x ∈ t.effects, (scope.find? x.var.name).map (·.toLocal) = some x.var := by
  have hr : scope.Resolves e.effects t.effects := by
    rcases h with ⟨hint, h⟩ | ⟨target, site, h⟩
    · exact Check.resolves_expr e hint h
    · exact Check.resolves_fitted (Check.fitted_fit h) fun _ => Check.resolves_expr e _
  exact ⟨hr.names, hr.vars⟩

/-- `{1: x, [y--]: (x += -y), ...{2: 7}}` as a `Record<Integer, Long>`. -/
theorem check_keeps_effects_counted :
    let o := Span.origin
    let scope := (Scope.empty.push "x" (.prim .int) o).push "y" (.prim .int) o
    let y := Expr.var "y" o
    let e := Expr.ofObject [.ofKeyed (.int 1 o) (.var "x" o),
      .ofKeyed (.ofComputed (.ofUpdate .decrement false y))
        (.ofParen (.ofAssign .add (.var "x" o) (.ofUnary .minus y))),
      .ofSpread (.ofObject [.ofKeyed (.int 2 o) (.int 7 o)])]
    ∃ t, Check.exprTo scope (.record (.boxed .int) (.boxed .long)) (.place .result) e = .ok t ∧
      t.effects.map (Effect.map Local.name) =
        [.read "x", .update "y" (-1) false, .read "x", .read "y", .assign "x"] := by
  intro o scope y e
  obtain ⟨t, ht⟩ :
      ∃ t, Check.exprTo scope (.record (.boxed .int) (.boxed .long)) (.place .result) e = .ok t :=
    ⟨_, rfl⟩
  exact ⟨t, ht, (check_keeps_effects (.inr ⟨_, _, ht⟩)).1⟩

end StackExpr
