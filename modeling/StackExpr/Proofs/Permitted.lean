import StackExpr.Proofs.Effects
import StackExpr.Proofs.Soundness

/-! No part of an accepted unit escapes the check.

The check has shortcuts: a literal at a declared kind is never looked into, and list literals and
spread literals go their own way under a record type. Each of them answers for all that lies below,
so what the check demands of a node holds of every node, however deep. -/
namespace StackExpr

mutual

/-- An expression and all expressions inside it, targets and keys included. -/
def Expr.nodes : Expr → List Expr
  | e@(.binary _ left right _ _) => e :: (left.nodes ++ right.nodes)
  | e@(.unary _ operand _ _) => e :: operand.nodes
  | e@(.update _ _ target _ _) => e :: target.nodes
  | e@(.assign _ target value _ _) => e :: (target.nodes ++ value.nodes)
  | e@(.conditional test yes no _ _) => e :: (test.nodes ++ (yes.nodes ++ no.nodes))
  | e@(.cast operand _ _ _) => e :: operand.nodes
  | e@(.object properties _ _) => e :: Property.allNodes properties
  | e@(.array items _ _) => e :: Expr.allNodes items
  | e@(.paren inner _) => e :: inner.nodes
  | e => [e]

def Expr.allNodes : List Expr → List Expr
  | [] => []
  | e :: rest => e.nodes ++ Expr.allNodes rest

def Property.nodes : Property → List Expr
  | .keyed key value _ => key.nodes ++ value.nodes
  | .shorthand _ _ => []
  | .spread source _ => source.nodes
  | .member _ key _ => key.nodes

def Property.allNodes : List Property → List Expr
  | [] => []
  | p :: rest => p.nodes ++ Property.allNodes rest

def Key.nodes : Key → List Expr
  | .computed source _ => source.nodes
  | _ => []

end

/-- What may stand in an object literal: no code, no symbol as a key, and in short form only a
variable. -/
def Property.Permitted (vars : List Local) : Property → Prop
  | .keyed (.computed source _) _ _ => ∀ text known span, source.bare ≠ .symbol text known span
  | .keyed _ _ _ => True
  | .shorthand name _ => ∃ x ∈ vars, x.name = name
  | .spread _ _ => True
  | .member _ _ _ => False

/-- What may stand where the given variables are declared, judged by the node alone. -/
def Expr.Permitted (vars : List Local) : Expr → Prop
  | .symbol _ _ _ => False
  | .var name _ => ∃ x ∈ vars, x.name = name
  | .binary op _ _ _ _ => op ∉ [.nullish, .isIn, .instanceOf]
  | .unary op _ _ _ => op ∉ [.typeOf, .void, .delete]
  | .update _ _ target _ _ => ∃ x ∈ vars, target.name? = some x.name ∧ x.type.isNumeric = true
  | .assign _ target _ _ _ => ∃ x ∈ vars, target.name? = some x.name
  | .object properties _ _ => ∀ p ∈ properties, p.Permitted vars
  | _ => True

namespace Expr

variable {vars : List Local} {e : Expr}

theorem self_mem_nodes (e : Expr) : e ∈ e.nodes := by cases e <;> exact List.mem_cons_self

theorem bare_mem_nodes (e : Expr) : e.bare ∈ e.nodes := by
  cases e with
  | paren inner span =>
    rw [nodes]
    exact List.mem_cons_of_mem _ (bare_mem_nodes inner)
  | _ => exact self_mem_nodes _

/-- Parentheses are permitted wherever what is in them is. -/
theorem permitted_of_bare (e : Expr) (h : ∀ n ∈ e.bare.nodes, n.Permitted vars) :
    ∀ n ∈ e.nodes, n.Permitted vars := by
  cases e with
  | paren inner span =>
    rw [nodes]
    exact List.forall_mem_cons.mpr ⟨trivial, permitted_of_bare inner h⟩
  | _ => exact h

theorem permitted_of_literal? {l : Literal} (h : e.literal? = some l) :
    ∀ n ∈ e.nodes, n.Permitted vars := by
  induction e using literal?.induct generalizing l with
  | case1 | case2 => exact List.forall_mem_singleton.mpr trivial
  | case3 inner span ih =>
    rw [nodes]
    exact List.forall_mem_cons.mpr ⟨trivial, ih h⟩
  | case4 inner extent span ih =>
    rw [nodes]
    exact List.forall_mem_cons.mpr ⟨by simp [Permitted], ih h⟩
  | case5 operand extent span ih =>
    obtain ⟨inner, hi, -⟩ := Option.bind_eq_some_iff.mp h
    rw [nodes]
    exact List.forall_mem_cons.mpr ⟨by simp [Permitted], ih hi⟩
  | case6 => simp [literal?] at h

/-- A literal at a declared kind is not looked into, and all of it is permitted. -/
theorem permitted_of_narrowed? {target : Ty} {t : Typed} (h : e.narrowed? target = some t) :
    ∀ n ∈ e.nodes, n.Permitted vars := by
  obtain ⟨k, d, hd, -⟩ := narrowed?_eq_some h
  rcases literal_of_constantAt? hd with ⟨l, hl⟩ | ⟨text, span, hb⟩
  · exact permitted_of_literal? hl
  · apply permitted_of_bare
    rw [hb]
    exact List.forall_mem_singleton.mpr trivial

end Expr

namespace Scope

variable {scope : Scope} {name : String} {span : Span} {e : Expr} {x : Local} {t : Typed}

theorem exists_of_read (h : scope.read name span = .ok t) : ∃ x ∈ scope.vars, x.name = name := by
  obtain ⟨found, hf, -⟩ := Check.read_eq_ok h
  exact ⟨found.toLocal, mem_of_find? hf, name_of_find? hf⟩

/-- Only a declared variable is a target. -/
theorem permitted_target (h : scope.target e = .ok x) :
    ∀ n ∈ e.nodes, n.Permitted scope.vars := by
  obtain ⟨name, place, found, hb, hf, -⟩ := Check.target_eq_ok h
  apply Expr.permitted_of_bare
  rw [hb]
  exact List.forall_mem_singleton.mpr ⟨found.toLocal, mem_of_find? hf, name_of_find? hf⟩

end Scope

namespace Check

variable {scope scope' : Scope} {e : Expr} {t : Typed} {checked : Except CheckError Typed}

theorem permitted_fitted {vars : List Local} (h : Fitted e checked t)
    (hc : ∀ typed, checked = .ok typed → ∀ n ∈ e.nodes, n.Permitted vars) :
    ∀ n ∈ e.nodes, n.Permitted vars := by
  rcases h with ⟨target, hn⟩ | ⟨typed, ht, -⟩
  · exact Expr.permitted_of_narrowed? hn
  · exact hc typed ht

mutual

/-- Whatever an accepted expression has inside is permitted. -/
theorem permitted_expr (e : Expr) (hint : Hint) {t : Typed} (h : expr scope hint e = .ok t) :
    ∀ n ∈ e.nodes, n.Permitted scope.vars := by
  cases e with
  | int _ _ | float _ _ | string _ _ | boolean _ _ | null _ =>
    exact List.forall_mem_singleton.mpr trivial
  | symbol _ _ _ => cases h
  | var name span => exact List.forall_mem_singleton.mpr (Scope.exists_of_read h)
  | binary op left right extent span =>
    obtain ⟨hop, l, r, hl, hr, -⟩ := binary_eq_ok h
    refine List.forall_mem_cons.mpr ⟨?_, List.forall_mem_append.mpr
      ⟨permitted_expr left .none hl, permitted_expr right .none hr⟩⟩
    intro hmem
    simp only [List.mem_cons, List.not_mem_nil, or_false] at hmem
    rcases hmem with rfl | rfl | rfl <;> exact hop rfl
  | unary op operand extent span =>
    obtain ⟨hop, typed, ht, -⟩ := unary_eq_ok h
    exact List.forall_mem_cons.mpr ⟨hop, permitted_expr operand .none ht⟩
  | update op before target extent span =>
    obtain ⟨x, hx, h⟩ := update_eq_ok h
    obtain ⟨hn, -⟩ := Typed.ofUpdate_eq_ok h
    exact List.forall_mem_cons.mpr
      ⟨⟨x, Scope.mem_of_target hx, (Scope.target_resolves hx).1, hn⟩, Scope.permitted_target hx⟩
  | assign op target value extent span =>
    obtain ⟨x, hx, h⟩ := assign_eq_ok h
    have hv : ∀ n ∈ value.nodes, n.Permitted scope.vars := by
      rcases h with ⟨-, v, hv, -⟩ | ⟨-, binary, v, -, hv, -⟩
      · exact permitted_fitted (fitted_fit hv) fun _ => permitted_expr value _
      · exact permitted_expr value .none hv
    exact List.forall_mem_cons.mpr ⟨⟨x, Scope.mem_of_target hx, (Scope.target_resolves hx).1⟩,
      List.forall_mem_append.mpr ⟨Scope.permitted_target hx, hv⟩⟩
  | conditional test yes no extent span =>
    obtain ⟨c, _, y, n, hc, -, hy, hn, -⟩ := conditional_eq_ok h
    refine List.forall_mem_cons.mpr
      ⟨trivial, List.forall_mem_append.mpr ⟨permitted_expr test .none hc, ?_⟩⟩
    exact List.forall_mem_append.mpr
      ⟨permitted_expr yes hint.branch hy, permitted_expr no hint.branch hn⟩
  | cast operand written extent span =>
    obtain ⟨type, typed, -, ht, -⟩ := cast_eq_ok h
    exact List.forall_mem_cons.mpr ⟨trivial, permitted_expr operand (.of type) ht⟩
  | object props extent span =>
    obtain ⟨entries, he, -⟩ := object_eq_ok h
    exact List.forall_mem_cons.mpr (permitted_properties props hint.record? 0 he)
  | array items extent span =>
    rcases array_eq_ok h with ⟨declared, es, -, he, -⟩ | ⟨-, es, he, -⟩
    · exact List.forall_mem_cons.mpr
        ⟨trivial, permitted_elements items declared hint.elements he⟩
    · exact List.forall_mem_cons.mpr ⟨trivial, permitted_freeElements items he⟩
  | paren inner span =>
    obtain ⟨typed, ht, -⟩ := paren_eq_ok h
    exact List.forall_mem_cons.mpr ⟨trivial, permitted_expr inner hint ht⟩

theorem permitted_elements (items : List Expr) (declared : Ty) (site : Site) {es : List Typed}
    (h : elements scope declared site items = .ok es) :
    ∀ n ∈ Expr.allNodes items, n.Permitted scope.vars := by
  cases items with
  | nil => nofun
  | cons e rest =>
    obtain ⟨first, others, -, hf, ho⟩ := elements_eq_ok h
    exact List.forall_mem_append.mpr
      ⟨permitted_fitted (fitted_fitElement hf) fun _ => permitted_expr e _,
        permitted_elements rest declared site ho⟩

theorem permitted_freeElements (items : List Expr) {es : List Typed}
    (h : freeElements scope items = .ok es) :
    ∀ n ∈ Expr.allNodes items, n.Permitted scope.vars := by
  cases items with
  | nil => nofun
  | cons e rest =>
    obtain ⟨first, others, -, hf, ho⟩ := freeElements_eq_ok h
    exact List.forall_mem_append.mpr
      ⟨permitted_expr e .none hf, permitted_freeElements rest ho⟩

/-- An accepted property is permitted, and so is whatever it has inside. -/
theorem permitted_property (p : Property) (constraint : Option RecordTy) (order : Nat)
    {entry : Entry} (h : property scope constraint order p = .ok entry) :
    p.Permitted scope.vars ∧ ∀ n ∈ p.nodes, n.Permitted scope.vars := by
  cases p with
  | keyed key value span =>
    have hvalue label {v} (hv : fitPropertyValue constraint label value
        (expr scope (valueHint constraint label) value) = .ok v) :=
      permitted_fitted (fitted_fitPropertyValue hv) fun _ => permitted_expr value _
    cases key with
    | computed source place =>
      obtain ⟨k, v, hk, hv, -⟩ := computed_eq_ok h
      have hsource := permitted_fitted (fitted_fitPropertyKey hk) fun _ => permitted_expr source _
      refine ⟨?_, List.forall_mem_append.mpr ⟨hsource, hvalue _ hv⟩⟩
      intro text known span hb
      have hbare := hsource _ (Expr.bare_mem_nodes source)
      rw [hb] at hbare
      exact hbare
    | _ =>
      obtain ⟨k, v, -, hv, -⟩ := keyed_eq_ok h fun _ _ => Key.noConfusion
      exact ⟨trivial, hvalue _ hv⟩
  | shorthand name span =>
    obtain ⟨k, v, -, hv, -⟩ := shorthand_eq_ok h
    refine ⟨?_, nofun⟩
    have hvar := permitted_fitted (fitted_fitPropertyValue hv) fun _ ht =>
      List.forall_mem_singleton.mpr (Scope.exists_of_read ht)
    exact hvar _ (Expr.self_mem_nodes _)
  | spread source span =>
    obtain ⟨typed, place, types, ht, -⟩ := spread_eq_ok h
    exact ⟨trivial, permitted_expr source _ ht⟩
  | member form key span => cases h

theorem permitted_properties (props : List Property) (constraint : Option RecordTy) (order : Nat)
    {entries : List Entry} (h : properties scope constraint order props = .ok entries) :
    (∀ p ∈ props, p.Permitted scope.vars) ∧
      ∀ n ∈ Property.allNodes props, n.Permitted scope.vars := by
  cases props with
  | nil => exact ⟨nofun, nofun⟩
  | cons p rest =>
    obtain ⟨first, others, -, hf, ho⟩ := properties_eq_ok h
    obtain ⟨hp, hnodes⟩ := permitted_property p constraint order hf
    obtain ⟨hrest, hothers⟩ := permitted_properties rest constraint (order + 1) ho
    exact ⟨List.forall_mem_cons.mpr ⟨hp, hrest⟩, List.forall_mem_append.mpr ⟨hnodes, hothers⟩⟩

end

end Check

/-- A declaration and the local it declares: of the written type, or else of the type that its
initializer has. -/
def Declaration.Declares (d : Declaration) (i : Initializer) : Prop :=
  i.target.name = d.name ∧
    match d.type with
    | some written => written.resolve = .ok i.target.type
    | none => i.value.type = i.target.type

namespace Check

variable {scope scope' : Scope} {d : Declaration} {i : Initializer}

theorem declares_declaration (h : declaration scope d = .ok (i, scope')) : d.Declares i := by
  obtain ⟨⟨type, value⟩, hv, h⟩ := ok_of_bind h
  obtain ⟨⟨x, pushed⟩, hs, h⟩ := ok_of_bind h
  cases h
  unfold Scope.declare at hs
  split at hs
  · cases hs
  cases hs
  refine ⟨rfl, ?_⟩
  unfold declarationValue at hv
  split at hv
  · cases hv
  · next e ht hi =>
    obtain ⟨value, -, hv⟩ := ok_of_bind hv
    split at hv
    · cases hv
    · cases hv
      rw [ht]
  · next written ht =>
    rw [ht]
    split at hv
    · cases hv
    · next type hr =>
      split at hv
      · obtain ⟨value, -, hv⟩ := ok_of_bind hv
        cases hv
        exact hr
      · cases hv
        exact hr

theorem permitted_declaration {e : Expr} (h : declaration scope d = .ok (i, scope'))
    (he : d.initializer = some e) : ∀ n ∈ e.nodes, n.Permitted scope.vars := by
  obtain ⟨⟨type, value⟩, hv, -⟩ := ok_of_bind h
  unfold declarationValue at hv
  rw [he] at hv
  split at hv
  · next hi => cases hi
  · next hi =>
    cases hi
    obtain ⟨value, hv, -⟩ := ok_of_bind hv
    exact permitted_expr e .none hv
  · split at hv
    · cases hv
    · obtain ⟨value, hv, -⟩ := ok_of_bind hv
      exact permitted_fitted (fitted_fit hv) fun _ => permitted_expr e _

/-- The induction is on the declarations: those before them have put `scope.vars` in scope. -/
theorem permitted_declarations {ds : List Declaration} {is : List Initializer}
    (h : declarations scope ds = .ok (is, scope')) :
    List.Forall₂ Declaration.Declares ds is ∧
      ∀ (k : Nat) d e, ds[k]? = some d → d.initializer = some e →
        ∀ n ∈ e.nodes, n.Permitted (scope.vars ++ (is.take k).map (·.target)) := by
  induction ds generalizing scope is with
  | nil =>
    cases h
    exact ⟨.nil, nofun⟩
  | cons d rest ih =>
    obtain ⟨⟨first, after⟩, hf, h⟩ := ok_of_bind h
    obtain ⟨⟨others, last⟩, ho, h⟩ := ok_of_bind h
    cases h
    obtain ⟨hdeclares, hothers⟩ := ih ho
    refine ⟨.cons (declares_declaration hf) hdeclares, ?_⟩
    intro k d' e hk he
    cases k with
    | zero =>
      cases hk
      simpa using permitted_declaration hf he
    | succ k =>
      obtain ⟨-, -, -, hvars, -⟩ := @declaration_eq_ok false _ _ _ _ nofun hf
      have hrest := hothers k d' e hk he
      rw [hvars] at hrest
      simpa using hrest

end Check

/-- Every node of an accepted unit is permitted where it stands: in an initializer with the locals
that the declarations before it declare, in the body with all of them. -/
theorem accepted_nodes_permitted {u : SourceUnit} {t : TypedUnit} (h : Check.unit u = .ok t) :
    List.Forall₂ Declaration.Declares u.declarations t.initializers ∧
      (u.declarations.map (·.name)).Nodup ∧
      (∀ (k : Nat) d e, u.declarations[k]? = some d → d.initializer = some e →
        ∀ n ∈ e.nodes, n.Permitted ((t.initializers.take k).map (·.target))) ∧
      ∀ n ∈ u.body.nodes, n.Permitted (t.initializers.map (·.target)) := by
  have hw : t.WellTyped false := Check.wellTyped_unit nofun h
  have hnames := Check.names_unit h
  obtain ⟨⟨is, scope⟩, hi, h⟩ := ok_of_bind h
  obtain ⟨⟨typed, type⟩, hb, h⟩ := ok_of_bind h
  cases h
  obtain ⟨hdeclares, hinitializers⟩ := Check.permitted_declarations hi
  have hvars : scope.vars = is.map (·.target) := hw.locals
  refine ⟨hdeclares, ?_, by simpa [Scope.vars, Scope.empty] using hinitializers, ?_⟩
  · have hnodup := hw.initializers.nodup List.nodup_nil
    rw [← hvars] at hnodup
    rw [← hnames]
    simpa [Scope.vars, Function.comp_def] using hnodup
  · rw [← hvars]
    unfold Check.body at hb
    split at hb
    · obtain ⟨typed, ht, -⟩ := ok_of_bind hb
      exact Check.permitted_expr u.body .none ht
    · split at hb
      · cases hb
      · obtain ⟨typed, ht, -⟩ := ok_of_bind hb
        exact Check.permitted_fitted (Check.fitted_fit ht) fun _ => Check.permitted_expr u.body _

/-- `let n = 3; let total: long = n; {n, ["t" + (n)++]: (total) += -1, ...{s: total}}`, of which
each value is a `long`. -/
theorem totals_nodes_permitted :
    let o := Span.origin
    let n := Expr.var "n" o
    let total := Expr.var "total" o
    let key := Expr.ofBinary .add (.string "t" o) (.ofUpdate .increment false (.ofParen n))
    let body := Expr.ofObject [.shorthand "n" o,
      .ofKeyed (.ofComputed key) (.ofAssign .add (.ofParen total) (.ofUnary .minus (.int 1 o))),
      .ofSpread (.ofObject [.ofKeyed (.name "s" o) total])]
    let sums := TypeExpr.generic "Record" [.simple "String" o, .simple "long" o] o
    let u : SourceUnit := ⟨"totals", [⟨"n", o, none, some (.int 3 o), o⟩,
      ⟨"total", o, some (.simple "long" o), some n, o⟩], body, some sums⟩
    ∃ t, Check.unit u = .ok t ∧
      (∀ e ∈ n.nodes, e.Permitted [⟨"n", 0, .prim .int⟩]) ∧ body.nodes.length = 13 ∧
      ∀ e ∈ body.nodes, e.Permitted [⟨"n", 0, .prim .int⟩, ⟨"total", 1, .prim .long⟩] := by
  intro o n total key body sums u
  obtain ⟨t, ht, hlocals⟩ : ∃ t, Check.unit u = .ok t ∧
      t.initializers.map (·.target) = [⟨"n", 0, .prim .int⟩, ⟨"total", 1, .prim .long⟩] :=
    ⟨_, rfl, rfl⟩
  obtain ⟨-, -, hinitializers, hbody⟩ := accepted_nodes_permitted ht
  have htotal := hinitializers 1 _ n rfl rfl
  rw [List.map_take, hlocals] at htotal
  rw [hlocals] at hbody
  exact ⟨t, ht, htotal, rfl, hbody⟩

end StackExpr
