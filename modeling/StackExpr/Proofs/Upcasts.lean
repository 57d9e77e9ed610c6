import StackExpr.Proofs.Instances

/-! Checked expressions deliver values of their types, so what is kept as an `Object` comes back.

Only a `Character` that was taken for a number does not: its class is no class of numbers, and a
cast asks for the class. -/
namespace StackExpr

namespace Check

variable {vars : List Local} {e : Expr} {typed : Typed} {t : Ty} {site : Site} {label : String}
  {checked : Except CheckError Typed} {constraint : Option RecordTy}

theorem delivers_narrowed? (h : e.narrowed? t = some typed) :
    typed.Delivers vars ∧ typed.type.Passes t := by
  obtain ⟨k, c, -, h⟩ := Expr.narrowed?_eq_some h
  have hd : (Typed.constant c ⟨.prim k, e.span⟩).Delivers vars := Typed.delivers_constant trivial
  rcases h with ⟨rfl, rfl⟩ | ⟨rfl, rfl⟩
  · exact ⟨hd, .refl _⟩
  · exact ⟨hd.keeps.delivers_step Ty.noConfusion, .refl _⟩

/-- What is fitted to a place passes to its type. -/
theorem delivers_fit (hc : ∀ typed, checked = .ok typed → typed.Delivers vars)
    (h : fit e t site checked = .ok typed) : typed.Delivers vars ∧ typed.type.Passes t := by
  rcases fit_eq_ok h with hn | ⟨-, first, hf, ha⟩
  · exact delivers_narrowed? hn
  · exact (hc first hf).assignTo? ha

theorem keeps_fitPropertyKey (hc : ∀ typed, checked = .ok typed → typed.Delivers vars)
    (h : fitPropertyKey constraint label e checked = .ok typed) : typed.Keeps vars := by
  cases constraint with
  | some c => exact (delivers_fit hc (fitKey_eq_ok h)).1.keeps
  | none =>
    obtain ⟨first, hf, h⟩ := ok_of_bind h
    cases h
    exact (hc first hf).stringified.keeps

theorem keeps_fitPropertyValue (hc : ∀ typed, checked = .ok typed → typed.Delivers vars)
    (h : fitPropertyValue constraint label e checked = .ok typed) : typed.Keeps vars := by
  cases constraint with
  | some c =>
    rcases fitValue_eq_ok h with hf | ⟨_, _, extent, _, first, -, -, hf, rfl⟩
    · exact (delivers_fit hc hf).1.keeps
    · exact ((hc first hf).moveTo extent).keeps
  | none =>
    obtain ⟨first, hf, h⟩ := ok_of_bind h
    cases h
    exact (hc first hf).boxed.keeps

end Check

/-- A declared variable delivers what it holds. -/
theorem Scope.delivers_read {scope : Scope} {name : String} {span : Span} {typed : Typed}
    (h : scope.read name span = .ok typed) : typed.Delivers scope.vars := by
  obtain ⟨found, hf, rfl⟩ := Check.read_eq_ok h
  exact Typed.delivers_read (mem_of_find? hf)

mutual

/-- What an expression is checked to delivers values of its type. -/
theorem Check.delivers_expr {scope : Scope} (e : Expr) (hint : Hint) {typed : Typed}
    (h : Check.expr scope hint e = .ok typed) : typed.Delivers scope.vars := by
  cases e with
  | int value span =>
    cases h
    exact Typed.delivers_ofWhole value span
  | float value span =>
    cases h
    exact Typed.delivers_constant trivial
  | string value span =>
    cases h
    exact Typed.delivers_constant (.inl rfl)
  | boolean value span =>
    cases h
    exact Typed.delivers_constant trivial
  | null span =>
    cases h
    exact Typed.delivers_constant rfl
  | var name span => exact Scope.delivers_read h
  | binary op left right extent span =>
    obtain ⟨-, l, r, hl, hr, h⟩ := Check.binary_eq_ok h
    exact Typed.delivers_ofBinary (Check.delivers_expr left .none hl)
      (Check.delivers_expr right .none hr) h
  | unary op operand extent span =>
    obtain ⟨-, e, he, h⟩ := Check.unary_eq_ok h
    exact Typed.delivers_ofUnary (Check.delivers_expr operand .none he) h
  | update op before target extent span =>
    obtain ⟨x, hx, h⟩ := Check.update_eq_ok h
    exact Typed.delivers_ofUpdate (Scope.mem_of_target hx) h
  | assign op target value extent span =>
    obtain ⟨x, hx, h⟩ := Check.assign_eq_ok h
    have hx := Scope.mem_of_target hx
    rcases h with ⟨-, v, hv, rfl⟩ | ⟨-, binary, v, -, hv, h⟩
    · obtain ⟨hd, hp⟩ := Check.delivers_fit (fun _ => Check.delivers_expr value (.of x.type)) hv
      exact Typed.delivers_assign hx hd hp
    · exact Typed.delivers_ofCompound hx (Check.delivers_expr value .none hv) h
  | conditional test yes no extent span =>
    obtain ⟨first, t, y, n, hfirst, ht, hy, hn, h⟩ := Check.conditional_eq_ok h
    have hkt := Typed.keeps_ofTest (Check.delivers_expr test .none hfirst) ht
    exact Typed.delivers_ofBranches hkt (Check.delivers_expr yes hint.branch hy)
      (Check.delivers_expr no hint.branch hn) h
  | cast operand target extent span =>
    obtain ⟨type, e, ht, he, h⟩ := Check.cast_eq_ok h
    exact Typed.delivers_ofCast (Check.delivers_expr operand (.of type) he)
      (TypeExpr.resolve_ne_null ht) h
  | object props extent span =>
    obtain ⟨entries, he, rfl⟩ := Check.object_eq_ok h
    exact Typed.delivers_record (Check.keeps_properties props hint.record? 0 he)
  | array items extent span =>
    rcases Check.array_eq_ok h with ⟨declared, es, -, he, rfl⟩ | ⟨-, es, he, rfl⟩
    · exact Typed.delivers_list (Check.keeps_elements items declared hint.elements he)
    · exact Typed.delivers_list (Check.keeps_freeElements items he)
  | symbol description extent span => cases h
  | paren inner span =>
    obtain ⟨first, hi, rfl⟩ := Check.paren_eq_ok h
    exact (Check.delivers_expr inner hint hi).moveTo span

theorem Check.keeps_elements {scope : Scope} (items : List Expr) (declared : Ty) (site : Site)
    {es : List Typed} (h : Check.elements scope declared site items = .ok es) :
    ∀ item ∈ es, item.Keeps scope.vars := by
  cases items with
  | nil =>
    cases h
    nofun
  | cons e rest =>
    obtain ⟨first, others, rfl, hf, ho⟩ := Check.elements_eq_ok h
    have hfirst := Check.delivers_fit
      (fun _ => Check.delivers_expr e (.of declared.storage)) (Check.fitElement_eq_ok hf)
    exact List.forall_mem_cons.mpr
      ⟨hfirst.1.keeps, Check.keeps_elements rest declared site ho⟩

theorem Check.keeps_freeElements {scope : Scope} (items : List Expr) {es : List Typed}
    (h : Check.freeElements scope items = .ok es) : ∀ item ∈ es, item.Keeps scope.vars := by
  cases items with
  | nil =>
    cases h
    nofun
  | cons e rest =>
    obtain ⟨first, others, rfl, hf, ho⟩ := Check.freeElements_eq_ok h
    exact List.forall_mem_cons.mpr
      ⟨(Check.delivers_expr e .none hf).boxed.keeps, Check.keeps_freeElements rest ho⟩

theorem Check.keeps_property {scope : Scope} (p : Property) (constraint : Option RecordTy)
    (order : Nat) {entry : Entry} (h : Check.property scope constraint order p = .ok entry) :
    entry.Keeps scope.vars := by
  cases p with
  | keyed key value span =>
    have hvalue label {v} (hv : Check.fitPropertyValue constraint label value
        (Check.expr scope (Check.valueHint constraint label) value) = .ok v) :=
      Check.keeps_fitPropertyValue
        (fun _ => Check.delivers_expr value (Check.valueHint constraint label)) hv
    cases key with
    | computed source keySpan =>
      obtain ⟨k, v, hk, hv, rfl⟩ := Check.computed_eq_ok h
      have hkey := Check.keeps_fitPropertyKey
        (fun _ => Check.delivers_expr source (Check.keyHint constraint)) hk
      exact Entry.keeps_computed hkey (hvalue _ hv)
    | _ =>
      obtain ⟨k, v, -, hv, rfl⟩ := Check.keyed_eq_ok h fun _ _ => Key.noConfusion
      exact Entry.keeps_fixed (hvalue _ hv)
  | shorthand name span =>
    obtain ⟨k, v, -, hv, rfl⟩ := Check.shorthand_eq_ok h
    exact Entry.keeps_fixed (Check.keeps_fitPropertyValue (fun _ => Scope.delivers_read) hv)
  | spread source span =>
    obtain ⟨first, place, types, hf, -, rfl⟩ := Check.spread_eq_ok h
    have hd := Check.delivers_expr source (Check.spreadHint constraint source) hf
    exact Entry.keeps_spread (hd.moveTo place).keeps
  | member form key span => cases h

theorem Check.keeps_properties {scope : Scope} (props : List Property)
    (constraint : Option RecordTy) (order : Nat) {entries : List Entry}
    (h : Check.properties scope constraint order props = .ok entries) :
    ∀ entry ∈ entries, entry.Keeps scope.vars := by
  cases props with
  | nil =>
    cases h
    nofun
  | cons p rest =>
    obtain ⟨first, others, rfl, hf, ho⟩ := Check.properties_eq_ok h
    exact List.forall_mem_cons.mpr ⟨Check.keeps_property p constraint order hf,
      Check.keeps_properties rest constraint (order + 1) ho⟩

end

theorem Bindings.lookup_eq_none {b : Bindings} {name : String} (h : name ∉ b.map (·.1)) :
    b.lookup name = none := by
  rw [List.lookup_eq_none_iff]
  exact fun p hp => bne_iff_ne.mpr fun he => h (List.mem_map.mpr ⟨p, hp, he.symm⟩)

/-- A new variable holds what belongs to its type. -/
theorem EvalState.Holds.declare {vars : List Local} {st : EvalState} {x : Local} {v : Value}
    (h : st.Holds vars) (hx : x.name ∉ vars.map (·.name)) (hv : v.Belongs x.type) :
    EvalState.Holds (vars ++ [x]) { st with bindings := st.bindings ++ [(x.name, v)] } := by
  refine ⟨?_, by simp [h.names], fun y hy w hl => ?_⟩
  · rw [List.map_append]
    exact h.unique.append (List.nodup_singleton _) (by simpa using hx)
  · rw [List.lookup_append] at hl
    rcases List.mem_append.mp hy with hy | hy
    · have hne : y.name ≠ x.name := fun he => hx (he ▸ List.mem_map_of_mem hy)
      rw [List.lookup_cons, beq_false_of_ne hne, List.lookup_nil, Option.or_none] at hl
      exact h.values y hy w hl
    · obtain rfl := List.mem_singleton.mp hy
      rw [← h.names] at hx
      rw [Bindings.lookup_eq_none hx, Option.none_or, List.lookup_cons_self] at hl
      exact Option.some.inj hl ▸ hv

namespace Scope

variable {scope scope' : Scope} {name : String} {t : Ty} {span : Span} {x : Local}

theorem find?_eq_none (h : name ∉ scope.vars.map (·.name)) : scope.find? name = none := by
  simpa [find?, vars] using h

/-- A declaration needs a new name and takes the next slot. -/
theorem declare_eq_ok (h : scope.declare name t span = .ok (x, scope')) :
    x.name ∉ scope.vars.map (·.name) ∧ x = ⟨name, scope.nextSlot, t⟩ ∧
      scope' = scope.push name t span := by
  unfold declare at h
  split at h
  · cases h
  · next hn =>
    cases h
    exact ⟨by simpa [find?, vars] using hn, rfl, rfl⟩

theorem declare_of_notMem (h : name ∉ scope.vars.map (·.name)) :
    scope.declare name t span = .ok (⟨name, scope.nextSlot, t⟩, scope.push name t span) := by
  rw [declare, find?_eq_none h]

@[simp] theorem vars_push :
    (scope.push name t span).vars = scope.vars ++ [⟨name, scope.nextSlot, t⟩] := by
  simp [vars, push]

theorem read_push (h : name ∉ scope.vars.map (·.name)) (span' : Span) :
    (scope.push name t span).read name span' =
      .ok (.read ⟨name, scope.nextSlot, t⟩ ⟨t, span'⟩) := by
  have hf : (scope.push name t span).find? name = some ⟨⟨name, scope.nextSlot, t⟩, span⟩ := by
    have hn : scope.locals.find? (·.name == name) = none := find?_eq_none h
    simp [push, find?, List.find?_append, hn]
  rw [read, lookup, hf]

end Scope

theorem Constant.belongs_zero (t : Ty) : (zero t).value.Belongs t := by
  cases t with
  | prim k => trivial
  | _ => exact Value.belongs_null _

namespace Check

variable {scope scope' : Scope} {d : Declaration} {u : SourceUnit} {typed : Typed} {t : Ty}

theorem delivers_declarationValue (h : declarationValue scope d = .ok (t, typed)) :
    typed.Delivers scope.vars ∧ typed.type.Passes t := by
  unfold declarationValue at h
  split at h
  · cases h
  · obtain ⟨value, hv, h⟩ := ok_of_bind h
    split at h
    · cases h
    · cases h
      exact ⟨delivers_expr _ _ hv, .refl _⟩
  · split at h
    · cases h
    · split at h
      · obtain ⟨value, hv, h⟩ := ok_of_bind h
        cases h
        exact delivers_fit (fun _ => delivers_expr _ _) hv
      · cases h
        exact ⟨Typed.delivers_constant (Constant.belongs_zero t), .refl _⟩

theorem delivers_body {e : Expr} {returns : Option TypeExpr}
    (h : body scope e returns = .ok (typed, t)) :
    typed.Delivers scope.vars ∧ typed.type.Passes t := by
  unfold body at h
  split at h
  · obtain ⟨value, hv, h⟩ := ok_of_bind h
    cases h
    exact ⟨delivers_expr _ _ hv, .refl _⟩
  · split at h
    · cases h
    · obtain ⟨value, hv, h⟩ := ok_of_bind h
      cases h
      exact delivers_fit (fun _ => delivers_expr _ _) hv

/-- After its declarations a unit holds in each variable what belongs there. -/
theorem holds_declarations {ds : List Declaration} {is : List Initializer} {st st' : EvalState}
    {a : Unit} (h : declarations scope ds = .ok (is, scope')) (hst : st.Holds scope.vars)
    (he : Initializer.evalAll is st = .ok (a, st')) : st'.Holds scope'.vars := by
  induction ds generalizing scope is st with
  | nil =>
    cases h
    cases he
    exact hst
  | cons d rest ih =>
    obtain ⟨⟨first, after⟩, hf, h⟩ := ok_of_bind h
    obtain ⟨⟨others, last⟩, ho, h⟩ := ok_of_bind h
    cases h
    obtain ⟨v, st₁, hv, he⟩ := Eval.ok_of_bind he
    obtain ⟨_, st₂, hd, he⟩ := Eval.ok_of_bind he
    cases hd
    refine ih ho ?_ he
    obtain ⟨⟨type, value⟩, hvalue, hf⟩ := ok_of_bind hf
    obtain ⟨⟨x, pushed⟩, hx, hf⟩ := ok_of_bind hf
    cases hf
    obtain ⟨hd, hp⟩ := delivers_declarationValue hvalue
    obtain ⟨hbelongs, hst₁⟩ := hd st v st₁ hst hv
    obtain ⟨hnew, rfl, rfl⟩ := Scope.declare_eq_ok hx
    rw [Scope.vars_push]
    exact hst₁.declare hnew (hp v hbelongs)

/-- The value of a unit belongs to its result type. -/
theorem belongs_unit {unit : TypedUnit} {v : Value} {st : EvalState} (h : Check.unit u = .ok unit)
    (he : unit.eval = .ok (v, st)) :
    v.Belongs unit.resultType ∧ st.Holds (unit.locals.map (·.toLocal)) := by
  obtain ⟨⟨is, scope⟩, hi, h⟩ := ok_of_bind h
  obtain ⟨⟨typed, t⟩, hb, h⟩ := ok_of_bind h
  cases h
  obtain ⟨_, st₁, hinit, hbody⟩ := Eval.ok_of_bind he
  have hstart : EvalState.start.Holds Scope.empty.vars := ⟨List.nodup_nil, rfl, nofun⟩
  have hst₁ := holds_declarations hi hstart hinit
  obtain ⟨hd, hp⟩ := delivers_body hb
  obtain ⟨hv, hst⟩ := hd st₁ v st hst₁ hbody
  exact ⟨hp v hv, hst⟩

end Check

/-- A reference is an instance of the class of its type, a `Character` taken for a number apart. -/
theorem Value.Belongs.isInstance_iff {v : Value} {t : Ty} (h : v.Belongs t)
    (hp : t.isPrimitive = false) :
    v.isInstance t.className = true ↔ ¬(t = .number ∧ v.isCharacter = true) := by
  constructor
  · rintro hi ⟨rfl, hc⟩
    cases v with
    | boxed w =>
      cases w with
      | char c => cases hi
      | _ => cases hc
    | _ => cases hc
  · intro hn
    cases t with
    | prim k => cases hp
    | null =>
      subst h
      rfl
    | _ => exact h.resolve_right hn

theorem Value.checkCast_eq_ok {v : Value} {cls : String} :
    v.checkCast cls = .ok () ↔ v.isInstance cls = true := by
  unfold checkCast
  split
  · next h => simp [h]
  · next h =>
    split <;> simp [h]

theorem Ty.isPrimitive_of_isSubtype {t t' : Ty} (hp : t.isPrimitive = false)
    (h : t.isSubtype t' = true) : t'.isPrimitive = false := by
  cases t' with
  | prim k =>
    cases t with
    | prim j => cases hp
    | _ => cases h
  | _ => rfl

/-- A unit that keeps its value in a variable, hands it to one of type `Object` and casts it
back. -/
def SourceUnit.viaObject (u : SourceUnit) (x o : String) (written : TypeExpr) : SourceUnit :=
  let s := Span.origin
  ⟨u.name, u.declarations ++ [⟨x, s, u.returns, some u.body, s⟩,
    ⟨o, s, some (.simple "Object" s), some (.var x s), s⟩], .ofCast (.var o s) written, none⟩

namespace Ty

variable {t : Ty}

theorem assign?_any (h : t.isPrimitive = false) : t.assign? .any = some [] := by
  cases t with
  | prim k => cases h
  | _ => rfl

/-- The steps from `Object` back to a type. -/
def fromAny (t : Ty) : List Conversion := if t = .any then [] else [.checkCast t]

/-- From `Object` a reference type is one check away. -/
theorem cast?_any (h : t.isPrimitive = false) : Ty.any.cast? t = some t.fromAny := by
  cases t with
  | prim k => cases h
  | _ => rfl

end Ty

namespace Check

variable {scope scope' scope'' : Scope} {e : Expr} {typed : Typed} {t : Ty} {site site' : Site}
  {checked : Except CheckError Typed} {ds ds' : List Declaration} {is is' : List Initializer}
  {returns : Option TypeExpr} {name : String} {span span' : Span}

/-- Whom a value answers to matters only if it does not fit. -/
theorem fit_of_fit (h : fit e t site checked = .ok typed) : fit e t site' checked = .ok typed := by
  unfold fit at h ⊢
  cases hn : e.narrowed? t with
  | some constant => rwa [hn] at h
  | none =>
    rw [hn] at h
    obtain ⟨first, rfl, hfits⟩ := ok_of_bind h
    simp only [bind, Except.bind]
    cases ha : first.assignTo? t with
    | some converted => rwa [ha] at hfits
    | none =>
      rw [ha] at hfits
      cases hfits

/-- What can be the body of a unit can be kept in a variable, unless it is just `null`. -/
theorem declarationValue_of_body (hn : t ≠ .null) (h : body scope e returns = .ok (typed, t)) :
    declarationValue scope ⟨name, span, returns, some e, span'⟩ = .ok (t, typed) := by
  cases returns with
  | none =>
    obtain ⟨value, hv, h⟩ := ok_of_bind h
    cases h
    have hnull : typed.type.isNull = false := by simpa [Ty.isNull] using hn
    simp only [declarationValue, hv, bind, Except.bind, hnull]
    rfl
  | some written =>
    simp only [body] at h
    split at h
    · cases h
    · next hw =>
      obtain ⟨value, hv, h⟩ := ok_of_bind h
      cases h
      have hfit : exprTo scope t (.place (.initializer name)) e = .ok typed := fit_of_fit hv
      simp only [declarationValue, hw, hfit, bind, Except.bind]
      rfl

/-- A variable of a reference type is handed to one of type `Object` as it is. -/
theorem declarationValue_object {x : String} {var : Local} (hp : var.type.isPrimitive = false)
    (hx : scope.read x span = .ok (.read var ⟨var.type, span⟩)) :
    declarationValue scope ⟨name, span, some (.simple "Object" span), some (.var x span), span⟩ =
      .ok (.any, .read var ⟨var.type, span⟩) := by
  have ha : (Typed.read var ⟨var.type, span⟩).assignTo? .any =
      some (.read var ⟨var.type, span⟩) := by
    rw [Typed.assignTo?, show (Typed.read var ⟨var.type, span⟩).type = var.type from rfl,
      Ty.assign?_any hp]
    rfl
  have hfit : exprTo scope .any (.place (.initializer name)) (.var x span) =
      .ok (.read var ⟨var.type, span⟩) := by
    rw [exprTo, fit, expr, hx]
    simp only [Expr.narrowed?, Ty.kind?, bind, Option.bind, Except.bind, ha]
    rfl
  have hw : (TypeExpr.simple "Object" span).resolve = .ok .any := rfl
  simp only [declarationValue, hw, hfit, bind, Except.bind]
  rfl

theorem declaration_of_value {d : Declaration} (h : declarationValue scope d = .ok (t, typed))
    (hd : d.name ∉ scope.vars.map (·.name)) :
    declaration scope d =
      .ok (⟨⟨d.name, scope.nextSlot, t⟩, typed⟩, scope.push d.name t d.nameSpan) := by
  rw [declaration, h]
  simp only [bind, Except.bind, Scope.declare_of_notMem hd]
  rfl

/-- A cast from `Object` to a reference type leaves no more than a check of the class. -/
theorem body_fromAny {o : String} {var : Local} {written : TypeExpr} (hp : t.isPrimitive = false)
    (hw : written.resolve = .ok t) (ho : scope.read o span = .ok (.read var ⟨.any, span⟩)) :
    body scope (.cast (.var o span) written span span) none =
      .ok (((Typed.read var ⟨.any, span⟩).through t.fromAny).withTag ⟨t, span⟩, t) := by
  have hc : Typed.ofCast (.read var ⟨.any, span⟩) t span =
      .ok (((Typed.read var ⟨.any, span⟩).through t.fromAny).withTag ⟨t, span⟩) := by
    rw [Typed.ofCast, show (Typed.read var ⟨.any, span⟩).type = .any from rfl, Ty.cast?_any hp]
  simp only [body, expr, hw, ho, bind, Except.bind, hc, pure, Except.pure, Typed.type_withTag]

theorem declarations_cons {d : Declaration} {i : Initializer}
    (h : declaration scope d = .ok (i, scope')) (h' : declarations scope' ds = .ok (is, scope'')) :
    declarations scope (d :: ds) = .ok (i :: is, scope'') := by
  rw [declarations, h]
  simp only [bind, Except.bind, h']
  rfl

theorem declarations_append (h : declarations scope ds = .ok (is, scope'))
    (h' : declarations scope' ds' = .ok (is', scope'')) :
    declarations scope (ds ++ ds') = .ok (is ++ is', scope'') := by
  induction ds generalizing scope is with
  | nil =>
    cases h
    exact h'
  | cons d rest ih =>
    obtain ⟨⟨first, after⟩, hf, h⟩ := ok_of_bind h
    obtain ⟨⟨others, last⟩, ho, h⟩ := ok_of_bind h
    cases h
    exact declarations_cons hf (ih ho)

theorem unit_of_parts {u : SourceUnit} (hi : declarations .empty u.declarations = .ok (is, scope))
    (hb : body scope u.body u.returns = .ok (typed, t)) :
    Check.unit u = .ok ⟨u.name, scope.locals, is, typed, t, scope.nextSlot⟩ := by
  rw [Check.unit, hi]
  simp only [bind, Except.bind, hb]
  rfl

end Check

namespace Eval

theorem lookup_append {b : Bindings} {s : Store} {name : String} {v : Value}
    (h : name ∉ b.map (·.1)) :
    lookup name ⟨b ++ [(name, v)], s⟩ = .ok (v, ⟨b ++ [(name, v)], s⟩) := by
  simp only [lookup, List.lookup_append, Bindings.lookup_eq_none h, List.lookup_cons_self,
    Option.none_or]

end Eval

theorem Initializer.evalAll_append {is is' : List Initializer} {st st' : EvalState} {a : Unit}
    (h : evalAll is st = .ok (a, st')) : evalAll (is ++ is') st = evalAll is' st' := by
  induction is generalizing st with
  | nil =>
    cases h
    rfl
  | cons i rest ih =>
    obtain ⟨v, st₁, hv, h⟩ := Eval.ok_of_bind h
    obtain ⟨_, st₂, hd, h⟩ := Eval.ok_of_bind h
    rw [List.cons_append, evalAll, Eval.bind_of_ok hv, Eval.bind_of_ok hd]
    exact ih h

/-- Casting back from `Object` asks for the class of the type and for nothing else. -/
theorem Typed.eval_fromAny {t : Ty} {var : Local} {span : Span} {st : EvalState} {v : Value}
    (h : Eval.lookup var.name st = .ok (v, st)) :
    (((Typed.read var ⟨.any, span⟩).through t.fromAny).withTag ⟨t, span⟩).eval st =
      if v.isInstance t.className then .ok (v, st) else .error .classCast := by
  rw [eval_withTag, Ty.fromAny]
  split
  · next ht =>
    subst ht
    rw [if_pos (show v.isInstance Ty.any.className = true from v.isInstance_object)]
    exact h
  · have hread : (Typed.read var ⟨.any, span⟩).eval st = .ok (v, st) := h
    change (do let v ← (Typed.read var ⟨.any, span⟩).eval
               Eval.lift ((Conversion.checkCast t).convert (← Eval.getStore) v) : Eval Value) st = _
    have hstore : Eval.getStore st = .ok (st.store, st) := rfl
    rw [Eval.bind_of_ok hread, Eval.bind_of_ok hstore, Conversion.convert]
    split <;> rfl

/-- Both variables are declared after those of the unit, and the cast is left to be checked. -/
theorem Check.unit_viaObject {u : SourceUnit} {t : TypedUnit} {x o : String} {written : TypeExpr}
    (h : Check.unit u = .ok t) (hw : written.resolve = .ok t.resultType)
    (hp : t.resultType.isPrimitive = false) (hx : x ∉ u.declarations.map (·.name))
    (ho : o ∉ u.declarations.map (·.name)) (hne : x ≠ o) :
    ∃ (kept object : Local) (t' : TypedUnit), kept.name = x ∧ object.name = o ∧
      Check.unit (u.viaObject x o written) = .ok t' ∧ t'.resultType = t.resultType ∧
      t'.initializers = t.initializers ++
        [⟨kept, t.body⟩, ⟨object, .read kept ⟨t.resultType, .origin⟩⟩] ∧
      t'.body = ((Typed.read object ⟨.any, .origin⟩).through t.resultType.fromAny).withTag
        ⟨t.resultType, .origin⟩ := by
  obtain ⟨⟨is, scope⟩, hi, hrest⟩ := ok_of_bind h
  obtain ⟨⟨typed, type⟩, hb, hrest⟩ := ok_of_bind hrest
  cases hrest
  have hnames : scope.vars.map (·.name) = u.declarations.map (·.name) := by
    rw [← names_unit h]
    exact List.map_map ..
  rw [← hnames] at hx ho
  have hnew : o ∉ (scope.push x type .origin).vars.map (·.name) := by
    rw [Scope.vars_push, List.map_append, List.mem_append, not_or]
    exact ⟨ho, by simpa using hne.symm⟩
  have hkept : declaration scope ⟨x, .origin, u.returns, some u.body, .origin⟩ =
      .ok (⟨⟨x, scope.nextSlot, type⟩, typed⟩, scope.push x type .origin) :=
    declaration_of_value (declarationValue_of_body (TypeExpr.resolve_ne_null hw) hb) hx
  have hgiven := declaration_of_value (declarationValue_object hp (Scope.read_push hx .origin)) hnew
  have hnone (scope : Scope) : declarations scope [] = .ok ([], scope) := rfl
  have hall := declarations_append hi
    (declarations_cons hkept (declarations_cons hgiven (hnone _)))
  exact ⟨_, _, _, rfl, rfl, unit_of_parts hall (body_fromAny hp hw (Scope.read_push hnew .origin)),
    rfl, rfl, rfl⟩

/-- The value is kept twice and comes back, if its class allows it. -/
theorem TypedUnit.eval_viaObject {t t' : TypedUnit} {kept object : Local} {type : Ty} {span : Span}
    {v : Value} {st : EvalState}
    (hi : t'.initializers = t.initializers ++
      [⟨kept, t.body⟩, ⟨object, .read kept ⟨type, span⟩⟩])
    (hb : t'.body = ((Typed.read object ⟨.any, span⟩).through type.fromAny).withTag ⟨type, span⟩)
    (he : t.eval = .ok (v, st)) (hkept : kept.name ∉ st.bindings.map (·.1))
    (hobject : object.name ∉ st.bindings.map (·.1)) (hne : kept.name ≠ object.name) :
    t'.eval =
      if v.isInstance type.className then
        .ok (v, { st with bindings := st.bindings ++ [(kept.name, v), (object.name, v)] })
      else .error .classCast := by
  obtain ⟨_, st₁, hinit, hbody⟩ := Eval.ok_of_bind he
  have hread : (Typed.read kept ⟨type, span⟩).eval ⟨st.bindings ++ [(kept.name, v)], st.store⟩ =
      .ok (v, ⟨st.bindings ++ [(kept.name, v)], st.store⟩) := Eval.lookup_append hkept
  have hinits : Initializer.evalAll t'.initializers .start =
      .ok ((), ⟨st.bindings ++ [(kept.name, v)] ++ [(object.name, v)], st.store⟩) := by
    rw [hi, Initializer.evalAll_append hinit, Initializer.evalAll, Eval.bind_of_ok hbody,
      Eval.bind_of_ok rfl, Initializer.evalAll]
    exact Eval.bind_of_ok hread
  have hnew : object.name ∉ (st.bindings ++ [(kept.name, v)]).map (·.1) := by
    rw [List.map_append, List.mem_append, not_or]
    exact ⟨hobject, by simpa using hne.symm⟩
  change (Initializer.evalAll t'.initializers >>= fun _ => t'.body.eval) .start = _
  rw [Eval.bind_of_ok hinits, hb, Typed.eval_fromAny (Eval.lookup_append hnew),
    List.append_assoc]
  rfl

/-- A run that ends with a result is one of an evaluation that does. -/
theorem TypedUnit.eval_of_answers {t : TypedUnit} {o : Options} {r : Execution} (ho : o.Known)
    (ht : t.WellTyped false) (hr : (t.sequence o).Answers (.ok r)) :
    ∃ st, t.eval = .ok (r.result, st) ∧ st.bindings = r.locals ∧ r.store.Alike st.store := by
  have hrun := answers_sequence ho ht
  cases he : t.eval with
  | error k =>
    rw [he] at hrun
    obtain ⟨f, hf, -⟩ := hrun
    cases hf.unique hr
  | ok p =>
    obtain ⟨v, st⟩ := p
    rw [he] at hrun
    obtain ⟨store, hstore, halike⟩ := hrun
    cases hr.unique hstore
    exact ⟨st, rfl, rfl, halike⟩

section compiled

variable {u : SourceUnit} {c : Compiled} {r : Execution}

/-- A value of a reference type that is kept as an `Object` is cast back to itself, unless its type
is `Number` and it is a `Character`: then the cast is refused. The class of any type above the
value's own accepts it with the same exception. -/
theorem casts_back_from_object (h : compile .default u = .ok c) (hr : c.sequence.Answers (.ok r))
    (hp : c.resultType.isPrimitive = false) :
    (∀ x o written, x ∉ u.declarations.map (·.name) → o ∉ u.declarations.map (·.name) → x ≠ o →
      TypeExpr.resolve written = .ok c.resultType →
      ∃ c' a, compile .default (u.viaObject x o written) = .ok c' ∧
        c'.resultType = c.resultType ∧ c'.sequence.Answers a ∧
        if c.resultType = .number ∧ r.result.isCharacter = true then
          ∃ f, a = .error f ∧ f.fault.kind = .classCast
        else
          ∃ r', a = .ok r' ∧ r'.result = r.result ∧
            r'.locals = r.locals ++ [(x, r.result), (o, r.result)] ∧ r'.store.Alike r.store) ∧
    ∀ t, c.resultType.isSubtype t = true →
      (r.result.checkCast t.className = .ok () ↔ ¬(t = .number ∧ r.result.isCharacter = true)) := by
  obtain ⟨t, ht, rfl⟩ := compile_eq_ok h
  obtain ⟨st, he, hlocals, halike⟩ :=
    TypedUnit.eval_of_answers Options.known_default (Check.wellTyped_unit nofun ht) hr
  obtain ⟨hv, hst⟩ := Check.belongs_unit ht he
  have hnames : st.bindings.map (·.1) = u.declarations.map (·.name) := by
    rw [hst.names, ← Check.names_unit ht]
    exact List.map_map ..
  refine ⟨fun x o written hx ho hne hw => ?_, fun type hs => ?_⟩
  · obtain ⟨kept, object, t', rfl, rfl, ht', htype, hi, hb⟩ :=
      Check.unit_viaObject ht hw hp hx ho hne
    have he' := TypedUnit.eval_viaObject hi hb he (hnames ▸ hx) (hnames ▸ ho) hne
    have hrun := TypedUnit.answers_sequence Options.known_default (Check.wellTyped_unit nofun ht')
    rw [he'] at hrun
    -- the cast asks for the class of the type, which every value that belongs to it has but one
    by_cases hc : t.resultType = .number ∧ r.result.isCharacter = true
    · rw [if_neg fun hi => (hv.isInstance_iff hp).mp hi hc] at hrun
      obtain ⟨f, hf, hk⟩ := hrun
      refine ⟨_, _, compile_of_check ht', htype, hf, ?_⟩
      rw [if_pos hc]
      exact ⟨f, rfl, hk⟩
    · rw [if_pos ((hv.isInstance_iff hp).mpr hc)] at hrun
      obtain ⟨store, hstore, halike'⟩ := hrun
      refine ⟨_, _, compile_of_check ht', htype, hstore, ?_⟩
      rw [if_neg hc]
      refine ⟨_, rfl, rfl, by rw [hlocals], ?_⟩
      exact ⟨halike'.maps.trans halike.maps.symm, halike'.lists.trans halike.lists.symm⟩
  · rw [Value.checkCast_eq_ok]
    exact (hv.of_isSubtype hs).isInstance_iff (Ty.isPrimitive_of_isSubtype hp hs)

theorem tally_casts_back :
    let o := Span.origin
    let counts := TypeExpr.generic "Record" [.simple "String" o, .simple "int" o] o
    ∃ c r c' r', compile .default tally = .ok c ∧ c.sequence.Answers (.ok r) ∧
      r.result = .map 1 ∧ r.result.checkCast (Ty.record .any .any).className = .ok () ∧
      compile .default (tally.viaObject "kept" "object" counts) = .ok c' ∧
      c'.sequence.Answers (.ok r') ∧ r'.result = .map 1 := by
  intro o counts
  obtain ⟨c, r, hc, htype, hr, hresult⟩ := answers_tally
  obtain ⟨hback, hcast⟩ := casts_back_from_object hc hr (by rw [htype]; rfl)
  obtain ⟨c', a, hc', -, ha, hends⟩ := hback "kept" "object" counts (by decide) (by decide)
    (by decide) (by rw [htype]; rfl)
  rw [htype, if_neg (by simp [Ty.number])] at hends
  obtain ⟨r', rfl, hresult', -⟩ := hends
  have hclass := (hcast (.record .any .any) (by rw [htype]; rfl)).mpr (by simp [Ty.number])
  exact ⟨c, r, c', r', hc, hr, hresult, hclass, hc', ha, hresult'.trans hresult⟩

/-- `let c: char = "A"; let n: Number = c; let o: Object = n; n` -/
def letter : SourceUnit :=
  let s := Span.origin
  ⟨"letter", [⟨"c", s, some (.simple "char" s), some (.string "A" s), s⟩,
    ⟨"n", s, some (.simple "Number" s), some (.var "c" s), s⟩,
    ⟨"o", s, some (.simple "Object" s), some (.var "n" s), s⟩], .var "n" s, none⟩

/-- A `Character` may be a `Number`, but what is known only as an `Object` may not become one. -/
theorem letter_cast_refused :
    let back := Expr.ofCast (.var "o" .origin) (.simple "Number" .origin)
    ∃ c r c' f, compile .default letter = .ok c ∧ c.resultType = .number ∧
      c.sequence.Answers (.ok r) ∧ r.result = .boxed (.char 65) ∧
      compile .default { letter with body := back } = .ok c' ∧
      c'.sequence.Answers (.error f) ∧ f.fault.kind = .classCast := by
  intro back
  have he : ∃ t st, Check.unit letter = .ok t ∧ t.resultType = .number ∧
      t.eval = .ok (.boxed (.char 65), st) := ⟨_, _, rfl, rfl, rfl⟩
  have he' : ∃ t, Check.unit { letter with body := back } = .ok t ∧
      t.eval = .error .classCast := ⟨_, rfl, rfl⟩
  obtain ⟨t, st, ht, htype, he⟩ := he
  obtain ⟨t', ht', he'⟩ := he'
  have hrun := TypedUnit.answers_sequence Options.known_default (Check.wellTyped_unit nofun ht)
  have hrun' := TypedUnit.answers_sequence Options.known_default (Check.wellTyped_unit nofun ht')
  rw [he] at hrun
  rw [he'] at hrun'
  obtain ⟨store, hr, -⟩ := hrun
  obtain ⟨f, hf, hk⟩ := hrun'
  exact ⟨_, _, _, f, compile_of_check ht, htype, hr, rfl, compile_of_check ht', hf, hk⟩

end compiled

end StackExpr
