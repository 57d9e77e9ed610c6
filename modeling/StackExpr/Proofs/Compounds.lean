import StackExpr.Proofs.Bodies

/-! A compound assignment is an assignment of the binary operation, cast to the declared type.

The check looks for implicit steps back to the declared type and narrows numbers if there are none;
a cast goes the other way about and arrives at the same steps. -/
namespace StackExpr

/-- What an operator of a compound assignment can make of a left operand. -/
def Ty.Combined (l found : Ty) : Prop :=
  found = .string ∨
    ∃ k, found = .prim k ∧
      (k.isNumeric = true ∧ l.isNumeric = true ∨ k = .boolean ∧ l.isBoolean = true)

section steps

variable {category : Category} {op : AssignOp} {binary : BinaryOp} {l r t : Ty} {k : Kind}
  {c : Coercion}

theorem Ty.combined_of_promote {i j : Kind} (hi : l.kind? = some i)
    (hk : i.binaryPromote? j = some k) : l.Combined (.prim k) := by
  obtain ⟨hni, -, hp, -⟩ := Kind.binaryPromote?_eq_some hk
  have hl : l.isNumeric = true := by
    rw [isNumeric, hi]
    exact hni
  exact .inr ⟨k, rfl, .inl ⟨Kind.isNumeric_of_isPromoted hp, hl⟩⟩

theorem Coercion.combined_numeric? (h : numeric? category l r .prim = some c) :
    l.Combined c.result := by
  simp only [numeric?, bind, Option.bind_eq_some_iff, pure, Option.some.injEq] at h
  obtain ⟨i, hi, j, -, k, hk, left, -, right, -, rfl⟩ := h
  exact Ty.combined_of_promote hi hk

theorem Coercion.combined_shift? (h : shift? l r = some c) : l.Combined c.result := by
  unfold shift? at h
  split at h
  · simp only [bind, Option.bind_eq_some_iff, pure, Option.some.injEq] at h
    obtain ⟨i, hi, k, hk, left, -, right, -, rfl⟩ := h
    exact Ty.combined_of_promote hi hk
  · cases h

theorem Coercion.combined_boolean? (h : boolean? category l r = some c) (hl : l.isBoolean = true) :
    l.Combined c.result := by
  simp only [boolean?, bind, Option.bind_eq_some_iff, pure, Option.some.injEq] at h
  obtain ⟨left, -, right, -, rfl⟩ := h
  exact .inr ⟨.boolean, rfl, .inr ⟨rfl, hl⟩⟩

/-- Whatever the family of the operator, its result can go back to the left operand's type. -/
theorem Coercion.combined_coerce? (h : category.coerce? l r = some c)
    (hc : category = .arithmetic ∨ category = .shift ∨ category = .bitwise) :
    l.Combined c.result := by
  rcases hc with rfl | rfl | rfl
  · exact combined_numeric? h
  · exact combined_shift? h
  · dsimp only [Category.coerce?] at h
    split at h
    · next hb =>
      exact combined_boolean? h (Bool.and_eq_true_iff.mp hb).1
    · split at h
      · exact combined_numeric? h
      · cases h

/-- The families of the operators that compound assignments apply. -/
theorem AssignOp.category_binary? (h : op.binary? = some binary) :
    binary ≠ .power ∧ (binary.category? = some .arithmetic ∨ binary.category? = some .shift ∨
      binary.category? = some .bitwise) := by
  cases op <;> cases h <;> decide

theorem Typed.type_ofCoercion (left right : Typed) (span : Span) :
    (ofCoercion binary c left right span).type = c.result := by
  unfold ofCoercion
  split <;> rfl

theorem Typed.combined_ofBinary {left right combined : Typed} {span : Span}
    (hop : op.binary? = some binary) (h : ofBinary binary left right span = .ok combined) :
    left.type.Combined combined.type := by
  obtain ⟨hpower, hcategory⟩ := AssignOp.category_binary? hop
  rcases ofBinary_eq_ok h with ⟨-, rfl⟩ | ⟨hop, -⟩ | ⟨-, category, c, hc, hcoerce, rfl⟩
  · exact .inl rfl
  · exact absurd hop hpower
  · rw [hc, Option.some.injEq, Option.some.injEq, Option.some.injEq] at hcategory
    rw [type_ofCoercion]
    exact Coercion.combined_coerce? hcoerce hcategory

theorem Typed.compoundSteps?_string (ht : t ≠ .null) :
    compoundSteps? .string t = Ty.string.cast? t := by
  cases t with
  | null => exact absurd rfl ht
  | named name =>
    by_cases hn : name = "String"
    · subst hn
      rfl
    · have hs : Ty.named "String" ≠ .named name := by simpa using Ne.symm hn
      simp [compoundSteps?, Ty.cast?, Ty.string, Ty.assign?, Ty.downcast?, Ty.isSubtype,
        Ty.storesInto, Ty.isNumeric, Ty.isBoolean, Ty.isNumber, Ty.number, Ty.kind?, hn, Ne.symm hn]
  | _ => rfl

theorem Ty.cast?_of_isNumeric (hl : l.isNumeric = true) (ht : t.isNumeric = true)
    (hne : l ≠ t) : l.cast? t = l.castByKind? t := by
  unfold cast?
  rw [if_neg hne, hl, ht, Bool.and_self, Bool.true_or, if_pos rfl]

/-- Between numbers the steps back are those of a cast. -/
theorem Typed.compoundSteps?_numeric (hl : l.isNumeric = true) (ht : t.isNumeric = true) :
    compoundSteps? l t = l.cast? t := by
  unfold compoundSteps?
  split
  · next ha => exact (Ty.cast?_of_assign? ha).symm
  · rw [hl, ht, Bool.and_self, if_pos rfl]

/-- Implicit steps are steps of a cast, and where there are none a cast narrows numbers alone. -/
theorem Typed.compoundSteps?_eq_cast? {found : Ty} (h : t.Combined found) (ht : t ≠ .null) :
    compoundSteps? found t = found.cast? t := by
  rcases h with rfl | ⟨k, rfl, ⟨hk, hn⟩ | ⟨rfl, hb⟩⟩
  · exact compoundSteps?_string ht
  · exact compoundSteps?_numeric hk hn
  · rcases Ty.kind?_eq_some (Ty.kind?_of_isBoolean hb) with rfl | rfl <;> rfl

end steps

/-- Trees that stand for each other: of one type and with one code. -/
structure Typed.Twin (e e' : Typed) : Prop where
  type_eq : e'.type = e.type
  code_eq : ∀ o, Emit.expr o e' = Emit.expr o e

namespace Emit

/-- A tag leaves no trace in the code. -/
@[simp] theorem expr_withTag (o : Options) (tag : Tag) (e : Typed) :
    expr o (e.withTag tag) = expr o e := by
  cases e <;> rfl

end Emit

namespace Typed.Twin

variable {e e' : Typed}

theorem symm (h : e.Twin e') : e'.Twin e := ⟨h.type_eq.symm, fun o => (h.code_eq o).symm⟩

theorem step (h : e.Twin e') (c : Conversion) : (e.step c).Twin (e'.step c) where
  type_eq := rfl
  code_eq o := by simp only [Typed.step, Emit.expr, h.type_eq, h.code_eq]

theorem through (h : e.Twin e') (steps : List Conversion) :
    (e.through steps).Twin (e'.through steps) := by
  induction steps generalizing e e' with
  | nil => exact h
  | cons c rest ih => exact ih (h.step c)

theorem assign (x : Local) (value : Typed) (tag tag' : Tag) :
    (Typed.assign x value tag).Twin (.assign x (value.withTag tag') tag) where
  type_eq := rfl
  code_eq o := by simp only [Emit.expr, Emit.expr_withTag]

end Typed.Twin

namespace Check

variable {scope : Scope} {hint : Hint} {op : AssignOp} {binary : BinaryOp} {x : Local} {e : Expr}
  {written : TypeExpr} {t : Typed}

/-- What a compound assignment makes of its right-hand side before it stores it, and what a cast
makes of the binary operation. -/
def Combines (scope : Scope) (x : Local) (binary : BinaryOp) (e : Expr) (value : Typed) : Prop :=
  ∃ v combined steps, expr scope .none e = .ok v ∧
    Typed.ofBinary binary (.read x ⟨x.type, .origin⟩) v .origin = .ok combined ∧
    combined.type.cast? x.type = some steps ∧ value = combined.through steps

theorem compoundSteps?_of_combines {v combined : Typed} (ht : x.type ≠ .null)
    (hop : op.binary? = some binary)
    (h : Typed.ofBinary binary (.read x ⟨x.type, .origin⟩) v .origin = .ok combined) :
    Typed.compoundSteps? combined.type x.type = combined.type.cast? x.type :=
  have hc : x.type.Combined combined.type := Typed.combined_ofBinary hop h
  Typed.compoundSteps?_eq_cast? hc ht

/-- A compound assignment is accepted if its operation, converted back, is. -/
theorem compound_eq_ok_iff (hn : (scope.vars.map (·.name)).Nodup) (hx : x ∈ scope.vars)
    (ht : x.type ≠ .null) (hop : op.binary? = some binary) :
    expr scope hint (.assign op (.var x.name .origin) e .origin .origin) = .ok t ↔
      ∃ value, Combines scope x binary e value ∧ t = .assign x value ⟨x.type, .origin⟩ := by
  have heq : expr scope hint (.assign op (.var x.name .origin) e .origin .origin) =
      (expr scope .none e >>= fun v => Typed.ofCompound op binary x .origin v .origin) := by
    rw [expr, Scope.target_of_mem hn hx .origin]
    simp only [hop]
    rfl
  rw [heq]
  constructor
  · intro h
    obtain ⟨v, hv, h⟩ := ok_of_bind h
    obtain ⟨combined, steps, hb, hs, rfl⟩ := Typed.ofCompound_eq_ok h
    rw [compoundSteps?_of_combines ht hop hb] at hs
    exact ⟨_, ⟨v, combined, steps, hv, hb, hs, rfl⟩, rfl⟩
  · rintro ⟨_, ⟨v, combined, steps, hv, hb, hs, rfl⟩, rfl⟩
    rw [← compoundSteps?_of_combines ht hop hb] at hs
    simp only [hv, Typed.ofCompound, hb, hs, bind, Except.bind]
    rfl

/-- An assignment of a value that has the type of the variable stores the value as it is. -/
theorem assign_eq_ok_iff {value : Expr} (hn : (scope.vars.map (·.name)).Nodup)
    (hx : x ∈ scope.vars) (hnarrow : value.narrowed? x.type = none)
    (htype : ∀ v, expr scope (.of x.type) value = .ok v → v.type = x.type) :
    expr scope hint (.assign .set (.var x.name .origin) value .origin .origin) = .ok t ↔
      ∃ v, expr scope (.of x.type) value = .ok v ∧ t = .assign x v ⟨x.type, .origin⟩ := by
  rw [expr, Scope.target_of_mem hn hx]
  simp only [AssignOp.binary?, bind, Except.bind, fit, hnarrow]
  cases hv : expr scope (.of x.type) value with
  | error e => simp
  | ok v =>
    have ha : v.assignTo? x.type = some v := by
      rw [Typed.assignTo?, htype v hv, Ty.assign?_of_isSubtype (Ty.isSubtype_refl _)]
      rfl
    simp [ha, pure, Except.pure, eq_comm]

theorem expr_binary {op : BinaryOp} {left right : Expr} {l r : Typed} {extent span : Span}
    (hop : op.category? ≠ none) (hl : expr scope .none left = .ok l)
    (hr : expr scope .none right = .ok r) :
    expr scope hint (.binary op left right extent span) = Typed.ofBinary op l r extent := by
  rw [expr_binary_eq hop, hl, hr]
  rfl

/-- A written cast of the operation to the type of the variable. -/
theorem cast_binary_eq_ok_iff (hn : (scope.vars.map (·.name)).Nodup) (hx : x ∈ scope.vars)
    (hw : written.resolve = .ok x.type) (hop : op.binary? = some binary) (hint : Hint) :
    expr scope hint (.cast (.binary binary (.var x.name .origin) e .origin .origin) written
        .origin .origin) = .ok t ↔
      ∃ value, Combines scope x binary e value ∧ t = value.withTag ⟨x.type, .origin⟩ := by
  constructor
  · intro h
    obtain ⟨type, combined, ht, hb, h⟩ := cast_eq_ok h
    cases hw.symm.trans ht
    obtain ⟨-, l, v, hl, hv, hb⟩ := binary_eq_ok hb
    rw [expr, Scope.read_of_mem hn hx] at hl
    cases hl
    obtain ⟨steps, hs, rfl⟩ := Typed.ofCast_eq_ok h
    exact ⟨_, ⟨v, combined, steps, hv, hb, hs, rfl⟩, rfl⟩
  · rintro ⟨_, ⟨v, combined, steps, hv, hb, hs, rfl⟩, rfl⟩
    obtain ⟨-, hcategory⟩ := AssignOp.category_binary? hop
    have hne : binary.category? ≠ none := by rcases hcategory with hc | hc | hc <;> simp [hc]
    have hread : expr scope .none (.var x.name .origin) = .ok (.read x ⟨x.type, .origin⟩) :=
      Scope.read_of_mem hn hx .origin
    have hcombined : expr scope (.of x.type) (.binary binary (.var x.name .origin) e .origin
        .origin) = .ok combined := (expr_binary hne hread hv).trans hb
    rw [expr, hw]
    simp only [hcombined, bind, Except.bind, Typed.ofCast, hs]

theorem cast_assign_eq_ok_iff (hn : (scope.vars.map (·.name)).Nodup) (hx : x ∈ scope.vars)
    (hw : written.resolve = .ok x.type) (hop : op.binary? = some binary) :
    expr scope hint (.assign .set (.var x.name .origin)
        (.cast (.binary binary (.var x.name .origin) e .origin .origin) written .origin .origin)
        .origin .origin) = .ok t ↔
      ∃ value, Combines scope x binary e value ∧
        t = .assign x (value.withTag ⟨x.type, .origin⟩) ⟨x.type, .origin⟩ := by
  have hcast (v : Typed) := cast_binary_eq_ok_iff (e := e) (t := v) hn hx hw hop (.of x.type)
  have hnarrow : (Expr.cast (.binary binary (.var x.name .origin) e .origin .origin) written
      .origin .origin).narrowed? x.type = none := by cases x.type <;> rfl
  rw [assign_eq_ok_iff hn hx hnarrow fun v hv => ?_]
  · simp only [hcast]
    constructor
    · rintro ⟨_, ⟨value, hvalue, rfl⟩, rfl⟩
      exact ⟨value, hvalue, rfl⟩
    · rintro ⟨value, hvalue, rfl⟩
      exact ⟨_, ⟨value, hvalue, rfl⟩, rfl⟩
  · obtain ⟨value, -, rfl⟩ := (hcast v).mp hv
    exact Typed.type_withTag ..

end Check

/-- An expression that can take the place of another: it is accepted whenever the other is, with a
tree of the same type and the same code, and neither is a literal that a declared type narrows. -/
structure Check.Stands (scope : Scope) (e e' : Expr) : Prop where
  whole : ∀ target, e.narrowed? target = none ∧ e'.narrowed? target = none
  twin : ∀ hint t, expr scope hint e = .ok t → ∃ t', expr scope hint e' = .ok t' ∧ t.Twin t'

section bodies

variable {scope : Scope} {e e' : Expr} {returns : Option TypeExpr} {t : Typed} {type : Ty}

/-- What takes the place of an expression fits wherever that does. -/
theorem Check.Stands.fit {site : Site} {hint : Hint} (h : Stands scope e e')
    (hf : Check.fit e type site (expr scope hint e) = .ok t) :
    ∃ t', Check.fit e' type site (expr scope hint e') = .ok t' ∧ t.Twin t' := by
  obtain ⟨hn, hn'⟩ := h.whole type
  rw [Check.fit, hn] at hf
  obtain ⟨typed, htyped, hf⟩ := ok_of_bind hf
  obtain ⟨typed', htyped', htwin⟩ := h.twin hint typed htyped
  rw [Check.fit, hn', htyped']
  simp only [bind, Except.bind, Typed.assignTo?, htwin.type_eq] at hf ⊢
  cases ha : typed.type.assign? type with
  | none =>
    rw [ha] at hf
    cases hf
  | some steps =>
    rw [ha] at hf
    cases hf
    exact ⟨_, rfl, htwin.through steps⟩

theorem Check.Stands.body (h : Stands scope e e') (hb : Check.body scope e returns = .ok (t, type)) :
    ∃ t', Check.body scope e' returns = .ok (t', type) ∧ t.Twin t' := by
  unfold Check.body at hb ⊢
  cases returns with
  | none =>
    obtain ⟨typed, htyped, hb⟩ := ok_of_bind hb
    cases hb
    obtain ⟨t', ht', htwin⟩ := h.twin .none t htyped
    refine ⟨t', ?_, htwin⟩
    simp only [ht', bind, Except.bind, htwin.type_eq]
    rfl
  | some written =>
    dsimp only at hb ⊢
    split at hb
    · cases hb
    · obtain ⟨typed, htyped, hb⟩ := ok_of_bind hb
      cases hb
      obtain ⟨t', ht', htwin⟩ := h.fit htyped
      refine ⟨t', ?_, htwin⟩
      rw [exprTo, ht']
      rfl

/-- Bodies that stand for each other compile to the same code. -/
theorem compile_of_stands {o : Options} {c : Compiled} {name : String} {ds : List Declaration}
    (h : ∀ is scope, Check.declarations .empty ds = .ok (is, scope) → Check.Stands scope e e')
    (hc : compile o ⟨name, ds, e, returns⟩ = .ok c) : compile o ⟨name, ds, e', returns⟩ = .ok c := by
  obtain ⟨t, ht, rfl⟩ := compile_eq_ok hc
  obtain ⟨⟨is, scope⟩, hi, ht⟩ := ok_of_bind ht
  obtain ⟨⟨typed, type⟩, hb, ht⟩ := ok_of_bind ht
  cases ht
  obtain ⟨typed', hb', htwin⟩ := (h is scope hi).body hb
  rw [compile_of_check (Check.unit_of_parts (u := ⟨name, ds, e', returns⟩) hi hb')]
  simp only [TypedUnit.sequence, Emit.unitCode, htwin.code_eq, htwin.type_eq]

end bodies

/-- `x op= e` -/
def Expr.compound (op : AssignOp) (x : String) (e : Expr) : Expr := .ofAssign op (.var x .origin) e

/-- `x = (x op e) as T` -/
def Expr.castAssign (op : BinaryOp) (x : String) (e : Expr) (written : TypeExpr) : Expr :=
  .ofAssign .set (.var x .origin) (.ofCast (.ofBinary op (.var x .origin) e) written)

/-- Either form takes the place of the other where the variable has the type that is written. -/
theorem Check.stands_compound {scope : Scope} {op : AssignOp} {binary : BinaryOp} {x : Local}
    {e : Expr} {written : TypeExpr} (hn : (scope.vars.map (·.name)).Nodup) (hx : x ∈ scope.vars)
    (hw : written.plain.resolve = .ok x.type) (hop : op.binary? = some binary) :
    Stands scope (.plain (.compound op x.name e)) (.plain (.castAssign binary x.name e written)) ∧
      Stands scope (.plain (.castAssign binary x.name e written))
        (.plain (.compound op x.name e)) := by
  have hnull := TypeExpr.resolve_ne_null hw
  have hwhole (target : Ty) : (Expr.compound op x.name e).plain.narrowed? target = none ∧
      (Expr.castAssign binary x.name e written).plain.narrowed? target = none := by
    cases target <;> exact ⟨rfl, rfl⟩
  refine ⟨⟨hwhole, fun hint t h => ?_⟩, fun target => (hwhole target).symm, fun hint t h => ?_⟩
  · obtain ⟨value, hvalue, rfl⟩ := (compound_eq_ok_iff hn hx hnull hop).mp h
    exact ⟨_, (cast_assign_eq_ok_iff hn hx hw hop).mpr ⟨value, hvalue, rfl⟩, .assign ..⟩
  · obtain ⟨value, hvalue, rfl⟩ := (cast_assign_eq_ok_iff hn hx hw hop).mp h
    exact ⟨_, (compound_eq_ok_iff hn hx hnull hop).mpr ⟨value, hvalue, rfl⟩,
      (Typed.Twin.assign ..).symm⟩

/-- A compound assignment to a variable with a written type is compiled to the same code as the
assignment of the binary operation cast to that type, and is accepted if that is, however the two
are put in parentheses. -/
theorem compound_is_cast_assignment (o : Options) (u : SourceUnit) {d : Declaration}
    (hd : d ∈ u.declarations) {written : TypeExpr} (hw : d.type = some written) {op : AssignOp}
    {binary : BinaryOp} (hop : op.binary? = some binary) (e : Expr) {body body' : Expr}
    (hbody : body.plain = (Expr.compound op d.name e).plain)
    (hbody' : body'.plain = (Expr.castAssign binary d.name e written).plain) (c : Compiled) :
    compile o { u with body } = .ok c ↔ compile o { u with body := body' } = .ok c := by
  have hstands : ∀ is scope,
      Check.declarations .empty (u.declarations.map Declaration.plain) = .ok (is, scope) →
      Check.Stands scope body.plain body'.plain ∧ Check.Stands scope body'.plain body.plain := by
    intro is scope hi
    have hplain : d.plain.type = some written.plain := by
      rw [Declaration.plain, hw]
      rfl
    obtain ⟨x, hx, hname, hresolve⟩ := Check.exists_declared hi (List.mem_map_of_mem hd) hplain
    rw [hbody, hbody', show d.name = x.name from hname.symm]
    exact Check.stands_compound (Check.nodup_declarations hi) hx hresolve hop
  rw [← compile_plain_eq_ok, ← compile_plain_eq_ok (u := { u with body := body' })]
  exact ⟨compile_of_stands fun is scope hi => (hstands is scope hi).1,
    compile_of_stands fun is scope hi => (hstands is scope hi).2⟩

/-- `let b: byte = 100; b *= 300`, and the cast in parentheses; the product does not fit a byte. -/
theorem product_is_cast_assignment :
    let s := Span.origin
    let byte := TypeExpr.simple "byte" s
    let u : SourceUnit := ⟨"product", [⟨"b", s, some byte, some (.int 100 s), s⟩], .null s, none⟩
    ∃ c, compile .default { u with body := .compound .multiply "b" (.int 300 s) } = .ok c ∧
      compile .default
        { u with body := .ofParen (.castAssign .multiply "b" (.int 300 s) byte) } = .ok c := by
  intro s byte u
  have hc : ∃ t, Check.unit { u with body := .compound .multiply "b" (.int 300 s) } = .ok t :=
    ⟨_, rfl⟩
  obtain ⟨t, ht⟩ := hc
  refine ⟨_, compile_of_check ht, ?_⟩
  exact (compound_is_cast_assignment .default u List.mem_cons_self rfl rfl (.int 300 s) rfl rfl
    _).mp (compile_of_check ht)

end StackExpr
