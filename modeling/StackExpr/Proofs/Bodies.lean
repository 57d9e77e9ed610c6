import StackExpr.Proofs.Execution
import StackExpr.Proofs.Parentheses
import StackExpr.Proofs.Permitted
import StackExpr.Proofs.Upcasts

/-! Bodies after given declarations.

Declarations leave their variables with values. What a body comes to after them is said of the
compiled unit and its run; it is found by checking and evaluating the body alone. -/
namespace StackExpr

namespace Scope

variable {scope : Scope} {x : Local}

theorem exists_find? (hn : (scope.vars.map (·.name)).Nodup) (hx : x ∈ scope.vars) :
    ∃ found, scope.find? x.name = some found ∧ found.toLocal = x := by
  cases hf : scope.find? x.name with
  | none =>
    obtain ⟨found, hfound, rfl⟩ := List.mem_map.mp hx
    exact absurd (List.find?_eq_none.mp hf found hfound) (by simp)
  | some found =>
    exact ⟨found, rfl, List.inj_on_of_nodup_map hn (mem_of_find? hf) hx (name_of_find? hf)⟩

theorem lookup_of_mem (hn : (scope.vars.map (·.name)).Nodup) (hx : x ∈ scope.vars) (span : Span) :
    ∃ found, scope.lookup x.name span = .ok found ∧ found.toLocal = x := by
  obtain ⟨found, hf, hx⟩ := exists_find? hn hx
  exact ⟨found, by rw [lookup, hf], hx⟩

theorem read_of_mem (hn : (scope.vars.map (·.name)).Nodup) (hx : x ∈ scope.vars) (span : Span) :
    scope.read x.name span = .ok (.read x ⟨x.type, span⟩) := by
  obtain ⟨found, hf, rfl⟩ := lookup_of_mem hn hx span
  rw [read, hf]

/-- A declared variable is found by its name, to be assigned as to be read. -/
theorem target_of_mem (hn : (scope.vars.map (·.name)).Nodup) (hx : x ∈ scope.vars) (span : Span) :
    scope.target (.var x.name span) = .ok x := by
  obtain ⟨found, hf, rfl⟩ := lookup_of_mem hn hx span
  simp only [target, Expr.bare, Expr.span, hf]

end Scope

namespace Check

variable {scope scope' : Scope} {ds : List Declaration} {is : List Initializer}

theorem nodup_declarations (h : declarations .empty ds = .ok (is, scope)) :
    (scope.vars.map (·.name)).Nodup := by
  obtain ⟨hall, hvars, -⟩ := declarations_eq_ok (fun hd : false = true => nomatch hd) h
  rw [hvars]
  exact hall.nodup List.nodup_nil

/-- A variable with a written type has that type. -/
theorem exists_declared {d : Declaration} {written : TypeExpr}
    (h : declarations scope ds = .ok (is, scope')) (hd : d ∈ ds) (hw : d.type = some written) :
    ∃ x ∈ scope'.vars, x.name = d.name ∧ written.resolve = .ok x.type := by
  induction ds generalizing scope is with
  | nil => cases hd
  | cons first rest ih =>
    obtain ⟨⟨i, after⟩, hf, h⟩ := ok_of_bind h
    obtain ⟨⟨others, last⟩, ho, h⟩ := ok_of_bind h
    cases h
    rcases List.mem_cons.mp hd with rfl | hd
    · obtain ⟨⟨type, value⟩, hv, hf⟩ := ok_of_bind hf
      obtain ⟨⟨x, pushed⟩, hx, hf⟩ := ok_of_bind hf
      cases hf
      obtain ⟨-, rfl, rfl⟩ := Scope.declare_eq_ok hx
      obtain ⟨-, hvars, -⟩ := declarations_eq_ok (fun hd : false = true => nomatch hd) ho
      refine ⟨⟨d.name, scope.nextSlot, type⟩, ?_, rfl, ?_⟩
      · rw [hvars, Scope.vars_push]
        simp
      · unfold declarationValue at hv
        rw [hw] at hv
        dsimp only at hv
        split at hv
        · cases hv
        · next resolved hres =>
          rw [hres]
          split at hv
          · obtain ⟨typed, -, hv⟩ := ok_of_bind hv
            cases hv
            rfl
          · cases hv
            rfl
    · exact ih ho hd

end Check

theorem mapError_eq_ok {α ε ε' : Type} {f : ε → ε'} {x : Except ε α} {a : α} :
    x.mapError f = .ok a ↔ x = .ok a := by
  cases x <;> simp [Except.mapError]

/-- Units that differ in parentheses only compile to the same code. -/
theorem compile_plain_eq_ok {o : Options} {u : SourceUnit} {c : Compiled} :
    compile o u.plain = .ok c ↔ compile o u = .ok c := by
  rw [← mapError_eq_ok, compile_plain, mapError_eq_ok]

namespace Declaration

/-- Declarations that run to their end: their variables and what these hold then, as a unit shows
that does nothing else. -/
def Leave (ds : List Declaration) (vars : List Local) (b : Bindings) : Prop :=
  ∃ c r, compile .default ⟨"", ds, .null .origin, none⟩ = .ok c ∧ c.sequence.locals = vars ∧
    c.sequence.Answers (.ok r) ∧ r.locals = b

/-- What a body comes to after declarations, in whatever parentheses it is written: its type, and
its value with what the variables hold in the end, or a kind of fault. -/
def Give (ds : List Declaration) (e : Expr) (t : Ty) (r : Except FaultKind (Value × Bindings)) :
    Prop :=
  ∀ name body, body.plain = e.plain → ∃ c, compile .default ⟨name, ds, body, none⟩ = .ok c ∧
    c.resultType = t ∧
    match r with
    | .ok (v, b) => ∃ store, c.sequence.Answers (.ok ⟨v, b, store⟩)
    | .error k => ∃ f, c.sequence.Answers (.error f) ∧ f.fault.kind = k

variable {ds : List Declaration} {vars : List Local} {b : Bindings}

/-- To see what declarations leave, a unit that does nothing else is evaluated. -/
theorem leave_of_eval {t : TypedUnit} {v : Value} {st : EvalState}
    (ht : Check.unit ⟨"", ds, .null .origin, none⟩ = .ok t) (he : t.eval = .ok (v, st))
    (hv : t.locals.map (·.toLocal) = vars) (hb : st.bindings = b) : Leave ds vars b := by
  have hrun := TypedUnit.answers_sequence Options.known_default (Check.wellTyped_unit nofun ht)
  rw [he] at hrun
  obtain ⟨store, hanswers, -⟩ := hrun
  exact ⟨_, _, compile_of_check ht, hv, hanswers, hb⟩

/-- The scope that declarations make and the state that they leave decide what a body comes to. -/
theorem Leave.exists_state (h : Leave ds vars b) :
    ∃ scope st, scope.vars = vars ∧ (vars.map (·.name)).Nodup ∧ st.bindings = b ∧
      ∀ e typed, Check.expr scope .none e = .ok typed →
        Give ds e typed.type ((typed.eval st).map fun p => (p.1, p.2.bindings)) := by
  obtain ⟨c, r, hc, rfl, hr, rfl⟩ := h
  obtain ⟨t, ht, rfl⟩ := compile_eq_ok hc
  obtain ⟨st, he, hb, -⟩ :=
    TypedUnit.eval_of_answers Options.known_default (Check.wellTyped_unit nofun ht) hr
  obtain ⟨⟨is, scope⟩, hi, ht⟩ := ok_of_bind ht
  cases ht
  obtain ⟨_, st₁, hinit, hnull⟩ := Eval.ok_of_bind he
  obtain rfl : st₁ = st := (Prod.mk.inj (Except.ok.inj hnull)).2
  refine ⟨scope, st₁, rfl, Check.nodup_declarations hi, hb, fun e typed htyped name body hbody => ?_⟩
  have hunit := Check.unit_of_parts (u := ⟨name, ds, e, none⟩) hi
    (by simp only [Check.body, htyped]; rfl)
  have hplain : SourceUnit.plain ⟨name, ds, body, none⟩ = SourceUnit.plain ⟨name, ds, e, none⟩ := by
    simp only [SourceUnit.plain, hbody]
  have hcompile := compile_of_check (o := .default) hunit
  rw [← compile_plain_eq_ok, ← hplain, compile_plain_eq_ok] at hcompile
  refine ⟨_, hcompile, rfl, ?_⟩
  have hrun := TypedUnit.answers_sequence Options.known_default (Check.wellTyped_unit nofun hunit)
  have heval : TypedUnit.eval ⟨name, scope.locals, is, typed, typed.type, scope.nextSlot⟩ =
      typed.eval st₁ := Eval.bind_of_ok hinit
  rw [heval] at hrun
  cases hte : typed.eval st₁ with
  | error k =>
    rw [hte] at hrun
    exact hrun
  | ok p =>
    rw [hte] at hrun
    obtain ⟨store, hstore, -⟩ := hrun
    exact ⟨store, hstore⟩

end Declaration

end StackExpr
