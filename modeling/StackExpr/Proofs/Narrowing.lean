import StackExpr.Proofs.Acceptance
import StackExpr.Proofs.Equalities
import StackExpr.Proofs.Places

/-! Literals at a declared integral kind.

A literal that fits the kind becomes a constant of it, with its signs folded in 64 bits; anything
else is checked by itself and converted. Where a literal can go both ways the values are the same,
with one exception. The least `int` negated is 2147483648 if it is folded, and the least `int` again
if it is computed. -/
namespace StackExpr

theorem toInt_neg_of_ne {n : Int64} (h : n ≠ Int64.minValue) : (-n).toInt = -n.toInt := by
  have h₁ := n.le_toInt
  have h₂ := n.toInt_lt
  have hne : n.toInt ≠ -2 ^ 63 := by
    intro he
    apply h
    rw [← Int64.toInt_inj, he]
    rfl
  rw [Int64.toInt_neg, Int.bmod_def]
  split <;> omega

/-- The low bits of a number next to the range of `int`. -/
theorem eq_widened_iff {n : Int64} (h₁ : -2147483648 ≤ n.toInt) (h₂ : n.toInt ≤ 2147483648) :
    n = n.toInt32.toInt64 ↔ n ≠ 2147483648 := by
  have hmax : (2147483648 : Int64).toInt = 2147483648 := rfl
  rw [← Int64.toInt_inj, Int32.toInt_toInt64, Int64.toInt_toInt32, Ne, ← Int64.toInt_inj, hmax,
    Int.bmod_def]
  split <;> omega

namespace Typed

/-- Its code leaves a value on the stack and changes nothing else. -/
def Pushes (e : Typed) (v : Value) : Prop :=
  ∀ (vars : List Local) (st : EvalState), e.Executes vars st v st

variable {e : Typed} {v w : Value} {k : Kind} {tag : Tag}

theorem Pushes.moveTo (h : e.Pushes v) (s : Span) : (e.moveTo s).Pushes v := by
  intro vars st
  unfold Executes
  rw [← Emit.expr_unplaced, unplaced_moveTo, Emit.expr_unplaced]
  exact h vars st

theorem Pushes.negate (h : e.Pushes v) (hk : k.isPromoted = true) (hv : k.Holds v)
    (hw : v.negate = .ok w) : (negate k e tag).Pushes w := by
  intro vars st s free es σ hs hfree hwithin
  rw [Emit.expr] at hwithin ⊢
  have hneg : s.Runs vars [.neg k.stackKind] (v :: σ) st (Eval.lift v.negate st) (· :: σ) :=
    Sequence.runs_lift (Action.leaves_neg hv hk)
  rw [hw] at hneg
  exact (h vars st s free es σ hs hfree hwithin).prepend hneg

theorem Pushes.step {c : Conversion} (h : e.Pushes v) (ht : e.type = .prim k) (hv : k.Holds v)
    (hc : c.Takes false (.prim k)) (hw : ∀ store, c.convert store v = .ok w) :
    (e.step c).Pushes w := by
  intro vars st s free es σ hs hfree hwithin
  rw [Typed.step, Emit.expr, ht] at hwithin ⊢
  have hg := ((Emit.plain_conversion .default (.prim k) c) (Emit.expr .default e es).2).1
  have hconv : s.Runs vars _ (v :: σ) st (Eval.lift (c.convert st.store v) st) (· :: σ) :=
    Sequence.runs_conversion Options.known_default hc (Value.good_of_holds (u := .none) hv) hwithin
  rw [hw] at hconv
  exact (h vars st s free es σ hs hfree (hwithin.of_grows hg)).prepend hconv

/-- A tree that stands for a whole number. An `int` has only the low bits of it, and they tell it
from all others but for one. -/
inductive Counts (e : Typed) (n : Int64) : Prop
  | int (type : e.type = .prim .int) (least : -2147483648 ≤ n.toInt)
      (greatest : n.toInt ≤ 2147483648) (pushes : e.Pushes (.int n.toInt32))
  | long (type : e.type = .prim .long) (pushes : e.Pushes (.long n))

variable {n : Int64}

theorem counts_ofWhole (n : Int64) (s : Span) : (ofWhole n s).Counts n := by
  unfold ofWhole
  split
  · next hf =>
    simp only [Kind.fits, Kind.range?, Bool.and_eq_true, decide_eq_true_eq] at hf
    exact .int rfl hf.1 (by omega) fun _ st => executes_constant _ _ st
  · exact .long rfl fun _ st => executes_constant _ _ st

theorem Counts.moveTo (h : e.Counts n) (s : Span) : (e.moveTo s).Counts n := by
  cases h with
  | int type least greatest pushes =>
    exact .int (by rw [type_moveTo, type]) least greatest (pushes.moveTo s)
  | long type pushes => exact .long (by rw [type_moveTo, type]) (pushes.moveTo s)

/-- Neither kind is promoted any further. -/
theorem Counts.promoted? (h : e.Counts n) :
    ∃ k, e.type = .prim k ∧ promoted? Kind.isNumeric e.type = some (k, []) := by
  cases h with
  | int type | long type => exact ⟨_, type, by rw [type]; rfl⟩

theorem Counts.plus {t : Typed} {s : Span} (h : e.Counts n) (ht : ofUnary .plus e s = .ok t) :
    t.Counts n := by
  obtain ⟨k, -, hp⟩ := h.promoted?
  simp only [ofUnary, hp] at ht
  cases ht
  exact h.moveTo s

/-- The sign is folded in 64 bits, and an `int` with the sign has the low bits of that. -/
theorem Counts.minus {t : Typed} {s : Span} (h : e.Counts n) (hn : n ≠ Int64.minValue)
    (ht : ofUnary .minus e s = .ok t) : t.Counts (-n) := by
  obtain ⟨k, hk, hp⟩ := h.promoted?
  simp only [ofUnary, hp] at ht
  cases ht
  have hneg := toInt_neg_of_ne hn
  cases h with
  | int type least greatest pushes =>
    obtain rfl : k = .int := by simpa [hk] using type
    refine .int rfl (by omega) (by omega) ?_
    apply pushes.negate rfl (Kind.holds_int _)
    rw [Int64.toInt32_neg]
    rfl
  | long type pushes =>
    obtain rfl : k = .long := by simpa [hk] using type
    exact .long rfl (pushes.negate rfl trivial rfl)

end Typed

namespace Check

variable {scope : Scope} {hint : Hint} {e : Expr} {t : Typed}

/-- The induction is on the signs and parentheses around the digits. -/
theorem counts_expr {n : Int64} (hl : e.literal? = some (.whole n))
    (h : expr scope hint e = .ok t) : t.Counts n := by
  induction e using Expr.literal?.induct generalizing hint n t with
  | case1 value span =>
    cases hl
    cases h
    exact Typed.counts_ofWhole value span
  | case2 value span => cases hl
  | case3 inner span ih =>
    obtain ⟨typed, hi, rfl⟩ := paren_eq_ok h
    exact (ih hl hi).moveTo span
  | case4 operand extent span ih =>
    obtain ⟨-, typed, ho, h⟩ := unary_eq_ok h
    exact (ih hl ho).plus h
  | case5 operand extent span ih =>
    obtain ⟨-, typed, ho, h⟩ := unary_eq_ok h
    obtain ⟨l, hi, hneg⟩ := Option.bind_eq_some_iff.mp hl
    cases l with
    | floating value => cases hneg
    | whole m =>
      rw [Literal.negate?] at hneg
      split at hneg
      · cases hneg
      · next hm =>
        cases hneg
        exact (ih hi ho).minus hm h
  | case6 e => simp_all [Expr.literal?]

theorem type_of_bare_string {e : Expr} {t : Typed} {text : String} {s : Span} (hb : e.bare = .string text s)
    (h : expr scope hint e = .ok t) : t.type = .string := by
  cases e with
  | string value span =>
    cases h
    rfl
  | paren inner span =>
    obtain ⟨typed, hi, rfl⟩ := paren_eq_ok h
    rw [Typed.type_moveTo]
    exact type_of_bare_string (e := inner) hb hi
  | _ => cases hb

end Check

namespace Typed

variable {e t : Typed} {k : Kind} {n : Int64} {d : Constant}

/-- A conversion to a box is one to its kind, and then boxing. -/
theorem assignTo?_boxed {j : Kind} (hj : e.type = .prim j) (h : e.assignTo? (.boxed k) = some t) :
    ∃ p, e.assignTo? (.prim k) = some p ∧ t = p.step (.box k) := by
  simp only [assignTo?, hj, Ty.assign?] at h ⊢
  by_cases hjk : j = k
  · subst hjk
    simp only [if_true, Option.map_some, Option.some.injEq] at h ⊢
    exact ⟨e, rfl, h.symm⟩
  · by_cases hw : j.widensTo k = true
    · simp only [hjk, hw, if_true, if_false, Option.map_some, Option.some.injEq] at h ⊢
      exact ⟨_, rfl, h.symm⟩
    · simp [hjk, hw] at h

/-- At an integral kind that the number fits, the computed value is the number itself, but for one
number that an `int` takes for another. -/
theorem Counts.assigned (h : e.Counts n) (hd : Constant.ofWhole? k n = some d)
    (ht : e.assignTo? (.prim k) = some t) :
    t.type = .prim k ∧ (k = .int ∨ k = .long) ∧ ∃ w, k.Holds w ∧ t.Pushes w ∧
      (d.value = w ↔ ¬(e.type = .prim .int ∧ n = 2147483648)) := by
  obtain ⟨hk, hfits, rfl⟩ := Constant.ofWhole?_eq_some hd
  cases h with
  | int type least greatest pushes =>
    rw [assignTo?, type] at ht
    cases k with
    | int =>
      cases ht
      have hne : n ≠ 2147483648 := by
        rintro rfl
        revert hfits
        decide
      refine ⟨type, .inl rfl, _, Kind.holds_int _, pushes, ?_⟩
      simp [Constant.value, hne]
    | long =>
      cases ht
      refine ⟨rfl, .inr rfl, .long n.toInt32.toInt64, trivial, ?_, ?_⟩
      · exact pushes.step type (Kind.holds_int _) ⟨rfl, rfl, rfl⟩ fun _ => rfl
      · simp only [type, true_and]
        exact (Value.long.injEq ..).to_iff.trans (eq_widened_iff least greatest)
    | byte | short | char => cases ht
    | float | double | boolean => cases hk
  | long type pushes =>
    rw [assignTo?, type] at ht
    cases k with
    | long =>
      cases ht
      refine ⟨type, .inr rfl, .long n, trivial, pushes, ?_⟩
      simp [Constant.value, type]
    | byte | short | char | int => cases ht
    | float | double | boolean => cases hk

/-- Boxing tells `int`s from each other, and `long`s. -/
theorem Pushes.box {v w : Value} {c : Typed} (hk : k = .int ∨ k = .long) (hv : k.Holds v)
    (hw : k.Holds w) (hc : c.type = .prim k) (ht : t.type = .prim k) (hcv : c.Pushes v)
    (htw : t.Pushes w) :
    ∃ x y, (c.step (.box k)).Pushes x ∧ (t.step (.box k)).Pushes y ∧ (x = y ↔ v = w) := by
  rcases hk with rfl | rfl
  · obtain ⟨a, rfl⟩ := hv.eq_int rfl
    obtain ⟨b, rfl⟩ := hw.eq_int rfl
    exact ⟨.boxed (.int a), .boxed (.int b), hcv.step hc hv rfl fun _ => rfl,
      htw.step ht hw rfl fun _ => rfl, by simp⟩
  · obtain ⟨a, rfl⟩ := hv.eq_long
    obtain ⟨b, rfl⟩ := hw.eq_long
    exact ⟨.boxed (.long a), .boxed (.long b), hcv.step hc hv rfl fun _ => rfl,
      htw.step ht hw rfl fun _ => rfl, by simp⟩

end Typed

/-- A string is a `char` only as a constant. -/
theorem Check.whole_of_constantAt? {scope : Scope} {hint : Hint} {e : Expr} {k : Kind}
    {target : Ty} {d : Constant} {typed t : Typed} (hk : k.isIntegral = true)
    (htarget : target = .prim k ∨ target = .boxed k) (hd : e.constantAt? k = some d)
    (he : expr scope hint e = .ok typed) (ht : typed.assignTo? target = some t) :
    ∃ n, e.literal? = some (.whole n) ∧ Constant.ofWhole? k n = some d := by
  unfold Expr.constantAt? at hd
  split at hd
  · next n hl =>
    refine ⟨n, hl, ?_⟩
    cases k with
    | float | double => cases hk
    | _ => exact hd
  · cases k with
    | float | double => cases hk
    | _ => cases hd
  · split at hd
    · next text span hb =>
      have htype := type_of_bare_string hb he
      split at hd
      · next hchar =>
        subst hchar
        have hnone : ∀ target, target = .prim .char ∨ target = .boxed .char →
            Ty.string.assign? target = none := by
          rintro target (rfl | rfl) <;> decide
        rw [Typed.assignTo?, htype, hnone target htarget] at ht
        cases ht
      · cases hd
    · cases hd

/-- Of a literal at an integral type, the folded constant and the computed conversion leave the same
value, unless the literal is an `int` that stands for 2147483648. -/
theorem narrowed_agrees_iff {scope : Scope} {e : Expr} {target : Ty} {c typed t : Typed}
    (htarget : target.isIntegral = true) (hc : e.narrowed? target = some c)
    (he : Check.expr scope (.of target) e = .ok typed) (ht : typed.assignTo? target = some t) :
    ∃ v w, c.Pushes v ∧ t.Pushes w ∧
      (v = w ↔ ¬(typed.type = .prim .int ∧ e.literal? = some (.whole 2147483648))) := by
  obtain ⟨k, d, hd, hform⟩ := Expr.narrowed?_eq_some hc
  have hk : k.isIntegral = true := by
    rcases hform with ⟨rfl, -⟩ | ⟨rfl, -⟩ <;> exact htarget
  obtain ⟨n, hl, hn⟩ :=
    Check.whole_of_constantAt? hk (hform.imp And.left And.left) hd he ht
  have hcounts := Check.counts_expr hl he
  have hconstant : (Typed.constant d ⟨.prim k, e.span⟩).Pushes d.value :=
    fun _ st => Typed.executes_constant d _ st
  have hholds := Constant.holds_ofWhole? hn
  have hliteral : e.literal? = some (.whole 2147483648) ↔ n = 2147483648 := by simp [hl]
  rw [hliteral]
  rcases hform with ⟨rfl, rfl⟩ | ⟨rfl, rfl⟩
  · obtain ⟨-, -, w, -, hpushes, hiff⟩ := hcounts.assigned hn ht
    exact ⟨d.value, w, hconstant, hpushes, hiff⟩
  · obtain ⟨j, hj, -⟩ := hcounts.promoted?
    obtain ⟨p, hp, rfl⟩ := Typed.assignTo?_boxed hj ht
    obtain ⟨htype, hkind, w, hw, hpushes, hiff⟩ := hcounts.assigned hn hp
    obtain ⟨x, y, hx, hy, hxy⟩ := hconstant.box hkind hholds hw rfl htype hpushes
    exact ⟨x, y, hx, hy, hxy.trans hiff⟩

/-- The least `int` with two signs is itself again, at `Long`. -/
theorem narrowed_agrees_twice_negated :
    let e := Expr.ofUnary .minus (.ofParen (.ofUnary .minus (.int (-2147483648) .origin)))
    ∃ c typed t v, e.narrowed? (.boxed .long) = some c ∧
      Check.expr .empty (.of (.boxed .long)) e = .ok typed ∧
      typed.assignTo? (.boxed .long) = some t ∧ c.Pushes v ∧ t.Pushes v := by
  intro e
  obtain ⟨c, typed, t, hc, he, ht⟩ : ∃ c typed t, e.narrowed? (.boxed .long) = some c ∧
      Check.expr .empty (.of (.boxed .long)) e = .ok typed ∧
      typed.assignTo? (.boxed .long) = some t := ⟨_, _, _, rfl, rfl, rfl⟩
  obtain ⟨v, w, hv, hw, hiff⟩ := narrowed_agrees_iff rfl hc he ht
  have hliteral : e.literal? ≠ some (.whole 2147483648) := by
    have hfolded : e.literal? = some (.whole (-2147483648)) := rfl
    rw [hfolded]
    simp
  have hsame : v = w := hiff.mpr fun h => hliteral h.2
  exact ⟨c, typed, t, v, hc, he, ht, hv, hsame ▸ hw⟩

/-- `let a: long = -x; a == (-x as long)`, with the least `int` for `x`. -/
def leastNegated : SourceUnit :=
  let o := Span.origin
  let e := Expr.ofUnary .minus (.int (-2147483648) o)
  ⟨"leastNegated", [⟨"a", o, some (.simple "long" o), some e, o⟩],
    .ofBinary .equal (.var "a" o) (.ofCast e (.simple "long" o)), none⟩

/-- The initializer is folded and the operand of the cast is computed. -/
theorem negated_least_differs :
    let e := Expr.ofUnary .minus (.int (-2147483648) .origin)
    (∃ c typed t, e.narrowed? (.prim .long) = some c ∧
      Check.expr .empty (.of (.prim .long)) e = .ok typed ∧
      typed.assignTo? (.prim .long) = some t ∧ c.Pushes (.long 2147483648) ∧
      t.Pushes (.long (-2147483648))) ∧
    ∃ c x, compile .default leastNegated = .ok c ∧ c.sequence.Answers (.ok x) ∧
      x.locals = [("a", .long 2147483648)] ∧ x.result = .int 0 := by
  intro e
  constructor
  · refine ⟨_, _, _, rfl, rfl, rfl, fun _ st => Typed.executes_constant _ _ st, ?_⟩
    have hdigits : Typed.Pushes (.constant (.int (-2147483648)) ⟨.prim .int, .origin⟩)
        (.int (-2147483648)) := fun _ st => Typed.executes_constant _ _ st
    have hnegated : Typed.Pushes (.negate .int (.constant (.int (-2147483648))
        ⟨.prim .int, .origin⟩) ⟨.prim .int, .origin⟩) (.int (-2147483648)) :=
      hdigits.negate rfl (Kind.holds_int _) rfl
    exact hnegated.step rfl (Kind.holds_int _) ⟨rfl, rfl, rfl⟩ fun _ => rfl
  · obtain ⟨t, st, ht, he, hst⟩ : ∃ t st, Check.unit leastNegated = .ok t ∧
        t.eval = .ok (.int 0, st) ∧ st.bindings = [("a", .long 2147483648)] :=
      ⟨_, _, rfl, rfl, rfl⟩
    have hrun := TypedUnit.answers_sequence Options.known_default (Check.wellTyped_unit nofun ht)
    rw [he] at hrun
    obtain ⟨store, hanswers, -⟩ := hrun
    exact ⟨_, _, compile_of_check ht, hanswers, hst, rfl⟩

end StackExpr
