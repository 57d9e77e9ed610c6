import StackExpr.Check.Expr

/-! What acceptance says about the parts.

One lemma for each form with parts: if the whole passes the check then so do the parts, and the tree
of the whole is made of theirs. -/
namespace StackExpr

/-- What succeeds in two steps succeeds in each of them. -/
theorem ok_of_bind {ε α β : Type} {x : Except ε α} {f : α → Except ε β} {b : β}
    (h : (x >>= f) = .ok b) : ∃ a, x = .ok a ∧ f a = .ok b := by
  cases x with
  | ok a => exact ⟨a, rfl, h⟩
  | error err => cases h

namespace Typed

variable {e l r t : Typed} {x : Local} {span : Span}

theorem moveTo_span (e : Typed) : e.moveTo e.span = e := by cases e <;> rfl

theorem ofPower_eq_ok (h : ofPower l r span = .ok t) :
    ∃ left right, l.type.isNumeric = true ∧ r.type.isNumeric = true ∧
      l.type.toPrimitive? .double = some left ∧ r.type.toPrimitive? .double = some right ∧
      t = power (l.through left) (r.through right) ⟨.prim .double, span⟩ := by
  unfold ofPower at h
  split at h
  · next left right hn hl hr =>
    cases h
    obtain ⟨hnl, hnr⟩ := Bool.and_eq_true_iff.mp hn
    exact ⟨left, right, hnl, hnr, hl, hr, rfl⟩
  · cases h

/-- A binary operator concatenates, raises to a power, or converts its operands as its family
asks. -/
theorem ofBinary_eq_ok {op : BinaryOp} (h : ofBinary op l r span = .ok t) :
    (op = .add ∧ t = concat l.stringified r.stringified ⟨.string, span⟩) ∨
      (op = .power ∧ ofPower l r span = .ok t) ∨
      op ≠ .power ∧ ∃ category c, op.category? = some category ∧
        category.coerce? l.type r.type = some c ∧
        t = ofCoercion op c (l.through c.left) (r.through c.right) span := by
  unfold ofBinary at h
  split at h
  · cases h
  · next category hcategory =>
    split at h
    · next hadd =>
      cases h
      exact .inl ⟨of_decide_eq_true (Bool.and_eq_true_iff.mp hadd).1, rfl⟩
    · split at h
      · next hpower => exact .inr (.inl ⟨hpower, h⟩)
      · next hpower =>
        split at h
        · next c hc =>
          cases h
          exact .inr (.inr ⟨hpower, category, c, hcategory, hc, rfl⟩)
        · cases h

/-- Each prefix operator converts its operand in its own way: `!` to a boolean, the others to a
promoted number. -/
theorem ofUnary_eq_ok {op : UnaryOp} (h : ofUnary op e span = .ok t) :
    (op = .not ∧ ∃ steps, e.type.isBoolean = true ∧
        e.type.toPrimitive? .boolean = some steps ∧
        t = not (e.through steps) ⟨.prim .boolean, span⟩) ∨
      (op = .plus ∧ ∃ k steps, promoted? Kind.isNumeric e.type = some (k, steps) ∧
        t = (e.through steps).moveTo span) ∨
      (op = .minus ∧ ∃ k steps, promoted? Kind.isNumeric e.type = some (k, steps) ∧
        t = negate k (e.through steps) ⟨.prim k, span⟩) ∨
      op = .complement ∧ ∃ k steps, promoted? Kind.isIntegral e.type = some (k, steps) ∧
        t = complement k (e.through steps) ⟨.prim k, span⟩ := by
  cases op with
  | typeOf | void | delete => cases h
  | not =>
    simp only [ofUnary] at h
    split at h
    · next steps hb hs =>
      cases h
      exact .inl ⟨rfl, steps, hb, hs, rfl⟩
    · cases h
  | plus =>
    simp only [ofUnary] at h
    split at h
    · next k steps hp =>
      cases h
      exact .inr (.inl ⟨rfl, k, steps, hp, rfl⟩)
    · cases h
  | minus =>
    simp only [ofUnary] at h
    split at h
    · next k steps hp =>
      cases h
      exact .inr (.inr (.inl ⟨rfl, k, steps, hp, rfl⟩))
    · cases h
  | complement =>
    simp only [ofUnary] at h
    split at h
    · next k steps hp =>
      cases h
      exact .inr (.inr (.inr ⟨rfl, k, steps, hp, rfl⟩))
    · cases h

theorem ofUpdate_eq_ok {op : UpdateOp} {before : Bool} (h : ofUpdate op before x span = .ok t) :
    x.type.isNumeric = true ∧ t = update x op.delta before ⟨x.type, span⟩ := by
  unfold ofUpdate at h
  split at h
  · next hn =>
    cases h
    exact ⟨hn, rfl⟩
  · cases h

/-- A compound assignment reads the variable first and converts back to its type. -/
theorem ofCompound_eq_ok {op : AssignOp} {binary : BinaryOp} {readAt : Span}
    (h : ofCompound op binary x readAt e span = .ok t) :
    ∃ combined steps, ofBinary binary (read x ⟨x.type, readAt⟩) e span = .ok combined ∧
      compoundSteps? combined.type x.type = some steps ∧
      t = assign x (combined.through steps) ⟨x.type, span⟩ := by
  obtain ⟨combined, hb, h⟩ := ok_of_bind h
  split at h
  · next steps hs =>
    cases h
    exact ⟨combined, steps, hb, hs, rfl⟩
  · cases h

theorem ofTest_eq_ok (h : ofTest e = .ok t) :
    e.type.isBoolean = true ∧ t = e.through ((e.type.toPrimitive? .boolean).getD []) := by
  unfold ofTest at h
  split at h
  · next hb =>
    cases h
    exact ⟨hb, rfl⟩
  · cases h

/-- The branches of a conditional are converted to the type they have in common. -/
theorem ofBranches_eq_ok (h : ofBranches e l r span = .ok t) :
    ∃ type left right, l.type.unify? r.type = some (type, left, right) ∧
      t = conditional e (l.through left) (r.through right) ⟨type, span⟩ := by
  unfold ofBranches at h
  split at h
  · next type left right hu =>
    cases h
    exact ⟨type, left, right, hu, rfl⟩
  · cases h

theorem ofCast_eq_ok {target : Ty} (h : ofCast e target span = .ok t) :
    ∃ steps, e.type.cast? target = some steps ∧
      t = (e.through steps).withTag ⟨target, span⟩ := by
  unfold ofCast at h
  split at h
  · next steps hs =>
    cases h
    exact ⟨steps, hs, rfl⟩
  · cases h

end Typed

/-- A whole constant is of an integral kind whose range has the number. -/
theorem Constant.ofWhole?_eq_some {k : Kind} {n : Int64} {d : Constant}
    (h : ofWhole? k n = some d) : k.isIntegral = true ∧ k.fits n.toInt = true ∧
      d = if k = .long then .long n else .int n.toInt32 := by
  unfold ofWhole? at h
  split at h
  · next hk =>
    cases h
    exact ⟨(Bool.and_eq_true_iff.mp hk).1, (Bool.and_eq_true_iff.mp hk).2, rfl⟩
  · cases h

namespace Expr

variable {e : Expr} {k : Kind} {d : Constant}

theorem literal_of_constantAt? (h : e.constantAt? k = some d) :
    (∃ l, e.literal? = some l) ∨ ∃ text span, e.bare = .string text span := by
  unfold constantAt? at h
  split at h
  · next hl => exact .inl ⟨_, hl⟩
  · next hl => exact .inl ⟨_, hl⟩
  · split at h
    · next text span hb => exact .inr ⟨text, span, hb⟩
    · cases h

/-- A literal at a declared type is a constant of its kind, boxed if a wrapper is declared. -/
theorem narrowed?_eq_some {target : Ty} {c : Typed} (h : e.narrowed? target = some c) :
    ∃ k d, e.constantAt? k = some d ∧
      (target = .prim k ∧ c = .constant d ⟨.prim k, e.span⟩ ∨
        target = .boxed k ∧ c = (Typed.constant d ⟨.prim k, e.span⟩).step (.box k)) := by
  simp only [narrowed?, bind, Option.bind_eq_some_iff] at h
  obtain ⟨k, hk, d, hd, h⟩ := h
  refine ⟨k, d, hd, ?_⟩
  cases target with
  | prim j =>
    cases hk
    cases h
    exact .inl ⟨rfl, rfl⟩
  | boxed j =>
    cases hk
    cases h
    exact .inr ⟨rfl, rfl⟩
  | _ => cases hk

end Expr

namespace Check

variable {scope : Scope} {hint : Hint} {e : Expr} {typed t : Typed} {extent span : Span}
  {checked : Except CheckError Typed} {target declared : Ty} {site : Site} {label : String}
  {constraint : Option RecordTy}

/-- What fits its place is a literal made for it, or was checked and can be assigned to it. -/
theorem fit_eq_ok (h : fit e target site checked = .ok t) :
    e.narrowed? target = some t ∨ e.narrowed? target = none ∧
      ∃ typed, checked = .ok typed ∧ typed.assignTo? target = some t := by
  unfold fit at h
  split at h
  · next hn =>
    cases h
    exact .inl hn
  · next hn =>
    obtain ⟨typed, hc, h⟩ := ok_of_bind h
    split at h
    · next ha =>
      cases h
      exact .inr ⟨hn, typed, hc, ha⟩
    · cases h

theorem fitElement_eq_ok (h : fitElement e declared site checked = .ok t) :
    fit e declared.storage site checked = .ok t := by
  obtain ⟨typed, hf, h⟩ := ok_of_bind h
  split at h
  · cases h
  · cases h
    exact hf

theorem fitKey_eq_ok (h : fitKey e label declared checked = .ok t) :
    fit e declared.storage (.key label declared) checked = .ok t := by
  obtain ⟨typed, hf, h⟩ := ok_of_bind h
  split at h
  · cases h
  · cases h
    exact hf

/-- Only list literals are not fitted: they answered for their elements already. -/
theorem fitValue_eq_ok (h : fitValue e label declared checked = .ok t) :
    fit e declared.storage (.value label declared) checked = .ok t ∨
      ∃ element items extent span typed, declared = .array element ∧
        e.bare = .array items extent span ∧ checked = .ok typed ∧ t = typed.moveTo extent := by
  unfold fitValue at h
  split at h
  · cases h
  · next element items extent span hb =>
    obtain ⟨typed, hc, h⟩ := ok_of_bind h
    cases h
    exact .inr ⟨element, items, extent, span, typed, rfl, hb, hc, rfl⟩
  · exact .inl h

/-- A tree at its place: a literal of some kind, or what the expression was checked to, converted or
moved. -/
def Fitted (e : Expr) (checked : Except CheckError Typed) (t : Typed) : Prop :=
  (∃ target, e.narrowed? target = some t) ∨
    ∃ typed, checked = .ok typed ∧
      ((∃ steps, t = typed.through steps) ∨ ∃ place, t = typed.moveTo place)

/-- Whatever fits a place is a literal or the checked tree, converted or moved. -/
theorem fitted_fit (h : fit e target site checked = .ok t) : Fitted e checked t := by
  rcases fit_eq_ok h with hn | ⟨-, typed, hc, ha⟩
  · exact .inl ⟨target, hn⟩
  · obtain ⟨steps, -, rfl⟩ := Option.map_eq_some_iff.mp ha
    exact .inr ⟨typed, hc, .inl ⟨steps, rfl⟩⟩

theorem fitted_fitElement (h : fitElement e declared site checked = .ok t) :
    Fitted e checked t :=
  fitted_fit (fitElement_eq_ok h)

theorem fitted_fitPropertyValue (h : fitPropertyValue constraint label e checked = .ok t) :
    Fitted e checked t := by
  cases constraint with
  | some c =>
    rcases fitValue_eq_ok h with hf | ⟨_, _, extent, _, typed, -, -, hc, rfl⟩
    · exact fitted_fit hf
    · exact .inr ⟨typed, hc, .inr ⟨extent, rfl⟩⟩
  | none =>
    obtain ⟨typed, hc, h⟩ := ok_of_bind h
    cases h
    exact .inr ⟨typed, hc, .inl ⟨_, rfl⟩⟩

theorem fitted_fitPropertyKey (h : fitPropertyKey constraint label e checked = .ok t) :
    Fitted e checked t := by
  cases constraint with
  | some c => exact fitted_fit (fitKey_eq_ok h)
  | none =>
    obtain ⟨typed, hc, h⟩ := ok_of_bind h
    cases h
    rw [Typed.stringified]
    split
    · exact .inr ⟨typed, hc, .inl ⟨[], rfl⟩⟩
    · exact .inr ⟨typed, hc, .inl ⟨_, rfl⟩⟩

theorem lookup_eq_ok {name : String} {found : LocalDecl} (h : scope.lookup name span = .ok found) :
    scope.find? name = some found := by
  unfold Scope.lookup at h
  split at h
  · next hf =>
    cases h
    exact hf
  · cases h

/-- A variable that is read was declared, and is read at its declared type. -/
theorem read_eq_ok {name : String} (h : scope.read name span = .ok t) :
    ∃ found, scope.find? name = some found ∧ t = .read found.toLocal ⟨found.type, span⟩ := by
  unfold Scope.read at h
  split at h
  · next found hl =>
    cases h
    exact ⟨found, lookup_eq_ok hl, rfl⟩
  · cases h

/-- An assignment is to a declared variable, in parentheses or not. -/
theorem target_eq_ok {x : Local} (h : scope.target e = .ok x) :
    ∃ name place found, e.bare = .var name place ∧ scope.find? name = some found ∧
      found.toLocal = x := by
  unfold Scope.target at h
  split at h
  · next name place hb =>
    split at h
    · next found hl =>
      cases h
      exact ⟨name, place, found, hb, lookup_eq_ok hl, rfl⟩
    · cases h
  · cases h

/-- Operands are checked by themselves, with nothing wished for, before the operator is. -/
theorem binary_eq_ok {op : BinaryOp} {left right : Expr}
    (h : expr scope hint (.binary op left right extent span) = .ok t) :
    op.category? ≠ none ∧ ∃ l r, expr scope .none left = .ok l ∧ expr scope .none right = .ok r ∧
      Typed.ofBinary op l r extent = .ok t := by
  rw [expr] at h
  split at h
  · cases h
  · next category hc =>
    obtain ⟨l, hl, h⟩ := ok_of_bind h
    obtain ⟨r, hr, h⟩ := ok_of_bind h
    exact ⟨by simp [hc], l, r, hl, hr, h⟩

theorem unary_eq_ok {op : UnaryOp} {operand : Expr}
    (h : expr scope hint (.unary op operand extent span) = .ok t) :
    op ∉ [.typeOf, .void, .delete] ∧ ∃ typed, expr scope .none operand = .ok typed ∧
      Typed.ofUnary op typed extent = .ok t := by
  cases op with
  | typeOf | void | delete => cases h
  | _ => exact ⟨by decide, ok_of_bind h⟩

theorem update_eq_ok {op : UpdateOp} {before : Bool} {target : Expr}
    (h : expr scope hint (.update op before target extent span) = .ok t) :
    ∃ x, scope.target target = .ok x ∧ Typed.ofUpdate op before x extent = .ok t :=
  ok_of_bind h

/-- A plain assignment fits the value to the variable; a compound one first combines it with what is
read. -/
theorem assign_eq_ok {op : AssignOp} {target value : Expr}
    (h : expr scope hint (.assign op target value extent span) = .ok t) :
    ∃ x, scope.target target = .ok x ∧
      (op = .set ∧ (∃ v, fit value x.type (.place (.assignment x.name))
            (expr scope (.of x.type) value) = .ok v ∧ t = .assign x v ⟨x.type, extent⟩) ∨
        op ≠ .set ∧ ∃ binary v, op.binary? = some binary ∧ expr scope .none value = .ok v ∧
          Typed.ofCompound op binary x target.span v extent = .ok t) := by
  obtain ⟨x, hx, h⟩ := ok_of_bind h
  refine ⟨x, hx, ?_⟩
  split at h
  · next hop =>
    obtain ⟨v, hv, h⟩ := ok_of_bind h
    cases h
    refine .inl ⟨?_, v, hv, rfl⟩
    cases op with
    | set => rfl
    | _ => cases hop
  · next binary hop =>
    obtain ⟨v, hv, h⟩ := ok_of_bind h
    refine .inr ⟨?_, binary, v, hop, hv, h⟩
    rintro rfl
    cases hop

/-- The wish of a conditional goes to its branches and not to its test. -/
theorem conditional_eq_ok {test yes no : Expr}
    (h : expr scope hint (.conditional test yes no extent span) = .ok t) :
    ∃ c c' y n, expr scope .none test = .ok c ∧ Typed.ofTest c = .ok c' ∧
      expr scope hint.branch yes = .ok y ∧ expr scope hint.branch no = .ok n ∧
      Typed.ofBranches c' y n extent = .ok t := by
  obtain ⟨c, hc, h⟩ := ok_of_bind h
  obtain ⟨c', hc', h⟩ := ok_of_bind h
  obtain ⟨y, hy, h⟩ := ok_of_bind h
  obtain ⟨n, hn, h⟩ := ok_of_bind h
  exact ⟨c, c', y, n, hc, hc', hy, hn, h⟩

theorem cast_eq_ok {operand : Expr} {written : TypeExpr}
    (h : expr scope hint (.cast operand written extent span) = .ok t) :
    ∃ type typed, written.resolve = .ok type ∧ expr scope (.of type) operand = .ok typed ∧
      Typed.ofCast typed type extent = .ok t := by
  rw [expr] at h
  split at h
  · cases h
  · next type hr =>
    obtain ⟨typed, ht, h⟩ := ok_of_bind h
    exact ⟨type, typed, hr, ht, h⟩

/-- An object literal is the record of its properties, whose type they decide unless it is declared.
-/
theorem object_eq_ok {props : List Property}
    (h : expr scope hint (.object props extent span) = .ok t) :
    ∃ entries, properties scope hint.record? 0 props = .ok entries ∧
      t = .record ⟨recordType hint.record? entries, hint.record?.isSome, extent⟩ entries
        ⟨(recordType hint.record? entries).toTy, extent⟩ := by
  obtain ⟨-, -, h⟩ := ok_of_bind h
  obtain ⟨entries, he, h⟩ := ok_of_bind h
  cases h
  exact ⟨entries, he, rfl⟩

/-- A list literal has the elements that are wished for, or whatever they have in common. -/
theorem array_eq_ok {items : List Expr} (h : expr scope hint (.array items extent span) = .ok t) :
    (∃ declared es, hint.type = some (.array declared) ∧
        elements scope declared hint.elements items = .ok es ∧
        t = .list es ⟨.array declared.storage, extent⟩) ∨
      (∀ declared, hint.type ≠ some (.array declared)) ∧
        ∃ es, freeElements scope items = .ok es ∧
          t = .list es ⟨.array (Typed.commonType es), extent⟩ := by
  rw [expr] at h
  split at h
  · next declared hd =>
    obtain ⟨es, he, h⟩ := ok_of_bind h
    cases h
    exact .inl ⟨declared, es, hd, he, rfl⟩
  · next hd =>
    obtain ⟨es, he, h⟩ := ok_of_bind h
    cases h
    exact .inr ⟨hd, es, he, rfl⟩

theorem paren_eq_ok {inner : Expr} (h : expr scope hint (.paren inner span) = .ok t) :
    ∃ typed, expr scope hint inner = .ok typed ∧ t = typed.moveTo span := by
  obtain ⟨typed, ht, h⟩ := ok_of_bind h
  cases h
  exact ⟨typed, ht, rfl⟩

/-- Elements and properties are checked one after the other, each by itself. -/
theorem elements_eq_ok {e : Expr} {rest : List Expr} {es : List Typed}
    (h : elements scope declared site (e :: rest) = .ok es) :
    ∃ first others, es = first :: others ∧
      fitElement e declared site (expr scope (.of declared.storage) e) = .ok first ∧
      elements scope declared site rest = .ok others := by
  obtain ⟨first, hf, h⟩ := ok_of_bind h
  obtain ⟨others, ho, h⟩ := ok_of_bind h
  cases h
  exact ⟨first, others, rfl, hf, ho⟩

theorem freeElements_eq_ok {e : Expr} {rest : List Expr} {es : List Typed}
    (h : freeElements scope (e :: rest) = .ok es) :
    ∃ first others, es = first.boxed :: others ∧ expr scope .none e = .ok first ∧
      freeElements scope rest = .ok others := by
  obtain ⟨first, hf, h⟩ := ok_of_bind h
  obtain ⟨others, ho, h⟩ := ok_of_bind h
  cases h
  exact ⟨first, others, rfl, hf, ho⟩

theorem properties_eq_ok {p : Property} {rest : List Property} {order : Nat} {entries : List Entry}
    (h : properties scope constraint order (p :: rest) = .ok entries) :
    ∃ first others, entries = first :: others ∧ property scope constraint order p = .ok first ∧
      properties scope constraint (order + 1) rest = .ok others := by
  obtain ⟨first, hf, h⟩ := ok_of_bind h
  obtain ⟨others, ho, h⟩ := ok_of_bind h
  cases h
  exact ⟨first, others, rfl, hf, ho⟩

/-- A computed key is fitted like a value, and before the value. -/
theorem computed_eq_ok {source value : Expr} {place : Span} {order : Nat} {entry : Entry}
    (h : property scope constraint order (.keyed (.computed source place) value span) =
      .ok entry) :
    ∃ k v, fitPropertyKey constraint (Key.computed source place).label source
        (expr scope (keyHint constraint) source) = .ok k ∧
      fitPropertyValue constraint (Key.computed source place).label value
        (expr scope (valueHint constraint (Key.computed source place).label) value) = .ok v ∧
      entry = .computed k v ⟨order, .computed, k.type, v.type, span⟩ := by
  obtain ⟨k, hk, h⟩ := ok_of_bind h
  obtain ⟨v, hv, h⟩ := ok_of_bind h
  cases h
  exact ⟨k, v, hk, hv, rfl⟩

/-- A written key is a constant of the declared key type, and its value is fitted beside it. -/
theorem keyed_eq_ok {key : Key} {value : Expr} {order : Nat} {entry : Entry}
    (h : property scope constraint order (.keyed key value span) = .ok entry)
    (hkey : ∀ source place, key ≠ .computed source place) :
    ∃ k v, key.constant (declaredKey constraint) = .ok k ∧
      fitPropertyValue constraint key.label value
        (expr scope (valueHint constraint key.label) value) = .ok v ∧
      entry = fixedEntry k v order .literal span := by
  rw [property] at h
  · obtain ⟨k, hk, h⟩ := ok_of_bind h
    obtain ⟨v, hv, h⟩ := ok_of_bind h
    cases h
    exact ⟨k, v, hk, hv, rfl⟩
  · exact hkey

theorem shorthand_eq_ok {name : String} {order : Nat} {entry : Entry}
    (h : property scope constraint order (.shorthand name span) = .ok entry) :
    ∃ k v, (Key.name name span).constant (declaredKey constraint) = .ok k ∧
      fitPropertyValue constraint name (.var name span) (scope.read name span) = .ok v ∧
      entry = fixedEntry k v order .shorthand span := by
  obtain ⟨k, hk, h⟩ := ok_of_bind h
  obtain ⟨v, hv, h⟩ := ok_of_bind h
  cases h
  exact ⟨k, v, hk, hv, rfl⟩

theorem spread_eq_ok {source : Expr} {order : Nat} {entry : Entry}
    (h : property scope constraint order (.spread source span) = .ok entry) :
    ∃ typed place types, expr scope (spreadHint constraint source) source = .ok typed ∧
      spreadTypes constraint (typed.moveTo place).type source.span span = .ok types ∧
      entry = .spread (typed.moveTo place) ⟨order, .spread, types.key, types.value, span⟩ := by
  obtain ⟨typed, ht, h⟩ := ok_of_bind h
  obtain ⟨types, hs, h⟩ := ok_of_bind h
  cases h
  by_cases ho : isObject source = true
  · rw [if_pos ho] at hs ⊢
    exact ⟨typed, source.span, types, ht, hs, rfl⟩
  · rw [if_neg ho] at hs ⊢
    exact ⟨typed, typed.span, types, ht, by rwa [Typed.moveTo_span], by rw [Typed.moveTo_span]⟩

end Check

end StackExpr
