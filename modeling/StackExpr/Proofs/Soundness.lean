import Mathlib.Data.List.Nodup
import StackExpr.Proofs.Values

/-! Well-typed trees evaluate to values of their types, or meet an expected fault.

Evaluation changes no container that was there before; those it makes are unfinished until all
their entries are in. -/
namespace StackExpr

namespace Bindings

variable {name other : String} {v : Value} {b : Bindings}

theorem map_fst_set (name : String) (v : Value) (b : Bindings) :
    (b.set name v).map (·.1) = b.map (·.1) := by
  induction b with
  | nil => rfl
  | cons x rest ih =>
    obtain ⟨n, w⟩ := x
    rw [set]
    split
    · rfl
    · simp [ih]

theorem lookup_set_self {w : Value} (h : b.lookup name = some w) :
    (b.set name v).lookup name = some v := by
  induction b with
  | nil => cases h
  | cons x rest ih =>
    obtain ⟨n, w'⟩ := x
    rw [set]
    split
    · next he => simp [he]
    · next he =>
      have hn : (name == n) = false := by simpa using fun h => he h.symm
      simp only [List.lookup_cons, hn] at h ⊢
      exact ih h

theorem lookup_set_ne (h : other ≠ name) : (b.set name v).lookup other = b.lookup other := by
  induction b with
  | nil => rfl
  | cons x rest ih =>
    obtain ⟨n, w⟩ := x
    rw [set]
    split
    · next he =>
      have hn : (other == n) = false := by simpa [he] using h
      simp only [List.lookup_cons, hn]
    · simp only [List.lookup_cons, ih]

end Bindings

namespace EvalState

variable {deep : Bool} {vars : List Local} {u : Unfinished} {st st' : EvalState} {s : Store}
  {x : Local} {v : Value}

/-- Every variable has a finished value of its type. -/
structure Sound (deep : Bool) (vars : List Local) (u : Unfinished) (st : EvalState) : Prop where
  names : st.bindings.map (·.1) = vars.map (·.name)
  values : ∀ x ∈ vars, ∃ v, st.bindings.lookup x.name = some v ∧ v.Good deep u st.store x.type
  houses : st.store.Houses u

/-- What an evaluation may do to a state. -/
structure Leads (deep : Bool) (vars : List Local) (u : Unfinished) (st st' : EvalState) :
    Prop where
  keeps : st.store.Keeps .none st'.store
  sound : st'.Sound deep vars u

namespace Sound

/-- Variables keep good values while unfinished containers are filled. -/
theorem of_keeps (h : st.Sound deep vars u) (hk : st.store.Keeps u s) :
    EvalState.Sound deep vars u { st with store := s } where
  names := h.names
  values x hx := by
    obtain ⟨v, hl, hv⟩ := h.values x hx
    exact ⟨v, hl, hv.of_keeps hk⟩
  houses := h.houses.of_keeps hk

theorem refl (h : st.Sound deep vars u) : st.Leads deep vars u st := ⟨.refl _ _, h⟩

/-- A variable may be given any good value of its type. -/
theorem assign (h : st.Sound deep vars u) (hn : (vars.map (·.name)).Nodup) (hx : x ∈ vars)
    (hv : v.Good deep u st.store x.type) :
    EvalState.Sound deep vars u { st with bindings := st.bindings.set x.name v } where
  names := by rw [Bindings.map_fst_set, h.names]
  values y hy := by
    by_cases he : y.name = x.name
    · obtain rfl := List.inj_on_of_nodup_map hn hy hx he
      obtain ⟨w, hl, -⟩ := h.values y hy
      exact ⟨v, Bindings.lookup_set_self hl, hv⟩
    · obtain ⟨w, hl, hw⟩ := h.values y hy
      exact ⟨w, by rw [Bindings.lookup_set_ne he, hl], hw⟩
  houses := h.houses

theorem lookup_eq_none {name : String} (h : st.Sound deep vars u)
    (hn : name ∉ vars.map (·.name)) : st.bindings.lookup name = none := by
  rw [← h.names] at hn
  rw [List.lookup_eq_none_iff]
  exact fun p hp => bne_iff_ne.mpr fun he => hn (List.mem_map.mpr ⟨p, hp, he.symm⟩)

/-- A new variable comes with a good value of its type. -/
theorem declare (h : st.Sound deep vars u) (hn : x.name ∉ vars.map (·.name))
    (hv : v.Good deep u st.store x.type) :
    EvalState.Sound deep (vars ++ [x]) u
      { st with bindings := st.bindings ++ [(x.name, v)] } where
  names := by simp [h.names]
  values y hy := by
    rcases List.mem_append.mp hy with hy | hy
    · obtain ⟨w, hl, hw⟩ := h.values y hy
      exact ⟨w, by rw [List.lookup_append, hl]; rfl, hw⟩
    · obtain rfl := List.mem_singleton.mp hy
      exact ⟨v, by simp [List.lookup_append, h.lookup_eq_none hn], hv⟩
  houses := h.houses

theorem newMap (h : st.Sound deep vars u) :
    EvalState.Sound deep vars (u.addMap st.store.maps.length)
      { st with store := (st.store.newMap []).2 } where
  names := h.names
  values x hx := by
    obtain ⟨v, hl, hv⟩ := h.values x hx
    exact ⟨v, hl, hv.newMap⟩
  houses := h.houses.newMap

theorem newList (h : st.Sound deep vars u) :
    EvalState.Sound deep vars (u.addList st.store.lists.length)
      { st with store := (st.store.newList []).2 } where
  names := h.names
  values x hx := by
    obtain ⟨v, hl, hv⟩ := h.values x hx
    exact ⟨v, hl, hv.newList⟩
  houses := h.houses.newList

/-- A state stays sound when a container is finished. -/
theorem ofMap {a : Address} (h : st.Sound deep vars (u.addMap a)) : st.Sound deep vars u where
  names := h.names
  values x hx := by
    obtain ⟨v, hl, hv⟩ := h.values x hx
    exact ⟨v, hl, hv.ofMap⟩
  houses := h.houses.ofMap

theorem ofList {a : Address} (h : st.Sound deep vars (u.addList a)) : st.Sound deep vars u where
  names := h.names
  values x hx := by
    obtain ⟨v, hl, hv⟩ := h.values x hx
    exact ⟨v, hl, hv.ofList⟩
  houses := h.houses.ofList

end Sound

/-- One evaluation after another leads where the second ends. -/
theorem Leads.trans {st'' : EvalState} (h : st.Leads deep vars u st')
    (h' : st'.Leads deep vars u st'') : st.Leads deep vars u st'' :=
  ⟨h.keeps.trans h'.keeps, h'.sound⟩

end EvalState

section evaluation

variable {α β : Type} {deep : Bool} {vars : List Local} {u : Unfinished} {st : EvalState}

/-- Two evaluations meet expected faults only, if each does. -/
theorem Safe.bind {x : Eval α} {f : α → Eval β} {P : α × EvalState → Prop}
    {Q : β × EvalState → Prop} (h : Safe (x st) P)
    (hf : ∀ a st', x st = .ok (a, st') → P (a, st') → Safe (f a st') Q) :
    Safe ((x >>= f) st) Q := by
  cases hx : x st with
  | ok p =>
    rw [hx] at h
    rw [Eval.bind_of_ok hx]
    exact hf p.1 p.2 hx h
  | error k =>
    rw [hx] at h
    rw [Eval.bind_of_error hx]
    exact h

theorem Safe.lift {r : Except FaultKind α} {P : α → Prop} (h : Safe r P) :
    Safe (Eval.lift r st) fun p => P p.1 ∧ p.2 = st := by
  cases r with
  | ok a => exact ⟨h, rfl⟩
  | error k => exact h

/-- An evaluation that ends in a value of a type. -/
def Typed.SafeAt (deep : Bool) (vars : List Local) (u : Unfinished) (st : EvalState) (t : Ty)
    (r : Except FaultKind (Value × EvalState)) : Prop :=
  Safe r fun p => st.Leads deep vars u p.2 ∧ p.1.Good deep u p.2.store t

theorem Typed.eval_of_isStringConstant {e : Typed} (h : e.isStringConstant = true)
    (st : EvalState) : ∃ text, e.eval st = .ok (.string text, st) := by
  cases e with
  | constant c tag =>
    cases c with
    | string text => exact ⟨text, rfl⟩
    | _ => cases h
  | _ => cases h

namespace Typed

variable {t t' : Ty} {r : Except FaultKind (Value × EvalState)}

/-- A value of a type is one of every type it fits. -/
theorem SafeAt.of_fits (h : SafeAt deep vars u st t r) (hf : t.Fits deep t') :
    SafeAt deep vars u st t' r :=
  Safe.mono h fun _ hp => ⟨hp.1, hf _ _ hp.2.conforms, hp.2.grounded⟩

theorem SafeAt.of_yields {e : Typed} (h : SafeAt deep vars u st e.type (e.eval st))
    (hs : st.Sound deep vars u) (hy : e.Yields deep t) : SafeAt deep vars u st t (e.eval st) := by
  rcases hy with hf | ⟨hc, hf⟩
  · exact h.of_fits hf
  · obtain ⟨text, he⟩ := eval_of_isStringConstant hc st
    rw [he]
    exact ⟨hs.refl, hf _ _ (.inr ⟨text, rfl⟩), Store.grounded_string text⟩

theorem SafeAt.lift {r : Except FaultKind Value} (hs : st.Sound deep vars u)
    (h : Safe r (Value.Good deep u st.store t)) : SafeAt deep vars u st t (Eval.lift r st) := by
  refine (Safe.lift h).mono ?_
  rintro ⟨v, st'⟩ ⟨hv, rfl⟩
  exact ⟨hs.refl, hv⟩

/-- What follows the value of an operand. -/
theorem SafeAt.then {x : Eval Value} {f : Value → Eval Value} (h : SafeAt deep vars u st t (x st))
    (hf : ∀ v st', v.Good deep u st'.store t → st'.Sound deep vars u →
      SafeAt deep vars u st' t' (f v st')) :
    SafeAt deep vars u st t' ((x >>= f) st) := by
  refine Safe.bind h fun v st' _ hv => ?_
  exact (hf v st' hv.2 hv.1.sound).mono fun p hp => ⟨hv.1.trans hp.1, hp.2⟩

/-- An operation on the value of one operand. -/
theorem SafeAt.unary {x : Eval Value} {f : Value → Except FaultKind Value}
    (h : SafeAt deep vars u st t (x st))
    (hf : ∀ s v, v.Good deep u s t → Safe (f v) (Value.Good deep u s t')) :
    SafeAt deep vars u st t' ((do let v ← x; Eval.lift (f v)) st) :=
  h.then fun v _ hv hs => .lift hs (hf _ v hv)

/-- The value of the first operand is still good after the second is evaluated. -/
theorem SafeAt.both {x y : Eval Value} {tx ty : Ty} {f : Value → Value → Eval Value}
    (hx : SafeAt deep vars u st tx (x st))
    (hy : ∀ st', st'.Sound deep vars u → SafeAt deep vars u st' ty (y st'))
    (hf : ∀ a b st', a.Good deep u st'.store tx → b.Good deep u st'.store ty →
      st'.Sound deep vars u → SafeAt deep vars u st' t (f a b st')) :
    SafeAt deep vars u st t ((do let a ← x; let b ← y; f a b) st) := by
  refine Safe.bind hx fun a st₁ _ ha => ?_
  refine Safe.bind (hy st₁ ha.1.sound) fun b st₂ _ hb => ?_
  have ha' := ha.2.of_keeps (hb.1.keeps.of_none (u := u))
  refine (hf a b st₂ ha' hb.2 hb.1.sound).mono fun p hp => ?_
  exact ⟨(ha.1.trans hb.1).trans hp.1, hp.2⟩

/-- An operation on the values of two operands. -/
theorem SafeAt.binary {x y : Eval Value} {tx ty : Ty} {f : Value → Value → Except FaultKind Value}
    (hx : SafeAt deep vars u st tx (x st))
    (hy : ∀ st', st'.Sound deep vars u → SafeAt deep vars u st' ty (y st'))
    (hf : ∀ s a b, a.Good deep u s tx → b.Good deep u s ty →
      Safe (f a b) (Value.Good deep u s t)) :
    SafeAt deep vars u st t ((do let a ← x; let b ← y; Eval.lift (f a b)) st) :=
  SafeAt.both hx hy fun a b _ ha hb hs => .lift hs (hf _ a b ha hb)

/-- What is assigned has to be good for the variable. -/
theorem SafeAt.assign {x : Local} {v : Value} (hs : st.Sound deep vars u)
    (hn : (vars.map (·.name)).Nodup) (hx : x ∈ vars) (hv : v.Good deep u st.store x.type)
    {w : Value} (hw : w.Good deep u st.store t) :
    SafeAt deep vars u st t ((do Eval.assign x.name v; return w) st) :=
  ⟨⟨.refl _ _, hs.assign hn hx hv⟩, hw⟩

/-- A counter that goes up or down stays good for its variable. -/
theorem safe_bumped {v : Value} {delta : Int8} {s : Store} (ht : t.isNumeric = true)
    (hv : v.Good deep u s t) : Safe (Eval.bumped t delta v) (Value.Good deep u s t) := by
  cases t with
  | prim k =>
    obtain ⟨w, hw, hh⟩ := Kind.exists_bump hv.conforms ht delta
    rw [Eval.bumped, hw]
    exact Value.good_of_holds hh
  | boxed k =>
    have h := Value.safe_unbox hv.conforms
    rw [Eval.bumped]
    cases hx : v.unbox k with
    | error f =>
      rw [hx] at h
      exact h
    | ok x =>
      rw [hx] at h
      obtain ⟨y, hy, hh⟩ := Kind.exists_bump h ht delta
      obtain ⟨w, hw, hk⟩ := Kind.exists_box hh
      simp only [bind, Except.bind, hy, hw]
      exact Value.good_boxed hk
  | _ => cases ht

end Typed

namespace Entry

variable {r : RecordTy} {a : Address}

/-- A step in filling the map at an address. -/
def SafeIn (deep : Bool) (vars : List Local) (u : Unfinished) (st : EvalState) (r : RecordTy)
    (a : Address) (res : Except FaultKind (Unit × EvalState)) : Prop :=
  Safe res fun p => st.store.Keeps ⟨[a], []⟩ p.2.store ∧ p.2.Sound deep vars u ∧
    p.2.store.Filling deep u r a

theorem eq_ofKey {v : Value} {key : MapKey} (h : v.key? = some key) : v = .ofKey key := by
  cases v <;> cases h <;> rfl

/-- A pair may be put into a map whose keys and values it fits. -/
theorem safeIn_put {k v : Value} (hs : st.Sound deep vars u) (hf : st.store.Filling deep u r a)
    (hk : k.Good deep u st.store r.key.storage) (hv : v.Good deep u st.store r.value.storage) :
    SafeIn deep vars u st r a (Eval.put a k v st) := by
  rw [Eval.put]
  cases hkey : k.key? with
  | none => rfl
  | some key =>
    obtain rfl := eq_ofKey hkey
    have hv' := Value.conforms_storage.mp hv.conforms
    have hp : st.store.Admits deep u r (key, v) :=
      ⟨hv'.stackKind, hv.grounded, fun _ => Value.conforms_storage.mp hk.conforms, fun _ => hv'⟩
    refine ⟨.put List.mem_cons_self, hs.of_keeps (.put hf.unfinished), hf.put hp⟩

/-- The pairs of another map may be put if they fit the keys and values. -/
theorem safeIn_spread {v : Value} {t : Ty} (hs : st.Sound deep vars u)
    (hf : st.store.Filling deep u r a) (hv : v.Good deep u st.store t)
    (he : ∀ b, v = .map b → deep = true → ∀ e ∈ st.store.entries b, e.2.stackKind = .reference →
      (Value.ofKey e.1).Kept deep st.store r.key ∧ e.2.Kept deep st.store r.value) :
    SafeIn deep vars u st r a (Eval.spread a v st) := by
  cases v with
  | map b =>
    have hg := hv.grounded.entries
    have hp : ∀ e ∈ st.store.entries b, st.store.Admits deep u r e := fun e hx =>
      ⟨(hg e hx).1, (hg e hx).2, fun hd => (he b rfl hd e hx (hg e hx).1).1,
        fun hd => (he b rfl hd e hx (hg e hx).1).2⟩
    exact ⟨.foldl_put List.mem_cons_self, hs.of_keeps (.foldl_put hf.unfinished),
      hf.foldl_put hp⟩
  | _ => rfl

end Entry

theorem Constant.grounded_value {s : Store} {n : Nat} (c : Constant) : s.Grounded u n c.value := by
  cases c <;> cases n <;> trivial

/-- A literal key is kept as a value that can be a key. -/
theorem Constant.Keyed.kept {c : Constant} {stored : Ty} {s : Store} (h : c.Keyed stored) :
    ∃ v, c.kept stored = .ok v ∧ v.Good deep u s stored := by
  rcases h with ⟨k, rfl, hk, -⟩ | ⟨rfl, text, rfl⟩
  · obtain ⟨w, hw, he⟩ := Kind.exists_box hk
    exact ⟨_, hw, Value.good_boxed he⟩
  · exact ⟨_, rfl, Value.good_string text⟩

/-- Whatever sound state it starts in, the tree evaluates safely. -/
def Typed.IsSafe (deep : Bool) (vars : List Local) (e : Typed) : Prop :=
  ∀ (u : Unfinished) (st : EvalState), st.Sound deep vars u →
    Typed.SafeAt deep vars u st e.type (e.eval st)

namespace Typed

variable {l r e t y n : Typed} {tag : Tag} {k : Kind} {x : Local}

/-- Variables are sound, so they are read safely. There is one lemma for each kind of node: if its
parts evaluate safely, so does the node. -/
theorem isSafe_read (hx : x ∈ vars) (hf : x.type.Fits deep tag.type) :
    (read x tag).IsSafe deep vars := by
  intro u st hs
  obtain ⟨v, hl, hv⟩ := hs.values x hx
  have he : (read x tag).eval st = .ok (v, st) := by simp only [eval, Eval.lookup, hl]
  rw [he]
  exact ⟨hs.refl, hf _ _ hv.conforms, hv.grounded⟩

/-- A step meets no fault but those it can meet at the type it is made for. -/
theorem isSafe_convert {step : Conversion} (he : e.IsSafe deep vars)
    (ht : step.Takes deep e.type) (hf : step.result.Fits deep tag.type) :
    (convert e step tag).IsSafe deep vars := by
  intro u st hs
  refine SafeAt.of_fits (SafeAt.then (he u st hs) fun v st' hv hs' => ?_) hf
  exact .lift hs' (Conversion.safe_convert ht hv)

theorem isSafe_arith {op : ArithOp} (hl : l.IsSafe deep vars) (hr : r.IsSafe deep vars)
    (htl : l.type = .prim k) (htr : r.type = .prim (if op.isShift then .int else k))
    (hop : op.admits k = true) (hf : (Ty.prim k).Fits deep tag.type) :
    (arith op k l r tag).IsSafe deep vars := by
  intro u st hs
  refine SafeAt.of_fits (SafeAt.binary (hl u st hs) (hr u) fun s a b ha hb => ?_) hf
  rw [htl] at ha
  rw [htr] at hb
  exact (Kind.safe_arith ha.conforms hb.conforms hop).mono fun _ => Value.good_of_holds

theorem isSafe_power (hl : l.IsSafe deep vars) (hr : r.IsSafe deep vars)
    (htl : l.type = .prim .double) (htr : r.type = .prim .double)
    (hf : (Ty.prim .double).Fits deep tag.type) : (power l r tag).IsSafe deep vars := by
  intro u st hs
  refine SafeAt.of_fits (SafeAt.binary (hl u st hs) (hr u) fun s a b ha hb => ?_) hf
  rw [htl] at ha
  rw [htr] at hb
  exact (Kind.safe_raise ha.conforms hb.conforms).mono fun _ => Value.good_of_holds

theorem isSafe_negate (he : e.IsSafe deep vars) (ht : e.type = .prim k)
    (hk : k.isPromoted = true) (hf : (Ty.prim k).Fits deep tag.type) :
    (negate k e tag).IsSafe deep vars := by
  intro u st hs
  refine SafeAt.of_fits (SafeAt.unary (he u st hs) fun s v hv => ?_) hf
  rw [ht] at hv
  exact (Kind.safe_negate hv.conforms hk).mono fun _ => Value.good_of_holds

theorem isSafe_complement (he : e.IsSafe deep vars) (ht : e.type = .prim k)
    (hk : k = .int ∨ k = .long) (hf : (Ty.prim k).Fits deep tag.type) :
    (complement k e tag).IsSafe deep vars := by
  intro u st hs
  refine SafeAt.of_fits (SafeAt.unary (he u st hs) fun s v hv => ?_) hf
  rw [ht] at hv
  exact (Kind.safe_complement hv.conforms hk).mono fun _ => Value.good_of_holds

theorem isSafe_not (he : e.IsSafe deep vars) (ht : e.type = .prim .boolean)
    (hf : (Ty.prim .boolean).Fits deep tag.type) : (not e tag).IsSafe deep vars := by
  intro u st hs
  refine SafeAt.of_fits (SafeAt.unary (he u st hs) fun s v hv => ?_) hf
  rw [ht] at hv
  obtain ⟨b, -, hb⟩ := Kind.Holds.eq_ofBool hv.conforms
  rw [Value.not, hb]
  exact Value.good_of_holds (Kind.holds_ofBool _)

theorem safeAt_ofBool (hs : st.Sound deep vars u) (b : Bool) :
    SafeAt deep vars u st (.prim .boolean) (.ok (.ofBool b, st)) :=
  ⟨hs.refl, Value.good_of_holds (Kind.holds_ofBool b)⟩

theorem eval_compare_numbers {op : Comparison} {mode : OperandMode} (hmr : mode ≠ .reference)
    (hmn : mode ≠ .nullCheck) : (compare op mode l r tag).eval = (do
      let a ← l.eval
      let b ← r.eval
      Eval.lift (a.compare op b)) := by
  rw [eval]
  · exact hmr
  · exact hmn

/-- A check for `null` evaluates one operand and takes the other for `null` by its type. -/
theorem eval_compare_nullCheck {op : Comparison} : (compare op .nullCheck l r tag).eval = (do
    let v ← (if l.type.isNull then r else l).eval
    return .ofBool (v.isNull != (op == .notEqual))) := by
  rw [eval]
  split_ifs <;> rfl

theorem isSafe_compare {op : Comparison} {mode : OperandMode} (hl : l.IsSafe deep vars)
    (hr : r.IsSafe deep vars) (hm : mode.Takes l.type r.type)
    (hf : (Ty.prim .boolean).Fits deep tag.type) : (compare op mode l r tag).IsSafe deep vars := by
  intro u st hs
  have hnum (k : Kind) (htl : l.type = .prim k) (htr : r.type = .prim k) :
      SafeAt deep vars u st (.prim .boolean)
        ((do let a ← l.eval; let b ← r.eval; Eval.lift (a.compare op b)) st) := by
    refine SafeAt.binary (hl u st hs) (hr u) fun s a b ha hb => ?_
    rw [htl] at ha
    rw [htr] at hb
    obtain ⟨o, ho⟩ := Kind.exists_order ha.conforms hb.conforms
    rw [Value.compare, ho]
    exact Value.good_of_holds (Kind.holds_ofBool _)
  refine SafeAt.of_fits (t := .prim .boolean) ?_ hf
  cases mode with
  | numeric k => exact hnum k hm.2.1 hm.2.2
  | boolean => exact hnum .boolean hm.1 hm.2
  | reference => exact SafeAt.both (hl u st hs) (hr u) fun a b st' _ _ hs' => safeAt_ofBool hs' _
  | nullCheck =>
    rw [eval_compare_nullCheck]
    split
    · exact SafeAt.then (hr u st hs) fun v st' _ hs' => safeAt_ofBool hs' _
    · exact SafeAt.then (hl u st hs) fun v st' _ hs' => safeAt_ofBool hs' _

/-- The truth of a test, and what follows it. -/
theorem SafeAt.test {x : Eval Value} {f : Bool → Eval Value} {t' : Ty}
    (h : SafeAt deep vars u st (.prim .boolean) (x st))
    (hf : ∀ b st', st'.Sound deep vars u → SafeAt deep vars u st' t' (f b st')) :
    SafeAt deep vars u st t' ((do let v ← x; let b ← Eval.lift v.truth; f b) st) := by
  refine SafeAt.then h fun v st' hv hs => ?_
  obtain ⟨b, -, hb⟩ := Kind.Holds.eq_ofBool hv.conforms
  rw [hb]
  exact hf b st' hs

theorem isSafe_logical {op : LogicalOp} (hl : l.IsSafe deep vars) (hr : r.IsSafe deep vars)
    (htl : l.type = .prim .boolean) (htr : r.type = .prim .boolean)
    (hf : (Ty.prim .boolean).Fits deep tag.type) : (logical op l r tag).IsSafe deep vars := by
  intro u st hs
  have hl' := hl u st hs
  rw [htl] at hl'
  refine SafeAt.of_fits (SafeAt.test hl' fun a st' hs' => ?_) hf
  split
  · exact safeAt_ofBool hs' a
  · have hr' := hr u st' hs'
    rw [htr] at hr'
    exact SafeAt.test hr' fun b st'' hs'' => safeAt_ofBool hs'' b

theorem isSafe_concat (hl : l.IsSafe deep vars) (hr : r.IsSafe deep vars)
    (hyl : l.Yields deep .string) (hyr : r.Yields deep .string)
    (hf : Ty.string.Fits deep tag.type) : (concat l r tag).IsSafe deep vars := by
  intro u st hs
  refine SafeAt.of_fits (SafeAt.binary ((hl u st hs).of_yields hs hyl)
    (fun st' hs' => (hr u st' hs').of_yields hs' hyr) fun s a b ha hb => ?_) hf
  exact Value.safe_concat ha.conforms hb.conforms

/-- A counter must be a number and keeps its type. -/
theorem isSafe_update {delta : Int8} {before : Bool} (hn : (vars.map (·.name)).Nodup)
    (hx : x ∈ vars) (ht : x.type.isNumeric = true) (hf : x.type.Fits deep tag.type) :
    (update x delta before tag).IsSafe deep vars := by
  intro u st hs
  obtain ⟨old, hl, hv⟩ := hs.values x hx
  have hlook : Eval.lookup x.name st = .ok (old, st) := by simp only [Eval.lookup, hl]
  have hb : Safe (Eval.bumped x.type delta old) _ := safe_bumped ht hv
  refine SafeAt.of_fits (t := x.type) ?_ hf
  refine Safe.bind (P := (· = (old, st))) (by rw [hlook]; rfl) ?_
  rintro v st' - ⟨rfl, rfl⟩
  refine Safe.bind (Safe.lift hb) ?_
  rintro new st' - ⟨hnew, rfl⟩
  cases before with
  | true => exact SafeAt.assign hs hn hx hnew hnew
  | false => exact SafeAt.assign hs hn hx hnew hv

theorem isSafe_assign (hn : (vars.map (·.name)).Nodup) (hx : x ∈ vars) (he : e.IsSafe deep vars)
    (ht : e.type.Fits deep x.type) (hf : x.type.Fits deep tag.type) :
    (assign x e tag).IsSafe deep vars := by
  intro u st hs
  refine SafeAt.of_fits (SafeAt.then (SafeAt.of_fits (he u st hs) ht) ?_) hf
  exact fun v st' hv hs' => .assign hs' hn hx hv hv

theorem isSafe_conditional (ht : t.IsSafe deep vars) (hy : y.IsSafe deep vars)
    (hn : n.IsSafe deep vars) (htt : t.type = .prim .boolean) (hfy : y.type.Fits deep tag.type)
    (hfn : n.type.Fits deep tag.type) : (conditional t y n tag).IsSafe deep vars := by
  intro u st hs
  have ht' := ht u st hs
  rw [htt] at ht'
  refine SafeAt.test ht' fun b st' hs' => ?_
  cases b with
  | true => exact SafeAt.of_fits (hy u st' hs') hfy
  | false => exact SafeAt.of_fits (hn u st' hs') hfn

end Typed

namespace Entry

variable {r : RecordTy} {a : Address} {key value source : Typed} {tag : EntryTag}

/-- Whatever sound state it starts in, the entry fills the map safely. -/
def IsSafe (deep : Bool) (vars : List Local) (r : RecordTy) (e : Entry) : Prop :=
  ∀ (a : Address) (u : Unfinished) (st : EvalState), st.Sound deep vars u →
    st.store.Filling deep u r a → SafeIn deep vars u st r a (e.eval a st)

/-- What follows the evaluation of a part of an entry; the map stays as it is meanwhile. -/
theorem SafeIn.then {x : Eval Value} {f : Value → Eval Unit} {t : Ty}
    (hx : Typed.SafeAt deep vars u st t (x st)) (hfill : st.store.Filling deep u r a)
    (hf : ∀ v st', st.Leads deep vars u st' → v.Good deep u st'.store t →
      st'.store.Filling deep u r a → SafeIn deep vars u st' r a (f v st')) :
    SafeIn deep vars u st r a ((x >>= f) st) := by
  refine Safe.bind hx fun v st' _ hv => ?_
  refine (hf v st' hv.1 hv.2 (hfill.of_keeps hv.1.keeps)).mono fun p hp => ?_
  exact ⟨hv.1.keeps.of_none.trans hp.1, hp.2⟩

theorem isSafe_fixed {c : Constant} {stored : Ty} (hk : c.Keyed stored)
    (hfk : stored.Fits deep r.key.storage) (hv : value.IsSafe deep vars)
    (hfv : value.type.Fits deep r.value.storage) :
    (fixed c stored value tag).IsSafe deep vars r := by
  intro a u st hs hfill
  obtain ⟨k, hk, hg⟩ : ∃ v, c.kept stored = .ok v ∧ v.Good deep u st.store stored := hk.kept
  refine Safe.bind (P := (· = (k, st))) (by rw [hk]; rfl) ?_
  rintro k st - ⟨rfl, rfl⟩
  refine SafeIn.then (Typed.SafeAt.of_fits (hv u st hs) hfv) hfill fun v st' hl hv hfill' => ?_
  have hg' := hg.of_keeps (hl.keeps.of_none (u := u))
  exact safeIn_put hl.sound hfill' ⟨hfk _ _ hg'.conforms, hg'.grounded⟩ hv

theorem isSafe_computed (hk : key.IsSafe deep vars) (hy : key.Yields deep r.key.storage)
    (hv : value.IsSafe deep vars) (hfv : value.type.Fits deep r.value.storage) :
    (computed key value tag).IsSafe deep vars r := by
  intro a u st hs hfill
  refine SafeIn.then ((hk u st hs).of_yields hs hy) hfill fun k st₁ hl₁ hk hfill₁ => ?_
  refine SafeIn.then (Typed.SafeAt.of_fits (hv u st₁ hl₁.sound) hfv) hfill₁
    fun v st₂ hl₂ hv hfill₂ => ?_
  exact safeIn_put hl₂.sound hfill₂ (hk.of_keeps hl₂.keeps.of_none) hv

/-- The pairs of a spread map fit the record by the types of its keys and values. -/
theorem isSafe_spread (hs : source.IsSafe deep vars)
    (ht : (∃ k v, source.type = .record k v ∧ k.storage.Fits deep r.key.storage ∧
      v.storage.Fits deep r.value.storage) ∨ source.type = .any ∧ r = ⟨.any, .any⟩) :
    (spread source tag).IsSafe deep vars r := by
  intro a u st hst hfill
  refine SafeIn.then (hs u st hst) hfill fun v st' hl hv hfill' => ?_
  refine safeIn_spread hl.sound hfill' hv ?_
  rintro b rfl hd e he href
  rcases ht with ⟨k, v, ht, hk, hv'⟩ | ⟨-, rfl⟩
  · have hc := hv.conforms
    rw [ht] at hc
    rcases hc with hc | ⟨b', hb, hc⟩
    · cases hc
    · cases hb
      exact ⟨Value.conforms_storage.mp (hk _ _ (Value.conforms_storage.mpr (hc hd e he).1)),
        Value.conforms_storage.mp (hv' _ _ (Value.conforms_storage.mpr (hc hd e he).2))⟩
  · exact ⟨(Value.ofKey_reference e.1).1, href⟩

end Entry

/-- The map of a literal is unfinished until all entries are in. -/
theorem Typed.isSafe_record {plan : PlanTag} {entries : List Entry} {tag : Tag}
    (he : ∀ (a : Address) (u : Unfinished) (st : EvalState), st.Sound deep vars u →
      st.store.Filling deep u plan.type a →
        Entry.SafeIn deep vars u st plan.type a (Entry.evalAll a entries st))
    (hf : plan.type.toTy.Fits deep tag.type) : (record plan entries tag).IsSafe deep vars := by
  intro u st hs
  have hnew : st.store.maps.length ∉ u.maps := fun h => Nat.lt_irrefl _ (hs.houses.maps _ h)
  refine SafeAt.of_fits (t := plan.type.toTy) ?_ hf
  refine Safe.bind (P := (· = (st.store.maps.length, ⟨st.bindings, (st.store.newMap []).2⟩))) rfl ?_
  rintro _ _ - ⟨rfl, rfl⟩
  refine Safe.bind (he _ _ _ hs.newMap (st.store.filling_newMap _)) fun _ st' _ h => ?_
  have hk : st.store.Keeps ⟨[st.store.maps.length], []⟩ st'.store :=
    (Store.Keeps.newMap st.store []).trans h.1
  exact ⟨⟨hk.forget_map (Nat.le_refl _), h.2.1.ofMap⟩, h.2.2.finish hnew h.2.1.houses.room⟩

theorem Typed.isSafe_list {t : Ty} {items : List Typed} {tag : Tag}
    (hi : ∀ (a : Address) (u : Unfinished) (st : EvalState), st.Sound deep vars u →
      st.store.Listing deep u t a →
        Safe (Typed.evalItems a items st) fun p => st.store.Keeps ⟨[], [a]⟩ p.2.store ∧
          p.2.Sound deep vars u ∧ p.2.store.Listing deep u t a)
    (hf : (Ty.array t).Fits deep tag.type) : (list items tag).IsSafe deep vars := by
  intro u st hs
  have hnew : st.store.lists.length ∉ u.lists := fun h => Nat.lt_irrefl _ (hs.houses.lists _ h)
  refine SafeAt.of_fits (t := .array t) ?_ hf
  refine Safe.bind (P := (· = (st.store.lists.length, ⟨st.bindings, (st.store.newList []).2⟩)))
    rfl ?_
  rintro _ _ - ⟨rfl, rfl⟩
  refine Safe.bind (hi _ _ _ hs.newList (st.store.listing_newList _)) fun _ st' _ h => ?_
  have hk : st.store.Keeps ⟨[], [st.store.lists.length]⟩ st'.store :=
    (Store.Keeps.newList st.store []).trans h.1
  exact ⟨⟨hk.forget_list (Nat.le_refl _), h.2.1.ofList⟩, h.2.2.finish hnew h.2.1.houses.room⟩

open Typed Entry

mutual

/-- A well-typed tree evaluates safely. -/
theorem isSafe_tree (hn : (vars.map (·.name)).Nodup) :
    ∀ (e : Typed), e.WellTyped deep vars → e.IsSafe deep vars
  | .constant c _, h => fun _ _ hs => ⟨hs.refl, h _, c.grounded_value⟩
  | .read _ _, ⟨hx, hf⟩ => isSafe_read hx hf
  | .convert e _ _, ⟨he, ht, hf⟩ => isSafe_convert (isSafe_tree hn e he) ht hf
  | .arith _ _ l r _, ⟨hl, hr, htl, htr, hop, hf⟩ =>
    isSafe_arith (isSafe_tree hn l hl) (isSafe_tree hn r hr) htl htr hop hf
  | .power l r _, ⟨hl, hr, htl, htr, hf⟩ =>
    isSafe_power (isSafe_tree hn l hl) (isSafe_tree hn r hr) htl htr hf
  | .negate _ e _, ⟨he, ht, hk, hf⟩ => isSafe_negate (isSafe_tree hn e he) ht hk hf
  | .complement _ e _, ⟨he, ht, hk, hf⟩ => isSafe_complement (isSafe_tree hn e he) ht hk hf
  | .not e _, ⟨he, ht, hf⟩ => isSafe_not (isSafe_tree hn e he) ht hf
  | .compare _ _ l r _, ⟨hl, hr, hm, hf⟩ =>
    isSafe_compare (isSafe_tree hn l hl) (isSafe_tree hn r hr) hm hf
  | .logical _ l r _, ⟨hl, hr, htl, htr, hf⟩ =>
    isSafe_logical (isSafe_tree hn l hl) (isSafe_tree hn r hr) htl htr hf
  | .concat l r _, ⟨hl, hr, hyl, hyr, hf⟩ =>
    isSafe_concat (isSafe_tree hn l hl) (isSafe_tree hn r hr) hyl hyr hf
  | .update _ _ _ _, ⟨hx, ht, _, hf⟩ => isSafe_update hn hx ht hf
  | .assign _ e _, ⟨hx, he, ht, hf⟩ => isSafe_assign hn hx (isSafe_tree hn e he) ht hf
  | .conditional t y n _, ⟨ht, hy, hno, htt, hfy, hfn⟩ =>
    isSafe_conditional (isSafe_tree hn t ht) (isSafe_tree hn y hy) (isSafe_tree hn n hno) htt hfy hfn
  | .record _ entries _, ⟨he, hf⟩ =>
    isSafe_record (fun _ => isSafe_entries hn entries he) hf
  | .list items _, ⟨_, hi, hf⟩ => isSafe_list (fun _ => isSafe_items hn items hi) hf

theorem isSafe_entry (hn : (vars.map (·.name)).Nodup) {r : RecordTy} :
    ∀ (e : Entry), e.WellTyped deep vars r → e.IsSafe deep vars r
  | .fixed _ _ value _, ⟨hk, hfk, hv, hfv⟩ =>
    isSafe_fixed hk hfk (isSafe_tree hn value hv) hfv
  | .computed key value _, ⟨hk, hyk, hv, hfv⟩ =>
    isSafe_computed (isSafe_tree hn key hk) hyk (isSafe_tree hn value hv) hfv
  | .spread source _, ⟨hw, ht⟩ => isSafe_spread (isSafe_tree hn source hw) ht

theorem isSafe_entries (hn : (vars.map (·.name)).Nodup) {r : RecordTy} {a : Address} :
    ∀ (es : List Entry), Entry.AllWellTyped deep vars r es → ∀ (u : Unfinished) (st : EvalState),
      st.Sound deep vars u → st.store.Filling deep u r a →
        Entry.SafeIn deep vars u st r a (Entry.evalAll a es st)
  | [], _, u, st, hs, hfill => ⟨.refl _ _, hs, hfill⟩
  | e :: rest, ⟨he, hr⟩, u, st, hs, hfill => by
    refine Safe.bind (isSafe_entry hn e he a u st hs hfill) fun _ st' _ h => ?_
    refine (isSafe_entries hn rest hr u st' h.2.1 h.2.2).mono fun p hp => ?_
    exact ⟨h.1.trans hp.1, hp.2⟩

theorem isSafe_items (hn : (vars.map (·.name)).Nodup) {t : Ty} {a : Address} :
    ∀ (es : List Typed), Typed.AllWellTyped deep vars t es → ∀ (u : Unfinished) (st : EvalState),
      st.Sound deep vars u → st.store.Listing deep u t a →
        Safe (Typed.evalItems a es st) fun p => st.store.Keeps ⟨[], [a]⟩ p.2.store ∧
          p.2.Sound deep vars u ∧ p.2.store.Listing deep u t a
  | [], _, u, st, hs, hlist => ⟨.refl _ _, hs, hlist⟩
  | e :: rest, ⟨he, hf, hr⟩, u, st, hs, hlist => by
    refine Safe.bind (isSafe_tree hn e he u st hs) fun v st' _ hv => ?_
    have hlist' := (hlist.of_keeps hv.1.keeps).append ⟨hf _ _ hv.2.conforms, hv.2.grounded⟩
    have hs' := hv.1.sound.of_keeps (s := st'.store.append a v) (.append hlist.unfinished)
    refine (isSafe_items hn rest hr u _ hs' hlist').mono fun p hp => ?_
    refine ⟨hv.1.keeps.of_none.trans (Store.Keeps.trans (.append List.mem_cons_self) hp.1), hp.2⟩

end

/-- Where a tree ends that is evaluated with success. -/
theorem Typed.leads_eval {e : Typed} {v : Value} {st' : EvalState}
    (hn : (vars.map (·.name)).Nodup) (hw : e.WellTyped deep vars) (hs : st.Sound deep vars u)
    (h : e.eval st = .ok (v, st')) :
    st.Leads deep vars u st' ∧ v.Good deep u st'.store e.type := by
  have hsafe := isSafe_tree hn e hw u st hs
  rw [h] at hsafe
  exact hsafe

theorem Initializer.AllWellTyped.nodup {is : List Initializer}
    (h : Initializer.AllWellTyped deep vars is) (hn : (vars.map (·.name)).Nodup) :
    ((vars ++ is.map (·.target)).map (·.name)).Nodup := by
  induction is generalizing vars with
  | nil => simpa using hn
  | cons i rest ih =>
    obtain ⟨-, -, hnew, hrest⟩ := h
    have hn' : ((vars ++ [i.target]).map (·.name)).Nodup := by
      rw [List.map_append]
      refine hn.append (List.nodup_singleton _) ?_
      simpa using hnew
    simpa using ih hrest hn'

/-- Each initializer finds the variables before it sound and adds its own. -/
theorem Initializer.safe_evalAll {is : List Initializer}
    (h : Initializer.AllWellTyped deep vars is) (hn : (vars.map (·.name)).Nodup)
    (hs : st.Sound deep vars .none) :
    Safe (Initializer.evalAll is st) fun p =>
      p.2.Sound deep (vars ++ is.map (·.target)) .none := by
  induction is generalizing vars st with
  | nil =>
    rw [List.map_nil, List.append_nil]
    exact hs
  | cons i rest ih =>
    obtain ⟨hw, hf, hnew, hrest⟩ := h
    refine Safe.bind ((isSafe_tree hn i.value hw _ _ hs).of_fits hf) fun v st' _ hv => ?_
    have hone : Initializer.AllWellTyped deep vars [i] := ⟨hw, hf, hnew, trivial⟩
    have := ih hrest (hone.nodup hn) (hv.1.sound.declare hnew hv.2)
    rwa [List.append_assoc] at this

/-- A well-typed unit leaves values of their types in its locals and as its result, or meets an
expected fault. -/
theorem TypedUnit.safe_eval {unit : TypedUnit} (h : unit.WellTyped deep) :
    Safe unit.eval fun p => p.2.Sound deep (unit.initializers.map (·.target)) .none ∧
      p.1.Good deep .none p.2.store unit.resultType := by
  have hs : EvalState.Sound deep [] .none .start := ⟨rfl, nofun, ⟨nofun, nofun, Nat.le_refl 0⟩⟩
  refine Safe.bind (Initializer.safe_evalAll h.initializers List.nodup_nil hs) fun _ st _ hst => ?_
  have hn := h.initializers.nodup List.nodup_nil
  refine ((isSafe_tree hn unit.body h.body _ _ hst).of_fits h.result).mono fun p hp => ?_
  exact ⟨hp.1.sound, hp.2⟩

end evaluation

end StackExpr
