import StackExpr.Proofs.Operations

/-! Emitted code follows the evaluation of the tree it was emitted for. -/
namespace StackExpr

namespace Local.Laid

variable {first free : Nat} {vars : List Local} {x y : Local}

theorem le (h : Laid first vars free) : first ≤ free := by
  induction vars generalizing first with
  | nil => exact Nat.le_of_eq h
  | cons x rest ih => exact Nat.le_trans (Nat.le_add_right ..) (ih h.2)

/-- Every local has its slots below the first free one. -/
theorem bounds (h : Laid first vars free) (hx : x ∈ vars) :
    first ≤ x.slot ∧ x.slot + x.type.stackKind.size ≤ free := by
  induction vars generalizing first with
  | nil => cases hx
  | cons y rest ih =>
    obtain ⟨hslot, hrest⟩ := h
    rcases List.mem_cons.mp hx with rfl | hx
    · have := hrest.le
      omega
    · have := ih hrest hx
      omega

/-- No two locals share a slot. -/
theorem disjoint (h : Laid first vars free) (hx : x ∈ vars) (hy : y ∈ vars) (hne : x ≠ y) :
    x.slot + x.type.stackKind.size ≤ y.slot ∨ y.slot + y.type.stackKind.size ≤ x.slot := by
  induction vars generalizing first with
  | nil => cases hx
  | cons z rest ih =>
    obtain ⟨hslot, hrest⟩ := h
    rcases List.mem_cons.mp hx with rfl | hx' <;> rcases List.mem_cons.mp hy with rfl | hy'
    · exact absurd rfl hne
    · have := (hrest.bounds hy').1
      omega
    · have := (hrest.bounds hx').1
      omega
    · exact ih hrest hx' hy'

end Local.Laid

namespace Machine

variable {m : Machine} {slot i : Nat} {v : Value}

@[simp] theorem length_setLocal : (m.setLocal slot v).locals.length = m.locals.length := by
  simp only [setLocal]
  split_ifs <;> simp

/-- What is stored in a slot can be loaded from it. -/
theorem setLocal_self (h : slot < m.locals.length) :
    (m.setLocal slot v).locals[slot]? = some (some v) := by
  simp only [setLocal]
  split_ifs <;> simp [h]

/-- A store leaves all other slots as they were. -/
theorem setLocal_ne (h : i < slot ∨ slot + v.size ≤ i) :
    (m.setLocal slot v).locals[i]? = m.locals[i]? := by
  have hs : 1 ≤ v.size := by
    rw [Value.size]
    cases v.stackKind <;> decide
  simp only [setLocal]
  split_ifs with hw
  · rw [List.getElem?_set_ne (by omega), List.getElem?_set_ne (by omega)]
  · rw [List.getElem?_set_ne (by omega)]

end Machine

/-- A sequence that the code of trees over some variables can be part of. -/
structure Sequence.Hosts (s : Sequence) (vars : List Local) (free : Nat) : Prop where
  labels : (s.code.filterMap Instr.placed?).Nodup
  names : (vars.map (·.name)).Nodup
  slots : Local.Laid 0 vars free
  room : free ≤ s.maxLocals

namespace Sequence

variable {α β : Type} {s : Sequence} {vars : List Local} {free p : Nat} {σ : List Value}
  {st st' : EvalState} {x : Local} {v w : Value} {i : Instr} {k : Kind} {u : Unfinished}
  {es : EmitState} {o : Options} {code c : List Instr}

theorem runs_of_machine {out : α → List Value} {a : α}
    (h : ∀ p, ∀ m : Machine, m.At s vars p σ st →
      ∃ m', s.step i m.advance = .ok () m' ∧ m'.At s vars (p + 1) (out a) st') :
    s.Runs vars [i] σ st (.ok (a, st')) out := by
  intro p hc m hm
  obtain ⟨m', hs, hm'⟩ := h p m hm
  exact ⟨m', reaches_of_step (hm.next ▸ hc.head) hs, hm'⟩

/-- A load pushes what the variable holds. -/
theorem runs_load (hx : x ∈ vars) (hl : st.bindings.lookup x.name = some v)
    (hk : v.stackKind = x.type.stackKind) :
    s.Runs vars [Emit.load x] σ st (.ok (v, st)) (· :: σ) := by
  refine runs_of_machine fun p m hm => ⟨{ m.advance with stack := v :: σ }, ?_,
    congrArg (· + 1) hm.next, rfl, hm.store, hm.slots, hm.values⟩
  have hv : m.advance.locals[x.slot]? = some (some v) := hm.values x hx v hl
  have hσ : m.advance.stack = σ := hm.stack
  simp only [Emit.load, step, Action.loadLocal, bind, EStateM.bind, hv, hk, if_true, Action.push, hσ]

/-- A write to the slot of a variable gives it its value and touches no other. -/
theorem at_write {m : Machine} {σ' : List Value} {b : Bindings} (hs : s.Hosts vars free)
    (hx : x ∈ vars) (hself : b.lookup x.name = some v)
    (hother : ∀ name, name ≠ x.name → b.lookup name = st.bindings.lookup name)
    (hk : v.stackKind = x.type.stackKind) (hm : m.At s vars p σ' st) :
    ({ m.advance with stack := σ }.setLocal x.slot v).At s vars (p + 1) σ
      { st with bindings := b } where
  next := congrArg (· + 1) hm.next
  stack := rfl
  store := hm.store
  slots := Machine.length_setLocal.trans hm.slots
  values y hy w hl := by
    have hsize : 1 ≤ y.type.stackKind.size := by cases y.type.stackKind <;> decide
    by_cases he : y.name = x.name
    · obtain rfl := List.inj_on_of_nodup_map hs.names hy hx he
      obtain rfl : v = w := Option.some.inj (hself.symm.trans hl)
      apply Machine.setLocal_self
      have := (hs.slots.bounds hy).2
      have := hs.room
      have : m.locals.length = s.maxLocals := hm.slots
      change y.slot < m.locals.length
      omega
    · rw [hother _ he] at hl
      refine (Machine.setLocal_ne ?_).trans (hm.values y hy w hl)
      have hd := hs.slots.disjoint hy hx (fun h => he (congrArg _ h))
      rw [Value.size, hk]
      omega

theorem at_assign {m : Machine} {σ' : List Value} (hs : s.Hosts vars free) (hx : x ∈ vars)
    (hst : st.Sound false vars u) (hk : v.stackKind = x.type.stackKind)
    (hm : m.At s vars p σ' st) :
    ({ m.advance with stack := σ }.setLocal x.slot v).At s vars (p + 1) σ
      { st with bindings := st.bindings.set x.name v } := by
  obtain ⟨old, hold, -⟩ := hst.values x hx
  exact at_write hs hx (Bindings.lookup_set_self hold) (fun _ => Bindings.lookup_set_ne) hk hm

theorem step_store {m : Machine} (hs : s.Hosts vars free) (hx : x ∈ vars)
    (hk : v.stackKind = x.type.stackKind) (hm : m.At s vars p (v :: σ) st) :
    s.step (Emit.store x) m.advance = .ok () ({ m.advance with stack := σ }.setLocal x.slot v) := by
  have hσ : m.advance.stack = v :: σ := hm.stack
  have hb : x.slot + v.size ≤ m.advance.locals.length := by
    change _ ≤ m.locals.length
    rw [hm.slots, Value.size, hk]
    exact Nat.le_trans (hs.slots.bounds hx).2 hs.room
  simp only [Emit.store, step, Action.popKind, Action.pop, bind, EStateM.bind, hσ, hk, if_true,
    pure, EStateM.pure, Action.storeLocal, hb]

/-- A store is an assignment to the variable of the slot. -/
theorem runs_store (hs : s.Hosts vars free) (hx : x ∈ vars) (hst : st.Sound false vars u)
    (hk : v.stackKind = x.type.stackKind) :
    s.Runs vars [Emit.store x] (v :: σ) st (Eval.assign x.name v st) (fun _ => σ) :=
  runs_of_machine fun _ _ hm => ⟨_, step_store hs hx hk hm, at_assign hs hx hst hk hm⟩

/-- The same store declares a variable that has no value yet. -/
theorem runs_declare (hs : s.Hosts vars free) (hx : x ∈ vars)
    (hnew : st.bindings.lookup x.name = none) (hk : v.stackKind = x.type.stackKind) :
    s.Runs vars [Emit.store x] (v :: σ) st (Eval.declare x.name v st) (fun _ => σ) := by
  refine runs_of_machine fun _ _ hm => ⟨_, step_store hs hx hk hm, at_write hs hx ?_ ?_ hk hm⟩
  · rw [List.lookup_append, hnew]
    simp
  · intro name hne
    have hn : List.lookup name [(x.name, v)] = none := by
      simp only [List.lookup_cons, beq_false_of_ne hne, List.lookup_nil]
    rw [List.lookup_append, hn, Option.or_none]

theorem runs_copy {k : StackKind} (hk : v.stackKind = k) :
    s.Runs vars [Emit.dupFor k] (v :: σ) st (.ok (v, st)) (· :: v :: σ) := by
  have hsize : k.size = 1 ∨ k.size = 2 := by cases k <;> decide
  subst hk
  rcases hsize with h | h
  · rw [Emit.dupFor, if_neg (by omega)]
    exact runs_of_does (Action.does_duplicate h)
  · rw [Emit.dupFor, if_pos h]
    exact runs_of_does (Action.does_duplicate_wide h)

theorem runs_increment {n : Int32} {d : Int16} (hs : s.Hosts vars free) (hx : x ∈ vars)
    (hst : st.Sound false vars u) (ht : x.type = .prim .int)
    (hl : st.bindings.lookup x.name = some (.int n)) :
    s.Runs vars [.increment x.slot d] σ st
      (Eval.assign x.name (.int (n + d.toInt32)) st) (fun _ => σ) := by
  refine runs_of_machine fun p m hm => ?_
  have hk : (Value.int (n + d.toInt32)).stackKind = x.type.stackKind := by rw [ht]; rfl
  refine ⟨_, ?_, at_assign hs hx hst hk hm⟩
  have hσ : { m.advance with stack := σ } = m.advance := by
    rw [← hm.stack]
    rfl
  have hv : m.advance.locals[x.slot]? = some (some (.int n)) := hm.values x hx _ hl
  have hb : x.slot + (Value.int (n + d.toInt32)).size ≤ m.advance.locals.length := by
    change _ ≤ m.locals.length
    rw [hm.slots, Value.size, hk]
    exact Nat.le_trans (hs.slots.bounds hx).2 hs.room
  rw [hσ]
  simp only [step, Action.loadLocal, bind, EStateM.bind, hv, Action.storeLocal, hb, if_true]

/-- A variable takes a value made of its old one, and a copy of one of the two stays. -/
theorem runs_recompute {old : Value} {r : Except FaultKind Value} {before : Bool}
    (hs : s.Hosts vars free) (hx : x ∈ vars) (hst : st.Sound false vars u)
    (hl : st.bindings.lookup x.name = some old) (hk : old.stackKind = x.type.stackKind)
    (hc : ∀ σ, s.Runs vars c (old :: σ) st (Eval.lift r st) (· :: σ))
    (hr : ∀ new, r = .ok new → new.stackKind = x.type.stackKind) :
    s.Runs vars ([Emit.load x] ++ (if before then [] else [Emit.dupFor x.type.stackKind]) ++ c ++
        (if before then [Emit.dupFor x.type.stackKind] else []) ++ [Emit.store x]) σ st
      ((do
        let new ← Eval.lift r
        Eval.assign x.name new
        return if before then new else old) st) (· :: σ) := by
  refine Runs.assoc (Runs.assoc (Runs.assoc ((runs_load hx hl hk).prepend ?_)))
  cases before with
  | true =>
    refine (hc σ).bind fun v st' h => ?_
    obtain ⟨hv, rfl⟩ := Eval.ok_of_lift h
    have hv := hr v hv
    exact (runs_copy hv).prepend (runs_store (v := v) hs hx hst hv)
  | false =>
    refine (runs_copy hk).prepend ((hc (old :: σ)).bind fun v st' h => ?_)
    obtain ⟨hv, rfl⟩ := Eval.ok_of_lift h
    exact runs_store hs hx hst (hr v hv)

end Sequence

/-- Wherever its code stands, it follows the evaluation of the tree. -/
def Typed.Compiles (s : Sequence) (vars : List Local) (free : Nat) (o : Options) (e : Typed) :
    Prop :=
  ∀ (es : EmitState) (u : Unfinished) (σ : List Value) (st : EvalState), free ≤ es.nextLocal →
    (Emit.expr o e es).2.Within s → st.Sound false vars u →
      s.Runs vars (Emit.expr o e es).1 σ st (e.eval st) (· :: σ)

namespace Typed

open Sequence

variable {α : Type} {s : Sequence} {vars : List Local} {free : Nat} {o : Options}
  {es : EmitState} {u : Unfinished} {σ : List Value} {st : EvalState} {e l r t y n : Typed}
  {c : List Instr} {out : α → List Value} {tag : Tag} {k : Kind} {x : Local}

/-- What follows the value of an operand. -/
theorem Compiles.then {f : Value → Eval α} {te : Ty} (he : e.Compiles s vars free o)
    (hs : ∀ st : EvalState, st.Sound false vars u → SafeAt false vars u st te (e.eval st))
    (hfree : free ≤ es.nextLocal) (hw : (Emit.expr o e es).2.Within s)
    (hst : st.Sound false vars u)
    (hf : ∀ v st', v.Good false u st'.store te → st.Leads false vars u st' →
      s.Runs vars c (v :: σ) st' (f v st') out) :
    s.Runs vars ((Emit.expr o e es).1 ++ c) σ st ((e.eval >>= f) st) out := by
  refine (he es u σ st hfree hw hst).bind fun v st' hv => ?_
  have hsafe := hs st hst
  rw [hv] at hsafe
  exact hf v st' hsafe.2 hsafe.1

/-- What follows the values of two operands. -/
theorem Compiles.both {f : Value → Value → Eval α} {tl tr : Ty} (hl : l.Compiles s vars free o)
    (hr : r.Compiles s vars free o)
    (hsl : ∀ st : EvalState, st.Sound false vars u → SafeAt false vars u st tl (l.eval st))
    (hsr : ∀ st : EvalState, st.Sound false vars u → SafeAt false vars u st tr (r.eval st))
    (hfree : free ≤ es.nextLocal) (hw : (Emit.expr o r (Emit.expr o l es).2).2.Within s)
    (hst : st.Sound false vars u)
    (hf : ∀ a b st', a.Good false u st'.store tl → b.Good false u st'.store tr →
      st.Leads false vars u st' → s.Runs vars c (b :: a :: σ) st' (f a b st') out) :
    s.Runs vars ((Emit.expr o l es).1 ++ (Emit.expr o r (Emit.expr o l es).2).1 ++ c) σ st
      ((do let a ← l.eval; let b ← r.eval; f a b) st) out := by
  have hgl := (Emit.fragment_expr o l es).grows
  have hgr := (Emit.fragment_expr o r (Emit.expr o l es).2).grows
  rw [List.append_assoc]
  refine (hl es u σ st hfree (hw.of_grows hgr) hst).bind fun a st₁ ha => ?_
  have hsafe := hsl st hst
  rw [ha] at hsafe
  refine (hr _ u (a :: σ) st₁ (Nat.le_trans hfree hgl.locals) hw hsafe.1.sound).bind
    fun b st₂ hb => ?_
  have hsafe' := hsr st₁ hsafe.1.sound
  rw [hb] at hsafe'
  exact hf a b st₂ (hsafe.2.of_keeps hsafe'.1.keeps.of_none) hsafe'.2 (hsafe.1.trans hsafe'.1)

/-- A constant is pushed. There is one lemma like this for each kind of node: if the code of its
parts follows their evaluation, so does its own. -/
theorem compiles_constant (d : Constant) : (constant d tag).Compiles s vars free o := by
  intro es u σ st _ hw _
  rw [Emit.expr] at hw ⊢
  exact runs_constant d hw

theorem compiles_read (hx : x ∈ vars) : (read x tag).Compiles s vars free o := by
  intro es u σ st _ _ hst
  obtain ⟨v, hl, hv⟩ := hst.values x hx
  have he : (read x tag).eval st = .ok (v, st) := by simp only [eval, Eval.lookup, hl]
  rw [Emit.expr, he]
  exact runs_load hx hl hv.conforms.stackKind

theorem compiles_convert {step : Conversion} (ho : o.Known) (he : e.Compiles s vars free o)
    (hs : e.IsSafe false vars) (ht : step.Takes false e.type) :
    (convert e step tag).Compiles s vars free o := by
  intro es u σ st hfree hw hst
  rw [Emit.expr] at hw ⊢
  rw [eval]
  have hg := ((Emit.plain_conversion o e.type step) (Emit.expr o e es).2).1
  exact he.then (hs u) hfree (hw.of_grows hg) hst fun v st' hv _ => runs_conversion ho ht hv hw

theorem compiles_arith {op : ArithOp} (hl : l.Compiles s vars free o)
    (hr : r.Compiles s vars free o) (hsl : l.IsSafe false vars) (hsr : r.IsSafe false vars)
    (htl : l.type = .prim k) (htr : r.type = .prim (if op.isShift then .int else k))
    (hop : op.admits k = true) : (arith op k l r tag).Compiles s vars free o := by
  intro es u σ st hfree hw hst
  rw [Emit.expr] at hw ⊢
  rw [eval]
  refine hl.both hr (hsl u) (hsr u) hfree hw hst fun a b st' ha hb _ => ?_
  rw [htl] at ha
  rw [htr] at hb
  exact runs_lift (Action.leaves_arith ha.conforms hb.conforms hop)

theorem compiles_power (hl : l.Compiles s vars free o) (hr : r.Compiles s vars free o)
    (hsl : l.IsSafe false vars) (hsr : r.IsSafe false vars) (htl : l.type = .prim .double)
    (htr : r.type = .prim .double) : (power l r tag).Compiles s vars free o := by
  intro es u σ st hfree hw hst
  rw [Emit.expr] at hw ⊢
  rw [eval]
  refine hl.both hr (hsl u) (hsr u) hfree (hw.of_grows (Emit.plain_call _).1) hst
    fun a b st' ha hb _ => ?_
  rw [htl] at ha
  rw [htr] at hb
  exact runs_call_lift (f := .pow) hw (Method.find?_other (by simp [Method.otherMethods]))
    (Action.leaves_pow ha.conforms hb.conforms)

theorem compiles_concat (hl : l.Compiles s vars free o) (hr : r.Compiles s vars free o)
    (hsl : l.IsSafe false vars) (hsr : r.IsSafe false vars) (hyl : l.Yields false .string)
    (hyr : r.Yields false .string) : (concat l r tag).Compiles s vars free o := by
  intro es u σ st hfree hw hst
  rw [Emit.expr] at hw ⊢
  rw [eval]
  refine hl.both hr (fun st h => (hsl u st h).of_yields h hyl)
    (fun st h => (hsr u st h).of_yields h hyr) hfree (hw.of_grows (Emit.plain_call _).1) hst
    fun a b st' ha hb _ => ?_
  exact runs_call_lift (f := .concat) hw (Method.find?_other (by simp [Method.otherMethods]))
    (Action.leaves_concat ha.conforms hb.conforms)

theorem compiles_negate (he : e.Compiles s vars free o) (hs : e.IsSafe false vars)
    (ht : e.type = .prim k) (hk : k.isPromoted = true) :
    (negate k e tag).Compiles s vars free o := by
  intro es u σ st hfree hw hst
  rw [Emit.expr] at hw ⊢
  rw [eval]
  refine he.then (hs u) hfree hw hst fun v st' hv _ => ?_
  rw [ht] at hv
  exact runs_lift (Action.leaves_neg hv.conforms hk)

theorem runs_complement {v : Value} (hv : k.Holds v) (hk : k = .int ∨ k = .long)
    (hw : (Emit.complementMask k.stackKind es).2.Within s) :
    s.Runs vars ((Emit.complementMask k.stackKind es).1 ++ [.arith .xor k.stackKind]) (v :: σ) st
      (Eval.lift v.complement st) (· :: σ) := by
  rcases hk with rfl | rfl
  · obtain ⟨n, rfl⟩ := hv.eq_int rfl
    rw [Value.complement, ← int_xor_neg_one]
    exact (runs_int (-1) hw).prepend (runs_of_does (Action.leaves_of_run fun _ _ _ => rfl))
  · obtain ⟨n, rfl⟩ := hv.eq_long
    rw [Value.complement, ← long_xor_neg_one]
    exact (runs_long (-1) hw).prepend (runs_of_does (Action.leaves_of_run fun _ _ _ => rfl))

theorem compiles_complement (he : e.Compiles s vars free o) (hs : e.IsSafe false vars)
    (ht : e.type = .prim k) (hk : k = .int ∨ k = .long) :
    (complement k e tag).Compiles s vars free o := by
  intro es u σ st hfree hw hst
  rw [Emit.expr] at hw ⊢
  rw [eval]
  have hg := (Emit.plain_complementMask k.stackKind (Emit.expr o e es).2).1
  refine Runs.assoc (he.then (hs u) hfree (hw.of_grows hg) hst fun v st' hv _ => ?_)
  rw [ht] at hv
  exact runs_complement hv.conforms hk hw

theorem compiles_not (he : e.Compiles s vars free o) (hs : e.IsSafe false vars)
    (ht : e.type = .prim .boolean) : (not e tag).Compiles s vars free o := by
  intro es u σ st hfree hw hst
  rw [Emit.expr] at hw ⊢
  rw [eval]
  refine he.then (hs u) hfree hw hst fun v st' hv _ => ?_
  rw [ht] at hv
  obtain ⟨b, rfl, hb⟩ := Kind.Holds.eq_ofBool hv.conforms
  rw [Value.not, hb]
  exact runs_flip b

theorem compiles_compareNumbers {op : Comparison} {mode : OperandMode} (hs : s.Hosts vars free)
    (hl : l.Compiles s vars free o) (hr : r.Compiles s vars free o) (hsl : l.IsSafe false vars)
    (hsr : r.IsSafe false vars) (hmr : mode ≠ .reference) (hmn : mode ≠ .nullCheck)
    (hk : k.isPromoted = true ∨ k = .boolean) (htl : l.type = .prim k) (htr : r.type = .prim k)
    (hm : Emit.numericKind mode = k.stackKind) :
    (compare op mode l r tag).Compiles s vars free o := by
  intro es u σ st hfree hw hst
  rw [Emit.expr_compare_numbers _ _ _ _ _ _ hmr hmn] at hw ⊢
  rw [eval_compare_numbers hmr hmn]
  refine Runs.assoc (hl.both hr (hsl u) (hsr u) hfree hw hst fun a b st' ha hb _ => ?_)
  rw [htl] at ha
  rw [htr] at hb
  rw [hm]
  exact runs_compareNumbers op hs.labels ha.conforms hb.conforms hk

/-- How a comparison is emitted depends on what it compares: numbers, references, or one of them
with `null`. -/
theorem compiles_compare {op : Comparison} {mode : OperandMode} (hs : s.Hosts vars free)
    (hl : l.Compiles s vars free o) (hr : r.Compiles s vars free o) (hsl : l.IsSafe false vars)
    (hsr : r.IsSafe false vars) (hm : mode.Takes l.type r.type) :
    (compare op mode l r tag).Compiles s vars free o := by
  cases mode with
  | numeric k =>
    obtain ⟨hk, htl, htr⟩ := hm
    exact compiles_compareNumbers hs hl hr hsl hsr OperandMode.noConfusion OperandMode.noConfusion
      (.inl hk) htl htr rfl
  | boolean =>
    obtain ⟨htl, htr⟩ := hm
    exact compiles_compareNumbers hs hl hr hsl hsr OperandMode.noConfusion OperandMode.noConfusion
      (.inr rfl) htl htr rfl
  | reference =>
    intro es u σ st hfree hw hst
    rw [Emit.expr_compare_reference] at hw ⊢
    rw [eval]
    refine Runs.assoc (hl.both hr (hsl u) (hsr u) hfree (hw.of_grows (Emit.plain_call _).1) hst
      fun a b st' ha hb _ => ?_)
    have hra := ((Value.conforms_of_not_prim hm.1).mp ha.conforms).stackKind
    have hrb := ((Value.conforms_of_not_prim hm.2).mp hb.conforms).stackKind
    refine (runs_call (f := .equals) hw (Method.find?_other (by simp [Method.otherMethods]))
      (Action.leaves_equals ha hb hra hrb)).prepend ?_
    exact runs_flipIf op _
  | nullCheck =>
    intro es u σ st hfree hw hst
    rw [Emit.expr_compare_nullCheck] at hw ⊢
    rw [eval_compare_nullCheck]
    have hone : (if l.type.isNull then r else l).Compiles s vars free o ∧
        (if l.type.isNull then r else l).IsSafe false vars ∧
        (if l.type.isNull then r else l).type.isPrimitive = false := by
      split_ifs
      · exact ⟨hr, hsr, hm.2⟩
      · exact ⟨hl, hsl, hm.1⟩
    refine Runs.assoc (hone.1.then (hone.2.1 u) hfree hw hst fun v st' hv _ => ?_)
    exact runs_nullCheck op hs.labels
      ((Value.conforms_of_not_prim hone.2.2).mp hv.conforms).stackKind

/-- The jump of a logical operator is taken by the value that decides it. -/
theorem passes_decided {op : LogicalOp} {p q : Nat} {decided : Label} (b : Bool)
    (hs : s.Hosts vars free)
    (h : s.code[p]? = some (.ifZero (if op = .and then .eq else .ne) decided))
    (hq : s.code[q]? = some (.label decided)) :
    s.Passes vars p (.ofBool b :: σ) st (if b = (op == .or) then q + 1 else p + 1) σ st := by
  have hb : (if b = (op == .or) then q + 1 else p + 1) =
      if (if op = .and then Condition.eq else .ne).holds (if b then 1 else 0) then q + 1
      else p + 1 := by
    cases op <;> cases b <;> rfl
  rw [hb]
  exact passes_jumpIf hs.labels hq h fun _ _ _ => rfl

/-- From the left operand of a logical operator on. -/
theorem runs_logical {op : LogicalOp} {decided done : Label} {a : Bool} {z : Eval Value}
    (hs : s.Hosts vars free) (hz : s.Runs vars c σ st (z st) (· :: σ))
    (hb : ∀ v st', z st = .ok (v, st') → ∃ b, v = .ofBool b ∧ v.truth = .ok b) :
    s.Runs vars ([.ifZero (if op = .and then .eq else .ne) decided] ++ (c ++
        [.ifZero (if op = .and then .eq else .ne) decided, Emit.boolean (op = .and), .goto done,
          .label decided, Emit.boolean (op = .or), .label done])) (.ofBool a :: σ) st
      ((if a = (op == .or) then return .ofBool a
        else do
          let w ← z
          return .ofBool (← Eval.lift w.truth) : Eval Value) st) (· :: σ) := by
  intro p hc
  have hrest : s.HasCode (p + 1) (c ++ _) := hc.right
  -- The six instructions after the right operand: one more jump, and both outcomes.
  have hlast := hrest.right
  refine Follows.ending (q := p + 1 + c.length + 5 + 1) ?_
    (by simp only [List.length_append, List.length_cons, List.length_nil]; omega)
  have hdecided := hlast.get (n := 3) rfl
  have hdone := hlast.get (n := 5) rfl
  have hyes (st : EvalState) : s.Passes vars (p + 1 + c.length + 4) σ st _ _ st :=
    (passes_push (hlast.get (n := 4) rfl) (step_boolean (op = .or))).trans (passes_label hdone)
  have hno (st : EvalState) : s.Passes vars (p + 1 + c.length + 1) σ st _ _ st :=
    (passes_push (hlast.get (n := 1) rfl) (step_boolean (op = .and))).trans
      (passes_goto hs.labels (hlast.get (n := 2) rfl) hdone)
  refine (passes_decided a hs hc.head hdecided).follows ?_
  split_ifs with ha
  · subst ha
    cases op <;> exact hyes st
  · refine (hz _ hrest.left).bind fun v st' hv => ?_
    obtain ⟨b, rfl, hb⟩ := hb v st' hv
    rw [hb]
    refine (passes_decided b hs hlast.head hdecided).follows ?_
    split_ifs with hb
    · subst hb
      cases op <;> exact hyes st'
    · obtain rfl : b = decide (op = .and) := by cases op <;> cases b <;> simp_all
      exact hno st'

theorem compiles_logical {op : LogicalOp} (hs : s.Hosts vars free) (hl : l.Compiles s vars free o)
    (hr : r.Compiles s vars free o) (hsl : l.IsSafe false vars) (hsr : r.IsSafe false vars)
    (htl : l.type = .prim .boolean) (htr : r.type = .prim .boolean) :
    (logical op l r tag).Compiles s vars free o := by
  intro es u σ st hfree hw hst
  rw [Emit.expr_logical] at hw ⊢
  rw [eval]
  have hgl := (Emit.fragment_expr o l es.twoLabels).grows
  have hgr := (Emit.fragment_expr o r (Emit.expr o l es.twoLabels).2).grows
  refine Runs.assoc (Runs.assoc (hl.then (hsl u) hfree (hw.of_grows hgr) hst
    fun v st' hv hl' => ?_))
  rw [htl] at hv
  obtain ⟨a, rfl, ha⟩ := Kind.Holds.eq_ofBool hv.conforms
  rw [ha]
  refine runs_logical hs (hr _ u σ st' (Nat.le_trans hfree hgl.locals) hw hl'.sound)
    fun w st'' he => ?_
  have hsafe := hsr u st' hl'.sound
  rw [he, htr] at hsafe
  exact Kind.Holds.eq_ofBool hsafe.2.conforms

/-- From the test of a conditional on: only the branch that it selects runs. -/
theorem runs_conditional {cy cn : List Instr} {other done : Label} {b : Bool} {zy zn : Eval Value}
    (hs : s.Hosts vars free) (hy : b = true → s.Runs vars cy σ st (zy st) (· :: σ))
    (hn : b = false → s.Runs vars cn σ st (zn st) (· :: σ)) :
    s.Runs vars ([.ifZero .eq other] ++ (cy ++ ([.goto done, .label other] ++ (cn ++
        [.label done])))) (.ofBool b :: σ) st ((if b then zy else zn : Eval Value) st)
      (· :: σ) := by
  intro p hc
  have hyes : s.HasCode (p + 1) (cy ++ _) := hc.right
  have hmid := hyes.right
  have hno : s.HasCode (p + 1 + cy.length + 2) (cn ++ [.label done]) := hmid.right
  have hother := hmid.get (n := 1) rfl
  have hdone := hno.right.head
  refine Follows.ending (q := p + 1 + cy.length + 2 + cn.length + 1) ?_
    (by simp only [List.length_append, List.length_cons, List.length_nil]; omega)
  have hjump : s.Passes vars p (.ofBool b :: σ) st _ σ st :=
    passes_jumpIf hs.labels hother hc.head fun _ _ _ => rfl
  refine hjump.follows ?_
  cases b with
  | true =>
    have hgoto := hmid.get (n := 0) rfl
    refine Follows.after (hy rfl _ hyes.left) fun v st' => ?_
    exact passes_goto hs.labels hgoto hdone
  | false => exact Follows.after (hn rfl _ hno.left) fun v st' => passes_label hdone

theorem compiles_conditional (hs : s.Hosts vars free) (ht : t.Compiles s vars free o)
    (hy : y.Compiles s vars free o) (hn : n.Compiles s vars free o) (hst : t.IsSafe false vars)
    (htt : t.type = .prim .boolean) : (conditional t y n tag).Compiles s vars free o := by
  intro es u σ st hfree hw hsound
  rw [Emit.expr_conditional] at hw ⊢
  rw [eval]
  have hgt := (Emit.fragment_expr o t es.twoLabels).grows
  have hgy := (Emit.fragment_expr o y (Emit.expr o t es.twoLabels).2).grows
  have hgn := (Emit.fragment_expr o n
    (Emit.expr o y (Emit.expr o t es.twoLabels).2).2).grows
  have hwy := hw.of_grows hgn
  refine Runs.assoc (Runs.assoc (Runs.assoc (Runs.assoc (ht.then (hst u) hfree
    (hwy.of_grows hgy) hsound fun v st' hv hl => ?_))))
  rw [htt] at hv
  obtain ⟨b, rfl, hb⟩ := Kind.Holds.eq_ofBool hv.conforms
  rw [hb]
  have hfree' := Nat.le_trans hfree hgt.locals
  exact runs_conditional hs (fun _ => hy _ u σ st' hfree' hwy hl.sound)
    (fun _ => hn _ u σ st' (Nat.le_trans hfree' hgy.locals) hw hl.sound)

theorem compiles_assign (hs : s.Hosts vars free) (hx : x ∈ vars) (he : e.Compiles s vars free o)
    (hse : e.IsSafe false vars) (ht : e.type.Fits false x.type) :
    (assign x e tag).Compiles s vars free o := by
  intro es u σ st hfree hw hst
  rw [Emit.expr] at hw ⊢
  rw [eval]
  refine he.then (hse u) hfree hw hst fun v st' hv hl => ?_
  have hk : v.stackKind = x.type.stackKind := (ht _ _ hv.conforms).stackKind
  exact (runs_copy hk).prepend (runs_store hs hx hl.sound hk)

/-- Adding the step of a counter is the same as counting by one. -/
theorem bump_int {n : Int32} {delta : Int8} (hd : delta = 1 ∨ delta = -1) :
    (Value.int n).bump .int delta = .ok (.int (n + delta.toInt16.toInt32)) := by
  rcases hd with rfl | rfl
  · rfl
  · have : n + (-1 : Int8).toInt16.toInt32 = n - 1 := by
      rw [Int32.sub_eq_add_neg]
      rfl
    rw [this]
    rfl

section counters

variable {delta : Int8} {before : Bool} {old : Value}

/-- The new value of a counter, and then a copy of the one that is asked for. -/
abbrev counted (x : Local) (delta : Int8) (before : Bool) (old : Value) : Eval Value := do
  let new ← Eval.lift (Eval.bumped x.type delta old)
  Eval.assign x.name new
  return if before then new else old

theorem runs_update_int (hs : s.Hosts vars free) (hx : x ∈ vars) (ht : x.type = .prim .int)
    (hd : delta = 1 ∨ delta = -1) (hst : st.Sound false vars u)
    (hl : st.bindings.lookup x.name = some old) (hv : Kind.int.Holds old) :
    s.Runs vars (Emit.update x delta before es).1 σ st (counted x delta before old st)
      (· :: σ) := by
  obtain ⟨n, rfl⟩ := hv.eq_int rfl
  have he : counted x delta before (.int n) st =
      (do
        Eval.assign x.name (.int (n + delta.toInt16.toInt32))
        return if before then .int (n + delta.toInt16.toInt32) else .int n : Eval Value) st := by
    simp only [counted, ht, Eval.bumped, bump_int hd]
    rfl
  have hload : Emit.load x = .load .int x.slot := by
    rw [Emit.load, ht]
    rfl
  have hk : StackKind.int = x.type.stackKind := by rw [ht]; rfl
  have hinc {σ : List Value} := runs_increment (σ := σ) (d := delta.toInt16) hs hx hst ht hl
  rw [he]
  simp only [Emit.update, ht]
  cases before with
  | true =>
    change s.Runs vars [.increment x.slot delta.toInt16, .load .int x.slot] σ st _ _
    rw [← hload]
    refine Runs.bind hinc fun _ st' h => ?_
    cases h
    exact runs_load hx (Bindings.lookup_set_self hl) hk
  | false =>
    change s.Runs vars [.load .int x.slot, .increment x.slot delta.toInt16] σ st _ _
    rw [← hload]
    exact (runs_load hx hl hk).prepend hinc

theorem runs_update_prim (hs : s.Hosts vars free) (hx : x ∈ vars) (ht : x.type = .prim k)
    (hk : k.isNumeric = true) (hne : k ≠ .int) (hst : st.Sound false vars u)
    (hl : st.bindings.lookup x.name = some old) (hv : k.Holds old) :
    s.Runs vars (Emit.update x delta before es).1 σ st (counted x delta before old st)
      (· :: σ) := by
  have he : (Emit.update x delta before es).1 = Emit.updatePrimitive k x.slot delta before := by
    simp only [Emit.update, ht]
    rfl
  have hkind : x.type.stackKind = k.stackKind := by rw [ht]; rfl
  rw [he, counted, ht, Emit.updatePrimitive, ← hkind]
  refine runs_recompute hs hx hst hl (hv.stackKind.trans hkind.symm)
    (fun σ => runs_bump hv hk) fun new h => ?_
  obtain ⟨w, hw, hh⟩ := Kind.exists_bump hv hk delta
  cases hw.symm.trans h
  exact hh.stackKind.trans hkind.symm

theorem runs_update_boxed (hs : s.Hosts vars free) (hx : x ∈ vars) (ht : x.type = .boxed k)
    (hk : k.isNumeric = true) (hst : st.Sound false vars u)
    (hl : st.bindings.lookup x.name = some old) (hv : old.Good false u st.store (.boxed k))
    (hw : (Emit.update x delta before es).2.Within s) :
    s.Runs vars (Emit.update x delta before es).1 σ st (counted x delta before old st)
      (· :: σ) := by
  have he : Emit.update x delta before es = Emit.updateBoxed k x.slot delta before es := by
    simp only [Emit.update, ht]
  have hkind : x.type.stackKind = .reference := by rw [ht]; rfl
  have hdup : Emit.dupFor x.type.stackKind = .dup .dup := by rw [hkind]; rfl
  rw [he, Emit.updateBoxed_eq] at hw ⊢
  have hmid (σ : List Value) : s.Runs vars
      ((Emit.unbox k es).1 ++ (Emit.bump k delta ++ (Emit.box k (Emit.unbox k es).2).1))
      (old :: σ) st (Eval.lift (Eval.bumped (.boxed k) delta old) st) (· :: σ) := by
    rw [Eval.bumped, Eval.lift_bind]
    refine (runs_call_lift (hw.of_grows (Emit.plain_call _).1) Method.find?_unbox
      (Action.leaves_unbox old)).bind fun a st' h => ?_
    obtain ⟨ha, rfl⟩ := Eval.ok_of_lift h
    have hsafe := Value.safe_unbox hv.conforms
    rw [ha] at hsafe
    rw [Eval.lift_bind]
    refine (runs_bump hsafe hk).bind fun b st' h => ?_
    obtain ⟨hb, rfl⟩ := Eval.ok_of_lift h
    obtain ⟨b', hb', hh⟩ := Kind.exists_bump hsafe hk delta
    cases hb'.symm.trans hb
    exact runs_call_lift hw Method.find?_box (Action.leaves_box hh)
  rw [counted, ht, ← hdup, ← hkind]
  refine runs_recompute hs hx hst hl (hv.conforms.stackKind.trans hkind.symm) hmid fun new h => ?_
  have hsafe : Safe (Eval.bumped (.boxed k) delta old) _ := safe_bumped hk hv
  rw [h] at hsafe
  exact hsafe.conforms.stackKind.trans hkind.symm

end counters

/-- Counters of type `int` are incremented in their slot, others are recomputed, boxed ones by way
of their value. -/
theorem compiles_update {delta : Int8} {before : Bool} (hs : s.Hosts vars free) (hx : x ∈ vars)
    (ht : x.type.isNumeric = true) (hd : delta = 1 ∨ delta = -1) :
    (update x delta before tag).Compiles s vars free o := by
  intro es u σ st _ hw hst
  obtain ⟨old, hl, hv⟩ := hst.values x hx
  have he : (update x delta before tag).eval st = counted x delta before old st := by
    simp only [eval, Eval.lookup, bind, StateT.bind, hl, Except.bind]
    rfl
  rw [Emit.expr] at hw ⊢
  rw [he]
  cases htype : x.type with
  | prim k =>
    rw [htype] at hv ht
    by_cases hk : k = .int
    · subst hk
      exact runs_update_int hs hx htype hd hst hl hv.conforms
    · exact runs_update_prim hs hx htype ht hk hst hl hv.conforms
  | boxed k =>
    rw [htype] at hv ht
    exact runs_update_boxed hs hx htype ht hst hl hv hw
  | _ =>
    rw [htype] at ht
    cases ht

end Typed

end StackExpr
