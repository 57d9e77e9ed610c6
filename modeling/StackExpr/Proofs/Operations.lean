import Mathlib
import StackExpr.Proofs.Simulation

/-! Each operation of the machine does to the stack what the evaluation does to values. -/
namespace StackExpr

namespace Action

variable {v w : Value} {σ : List Value} {store : Store} {k : Kind} {op : ArithOp} {u : Unfinished}
  {deep : Bool} {t : Ty}

/-- What an operation leaves on top of a stack. -/
abbrev Leaves (act : Action Unit) (before : List Value) (store : Store)
    (r : Except FaultKind Value) (σ : List Value) : Prop :=
  act.Does before store (r.map fun v => (v :: σ, store))

/-- Closes a goal about an operation on a stack that is written out. -/
theorem leaves_of_run {act : Action Unit} {before : List Value}
    (h : ∀ store locals next, act ⟨before, store, locals, next⟩ =
      .ok () ⟨v :: σ, store, locals, next⟩) : act.Leaves before store (.ok v) σ :=
  does_of_run h

/-- A partial operation whose faults are the machine's own. -/
theorem leaves_lift {α : Type} {f : α → Value} {r : Except Fault α} {act : Action Unit}
    {before : List Value}
    (h : ∀ store locals next, act ⟨before, store, locals, next⟩ =
      (do push (f (← lift r)) : Action Unit) ⟨σ, store, locals, next⟩) :
    act.Leaves before store ((r.map f).mapError Fault.kind) σ := by
  intro m hm hs
  obtain ⟨_, s, locals, next⟩ := m
  cases hm
  cases r with
  | ok x => exact ⟨s, hs, h s locals next⟩
  | error f => exact ⟨f, _, h s locals next, rfl⟩

/-- Arithmetic on numbers of a kind leaves what it comes to, or the fault of a division. -/
theorem leaves_arith (ha : k.Holds v) (hb : (if op.isShift then Kind.int else k).Holds w)
    (hop : op.admits k = true) :
    (arith op k.stackKind).Leaves (w :: v :: σ) store (v.arith op k.stackKind w) σ := by
  have hints (hk : k.stackKind = .int) :
      (arith op k.stackKind).Leaves (w :: v :: σ) store (v.arith op k.stackKind w) σ := by
    obtain ⟨x, rfl⟩ := ha.eq_int hk
    obtain ⟨y, rfl⟩ := hb.eq_int (by split; exacts [rfl, hk])
    rw [hk]
    exact leaves_lift fun _ _ _ => rfl
  cases k with
  | long =>
    obtain ⟨x, rfl⟩ := ha.eq_long
    simp only [Kind.stackKind, arith, Value.arith]
    cases hs : op.isShift with
    | true =>
      rw [hs, if_pos rfl] at hb
      obtain ⟨y, rfl⟩ := hb.eq_int rfl
      exact leaves_lift fun _ _ _ => rfl
    | false =>
      rw [hs, if_neg Bool.false_ne_true] at hb
      obtain ⟨y, rfl⟩ := hb.eq_long
      exact leaves_lift fun _ _ _ => rfl
  | float =>
    obtain ⟨x, rfl⟩ := ha.eq_float
    have hb : Kind.float.Holds w := by cases op <;> first | exact hb | cases hop
    obtain ⟨y, rfl⟩ := hb.eq_float
    exact leaves_lift fun _ _ _ => rfl
  | double =>
    obtain ⟨x, rfl⟩ := ha.eq_double
    have hb : Kind.double.Holds w := by cases op <;> first | exact hb | cases hop
    obtain ⟨y, rfl⟩ := hb.eq_double
    exact leaves_lift fun _ _ _ => rfl
  | _ => exact hints rfl

theorem leaves_neg (h : k.Holds v) (hk : k.isPromoted = true) :
    (neg k.stackKind).Leaves (v :: σ) store v.negate σ := by
  cases k with
  | int => obtain ⟨n, rfl⟩ := h.eq_int rfl; exact leaves_of_run fun _ _ _ => rfl
  | long => obtain ⟨n, rfl⟩ := h.eq_long; exact leaves_of_run fun _ _ _ => rfl
  | float => obtain ⟨x, rfl⟩ := h.eq_float; exact leaves_of_run fun _ _ _ => rfl
  | double => obtain ⟨x, rfl⟩ := h.eq_double; exact leaves_of_run fun _ _ _ => rfl
  | _ => cases hk

/-- A conversion replaces the number on top. -/
theorem leaves_convert {c : PrimConv} (hv : v.stackKind = c.source) (h : c.convert? v = some w) :
    (convert c).Leaves (v :: σ) store (.ok w) σ := by
  refine leaves_of_run fun _ _ _ => ?_
  simp only [convert, popKind, pop, bind, EStateM.bind, hv, if_true, pure, EStateM.pure, h, push]

theorem leaves_pow (hv : Kind.double.Holds v) (hw : Kind.double.Holds w) :
    pow.Leaves (w :: v :: σ) store (v.raise w) σ := by
  obtain ⟨x, rfl⟩ := hv.eq_double
  obtain ⟨y, rfl⟩ := hw.eq_double
  exact leaves_of_run fun _ _ _ => rfl

theorem leaves_box (h : k.Holds v) : (box k).Leaves (v :: σ) store (v.box k) σ := by
  obtain ⟨x, hx, -⟩ := Kind.exists_box h
  rw [hx]
  have hw : v.wrap? k = some x := by
    rw [Value.box] at hx
    split at hx
    · next hw => cases hx; exact hw
    · cases hx
  refine leaves_of_run fun _ _ _ => ?_
  simp only [box, popKind, pop, bind, EStateM.bind, h.stackKind, if_true, pure, EStateM.pure, hw,
    push]

theorem unbox_boxed (own : Bool) (x : Wrapper) (store : Store) (locals : List (Option Value))
    (next : Nat) : unbox k own ⟨.boxed x :: σ, store, locals, next⟩ =
    (if own && x.kind != k then throw (.typeError k.wrapper x.kind.wrapper)
    else
      match x.unwrap? k with
      | some v => push v
      | none => throw (.typeError ClassName.number x.kind.wrapper) : Action Unit)
      ⟨σ, store, locals, next⟩ := rfl

/-- An accessor opens any wrapper that has its kind of number. -/
theorem leaves_access (v : Value) : (unbox k false).Leaves (v :: σ) store (v.access k) σ := by
  intro m hm hs
  obtain ⟨_, _, _, _⟩ := m
  cases hm
  cases v with
  | boxed x =>
    simp only [Value.access, unbox_boxed]
    cases x.unwrap? k with
    | some y => exact ⟨_, hs, rfl⟩
    | none => exact ⟨_, _, rfl, rfl⟩
  | _ => exact ⟨_, _, rfl, rfl⟩

/-- A wrapper is opened at its own kind only. -/
theorem leaves_unbox (v : Value) : (unbox k true).Leaves (v :: σ) store (v.unbox k) σ := by
  intro m hm hs
  obtain ⟨_, _, _, _⟩ := m
  cases hm
  cases v with
  | boxed x =>
    simp only [Value.unbox, Value.access, unbox_boxed]
    by_cases hk : x.kind = k
    · rw [if_pos hk, if_neg (by simp [hk])]
      cases x.unwrap? k with
      | some y => exact ⟨_, hs, rfl⟩
      | none => exact ⟨_, _, rfl, rfl⟩
    · rw [if_neg hk, if_pos (by simp [hk])]
      exact ⟨_, _, rfl, rfl⟩
  | _ => exact ⟨_, _, rfl, rfl⟩

/-- A finished value is read to its end, whatever else the store has. -/
theorem leaves_stringOf (hv : v.Good deep u store t) (hr : v.stackKind = .reference) :
    stringOf.Leaves (v :: σ) store (.ok (.string (store.read v).text)) σ := by
  intro m hm hs
  obtain ⟨_, s, _, _⟩ := m
  cases hm
  refine ⟨s, hs, ?_⟩
  rw [← Store.read_eq hs.keeps hv.grounded]
  cases v <;> first | rfl | cases hr

theorem leaves_concat (hv : v.Conforms deep store .string) (hw : w.Conforms deep store .string) :
    concat.Leaves (w :: v :: σ) store (v.concat w) σ := by
  intro m hm hs
  obtain ⟨_, _, _, _⟩ := m
  cases hm
  rcases hv with rfl | ⟨a, rfl⟩ <;> rcases hw with rfl | ⟨b, rfl⟩
  · exact ⟨_, _, rfl, rfl⟩
  · exact ⟨_, _, rfl, rfl⟩
  · exact ⟨_, _, rfl, rfl⟩
  · exact ⟨_, hs, rfl⟩

theorem leaves_equals {t' : Ty} (hv : v.Good deep u store t) (hw : w.Good deep u store t')
    (hrv : v.stackKind = .reference) (hrw : w.stackKind = .reference) :
    equals.Leaves (w :: v :: σ) store (.ok (.ofBool (store.equal v w))) σ := by
  intro m hm hs
  obtain ⟨_, s, _, _⟩ := m
  cases hm
  refine ⟨s, hs, ?_⟩
  rw [← Store.equal_eq hs.keeps hv.grounded hw.grounded]
  simp only [equals, popReference, popKind, pop, bind, EStateM.bind, hrv, hrw, if_true, pure,
    EStateM.pure, getStore, push, Value.ofBool]

theorem leaves_checkCast {cls : String} (hr : v.stackKind = .reference) :
    (checkCast cls).Leaves (v :: σ) store
      (if v.isInstance cls then .ok v else .error .classCast) σ := by
  intro m hm hs
  obtain ⟨_, _, _, _⟩ := m
  cases hm
  have he : ∀ m : Machine, m.stack = v :: σ → checkCast cls m = lift (v.checkCast cls) m := by
    intro m hm
    simp only [checkCast, peek, bind, EStateM.bind, hm]
  rw [he _ rfl, Value.checkCast]
  by_cases hi : v.isInstance cls = true
  · rw [if_pos hi, if_pos hi]
    exact ⟨_, hs, rfl⟩
  · rw [if_neg hi, if_neg hi, if_pos hr]
    exact ⟨_, _, rfl, rfl⟩

theorem does_init {cls : String} (h : (∃ a, v = .map a) ∨ ∃ a, v = .list a) :
    (init cls).Does (v :: σ) store (.ok (σ, store)) := by
  refine does_of_run fun _ _ _ => ?_
  rcases h with ⟨a, rfl⟩ | ⟨a, rfl⟩ <;> rfl

/-- A class of maps is instantiated as an empty map. -/
theorem does_instantiate_map {cls : String} (h : cls ∈ ClassName.maps) :
    (instantiate cls).Does σ store
      (.ok (.map (store.newMap []).1 :: σ, (store.newMap []).2)) := by
  intro m hm hs
  obtain ⟨_, s, _, _⟩ := m
  cases hm
  obtain ⟨ha, hs'⟩ := hs.newMap []
  refine ⟨(s.newMap []).2, hs', ?_⟩
  rw [instantiate, if_pos h, ← ha]
  rfl

theorem does_instantiate_list {cls : String} (hn : cls ∉ ClassName.maps)
    (h : cls ∈ ClassName.lists) :
    (instantiate cls).Does σ store
      (.ok (.list (store.newList []).1 :: σ, (store.newList []).2)) := by
  intro m hm hs
  obtain ⟨_, s, _, _⟩ := m
  cases hm
  obtain ⟨ha, hs'⟩ := hs.newList []
  refine ⟨(s.newList []).2, hs', ?_⟩
  rw [instantiate, if_neg hn, if_pos h, ← ha]
  rfl

theorem popReference_eq (h : v.stackKind = .reference) (store : Store)
    (locals : List (Option Value)) (next : Nat) :
    popReference ⟨v :: σ, store, locals, next⟩ = .ok v ⟨σ, store, locals, next⟩ := by
  simp only [popReference, popKind, pop, bind, EStateM.bind, h, if_true, pure, EStateM.pure]

/-- Leaves the value that the key had before, which nobody looks at. -/
theorem put_eq {key : Value} {a : Address} (hk : key.stackKind = .reference)
    (hv : v.stackKind = .reference) (locals : List (Option Value)) (next : Nat) :
    put ⟨v :: key :: .map a :: σ, store, locals, next⟩ =
      match key.key? with
      | some k =>
        .ok () ⟨((store.entries a).get? k).getD .null :: σ, store.put a k v, locals, next⟩
      | none => .error (Fault.unhashableKey key.typeName) ⟨σ, store, locals, next⟩ := by
  simp only [put, bind, EStateM.bind, popReference_eq hv, popReference_eq hk]
  cases key.key? <;> rfl

/-- A key that cannot be hashed is refused before anything is put. -/
theorem does_put {key : Value} {a : Address} (hk : key.stackKind = .reference)
    (hv : v.stackKind = .reference) :
    put.Does (v :: key :: .map a :: σ) store
      (match key.key? with
      | some k => .ok (((store.entries a).get? k).getD .null :: σ, store.put a k v)
      | none => .error .unhashableKey) := by
  intro m hm hs
  obtain ⟨_, s, locals, next⟩ := m
  cases hm
  rw [put_eq hk hv]
  cases key.key? with
  | some k => exact ⟨_, hs.put a k v, by rw [← hs.entries]⟩
  | none => exact ⟨_, _, rfl, rfl⟩

theorem does_add {a : Address} (hv : v.stackKind = .reference) :
    add.Does (v :: .list a :: σ) store (.ok (.int 1 :: σ, store.append a v)) := by
  intro m hm hs
  obtain ⟨_, s, locals, next⟩ := m
  cases hm
  refine ⟨s.append a v, hs.append a v, ?_⟩
  simp only [add, bind, EStateM.bind, popReference_eq hv]
  rfl

theorem popSlots_one (h : v.stackKind.size = 1) (n : Nat) (store : Store)
    (locals : List (Option Value)) (next : Nat) :
    popSlots n 1 ⟨v :: σ, store, locals, next⟩ = .ok [v] ⟨σ, store, locals, next⟩ := by
  have hs : v.size ≠ 2 := by
    rw [Value.size, h]
    decide
  simp only [popSlots, pop, bind, EStateM.bind, if_neg hs, pure, EStateM.pure]

theorem does_drop (h : v.stackKind.size = 1) (n : Nat) :
    (do let _ ← popSlots n 1 : Action Unit).Does (v :: σ) store (.ok (σ, store)) := by
  refine does_of_run fun _ _ _ => ?_
  simp only [bind, EStateM.bind, popSlots_one h]
  rfl

theorem does_duplicate (h : v.stackKind.size = 1) :
    (duplicate 1 0).Does (v :: σ) store (.ok (v :: v :: σ, store)) := by
  refine does_of_run fun _ _ _ => ?_
  simp only [duplicate, bind, EStateM.bind, popSlots_one h]
  rfl

theorem does_duplicate_wide (h : v.stackKind.size = 2) :
    (duplicate 2 0).Does (v :: σ) store (.ok (v :: v :: σ, store)) := by
  refine does_of_run fun _ _ _ => ?_
  cases v <;> first | rfl | cases h

end Action

namespace Method

variable {k : Kind} {cls : String}

variable {ref : MethodRef} {method : Method}

/-- No two methods share the text of their references. -/
theorem find?_all : ∀ p ∈ all, find? p.1 = some p.2 := by decide +kernel

/-- Methods are found in every part of the library. -/
theorem find?_wrapper (h : (ref, method) ∈ wrapperMethods) : find? ref = some method :=
  find?_all (ref, method) (by simp [all, h])

theorem find?_number (h : (ref, method) ∈ numberMethods) : find? ref = some method :=
  find?_all (ref, method) (by simp [all, h])

theorem find?_container (h : (ref, method) ∈ containerMethods) : find? ref = some method :=
  find?_all (ref, method) (by simp [all, h])

theorem find?_other (h : (ref, method) ∈ otherMethods) : find? ref = some method :=
  find?_all (ref, method) (by simp [all, h])

theorem mem_kinds (k : Kind) : k ∈ Kind.all := by cases k <;> decide

theorem find?_box : find? (.box k) = some (.box k) :=
  find?_wrapper (List.mem_flatMap.mpr ⟨k, mem_kinds k, by simp⟩)

theorem find?_unbox : find? (.unbox k) = some (.unbox k) :=
  find?_wrapper (List.mem_flatMap.mpr ⟨k, mem_kinds k, by simp⟩)

/-- An accessor is found for each numeric kind but `char`. -/
theorem find?_numberValue (hk : k.isNumeric = true) (hc : k ≠ .char) :
    find? (.numberValue k) = some (.numberValue k) := by
  apply find?_number
  refine List.mem_map.mpr ⟨k, List.mem_filter.mpr ⟨mem_kinds k, ?_⟩, rfl⟩
  simp [hk, hc]

theorem find?_init_map (h : cls ∈ ClassName.maps) : find? (.init cls) = some (.init cls) := by
  apply find?_container
  simp only [containerMethods, List.mem_append, List.mem_flatMap]
  exact .inl (.inl ⟨cls, h, List.mem_cons_self⟩)

theorem find?_init_list (h : cls ∈ ClassName.lists) : find? (.init cls) = some (.init cls) := by
  apply find?_container
  simp only [containerMethods, List.mem_append, List.mem_flatMap]
  exact .inl (.inr ⟨cls, h, List.mem_cons_self⟩)

theorem find?_put (h : cls ∈ ClassName.maps) : find? (.put cls) = some .put := by
  apply find?_container
  simp only [containerMethods, List.mem_append, List.mem_flatMap]
  exact .inl (.inl ⟨cls, h, List.mem_cons_of_mem _ List.mem_cons_self⟩)

theorem find?_add (h : cls ∈ ClassName.lists) : find? (.add cls) = some .add := by
  apply find?_container
  simp only [containerMethods, List.mem_append, List.mem_flatMap]
  exact .inl (.inr ⟨cls, h, List.mem_cons_of_mem _ List.mem_cons_self⟩)

end Method

namespace Sequence

variable {α : Type} {s : Sequence} {vars : List Local} {σ : List Value} {st : EvalState}
  {es : EmitState} {mode : InvokeMode} {ref : MethodRef} {f : Method}

/-- A call runs the method that its entry names. -/
theorem step_invoke {index : Nat} {e : PoolEntry} (he : s.pool.get? index = some e)
    (hm : e.method? = some ref) (hf : Method.find? ref = some f) :
    s.step (.invoke mode index) = f.run := by
  funext m
  simp only [step, entry, he, bind, EStateM.bind, pure, EStateM.pure, hm, Action.invoke, hf]

theorem step_call (hw : (Emit.call mode ref es).2.Within s) (hf : Method.find? ref = some f) :
    ∃ index, (Emit.call mode ref es).1 = [.invoke mode index] ∧
      s.step (.invoke mode index) = f.run := by
  refine ⟨_, rfl, step_invoke (Emit.get?_entry hw) ?_ hf⟩
  split_ifs <;> rfl

/-- A call does to the operands what its method does. -/
theorem runs_call {v : α} {out : α → List Value} {store : Store}
    (hw : (Emit.call mode ref es).2.Within s) (hf : Method.find? ref = some f)
    (h : f.run.Does σ st.store (.ok (out v, store))) :
    s.Runs vars (Emit.call mode ref es).1 σ st (.ok (v, { st with store := store })) out := by
  obtain ⟨index, hc, hs⟩ := step_call hw hf
  rw [hc]
  exact runs_of_does (hs ▸ h)

/-- A call whose effect is a function of the operands. -/
theorem runs_call_lift {r : Except FaultKind α} {out : α → List Value}
    (hw : (Emit.call mode ref es).2.Within s) (hf : Method.find? ref = some f)
    (h : f.run.Does σ st.store (r.map fun v => (out v, st.store))) :
    s.Runs vars (Emit.call mode ref es).1 σ st (Eval.lift r st) out := by
  obtain ⟨index, hc, hs⟩ := step_call hw hf
  rw [hc]
  exact runs_lift (hs ▸ h)

theorem entry_eq {index : Nat} {e : PoolEntry} (he : s.pool.get? index = some e) (m : Machine) :
    s.entry index m = .ok e m := by
  rw [entry, he]
  rfl

theorem className_eq {index : Nat} {cls : String} (he : s.pool.get? index = some (.classRef cls))
    (m : Machine) : s.className index m = .ok cls m := by
  simp only [className, bind, EStateM.bind, entry_eq he]
  rfl

/-- Pushes a value whatever is below. -/
theorem runs_push {i : Instr} {v : Value} (h : ∀ m, s.step i m = Action.push v m) :
    s.Runs vars [i] σ st (.ok (v, st)) (· :: σ) :=
  runs_of_does (Action.leaves_of_run fun _ _ _ => h _)

theorem step_ldc {index : Nat} {e : PoolEntry} (he : s.pool.get? index = some e) (m : Machine) :
    s.step (.ldc index) m =
      (match e with
      | .int v => Action.push (.int v)
      | .float bits => Action.push (.float (Float32.ofBits bits))
      | .string v => Action.push (.string v)
      | _ => throw (Fault.badConstant index)) m := by
  cases e <;> simp only [step, bind, EStateM.bind, entry_eq he]

theorem step_ldc2 {index : Nat} {e : PoolEntry} (he : s.pool.get? index = some e) (m : Machine) :
    s.step (.ldc2 index) m =
      (match e with
      | .long v => Action.push (.long v)
      | .double bits => Action.push (.double (Float.ofBits bits))
      | _ => throw (Fault.badConstant index)) m := by
  cases e <;> simp only [step, bind, EStateM.bind, entry_eq he]

theorem runs_int (n : Int32) (hw : (Emit.int n es).2.Within s) :
    s.Runs vars (Emit.int n es).1 σ st (.ok (.int n, st)) (· :: σ) := by
  unfold Emit.int at hw ⊢
  split_ifs at hw ⊢ with h₁ h₂ h₃
  · exact runs_push fun m => rfl
  · refine runs_push fun m => ?_
    rw [step, toInt8_of_fits h₂]
  · refine runs_push fun m => ?_
    rw [step, toInt16_of_fits h₃]
  · exact runs_push fun m => step_ldc (Emit.get?_entry hw) m

theorem runs_long (n : Int64) (hw : (Emit.long n es).2.Within s) :
    s.Runs vars (Emit.long n es).1 σ st (.ok (.long n, st)) (· :: σ) := by
  unfold Emit.long at hw ⊢
  split_ifs at hw ⊢
  · exact runs_push fun m => rfl
  · exact runs_push fun m => step_ldc2 (Emit.get?_entry hw) m

theorem runs_float (x : Float32) (hw : (Emit.float x es).2.Within s) :
    s.Runs vars (Emit.float x es).1 σ st (.ok (.float x, st)) (· :: σ) := by
  unfold Emit.float at hw ⊢
  split_ifs at hw ⊢
  · exact runs_push fun m => rfl
  · refine runs_push fun m => (step_ldc (Emit.get?_entry hw) m).trans ?_
    simp only [Float32.ofBits_toBits]

theorem runs_double (x : Float) (hw : (Emit.double x es).2.Within s) :
    s.Runs vars (Emit.double x es).1 σ st (.ok (.double x, st)) (· :: σ) := by
  unfold Emit.double at hw ⊢
  split_ifs at hw ⊢
  · exact runs_push fun m => rfl
  · refine runs_push fun m => (step_ldc2 (Emit.get?_entry hw) m).trans ?_
    simp only [Float.ofBits_toBits]

/-- The code of a constant pushes its value, by itself or from the pool. -/
theorem runs_constant (c : Constant) (hw : (Emit.constant c es).2.Within s) :
    s.Runs vars (Emit.constant c es).1 σ st (.ok (c.value, st)) (· :: σ) := by
  cases c with
  | int n => exact runs_int n hw
  | long n => exact runs_long n hw
  | float x => exact runs_float x hw
  | double x => exact runs_double x hw
  | boolean b => exact runs_push fun m => rfl
  | string text => exact runs_push fun m => step_ldc (Emit.get?_entry hw) m
  | null => exact runs_push fun m => rfl

variable {v w : Value} {j k : Kind}

/-- A conversion that is a single instruction. -/
theorem runs_primConv {c : PrimConv} (hv : v.stackKind = c.source) (h : c.convert? v = some w) :
    s.Runs vars [.convert c] (v :: σ) st (.ok (w, st)) (· :: σ) :=
  runs_of_does (Action.leaves_convert hv h)

/-- A number travels as a kind does, or one instruction makes it, and the kind's own value is still
to be had. -/
theorem between?_cases (v : Value) (k : Kind) (hv : v.stackKind ≠ .reference) :
    v.stackKind = k.stackKind ∧ PrimConv.between? v.stackKind k.stackKind = none ∨
      ∃ c x, PrimConv.between? v.stackKind k.stackKind = some c ∧ v.stackKind = c.source ∧
        c.convert? v = some x ∧ x.stackKind = k.stackKind ∧ x.toKind? k = v.toKind? k ∧
        v.stackKind ≠ k.stackKind := by
  cases v with
  | int | long | float | double =>
    cases k <;> first
      | exact .inl ⟨rfl, rfl⟩
      | exact .inr ⟨_, _, rfl, rfl, rfl, rfl, rfl, nofun⟩
  | _ => exact absurd rfl hv

theorem runs_between (hv : v.stackKind = j.stackKind) :
    ∃ x, s.Runs vars ((PrimConv.between? j.stackKind k.stackKind).map Instr.convert).toList
        (v :: σ) st (.ok (x, st)) (· :: σ) ∧ x.stackKind = k.stackKind ∧
      x.toKind? k = v.toKind? k ∧ (j.stackKind = k.stackKind → x = v) := by
  have hr : v.stackKind ≠ .reference := hv ▸ (by cases j <;> nofun)
  rw [← hv]
  rcases between?_cases v k hr with ⟨hs, hb⟩ | ⟨c, x, hb, hs, hc, hx, ht, hne⟩
  · rw [hb]
    exact ⟨v, runs_nil rfl, hs, rfl, fun _ => rfl⟩
  · rw [hb]
    exact ⟨x, runs_primConv hs hc, hx, ht, fun h => absurd h hne⟩

/-- A kind that widens to another has only values of the other, as far as they travel alike. -/
theorem holds_of_widensTo (hv : j.Holds v) (h : j.widensTo k = true)
    (hs : j.stackKind = k.stackKind) : k.Holds v := by
  by_cases he : j = k
  · exact he ▸ hv
  · rcases (show k = .int ∨ j = .byte ∧ k = .short by
      cases j <;> cases k <;> simp_all [Kind.stackKind] <;> cases h) with rfl | ⟨rfl, rfl⟩
    · obtain ⟨n, rfl⟩ := hv.eq_int hs
      exact Kind.holds_int n
    · obtain ⟨n, rfl⟩ := hv.eq_int rfl
      have hf := hv.2
      refine ⟨rfl, ?_⟩
      simp only [Kind.fits, Kind.range?, Bool.and_eq_true, decide_eq_true_eq] at hf ⊢
      omega

theorem holds_of_stackKind (hv : v.stackKind = k.stackKind) (hk : k.isPromoted = true) :
    k.Holds v := by
  cases k with
  | int =>
    cases v with
    | int n => exact Kind.holds_int n
    | _ => cases hv
  | long | float | double => cases v <;> trivial
  | _ => cases hk

theorem isPromoted_of_widensTo (h : j.widensTo k = true) (hne : k.stackKind ≠ j.stackKind) :
    k.isPromoted = true := by
  revert h hne
  cases j <;> cases k <;> decide

/-- An `int` is cut down to a narrower kind; other kinds have nothing to cut. -/
theorem runs_narrow (hv : v.stackKind = k.stackKind) (hk : k.isNumeric = true)
    (hw : v.toKind? k = some w) :
    s.Runs vars ((PrimConv.narrow? k).map Instr.convert).toList (v :: σ) st (.ok (w, st))
      (· :: σ) := by
  have keep (hp : k.isPromoted = true) (hc : PrimConv.narrow? k = none) : s.Runs vars
      ((PrimConv.narrow? k).map Instr.convert).toList (v :: σ) st (.ok (w, st)) (· :: σ) := by
    obtain rfl : v = w := Option.some.inj (((holds_of_stackKind hv hp).toKind? hk).symm.trans hw)
    rw [hc]
    exact runs_nil rfl
  cases k with
  | byte | short | char =>
    cases v with
    | int n => exact runs_primConv rfl hw
    | _ => cases hv
  | boolean => cases hk
  | _ => exact keep rfl rfl

/-- A change of kind is at most one conversion between words and one down to a narrow kind. -/
theorem runs_change (hv : j.Holds v) (hj : j.isNumeric = true) (hk : k.isNumeric = true)
    (hw : v.toKind? k = some w) :
    s.Runs vars (Emit.change j k) (v :: σ) st (.ok (w, st)) (· :: σ) := by
  rw [Emit.change]
  split_ifs with he hwide
  · subst he
    obtain rfl : v = w := Option.some.inj ((hv.toKind? hj).symm.trans hw)
    exact runs_nil rfl
  · obtain ⟨x, hx, hs, ht, hsame⟩ : ∃ x, s.Runs vars _ (v :: σ) st (.ok (x, st)) _ ∧ _ :=
      runs_between hv.stackKind
    have hh : k.Holds x := by
      by_cases hp : k.stackKind = j.stackKind
      · rw [hsame hp.symm]
        exact holds_of_widensTo hv hwide hp.symm
      · exact holds_of_stackKind hs (isPromoted_of_widensTo hwide hp)
    obtain rfl : x = w := Option.some.inj ((hh.toKind? hk).symm.trans (ht.trans hw))
    rw [List.append_nil]
    exact hx
  · obtain ⟨x, hx, hs, ht, -⟩ : ∃ x, s.Runs vars _ (v :: σ) st (.ok (x, st)) _ ∧ _ :=
      runs_between hv.stackKind
    exact hx.prepend (runs_narrow hs hk (ht.trans hw))

/-- One is added or subtracted as the number travels. -/
theorem runs_addOne (op : ArithOp) (hop : op = .add ∨ op = .subtract) (hv : k.Holds v) :
    ∃ w, v.arith op k.stackKind (.one k.stackKind) = .ok w ∧ w.stackKind = k.stackKind ∧
      s.Runs vars [Emit.one k.stackKind, .arith op k.stackKind] (v :: σ) st (.ok (w, st))
        (· :: σ) := by
  have hone : s.Runs vars [Emit.one k.stackKind] (v :: σ) st (.ok (.one k.stackKind, st))
      (· :: v :: σ) := by
    cases k <;> exact runs_push fun _ => rfl
  cases k with
  | long =>
    obtain ⟨n, rfl⟩ := hv.eq_long
    rcases hop with rfl | rfl <;>
      exact ⟨_, rfl, rfl, hone.prepend (runs_of_does (Action.leaves_of_run fun _ _ _ => rfl))⟩
  | float =>
    obtain ⟨x, rfl⟩ := hv.eq_float
    rcases hop with rfl | rfl <;>
      exact ⟨_, rfl, rfl, hone.prepend (runs_of_does (Action.leaves_of_run fun _ _ _ => rfl))⟩
  | double =>
    obtain ⟨x, rfl⟩ := hv.eq_double
    rcases hop with rfl | rfl <;>
      exact ⟨_, rfl, rfl, hone.prepend (runs_of_does (Action.leaves_of_run fun _ _ _ => rfl))⟩
  | _ =>
    obtain ⟨n, rfl⟩ := hv.eq_int rfl
    rcases hop with rfl | rfl <;>
      exact ⟨_, rfl, rfl, hone.prepend (runs_of_does (Action.leaves_of_run fun _ _ _ => rfl))⟩

/-- A counter of any kind goes up or down by one and stays of its kind. -/
theorem runs_bump {delta : Int8} (hv : k.Holds v) (hk : k.isNumeric = true) :
    s.Runs vars (Emit.bump k delta) (v :: σ) st (Eval.lift (v.bump k delta) st) (· :: σ) := by
  obtain ⟨w, hw, hs, hrun⟩ : ∃ w, _ ∧ _ ∧ s.Runs vars _ (v :: σ) st (.ok (w, st)) _ :=
    runs_addOne (if delta > 0 then .add else .subtract) (by split_ifs <;> simp) hv
  have hr : w.stackKind ≠ .reference := hs ▸ (by cases k <;> nofun)
  obtain ⟨x, hx, -⟩ := Kind.exists_toKind? hk hr
  have he : v.bump k delta = .ok x := by
    simp only [Value.bump, hw, bind, Except.bind, hx]
    rfl
  rw [he]
  exact hrun.prepend (runs_narrow hs hk hx)

/-- Numbers are asked of a wrapper, and a `char` by way of an `int`. -/
theorem runs_numberValue (hk : k.isNumeric = true) (hw : (Emit.numberValue k es).2.Within s)
    (v : Value) :
    s.Runs vars (Emit.numberValue k es).1 (v :: σ) st (Eval.lift (v.access k) st) (· :: σ) := by
  unfold Emit.numberValue at hw ⊢
  split_ifs at hw ⊢ with hc
  · subst hc
    have hcall : s.Runs vars (Emit.call .virtual (.numberValue .int) es).1 (v :: σ) st
        (Eval.lift (v.access .int) st) (· :: σ) :=
      runs_call_lift hw (Method.find?_numberValue rfl nofun) (Action.leaves_access v)
    have he : Eval.lift (v.access .char) st =
        (Eval.lift (v.access .int) >>= fun x => Eval.lift
          (match PrimConv.i2c.convert? x with
          | some y => .ok y
          | none => .error .typeError)) st := by
      cases v with
      | boxed x => cases x <;> rfl
      | _ => rfl
    rw [he]
    refine hcall.bind fun x st' hx => ?_
    obtain ⟨n, rfl⟩ : ∃ n, x = .int n := by
      cases v with
      | boxed y => cases y <;> first | exact ⟨_, (congrArg Prod.fst (Except.ok.inj hx)).symm⟩ | cases hx
      | _ => cases hx
    exact runs_primConv rfl rfl
  · exact runs_call_lift hw (Method.find?_numberValue hk hc) (Action.leaves_access v)

end Sequence

/-- The library knows the containers that literals build. -/
structure Options.Known (o : Options) : Prop where
  container : o.container ∈ ClassName.maps
  list : o.list ∈ ClassName.lists

theorem Options.known_default : Options.default.Known := ⟨by decide, by decide⟩

/-- Checks against the class of a type find the same instances, whatever container class the options
name. -/
theorem Value.isInstance_className {o : Options} (ho : o.Known) (v : Value) (t : Ty) :
    v.isInstance (Emit.className o t) = v.isInstance t.className := by
  cases t with
  | record key value =>
    have h := ho.container
    simp only [ClassName.maps, List.mem_cons, List.not_mem_nil, or_false] at h
    rw [Emit.className]
    rcases h with h | h <;> rw [h]
    · rfl
    · cases v with
      | boxed w => cases w <;> rfl
      | _ => rfl
  | array element =>
    have h := ho.list
    simp only [ClassName.lists, List.mem_cons, List.not_mem_nil, or_false] at h
    rw [Emit.className]
    rcases h with h | h <;> rw [h]
    · rfl
    · cases v with
      | boxed w => cases w <;> rfl
      | _ => rfl
  | _ => rfl

namespace Sequence

variable {s : Sequence} {vars : List Local} {σ : List Value} {st : EvalState} {es : EmitState}
  {o : Options} {u : Unfinished} {v : Value} {t : Ty}

/-- A check that is left out would have passed. -/
theorem isInstance_of_elided {t' : Ty} (hv : v.Conforms false st.store t)
    (ht : t = .any ∨ (t = .number ∧ ∃ k, t' = .boxed k) ∨ ∃ x y, t = .array x ∧ t' = .array y)
    (hc : Emit.className o t' = Emit.className o t) (ha : t ≠ .any) :
    v.isInstance t'.className = true := by
  rcases ht with rfl | ⟨rfl, k, rfl⟩ | ⟨x, y, rfl, rfl⟩
  · exact absurd rfl ha
  · have hc : k.wrapperClass = ClassName.number := hc
    exact absurd (by simp [hc]) k.wrapperClass_not_mem
  · rcases hv with rfl | ⟨a, rfl, -⟩ <;> rfl

theorem runs_checkCast {cls : String} (hw : (Emit.entry (.classRef cls) es).2.Within s)
    (hr : v.stackKind = .reference) :
    s.Runs vars [.checkCast (Emit.entry (.classRef cls) es).1] (v :: σ) st
      (Eval.lift (if v.isInstance cls then .ok v else .error .classCast) st) (· :: σ) := by
  have hs : s.step (.checkCast (Emit.entry (.classRef cls) es).1) = Action.checkCast cls := by
    funext m
    simp only [step, bind, EStateM.bind, className_eq (Emit.get?_entry hw)]
  exact runs_lift (hs ▸ Action.leaves_checkCast hr)

/-- The code of a conversion step does what the step does. -/
theorem runs_conversion {step : Conversion} (ho : o.Known) (ht : step.Takes false t)
    (hv : v.Good false u st.store t) (hw : (Emit.conversion o t step es).2.Within s) :
    s.Runs vars (Emit.conversion o t step es).1 (v :: σ) st
      (Eval.lift (step.convert st.store v) st) (· :: σ) := by
  cases step with
  | unbox k => exact runs_call_lift hw Method.find?_unbox (Action.leaves_unbox v)
  | box k =>
    subst ht
    exact runs_call_lift hw Method.find?_box (Action.leaves_box hv.conforms)
  | change j k =>
    obtain ⟨rfl, hj, hk⟩ := ht
    have hr : v.stackKind ≠ .reference := by
      rw [hv.conforms.stackKind]
      cases j <;> nofun
    obtain ⟨w, hw, -⟩ := Kind.exists_toKind? hk hr
    simp only [Conversion.convert, hw]
    exact runs_change hv.conforms hj hk hw
  | numberValue k => exact runs_numberValue ht.2 hw v
  | checkCast t' =>
    obtain ⟨-, -, -, hs⟩ := ht
    have hr : v.stackKind = .reference := by
      rw [hv.conforms.stackKind]
      rcases hs with rfl | ⟨rfl, -⟩ | ⟨x, -, rfl, -⟩ <;> rfl
    simp only [Emit.conversion, Emit.checkCast, Conversion.convert] at hw ⊢
    by_cases hc : Emit.className o t' = Emit.className o t ∧ t ≠ .any ∧ t ≠ .null
    · rw [if_pos hc, if_pos (isInstance_of_elided hv.conforms hs hc.1 hc.2.1)]
      exact runs_nil rfl
    · rw [if_neg hc] at hw ⊢
      rw [← Value.isInstance_className ho]
      exact runs_checkCast hw hr
  | stringify =>
    have hr : v.stackKind = .reference := ((Value.conforms_of_not_prim ht).mp hv.conforms).stackKind
    exact runs_call_lift (f := .stringOf) hw (Method.find?_other (by simp [Method.otherMethods]))
      (Action.leaves_stringOf hv hr)

/-- Booleans are the numbers 1 and 0, and flipping the low bit negates them. -/
theorem runs_flip (b : Bool) :
    s.Runs vars Emit.flip (.ofBool b :: σ) st (.ok (.ofBool !b, st)) (· :: σ) := by
  refine Runs.prepend (a := [.intConst 1]) (runs_push (v := .int 1) fun _ => rfl) ?_
  refine runs_of_does (Action.leaves_of_run fun _ _ _ => ?_)
  cases b <;> rfl

theorem runs_flipIf (op : Comparison) (b : Bool) :
    s.Runs vars (if op = .notEqual then Emit.flip else []) (.ofBool b :: σ) st
      (.ok (.ofBool (b != (op == .notEqual)), st)) (· :: σ) := by
  cases op with
  | notEqual =>
    have hb : (b != (Comparison.notEqual == .notEqual)) = !b := by cases b <;> rfl
    rw [hb]
    exact runs_flip b
  | _ =>
    refine runs_nil ?_
    cases b <;> rfl

theorem passes_push {i : Instr} {p : Nat} (h : s.code[p]? = some i)
    (hi : ∀ m, s.step i m = Action.push v m) : s.Passes vars p σ st (p + 1) (v :: σ) st :=
  passes_of_step h fun m hm hp => by rw [hi, Action.push, hm, ← hp]

theorem step_boolean (b : Bool) (m : Machine) :
    s.step (Emit.boolean b) m = Action.push (.ofBool b) m := rfl

/-- A jump on a condition, and 1 or 0 according to it. -/
theorem runs_choice {j : Instr} {yes done : Label} {b : Bool} {σ' : List Value}
    (hn : (s.code.filterMap Instr.placed?).Nodup)
    (hj : ∀ store locals next, s.step j ⟨σ', store, locals, next⟩ =
      s.jumpIf b yes ⟨σ, store, locals, next⟩) :
    s.Runs vars (j :: Emit.branchResult yes done) σ' st (.ok (.ofBool b, st)) (· :: σ) := by
  intro p hc
  have hyes : s.code[p + 3]? = some (.label yes) := hc.get rfl
  have hdone : s.code[p + 5]? = some (.label done) := hc.get rfl
  refine (passes_jumpIf hn hyes hc.head hj).follows ?_
  cases b with
  | true =>
    have htrue : s.code[p + 4]? = some (Emit.boolean true) := hc.get rfl
    exact (passes_push htrue (step_boolean _)).trans (passes_label hdone)
  | false =>
    have hfalse : s.code[p + 1]? = some (Emit.boolean false) := hc.get rfl
    have hgoto : s.code[p + 2]? = some (.goto done) := hc.get rfl
    exact (passes_push hfalse (step_boolean _)).trans (passes_goto hn hgoto hdone)

/-- The outcome of a comparison satisfies a condition as the order of the operands does, if
operands without an order come out on the side that does not satisfy it. -/
theorem holds_threeWay (op : Comparison) (less equal greater : Bool) (n : Int32)
    (h : less = true ∨ equal = true ∨ greater = true ∨
      n = if op = .less ∨ op = .lessEqual then 1 else -1) :
    (Condition.ofComparison op).holds (threeWay less equal greater n) =
      op.admits (Value.ordering less equal greater) := by
  cases less <;> cases equal <;> cases greater <;>
    simp only [Bool.false_eq_true, false_or, or_true, true_or] at h <;>
    cases op <;> first | rfl | (subst h; rfl)

theorem runs_ifZero {c : Condition} {yes done : Label} (n : Int32)
    (hn : (s.code.filterMap Instr.placed?).Nodup) :
    s.Runs vars (.ifZero c yes :: Emit.branchResult yes done) (.int n :: σ) st
      (.ok (.ofBool (c.holds n), st)) (· :: σ) :=
  runs_choice hn fun _ _ _ => rfl

/-- Comparing numbers: at once if they are `int`s, else by way of the outcome of a comparison. -/
theorem runs_compareNumbers {k : Kind} {a b : Value} {yes done : Label} (op : Comparison)
    (hn : (s.code.filterMap Instr.placed?).Nodup) (ha : k.Holds a) (hb : k.Holds b)
    (hk : k.isPromoted = true ∨ k = .boolean) :
    s.Runs vars (Emit.compareNumbers op k.stackKind yes ++ Emit.branchResult yes done)
      (b :: a :: σ) st (Eval.lift (a.compare op b) st) (· :: σ) := by
  have hint (hk : k.stackKind = .int) : s.Runs vars
      (Emit.compareNumbers op k.stackKind yes ++ Emit.branchResult yes done)
      (b :: a :: σ) st (Eval.lift (a.compare op b) st) (· :: σ) := by
    obtain ⟨x, rfl⟩ := ha.eq_int hk
    obtain ⟨y, rfl⟩ := hb.eq_int hk
    have ho := holds_threeWay op (x < y) (x == y) (y < x) 0
      (by simp only [decide_eq_true_eq, beq_iff_eq]; grind)
    rw [hk]
    simp only [Value.compare, Value.order, bind, Except.bind, ← ho]
    exact runs_choice hn fun _ _ _ => rfl
  cases k with
  | int => exact hint rfl
  | boolean => exact hint rfl
  | long =>
    obtain ⟨x, rfl⟩ := ha.eq_long
    obtain ⟨y, rfl⟩ := hb.eq_long
    have ho := holds_threeWay op (x < y) (x == y) (y < x) (-1)
      (by simp only [decide_eq_true_eq, beq_iff_eq]; grind)
    simp only [Value.compare, Value.order, bind, Except.bind, ← ho]
    exact (runs_of_does (Action.leaves_of_run fun _ _ _ => rfl)).prepend (runs_ifZero _ hn)
  | float =>
    obtain ⟨x, rfl⟩ := ha.eq_float
    obtain ⟨y, rfl⟩ := hb.eq_float
    have ho := holds_threeWay op (x < y) (x == y) (y < x) _ (.inr (.inr (.inr rfl)))
    simp only [Value.compare, Value.order, bind, Except.bind, ← ho]
    refine (runs_of_does (Action.leaves_of_run fun _ _ _ => ?_)).prepend (runs_ifZero _ hn)
    split_ifs <;> rfl
  | double =>
    obtain ⟨x, rfl⟩ := ha.eq_double
    obtain ⟨y, rfl⟩ := hb.eq_double
    have ho := holds_threeWay op (x < y) (x == y) (y < x) _ (.inr (.inr (.inr rfl)))
    simp only [Value.compare, Value.order, bind, Except.bind, ← ho]
    refine (runs_of_does (Action.leaves_of_run fun _ _ _ => ?_)).prepend (runs_ifZero _ hn)
    split_ifs <;> rfl
  | _ => rcases hk with hk | hk <;> cases hk

/-- A comparison with `null` looks at the other operand only. -/
theorem runs_nullCheck {yes done : Label} (op : Comparison)
    (hn : (s.code.filterMap Instr.placed?).Nodup) (hv : v.stackKind = .reference) :
    s.Runs vars ((if op = .notEqual then .ifNonNull yes else .ifNull yes) ::
        Emit.branchResult yes done) (v :: σ) st
      (.ok (.ofBool (v.isNull != (op == .notEqual)), st)) (· :: σ) := by
  refine runs_choice hn fun _ _ _ => ?_
  cases op <;> cases v <;> first | rfl | cases hv

end Sequence

end StackExpr
