import StackExpr.Proofs.Emission
import StackExpr.Proofs.Soundness

/-! How code that runs follows an evaluation.

A machine stands for a state of the evaluation if it has the same containers and every variable in
its slot. Code follows an evaluation if it takes the one to the other: to its value on top of an
untouched stack, or to a fault of the same kind. -/
namespace StackExpr

/-- The same containers; iterators may differ. -/
structure Store.Alike (s s' : Store) : Prop where
  maps : s.maps = s'.maps
  lists : s.lists = s'.lists

namespace Store.Alike

variable {s s' : Store}

theorem refl (s : Store) : s.Alike s := ⟨rfl, rfl⟩

theorem entries (h : s.Alike s') (a : Address) : s.entries a = s'.entries a := by
  simp only [Store.entries, h.maps]

theorem items (h : s.Alike s') (a : Address) : s.items a = s'.items a := by
  simp only [Store.items, h.lists]

theorem put (h : s.Alike s') (a : Address) (k : MapKey) (v : Value) :
    (s.put a k v).Alike (s'.put a k v) :=
  ⟨by simp only [Store.put, h.entries, h.maps], h.lists⟩

theorem append (h : s.Alike s') (a : Address) (v : Value) :
    (s.append a v).Alike (s'.append a v) :=
  ⟨h.maps, by simp only [Store.append, h.items, h.lists]⟩

/-- Stores that are alike hand out the same address. -/
theorem newMap (h : s.Alike s') (es : MapEntries) :
    (s.newMap es).1 = (s'.newMap es).1 ∧ (s.newMap es).2.Alike (s'.newMap es).2 :=
  ⟨congrArg List.length h.maps, by simp only [Store.newMap, h.maps], h.lists⟩

theorem newList (h : s.Alike s') (xs : List Value) :
    (s.newList xs).1 = (s'.newList xs).1 ∧ (s.newList xs).2.Alike (s'.newList xs).2 :=
  ⟨congrArg List.length h.lists, h.maps, by simp only [Store.newList, h.lists]⟩

/-- Whether a value is of a type does not depend on iterators. -/
theorem kept {deep : Bool} {t : Ty} {v : Value} (h : s.Alike s') (hv : v.Kept deep s t) :
    v.Kept deep s' t := by
  induction t generalizing v with
  | record key value ihk ihv =>
    rcases hv with rfl | ⟨a, rfl, hv⟩
    · exact Value.kept_null ..
    · refine .inr ⟨a, rfl, fun hd e he => ?_⟩
      rw [← h.entries a] at he
      exact ⟨ihk (hv hd e he).1, ihv (hv hd e he).2⟩
  | array element ih =>
    rcases hv with rfl | ⟨a, rfl, hv⟩
    · exact Value.kept_null ..
    · refine .inr ⟨a, rfl, fun hd x hx => ?_⟩
      rw [← h.items a] at hx
      exact ih (hv hd x hx)
  | _ => exact hv

theorem conforms {deep : Bool} {t : Ty} {v : Value} (h : s.Alike s')
    (hv : v.Conforms deep s t) : v.Conforms deep s' t := by
  cases t with
  | prim k => exact hv
  | _ => exact h.kept hv

theorem symm (h : s.Alike s') : s'.Alike s := ⟨h.maps.symm, h.lists.symm⟩

theorem trans {s'' : Store} (h : s.Alike s') (h' : s'.Alike s'') : s.Alike s'' :=
  ⟨h.maps.trans h'.maps, h.lists.trans h'.lists⟩

/-- Only iterators may differ, and no value depends on them. -/
theorem keeps {u : Unfinished} (h : s.Alike s') : s'.Keeps u s :=
  ⟨Nat.le_of_eq (congrArg _ h.maps.symm), Nat.le_of_eq (congrArg _ h.lists.symm),
    fun a _ _ => h.entries a, fun a _ _ => h.items a⟩

end Store.Alike

/-- What an action does to the stack and the containers. -/
def Action.Does (act : Action Unit) (σ : List Value) (store : Store)
    (r : Except FaultKind (List Value × Store)) : Prop :=
  ∀ m : Machine, m.stack = σ → m.store.Alike store →
    match r with
    | .ok (σ', store') => ∃ t : Store, t.Alike store' ∧
        act m = .ok () { m with stack := σ', store := t }
    | .error k => ∃ f m', act m = .error f m' ∧ f.kind = k

/-- An action that only works on the stack. -/
theorem Action.does_of_run {act : Action Unit} {σ σ' : List Value} {store : Store}
    (h : ∀ store locals next, act ⟨σ, store, locals, next⟩ =
      .ok () ⟨σ', store, locals, next⟩) : act.Does σ store (.ok (σ', store)) := by
  intro m hm hs
  obtain ⟨_, s, locals, next⟩ := m
  cases hm
  exact ⟨s, hs, h s locals next⟩

/-- The machine is at a position, with a stack, and holds a state of the evaluation. -/
structure Machine.At (m : Machine) (s : Sequence) (vars : List Local) (p : Nat) (σ : List Value)
    (st : EvalState) : Prop where
  next : m.next = p
  stack : m.stack = σ
  store : m.store.Alike st.store
  slots : m.locals.length = s.maxLocals
  values : ∀ x ∈ vars, ∀ v, st.bindings.lookup x.name = some v →
    m.locals[x.slot]? = some (some v)

namespace Sequence

variable {α β : Type} {s : Sequence} {vars : List Local} {p q : Nat} {σ σ' : List Value}
  {st st' st₁ : EvalState} {i : Instr} {l : Label} {a b code : List Instr} {k : FaultKind}

/-- Wherever the machine is, the code there takes it on. -/
def Passes (s : Sequence) (vars : List Local) (p : Nat) (σ : List Value) (st : EvalState)
    (q : Nat) (σ' : List Value) (st' : EvalState) : Prop :=
  ∀ m : Machine, m.At s vars p σ st → ∃ m', s.Reaches m m' ∧ m'.At s vars q σ' st'

/-- The code takes the machine to a fault. -/
def Aborts (s : Sequence) (vars : List Local) (p : Nat) (σ : List Value) (st : EvalState)
    (k : FaultKind) : Prop :=
  ∀ m : Machine, m.At s vars p σ st → ∃ m' f, s.Reaches m m' ∧ s.Fails m' f ∧ f.kind = k

/-- The code follows an evaluation from a position to another. -/
def Follows (s : Sequence) (vars : List Local) (p : Nat) (σ : List Value) (st : EvalState)
    (q : Nat) (r : Except FaultKind (α × EvalState)) (out : α → List Value) : Prop :=
  match r with
  | .ok (a, st') => s.Passes vars p σ st q (out a) st'
  | .error k => s.Aborts vars p σ st k

/-- The code follows an evaluation wherever it stands. -/
def Runs (s : Sequence) (vars : List Local) (code : List Instr) (σ : List Value) (st : EvalState)
    (r : Except FaultKind (α × EvalState)) (out : α → List Value) : Prop :=
  ∀ p, s.HasCode p code → s.Follows vars p σ st (p + code.length) r out

theorem Passes.refl : s.Passes vars p σ st p σ st := fun m hm => ⟨m, .refl, hm⟩

theorem Passes.follows {p' : Nat} {r : Except FaultKind (α × EvalState)} {out : α → List Value}
    (h : s.Passes vars p σ st p' σ' st') (hf : s.Follows vars p' σ' st' q r out) :
    s.Follows vars p σ st q r out := by
  cases r with
  | ok a =>
    intro m hm
    obtain ⟨m₁, hr₁, hm₁⟩ := h m hm
    obtain ⟨m₂, hr₂, hm₂⟩ := hf m₁ hm₁
    exact ⟨m₂, hr₁.trans hr₂, hm₂⟩
  | error k =>
    intro m hm
    obtain ⟨m₁, hr₁, hm₁⟩ := h m hm
    obtain ⟨m₂, f, hr₂, hf, hk⟩ := hf m₁ hm₁
    exact ⟨m₂, f, hr₁.trans hr₂, hf, hk⟩

/-- The end may be counted another way. -/
theorem Follows.ending {q' : Nat} {r : Except FaultKind (α × EvalState)} {out : α → List Value}
    (h : s.Follows vars p σ st q r out) (hq : q = q') : s.Follows vars p σ st q' r out := hq ▸ h

theorem Passes.trans {p' : Nat} {σ'' : List Value} {st'' : EvalState}
    (h : s.Passes vars p σ st p' σ' st') (h' : s.Passes vars p' σ' st' q σ'' st'') :
    s.Passes vars p σ st q σ'' st'' := by
  intro m hm
  obtain ⟨m₁, hr₁, hm₁⟩ := h m hm
  obtain ⟨m₂, hr₂, hm₂⟩ := h' m₁ hm₁
  exact ⟨m₂, hr₁.trans hr₂, hm₂⟩

/-- Code that only moves on may come last. -/
theorem Follows.after {p' : Nat} {r : Except FaultKind (α × EvalState)} {out out' : α → List Value}
    (h : s.Follows vars p σ st p' r out)
    (hp : ∀ v st', s.Passes vars p' (out v) st' q (out' v) st') :
    s.Follows vars p σ st q r out' := by
  cases r with
  | ok a => exact Passes.trans h (hp a.1 a.2)
  | error k => exact h

theorem Follows.bind {p' : Nat} {x : Eval α} {f : α → Eval β} {out : α → List Value}
    {out' : β → List Value} (h : s.Follows vars p σ st p' (x st) out)
    (hf : ∀ a st', x st = .ok (a, st') → s.Follows vars p' (out a) st' q (f a st') out') :
    s.Follows vars p σ st q ((x >>= f) st) out' := by
  cases hx : x st with
  | ok r =>
    obtain ⟨a, st'⟩ := r
    rw [hx] at h
    rw [Eval.bind_of_ok hx]
    exact Passes.follows h (hf a st' hx)
  | error k =>
    rw [hx] at h
    rw [Eval.bind_of_error hx]
    exact h

/-- Code for one evaluation after another is the code of the first, then that of the second. -/
theorem Runs.bind {x : Eval α} {f : α → Eval β} {out : α → List Value} {out' : β → List Value}
    (h : s.Runs vars a σ st (x st) out)
    (hf : ∀ v st', x st = .ok (v, st') → s.Runs vars b (out v) st' (f v st') out') :
    s.Runs vars (a ++ b) σ st ((x >>= f) st) out' := by
  intro p hc
  rw [List.length_append, ← Nat.add_assoc]
  exact (h p hc.left).bind fun v st' hv => hf v st' hv _ hc.right

theorem Runs.map {x : Eval α} {f : α → β} {out : α → List Value} {out' : β → List Value}
    (h : s.Runs vars a σ st (x st) out) (ho : ∀ v, out v = out' (f v)) :
    s.Runs vars a σ st ((x >>= fun v => pure (f v)) st) out' := by
  intro p hc
  refine (h p hc).bind fun v st' _ => ?_
  rw [ho]
  exact Passes.refl

/-- Code that does nothing the evaluation would notice may come first. -/
theorem Runs.prepend {r : Except FaultKind (β × EvalState)} {out : β → List Value}
    {before : α → List Value} {v : α} (h : s.Runs vars a σ st (.ok (v, st₁)) before)
    (h' : s.Runs vars b (before v) st₁ r out) : s.Runs vars (a ++ b) σ st r out := by
  intro p hc
  rw [List.length_append, ← Nat.add_assoc]
  exact Passes.follows (h p hc.left) (h' _ hc.right)

theorem Runs.assoc {r : Except FaultKind (α × EvalState)} {out : α → List Value}
    (h : s.Runs vars (a ++ (b ++ code)) σ st r out) : s.Runs vars (a ++ b ++ code) σ st r out :=
  List.append_assoc a b code ▸ h

theorem runs_nil {v : α} {out : α → List Value} (h : out v = σ) :
    s.Runs vars [] σ st (.ok (v, st)) out := by
  intro p _
  rw [← h]
  exact Passes.refl

theorem HasCode.get (h : s.HasCode p code) {n : Nat} (hn : code[n]? = some i) :
    s.code[p + n]? = some i := by
  obtain ⟨rest, hr⟩ := h
  have hlt := (List.getElem?_eq_some_iff.mp hn).1
  rw [← List.getElem?_drop, ← hr, List.getElem?_append_left hlt, hn]

/-- One instruction that succeeds is one step. -/
theorem reaches_of_step {m m' : Machine} (h : s.code[m.next]? = some i)
    (hs : s.step i m.advance = .ok () m') : s.Reaches m m' := .single ⟨i, h, hs⟩

/-- An instruction follows the evaluation if it does the same to stack and containers. -/
theorem runs_of_does {v : α} {out : α → List Value} {store : Store}
    (h : (s.step i).Does σ st.store (.ok (out v, store))) :
    s.Runs vars [i] σ st (.ok (v, { st with store := store })) out := by
  intro p hc m hm
  obtain ⟨t, ht, hs⟩ := h m.advance hm.stack hm.store
  refine ⟨_, reaches_of_step (hm.next ▸ hc.head) hs, congrArg (· + 1) hm.next, rfl, ht, hm.slots,
    hm.values⟩

/-- An instruction whose effect is a function of the operands. -/
theorem runs_lift {r : Except FaultKind α} {out : α → List Value}
    (h : (s.step i).Does σ st.store (r.map fun v => (out v, st.store))) :
    s.Runs vars [i] σ st (Eval.lift r st) out := by
  cases r with
  | ok v => exact runs_of_does h
  | error k =>
    intro p hc m hm
    obtain ⟨f, m', hf, hk⟩ := h m.advance hm.stack hm.store
    exact ⟨m, f, .refl, ⟨i, m', hm.next ▸ hc.head, hf⟩, hk⟩

/-- A jump lands on its label, which stands in one place. -/
theorem jump_eq (hn : (s.code.filterMap Instr.placed?).Nodup)
    (hl : s.code[q]? = some (.label l)) (m : Machine) :
    s.jump l m = .ok () { m with next := q } := by
  rw [jump, labelPosition?_eq hn hl]
  rfl

theorem passes_of_step
    (h : s.code[p]? = some i)
    (hs : ∀ m : Machine, m.stack = σ → m.next = p + 1 →
      s.step i m = .ok () { m with stack := σ', next := q }) :
    s.Passes vars p σ st q σ' st := by
  intro m hm
  refine ⟨_, reaches_of_step (hm.next ▸ h) (hs m.advance hm.stack (congrArg (· + 1) hm.next)),
    rfl, rfl, hm.store, hm.slots, hm.values⟩

theorem passes_label (h : s.code[p]? = some (.label l)) : s.Passes vars p σ st (p + 1) σ st :=
  passes_of_step h fun m hσ hp => by
    rw [← hσ, ← hp]
    rfl

/-- A jump goes on after the label. -/
theorem passes_goto (hn : (s.code.filterMap Instr.placed?).Nodup)
    (h : s.code[p]? = some (.goto l)) (hl : s.code[q]? = some (.label l)) :
    s.Passes vars p σ st (q + 1) σ st := by
  refine Passes.trans (passes_of_step h fun m hσ hp => ?_) (passes_label hl)
  rw [← hσ]
  exact jump_eq hn hl m

/-- A conditional jump goes on behind its label or behind itself. -/
theorem passes_jumpIf (hn : (s.code.filterMap Instr.placed?).Nodup)
    (hl : s.code[q]? = some (.label l)) (h : s.code[p]? = some i) {c : Bool}
    (hs : ∀ store locals next, s.step i ⟨σ, store, locals, next⟩ =
      s.jumpIf c l ⟨σ', store, locals, next⟩) :
    s.Passes vars p σ st (if c then q + 1 else p + 1) σ' st := by
  have hjump (m : Machine) (hσ : m.stack = σ) :
      s.step i m = s.jumpIf c l { m with stack := σ' } := by
    rw [← hs, ← hσ]
  cases c with
  | true =>
    refine Passes.trans (passes_of_step h fun m hσ hp => ?_) (passes_label hl)
    rw [hjump m hσ]
    exact jump_eq hn hl _
  | false =>
    refine passes_of_step h fun m hσ hp => ?_
    rw [hjump m hσ]
    simp only [Bool.false_eq_true, if_false, ← hp]
    rfl

end Sequence

end StackExpr
