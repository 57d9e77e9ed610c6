import StackExpr.Proofs.Soundness

/-! What an unfinished map holds makes no difference to an evaluation.

No value leads to the map before it is finished, so nothing reads it. To fill it otherwise before an
evaluation or after it is the same. -/
namespace StackExpr

namespace Store

variable {s : Store} {u : Unfinished} {a b : Address} {m n : MapEntries} {k : MapKey} {v w : Value}

/-- The store with other entries in one map. -/
def fill (s : Store) (a : Address) (m : MapEntries) : Store := { s with maps := s.maps.set a m }

theorem entries_fill (h : a < s.maps.length) : (s.fill a m).entries a = m := by
  simp [entries, fill, h]

/-- Filling one map leaves the others as they were. -/
theorem entries_fill_ne (h : b ≠ a) : (s.fill a m).entries b = s.entries b := by
  simp [entries, fill, List.getElem?_set_ne h.symm]

/-- To fill a map twice is to fill it the second time. -/
theorem fill_fill : (s.fill a m).fill a n = s.fill a n := by
  simp only [fill, List.set_set]

theorem put_eq_fill : s.put a k v = s.fill a ((s.entries a).put k v) := rfl

/-- To put a pair into another map before or after the filling is the same. -/
theorem put_fill_ne (h : b ≠ a) : (s.fill a m).put b k v = (s.put b k v).fill a m := by
  rw [put_eq_fill, put_eq_fill, entries_fill_ne h]
  simp only [fill]
  rw [List.set_comm _ _ h.symm]

theorem foldl_put_fill_ne {es : MapEntries} (h : b ≠ a) :
    es.foldl (fun s e => s.put b e.1 e.2) (s.fill a m) =
      (es.foldl (fun s e => s.put b e.1 e.2) s).fill a m := by
  induction es generalizing s with
  | nil => rfl
  | cons e rest ih => rw [List.foldl_cons, List.foldl_cons, put_fill_ne h, ih]

theorem newMap_fill (h : a < s.maps.length) :
    (s.fill a m).newMap n = ((s.newMap n).1, (s.newMap n).2.fill a m) := by
  simp only [newMap, fill, List.length_set, List.set_append_left _ _ h]

/-- Filling a map is no change to what is finished. -/
theorem Keeps.fill (ha : a ∈ u.maps) : s.Keeps u (s.fill a m) where
  mapCount := by simp [Store.fill]
  listCount := Nat.le_refl _
  entries b _ hu := entries_fill_ne fun h => hu (h ▸ ha)
  items _ _ _ := rfl

theorem finished_of_grounded {d : Nat} (h : s.Grounded u d (.map b)) :
    b < s.maps.length ∧ b ∉ u.maps := by
  cases d with
  | zero => exact h.elim
  | succ d => exact ⟨h.1, h.2.1⟩

/-- A finished map is not the unfinished one. -/
theorem ne_of_grounded {d : Nat} (ha : a ∈ u.maps) (h : s.Grounded u d (.map b)) : b ≠ a := by
  rintro rfl
  exact (finished_of_grounded h).2 ha

end Store

/-- The state with other entries in one map. -/
def EvalState.fill (st : EvalState) (a : Address) (m : MapEntries) : EvalState :=
  { st with store := st.store.fill a m }

namespace Eval

variable {α β : Type} {st : EvalState} {a b : Address} {u : Unfinished} {v w : Value}

/-- What the map holds makes no difference, and the evaluation leaves it as it is. -/
def Ignores (a : Address) (x : Eval α) (st : EvalState) : Prop :=
  ∀ m, x (st.fill a m) = (x st).map fun r => (r.1, r.2.fill a m)

theorem Ignores.bind_fill {x : Eval α} (hx : Ignores a x st) (f : α → Eval β) (m : MapEntries) :
    (x >>= f) (st.fill a m) =
      match x st with
      | .ok r => f r.1 (r.2.fill a m)
      | .error k => .error k := by
  have hm := hx m
  cases h : x st with
  | ok r =>
    rw [h] at hm
    exact bind_of_ok hm
  | error k =>
    rw [h] at hm
    exact bind_of_error hm

/-- One evaluation after another ignores the map if both do. -/
theorem Ignores.bind {x : Eval α} {f : α → Eval β} (hx : Ignores a x st)
    (hf : ∀ v st', x st = .ok (v, st') → Ignores a (f v) st') : Ignores a (x >>= f) st := by
  intro m
  rw [hx.bind_fill]
  cases h : x st with
  | ok r =>
    rw [bind_of_ok h]
    exact hf r.1 r.2 h m
  | error k =>
    rw [bind_of_error h]
    rfl

theorem ignores_pure (v : α) : Ignores a (pure v) st := fun _ => rfl

theorem ignores_lift (r : Except FaultKind α) : Ignores a (lift r) st := by
  intro m
  cases r <;> rfl

theorem ignores_lift_bind {r : Except FaultKind α} {f : α → Eval β}
    (hf : ∀ v, Ignores a (f v) st) : Ignores a (lift r >>= f) st := by
  refine (ignores_lift r).bind fun v st' h => ?_
  cases r with
  | ok w =>
    cases h
    exact hf v
  | error k => cases h

theorem ignores_lookup (name : String) : Ignores a (lookup name) st := by
  intro m
  simp only [lookup, EvalState.fill]
  cases st.bindings.lookup name <;> rfl

theorem ignores_assign (name : String) (v : Value) : Ignores a (assign name v) st := fun _ => rfl

/-- A new map is a different one. -/
theorem ignores_newMap (h : a < st.store.maps.length) :
    Ignores a (allocate (·.newMap [])) st := by
  intro m
  simp only [allocate, EvalState.fill, Store.newMap_fill h]
  rfl

theorem ignores_newList : Ignores a (allocate (·.newList [])) st := fun _ => rfl

theorem ignores_append : Ignores a (append b v) st := fun _ => rfl

theorem ignores_put (h : b ≠ a) : Ignores a (put b v w) st := by
  intro m
  rw [put]
  cases v.key? with
  | some k =>
    change Except.ok ((), _) = Except.ok ((), _)
    simp only [EvalState.fill, Store.put_fill_ne h]
  | none => rfl

/-- The map that is spread is finished, so it is not this one. -/
theorem ignores_spread {d : Nat} (h : b ≠ a) (ha : a ∈ u.maps) (hv : st.store.Grounded u d v) :
    Ignores a (spread b v) st := by
  intro m
  cases v with
  | map c =>
    change Except.ok ((), _) = Except.ok ((), _)
    simp only [EvalState.fill, Store.entries_fill_ne (Store.ne_of_grounded ha hv),
      Store.foldl_put_fill_ne h]
  | _ => rfl

/-- Only making a string reads containers, and it reads finished ones. -/
theorem ignores_convert {t : Ty} (step : Conversion) (ha : a ∈ u.maps)
    (hv : v.Good false u st.store t) :
    Ignores a (do lift (step.convert (← getStore) v)) st := by
  intro m
  have he : step.convert (st.store.fill a m) v = step.convert st.store v := by
    cases step with
    | stringify => simp only [Conversion.convert, Store.read_eq (Store.Keeps.fill ha) hv.grounded]
    | _ => rfl
  change lift (step.convert (st.store.fill a m) v) (st.fill a m) = _
  rw [he]
  exact ignores_lift _ m

/-- Neither of two finished values that are compared leads to the map. -/
theorem ignores_equal {t t' : Ty} (f : Bool → Value) (ha : a ∈ u.maps)
    (hv : v.Good false u st.store t) (hw : w.Good false u st.store t') :
    Ignores a (do return f ((← getStore).equal v w)) st := by
  intro m
  have he : (st.store.fill a m).equal v w = st.store.equal v w :=
    Store.equal_eq (Store.Keeps.fill ha) hv.grounded hw.grounded
  change Except.ok (f ((st.store.fill a m).equal v w), st.fill a m) = _
  rw [he]
  rfl

end Eval

section trees

open Eval

variable {α : Type} {vars : List Local} {u : Unfinished} {st : EvalState} {a : Address}

/-- The tree evaluates alike whatever an unfinished map holds. -/
def Typed.Ignorant (vars : List Local) (e : Typed) : Prop :=
  ∀ (u : Unfinished) (st : EvalState) (a : Address), st.Sound false vars u → a ∈ u.maps →
    Ignores a e.eval st

namespace Typed

variable {e l r : Typed}

/-- What follows the value of an operand. -/
theorem Ignorant.then {f : Value → Eval α} (he : e.Ignorant vars) (hs : e.IsSafe false vars)
    (hst : st.Sound false vars u) (ha : a ∈ u.maps)
    (hf : ∀ v st', v.Good false u st'.store e.type → st.Leads false vars u st' →
      Ignores a (f v) st') : Ignores a (e.eval >>= f) st := by
  refine (he u st a hst ha).bind fun v st' hv => ?_
  have hsafe := hs u st hst
  rw [hv] at hsafe
  exact hf v st' hsafe.2 hsafe.1

/-- What follows the values of two operands. -/
theorem Ignorant.both {f : Value → Value → Eval α} (hl : l.Ignorant vars) (hr : r.Ignorant vars)
    (hsl : l.IsSafe false vars) (hsr : r.IsSafe false vars) (hst : st.Sound false vars u)
    (ha : a ∈ u.maps)
    (hf : ∀ v w st', v.Good false u st'.store l.type → w.Good false u st'.store r.type →
      Ignores a (f v w) st') : Ignores a (do let v ← l.eval; let w ← r.eval; f v w) st := by
  refine hl.then hsl hst ha fun v st₁ hv h₁ => ?_
  refine hr.then hsr h₁.sound ha fun w st₂ hw h₂ => ?_
  exact hf v w st₂ (hv.of_keeps h₂.keeps.of_none) hw

end Typed

namespace Typed

variable {t y n : Typed} {tag : Tag}

/-- Whatever is compared, the map is not. -/
theorem ignorant_compare {op : Comparison} {mode : OperandMode} (hl : l.Ignorant vars)
    (hr : r.Ignorant vars) (hsl : l.IsSafe false vars) (hsr : r.IsSafe false vars) :
    (compare op mode l r tag).Ignorant vars := by
  intro u st a hst ha
  by_cases hm : mode = .nullCheck
  · subst hm
    rw [eval_compare_nullCheck]
    split
    · exact hr.then hsr hst ha fun _ _ _ _ => ignores_pure _
    · exact hl.then hsl hst ha fun _ _ _ _ => ignores_pure _
  · by_cases hr' : mode = .reference
    · subst hr'
      rw [eval]
      exact hl.both hr hsl hsr hst ha fun v w _ hv hw =>
        ignores_equal (fun b => .ofBool (b != (op == .notEqual))) ha hv hw
    · rw [eval_compare_numbers hr' hm]
      exact hl.both hr hsl hsr hst ha fun _ _ _ _ _ => ignores_lift _

theorem ignorant_logical {op : LogicalOp} (hl : l.Ignorant vars) (hr : r.Ignorant vars)
    (hsl : l.IsSafe false vars) (hsr : r.IsSafe false vars) : (logical op l r tag).Ignorant vars := by
  intro u st a hst ha
  rw [eval]
  refine hl.then hsl hst ha fun v st' _ hlead => ignores_lift_bind fun b => ?_
  split
  · exact ignores_pure _
  · exact hr.then hsr hlead.sound ha fun w _ _ _ => ignores_lift_bind fun _ => ignores_pure _

theorem ignorant_conditional (ht : t.Ignorant vars) (hy : y.Ignorant vars) (hn : n.Ignorant vars)
    (hst : t.IsSafe false vars) : (conditional t y n tag).Ignorant vars := by
  intro u st a hsound ha
  rw [eval]
  refine ht.then hst hsound ha fun v st' _ hlead => ignores_lift_bind fun b => ?_
  split
  · exact hy u st' a hlead.sound ha
  · exact hn u st' a hlead.sound ha

end Typed

open Typed

mutual

/-- A well-typed tree evaluates alike whatever an unfinished map holds. -/
theorem ignorant_tree (hn : (vars.map (·.name)).Nodup) :
    ∀ (e : Typed), e.WellTyped false vars → e.Ignorant vars
  | .constant _ _, _ => fun _ _ _ _ _ => ignores_pure _
  | .read _ _, _ => fun _ _ _ _ _ => ignores_lookup _
  | .convert e step _, ⟨he, _⟩ => fun _ _ _ hst ha =>
    (ignorant_tree hn e he).then (isSafe_tree hn e he) hst ha fun _ _ hv _ =>
      ignores_convert step ha hv
  | .arith _ _ l r _, ⟨hl, hr, _⟩ => fun _ _ _ hst ha =>
    (ignorant_tree hn l hl).both (ignorant_tree hn r hr) (isSafe_tree hn l hl)
      (isSafe_tree hn r hr) hst ha fun _ _ _ _ _ => ignores_lift _
  | .power l r _, ⟨hl, hr, _⟩ => fun _ _ _ hst ha =>
    (ignorant_tree hn l hl).both (ignorant_tree hn r hr) (isSafe_tree hn l hl)
      (isSafe_tree hn r hr) hst ha fun _ _ _ _ _ => ignores_lift _
  | .negate _ e _, ⟨he, _⟩ => fun _ _ _ hst ha =>
    (ignorant_tree hn e he).then (isSafe_tree hn e he) hst ha fun _ _ _ _ => ignores_lift _
  | .complement _ e _, ⟨he, _⟩ => fun _ _ _ hst ha =>
    (ignorant_tree hn e he).then (isSafe_tree hn e he) hst ha fun _ _ _ _ => ignores_lift _
  | .not e _, ⟨he, _⟩ => fun _ _ _ hst ha =>
    (ignorant_tree hn e he).then (isSafe_tree hn e he) hst ha fun _ _ _ _ => ignores_lift _
  | .compare _ _ l r _, ⟨hl, hr, _⟩ =>
    ignorant_compare (ignorant_tree hn l hl) (ignorant_tree hn r hr) (isSafe_tree hn l hl)
      (isSafe_tree hn r hr)
  | .logical _ l r _, ⟨hl, hr, _⟩ =>
    ignorant_logical (ignorant_tree hn l hl) (ignorant_tree hn r hr) (isSafe_tree hn l hl)
      (isSafe_tree hn r hr)
  | .concat l r _, ⟨hl, hr, _⟩ => fun _ _ _ hst ha =>
    (ignorant_tree hn l hl).both (ignorant_tree hn r hr) (isSafe_tree hn l hl)
      (isSafe_tree hn r hr) hst ha fun _ _ _ _ _ => ignores_lift _
  | .update _ _ _ _, _ => fun _ _ _ _ _ =>
    (ignores_lookup _).bind fun _ _ _ => ignores_lift_bind fun _ =>
      (ignores_assign _ _).bind fun _ _ _ => ignores_pure _
  | .assign _ e _, ⟨_, he, _⟩ => fun _ _ _ hst ha =>
    (ignorant_tree hn e he).then (isSafe_tree hn e he) hst ha fun _ _ _ _ =>
      (ignores_assign _ _).bind fun _ _ _ => ignores_pure _
  | .conditional t y n _, ⟨ht, hy, hno, _⟩ =>
    ignorant_conditional (ignorant_tree hn t ht) (ignorant_tree hn y hy) (ignorant_tree hn n hno)
      (isSafe_tree hn t ht)
  | .record _ entries _, ⟨he, _⟩ => by
    intro u st a hst ha
    rw [Typed.eval]
    have hlt := hst.houses.maps a ha
    refine (ignores_newMap hlt).bind fun b st' h => ?_
    cases h
    refine (ignorant_entries hn entries he _ _ a hst.newMap (st.store.filling_newMap _)
      (List.mem_cons_of_mem _ ha) (Nat.ne_of_gt hlt)).bind fun _ _ _ => ignores_pure _
  | .list items _, ⟨_, hi, _⟩ => by
    intro u st a hst ha
    rw [Typed.eval]
    refine ignores_newList.bind fun b st' h => ?_
    cases h
    exact (ignorant_items hn items hi _ _ a hst.newList (st.store.listing_newList _) ha).bind
      fun _ _ _ => ignores_pure _

theorem ignorant_entry (hn : (vars.map (·.name)).Nodup) {r : RecordTy} :
    ∀ (e : Entry), e.WellTyped false vars r → ∀ (u : Unfinished) (st : EvalState)
      (a : Address) {b : Address}, st.Sound false vars u → a ∈ u.maps → b ≠ a →
        Ignores a (e.eval b) st
  | .fixed key stored value _, ⟨_, _, hv, _⟩, u, st, a, b, hst, ha, hne => by
    rw [Entry.eval]
    refine ignores_lift_bind fun k => ?_
    exact (ignorant_tree hn value hv).then (isSafe_tree hn value hv) hst ha
      fun _ _ _ _ => ignores_put hne
  | .computed key value _, ⟨hk, _, hv, _⟩, u, st, a, b, hst, ha, hne => by
    rw [Entry.eval]
    exact (ignorant_tree hn key hk).both (ignorant_tree hn value hv) (isSafe_tree hn key hk)
      (isSafe_tree hn value hv) hst ha fun _ _ _ _ _ => ignores_put hne
  | .spread source _, ⟨hs, _⟩, u, st, a, b, hst, ha, hne => by
    rw [Entry.eval]
    exact (ignorant_tree hn source hs).then (isSafe_tree hn source hs) hst ha
      fun _ _ hv _ => ignores_spread hne ha hv.grounded

theorem ignorant_entries (hn : (vars.map (·.name)).Nodup) {r : RecordTy} :
    ∀ (entries : List Entry), Entry.AllWellTyped false vars r entries →
      ∀ (u : Unfinished) (st : EvalState) (a : Address) {b : Address}, st.Sound false vars u →
        st.store.Filling false u r b → a ∈ u.maps → b ≠ a →
          Ignores a (Entry.evalAll b entries) st
  | [], _, _, _, _, _, _, _, _, _ => ignores_pure _
  | e :: rest, ⟨he, hr⟩, u, st, a, b, hst, hfill, ha, hne => by
    rw [Entry.evalAll]
    refine (ignorant_entry hn e he u st a hst ha hne).bind fun _ st' h => ?_
    have hsafe := isSafe_entry hn e he b u st hst hfill
    rw [h] at hsafe
    exact ignorant_entries hn rest hr u st' a hsafe.2.1 hsafe.2.2 ha hne

theorem ignorant_items (hn : (vars.map (·.name)).Nodup) {t : Ty} :
    ∀ (items : List Typed), Typed.AllWellTyped false vars t items →
      ∀ (u : Unfinished) (st : EvalState) (a : Address) {b : Address}, st.Sound false vars u →
        st.store.Listing false u t b → a ∈ u.maps → Ignores a (Typed.evalItems b items) st
  | [], _, _, _, _, _, _, _, _ => ignores_pure _
  | e :: rest, ⟨he, hf, hr⟩, u, st, a, b, hst, hlist, ha => by
    rw [Typed.evalItems]
    refine (ignorant_tree hn e he).then (isSafe_tree hn e he) hst ha fun v st' hv hlead => ?_
    refine ignores_append.bind fun _ st'' h => ?_
    cases h
    have hlist' := (hlist.of_keeps hlead.keeps).append ⟨hf _ _ hv.conforms, hv.grounded⟩
    exact ignorant_items hn rest hr u _ a
      (hlead.sound.of_keeps (.append hlist.unfinished)) hlist' ha

end

end trees

end StackExpr
