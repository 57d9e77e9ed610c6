import Mathlib.Tactic.Common
import StackExpr.Code.Height
import StackExpr.Machine.Step

/-! Stack slots that actions take off and put on.

A whole value is popped where so many slots are asked for, so the count of slots is exact only as
long as what comes out of a container takes one slot. -/
namespace StackExpr

/-- Faults of code whose stack heights are wrong. -/
def Fault.isOfHeight : Fault → Bool
  | stackUnderflow | unbalancedStack _ => true
  | _ => false

/-- The slots of some values together. -/
def slots : List Value → Nat
  | [] => 0
  | v :: rest => v.size + slots rest

mutual

/-- Whatever can be taken out of a value is a reference, all the way down. -/
def Value.Tidy : Value → Prop
  | .entry _ value => value.stackKind = .reference ∧ value.Tidy
  | .entrySet entries => Value.TidyEntries entries
  | _ => True

def Value.TidyEntries : List (MapKey × Value) → Prop
  | [] => True
  | (_, v) :: rest => (v.stackKind = .reference ∧ v.Tidy) ∧ Value.TidyEntries rest

end

structure Store.Tidy (s : Store) : Prop where
  maps : ∀ es ∈ s.maps, Value.TidyEntries es
  cursors : ∀ c ∈ s.cursors, Value.TidyEntries c.entries

structure Machine.Tidy (m : Machine) : Prop where
  stack : ∀ v ∈ m.stack, v.Tidy
  locals : ∀ v, some v ∈ m.locals → v.Tidy
  store : m.store.Tidy

theorem slots_append (xs ys : List Value) : slots (xs ++ ys) = slots xs + slots ys := by
  induction xs with
  | nil => simp [slots]
  | cons v xs ih => simp only [List.cons_append, slots, ih]; omega

theorem StackKind.size_pos (k : StackKind) : 0 < k.size := by cases k <;> decide

theorem Value.size_pos (v : Value) : 0 < v.size := v.stackKind.size_pos

namespace Value

variable {es : List (MapKey × Value)} {v : Value} {k : MapKey}

theorem tidyEntries_iff :
    TidyEntries es ↔ ∀ e ∈ es, e.2.stackKind = .reference ∧ e.2.Tidy := by
  induction es with
  | nil => simp [TidyEntries]
  | cons e rest ih => simp [TidyEntries, ih]

/-- What is put into a tidy map must be a tidy reference. -/
theorem tidyEntries_put (he : TidyEntries es) (hk : v.stackKind = .reference) (hv : v.Tidy) :
    TidyEntries (MapEntries.put k v es) := by
  induction es with
  | nil => simp [MapEntries.put, TidyEntries, hk, hv]
  | cons e rest ih =>
    obtain ⟨j, w⟩ := e
    rw [TidyEntries] at he
    rw [MapEntries.put]
    split
    · exact ⟨⟨hk, hv⟩, he.2⟩
    · exact ⟨he.1, ih he.2⟩

theorem tidy_get? (he : TidyEntries es) (hg : MapEntries.get? es k = some v) :
    v.stackKind = .reference ∧ v.Tidy := by
  rw [MapEntries.get?, Option.map_eq_some_iff] at hg
  obtain ⟨e, hf, rfl⟩ := hg
  exact tidyEntries_iff.mp he e (List.mem_of_find?_eq_some hf)

theorem size_of_reference (h : v.stackKind = .reference) : v.size = 1 := by
  rw [size, h]
  rfl

theorem ofKey_reference (k : MapKey) : (ofKey k).stackKind = .reference ∧ (ofKey k).Tidy := by
  cases k <;> simp [ofKey, stackKind, Tidy]

end Value

namespace Store.Tidy

variable {s : Store} {a : Address} {k : MapKey} {v : Value} {es : MapEntries} {c : Cursor}

/-- What a tidy store has in its maps is tidy. -/
theorem entries (h : s.Tidy) (a : Address) : Value.TidyEntries (s.entries a) := by
  rw [Store.entries]
  cases he : s.maps[a]? with
  | none => simp [Value.TidyEntries]
  | some es => exact h.maps es (List.mem_of_getElem? he)

theorem cursor (h : s.Tidy) (a : Address) : Value.TidyEntries (s.cursor a).entries := by
  rw [Store.cursor]
  cases he : s.cursors[a]? with
  | none => simp [Value.TidyEntries]
  | some c => exact h.cursors c (List.mem_of_getElem? he)

theorem newMap (h : s.Tidy) : (s.newMap []).2.Tidy := by
  refine ⟨?_, h.cursors⟩
  intro es hm
  rcases List.mem_append.mp hm with hm | hm
  · exact h.maps es hm
  · rw [List.mem_singleton.mp hm]
    trivial

theorem newList (h : s.Tidy) (xs : List Value) : (s.newList xs).2.Tidy := ⟨h.maps, h.cursors⟩

theorem newCursor (h : s.Tidy) (hc : Value.TidyEntries c.entries) : (s.newCursor c).2.Tidy := by
  refine ⟨h.maps, ?_⟩
  intro d hm
  rcases List.mem_append.mp hm with hm | hm
  · exact h.cursors d hm
  · rw [List.mem_singleton.mp hm]
    exact hc

/-- A tidy store stays tidy when a reference is put into a map. -/
theorem put (h : s.Tidy) (hk : v.stackKind = .reference) (hv : v.Tidy) : (s.put a k v).Tidy := by
  refine ⟨?_, h.cursors⟩
  intro es hm
  rcases List.mem_or_eq_of_mem_set hm with hm | rfl
  · exact h.maps es hm
  · exact Value.tidyEntries_put (h.entries a) hk hv

theorem append (h : s.Tidy) : (s.append a v).Tidy := ⟨h.maps, h.cursors⟩

theorem setCursor (h : s.Tidy) (hc : Value.TidyEntries c.entries) : (s.setCursor a c).Tidy := by
  refine ⟨h.maps, ?_⟩
  intro d hm
  rcases List.mem_or_eq_of_mem_set hm with hm | rfl
  · exact h.cursors d hm
  · exact hc

end Store.Tidy

theorem Machine.tidy_start (n : Nat) : (Machine.start n).Tidy := by
  refine ⟨by simp [start], ?_, by simp [start, Store.empty], by simp [start, Store.empty]⟩
  intro v hv
  simp [start] at hv

theorem Machine.tidy_setLocal {m : Machine} {v : Value} (h : m.Tidy) (hv : v.Tidy) (slot : Nat) :
    (m.setLocal slot v).Tidy := by
  refine ⟨h.stack, ?_, h.store⟩
  intro w hw
  simp only [setLocal] at hw
  rcases List.mem_or_eq_of_mem_set hw with hw | hw
  · split at hw
    · rcases List.mem_or_eq_of_mem_set hw with hw | hw
      · exact h.locals w hw
      · cases hw
    · exact h.locals w hw
  · cases hw
    exact hv

namespace Action

variable {α β : Type} {x : Action α} {f : α → Action β} {P : α → Prop} {Q : β → Prop}
  {J : Nat → Prop} {p q n : Nat} {v : Value}

/-- Where so many slots are on the stack, the action takes `pops` slots off and puts `pushes` on,
goes on or jumps to a position in `J`, and yields a value in `P`; or it fails, but not for its
operands being too few. -/
def Shifts (x : Action α) (pops pushes : Nat) (P : α → Prop) (J : Nat → Prop) : Prop :=
  ∀ m : Machine, m.Tidy → pops ≤ slots m.stack →
    match x m with
    | .ok a m' =>
      P a ∧ m'.Tidy ∧ (m'.next = m.next ∨ J m'.next) ∧
        slots m'.stack + pops = slots m.stack + pushes
    | .error f m' => f.isOfHeight = false ∧ slots m'.stack ≤ slots m.stack

/-- One action after another takes off what both take off. -/
theorem Shifts.bind (hx : Shifts x p 0 P (fun _ => False))
    (hf : ∀ a, P a → Shifts (f a) n q Q J) : Shifts (x >>= f) (p + n) q Q J := by
  intro m ht hn
  have h := hx m ht (by omega)
  change match EStateM.bind x f m with | .ok _ _ => _ | .error _ _ => _
  unfold EStateM.bind
  cases hr : x m with
  | error f m' => simpa [hr] using h
  | ok a m' =>
    simp only [hr, or_false] at h ⊢
    obtain ⟨ha, ht', hnext, hs⟩ := h
    have h' := hf a ha m' ht' (by omega)
    cases hr' : f a m' with
    | error f m'' =>
      simp only [hr'] at h' ⊢
      exact ⟨h'.1, by omega⟩
    | ok b m'' =>
      simp only [hr'] at h' ⊢
      rw [← hnext]
      exact ⟨h'.1, h'.2.1, h'.2.2.1, by omega⟩

theorem Shifts.bind_of_eq (hx : Shifts x p 0 P (fun _ => False))
    (hf : ∀ a, P a → Shifts (f a) n q Q J) {t : Nat} (ht : t = p + n) :
    Shifts (x >>= f) t q Q J := ht ▸ hx.bind hf

theorem Shifts.mono {K : Nat → Prop} (hx : Shifts x p q P J) (h : ∀ n, J n → K n) :
    Shifts x p q P K := by
  intro m ht hn
  have hm := hx m ht hn
  cases hr : x m with
  | error f m' => simpa only [hr] using hm
  | ok a m' =>
    simp only [hr] at hm ⊢
    exact ⟨hm.1, hm.2.1, hm.2.2.1.imp_right (h _), hm.2.2.2⟩

theorem shifts_pure {a : α} (h : P a) : Shifts (pure a : Action α) 0 0 P J := by
  intro m ht _
  exact ⟨h, ht, .inl rfl, rfl⟩

theorem throw_eq (f : Fault) (m : Machine) : (throw f : Action α) m = .error f m := rfl

/-- A fault that is not one of heights may come at any height. -/
theorem shifts_throw {f : Fault} (h : f.isOfHeight = false) :
    Shifts (throw f : Action α) p q P J := by
  intro m _ _
  exact ⟨h, Nat.le_refl _⟩

/-- What is computed without the stack shifts nothing. -/
theorem shifts_lift {r : Except Fault α} (h : ∀ f, r = .error f → f.isOfHeight = false) :
    Shifts (lift r) 0 0 (fun a => r = .ok a) J := by
  cases r with
  | ok a => exact shifts_pure rfl
  | error f => exact shifts_throw (h f rfl)

/-- A push puts on the slots of its value. -/
theorem shifts_push (h : v.Tidy) : Shifts (push v) 0 v.size (fun _ => True) J := by
  intro m ht _
  refine ⟨trivial, ⟨?_, ht.locals, ht.store⟩, .inl rfl, ?_⟩
  · intro w hw
    rcases List.mem_cons.mp hw with rfl | hw
    · exact h
    · exact ht.stack w hw
  · simp only [slots]
    omega

theorem shifts_pushInt (n : Int32) : Shifts (push (.int n)) 0 1 (fun _ => True) J :=
  shifts_push trivial

theorem shifts_pushAll {vs : List Value} (h : ∀ v ∈ vs, v.Tidy) :
    Shifts (pushAll vs) 0 (slots vs) (fun _ => True) J := by
  intro m ht _
  refine ⟨trivial, ⟨?_, ht.locals, ht.store⟩, .inl rfl, ?_⟩
  · intro w hw
    rcases List.mem_append.mp hw with hw | hw
    · exact h w hw
    · exact ht.stack w hw
  · simp only [slots_append]
    omega

/-- A pop off a stack with at least one slot, and the state it goes on from. -/
theorem pop_eq {m : Machine} (ht : m.Tidy) (hp : 0 < p) (hn : p ≤ slots m.stack) :
    ∃ v rest, m.stack = v :: rest ∧ pop m = .ok v { m with stack := rest } ∧ v.Tidy ∧
      ({ m with stack := rest } : Machine).Tidy ∧ slots m.stack = v.size + slots rest := by
  cases hs : m.stack with
  | nil =>
    rw [hs, slots] at hn
    omega
  | cons v rest =>
    have hm := ht.stack
    rw [hs] at hm
    exact ⟨v, rest, rfl, by simp [pop, hs], hm v (by simp),
      ⟨fun w hw => hm w (by simp [hw]), ht.locals, ht.store⟩, rfl⟩

/-- What an action after a pop does, seen from the state before it. -/
theorem Shifts.popped {m : Machine} {rest : List Value} (hx : Shifts x n 0 P (fun _ => False))
    (ht : ({ m with stack := rest } : Machine).Tidy) (hs : slots m.stack = v.size + slots rest)
    (hp : p = v.size + n) (hn : p ≤ slots m.stack) :
    match x { m with stack := rest } with
    | .ok a m' =>
      P a ∧ m'.Tidy ∧ (m'.next = m.next ∨ False) ∧ slots m'.stack + p = slots m.stack + 0
    | .error f m' => f.isOfHeight = false ∧ slots m'.stack ≤ slots m.stack := by
  have h := hx _ ht (by simp only []; omega)
  cases hr : x { m with stack := rest } with
  | ok a m' =>
    simp only [hr] at h ⊢
    exact ⟨h.1, h.2.1, h.2.2.1, by omega⟩
  | error f m' =>
    simp only [hr] at h ⊢
    exact ⟨h.1, by omega⟩

/-- An action that pops one value and then either yields a part of it or refuses it. -/
theorem shifts_pop_bind {g : Value → Action α} {k : StackKind}
    (hok : ∀ v, v.stackKind = k → v.Tidy → Shifts (g v) 0 0 P (fun _ => False))
    (hno : ∀ v, v.stackKind ≠ k → ∃ e t, g v = throw (.typeError e t)) :
    Shifts (pop >>= g) k.size 0 P (fun _ => False) := by
  intro m ht hn
  obtain ⟨v, rest, -, hpop, hv, hrest, hs⟩ := pop_eq ht k.size_pos hn
  change match EStateM.bind pop g m with | .ok _ _ => _ | .error _ _ => _
  rw [EStateM.bind, hpop]
  by_cases hk : v.stackKind = k
  · have hsize : k.size = v.size + 0 := by rw [Value.size, hk, Nat.add_zero]
    exact (hok v hk hv).popped hrest hs hsize hn
  · obtain ⟨e, t, he⟩ := hno v hk
    simp only [he]
    exact ⟨rfl, by simp only []; omega⟩

/-- A pop of a kind takes off the slots of that kind. -/
theorem shifts_popKind (k : StackKind) :
    Shifts (popKind k) k.size 0 (fun v => v.stackKind = k ∧ v.Tidy) (fun _ => False) := by
  refine shifts_pop_bind (fun v hk hv => ?_) (fun v hk => ?_)
  · rw [if_pos hk]
    exact shifts_pure ⟨hk, hv⟩
  · exact ⟨_, _, if_neg hk⟩

theorem shifts_popReference :
    Shifts popReference 1 0 (fun v => v.stackKind = .reference ∧ v.Tidy) (fun _ => False) :=
  shifts_popKind .reference

theorem shifts_popInt : Shifts popInt 1 0 (fun _ => True) (fun _ => False) := by
  refine shifts_pop_bind (k := .int) (fun v hk _ => ?_) (fun v hk => ?_)
  · cases v <;> simp [Value.stackKind] at hk
    exact shifts_pure trivial
  · cases v <;> first | exact (hk rfl).elim | exact ⟨_, _, rfl⟩

theorem shifts_popLong : Shifts popLong 2 0 (fun _ => True) (fun _ => False) := by
  refine shifts_pop_bind (k := .long) (fun v hk _ => ?_) (fun v hk => ?_)
  · cases v <;> simp [Value.stackKind] at hk
    exact shifts_pure trivial
  · cases v <;> first | exact (hk rfl).elim | exact ⟨_, _, rfl⟩

theorem shifts_popFloat : Shifts popFloat 1 0 (fun _ => True) (fun _ => False) := by
  refine shifts_pop_bind (k := .float) (fun v hk _ => ?_) (fun v hk => ?_)
  · cases v <;> simp [Value.stackKind] at hk
    exact shifts_pure trivial
  · cases v <;> first | exact (hk rfl).elim | exact ⟨_, _, rfl⟩

theorem shifts_popDouble : Shifts popDouble 2 0 (fun _ => True) (fun _ => False) := by
  refine shifts_pop_bind (k := .double) (fun v hk _ => ?_) (fun v hk => ?_)
  · cases v <;> simp [Value.stackKind] at hk
    exact shifts_pure trivial
  · cases v <;> first | exact (hk rfl).elim | exact ⟨_, _, rfl⟩

theorem size_eq_one (h : v.size ≠ 2) : v.size = 1 := by
  cases v <;> simp_all [Value.size, Value.stackKind, StackKind.size]

theorem shifts_cons {y : Action (List Value)} (hv : v.Tidy)
    (hy : Shifts y n 0 (fun vs => slots vs = n ∧ ∀ v ∈ vs, v.Tidy) (fun _ => False)) :
    Shifts (do return v :: (← y)) n 0 (fun vs => slots vs = v.size + n ∧ ∀ v ∈ vs, v.Tidy)
      (fun _ => False) := by
  refine hy.bind_of_eq (n := 0) (fun vs hvs => shifts_pure ⟨?_, ?_⟩) rfl
  · rw [slots, hvs.1]
  · intro u hu
    rcases List.mem_cons.mp hu with rfl | hu
    · exact hv
    · exact hvs.2 u hu

/-- A value popped first, and then an action that pops what is missing. -/
theorem shifts_pop_of {g : Value → Action α} (hp : 0 < p)
    (hg : ∀ v, v.Tidy → (v.size ≤ p → Shifts (g v) (p - v.size) 0 P (fun _ => False)) ∧
      (p < v.size → Shifts (g v) 0 0 (fun _ => False) (fun _ => False))) :
    Shifts (pop >>= g) p 0 P (fun _ => False) := by
  intro m ht hn
  obtain ⟨v, rest, -, hpop, hv, hrest, hs⟩ := pop_eq ht hp hn
  change match EStateM.bind pop g m with | .ok _ _ => _ | .error _ _ => _
  rw [EStateM.bind, hpop]
  obtain ⟨hle, hlt⟩ := hg v hv
  by_cases hk : v.size ≤ p
  · exact (hle hk).popped hrest hs (by omega) hn
  · have h := hlt (by omega) _ hrest (Nat.zero_le _)
    cases hr : g v { m with stack := rest } with
    | ok a m' => simp [hr] at h
    | error f m' =>
      simp only [hr] at h ⊢
      exact ⟨h.1, by omega⟩

/-- Whole values are popped until the slots are there, and a value that is too wide is refused. -/
theorem shifts_popSlots (w n : Nat) :
    Shifts (popSlots w n) n 0 (fun vs => slots vs = n ∧ ∀ v ∈ vs, v.Tidy) (fun _ => False) := by
  induction n using Nat.strongRecOn with
  | ind n ih =>
    match n with
    | 0 => exact shifts_pure ⟨rfl, by simp⟩
    | 1 =>
      refine shifts_pop_of Nat.one_pos fun v hv => ⟨fun hle => ?_, fun hlt => ?_⟩
      · have h1 : v.size = 1 := size_eq_one (by omega)
        rw [if_neg (by omega), h1]
        exact shifts_pure ⟨by simp [slots, h1], by simpa using hv⟩
      · -- a wide value would be split
        have h2 : v.size = 2 := by
          by_contra h
          have := size_eq_one h
          omega
        rw [if_pos h2]
        exact shifts_throw rfl
    | n + 2 =>
      refine shifts_pop_of (Nat.succ_pos _) fun v hv => ⟨fun _ => ?_, fun hlt => ?_⟩
      · by_cases h2 : v.size = 2
        · rw [if_pos h2, h2]
          have h := shifts_cons hv (ih n (by omega))
          rwa [h2, Nat.add_comm 2 n] at h
        · have h1 := size_eq_one h2
          rw [if_neg h2, h1]
          have h := shifts_cons hv (ih (n + 1) (by omega))
          rwa [h1, Nat.add_comm 1] at h
      · have : v.size ≤ 2 := by
          by_cases h : v.size = 2
          · omega
          · have := size_eq_one h
            omega
        omega

/-- The slots that are copied are there twice afterwards. -/
theorem shifts_duplicate (copied skipped : Nat) :
    Shifts (duplicate copied skipped) (copied + skipped) (2 * copied + skipped)
      (fun _ => True) J := by
  refine (shifts_popSlots copied copied).bind fun top ht => ?_
  refine (shifts_popSlots skipped skipped).bind_of_eq (n := 0) (fun below hb => ?_) rfl
  have hs : 2 * copied + skipped = slots (top ++ below ++ top) := by
    rw [slots_append, slots_append, ht.1, hb.1]
    omega
  rw [hs]
  apply shifts_pushAll
  intro v hv
  simp only [List.mem_append] at hv
  rcases hv with (hv | hv) | hv
  · exact ht.2 v hv
  · exact hb.2 v hv
  · exact ht.2 v hv

theorem shifts_swap : Shifts swap 2 2 (fun _ => True) J := by
  refine (shifts_popSlots 1 1).bind_of_eq (n := 1) (fun top ht => ?_) rfl
  refine (shifts_popSlots 1 1).bind_of_eq (n := 0) (fun below hb => ?_) rfl
  have hs : 2 = slots (below ++ top) := by rw [slots_append, ht.1, hb.1]
  rw [hs]
  apply shifts_pushAll
  intro v hv
  rcases List.mem_append.mp hv with hv | hv
  · exact hb.2 v hv
  · exact ht.2 v hv

theorem shifts_popAll (n : Nat) :
    Shifts (do let _ ← popSlots n n : Action Unit) n 0 (fun _ => True) J :=
  (shifts_popSlots n n).bind_of_eq (n := 0) (fun _ _ => shifts_pure trivial) rfl

theorem shifts_getStore : Shifts getStore 0 0 Store.Tidy (fun _ => False) := by
  intro m ht _
  exact ⟨ht.store, ht, .inl rfl, rfl⟩

theorem shifts_setStore {s : Store} (h : s.Tidy) :
    Shifts (setStore s) 0 0 (fun _ => True) (fun _ => False) := by
  intro m ht _
  exact ⟨trivial, ⟨ht.stack, ht.locals, h⟩, .inl rfl, rfl⟩

theorem shifts_allocate {g : Store → Address × Store} (h : ∀ s : Store, s.Tidy → (g s).2.Tidy) :
    Shifts (allocate g) 0 0 (fun _ => True) (fun _ => False) := by
  intro m ht _
  exact ⟨trivial, ⟨ht.stack, ht.locals, h _ ht.store⟩, .inl rfl, rfl⟩

theorem shifts_loadLocal (slot : Nat) :
    Shifts (loadLocal slot) 0 0 Value.Tidy (fun _ => False) := by
  intro m ht _
  cases hl : m.locals[slot]? with
  | none => simp [loadLocal, hl, Fault.isOfHeight]
  | some x =>
    cases x with
    | none => simp [loadLocal, hl, Fault.isOfHeight]
    | some v => simpa [loadLocal, hl, ht] using ht.locals v (List.mem_of_getElem? hl)

theorem shifts_storeLocal (slot : Nat) (h : v.Tidy) :
    Shifts (storeLocal slot v) 0 0 (fun _ => True) J := by
  intro m ht _
  by_cases hle : slot + v.size ≤ m.locals.length
  · simpa [storeLocal, hle, Machine.setLocal] using m.tidy_setLocal ht h slot
  · simp [storeLocal, hle, Fault.isOfHeight]

/-- On whole numbers only a division by zero fails. -/
theorem intArith_eq_error {op : ArithOp} {a b : Int32} {f : Fault}
    (h : intArith op a b = .error f) : f = .divisionByZero := by
  unfold intArith at h
  split at h <;> first | cases h | (split at h <;> cases h; rfl)

theorem longArith_eq_error {op : ArithOp} {a b : Int64} {f : Fault}
    (h : longArith op a b = .error f) : f = .divisionByZero := by
  unfold longArith at h
  split at h <;> first | cases h | (split at h <;> cases h; rfl)

theorem floatArith_eq_error {op : ArithOp} {a b : Float32} {f : Fault}
    (h : floatArith op a b = .error f) : f = .typeError "integral operands" "float" := by
  unfold floatArith at h
  split at h <;> cases h
  rfl

theorem doubleArith_eq_error {op : ArithOp} {a b : Float} {f : Fault}
    (h : doubleArith op a b = .error f) : f = .typeError "integral operands" "double" := by
  unfold doubleArith at h
  split at h <;> cases h
  rfl

theorem shifts_lift_push {r : Except Fault α} {c : α → Value}
    (h : ∀ f, r = .error f → f.isOfHeight = false)
    (hc : ∀ a, (c a).size = q ∧ (c a).Tidy) :
    Shifts (do push (c (← lift r))) 0 q (fun _ => True) J :=
  (shifts_lift h).bind_of_eq (n := 0) (fun a _ => (hc a).1 ▸ shifts_push (hc a).2) rfl

/-- A shift of `double`s asks for a slot less than two of them take, and always fails. -/
theorem shifts_doubleShift {op : ArithOp} (h : op.isShift = true) :
    Shifts (arith op .double) 3 2 (fun _ => True) J := by
  refine shifts_popDouble.bind_of_eq (n := 1) (fun b _ => ?_) rfl
  intro m ht hn
  obtain ⟨v, rest, -, hpop, -, -, hs⟩ := pop_eq ht Nat.one_pos hn
  cases v <;> cases op <;> simp [ArithOp.isShift] at h <;>
    simp [popDouble, hpop, bind, EStateM.bind, throw_eq, pure, EStateM.pure, lift, doubleArith,
      Fault.isOfHeight] <;> omega

/-- Arithmetic takes two operands off and puts a result on, of one kind but for the distance of a
shift. -/
theorem shifts_arith (op : ArithOp) (k : StackKind) :
    Shifts (arith op k) (k.size + if op.isShift then 1 else k.size) k.size (fun _ => True) J := by
  cases k with
  | int =>
    refine shifts_popInt.bind_of_eq (n := 1) (fun b _ => ?_) (by simp [StackKind.size])
    refine shifts_popInt.bind_of_eq (n := 0) (fun a _ => ?_) rfl
    exact shifts_lift_push (fun f h => intArith_eq_error h ▸ rfl) fun _ => ⟨rfl, trivial⟩
  | long =>
    have hrest (b : Int64) : Shifts (do
        let a ← popLong
        push (.long (← lift (longArith op a b)))) 2 2 (fun _ => True) J := by
      refine shifts_popLong.bind_of_eq (n := 0) (fun a _ => ?_) rfl
      exact shifts_lift_push (fun f h => longArith_eq_error h ▸ rfl) fun _ => ⟨rfl, trivial⟩
    unfold arith
    cases op.isShift with
    | true => exact shifts_popInt.bind_of_eq (n := 2) (fun b _ => hrest b.toInt64) rfl
    | false => exact shifts_popLong.bind_of_eq (n := 2) (fun b _ => hrest b) rfl
  | float =>
    refine shifts_popFloat.bind_of_eq (n := 1) (fun b _ => ?_) (by simp [StackKind.size])
    refine shifts_popFloat.bind_of_eq (n := 0) (fun a _ => ?_) rfl
    exact shifts_lift_push (fun f h => floatArith_eq_error h ▸ rfl) fun _ => ⟨rfl, trivial⟩
  | double =>
    cases h : op.isShift with
    | true => exact shifts_doubleShift h
    | false =>
      refine shifts_popDouble.bind_of_eq (n := 2) (fun b _ => ?_) rfl
      refine shifts_popDouble.bind_of_eq (n := 0) (fun a _ => ?_) rfl
      exact shifts_lift_push (fun f h => doubleArith_eq_error h ▸ rfl) fun _ => ⟨rfl, trivial⟩
  | reference => exact shifts_throw rfl

theorem shifts_neg (k : StackKind) : Shifts (neg k) k.size k.size (fun _ => True) J := by
  cases k with
  | int => exact shifts_popInt.bind_of_eq (n := 0) (fun n _ => shifts_push (v := .int (-n)) trivial) rfl
  | long =>
    exact shifts_popLong.bind_of_eq (n := 0) (fun n _ => shifts_push (v := .long (-n)) trivial) rfl
  | float =>
    exact shifts_popFloat.bind_of_eq (n := 0) (fun x _ => shifts_push (v := .float (-x)) trivial) rfl
  | double =>
    exact shifts_popDouble.bind_of_eq (n := 0)
      (fun x _ => shifts_push (v := .double (-x)) trivial) rfl
  | reference => exact shifts_throw rfl

/-- A conversion makes a value of its target kind. -/
theorem convert?_eq_some {c : PrimConv} {v w : Value} (h : c.convert? v = some w) :
    w.stackKind = c.target ∧ w.Tidy := by
  cases c <;> cases v <;> simp [PrimConv.convert?] at h <;> subst h <;> exact ⟨rfl, trivial⟩

theorem shifts_convert (c : PrimConv) :
    Shifts (convert c) c.source.size c.target.size (fun _ => True) J := by
  refine (shifts_popKind c.source).bind_of_eq (n := 0) (fun v _ => ?_) rfl
  split
  · next w hw =>
    rw [← (convert?_eq_some hw).1]
    exact shifts_push (convert?_eq_some hw).2
  · exact shifts_throw rfl

/-- The outcome of a comparison takes one slot. -/
theorem shifts_compare (op : CompareOp) :
    Shifts (compare op) (2 * op.kind.size) 1 (fun _ => True) J := by
  cases op with
  | lcmp =>
    refine shifts_popLong.bind_of_eq (n := 2) (fun b _ => ?_) rfl
    exact shifts_popLong.bind_of_eq (n := 0) (fun a _ => shifts_pushInt _) rfl
  | fcmpl | fcmpg =>
    refine shifts_popFloat.bind_of_eq (n := 1) (fun b _ => ?_) rfl
    exact shifts_popFloat.bind_of_eq (n := 0) (fun a _ => shifts_pushInt _) rfl
  | dcmpl | dcmpg =>
    refine shifts_popDouble.bind_of_eq (n := 2) (fun b _ => ?_) rfl
    exact shifts_popDouble.bind_of_eq (n := 0) (fun a _ => shifts_pushInt _) rfl

theorem isOfHeight_badReceiver (e o : String) (v : Value) :
    (badReceiver e o v).isOfHeight = false := by
  cases v <;> rfl

theorem shifts_pushReference (h : v.stackKind = .reference ∧ v.Tidy) :
    Shifts (push v) 0 1 (fun _ => True) J :=
  Value.size_of_reference h.1 ▸ shifts_push h.2

/-- A number of any width becomes a reference. There is one lemma for each method of the library. -/
theorem shifts_box (k : Kind) : Shifts (box k) k.stackKind.size 1 (fun _ => True) J := by
  refine (shifts_popKind k.stackKind).bind_of_eq (n := 0) (fun v _ => ?_) rfl
  split
  · exact shifts_pushReference ⟨rfl, trivial⟩
  · exact shifts_throw rfl

theorem unwrap?_eq_some {w : Wrapper} {k : Kind} (h : w.unwrap? k = some v) :
    v.stackKind = k.stackKind ∧ v.Tidy := by
  cases w <;> cases k <;>
    simp [Wrapper.unwrap?, Wrapper.toInt?, Wrapper.toLong?, Wrapper.toDouble?, Wrapper.toFloat?]
      at h <;> subst h <;> exact ⟨rfl, trivial⟩

/-- A reference becomes a number of the width of its kind. -/
theorem shifts_unbox (k : Kind) (own : Bool) :
    Shifts (unbox k own) 1 k.stackKind.size (fun _ => True) J := by
  refine shifts_popReference.bind_of_eq (n := 0) (fun v _ => ?_) rfl
  split
  · split
    · exact shifts_throw rfl
    · split
      · next hw =>
        rw [← (unwrap?_eq_some hw).1]
        exact shifts_push (unwrap?_eq_some hw).2
      · exact shifts_throw rfl
  · exact shifts_throw rfl
  · exact shifts_throw rfl

theorem shifts_stringOf : Shifts stringOf 1 1 (fun _ => True) J := by
  refine shifts_popReference.bind_of_eq (n := 0) (fun v _ => ?_) rfl
  refine shifts_getStore.bind_of_eq (n := 0) (fun s _ => ?_) rfl
  exact shifts_pushReference ⟨rfl, trivial⟩

theorem shifts_concat : Shifts concat 2 1 (fun _ => True) J := by
  refine shifts_popReference.bind_of_eq (n := 1) (fun last _ => ?_) rfl
  refine shifts_popReference.bind_of_eq (n := 0) (fun first _ => ?_) rfl
  split
  · exact shifts_pushReference ⟨rfl, trivial⟩
  all_goals exact shifts_throw rfl

theorem shifts_equals : Shifts equals 2 1 (fun _ => True) J := by
  refine shifts_popReference.bind_of_eq (n := 1) (fun b _ => ?_) rfl
  refine shifts_popReference.bind_of_eq (n := 0) (fun a _ => ?_) rfl
  exact shifts_getStore.bind_of_eq (n := 0) (fun s _ => shifts_pushInt _) rfl

theorem shifts_pow : Shifts pow 4 2 (fun _ => True) J := by
  refine shifts_popDouble.bind_of_eq (n := 2) (fun y _ => ?_) rfl
  exact shifts_popDouble.bind_of_eq (n := 0)
    (fun x _ => shifts_push (v := .double (power x y)) trivial) rfl

theorem shifts_init (cls : String) : Shifts (init cls) 1 0 (fun _ => True) J := by
  refine shifts_popReference.bind_of_eq (n := 0) (fun v _ => ?_) rfl
  split
  · exact shifts_pure trivial
  · exact shifts_pure trivial
  · exact shifts_throw rfl

/-- The old value that `put` leaves is a reference, as everything in a map is. -/
theorem shifts_put : Shifts put 3 1 (fun _ => True) J := by
  refine shifts_popReference.bind_of_eq (n := 2) (fun value hv => ?_) rfl
  refine shifts_popReference.bind_of_eq (n := 1) (fun key _ => ?_) rfl
  refine shifts_popReference.bind_of_eq (n := 0) (fun receiver _ => ?_) rfl
  split
  · rename_i a _
    split
    · rename_i k _
      refine shifts_getStore.bind_of_eq (n := 0) (fun s hs => ?_) rfl
      refine (shifts_setStore (hs.put hv.1 hv.2)).bind_of_eq (n := 0) (fun _ _ => ?_) rfl
      apply shifts_pushReference
      cases hg : (s.entries a).get? k with
      | none => exact ⟨rfl, trivial⟩
      | some old => exact Value.tidy_get? (hs.entries a) hg
    · exact shifts_throw rfl
  · exact shifts_throw (isOfHeight_badReceiver _ _ _)

theorem shifts_add : Shifts add 2 1 (fun _ => True) J := by
  refine shifts_popReference.bind_of_eq (n := 1) (fun item _ => ?_) rfl
  refine shifts_popReference.bind_of_eq (n := 0) (fun receiver _ => ?_) rfl
  split
  · refine shifts_getStore.bind_of_eq (n := 0) (fun s hs => ?_) rfl
    exact (shifts_setStore hs.append).bind_of_eq (n := 0) (fun _ _ => shifts_pushInt 1) rfl
  · exact shifts_throw (isOfHeight_badReceiver _ _ _)

theorem shifts_entrySet : Shifts entrySet 1 1 (fun _ => True) J := by
  refine shifts_popReference.bind_of_eq (n := 0) (fun receiver _ => ?_) rfl
  split
  · rename_i a _
    refine shifts_getStore.bind_of_eq (n := 0) (fun s hs => ?_) rfl
    exact shifts_pushReference ⟨rfl, by simpa [Value.Tidy] using hs.entries a⟩
  · exact shifts_throw (isOfHeight_badReceiver _ _ _)

theorem shifts_iterator : Shifts iterator 1 1 (fun _ => True) J := by
  refine shifts_popReference.bind_of_eq (n := 0) (fun receiver hr => ?_) rfl
  split
  · refine (shifts_allocate fun s hs => ?_).bind_of_eq (n := 0) (fun a _ => ?_) rfl
    · exact hs.newCursor (by simpa [Value.Tidy] using hr.2)
    · exact shifts_pushReference ⟨rfl, trivial⟩
  · exact shifts_throw (isOfHeight_badReceiver _ _ _)

theorem shifts_hasNext : Shifts hasNext 1 1 (fun _ => True) J := by
  refine shifts_popReference.bind_of_eq (n := 0) (fun receiver _ => ?_) rfl
  split
  · exact shifts_getStore.bind_of_eq (n := 0) (fun s _ => shifts_pushInt _) rfl
  · exact shifts_throw (isOfHeight_badReceiver _ _ _)

/-- What an iterator gives is tidy, and so is what it has left. -/
theorem tidy_next? {c d : Cursor} {e : MapKey × Value} (hc : Value.TidyEntries c.entries)
    (h : c.next? = some (e, d)) :
    (e.2.stackKind = .reference ∧ e.2.Tidy) ∧ Value.TidyEntries d.entries := by
  rw [Cursor.next?, Option.map_eq_some_iff] at h
  obtain ⟨e', he, h⟩ := h
  cases h
  exact ⟨Value.tidyEntries_iff.mp hc _ (List.mem_of_getElem? he), hc⟩

theorem shifts_next : Shifts next 1 1 (fun _ => True) J := by
  refine shifts_popReference.bind_of_eq (n := 0) (fun receiver _ => ?_) rfl
  split
  · rename_i a _
    refine shifts_getStore.bind_of_eq (n := 0) (fun s hs => ?_) rfl
    split
    · rename_i k v c hc
      obtain ⟨hv, hc⟩ := tidy_next? (hs.cursor a) hc
      refine (shifts_setStore (hs.setCursor hc)).bind_of_eq (n := 0) (fun _ _ => ?_) rfl
      exact shifts_pushReference ⟨rfl, by simpa [Value.Tidy] using hv⟩
    · exact shifts_throw rfl
  · exact shifts_throw (isOfHeight_badReceiver _ _ _)

theorem shifts_getKey : Shifts getKey 1 1 (fun _ => True) J := by
  refine shifts_popReference.bind_of_eq (n := 0) (fun receiver _ => ?_) rfl
  split
  · exact shifts_pushReference (Value.ofKey_reference _)
  · exact shifts_throw (isOfHeight_badReceiver _ _ _)

theorem shifts_getValue : Shifts getValue 1 1 (fun _ => True) J := by
  refine shifts_popReference.bind_of_eq (n := 0) (fun receiver hr => ?_) rfl
  split
  · exact shifts_pushReference (by simpa [Value.Tidy] using hr.2)
  · exact shifts_throw (isOfHeight_badReceiver _ _ _)

theorem shifts_instantiate (cls : String) : Shifts (instantiate cls) 0 1 (fun _ => True) J := by
  unfold instantiate
  split
  · refine (shifts_allocate fun s hs => hs.newMap).bind_of_eq (n := 0) (fun a _ => ?_) rfl
    exact shifts_pushReference ⟨rfl, trivial⟩
  · split
    · refine (shifts_allocate fun s hs => hs.newList []).bind_of_eq (n := 0) (fun a _ => ?_) rfl
      exact shifts_pushReference ⟨rfl, trivial⟩
    · exact shifts_throw rfl

/-- A failed check of a class is no fault of heights. -/
theorem isOfHeight_checkCast {cls : String} {f : Fault} (h : v.checkCast cls = .error f) :
    f.isOfHeight = false := by
  unfold Value.checkCast at h
  split_ifs at h <;> cases h <;> rfl

theorem shifts_checkCast (cls : String) : Shifts (checkCast cls) 1 1 (fun _ => True) J := by
  intro m ht hn
  obtain ⟨v, rest, hs, -, -, -, -⟩ := pop_eq ht Nat.one_pos hn
  have he : checkCast cls m = lift (v.checkCast cls) m := by
    simp [checkCast, bind, EStateM.bind, peek, hs]
  have h := shifts_lift (J := J) (r := v.checkCast cls) (fun f => isOfHeight_checkCast) m ht
    (Nat.zero_le _)
  rw [he]
  cases hr : lift (v.checkCast cls) m with
  | ok a m' =>
    simp only [hr] at h ⊢
    exact ⟨trivial, h.2.1, h.2.2.1, by omega⟩
  | error f m' => simpa only [hr] using h

end Action
end StackExpr
