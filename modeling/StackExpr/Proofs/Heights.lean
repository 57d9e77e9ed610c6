import StackExpr.Proofs.Runs
import StackExpr.Proofs.Slots

/-! The walk over stack heights foretells every run.

If the walk finds no problem, each position is reached at one height only, whichever way a run takes
to it. A run then never runs out of operands and never exceeds the greatest height. -/
namespace StackExpr

namespace Method

/-- Methods that are called without a receiver. -/
def isStatic : Method → Bool
  | box _ | stringOf | equals | pow => true
  | _ => false

/-- Slots of a method's operands, its receiver included, and of its result. -/
def effect : Method → StackEffect
  | box k => ⟨k.stackKind.size, 1⟩
  | unbox k | numberValue k => ⟨1, k.stackKind.size⟩
  | concat | equals | add => ⟨2, 1⟩
  | pow => ⟨4, 2⟩
  | init _ => ⟨1, 0⟩
  | put => ⟨3, 1⟩
  | _ => ⟨1, 1⟩

/-- A method takes its operands off the stack and leaves its result. -/
theorem shifts_run (m : Method) (J : Nat → Prop) :
    m.run.Shifts m.effect.pops m.effect.pushes (fun _ => True) J := by
  cases m with
  | box k => exact Action.shifts_box k
  | unbox k => exact Action.shifts_unbox k true
  | numberValue k => exact Action.shifts_unbox k false
  | stringOf => exact Action.shifts_stringOf
  | concat => exact Action.shifts_concat
  | equals => exact Action.shifts_equals
  | pow => exact Action.shifts_pow
  | init cls => exact Action.shifts_init cls
  | put => exact Action.shifts_put
  | add => exact Action.shifts_add
  | entrySet => exact Action.shifts_entrySet
  | iterator => exact Action.shifts_iterator
  | hasNext => exact Action.shifts_hasNext
  | next => exact Action.shifts_next
  | getKey => exact Action.shifts_getKey
  | getValue => exact Action.shifts_getValue

/-- The slots a descriptor should give for a method. -/
def described (m : Method) : Nat × Nat :=
  (m.effect.pops - if m.isStatic then 0 else 1, m.effect.pushes)

/-- The descriptors of the library say what its methods take and leave. -/
theorem slots?_all : ∀ p ∈ all, Descriptor.slots? p.1.descriptor = some p.2.described := by
  decide +kernel

/-- Before a library descriptor there is no parenthesis, and in it only one that opens. -/
theorem parenthesis_all : ∀ p ∈ all, '(' ∉ (p.1.owner ++ "." ++ p.1.name).toList ∧
    p.1.descriptor.toList.head? = some '(' ∧ '(' ∉ p.1.descriptor.toList.tail := by
  decide +kernel

end Method

/-- Two texts cut at the same mark, which occurs once, are cut alike. -/
theorem cut_unique {α : Type} {c : α} {a b x y : List α} (h : a ++ c :: x = b ++ c :: y)
    (hb : c ∉ b) (hy : c ∉ y) : x = y := by
  rcases List.append_eq_append_iff.mp h with ⟨d, hd, he⟩ | ⟨d, hd, he⟩
  · cases d with
    | nil => simpa using he
    | cons e d =>
      cases he
      exact (hb (by simp [hd])).elim
  · cases d with
    | nil => simpa using he.symm
    | cons e d =>
      cases he
      exact (hy (by simp)).elim

theorem Descriptor.head?_of_slots? {d : String} {r : Nat × Nat} (h : Descriptor.slots? d = some r) :
    ∃ rest, d.toList = '(' :: rest := by
  unfold Descriptor.slots? at h
  split at h
  · next rest hr => exact ⟨rest, hr⟩
  · cases h

/-- A method is found by its whole text, and still the descriptor it is called with is its own. -/
theorem Method.described_of_find? {m : MethodRef} {method : Method} {r : Nat × Nat}
    (hf : Method.find? m = some method) (hd : Descriptor.slots? m.descriptor = some r) :
    r = method.described := by
  rw [Method.find?, Option.map_eq_some_iff] at hf
  obtain ⟨p, hp, rfl⟩ := hf
  have hmem := List.mem_of_find?_eq_some hp
  have htext : p.1.text = m.text := by simpa using List.find?_some hp
  obtain ⟨ho, hh, ht⟩ := Method.parenthesis_all p hmem
  obtain ⟨x, hx⟩ := Descriptor.head?_of_slots? hd
  obtain ⟨y, hy⟩ := List.head?_eq_some_iff.mp hh
  have hcut := congrArg String.toList htext
  simp only [MethodRef.text, String.toList_append] at hcut
  rw [hx, hy] at hcut
  have hxy : x = y := cut_unique hcut.symm (by simpa using ho) (by simpa [hy] using ht)
  have he : m.descriptor = p.1.descriptor := by
    rw [← String.toList_inj, hx, hy, hxy]
  have := Method.slots?_all p hmem
  rw [← he, hd] at this
  exact Option.some.inj this

namespace Sequence

variable {s : Sequence} {i : Instr} {e : StackEffect} {m m' : Machine} {l : Label}

/-- Static calls go to the static methods of the library and to no others. -/
def CallsFit (s : Sequence) : Prop :=
  ∀ mode index entry m method, .invoke mode index ∈ s.code → s.pool.get? index = some entry →
    entry.method? = some m → Method.find? m = some method →
    (mode = .static ↔ method.isStatic = true)

theorem shifts_entry (s : Sequence) (index : Nat) :
    (s.entry index).Shifts 0 0 (fun e => s.pool.get? index = some e) (fun _ => False) := by
  unfold entry
  split
  · next e he => exact Action.shifts_pure he
  · exact Action.shifts_throw rfl

theorem shifts_className (s : Sequence) (index : Nat) :
    (s.className index).Shifts 0 0 (fun _ => True) (fun _ => False) := by
  refine (s.shifts_entry index).bind_of_eq (n := 0) (fun e _ => ?_) rfl
  split
  · exact Action.shifts_pure trivial
  · exact Action.shifts_throw rfl

theorem shifts_jump (s : Sequence) (l : Label) :
    (s.jump l).Shifts 0 0 (fun _ => True) (fun p => labelPosition? l s.code = some p) := by
  unfold jump
  split
  · next p hp =>
    intro m ht _
    exact ⟨trivial, ⟨ht.stack, ht.locals, ht.store⟩, .inr hp, rfl⟩
  · exact Action.shifts_throw rfl

theorem shifts_jumpIf (s : Sequence) (holds : Bool) (l : Label) :
    (s.jumpIf holds l).Shifts 0 0 (fun _ => True) (fun p => labelPosition? l s.code = some p) := by
  unfold jumpIf
  split
  · exact s.shifts_jump l
  · exact Action.shifts_pure trivial

/-- A call shifts the stack as the descriptor it is made with says. -/
theorem shifts_invoke {mode : InvokeMode} {index : Nat} {J : Nat → Prop}
    (hc : s.CallsFit) (hi : .invoke mode index ∈ s.code)
    (he : (Instr.invoke mode index).effect s.pool = .ok e) :
    (s.step (.invoke mode index)).Shifts e.pops e.pushes (fun _ => True) J := by
  refine (s.shifts_entry index).bind_of_eq (n := e.pops) (fun entry hentry => ?_) (by omega)
  cases hm : entry.method? with
  | none => exact Action.shifts_throw rfl
  | some m =>
    change Action.Shifts (Action.invoke m) _ _ _ _
    unfold Action.invoke
    split
    · next method hf =>
      have hfit := hc mode index entry m method hi hentry hm hf
      simp only [Instr.effect, Pool.methodSlots, hentry, Option.bind_eq_bind, Option.bind_some,
        hm] at he
      cases hd : Descriptor.slots? m.descriptor with
      | none => simp [hd, bind, Except.bind] at he
      | some r =>
        have hr := Method.described_of_find? hf hd
        simp only [hd, bind, Except.bind, pure, Except.pure, Except.ok.injEq] at he
        have hpops : e.pops = method.effect.pops := by
          subst he
          simp only [hr, Method.described]
          cases hs : method.isStatic with
          | true => simp [hfit.mpr hs]
          | false =>
            have : mode ≠ .static := fun h => by simp [hfit.mp h] at hs
            have hpos : 0 < method.effect.pops := by
              cases method <;> first | exact StackKind.size_pos _ | simp [Method.effect]
            simp only [this, if_false]
            simp
            omega
        have hpushes : e.pushes = method.effect.pushes := by
          subst he
          simp only [hr, Method.described]
        rw [hpops, hpushes]
        exact method.shifts_run J
    · exact Action.shifts_throw rfl

/-- The height an instruction is counted for is what it does to the stack. -/
theorem shifts_step (hc : s.CallsFit) (hi : i ∈ s.code) (he : i.effect s.pool = .ok e) :
    (s.step i).Shifts e.pops e.pushes (fun _ => True)
      (fun p => ∃ l, i.target? = some l ∧ labelPosition? l s.code = some p) := by
  have hjump (l : Label) (ht : i.target? = some l) (p : Nat)
      (hp : labelPosition? l s.code = some p) :
      ∃ l, i.target? = some l ∧ labelPosition? l s.code = some p := ⟨l, ht, hp⟩
  cases i with
  | nullConst | intConst | bytePush | shortPush | floatConst | longConst | doubleConst =>
    cases he
    exact Action.shifts_push trivial
  | ldc index =>
    cases he
    refine (s.shifts_entry index).bind_of_eq (n := 0) (fun entry _ => ?_) rfl
    split
    · exact Action.shifts_pushInt _
    · exact Action.shifts_push trivial
    · exact Action.shifts_push trivial
    · exact Action.shifts_throw rfl
  | ldc2 index =>
    cases he
    refine (s.shifts_entry index).bind_of_eq (n := 0) (fun entry _ => ?_) rfl
    split
    · exact Action.shifts_push trivial
    · exact Action.shifts_push trivial
    · exact Action.shifts_throw rfl
  | load kind slot =>
    cases he
    refine (Action.shifts_loadLocal slot).bind_of_eq (n := 0) (fun v hv => ?_) rfl
    split
    · next hk => exact hk ▸ Action.shifts_push hv
    · exact Action.shifts_throw rfl
  | store kind slot =>
    cases he
    exact (Action.shifts_popKind kind).bind_of_eq (n := 0)
      (fun v hv => Action.shifts_storeLocal slot hv.2) rfl
  | increment slot delta =>
    cases he
    refine (Action.shifts_loadLocal slot).bind_of_eq (n := 0) (fun v _ => ?_) rfl
    split
    · exact Action.shifts_storeLocal slot trivial
    · exact Action.shifts_throw rfl
  | arith op kind =>
    cases he
    exact Action.shifts_arith op kind
  | neg kind =>
    cases he
    exact Action.shifts_neg kind
  | convert c =>
    cases he
    exact Action.shifts_convert c
  | compare op =>
    cases he
    exact Action.shifts_compare op
  | ifZero c l =>
    cases he
    exact Action.shifts_popInt.bind_of_eq (n := 0)
      (fun n _ => (s.shifts_jumpIf (c.holds n) l).mono (hjump l rfl)) rfl
  | ifInt c l =>
    cases he
    refine Action.shifts_popInt.bind_of_eq (n := 1) (fun b _ => ?_) rfl
    exact Action.shifts_popInt.bind_of_eq (n := 0)
      (fun a _ => (s.shifts_jumpIf _ l).mono (hjump l rfl)) rfl
  | ifNull l =>
    cases he
    refine Action.shifts_popReference.bind_of_eq (n := 0) (fun v _ => ?_) rfl
    split
    · exact (s.shifts_jump l).mono (hjump l rfl)
    · exact Action.shifts_pure trivial
  | ifNonNull l =>
    cases he
    refine Action.shifts_popReference.bind_of_eq (n := 0) (fun v _ => ?_) rfl
    split
    · exact Action.shifts_pure trivial
    · exact (s.shifts_jump l).mono (hjump l rfl)
  | goto l =>
    cases he
    exact (s.shifts_jump l).mono (hjump l rfl)
  | label l =>
    cases he
    exact Action.shifts_pure trivial
  | dup form =>
    cases he
    exact Action.shifts_duplicate form.copied form.skipped
  | pop =>
    cases he
    exact Action.shifts_popAll 1
  | pop2 =>
    cases he
    exact Action.shifts_popAll 2
  | swap =>
    cases he
    exact Action.shifts_swap
  | new index =>
    cases he
    exact (s.shifts_className index).bind_of_eq (n := 0)
      (fun cls _ => Action.shifts_instantiate cls) rfl
  | checkCast index =>
    cases he
    exact (s.shifts_className index).bind_of_eq (n := 1)
      (fun cls _ => Action.shifts_checkCast cls) rfl
  | invoke mode index => exact shifts_invoke hc hi he

/-- A jump away leaves the straight path for good. -/
theorem step_goto (h : s.step (.goto l) m = .ok () m') :
    labelPosition? l s.code = some m'.next := by
  have h' : s.jump l m = .ok () m' := h
  cases hp : labelPosition? l s.code with
  | none =>
    rw [jump, hp] at h'
    cases h'
  | some p =>
    simp only [jump, hp, Action.goTo, EStateM.Result.ok.injEq, true_and] at h'
    rw [← h']

end Sequence

namespace HeightWalk

variable {pool : Pool} {w v : HeightWalk} {position h : Nat} {i : Instr} {l k : Label}
  {p : HeightProblem} {code rest : List Instr}

@[simp] theorem report_problem : (w.report position p).problem ≠ none := by
  unfold report
  split <;> simp_all

/-- Arriving at a label puts its height on record, unless another height is there. -/
theorem arrive_of_none (hn : (w.arrive position l h).problem = none) :
    w.problem = none ∧ (w.arrive position l h).current = w.current ∧
      (w.arrive position l h).deepest = w.deepest ∧
      (w.arrive position l h).recorded.lookup l = some h ∧
      (∀ k x, w.recorded.lookup k = some x → (w.arrive position l h).recorded.lookup k = some x) ∧
      ∀ k x, (w.arrive position l h).recorded.lookup k = some x →
        w.recorded.lookup k = some x ∨ x = h := by
  cases hl : w.recorded.lookup l with
  | some g =>
    by_cases hg : g = h
    · have he : w.arrive position l h = w := by simp [arrive, hl, hg]
      rw [he] at hn ⊢
      exact ⟨hn, rfl, rfl, hg ▸ hl, fun _ _ hk => hk, fun _ _ hk => .inl hk⟩
    · simp [arrive, hl, hg] at hn
  | none =>
    have he : w.arrive position l h = { w with recorded := (l, h) :: w.recorded } := by
      simp [arrive, hl]
    rw [he] at hn ⊢
    refine ⟨hn, rfl, rfl, by simp, fun k x hk => ?_, fun k x hk => ?_⟩
    · have hne : (k == l) = false := beq_eq_false_iff_ne.mpr (by rintro rfl; simp [hl] at hk)
      simpa [List.lookup_cons, hne] using hk
    · by_cases hkl : k = l
      · subst hkl
        simp at hk
        exact .inr hk.symm
      · left
        simpa [List.lookup_cons, beq_eq_false_iff_ne.mpr hkl] using hk

/-- What is on record stays on record, and no height exceeds the deepest. -/
structure Grows (w v : HeightWalk) : Prop where
  recorded : ∀ k x, w.recorded.lookup k = some x → v.recorded.lookup k = some x
  deepest : w.deepest ≤ v.deepest
  problem : v.problem = none → w.problem = none

structure Bounded (w : HeightWalk) : Prop where
  current : ∀ x, w.current = some x → x ≤ w.deepest
  recorded : ∀ k x, w.recorded.lookup k = some x → x ≤ w.deepest

/-- What passing a label means when nothing is wrong: it is on record at the height that the walk
comes from, if it comes from anywhere, and goes on at. -/
theorem passLabel_of_none (hn : (w.passLabel position l).problem = none) (hb : w.Bounded) :
    w.Grows (w.passLabel position l) ∧ (w.passLabel position l).Bounded ∧
      ∃ h, (w.passLabel position l).current = some h ∧
        (w.passLabel position l).recorded.lookup l = some h ∧
        (w.current = none ∨ w.current = some h) := by
  cases hc : w.current with
  | some h =>
    have he : w.passLabel position l = w.arrive position l h := by simp [passLabel, hc]
    rw [he] at hn ⊢
    obtain ⟨h1, h2, h3, h4, h5, h6⟩ := arrive_of_none hn
    refine ⟨⟨h5, Nat.le_of_eq h3.symm, fun _ => h1⟩, ⟨?_, ?_⟩, h, h2.trans hc, h4, .inr rfl⟩
    · intro x hx
      rw [h2] at hx
      rw [h3]
      exact hb.current x hx
    · intro k x hk
      rw [h3]
      rcases h6 k x hk with hk | rfl
      · exact hb.recorded k x hk
      · exact hb.current x hc
  | none =>
    cases hl : w.recorded.lookup l with
    | none => simp [passLabel, hc, hl] at hn
    | some h =>
      have he : w.passLabel position l = { w with current := some h } := by
        simp [passLabel, hc, hl]
      rw [he] at hn ⊢
      refine ⟨⟨fun _ _ hk => hk, Nat.le_refl _, id⟩, ⟨?_, hb.recorded⟩, h, rfl, hl, .inl rfl⟩
      intro x hx
      cases hx
      exact hb.recorded l h hl

theorem branch_of_none (hn : (w.branch position i h).problem = none) :
    w.problem = none ∧ (w.branch position i h).current = w.current ∧
      (w.branch position i h).deepest = w.deepest ∧
      (∀ l, i.target? = some l → (w.branch position i h).recorded.lookup l = some h) ∧
      (∀ k x, w.recorded.lookup k = some x → (w.branch position i h).recorded.lookup k = some x) ∧
      ∀ k x, (w.branch position i h).recorded.lookup k = some x →
        w.recorded.lookup k = some x ∨ x = h := by
  cases ht : i.target? with
  | none =>
    have he : w.branch position i h = w := by simp [branch, ht]
    rw [he] at hn ⊢
    exact ⟨hn, rfl, rfl, fun _ hl => (nomatch hl), fun _ _ hk => hk, fun _ _ hk => .inl hk⟩
  | some l =>
    have he : w.branch position i h = w.arrive position l h := by simp [branch, ht]
    rw [he] at hn ⊢
    obtain ⟨h1, h2, h3, h4, h5, h6⟩ := arrive_of_none hn
    exact ⟨h1, h2, h3, fun k hk => Option.some.inj hk ▸ h4, h5, h6⟩

theorem checkPops_of_none {pops : Nat} (hn : (w.checkPops position i h pops).problem = none) :
    pops ≤ h ∧ w.checkPops position i h pops = w := by
  unfold checkPops at hn ⊢
  split at hn
  · exact absurd hn report_problem
  · next hlt => exact ⟨by omega, if_neg hlt⟩

/-- If nothing is wrong, an instruction has an effect that the walk can follow. -/
theorem effect_of_none (hn : (w.effect pool position i).2.problem = none) :
    ∃ e, i.effect pool = .ok e ∧ w.effect pool position i = (e, w) := by
  cases he : i.effect pool with
  | ok e => exact ⟨e, rfl, by simp [effect, he]⟩
  | error p => simp [effect, he] at hn

theorem eq_of_current_goOn {n x : Nat} (h : (w.goOn i n).current = some x) : x = n := by
  unfold goOn at h
  split at h <;> cases h
  rfl

theorem current_goOn {n : Nat} (h : ∀ l, i ≠ .goto l) : (w.goOn i n).current = some n := by
  unfold goOn
  split
  · next l => exact absurd rfl (h l)
  · rfl

/-- An instruction settles its own height and that of its target. -/
theorem settle_of_none {e : StackEffect} (hn : (w.settle position i h e).problem = none)
    (hb : w.Bounded) (hh : h ≤ w.deepest) :
    w.Grows (w.settle position i h e) ∧ (w.settle position i h e).Bounded ∧ e.pops ≤ h ∧
      (∀ l, i.target? = some l → (w.settle position i h e).recorded.lookup l = some (h - e.pops)) ∧
      ((∀ l, i ≠ .goto l) → (w.settle position i h e).current = some (h - e.pops + e.pushes)) := by
  obtain ⟨hcheck, -⟩ := branch_of_none (show (branch _ position i _).problem = none from hn)
  obtain ⟨hle, he⟩ := checkPops_of_none hcheck
  have hs : w.settle position i h e =
      (branch { w with deepest := max w.deepest (h - e.pops + e.pushes) } position i
        (h - e.pops)).goOn i (h - e.pops + e.pushes) := by
    rw [settle, he]
  rw [hs] at hn ⊢
  obtain ⟨h1, h2, h3, h4, h5, h6⟩ :=
    branch_of_none (show (branch _ position i _).problem = none from hn)
  have hd : ((branch { w with deepest := max w.deepest (h - e.pops + e.pushes) } position i
      (h - e.pops)).goOn i (h - e.pops + e.pushes)).deepest =
      max w.deepest (h - e.pops + e.pushes) := h3
  refine ⟨⟨h5, by omega, fun _ => h1⟩, ⟨?_, ?_⟩, hle, h4, ?_⟩
  · intro x hx
    have : x = h - e.pops + e.pushes := eq_of_current_goOn hx
    omega
  · intro k x hk
    rcases h6 k x hk with hk | rfl
    · have := hb.recorded k x hk
      omega
    · omega
  · exact current_goOn

/-- What passing an instruction means when nothing is wrong: there is enough on the stack, and its
target is on record at the height that is left after its operands are taken off. -/
theorem passInstr_of_none (hn : (w.passInstr pool position i).problem = none) (hb : w.Bounded) :
    w.Grows (w.passInstr pool position i) ∧ (w.passInstr pool position i).Bounded ∧
      ∃ h e, w.current = some h ∧ i.effect pool = .ok e ∧ e.pops ≤ h ∧
        (∀ l, i.target? = some l →
          (w.passInstr pool position i).recorded.lookup l = some (h - e.pops)) ∧
        ((∀ l, i ≠ .goto l) →
          (w.passInstr pool position i).current = some (h - e.pops + e.pushes)) := by
  cases hc : w.current with
  | none => simp [passInstr, hc] at hn
  | some h =>
    cases he : i.effect pool with
    | error p =>
      have hp : w.passInstr pool position i =
          (w.report position p).settle position i h ⟨0, 0⟩ := by
        simp [passInstr, hc, effect, he]
      rw [hp] at hn
      obtain ⟨hcheck, -⟩ := branch_of_none (show (branch _ position i _).problem = none from hn)
      obtain ⟨-, hw⟩ := checkPops_of_none hcheck
      change ((w.report position p).checkPops position i h 0).problem = none at hcheck
      rw [hw] at hcheck
      exact absurd hcheck report_problem
    | ok e =>
      have hp : w.passInstr pool position i = w.settle position i h e := by
        simp [passInstr, hc, effect, he]
      rw [hp] at hn ⊢
      obtain ⟨h1, h2, h3, h4, h5⟩ := settle_of_none hn hb (hb.current h hc)
      exact ⟨h1, h2, h, e, rfl, rfl, h3, h4, h5⟩

theorem step_eq_passInstr (h : ∀ l, i ≠ .label l) :
    w.step pool position i = w.passInstr pool position i := by
  cases i <;> first | rfl | exact absurd rfl (h _)

/-- A problem once found is not forgotten. -/
theorem step_problem (hn : (w.step pool position i).problem = none) : w.problem = none := by
  have hsettle (v : HeightWalk) (h : Nat) (e : StackEffect)
      (hn : (v.settle position i h e).problem = none) : v.problem = none := by
    obtain ⟨hcheck, -⟩ := branch_of_none (show (branch _ position i _).problem = none from hn)
    obtain ⟨-, he⟩ := checkPops_of_none hcheck
    change (v.checkPops position i h e.pops).problem = none at hcheck
    rwa [he] at hcheck
  have hpass (hn : (w.passInstr pool position i).problem = none) : w.problem = none := by
    cases hc : w.current with
    | none => simp [passInstr, hc] at hn
    | some h =>
      have hp : w.passInstr pool position i =
          (w.effect pool position i).2.settle position i h (w.effect pool position i).1 := by
        simp [passInstr, hc]
      rw [hp] at hn
      have he := hsettle _ _ _ hn
      obtain ⟨e, -, hw⟩ := effect_of_none he
      rwa [hw] at he
  cases i with
  | label l =>
    change (w.passLabel position l).problem = none at hn
    cases hc : w.current with
    | some h =>
      simp only [passLabel, hc] at hn
      exact (arrive_of_none hn).1
    | none =>
      cases hl : w.recorded.lookup l with
      | none => simp [passLabel, hc, hl] at hn
      | some h => simpa [passLabel, hc, hl] using hn
  | _ => exact hpass hn

theorem walk_problem (hn : (walk pool w position code).problem = none) : w.problem = none := by
  induction code generalizing w position with
  | nil => exact hn
  | cons i rest ih => exact step_problem (ih hn)

theorem step_of_none (hn : (w.step pool position i).problem = none) (hb : w.Bounded) :
    w.Grows (w.step pool position i) ∧ (w.step pool position i).Bounded := by
  by_cases hl : ∃ l, i = .label l
  · obtain ⟨l, rfl⟩ := hl
    obtain ⟨hg, hb', -⟩ := passLabel_of_none hn hb
    exact ⟨hg, hb'⟩
  · rw [step_eq_passInstr (not_exists.mp hl)] at hn ⊢
    obtain ⟨hg, hb', -⟩ := passInstr_of_none hn hb
    exact ⟨hg, hb'⟩

/-- What one step of the walk keeps a whole walk keeps. -/
theorem walk_of_none (hn : (walk pool w position code).problem = none) (hb : w.Bounded) :
    w.Grows (walk pool w position code) ∧ (walk pool w position code).Bounded := by
  induction code generalizing w position with
  | nil => exact ⟨⟨fun _ _ hk => hk, Nat.le_refl _, id⟩, hb⟩
  | cons i rest ih =>
    obtain ⟨hg, hb'⟩ := step_of_none (walk_problem hn) hb
    obtain ⟨hg', hb''⟩ := ih hn hb'
    exact ⟨⟨fun k x hk => hg'.recorded k x (hg.recorded k x hk), Nat.le_trans hg.deepest hg'.deepest,
      fun h => hg.problem (hg'.problem h)⟩, hb''⟩

theorem bounded_start : Bounded start := by
  refine ⟨fun x hx => ?_, fun k x hk => ?_⟩
  · cases hx
    exact Nat.le_refl _
  · simp [start] at hk

theorem walk_append (a b : List Instr) :
    walk pool w position (a ++ b) = walk pool (walk pool w position a) (position + a.length) b := by
  induction a generalizing w position with
  | nil => rfl
  | cons i a ih =>
    simp only [List.cons_append, walk, ih, List.length_cons]
    congr 1
    omega

/-- The walk over one instruction more is one step more. -/
theorem walk_take_succ {p : Nat} (hi : code[p]? = some i) :
    walk pool w 0 (code.take (p + 1)) = (walk pool w 0 (code.take p)).step pool p i := by
  have hp : p < code.length := (List.getElem?_eq_some_iff.mp hi).1
  rw [List.take_add_one, hi, walk_append]
  simp [walk, Nat.min_eq_left (Nat.le_of_lt hp)]

theorem finish_of_none {r : Nat} (hn : (w.finish position r).problem = none) :
    w.problem = none ∧ w.current = some r := by
  cases hc : w.current with
  | none => simp [finish, hc] at hn
  | some h =>
    by_cases hr : h = r
    · simpa [finish, hc, hr] using hn
    · simp [finish, hc, hr] at hn

end HeightWalk

/-- The height at which a position is reached: at a label the one on record, elsewhere the one the
walk comes with. -/
def ReachedAt (code : List Instr) (pool : Pool) (p h : Nat) : Prop :=
  match code[p]? with
  | some (.label l) => (HeightWalk.walk pool .start 0 code).recorded.lookup l = some h
  | _ => (HeightWalk.walk pool .start 0 (code.take p)).current = some h

section reached

variable {code : List Instr} {pool : Pool} {p q h : Nat} {i : Instr} {l : Label}

open HeightWalk in
theorem walk_take_grows (hn : (walk pool .start 0 code).problem = none) (p : Nat) :
    (walk pool .start 0 (code.take p)).problem = none ∧
      (walk pool .start 0 (code.take p)).Bounded ∧
      (walk pool .start 0 (code.take p)).Grows (walk pool .start 0 code) := by
  have hsplit : walk pool .start 0 code =
      walk pool (walk pool .start 0 (code.take p)) (0 + (code.take p).length) (code.drop p) := by
    rw [← walk_append, List.take_append_drop]
  have h0 : (walk pool .start 0 (code.take p)).problem = none := by
    rw [hsplit] at hn
    exact walk_problem hn
  obtain ⟨-, hb⟩ := walk_of_none h0 bounded_start
  refine ⟨h0, hb, ?_⟩
  rw [hsplit] at hn ⊢
  exact (walk_of_none hn hb).1

open HeightWalk in
/-- A position that the walk comes to is reached at the walk's height. -/
theorem reachedAt_of_current (hn : (walk pool .start 0 code).problem = none)
    (hc : (walk pool .start 0 (code.take p)).current = some h) : ReachedAt code pool p h := by
  unfold ReachedAt
  split
  · next l hl =>
    have hs : walk pool .start 0 _ = _ := walk_take_succ hl
    obtain ⟨h1, -, hg⟩ := walk_take_grows hn (p + 1)
    obtain ⟨-, hb, -⟩ := walk_take_grows hn p
    rw [hs] at h1 hg
    obtain ⟨-, -, x, -, hx, hcur⟩ := passLabel_of_none h1 hb
    rw [hc] at hcur
    rcases hcur with hcur | hcur
    · cases hcur
    · cases hcur
      exact hg.recorded l _ hx
  · exact hc

open HeightWalk in
/-- One instruction on the walk: what it is reached at, what it needs and where it leads. -/
theorem reachedAt_step (hn : (walk pool .start 0 code).problem = none) (hi : code[p]? = some i)
    (hr : ReachedAt code pool p h) :
    h ≤ (walk pool .start 0 code).deepest ∧ ∃ e, i.effect pool = .ok e ∧ e.pops ≤ h ∧
      ((∀ l, i ≠ .goto l) → ReachedAt code pool (p + 1) (h - e.pops + e.pushes)) ∧
      ∀ l q, i.target? = some l → code[q]? = some (.label l) →
        ReachedAt code pool q (h - e.pops + e.pushes) := by
  obtain ⟨-, hb, hg⟩ := walk_take_grows hn p
  obtain ⟨h1, -, hg1⟩ := walk_take_grows hn (p + 1)
  obtain ⟨-, hfinal⟩ := walk_of_none hn bounded_start
  have hs : walk pool .start 0 _ = _ := walk_take_succ hi
  rw [hs] at h1 hg1
  by_cases hl : ∃ l, i = .label l
  · obtain ⟨l, rfl⟩ := hl
    simp only [ReachedAt, hi] at hr
    obtain ⟨-, -, x, hcur, hx, -⟩ := passLabel_of_none h1 hb
    have hxh : x = h := by
      have := hg1.recorded l x hx
      rw [hr] at this
      exact (Option.some.inj this).symm
    subst hxh
    refine ⟨hfinal.recorded l _ hr, ⟨0, 0⟩, rfl, Nat.zero_le _, fun _ => ?_,
      fun k q hk => nomatch hk⟩
    apply reachedAt_of_current hn
    rw [hs]
    exact hcur
  · rw [step_eq_passInstr (not_exists.mp hl)] at h1 hg1 hs
    obtain ⟨-, -, x, e, hcur, he, hle, ht, hgo⟩ := passInstr_of_none h1 hb
    have hxh : x = h := by
      unfold ReachedAt at hr
      rw [hi] at hr
      split at hr
      · next l heq => exact absurd ⟨l, Option.some.inj heq⟩ hl
      · rw [hcur] at hr
        exact Option.some.inj hr
    subst hxh
    refine ⟨Nat.le_trans (hb.current x hcur) hg.deepest, e, he, hle, fun hne => ?_,
      fun l q hl hq => ?_⟩
    · apply reachedAt_of_current hn
      rw [hs]
      exact hgo hne
    · -- a jump pushes nothing, so the height on record is the height after it
      have hpush : e.pushes = 0 := by
        cases i <;> simp [Instr.target?] at hl <;> cases he <;> rfl
      simp only [ReachedAt, hq, hpush, Nat.add_zero]
      exact hg1.recorded l _ (ht l hl)

end reached

namespace Sequence

variable {s : Sequence} {m m' : Machine} {f : Fault} {r h : Nat}

/-- A machine whose stack is as high as the walk foretells for its position. -/
structure AtHeight (s : Sequence) (m : Machine) : Prop where
  tidy : m.Tidy
  position : m.next ≤ s.code.length
  reached : ReachedAt s.code s.pool m.next (slots m.stack)

theorem tidy_advance (h : m.Tidy) : m.advance.Tidy := ⟨h.stack, h.locals, h.store⟩

open HeightWalk in
/-- One step of a run leads from a foretold height to a foretold height. -/
theorem atHeight_next (hn : (walk s.pool .start 0 s.code).problem = none) (hc : s.CallsFit)
    (h : s.Next m m') (ha : s.AtHeight m) : s.AtHeight m' := by
  obtain ⟨i, hi, hs⟩ := h
  have hlt : m.next < s.code.length := (List.getElem?_eq_some_iff.mp hi).1
  obtain ⟨-, e, he, hle, hgo, hjump⟩ := reachedAt_step hn hi ha.reached
  have hstep := shifts_step hc (List.mem_of_getElem? hi) he m.advance (tidy_advance ha.tidy) hle
  rw [hs] at hstep
  obtain ⟨-, ht, hnext, hslots⟩ := hstep
  have hheight : slots m'.stack = slots m.stack - e.pops + e.pushes := by
    have : slots m.advance.stack = slots m.stack := rfl
    omega
  -- on the straight path unless the instruction is a jump away, which never goes on
  by_cases hg : ∃ l, i = .goto l
  · obtain ⟨l, rfl⟩ := hg
    have hp := getElem?_of_labelPosition? (step_goto hs)
    refine ⟨ht, Nat.le_of_lt (List.getElem?_eq_some_iff.mp hp).1, ?_⟩
    rw [hheight]
    exact hjump l _ rfl hp
  · rcases hnext with hnext | ⟨l, hl, hp⟩
    · have hn' : m'.next = m.next + 1 := hnext
      refine ⟨ht, by omega, ?_⟩
      rw [hheight, hn']
      exact hgo (not_exists.mp hg)
    · have hp := getElem?_of_labelPosition? hp
      refine ⟨ht, Nat.le_of_lt (List.getElem?_eq_some_iff.mp hp).1, ?_⟩
      rw [hheight]
      exact hjump l _ hl hp

open HeightWalk in
theorem atHeight_start (hn : (walk s.pool .start 0 s.code).problem = none) (n : Nat) :
    s.AtHeight (.start n) := by
  refine ⟨Machine.tidy_start n, Nat.zero_le _, ?_⟩
  apply reachedAt_of_current hn
  rfl

open HeightWalk in
/-- A whole run leads from a foretold height to a foretold height. -/
theorem atHeight_reaches (hn : (walk s.pool .start 0 s.code).problem = none) (hc : s.CallsFit)
    (h : s.Reaches m m') (ha : s.AtHeight m) : s.AtHeight m' := by
  induction h with
  | refl => exact ha
  | tail _ hs ih => exact atHeight_next hn hc hs ih

open HeightWalk in
/-- A fault is never one of heights, and whatever fails has not raised the stack. -/
theorem atHeight_fails (hn : (walk s.pool .start 0 s.code).problem = none) (hc : s.CallsFit)
    (ha : s.AtHeight m) {i : Instr} (hi : s.code[m.next]? = some i)
    (hs : s.step i m.advance = .error f m') :
    f.isOfHeight = false ∧ slots m'.stack ≤ slots m.stack := by
  obtain ⟨-, e, he, hle, -, -⟩ := reachedAt_step hn hi ha.reached
  have hstep := shifts_step hc (List.mem_of_getElem? hi) he m.advance (tidy_advance ha.tidy) hle
  rw [hs] at hstep
  exact hstep

open HeightWalk in
theorem atHeight_end (ha : s.AtHeight m) (he : s.code.length ≤ m.next) :
    (walk s.pool .start 0 s.code).current = some (slots m.stack) := by
  have hp : m.next = s.code.length := Nat.le_antisymm ha.position he
  have hr := ha.reached
  unfold ReachedAt at hr
  rw [hp, List.getElem?_eq_none (Nat.le_refl _), List.take_length] at hr
  exact hr

open HeightWalk in
theorem atHeight_le_deepest (hn : (walk s.pool .start 0 s.code).problem = none)
    (ha : s.AtHeight m) : slots m.stack ≤ (walk s.pool .start 0 s.code).deepest := by
  by_cases hlt : m.next < s.code.length
  · exact (reachedAt_step hn (List.getElem?_eq_getElem hlt) ha.reached).1
  · exact (walk_of_none hn bounded_start).2.current _ (atHeight_end ha (by omega))

open HeightWalk in
theorem measureHeights_of_none {code : List Instr} {pool : Pool}
    (hn : (measureHeights code pool r).problem = none)
    (hd : (walk pool .start 0 code).deepest ≤ 65535) :
    (walk pool .start 0 code).problem = none ∧ (walk pool .start 0 code).current = some r ∧
      (measureHeights code pool r).maxStack = (walk pool .start 0 code).deepest := by
  obtain ⟨hp, hc⟩ :=
    finish_of_none (show ((walk pool .start 0 code).finish _ r).problem = none from hn)
  refine ⟨hp, hc, ?_⟩
  have hf : ((walk pool .start 0 code).finish code.length r).deepest =
      (walk pool .start 0 code).deepest := by
    simp [HeightWalk.finish, hc]
  simp only [measureHeights, hf]
  omega

/-- A run that fails did so before the first step, at the end, or in a step it reached. -/
theorem fault_of_run {steps : Nat} {failure : Failure} (h : s.run steps = some (.error failure)) :
    (∃ l, failure.fault = .undefinedLabel l) ∨ ∃ m, s.Reaches (.start s.maxLocals) m ∧
      ((s.code.length ≤ m.next ∧ s.finish m = .error failure) ∨
        ∃ i m', s.code[m.next]? = some i ∧ s.step i m.advance = .error failure.fault m') := by
  unfold run at h
  split at h
  · next l _ =>
    cases h
    exact .inl ⟨l, rfl⟩
  · obtain ⟨m, hr, ⟨he, hf⟩ | ⟨f, ⟨i, m', hi, hs⟩, hf⟩⟩ := reaches_of_runFrom h
    · exact .inr ⟨m, hr, .inl ⟨he, hf.symm⟩⟩
    · cases hf
      exact .inr ⟨m, hr, .inr ⟨i, m', hi, hs⟩⟩

theorem finish_error {failure : Failure} (h : s.finish m = .error failure) :
    failure.fault = .unbalancedStack m.stack.length := by
  unfold finish at h
  split at h
  · cases h
  · cases h
    rfl

theorem eq_singleton_of_slots {vs : List Value} (h : slots vs = 1) : ∃ v, vs = [v] := by
  match vs with
  | [] => simp [slots] at h
  | [v] => exact ⟨v, rfl⟩
  | v :: w :: rest =>
    simp only [slots] at h
    have := v.size_pos
    have := w.size_pos
    omega

/-- Code without a height problem, whatever its jumps: no run of any length runs out of operands or
exceeds the greatest height before or after a step, and whoever reaches the end holds just the
result. -/
theorem runs_within_heights (s : Sequence) (resultSlots : Nat)
    (hproblem : (measureHeights s.code s.pool resultSlots).problem = none)
    (hdeep : (HeightWalk.walk s.pool .start 0 s.code).deepest ≤ 65535) (hcalls : s.CallsFit) :
    (∀ m, s.Reaches (.start s.maxLocals) m →
      slots m.stack ≤ (measureHeights s.code s.pool resultSlots).maxStack ∧
      (∀ i m', s.code[m.next]? = some i → s.step i m.advance = .ok () m' →
        slots m'.stack ≤ (measureHeights s.code s.pool resultSlots).maxStack) ∧
      (∀ i f m', s.code[m.next]? = some i → s.step i m.advance = .error f m' →
        f ≠ .stackUnderflow ∧
          slots m'.stack ≤ (measureHeights s.code s.pool resultSlots).maxStack) ∧
      (s.code.length ≤ m.next → slots m.stack = resultSlots)) ∧
    ∀ steps failure, s.run steps = some (.error failure) →
      failure.fault ≠ .stackUnderflow ∧
        (resultSlots = 1 → ∀ n, failure.fault ≠ .unbalancedStack n) := by
  obtain ⟨hn, hcurrent, hmax⟩ := measureHeights_of_none hproblem hdeep
  rw [hmax]
  have hat (m : Machine) (h : s.Reaches (.start s.maxLocals) m) : s.AtHeight m :=
    atHeight_reaches hn hcalls h (atHeight_start hn _)
  have hend (m : Machine) (h : s.Reaches (.start s.maxLocals) m) (he : s.code.length ≤ m.next) :
      slots m.stack = resultSlots := by
    have := atHeight_end (hat m h) he
    rw [hcurrent] at this
    exact (Option.some.inj this).symm
  refine ⟨fun m h => ⟨atHeight_le_deepest hn (hat m h), ?_, ?_, hend m h⟩, ?_⟩
  · intro i m' hi hs
    exact atHeight_le_deepest hn (hat m' (h.tail ⟨i, hi, hs⟩))
  · intro i f m' hi hs
    obtain ⟨hf, hle⟩ := atHeight_fails hn hcalls (hat m h) hi hs
    refine ⟨?_, Nat.le_trans hle (atHeight_le_deepest hn (hat m h))⟩
    rintro rfl
    cases hf
  · intro steps failure hrun
    rcases fault_of_run hrun with ⟨l, hl⟩ | ⟨m, h, hm⟩
    · simp [hl]
    · rcases hm with ⟨he, hfinish⟩ | ⟨i, m', hi, hs⟩
      · rw [finish_error hfinish]
        refine ⟨by simp, fun hr n => ?_⟩
        have hone := hend m h he
        rw [hr] at hone
        obtain ⟨v, hv⟩ := eq_singleton_of_slots hone
        simp [finish, hv] at hfinish
      · obtain ⟨hf, -⟩ := atHeight_fails hn hcalls (hat m h) hi hs
        refine ⟨fun he => ?_, fun _ n he => ?_⟩ <;> rw [he] at hf <;> cases hf

/-- A loop with a jump back, a jump ahead and a label placed twice. -/
def twiceLabelled : Sequence where
  code := [.intConst 3, .label 0, .intConst 1, .arith .subtract .int, .dup .dup, .ifZero .ne 0,
    .goto 1, .label 1, .label 0, .convert .i2l, .convert .l2i, .invoke .static 1]
  pool := .ofList [.method (.box .int)]
  maxStack := 2
  maxLocals := 0
  locals := []
  resultType := .boxed .int

theorem twiceLabelled_within_heights :
    (measureHeights twiceLabelled.code twiceLabelled.pool 1).problem = none ∧
      (measureHeights twiceLabelled.code twiceLabelled.pool 1).maxStack = 2 ∧
      ∀ m, twiceLabelled.Reaches (.start 0) m → slots m.stack ≤ 2 := by
  have hp : (measureHeights twiceLabelled.code twiceLabelled.pool 1).problem = none := by
    decide +kernel
  have hm : (measureHeights twiceLabelled.code twiceLabelled.pool 1).maxStack = 2 := by
    decide +kernel
  have hd : (HeightWalk.walk twiceLabelled.pool .start 0 twiceLabelled.code).deepest ≤ 65535 := by
    decide +kernel
  have hc : twiceLabelled.CallsFit := by
    intro mode index entry m method hi he hm hf
    have hi : mode = .static ∧ index = 1 := by simpa [twiceLabelled] using hi
    obtain ⟨rfl, rfl⟩ := hi
    have hentry : twiceLabelled.pool.get? 1 = some (.method (.box .int)) := by decide +kernel
    rw [hentry] at he
    cases he
    cases hm
    have hbox : Method.find? (.box .int) = some (.box .int) := by decide +kernel
    rw [hbox] at hf
    cases hf
    simp [Method.isStatic]
  refine ⟨hp, hm, fun m h => ?_⟩
  rw [← hm]
  exact ((runs_within_heights twiceLabelled 1 hp hd hc).1 m h).1

end Sequence
end StackExpr
