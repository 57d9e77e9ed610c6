import Mathlib.Logic.Function.Basic
import StackExpr.Proofs.Emission
import StackExpr.Proofs.Heights
import StackExpr.Proofs.Typing

/-! Walks of emitted fragments that find nothing wrong.

A label is on record only after it was handed out, so each fragment finds its own labels unrecorded
and leaves the others alone. Calls, constants, conversions, containers and branches move the height
by what their stack effects say. -/
namespace StackExpr

namespace HeightWalk

variable {pool : Pool} {i : Instr} {a b code : List Instr} {c c' c'' : Option Nat}
  {f f' f'' : Nat → Option Nat} {h h' k l : Nat} {e : StackEffect} {w : HeightWalk} {p : Nat}

/-- Nothing is wrong so far; the walk is at a height, and labels have these heights on record. -/
structure Shows (c : Option Nat) (f : Nat → Option Nat) (w : HeightWalk) : Prop where
  current : w.current = c
  problem : w.problem = none
  recorded : ∀ l : Nat, w.recorded.lookup l = f l

/-- The code takes a walk on with nothing wrong. -/
def Walks (pool : Pool) (code : List Instr) (c : Option Nat) (f : Nat → Option Nat)
    (c' : Option Nat) (f' : Nat → Option Nat) : Prop :=
  ∀ (w : HeightWalk) (p : Nat), w.Shows c f → (walk pool w p code).Shows c' f'

theorem walks_nil : Walks pool [] c f c f := fun _ _ hw => hw

/-- Walks over code that follows other code go on where the first ends. -/
theorem Walks.append (ha : Walks pool a c f c' f') (hb : Walks pool b c' f' c'' f'') :
    Walks pool (a ++ b) c f c'' f'' := by
  intro w p hw
  rw [walk_append]
  exact hb _ _ (ha w p hw)

theorem Walks.cons (hi : Walks pool [i] c f c' f') (hb : Walks pool b c' f' c'' f'') :
    Walks pool (i :: b) c f c'' f'' := Walks.append (a := [i]) hi hb

/-- A height that a label is reached at goes on record, or is there already. -/
theorem Shows.arrive (hw : w.Shows c f) (hl : f l = none ∨ f l = some h) :
    (w.arrive p l h).Shows c (Function.update f l (some h)) := by
  have hr := hw.recorded l
  rcases hl with hl | hl
  · have he : w.arrive p l h = { w with recorded := (l, h) :: w.recorded } := by
      rw [HeightWalk.arrive, hr, hl]
    rw [he]
    refine ⟨hw.current, hw.problem, fun k => ?_⟩
    by_cases hk : k = l
    · subst hk
      simp
    · rw [Function.update_of_ne hk, ← hw.recorded]
      have : (k == l) = false := by simpa using hk
      simp only [List.lookup_cons, this]
  · have he : w.arrive p l h = w := by
      rw [HeightWalk.arrive, hr, hl]
      exact if_pos rfl
    rw [he, ← hl, Function.update_eq_self]
    exact hw

theorem step_eq_settle (hi : ∀ l, i ≠ .label l) (he : i.effect pool = .ok e)
    (hc : w.current = some h) : w.step pool p i = w.settle p i h e := by
  rw [step_eq_passInstr hi]
  simp only [passInstr, hc, effect, he]

theorem Shows.settle (hw : w.Shows (some h) f) (hp : h = k + e.pops) :
    (w.settle p i h e) =
      ({ w with deepest := max w.deepest (k + e.pushes) }.branch p i k).goOn i (k + e.pushes) := by
  subst hp
  simp only [HeightWalk.settle, checkPops, Nat.not_lt_of_le (Nat.le_add_left ..), if_false,
    Nat.add_sub_cancel]

/-- An instruction that neither places a label nor jumps moves the height by its effect. -/
theorem walks_plain (hp : i.isPlain = true) (he : i.effect pool = .ok e) (ha : h = k + e.pops)
    (hb : h' = k + e.pushes) : Walks pool [i] (some h) f (some h') f := by
  intro w p hw
  have hi : ∀ l, i ≠ .label l := by
    rintro l rfl
    cases hp
  have ht : i.target? = none := by cases i <;> first | rfl | cases hp
  change (w.step pool p i).Shows _ _
  rw [step_eq_settle hi he hw.current, hw.settle ha, branch, ht]
  refine ⟨?_, hw.problem, hw.recorded⟩
  subst hb
  cases i <;> first | rfl | cases hp

/-- A jump puts the height of its target on record and goes on. -/
theorem walks_jump (ht : i.target? = some l) (hg : ∀ l, i ≠ .goto l)
    (he : i.effect pool = .ok e) (ha : h = k + e.pops) (hb : h' = k + e.pushes)
    (hl : f l = none ∨ f l = some k) :
    Walks pool [i] (some h) f (some h') (Function.update f l (some k)) := by
  intro w p hw
  have hi : ∀ l, i ≠ .label l := by
    rintro l rfl
    cases ht
  change (w.step pool p i).Shows _ _
  rw [step_eq_settle hi he hw.current, hw.settle ha, branch, ht]
  have hs : Shows (some h) f { w with deepest := max w.deepest (k + e.pushes) } :=
    ⟨hw.current, hw.problem, hw.recorded⟩
  have harr := hs.arrive (p := p) hl
  refine ⟨?_, harr.problem, harr.recorded⟩
  subst hb
  cases i <;> first | rfl | exact absurd rfl (hg _)

theorem walks_goto (hl : f l = none ∨ f l = some h) :
    Walks pool [.goto l] (some h) f none (Function.update f l (some h)) := by
  intro w p hw
  change (w.step pool p (.goto l)).Shows _ _
  rw [step_eq_settle (e := ⟨0, 0⟩) (fun _ => Instr.noConfusion) rfl hw.current,
    hw.settle (k := h) rfl]
  have hs : Shows (some h) f { w with deepest := max w.deepest h } :=
    ⟨hw.current, hw.problem, hw.recorded⟩
  have harr := hs.arrive (p := p) hl
  exact ⟨rfl, harr.problem, harr.recorded⟩

theorem walks_label (hl : f l = none ∨ f l = some h) :
    Walks pool [.label l] (some h) f (some h) (Function.update f l (some h)) := by
  intro w p hw
  have he : walk pool w p [.label l] = w.arrive p l h := by
    simp only [walk, step, passLabel, hw.current]
  rw [he]
  exact hw.arrive hl

theorem update_recorded (hl : f l = some h) : Function.update f l (some h) = f := by
  rw [← hl, Function.update_eq_self]

/-- A jump back to a label leaves the record as it is. -/
theorem walks_goto_again (hl : f l = some h) : Walks pool [.goto l] (some h) f none f := by
  have hw : Walks pool [.goto l] (some h) f none (Function.update f l (some h)) :=
    walks_goto (.inr hl)
  rwa [update_recorded hl] at hw

theorem walks_label_again (hl : f l = some h) : Walks pool [.label l] (some h) f (some h) f := by
  have hw : Walks pool [.label l] (some h) f (some h) (Function.update f l (some h)) :=
    walks_label (.inr hl)
  rwa [update_recorded hl] at hw

/-- After a jump away the walk goes on at the height on record. -/
theorem walks_label_after (hl : f l = some h) : Walks pool [.label l] none f (some h) f := by
  intro w p hw
  have he : walk pool w p [.label l] = { w with current := some h } := by
    simp only [walk, step, passLabel, hw.current, hw.recorded, hl]
  rw [he]
  exact ⟨rfl, hw.problem, hw.recorded⟩

/-- Code with labels of its own, from one label up to another. -/
def Lifts (pool : Pool) (lo hi : Nat) (code : List Instr) (h h' : Nat) : Prop :=
  ∀ f : Nat → Option Nat, (∀ l, lo ≤ l → f l = none) →
    ∃ f', Walks pool code (some h) f (some h') f' ∧ (∀ l, l < lo → f' l = f l) ∧
      ∀ l, hi ≤ l → f' l = none

/-- Code that records no label. -/
def Moves (pool : Pool) (code : List Instr) (h h' : Nat) : Prop :=
  ∀ f, Walks pool code (some h) f (some h') f

variable {lo mid hi : Nat}

/-- Code that records no label fits between any two labels. -/
theorem Moves.lifts (hm : Moves pool code h h') (hle : lo ≤ hi) : Lifts pool lo hi code h h' :=
  fun f hf => ⟨f, hm f, fun _ _ => rfl, fun l hl => hf l (Nat.le_trans hle hl)⟩

theorem Moves.append {h'' : Nat} (ha : Moves pool a h h') (hb : Moves pool b h' h'') :
    Moves pool (a ++ b) h h'' := fun f => (ha f).append (hb f)

theorem Moves.cons {h'' : Nat} (hi : Moves pool [i] h h') (hb : Moves pool b h' h'') :
    Moves pool (i :: b) h h'' := fun f => (hi f).cons (hb f)

theorem moves_nil : Moves pool [] h h := fun _ => walks_nil

theorem moves_plain (hp : i.isPlain = true) (he : i.effect pool = .ok e) (ha : h = k + e.pops)
    (hb : h' = k + e.pushes) : Moves pool [i] h h' := fun _ => walks_plain hp he ha hb

/-- The labels of one fragment come before those of the next. -/
theorem Lifts.append {h'' : Nat} (ha : Lifts pool lo mid a h h') (hb : Lifts pool mid hi b h' h'')
    (hle : lo ≤ mid) : Lifts pool lo hi (a ++ b) h h'' := by
  intro f hf
  obtain ⟨f₁, hw₁, hlow₁, hhigh₁⟩ := ha f hf
  obtain ⟨f₂, hw₂, hlow₂, hhigh₂⟩ := hb f₁ hhigh₁
  refine ⟨f₂, hw₁.append hw₂, fun l hl => ?_, hhigh₂⟩
  rw [hlow₂ l (by omega), hlow₁ l hl]

/-- Labels handed out need not be used. -/
theorem Lifts.unlabelled (ha : Lifts pool (lo + 2) hi a h h') : Lifts pool lo hi a h h' := by
  intro f hf
  obtain ⟨f', hw, hlow, hhigh⟩ := ha f fun l hl => hf l (by omega)
  exact ⟨f', hw, fun l hl => hlow l (by omega), hhigh⟩

theorem Lifts.tail {h'' : Nat} (ha : Lifts pool lo hi a h h') (hb : Moves pool b h' h'')
    (hle : lo ≤ hi) : Lifts pool lo hi (a ++ b) h h'' := ha.append (hb.lifts (Nat.le_refl hi)) hle

end HeightWalk

namespace Emit

open HeightWalk

variable {s : Sequence} {es : EmitState} {h h' k n : Nat} {mode : InvokeMode} {ref : MethodRef}

/-- A call takes its arguments and its receiver, and puts its result. -/
theorem moves_call {a r : Nat} (hw : (call mode ref es).2.Within s)
    (hd : Descriptor.slots? ref.descriptor = some (a, r))
    (ha : h = n + (a + if mode = .static then 0 else 1)) (hb : h' = n + r) :
    Moves s.pool (call mode ref es).1 h h' := by
  have hm : s.pool.get? (entry (if mode = .interface then .interfaceMethod ref else .method ref)
      es).1 >>= PoolEntry.method? = some ref := by
    rw [get?_entry hw]
    split_ifs <;> rfl
  have hs : s.pool.methodSlots (entry (if mode = .interface then .interfaceMethod ref
      else .method ref) es).1 = .ok (a, r) := by
    simp only [Pool.methodSlots, hm, hd]
  have he : (Instr.invoke mode (entry (if mode = .interface then .interfaceMethod ref
      else .method ref) es).1).effect s.pool =
      .ok ⟨a + if mode = .static then 0 else 1, r⟩ := by
    simp only [Instr.effect, hs]
    rfl
  exact moves_plain rfl he ha hb

/-- The descriptors of the wrappers count the slots of their kinds. -/
theorem slots?_box (k : Kind) :
    Descriptor.slots? (MethodRef.box k).descriptor = some (k.stackKind.size, 1) := by
  cases k <;> decide +kernel

theorem slots?_accessor (owner : String) (k : Kind) :
    Descriptor.slots? (MethodRef.accessor owner k).descriptor = some (0, k.stackKind.size) := by
  have h : Descriptor.slots? ("()" ++ k.descriptor) = some (0, k.stackKind.size) := by
    cases k <;> decide +kernel
  exact h

theorem moves_int (v : Int32) (h : Nat) : Moves s.pool (int v es).1 h (h + 1) := by
  unfold int
  split_ifs <;> exact moves_plain (e := ⟨0, 1⟩) rfl rfl rfl rfl

theorem moves_long (v : Int64) (h : Nat) : Moves s.pool (long v es).1 h (h + 2) := by
  unfold long
  split_ifs <;> exact moves_plain (e := ⟨0, 2⟩) rfl rfl rfl rfl

/-- A constant rises by the slots of its value. -/
theorem moves_constant (c : Constant) (h : Nat) :
    Moves s.pool (constant c es).1 h (h + c.value.stackKind.size) := by
  cases c with
  | int v => exact moves_int v h
  | long v => exact moves_long v h
  | float v =>
    rw [constant]
    unfold float
    split_ifs <;> exact moves_plain (e := ⟨0, 1⟩) rfl rfl rfl rfl
  | double v =>
    rw [constant]
    unfold double
    split_ifs <;> exact moves_plain (e := ⟨0, 2⟩) rfl rfl rfl rfl
  | boolean b => exact moves_plain (e := ⟨0, 1⟩) rfl rfl rfl rfl
  | string text => exact moves_plain (e := ⟨0, 1⟩) rfl rfl rfl rfl
  | null => exact moves_plain (e := ⟨0, 1⟩) rfl rfl rfl rfl

theorem moves_box (j : Kind) (hw : (box j es).2.Within s) (h : Nat) :
    Moves s.pool (box j es).1 (h + j.stackKind.size) (h + 1) :=
  moves_call hw (slots?_box j) rfl rfl

theorem moves_unbox (j : Kind) (hw : (unbox j es).2.Within s) (h : Nat) :
    Moves s.pool (unbox j es).1 (h + 1) (h + j.stackKind.size) :=
  moves_call hw (slots?_accessor _ j) rfl rfl

/-- A conversion moves from the slots of its source to those of its target. -/
theorem moves_convert (c : PrimConv) {j k : StackKind} (hj : c.source = j) (hk : c.target = k)
    (h : Nat) : Moves s.pool [.convert c] (h + j.size) (h + k.size) :=
  moves_plain (e := ⟨c.source.size, c.target.size⟩) rfl rfl (by rw [hj]) (by rw [hk])

theorem moves_narrow (k : Kind) (h : Nat) :
    Moves s.pool ((PrimConv.narrow? k).map Instr.convert).toList (h + k.stackKind.size)
      (h + k.stackKind.size) := by
  cases k with
  | byte | short | char => exact moves_convert _ rfl rfl h
  | _ => exact moves_nil

theorem moves_between (j k : Kind) (h : Nat) :
    Moves s.pool ((PrimConv.between? j.stackKind k.stackKind).map Instr.convert).toList
      (h + j.stackKind.size) (h + k.stackKind.size) := by
  cases j <;> cases k <;> first | exact moves_nil | exact moves_convert _ rfl rfl h

theorem moves_change (j k : Kind) (h : Nat) :
    Moves s.pool (change j k) (h + j.stackKind.size) (h + k.stackKind.size) := by
  rw [change]
  split_ifs with he
  · rw [he]
    exact moves_nil
  · exact (moves_between j k h).append moves_nil
  · exact (moves_between j k h).append (moves_narrow k h)

theorem moves_numberValue (k : Kind) (hw : (numberValue k es).2.Within s) (h : Nat) :
    Moves s.pool (numberValue k es).1 (h + 1) (h + k.stackKind.size) := by
  unfold numberValue at hw ⊢
  split_ifs at hw ⊢ with hc
  · subst hc
    exact Moves.append (moves_call hw (slots?_accessor _ .int) rfl rfl)
      (moves_convert .i2c rfl rfl h)
  · exact moves_call hw (slots?_accessor _ k) rfl rfl

theorem moves_checkCast (o : Options) (t t' : Ty) (h : Nat) :
    Moves s.pool (checkCast o t t' es).1 (h + 1) (h + 1) := by
  unfold checkCast
  split_ifs
  · exact moves_nil
  · exact moves_plain (e := ⟨1, 1⟩) rfl rfl rfl rfl

/-- The code of a conversion step exchanges the slots of its source for those of its result. -/
theorem moves_conversion {o : Options} {t : Ty} {step : Conversion} (ht : step.Takes false t)
    (hw : (conversion o t step es).2.Within s) (h : Nat) :
    Moves s.pool (conversion o t step es).1 (h + t.stackKind.size)
      (h + step.result.stackKind.size) := by
  have hone {t : Ty} (hp : t.isPrimitive = false) : t.stackKind.size = 1 := by
    cases t <;> first | rfl | cases hp
  cases step with
  | unbox k =>
    cases ht
    exact moves_unbox k hw h
  | box k =>
    cases ht
    exact moves_box k hw h
  | change j k =>
    cases ht.1
    exact moves_change j k h
  | numberValue k =>
    cases ht.1
    exact moves_numberValue k hw h
  | checkCast t' =>
    have hsource : t.isPrimitive = false := by
      obtain ⟨-, -, -, rfl | ⟨rfl, -⟩ | ⟨x, y, rfl, -⟩⟩ := ht <;> rfl
    rw [hone hsource, show (Conversion.checkCast t').result = t' from rfl, hone ht.1]
    exact moves_checkCast o t t' h
  | stringify =>
    rw [hone ht]
    exact moves_call (n := h) hw (show Descriptor.slots? _ = some (1, 1) by decide +kernel) rfl rfl

theorem moves_load (k : StackKind) (slot h : Nat) : Moves s.pool [.load k slot] h (h + k.size) :=
  moves_plain (e := ⟨0, k.size⟩) rfl rfl rfl rfl

theorem moves_store (k : StackKind) (slot h : Nat) : Moves s.pool [.store k slot] (h + k.size) h :=
  moves_plain (e := ⟨k.size, 0⟩) rfl rfl rfl rfl

theorem moves_dupFor (k : StackKind) (h : Nat) :
    Moves s.pool [dupFor k] (h + k.size) (h + k.size + k.size) := by
  cases k with
  | long | double => exact moves_plain (e := ⟨2, 4⟩) rfl rfl rfl rfl
  | _ => exact moves_plain (e := ⟨1, 2⟩) rfl rfl rfl rfl

/-- A new value is made of the old one, and a copy of one of the two stays. -/
theorem moves_recompute {c : List Instr} (k : StackKind) (slot : Nat) (before : Bool)
    (hc : ∀ h, Moves s.pool c (h + k.size) (h + k.size)) (h : Nat) :
    Moves s.pool ([.load k slot] ++ (if before then [] else [dupFor k]) ++ c ++
      (if before then [dupFor k] else []) ++ [.store k slot]) h (h + k.size) := by
  cases before with
  | true =>
    exact ((((moves_load k slot h).append moves_nil).append (hc h)).append
      (moves_dupFor k h)).append (moves_store k slot _)
  | false =>
    exact ((((moves_load k slot h).append (moves_dupFor k h)).append (hc _)).append
      moves_nil).append (moves_store k slot _)

theorem moves_bump (k : Kind) (delta : Int8) (h : Nat) :
    Moves s.pool (bump k delta) (h + k.stackKind.size) (h + k.stackKind.size) := by
  have hone (h : Nat) : Moves s.pool [one k.stackKind] h (h + k.stackKind.size) := by
    cases k with
    | long | double => exact moves_plain (e := ⟨0, 2⟩) rfl rfl rfl rfl
    | _ => exact moves_plain (e := ⟨0, 1⟩) rfl rfl rfl rfl
  have harith : Moves s.pool [.arith (if delta > 0 then .add else .subtract) k.stackKind]
      (h + k.stackKind.size + k.stackKind.size) (h + k.stackKind.size) := by
    split_ifs <;>
      exact moves_plain (e := ⟨k.stackKind.size + k.stackKind.size, k.stackKind.size⟩) rfl rfl
        (Nat.add_assoc ..) rfl
  exact ((hone _).cons harith).append (moves_narrow k h)

/-- An update leaves the slots of the variable's type. -/
theorem moves_update {x : Local} {delta : Int8} {before : Bool} (ht : x.type.isNumeric = true)
    (hw : (update x delta before es).2.Within s) (h : Nat) :
    Moves s.pool (update x delta before es).1 h (h + x.type.stackKind.size) := by
  obtain ⟨name, slot, type⟩ := x
  cases type with
  | prim k =>
    have hint : Moves s.pool [.increment slot delta.toInt16] h h ∧
        Moves s.pool [.increment slot delta.toInt16] (h + 1) (h + 1) :=
      ⟨moves_plain (e := ⟨0, 0⟩) rfl rfl rfl rfl, moves_plain (e := ⟨0, 0⟩) rfl rfl rfl rfl⟩
    cases k with
    | int =>
      cases before with
      | true => exact hint.1.cons (moves_load .int slot h)
      | false => exact (moves_load .int slot h).cons hint.2
    | boolean => cases ht
    | _ => exact moves_recompute _ slot before (moves_bump _ delta) h
  | boxed k =>
    change (updateBoxed k slot delta before es).2.Within s at hw
    change Moves s.pool (updateBoxed k slot delta before es).1 h (h + 1)
    rw [updateBoxed_eq] at hw ⊢
    refine moves_recompute .reference slot before (fun h => ?_) h
    exact (moves_unbox k (hw.of_grows (plain_call _).1) h).append
      ((moves_bump k delta h).append (moves_box k hw h))
  | _ => cases ht

theorem moves_fixedKey {c : Constant} {stored : Ty} (hk : c.Keyed stored)
    (hw : (fixedKey c stored es).2.Within s) (h : Nat) :
    Moves s.pool (fixedKey c stored es).1 h (h + 1) := by
  rcases hk with ⟨k, rfl, hk, -⟩ | ⟨rfl, text, rfl⟩
  · have hc : Moves s.pool (constant c es).1 h (h + c.value.stackKind.size) := moves_constant c h
    rw [hk.stackKind] at hc
    exact hc.append (moves_box k hw h)
  · exact moves_constant (.string text) h

theorem moves_new {cls : String} (hw : (new cls es).2.Within s) (h : Nat) :
    Moves s.pool (new cls es).1 h (h + 1) := by
  have hnew : Moves s.pool [.new (entry (.classRef cls) es).1] h (h + 1) :=
    moves_plain (e := ⟨0, 1⟩) rfl rfl rfl rfl
  have hdup : Moves s.pool [.dup .dup] (h + 1) (h + 1 + 1) := moves_dupFor .reference h
  have hd : Descriptor.slots? "()V" = some (0, 0) := by decide +kernel
  exact (hnew.cons hdup).append (moves_call (n := h + 1) hw hd rfl rfl)

/-- Puts an entry, and drops what the key had before. -/
theorem moves_put {owner : String} (hw : (call .virtual (.put owner) es).2.Within s) (h : Nat) :
    Moves s.pool ((call .virtual (.put owner) es).1 ++ [.pop]) (h + 3) h := by
  have hd : Descriptor.slots? "(Ljava/lang/Object;Ljava/lang/Object;)Ljava/lang/Object;" =
      some (2, 1) := by decide +kernel
  exact (moves_call (n := h) hw hd rfl rfl).append (moves_plain (e := ⟨1, 0⟩) rfl rfl rfl rfl)

theorem moves_add {owner : String} (hw : (call .virtual (.add owner) es).2.Within s) (h : Nat) :
    Moves s.pool ((call .virtual (.add owner) es).1 ++ [.pop]) (h + 2) h := by
  have hd : Descriptor.slots? "(Ljava/lang/Object;)Z" = some (1, 1) := by decide +kernel
  exact (moves_call (n := h) hw hd rfl rfl).append (moves_plain (e := ⟨1, 0⟩) rfl rfl rfl rfl)

/-- A receiver is exchanged for what it answers. -/
theorem moves_ask {m : MethodRef} (hw : (call .interface m es).2.Within s)
    (hd : Descriptor.slots? m.descriptor = some (0, 1)) (h : Nat) :
    Moves s.pool (call .interface m es).1 (h + 1) (h + 1) :=
  moves_call (n := h) hw hd rfl rfl

/-- Opening a spread takes the source off, and its iterator goes into a slot. -/
theorem moves_openSpread {t : Ty} {slot : Nat} (hw : (openSpread t slot es).2.Within s)
    (h : Nat) : Moves s.pool (openSpread t slot es).1 (h + 1) h := by
  have walk {es : EmitState}
      (hw : (call .interface .iterator (call .interface .entrySet es).2).2.Within s) :
      Moves s.pool ((call .interface .entrySet es).1 ++
        (call .interface .iterator (call .interface .entrySet es).2).1 ++
        [.store .reference slot]) (h + 1) h :=
    ((moves_ask (hw.of_grows (plain_call _).1) (by decide +kernel) h).append
      (moves_ask hw (by decide +kernel) h)).append (moves_store .reference slot h)
  have hcast (index : Nat) : Moves s.pool [.checkCast index] (h + 1) (h + 1) :=
    moves_plain (e := ⟨1, 1⟩) rfl rfl rfl rfl
  cases t with
  | record k v => exact walk hw
  | _ => exact (hcast _).append (walk hw)

/-- The loop comes back to its start at the height it began with, and ends at it. -/
theorem walks_spreadLoop {o : Options} {slot head done : Nat} {f : Nat → Option Nat}
    (hw : (spreadLoop o slot head done es).2.Within s) (h : Nat) (hne : head ≠ done)
    (hhead : f head = none) (hdone : f done = none) :
    Walks s.pool (spreadLoop o slot head done es).1 (some (h + 1)) f (some (h + 1))
      (Function.update (Function.update f head (some (h + 1))) done (some (h + 1))) := by
  have hgetValue := hw.of_grows (plain_call _).1
  have hgetKey := hgetValue.of_grows (plain_call _).1
  have hentry := hgetKey.of_grows (plain_call _).1
  have hnext := hentry.of_grows (grows_entry _ _)
  have hhas := hnext.of_grows (plain_call _).1
  generalize hf₁ : Function.update f head (some (h + 1)) = f₁
  generalize hf₂ : Function.update f₁ done (some (h + 1)) = f₂
  have hf₁done : f₁ done = none := by rw [← hf₁, Function.update_of_ne hne.symm, hdone]
  have hf₂done : f₂ done = some (h + 1) := by rw [← hf₂, Function.update_self]
  have hf₂head : f₂ head = some (h + 1) := by
    rw [← hf₂, Function.update_of_ne hne, ← hf₁, Function.update_self]
  have hback : Walks s.pool [.goto head] (some (h + 1)) f₂ none f₂ := walks_goto_again hf₂head
  -- The test of a round, then the entry and its parts, and the way back.
  have htest : Walks s.pool [.label head, .load .reference slot] (some (h + 1)) f
      (some (h + 2)) f₁ := by
    rw [← hf₁]
    exact (walks_label (.inl hhead)).cons (moves_load .reference slot (h + 1) _)
  have hbranch : Walks s.pool [.ifZero .eq done, .dup .dup, .load .reference slot]
      (some (h + 2)) f₁ (some (h + 3)) f₂ := by
    rw [← hf₂]
    exact (walks_jump (e := ⟨1, 0⟩) rfl (fun _ => Instr.noConfusion) rfl rfl rfl (.inl hf₁done)).cons
      ((moves_dupFor .reference h _).cons (moves_load .reference slot (h + 2) _))
  have hpair (index : Nat) : Moves s.pool [.checkCast index, .dup .dup] (h + 3) (h + 4) :=
    Moves.cons (moves_plain (e := ⟨1, 1⟩) rfl rfl rfl rfl)
      (moves_dupFor .reference (h + 2))
  have hswap : Moves s.pool [.swap] (h + 4) (h + 4) := moves_plain (e := ⟨2, 2⟩) rfl rfl rfl rfl
  have hpop : Moves s.pool [.pop] (h + 2) (h + 1) := moves_plain (e := ⟨1, 0⟩) rfl rfl rfl rfl
  have hput : Moves s.pool (call .virtual (.put o.container) _).1 (h + 4) (h + 2) :=
    moves_call (n := h + 1) hw
      (show Descriptor.slots? "(Ljava/lang/Object;Ljava/lang/Object;)Ljava/lang/Object;" =
        some (2, 1) by decide +kernel) rfl rfl
  exact ((((((((htest.append (moves_ask hhas (by decide +kernel) (h + 1) _)).append
    hbranch).append (moves_ask hnext (by decide +kernel) (h + 2) _)).append (hpair _ _)).append
    (moves_ask hgetKey (by decide +kernel) (h + 3) _)).append (hswap _)).append
    (moves_ask hgetValue (by decide +kernel) (h + 3) _)).append (hput _)).append
    ((hpop _).cons (hback.cons (walks_label_after hf₂done)))

/-- Both ways to the end leave one value. -/
theorem walks_outcomes {first last : Bool} {yes done : Nat} {f : Nat → Option Nat}
    (hyes : f yes = some h) (hdone : f done = none) (hne : yes ≠ done) :
    Walks s.pool [boolean first, .goto done, .label yes, boolean last, .label done] (some h) f
      (some (h + 1)) (Function.update f done (some (h + 1))) := by
  have hbool (b : Bool) : Moves s.pool [boolean b] h (h + 1) :=
    moves_plain (e := ⟨0, 1⟩) rfl rfl rfl rfl
  refine (hbool first _).cons ((walks_goto (.inl hdone)).cons ?_)
  refine (walks_label_after (h := h) ?_).cons ((hbool last _).cons (walks_label_again ?_))
  · rw [Function.update_of_ne hne, hyes]
  · rw [Function.update_self]

/-- A jump on what a fragment left, and both its outcomes. -/
theorem lifts_choice {a : List Instr} {j : List Instr} {first hi : Nat}
    (ha : Lifts s.pool (first + 2) hi a h h') (hle : first + 2 ≤ hi)
    (hj : ∀ f : Nat → Option Nat, f first = none →
      Walks s.pool j (some h') f (some n) (Function.update f first (some n))) :
    Lifts s.pool first hi (a ++ j ++ branchResult first (first + 1)) h (n + 1) := by
  intro f hf
  obtain ⟨f₁, hwalk, hlow, hhigh⟩ := ha f fun l hl => hf l (by omega)
  have hyes : f₁ first = none := by rw [hlow _ (by omega), hf _ (by omega)]
  have hdone : f₁ (first + 1) = none := by rw [hlow _ (by omega), hf _ (by omega)]
  have hresult : Walks s.pool (branchResult first (first + 1)) (some n)
      (Function.update f₁ first (some n)) (some (n + 1)) _ :=
    walks_outcomes (Function.update_self ..)
      (by rw [Function.update_of_ne (by omega), hdone]) (by omega)
  refine ⟨_, (hwalk.append (hj f₁ hyes)).append hresult, fun l hl => ?_, fun l hl => ?_⟩
  · rw [Function.update_of_ne (by omega), Function.update_of_ne (by omega), hlow l (by omega)]
  · rw [Function.update_of_ne (by omega), Function.update_of_ne (by omega), hhigh l hl]

/-- The second operand stands between two jumps to one label; both outcomes leave one value. -/
theorem lifts_logical {a b : List Instr} {first mid hi : Nat} {c : Condition} {x y : Bool}
    (ha : Lifts s.pool (first + 2) mid a h (h + 1)) (hb : Lifts s.pool mid hi b h (h + 1))
    (hmid : first + 2 ≤ mid) (hhi : mid ≤ hi) :
    Lifts s.pool first hi (a ++ [.ifZero c first] ++ b ++ [.ifZero c first, boolean x,
      .goto (first + 1), .label first, boolean y, .label (first + 1)]) h (h + 1) := by
  intro f hf
  obtain ⟨f₁, hwalk₁, hlow₁, hhigh₁⟩ := ha f fun l hl => hf l (by omega)
  have hfirst : f₁ first = none := by rw [hlow₁ _ (by omega), hf _ (by omega)]
  have hjump : Walks s.pool [.ifZero c first] (some (h + 1)) f₁ (some h) _ :=
    walks_jump (e := ⟨1, 0⟩) rfl (fun _ => Instr.noConfusion) rfl rfl rfl (.inl hfirst)
  obtain ⟨f₂, hwalk₂, hlow₂, hhigh₂⟩ := hb (Function.update f₁ first (some h)) fun l hl => by
    rw [Function.update_of_ne (by omega), hhigh₁ l hl]
  have hdecided : f₂ first = some h := by rw [hlow₂ _ (by omega), Function.update_self]
  have hdone : f₂ (first + 1) = none := by
    rw [hlow₂ _ (by omega), Function.update_of_ne (by omega), hlow₁ _ (by omega), hf _ (by omega)]
  have hagain : Walks s.pool [.ifZero c first] (some (h + 1)) f₂ (some h) f₂ := by
    have hw : Walks s.pool [.ifZero c first] (some (h + 1)) f₂ (some h) _ :=
      walks_jump (e := ⟨1, 0⟩) rfl (fun _ => Instr.noConfusion) rfl rfl rfl (.inr hdecided)
    rwa [update_recorded hdecided] at hw
  refine ⟨_, ((hwalk₁.append hjump).append hwalk₂).append
    (hagain.cons (walks_outcomes hdecided hdone (by omega))), fun l hl => ?_, fun l hl => ?_⟩
  · rw [Function.update_of_ne (by omega), hlow₂ l (by omega), Function.update_of_ne (by omega),
      hlow₁ l (by omega)]
  · rw [Function.update_of_ne (by omega), hhigh₂ l hl]

/-- Both branches leave as much as the other. -/
theorem lifts_conditional {a b c : List Instr} {first m₁ m₂ hi : Nat}
    (ha : Lifts s.pool (first + 2) m₁ a h (h + 1)) (hb : Lifts s.pool m₁ m₂ b h h')
    (hc : Lifts s.pool m₂ hi c h h') (hle : first + 2 ≤ m₁) (hle₁ : m₁ ≤ m₂) :
    Lifts s.pool first hi (a ++ [.ifZero .eq first] ++ b ++ [.goto (first + 1), .label first] ++
      c ++ [.label (first + 1)]) h h' := by
  intro f hf
  obtain ⟨f₁, hwalk₁, hlow₁, hhigh₁⟩ := ha f fun l hl => hf l (by omega)
  have hother : f₁ first = none := by rw [hlow₁ _ (by omega), hf _ (by omega)]
  have hjump : Walks s.pool [.ifZero .eq first] (some (h + 1)) f₁ (some h) _ :=
    walks_jump (e := ⟨1, 0⟩) rfl (fun _ => Instr.noConfusion) rfl rfl rfl (.inl hother)
  obtain ⟨f₂, hwalk₂, hlow₂, hhigh₂⟩ := hb (Function.update f₁ first (some h)) fun l hl => by
    rw [Function.update_of_ne (by omega), hhigh₁ l hl]
  have hdone : f₂ (first + 1) = none := by
    rw [hlow₂ _ (by omega), Function.update_of_ne (by omega), hlow₁ _ (by omega), hf _ (by omega)]
  have hback : Function.update f₂ (first + 1) (some h') first = some h := by
    rw [Function.update_of_ne (by omega), hlow₂ _ (by omega), Function.update_self]
  have hswitch : Walks s.pool [.goto (first + 1), .label first] (some h') f₂ (some h) _ :=
    (walks_goto (.inl hdone)).cons (walks_label_after hback)
  obtain ⟨f₃, hwalk₃, hlow₃, hhigh₃⟩ := hc (Function.update f₂ (first + 1) (some h'))
    fun l hl => by rw [Function.update_of_ne (by omega), hhigh₂ l hl]
  have hend : f₃ (first + 1) = some h' := by rw [hlow₃ _ (by omega), Function.update_self]
  refine ⟨f₃, ((((hwalk₁.append hjump).append hwalk₂).append hswitch).append hwalk₃).append
    (walks_label_again hend), fun l hl => ?_, hhigh₃⟩
  rw [hlow₃ l (by omega), Function.update_of_ne (by omega), hlow₂ l (by omega),
    Function.update_of_ne (by omega), hlow₁ l (by omega)]

/-- A spread leaves the stack as high as it found it, with the map on top. -/
theorem lifts_spread {a : List Instr} {first slot : Nat} {o : Options}
    (ha : Lifts s.pool (first + 2) es.nextLabel a (h + 1) (h + 1)) (hle : first + 2 ≤ es.nextLabel)
    (hw : (spreadLoop o slot first (first + 1) es).2.Within s) :
    Lifts s.pool first (spreadLoop o slot first (first + 1) es).2.nextLabel
      (a ++ (spreadLoop o slot first (first + 1) es).1) (h + 1) (h + 1) := by
  intro f hf
  have hgrows := (grows_spreadLoop o slot first (first + 1) es).labels
  obtain ⟨f₁, hwalk, hlow, hhigh⟩ := ha f fun l hl => hf l (by omega)
  have hhead : f₁ first = none := by rw [hlow _ (by omega), hf _ (by omega)]
  have hdone : f₁ (first + 1) = none := by rw [hlow _ (by omega), hf _ (by omega)]
  refine ⟨_, hwalk.append (walks_spreadLoop hw h (by omega) hhead hdone), fun l hl => ?_,
    fun l hl => ?_⟩
  · rw [Function.update_of_ne (by omega), Function.update_of_ne (by omega), hlow l (by omega)]
  · rw [Function.update_of_ne (by omega), Function.update_of_ne (by omega), hhigh l (by omega)]

end Emit

end StackExpr
