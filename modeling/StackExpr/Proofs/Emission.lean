import Mathlib.Data.List.Nodup
import Mathlib.Tactic.Common
import StackExpr.Emit.Unit
import StackExpr.Proofs.Runs

/-! What emission hands out.

Pool entries stay where they are once added. A fragment places labels of its own, each once, and
jumps to no others. -/
namespace StackExpr

namespace Pool

/-- An entry keeps its index while the pool grows. -/
theorem get?_of_prefix {p p' : Pool} {i : Nat} {e : PoolEntry} (h : p.entries <+: p'.entries)
    (hi : p.get? i = some e) : p'.get? i = some e := by
  cases i with
  | zero => cases hi
  | succ i =>
    obtain ⟨rest, hr⟩ := h
    have hlt : i < p.entries.length := (List.getElem?_eq_some_iff.mp hi).1
    simp only [get?, ← hr] at hi ⊢
    rw [List.getElem?_append_left hlt, hi]

theorem prefix_add (p : Pool) (e : PoolEntry) : p.entries <+: (p.add e).2.entries := by
  rw [add]
  split
  · exact List.prefix_rfl
  · exact List.prefix_append ..

/-- A pool entry is found under the index it was added at. -/
theorem get?_add (p : Pool) (e : PoolEntry) : (p.add e).2.get? (p.add e).1 = some e := by
  simp only [add, get?]
  split
  · next hm => simp [List.idxOf_lt_length_of_mem hm]
  · next hm => simp [List.idxOf_eq_length hm]

end Pool

namespace EmitState

/-- What was handed out stays handed out. -/
structure Grows (es es' : EmitState) : Prop where
  pool : es.pool.entries <+: es'.pool.entries
  labels : es.nextLabel ≤ es'.nextLabel
  locals : es.nextLocal ≤ es'.nextLocal

/-- The sequence has all the entries and slots handed out so far. -/
structure Within (s : Sequence) (es : EmitState) : Prop where
  pool : es.pool.entries <+: s.pool.entries
  locals : es.nextLocal ≤ s.maxLocals

/-- The state after two labels are handed out. -/
def twoLabels (es : EmitState) : EmitState := { es with nextLabel := es.nextLabel + 2 }

/-- The state after a scratch slot is handed out. -/
def oneLocal (es : EmitState) : EmitState := { es with nextLocal := es.nextLocal + 1 }

variable {s : Sequence} {es es' es'' : EmitState}

theorem Grows.refl (es : EmitState) : es.Grows es := ⟨List.prefix_rfl, Nat.le_refl _, Nat.le_refl _⟩

/-- Emission never takes back what it handed out. -/
theorem Grows.trans (h : es.Grows es') (h' : es'.Grows es'') : es.Grows es'' :=
  ⟨h.pool.trans h'.pool, Nat.le_trans h.labels h'.labels, Nat.le_trans h.locals h'.locals⟩

theorem Within.of_grows (h : es'.Within s) (hg : es.Grows es') : es.Within s :=
  ⟨hg.pool.trans h.pool, Nat.le_trans hg.locals h.locals⟩

end EmitState

namespace Instr

def placesAt (l : Nat) : Instr → Nat
  | label n => if l = n then 1 else 0
  | _ => 0

def jumpsTo (l : Nat) : Instr → Nat
  | ifZero _ n | ifInt _ n | ifNull n | ifNonNull n | goto n => if l = n then 1 else 0
  | _ => 0

/-- How often code places a label. -/
def placing (l : Nat) : List Instr → Nat
  | [] => 0
  | i :: rest => i.placesAt l + placing l rest

/-- How often code jumps to a label. -/
def jumping (l : Nat) : List Instr → Nat
  | [] => 0
  | i :: rest => i.jumpsTo l + jumping l rest

/-- Neither a label nor a jump. -/
def isPlain : Instr → Bool
  | label _ | ifZero _ _ | ifInt _ _ | ifNull _ | ifNonNull _ | goto _ => false
  | _ => true

variable {l : Nat} {i : Instr} {a b code : List Instr}

@[simp] theorem placing_append : placing l (a ++ b) = placing l a + placing l b := by
  induction a with
  | nil => exact (Nat.zero_add _).symm
  | cons i rest ih => simp [placing, ih, Nat.add_assoc]

@[simp] theorem jumping_append : jumping l (a ++ b) = jumping l a + jumping l b := by
  induction a with
  | nil => exact (Nat.zero_add _).symm
  | cons i rest ih => simp [jumping, ih, Nat.add_assoc]

theorem placing_of_plain (h : code.all isPlain = true) : placing l code = 0 := by
  induction code with
  | nil => rfl
  | cons i rest ih =>
    simp only [List.all_cons, Bool.and_eq_true] at h
    rw [placing, ih h.2]
    cases i <;> first | rfl | cases h.1

theorem jumping_of_plain (h : code.all isPlain = true) : jumping l code = 0 := by
  induction code with
  | nil => rfl
  | cons i rest ih =>
    simp only [List.all_cons, Bool.and_eq_true] at h
    rw [jumping, ih h.2]
    cases i <;> first | rfl | cases h.1

theorem placing_eq_count (code : List Instr) : placing l code = (code.filterMap placed?).count l := by
  induction code with
  | nil => rfl
  | cons i rest ih =>
    cases i with
    | label n =>
      simp only [placing, placesAt, List.filterMap_cons, placed?, List.count_cons, ih, beq_iff_eq]
      rw [Nat.add_comm]
      by_cases he : l = n <;> simp [he, eq_comm]
    | _ => exact (Nat.zero_add _).trans ih

/-- Labels that are each placed once at most have one place each. -/
theorem nodup_of_placing (h : ∀ l, placing l code ≤ 1) : (code.filterMap placed?).Nodup :=
  List.nodup_iff_count_le_one.mpr fun l => placing_eq_count (l := l) code ▸ h l

/-- A label that is placed has a place in the code. -/
theorem exists_of_placing (h : 0 < placing l code) : ∃ p : Nat, code[p]? = some (.label l) := by
  rw [placing_eq_count, List.count_pos_iff, List.mem_filterMap] at h
  obtain ⟨i, hi, hl⟩ := h
  obtain ⟨p, hp⟩ := List.getElem?_of_mem hi
  refine ⟨p, hp.trans ?_⟩
  cases i <;> cases hl
  rfl

theorem jumping_pos (hi : i ∈ code) (ht : i.target? = some l) : 0 < jumping l code := by
  induction code with
  | nil => cases hi
  | cons j rest ih =>
    rw [jumping]
    rcases List.mem_cons.mp hi with rfl | hr
    · have : i.jumpsTo l = 1 := by cases i <;> cases ht <;> exact if_pos rfl
      omega
    · have := ih hr
      omega

end Instr

namespace Emit

open Instr

/-- Code emitted between two states. -/
structure Fragment (es : EmitState) (c : List Instr) (es' : EmitState) : Prop where
  grows : es.Grows es'
  once : ∀ l : Nat, placing l c ≤ 1
  own : ∀ l : Nat, placing l c = 0 ∨ es.nextLabel ≤ l ∧ l < es'.nextLabel
  linked : ∀ l : Nat, jumping l c = 0 ∨ 0 < placing l c

/-- Emission of code without labels or jumps. -/
def Plain (x : Emit (List Instr)) : Prop :=
  ∀ es, es.Grows (x es).2 ∧ (x es).1.all isPlain = true

variable {es es' es'' : EmitState} {a b c : List Instr} {x y : Emit (List Instr)}

/-- Fragments emitted one after the other are one fragment. -/
theorem Fragment.append (h : Fragment es a es') (h' : Fragment es' b es'') :
    Fragment es (a ++ b) es'' := by
  refine ⟨h.grows.trans h'.grows, ?_, ?_, ?_⟩ <;> intro l <;>
    have ha := h.once l <;> have hb := h'.once l <;> have := h.own l <;> have := h'.own l <;>
    have := h.grows.labels <;> have := h'.grows.labels <;> have := h.linked l <;>
    have := h'.linked l <;> simp only [placing_append, jumping_append] <;> omega

theorem Fragment.of_plain (h : es.Grows es') (hc : c.all isPlain = true) :
    Fragment es c es' :=
  ⟨h, fun _ => by rw [placing_of_plain hc]; omega, fun _ => .inl (placing_of_plain hc),
    fun _ => .inl (jumping_of_plain hc)⟩

theorem Fragment.tail (h : Fragment es a es') (hc : c.all isPlain = true) :
    Fragment es (a ++ c) es' := h.append (.of_plain (.refl _) hc)

theorem Plain.fragment (h : Plain x) (es : EmitState) : Fragment es (x es).1 (x es).2 :=
  .of_plain (h es).1 (h es).2

theorem grows_entry (e : PoolEntry) (es : EmitState) : es.Grows (entry e es).2 :=
  ⟨Pool.prefix_add .., Nat.le_refl _, Nat.le_refl _⟩

/-- An entry is found under the index it was given. -/
theorem get?_entry {s : Sequence} {e : PoolEntry} (h : (entry e es).2.Within s) :
    s.pool.get? (entry e es).1 = some e :=
  Pool.get?_of_prefix h.pool (Pool.get?_add ..)

theorem plain_pure (h : c.all isPlain = true) : Plain (pure c) := fun es => ⟨.refl es, h⟩

theorem plain_entry {e : PoolEntry} {f : Nat → List Instr} (h : ∀ i, (f i).all isPlain = true) :
    Plain (do let i ← entry e; return f i) := fun es => ⟨grows_entry e es, h _⟩

theorem Plain.append (hx : Plain x) (hy : Plain y) :
    Plain (do let a ← x; let b ← y; return a ++ b) := fun es =>
  ⟨(hx es).1.trans (hy _).1, List.all_append.trans (Bool.and_eq_true_iff.mpr ⟨(hx es).2, (hy _).2⟩)⟩

theorem plain_call {mode : InvokeMode} {m : MethodRef} : Plain (call mode m) :=
  plain_entry fun _ => rfl

theorem plain_int (n : Int32) : Plain (int n) := by
  rw [int]
  split_ifs
  · exact plain_pure rfl
  · exact plain_pure rfl
  · exact plain_pure rfl
  · exact plain_entry fun _ => rfl

theorem plain_long (n : Int64) : Plain (long n) := by
  rw [long]
  split_ifs
  · exact plain_pure rfl
  · exact plain_entry fun _ => rfl

theorem plain_constant (c : Constant) : Plain (constant c) := by
  cases c with
  | int n => exact plain_int n
  | long n => exact plain_long n
  | float x =>
    rw [constant, float]
    split_ifs
    · exact plain_pure rfl
    · exact plain_entry fun _ => rfl
  | double x =>
    rw [constant, double]
    split_ifs
    · exact plain_pure rfl
    · exact plain_entry fun _ => rfl
  | boolean b => exact plain_pure rfl
  | string text => exact plain_entry fun _ => rfl
  | null => exact plain_pure rfl

theorem all_isPlain_convert (c : Option PrimConv) :
    (c.map Instr.convert).toList.all isPlain = true := by
  cases c <;> rfl

/-- No conversion step jumps. -/
theorem plain_conversion (o : Options) (source : Ty) (step : Conversion) :
    Plain (conversion o source step) := by
  cases step with
  | unbox k => exact plain_call
  | box k => exact plain_call
  | change j k =>
    refine plain_pure ?_
    rw [change]
    split_ifs
    · rfl
    · rw [List.append_nil]
      exact all_isPlain_convert _
    · rw [List.all_append, all_isPlain_convert, all_isPlain_convert]
      rfl
  | numberValue k =>
    rw [conversion, numberValue]
    split_ifs
    · exact (plain_call).append (plain_pure (c := [.convert .i2c]) rfl)
    · exact plain_call
  | checkCast t =>
    rw [conversion, checkCast]
    split_ifs
    · exact plain_pure rfl
    · exact plain_entry fun _ => rfl
  | stringify => exact plain_call

/-- A boxed counter is opened, counted, boxed again and stored. -/
theorem updateBoxed_eq (k : Kind) (slot : Nat) (delta : Int8) (before : Bool) (es : EmitState) :
    updateBoxed k slot delta before es =
      let unboxing := unbox k es
      let boxing := box k unboxing.2
      ([.load .reference slot] ++ (if before then [] else [.dup .dup]) ++
        (unboxing.1 ++ (bump k delta ++ boxing.1)) ++ (if before then [.dup .dup] else []) ++
        [.store .reference slot], boxing.2) := by
  simp only [← List.append_assoc]
  rfl

theorem plain_update (v : Local) (delta : Int8) (before : Bool) : Plain (update v delta before) := by
  have hdup (k : StackKind) : isPlain (dupFor k) = true := by
    rw [dupFor]
    split_ifs <;> rfl
  have hone (k : StackKind) : isPlain (one k) = true := by cases k <;> rfl
  have hbump (k : Kind) : (bump k delta).all isPlain = true := by
    rw [bump, List.all_append, all_isPlain_convert, List.all_cons, hone]
    rfl
  unfold update
  split
  · cases before <;> exact plain_pure rfl
  · refine plain_pure ?_
    simp only [updatePrimitive, List.all_append, hbump]
    cases before <;>
      simp only [Bool.false_eq_true, if_false, if_true, List.all_cons, hdup] <;> rfl
  · next k _ =>
    intro es
    have hunbox : _ ∧ (unbox k es).1.all isPlain = true := plain_call es
    have hbox : _ ∧ (box k (unbox k es).2).1.all isPlain = true := plain_call _
    rw [updateBoxed_eq]
    refine ⟨hunbox.1.trans hbox.1, ?_⟩
    simp only [List.all_append, hbump, hunbox.2, hbox.2]
    cases before <;> rfl
  · exact plain_pure rfl

theorem plain_complementMask (k : StackKind) : Plain (complementMask k) := by
  cases k with
  | long => exact plain_long _
  | _ => exact plain_int _

theorem plain_fixedKey (c : Constant) (stored : Ty) : Plain (fixedKey c stored) := by
  cases stored with
  | boxed k => exact (plain_constant c).append plain_call
  | _ => exact plain_constant c

theorem plain_new (cls : String) : Plain (new cls) := fun es =>
  ⟨(grows_entry _ es).trans (plain_call _).1, rfl⟩

theorem plain_openSpread (source : Ty) (slot : Nat) : Plain (openSpread source slot) := by
  have rest : Plain (do
      let entrySet ← call .interface .entrySet
      let iterator ← call .interface .iterator
      return entrySet ++ iterator ++ [.store .reference slot]) := fun es =>
    ⟨(plain_call es).1.trans (plain_call _).1, rfl⟩
  cases source with
  | record k v => exact rest
  | _ => exact (plain_entry (f := fun index => [.checkCast index]) fun _ => rfl).append rest

theorem Fragment.of_oneLocal (h : Fragment es.oneLocal a es') : Fragment es a es' := by
  have skip : Fragment es [] es.oneLocal :=
    .of_plain ⟨List.prefix_rfl, Nat.le_refl _, Nat.le_succ _⟩ rfl
  exact skip.append h

/-- Labels handed out need not be placed. -/
theorem Fragment.unlabelled (h : Fragment es.twoLabels a es') : Fragment es a es' := by
  have hl : es.nextLabel + 2 ≤ es'.nextLabel := h.grows.labels
  refine ⟨⟨h.grows.pool, by omega, h.grows.locals⟩, h.once, fun l => ?_, h.linked⟩
  have ho : _ ∨ es.nextLabel + 2 ≤ l ∧ _ := h.own l
  omega

/-- Two new labels are placed once among the instructions of a fragment. -/
theorem Fragment.labelled (h : Fragment es.twoLabels a es')
    (hp : ∀ l : Nat, placing l c =
      placing l a + if l = es.nextLabel ∨ l = es.nextLabel + 1 then 1 else 0)
    (hj : ∀ l : Nat, 0 < jumping l c →
      0 < jumping l a ∨ l = es.nextLabel ∨ l = es.nextLabel + 1) : Fragment es c es' := by
  have hl : es.nextLabel + 2 ≤ es'.nextLabel := h.grows.labels
  refine ⟨⟨h.grows.pool, by omega, h.grows.locals⟩, ?_, ?_, ?_⟩ <;> intro l <;> rw [hp]
  all_goals
    have hone := h.once l
    have hown : _ ∨ es.nextLabel + 2 ≤ l ∧ _ := h.own l
    have hlinked := h.linked l
    have hj := hj l
    split_ifs <;> omega

/-- Turning a jump into a boolean takes two labels, each placed once. -/
theorem placing_branchResult (l : Nat) (yes : Nat) :
    placing l (branchResult yes (yes + 1)) = if l = yes ∨ l = yes + 1 then 1 else 0 := by
  simp only [branchResult, boolean, placing, placesAt]
  split_ifs <;> omega

theorem jumping_branchResult (l : Nat) (yes : Nat) :
    0 < jumping l (branchResult yes (yes + 1)) → l = yes + 1 := by
  simp only [branchResult, boolean, jumping, jumpsTo]
  split_ifs <;> omega

section equations

variable (o : Options) (l r t y n source : Typed) (tag : Tag) (op : Comparison) (es : EmitState)

theorem expr_compare_reference : expr o (.compare op .reference l r tag) es =
    let l := expr o l es.twoLabels
    let r := expr o r l.2
    let equals := call .static .equals r.2
    (l.1 ++ r.1 ++ equals.1 ++ (if op = .notEqual then flip else []), equals.2) := by
  rw [expr]
  rfl

theorem expr_compare_nullCheck : expr o (.compare op .nullCheck l r tag) es =
    let e := expr o (if l.type.isNull then r else l) es.twoLabels
    (e.1 ++ [if op = .notEqual then .ifNonNull es.nextLabel else .ifNull es.nextLabel] ++
      branchResult es.nextLabel (es.nextLabel + 1), e.2) := by
  rw [expr]
  split_ifs <;> rfl

/-- Numbers and booleans are compared alike. -/
theorem expr_compare_numbers {mode : OperandMode} (hr : mode ≠ .reference)
    (hn : mode ≠ .nullCheck) : expr o (.compare op mode l r tag) es =
    let l := expr o l es.twoLabels
    let r := expr o r l.2
    (l.1 ++ r.1 ++ compareNumbers op (numericKind mode) es.nextLabel ++
      branchResult es.nextLabel (es.nextLabel + 1), r.2) := by
  cases mode with
  | reference => exact absurd rfl hr
  | nullCheck => exact absurd rfl hn
  | _ =>
    rw [expr]
    rfl

/-- What a node with labels emits: the code of its parts, and the labels and jumps between them. -/
theorem expr_logical (op : LogicalOp) : expr o (.logical op l r tag) es =
    let l := expr o l es.twoLabels
    let r := expr o r l.2
    let jump := Instr.ifZero (if op = .and then .eq else .ne) es.nextLabel
    (l.1 ++ [jump] ++ r.1 ++ [jump, boolean (op = .and), .goto (es.nextLabel + 1),
      .label es.nextLabel, boolean (op = .or), .label (es.nextLabel + 1)], r.2) := by
  rw [expr]
  rfl

theorem expr_conditional : expr o (.conditional t y n tag) es =
    let t := expr o t es.twoLabels
    let y := expr o y t.2
    let n := expr o n y.2
    (t.1 ++ [.ifZero .eq es.nextLabel] ++ y.1 ++
      [.goto (es.nextLabel + 1), .label es.nextLabel] ++ n.1 ++ [.label (es.nextLabel + 1)],
      n.2) := by
  rw [expr]
  rfl

theorem planEntry_spread (tag : EntryTag) : planEntry o (.spread source tag) es =
    let e := expr o source es.oneLocal.twoLabels
    let start := openSpread source.type es.nextLocal e.2
    let loop := spreadLoop o es.nextLocal es.nextLabel (es.nextLabel + 1) start.2
    (e.1 ++ start.1 ++ loop.1, loop.2) := by
  rw [planEntry]
  rfl

end equations

section spread

variable (o : Options) (slot head done : Nat) (es : EmitState)

theorem grows_spreadLoop : es.Grows (spreadLoop o slot head done es).2 :=
  (plain_call es).1.trans <| (plain_call _).1.trans <| (grows_entry _ _).trans <|
    (plain_call _).1.trans <| (plain_call _).1.trans (plain_call _).1

/-- The instructions of the loop, whatever their pool indices. -/
theorem spreadLoop_eq : ∃ hasNext next entry getKey getValue put,
    (spreadLoop o slot head done es).1 = [.label head, .load .reference slot,
      .invoke .interface hasNext, .ifZero .eq done, .dup .dup, .load .reference slot,
      .invoke .interface next, .checkCast entry, .dup .dup, .invoke .interface getKey, .swap,
      .invoke .interface getValue, .invoke .virtual put, .pop, .goto head, .label done] :=
  ⟨_, _, _, _, _, _, rfl⟩

/-- A spread loop has a label at its head and one behind it. -/
theorem placing_spreadLoop (l : Nat) : placing l (spreadLoop o slot head done es).1 =
    (if l = head then 1 else 0) + if l = done then 1 else 0 := by
  obtain ⟨_, _, _, _, _, _, hloop⟩ := spreadLoop_eq o slot head done es
  rw [hloop]
  simp only [placing, placesAt, Nat.zero_add, Nat.add_zero]

theorem jumping_spreadLoop (l : Nat) : jumping l (spreadLoop o slot head done es).1 =
    (if l = done then 1 else 0) + if l = head then 1 else 0 := by
  obtain ⟨_, _, _, _, _, _, hloop⟩ := spreadLoop_eq o slot head done es
  rw [hloop]
  simp only [jumping, jumpsTo, Nat.zero_add, Nat.add_zero]

variable {es} in
/-- The loop of a spread after the code of its source. -/
theorem Fragment.spread (h : Fragment es.oneLocal.twoLabels a es') :
    Fragment es (a ++ (spreadLoop o slot es.nextLabel (es.nextLabel + 1) es').1)
      (spreadLoop o slot es.nextLabel (es.nextLabel + 1) es').2 := by
  have hgrows := grows_spreadLoop o slot es.nextLabel (es.nextLabel + 1) es'
  refine Fragment.of_oneLocal ((h.append (.of_plain (c := []) hgrows rfl)).labelled
    (fun m => ?_) fun m => ?_)
  · change _ = _ + if m = es.nextLabel ∨ m = es.nextLabel + 1 then 1 else 0
    rw [placing_append, placing_append, placing_spreadLoop, placing]
    split_ifs <;> omega
  · change _ → _ ∨ m = es.nextLabel ∨ m = es.nextLabel + 1
    rw [jumping_append, jumping_append, jumping_spreadLoop, jumping]
    split_ifs <;> omega

end spread

mutual

/-- The code of every tree is a fragment: whatever it jumps to it places, and once. -/
theorem fragment_expr (o : Options) : ∀ (e : Typed) (es : EmitState),
    Fragment es (expr o e es).1 (expr o e es).2
  | .constant c _, es => by
    rw [expr]
    exact (plain_constant c).fragment es
  | .read v _, es => by
    rw [expr]
    exact (plain_pure rfl).fragment es
  | .convert e step _, es => by
    rw [expr]
    exact (fragment_expr o e es).append ((plain_conversion o e.type step).fragment _)
  | .arith op k l r _, es => by
    rw [expr]
    exact ((fragment_expr o l es).append (fragment_expr o r _)).tail rfl
  | .power l r _, es => by
    rw [expr]
    exact ((fragment_expr o l es).append (fragment_expr o r _)).append (plain_call.fragment _)
  | .negate k e _, es => by
    rw [expr]
    exact (fragment_expr o e es).tail rfl
  | .complement k e _, es => by
    rw [expr]
    exact ((fragment_expr o e es).append ((plain_complementMask _).fragment _)).tail rfl
  | .not e _, es => by
    rw [expr]
    exact (fragment_expr o e es).tail rfl
  | .compare op mode l r _, es => by
    have hl := fragment_expr o l es.twoLabels
    have hr := fragment_expr o r es.twoLabels
    have hboth := hl.append (fragment_expr o r _)
    have hnum (hr : mode ≠ .reference) (hn : mode ≠ .nullCheck) (tag : Tag) :
        Fragment es (expr o (.compare op mode l r tag) es).1
          (expr o (.compare op mode l r tag) es).2 := by
      rw [expr_compare_numbers _ _ _ _ _ _ hr hn]
      refine hboth.labelled (fun m => ?_) fun m => ?_
      · rw [placing_append, placing_append, placing_branchResult]
        cases numericKind mode <;> simp [compareNumbers, placing, placesAt]
      · rw [jumping_append, jumping_append]
        have := jumping_branchResult m es.nextLabel
        cases numericKind mode <;> simp only [compareNumbers, jumping, jumpsTo] <;>
          split_ifs <;> omega
    cases mode with
    | reference =>
      rw [expr_compare_reference]
      refine Fragment.unlabelled ((hboth.append (plain_call.fragment _)).tail ?_)
      split_ifs <;> rfl
    | nullCheck =>
      have he : Fragment es.twoLabels (expr o (if l.type.isNull then r else l) es.twoLabels).1
          (expr o (if l.type.isNull then r else l) es.twoLabels).2 := by
        split_ifs
        · exact hr
        · exact hl
      rw [expr_compare_nullCheck]
      refine he.labelled (fun m => ?_) fun m => ?_
      · rw [placing_append, placing_append, placing_branchResult]
        split_ifs <;> simp [placing, placesAt]
      · rw [jumping_append, jumping_append]
        have := jumping_branchResult m es.nextLabel
        split_ifs <;> simp only [jumping, jumpsTo] <;> split_ifs <;> omega
    | numeric k => exact hnum nofun nofun _
    | boolean => exact hnum nofun nofun _
  | .logical op l r _, es => by
    rw [expr_logical]
    refine ((fragment_expr o l es.twoLabels).append (fragment_expr o r _)).labelled
      (fun m => ?_) fun m => ?_
    · simp only [placing_append, placing, placesAt, boolean]
      split_ifs <;> omega
    · simp only [jumping_append, jumping, jumpsTo, boolean]
      split_ifs <;> omega
  | .concat l r _, es => by
    rw [expr]
    exact ((fragment_expr o l es).append (fragment_expr o r _)).append (plain_call.fragment _)
  | .update v delta before _, es => by
    rw [expr]
    exact (plain_update v delta before).fragment es
  | .assign v e _, es => by
    rw [expr]
    refine (fragment_expr o e es).tail ?_
    rw [dupFor]
    split_ifs <;> rfl
  | .conditional t y n _, es => by
    rw [expr_conditional]
    refine (((fragment_expr o t es.twoLabels).append (fragment_expr o y _)).append
      (fragment_expr o n _)).labelled (fun m => ?_) fun m => ?_
    · simp only [placing_append, placing, placesAt]
      split_ifs <;> omega
    · simp only [jumping_append, jumping, jumpsTo]
      split_ifs <;> omega
  | .record _ entries _, es => by
    rw [expr]
    exact ((plain_new _).fragment es).append (fragment_plan o entries _)
  | .list items _, es => by
    rw [expr]
    exact ((plain_new _).fragment es).append (fragment_elements o items _)

theorem fragment_elements (o : Options) : ∀ (items : List Typed) (es : EmitState),
    Fragment es (elements o items es).1 (elements o items es).2
  | [], es => by
    rw [elements]
    exact (plain_pure rfl).fragment es
  | e :: rest, es => by
    rw [elements]
    have start : Fragment es [.dup .dup] es := .of_plain (.refl es) rfl
    exact (((start.append (fragment_expr o e es)).append (plain_call.fragment _)).tail rfl).append
      (fragment_elements o rest _)

theorem fragment_planEntry (o : Options) : ∀ (e : Entry) (es : EmitState),
    Fragment es (planEntry o e es).1 (planEntry o e es).2
  | .fixed key stored value _, es => by
    rw [planEntry]
    have start : Fragment es [.dup .dup] es := .of_plain (.refl es) rfl
    exact (((start.append ((plain_fixedKey key stored).fragment es)).append
      (fragment_expr o value _)).append (plain_call.fragment _)).tail rfl
  | .computed key value _, es => by
    rw [planEntry]
    have start : Fragment es [.dup .dup] es := .of_plain (.refl es) rfl
    exact (((start.append (fragment_expr o key es)).append
      (fragment_expr o value _)).append (plain_call.fragment _)).tail rfl
  | .spread source _, es => by
    rw [planEntry_spread]
    exact ((fragment_expr o source _).append
      ((plain_openSpread source.type es.nextLocal).fragment _)).spread o es.nextLocal

theorem fragment_plan (o : Options) : ∀ (entries : List Entry) (es : EmitState),
    Fragment es (plan o entries es).1 (plan o entries es).2
  | [], es => by
    rw [plan]
    exact (plain_pure rfl).fragment es
  | e :: rest, es => by
    rw [plan]
    exact (fragment_planEntry o e es).append (fragment_plan o rest _)

end

theorem fragment_initializers (o : Options) (is : List Initializer) (es : EmitState) :
    Fragment es (initializers o is es).1 (initializers o is es).2 := by
  induction is generalizing es with
  | nil => exact (plain_pure rfl).fragment es
  | cons i rest ih => exact ((fragment_expr o i.value es).tail rfl).append (ih _)

/-- The code of a whole unit is a fragment. -/
theorem fragment_unitCode (o : Options) (u : TypedUnit) (es : EmitState) :
    Fragment es (unitCode o u es).1 (unitCode o u es).2 :=
  (fragment_initializers o u.initializers es).append (fragment_expr o u.body _)

/-- Where fragments place what they jump to, no label dangles. -/
theorem Fragment.danglingLabel? (h : Fragment es c es') : danglingLabel? c = none := by
  refine danglingLabel?_eq_none fun i hi l ht => exists_of_placing ?_
  have := jumping_pos hi ht
  have := h.linked l
  omega

end Emit

end StackExpr
