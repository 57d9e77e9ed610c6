import StackExpr.Proofs.Execution

/-! What the code of a unit is made of.

Whatever an instruction refers to is there: its labels, its pool entries, the methods it calls.
Outside its spread loops, code names the slots of declared locals only, and each loop keeps its
iterator in a scratch slot of its own. -/
namespace StackExpr

namespace Method

/-- A method of the library, called in the way it is made for. -/
def Registered (mode : InvokeMode) (m : MethodRef) : Prop :=
  ∃ method, (m, method) ∈ all ∧ (mode = .static ↔ method.isStatic = true)

variable {k : Kind} {m : MethodRef} {method : Method} {mode : InvokeMode}

/-- Every kind has its method for boxing. -/
theorem registered_box : Registered .static (.box k) := by
  have h : (MethodRef.box k, box k) ∈ wrapperMethods :=
    List.mem_flatMap.mpr ⟨k, mem_kinds k, by simp⟩
  exact ⟨box k, by simp [all, h], by simp [isStatic]⟩

theorem registered_unbox : Registered .virtual (.unbox k) := by
  have h : (MethodRef.unbox k, unbox k) ∈ wrapperMethods :=
    List.mem_flatMap.mpr ⟨k, mem_kinds k, by simp⟩
  exact ⟨unbox k, by simp [all, h], by simp [isStatic]⟩

/-- A `Number` has an accessor for each numeric kind but `char`. -/
theorem registered_numberValue (hk : k.isNumeric = true) (hc : k ≠ .char) :
    Registered .virtual (.numberValue k) := by
  have h : (MethodRef.numberValue k, numberValue k) ∈ numberMethods := by
    refine List.mem_map.mpr ⟨k, List.mem_filter.mpr ⟨mem_kinds k, ?_⟩, rfl⟩
    simp [hk, hc]
  exact ⟨numberValue k, by simp [all, h], by simp [isStatic]⟩

theorem registered_other (method : Method) (h : (m, method) ∈ otherMethods)
    (hm : mode = .static ↔ method.isStatic = true) : Registered mode m :=
  ⟨method, by simp [all, h], hm⟩

/-- The methods by which a spread walks over a map. -/
theorem registered_interface
    (h : m ∈ [.entrySet, .iterator, .hasNext, .next, .getKey, .getValue]) :
    Registered .interface m := by
  simp only [List.mem_cons, List.not_mem_nil, or_false] at h
  rcases h with rfl | rfl | rfl | rfl | rfl | rfl
  · exact registered_other entrySet (by decide) (by decide)
  · exact registered_other iterator (by decide) (by decide)
  · exact registered_other hasNext (by decide) (by decide)
  · exact registered_other next (by decide) (by decide)
  · exact registered_other getKey (by decide) (by decide)
  · exact registered_other getValue (by decide) (by decide)

theorem registered_container (h : (m, method) ∈ containerMethods) (hm : mode ≠ .static)
    (hs : method.isStatic = false) : Registered mode m :=
  ⟨method, by simp [all, h], by simp [hm, hs]⟩

end Method

namespace Options

/-- What emission calls: the library, and the classes that literals build. -/
def Calls (o : Options) (mode : InvokeMode) (m : MethodRef) : Prop :=
  Method.Registered mode m ∨
    mode ≠ .static ∧ m ∈ [.init o.container, .put o.container, .init o.list, .add o.list]

variable {o : Options} {mode : InvokeMode} {m : MethodRef}

theorem calls_put (o : Options) : o.Calls .virtual (.put o.container) := .inr ⟨nofun, by simp⟩

/-- With classes that are known, everything that emission calls is registered. -/
theorem Known.registered (ho : o.Known) (h : o.Calls mode m) : Method.Registered mode m := by
  have hmaps (c : String) (hc : c ∈ ClassName.maps) :
      (MethodRef.init c, Method.init c) ∈ Method.containerMethods ∧
        (MethodRef.put c, Method.put) ∈ Method.containerMethods := by
    constructor <;> simp only [Method.containerMethods, List.mem_append, List.mem_flatMap] <;>
      exact .inl (.inl ⟨c, hc, by simp⟩)
  have hlists (c : String) (hc : c ∈ ClassName.lists) :
      (MethodRef.init c, Method.init c) ∈ Method.containerMethods ∧
        (MethodRef.add c, Method.add) ∈ Method.containerMethods := by
    constructor <;> simp only [Method.containerMethods, List.mem_append, List.mem_flatMap] <;>
      exact .inl (.inr ⟨c, hc, by simp⟩)
  rcases h with h | ⟨hm, h⟩
  · exact h
  · simp only [List.mem_cons, List.not_mem_nil, or_false] at h
    rcases h with rfl | rfl | rfl | rfl
    · exact Method.registered_container (hmaps _ ho.container).1 hm rfl
    · exact Method.registered_container (hmaps _ ho.container).2 hm rfl
    · exact Method.registered_container (hlists _ ho.list).1 hm rfl
    · exact Method.registered_container (hlists _ ho.list).2 hm rfl

end Options

namespace Instr

/-- The pool entry that an instruction refers to is of the kind it needs. -/
def Linked (calls : InvokeMode → MethodRef → Prop) (pool : Pool) : Instr → Prop
  | ldc index => (∃ n, pool.get? index = some (.int n)) ∨
      (∃ bits, pool.get? index = some (.float bits)) ∨ ∃ text, pool.get? index = some (.string text)
  | ldc2 index => (∃ n, pool.get? index = some (.long n)) ∨
      ∃ bits, pool.get? index = some (.double bits)
  | new index | checkCast index => ∃ cls, pool.get? index = some (.classRef cls)
  | invoke mode index => ∃ m, calls mode m ∧
      pool.get? index = some (if mode = .interface then .interfaceMethod m else .method m)
  | _ => True

/-- The slots an instruction names are those of a declared local, taken as the local has them. -/
def Declared (vars : List Local) : Instr → Prop
  | load k slot | store k slot => ∃ x ∈ vars, x.slot = slot ∧ x.type.stackKind = k
  | increment slot _ => ∃ x ∈ vars, x.slot = slot ∧ x.type = .prim .int
  | _ => True

/-- The first of the slots that an instruction reads or writes, and how many they are. -/
def accessed? : Instr → Option (Nat × Nat)
  | load k slot | store k slot => some (slot, k.size)
  | increment slot _ => some (slot, 1)
  | _ => none

/-- No slots and no pool entry. -/
def isBare (i : Instr) : Bool := i.index?.isNone && i.accessed?.isNone

/-- An instruction outside the spread loops. -/
structure Settled (pool : Pool) (o : Options) (vars : List Local) (i : Instr) : Prop where
  linked : i.Linked o.Calls pool
  declared : i.Declared vars

variable {pool : Pool} {o : Options} {vars vars' : List Local} {i : Instr}
  {calls calls' : InvokeMode → MethodRef → Prop}

theorem Linked.mono (h : i.Linked calls pool) (hc : ∀ mode m, calls mode m → calls' mode m) :
    i.Linked calls' pool := by
  cases i with
  | invoke mode index =>
    obtain ⟨m, hm, hi⟩ := h
    exact ⟨m, hc mode m hm, hi⟩
  | _ => exact h

theorem Declared.mono (h : i.Declared vars) (hv : vars ⊆ vars') : i.Declared vars' := by
  cases i with
  | load k slot | store k slot | increment slot delta =>
    obtain ⟨x, hx, hslot⟩ := h
    exact ⟨x, hv hx, hslot⟩
  | _ => trivial

/-- A declared slot lies below the first free one. -/
theorem Declared.bounds {first free : Nat} (h : i.Declared vars)
    (hl : Local.Laid first vars free) {slot size : Nat} (hi : i.accessed? = some (slot, size)) :
    slot + size ≤ free := by
  cases i with
  | load k slot' | store k slot' =>
    obtain ⟨x, hx, rfl, rfl⟩ := h
    cases hi
    exact (hl.bounds hx).2
  | increment slot' delta =>
    obtain ⟨x, hx, rfl, ht⟩ := h
    cases hi
    have hb := (hl.bounds hx).2
    rwa [ht] at hb
  | _ => cases hi

/-- An instruction that names neither slot nor entry is settled. -/
theorem settled_of_bare (h : i.isBare = true) : i.Settled pool o vars := by
  cases i <;> first | exact ⟨trivial, trivial⟩ | cases h

end Instr

/-- The slot, the labels and the pool indices of a spread loop. -/
structure SpreadLoop where
  slot : Nat
  head : Label
  done : Label
  hasNext : Nat
  next : Nat
  entry : Nat
  getKey : Nat
  getValue : Nat
  put : Nat

/-- The loop, and before it the store of its iterator. -/
def SpreadLoop.code (l : SpreadLoop) : List Instr :=
  [.store .reference l.slot, .label l.head, .load .reference l.slot, .invoke .interface l.hasNext,
    .ifZero .eq l.done, .dup .dup, .load .reference l.slot, .invoke .interface l.next,
    .checkCast l.entry, .dup .dup, .invoke .interface l.getKey, .swap,
    .invoke .interface l.getValue, .invoke .virtual l.put, .pop, .goto l.head, .label l.done]

inductive CodePart where
  | single (i : Instr)
  | spread (loop : SpreadLoop)

namespace CodePart

def code : CodePart → List Instr
  | single i => [i]
  | spread loop => loop.code

/-- The scratch slot of a loop. -/
def slot? : CodePart → Option Nat
  | single _ => none
  | spread loop => some loop.slot

def Settled (pool : Pool) (o : Options) (vars : List Local) : CodePart → Prop
  | single i => i.Settled pool o vars
  | spread loop => ∀ i ∈ loop.code, i.Linked o.Calls pool

variable {pool : Pool} {o : Options} {vars vars' : List Local} {part : CodePart} {i : Instr}

theorem Settled.mono (h : part.Settled pool o vars) (hv : vars ⊆ vars') :
    part.Settled pool o vars' := by
  cases part with
  | single i => exact ⟨h.linked, h.declared.mono hv⟩
  | spread loop => exact h

/-- Every instruction of a settled part is linked. -/
theorem Settled.linked (h : part.Settled pool o vars) (hi : i ∈ part.code) :
    i.Linked o.Calls pool := by
  cases part with
  | single j =>
    obtain rfl := List.mem_singleton.mp hi
    exact Instr.Settled.linked h
  | spread loop => exact h i hi

theorem flatMap_single (c : List Instr) : (c.map single).flatMap code = c := by
  induction c with
  | nil => rfl
  | cons i rest ih => exact congrArg (i :: ·) ih

theorem slots_single (c : List Instr) : (c.map single).filterMap slot? = [] := by
  induction c with
  | nil => rfl
  | cons i rest ih => exact ih

end CodePart

/-- In a loop only the iterator's slot is accessed. -/
theorem SpreadLoop.declared_or_scratch {l : SpreadLoop} {i : Instr} {vars : List Local}
    (hi : i ∈ l.code) :
    i.Declared vars ∨ i = .load .reference l.slot ∨ i = .store .reference l.slot := by
  simp only [code, List.mem_cons, List.not_mem_nil, or_false] at hi
  rcases hi with rfl | rfl | rfl | rfl | rfl | rfl | rfl | rfl | rfl | rfl | rfl | rfl | rfl | rfl |
    rfl | rfl | rfl
  all_goals first
    | exact .inl trivial
    | exact .inr (.inl rfl)
    | exact .inr (.inr rfl)

namespace Emit

variable {s : Sequence} {o : Options} {vars vars' : List Local} {es es' es'' : EmitState}
  {a b c : List Instr} {x y : Emit (List Instr)}

/-- Code cut into parts whose loops use the slots from `first` up to `free`, each once. -/
structure Cut (pool : Pool) (o : Options) (vars : List Local) (first free : Nat)
    (parts : List CodePart) : Prop where
  settled : ∀ part ∈ parts, part.Settled pool o vars
  slots : ∀ slot : Nat, (parts.filterMap CodePart.slot?).count slot =
    if first ≤ slot ∧ slot < free then 1 else 0

/-- Code emitted between two states, as part of a sequence. -/
structure Composes (s : Sequence) (o : Options) (vars : List Local) (es : EmitState)
    (c : List Instr) (es' : EmitState) : Prop where
  grows : es.Grows es'
  parts : es'.Within s → ∃ parts : List CodePart, parts.flatMap CodePart.code = c ∧
    Cut s.pool o vars es.nextLocal es'.nextLocal parts

/-- Emission without scratch slots. -/
def Settles (s : Sequence) (o : Options) (vars : List Local) (x : Emit (List Instr)) : Prop :=
  ∀ es, es.Grows (x es).2 ∧ (x es).2.nextLocal = es.nextLocal ∧
    ((x es).2.Within s → ∀ i ∈ (x es).1, i.Settled s.pool o vars)

namespace Composes

/-- Parts that follow each other use the scratch slots one after the other. -/
theorem append (h : Composes s o vars es a es') (h' : Composes s o vars es' b es'') :
    Composes s o vars es (a ++ b) es'' := by
  refine ⟨h.grows.trans h'.grows, fun hw => ?_⟩
  obtain ⟨ps, rfl, hps⟩ := h.parts (hw.of_grows h'.grows)
  obtain ⟨qs, rfl, hqs⟩ := h'.parts hw
  refine ⟨ps ++ qs, List.flatMap_append, ?_, fun slot => ?_⟩
  · exact List.forall_mem_append.mpr ⟨hps.settled, hqs.settled⟩
  · have hp := h.grows.locals
    have hq := h'.grows.locals
    rw [List.filterMap_append, List.count_append, hps.slots, hqs.slots]
    split_ifs <;> omega

/-- Code without loops takes no scratch slots. -/
theorem of_settled (hg : es.Grows es') (hl : es'.nextLocal = es.nextLocal)
    (hc : es'.Within s → ∀ i ∈ c, i.Settled s.pool o vars) : Composes s o vars es c es' := by
  refine ⟨hg, fun hw => ⟨c.map .single, CodePart.flatMap_single c, ?_, fun slot => ?_⟩⟩
  · exact List.forall_mem_map.mpr (hc hw)
  · rw [CodePart.slots_single, List.count_nil, if_neg (by omega)]

theorem tail (h : Composes s o vars es a es') (hc : ∀ i ∈ c, i.Settled s.pool o vars) :
    Composes s o vars es (a ++ c) es' :=
  h.append (of_settled (.refl _) rfl fun _ => hc)

theorem bare (h : Composes s o vars es a es') (hc : c.all Instr.isBare = true) :
    Composes s o vars es (a ++ c) es' :=
  h.tail fun _ hi => Instr.settled_of_bare (List.all_eq_true.mp hc _ hi)

/-- Labels are no slots. -/
theorem unlabelled (h : Composes s o vars es.twoLabels c es') : Composes s o vars es c es' :=
  ⟨⟨h.grows.pool, Nat.le_trans (Nat.le_add_right _ 2) h.grows.labels, h.grows.locals⟩, h.parts⟩

theorem mono (h : Composes s o vars es c es') (hv : vars ⊆ vars') :
    Composes s o vars' es c es' := by
  refine ⟨h.grows, fun hw => ?_⟩
  obtain ⟨ps, hc, hps⟩ := h.parts hw
  exact ⟨ps, hc, fun part hp => (hps.settled part hp).mono hv, hps.slots⟩

end Composes

theorem Settles.composes (h : Settles s o vars x) (es : EmitState) :
    Composes s o vars es (x es).1 (x es).2 :=
  .of_settled (h es).1 (h es).2.1 (h es).2.2

theorem settles_pure (h : ∀ i ∈ c, i.Settled s.pool o vars) : Settles s o vars (pure c) :=
  fun es => ⟨.refl es, rfl, fun _ => h⟩

theorem settles_bare (h : c.all Instr.isBare = true) : Settles s o vars (pure c) :=
  settles_pure fun _ hi => Instr.settled_of_bare (List.all_eq_true.mp h _ hi)

theorem settles_entry {e : PoolEntry} {i : Nat → Instr}
    (h : ∀ index, s.pool.get? index = some e → (i index).Settled s.pool o vars) :
    Settles s o vars (do let index ← entry e; return [i index]) := by
  intro es
  refine ⟨grows_entry e es, rfl, fun hw => ?_⟩
  exact List.forall_mem_singleton.mpr (h _ (get?_entry hw))

/-- What needs no scratch slot needs none when it is emitted in two steps. -/
theorem Settles.append (hx : Settles s o vars x) (hy : Settles s o vars y) :
    Settles s o vars (do let a ← x; let b ← y; return a ++ b) := by
  intro es
  obtain ⟨hgx, hlx, hcx⟩ := hx es
  obtain ⟨hgy, hly, hcy⟩ := hy (x es).2
  refine ⟨hgx.trans hgy, hly.trans hlx, fun hw => ?_⟩
  exact List.forall_mem_append.mpr ⟨hcx (hw.of_grows hgy), hcy hw⟩

/-- A call is settled if it is one that emission makes. -/
theorem settles_call {mode : InvokeMode} {m : MethodRef} (h : o.Calls mode m) :
    Settles s o vars (call mode m) :=
  settles_entry fun _ hi => ⟨⟨m, h, hi⟩, trivial⟩

theorem settles_library {mode : InvokeMode} {m : MethodRef} (h : Method.Registered mode m) :
    Settles s o vars (call mode m) :=
  settles_call (.inl h)

theorem settles_int (n : Int32) : Settles s o vars (int n) := by
  rw [int]
  split_ifs
  · exact settles_bare rfl
  · exact settles_bare rfl
  · exact settles_bare rfl
  · exact settles_entry fun _ hi => ⟨.inl ⟨n, hi⟩, trivial⟩

theorem settles_long (n : Int64) : Settles s o vars (long n) := by
  rw [long]
  split_ifs
  · exact settles_bare rfl
  · exact settles_entry fun _ hi => ⟨.inl ⟨n, hi⟩, trivial⟩

theorem settles_constant (d : Constant) : Settles s o vars (constant d) := by
  cases d with
  | int n => exact settles_int n
  | long n => exact settles_long n
  | float f =>
    rw [constant, float]
    split_ifs
    · exact settles_bare rfl
    · exact settles_entry fun _ hi => ⟨.inr (.inl ⟨_, hi⟩), trivial⟩
  | double d =>
    rw [constant, double]
    split_ifs
    · exact settles_bare rfl
    · exact settles_entry fun _ hi => ⟨.inr ⟨_, hi⟩, trivial⟩
  | boolean b => exact settles_bare rfl
  | string text => exact settles_entry fun _ hi => ⟨.inr (.inr ⟨text, hi⟩), trivial⟩
  | null => exact settles_bare rfl

theorem all_isBare_convert (step : Option PrimConv) :
    (step.map Instr.convert).toList.all Instr.isBare = true := by
  cases step <;> rfl

theorem all_isBare_change (j k : Kind) : (change j k).all Instr.isBare = true := by
  rw [change]
  split_ifs
  · rfl
  · rw [List.append_nil]
    exact all_isBare_convert _
  · rw [List.all_append, all_isBare_convert, all_isBare_convert]
    rfl

/-- The steps of conversions call what the library has for them. -/
theorem settles_conversion {t : Ty} {step : Conversion} (ht : step.Takes false t) :
    Settles s o vars (conversion o t step) := by
  cases step with
  | unbox k => exact settles_library Method.registered_unbox
  | box k => exact settles_library Method.registered_box
  | change j k => exact settles_bare (all_isBare_change j k)
  | numberValue k =>
    rw [conversion, numberValue]
    split_ifs with hk
    · exact (settles_library (Method.registered_numberValue (k := .int) rfl (by decide))).append
        (settles_bare (c := [.convert .i2c]) rfl)
    · exact settles_library (Method.registered_numberValue ht.2 hk)
  | checkCast t' =>
    rw [conversion, checkCast]
    split_ifs
    · exact settles_bare rfl
    · exact settles_entry fun _ hi => ⟨⟨_, hi⟩, trivial⟩
  | stringify =>
    exact settles_library (Method.registered_other .stringOf (by decide) (by decide))

theorem isBare_dupFor (k : StackKind) : (dupFor k).isBare = true := by
  rw [dupFor]
  split_ifs <;> rfl

theorem all_isBare_bump (k : Kind) (delta : Int8) : (bump k delta).all Instr.isBare = true := by
  have hone : (one k.stackKind).isBare = true := by cases k <;> rfl
  rw [bump, List.all_append, all_isBare_convert, List.all_cons, hone]
  rfl

/-- A local is loaded, changed and stored again, and nothing else names a slot. -/
theorem settled_recompute {x : Local} (hx : x ∈ vars) {before : Bool} {copy : Instr}
    (hcopy : copy.isBare = true) (hc : ∀ i ∈ c, i.Settled s.pool o vars) :
    ∀ i ∈ [.load x.type.stackKind x.slot] ++ (if before then [] else [copy]) ++ c ++
        (if before then [copy] else []) ++ [.store x.type.stackKind x.slot],
      i.Settled s.pool o vars := by
  have hcopy' : copy.Settled s.pool o vars := Instr.settled_of_bare hcopy
  have hload : (Instr.load x.type.stackKind x.slot).Settled s.pool o vars :=
    ⟨trivial, x, hx, rfl, rfl⟩
  have hstore : (Instr.store x.type.stackKind x.slot).Settled s.pool o vars :=
    ⟨trivial, x, hx, rfl, rfl⟩
  intro i hi
  simp only [List.mem_append, List.mem_singleton] at hi
  rcases hi with (((rfl | hi) | hi) | hi) | rfl
  · exact hload
  · cases before <;> simp_all
  · exact hc i hi
  · cases before <;> simp_all
  · exact hstore

theorem settles_update {v : Local} (hv : v ∈ vars) (delta : Int8) (before : Bool) :
    Settles s o vars (update v delta before) := by
  unfold update
  split
  · next ht =>
    refine settles_pure fun i hi => ?_
    have hload : (Instr.load .int v.slot).Settled s.pool o vars :=
      ⟨trivial, v, hv, rfl, by rw [ht]; rfl⟩
    have hinc (d : Int16) : (Instr.increment v.slot d).Settled s.pool o vars :=
      ⟨trivial, v, hv, rfl, ht⟩
    cases before <;> simp only [Bool.false_eq_true, if_false, if_true, List.mem_cons,
      List.not_mem_nil, or_false] at hi <;> rcases hi with rfl | rfl
    exacts [hload, hinc _, hinc _, hload]
  · next k _ ht =>
    have hk : k.stackKind = v.type.stackKind := by rw [ht]; rfl
    rw [updatePrimitive, hk]
    refine settles_pure (settled_recompute hv (isBare_dupFor _) fun i hi => ?_)
    exact Instr.settled_of_bare (List.all_eq_true.mp (all_isBare_bump k delta) i hi)
  · next k ht =>
    intro es
    have hk : StackKind.reference = v.type.stackKind := by rw [ht]; rfl
    have hunbox : Settles s o vars (unbox k) := settles_library Method.registered_unbox
    have hbox : Settles s o vars (box k) := settles_library Method.registered_box
    obtain ⟨hgu, hlu, hcu⟩ := hunbox es
    obtain ⟨hgb, hlb, hcb⟩ := hbox (unbox k es).2
    rw [updateBoxed_eq]
    refine ⟨hgu.trans hgb, hlb.trans hlu, fun hw => ?_⟩
    rw [hk]
    refine settled_recompute hv rfl fun i hi => ?_
    rcases List.mem_append.mp hi with hi | hi
    · exact hcu (hw.of_grows hgb) i hi
    · rcases List.mem_append.mp hi with hi | hi
      · exact Instr.settled_of_bare (List.all_eq_true.mp (all_isBare_bump k delta) i hi)
      · exact hcb hw i hi
  · exact settles_bare rfl

theorem settles_complementMask (k : StackKind) : Settles s o vars (complementMask k) := by
  cases k with
  | long => exact settles_long _
  | _ => exact settles_int _

theorem settles_fixedKey (d : Constant) (stored : Ty) : Settles s o vars (fixedKey d stored) := by
  cases stored with
  | boxed k => exact (settles_constant d).append (settles_library Method.registered_box)
  | _ => exact settles_constant d

theorem settles_new {cls : String} (h : cls = o.container ∨ cls = o.list) :
    Settles s o vars (new cls) := by
  have hinit : Settles s o vars (call .special (.init cls)) := by
    refine settles_call (.inr ⟨nofun, ?_⟩)
    rcases h with rfl | rfl <;> simp
  intro es
  obtain ⟨hg, hl, hc⟩ := hinit (entry (.classRef cls) es).2
  refine ⟨(grows_entry _ es).trans hg, hl, fun hw => ?_⟩
  refine List.forall_mem_cons.mpr ⟨⟨⟨cls, get?_entry (hw.of_grows hg)⟩, trivial⟩, ?_⟩
  exact List.forall_mem_cons.mpr ⟨⟨trivial, trivial⟩, hc hw⟩

/-- What opens a spread ends in the store that its loop begins with. -/
theorem openSpread_eq (s : Sequence) (o : Options) (vars : List Local) (t : Ty) (slot : Nat)
    (es : EmitState) :
    ∃ opening, (openSpread t slot es).1 = opening ++ [.store .reference slot] ∧
      Composes s o vars es opening (openSpread t slot es).2 := by
  have hentrySet : Settles s o vars (call .interface .entrySet) :=
    settles_library (Method.registered_interface (by simp))
  have hiterator : Settles s o vars (call .interface .iterator) :=
    settles_library (Method.registered_interface (by simp))
  have hcast : Settles s o vars (do
      let index ← entry (.classRef ClassName.map)
      return [.checkCast index]) := settles_entry fun _ hi => ⟨⟨_, hi⟩, trivial⟩
  cases t with
  | record k v => exact ⟨_, rfl, (hentrySet.append hiterator).composes es⟩
  | _ => exact ⟨_, rfl, ((hcast.append hentrySet).append hiterator).composes es⟩

/-- A call refers to the entry that was added for its method. -/
theorem exists_call {mode : InvokeMode} {m : MethodRef} (h : o.Calls mode m) (es : EmitState) :
    ∃ index es', call mode m es = ([.invoke mode index], es') ∧ es.Grows es' ∧
      es'.nextLocal = es.nextLocal ∧
      (es'.Within s → (Instr.invoke mode index).Linked o.Calls s.pool) :=
  ⟨_, _, rfl, (plain_call es).1, rfl, fun hw => ⟨m, h, get?_entry hw⟩⟩

/-- The store of an iterator and the instructions after it are a loop on the iterator's slot. -/
theorem exists_spreadLoop (s : Sequence) (o : Options) (vars : List Local) (slot : Nat)
    (head done : Label) (es : EmitState) :
    ∃ loop es', spreadLoop o slot head done es = (loop.code.tail, es') ∧ loop.slot = slot ∧
      es.Grows es' ∧ es'.nextLocal = es.nextLocal ∧
      (es'.Within s → (CodePart.spread loop).Settled s.pool o vars) := by
  have ask {m : MethodRef}
      (hm : m ∈ [.entrySet, .iterator, .hasNext, .next, .getKey, .getValue]) :
      o.Calls .interface m := .inl (Method.registered_interface hm)
  obtain ⟨hasNext, es₁, h₁, hg₁, hl₁, hi₁⟩ :=
    exists_call (s := s) (o := o) (ask (m := .hasNext) (by simp)) es
  obtain ⟨next, es₂, h₂, hg₂, hl₂, hi₂⟩ :=
    exists_call (s := s) (o := o) (ask (m := .next) (by simp)) es₁
  obtain ⟨entryClass, es₃, h₃, hg₃, hl₃, hi₃⟩ : ∃ index es',
      entry (.classRef ClassName.entry) es₂ = (index, es') ∧ es₂.Grows es' ∧
      es'.nextLocal = es₂.nextLocal ∧
      (es'.Within s → (Instr.checkCast index).Linked o.Calls s.pool) :=
    ⟨_, _, rfl, grows_entry _ _, rfl, fun hw => ⟨_, get?_entry hw⟩⟩
  obtain ⟨getKey, es₄, h₄, hg₄, hl₄, hi₄⟩ :=
    exists_call (s := s) (o := o) (ask (m := .getKey) (by simp)) es₃
  obtain ⟨getValue, es₅, h₅, hg₅, hl₅, hi₅⟩ :=
    exists_call (s := s) (o := o) (ask (m := .getValue) (by simp)) es₄
  obtain ⟨put, es₆, h₆, hg₆, hl₆, hi₆⟩ := exists_call (s := s) o.calls_put es₅
  refine ⟨⟨slot, head, done, hasNext, next, entryClass, getKey, getValue, put⟩, es₆, ?_, rfl,
    hg₁.trans (hg₂.trans (hg₃.trans (hg₄.trans (hg₅.trans hg₆)))), by omega, fun hw₆ => ?_⟩
  · simp only [spreadLoop, bind, StateT.bind, h₁, h₂, h₃, h₄, h₅, h₆]
    rfl
  · have hw₅ := hw₆.of_grows hg₆
    have hw₄ := hw₅.of_grows hg₅
    have hw₃ := hw₄.of_grows hg₄
    have hw₂ := hw₃.of_grows hg₃
    simp only [CodePart.Settled, SpreadLoop.code, List.forall_mem_cons]
    exact ⟨trivial, trivial, trivial, hi₁ (hw₂.of_grows hg₂), trivial, trivial, trivial, hi₂ hw₂,
      hi₃ hw₃, trivial, hi₄ hw₄, trivial, hi₅ hw₅, hi₆ hw₆, trivial, trivial, trivial, nofun⟩

/-- A spread takes the slot that is free before its source is evaluated. -/
theorem Composes.loop {loop : SpreadLoop} (h : Composes s o vars es.oneLocal.twoLabels a es')
    (hslot : loop.slot = es.nextLocal) (hg : es'.Grows es'') (hl : es''.nextLocal = es'.nextLocal)
    (hs : es''.Within s → (CodePart.spread loop).Settled s.pool o vars) :
    Composes s o vars es (a ++ loop.code) es'' := by
  have hlabels : es.nextLabel + 2 ≤ es'.nextLabel := h.grows.labels
  have hlocals : es.nextLocal + 1 ≤ es'.nextLocal := h.grows.locals
  have hskip : es.Grows es' := ⟨h.grows.pool, by omega, by omega⟩
  refine ⟨hskip.trans hg, fun hw => ?_⟩
  obtain ⟨parts, rfl, hcut⟩ := h.parts (hw.of_grows hg)
  refine ⟨parts ++ [.spread loop], by simp [CodePart.code], ?_, fun slot => ?_⟩
  · exact List.forall_mem_append.mpr ⟨hcut.settled, List.forall_mem_singleton.mpr (hs hw)⟩
  · have hcount : _ = if es.nextLocal + 1 ≤ slot ∧ slot < es'.nextLocal then 1 else 0 :=
      hcut.slots slot
    have hone : ([CodePart.spread loop].filterMap CodePart.slot?).count slot =
        if es.nextLocal = slot then 1 else 0 := by
      simp [CodePart.slot?, hslot, List.count_singleton]
    rw [List.filterMap_append, List.count_append, hcount, hone, hl]
    split_ifs <;> omega

/-- A spread is the code of its source and a loop on a slot of its own. -/
theorem composes_spread {source : Typed} (tag : EntryTag)
    (h : ∀ es, Composes s o vars es (expr o source es).1 (expr o source es).2) :
    Composes s o vars es (planEntry o (.spread source tag) es).1
      (planEntry o (.spread source tag) es).2 := by
  have hsource := h es.oneLocal.twoLabels
  rw [planEntry_spread]
  generalize expr o source es.oneLocal.twoLabels = r at hsource ⊢
  obtain ⟨opening, hopening, hopens⟩ :=
    openSpread_eq s o vars source.type es.nextLocal r.2
  obtain ⟨loop, es', hloop, hslot, hg, hl, hsettled⟩ := exists_spreadLoop s o vars
    es.nextLocal es.nextLabel (es.nextLabel + 1) (openSpread source.type es.nextLocal r.2).2
  have hcode : r.1 ++ (opening ++ [.store .reference es.nextLocal]) ++ loop.code.tail =
      r.1 ++ opening ++ loop.code := by
    simp [SpreadLoop.code, hslot]
  simp only [hopening, hloop, hcode]
  exact (hsource.append hopens).loop hslot hg hl hsettled

theorem composes_dup : Composes s o vars es [.dup .dup] es := (settles_bare rfl).composes es

mutual

/-- The code of a well-typed tree consists of settled instructions and spread loops. -/
theorem composes_expr : ∀ (e : Typed) (es : EmitState), e.WellTyped false vars →
    Composes s o vars es (expr o e es).1 (expr o e es).2
  | .constant d _, es, _ => by
    rw [expr]
    exact (settles_constant d).composes es
  | .read v _, es, h => by
    rw [expr]
    refine (settles_pure ?_).composes es
    exact List.forall_mem_singleton.mpr ⟨trivial, v, h.1, rfl, rfl⟩
  | .convert e step _, es, h => by
    rw [expr]
    exact (composes_expr e es h.1).append ((settles_conversion h.2.1).composes _)
  | .arith op k l r _, es, h => by
    rw [expr]
    exact ((composes_expr l es h.1).append (composes_expr r _ h.2.1)).bare rfl
  | .power l r _, es, h => by
    rw [expr]
    have hpow : Method.Registered .static .pow :=
      Method.registered_other .pow (by decide) (by decide)
    exact ((composes_expr l es h.1).append (composes_expr r _ h.2.1)).append
      ((settles_library hpow).composes _)
  | .negate k e _, es, h => by
    rw [expr]
    exact (composes_expr e es h.1).bare rfl
  | .complement k e _, es, h => by
    rw [expr]
    exact ((composes_expr e es h.1).append ((settles_complementMask _).composes _)).bare rfl
  | .not e _, es, h => by
    rw [expr]
    exact (composes_expr e es h.1).bare rfl
  | .compare op mode l r _, es, h => by
    have hl := composes_expr l es.twoLabels h.1
    have hr := composes_expr r es.twoLabels h.2.1
    have hboth := hl.append (composes_expr r _ h.2.1)
    have hnum (hr : mode ≠ .reference) (hn : mode ≠ .nullCheck) (tag : Tag) :
        Composes s o vars es (expr o (.compare op mode l r tag) es).1
          (expr o (.compare op mode l r tag) es).2 := by
      rw [expr_compare_numbers _ _ _ _ _ _ hr hn]
      refine Composes.unlabelled ((hboth.bare ?_).bare rfl)
      cases numericKind mode <;> rfl
    cases mode with
    | reference =>
      have hequals : Method.Registered .static .equals :=
        Method.registered_other .equals (by decide) (by decide)
      rw [expr_compare_reference]
      refine Composes.unlabelled ((hboth.append ((settles_library hequals).composes _)).bare ?_)
      split_ifs <;> rfl
    | nullCheck =>
      have he : Composes s o vars es.twoLabels
          (expr o (if l.type.isNull then r else l) es.twoLabels).1
          (expr o (if l.type.isNull then r else l) es.twoLabels).2 := by
        split_ifs
        · exact hr
        · exact hl
      rw [expr_compare_nullCheck]
      refine Composes.unlabelled ((he.bare ?_).bare rfl)
      split_ifs <;> rfl
    | numeric k => exact hnum nofun nofun _
    | boolean => exact hnum nofun nofun _
  | .logical op l r _, es, h => by
    rw [expr_logical]
    exact (((composes_expr l es.twoLabels h.1).bare rfl).append
      (composes_expr r _ h.2.1)).bare rfl |>.unlabelled
  | .concat l r _, es, h => by
    rw [expr]
    have hconcat : Method.Registered .virtual .concat :=
      Method.registered_other .concat (by decide) (by decide)
    exact ((composes_expr l es h.1).append (composes_expr r _ h.2.1)).append
      ((settles_library hconcat).composes _)
  | .update v delta before _, es, h => by
    rw [expr]
    exact (settles_update h.1 delta before).composes es
  | .assign v e _, es, h => by
    rw [expr]
    refine (composes_expr e es h.2.1).tail ?_
    have hdup : (dupFor v.type.stackKind).Settled s.pool o vars :=
      Instr.settled_of_bare (isBare_dupFor _)
    have hstore : (store v).Settled s.pool o vars := ⟨trivial, v, h.1, rfl, rfl⟩
    simp [hdup, hstore]
  | .conditional t y n _, es, h => by
    rw [expr_conditional]
    exact (((((composes_expr t es.twoLabels h.1).bare rfl).append
      (composes_expr y _ h.2.1)).bare rfl).append (composes_expr n _ h.2.2.1)).bare rfl
      |>.unlabelled
  | .record _ entries _, es, h => by
    rw [expr]
    exact ((settles_new (.inl rfl)).composes es).append (composes_plan entries _ h.1)
  | .list items _, es, h => by
    rw [expr]
    obtain ⟨t, hitems, -⟩ := h
    exact ((settles_new (.inr rfl)).composes es).append (composes_elements items _ hitems)

theorem composes_elements {t : Ty} : ∀ (items : List Typed) (es : EmitState),
    Typed.AllWellTyped false vars t items →
    Composes s o vars es (elements o items es).1 (elements o items es).2
  | [], es, _ => by
    rw [elements]
    exact (settles_bare rfl).composes es
  | e :: rest, es, h => by
    rw [elements]
    have hadd : o.Calls .virtual (.add o.list) := .inr ⟨nofun, by simp⟩
    exact (((composes_dup.append (composes_expr e es h.1)).append
      ((settles_call hadd).composes _)).bare rfl).append (composes_elements rest _ h.2.2)

theorem composes_planEntry {r : RecordTy} : ∀ (e : Entry) (es : EmitState),
    e.WellTyped false vars r →
    Composes s o vars es (planEntry o e es).1 (planEntry o e es).2
  | .fixed key stored value _, es, h => by
    rw [planEntry]
    exact (((composes_dup.append ((settles_fixedKey key stored).composes es)).append
      (composes_expr value _ h.2.2.1)).append ((settles_call o.calls_put).composes _)).bare rfl
  | .computed key value _, es, h => by
    rw [planEntry]
    exact (((composes_dup.append (composes_expr key es h.1)).append
      (composes_expr value _ h.2.2.1)).append ((settles_call o.calls_put).composes _)).bare rfl
  | .spread source tag, es, h => composes_spread tag fun es => composes_expr source es h.1

theorem composes_plan {r : RecordTy} : ∀ (entries : List Entry) (es : EmitState),
    Entry.AllWellTyped false vars r entries →
    Composes s o vars es (plan o entries es).1 (plan o entries es).2
  | [], es, _ => by
    rw [plan]
    exact (settles_bare rfl).composes es
  | e :: rest, es, h => by
    rw [plan]
    exact (composes_planEntry e es h.1).append (composes_plan rest _ h.2)

end

/-- The induction is on the initializers: those before them have declared `vars`. -/
theorem composes_initializers {is : List Initializer} (es : EmitState)
    (h : Initializer.AllWellTyped false vars is) :
    Composes s o (vars ++ is.map (·.target)) es (initializers o is es).1
      (initializers o is es).2 := by
  induction is generalizing vars es with
  | nil => exact (settles_bare rfl).composes es
  | cons i rest ih =>
    obtain ⟨hi, -, -, hrest⟩ := h
    have hrest' := ih (expr o i.value es).2 hrest
    have hvars :
        vars ++ (i :: rest).map (·.target) = vars ++ [i.target] ++ rest.map (·.target) := by
      simp
    rw [hvars]
    have hmore : vars ⊆ vars ++ [i.target] ++ rest.map (·.target) := fun x hx => by simp [hx]
    have hvalue := (composes_expr (s := s) (o := o) i.value es hi).mono hmore
    have hstore : (store i.target).Settled s.pool o
        (vars ++ [i.target] ++ rest.map (·.target)) :=
      ⟨trivial, i.target, by simp, rfl, rfl⟩
    exact (hvalue.tail (List.forall_mem_singleton.mpr hstore)).append hrest'

end Emit

namespace Local.Laid

variable {first free : Nat} {vars : List Local}

theorem pairwise (h : Laid first vars free) :
    vars.Pairwise fun x y => x.slot + x.type.stackKind.size ≤ y.slot := by
  induction vars generalizing first with
  | nil => exact .nil
  | cons x rest ih =>
    obtain ⟨rfl, hrest⟩ := h
    exact .cons (fun y hy => (hrest.bounds hy).1) (ih hrest)

theorem unique {free' : Nat} (h : Laid first vars free) (h' : Laid first vars free') :
    free = free' := by
  induction vars generalizing first with
  | nil => exact h.symm.trans h'
  | cons x rest ih => exact ih h.2 h'.2

end Local.Laid

/-- Only `long` and `double` take two slots. -/
theorem Ty.size_stackKind (t : Ty) :
    t.stackKind.size = if t = .prim .long ∨ t = .prim .double then 2 else 1 := by
  cases t with
  | prim k => cases k <;> rfl
  | _ => rfl

namespace TypedUnit

variable {u : TypedUnit}

theorem locals_sequence (o : Options) (hu : u.WellTyped false) :
    (u.sequence o).locals = u.initializers.map (·.target) := hu.locals

/-- The locals of a unit fill the slots below its first free one. -/
theorem laid_sequence (o : Options) (hu : u.WellTyped false) :
    Local.Laid 0 (u.sequence o).locals u.freeSlot := by
  rw [locals_sequence o hu]
  exact hu.slots

/-- The code of a unit cut into parts. -/
theorem exists_parts (o : Options) (hu : u.WellTyped false) :
    ∃ parts : List CodePart, parts.flatMap CodePart.code = (u.sequence o).code ∧
      Emit.Cut (u.sequence o).pool o (u.sequence o).locals u.freeSlot (u.sequence o).maxLocals
        parts := by
  have hstores := Emit.composes_initializers (s := u.sequence o) (o := o)
    (.start u.freeSlot) hu.initializers
  have hbody := Emit.composes_expr (s := u.sequence o) (o := o) u.body
    (Emit.initializers o u.initializers (.start u.freeSlot)).2 hu.body
  rw [locals_sequence o hu]
  exact (hstores.append hbody).parts (u.within_sequence o)

end TypedUnit

namespace Emit.Cut

variable {pool : Pool} {o : Options} {vars : List Local} {first free : Nat}
  {parts : List CodePart} {i : Instr}

/-- Every instruction of code cut into parts is linked. -/
theorem linked (h : Cut pool o vars first free parts) (hi : i ∈ parts.flatMap CodePart.code) :
    i.Linked o.Calls pool := by
  obtain ⟨part, hpart, hi⟩ := List.mem_flatMap.mp hi
  exact (h.settled part hpart).linked hi

/-- An instruction names a declared local or the slot of the loop it is part of. -/
theorem declared_or_scratch (h : Cut pool o vars first free parts)
    (hi : i ∈ parts.flatMap CodePart.code) :
    i.Declared vars ∨ ∃ slot, first ≤ slot ∧ slot < free ∧
      (i = .load .reference slot ∨ i = .store .reference slot) := by
  obtain ⟨part, hpart, hi⟩ := List.mem_flatMap.mp hi
  cases part with
  | single j =>
    obtain rfl := List.mem_singleton.mp hi
    exact .inl (Instr.Settled.declared (h.settled _ hpart))
  | spread loop =>
    have hmem : loop.slot ∈ parts.filterMap CodePart.slot? :=
      List.mem_filterMap.mpr ⟨_, hpart, rfl⟩
    have hcount := List.count_pos_iff.mpr hmem
    rw [h.slots] at hcount
    have hslot : first ≤ loop.slot ∧ loop.slot < free := by
      split_ifs at hcount <;> omega
    exact loop.declared_or_scratch hi |>.imp_right fun hscratch =>
      ⟨loop.slot, hslot.1, hslot.2, hscratch⟩

end Emit.Cut

section compiled

variable {u : SourceUnit} {c : Compiled} {o : Options}

/-- The code of a unit is linked, whether it is executed or not. A label is placed once at most, and
once if something jumps to it. Every index resolves to an entry that its instruction can use, and
every call to a method of the library; exactly the static ones are called as such. -/
theorem compiled_code_links (ho : o.Known) (h : compile o u = .ok c) :
    (∀ l, Instr.placing l c.sequence.code ≤ 1) ∧
    (∀ i ∈ c.sequence.code, ∀ l, i.target? = some l → Instr.placing l c.sequence.code = 1) ∧
    ∀ i ∈ c.sequence.code, i.Linked Method.Registered c.sequence.pool := by
  obtain ⟨t, ht, rfl⟩ := compile_eq_ok h
  have hfragment : Emit.Fragment _ (t.sequence o).code _ :=
    Emit.fragment_unitCode o t (.start t.freeSlot)
  refine ⟨hfragment.once, fun i hi l hl => ?_, fun i hi => ?_⟩
  · have honce := hfragment.once l
    have hjumps : 0 < Instr.jumping l (t.sequence o).code := Instr.jumping_pos hi hl
    have hplaced := hfragment.linked l
    change Instr.placing l (t.sequence o).code = 1
    omega
  · obtain ⟨parts, hcode, hcut⟩ := TypedUnit.exists_parts o (Check.wellTyped_unit nofun ht)
    exact (hcut.linked (hcode ▸ hi)).mono fun _ _ => ho.registered

/-- A wide local, and spreads one after another and one inside the other. -/
def spreads : SourceUnit :=
  let o := Span.origin
  let r := Expr.var "r" o
  let counts := TypeExpr.generic "Record" [.simple "String" o, .simple "int" o] o
  ⟨"spreads", [⟨"n", o, some (.simple "long" o), some (.int 2 o), o⟩,
    ⟨"r", o, some counts, some (.ofObject [.ofKeyed (.name "a" o) (.int 1 o)]), o⟩],
    .ofObject [.ofSpread r, .ofSpread (.ofObject [.ofSpread r, .ofKeyed (.name "b" o) (.int 4 o)])],
    some counts⟩

theorem Check.exists_unit_of_any {p : TypedUnit → Bool} (h : (Check.unit u).toOption.any p = true) :
    ∃ t, Check.unit u = .ok t ∧ p t = true := by
  cases ht : Check.unit u with
  | error e => simp [ht, Except.toOption] at h
  | ok t => exact ⟨t, rfl, by simpa [ht, Except.toOption] using h⟩

theorem spreads_code_links :
    ∃ c, compile ⟨"java/util/HashMap", "java/util/LinkedList", false⟩ spreads = .ok c ∧
      (∃ i ∈ c.sequence.code, i.target? = some 4 ∧ Instr.placing 4 c.sequence.code = 1) ∧
      ∃ i ∈ c.sequence.code, i.mnemonic = "invokeinterface" ∧
        i.Linked Method.Registered c.sequence.pool := by
  let o : Options := ⟨"java/util/HashMap", "java/util/LinkedList", false⟩
  have hany : (Check.unit spreads).toOption.any (fun t =>
      (t.sequence o).code.any (·.target? == some 4) &&
        (t.sequence o).code.any (·.mnemonic == "invokeinterface")) = true := by
    decide +kernel
  obtain ⟨t, ht, hcode⟩ := Check.exists_unit_of_any hany
  simp only [Bool.and_eq_true, List.any_eq_true, beq_iff_eq] at hcode
  obtain ⟨⟨i, hi, hl⟩, j, hj, hm⟩ := hcode
  have hc := compile_of_check (o := o) ht
  obtain ⟨-, hplaced, hlinked⟩ := compiled_code_links ⟨by decide, by decide⟩ hc
  exact ⟨_, hc, ⟨i, hi, hl, hplaced i hi 4 hl⟩, j, hj, hm, hlinked j hj⟩

/-- Declared locals lie one after the other from slot 0. Code accesses a slot as a declared local
has it, or as a reference above them all; the latter only in spread loops, no two of which share a
slot. Nothing reaches beyond the slots a run is given. -/
theorem compiled_slots_apart (h : compile o u = .ok c) :
    c.sequence.locals.map (·.name) = u.declarations.map (·.name) ∧
    (∀ x ∈ c.sequence.locals, x.type.stackKind.size =
      if x.type = .prim .long ∨ x.type = .prim .double then 2 else 1) ∧
    ∃ free, Local.Laid 0 c.sequence.locals free ∧ free ≤ c.sequence.maxLocals ∧
      (c.sequence.locals.Pairwise fun x y => x.slot + x.type.stackKind.size ≤ y.slot) ∧
      (∀ i ∈ c.sequence.code,
        (i.Declared c.sequence.locals ∨ ∃ slot, free ≤ slot ∧
          (i = .load .reference slot ∨ i = .store .reference slot)) ∧
        ∀ slot size, i.accessed? = some (slot, size) → slot + size ≤ c.sequence.maxLocals) ∧
      ∃ parts : List CodePart, parts.flatMap CodePart.code = c.sequence.code ∧
        (∀ i, .single i ∈ parts → i.Declared c.sequence.locals) ∧
        ∀ slot, (parts.filterMap CodePart.slot?).count slot =
          if free ≤ slot ∧ slot < c.sequence.maxLocals then 1 else 0 := by
  have hnames := names_compile h
  obtain ⟨t, ht, rfl⟩ := compile_eq_ok h
  have hu : t.WellTyped false := Check.wellTyped_unit nofun ht
  have hlaid := TypedUnit.laid_sequence o hu
  have hroom := (TypedUnit.hosts_sequence (o := o) hu).room
  obtain ⟨parts, hcode, hcut⟩ := TypedUnit.exists_parts o hu
  refine ⟨hnames, fun x _ => x.type.size_stackKind, t.freeSlot, hlaid, hroom, hlaid.pairwise,
    fun i hi => ?_, parts, hcode, fun i hi => (hcut.settled _ hi).declared, hcut.slots⟩
  rcases hcut.declared_or_scratch (hcode ▸ hi) with hd | ⟨slot, hfree, hlt, hi⟩
  · exact ⟨.inl hd, fun slot size ha => Nat.le_trans (hd.bounds hlaid ha) hroom⟩
  · refine ⟨.inr ⟨slot, hfree, hi⟩, fun slot' size ha => ?_⟩
    rcases hi with rfl | rfl <;> cases ha <;> exact hlt

theorem spreads_slots_apart :
    ∃ c, compile .default spreads = .ok c ∧ c.sequence.maxLocals = 6 ∧
      c.sequence.locals.map (·.slot) = [0, 2] ∧ Local.Laid 0 c.sequence.locals 3 ∧
      ∃ parts : List CodePart, parts.flatMap CodePart.code = c.sequence.code ∧
        (parts.filterMap CodePart.slot?).count 4 = 1 := by
  have hany : (Check.unit spreads).toOption.any (fun t => (t.sequence .default).maxLocals == 6 &&
      (t.sequence .default).locals.map (·.slot) == [0, 2] && t.freeSlot == 3) = true := by
    decide +kernel
  obtain ⟨t, ht, hcode⟩ := Check.exists_unit_of_any hany
  simp only [Bool.and_eq_true, beq_iff_eq] at hcode
  obtain ⟨⟨hmax, hslots⟩, hfree⟩ := hcode
  have hc := compile_of_check (o := .default) ht
  obtain ⟨-, -, free, hlaid, -, -, -, parts, hparts, -, hcount⟩ := compiled_slots_apart hc
  obtain rfl : free = 3 :=
    hfree ▸ hlaid.unique (TypedUnit.laid_sequence .default (Check.wellTyped_unit nofun ht))
  refine ⟨_, hc, hmax, hslots, hlaid, parts, hparts, (hcount 4).trans ?_⟩
  simp only [hmax]
  rfl

end compiled

end StackExpr
