import StackExpr.Proofs.Walks

/-! Emitted code has no height problem: the code of a tree raises the stack by the slots of the
tree's type, so a well-typed unit is emitted whatever the options ask for. -/
namespace StackExpr

/-- The code of a tree leaves one value of the tree's type. -/
def Typed.Rises (s : Sequence) (o : Options) (e : Typed) : Prop :=
  ∀ (es : EmitState) (h : Nat), (Emit.expr o e es).2.Within s →
    HeightWalk.Lifts s.pool es.nextLabel (Emit.expr o e es).2.nextLabel (Emit.expr o e es).1 h
      (h + e.type.stackKind.size)

namespace Typed

open HeightWalk

variable {s : Sequence} {o : Options} {es : EmitState} {vars : List Local} {e l r t y n : Typed}
  {tag : Tag} {c : List Instr} {h h' hi : Nat} {k : Kind} {x : Local}

/-- Code after an operand starts above the operand's value. -/
theorem Rises.then (he : e.Rises s o) (hw : (Emit.expr o e es).2.Within s)
    (hc : Moves s.pool c (h + e.type.stackKind.size) h')
    (hle : (Emit.expr o e es).2.nextLabel ≤ hi) :
    Lifts s.pool es.nextLabel hi ((Emit.expr o e es).1 ++ c) h h' :=
  (he es h hw).append (hc.lifts hle) (Emit.fragment_expr o e es).grows.labels

/-- Two operands leave their values one above the other. -/
theorem Rises.pair (hl : l.Rises s o) (hr : r.Rises s o)
    (hw : (Emit.expr o r (Emit.expr o l es).2).2.Within s) (h : Nat) :
    Lifts s.pool es.nextLabel (Emit.expr o r (Emit.expr o l es).2).2.nextLabel
      ((Emit.expr o l es).1 ++ (Emit.expr o r (Emit.expr o l es).2).1) h
      (h + l.type.stackKind.size + r.type.stackKind.size) := by
  have hgl := (Emit.fragment_expr o l es).grows
  have hgr := (Emit.fragment_expr o r (Emit.expr o l es).2).grows
  exact (hl es h (hw.of_grows hgr)).append (hr _ _ hw) hgl.labels

theorem Rises.both (hl : l.Rises s o) (hr : r.Rises s o)
    (hw : (Emit.expr o r (Emit.expr o l es).2).2.Within s)
    (hc : Moves s.pool c (h + l.type.stackKind.size + r.type.stackKind.size) h')
    (hle : (Emit.expr o r (Emit.expr o l es).2).2.nextLabel ≤ hi) :
    Lifts s.pool es.nextLabel hi
      ((Emit.expr o l es).1 ++ (Emit.expr o r (Emit.expr o l es).2).1 ++ c) h h' := by
  have hgl := (Emit.fragment_expr o l es).grows
  have hgr := (Emit.fragment_expr o r (Emit.expr o l es).2).grows
  exact (hl.pair hr hw h).append (hc.lifts hle) (Nat.le_trans hgl.labels hgr.labels)

/-- A conversion replaces a value by one of the step's result. As here, there is one lemma for each
kind of node. -/
theorem rises_convert {step : Conversion} (he : e.Rises s o) (ht : step.Takes false e.type)
    (hf : step.result.Fits false tag.type) : (convert e step tag).Rises s o := by
  intro es h hw
  rw [Emit.expr] at hw ⊢
  have hg := (Emit.plain_conversion o e.type step (Emit.expr o e es).2).1
  have hm := Emit.moves_conversion ht hw h
  rw [hf.stackKind_eq] at hm
  exact he.then (hw.of_grows hg) hm hg.labels

theorem rises_arith {op : ArithOp} (hl : l.Rises s o) (hr : r.Rises s o) (htl : l.type = .prim k)
    (htr : r.type = .prim (if op.isShift then .int else k))
    (hf : (Ty.prim k).Fits false tag.type) : (arith op k l r tag).Rises s o := by
  intro es h hw
  rw [Emit.expr] at hw ⊢
  refine hl.both hr hw ?_ (Nat.le_refl _)
  rw [htl, htr, show (arith op k l r tag).type = tag.type from rfl, ← hf.stackKind_eq]
  refine moves_plain rfl rfl (k := h) ?_ rfl
  change h + k.stackKind.size + (if op.isShift then Kind.int else k).stackKind.size =
    h + (k.stackKind.size + if op.isShift then 1 else k.stackKind.size)
  split_ifs <;> exact Nat.add_assoc ..

/-- Calls on two operands. -/
theorem lifts_call {mode : InvokeMode} {m : MethodRef} (arguments : Nat) {q : Nat}
    (hl : l.Rises s o) (hr : r.Rises s o)
    (hw : (Emit.call mode m (Emit.expr o r (Emit.expr o l es).2).2).2.Within s)
    (hd : Descriptor.slots? m.descriptor = some (arguments, q))
    (hsize : l.type.stackKind.size + r.type.stackKind.size =
      arguments + if mode = .static then 0 else 1) (h : Nat) :
    Lifts s.pool es.nextLabel (Emit.expr o r (Emit.expr o l es).2).2.nextLabel
      ((Emit.expr o l es).1 ++ (Emit.expr o r (Emit.expr o l es).2).1 ++
        (Emit.call mode m (Emit.expr o r (Emit.expr o l es).2).2).1) h (h + q) := by
  refine hl.both hr (hw.of_grows (Emit.plain_call _).1) (Emit.moves_call hw hd ?_ rfl)
    (Nat.le_refl _)
  rw [Nat.add_assoc, hsize]

theorem rises_power (hl : l.Rises s o) (hr : r.Rises s o) (htl : l.type = .prim .double)
    (htr : r.type = .prim .double) (hf : (Ty.prim .double).Fits false tag.type) :
    (power l r tag).Rises s o := by
  intro es h hw
  rw [Emit.expr] at hw ⊢
  rw [show (power l r tag).type = tag.type from rfl, ← hf.stackKind_eq]
  refine lifts_call 4 hl hr hw (by decide +kernel) ?_ h
  rw [htl, htr]
  rfl

theorem rises_negate (he : e.Rises s o) (ht : e.type = .prim k)
    (hf : (Ty.prim k).Fits false tag.type) : (negate k e tag).Rises s o := by
  intro es h hw
  rw [Emit.expr] at hw ⊢
  refine he.then hw ?_ (Nat.le_refl _)
  rw [ht, show (negate k e tag).type = tag.type from rfl, ← hf.stackKind_eq]
  exact moves_plain (e := ⟨k.stackKind.size, k.stackKind.size⟩) rfl rfl rfl rfl

theorem rises_complement (he : e.Rises s o) (ht : e.type = .prim k) (hk : k = .int ∨ k = .long)
    (hf : (Ty.prim k).Fits false tag.type) : (complement k e tag).Rises s o := by
  intro es h hw
  rw [Emit.expr] at hw ⊢
  have hg := (Emit.plain_complementMask k.stackKind (Emit.expr o e es).2).1
  have hm : Moves s.pool ((Emit.complementMask k.stackKind (Emit.expr o e es).2).1 ++
      [.arith .xor k.stackKind]) (h + e.type.stackKind.size)
      (h + (complement k e tag).type.stackKind.size) := by
    rw [ht, show (complement k e tag).type = tag.type from rfl, ← hf.stackKind_eq]
    rcases hk with rfl | rfl
    · exact (Emit.moves_int (-1) (h + 1)).append (moves_plain (e := ⟨2, 1⟩) rfl rfl rfl rfl)
    · exact (Emit.moves_long (-1) (h + 2)).append (moves_plain (e := ⟨4, 2⟩) rfl rfl rfl rfl)
  have hlift := he.then (hw.of_grows hg) hm hg.labels
  rwa [← List.append_assoc] at hlift

/-- Negation of the boolean on the stack. -/
theorem moves_flip (h : Nat) : Moves s.pool Emit.flip (h + 1) (h + 1) := by
  have hone : Moves s.pool [.intConst 1] (h + 1) (h + 2) :=
    moves_plain (e := ⟨0, 1⟩) rfl rfl rfl rfl
  exact hone.cons (moves_plain (e := ⟨2, 1⟩) rfl rfl rfl rfl)

theorem rises_not (he : e.Rises s o) (ht : e.type = .prim .boolean)
    (hf : (Ty.prim .boolean).Fits false tag.type) : (not e tag).Rises s o := by
  intro es h hw
  rw [Emit.expr] at hw ⊢
  refine he.then hw ?_ (Nat.le_refl _)
  rw [ht, show (not e tag).type = tag.type from rfl, ← hf.stackKind_eq]
  exact moves_flip h

theorem rises_concat (hl : l.Rises s o) (hr : r.Rises s o)
    (hkl : l.type.stackKind = .reference) (hkr : r.type.stackKind = .reference)
    (hf : Ty.string.Fits false tag.type) : (concat l r tag).Rises s o := by
  intro es h hw
  rw [Emit.expr] at hw ⊢
  rw [show (concat l r tag).type = tag.type from rfl, ← hf.stackKind_eq]
  refine lifts_call 1 hl hr hw (by decide +kernel) ?_ h
  rw [hkl, hkr]
  rfl

theorem rises_assign (he : e.Rises s o) (ht : e.type.Fits false x.type)
    (hf : x.type.Fits false tag.type) : (assign x e tag).Rises s o := by
  intro es h hw
  rw [Emit.expr] at hw ⊢
  refine he.then hw ?_ (Nat.le_refl _)
  rw [ht.stackKind_eq, show (assign x e tag).type = tag.type from rfl, ← hf.stackKind_eq]
  exact (Emit.moves_dupFor _ h).cons (Emit.moves_store _ _ _)

/-- Two numbers are taken off and a jump is made or not. -/
theorem walks_compareNumbers {op : Comparison} {yes : Nat} {f : Nat → Option Nat} {j : Kind}
    (hj : j.isPromoted = true ∨ j = .boolean) (hyes : f yes = none) (h : Nat) :
    Walks s.pool (Emit.compareNumbers op j.stackKind yes)
      (some (h + j.stackKind.size + j.stackKind.size)) f (some h)
      (Function.update f yes (some h)) := by
  have hzero {c : Condition} : Walks s.pool [.ifZero c yes] (some (h + 1)) f (some h)
      (Function.update f yes (some h)) :=
    walks_jump (e := ⟨1, 0⟩) rfl (fun _ => Instr.noConfusion) rfl rfl rfl (.inl hyes)
  have hint {c : Condition} : Walks s.pool [.ifInt c yes] (some (h + 2)) f (some h)
      (Function.update f yes (some h)) :=
    walks_jump (e := ⟨2, 0⟩) rfl (fun _ => Instr.noConfusion) rfl rfl rfl (.inl hyes)
  have hcmp (op : CompareOp) : Moves s.pool [.compare op] (h + 2 * op.kind.size) (h + 1) :=
    moves_plain (e := ⟨2 * op.kind.size, 1⟩) rfl rfl rfl rfl
  cases j with
  | int | boolean => exact hint
  | long => exact (hcmp .lcmp _).cons hzero
  | float =>
    simp only [Emit.compareNumbers]
    split_ifs
    · exact (hcmp .fcmpg _).cons hzero
    · exact (hcmp .fcmpl _).cons hzero
  | double =>
    simp only [Emit.compareNumbers]
    split_ifs
    · exact (hcmp .dcmpg _).cons hzero
    · exact (hcmp .dcmpl _).cons hzero
  | byte | short | char => rcases hj with h | h <;> cases h

theorem rises_compareNumbers {op : Comparison} {mode : OperandMode} (hl : l.Rises s o)
    (hr : r.Rises s o) (hmr : mode ≠ .reference) (hmn : mode ≠ .nullCheck)
    (hk : k.isPromoted = true ∨ k = .boolean) (htl : l.type = .prim k) (htr : r.type = .prim k)
    (hm : Emit.numericKind mode = k.stackKind) (hf : (Ty.prim .boolean).Fits false tag.type) :
    (compare op mode l r tag).Rises s o := by
  intro es h hw
  rw [Emit.expr_compare_numbers _ _ _ _ _ _ hmr hmn] at hw ⊢
  rw [show (compare op mode l r tag).type = tag.type from rfl, ← hf.stackKind_eq, hm]
  have hgl := (Emit.fragment_expr o l es.twoLabels).grows
  have hgr := (Emit.fragment_expr o r (Emit.expr o l es.twoLabels).2).grows
  refine Emit.lifts_choice (hl.pair hr hw h) (Nat.le_trans hgl.labels hgr.labels) fun f hfirst => ?_
  rw [htl, htr]
  exact walks_compareNumbers hk hfirst h

/-- A comparison leaves a boolean on either side of its jump. -/
theorem rises_compare {op : Comparison} {mode : OperandMode} (hl : l.Rises s o)
    (hr : r.Rises s o) (hm : mode.Takes l.type r.type)
    (hf : (Ty.prim .boolean).Fits false tag.type) : (compare op mode l r tag).Rises s o := by
  have hone {t : Ty} (hp : t.isPrimitive = false) : t.stackKind.size = 1 := by
    cases t <;> first | rfl | cases hp
  cases mode with
  | numeric k =>
    exact rises_compareNumbers hl hr OperandMode.noConfusion OperandMode.noConfusion (.inl hm.1)
      hm.2.1 hm.2.2 rfl hf
  | boolean =>
    exact rises_compareNumbers hl hr OperandMode.noConfusion OperandMode.noConfusion (.inr rfl)
      hm.1 hm.2 rfl hf
  | reference =>
    intro es h hw
    rw [Emit.expr_compare_reference] at hw ⊢
    rw [show (compare op .reference l r tag).type = tag.type from rfl, ← hf.stackKind_eq]
    have hgl := (Emit.fragment_expr o l es.twoLabels).grows
    have hgr := (Emit.fragment_expr o r (Emit.expr o l es.twoLabels).2).grows
    have hequals := lifts_call 2 (q := 1) hl hr hw (by decide +kernel)
      (by rw [hone hm.1, hone hm.2]; rfl) h
    refine Lifts.unlabelled (hequals.tail ?_ (Nat.le_trans hgl.labels hgr.labels))
    split_ifs
    · exact moves_flip h
    · exact moves_nil
  | nullCheck =>
    intro es h hw
    rw [Emit.expr_compare_nullCheck] at hw ⊢
    rw [show (compare op .nullCheck l r tag).type = tag.type from rfl, ← hf.stackKind_eq]
    have he : (if l.type.isNull then r else l).Rises s o ∧
        (if l.type.isNull then r else l).type.isPrimitive = false := by
      split_ifs
      · exact ⟨hr, hm.2⟩
      · exact ⟨hl, hm.1⟩
    have hg := (Emit.fragment_expr o (if l.type.isNull then r else l) es.twoLabels).grows
    refine Emit.lifts_choice (he.1 _ h hw) hg.labels fun f hfirst => ?_
    rw [hone he.2]
    split_ifs
    · exact walks_jump (e := ⟨1, 0⟩) rfl (fun _ => Instr.noConfusion) rfl rfl rfl (.inl hfirst)
    · exact walks_jump (e := ⟨1, 0⟩) rfl (fun _ => Instr.noConfusion) rfl rfl rfl (.inl hfirst)

theorem rises_logical {op : LogicalOp} (hl : l.Rises s o) (hr : r.Rises s o)
    (htl : l.type = .prim .boolean) (htr : r.type = .prim .boolean)
    (hf : (Ty.prim .boolean).Fits false tag.type) : (logical op l r tag).Rises s o := by
  intro es h hw
  rw [Emit.expr_logical] at hw ⊢
  rw [show (logical op l r tag).type = tag.type from rfl, ← hf.stackKind_eq]
  have hgl := (Emit.fragment_expr o l es.twoLabels).grows
  have hgr := (Emit.fragment_expr o r (Emit.expr o l es.twoLabels).2).grows
  have hl' := hl es.twoLabels h (hw.of_grows hgr)
  have hr' := hr _ h hw
  rw [htl] at hl'
  rw [htr] at hr'
  exact Emit.lifts_logical hl' hr' hgl.labels hgr.labels

/-- Both branches rise to the same height, where they meet behind the last label. -/
theorem rises_conditional (ht : t.Rises s o) (hy : y.Rises s o) (hn : n.Rises s o)
    (htt : t.type = .prim .boolean) (hfy : y.type.Fits false tag.type)
    (hfn : n.type.Fits false tag.type) : (conditional t y n tag).Rises s o := by
  intro es h hw
  rw [Emit.expr_conditional] at hw ⊢
  have hgt := (Emit.fragment_expr o t es.twoLabels).grows
  have hgy := (Emit.fragment_expr o y (Emit.expr o t es.twoLabels).2).grows
  have hgn := (Emit.fragment_expr o n (Emit.expr o y (Emit.expr o t es.twoLabels).2).2).grows
  have hwy := hw.of_grows hgn
  have ht' := ht es.twoLabels h (hwy.of_grows hgy)
  have hy' := hy _ h hwy
  have hn' := hn _ h hw
  rw [htt] at ht'
  rw [hfy.stackKind_eq] at hy'
  rw [hfn.stackKind_eq] at hn'
  exact Emit.lifts_conditional ht' hy' hn' hgt.labels hgy.labels

end Typed

/-- A string constant travels as a reference, whatever its tag says. -/
theorem Typed.Yields.stackKind_eq {vars : List Local} {e : Typed} {t : Ty}
    (hw : e.WellTyped false vars) (h : e.Yields false t) : e.type.stackKind = t.stackKind := by
  rcases h with hf | ⟨hc, hf⟩
  · exact hf.stackKind_eq
  · rw [← hf.stackKind_eq]
    cases e with
    | constant c tag =>
      cases c with
      | string text => exact (hw .empty).stackKind.symm
      | _ => cases hc
    | _ => cases hc

theorem Ty.stackKind_storage (t : Ty) : t.storage.stackKind = .reference := by cases t <;> rfl

/-- The code of an entry leaves the container it found. -/
def Entry.Stays (s : Sequence) (o : Options) (e : Entry) : Prop :=
  ∀ (es : EmitState) (h : Nat), (Emit.planEntry o e es).2.Within s →
    HeightWalk.Lifts s.pool es.nextLabel (Emit.planEntry o e es).2.nextLabel
      (Emit.planEntry o e es).1 (h + 1) (h + 1)

namespace Entry

open HeightWalk

variable {s : Sequence} {o : Options} {vars : List Local} {key value source : Typed}
  {tag : EntryTag}

theorem moves_dup {pool : Pool} (h : Nat) : Moves pool [.dup .dup] (h + 1) (h + 2) :=
  moves_plain (e := ⟨1, 2⟩) rfl rfl rfl rfl

theorem stays_fixed {c : Constant} {stored : Ty} (hk : c.Keyed stored) (hv : value.Rises s o)
    (hkind : value.type.stackKind = .reference) : (fixed c stored value tag).Stays s o := by
  intro es h hw
  rw [Emit.planEntry] at hw ⊢
  have hwv := hw.of_grows (Emit.plain_call _).1
  have hgk := (Emit.plain_fixedKey c stored es).1
  have hgv := (Emit.fragment_expr o value (Emit.fixedKey c stored es).2).grows
  have hv' := hv _ (h + 3) hwv
  rw [hkind] at hv'
  have hkey := (moves_dup h).append (Emit.moves_fixedKey hk (hwv.of_grows hgv) (h + 2))
  have hlift := ((hkey.lifts hgk.labels).append hv' hgk.labels).tail (Emit.moves_put hw (h + 1))
    (Nat.le_trans hgk.labels hgv.labels)
  rwa [← List.append_assoc] at hlift

theorem stays_computed (hk : key.Rises s o) (hv : value.Rises s o)
    (hkk : key.type.stackKind = .reference) (hkv : value.type.stackKind = .reference) :
    (computed key value tag).Stays s o := by
  intro es h hw
  rw [Emit.planEntry] at hw ⊢
  have hwv := hw.of_grows (Emit.plain_call _).1
  have hgk := (Emit.fragment_expr o key es).grows
  have hgv := (Emit.fragment_expr o value (Emit.expr o key es).2).grows
  have hboth := hk.pair hv hwv (h + 2)
  rw [hkk, hkv] at hboth
  have hle := Nat.le_trans hgk.labels hgv.labels
  have hlift := (((moves_dup h).lifts (Nat.le_refl _)).append hboth (Nat.le_refl _)).tail
    (Emit.moves_put hw (h + 1)) hle
  rwa [← List.append_assoc, ← List.append_assoc] at hlift

/-- The loop of a spread comes back to its head at the height it started from. -/
theorem stays_spread (hs : source.Rises s o) (hkind : source.type.stackKind = .reference) :
    (spread source tag).Stays s o := by
  intro es h hw
  rw [Emit.planEntry_spread] at hw ⊢
  have hwo := hw.of_grows (Emit.grows_spreadLoop o es.nextLocal es.nextLabel (es.nextLabel + 1) _)
  have hgo := (Emit.plain_openSpread source.type es.nextLocal
    (Emit.expr o source es.oneLocal.twoLabels).2).1
  have hgs : es.nextLabel + 2 ≤ _ :=
    (Emit.fragment_expr o source es.oneLocal.twoLabels).grows.labels
  have hs' := hs es.oneLocal.twoLabels (h + 1) (hwo.of_grows hgo)
  rw [hkind] at hs'
  exact Emit.lifts_spread (hs'.append ((Emit.moves_openSpread hwo (h + 1)).lifts hgo.labels) hgs)
    (Nat.le_trans hgs hgo.labels) hw

end Entry

section trees

open HeightWalk Typed Entry

variable {s : Sequence} {vars : List Local} {o : Options}

mutual

/-- The code of a well-typed tree leaves one value of its type. -/
theorem rises_tree : ∀ (e : Typed), e.WellTyped false vars → e.Rises s o
  | .constant c tag, hc => fun es h _ => by
    rw [Emit.expr, show (constant c tag).type = tag.type from rfl, ← (hc .empty).stackKind]
    exact (Emit.moves_constant c h).lifts (Emit.plain_constant c es).1.labels
  | .read x tag, ⟨_, hf⟩ => fun es h _ => by
    rw [Emit.expr, show (read x tag).type = tag.type from rfl, ← hf.stackKind_eq]
    exact (Emit.moves_load _ _ h).lifts (Nat.le_refl _)
  | .convert e _ _, ⟨he, ht, hf⟩ => rises_convert (rises_tree e he) ht hf
  | .arith _ _ l r _, ⟨hl, hr, htl, htr, _, hf⟩ =>
    rises_arith (rises_tree l hl) (rises_tree r hr) htl htr hf
  | .power l r _, ⟨hl, hr, htl, htr, hf⟩ =>
    rises_power (rises_tree l hl) (rises_tree r hr) htl htr hf
  | .negate _ e _, ⟨he, ht, _, hf⟩ => rises_negate (rises_tree e he) ht hf
  | .complement _ e _, ⟨he, ht, hk, hf⟩ => rises_complement (rises_tree e he) ht hk hf
  | .not e _, ⟨he, ht, hf⟩ => rises_not (rises_tree e he) ht hf
  | .compare _ _ l r _, ⟨hl, hr, hm, hf⟩ => rises_compare (rises_tree l hl) (rises_tree r hr) hm hf
  | .logical _ l r _, ⟨hl, hr, htl, htr, hf⟩ =>
    rises_logical (rises_tree l hl) (rises_tree r hr) htl htr hf
  | .concat l r _, ⟨hl, hr, hyl, hyr, hf⟩ =>
    rises_concat (rises_tree l hl) (rises_tree r hr) (hyl.stackKind_eq hl) (hyr.stackKind_eq hr) hf
  | .update x delta before tag, ⟨_, ht, _, hf⟩ => fun es h hw => by
    rw [Emit.expr] at hw ⊢
    rw [show (update x delta before tag).type = tag.type from rfl, ← hf.stackKind_eq]
    exact (Emit.moves_update ht hw h).lifts (Emit.plain_update x delta before es).1.labels
  | .assign _ e _, ⟨_, he, ht, hf⟩ => rises_assign (rises_tree e he) ht hf
  | .conditional t y n _, ⟨ht, hy, hn, htt, hfy, hfn⟩ =>
    rises_conditional (rises_tree t ht) (rises_tree y hy) (rises_tree n hn) htt hfy hfn
  | .record plan entries tag, ⟨he, hf⟩ => fun es h hw => by
    rw [Emit.expr] at hw ⊢
    rw [show (record plan entries tag).type = tag.type from rfl, ← hf.stackKind_eq]
    have hg := (Emit.fragment_plan o entries (Emit.new o.container es).2).grows
    exact ((Emit.moves_new (hw.of_grows hg) h).lifts (Nat.le_refl _)).append
      (stays_plan entries he _ h hw) (Nat.le_refl _)
  | .list items tag, ⟨_, hi, hf⟩ => fun es h hw => by
    rw [Emit.expr] at hw ⊢
    rw [show (list items tag).type = tag.type from rfl, ← hf.stackKind_eq]
    have hg := (Emit.fragment_elements o items (Emit.new o.list es).2).grows
    exact ((Emit.moves_new (hw.of_grows hg) h).lifts (Nat.le_refl _)).append
      (stays_elements items hi _ h hw) (Nat.le_refl _)

theorem stays_entry {r : RecordTy} : ∀ (e : Entry), e.WellTyped false vars r → e.Stays s o
  | .fixed _ _ value _, ⟨hk, _, hv, hfv⟩ =>
    stays_fixed hk (rises_tree value hv) (hfv.stackKind_eq.trans (Ty.stackKind_storage _))
  | .computed key value _, ⟨hk, hyk, hv, hfv⟩ =>
    stays_computed (rises_tree key hk) (rises_tree value hv)
      ((hyk.stackKind_eq hk).trans (Ty.stackKind_storage _))
      (hfv.stackKind_eq.trans (Ty.stackKind_storage _))
  | .spread source _, ⟨hw, ht⟩ => by
    refine stays_spread (rises_tree source hw) ?_
    rcases ht with ⟨k, v, ht, -⟩ | ⟨ht, -⟩ <;> rw [ht] <;> rfl

theorem stays_plan {r : RecordTy} : ∀ (entries : List Entry),
    Entry.AllWellTyped false vars r entries → ∀ (es : EmitState) (h : Nat),
      (Emit.plan o entries es).2.Within s → Lifts s.pool es.nextLabel
        (Emit.plan o entries es).2.nextLabel (Emit.plan o entries es).1 (h + 1) (h + 1)
  | [], _, es, h, _ => by
    rw [Emit.plan]
    exact moves_nil.lifts (Nat.le_refl _)
  | e :: rest, ⟨he, hr⟩, es, h, hw => by
    rw [Emit.plan] at hw ⊢
    have hge := (Emit.fragment_planEntry o e es).grows
    have hgr := (Emit.fragment_plan o rest (Emit.planEntry o e es).2).grows
    exact (stays_entry e he es h (hw.of_grows hgr)).append (stays_plan rest hr _ h hw) hge.labels

theorem stays_elements {t : Ty} : ∀ (items : List Typed), Typed.AllWellTyped false vars t items →
    ∀ (es : EmitState) (h : Nat), (Emit.elements o items es).2.Within s →
      Lifts s.pool es.nextLabel (Emit.elements o items es).2.nextLabel
        (Emit.elements o items es).1 (h + 1) (h + 1)
  | [], _, es, h, _ => by
    rw [Emit.elements]
    exact moves_nil.lifts (Nat.le_refl _)
  | e :: rest, ⟨he, hf, hr⟩, es, h, hw => by
    rw [Emit.elements] at hw ⊢
    have hadd := hw.of_grows (Emit.fragment_elements o rest _).grows
    have hge := (Emit.fragment_expr o e es).grows
    have he' := rises_tree e he es (h + 2) (hadd.of_grows (Emit.plain_call _).1)
    rw [hf.stackKind_eq, Ty.stackKind_storage] at he'
    have hitem := (((moves_dup h).lifts (Nat.le_refl _)).append he' (Nat.le_refl _)).tail
      (Emit.moves_add hadd (h + 1)) hge.labels
    rw [← List.append_assoc] at hitem
    exact hitem.append (stays_elements rest hr _ h hw) hge.labels

end

/-- Each initializer stores what it leaves. -/
theorem lifts_initializers {is : List Initializer} {es : EmitState}
    (hw : Initializer.AllWellTyped false vars is) (h : Nat)
    (hs : (Emit.initializers o is es).2.Within s) :
    Lifts s.pool es.nextLabel (Emit.initializers o is es).2.nextLabel
      (Emit.initializers o is es).1 h h := by
  induction is generalizing vars es with
  | nil => exact moves_nil.lifts (Nat.le_refl _)
  | cons i rest ih =>
    obtain ⟨hi, hf, -, hrest⟩ := hw
    have hge := (Emit.fragment_expr o i.value es).grows
    have hgr := (Emit.fragment_initializers o rest (Emit.expr o i.value es).2).grows
    have hi' := rises_tree i.value hi es h (hs.of_grows hgr)
    rw [hf.stackKind_eq] at hi'
    exact (hi'.tail (Emit.moves_store _ _ h) hge.labels).append (ih hrest hs) hge.labels

/-- The sequence of a unit, whatever its heights. -/
def TypedUnit.sequence (o : Options) (u : TypedUnit) : Sequence :=
  let (code, es) := (Emit.unitCode o u).run (.start u.freeSlot)
  ⟨code, es.pool, (measureHeights code es.pool u.body.type.stackKind.size).maxStack, es.nextLocal,
    u.locals.map (·.toLocal), u.resultType⟩

/-- Emission asks the options for the names of classes only. -/
theorem Emit.expr_verify (o : Options) (verify : Bool) (e : Typed) :
    expr { o with verify } e = expr o e := by
  delta expr
  rfl

theorem Emit.initializers_verify (o : Options) (verify : Bool) (is : List Initializer) :
    initializers { o with verify } is = initializers o is := by
  induction is with
  | nil => rfl
  | cons i rest ih => rw [initializers, initializers, expr_verify, ih]

theorem TypedUnit.sequence_verify (o : Options) (verify : Bool) (u : TypedUnit) :
    u.sequence { o with verify } = u.sequence o := by
  rw [sequence, sequence, Emit.unitCode, Emit.unitCode, Emit.initializers_verify,
    Emit.expr_verify]

theorem TypedUnit.within_sequence (o : Options) (u : TypedUnit) :
    (Emit.unitCode o u (.start u.freeSlot)).2.Within (u.sequence o) :=
  ⟨List.prefix_rfl, Nat.le_refl _⟩

/-- The code of a unit leaves the value of its body and nothing below it. -/
theorem lifts_unit {u : TypedUnit} (hu : u.WellTyped false) :
    ∃ hi, Lifts (u.sequence o).pool 0 hi (u.sequence o).code 0 u.body.type.stackKind.size := by
  have hw := u.within_sequence o
  have hgi := (Emit.fragment_initializers o u.initializers (.start u.freeSlot)).grows
  have hgb := (Emit.fragment_expr o u.body
    (Emit.initializers o u.initializers (.start u.freeSlot)).2).grows
  have hstores := lifts_initializers hu.initializers 0 (hw.of_grows hgb)
  have hbody := rises_tree u.body hu.body _ 0 hw
  rw [Nat.zero_add] at hbody
  exact ⟨_, hstores.append hbody hgi.labels⟩

/-- The walk over the code of a unit ends at the height of its body's value and meets nothing
wrong on the way. -/
theorem TypedUnit.problem_sequence {u : TypedUnit} (hu : u.WellTyped false) :
    (measureHeights (u.sequence o).code (u.sequence o).pool
      u.body.type.stackKind.size).problem = none := by
  obtain ⟨hi, hlift⟩ := lifts_unit (o := o) hu
  obtain ⟨f, hwalk, -⟩ := hlift (fun _ => none) fun _ _ => rfl
  have hstart : HeightWalk.start.Shows (some 0) fun _ => none := ⟨rfl, rfl, fun _ => rfl⟩
  have hend := hwalk .start 0 hstart
  simp only [measureHeights, finish, hend.current, if_true, hend.problem]

/-- A well-typed unit is emitted whatever the options ask for. -/
theorem TypedUnit.emit_eq {u : TypedUnit} (hu : u.WellTyped false) :
    Emit.unit o u = .ok (u.sequence o) := by
  have hnone := problem_sequence (o := o) hu
  rcases hran : (Emit.unitCode o u).run (.start u.freeSlot) with ⟨code, es⟩
  simp only [sequence, Emit.unit, hran] at hnone ⊢
  split
  · next hsome => cases hnone.symm.trans hsome
  · rfl

end trees

end StackExpr
