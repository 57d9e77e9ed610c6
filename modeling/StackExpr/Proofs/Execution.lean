import StackExpr.Run
import StackExpr.Proofs.Checked
import StackExpr.Proofs.EmittedHeights
import StackExpr.Proofs.Literals

/-! What the runs of compiled units end in: a unit that passes the check runs as it evaluates, so it
leaves values of their types or meets a fault that well-typed code can meet. -/
namespace StackExpr

namespace Local.Laid

variable {first free : Nat} {vars more : List Local}

theorem split (h : Laid first (vars ++ more) free) :
    ∃ mid, Laid first vars mid ∧ Laid mid more free := by
  induction vars generalizing first with
  | nil => exact ⟨first, rfl, h⟩
  | cons x rest ih =>
    obtain ⟨mid, hrest, hmore⟩ := ih h.2
    exact ⟨mid, ⟨h.1, hrest⟩, hmore⟩

end Local.Laid

namespace Sequence

variable {α : Type} {s : Sequence} {vars more : List Local} {free p : Nat} {σ : List Value}
  {st : EvalState} {u : Unfinished} {m : Machine} {code : List Instr} {o : Options} {deep : Bool}

theorem Hosts.left (h : s.Hosts (vars ++ more) free) : ∃ mid ≤ free, s.Hosts vars mid := by
  obtain ⟨mid, hvars, hmore⟩ := h.slots.split
  have hle := hmore.le
  have hn := h.names
  rw [List.map_append] at hn
  exact ⟨mid, hle, h.labels, hn.of_append_left, hvars, Nat.le_trans hle h.room⟩

/-- A variable without a value asks nothing of its slot. -/
theorem at_append (hst : st.Sound deep vars u)
    (hn : ((vars ++ more).map (·.name)).Nodup) :
    m.At s (vars ++ more) p σ st ↔ m.At s vars p σ st := by
  refine ⟨fun h => ⟨h.next, h.stack, h.store, h.slots, fun x hx => ?_⟩,
    fun h => ⟨h.next, h.stack, h.store, h.slots, fun x hx v hl => ?_⟩⟩
  · exact h.values x (List.mem_append_left more hx)
  · rcases List.mem_append.mp hx with hx | hx
    · exact h.values x hx v hl
    · rw [List.map_append] at hn
      have hnew : x.name ∉ vars.map (·.name) := fun hmem =>
        List.disjoint_of_nodup_append hn hmem (List.mem_map_of_mem hx)
      rw [hst.lookup_eq_none hnew] at hl
      cases hl

/-- Code runs alike before more variables are declared. -/
theorem Runs.append_vars {r : Except FaultKind (α × EvalState)} {out : α → List Value}
    (h : s.Runs vars code σ st r out) (hn : ((vars ++ more).map (·.name)).Nodup)
    (hst : st.Sound deep vars u) (hr : ∀ v st', r = .ok (v, st') → st'.Sound deep vars u) :
    s.Runs (vars ++ more) code σ st r out := by
  intro p hc
  have hp := h p hc
  cases r with
  | ok a =>
    intro m hm
    obtain ⟨m', hreach, hm'⟩ := hp m ((at_append hst hn).mp hm)
    exact ⟨m', hreach, (at_append (hr _ _ rfl) hn).mpr hm'⟩
  | error k => exact fun m hm => hp m ((at_append hst hn).mp hm)

/-- The induction is on the initializers: those before them have declared `vars`. -/
theorem runs_initializers {is : List Initializer} {es : EmitState} (ho : o.Known)
    (hw : Initializer.AllWellTyped false vars is)
    (hs : s.Hosts (vars ++ is.map (·.target)) free) (hfree : free ≤ es.nextLocal)
    (hwithin : (Emit.initializers o is es).2.Within s) (hst : st.Sound false vars .none) :
    s.Runs (vars ++ is.map (·.target)) (Emit.initializers o is es).1 [] st
      (Initializer.evalAll is st) (fun _ => []) := by
  induction is generalizing vars es st with
  | nil => exact runs_nil rfl
  | cons i rest ih =>
    obtain ⟨hi, hf, hnew, hrest⟩ := hw
    obtain ⟨mid, hmid, hs'⟩ := hs.left
    have hge := (Emit.fragment_expr o i.value es).grows
    have hgr := (Emit.fragment_initializers o rest (Emit.expr o i.value es).2).grows
    have hsafe := (isSafe_tree hs'.names i.value hi .none st hst).of_fits hf
    have hvalue := (compiles_tree ho hs' i.value hi es .none [] st (Nat.le_trans hmid hfree)
      (hwithin.of_grows hgr) hst).append_vars hs.names hst fun v st' he => by
        rw [he] at hsafe
        exact hsafe.1.sound
    refine Runs.assoc (hvalue.bind fun v st' he => ?_)
    rw [he] at hsafe
    obtain ⟨hl, hv⟩ := hsafe
    have hx : i.target ∈ vars ++ (i :: rest).map (·.target) := by simp
    refine (runs_declare hs hx (hl.sound.lookup_eq_none hnew) hv.conforms.stackKind).bind
      fun _ st'' hd => ?_
    cases hd
    have hvars :
        vars ++ (i :: rest).map (·.target) = vars ++ [i.target] ++ rest.map (·.target) := by
      simp
    rw [hvars] at hs ⊢
    exact ih hrest hs (Nat.le_trans hfree hge.locals) hwithin (hl.sound.declare hnew hv)

end Sequence

namespace Bindings

/-- Bindings are what their variables hold, in order. -/
theorem eq_map {b : Bindings} {vars : List Local} {f : Local → Value}
    (hn : (vars.map (·.name)).Nodup) (hnames : b.map (·.1) = vars.map (·.name))
    (hf : ∀ x ∈ vars, ∀ v, b.lookup x.name = some v → f x = v) :
    vars.map (fun x => (x.name, f x)) = b := by
  induction vars generalizing b with
  | nil => exact (List.map_eq_nil_iff.mp hnames).symm
  | cons x rest ih =>
    obtain ⟨⟨name, w⟩, b', rfl, hname, hnames'⟩ := List.map_eq_cons_iff.mp hnames
    obtain rfl : name = x.name := hname
    obtain ⟨hx, hrest⟩ := List.nodup_cons.mp hn
    have hhead : f x = w := hf x List.mem_cons_self w List.lookup_cons_self
    have htail : rest.map (fun y => (y.name, f y)) = b' := by
      refine ih hrest hnames' fun y hy v hl => hf y (List.mem_cons_of_mem x hy) v ?_
      have hne : y.name ≠ x.name := fun he => hx (List.mem_map.mpr ⟨y, hy, he⟩)
      rw [List.lookup_cons, beq_false_of_ne hne]
      exact hl
    rw [List.map_cons, hhead, htail]

end Bindings

namespace TypedUnit

variable {u : TypedUnit} {o : Options} {deep : Bool}

theorem hosts_sequence (hu : u.WellTyped false) :
    (u.sequence o).Hosts (u.initializers.map (·.target)) u.freeSlot where
  labels := Instr.nodup_of_placing (Emit.fragment_unitCode o u (.start u.freeSlot)).once
  names := hu.initializers.nodup List.nodup_nil
  slots := hu.slots
  room := (Emit.fragment_unitCode o u (.start u.freeSlot)).grows.locals

/-- The code of the body comes last. -/
theorem exists_body_code (u : TypedUnit) (o : Options) :
    ∃ es : EmitState, u.freeSlot ≤ es.nextLocal ∧
      (Emit.expr o u.body es).2.Within (u.sequence o) ∧
      (Emit.expr o u.body es).1 <:+ (u.sequence o).code :=
  ⟨(Emit.initializers o u.initializers (.start u.freeSlot)).2,
    (Emit.fragment_initializers o u.initializers (.start u.freeSlot)).grows.locals,
    u.within_sequence o, List.suffix_append ..⟩

/-- The code of a unit follows its evaluation. -/
theorem runs_sequence (ho : o.Known) (hu : u.WellTyped false) :
    (u.sequence o).Runs (u.initializers.map (·.target)) (u.sequence o).code [] .start u.eval
      (· :: []) := by
  have hs := hosts_sequence (o := o) hu
  have hw := u.within_sequence o
  have hgi := (Emit.fragment_initializers o u.initializers (.start u.freeSlot)).grows
  have hgb := (Emit.fragment_expr o u.body
    (Emit.initializers o u.initializers (.start u.freeSlot)).2).grows
  have hstart : EvalState.Sound false [] .none .start := ⟨rfl, nofun, nofun, nofun, Nat.le_refl 0⟩
  have hsafe := Initializer.safe_evalAll hu.initializers List.nodup_nil hstart
  have hstores := Sequence.runs_initializers ho hu.initializers hs (Nat.le_refl _)
    (hw.of_grows hgb) hstart
  refine hstores.bind fun _ st he => ?_
  rw [he] at hsafe
  exact compiles_tree ho hs u.body hu.body _ .none [] st hgi.locals hw hsafe

/-- A run ends as the evaluation does: with its result, its variables and its containers, or with a
fault of the same kind. -/
theorem answers_sequence (ho : o.Known) (hu : u.WellTyped false) :
    match u.eval with
    | .ok (v, st) => ∃ store : Store, (u.sequence o).Answers (.ok ⟨v, st.bindings, store⟩) ∧
        store.Alike st.store
    | .error k => ∃ f : Failure, (u.sequence o).Answers (.error f) ∧ f.fault.kind = k := by
  have hs := hosts_sequence (o := o) hu
  have hlinked := (Emit.fragment_unitCode o u (.start u.freeSlot)).danglingLabel?
  have hruns := runs_sequence ho hu 0 (u.sequence o).hasCode_self
  have hstart : (Machine.start (u.sequence o).maxLocals).At (u.sequence o)
      (u.initializers.map (·.target)) 0 [] .start :=
    ⟨rfl, rfl, .refl _, List.length_replicate, fun _ _ _ => nofun⟩
  have hsafe := safe_eval hu
  cases he : u.eval with
  | ok r =>
    obtain ⟨v, st⟩ := r
    rw [he] at hruns hsafe
    obtain ⟨m, hreach, hm⟩ := hruns _ hstart
    have hend := Sequence.answers_of_reaches_end hlinked hreach (by rw [hm.next]; omega)
    have hlocals : (u.sequence o).locals.map (fun x => (x.name, Sequence.localValue m x)) =
        st.bindings := by
      change (u.locals.map (·.toLocal)).map _ = _
      rw [hu.locals]
      refine Bindings.eq_map hs.names hsafe.1.names fun x hx w hl => ?_
      rw [Sequence.localValue, hm.values x hx w hl]
    rw [Sequence.finish, hm.stack, hlocals] at hend
    exact ⟨m.store, hend, hm.store⟩
  | error k =>
    rw [he] at hruns
    obtain ⟨m, f, hreach, hf, hk⟩ := hruns _ hstart
    exact ⟨⟨f, m.next⟩, Sequence.answers_of_reaches_fails hlinked hreach hf, hk⟩

end TypedUnit

/-- The result and every local hold values of their types. -/
structure Execution.Conforms (deep : Bool) (c : Compiled) (x : Execution) : Prop where
  result : x.result.Conforms deep x.store c.resultType
  locals : List.Forall₂ (fun (y : Local) (b : String × Value) =>
    b.1 = y.name ∧ b.2.Conforms deep x.store y.type) c.sequence.locals x.locals

theorem EvalState.Sound.forall₂ {deep : Bool} {vars : List Local} {u : Unfinished} {st : EvalState}
    (h : st.Sound deep vars u) (hn : (vars.map (·.name)).Nodup) :
    List.Forall₂ (fun (y : Local) (b : String × Value) =>
      b.1 = y.name ∧ b.2.Conforms deep st.store y.type) vars st.bindings := by
  have he : vars.map (fun y => (y.name, (st.bindings.lookup y.name).getD .null)) = st.bindings :=
    Bindings.eq_map hn h.names fun y _ v hl => by rw [hl]; rfl
  rw [← he, List.forall₂_map_right_iff, List.forall₂_same]
  intro y hy
  obtain ⟨v, hl, hv⟩ := h.values y hy
  refine ⟨rfl, ?_⟩
  rw [hl]
  exact hv.conforms

section compiled

variable {u : SourceUnit} {t : TypedUnit} {c : Compiled} {o : Options}

theorem compile_of_check (h : Check.unit u = .ok t) :
    compile o u = .ok ⟨t.name, t.resultType, t.sequence o⟩ := by
  have hu : t.WellTyped false := Check.wellTyped_unit nofun h
  have he : Emit.unit o t = .ok (t.sequence o) := TypedUnit.emit_eq hu
  simp only [compile, h, he]

/-- A compiled unit passed the check, and its code is that of the checked tree. -/
theorem compile_eq_ok (h : compile o u = .ok c) :
    ∃ t, Check.unit u = .ok t ∧ c = ⟨t.name, t.resultType, t.sequence o⟩ := by
  cases ht : Check.unit u with
  | error e => simp [compile, ht] at h
  | ok t => exact ⟨t, rfl, Except.ok.inj (h.symm.trans (compile_of_check ht))⟩

theorem names_compile (h : compile o u = .ok c) :
    c.sequence.locals.map (·.name) = u.declarations.map (·.name) := by
  obtain ⟨t, ht, rfl⟩ := compile_eq_ok h
  rw [← Check.names_unit ht]
  exact List.map_map ..

/-- Only the check refuses a unit. -/
theorem compile_eq_error {e : CompileError} (h : compile o u = .error e) :
    ∃ ce, Check.unit u = .error ce ∧ e = .check ce := by
  cases ht : Check.unit u with
  | error ce =>
    simp only [compile, ht, Except.error.injEq] at h
    exact ⟨ce, rfl, h.symm⟩
  | ok t =>
    rw [compile_of_check ht] at h
    cases h

theorem CheckError.kind_ne_stackVerification (e : CheckError) : e.kind ≠ .stackVerification := by
  cases e <;> nofun

/-- A compiled unit leaves values of their types or meets a fault that well-typed code can meet. -/
theorem exists_answer (deep : Bool) (ho : o.Known) (hd : deep = true → u.castsToContainer = false)
    (h : compile o u = .ok c) :
    ∃ r, c.sequence.Answers r ∧
      match r with
      | .ok x => x.Conforms deep c
      | .error f => f.fault.kind.isExpected = true := by
  obtain ⟨t, ht, rfl⟩ := compile_eq_ok h
  have hshallow : t.WellTyped false := Check.wellTyped_unit nofun ht
  have hdeep := Check.wellTyped_unit hd ht
  have hsafe := TypedUnit.safe_eval hdeep
  have hrun := TypedUnit.answers_sequence ho hshallow
  cases he : t.eval with
  | ok r =>
    obtain ⟨v, st⟩ := r
    rw [he] at hsafe hrun
    obtain ⟨store, hanswers, halike⟩ := hrun
    refine ⟨_, hanswers, halike.symm.conforms hsafe.2.conforms, ?_⟩
    have hlocals := hsafe.1.forall₂ (hdeep.initializers.nodup List.nodup_nil)
    rw [← hdeep.locals] at hlocals
    exact hlocals.imp fun _ _ hb => ⟨hb.1, halike.symm.conforms hb.2⟩
  | error k =>
    rw [he] at hsafe hrun
    obtain ⟨f, hanswers, hk⟩ := hrun
    refine ⟨_, hanswers, ?_⟩
    change f.fault.kind.isExpected = true
    rw [hk]
    exact hsafe

/-- Two declarations, an update, a computed key, a spread and a branch. -/
def tally : SourceUnit :=
  let o := Span.origin
  let n := Expr.var "n" o
  let counts := TypeExpr.generic "Record" [.simple "String" o, .simple "int" o] o
  ⟨"tally", [⟨"n", o, some (.simple "int" o), some (.int 2 o), o⟩,
    ⟨"r", o, some counts, some (.ofObject [.ofKeyed (.name "a" o) (.ofUpdate .increment false n),
      .ofKeyed (.ofComputed (.string "b" o)) (.ofBinary .multiply n (.int 3 o))]), o⟩],
    .ofObject [.ofSpread (.var "r" o), .ofKeyed (.name "a" o)
      (.ofConditional (.ofBinary .greater n (.int 2 o)) (.int 10 o) n)], some counts⟩

theorem eval_tally :
    ∃ t st, Check.unit tally = .ok t ∧ t.resultType = .record .string (.prim .int) ∧
      t.eval = .ok (.map 1, st) ∧ st.bindings = [("n", .int 3), ("r", .map 0)] ∧
      st.store.entries 1 = [(.string "a", .boxed (.int 10)), (.string "b", .boxed (.int 9))] :=
  ⟨_, _, rfl, rfl, rfl, rfl, rfl⟩

theorem answers_tally :
    ∃ c x, compile .default tally = .ok c ∧ c.resultType = .record .string (.prim .int) ∧
      c.sequence.Answers (.ok x) ∧ x.result = .map 1 := by
  obtain ⟨t, st, ht, htype, he, -⟩ := eval_tally
  have hrun := TypedUnit.answers_sequence Options.known_default (Check.wellTyped_unit nofun ht)
  rw [he] at hrun
  obtain ⟨store, hanswers, -⟩ := hrun
  exact ⟨_, _, compile_of_check ht, htype, hanswers, rfl⟩

/-- What is emitted for a unit that passes the check runs to an end, and to the same end as the
unit's evaluation. -/
theorem emitted_runs_as_evaluated (h : Check.unit u = .ok t) :
    ∃ s, Emit.unit .default t = .ok s ∧
      match t.eval with
      | .ok (v, st) => st.bindings.map (·.1) = u.declarations.map (·.name) ∧
          ∃ store : Store, s.Answers (.ok ⟨v, st.bindings, store⟩) ∧ store.Alike st.store
      | .error k => ∃ f : Failure, s.Answers (.error f) ∧ f.fault.kind = k := by
  have hu : t.WellTyped false := Check.wellTyped_unit nofun h
  have hsafe := TypedUnit.safe_eval hu
  have hrun := TypedUnit.answers_sequence Options.known_default hu
  refine ⟨_, TypedUnit.emit_eq hu, ?_⟩
  cases he : t.eval with
  | ok r =>
    rw [he] at hsafe hrun
    refine ⟨?_, hrun⟩
    rw [hsafe.1.names, ← hu.locals, ← Check.names_unit h]
    exact List.map_map ..
  | error k =>
    rw [he] at hrun
    exact hrun

theorem tally_runs_as_evaluated :
    ∃ t s x, Check.unit tally = .ok t ∧ Emit.unit .default t = .ok s ∧ s.Answers (.ok x) ∧
      x.result = .map 1 ∧ x.locals = [("n", .int 3), ("r", .map 0)] ∧
      x.store.entries 1 = [(.string "a", .boxed (.int 10)), (.string "b", .boxed (.int 9))] := by
  obtain ⟨t, st, ht, -, he, hlocals, hentries⟩ := eval_tally
  obtain ⟨s, hs, hend⟩ := emitted_runs_as_evaluated ht
  rw [he] at hend
  obtain ⟨-, store, hanswers, halike⟩ := hend
  exact ⟨t, s, _, ht, hs, hanswers, rfl, hlocals, (halike.entries 1).trans hentries⟩

/-- Whatever classes the options name, the code emitted for a unit that passes the check has no
wrong heights. So verification refuses no unit, and asking for it changes nothing. -/
theorem emitted_heights_verify (o : Options) (u : SourceUnit) :
    (∀ t, Check.unit u = .ok t →
      let (code, es) := (Emit.unitCode o t).run (.start t.freeSlot)
      (measureHeights code es.pool t.body.type.stackKind.size).problem = none) ∧
    (∀ e, compile o u = .error e → e.kind ≠ .stackVerification) ∧
    ∀ verify, compile { o with verify } u = compile o u := by
  refine ⟨fun t ht => ?_, fun e he => ?_, fun verify => ?_⟩
  · exact TypedUnit.problem_sequence (Check.wellTyped_unit nofun ht)
  · obtain ⟨ce, -, rfl⟩ := compile_eq_error he
    exact ce.kind_ne_stackVerification
  · cases ht : Check.unit u with
    | error ce => simp only [compile, ht]
    | ok t =>
      rw [compile_of_check ht, compile_of_check ht, TypedUnit.sequence_verify]

theorem tally_heights_verify :
    let o : Options := ⟨"app/Table", "app/Row", true⟩
    let unbound : SourceUnit := ⟨"unbound", [], .var "x" .origin, none⟩
    (∃ t, Check.unit tally = .ok t ∧
      let (code, es) := (Emit.unitCode o t).run (.start t.freeSlot)
      (measureHeights code es.pool t.body.type.stackKind.size).problem = none) ∧
    (∃ e, compile o unbound = .error e ∧ e.kind ≠ .stackVerification) ∧
    compile { o with verify := false } tally = compile o tally := by
  intro o unbound
  obtain ⟨t, -, ht, -⟩ := eval_tally
  have he : compile o unbound = .error (.check (.undefinedVariable "x" .origin)) := rfl
  refine ⟨⟨t, ht, ?_⟩, ⟨_, he, ?_⟩, ?_⟩
  · exact (emitted_heights_verify o tally).1 t ht
  · exact (emitted_heights_verify o unbound).2.1 _ he
  · exact (emitted_heights_verify o tally).2.2 false

/-- Compiled code ends with values of their types or with one of four kinds of fault. -/
theorem compiled_ends_typed (h : compile .default u = .ok c) :
    c.sequence.locals.map (·.name) = u.declarations.map (·.name) ∧
      ∃ r, c.sequence.Answers r ∧
        match r with
        | .ok x => x.Conforms false c
        | .error f => f.fault.kind ∈
            [FaultKind.arithmetic, .nullPointer, .classCast, .unhashableKey] := by
  refine ⟨names_compile h, ?_⟩
  obtain ⟨r, hr, hends⟩ := exists_answer false Options.known_default nofun h
  refine ⟨r, hr, ?_⟩
  cases r with
  | ok x => exact hends
  | error f => exact FaultKind.mem_of_isExpected hends

theorem tally_ends_typed :
    ∃ c x, compile .default tally = .ok c ∧ c.sequence.Answers (.ok x) ∧ x.Conforms false c := by
  obtain ⟨c, x, hc, -, hx, -⟩ := answers_tally
  obtain ⟨-, r, hr, hends⟩ := compiled_ends_typed hc
  obtain rfl := hr.unique hx
  exact ⟨c, x, hc, hx, hends⟩

/-- Where no cast claims anything about contents, the contents of containers have their types. -/
theorem contents_conform (hd : u.castsToContainer = false) (h : compile .default u = .ok c)
    {steps : Nat} {x : Execution} (hx : c.sequence.run steps = some (.ok x)) :
    c.sequence.locals.map (·.name) = u.declarations.map (·.name) ∧ x.Conforms true c := by
  obtain ⟨r, hr, hends⟩ := exists_answer true Options.known_default (fun _ => hd) h
  obtain rfl := hr.unique (Sequence.answers_of_run hx)
  exact ⟨names_compile h, hends⟩

theorem contents_conform_tally :
    ∃ c x steps, tally.castsToContainer = false ∧ compile .default tally = .ok c ∧
      c.resultType = .record .string (.prim .int) ∧ c.sequence.run steps = some (.ok x) ∧
      x.result = .map 1 ∧ x.Conforms true c := by
  obtain ⟨c, x, hc, htype, ⟨steps, hsteps⟩, hresult⟩ := answers_tally
  have hx := hsteps steps (Nat.le_refl _)
  exact ⟨c, x, steps, rfl, hc, htype, hx, hresult, (contents_conform rfl hc hx).2⟩

end compiled

end StackExpr
