import StackExpr.Proofs.Compiled

/-! Code of record and array literals follows their evaluation.

A spread entry is the only loop in emitted code. It keeps an iterator in a scratch slot that no
variable uses, and puts what the iterator still has to give. -/
namespace StackExpr

namespace Cursor

/-- The entries an iterator has still to give. -/
def rest (c : Cursor) : MapEntries := c.entries.drop c.position

/-- The iterator after it has given an entry. -/
def advance (c : Cursor) : Cursor := { c with position := c.position + 1 }

variable {c : Cursor} {e : MapKey × Value} {more : MapEntries}

theorem hasNext_eq (c : Cursor) : c.hasNext = !c.rest.isEmpty := by
  simp only [hasNext, rest]
  by_cases h : c.position < c.entries.length
  · simp [h]
  · simp [h, Nat.le_of_not_lt h]

theorem next?_eq (h : c.rest = e :: more) : c.next? = some (e, c.advance) := by
  have he : c.entries[c.position]? = some e := by
    rw [← List.head?_drop]
    exact congrArg List.head? h
  simp only [next?, he, Option.map_some, advance]

theorem rest_advance (h : c.rest = e :: more) : c.advance.rest = more := by
  have ht := congrArg List.tail h
  rwa [rest, List.tail_drop] at ht

end Cursor

theorem MapEntries.getD_reference {es : MapEntries} (h : ∀ e ∈ es, e.2.stackKind = .reference)
    (k : MapKey) : ((es.get? k).getD .null).stackKind = .reference := by
  cases hg : es.get? k with
  | none => rfl
  | some v =>
    obtain ⟨e, he, rfl⟩ := Store.mem_of_get? hg
    exact h e he

theorem Value.key?_ofKey (k : MapKey) : (Value.ofKey k).key? = some k := by cases k <;> rfl

theorem Action.next_eq {c : Address} {σ : List Value} {store : Store}
    {locals : List (Option Value)} {e : MapKey × Value} {more : MapEntries} {n : Nat}
    (h : (store.cursor c).rest = e :: more) :
    Action.next ⟨.iterator c :: σ, store, locals, n⟩ =
      .ok () ⟨.entry e.1 e.2 :: σ, store.setCursor c (store.cursor c).advance, locals, n⟩ := by
  have hp : popReference ⟨.iterator c :: σ, store, locals, n⟩ =
      .ok (.iterator c) ⟨σ, store, locals, n⟩ := popReference_eq rfl ..
  simp only [next, bind, EStateM.bind, hp, getStore, Cursor.next?_eq h]
  rfl

namespace Sequence

variable {s : Sequence} {vars : List Local} {free p slot : Nat} {σ : List Value} {st : EvalState}
  {es : EmitState} {o : Options} {store : Store} {locals : List (Option Value)} {a c : Address}
  {v key : Value} {e : MapKey × Value} {head done : Label} {code : List Instr} {u : Unfinished}
  {r : RecordTy}

theorem step_interface {m : MethodRef} (f : Method) (hm : (m, f) ∈ Method.otherMethods)
    (hw : (Emit.call .interface m es).2.Within s) :
    s.step (.invoke .interface (Emit.entry (.interfaceMethod m) es).1) = f.run :=
  step_invoke (Emit.get?_entry hw) rfl (Method.find?_other hm)

/-- The code of a spread loop, with what its calls do. -/
structure SpreadLoop (s : Sequence) (slot : Nat) (head done : Label) (code : List Instr) where
  hasNext : Nat
  next : Nat
  entry : Nat
  getKey : Nat
  getValue : Nat
  put : Nat
  code_eq : code = [.label head, .load .reference slot, .invoke .interface hasNext,
    .ifZero .eq done, .dup .dup, .load .reference slot, .invoke .interface next, .checkCast entry,
    .dup .dup, .invoke .interface getKey, .swap, .invoke .interface getValue,
    .invoke .virtual put, .pop, .goto head, .label done]
  step_hasNext : s.step (.invoke .interface hasNext) = Action.hasNext
  step_next : s.step (.invoke .interface next) = Action.next
  class_entry : s.pool.get? entry = some (.classRef ClassName.entry)
  step_getKey : s.step (.invoke .interface getKey) = Action.getKey
  step_getValue : s.step (.invoke .interface getValue) = Action.getValue
  step_put : s.step (.invoke .virtual put) = Action.put

/-- The emitted loop is one whose calls are found in the library. -/
theorem spreadLoop (ho : o.Known) (hw : (Emit.spreadLoop o slot head done es).2.Within s) :
    Nonempty (s.SpreadLoop slot head done (Emit.spreadLoop o slot head done es).1) := by
  have hput := hw
  have hgetValue := hput.of_grows (Emit.plain_call _).1
  have hgetKey := hgetValue.of_grows (Emit.plain_call _).1
  have hentry := hgetKey.of_grows (Emit.plain_call _).1
  have hnext := hentry.of_grows (Emit.grows_entry _ _)
  have hhas := hnext.of_grows (Emit.plain_call _).1
  exact ⟨⟨_, _, _, _, _, _, rfl, step_interface .hasNext (by simp [Method.otherMethods]) hhas,
    step_interface .next (by simp [Method.otherMethods]) hnext, Emit.get?_entry hentry,
    step_interface .getKey (by simp [Method.otherMethods]) hgetKey,
    step_interface .getValue (by simp [Method.otherMethods]) hgetValue,
    step_invoke (Emit.get?_entry hw) rfl (Method.find?_put ho.container)⟩⟩

theorem step_load {k : StackKind} {n : Nat} (h : locals[slot]? = some (some v))
    (hk : v.stackKind = k) :
    s.step (.load k slot) ⟨σ, store, locals, n⟩ = .ok () ⟨v :: σ, store, locals, n⟩ := by
  simp only [step, Action.loadLocal, bind, EStateM.bind, h, hk, if_true, Action.push]

theorem step_checkCast_entry {index n : Nat} {k : MapKey}
    (h : s.pool.get? index = some (.classRef ClassName.entry)) :
    s.step (.checkCast index) ⟨.entry k v :: σ, store, locals, n⟩ =
      .ok () ⟨.entry k v :: σ, store, locals, n⟩ := by
  simp only [step, bind, EStateM.bind, className_eq h]
  rfl

theorem step_swap {n : Nat} {w : Value} (hv : v.stackKind.size = 1)
    (hw : w.stackKind.size = 1) :
    s.step .swap ⟨v :: w :: σ, store, locals, n⟩ = .ok () ⟨w :: v :: σ, store, locals, n⟩ := by
  simp only [step, Action.swap, bind, EStateM.bind, Action.popSlots_one hv, Action.popSlots_one hw]
  rfl

theorem step_pop {n : Nat} (hv : v.stackKind.size = 1) :
    s.step .pop ⟨v :: σ, store, locals, n⟩ = .ok () ⟨σ, store, locals, n⟩ := by
  simp only [step, bind, EStateM.bind, Action.popSlots_one hv]
  rfl

/-- The next step of a chain, from a machine that is written out. -/
theorem reaches_cons {i : Instr} {n : Nat} {b m : Machine} (hi : s.code[n]? = some i)
    (hs : s.step i ⟨σ, store, locals, n + 1⟩ = .ok () b) (h : s.Reaches b m) :
    s.Reaches ⟨σ, store, locals, n⟩ m := .head ⟨i, hi, hs⟩ h

namespace SpreadLoop

/-- Each round begins by asking whether there is more. -/
theorem reaches_test (L : s.SpreadLoop slot head done code) (hc : s.HasCode p code)
    (hslot : locals[slot]? = some (some (.iterator c))) :
    s.Reaches ⟨σ, store, locals, p⟩
      ⟨.ofBool (store.cursor c).hasNext :: σ, store, locals, p + 3⟩ := by
  have hc := L.code_eq ▸ hc
  refine .head ⟨_, hc.get (n := 0) rfl, rfl⟩ ?_
  refine .head ⟨_, hc.get (n := 1) rfl, step_load hslot rfl⟩ ?_
  refine .head ⟨_, hc.get (n := 2) rfl, ?_⟩ .refl
  rw [L.step_hasNext]
  rfl

/-- When nothing is left the loop is over. -/
theorem reaches_end (L : s.SpreadLoop slot head done code)
    (hn : (s.code.filterMap Instr.placed?).Nodup) (hc : s.HasCode p code)
    (hslot : locals[slot]? = some (some (.iterator c))) (hrest : (store.cursor c).rest = []) :
    s.Reaches ⟨σ, store, locals, p⟩ ⟨σ, store, locals, p + 16⟩ := by
  have htest : s.Reaches ⟨σ, store, locals, p⟩ _ := L.reaches_test hc hslot
  rw [Cursor.hasNext_eq, hrest] at htest
  refine htest.trans ?_
  have hc := L.code_eq ▸ hc
  refine .head ⟨_, hc.get (n := 3) rfl, jump_eq hn (hc.get (n := 15) rfl) _⟩ ?_
  exact .single ⟨_, hc.get (n := 15) rfl, rfl⟩

/-- A round puts one entry and comes back to the start. -/
theorem reaches_round {more : MapEntries} (L : s.SpreadLoop slot head done code)
    (hn : (s.code.filterMap Instr.placed?).Nodup) (hc : s.HasCode p code)
    (hslot : locals[slot]? = some (some (.iterator c)))
    (hrest : (store.cursor c).rest = e :: more) (he : e.2.stackKind = .reference)
    (ha : ∀ x ∈ store.entries a, x.2.stackKind = .reference) :
    s.Reaches ⟨.map a :: σ, store, locals, p⟩
      ⟨.map a :: σ, (store.setCursor c (store.cursor c).advance).put a e.1 e.2, locals, p⟩ := by
  have htest : s.Reaches ⟨.map a :: σ, store, locals, p⟩ _ := L.reaches_test hc hslot
  rw [Cursor.hasNext_eq, hrest] at htest
  refine htest.trans ?_
  have hc := L.code_eq ▸ hc
  have hkey : (Value.ofKey e.1).stackKind = .reference := (Value.ofKey_reference e.1).1
  have hold := MapEntries.getD_reference ha e.1
  generalize hs : store.setCursor c (store.cursor c).advance = store'
  have hnext : Action.next ⟨.iterator c :: .map a :: .map a :: σ, store, locals, p + 7⟩ =
      .ok () ⟨.entry e.1 e.2 :: .map a :: .map a :: σ, store', locals, p + 7⟩ :=
    hs ▸ Action.next_eq hrest
  refine reaches_cons (b := ⟨.map a :: σ, store, locals, p + 4⟩) (hc.get (n := 3) rfl) rfl ?_
  refine reaches_cons (b := ⟨.map a :: .map a :: σ, store, locals, p + 5⟩) (hc.get (n := 4) rfl)
    rfl ?_
  refine reaches_cons (hc.get (n := 5) rfl) (step_load hslot rfl) ?_
  refine reaches_cons (hc.get (n := 6) rfl) (L.step_next ▸ hnext) ?_
  refine reaches_cons (hc.get (n := 7) rfl) (step_checkCast_entry L.class_entry) ?_
  refine reaches_cons (b := ⟨.entry e.1 e.2 :: .entry e.1 e.2 :: .map a :: .map a :: σ, store',
    locals, p + 9⟩) (hc.get (n := 8) rfl) rfl ?_
  refine reaches_cons (b := ⟨.ofKey e.1 :: .entry e.1 e.2 :: .map a :: .map a :: σ, store',
    locals, p + 10⟩) (hc.get (n := 9) rfl) (congrFun L.step_getKey _) ?_
  refine reaches_cons (hc.get (n := 10) rfl) (step_swap (by rw [hkey]; rfl) rfl) ?_
  refine reaches_cons (b := ⟨e.2 :: .ofKey e.1 :: .map a :: .map a :: σ, store', locals, p + 12⟩)
    (hc.get (n := 11) rfl) (congrFun L.step_getValue _) ?_
  refine reaches_cons (b := ⟨((store.entries a).get? e.1).getD .null :: .map a :: σ,
    store'.put a e.1 e.2, locals, p + 13⟩) (hc.get (n := 12) rfl) ?_ ?_
  · rw [L.step_put, Action.put_eq hkey he, Value.key?_ofKey, ← hs]
    rfl
  refine reaches_cons (hc.get (n := 13) rfl) (step_pop (by rw [hold]; rfl)) ?_
  exact .single ⟨_, hc.get (n := 14) rfl, jump_eq hn (hc.get (n := 0) rfl) _⟩

/-- The whole loop puts all that is left, in its order. -/
theorem reaches_all {rest : MapEntries} {store₀ : Store} (L : s.SpreadLoop slot head done code)
    (hn : (s.code.filterMap Instr.placed?).Nodup) (hc : s.HasCode p code)
    (hslot : locals[slot]? = some (some (.iterator c))) (hcursor : c < store.cursors.length)
    (hrest : (store.cursor c).rest = rest) (he : ∀ x ∈ rest, x.2.stackKind = .reference)
    (hmap : a < store.maps.length) (ha : ∀ x ∈ store.entries a, x.2.stackKind = .reference)
    (halike : store.Alike store₀) :
    ∃ t : Store, s.Reaches ⟨.map a :: σ, store, locals, p⟩ ⟨.map a :: σ, t, locals, p + 16⟩ ∧
      t.Alike (rest.foldl (fun t x => t.put a x.1 x.2) store₀) := by
  induction rest generalizing store store₀ with
  | nil => exact ⟨store, L.reaches_end hn hc hslot hrest, halike⟩
  | cons e more ih =>
    have hround := L.reaches_round (σ := σ) hn hc hslot hrest (he e List.mem_cons_self) ha
    have hmoved : (store.setCursor c (store.cursor c).advance).Alike store₀ :=
      ⟨halike.maps, halike.lists⟩
    have hcursor' : ((store.setCursor c (store.cursor c).advance).put a e.1 e.2).cursor c =
        (store.cursor c).advance := by
      simp [Store.cursor, Store.put, Store.setCursor, hcursor]
    have ha' : ∀ x ∈ ((store.setCursor c (store.cursor c).advance).put a e.1 e.2).entries a,
        x.2.stackKind = .reference := by
      intro x hx
      rw [Store.entries_put (store.setCursor c _) hmap] at hx
      rcases (Store.mem_put hx).2 with hv | hx
      · exact hv ▸ he e List.mem_cons_self
      · exact ha x hx
    obtain ⟨t, ht, halike'⟩ := ih (by simpa [Store.put, Store.setCursor] using hcursor)
      (by rw [hcursor', Cursor.rest_advance hrest])
      (fun x hx => he x (List.mem_cons_of_mem _ hx)) (by simpa [Store.put, Store.setCursor] using hmap)
      ha' (hmoved.put a e.1 e.2)
    exact ⟨t, hround.trans ht, halike'⟩

end SpreadLoop

section opening

variable {b : Address} {entrySet iterator : Nat}

/-- An iterator over the entries a map has now goes into the scratch slot. -/
theorem reaches_opened
    (hc : s.HasCode p [.invoke .interface entrySet, .invoke .interface iterator,
      .store .reference slot]) (hslot : slot < locals.length)
    (hset : s.step (.invoke .interface entrySet) = Action.entrySet)
    (hiter : s.step (.invoke .interface iterator) = Action.iterator) :
    s.Reaches ⟨.map b :: σ, store, locals, p⟩
      ⟨σ, (store.newCursor ⟨store.entries b, 0⟩).2,
        locals.set slot (some (.iterator store.cursors.length)), p + 3⟩ := by
  refine reaches_cons (b := ⟨.entrySet (store.entries b) :: σ, store, locals, p + 1⟩)
    (hc.get (n := 0) rfl) (congrFun hset _) ?_
  refine reaches_cons (b := ⟨.iterator store.cursors.length :: σ,
    (store.newCursor ⟨store.entries b, 0⟩).2, locals, p + 2⟩)
    (hc.get (n := 1) rfl) (congrFun hiter _) ?_
  refine .single ⟨_, hc.get (n := 2) rfl, ?_⟩
  exact if_pos hslot

/-- A scratch slot is no variable's. -/
theorem At.setScratch {m : Machine} {τ : List Value} {t t' : Store} (hs : s.Hosts vars free)
    (hfree : free ≤ slot) (hm : m.At s vars p τ st) (ht : t.Alike t') (q : Nat) :
    Machine.At ⟨σ, t, m.locals.set slot (some v), q⟩ s vars q σ { st with store := t' } where
  next := rfl
  stack := rfl
  store := ht
  slots := by rw [List.length_set, hm.slots]
  values x hx w hl := by
    have hlt := (hs.slots.bounds hx).2
    have hsize : 1 ≤ x.type.stackKind.size := by cases x.type.stackKind <;> decide
    exact (List.getElem?_set_ne (by omega)).trans (hm.values x hx w hl)

/-- From the map whose entries are spread on: its entries go into the map below it. -/
theorem runs_entries (L : s.SpreadLoop slot head done code) (hs : s.Hosts vars free)
    (hfree : free ≤ slot) (hslot : slot < s.maxLocals)
    (hset : s.step (.invoke .interface entrySet) = Action.entrySet)
    (hiter : s.step (.invoke .interface iterator) = Action.iterator)
    (hfill : st.store.Filling false u r a)
    (hb : ∀ x ∈ st.store.entries b, x.2.stackKind = .reference) :
    s.Runs vars ([.invoke .interface entrySet, .invoke .interface iterator,
        .store .reference slot] ++ code) (.map b :: .map a :: σ) st (Eval.spread a (.map b) st)
      (fun _ => .map a :: σ) := by
  intro p hc
  refine Follows.ending (q := p + 3 + 16) ?_ (by simp [L.code_eq])
  intro m hm
  obtain ⟨stack, store, locals, next⟩ := m
  have hlen : slot < locals.length := Nat.lt_of_lt_of_eq hslot hm.slots.symm
  have halike : store.Alike st.store := hm.store
  obtain rfl : next = p := hm.next
  obtain rfl : stack = .map b :: .map a :: σ := hm.stack
  obtain ⟨t, hloop, ht⟩ : ∃ t : Store, s.Reaches ⟨.map a :: σ,
      (store.newCursor ⟨store.entries b, 0⟩).2,
      locals.set slot (some (.iterator store.cursors.length)), next + 3⟩ ⟨.map a :: σ, t, _, _⟩ ∧
      t.Alike ((store.entries b).foldl (fun t x => t.put a x.1 x.2) st.store) := by
    refine L.reaches_all hs.labels hc.right (List.getElem?_set_self hlen) ?_ ?_ ?_ ?_ ?_
      ⟨halike.maps, halike.lists⟩
    · simp [Store.newCursor]
    · simp [Store.newCursor, Store.cursor, Cursor.rest]
    · rw [halike.entries]
      exact hb
    · change a < store.maps.length
      rw [halike.maps]
      exact hfill.valid
    · change ∀ x ∈ store.entries a, _
      rw [halike.entries]
      exact fun x hx => (hfill.entries x hx).reference
  rw [halike.entries] at ht
  exact ⟨_, (reaches_opened hc.left hlen hset hiter).trans hloop,
    At.setScratch hs hfree hm ht _⟩

/-- `null` has no entries to ask for. -/
theorem runs_entries_null (hset : s.step (.invoke .interface entrySet) = Action.entrySet) :
    s.Runs vars (.invoke .interface entrySet :: code) (.null :: σ) st (Eval.spread a .null st)
      (fun _ => σ) := by
  have hnull : s.Runs vars [.invoke .interface entrySet] (.null :: σ) st
      (Eval.lift (.error .nullPointer : Except FaultKind Unit) st) (fun _ => σ) := by
    refine runs_lift fun m hm _ => ?_
    obtain ⟨_, _, _, _⟩ := m
    cases hm
    rw [hset]
    exact ⟨_, _, rfl, rfl⟩
  exact hnull.bind (f := fun _ => Eval.fail .nullPointer) fun _ _ h => by cases h

/-- Only maps and `null` pass a cast to a map. -/
theorem isInstance_map (h : v.isInstance ClassName.map = true) : v = .null ∨ ∃ b, v = .map b := by
  cases v with
  | null => exact .inl rfl
  | map b => exact .inr ⟨b, rfl⟩
  | boxed w => cases w <;> cases (show false = true from h)
  | _ => cases (show false = true from h)

theorem spread_eq (a : Address) (v : Value) : Eval.spread a v =
    Eval.lift (if v.isInstance ClassName.map then .ok v else .error .classCast) >>=
      Eval.spread a := by
  funext st
  cases v with
  | boxed w => cases w <;> rfl
  | _ => rfl

/-- The code that spreads a value into the map below it. -/
theorem runs_spread {t : Ty} (ho : o.Known) (hs : s.Hosts vars free) (hfree : free ≤ slot)
    (hslot : slot < s.maxLocals)
    (hw : (Emit.spreadLoop o slot head done (Emit.openSpread t slot es).2).2.Within s)
    (hfill : st.store.Filling false u r a) (hv : v.Good false u st.store t)
    (ht : t = .any ∨ ∃ k w, t = .record k w) :
    s.Runs vars ((Emit.openSpread t slot es).1 ++
        (Emit.spreadLoop o slot head done (Emit.openSpread t slot es).2).1) (v :: .map a :: σ) st
      (Eval.spread a v st) (fun _ => .map a :: σ) := by
  obtain ⟨L⟩ := spreadLoop ho hw
  have hopen := hw.of_grows (Emit.grows_spreadLoop ..)
  -- A value that is no map and not `null` is refused by the cast, if there is one.
  have walk {es' : EmitState} (hn : v = .null ∨ ∃ b, v = .map b)
      (hw' : (Emit.call .interface .iterator (Emit.call .interface .entrySet es').2).2.Within s) :
      s.Runs vars ([.invoke .interface (Emit.entry (.interfaceMethod .entrySet) es').1,
        .invoke .interface (Emit.entry (.interfaceMethod .iterator)
          (Emit.call .interface .entrySet es').2).1, .store .reference slot] ++
        (Emit.spreadLoop o slot head done (Emit.openSpread t slot es).2).1) (v :: .map a :: σ) st
        (Eval.spread a v st) (fun _ => .map a :: σ) := by
    have hset := step_interface .entrySet (by simp [Method.otherMethods])
      (hw'.of_grows (Emit.plain_call _).1)
    have hiter := step_interface .iterator (by simp [Method.otherMethods]) hw'
    rcases hn with rfl | ⟨b, rfl⟩
    · exact runs_entries_null hset
    · exact runs_entries L hs hfree hslot hset hiter hfill
        fun x hx => (hv.grounded.entries x hx).1
  rcases ht with rfl | ⟨k, w, rfl⟩
  · rw [spread_eq]
    have hcast := hopen.of_grows ((Emit.plain_call _).1.trans (Emit.plain_call _).1)
    refine (runs_checkCast hcast hv.conforms.stackKind).bind fun w st' h => ?_
    obtain ⟨hw, rfl⟩ := Eval.ok_of_lift h
    split_ifs at hw with hi
    cases hw
    exact walk (isInstance_map hi) hopen
  · refine walk ?_ hopen
    rcases hv.conforms with rfl | ⟨b, rfl, -⟩
    · exact .inl rfl
    · exact .inr ⟨b, rfl⟩

end opening

/-- A new container is made empty, initialized and left on the stack. -/
theorem runs_new {cls : String} {f : Store → Address × Store} {g : Address → Value}
    (hw : (Emit.new cls es).2.Within s) (hinit : Method.find? (.init cls) = some (.init cls))
    (hg : (∃ a, g (f st.store).1 = .map a) ∨ ∃ a, g (f st.store).1 = .list a)
    (hdo : (Action.instantiate cls).Does σ st.store
      (.ok (g (f st.store).1 :: σ, (f st.store).2))) :
    s.Runs vars (Emit.new cls es).1 σ st (Eval.allocate f st) (fun a => g a :: σ) := by
  have hnew : s.step (.new (Emit.entry (.classRef cls) es).1) = Action.instantiate cls := by
    funext m
    simp only [step, bind, EStateM.bind,
      className_eq (Emit.get?_entry (hw.of_grows (Emit.plain_call _).1))]
  have hsize : (g (f st.store).1).stackKind.size = 1 := by
    rcases hg with ⟨a, ha⟩ | ⟨a, ha⟩ <;> rw [ha] <;> rfl
  have hdup : s.Runs vars [.dup .dup] (g (f st.store).1 :: σ) { st with store := (f st.store).2 }
      (.ok ((), _)) fun _ => g (f st.store).1 :: g (f st.store).1 :: σ :=
    runs_of_does (Action.does_duplicate hsize)
  have hmake : s.Runs vars [.new _] σ st (Eval.allocate f st) (fun a => g a :: σ) :=
    runs_of_does (hnew ▸ hdo)
  exact hmake.prepend (hdup.prepend (runs_call hw hinit (Action.does_init hg)))

/-- Puts an entry into the map, and drops what the key had before. -/
theorem runs_put (ho : o.Known) (hw : (Emit.call .virtual (.put o.container) es).2.Within s)
    (hfill : st.store.Filling false u r a) (hk : key.stackKind = .reference)
    (hv : v.stackKind = .reference) :
    s.Runs vars ((Emit.call .virtual (.put o.container) es).1 ++ [.pop])
      (v :: key :: .map a :: .map a :: σ) st (Eval.put a key v st) (fun _ => .map a :: σ) := by
  have hput : Action.put.Does (v :: key :: .map a :: .map a :: σ) st.store _ :=
    Action.does_put hk hv
  rw [Eval.put]
  cases hkey : key.key? with
  | some k =>
    rw [hkey] at hput
    have hold := MapEntries.getD_reference (fun e he => (hfill.entries e he).reference) k
    have hcall : s.Runs vars (Emit.call .virtual (.put o.container) es).1 _ st
        (.ok (((st.store.entries a).get? k).getD .null, _)) (· :: .map a :: σ) :=
      runs_call hw (Method.find?_put ho.container) hput
    refine hcall.prepend (runs_of_does (Action.does_drop ?_ 1))
    rw [hold]
    rfl
  | none =>
    rw [hkey] at hput
    have hcall : s.Runs vars (Emit.call .virtual (.put o.container) es).1 _ st
        (Eval.lift (.error .unhashableKey : Except FaultKind Unit) st) fun _ => .map a :: σ :=
      runs_call_lift hw (Method.find?_put ho.container) hput
    exact hcall.bind (f := fun _ => Eval.fail .unhashableKey) fun _ _ h => by cases h

/-- Adds an item to the list, and drops the answer. -/
theorem runs_append (ho : o.Known) (hw : (Emit.call .virtual (.add o.list) es).2.Within s)
    (hv : v.stackKind = .reference) :
    s.Runs vars ((Emit.call .virtual (.add o.list) es).1 ++ [.pop])
      (v :: .list a :: .list a :: σ) st (Eval.append a v st) (fun _ => .list a :: σ) := by
  have hcall : s.Runs vars (Emit.call .virtual (.add o.list) es).1 _ st
      (.ok (.int 1, { st with store := st.store.append a v })) (· :: .list a :: σ) :=
    runs_call hw (Method.find?_add ho.list) (Action.does_add hv)
  exact hcall.prepend (runs_of_does (Action.does_drop rfl 1))

theorem runs_fixedKey {d : Constant} {stored : Ty} (h : d.Keyed stored)
    (hw : (Emit.fixedKey d stored es).2.Within s) :
    s.Runs vars (Emit.fixedKey d stored es).1 σ st (Eval.lift (d.kept stored) st) (· :: σ) := by
  rcases h with ⟨k, rfl, hk, -⟩ | ⟨rfl, text, rfl⟩
  · exact (runs_constant d (hw.of_grows (Emit.plain_call _).1)).prepend
      (runs_call_lift hw Method.find?_box (Action.leaves_box hk))
  · exact runs_constant (.string text) hw

end Sequence

/-- Wherever its code stands, it fills the map below it as the entry does. -/
def Entry.Compiles (s : Sequence) (vars : List Local) (free : Nat) (o : Options) (r : RecordTy)
    (e : Entry) : Prop :=
  ∀ (es : EmitState) (u : Unfinished) (a : Address) (σ : List Value) (st : EvalState),
    free ≤ es.nextLocal → (Emit.planEntry o e es).2.Within s → st.Sound false vars u →
      st.store.Filling false u r a →
        s.Runs vars (Emit.planEntry o e es).1 (.map a :: σ) st (e.eval a st) fun _ => .map a :: σ

namespace Entry

open Sequence

variable {s : Sequence} {vars : List Local} {free : Nat} {o : Options} {r : RecordTy}
  {key value source : Typed} {tag : EntryTag}

theorem runs_dup {v : Value} {σ : List Value} {st : EvalState} (hv : v.stackKind.size = 1) :
    s.Runs vars [.dup .dup] (v :: σ) st (.ok ((), st)) fun _ => v :: v :: σ :=
  runs_of_does (Action.does_duplicate hv)

theorem compiles_fixed {d : Constant} {stored : Ty} (ho : o.Known) (hk : d.Keyed stored)
    (hv : value.Compiles s vars free o) (hsv : value.IsSafe false vars)
    (hfv : value.type.Fits false r.value.storage) :
    (fixed d stored value tag).Compiles s vars free o r := by
  intro es u a σ st hfree hw hst hfill
  rw [Emit.planEntry] at hw ⊢
  rw [eval]
  have hgk := (Emit.plain_fixedKey d stored es).1
  have hwv := hw.of_grows (Emit.plain_call _).1
  have hgv := (Emit.fragment_expr o value (Emit.fixedKey d stored es).2).grows
  refine Runs.assoc (Runs.assoc (Runs.assoc ((runs_dup rfl).prepend ?_)))
  refine (runs_fixedKey hk (hwv.of_grows hgv)).bind fun k st₁ h => ?_
  obtain ⟨hkept, rfl⟩ := Eval.ok_of_lift h
  obtain ⟨k', hk', hg⟩ : ∃ v, d.kept stored = .ok v ∧ v.Good false u st₁.store stored := hk.kept
  cases hk'.symm.trans hkept
  have hv' : ∀ st : EvalState, st.Sound false vars u →
      Typed.SafeAt false vars u st r.value.storage (value.eval st) :=
    fun st h => (hsv u st h).of_fits hfv
  refine hv.then hv' (Nat.le_trans hfree hgk.locals) hwv hst fun v st' hv hl => ?_
  refine runs_put ho hw (hfill.of_keeps hl.keeps) ?_ (Value.conforms_storage.mp hv.conforms).stackKind
  rcases hk with ⟨k, rfl, -⟩ | ⟨rfl, -⟩
  · exact hg.conforms.stackKind
  · exact hg.conforms.stackKind

theorem compiles_computed (ho : o.Known) (hk : key.Compiles s vars free o)
    (hv : value.Compiles s vars free o) (hsk : key.IsSafe false vars)
    (hyk : key.Yields false r.key.storage) (hsv : value.IsSafe false vars)
    (hfv : value.type.Fits false r.value.storage) :
    (computed key value tag).Compiles s vars free o r := by
  intro es u a σ st hfree hw hst hfill
  rw [Emit.planEntry] at hw ⊢
  rw [eval]
  refine Runs.assoc (Runs.assoc (Runs.assoc ((runs_dup rfl).prepend (List.append_assoc .. ▸ ?_))))
  refine hk.both hv (fun st h => (hsk u st h).of_yields h hyk)
    (fun st h => (hsv u st h).of_fits hfv) hfree (hw.of_grows (Emit.plain_call _).1) hst
    fun k v st' hk hv hl => ?_
  exact runs_put ho hw (hfill.of_keeps hl.keeps)
    (Value.conforms_storage.mp hk.conforms).stackKind
    (Value.conforms_storage.mp hv.conforms).stackKind

/-- A spread entry opens its source and runs its loop into the map below. -/
theorem compiles_spread (ho : o.Known) (hs : s.Hosts vars free)
    (hc : source.Compiles s vars free o) (hss : source.IsSafe false vars)
    (ht : source.type = .any ∨ ∃ k v, source.type = .record k v) :
    (spread source tag).Compiles s vars free o r := by
  intro es u a σ st hfree hw hst hfill
  rw [Emit.planEntry_spread] at hw ⊢
  rw [eval]
  have hopen := hw.of_grows (Emit.grows_spreadLoop o es.nextLocal es.nextLabel
    (es.nextLabel + 1) _)
  have hgo := (Emit.plain_openSpread source.type es.nextLocal
    (Emit.expr o source es.oneLocal.twoLabels).2).1
  have hgs := (Emit.fragment_expr o source es.oneLocal.twoLabels).grows
  have hroom : es.nextLocal + 1 ≤ s.maxLocals :=
    Nat.le_trans hgs.locals (hopen.of_grows hgo).locals
  refine Runs.assoc (hc.then (hss u) (Nat.le_succ_of_le hfree) (hopen.of_grows hgo) hst
    fun v st' hv hl => ?_)
  exact runs_spread ho hs hfree hroom hw (hfill.of_keeps hl.keeps) hv ht

end Entry

namespace Typed

open Sequence

variable {s : Sequence} {vars : List Local} {free : Nat} {o : Options} {tag : Tag}

/-- A record is made empty and then filled. -/
theorem compiles_record {plan : PlanTag} {entries : List Entry} (ho : o.Known)
    (he : ∀ (es : EmitState) (u : Unfinished) (a : Address) (σ : List Value) (st : EvalState),
      free ≤ es.nextLocal → (Emit.plan o entries es).2.Within s → st.Sound false vars u →
        st.store.Filling false u plan.type a →
          s.Runs vars (Emit.plan o entries es).1 (.map a :: σ) st (Entry.evalAll a entries st)
            fun _ => .map a :: σ) : (record plan entries tag).Compiles s vars free o := by
  intro es u σ st hfree hw hst
  rw [Emit.expr] at hw ⊢
  rw [eval]
  have hnew := hw.of_grows (Emit.fragment_plan o entries (Emit.new o.container es).2).grows
  refine (runs_new hnew (Method.find?_init_map ho.container) (.inl ⟨_, rfl⟩)
    (Action.does_instantiate_map ho.container)).bind fun a st' h => ?_
  cases h
  have hfree' := Nat.le_trans hfree (Emit.plain_new o.container es).1.locals
  exact (he _ _ _ σ _ hfree' hw hst.newMap (st.store.filling_newMap _)).map fun _ => rfl

theorem compiles_list {t : Ty} {items : List Typed} (ho : o.Known)
    (hi : ∀ (es : EmitState) (u : Unfinished) (a : Address) (σ : List Value) (st : EvalState),
      free ≤ es.nextLocal → (Emit.elements o items es).2.Within s → st.Sound false vars u →
        st.store.Listing false u t a →
          s.Runs vars (Emit.elements o items es).1 (.list a :: σ) st (Typed.evalItems a items st)
            fun _ => .list a :: σ) : (list items tag).Compiles s vars free o := by
  intro es u σ st hfree hw hst
  rw [Emit.expr] at hw ⊢
  rw [eval]
  have hnew := hw.of_grows (Emit.fragment_elements o items (Emit.new o.list es).2).grows
  have hmaps : o.list ∉ ClassName.maps := by
    have h := ho.list
    simp only [ClassName.lists, List.mem_cons, List.not_mem_nil, or_false] at h
    rcases h with h | h <;> rw [h] <;> decide
  refine (runs_new hnew (Method.find?_init_list ho.list) (.inr ⟨_, rfl⟩)
    (Action.does_instantiate_list hmaps ho.list)).bind fun a st' h => ?_
  cases h
  have hfree' := Nat.le_trans hfree (Emit.plain_new o.list es).1.locals
  exact (hi _ _ _ σ _ hfree' hw hst.newList (st.store.listing_newList _)).map fun _ => rfl

end Typed

section trees

open Sequence Typed Entry

variable {s : Sequence} {vars : List Local} {free : Nat} {o : Options}

mutual

/-- The code of a well-typed tree follows its evaluation. The induction is on the tree, with entries
and items beside it. -/
theorem compiles_tree (ho : o.Known) (hs : s.Hosts vars free) :
    ∀ (e : Typed), e.WellTyped false vars → e.Compiles s vars free o
  | .constant d _, _ => compiles_constant d
  | .read _ _, ⟨hx, _⟩ => compiles_read hx
  | .convert e _ _, ⟨he, ht, _⟩ =>
    compiles_convert ho (compiles_tree ho hs e he) (isSafe_tree hs.names e he) ht
  | .arith _ _ l r _, ⟨hl, hr, htl, htr, hop, _⟩ =>
    compiles_arith (compiles_tree ho hs l hl) (compiles_tree ho hs r hr)
      (isSafe_tree hs.names l hl) (isSafe_tree hs.names r hr) htl htr hop
  | .power l r _, ⟨hl, hr, htl, htr, _⟩ =>
    compiles_power (compiles_tree ho hs l hl) (compiles_tree ho hs r hr)
      (isSafe_tree hs.names l hl) (isSafe_tree hs.names r hr) htl htr
  | .negate _ e _, ⟨he, ht, hk, _⟩ =>
    compiles_negate (compiles_tree ho hs e he) (isSafe_tree hs.names e he) ht hk
  | .complement _ e _, ⟨he, ht, hk, _⟩ =>
    compiles_complement (compiles_tree ho hs e he) (isSafe_tree hs.names e he) ht hk
  | .not e _, ⟨he, ht, _⟩ =>
    compiles_not (compiles_tree ho hs e he) (isSafe_tree hs.names e he) ht
  | .compare _ _ l r _, ⟨hl, hr, hm, _⟩ =>
    compiles_compare hs (compiles_tree ho hs l hl) (compiles_tree ho hs r hr)
      (isSafe_tree hs.names l hl) (isSafe_tree hs.names r hr) hm
  | .logical _ l r _, ⟨hl, hr, htl, htr, _⟩ =>
    compiles_logical hs (compiles_tree ho hs l hl) (compiles_tree ho hs r hr)
      (isSafe_tree hs.names l hl) (isSafe_tree hs.names r hr) htl htr
  | .concat l r _, ⟨hl, hr, hyl, hyr, _⟩ =>
    compiles_concat (compiles_tree ho hs l hl) (compiles_tree ho hs r hr)
      (isSafe_tree hs.names l hl) (isSafe_tree hs.names r hr) hyl hyr
  | .update _ _ _ _, ⟨hx, ht, hd, _⟩ => compiles_update hs hx ht hd
  | .assign _ e _, ⟨hx, he, ht, _⟩ =>
    compiles_assign hs hx (compiles_tree ho hs e he) (isSafe_tree hs.names e he) ht
  | .conditional t y n _, ⟨ht, hy, hn, htt, _, _⟩ =>
    compiles_conditional hs (compiles_tree ho hs t ht) (compiles_tree ho hs y hy)
      (compiles_tree ho hs n hn) (isSafe_tree hs.names t ht) htt
  | .record _ entries _, ⟨he, _⟩ => compiles_record ho (compiles_plan ho hs entries he)
  | .list items _, ⟨_, hi, _⟩ => compiles_list ho (compiles_elements ho hs items hi)

theorem compiles_entry (ho : o.Known) (hs : s.Hosts vars free) {r : RecordTy} :
    ∀ (e : Entry), e.WellTyped false vars r → e.Compiles s vars free o r
  | .fixed _ _ value _, ⟨hk, _, hv, hfv⟩ =>
    compiles_fixed ho hk (compiles_tree ho hs value hv) (isSafe_tree hs.names value hv) hfv
  | .computed key value _, ⟨hk, hyk, hv, hfv⟩ =>
    compiles_computed ho (compiles_tree ho hs key hk) (compiles_tree ho hs value hv)
      (isSafe_tree hs.names key hk) hyk (isSafe_tree hs.names value hv) hfv
  | .spread source _, ⟨hw, ht⟩ =>
    compiles_spread ho hs (compiles_tree ho hs source hw) (isSafe_tree hs.names source hw)
      (ht.symm.imp (fun h => h.1) fun ⟨k, v, h, _⟩ => ⟨k, v, h⟩)

theorem compiles_plan (ho : o.Known) (hs : s.Hosts vars free) {r : RecordTy} :
    ∀ (entries : List Entry), Entry.AllWellTyped false vars r entries →
      ∀ (es : EmitState) (u : Unfinished) (a : Address) (σ : List Value) (st : EvalState),
        free ≤ es.nextLocal → (Emit.plan o entries es).2.Within s → st.Sound false vars u →
          st.store.Filling false u r a →
            s.Runs vars (Emit.plan o entries es).1 (.map a :: σ) st (Entry.evalAll a entries st)
              fun _ => .map a :: σ
  | [], _, es, u, a, σ, st, _, _, _, _ => by
    rw [Emit.plan]
    exact runs_nil rfl
  | e :: rest, ⟨he, hr⟩, es, u, a, σ, st, hfree, hw, hst, hfill => by
    rw [Emit.plan] at hw ⊢
    have hge := (Emit.fragment_planEntry o e es).grows
    have hgr := (Emit.fragment_plan o rest (Emit.planEntry o e es).2).grows
    refine (compiles_entry ho hs e he es u a σ st hfree (hw.of_grows hgr) hst hfill).bind
      fun _ st' h => ?_
    have hsafe := isSafe_entry hs.names e he a u st hst hfill
    rw [h] at hsafe
    exact compiles_plan ho hs rest hr _ u a σ st' (Nat.le_trans hfree hge.locals) hw hsafe.2.1
      hsafe.2.2

theorem compiles_elements (ho : o.Known) (hs : s.Hosts vars free) {t : Ty} :
    ∀ (items : List Typed), Typed.AllWellTyped false vars t items →
      ∀ (es : EmitState) (u : Unfinished) (a : Address) (σ : List Value) (st : EvalState),
        free ≤ es.nextLocal → (Emit.elements o items es).2.Within s → st.Sound false vars u →
          st.store.Listing false u t a →
            s.Runs vars (Emit.elements o items es).1 (.list a :: σ) st
              (Typed.evalItems a items st) fun _ => .list a :: σ
  | [], _, es, u, a, σ, st, _, _, _, _ => by
    rw [Emit.elements]
    exact runs_nil rfl
  | e :: rest, ⟨he, hf, hr⟩, es, u, a, σ, st, hfree, hw, hst, hlist => by
    rw [Emit.elements] at hw ⊢
    rw [Typed.evalItems]
    have hadd := hw.of_grows (Emit.fragment_elements o rest _).grows
    have hge := (Emit.fragment_expr o e es).grows
    refine Runs.assoc (Runs.assoc (Runs.assoc ((runs_dup rfl).prepend ?_)))
    refine (compiles_tree ho hs e he).then (isSafe_tree hs.names e he u) hfree
      (hadd.of_grows (Emit.plain_call _).1) hst fun v st' hv hl => ?_
    have hkept := hf _ _ hv.conforms
    have hlist' := hlist.of_keeps hl.keeps
    have hrest := compiles_elements ho hs rest hr _ u a σ _
      (Nat.le_trans hfree (hge.trans (Emit.plain_call _).1).locals) hw
      (hl.sound.of_keeps (.append hlist'.unfinished)) (hlist'.append ⟨hkept, hv.grounded⟩)
    rw [← List.append_assoc]
    refine (runs_append ho hadd (Value.conforms_storage.mp hkept).stackKind).bind fun _ _ h => ?_
    cases h
    exact hrest

end

end trees

end StackExpr
