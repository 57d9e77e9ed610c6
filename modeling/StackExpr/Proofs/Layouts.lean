import StackExpr.Proofs.Construction
import StackExpr.Typed.Layout

/-! What the layout of a literal foretells of its map.

The layout tells keys by their texts, the map by their kinds and bits. If keys of one text are one
key, the layout has the entries of the map, in their order and with the expressions that their
values come from. If not, it has fewer. -/
namespace StackExpr

/-- The text that a number has as a literal key. -/
def Wrapper.keyText : Wrapper → String
  | float value => floatKeyText value.toFloat
  | double value => floatKeyText value
  | w => toString w.identity.2

namespace MapKey

def keyText : MapKey → String
  | null => "null"
  | string value => value
  | boxed w => w.keyText

/-- Keys of one text are one key. -/
def Unambiguous (ks : List MapKey) : Prop :=
  ∀ k ∈ ks, ∀ k' ∈ ks, k.keyText = k'.keyText → k = k'

instance (ks : List MapKey) : Decidable (Unambiguous ks) :=
  inferInstanceAs (Decidable (∀ k ∈ ks, ∀ k' ∈ ks, k.keyText = k'.keyText → k = k'))

end MapKey

/-- A number that fits a narrow kind is not changed by it. -/
theorem Kind.identity_wrap? {k : Kind} {n : Int32} {w : Wrapper} (h : k.Holds (.int n))
    (hn : k.isNumeric = true) (hw : Value.wrap? k (.int n) = some w) :
    w.identity = (k, n.toInt) := by
  cases k with
  | byte =>
    cases hw
    rw [Wrapper.identity, ← Int8.toInt_toInt32, toInt8_of_fits h.2]
  | short =>
    cases hw
    rw [Wrapper.identity, ← Int16.toInt_toInt32, toInt16_of_fits h.2]
  | char =>
    cases hw
    rw [Wrapper.identity, ← toInt_intOfChar, intOfChar_of_fits h.2]
  | int =>
    cases hw
    rfl
  | boolean => cases hn
  | _ => cases hw

namespace Constant

variable {c : Constant} {stored : Ty}

/-- The key that a literal key is kept as. -/
def mapKey? (c : Constant) (stored : Ty) : Option MapKey := (c.kept stored).toOption >>= Value.key?

theorem mapKey?_eq_some {k : Value} {key : MapKey} (hk : c.kept stored = .ok k)
    (hkey : k.key? = some key) : c.mapKey? stored = some key := by
  rw [mapKey?, hk]
  exact hkey

/-- It keeps its text. -/
theorem Keyed.keyText_eq {k : Value} {key : MapKey} (h : c.Keyed stored)
    (hk : c.kept stored = .ok k) (hkey : k.key? = some key) : key.keyText = c.keyText := by
  rcases h with ⟨kind, rfl, hholds, hnum, hbool⟩ | ⟨rfl, text, rfl⟩
  · obtain ⟨w, hw, rfl⟩ : ∃ w, c.value.wrap? kind = some w ∧ k = .boxed w := by
      simp only [Constant.kept, Value.box] at hk
      split at hk
      · next w hw =>
        cases hk
        exact ⟨w, hw, rfl⟩
      · cases hk
    cases hkey
    cases c with
    | int n =>
      have hi := Kind.identity_wrap? hholds hnum hw
      cases kind <;> cases hw
      all_goals simp only [MapKey.keyText, Wrapper.keyText, hi, keyText]
    | boolean b => exact absurd rfl (hbool b)
    | string | null => cases kind <;> cases hw
    | _ =>
      cases kind <;> cases hw
      rfl
  · cases hk
    cases hkey
    rfl

end Constant

/-- A pair that a literal puts: the key as it is written and as it is kept, and the value with the
expression that it comes from. -/
structure Row where
  literal : Constant
  key : MapKey
  value : Value
  source : Typed

namespace Row

def pair (r : Row) : MapKey × Value := (r.key, r.value)

/-- An entry of a map and an entry of a layout come from the same row. -/
def Agrees (rows : List Row) (p : MapKey × Value) (q : String × Typed) : Prop :=
  p.1.keyText = q.1 ∧ ∃ r ∈ rows, r.literal.keyText = q.1 ∧ r.pair = p ∧ r.source = q.2

end Row

namespace Layout

variable {layout : Layout} {key : String} {source : Typed} {rows : List Row}

/-- Adds rows in their order. -/
def putRows (layout : Layout) (rows : List Row) : Layout :=
  rows.foldl (fun layout r => layout.put r.key.keyText r.source) layout

theorem putRows_cons {r : Row} :
    layout.putRows (r :: rows) = (layout.put r.key.keyText r.source).putRows rows := rfl

theorem putRows_append {rows' : List Row} :
    layout.putRows (rows ++ rows') = (layout.putRows rows).putRows rows' := List.foldl_append

/-- A text that the layout has keeps its place, and a new one comes last. -/
theorem keys_put : (layout.put key source).map (·.1) =
    if key ∈ layout.map (·.1) then layout.map (·.1) else layout.map (·.1) ++ [key] := by
  induction layout with
  | nil => rfl
  | cons q rest ih =>
    by_cases h : q.1 = key
    · simp [put, h]
    · have h' : key ≠ q.1 := Ne.symm h
      simp only [put, h, if_false, List.map_cons, ih, List.mem_cons, h', false_or]
      split <;> rfl

theorem nodup_putRows (h : (layout.map (·.1)).Nodup) : ((layout.putRows rows).map (·.1)).Nodup := by
  induction rows generalizing layout with
  | nil => exact h
  | cons r rest ih =>
    apply ih
    rw [keys_put]
    split
    · exact h
    · next hnew => exact h.append (List.nodup_singleton _) (by simpa using hnew)

theorem mem_keys_putRows {text : String} (h : text ∈ (layout.putRows rows).map (·.1)) :
    text ∈ layout.map (·.1) ∨ ∃ r ∈ rows, r.key.keyText = text := by
  induction rows generalizing layout with
  | nil => exact .inl h
  | cons r rest ih =>
    rcases ih h with hl | ⟨r', hr', ht⟩
    · rw [keys_put] at hl
      split at hl
      · exact .inl hl
      · rcases List.mem_append.mp hl with hl | hl
        · exact .inl hl
        · exact .inr ⟨r, List.mem_cons_self, (List.mem_singleton.mp hl).symm⟩
    · exact .inr ⟨r', List.mem_cons_of_mem _ hr', ht⟩

/-- What one row does to a map and a layout that list the same keys. -/
theorem forall₂_put {m : MapEntries} {r : Row}
    (hall : MapKey.Unambiguous (rows.map (·.key)))
    (htexts : ∀ r ∈ rows, r.literal.keyText = r.key.keyText) (hr : r ∈ rows)
    (h : List.Forall₂ (Row.Agrees rows) m layout) :
    List.Forall₂ (Row.Agrees rows) (m.put r.key r.value) (layout.put r.key.keyText r.source) := by
  induction h with
  | nil => exact .cons ⟨rfl, r, hr, htexts r hr, rfl, rfl⟩ .nil
  | @cons p q m layout hpq htail ih =>
    obtain ⟨htext, r', hr', hlit, rfl, hsource⟩ := hpq
    by_cases hk : r'.key = r.key
    · have ht : q.1 = r.key.keyText := htext ▸ congrArg MapKey.keyText hk
      rw [MapEntries.put_cons_of_eq hk, put, if_pos ht]
      exact .cons ⟨ht.symm, r, hr, (htexts r hr).trans ht.symm, rfl, rfl⟩ htail
    · have ht : q.1 ≠ r.key.keyText := by
        intro ht
        exact hk (hall _ (List.mem_map_of_mem hr') _ (List.mem_map_of_mem hr) (htext.trans ht))
      rw [MapEntries.put_cons_of_ne hk, put, if_neg ht]
      exact .cons ⟨htext, r', hr', hlit, rfl, hsource⟩ ih

/-- A map and a layout of unambiguous rows list the same keys. -/
theorem forall₂_putRows {m : MapEntries} {done : List Row}
    (hall : MapKey.Unambiguous (rows.map (·.key)))
    (htexts : ∀ r ∈ rows, r.literal.keyText = r.key.keyText) (hdone : done ⊆ rows)
    (h : List.Forall₂ (Row.Agrees rows) m layout) :
    List.Forall₂ (Row.Agrees rows) (m.putAll (done.map Row.pair)) (layout.putRows done) := by
  induction done generalizing m layout with
  | nil => exact h
  | cons r rest ih =>
    obtain ⟨hr, hrest⟩ := List.cons_subset.mp hdone
    exact ih hrest (forall₂_put hall htexts hr h)

/-- A layout of ambiguous rows has too few entries. -/
theorem length_lt_of_ambiguous (h : ¬ MapKey.Unambiguous (rows.map (·.key))) :
    (putRows [] rows).length < (MapEntries.putAll [] (rows.map Row.pair)).length := by
  have hrow : ∀ r ∈ rows, r.key ∈ (MapEntries.putAll [] (rows.map Row.pair)).map (·.1) := by
    intro r hr
    rw [← MapEntries.has_iff, MapEntries.has_putAll, Bool.or_eq_true]
    exact .inr (MapEntries.has_iff.mpr (List.mem_map.mpr ⟨r.pair, List.mem_map_of_mem hr, rfl⟩))
  have hsub : (putRows [] rows).map (·.1) ⊆
      ((MapEntries.putAll [] (rows.map Row.pair)).map (·.1)).map MapKey.keyText := by
    intro text ht
    rcases mem_keys_putRows ht with ht | ⟨r, hr, rfl⟩
    · cases ht
    · exact List.mem_map_of_mem (hrow r hr)
  by_contra hle
  apply h
  -- As many texts as there are keys leave no text to two of them.
  have honce : ((putRows [] rows).map (·.1)).Nodup := nodup_putRows List.nodup_nil
  have hperm := (List.subperm_of_subset honce hsub).perm_of_length_le (by simpa using hle)
  intro k hk k' hk' htext
  obtain ⟨r, hr, rfl⟩ := List.mem_map.mp hk
  obtain ⟨r', hr', rfl⟩ := List.mem_map.mp hk'
  exact List.inj_on_of_nodup_map (hperm.nodup_iff.mp honce) (hrow r hr) (hrow r' hr') htext

end Layout

mutual

/-- The keys that an entry is known to put. Literals that are spread are opened. -/
def Entry.keys : Entry → List MapKey
  | .fixed key stored _ _ => (key.mapKey? stored).toList
  | .computed _ _ _ => []
  | .spread source _ => source.spreadKeys

def Typed.spreadKeys : Typed → List MapKey
  | .record _ entries _ => Entry.allKeys entries
  | _ => []

def Entry.allKeys : List Entry → List MapKey
  | [] => []
  | e :: rest => e.keys ++ Entry.allKeys rest

end

namespace Entry

/-- From one state to another, entries bring rows. A literal that is spread fills a map of its own
and brings the rows that it is filled with. -/
inductive Brings : List Entry → EvalState → List Row → EvalState → Prop
  | nil {st : EvalState} : Brings [] st [] st
  | fixed {c : Constant} {stored : Ty} {source : Typed} {tag : EntryTag} {rest : List Entry}
      {st st₁ st' : EvalState} {k v : Value} {key : MapKey} {rows : List Row}
      (kept : c.kept stored = .ok k) (isKey : k.key? = some key)
      (value : source.eval st = .ok (v, st₁)) (others : Brings rest st₁ rows st') :
      Brings (.fixed c stored source tag :: rest) st (⟨c, key, v, source⟩ :: rows) st'
  | spread {plan : PlanTag} {inner rest : List Entry} {tag : Tag} {entryTag : EntryTag}
      {st st₁ st' : EvalState} {inside rows : List Row}
      (literal : Brings inner st.newMap inside st₁)
      (others : Brings rest (st₁.fill st.store.maps.length (.putAll [] (inside.map Row.pair)))
        rows st') :
      Brings (.spread (.record plan inner tag) entryTag :: rest) st (inside ++ rows) st'

variable {vars : List Local} {u : Unfinished} {st st' : EvalState} {r : RecordTy}
  {rows : List Row} {cs : List Contribution} {entries : List Entry} {layout layout' : Layout}

/-- The keys of the rows are known from the entries. -/
theorem Brings.keys (h : Brings entries st rows st') : rows.map (·.key) = allKeys entries := by
  induction h with
  | nil => rfl
  | fixed hk hkey hv hrest ih =>
    rw [List.map_cons, ih, allKeys, Entry.keys, Constant.mapKey?_eq_some hk hkey]
    rfl
  | spread hin hout ih₁ ih₂ =>
    rw [List.map_append, ih₁, ih₂, allKeys, Entry.keys, Typed.spreadKeys]

theorem Brings.keyText_eq (hw : AllWellTyped false vars r entries)
    (h : Brings entries st rows st') : ∀ row ∈ rows, row.literal.keyText = row.key.keyText := by
  induction h generalizing r with
  | nil => nofun
  | fixed hk hkey hv hrest ih =>
    intro row hrow
    rcases List.mem_cons.mp hrow with rfl | hrow
    · exact (hw.1.1.keyText_eq hk hkey).symm
    · exact ih hw.2 row hrow
  | spread hin hout ih₁ ih₂ =>
    intro row hrow
    rcases List.mem_append.mp hrow with hrow | hrow
    · exact ih₁ hw.1.1.1 row hrow
    · exact ih₂ hw.2 row hrow

/-- Where there is a layout, it and the pairs that are collected are those of the same rows. -/
theorem brings_contributions (hn : (vars.map (·.name)).Nodup) :
    ∀ {entries : List Entry} {r : RecordTy} {u : Unfinished} {st st' : EvalState}
      {cs : List Contribution} {layout layout' : Layout},
      AllWellTyped false vars r entries → st.Sound false vars u →
      layouts? layout entries = some layout' → contributions entries st = .ok (cs, st') →
        ∃ rows, Brings entries st rows st' ∧ layout' = layout.putRows rows ∧
          ∀ m : MapEntries, m.putAll (Contribution.allPairs cs) = m.putAll (rows.map Row.pair)
  | [], r, u, st, st', cs, layout, layout', _, _, hl, hc => by
    cases hl
    cases hc
    exact ⟨[], .nil, rfl, fun _ => rfl⟩
  | .fixed c stored source tag :: rest, r, u, st, st', cs, layout, layout', hw, hst, hl, hc => by
    obtain ⟨he, hrest⟩ := hw
    obtain ⟨d, ds, st₁, hd, hds, rfl⟩ := contributions_cons_eq_ok hc
    have hlead := (leads_contribution hn he hst hd).1
    obtain ⟨k, key, v, hk, hkey, hv, rfl⟩ := contribution_fixed_eq_ok hd
    obtain ⟨rows, hrows, hlayout, hpairs⟩ := brings_contributions hn hrest hlead.sound hl hds
    refine ⟨⟨c, key, v, source⟩ :: rows, .fixed hk hkey hv hrows, ?_, ?_⟩
    · rw [hlayout, Layout.putRows_cons, he.1.keyText_eq hk hkey]
    · intro m
      exact hpairs (m.put key v)
  | .computed key value tag :: rest, r, u, st, st', cs, layout, layout', _, _, hl, _ => by
    cases hl
  | .spread source tag :: rest, r, u, st, st', cs, layout, layout', hw, hst, hl, hc => by
    cases source with
    | record plan inner t =>
      obtain ⟨he, hrest⟩ := hw
      obtain ⟨d, ds, st₁, hd, hds, rfl⟩ := contributions_cons_eq_ok hc
      have hlead := (leads_contribution hn he hst hd).1
      obtain ⟨b, heval, rfl⟩ := contribution_spread_eq_ok hd
      obtain ⟨ds₁, st₃, hin, hb, rfl⟩ := Typed.eval_record_eq_ok hn he.1.1 hst heval
      cases hb
      obtain ⟨layout₁, hl₁, hl₂⟩ : ∃ layout₁, layouts? layout inner = some layout₁ ∧
          layouts? layout₁ rest = some layout' := by
        rw [layouts?, layout?, Typed.spreadLayout?] at hl
        cases hl₁ : layouts? layout inner with
        | some layout₁ =>
          rw [hl₁] at hl
          exact ⟨layout₁, rfl, hl⟩
        | none =>
          rw [hl₁] at hl
          cases hl
      obtain ⟨inside, hinside, rfl, hpairs₁⟩ := brings_contributions hn he.1.1 hst.ofNewMap hl₁ hin
      obtain ⟨rows, hrows, rfl, hpairs₂⟩ := brings_contributions hn hrest hlead.sound hl₂ hds
      have hlt := (leads_contributions hn he.1.1 hst.ofNewMap hin).1.sound.houses.maps _
        List.mem_cons_self
      have hcopied : (st₃.fill st.store.maps.length
          (.putAll [] (Contribution.allPairs ds₁))).store.entries st.store.maps.length =
            .putAll [] (inside.map Row.pair) := (Store.entries_fill hlt).trans (hpairs₁ [])
      rw [hpairs₁] at hrows
      refine ⟨inside ++ rows, .spread hinside hrows, Layout.putRows_append.symm, ?_⟩
      intro m
      calc m.putAll (Contribution.allPairs (.copied _ _ :: ds))
          = (m.putAll (.putAll [] (inside.map Row.pair))).putAll (Contribution.allPairs ds) := by
            rw [Contribution.allPairs_cons, MapEntries.putAll_append, Contribution.pairs, hcopied]
        _ = (m.putAll (inside.map Row.pair)).putAll (rows.map Row.pair) := by
            rw [MapEntries.putAll_putAll MapEntries.distinct_nil, hpairs₂]
            rfl
        _ = m.putAll ((inside ++ rows).map Row.pair) := by
            rw [List.map_append, MapEntries.putAll_append]
    | _ => cases hl

end Entry

/-- The layout of an object literal has the entries of the map that its code builds: as many, with
the same keys in the same order, each with the expression that its value comes from. It does so
exactly if no two keys of one text are different keys, and has fewer entries if they are. -/
theorem layout_foretells_map {scope : Scope} {hint : Hint} {props : List Property}
    {extent span : Span} {plan : Plan} {tag : Tag} {layout : Layout}
    (h : Check.expr scope hint (.object props extent span) = .ok (plan.toTyped tag))
    (hl : plan.layout? = some layout) {s : Sequence} {free : Nat} {es : EmitState}
    {σ : List Value} {u : Unfinished} {st st' : EvalState} {v : Value}
    (hs : s.Hosts scope.vars free) (hfree : free ≤ es.nextLocal)
    (hwithin : (Emit.expr .default (plan.toTyped tag) es).2.Within s)
    (hst : st.Sound false scope.vars u) (hv : (plan.toTyped tag).eval st = .ok (v, st')) :
    s.Runs scope.vars (Emit.expr .default (plan.toTyped tag) es).1 σ st (.ok (v, st')) (· :: σ) ∧
      ∃ a rows st₁, v = .map a ∧ Entry.Brings plan.entries st.newMap rows st₁ ∧
        st'.bindings = st₁.bindings ∧
        (MapKey.Unambiguous (Entry.allKeys plan.entries) →
          List.Forall₂ (Row.Agrees rows) (st'.store.entries a) layout) ∧
        (¬ MapKey.Unambiguous (Entry.allKeys plan.entries) →
          layout.length < (st'.store.entries a).length) := by
  have hw : Typed.WellTyped false scope.vars (plan.toTyped tag) :=
    Check.wellTyped_expr _ hint nofun h
  have hruns := compiles_tree Options.known_default hs _ hw es u σ st hfree hwithin hst
  rw [hv] at hruns
  refine ⟨hruns, ?_⟩
  obtain ⟨cs, st₁, hc, rfl, rfl⟩ := Typed.eval_record_eq_ok hs.names hw.1 hst hv
  obtain ⟨rows, hrows, rfl, hpairs⟩ :=
    Entry.brings_contributions hs.names hw.1 hst.ofNewMap hl hc
  have hentries := (Entry.built_contributions hs.names hw.1 hst hc).entries
  rw [hpairs []] at hentries
  refine ⟨_, rows, st₁, rfl, hrows, rfl, ?_, ?_⟩
  · intro hone
    rw [hpairs [], hentries]
    rw [← hrows.keys] at hone
    exact Layout.forall₂_putRows hone (hrows.keyText_eq hw.1) (List.Subset.refl _) .nil
  · intro htwo
    rw [hpairs [], hentries]
    rw [← hrows.keys] at htwo
    exact Layout.length_lt_of_ambiguous htwo

/-- `{x, ...{b: 2, x: 3}}`, with `x` declared as one. -/
def layered : SourceUnit :=
  let o := Span.origin
  ⟨"layered", [⟨"x", o, some (.simple "int" o), some (.int 1 o), o⟩],
    .ofObject [.shorthand "x" o,
      .ofSpread (.ofObject [.ofKeyed (.name "b" o) (.int 2 o), .ofKeyed (.name "x" o) (.int 3 o)])],
    none⟩

theorem layout_layered :
    ∃ (t : TypedUnit) (plan : Plan) (tag : Tag) (layout : Layout) (st : EvalState),
      Check.unit layered = .ok t ∧ t.body = plan.toTyped tag ∧
      t.initializers.map (·.target) = (Scope.empty.push "x" (.prim .int) .origin).vars ∧
      Check.expr (Scope.empty.push "x" (.prim .int) .origin) .none layered.body =
        .ok (plan.toTyped tag) ∧
      plan.layout? = some layout ∧ layout.map (·.1) = ["x", "b"] ∧
      Entry.allKeys plan.entries = [.string "x", .string "b", .string "x"] ∧
      (plan.toTyped tag).eval ⟨[("x", .int 1)], .empty⟩ = .ok (.map 0, st) ∧
      st.store.entries 0 = [(.string "x", .boxed (.int 3)), (.string "b", .boxed (.int 2))] :=
  ⟨_, ⟨_, _⟩, _, _, _, rfl, rfl, rfl, rfl, rfl, rfl, rfl, rfl, rfl⟩

theorem layout_foretells_layered :
    ∃ (t : TypedUnit) (plan : Plan) (tag : Tag) (layout : Layout) (st : EvalState)
      (rows : List Row) (code : List Instr), Check.unit layered = .ok t ∧
      t.body = plan.toTyped tag ∧ plan.layout? = some layout ∧ layout.map (·.1) = ["x", "b"] ∧
      (t.sequence .default).Runs (t.initializers.map (·.target)) code []
        ⟨[("x", .int 1)], .empty⟩ (.ok (.map 0, st)) (· :: []) ∧
      code <:+ (t.sequence .default).code ∧
      st.store.entries 0 = [(.string "x", .boxed (.int 3)), (.string "b", .boxed (.int 2))] ∧
      List.Forall₂ (Row.Agrees rows) (st.store.entries 0) layout := by
  obtain ⟨t, plan, tag, layout, st, ht, hbody, hvars, h, hl, hkeys, hall, hv, hentries⟩ :=
    layout_layered
  have hu : t.WellTyped false := Check.wellTyped_unit nofun ht
  obtain ⟨es, hfree, hwithin, hcode⟩ := t.exists_body_code .default
  rw [hbody] at hwithin hcode
  obtain ⟨hruns, a, rows, -, ha, -, -, hagree, -⟩ := layout_foretells_map h hl
    (hvars ▸ TypedUnit.hosts_sequence hu) hfree hwithin (EvalState.sound_int "x" 1) hv
  cases ha
  refine ⟨t, plan, tag, layout, st, rows, _, ht, hbody, hl, hkeys, hvars ▸ hruns, hcode, hentries,
    ?_⟩
  apply hagree
  rw [hall]
  decide

/-- `{"1": 1, ...({1: 2} as Record<int, int>)}`: a string and a number of one text. -/
def sameText : SourceUnit :=
  let o := Span.origin
  let int := TypeExpr.simple "int" o
  ⟨"sameText", [],
    .ofObject [.ofKeyed (.string "1" o) (.int 1 o),
      .ofSpread (.ofCast (.ofObject [.ofKeyed (.int 1 o) (.int 2 o)])
        (.generic "Record" [int, int] o))], none⟩

/-- The layout has one entry, the map has two. -/
theorem layout_misses_entry :
    ∃ (t : TypedUnit) (plan : Plan) (tag : Tag) (layout : Layout) (c : Compiled) (x : Execution),
      Check.unit sameText = .ok t ∧ t.body = plan.toTyped tag ∧
      plan.layout? = some layout ∧ layout.map (·.1) = ["1"] ∧
      compile .default sameText = .ok c ∧ c.sequence.Answers (.ok x) ∧ x.result = .map 0 ∧
      x.store.entries 0 =
        [(.string "1", .boxed (.int 1)), (.boxed (.int 1), .boxed (.int 2))] := by
  obtain ⟨t, plan, tag, layout, st, ht, hbody, hlayout, hkeys, he, hentries⟩ :
      ∃ (t : TypedUnit) (plan : Plan) (tag : Tag) (layout : Layout) (st : EvalState),
        Check.unit sameText = .ok t ∧ t.body = plan.toTyped tag ∧ plan.layout? = some layout ∧
        layout.map (·.1) = ["1"] ∧ t.eval = .ok (.map 0, st) ∧
        st.store.entries 0 =
          [(.string "1", .boxed (.int 1)), (.boxed (.int 1), .boxed (.int 2))] := by
    refine ⟨_, ⟨_, _⟩, _, _, _, rfl, rfl, rfl, rfl, rfl, rfl⟩
  have hrun := TypedUnit.answers_sequence Options.known_default (Check.wellTyped_unit nofun ht)
  rw [he] at hrun
  obtain ⟨store, hanswers, halike⟩ := hrun
  exact ⟨t, plan, tag, layout, _, _, ht, hbody, hlayout, hkeys, compile_of_check ht, hanswers, rfl,
    (halike.entries 0).trans hentries⟩

end StackExpr
