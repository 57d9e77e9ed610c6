import StackExpr.Proofs.Execution
import StackExpr.Proofs.OrderedMaps
import StackExpr.Proofs.Unseen
import StackExpr.Proofs.WholeNumbers

/-! What object literals build.

Every entry brings a pair or, if it spreads, all the pairs of another map. Nothing reads the map of
the literal before it is finished, so the pairs can be collected without it: the literal is what
putting all of them leaves. -/
namespace StackExpr

/-- What an entry of a literal brings. -/
inductive Contribution where
  | single (key : MapKey) (value : Value)
  /-- The pairs of the map at an address. -/
  | copied (source : Address) (pairs : MapEntries)

namespace Contribution

variable {u : Unfinished} {s s' : Store} {c : Contribution}

def pairs : Contribution → MapEntries
  | single key value => [(key, value)]
  | copied _ pairs => pairs

/-- The map that pairs are copied from is finished and still has them. -/
def Stands (u : Unfinished) (s : Store) : Contribution → Prop
  | single _ _ => True
  | copied b pairs => b < s.maps.length ∧ b ∉ u.maps ∧ s.entries b = pairs

/-- Pairs that were copied stay where they were copied from while the store grows. -/
theorem Stands.of_keeps (h : c.Stands u s) (hk : s.Keeps .none s') : c.Stands u s' := by
  cases c with
  | single => trivial
  | copied b pairs =>
    obtain ⟨hb, hu, he⟩ := h
    exact ⟨Nat.lt_of_lt_of_le hb hk.mapCount, hu, (hk.entries b hb List.not_mem_nil).trans he⟩

end Contribution

namespace Eval

/-- A value as a key. -/
def key (v : Value) : Eval MapKey :=
  match v.key? with
  | some k => pure k
  | none => fail .unhashableKey

/-- The pairs of a map that is spread. -/
def copy : Value → Eval Contribution
  | .map b => do return .copied b ((← getStore).entries b)
  | .null => fail .nullPointer
  | _ => fail .classCast

end Eval

/-- Evaluates an entry without a map to put it into. -/
def Entry.contribution : Entry → Eval Contribution
  | .fixed key stored value _ => do
    let k ← Eval.lift (key.kept stored)
    let v ← value.eval
    return .single (← Eval.key k) v
  | .computed key value _ => do
    let k ← key.eval
    let v ← value.eval
    return .single (← Eval.key k) v
  | .spread source _ => do
    let v ← source.eval
    Eval.copy v

/-- What entries bring, in their order. -/
def Entry.contributions : List Entry → Eval (List Contribution)
  | [] => return []
  | e :: rest => do
    let c ← e.contribution
    let cs ← Entry.contributions rest
    return c :: cs

/-- The pairs of contributions, in their order. -/
def Contribution.allPairs (cs : List Contribution) : MapEntries := cs.flatMap pairs

theorem Contribution.allPairs_cons {c : Contribution} {cs : List Contribution} :
    allPairs (c :: cs) = c.pairs ++ allPairs cs := List.flatMap_cons

namespace Store

variable {s : Store} {a : Address} {m ps : MapEntries}

/-- To put pairs into a map one by one is to fill it with all of them. -/
theorem foldl_put_fill (h : a < s.maps.length) :
    ps.foldl (fun s e => s.put a e.1 e.2) (s.fill a m) = s.fill a (m.putAll ps) := by
  induction ps generalizing m with
  | nil => rfl
  | cons p rest ih =>
    rw [List.foldl_cons, put_eq_fill, entries_fill h, fill_fill, ih, MapEntries.putAll_cons]

end Store

namespace Eval

variable {α β : Type} {a : Address} {st : EvalState} {pairs : α → MapEntries} {u : Unfinished}

/-- To fill a map step by step is to collect the pairs first and to put them into it afterwards. -/
def Fills (a : Address) (x : Eval Unit) (y : Eval α) (pairs : α → MapEntries)
    (st : EvalState) : Prop :=
  ∀ m, x (st.fill a m) = (y st).map fun r => ((), r.2.fill a (m.putAll (pairs r.1)))

theorem Ignores.fills {x : Eval β} {f : β → Eval Unit} {g : β → Eval α} (hx : Ignores a x st)
    (hf : ∀ v st', x st = .ok (v, st') → Fills a (f v) (g v) pairs st') :
    Fills a (x >>= f) (x >>= g) pairs st := by
  intro m
  rw [hx.bind_fill]
  cases h : x st with
  | ok r =>
    rw [Eval.bind_of_ok h]
    exact hf r.1 r.2 h m
  | error k =>
    rw [Eval.bind_of_error h]
    rfl

theorem fills_put {k v : Value} (h : a < st.store.maps.length) :
    Fills a (put a k v) (do return .single (← key k) v) Contribution.pairs st := by
  intro m
  simp only [put, key]
  cases k.key? with
  | some k' =>
    change Except.ok ((), _) = Except.ok ((), _)
    simp only [EvalState.fill, Store.put_eq_fill, Store.entries_fill h, Store.fill_fill]
    rfl
  | none => rfl

theorem fills_spread {d : Nat} {v : Value} (h : a < st.store.maps.length) (ha : a ∈ u.maps)
    (hv : st.store.Grounded u d v) : Fills a (spread a v) (copy v) Contribution.pairs st := by
  intro m
  cases v with
  | map b =>
    change Except.ok ((), _) = Except.ok ((), _)
    simp only [EvalState.fill, Store.entries_fill_ne (Store.ne_of_grounded ha hv),
      Store.foldl_put_fill h]
    rfl
  | _ => rfl

end Eval

section entries

open Eval

variable {vars : List Local} {u : Unfinished} {st st' : EvalState} {a : Address} {r : RecordTy}

namespace Entry

variable {e : Entry} {c : Contribution} {cs : List Contribution}

/-- Nothing that an entry evaluates can see the map it is put into. -/
theorem fills_eval (hn : (vars.map (·.name)).Nodup) (hw : e.WellTyped false vars r)
    (hst : st.Sound false vars u) (ha : a ∈ u.maps) :
    Fills a (e.eval a) e.contribution Contribution.pairs st := by
  cases e with
  | fixed key stored value tag =>
    obtain ⟨-, -, hv, -⟩ := hw
    rw [eval, contribution]
    refine (ignores_lift _).fills fun k st₁ hk => ?_
    obtain ⟨-, rfl⟩ := Eval.ok_of_lift hk
    refine (ignorant_tree hn value hv u st₁ a hst ha).fills fun v st₂ h => ?_
    exact fills_put ((Typed.leads_eval hn hv hst h).1.sound.houses.maps a ha)
  | computed key value tag =>
    obtain ⟨hk, -, hv, -⟩ := hw
    rw [eval, contribution]
    refine (ignorant_tree hn key hk u st a hst ha).fills fun k st₁ h₁ => ?_
    have hl₁ := (Typed.leads_eval hn hk hst h₁).1
    refine (ignorant_tree hn value hv u st₁ a hl₁.sound ha).fills fun v st₂ h₂ => ?_
    exact fills_put ((Typed.leads_eval hn hv hl₁.sound h₂).1.sound.houses.maps a ha)
  | spread source tag =>
    rw [eval, contribution]
    refine (ignorant_tree hn source hw.1 u st a hst ha).fills fun v st₁ h => ?_
    obtain ⟨hl, hg⟩ := Typed.leads_eval hn hw.1 hst h
    exact fills_spread (hl.sound.houses.maps a ha) ha hg.grounded

theorem contribution_single_eq_ok {k v : Value}
    (h : (do return .single (← Eval.key k) v : Eval Contribution) st = .ok (c, st')) :
    ∃ key, k.key? = some key ∧ c = .single key v ∧ st' = st := by
  simp only [Eval.key] at h
  cases hk : k.key? <;> rw [hk] at h <;> cases h
  exact ⟨_, rfl, rfl, rfl⟩

/-- An entry with a written key brings that key, as it is kept, with its value. -/
theorem contribution_fixed_eq_ok {d : Constant} {stored : Ty} {value : Typed} {tag : EntryTag}
    (h : (fixed d stored value tag).contribution st = .ok (c, st')) :
    ∃ k key v, d.kept stored = .ok k ∧ k.key? = some key ∧ value.eval st = .ok (v, st') ∧
      c = .single key v := by
  rw [contribution] at h
  obtain ⟨k, st₁, hk, hrest⟩ := Eval.ok_of_bind h
  obtain ⟨hkept, rfl⟩ := Eval.ok_of_lift hk
  obtain ⟨v, st₂, hv, hlast⟩ := Eval.ok_of_bind hrest
  obtain ⟨key, hkey, rfl, rfl⟩ := contribution_single_eq_ok hlast
  exact ⟨k, key, v, hkept, hkey, hv, rfl⟩

/-- A computed key is evaluated before the value beside it. -/
theorem contribution_computed_eq_ok {key value : Typed} {tag : EntryTag}
    (h : (computed key value tag).contribution st = .ok (c, st')) :
    ∃ w v k st₁, key.eval st = .ok (w, st₁) ∧ value.eval st₁ = .ok (v, st') ∧ w.key? = some k ∧
      c = .single k v := by
  rw [contribution] at h
  obtain ⟨w, st₁, hw, hrest⟩ := Eval.ok_of_bind h
  obtain ⟨v, st₂, hv, hlast⟩ := Eval.ok_of_bind hrest
  obtain ⟨k, hk, rfl, rfl⟩ := contribution_single_eq_ok hlast
  exact ⟨w, v, k, st₁, hw, hv, hk, rfl⟩

theorem contribution_spread_eq_ok {source : Typed} {tag : EntryTag}
    (h : (spread source tag).contribution st = .ok (c, st')) :
    ∃ b, source.eval st = .ok (.map b, st') ∧ c = .copied b (st'.store.entries b) := by
  rw [contribution] at h
  obtain ⟨v, st₁, hv, hcopy⟩ := Eval.ok_of_bind h
  cases v with
  | map b =>
    cases hcopy
    exact ⟨b, hv, rfl⟩
  | _ => cases hcopy

theorem contributions_cons_eq_ok {rest : List Entry}
    (h : contributions (e :: rest) st = .ok (cs, st')) :
    ∃ c others st₁, e.contribution st = .ok (c, st₁) ∧
      contributions rest st₁ = .ok (others, st') ∧ cs = c :: others := by
  obtain ⟨c, st₁, hc, h⟩ := Eval.ok_of_bind h
  obtain ⟨others, st₂, ho, h⟩ := Eval.ok_of_bind h
  cases h
  exact ⟨c, others, st₁, hc, ho, rfl⟩

/-- Where an entry ends that is evaluated with success. -/
theorem leads_contribution (hn : (vars.map (·.name)).Nodup) (hw : e.WellTyped false vars r)
    (hst : st.Sound false vars u) (h : e.contribution st = .ok (c, st')) :
    st.Leads false vars u st' ∧ c.Stands u st'.store := by
  cases e with
  | fixed key stored value tag =>
    obtain ⟨-, -, hv, -⟩ := hw
    obtain ⟨-, -, v, -, -, he, rfl⟩ := contribution_fixed_eq_ok h
    exact ⟨(Typed.leads_eval hn hv hst he).1, trivial⟩
  | computed key value tag =>
    obtain ⟨hk, -, hv, -⟩ := hw
    obtain ⟨w, v, k, st₁, h₁, h₂, -, rfl⟩ := contribution_computed_eq_ok h
    have hl₁ := (Typed.leads_eval hn hk hst h₁).1
    exact ⟨hl₁.trans (Typed.leads_eval hn hv hl₁.sound h₂).1, trivial⟩
  | spread source tag =>
    obtain ⟨b, hb, rfl⟩ := contribution_spread_eq_ok h
    obtain ⟨hl, hg⟩ := Typed.leads_eval hn hw.1 hst hb
    obtain ⟨hlt, hnot⟩ := Store.finished_of_grounded hg.grounded
    exact ⟨hl, hlt, hnot, rfl⟩

/-- The map is filled with what the entries bring. -/
theorem fills_evalAll (hn : (vars.map (·.name)).Nodup) {entries : List Entry}
    (hw : AllWellTyped false vars r entries) (hst : st.Sound false vars u) (ha : a ∈ u.maps) :
    Fills a (evalAll a entries) (contributions entries) Contribution.allPairs st := by
  induction entries generalizing st with
  | nil => exact fun _ => rfl
  | cons e rest ih =>
    obtain ⟨he, hrest⟩ := hw
    intro m
    have hhead := fills_eval hn he hst ha m
    rw [evalAll, contributions]
    simp only [Bind.bind, StateT.bind]
    rw [hhead]
    cases hc : e.contribution st with
    | error k => rfl
    | ok p =>
      obtain ⟨c, st₁⟩ := p
      have htail := ih hrest (leads_contribution hn he hst hc).1.sound (m.putAll c.pairs)
      simp only [Except.map, Except.bind]
      rw [htail]
      cases contributions rest st₁ with
      | error k => rfl
      | ok q =>
        simp only [Except.map, ← MapEntries.putAll_append]
        rfl

/-- Where the entries end that are evaluated with success. -/
theorem leads_contributions (hn : (vars.map (·.name)).Nodup) {entries : List Entry}
    (hw : AllWellTyped false vars r entries) (hst : st.Sound false vars u)
    (h : contributions entries st = .ok (cs, st')) :
    st.Leads false vars u st' ∧ ∀ c ∈ cs, c.Stands u st'.store := by
  induction entries generalizing st cs with
  | nil =>
    cases h
    exact ⟨hst.refl, nofun⟩
  | cons e rest ih =>
    obtain ⟨he, hrest⟩ := hw
    obtain ⟨c, cs', st₁, hc, hcs, rfl⟩ := contributions_cons_eq_ok h
    obtain ⟨hl₁, hstands⟩ := leads_contribution hn he hst hc
    obtain ⟨hl₂, hall⟩ := ih hrest hl₁.sound hcs
    refine ⟨hl₁.trans hl₂, ?_⟩
    intro d hd
    rcases List.mem_cons.mp hd with rfl | hd
    · exact hstands.of_keeps hl₂.keeps
    · exact hall d hd

end Entry

/-- The state with one more map, which is empty. -/
def EvalState.newMap (st : EvalState) : EvalState := { st with store := (st.store.newMap []).2 }

theorem EvalState.fill_newMap : st.newMap.fill st.store.maps.length [] = st.newMap := by
  simp [EvalState.newMap, EvalState.fill, Store.fill, Store.newMap]

theorem EvalState.Sound.ofNewMap (h : st.Sound false vars u) :
    st.newMap.Sound false vars (u.addMap st.store.maps.length) := h.newMap

/-- A literal makes a new map and, once all of its entries are evaluated, puts what they bring. -/
theorem Typed.eval_record {plan : PlanTag} {entries : List Entry} {tag : Tag}
    (hn : (vars.map (·.name)).Nodup) (hw : Entry.AllWellTyped false vars r entries)
    (hst : st.Sound false vars u) :
    (record plan entries tag).eval st = (Entry.contributions entries st.newMap).map fun p =>
      let a := st.store.maps.length
      (.map a, p.2.fill a (.putAll [] (Contribution.allPairs p.1))) := by
  have hfills := Entry.fills_evalAll hn hw hst.ofNewMap List.mem_cons_self []
  rw [EvalState.fill_newMap] at hfills
  have heval : (record plan entries tag).eval st =
      (Entry.evalAll st.store.maps.length entries st.newMap).map fun p =>
        (.map st.store.maps.length, p.2) := by
    rw [eval]
    change Except.bind (Entry.evalAll st.store.maps.length entries st.newMap) _ = _
    cases Entry.evalAll st.store.maps.length entries st.newMap <;> rfl
  rw [heval, hfills]
  cases Entry.contributions entries st.newMap <;> rfl

theorem Typed.eval_record_eq_ok {plan : PlanTag} {entries : List Entry} {tag : Tag} {v : Value}
    (hn : (vars.map (·.name)).Nodup) (hw : Entry.AllWellTyped false vars r entries)
    (hst : st.Sound false vars u) (h : (record plan entries tag).eval st = .ok (v, st')) :
    ∃ cs st₁, Entry.contributions entries st.newMap = .ok (cs, st₁) ∧
      v = .map st.store.maps.length ∧
      st' = st₁.fill st.store.maps.length (.putAll [] (Contribution.allPairs cs)) := by
  rw [eval_record hn hw hst] at h
  cases hc : Entry.contributions entries st.newMap with
  | ok p =>
    rw [hc] at h
    cases h
    exact ⟨p.1, p.2, rfl, rfl, rfl⟩
  | error k =>
    rw [hc] at h
    cases h

/-- A map has been built from contributions, and the maps around it are as they were. -/
structure EvalState.Built (st st' : EvalState) (a : Address) (cs : List Contribution) : Prop where
  fresh : a = st.store.maps.length
  entries : st'.store.entries a = .putAll [] (Contribution.allPairs cs)
  records : (st'.store.entries a).Records (Contribution.allPairs cs)
  others : ∀ b < st.store.maps.length, st'.store.entries b = st.store.entries b
  sources : ∀ b pairs, .copied b pairs ∈ cs → b ≠ a ∧ st'.store.entries b = pairs

/-- A literal whose entries all come to an end has built the map of their pairs. -/
theorem Entry.built_contributions {entries : List Entry} {cs : List Contribution}
    (hn : (vars.map (·.name)).Nodup) (hw : AllWellTyped false vars r entries)
    (hst : st.Sound false vars u) (h : contributions entries st.newMap = .ok (cs, st')) :
    st.Built (st'.fill st.store.maps.length (.putAll [] (Contribution.allPairs cs)))
      st.store.maps.length cs := by
  obtain ⟨hl, hstands⟩ := leads_contributions hn hw hst.ofNewMap h
  have hlt := hl.sound.houses.maps _ List.mem_cons_self
  have hentries : (st'.fill st.store.maps.length
      (.putAll [] (Contribution.allPairs cs))).store.entries st.store.maps.length =
        .putAll [] (Contribution.allPairs cs) := Store.entries_fill hlt
  refine ⟨rfl, hentries, ?_, ?_, ?_⟩
  · rw [hentries]
    exact MapEntries.records_putAll _
  · intro b hb
    have hnew : b < (st.store.newMap []).2.maps.length := by
      simp only [Store.newMap, List.length_append]
      omega
    have hkeeps := Store.Keeps.newMap (u := .none) st.store []
    exact (Store.entries_fill_ne (Nat.ne_of_lt hb)).trans
      ((hl.keeps.entries b hnew List.not_mem_nil).trans (hkeeps.entries b hb List.not_mem_nil))
  · intro b pairs hb
    obtain ⟨-, hu, he⟩ := hstands _ hb
    have hne : b ≠ st.store.maps.length := fun h => hu (h ▸ List.mem_cons_self)
    exact ⟨hne, (Store.entries_fill_ne hne).trans he⟩

end entries

section keys

variable {key : Key} {declared stored : Ty} {d : Constant} {v : Value} {k : MapKey} {l : Literal}

/-- The key that a written key is kept as where keys have a declared type. Names, quoted texts,
`true`, `false` and `null` are strings, and so is a number unless numbers are declared. -/
inductive Key.KeptAs (declared : Ty) : Key → MapKey → Prop
  | name (text : String) (s : Span) : KeptAs declared (.name text s) (.string text)
  | quoted (text : String) (s : Span) : KeptAs declared (.string text s) (.string text)
  | boolean (b : Bool) (s : Span) :
    KeptAs declared (.boolean b s) (.string (if b then "true" else "false"))
  | null (s : Span) : KeptAs declared (.null s) (.string "null")
  | digits (n : Int64) (s : Span) (texts : (declared.isNumeric || declared.isNumber) = false) :
    KeptAs declared (.int n s) (.string (toString n.toInt))
  | decimal (x : Float) (s : Span) (texts : (declared.isNumeric || declared.isNumber) = false) :
    KeptAs declared (.float x s) (.string (floatKeyText x))
  /-- A whole number in the range of its kind. -/
  | whole {key : Key} {l : Literal} {n : Int64} {k : MapKey}
    (numbers : (declared.isNumeric || declared.isNumber) = true) (literal : key.literal? = some l)
    (value : l.whole? = some n) (fits : (l.keyKind declared).fits n.toInt = true)
    (boxed : (Value.ofWhole (.boxed (l.keyKind declared)) n.toInt).key? = some k) :
    KeptAs declared key k
  | float {key : Key} {l : Literal} (numbers : (declared.isNumeric || declared.isNumber) = true)
    (literal : key.literal? = some l) (kind : l.keyKind declared = .float) :
    KeptAs declared key (.boxed (.float l.toDouble.toFloat32))
  | double {key : Key} {l : Literal} (numbers : (declared.isNumeric || declared.isNumber) = true)
    (literal : key.literal? = some l) (kind : l.keyKind declared = .double) :
    KeptAs declared key (.boxed (.double l.toDouble))

theorem Constant.value_ofWhole? {k : Kind} {n : Int64} (h : ofWhole? k n = some d) :
    d.value = .ofWhole (.prim k) n.toInt := by
  obtain ⟨-, -, rfl⟩ := ofWhole?_eq_some h
  split
  · next hk =>
    subst hk
    simp [value, Value.ofWhole]
  · next hk =>
    rw [Value.ofWhole_prim hk]
    simp [value]

/-- A whole constant is boxed at the kind it was made for. -/
theorem Constant.kept_ofWhole? {k : Kind} {n : Int64} (h : ofWhole? k n = some d) :
    d.kept (.boxed k) = .ok (.ofWhole (.boxed k) n.toInt) := by
  rw [kept, value_ofWhole? h, Value.box_ofWhole (ofWhole?_eq_some h).1]

theorem Key.keptAs_whole {n : Int64} (hn : (declared.isNumeric || declared.isNumber) = true)
    (hl : key.literal? = some l) (hw : l.whole? = some n)
    (hd : Constant.ofWhole? (l.keyKind declared) n = some d)
    (hv : d.kept (.boxed (l.keyKind declared)) = .ok v) (hk : v.key? = some k) :
    key.KeptAs declared k := by
  rw [Constant.kept_ofWhole? hd] at hv
  cases hv
  exact .whole hn hl hw (Constant.ofWhole?_eq_some hd).2.1 hk

theorem Key.keptAs_number (hn : (declared.isNumeric || declared.isNumber) = true)
    (hl : key.literal? = some l) (hd : l.keyConstant? (l.keyKind declared) = some d)
    (hv : d.kept (.boxed (l.keyKind declared)) = .ok v) (hk : v.key? = some k) :
    key.KeptAs declared k := by
  unfold Literal.keyConstant? at hd
  split at hd
  · next hkind =>
    cases hd
    rw [hkind] at hv
    cases hv
    cases hk
    exact .float hn hl hkind
  · next hkind =>
    cases hd
    rw [hkind] at hv
    cases hv
    cases hk
    exact .double hn hl hkind
  · obtain ⟨n, hw, hd⟩ := Option.bind_eq_some_iff.mp hd
    exact keptAs_whole hn hl hw hd hv hk

/-- The constant of an accepted key is the key that its form stands for. -/
theorem Key.keptAs_of_constant (hkey : ∀ source place, key ≠ .computed source place)
    (h : key.constant declared = .ok (d, stored)) (hv : d.kept stored = .ok v)
    (hk : v.key? = some k) : key.KeptAs declared k := by
  unfold constant at h
  split at h
  · next l hn hl =>
    split at h
    · next hd =>
      cases h
      exact keptAs_number hn hl hd hv hk
    · cases h
  · next hnot =>
    split at h
    · cases h
      cases hv
      cases hk
      have htexts (l : Literal) (hl : key.literal? = some l) :
          (declared.isNumeric || declared.isNumber) = false := by
        cases hn : declared.isNumeric || declared.isNumber with
        | false => rfl
        | true => exact (hnot l hn hl).elim
      cases key with
      | name text s => exact .name text s
      | string text s => exact .quoted text s
      | int n s => exact .digits n s (htexts _ rfl)
      | float x s => exact .decimal x s (htexts _ rfl)
      | boolean b s => exact .boolean b s
      | null s => exact .null s
      | computed source place => exact absurd rfl (hkey source place)
    · cases h

end keys

/-- What a property brings when it is evaluated from one state to another. A written key comes with
the value beside it, a computed one is evaluated before that value, a shorthand is the name of its
variable, and a spread map gives all of its pairs. -/
inductive Property.Brings (scope : Scope) (constraint : Option RecordTy) (st st' : EvalState) :
    Property → Contribution → Prop
  | written {key : Key} {value : Expr} {span : Span} {label : String} {t : Typed} {k : MapKey}
    {v : Value} (kept : key.KeptAs (Check.declaredKey constraint) k)
    (checked : Check.fitPropertyValue constraint label value
      (Check.expr scope (Check.valueHint constraint label) value) = .ok t)
    (evaluated : t.eval st = .ok (v, st')) :
    Brings scope constraint st st' (.keyed key value span) (.single k v)
  | computed {source value : Expr} {place span : Span} {label : String} {kt t : Typed}
    {kv v : Value} {k : MapKey} {st₁ : EvalState}
    (checkedKey : Check.fitPropertyKey constraint label source
      (Check.expr scope (Check.keyHint constraint) source) = .ok kt)
    (checked : Check.fitPropertyValue constraint label value
      (Check.expr scope (Check.valueHint constraint label) value) = .ok t)
    (evaluatedKey : kt.eval st = .ok (kv, st₁)) (evaluated : t.eval st₁ = .ok (v, st'))
    (key : kv.key? = some k) :
    Brings scope constraint st st' (.keyed (.computed source place) value span) (.single k v)
  | shorthand {name : String} {span : Span} {t : Typed} {v : Value}
    (checked : Check.fitPropertyValue constraint name (.var name span) (scope.read name span) =
      .ok t) (evaluated : t.eval st = .ok (v, st')) :
    Brings scope constraint st st' (.shorthand name span) (.single (.string name) v)
  | spread {source : Expr} {span : Span} {t : Typed} {b : Address}
    (checked : Check.expr scope (Check.spreadHint constraint source) source = .ok t)
    (evaluated : t.eval st = .ok (.map b, st')) :
    Brings scope constraint st st' (.spread source span) (.copied b (st'.store.entries b))

/-- What properties bring one after the other, each from the state that the one before it left. -/
inductive Property.AllBring (scope : Scope) (constraint : Option RecordTy) :
    EvalState → EvalState → List Property → List Contribution → Prop
  | nil (st : EvalState) : AllBring scope constraint st st [] []
  | cons {st st₁ st' : EvalState} {p : Property} {c : Contribution} {ps : List Property}
    {cs : List Contribution} (head : p.Brings scope constraint st st₁ c)
    (tail : AllBring scope constraint st₁ st' ps cs) :
    AllBring scope constraint st st' (p :: ps) (c :: cs)

namespace Check

variable {scope : Scope} {hint : Hint} {constraint : Option RecordTy} {props : List Property}
  {entries : List Entry} {extent span : Span} {typed : Typed}

theorem forall₂_properties {order : Nat}
    (h : properties scope constraint order props = .ok entries) :
    List.Forall₂ (fun p e => ∃ order, property scope constraint order p = .ok e) props entries := by
  induction props generalizing order entries with
  | nil =>
    cases h
    exact .nil
  | cons p rest ih =>
    obtain ⟨e, es, rfl, he, hes⟩ := properties_eq_ok h
    exact .cons ⟨order, he⟩ (ih hes)

/-- An object literal has one entry for each property, in their order. -/
theorem expr_object (h : expr scope hint (.object props extent span) = .ok typed) :
    ∃ plan entries tag, typed = .record plan entries tag ∧
      List.Forall₂ (fun p e => ∃ order, property scope hint.record? order p = .ok e)
        props entries := by
  obtain ⟨entries, he, rfl⟩ := object_eq_ok h
  exact ⟨_, entries, _, rfl, forall₂_properties he⟩

/-- An accepted property brings what its form says. -/
theorem brings_property {order : Nat} {p : Property} {e : Entry} {c : Contribution}
    {st st' : EvalState} (h : property scope constraint order p = .ok e)
    (hc : e.contribution st = .ok (c, st')) : p.Brings scope constraint st st' c := by
  cases p with
  | keyed key value span =>
    cases key with
    | computed source place =>
      obtain ⟨kt, t, hkt, ht, rfl⟩ := computed_eq_ok h
      obtain ⟨kv, v, k, st₁, hkv, hv, hk, rfl⟩ := Entry.contribution_computed_eq_ok hc
      exact .computed hkt ht hkv hv hk
    | name | string | int | float | boolean | null =>
      obtain ⟨d, t, hd, ht, rfl⟩ := keyed_eq_ok h (fun _ _ => Key.noConfusion)
      obtain ⟨kv, k, v, hkept, hk, hv, rfl⟩ := Entry.contribution_fixed_eq_ok hc
      exact .written (Key.keptAs_of_constant (fun _ _ => Key.noConfusion) hd hkept hk) ht hv
  | shorthand name span =>
    obtain ⟨d, t, hd, ht, rfl⟩ := shorthand_eq_ok h
    obtain ⟨kv, k, v, hkept, hk, hv, rfl⟩ := Entry.contribution_fixed_eq_ok hc
    cases Key.keptAs_of_constant (fun _ _ => Key.noConfusion) hd hkept hk with
    | name => exact .shorthand ht hv
    | whole _ hl | float _ hl | double _ hl => cases hl
  | spread source span =>
    obtain ⟨t, place, types, ht, -, rfl⟩ := spread_eq_ok h
    obtain ⟨b, hb, rfl⟩ := Entry.contribution_spread_eq_ok hc
    rw [Typed.moveTo, Typed.eval_withTag] at hb
    exact .spread ht hb
  | member form key span => cases h

/-- The entries of accepted properties bring what the properties do, in their order. -/
theorem allBring_properties {st st' : EvalState} {cs : List Contribution}
    (h : List.Forall₂ (fun p e => ∃ order, property scope constraint order p = .ok e) props entries)
    (hc : Entry.contributions entries st = .ok (cs, st')) :
    Property.AllBring scope constraint st st' props cs := by
  induction h generalizing st cs with
  | nil =>
    cases hc
    exact .nil _
  | cons hp _ ih =>
    obtain ⟨order, hp⟩ := hp
    obtain ⟨c, others, st₁, hhead, htail, rfl⟩ := Entry.contributions_cons_eq_ok hc
    exact .cons (brings_property hp hhead) (ih htail)

end Check

/-- The code of an object literal builds a new map. It puts into it, one after the other, the pairs
that the properties bring in the order of the source, each of them what its form says. -/
theorem object_builds_put_pairs {scope : Scope} {hint : Hint} {props : List Property}
    {extent span : Span} {typed : Typed}
    (h : Check.expr scope hint (.object props extent span) = .ok typed) :
    ∃ plan entries tag, typed = .record plan entries tag ∧
      List.Forall₂ (fun p e => ∃ order, Check.property scope hint.record? order p = .ok e)
        props entries ∧
      ∀ (s : Sequence) (free : Nat) (es : EmitState) (σ : List Value) (u : Unfinished)
        (st : EvalState), s.Hosts scope.vars free → free ≤ es.nextLocal →
        (Emit.expr .default typed es).2.Within s → st.Sound false scope.vars u →
          match Entry.contributions entries st.newMap with
          | .ok (cs, st') =>
            Property.AllBring scope hint.record? st.newMap st' props cs ∧
            ∃ a st'', st.Built st'' a cs ∧ st''.bindings = st'.bindings ∧
            s.Runs scope.vars (Emit.expr .default typed es).1 σ st (.ok (.map a, st'')) (· :: σ)
          | .error k => s.Runs scope.vars (Emit.expr .default typed es).1 σ st
            (.error k : Except FaultKind (Value × EvalState)) (· :: σ) := by
  have hw : Typed.WellTyped false scope.vars typed := Check.wellTyped_expr _ hint nofun h
  obtain ⟨plan, entries, tag, rfl, hprops⟩ := Check.expr_object h
  refine ⟨plan, entries, tag, rfl, hprops, ?_⟩
  intro s free es σ u st hs hfree hwithin hst
  have hruns := compiles_tree Options.known_default hs _ hw es u σ st hfree hwithin hst
  rw [Typed.eval_record hs.names hw.1 hst] at hruns
  cases hc : Entry.contributions entries st.newMap with
  | ok p =>
    obtain ⟨cs, st'⟩ := p
    rw [hc] at hruns
    exact ⟨Check.allBring_properties hprops hc, _, _,
      Entry.built_contributions hs.names hw.1 hst hc, rfl, hruns⟩
  | error k =>
    rw [hc] at hruns
    exact hruns

/-- `{x, ...{b: 2, x: 3}, ["c"]: x, "b": 4, 7: 5}`, with `x` declared as one. -/
def mixed : SourceUnit :=
  let o := Span.origin
  ⟨"mixed", [⟨"x", o, some (.simple "int" o), some (.int 1 o), o⟩],
    .ofObject [.shorthand "x" o,
      .ofSpread (.ofObject [.ofKeyed (.name "b" o) (.int 2 o), .ofKeyed (.name "x" o) (.int 3 o)]),
      .ofKeyed (.ofComputed (.string "c" o)) (.var "x" o), .ofKeyed (.string "b" o) (.int 4 o),
      .ofKeyed (.int 7 o) (.int 5 o)], none⟩

theorem contributions_mixed :
    ∃ t plan entries tag cs st', Check.unit mixed = .ok t ∧ t.body = .record plan entries tag ∧
      t.initializers.map (·.target) = (Scope.empty.push "x" (.prim .int) .origin).vars ∧
      Check.expr (Scope.empty.push "x" (.prim .int) .origin) .none mixed.body =
        .ok (.record plan entries tag) ∧
      Entry.contributions entries (EvalState.newMap ⟨[("x", .int 1)], .empty⟩) = .ok (cs, st') ∧
      Contribution.allPairs cs =
        [(.string "x", .boxed (.int 1)), (.string "b", .boxed (.int 2)),
          (.string "x", .boxed (.int 3)), (.string "c", .boxed (.int 1)),
          (.string "b", .boxed (.int 4)), (.string "7", .boxed (.int 5))] :=
  ⟨_, _, _, _, _, _, rfl, rfl, rfl, rfl, rfl, rfl⟩

/-- A state of one variable that is a number. -/
theorem EvalState.sound_int (name : String) (n : Int32) :
    EvalState.Sound false (Scope.empty.push name (.prim .int) .origin).vars .none
      ⟨[(name, .int n)], .empty⟩ := by
  refine ⟨rfl, ?_, nofun, nofun, Nat.le_refl 0⟩
  intro x hx
  cases List.mem_singleton.mp hx
  exact ⟨.int n, List.lookup_cons_self, ⟨rfl, fits_int n⟩, trivial⟩

theorem mixed_builds_put_pairs :
    ∃ t plan entries tag cs st' a st'' code, Check.unit mixed = .ok t ∧
      t.body = .record plan entries tag ∧
      Entry.contributions entries (EvalState.newMap ⟨[("x", .int 1)], .empty⟩) = .ok (cs, st') ∧
      EvalState.Built ⟨[("x", .int 1)], .empty⟩ st'' a cs ∧
      st''.store.entries a = [(.string "x", .boxed (.int 3)), (.string "b", .boxed (.int 4)),
        (.string "c", .boxed (.int 1)), (.string "7", .boxed (.int 5))] ∧
      (t.sequence .default).Runs (t.initializers.map (·.target)) code []
        ⟨[("x", .int 1)], .empty⟩ (.ok (.map a, st'')) (· :: []) ∧
      code <:+ (t.sequence .default).code := by
  obtain ⟨t, plan, entries, tag, cs, st', ht, hbody, hvars, h, hcs, hpairs⟩ := contributions_mixed
  have hu : t.WellTyped false := Check.wellTyped_unit nofun ht
  obtain ⟨es, hfree, hwithin, hcode⟩ := t.exists_body_code .default
  rw [hbody] at hwithin hcode
  obtain ⟨_, _, _, htyped, -, hall⟩ := object_builds_put_pairs h
  cases htyped
  have hrun := hall (t.sequence .default) t.freeSlot es [] .none _
    (hvars ▸ TypedUnit.hosts_sequence hu) hfree hwithin (EvalState.sound_int "x" 1)
  rw [hcs] at hrun
  obtain ⟨-, a, st'', hbuilt, -, hruns⟩ := hrun
  refine ⟨t, plan, entries, tag, cs, st', a, st'', _, ht, hbody, hcs, hbuilt, ?_, hvars ▸ hruns,
    hcode⟩
  rw [hbuilt.entries, hpairs]
  rfl

end StackExpr
