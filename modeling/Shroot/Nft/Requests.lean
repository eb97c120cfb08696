import Shroot.Nft.Edits

namespace Shroot.Nft

open General List UInt32 Prod
open Network (Attribute)

variable {t : Table} {f : NetworkFilter} {c : Chain} {s : ElementSet} {dump : Bool} {i : Nat} {name : Bytes}
  {id : UInt32}

/-- A request for a set with a name that anonymous sets are given. -/
def Reserves (m : Message) : Prop :=
  m.operation = NFT_MSG_NEWSET ∧ ∃ a n flags, m.attributes newSetAttributes = .ok a ∧
    string (a.get 2) = .ok (some (anonymousName n)) ∧ requiredNumber (a.get 3) = .ok flags ∧
      has (ofNat flags) NFT_SET_ANONYMOUS = false

abbrev Edits (free : Prop) : NetworkFilter → NetworkFilter → Prop := Relation.ReflTransGen (Edit free)

/-- What an update does is a run of edits. -/
abbrev Amends {α : Type} (free : Prop) (f : NetworkFilter) : Update α → Prop := Yields f fun _ g => Edits free f g

variable {free : Prop} (o : Outside) (m : Message)

theorem encode_yields (asked : Bool) : Yields f (fun _ g => g = f) (o.encode asked) := by
  unfold Outside.encode rejectIf
  split
  · exact .ite (fun _ => .throw) fun _ => .pure rfl
  · exact .pure rfl

theorem echo_yields {post : NetworkFilter → Prop} (has : post f) : Yields f (fun _ g => post g) (echo o m) :=
  (encode_yields o _).mono fun _ _ same => same ▸ has

theorem rejectIf_yields {bad : Prop} [Decidable bad] {errno : Errno} :
    Yields f (fun _ g => g = f) (rejectIf bad errno : Update Unit) :=
  .ite (fun _ => .throw) fun _ => .pure rfl

theorem reserve_yields (count limit : Nat) : Yields f (fun _ g => g = f) (reserve o count limit) :=
  .rejectIf_bind fun _ => rejectIf_yields

theorem takeHandle_yields :
    Yields f (fun handle g => handle = f.nextHandle ∧ g = { f with nextHandle := f.nextHandle + 1 }) takeHandle := by
  refine .get_bind (.rejectIf_bind fun _ => ?_)
  intro handle g run
  cases run
  exact ⟨rfl, rfl⟩

theorem tableSelector_mem {a : Option Attribute} :
    Gives (fun found => ∀ t, found = some t → t ∈ f.tables) (tableSelector m f a dump) := by
  refine .bind fun name _ => ?_
  split
  · split
    next t found =>
      refine .pure fun u is => ?_
      cases is
      exact mem_of_find?_eq_some found
    · exact .error
  · exact .ite (fun _ => .pure nofun) fun _ => .error

theorem tableOf_mem {a : Option Attribute} : Gives (fun t => t ∈ f.tables) (tableOf m f a) := by
  refine .bind fun found is => ?_
  split
  · exact .pure (tableSelector_mem m _ is _ rfl)
  · exact .error

theorem table_positive (good : Consistent f) (mem : t ∈ f.tables) : t.handle ≠ 0 := by
  have issued := good.issued t.handle (by simp only [handles, mem_append, mem_map]; exact .inl ⟨t, mem, rfl⟩)
  omega

theorem filterAdd_edit (family : UInt32) (name userdata : Bytes) :
    Yields f (fun _ g => Edit free f g) (filterAdd o family name userdata) := by
  refine .get_bind (.rejectIf_bind fun _ => .rejectIf_bind fun _ => .rejectIf_bind fun _ => ?_)
  exact .rejectIf_bind fun _ => .modify (.addTable { handle := 0, family, name, userdata })

theorem newTable_edits : Amends free f (newTable o m) := by
  refine .get_bind (.ofExcept_bind fun req _ => .rejectIf_bind fun _ => ?_)
  refine .ofExcept_bind fun flags _ => .rejectIf_bind fun _ => .ofExcept_bind fun userdata _ => ?_
  split
  · exact .rejectIf_bind fun _ => echo_yields o m .refl
  · exact (filterAdd_edit o _ _ _).bind fun _ g edit => echo_yields o m (.single edit)

/-- What deleting the contents of tables leaves. -/
structure Emptied (gone : List Table) (f g : NetworkFilter) : Prop where
  nextHandle : g.nextHandle = f.nextHandle
  chains : g.chains = f.chains.filter fun c => gone.all (·.handle != c.table)
  sets : g.sets = f.sets.filter fun s => gone.all (·.handle != s.table)
  sublist : g.rules.Sublist f.rules
  rules : ∀ r ∈ g.rules, ∀ c ∈ f.chains, c.handle = r.chain → ∀ t ∈ gone, t.handle ≠ c.table

theorem foldl_deleteContents (gone : List Table) (f : NetworkFilter) :
    Emptied gone f (gone.foldl deleteContents f) := by
  induction gone generalizing f with
  | nil => exact ⟨rfl, by simp, by simp, List.Sublist.refl _, nofun⟩
  | cons t gone ih =>
    have rest := ih (deleteContents f t)
    have narrower : ∀ table : Nat,
        (gone.all (·.handle != table) && table != t.handle) = (t :: gone).all (·.handle != table) := by
      intro table
      rw [all_cons, Bool.and_comm, bne_comm]
    refine ⟨rest.nextHandle, ?_, ?_, rest.sublist.trans (filter_sublist), ?_⟩
    · rw [foldl_cons, rest.chains]
      simp only [deleteContents, filter_filter, narrower]
    · rw [foldl_cons, rest.sets]
      simp only [deleteContents, filter_filter, narrower]
    · intro r mem c there is u isIn
      have kept := rest.sublist.subset mem
      simp only [deleteContents, mem_filter, Bool.not_eq_true', any_eq_false, Bool.and_eq_true, beq_iff_eq,
        not_and] at kept
      have here : c.table ≠ t.handle := fun same => kept.2 c there same is
      rcases mem_cons.mp isIn with rfl | later
      · exact here.symm
      · refine rest.rules r mem c ?_ is u later
        simp only [deleteContents, mem_filter, bne_iff_ne]
        exact ⟨there, here⟩

theorem filterDelete_kept (good : Consistent f) (name : Option Bytes) (handle : Nat) :
    Kept f (filterDelete m name handle f) := by
  obtain ⟨gone, isGone⟩ : ∃ gone, gone = f.tables.filter (tableMatches m name handle) := ⟨_, rfl⟩
  have emptied := foldl_deleteContents gone f
  unfold filterDelete
  rw [← isGone]
  generalize gone.foldl deleteContents f = g at emptied
  have stays : ∀ t ∈ f.tables, (∀ u ∈ gone, u.handle ≠ t.handle) →
      t ∈ f.tables.filter (!tableMatches m name handle ·) := by
    intro t mem other
    refine mem_filter.mpr ⟨mem, ?_⟩
    rw [Bool.not_eq_true', Bool.eq_false_iff]
    exact fun matching => other t (isGone ▸ mem_filter.mpr ⟨mem, matching⟩) rfl
  have chains : ∀ c, c ∈ g.chains ↔ c ∈ f.chains ∧ ∀ u ∈ gone, u.handle ≠ c.table := by
    intro c
    rw [emptied.chains, mem_filter, all_eq_true]
    simp only [bne_iff_ne]
  have sets : ∀ s, s ∈ g.sets ↔ s ∈ f.sets ∧ ∀ u ∈ gone, u.handle ≠ s.table := by
    intro s
    rw [emptied.sets, mem_filter, all_eq_true]
    simp only [bne_iff_ne]
  -- What a rule refers to is in the table of its chain, which stays with the rule.
  have rule : ∀ r ∈ g.rules, ∃ c ∈ f.chains, (∀ u ∈ gone, u.handle ≠ c.table) ∧
      ∀ e ∈ r.expressions, References f c.table e := by
    intro r mem
    obtain ⟨c, there, is, refs⟩ := good.rules r (emptied.sublist.subset mem)
    exact ⟨c, there, emptied.rules r mem c there is, refs⟩
  refine
    { nextHandle := emptied.nextHandle
      tables := filter_sublist
      chains := by rw [emptied.chains]; exact filter_sublist
      rules := emptied.sublist
      sets := by rw [emptied.sets]; exact filter_sublist
      chainTables := fun c mem t there is => stays t there (is ▸ ((chains c).mp mem).2)
      setTables := fun s mem t there is => stays t there (is ▸ ((sets s).mp mem).2)
      ruleChains := fun r mem c there is => (chains c).mpr ⟨there, emptied.rules r mem c there is⟩
      jumps := ?_
      references := ?_
      elements := ?_ }
  · intro r mem v isIn d there leads
    obtain ⟨c, _, kept, refs⟩ := rule r mem
    obtain ⟨d', isThere, same, table⟩ := (refs _ isIn).jump v d.handle rfl leads
    obtain rfl := good.chain_eq isThere there same
    exact (chains _).mpr ⟨there, table ▸ kept⟩
  · intro r mem e isIn s there is
    obtain ⟨c, _, kept, refs⟩ := rule r mem
    obtain ⟨s', isThere, same, table⟩ := (refs e isIn).set s.handle is
    obtain rfl := good.set_eq isThere there same
    exact (sets _).mpr ⟨there, table ▸ kept⟩
  · intro s mem e isIn d there leads
    obtain ⟨isSet, kept⟩ := (sets s).mp mem
    obtain ⟨d', isThere, same, table⟩ := good.elements s isSet e isIn d.handle leads
    obtain rfl := good.chain_eq isThere there same
    exact (chains _).mpr ⟨there, table ▸ kept⟩

theorem delTable_edits (good : Consistent f) : Amends free f (delTable o m) := by
  refine .get_bind (.ofExcept_bind fun req _ => .rejectIf_bind fun _ => ?_)
  refine (encode_yields o _).bind fun _ g same => ?_
  subst same
  exact .modify (.single (.delete (filterDelete_kept m good _ _)))

section

variable {a : Fields} {existing : Option Chain}

theorem chainDelete_kept (good : Consistent f) {old : Chain} (there : f.chains[i]? = some old) {alone : Bool}
    (free : chainUsed f old.handle alone = false) : Kept f (chainDelete f i old.handle) := by
  simp only [chainUsed, Bool.or_eq_false_iff, any_eq_false] at free
  obtain ⟨noRule, noElement⟩ := free
  refine
    { Kept.refl f with
      chains := eraseIdx_sublist _ _
      rules := filter_sublist
      chainTables := fun _ _ _ mem _ => mem
      ruleChains := ?_
      jumps := ?_
      references := fun _ _ _ _ _ mem _ => mem
      elements := ?_ }
  · intro r mem c isIn is
    have other := (mem_filter.mp mem).2
    refine mem_eraseIdx_of_ne there isIn ?_
    rintro rfl
    simp [is] at other
  · intro r mem v isIn d isThere leads
    obtain ⟨isRule, other⟩ := mem_filter.mp mem
    refine mem_eraseIdx_of_ne there isThere ?_
    rintro rfl
    have noJump := noRule r isRule
    rw [if_neg (by simpa using other)] at noJump
    exact noJump (any_eq_true.mpr ⟨_, isIn, by simp [Expression.leadsTo, leads]⟩)
  · intro s mem e isIn d isThere leads
    refine mem_eraseIdx_of_ne there isThere ?_
    rintro rfl
    obtain ⟨isMap, isVerdict⟩ := good.verdictMaps s mem e isIn (by simp [leads])
    refine noElement s mem ?_
    simp only [isMap, isVerdict, beq_self_eq_true, Bool.and_self, Bool.true_and, any_eq_true]
    exact ⟨e, isIn, by simp [leads]⟩

theorem delChain_edits (good : Consistent f) : Amends free f (delChain m) := by
  refine .get_bind (.ofExcept_bind fun a _ => .ofExcept_bind fun t _ => .ofExcept_bind fun name _ => ?_)
  refine .ofExcept_bind fun handle _ => ?_
  split
  · exact .throw
  next i existing found =>
    refine .ofExcept_bind fun _ _ => .rejectIf_bind fun unused => .modify (.single (.delete ?_))
    exact chainDelete_kept good (findIdx?_bind_ok found).1 (Bool.eq_false_iff.mpr unused)

def Chain.identity (c : Chain) : Nat × Nat × Bytes := (c.table, c.handle, c.name)

theorem chainHook_identity {hook : Attribute} :
    Gives (fun d => d.identity = c.identity) (chainHook t existing a hook c) := by
  refine .bind fun b _ => .bind fun _ _ => .bind fun _ _ => .bind fun _ _ => .failIf_bind fun _ => ?_
  exact .failIf_bind fun _ => .failIf_bind fun _ => .failIf_bind fun _ => .pure rfl

theorem chainPlace_identity {flags : Nat} :
    Gives (fun d => d.identity = c.identity) (chainPlace t existing a flags c) := by
  unfold chainPlace
  split
  · exact chainHook_identity
  · exact .failIf_bind fun _ => .pure rfl

theorem chainCounters_identity {a : Option Attribute} :
    Gives (fun d => d.identity = c.identity) (chainCounters a c) := by
  unfold chainCounters
  split
  · exact .pure rfl
  · refine .failIf_bind fun _ => .bind fun _ _ => .failIf_bind fun _ => ?_
    exact .bind fun _ _ => .bind fun _ _ => .pure rfl

theorem chainValue_identity :
    Gives (fun d => d.table = (existing.map (·.table)).getD t.handle ∧ d.handle = (existing.map (·.handle)).getD 0 ∧
      d.name = name)
      (chainValue t existing name a) := by
  have base : ∀ d : Chain, d.identity =
    ({ existing.getD { table := t.handle, handle := 0, name } with name } : Chain).identity →
      d.table = (existing.map (·.table)).getD t.handle ∧ d.handle = (existing.map (·.handle)).getD 0 ∧
        d.name = name := by
    intro d same
    obtain ⟨table, rest⟩ := mk.inj same
    obtain ⟨handle, isName⟩ := mk.inj rest
    cases existing with
    | none => exact ⟨table, handle, isName⟩
    | some old => exact ⟨table, handle, isName⟩
  refine .bind fun flags _ => .bind fun id _ => .bind fun policy _ => .failIf_bind fun _ => ?_
  refine .bind fun placed isPlaced => .bind fun good isCounted => ?_
  have same := (chainCounters_identity good isCounted).trans (chainPlace_identity placed isPlaced)
  split
  · exact .bind fun userdata _ => .pure (base _ same)
  · exact .pure (base _ same)

/-- What gets a new handle is an edit if it is one with the next handle. -/
theorem numbered_edit {count : NetworkFilter → Nat} {limit : Nat} {change : Nat → NetworkFilter → NetworkFilter}
    (edit : Edit free f (change f.nextHandle { f with nextHandle := f.nextHandle + 1 })) :
    Yields f (fun _ g => Edit free f g) (do
      let f ← get
      reserve o (count f) limit
      let handle ← takeHandle
      modify (change handle)) := by
  refine .get_bind ((reserve_yields o _ _).bind fun _ g same => ?_)
  subst same
  refine takeHandle_yields.bind fun handle g taken => ?_
  obtain ⟨rfl, rfl⟩ := taken
  exact .modify edit

theorem addChain_edit (table : ∃ t ∈ f.tables, t.handle = c.table)
    (name : ∀ d ∈ f.chains, d.table = c.table → d.name ≠ c.name) :
    Yields f (fun _ g => Edit free f g) (addChain o c) :=
  numbered_edit o (.addChain c table name)

theorem newChain_edits : Amends free f (newChain o m) := by
  refine .get_bind (.ofExcept_bind fun a _ => .ofExcept_bind fun t isTable => .ofExcept_bind fun name _ => ?_)
  have mem := tableOf_mem m t isTable
  refine .ofExcept_bind fun handle _ => ?_
  split
  · exact .throw
  next text _ =>
    refine .rejectIf_bind fun _ => ?_
    split
    next i existing found =>
      obtain ⟨there, pick⟩ := findIdx?_bind_ok found
      refine .rejectIf_bind fun _ => .ofExcept_bind fun c val => ?_
      obtain ⟨table, handle, isName⟩ := chainValue_identity c val
      have sameName : existing.name = text := by
        simp only [selects, Bool.and_eq_true, beq_iff_eq] at pick
        exact pick.2.symm
      have edit : Edit free f { f with chains := f.chains.set i c } :=
        .setChain i existing c there table handle (isName.trans sameName.symm)
      have changes : Yields f (fun _ g => Edit free f g)
        (modify fun f => { f with chains := f.chains.set i c } : Update PUnit) := .modify edit
      exact changes.bind fun _ g edit => echo_yields o m (.single edit)
    next found =>
      have others := findIdx?_bind_none found
      refine .ofExcept_bind fun c val => ?_
      obtain ⟨table, -, isName⟩ := chainValue_identity c val
      refine (addChain_edit o ⟨t, mem, table.symm⟩ fun d isChain sameTable sameName => ?_).bind fun _ g edit =>
        echo_yields o m (.single edit)
      have ne := others d isChain
      rw [isName] at sameName
      have same : d.table = t.handle := sameTable.trans table
      simp [selects, sameName, same] at ne

end

theorem delRule_edits : Amends free f (delRule m) := by
  refine .get_bind (.ofExcept_bind fun req _ => ?_)
  have kept : ∀ keep : Rule → Bool, Kept f { f with rules := f.rules.filter keep } := fun keep =>
    { Kept.refl f with
      rules := filter_sublist
      ruleChains := fun _ _ _ mem _ => mem
      jumps := fun _ _ _ _ _ mem _ => mem
      references := fun _ _ _ _ _ mem _ => mem }
  have changes : Yields f (fun _ g => Edit free f g)
      (modify fun f => { f with rules := f.rules.filter (!ruleMatches m f req.2.1 req.2.2.1 req.2.2.2 ·) } :
        Update PUnit) :=
    .modify (.delete (kept _))
  exact changes.bind fun _ g edit => rejectIf_yields.mono fun _ _ same => same ▸ .single edit

theorem ruleRequest_spec (good : Consistent f) {may : List Nat} :
    Gives (fun req => ∀ t c, req.2.1 = some t → req.2.2.1 = some c → c ∈ f.chains ∧ c.table = t.handle ∧ t ∈ f.tables)
      (ruleRequest m f may dump) := by
  refine .bind fun a _ => .bind fun t isTable => .bind fun name _ => .bind fun handle _ => ?_
  refine .bind fun id _ => .failIf_bind fun _ => .failIf_bind fun _ => .pure ?_
  intro u c rfl isChain
  have mem := tableSelector_mem m _ isTable u rfl
  split at isChain
  · obtain ⟨isChain, sub⟩ := chainFind_mem isChain
    exact ⟨isChain, sub.resolve_left (table_positive good mem), mem⟩
  · cases isChain

/-- A rule that a position names, by its handle or by its id in the batch. -/
def Names (pos : Nat) (posId : UInt32) (r : Rule) : Prop := (pos ≠ 0 ∧ r.handle = pos) ∨ (posId ≠ 0 ∧ r.id = posId)

/-- What the search for a place has found among the rules so far. -/
structure Scanned (chain handle pos : Nat) (posId : UInt32) (append : Bool) (count : Nat) (rules : List Rule)
    (place : Place) :
    Prop where
  replace : ∀ i, place.replace = some i → ∃ old, rules[i]? = some old ∧ old.chain = chain ∧ old.handle = handle
  first : pos = 0 ∧ posId = 0 → append = false →
    (∀ k r, rules[k]? = some r → k < place.index → r.chain ≠ chain) ∧ (place.index < rules.length ∨ place.index = count)
  last : pos = 0 ∧ posId = 0 → append = true → place.index = count
  named : ¬ (pos = 0 ∧ posId = 0) → place.located = true →
    ∃ k r, rules[k]? = some r ∧ r.chain = chain ∧ Names pos posId r ∧ place.index = k + append.toNat

section

variable {chain handle pos count : Nat} {posId : UInt32} {append : Bool} {rules : List Rule} {place : Place}

theorem Scanned.next (scanned : Scanned chain handle pos posId append count rules place) (bound : rules.length < count)
    (r : Rule) :
    Scanned chain handle pos posId append count (rules ++ [r])
      (placeAt chain handle pos posId append count place r rules.length) where
  replace := by
    have pre := scanned.replace
    unfold placeAt
    grind
  first := by
    intro unset prepend
    have pre := scanned.first unset prepend
    unfold placeAt
    grind
  last := by
    intro unset appends
    have pre := scanned.last unset appends
    unfold placeAt
    grind
  named := by
    intro given located
    by_cases here : r.chain = chain ∧ Names pos posId r
    · refine ⟨rules.length, r, by simp, here.1, here.2, ?_⟩
      unfold placeAt Names at *
      cases append <;> grind
    · have same : (placeAt chain handle pos posId append count place r rules.length).located = place.located ∧
          (placeAt chain handle pos posId append count place r rules.length).index = place.index := by
        unfold placeAt Names at *
        grind
      obtain ⟨k, old, there, is⟩ := scanned.named given (same.1 ▸ located)
      exact ⟨k, old, getElem?_append_left (List.getElem?_eq_some_iff.mp there).1 ▸ there, same.2 ▸ is⟩

theorem rulePlace_scanned :
    Scanned chain handle pos posId append f.rules.length f.rules (rulePlace f chain handle pos posId append) := by
  have scan : ∀ rules : List Rule, rules.length ≤ f.rules.length →
    Scanned chain handle pos posId append f.rules.length rules
        (rules.zipIdx.foldl (fun place p => placeAt chain handle pos posId append f.rules.length place p.1 p.2)
          { index := f.rules.length, located := decide (pos = 0 ∧ posId = 0) }) := by
    intro rules
    induction rules using reverseRecOn with
    | nil =>
      exact fun _ => ⟨by simp, fun _ _ => ⟨by simp, .inr rfl⟩, fun _ _ => rfl,
        fun given found => (given (of_decide_eq_true found)).elim⟩
    | append_singleton rules r ih =>
      intro bound
      rw [length_append, length_singleton] at bound
      rw [zipIdx_append, foldl_append, Nat.zero_add]
      exact (ih (by omega)).next bound r
  exact scan f.rules le_rfl

theorem Scanned.inside (scanned : Scanned chain handle pos posId append rules.length rules place)
    (located : place.located = true) :
    place.index ≤ rules.length := by
  by_cases unset : pos = 0 ∧ posId = 0
  · cases append with
    | false => exact (scanned.first unset rfl).2.elim (fun less => less.le) fun same => same.le
    | true => exact (scanned.last unset rfl).le
  · obtain ⟨k, r, there, -, -, is⟩ := scanned.named unset located
    have bound := (List.getElem?_eq_some_iff.mp there).1
    have short := append.toNat_le
    omega

theorem ruleValue_accepts (good : Consistent f) (isTable : t ∈ f.tables) (isChain : c ∈ f.chains)
    (sub : c.table = t.handle) {userdata : Option Attribute} {wire : Bytes} :
    Gives (Accepts f) (ruleValue o f t.handle c.handle id userdata wire) := by
  refine .bind fun userdata _ => .bind fun expressions fine => .failIf_bind fun _ => .pure ?_
  obtain ⟨sound, resolves⟩ := nftExpressions_parsed good.setHandles fine
  have ne := table_positive good isTable
  refine ⟨⟨c, isChain, rfl, fun e mem => ?_⟩, sound⟩
  have known := resolves e mem
  rw [sub]
  refine ⟨?_, ?_, ?_⟩
  · rintro v target rfl leads
    obtain ⟨d, there, handle, table⟩ := known target leads
    exact ⟨d, there, handle, table.resolve_left ne⟩
  · intro handle is
    cases e with
    | lookup set _ _ _ | verdictMap set _ _ | dataMap set _ _ _ _ =>
      cases is
      obtain ⟨s, there, same, table⟩ := known
      exact ⟨s, there, same, table.resolve_left ne⟩
    | _ => cases is
  · rintro handle source invert rfl
    obtain ⟨s, there, -, isIpset⟩ := known
    exact isIpset (good.ipsets s there)

theorem addRule_edit {idx : Nat} {r : Rule} (fits : idx ≤ f.rules.length) (accepts : Accepts f r) :
    Yields f (fun _ g => Edit free f g) (addRule o idx r) :=
  numbered_edit o (.addRule idx r fits accepts)

theorem newRule_edits (good : Consistent f) : Amends free f (newRule o m) := by
  refine .get_bind (.ofExcept_bind fun req found => ?_)
  have spec := ruleRequest_spec m good req found
  obtain ⟨a, t, c, handle⟩ := req
  dsimp only at spec ⊢
  split
  next t c expressions _ =>
    obtain ⟨isChain, sub, isTable⟩ := spec t c rfl rfl
    refine .ofExcept_bind fun _ _ => .ofExcept_bind fun pos _ => .ofExcept_bind fun posId _ => ?_
    refine .ofExcept_bind fun id _ => .rejectIf_bind fun located => .ite (fun _ => ?_) (fun _ => ?_)
    · split
      · exact .throw
      next idx _ =>
        refine .ofExcept_bind fun r val => ?_
        have accepts := ruleValue_accepts o good isTable isChain sub r val
        have changes : Yields f (fun _ g => Edit free f g) (replaceRule idx r) := .modify (.replaceRule idx r accepts)
        exact changes.bind fun _ g edit => echo_yields o m (.single edit)
    · refine .rejectIf_bind fun _ => .ofExcept_bind fun r val => ?_
      have accepts := ruleValue_accepts o good isTable isChain sub r val
      exact (addRule_edit o (rulePlace_scanned.inside (Bool.eq_true_of_not_eq_false located)) accepts).bind
        fun _ g edit => echo_yields o m (.single edit)
  · exact .throw

end

theorem setDelete_kept {old : ElementSet} (there : f.sets[i]? = some old) (free : setUsed f old.handle = false) :
    Kept f (setDelete f i) := by
  simp only [setUsed, any_eq_false] at free
  refine
    { Kept.refl f with
      sets := eraseIdx_sublist _ _
      setTables := fun _ _ _ mem _ => mem
      references := ?_
      elements := fun _ _ _ _ _ mem _ => mem }
  intro r mem e isIn s isThere is
  refine mem_eraseIdx_of_ne there isThere ?_
  rintro rfl
  exact free r mem (any_eq_true.mpr ⟨e, isIn, by simp [is]⟩)

theorem delSet_edits : Amends free f (delSet m) := by
  refine .get_bind (.ofExcept_bind fun a _ => .ofExcept_bind fun t _ => .ofExcept_bind fun name _ => ?_)
  refine .ofExcept_bind fun handle _ => .ofExcept_bind fun id _ => ?_
  split
  · exact .throw
  next i s found =>
    refine .rejectIf_bind fun unused => .modify (.single (.delete ?_))
    exact setDelete_kept (findIdx?_bind_ok found).1 (Bool.eq_false_iff.mpr unused)

/-- What a set is like that a request describes. -/
structure Described (a : Fields) (table : Nat) (name anonymous : Bytes) (s : ElementSet) : Prop where
  table : s.table = table
  elements : s.elements = []
  ipset : s.ipset = none
  maps : has s.flags NFT_SET_MAP → s.dataSize = 0 → s.dataType = NFT_DATA_VERDICT
  flags : ∃ flags, requiredNumber (a.get 3) = .ok flags ∧ s.flags = ofNat flags
  name : s.name = if has s.flags NFT_SET_ANONYMOUS then anonymous else name

theorem mapData_spec {flags : UInt32} {type length : Option Attribute} :
    Gives (fun data => has flags NFT_SET_MAP → data.2 = 0 → data.1 = NFT_DATA_VERDICT) (mapData flags type length) := by
  refine .ite (fun _ => ?_) fun notMap => ?_
  · refine .bind fun num _ => .bind fun size _ => .ite (fun isVerdict => ?_) fun _ => ?_
    · exact .failIf_bind fun _ => .pure fun _ _ => isVerdict
    · exact .failIf_bind fun good => .pure fun _ zero => absurd (.inr (.inl zero)) good
  · exact .failIf_bind fun _ => .pure fun isMap => absurd isMap notMap

theorem setValue_described {table : Nat} {anonymous : Bytes} {a : Fields} :
    Gives (Described a table name anonymous) (setValue table id name anonymous a) := by
  refine .bind fun flags isFlags => .bind fun keyType _ => .bind fun keySize _ => .bind fun userdata _ => ?_
  refine .failIf_bind fun _ => .bind fun data isData => .bind fun _ _ => .bind fun policy _ => ?_
  exact .failIf_bind fun _ => .pure ⟨rfl, rfl, rfl, mapData_spec data isData, ⟨flags, isFlags, rfl⟩, rfl⟩

theorem addSet_edit (made : Created f free s) : Yields f (fun _ g => Edit free f g) (addSet o s) :=
  numbered_edit o (.addSet s made)

theorem newSet_edits (isNew : m.operation = NFT_MSG_NEWSET) : Amends (¬ Reserves m) f (newSet o m) := by
  refine .get_bind
    (.ofExcept_bind fun a isFields => .ofExcept_bind fun t isTable => .ofExcept_bind fun name isName => ?_)
  have mem := tableOf_mem m t isTable
  refine .ofExcept_bind fun handle _ => .ofExcept_bind fun id _ => ?_
  split
  · exact .throw
  next text =>
    refine .rejectIf_bind fun _ => .ite (fun _ => ?_) fun gone => ?_
    · exact rejectIf_yields.mono fun _ _ same => same ▸ .refl
    · refine .ofExcept_bind fun s val => ?_
      have desc := setValue_described s val
      obtain ⟨flags, isFlags, sameFlags⟩ := desc.flags
      have others : ∀ d ∈ f.sets, selects t.handle (some text) handle (ofNat id) d.table d.name d.handle d.id =
          false := by
        rw [Option.not_isSome_iff_eq_none] at gone
        exact findIdx?_eq_none_iff.mp gone
      refine (addSet_edit o ?_).mono fun _ _ edit => .single edit
      refine ⟨⟨t, mem, desc.table.symm⟩, desc.elements, desc.ipset, desc.maps, ?_, ?_, ?_⟩
      · intro isAnonymous
        rw [desc.name, if_pos isAnonymous]
      · intro isNamed d isSet sameTable sameName
        have ne := others d isSet
        rw [desc.name, isNamed] at sameName
        simp [selects, sameName, sameTable.trans desc.table] at ne
      · intro free isNamed n reserved
        rw [desc.name, isNamed] at reserved
        have same : text = anonymousName n := by simpa using reserved
        subst same
        exact free ⟨isNew, a, n, flags, isFields, isName, isFlags, sameFlags ▸ isNamed⟩

theorem elementKey_target {item : Attribute} :
    Gives (fun found => found.2.verdict.target? = none) (elementKey s item) := by
  refine .failIf_bind fun _ => .bind fun b _ => .bind fun flags _ => .bind fun key _ => ?_
  refine .failIf_bind fun _ => .failIf_bind fun _ => ?_
  split
  · exact .error
  · exact .failIf_bind fun _ => .pure rfl

/-- An element's verdict leads to a chain of the set's table, and only in a map without data. -/
theorem elementValue_fits (good : Consistent f) (isSet : s ∈ f.sets) {data : Option Attribute} {e : Element}
    (plain : e.verdict.target? = none) :
    Gives (fun e => ∀ target, e.verdict.target? = some target →
      has s.flags NFT_SET_MAP ∧ s.dataSize = 0 ∧ ∃ d ∈ f.chains, d.handle = target ∧ d.table = s.table)
        (elementValue f s data e) := by
  have none : ∀ target, e.verdict.target? = some target →
      has s.flags NFT_SET_MAP ∧ s.dataSize = 0 ∧ ∃ d ∈ f.chains, d.handle = target ∧ d.table = s.table := by
    intro target leads
    rw [plain] at leads
    cases leads
  obtain ⟨t, isTable, table⟩ := good.setTables s isSet
  have ne : s.table ≠ 0 := table ▸ table_positive good isTable
  refine .ite (fun isMap => .ite (fun _ => ?_) (fun noData => ?_)) fun _ => ?_
  · refine .bind fun val _ => ?_
    split
    · exact .error
    · exact .failIf_bind fun _ => .pure none
  · refine .bind fun v is => .pure fun target leads => ?_
    obtain ⟨d, there, handle, sub⟩ := nftVerdict_resolves v is target leads
    exact ⟨isMap.1, not_not.mp noData, d, there, handle, sub.resolve_left ne⟩
  · exact .failIf_bind fun _ => .pure none

theorem putElements_edit (there : f.sets[i]? = some s) {elements : List Element} (fits : Fits f s elements) :
    Amends free f (putElements i elements) :=
  .modify (.single (.putElements i s elements there fits))

theorem newElement_edits (good : Consistent f) (i : Nat) (item : Attribute) :
    Amends free f (newElement o m i item) := by
  refine .get_bind ?_
  split
  · exact .throw
  next s there =>
    refine .ofExcept_bind fun found isKey => .ofExcept_bind fun e val => ?_
    have fits := elementValue_fits good (mem_of_getElem? there) (elementKey_target found isKey) e val
    refine .ite (fun _ => ?_) fun _ => ?_
    · exact .rejectIf_bind fun _ => putElements_edit there (forall_mem_set (fun _ old => .inl old) (.inr fits))
    · refine (reserve_yields o _ _).bind fun _ g same => ?_
      subst same
      refine putElements_edit there fun e' mem => ?_
      rcases eq_or_mem_of_mem_insertIdx mem with rfl | old
      · exact .inr fits
      · exact .inl old

theorem delElement_edits (i : Nat) (item : Attribute) : Amends free f (delElement i item) := by
  refine .get_bind ?_
  split
  · exact .throw
  next s there =>
    refine .ofExcept_bind fun found _ => .rejectIf_bind fun _ => putElements_edit there fun e mem => ?_
    exact .inl ((eraseIdx_sublist _ _).subset mem)

theorem edits_consistent {g : NetworkFilter} (edits : Edits free f g) (good : Consistent f) : Consistent g := by
  induction edits with
  | refl => exact good
  | tail _ edit ih => exact edit.consistent ih

theorem eachItem_edits {step : Attribute → Update Unit} (steps : ∀ f, Consistent f → ∀ item, Amends free f (step item))
    (good : Consistent f) (cursor : Bytes) : Amends free f (eachItem step cursor) := by
  unfold eachItem
  generalize cursor.length + 1 = fuel
  induction fuel generalizing f cursor with
  | zero => exact .throw
  | succ fuel ih =>
    refine .ofExcept_bind fun found _ => ?_
    split
    · exact .pure .refl
    · refine (steps f good _).bind fun _ g first => ?_
      exact (ih (edits_consistent first good) _).mono fun _ _ rest => first.trans rest

theorem newElements_edits (good : Consistent f) : Amends free f (newElements o m) := by
  refine .get_bind (.ofExcept_bind fun req _ => ?_)
  dsimp only
  split
  · exact .throw
  · exact .rejectIf_bind fun _ => eachItem_edits (fun _ good item => newElement_edits o m good _ item) good _

theorem elementsRequest_there : Gives (fun req => f.sets[req.2.1]? = some req.2.2) (elementsRequest m f) := by
  refine .bind fun a _ => .bind fun t _ => .bind fun name _ => .bind fun id _ => ?_
  split
  · exact .error
  next i s found =>
    obtain ⟨place, -, at_place⟩ := Option.bind_eq_some_iff.mp found
    obtain ⟨there, same, pair⟩ := Option.map_eq_some_iff.mp at_place
    obtain ⟨rfl, rfl⟩ := mk.inj pair
    exact .pure same

theorem delElements_edits (good : Consistent f) : Amends free f (delElements m) := by
  refine .get_bind (.ofExcept_bind fun req found => ?_)
  dsimp only
  split
  · exact putElements_edit (elementsRequest_there m _ found) (by simp [Fits])
  · exact .rejectIf_bind fun _ => eachItem_edits (fun _ _ item => delElement_edits _ item) good _

/-- Every request that succeeds edits the ruleset. -/
theorem dispatch_edits (good : Consistent f) (o : Outside) (m : Message) : Amends (¬ Reserves m) f (dispatch o m) := by
  unfold dispatch
  split
  next update found =>
    obtain ⟨prior, later, whole, -⟩ := lookup_eq_some_iff.mp found
    have mem : (m.operation, update) ∈ updates := by rw [whole]; simp
    simp only [updates, mem_cons, mk.injEq, not_mem_nil, or_false] at mem
    rcases mem with ⟨-, rfl⟩ | ⟨-, rfl⟩ | ⟨-, rfl⟩ | ⟨-, rfl⟩ | ⟨-, rfl⟩ | ⟨-, rfl⟩ | ⟨isNew, rfl⟩ | ⟨-, rfl⟩ |
      ⟨-, rfl⟩ | ⟨-, rfl⟩
    · exact newTable_edits o m
    · exact delTable_edits o m good
    · exact newChain_edits o m
    · exact delChain_edits m good
    · exact newRule_edits o m good
    · exact delRule_edits m
    · exact newSet_edits o m isNew
    · exact delSet_edits m
    · exact newElements_edits o m good
    · exact delElements_edits m good
  · exact .throw

end Shroot.Nft
