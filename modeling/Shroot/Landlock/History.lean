import Shroot.General.Positions
import Shroot.Landlock.Policy

namespace Shroot.Landlock

open General Function List Option Nat World

variable {w w' : World} {addr array : Address}

/-- What keeps policies apart from the rulesets that can still change. -/
structure Separate (w : World) : Prop where
  rulesetBelow : ∀ addr r, w.rulesets addr = some r → addr < w.next
  arrayBelow : ∀ addr r array, w.rulesets addr = some r → r.rules = some array → array < w.next
  /-- No two rulesets share an array. -/
  unshared : ∀ addr other r r' array, w.rulesets addr = some r → w.rulesets other = some r' →
    r.rules = some array → r'.rules = some array → addr = other
  issued : ∀ addr ∈ w.handles, ∃ r, w.rulesets addr = some r
  /-- No layer is a ruleset that was handed out. -/
  private_ : ∀ policy ∈ w.policies, ∀ addr ∈ policy, addr ∉ w.handles ∧ ∃ r, w.rulesets addr = some r

/-- The second memory has every layer as the first one has it. -/
def SameLayers (policies : List Policy) (w w' : World) : Prop :=
  ∀ policy ∈ policies, ∀ addr ∈ policy, w'.layer addr = w.layer addr

theorem layer_setArray {rules : Option (List Rule)} {r : Ruleset}
    (is : w.rulesets addr = some r) (other : r.rules ≠ some array) :
    (w.setArray array rules).layer addr = w.layer addr := by
  simp only [layer, setArray, is, map_some, rulesOf, some.injEq, Prod.mk.injEq, true_and]
  cases found : r.rules with
  | none => rfl
  | some own =>
    have ne : own ≠ array := fun same => other (by rw [found, same])
    simp [update_of_ne ne]

theorem layer_setRuleset {own : Address} {r : Ruleset} (other : addr ≠ own) :
    (w.setRuleset own r).layer addr = w.layer addr := by
  simp [layer, setRuleset, rulesOf, update_of_ne other]

theorem layer_congr (arrays : w'.arrays = w.arrays) (rulesets : w'.rulesets = w.rulesets) : w'.layer = w.layer := by
  funext addr
  simp [layer, rulesOf, arrays, rulesets]

section

variable {r : Ruleset} {rules : List Rule}

theorem rulesetNew_cases (w : World) (handled : Access) (alloc : Bool) :
    (∃ error, rulesetNew w handled alloc = (w, .error error)) ∨
      rulesetNew w handled alloc = ({ w.setRuleset w.next { handled } with next := w.next + 1 }, .ok w.next) := by
  unfold rulesetNew
  split
  · exact .inl ⟨_, rfl⟩
  · split
    · exact .inl ⟨_, rfl⟩
    · split
      · exact .inl ⟨_, rfl⟩
      · exact .inr rfl

theorem Separate.named {handle : Nat} (apart : Separate w) (named : w.named handle = some (addr, r)) :
    w.rulesets addr = some r ∧ ∀ policy ∈ w.policies, addr ∉ policy := by
  obtain ⟨found, at_, is⟩ := bind_eq_some_iff.mp named
  obtain ⟨r', isRuleset, same⟩ := map_eq_some_iff.mp is
  cases same
  refine ⟨isRuleset, fun policy mem layer => ?_⟩
  exact (apart.private_ policy mem _ layer).1 (mem_of_getElem? at_)

theorem Separate.put (apart : Separate w) {r' : Ruleset} (is : w'.rulesets addr = some r') (below : addr < w'.next)
    (next : w.next ≤ w'.next) (handles : w'.handles = w.handles) (policies : w'.policies = w.policies)
    (others : ∀ other, other ≠ addr → w'.rulesets other = w.rulesets other)
    (arrays : ∀ array, r'.rules = some array → array < w'.next ∧
      (array < w.next → ∃ r, w.rulesets addr = some r ∧ r.rules = some array)) :
    Separate w' := by
  have stays : ∀ other r, w.rulesets other = some r → ∃ r, w'.rulesets other = some r := by
    intro other r found
    by_cases same : other = addr
    · exact ⟨r', same ▸ is⟩
    · exact ⟨r, by rw [others other same, found]⟩
  refine ⟨?_, ?_, ?_, ?_, ?_⟩
  · intro other r found
    by_cases same : other = addr
    · exact same ▸ below
    · rw [others other same] at found
      exact (apart.rulesetBelow other r found).trans_le next
  · intro other r array found rules
    by_cases same : other = addr
    · subst same
      obtain rfl := mem_unique is found
      exact (arrays array rules).1
    · rw [others other same] at found
      exact (apart.arrayBelow other r array found rules).trans_le next
  · have own : ∀ other r array, other ≠ addr → w'.rulesets other = some r → r.rules = some array →
        r'.rules ≠ some array := by
      intro other r array ne found rules mine
      rw [others other ne] at found
      obtain ⟨old, isOld, oldRules⟩ := (arrays array mine).2 (apart.arrayBelow other r array found rules)
      exact ne (apart.unshared other addr r old array found isOld rules oldRules)
    intro one two r s array foundOne foundTwo rulesOne rulesTwo
    by_cases first : one = addr <;> by_cases second : two = addr
    · exact first.trans second.symm
    · subst first
      obtain rfl := mem_unique is foundOne
      exact absurd rulesOne (own two s array second foundTwo rulesTwo)
    · subst second
      obtain rfl := mem_unique is foundTwo
      exact absurd rulesTwo (own one r array first foundOne rulesOne)
    · rw [others _ first] at foundOne
      rw [others _ second] at foundTwo
      exact apart.unshared one two r s array foundOne foundTwo rulesOne rulesTwo
  · intro other mem
    rw [handles] at mem
    obtain ⟨r, found⟩ := apart.issued other mem
    exact stays other r found
  · intro policy mem other layer
    rw [policies] at mem
    obtain ⟨hidden, r, found⟩ := apart.private_ policy mem other layer
    exact ⟨by rw [handles]; exact hidden, stays other r found⟩

/-- A ruleset changes alone. -/
structure Changes (addr : Address) (w w' : World) : Prop where
  next : w.next ≤ w'.next
  handles : w'.handles = w.handles
  policies : w'.policies = w.policies
  own : ∃ r', w'.rulesets addr = some r' ∧
    ∀ array, r'.rules = some array → array < w'.next ∧
      (array < w.next → ∃ r, w.rulesets addr = some r ∧ r.rules = some array)
  others : ∀ other, other ≠ addr → w'.rulesets other = w.rulesets other
  layers : ∀ other, other ≠ addr → w'.layer other = w.layer other

theorem Changes.separate (changes : Changes addr w w') (apart : Separate w) (below : addr < w.next) : Separate w' := by
  obtain ⟨r', is, arrays⟩ := changes.own
  exact apart.put is (below.trans_le changes.next) changes.next changes.handles changes.policies changes.others arrays

theorem setArray_changes (apart : Separate w)
    (is : w.rulesets addr = some r) (own : r.rules = some array) : Changes addr w (w.setArray array (some rules)) where
  next := le_rfl
  handles := rfl
  policies := rfl
  own := by refine ⟨r, is, fun found rules => ⟨apart.arrayBelow addr r found is rules, fun _ => ⟨r, is, rules⟩⟩⟩
  others := fun _ _ => rfl
  layers := by
    intro other ne
    cases found : w.rulesets other with
    | none => simp [layer, setArray, found]
    | some r' =>
      refine layer_setArray found fun shared => ne ?_
      exact apart.unshared other addr r' r array found is shared own

theorem grow_changes {moves : Bool} (apart : Separate w) (is : w.rulesets addr = some r) :
    Changes addr w (grow w addr r rules moves) := by
  have moved : ∀ old, (∀ array, old = some array → r.rules = some array) →
      Changes addr w ((old.elim (w.allocate rules).2 ((w.allocate rules).2.setArray · none)).setRuleset addr
        { r with rules := some w.next }) := by
    intro old isOld
    -- The arrays of the others are neither the new one nor the old one of this ruleset.
    have layers : ∀ other, other ≠ addr → ∀ r', w.rulesets other = some r' → ∀ array, r'.rules = some array →
        array ≠ w.next ∧ old ≠ some array := by
      intro other ne r' found array rules
      refine ⟨(apart.arrayBelow other r' array found rules).ne, fun same => ne ?_⟩
      exact apart.unshared other addr r' r array found is rules (isOld array same)
    refine ⟨?_, ?_, ?_, ⟨{ r with rules := some w.next }, ?_, ?_⟩, ?_, ?_⟩
    · cases old <;> exact le_succ _
    · cases old <;> rfl
    · cases old <;> rfl
    · simp [setRuleset]
    · rintro array ⟨⟩
      refine ⟨?_, fun below => absurd below (lt_irrefl _)⟩
      cases old <;> exact lt_succ_self _
    · intro other ne
      cases old <;> simp [setRuleset, setArray, allocate, update_of_ne ne]
    · intro other ne
      rw [layer_setRuleset ne]
      cases found : w.rulesets other with
      | none => cases old <;> simp [layer, allocate, setArray, found]
      | some r' =>
        have fresh : (w.allocate rules).2.layer other = w.layer other := by
          rw [← layer_setArray found fun same => (layers other ne r' found _ same).1 rfl]
          exact congrFun (layer_congr rfl rfl) other
        cases old with
        | none => exact fresh
        | some array =>
          rw [← fresh]
          refine layer_setArray (r := r') found fun same => (layers other ne r' found array same).2 rfl
  unfold grow
  split
  next old isOld => exact setArray_changes apart is isOld
  next m old inPlace =>
    cases found : r.rules with
    | none => exact moved none (by simp)
    | some array => exact moved (some array) fun _ same => found.trans same

theorem ruleAdd_changes {key : Key} {may : Access} {growth : Growth}
    (apart : Separate w) (is : w.rulesets addr = some r) : Changes addr w (ruleAdd w addr r key may growth).1 := by
  have same : Changes addr w w := by
    refine ⟨le_rfl, rfl, rfl, ⟨r, is, fun array rules => ?_⟩, fun _ _ => rfl, fun _ _ => rfl⟩
    exact ⟨apart.arrayBelow addr r array is rules, fun _ => ⟨r, is, rules⟩⟩
  unfold ruleAdd
  split
  · exact same
  · split
    · exact same
    · split
      next merged array _ own => exact setArray_changes apart is own
      · split
        · exact same
        · split
          · exact same
          · exact grow_changes apart is

theorem grow_layer {moves : Bool} (apart : Separate w) (is : w.rulesets addr = some r) :
    (grow w addr r rules moves).layer addr = some (r.handled, rules) := by
  unfold grow
  split
  next old own => simp [layer, setArray, is, rulesOf, own]
  · cases own : r.rules with
    | none => simp [layer, setRuleset, allocate, setArray, rulesOf]
    | some array =>
      have ne : w.next ≠ array := (apart.arrayBelow addr r array is own).ne'
      simp [layer, setRuleset, allocate, setArray, rulesOf, update_of_ne ne]

/-- The rights of a key grow, and those of the other keys stay. -/
theorem mergeRule_grants {key : Key} {may : Access} {merged : List Rule} {placed : Key → Prop} {i : Nat}
    (found : mergeRule key may rules = some merged) :
    grants placed merged i ↔ grants placed rules i ∨ may.getLsbD i = true ∧ placed key := by
  induction rules generalizing merged with
  | nil => cases found
  | cons rule rest ih =>
    rw [mergeRule] at found
    split at found
    next same =>
      cases found
      simp only [grants_cons, BitVec.getLsbD_or, Bool.or_eq_true, same]
      tauto
    · obtain ⟨later, below, rfl⟩ := map_eq_some_iff.mp found
      rw [grants_cons, grants_cons, ih below]
      tauto

theorem ruleAdd_grants {key : Key} {may : Access} {growth : Growth} (apart : Separate w) (is : w.rulesets addr = some r)
    (added : (ruleAdd w addr r key may growth).2 = .ok ()) :
    ∃ rules, (ruleAdd w addr r key may growth).1.layer addr = some (r.handled, rules) ∧
      ∀ placed i, grants placed rules i ↔ grants placed (w.rulesOf r) i ∨ may.getLsbD i = true ∧ placed key := by
  revert added
  unfold ruleAdd
  split
  · rintro ⟨⟩
  · split
    · rintro ⟨⟩
    · split
      next merged array found own =>
        intro _
        exact ⟨merged, by simp [layer, setArray, is, rulesOf, own], fun placed i => mergeRule_grants found⟩
      · split
        · rintro ⟨⟩
        · split
          · rintro ⟨⟩
          · intro _
            refine ⟨_, grow_layer apart is, fun placed i => ?_⟩
            simp [grants, or_and_right, exists_or]

/-- A ruleset is added, with an array that none shares. -/
structure Adds (addr : Address) (w w' : World) : Prop where
  fresh : w.next ≤ addr
  below : addr < w'.next
  handles : w'.handles = w.handles
  policies : w'.policies = w.policies
  own : ∃ r, w'.rulesets addr = some r ∧ ∀ array, r.rules = some array → w.next ≤ array ∧ array < w'.next
  others : ∀ other, other ≠ addr → w'.rulesets other = w.rulesets other
  layers : ∀ other, other < w.next → w'.layer other = w.layer other

theorem Adds.separate (adds : Adds addr w w') (apart : Separate w) : Separate w' := by
  obtain ⟨r', is, arrays⟩ := adds.own
  refine apart.put is adds.below (adds.fresh.trans adds.below.le) adds.handles adds.policies adds.others
    fun array rules => ?_
  exact ⟨(arrays array rules).2, fun old => absurd old (not_lt.mpr (arrays array rules).1)⟩

def withRuleset (w : World) (handled : Access) : World := { w.setRuleset w.next { handled } with next := w.next + 1 }

theorem withRuleset_adds (w : World) (handled : Access) : Adds w.next w (withRuleset w handled) where
  fresh := le_rfl
  below := lt_succ_self _
  handles := rfl
  policies := rfl
  own := ⟨{ handled }, by simp [withRuleset, setRuleset], nofun⟩
  others := fun other ne => by simp [withRuleset, setRuleset, update_of_ne ne]
  layers := fun other older => by
    rw [← layer_setRuleset (w := w) (r := { handled }) older.ne]
    exact congrFun (layer_congr rfl rfl) other

def withCopy (w : World) (r : Ruleset) : World :=
  ((withRuleset w r.handled).allocate (w.rulesOf r)).2.setRuleset w.next
    { handled := r.handled, rules := some (w.next + 1) }

theorem withCopy_adds (apart : Separate w) (r : Ruleset) : Adds w.next w (withCopy w r) where
  fresh := le_rfl
  below := lt_succ_of_lt (lt_succ_self w.next)
  handles := rfl
  policies := rfl
  own := by
    refine ⟨{ handled := r.handled, rules := some (w.next + 1) }, by simp [withCopy, setRuleset], ?_⟩
    rintro array ⟨⟩
    exact ⟨le_succ w.next, lt_succ_self (w.next + 1)⟩
  others := fun other ne => by simp [withCopy, withRuleset, setRuleset, allocate, setArray, update_of_ne ne]
  layers := by
    intro other older
    rw [withCopy, layer_setRuleset older.ne]
    have added := (withRuleset_adds w r.handled).layers other older
    cases found : w.rulesets other with
    | none =>
      have still := (withRuleset_adds w r.handled).others other older.ne
      simp [layer, allocate, setArray, still, found]
    | some r' =>
      have still : (withRuleset w r.handled).rulesets other = some r' := by
        rw [(withRuleset_adds w r.handled).others other older.ne, found]
      have own : r'.rules ≠ some (w.next + 1) :=
        fun same => absurd (apart.arrayBelow other r' _ found same) not_succ_lt_self
      rw [← added, ← @layer_setArray _ other _ (some (w.rulesOf r)) _ still own]
      exact congrFun (layer_congr rfl rfl) other

/-- `md_landlock_restrict` puts a layer on top of the parent, with the ruleset's rules as they are. -/
theorem restrict_cases (apart : Separate w) (parent : Policy) (r : Ruleset) (allocations : Allocations) :
    (∃ error, restrict w parent r allocations = (w, .error error)) ∨
      ∃ w', restrict w parent r allocations = (w', .ok (w.next :: parent)) ∧ Adds w.next w w' ∧
        w'.layer w.next = some (r.handled, w.rulesOf r) := by
  unfold restrict
  split
  · exact .inl ⟨_, rfl⟩
  · split
    · exact .inl ⟨_, rfl⟩
    · obtain ⟨error, bad⟩ | made := rulesetNew_cases w r.handled allocations.ruleset
      · rw [bad]
        exact .inl ⟨error, rfl⟩
      · rw [made]
        cases rules : r.rules with
        | none =>
          refine .inr ⟨_, rfl, withRuleset_adds w r.handled, ?_⟩
          simp [layer, setRuleset, rulesOf, rules]
        | some array =>
          dsimp only
          split
          · exact .inl ⟨_, rfl⟩
          · refine .inr ⟨_, rfl, withCopy_adds apart r, ?_⟩
            simp [layer, setRuleset, rulesOf, allocate, setArray]

end

theorem Separate.publish {policy : Policy} (apart : Separate w)
    (hidden : ∀ addr ∈ policy, addr ∉ w.handles ∧ ∃ r, w.rulesets addr = some r) :
    Separate { w with policies := w.policies ++ [policy] } where
  rulesetBelow := apart.rulesetBelow
  arrayBelow := apart.arrayBelow
  unshared := apart.unshared
  issued := apart.issued
  private_ := forall_mem_concat apart.private_ hidden

theorem Separate.handOut {r : Ruleset} (apart : Separate w) (is : w.rulesets addr = some r)
    (noLayer : ∀ policy ∈ w.policies, addr ∉ policy) : Separate { w with handles := w.handles ++ [addr] } where
  rulesetBelow := apart.rulesetBelow
  arrayBelow := apart.arrayBelow
  unshared := apart.unshared
  issued := forall_mem_concat apart.issued ⟨r, is⟩
  private_ := by
    intro policy mem layer inPolicy
    obtain ⟨hidden, there⟩ := apart.private_ policy mem layer inPolicy
    refine ⟨fun handed => ?_, there⟩
    rcases mem_append.mp handed with old | new
    · exact hidden old
    · exact noLayer policy mem (mem_singleton.mp new ▸ inPolicy)

theorem Separate.parentPolicy {i : Option Nat} {parent : Policy} (apart : Separate w)
    (is : w.parentPolicy i = some parent) :
    ∀ addr ∈ parent, addr ∉ w.handles ∧ ∃ r, w.rulesets addr = some r := by
  cases i with
  | none =>
    cases is
    exact nofun
  | some i => exact apart.private_ parent (mem_of_getElem? is)

/-- What a call keeps: the separation, the policies made so far, and their layers. -/
structure Kept (w w' : World) : Prop where
  separate : Separate w'
  policies : w.policies <+: w'.policies
  layers : SameLayers w.policies w w'

theorem Kept.refl (apart : Separate w) : Kept w w := ⟨apart, prefix_rfl, fun _ _ _ _ => rfl⟩

theorem Adds.kept (adds : Adds addr w w') (apart : Separate w) : SameLayers w.policies w w' := by
  intro policy mem layer inPolicy
  obtain ⟨-, r, found⟩ := apart.private_ policy mem layer inPolicy
  exact adds.layers layer (apart.rulesetBelow layer r found)

theorem step_kept (apart : Separate w) (op : Op) : Kept w (step w op) := by
  cases op with
  | rulesetNew handled alloc =>
    obtain ⟨e, bad⟩ | made := rulesetNew_cases w handled alloc
    · simp only [step, bad]
      exact .refl apart
    · simp only [step, made]
      have adds := withRuleset_adds w handled
      obtain ⟨r, is, -⟩ := adds.own
      refine ⟨(adds.separate apart).handOut is ?_, prefix_rfl, adds.kept apart⟩
      intro policy mem inPolicy
      obtain ⟨-, r, found⟩ := apart.private_ policy mem _ inPolicy
      exact absurd (apart.rulesetBelow _ r found) (lt_irrefl _)
  | ruleAdd handle key may growth =>
    cases named : w.named handle with
    | none =>
      simp only [step, named]
      exact .refl apart
    | some found =>
      obtain ⟨addr, r⟩ := found
      simp only [step, named]
      obtain ⟨is, noLayer⟩ := apart.named named
      have changes := @ruleAdd_changes w addr r key may growth apart is
      refine ⟨changes.separate apart (apart.rulesetBelow addr r is), by rw [changes.policies], ?_⟩
      intro policy mem layer inPolicy
      exact changes.layers layer fun same => noLayer policy mem (same ▸ inPolicy)
  | restrict i handle allocations =>
    cases isParent : w.parentPolicy i with
    | none =>
      simp only [step, isParent]
      exact .refl apart
    | some parent =>
      cases named : w.named handle with
      | none =>
        simp only [step, isParent, named]
        exact .refl apart
      | some found =>
        obtain ⟨addr, r⟩ := found
        simp only [step, isParent, named]
        obtain ⟨e, bad⟩ | ⟨w', made, adds, -⟩ := restrict_cases apart parent r allocations
        · rw [bad]
          exact .refl apart
        · rw [made]
          dsimp only
          refine ⟨(adds.separate apart).publish ?_, ?_, adds.kept apart⟩
          · intro layer mem
            rw [adds.handles]
            rcases mem_cons.mp mem with rfl | mem
            · obtain ⟨own, is, -⟩ := adds.own
              refine ⟨fun handed => ?_, own, is⟩
              obtain ⟨r, found⟩ := apart.issued _ handed
              exact absurd (apart.rulesetBelow _ r found) (lt_irrefl _)
            · obtain ⟨hidden, own, is⟩ := apart.parentPolicy isParent layer mem
              refine ⟨hidden, own, ?_⟩
              rw [adds.others layer (apart.rulesetBelow layer own is).ne, is]
          · rw [adds.policies]
            exact prefix_append _ _

theorem run_append (ops more : List Op) : run (ops ++ more) = more.foldl step (run ops) := by
  rw [run, run, foldl_append]

theorem foldl_kept (apart : Separate w) (ops : List Op) : Kept w (ops.foldl step w) := by
  induction ops generalizing w with
  | nil => exact .refl apart
  | cons op rest ih =>
    have one := step_kept apart op
    have later := ih one.separate
    refine ⟨later.separate, one.policies.trans later.policies, ?_⟩
    intro policy mem layer inPolicy
    exact (later.layers policy (one.policies.subset mem) layer inPolicy).trans (one.layers policy mem layer inPolicy)

theorem run_separate (ops : List Op) : Separate (run ops) := by
  have start : Separate ({} : World) := by
    refine ⟨?_, ?_, ?_, ?_, ?_⟩
    · exact nofun
    · exact nofun
    · exact nofun
    · exact nofun
    · exact nofun
  exact (foldl_kept start ops).separate

/-- After any calls, the check of a policy decides by the rules of its layers, an added rule counts
for its key and for no other, a further layer has the rules of its ruleset and only takes rights
away, and no later call changes what a policy permits. -/
theorem landlock_policies (ops : List Op) :
    (∀ policy ∈ (run ops).policies, Decides (run ops) policy) ∧
    (∀ handle addr r key may growth, (run ops).named handle = some (addr, r) →
      (ruleAdd (run ops) addr r key may growth).2 = .ok () →
      ∃ rules, (run (ops ++ [.ruleAdd handle key may growth])).layer addr = some (r.handled, rules) ∧
        ∀ placed i, grants placed rules i ↔
          grants placed ((run ops).rulesOf r) i ∨ may.getLsbD i = true ∧ placed key) ∧
    (∀ i parent handle addr r allocations w policy, (run ops).parentPolicy i = some parent →
      (run ops).named handle = some (addr, r) → restrict (run ops) parent r allocations = (w, .ok policy) →
      (∃ own, policy = own :: parent ∧ w.layer own = some (r.handled, (run ops).rulesOf r)) ∧
        ∀ s chosen access, mdiLandlock w policy s chosen access = .ok () →
          mdiLandlock (run ops) parent s chosen access = .ok ()) ∧
    ∀ more, (run ops).policies <+: (run (ops ++ more)).policies ∧
      ∀ policy ∈ (run ops).policies, ∀ s chosen access,
        mdiLandlock (run (ops ++ more)) policy s chosen access = mdiLandlock (run ops) policy s chosen access := by
  have apart := run_separate ops
  refine ⟨fun policy _ => decides _ policy, ?_, ?_, ?_⟩
  · intro handle addr r key may growth named added
    rw [run_append, foldl_cons, foldl_nil, step, named]
    exact ruleAdd_grants apart (apart.named named).1 added
  · intro i parent handle addr r allocations w policy isParent _ made
    obtain ⟨e, bad⟩ | ⟨w', succeeded, adds, content⟩ := restrict_cases apart parent r allocations
    · rw [bad] at made
      cases made
    · rw [succeeded] at made
      cases made
      refine ⟨⟨_, rfl, content⟩, ?_⟩
      intro s chosen access run
      rw [← mdiLandlock_congr fun layer mem => adds.layers layer ?_]
      · exact mdiLandlock_cons run
      · obtain ⟨-, r, found⟩ := apart.parentPolicy isParent layer mem
        exact apart.rulesetBelow layer r found
  · intro more
    rw [run_append]
    have kept := foldl_kept apart more
    exact ⟨kept.policies, fun policy mem s chosen access => mdiLandlock_congr (kept.layers policy mem)⟩

/-- A store with a directory and a file in it, where the directory's rows above cannot be read. -/
def unreadable : Catalogue where
  lifetime := { device := 1, inode := 2, scope := [] }
  objects := Table.empty.put { object := [1], parent := none }
  names := [([2], [1])]
  node id := .ok { id, directory := id = [1] }
  fails _ _ := some Errno.EIO

/-- A rule elsewhere, and one on the file. -/
def twoRules : List Op :=
  [.rulesetNew 4 true,
    .ruleAdd 0 { store := unreadable.lifetime, object := [3] } 4 {},
    .ruleAdd 0 { store := unreadable.lifetime, object := [2] } 4 {},
    .restrict none 0 {}]

/-- The second rule grants its right on the file. -/
theorem landlock_policies_twoRules : ∃ rules, (run (twoRules.take 3)).layer 0 = some (4, rules) ∧
    grants (· = { store := unreadable.lifetime, object := [2] }) rules 2 := by
  obtain ⟨rules, layer, rights⟩ := (landlock_policies (twoRules.take 2)).2.1 0 0 _
    { store := unreadable.lifetime, object := [2] } 4 {} rfl rfl
  exact ⟨rules, layer, (rights _ 2).mpr (.inr (by decide))⟩

/-- A lookup that fails refuses what a later rule grants. -/
theorem unreadable_refused :
    ∃ policy, (run twoRules).policies = [policy] ∧ PolicyGrants (run twoRules) policy unreadable
        { node := some { id := [2], directory := false }, parent := some { id := [1], directory := true } } 4 ∧
      mdiLandlock (run twoRules) policy unreadable
        { node := some { id := [2], directory := false }, parent := some { id := [1], directory := true } } 4 =
          .error Errno.EIO := by
  refine ⟨[3], by decide +kernel, ?_, by decide +kernel⟩
  intro addr m handled rules found i asked _
  rw [mem_singleton.mp m] at found
  cases found
  exact ⟨_, mem_cons_of_mem _ mem_cons_self, asked, rfl, .inl ⟨_, rfl, rfl⟩⟩

end Shroot.Landlock
