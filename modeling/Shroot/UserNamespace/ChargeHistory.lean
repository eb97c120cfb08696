import Shroot.UserNamespace.Charging

namespace Shroot.UserCharges

open General Function List Option UInt32 Nat

variable {space : SpaceRef} {h : Charges} {holds : List Hold} {pins : List SpaceRef}

/-- A namespace that someone else refers to stays when a reference goes, and so do the accounts. -/
theorem release_accounts (several : ∀ s, h.spaces.find? space = some s → s.references ≠ 1) :
    (namespaceRelease space h).accounts = h.accounts := by
  cases space with
  | nil => rfl
  | cons n parent =>
    rw [namespaceRelease]
    cases found : h.spaces.find? (n :: parent) with
    | none => rfl
    | some s =>
      dsimp only
      rw [if_pos (several s found)]

theorem retain_several (balanced : Balanced h holds pins) (room : Room h 1) :
    ∀ s, (namespaceRetain h space).spaces.find? space = some s → s.references ≠ 1 := by
  intro s found one
  rw [namespaceRetain_eq, alter_find] at found
  obtain ⟨old, pre, rfl⟩ := map_eq_some_iff.mp found
  rw [if_pos rfl] at one
  obtain ⟨mem, -⟩ := find?_path pre
  obtain ⟨good, pos⟩ := (balanced.rows old mem).references
  have next := congrArg toNat one
  rw [toNat_succ (room old mem), toNat_one] at next
  omega

variable {parent : SpaceRef}

/-- A new namespace, or the tables with the accounts they had. -/
theorem namespaceNew_outcome (kept : Kept h holds pins) (there : present h parent)
    (room : Room h 2) (owner group : UInt32) (page : Option Errno) (memory : Bool) :
    (∃ h' space, namespaceNew h parent owner group page memory = (h', .ok space) ∧ Kept h' holds (space :: pins) ∧
      ∀ p ∈ chainOf h' parent owner, countOf h' p .namespaces ≤ namespaceLimit h' p.1 .namespaces) ∨
      ∃ h' error, namespaceNew h parent owner group page memory = (h', .error error) ∧ Kept h' holds pins ∧
        h'.accounts = h.accounts := by
  have unchanged : Kept h holds pins ∧ h.accounts = h.accounts := ⟨kept, rfl⟩
  have one : Room h 1 := fun s mem => lt_of_succ_lt (room s mem)
  unfold namespaceNew
  by_cases deep : parent.length ≥ MD_USER_NAMESPACE_DEPTH
  · rw [if_pos deep]
    exact .inr ⟨_, _, rfl, unchanged⟩
  rw [if_neg deep]
  by_cases invalid : owner = 0xffffffff ∨ group = 0xffffffff
  · rw [if_pos invalid]
    exact .inr ⟨_, _, rfl, unchanged⟩
  rw [if_neg invalid]
  cases page with
  | some error => exact .inr ⟨_, _, rfl, unchanged⟩
  | none =>
    dsimp only
    have retained := kept.retain there one
    have still : present (namespaceRetain h parent) parent := by
      simp only [present, decide_eq_true_eq] at there ⊢
      rcases there with root | some
      · exact .inl root
      · refine .inr ?_
        rw [namespaceRetain_eq, alter_find, isSome_map]
        exact some
    have roomLeft : Room (namespaceRetain h parent) 1 := by
      intro s mem
      rw [namespaceRetain_eq] at mem
      obtain ⟨old, pre, -, -, -, is⟩ := alter_mem _ mem
      have small := room old pre
      by_cases same : old.path = parent
      · rw [is, if_pos same, toNat_succ (by omega)]
        omega
      · rw [is, if_neg same]
        omega
    rcases chargeAcquire_outcome retained still roomLeft owner .namespaces memory with ⟨h', acquired, made⟩ |
      ⟨h', error, bad, refused⟩
    · rw [acquired]
      refine .inl ⟨_, _, rfl, .addSpace (some owner) made.kept, ?_⟩
      have old : ∀ t, t <:+ parent → t ≠ h'.next :: parent := by
        intro t suffix same
        have shorter := suffix.length_le
        rw [same, length_cons] at shorter
        omega
      have find : ∀ t, t <:+ parent → (addSpace h' parent true (some owner)).spaces.find? t = h'.spaces.find? t := by
        intro t suffix
        rw [addSpace, Table.find?_put, if_neg (Ne.symm (old t suffix))]
      intro p mem
      have chains : chainOf (addSpace h' parent true (some owner)) parent owner = chainOf h' parent owner :=
        chainOf_congr fun t suffix _ => by rw [chargeAt, find t suffix, chargeAt]
      rw [chains] at mem
      have limit : namespaceLimit (addSpace h' parent true (some owner)) p.1 .namespaces =
          namespaceLimit h' p.1 .namespaces := by
        rw [namespaceLimit, find _ (suffix_of_mem_chainOf mem)]
        rfl
      rw [limit]
      exact made.within p mem
    · rw [bad]
      refine .inr ⟨_, _, rfl, refused.kept.release, ?_⟩
      rw [release_accounts, refused.accounts]
      · rfl
      · rw [refused.spaces]
        exact retain_several kept.balanced one

theorem namespaceImport_kept (count : Nat) (kept : Kept h holds (parent :: pins)) :
    Kept (namespaceImport count parent h).1 holds ((namespaceImport count parent h).2 :: pins) := by
  induction count generalizing h parent with
  | zero => exact kept
  | succ count ih => exact ih (.addSpace none kept)

theorem Kept.pin_initial (kept : Kept h holds pins) : Kept h holds ([] :: pins) := by
  refine ⟨kept.balanced.initial (fun p mem inner => ?_) (fun s mem => mem_allPins _ mem) fun t => referred_initial,
    kept.alive⟩
  exact (mem_cons.mp mem).resolve_left inner

theorem namespaceSetLimit_kept (kept : Kept h holds pins) (space : SpaceRef) (kind : UserResource) (limit : UInt32) :
    Kept (namespaceSetLimit h space kind limit).1 holds pins := by
  unfold namespaceSetLimit
  split
  · exact kept
  rename_i small
  have fine : limit ≤ INT_MAX := UInt32.not_lt.mp small
  have updated : ∀ limits : UserResource → UInt32, (∀ r, limits r ≤ INT_MAX) →
      ∀ r, update limits kind limit r ≤ INT_MAX := by
    intro limits bounded r
    by_cases here : r = kind
    · rw [here, update_self]
      exact fine
    · rw [update_of_ne here]
      exact bounded r
  split
  · refine ⟨{ kept.balanced with
      limits := updated _ kept.balanced.limits
      counted := kept.balanced.counted.congr (fun _ _ is => is) fun y _ => chainOf_congr fun _ _ _ => rfl }, kept.alive⟩
  · split
    · exact kept
    · split
      · exact kept
      · have inPlace : InPlace fun s => { s with limits := update s.limits kind limit } :=
          ⟨fun _ => rfl, fun _ => rfl, fun _ => rfl⟩
        refine .alter inPlace kept.alive
          (kept.balanced.alter inPlace kept.balanced.pinned (fun s mem => mem_allPins pins mem)
          (fun s mem path => ⟨?_, updated s.limits (kept.balanced.rows s mem).limits⟩) fun _ _ => rfl)
        have good := (kept.balanced.rows s mem).references
        rwa [path] at good

/-- Tables in which no namespace has more references than can be counted, even with two more. -/
def Spacious (h : Charges) : Prop := ∀ s ∈ h.spaces.rows, s.references.toNat + 2 < 2 ^ 32

variable {o : Outstanding}

theorem happen_kept (kept : Kept h o.holds o.pins) (spacious : Spacious h) (event : ChargeEvent) :
    Kept (happen (h, o) event).1 (happen (h, o) event).2.holds (happen (h, o) event).2.pins := by
  have one : Room h 1 := fun s mem => lt_of_succ_lt (spacious s mem)
  cases event with
  | acquire space uid kind memory =>
    simp only [happen]
    split
    next there =>
      rcases chargeAcquire_outcome kept there one uid kind memory with ⟨h', acquired, made⟩ | ⟨h', e, bad, refused⟩
      · rw [acquired]
        exact made.kept
      · rw [bad]
        exact refused.kept
    · exact kept
  | add account kind =>
    simp only [happen]
    split
    next there =>
      rcases chargeAdd_outcome kept there one kind with ⟨h', added, made⟩ | ⟨e, bad⟩
      · rw [added]
        exact made.kept
      · rw [bad]
        exact kept
    · exact kept
  | release hold =>
    simp only [happen]
    split
    next mem => exact ((kept.perm (perm_cons_erase mem) (.refl _)).chargeDrop).release
    · exact kept
  | new parent owner group page memory =>
    simp only [happen]
    split
    next there =>
      rcases namespaceNew_outcome kept there spacious owner group page memory with ⟨h', space, made, post, -⟩ |
        ⟨h', e, bad, post, -⟩
      · rw [made]
        exact post
      · rw [bad]
        exact post
    · exact kept
  | imported count =>
    simp only [happen]
    split
    · exact namespaceImport_kept count kept.pin_initial
    · exact kept
  | retain space =>
    simp only [happen]
    split
    next there => exact kept.retain there one
    · exact kept
  | drop space =>
    simp only [happen]
    split
    next mem => exact (kept.perm (.refl _) (perm_cons_erase mem)).release
    · exact kept
  | setLimit space kind limit => exact namespaceSetLimit_kept kept space kind limit

theorem kept_initial : Kept {} [] [] := by
  refine ⟨⟨nofun, nofun, nofun, nofun, fun r => ?_, nofun, rfl⟩, nofun⟩
  cases r <;> decide

theorem run_kept (events : List ChargeEvent)
    (spacious : ∀ before, before <+: events → Spacious (before.foldl happen ({}, {})).1) :
    Kept (events.foldl happen ({}, {})).1 (events.foldl happen ({}, {})).2.holds
      (events.foldl happen ({}, {})).2.pins := by
  induction events using reverseRecOn with
  | nil => exact kept_initial
  | append_singleton rest event ih =>
    rw [foldl_append, foldl_cons, foldl_nil]
    refine happen_kept (ih fun before start => spacious before (start.trans (prefix_append rest [event]))) ?_ event
    exact spacious rest (prefix_append rest [event])

/-- What the accounts promise: they count the charges there are, none is freed while it counts any, and a
call charges every level within its limit or none at all. -/
structure Accounted (h : Charges) (o : Outstanding) : Prop where
  counts : ∀ k a, h.accounts k = some a → ∀ r, (a.count r).toNat = charged h (allHolds h o.holds) k r
  absent : ∀ k, h.accounts k = none → ∀ r, charged h (allHolds h o.holds) k r = 0
  freed : ∀ a ∈ h.freed, ∀ r, a.count r = 0
  underflow : h.underflow = false
  added : ∀ c r h', (h.accounts c).isSome → chargeAdd h c r = (h', none) →
    ∀ p ∈ chainOf h' c.1 c.2, countOf h' p r ≤ namespaceLimit h' p.1 r
  acquired : ∀ space uid r memory h', present h space → chargeAcquire h space uid r memory = (h', none) →
    ∀ p ∈ chainOf h' space uid, countOf h' p r ≤ namespaceLimit h' p.1 r
  created : ∀ parent owner group page memory h' space, present h parent →
    namespaceNew h parent owner group page memory = (h', .ok space) →
    ∀ p ∈ chainOf h' parent owner, countOf h' p .namespaces ≤ namespaceLimit h' p.1 .namespaces
  notAdded : ∀ c r h' error, (h.accounts c).isSome → chargeAdd h c r = (h', some error) → h'.accounts = h.accounts
  notAcquired : ∀ space uid r memory h' error, present h space → chargeAcquire h space uid r memory = (h', some error) →
    h'.accounts = h.accounts
  notCreated : ∀ parent owner group page memory h' error, present h parent →
    namespaceNew h parent owner group page memory = (h', .error error) → h'.accounts = h.accounts

theorem Kept.accounted (kept : Kept h o.holds o.pins) (spacious : Spacious h) : Accounted h o := by
  have one : Room h 1 := fun s mem => lt_of_succ_lt (spacious s mem)
  refine ⟨fun k a is r => ((kept.balanced.counted k a is).2 r).1,
    fun k is => kept.balanced.charged_eq_zero (kept.balanced.direct_absent is), kept.balanced.freed,
      kept.balanced.underflow,
    fun c r h' there is => ?_, fun space uid r memory h' there is => ?_,
      fun parent owner group page memory h' space there is => ?_,
    fun c r h' e there is => ?_, fun space uid r memory h' e there is => ?_,
    fun parent owner group page memory h' e there is => ?_⟩
  · rcases chargeAdd_outcome kept there one r with ⟨h'', done, made⟩ | ⟨e, bad⟩
    · cases done.symm.trans is
      exact made.within
    · cases bad.symm.trans is
  · rcases chargeAcquire_outcome kept there one uid r memory with ⟨h'', done, made⟩ | ⟨h'', e, bad, -⟩
    · cases done.symm.trans is
      exact made.within
    · cases bad.symm.trans is
  · rcases namespaceNew_outcome kept there spacious owner group page memory with ⟨h'', made, done, -, sub⟩ |
      ⟨h'', e, bad, -⟩
    · cases done.symm.trans is
      exact sub
    · cases bad.symm.trans is
  · rcases chargeAdd_outcome kept there one r with ⟨h'', done, -⟩ | ⟨e, bad⟩
    · cases done.symm.trans is
    · cases bad.symm.trans is
      rfl
  · rcases chargeAcquire_outcome kept there one uid r memory with ⟨h'', done, -⟩ | ⟨h'', e, bad, refused⟩
    · cases done.symm.trans is
    · cases bad.symm.trans is
      exact refused.accounts
  · rcases namespaceNew_outcome kept there spacious owner group page memory with ⟨h'', made, done, -⟩ |
      ⟨h'', e, bad, -, same⟩
    · cases done.symm.trans is
    · cases bad.symm.trans is
      exact same

/-- As long as the references to a namespace can be counted, the accounts are right after every history. -/
theorem accounts_balance (events : List ChargeEvent)
    (spacious : ∀ before, before <+: events → Spacious (before.foldl happen ({}, {})).1) :
    Accounted (events.foldl happen ({}, {})).1 (events.foldl happen ({}, {})).2 :=
  (run_kept events spacious).accounted (spacious events (prefix_refl _))

/-- A namespace, a charge in it and its release. -/
def brief : List ChargeEvent :=
  [.new [] 0 0 none true, .acquire [0] 0 .inotifyWatches true, .release ⟨([0], 0), .inotifyWatches⟩]

theorem brief_spacious (old : List ChargeEvent) (start : old <+: brief) : Spacious (old.foldl happen ({}, {})).1 := by
  have each : ∀ old ∈ brief.inits, ∀ s ∈ (old.foldl happen ({}, {})).1.spaces.rows,
      s.references.toNat + 2 < 2 ^ 32 := by decide +kernel
  exact each old ((mem_inits _ _).mpr start)

theorem accounts_balance_brief : Accounted (brief.foldl happen ({}, {})).1 (brief.foldl happen ({}, {})).2 :=
  accounts_balance brief brief_spacious

/-- The namespaces that callers refer to or have charges in. -/
def Outstanding.spaces (o : Outstanding) : List SpaceRef := o.pins ++ o.holds.map fun x => x.account.1

/-- What keeps a namespace is in the end a caller. -/
theorem Kept.caller {s : ChargedSpace} (kept : Kept h o.holds o.pins) (mem : s ∈ h.spaces.rows) :
    ∃ p ∈ o.spaces, s.path <:+ p := by
  obtain ⟨depth, deep⟩ : ∃ depth, ∀ s ∈ h.spaces.rows, s.path.length ≤ depth :=
    ⟨_, fun s mem => le_sum_of_mem (mem_map_of_mem (f := fun s => s.path.length) mem)⟩
  -- Those below a namespace come first: the induction is on how much deeper it could be.
  induction gap : depth - s.path.length using Nat.strong_induction_on generalizing s with
  | _ gap ih =>
    have child : ∀ c ∈ h.spaces.rows, c.path.tail = s.path → ∃ p ∈ o.spaces, s.path <:+ p := by
      intro c isRow tail
      obtain ⟨n, parent, path⟩ := exists_cons_of_ne_nil (kept.balanced.rows c isRow).numbered.1
      obtain rfl : parent = s.path := by rwa [path] at tail
      have bound := deep c isRow
      obtain ⟨p, refers, under⟩ := ih _ (by rw [path, length_cons] at *; omega) isRow rfl
      rw [path] at under
      exact ⟨p, refers, (suffix_cons n s.path).trans under⟩
    have refs := (kept.balanced.rows s mem).references.2
    rw [referred, add_pos_iff_pos_or_pos, count_pos_iff, countP_pos_iff] at refs
    rcases refs with pin | ⟨x, isHold, here⟩
    · rcases mem_append.mp pin with mine | below
      · exact ⟨_, mem_append_left _ mine, suffix_rfl⟩
      · obtain ⟨c, isRow, tail⟩ := mem_map.mp below
        exact child c isRow tail
    · have here := of_decide_eq_true here
      rcases mem_append.mp isHold with mine | own
      · exact ⟨_, mem_append_right _ (mem_map.mpr ⟨x, mine, here⟩), suffix_rfl⟩
      · obtain ⟨c, isRow, own⟩ := mem_filterMap.mp own
        obtain ⟨uid, -, rfl⟩ := map_eq_some_iff.mp own
        exact child c isRow here

/-- A namespace is there as long as a caller refers to it or to one below, and an account as long as a
charge is made at it. -/
theorem spaces_alive (events : List ChargeEvent)
    (spacious : ∀ before, before <+: events → Spacious (before.foldl happen ({}, {})).1) :
    let (h, o) := events.foldl happen ({}, {})
    (∀ space, space ≠ [] → ((h.spaces.find? space).isSome ↔ ∃ p ∈ o.spaces, space <:+ p)) ∧
      ∀ k, (h.accounts k).isSome ↔ ∃ x ∈ allHolds h o.holds, x.account = k := by
  have kept := run_kept events spacious
  refine ⟨fun space inner => ⟨fun there => ?_, ?_⟩, fun k => ⟨fun there => direct_pos.mp (kept.alive k there), ?_⟩⟩
  · obtain ⟨s, found⟩ := isSome_iff_exists.mp there
    obtain ⟨mem, rfl⟩ := Table.find?_eq_some.mp found
    exact kept.caller mem
  · rintro ⟨p, refers, under⟩
    have outer : p ≠ [] := by
      rintro rfl
      exact inner (suffix_nil.mp under)
    refine kept.balanced.above ?_ under inner
    rcases mem_append.mp refers with pin | hold
    · exact kept.balanced.pinned p (mem_append_left _ pin) outer
    · obtain ⟨x, mine, rfl⟩ := mem_map.mp hold
      obtain ⟨uid, charge⟩ := isSome_iff_exists.mp ((kept.balanced.held x (mem_append_left _ mine)).2 outer)
      obtain ⟨s, found, -⟩ := bind_eq_some_iff.mp charge
      rw [found]
      rfl
  · rintro ⟨x, mine, rfl⟩
    exact (kept.balanced.held x mine).1

theorem spaces_alive_brief : ((brief.foldl happen ({}, {})).1.spaces.find? [0]).isSome :=
  ((spaces_alive brief brief_spacious).1 [0] (by decide)).mpr (by decide +kernel)

/-- One namespace with one account, charged to the initial namespace, all limits as high as they can be. -/
def crowded (count : UserResource → UInt32) (refs : UInt32) (held : UInt64) : Charges where
  spaces := Table.empty.put { path := [0], writer := true, charge := some 0, references := refs }
  initialLimits := fun _ => INT_MAX
  accounts := fun k =>
    if k = ([0], 0) then some ⟨count, held⟩
    else if k = ([], 0) then some ⟨fun r => if r = .namespaces then count r + 1 else count r, 1⟩ else none
  next := 1

theorem chargeAdd_crowded (count : UserResource → UInt32) (refs : UInt32) (held : UInt64) (r : UserResource)
    (room : (count r).toNat + 2 ≤ 0x7fffffff ∨ r ≠ .namespaces ∧ (count r).toNat + 1 ≤ 0x7fffffff) :
    chargeAdd (crowded count refs held) ([0], 0) r =
      (crowded (update count r (count r + 1)) (refs + 1) (held + 1), none) := by
  have chain : ∀ P : AccountRef → Prop, P ([0], 0) → P ([], 0) →
      ∀ p ∈ chainOf (crowded count refs held) [0] 0, P p := by
    intro P inner outer p mem
    rcases mem_cons.mp mem with rfl | two
    · exact inner
    · rwa [mem_singleton.mp two]
  have limits : ∀ p ∈ chainOf (crowded count refs held) [0] 0,
    namespaceLimit (crowded count refs held) p.1 r = INT_MAX :=
    chain (fun p => namespaceLimit (crowded count refs held) p.1 r = INT_MAX) rfl rfl
  have alive : ∀ p ∈ chainOf (crowded count refs held) [0] 0, ((crowded count refs held).accounts p).isSome :=
    chain (fun p => ((crowded count refs held).accounts p).isSome) rfl rfl
  have counts : ∀ p ∈ chainOf (crowded count refs held) [0] 0,
      (countOf (crowded count refs held) p r).toNat < 0x7fffffff := by
    refine chain (fun p => (countOf (crowded count refs held) p r).toNat < 0x7fffffff) ?_ ?_
    · change (count r).toNat < _
      omega
    · change (if r = .namespaces then count r + 1 else count r).toNat < _
      split
      next same =>
        have lt := room.resolve_right fun other => other.1 same
        rw [toNat_succ (by omega)]
        omega
      · omega
  rcases countAdd_spec (crowded count refs held) ([0], 0) r alive with ⟨added, -⟩ | ⟨-, p, mem, full⟩
  · rw [chargeAdd, added, countAdd_settled]
    have accounts : settled (namespaceRetain (crowded count refs held) [0]) ([0], 0) r (· + 1) (· + 1) =
        (crowded (update count r (count r + 1)) (refs + 1) (held + 1)).accounts := by
      funext k
      by_cases first : k = ([0], 0)
      · subst first
        rfl
      · by_cases two : k = ([], 0)
        · subst two
          refine congrArg some (congrArg (UserCharge.mk · 1) (funext fun q => ?_))
          by_cases same : q = r
          · subst same
            simp only [update_self]
            split <;> rfl
          · rw [update_of_ne same, update_of_ne same]
        · have gone : ∀ count refs held, (crowded count refs held).accounts k = none := by
            simp [crowded, first, two]
          have none : (settled (namespaceRetain (crowded count refs held) [0]) ([0], 0) r (· + 1) (· + 1) k).isSome =
              false := by
            rw [settled_isSome]
            exact congrArg Option.isSome (gone count refs held)
          rw [gone, isSome_eq_false_iff.mp none |> isNone_iff_eq_none.mp]
    rw [accounts]
    rfl
  · have bound := counts p mem
    rw [limits p mem] at full
    have le := le_iff_toNat_le.mp full
    have max : INT_MAX.toNat = 0x7fffffff := rfl
    omega

theorem adds_crowded (n : Nat) (count : UserResource → UInt32) (refs : UInt32) (held : UInt64) (r : UserResource)
    (o : Outstanding)
    (room : (count r).toNat + n + 1 ≤ 0x7fffffff ∨ r ≠ .namespaces ∧ (count r).toNat + n ≤ 0x7fffffff) :
    (replicate n (.add ([0], 0) r)).foldl happen (crowded count refs held, o) =
      (crowded (update count r (count r + ofNat n)) (refs + ofNat n) (held + UInt64.ofNat n),
        { o with holds := replicate n ⟨([0], 0), r⟩ ++ o.holds }) := by
  induction n generalizing count refs held o with
  | zero => simp
  | succ n ih =>
    have once : happen (crowded count refs held, o) (.add ([0], 0) r) =
        (crowded (update count r (count r + 1)) (refs + 1) (held + 1),
          { o with holds := ⟨([0], 0), r⟩ :: o.holds }) := by
      have added := chargeAdd_crowded count refs held r (room.imp (by omega) fun other => ⟨other.1, by omega⟩)
      have there : ((crowded count refs held).accounts ([0], 0)).isSome = true := rfl
      simp only [happen, there, if_true, added]
    have val : (count r + 1).toNat = (count r).toNat + 1 := toNat_succ (by omega)
    have still : (update count r (count r + 1) r).toNat + n + 1 ≤ 0x7fffffff ∨
        r ≠ .namespaces ∧ (update count r (count r + 1) r).toNat + n ≤ 0x7fffffff := by
      rw [update_self, val]
      exact room.imp (by omega) fun other => ⟨other.1, by omega⟩
    rw [replicate_succ, foldl_cons, once, ih _ _ _ _ still, update_self, update_idem]
    have later (x : UInt32) : x + 1 + ofNat n = x + ofNat (n + 1) := by
      rw [ofNat_add, add_assoc, add_comm 1]
      rfl
    have holding : held + 1 + UInt64.ofNat n = held + UInt64.ofNat (n + 1) := by
      rw [UInt64.ofNat_add, UInt64.add_assoc, UInt64.add_comm 1]
      rfl
    rw [later, later, holding, replicate_succ', append_assoc, singleton_append]

/-- All limits raised, and a namespace with a charge in it. -/
def gathering : List ChargeEvent :=
  [.setLimit [] .inotifyInstances INT_MAX, .setLimit [] .inotifyWatches INT_MAX, .new [] 0 0 none true,
    .acquire [0] 0 .inotifyWatches true]

theorem gathering_crowded : gathering.foldl happen ({}, {}) =
    (crowded (fun r => if r = .inotifyWatches then 1 else 0) 2 1, ⟨[⟨([0], 0), .inotifyWatches⟩], [[0]]⟩) := by
  have each : ∀ old ∈ gathering.inits, ∀ s ∈ (old.foldl happen ({}, {})).1.spaces.rows,
      s.references.toNat + 2 < 2 ^ 32 := by decide +kernel
  have kept := run_kept gathering fun old start => each old ((mem_inits _ _).mpr start)
  have limits : (gathering.foldl happen ({}, {})).1.initialLimits = fun _ => INT_MAX := by
    funext r
    cases r <;> rfl
  have accounts : (gathering.foldl happen ({}, {})).1.accounts =
      (crowded (fun r => if r = .inotifyWatches then 1 else 0) 2 1).accounts := by
    funext k
    by_cases first : k = ([0], 0)
    · subst first
      refine congrArg some (congrArg (UserCharge.mk · 1) (funext fun r => ?_))
      cases r <;> rfl
    · by_cases second : k = ([], 0)
      · subst second
        refine congrArg some (congrArg (UserCharge.mk · 1) (funext fun r => ?_))
        cases r <;> rfl
      · -- there is an account only where something is charged
        have gone : (crowded (fun r => if r = .inotifyWatches then 1 else 0) 2 1).accounts k = none := by
          simp [crowded, first, second]
        rw [gone, ← not_isSome_iff_eq_none]
        intro there
        obtain ⟨x, mem, rfl⟩ := direct_pos.mp (kept.alive k there)
        have holds : allHolds (gathering.foldl happen ({}, {})).1 (gathering.foldl happen ({}, {})).2.holds =
            [⟨([0], 0), .inotifyWatches⟩, ⟨([], 0), .namespaces⟩] := rfl
        rw [holds] at mem
        rcases mem_cons.mp mem with rfl | rest
        · exact first rfl
        · exact second (by rw [mem_singleton.mp rest])
  have whole : (gathering.foldl happen ({}, {})).1 =
      { (gathering.foldl happen ({}, {})).1 with
          initialLimits := fun _ => INT_MAX
          accounts := (crowded (fun r => if r = .inotifyWatches then 1 else 0) 2 1).accounts } := by
    rw [← limits, ← accounts]
  exact Prod.ext (whole.trans rfl) rfl

/-- As many charges in the namespace as the limits allow, of watches and of instances, and two more. The last is
released. -/
def crowd : List ChargeEvent :=
  gathering ++ replicate 0x7ffffffe (.add ([0], 0) .inotifyWatches) ++
    replicate 0x7fffffff (.add ([0], 0) .inotifyInstances) ++
  replicate 2 (.add ([0], 0) .namespaces) ++ [.release ⟨([0], 0), .namespaces⟩]

/-- The limits allow more charges in a namespace than its references can count: it goes while there are
charges in it, and the account it was charged to is freed while it counts them. -/
theorem crowd_freed : ∃ a ∈ (crowd.foldl happen ({}, {})).1.freed, a.count .inotifyWatches ≠ 0 := by
  rw [crowd, foldl_append, foldl_append, foldl_append, foldl_append, gathering_crowded,
    adds_crowded _ _ _ _ _ _ (.inr (by decide)), adds_crowded _ _ _ _ _ _ (.inr (by decide)),
      adds_crowded _ _ _ _ _ _ (.inl (by decide)),
    foldl_cons, foldl_nil, happen]
  decide +kernel

end Shroot.UserCharges
