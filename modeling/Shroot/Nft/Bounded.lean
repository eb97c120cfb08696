import Shroot.Nft.History

namespace Shroot.Nft

open General List Bool Prod Nat

variable {f : NetworkFilter} {c : Chain} {colours : Colouring Nat}

section

variable {e : Expression} {i table : Nat} {rule : Rule} {s : ElementSet}

/-- The handles tell sets apart, and none is the zero that stands for no handle. -/
structure Distinguished (f : NetworkFilter) : Prop where
  chains : ∀ c ∈ f.chains, c.handle ≠ 0
  sets : ∀ s ∈ f.sets, s.handle ≠ 0
  distinct : (f.sets.map (·.handle)).Nodup

theorem Distinguished.eq_of_handle (handles : Distinguished f) {t : ElementSet} (one : s ∈ f.sets) (two : t ∈ f.sets)
    (same : s.handle = t.handle) : s = t := inj_on_of_nodup_map handles.distinct one two same

theorem setFind_of_mem (handles : Distinguished f) (mem : s ∈ f.sets)
    (sub : table = 0 ∨ s.table = table) : setFind f table none s.handle 0 = some s := by
  have pick : selects table none s.handle 0 s.table s.name s.handle s.id = true :=
    selects_handle.mpr ⟨sub, handles.sets s mem, rfl⟩
  have exists_ : (setFind f table none s.handle 0).isSome := by
    rw [setFind, find?_isSome]
    exact ⟨s, mem, pick⟩
  obtain ⟨t, found⟩ := Option.isSome_iff_exists.mp exists_
  obtain ⟨there, same⟩ := setFind_handle found
  rw [found, handles.eq_of_handle there mem same]

theorem jumpTarget_ok (handles : Distinguished f) {target : Nat} (fine : jumpTarget f c target = .ok i) :
    ∃ d, f.chains[i]? = some d ∧ chainFind f c.table none target 0 = some d := by
  unfold jumpTarget at fine
  split at fine
  next k d found =>
    split at fine
    · cases fine
    next fits =>
      cases fine
      obtain ⟨n, isIndex, there⟩ := Option.bind_eq_some_iff.mp found
      obtain ⟨d', is, same⟩ := Option.map_eq_some_iff.mp there
      cases same
      refine ⟨d, is, ?_⟩
      obtain ⟨bound, first, prior⟩ := findIdx?_eq_some_iff_getElem.mp isIndex
      obtain ⟨_, isD⟩ := List.getElem?_eq_some_iff.mp is
      rw [isD] at first
      have handle : d.handle = target := by simpa using first
      have table : d.table = c.table := by
        by_contra other
        exact fits (.inl other)
      refine find?_eq_some_iff_getElem.mpr ⟨?_, i, bound, isD, ?_⟩
      · exact selects_handle.mpr ⟨.inr table, handle ▸ handles.chains d (mem_of_getElem? is), handle.symm⟩
      · intro j old
        have ne := prior j old
        rw [not_eq_true', eq_false_iff]
        intro pick
        obtain ⟨-, -, same⟩ := selects_handle.mp pick
        simp [same] at ne
  · cases fine

theorem mem_chainWork {item : Except Errno Nat} (is : f.chains[i]? = some c)
    (ofChain : rule ∈ f.rules ∧ rule.chain = c.handle) (mem : e ∈ rule.expressions)
    (works : item ∈ expressionWork f c e) :
    item ∈ chainWork f i := by
  simp only [chainWork, is, mem_flatMap, mem_filter, decide_eq_true_eq]
  exact ⟨rule, ofChain, e, mem, works⟩

/-- The expressions of an accepted chain are resolved, and lead to lower chains only. -/
theorem resolved_of_sound (handles : Distinguished f) (sound : Colouring.Sound (chainWork f) maxDepth colours)
    (is : f.chains[i]? = some c) (done : colours.colour i = .settled) (ofChain : rule ∈ f.rules ∧ rule.chain = c.handle)
    (mem : e ∈ rule.expressions) :
    Resolved f c (fun d => ∃ k, f.chains[k]? = some d ∧ colours.colour k = .settled ∧
      colours.height k < colours.height i) e := by
  have works : ∀ item ∈ expressionWork f c e, ∃ k, item = .ok k ∧ colours.colour k = .settled ∧
    colours.height k < colours.height i :=
    fun item inWork => sound.work i done item (mem_chainWork is ofChain mem inWork)
  have leads : ∀ v ∈ verdicts f e, ∀ target, v.target? = some target → ∃ d, chainFind f c.table none target 0 = some d ∧
      ∃ k, f.chains[k]? = some d ∧ colours.colour k = .settled ∧ colours.height k < colours.height i := by
    intro v given target isTarget
    have inWork : jumpTarget f c target ∈ expressionWork f c e := by
      refine mem_append_left _ (mem_append_left _ (mem_map_of_mem ?_))
      exact mem_filterMap.mpr ⟨v, given, isTarget⟩
    obtain ⟨k, fine, lower⟩ := works _ inWork
    obtain ⟨d, isD, found⟩ := jumpTarget_ok handles fine
    exact ⟨d, found, k, isD, lower⟩
  have nothingMissing : Except.error .ENOENT ∉ expressionWork f c e := fun lack => by
    obtain ⟨k, impossible, -⟩ := works _ lack
    cases impossible
  refine ⟨?_, ?_, ?_, ?_⟩
  · intro set refers
    have there : f.sets.any fun s => s.handle = set && s.table = c.table := by
      by_contra absent
      exact nothingMissing (mem_append_left _ (mem_append_right _ (by simp [refers, absent])))
    obtain ⟨s, inSets, same⟩ := any_eq_true.mp there
    simp only [and_eq_true, decide_eq_true_eq] at same
    obtain ⟨rfl, table⟩ := same
    exact ⟨s, setFind_of_mem handles inSets (.inr table)⟩
  · rintro set source invert rfl
    have there : f.sets.any fun s => s.ipset.isSome && s.handle = set := by
      by_contra absent
      exact nothingMissing (mem_append_right _ (by simp [absent]))
    obtain ⟨s, inSets, same⟩ := any_eq_true.mp there
    simp only [and_eq_true, decide_eq_true_eq] at same
    obtain ⟨-, rfl⟩ := same
    exact ⟨s, setFind_of_mem handles inSets (.inl rfl)⟩
  · rintro v target rfl isTarget
    exact leads v (by simp [verdicts]) target isTarget
  · rintro set src size s element target rfl found inSet starts isTarget
    obtain ⟨there, rfl⟩ := setFind_handle found
    refine leads element.verdict ?_ target isTarget
    have first : f.sets.find? (·.handle = s.handle) = some s := by
      obtain ⟨t, isFirst⟩ := Option.isSome_iff_exists.mp
        ((@find?_isSome _ f.sets fun t => t.handle = s.handle).mpr ⟨s, there, by simp⟩)
      have same : t.handle = s.handle := by simpa using find?_some isFirst
      rw [isFirst, handles.eq_of_handle (mem_of_find?_eq_some isFirst) there same]
    simp only [verdicts, first, mem_map]
    exact ⟨element, inSet, by simp [starts]⟩

end

variable (env : Environment)
variable {outcome : Outcome} {t : Transition}

/-- A chain whose height is below what is left of the depth ends sanely. -/
theorem evaluateChain_behaves (handles : Distinguished f)
    (sound : Colouring.Sound (chainWork f) maxDepth colours) {left i : Nat} (is : f.chains[i]? = some c)
    (done : colours.colour i = .settled) (low : colours.height i < left) (s : State) :
    Behaves s (evaluateChain env f left c s) := by
  induction left generalizing c i s with
  | zero => omega
  | succ left ih =>
    have entered : Within s { s with depths := (maxDepth - left) :: s.depths } := by
      intro n mem
      rcases mem_cons.mp mem with rfl | mem
      · exact .inr (sub_le _ _)
      · exact .inl mem
    have jumps : ∀ d, (∃ k, f.chains[k]? = some d ∧ colours.colour k = .settled ∧ colours.height k < colours.height i) →
        ∀ s, Behaves s (evaluateChain env f left d s) := by
      rintro d ⟨k, isD, done, lower⟩ s
      exact ih isD done (by omega) s
    have known : ∀ rule ∈ f.rules, rule.chain = c.handle → ∀ e ∈ rule.expressions, Resolved f c _ e :=
      fun rule mem ofChain e => resolved_of_sound handles sound is done ⟨mem, ofChain⟩
    have ran :
      Evaluated True False { s with depths := (maxDepth - left) :: s.depths } (evaluateRules env f c _ 0 f.rules _) :=
      evaluateRules_evaluated env
        (fun d isLed s _ => ⟨fun _ => jumps d (isLed trivial) s, fun is => is.elim, fun is => is.elim⟩) 0
        (fun _ => known) (fun is => is.elim) fun is => is.elim
    obtain ⟨sane, sub⟩ := ran.behaves trivial
    exact ⟨sane, entered.trans sub⟩

theorem applyPolicy_behaves (i : Nat) (sane : Sane outcome) (s : State) :
    Behaves s (applyPolicy env i c outcome s) := by
  have good : Quiet (if c.counters then accountCounter env (.chain i) else pure ()) := by
    split
    · exact accountCounter_quiet env _
    · exact .pure trivial
  unfold applyPolicy
  split
  · exact ⟨sane, .of_eq rfl⟩
  · split
    next outcome s' run =>
      obtain ⟨same, sane, -⟩ := good.of_error run
      exact ⟨sane, .of_eq (congrArg fst same)⟩
    next s' run =>
      refine ⟨?_, .of_eq (congrArg fst (good.of_ok run).1)⟩
      dsimp only
      split <;> decide

theorem reroute_quiet (old : Packet) : Quiet (reroute env c old) := by
  refine packet_quiet.bind fun p _ => ?_
  split
  · split
    · exact .throw (by decide)
    · exact (rejectIf_quiet (by decide)).bind fun _ _ => .modify fun _ => rfl
  · exact .pure trivial

theorem hookOutcome_sane (sane : Sane outcome) : Sane (hookOutcome outcome) := by
  cases outcome with
  | error errno => exact sane
  | drop | accept | return_ | fault => decide

/-- The depths of a hook so far. -/
def Transition.Shallow (t : Transition) : Prop := ∀ n ∈ t.state.depths, n ≤ maxDepth

theorem Transition.Shallow.within {s : State} (shallow : t.Shallow) (sub : Within t.state s) :
    ∀ n ∈ s.depths, n ≤ maxDepth := by
  intro n mem
  rcases sub n mem with old | low
  · exact shallow n old
  · exact low

theorem Transition.Shallow.translate (shallow : t.Shallow) (pick : Option (Nat × Chain)) :
    (t.translate pick).Shallow := by
  unfold Transition.translate
  split
  · split
    · exact shallow
    · exact shallow
  · exact shallow

/-- What a turn of a hook's loop ends with. -/
def TurnBehaves : (Outcome × Transition) ⊕ Transition → Prop
  | .inl (outcome, t) => Sane outcome ∧ t.Shallow
  | .inr t => t.Shallow

theorem endChain_behaves {hook i : Nat} (shallow : t.Shallow) {res : Outcome × State}
    (behaves : Behaves t.state res) : TurnBehaves (endChain env hook i c t res) := by
  have ended := applyPolicy_behaves env (c := c) i behaves.1 res.2
  unfold endChain
  dsimp only
  split
  next s policy =>
    rw [policy] at ended
    have sub := behaves.2.trans ended.2
    split
    next outcome s' run =>
      obtain ⟨same, sane, -⟩ := (reroute_quiet env t.state.packet).of_error run
      exact ⟨sane, shallow.within (sub.trans (.of_eq (congrArg fst same)))⟩
    next s' run =>
      obtain ⟨same, -⟩ := (reroute_quiet env t.state.packet).of_ok run
      exact shallow.within (sub.trans (.of_eq (congrArg fst same)))
  next outcome s _ policy =>
    rw [policy] at ended
    exact ⟨hookOutcome_sane ended.1, shallow.within (behaves.2.trans ended.2)⟩

theorem transitionBody_behaves (ran : ∀ c ∈ f.chains, ∀ s, Behaves s (evaluateChain env f (maxDepth + 1) c s))
    (hook : Nat) (retained : Bool) (shallow : t.Shallow) :
    TurnBehaves (transitionBody env f hook retained t) := by
  unfold transitionBody
  dsimp only
  have shallow' := shallow.translate (selectChain (candidates f t.state.packet.destination.family hook t.previous))
  split
  · exact ⟨by decide, shallow'⟩
  next i c pick =>
    have mem := selectChain_mem pick
    simp only [candidates, mem_filter, mem_map] at mem
    obtain ⟨⟨⟨d, k⟩, there, same⟩, -⟩ := mem
    cases same
    refine endChain_behaves env shallow' ?_
    unfold evaluateBase
    split
    · exact ⟨show Sane .accept by decide, .of_eq rfl⟩
    · exact ran _ ((mem_zipIdx' there).2 ▸ getElem_mem _) _

theorem Consistent.distinguished (good : Consistent f) : Distinguished f where
  chains c mem := (good.issued c.handle (by simp [handles, mem_map_of_mem mem])).1.ne'
  sets s mem := (good.issued s.handle (by simp [handles, mem_map_of_mem mem])).1.ne'
  distinct := good.distinct.of_append_right.of_append_right.of_append_right

/-- In a ruleset that is accepted and whose handles tell its objects apart, as they do in whatever
batches leave, a chain is evaluated to an end, which is neither that chains nest too deeply nor that
one or a set is missing, and no evaluation nests more than 16 jumps. -/
theorem accepted_evaluation (f : NetworkFilter) (handles : Distinguished f ∨ ∃ calls, f = filterCopy (afterCalls calls))
    (valid : validate f = .ok ()) (env : Environment) :
    (∀ c ∈ f.chains, ∀ s, Behaves s (evaluateChain env f (maxDepth + 1) c s)) ∧
      ∀ hook rewrite s, Sane (evaluateTransition env f hook rewrite s).1 ∧
        (evaluateTransition env f hook rewrite s).2.2.Shallow := by
  have apart : Distinguished f := by
    rcases handles with known | ⟨calls, rfl⟩
    · exact known
    · exact ((afterCalls_grows calls).consistent empty_consistent).distinguished
  obtain ⟨-, -, valid⟩ := bind_ok.mp valid
  obtain ⟨colours, walked, -⟩ := bind_ok.mp valid
  obtain ⟨sound, done⟩ := Colouring.visitAll_ok walked
  have ran : ∀ c ∈ f.chains, ∀ s, Behaves s (evaluateChain env f (maxDepth + 1) c s) := by
    intro c m s
    obtain ⟨i, is⟩ := getElem?_of_mem m
    have here := done i (mem_range.mpr (List.getElem?_eq_some_iff.mp is).1)
    exact evaluateChain_behaves env apart sound is here (lt_succ_of_le (sound.bounded i here)) s
  refine ⟨ran, fun hook rewrite s => ?_⟩
  refine @Loop.run_invariant _ _ (transition env f hook rewrite.isSome) Transition.Shallow
    (fun res => Sane res.1 ∧ res.2.Shallow) ?_ ?_ _ nofun
  · intro t res shallow stops
    have behaves := transitionBody_behaves env ran hook rewrite.isSome shallow
    rw [show transitionBody env f hook rewrite.isSome t = .inl res from stops] at behaves
    exact behaves
  · intro t next shallow goes
    have behaves := transitionBody_behaves env ran hook rewrite.isSome shallow
    rw [show transitionBody env f hook rewrite.isSome t = .inr next from goes] at behaves
    exact behaves

/-- A base chain that jumps by the destination port, through a map. -/
def portMap : NetworkFilter where
  nextHandle := 6
  tables := [{ handle := 1, family := NFPROTO_INET, name := [116] }]
  chains :=
    [{ table := 1, handle := 2, name := [105], hook := some NF_INET_LOCAL_IN },
      { table := 1, handle := 3, name := [115] }]
  rules := [{ chain := 2, handle := 5, expressions := [.payload .transport 2 2 0, .verdictMap 4 0 2] }]
  sets :=
    [{ table := 1, handle := 4, flags := NFT_SET_MAP, keySize := 2, name := [109]
       elements := [{ key := [0, 80], verdict := .jump 3 }] }]

theorem portMap_evaluation :
    Distinguished portMap ∧ validate portMap = .ok () ∧
      ∀ env hook rewrite s, Sane (evaluateTransition env portMap hook rewrite s).1 ∧
        (evaluateTransition env portMap hook rewrite s).2.2.Shallow := by
  have handles : Distinguished portMap := ⟨by decide, by decide, by decide⟩
  have valid : validate portMap = .ok () := by decide +kernel
  exact ⟨handles, valid, fun env => (accepted_evaluation portMap (.inl handles) valid env).2⟩

open UInt64

variable {l : Limit}

/-- How many packets a limit lets pass at some times, and what is left of it. -/
def Limit.passes (l : Limit) : List UInt64 → Nat × Limit
  | [] => (0, l)
  | now :: rest => ((l.spend now).1.toNat + ((l.spend now).2.passes rest).1, ((l.spend now).2.passes rest).2)

/-- A limit gains no more than the time that goes by, and pays for what passes. -/
theorem Limit.spend_le (fits : l.credit ≤ l.capacity) (now : UInt64) :
    (l.spend now).2.credit.toNat + (l.spend now).1.toNat * l.cost.toNat ≤ l.capacity.toNat ∧
      (l.previous ≤ now → (l.spend now).2.credit.toNat + (l.spend now).1.toNat * l.cost.toNat ≤
        l.credit.toNat + (now.toNat - l.previous.toNat)) := by
  have paid : ∀ credit : UInt64, (if decide (credit ≥ l.cost) = true then credit - l.cost else credit).toNat +
      (decide (credit ≥ l.cost)).toNat * l.cost.toNat = credit.toNat := by
    intro credit
    by_cases enough : l.cost ≤ credit
    · have left := UInt64.toNat_sub_of_le _ _ enough
      simp only [enough, decide_true, if_true, left, Bool.toNat_true]
      have := le_iff_toNat_le.mp enough
      omega
    · simp [enough]
  have room := UInt64.toNat_sub_of_le _ _ fits
  simp only [spend, paid]
  by_cases later : l.previous ≤ now
  · have time := UInt64.toNat_sub_of_le _ _ later
    grind [UInt64.toNat_add, UInt64.le_iff_toNat_le]
  · grind [UInt64.toNat_add, UInt64.le_iff_toNat_le]

theorem Limit.passes_le (fits : l.credit ≤ l.capacity) (times : List UInt64)
    (ordered : (l.previous :: times).Pairwise (· ≤ ·)) :
    (l.passes times).1 * l.cost.toNat ≤ l.credit.toNat + ((times.getLastD l.previous).toNat - l.previous.toNat) ∧
      (l.passes times).2.credit ≤ l.capacity := by
  induction times generalizing l with
  | nil => simpa [passes] using fits
  | cons now rest ih =>
    obtain ⟨later, ordered⟩ := pairwise_cons.mp ordered
    obtain ⟨most, gains⟩ := l.spend_le fits now
    obtain ⟨fewer, kept⟩ := @ih (l.spend now).2 (le_iff_toNat_le.mpr (le_of_add_right_le most)) ordered
    change _ * l.cost.toNat ≤ _ + ((rest.getLastD now).toNat - now.toNat) at fewer
    have first := later now mem_cons_self
    have last : now ≤ rest.getLastD now := by
      rcases mem_cons.mp (@getLastD_mem_cons _ rest now) with same | mem
      · rw [same]
        exact UInt64.le_refl now
      · exact (pairwise_cons.mp ordered).1 _ mem
    have gained := gains first
    rw [le_iff_toNat_le] at first last
    rw [passes, add_mul, getLastD_cons]
    exact ⟨by omega, kept⟩

/-- No window lets more pass than its time and a full credit pay for, and the next one starts as it did. -/
theorem limit_rate (fits : l.credit ≤ l.capacity) (now : UInt64) (window : List UInt64)
    (ordered : (now :: window).Pairwise (· ≤ ·)) :
    (l.passes (now :: window)).1 * l.cost.toNat ≤ l.capacity.toNat + ((window.getLastD now).toNat - now.toNat) ∧
      (l.passes (now :: window)).2.credit ≤ l.capacity := by
  have most := (l.spend_le fits now).1
  obtain ⟨fewer, kept⟩ :=
    @Limit.passes_le (l.spend now).2 (le_iff_toNat_le.mpr (le_of_add_right_le most)) window ordered
  change _ * l.cost.toNat ≤ _ + ((window.getLastD now).toNat - now.toNat) at fewer
  rw [Limit.passes, add_mul]
  exact ⟨by omega, kept⟩

theorem limit_rate_burst : (Limit.passes ⟨5, 10, 10, 0⟩ [3, 3, 3, 8]).1 * 5 ≤ 10 + 5 :=
  (@limit_rate ⟨5, 10, 10, 0⟩ (by decide) 3 [3, 3, 8] (by decide)).1

end Shroot.Nft
