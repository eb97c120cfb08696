import Shroot.UserNamespace.Balance

namespace Shroot.UserCharges

open General Function List UInt32 Nat

section

variable {h : Charges} {holds : List Hold} {pins : List SpaceRef} {c : AccountRef} {kind : UserResource}

/-- An account after a charge was made or released at `c`. -/
def settled (h : Charges) (c : AccountRef) (kind : UserResource) (count : UInt32 → UInt32) (refs : UInt64 → UInt64) :
    AccountRef → Option UserCharge :=
  let accounts := recounted count kind (chainOf h c.1 c.2) h.accounts
  update accounts c ((accounts c).map fun a => { a with references := refs a.references })

variable {refs : UInt64 → UInt64} {count : UInt32 → UInt32}

theorem settled_isSome (k : AccountRef) : (settled h c kind count refs k).isSome = (h.accounts k).isSome := by
  have good : ∀ k, (recounted count kind (chainOf h c.1 c.2) h.accounts k).isSome = (h.accounts k).isSome := by
    intro k
    unfold recounted
    split
    · rw [Option.isSome_map]
    · rfl
  unfold settled
  by_cases here : k = c
  · subst here
    rw [update_self, Option.isSome_map, good]
  · rw [update_of_ne here, good]

theorem settled_eq_some {k : AccountRef} {a : UserCharge} (is : settled h c kind count refs k = some a) :
    ∃ old, h.accounts k = some old ∧ a.references = (if k = c then refs old.references else old.references) ∧
      ∀ r, a.count r = if r = kind ∧ k ∈ chainOf h c.1 c.2 then count (old.count r) else old.count r := by
  have good : ∀ k b, recounted count kind (chainOf h c.1 c.2) h.accounts k = some b → ∃ old, h.accounts k = some old ∧
      b.references = old.references ∧ ∀ r, b.count r = if r = kind ∧
        k ∈ chainOf h c.1 c.2 then count (old.count r) else old.count r := by
    intro k b is
    by_cases through : k ∈ chainOf h c.1 c.2
    · rw [recounted_of_mem through] at is
      obtain ⟨old, pre, rfl⟩ := Option.map_eq_some_iff.mp is
      refine ⟨old, pre, rfl, fun r => ?_⟩
      by_cases same : r = kind
      · subst same
        simp [UserCharge.recount, through]
      · simp [UserCharge.recount, same]
    · rw [recounted_of_not_mem through] at is
      exact ⟨b, is, rfl, fun r => by rw [if_neg fun both => through both.2]⟩
  unfold settled at is
  by_cases here : k = c
  · subst here
    rw [update_self] at is
    obtain ⟨b, pre, rfl⟩ := Option.map_eq_some_iff.mp is
    obtain ⟨old, found, refs, counts⟩ := good k b pre
    exact ⟨old, found, by rw [if_pos rfl, refs], counts⟩
  · rw [update_of_ne here] at is
    obtain ⟨old, found, refs, counts⟩ := good k a is
    exact ⟨old, found, by rw [if_neg here, refs], counts⟩

/-- The accounts of a table that is balanced, for other holds at the same namespaces. -/
theorem Balanced.settle {holds' : List Hold} {pins' : List SpaceRef} (sums : Balanced h holds pins)
    {accounts : AccountRef → Option UserCharge} {underflow : Bool}
    (pinned : ∀ p ∈ pins', p ≠ [] → (h.spaces.find? p).isSome)
    (held : ∀ x ∈ holds', (accounts x.account).isSome ∧ (x.account.1 ≠ [] → (chargeAt h x.account.1).isSome))
    (parents : ∀ s ∈ h.spaces.rows, s.path.tail ∈ pins')
    (own : ∀ s ∈ h.spaces.rows, ∀ uid, s.charge = some uid → ⟨(s.path.tail, uid), .namespaces⟩ ∈ holds')
    (referredSame : ∀ space, referred holds' pins' space = referred holds pins space)
    (good : ∀ k a, accounts k = some a → a.references.toNat = direct holds' k ∧
      ∀ r, (a.count r).toNat = charged h holds' k r ∧
      charged h holds' k r ≤ 0x7fffffff) (fine : underflow = false) :
    Balanced { h with accounts := accounts, underflow := underflow } holds' pins' := by
  refine
    { sums with
      rows := fun s mem =>
        { sums.rows s mem with
          parent := parents s mem
          own := own s mem
          references := by
            rw [referredSame]
            exact (sums.rows s mem).references }
      pinned := pinned
      held := held
      counted := fun k a is => ?_
      underflow := fine }
  obtain ⟨refs, counts⟩ := good k a is
  refine ⟨refs, fun r => ?_⟩
  have same : charged { h with accounts := accounts, underflow := underflow } holds' k r = charged h holds' k r :=
    charged_congr fun y _ => chainOf_congr fun _ _ _ => rfl
  rw [same]
  exact counts r

theorem referred_exchange (x : Hold) (space : SpaceRef) :
    referred (x :: holds) pins space = referred holds (x.account.1 :: pins) space := by
  rw [referred_cons_hold, referred_cons_pin]

theorem Balanced.hold (sums : Balanced h holds (c.1 :: pins)) (parents : ∀ s ∈ h.spaces.rows, s.path.tail ∈ pins)
    (there : (h.accounts c).isSome) (paid : c.1 ≠ [] → (chargeAt h c.1).isSome)
    (below : ∀ p ∈ chainOf h c.1 c.2, countOf h p kind < namespaceLimit h p.1 kind) :
    Balanced { h with accounts := settled h c kind (· + 1) (· + 1) } (⟨c, kind⟩ :: holds) pins := by
  refine sums.settle (fun p mem => sums.pinned p (mem_cons_of_mem _ mem)) (fun x mem => ?_) parents
    (fun s mem uid is => mem_cons_of_mem _ ((sums.rows s mem).own uid is)) (referred_exchange ⟨c, kind⟩)
      (fun k a is => ?_)
    sums.underflow
  · rw [settled_isSome]
    rcases mem_cons.mp mem with rfl | pre
    · exact ⟨there, paid⟩
    · exact sums.held x pre
  · obtain ⟨old, pre, refs, counts⟩ := settled_eq_some is
    obtain ⟨oldRefs, oldCounts⟩ := sums.counted k old pre
    have few := direct_le h holds k
    refine ⟨?_, fun r => ?_⟩
    · rw [refs, direct_cons]
      by_cases here : k = c
      · subst here
        rw [if_pos rfl, if_pos rfl, UInt64.toNat_add, oldRefs]
        have one := (oldCounts .namespaces).2
        have two := (oldCounts .inotifyInstances).2
        have three := (oldCounts .inotifyWatches).2
        exact mod_eq_of_lt (by simp; omega)
      · rw [if_neg here, if_neg (Ne.symm here), oldRefs, add_zero]
    · rw [counts r, charged_cons]
      by_cases through : kind = r ∧ k ∈ chainOf h c.1 c.2
      · obtain ⟨rfl, through⟩ := through
        have room := lt_iff_toNat_lt.mp (below k through)
        have val : countOf h k kind = old.count kind := by rw [countOf, pre]; rfl
        have limit := sums.limit_le k.1 kind
        rw [val] at room
        rw [if_pos ⟨rfl, through⟩, if_pos ⟨rfl, through⟩, toNat_succ (by omega), ← (oldCounts kind).1]
        exact ⟨rfl, by omega⟩
      · rw [if_neg through, if_neg fun both => through ⟨both.1.symm, both.2⟩]
        exact oldCounts r

theorem Balanced.unhold (sums : Balanced h (⟨c, kind⟩ :: holds) pins)
    (own : ∀ s ∈ h.spaces.rows, ∀ uid, s.charge = some uid → ⟨(s.path.tail, uid), .namespaces⟩ ∈ holds) :
    Balanced { h with
      accounts := settled h c kind (· - 1) (· - 1)
      underflow := h.underflow || (chainOf h c.1 c.2).any fun p => countOf h p kind == 0 } holds (c.1 :: pins) := by
  have held := sums.held ⟨c, kind⟩ mem_cons_self
  have pos : ∀ p ∈ chainOf h c.1 c.2, 0 < charged h (⟨c, kind⟩ :: holds) p kind := by
    intro p mem
    rw [charged_cons, if_pos ⟨rfl, mem⟩]
    exact succ_pos _
  refine sums.settle (fun p mem inner => ?_) (fun x mem => ?_) (fun s mem => mem_cons_of_mem _ (sums.rows s mem).parent)
    own (fun space => (referred_exchange ⟨c, kind⟩ space).symm) (fun k a is => ?_) ?_
  · rcases mem_cons.mp mem with rfl | pre
    · exact find?_of_chargeAt (held.2 inner)
    · exact sums.pinned p pre inner
  · rw [settled_isSome]
    exact sums.held x (mem_cons_of_mem _ mem)
  · obtain ⟨old, pre, refs, counts⟩ := settled_eq_some is
    obtain ⟨oldRefs, oldCounts⟩ := sums.counted k old pre
    refine ⟨?_, fun r => ?_⟩
    · rw [direct_cons] at oldRefs
      rw [refs]
      by_cases here : k = c
      · subst here
        rw [if_pos rfl] at oldRefs ⊢
        have one : (1 : UInt64) ≤ old.references := UInt64.le_iff_toNat_le.mpr (by rw [oldRefs]; exact le_add_left 1 _)
        rw [UInt64.toNat_sub_of_le _ _ one, oldRefs]
        rfl
      · rw [if_neg (Ne.symm here), add_zero] at oldRefs
        rw [if_neg here, oldRefs]
    · obtain ⟨val, bound⟩ := oldCounts r
      rw [charged_cons] at val bound
      rw [counts r]
      by_cases through : kind = r ∧ k ∈ chainOf h c.1 c.2
      · obtain ⟨rfl, through⟩ := through
        rw [if_pos ⟨rfl, through⟩] at val bound ⊢
        have one : (1 : UInt32) ≤ old.count kind := le_iff_toNat_le.mpr (by rw [val]; exact le_add_left 1 _)
        rw [UInt32.toNat_sub_of_le _ _ one, val]
        exact ⟨rfl, by omega⟩
      · rw [if_neg through, add_zero] at val bound
        rw [if_neg fun both => through ⟨both.1.symm, both.2⟩]
        exact ⟨val, bound⟩
  · rw [sums.underflow, Bool.false_or, any_eq_false]
    intro p mem
    obtain ⟨a, is⟩ := Option.isSome_iff_exists.mp (sums.chain_there held.1 p mem)
    have val := ((sums.counted p a is).2 kind).1
    have some := pos p mem
    have isCount : countOf h p kind = a.count kind := by rw [countOf, is]; rfl
    rw [isCount, beq_iff_eq]
    intro zero
    rw [zero] at val
    have none : charged h (⟨c, kind⟩ :: holds) p kind = 0 := val.symm
    omega

section

variable (sums : Balanced h holds pins)

include sums

theorem Balanced.countRemove (none : direct holds c = 0) : Balanced (countRemove h c) holds pins := by
  have away : ∀ x ∈ holds, x.account ≠ c := by
    intro x mem same
    have some := direct_pos.mpr ⟨x, mem, same⟩
    omega
  have old : ∀ k a, (UserCharges.countRemove h c).accounts k = some a → h.accounts k = some a := by
    intro k a is
    unfold UserCharges.countRemove at is
    dsimp only at is
    by_cases here : k = c
    · subst here
      rw [update_self] at is
      cases is
    · rwa [update_of_ne here] at is
  refine
    { sums with
      held := fun x mem => ⟨?_, (sums.held x mem).2⟩
      counted := sums.counted.congr old fun y _ => chainOf_congr fun _ _ _ => rfl
      freed := fun a mem r => ?_ }
  · unfold UserCharges.countRemove
    dsimp only
    rw [update_of_ne (away x mem)]
    exact (sums.held x mem).1
  · rcases mem_append.mp mem with it | older
    · have is : h.accounts c = some a := Option.mem_toList.mp it
      have val := ((sums.counted c a is).2 r).1
      rw [sums.charged_eq_zero none] at val
      exact UInt32.toNat_inj.mp val
    · exact sums.freed a older r

theorem Balanced.references_zero :
    (h.accounts c).any (fun a => a.references = 0) = true ↔ (h.accounts c).isSome ∧ direct holds c = 0 := by
  cases is : h.accounts c with
  | none => simp
  | some a =>
    rw [← (sums.counted c a is).1, ← UInt64.toNat_zero, UInt64.toNat_inj]
    simp

theorem Balanced.dismiss (others : ∀ k, k ≠ c → (h.accounts k).isSome → 0 < direct holds k) :
    Balanced (if (h.accounts c).any (fun a => a.references = 0) then UserCharges.countRemove h c else h) holds pins ∧
      Alive (if (h.accounts c).any (fun a => a.references = 0) then UserCharges.countRemove h c else h) holds := by
  split
  next zero =>
    refine ⟨sums.countRemove (sums.references_zero.mp zero).2, fun k is => ?_⟩
    unfold UserCharges.countRemove at is
    dsimp only at is
    by_cases here : k = c
    · rw [here, update_self] at is
      cases is
    · rw [update_of_ne here] at is
      exact others k here is
  next left =>
    refine ⟨sums, fun k is => ?_⟩
    by_cases here : k = c
    · subst here
      exact pos_of_ne_zero fun none => left (sums.references_zero.mpr ⟨is, none⟩)
    · exact others k here is

end

theorem chargeDrop_spaces (h : Charges) (c : AccountRef) (kind : UserResource) :
    (chargeDrop h c kind).spaces = h.spaces := by
  unfold chargeDrop
  rw [foldl_decrement (chainOf_nodup h c.1 c.2)]
  dsimp only
  split
  · rfl
  · rfl

/-- A charge is released: what is left is a reference to the namespace. -/
theorem Balanced.chargeDrop (sums : Balanced h (⟨c, kind⟩ :: holds) pins) (alive : Alive h (⟨c, kind⟩ :: holds))
    (own : ∀ s ∈ h.spaces.rows, ∀ uid, s.charge = some uid → ⟨(s.path.tail, uid), .namespaces⟩ ∈ holds) :
    Balanced (chargeDrop h c kind) holds (c.1 :: pins) ∧ Alive (chargeDrop h c kind) holds := by
  have gone := sums.unhold own
  unfold UserCharges.chargeDrop
  rw [foldl_decrement (chainOf_nodup h c.1 c.2)]
  refine gone.dismiss fun k ne is => ?_
  have old := alive k (by rwa [settled_isSome] at is)
  rwa [direct_cons, if_neg (Ne.symm ne), add_zero] at old

end

variable {space : SpaceRef} {c : AccountRef} {kind : UserResource} {h : Charges} {holds : List Hold}
  {pins : List SpaceRef}

section

variable {change : ChargedSpace → ChargedSpace} {pins' : List SpaceRef} {s : ChargedSpace}

/-- The charge that a namespace has made for itself. -/
def ChargedSpace.own (s : ChargedSpace) : Option Hold := s.charge.map fun uid => ⟨(s.path.tail, uid), .namespaces⟩

/-- All charges: those of the callers and those of the namespaces. -/
def allHolds (h : Charges) (holds : List Hold) : List Hold := holds ++ h.spaces.rows.filterMap ChargedSpace.own

/-- All references but those of charges: from the callers and from the namespaces below. -/
def allPins (h : Charges) (pins : List SpaceRef) : List SpaceRef := pins ++ h.spaces.rows.map fun s => s.path.tail

/-- Tables that agree with what the callers have. -/
structure Kept (h : Charges) (holds : List Hold) (pins : List SpaceRef) : Prop where
  balanced : Balanced h (allHolds h holds) (allPins h pins)
  alive : Alive h (allHolds h holds)

theorem mem_allPins (pins : List SpaceRef) (mem : s ∈ h.spaces.rows) : s.path.tail ∈ allPins h pins :=
  mem_append_right _ (mem_map.mpr ⟨s, mem, rfl⟩)

theorem Kept.perm {holds' : List Hold} (kept : Kept h holds pins) (sameHolds : holds.Perm holds')
    (samePins : pins.Perm pins') : Kept h holds' pins' :=
  ⟨kept.balanced.perm (sameHolds.append_right _) (samePins.append_right _), kept.alive.perm (sameHolds.append_right _)⟩

theorem alter_lists (h : Charges) (space : SpaceRef) (inPlace : InPlace change) (holds : List Hold)
    (pins : List SpaceRef) :
    allHolds (alter h space inPlace) holds = allHolds h holds ∧
    allPins (alter h space inPlace) pins = allPins h pins := by
  constructor
  · rw [allHolds, allHolds, alter, Table.update]
    rw [filterMap_map]
    congr 2
    funext s
    simp only [comp, ChargedSpace.own]
    split
    · rw [inPlace.charge, inPlace.path]
    · rfl
  · rw [allPins, allPins, alter, Table.update]
    rw [map_map]
    congr 2
    funext s
    simp only [comp]
    split
    · rw [inPlace.path]
    · rfl

theorem Kept.alter (inPlace : InPlace change)
    (alive : Alive h (allHolds h holds))
    (sums : Balanced (alter h space inPlace) (allHolds h holds) (allPins h pins')) :
    Kept (alter h space inPlace) holds pins' := by
  obtain ⟨sameHolds, samePins⟩ := alter_lists h space inPlace holds pins'
  refine ⟨?_, ?_⟩
  · rw [sameHolds, samePins]
    exact sums
  · rw [sameHolds]
    exact alive

theorem Kept.retain (kept : Kept h holds pins) (there : present h space)
    (room : Room h 1) : Kept (namespaceRetain h space) holds (space :: pins) := by
  have retained := kept.balanced.retain space (fun inner => by simpa [present, inner] using there) room
  exact .alter (inPlace_references (· + 1)) kept.alive retained

theorem Kept.addSpace {parent : SpaceRef} (charge : Option UInt32)
    (kept : Kept h ((charge.map fun uid => (⟨(parent, uid), .namespaces⟩ : Hold)).toList ++ holds) (parent :: pins)) :
    Kept (addSpace h parent charge.isSome charge) holds ((h.next :: parent) :: pins) := by
  obtain ⟨sums, alive⟩ := kept
  have rows := addSpace_rows (sums.next_fresh parent) charge.isSome charge
  have holdsSame : (allHolds h ((charge.map fun uid => (⟨(parent, uid), .namespaces⟩ : Hold)).toList ++ holds)).Perm
      (allHolds (UserCharges.addSpace h parent charge.isSome charge) holds) := by
    rw [allHolds, allHolds, rows]
    cases charge with
    | none => exact .refl _
    | some uid => exact perm_middle.symm
  have pinsSame : (allPins h (parent :: pins)).Perm (pins ++ (parent :: h.spaces.rows.map fun s => s.path.tail)) :=
    perm_middle.symm
  have old := sums.perm holdsSame pinsSame
  have added := old.addSpace charge (mem_append_right pins (mem_cons_self (a := parent))) fun uid is => by
    exact mem_append_right _ (mem_filterMap.mpr ⟨_, mem_cons_self, by rw [ChargedSpace.own, is]; rfl⟩)
  refine ⟨?_, alive.perm holdsSame⟩
  rw [allPins, rows]
  exact added

end

theorem Kept.chargeDrop (kept : Kept h (⟨c, kind⟩ :: holds) pins) : Kept (chargeDrop h c kind) holds (c.1 :: pins) := by
  have own : ∀ s ∈ h.spaces.rows, ∀ uid, s.charge = some uid → ⟨(s.path.tail, uid), .namespaces⟩ ∈ allHolds h holds :=
    fun s mem uid is => mem_append_right _ (mem_filterMap.mpr ⟨s, mem, by rw [ChargedSpace.own, is, Option.map_some]⟩)
  have balance : Balanced h (⟨c, kind⟩ :: allHolds h holds) (allPins h pins) := kept.balanced
  obtain ⟨sums, alive⟩ := balance.chargeDrop kept.alive own
  have spaces := chargeDrop_spaces h c kind
  refine ⟨?_, ?_⟩
  · rw [allHolds, allPins, spaces]
    exact sums
  · rw [allHolds, spaces]
    exact alive

/-- A reference of a caller is given back, with whatever goes then. -/
theorem Kept.release (kept : Kept h holds (space :: pins)) : Kept (namespaceRelease space h) holds pins := by
  induction space generalizing h holds pins with
  | nil =>
    exact ⟨kept.balanced.initial (fun p mem _ => mem_cons_of_mem _ mem) (fun s mem => mem_allPins pins mem)
      fun t inner => (referred_initial inner).symm, kept.alive⟩
  | cons n parent ih =>
    obtain ⟨sums, alive⟩ := kept
    have there := sums.pinned (n :: parent) (mem_append_left _ mem_cons_self) (cons_ne_nil _ _)
    obtain ⟨s, found⟩ := Option.isSome_iff_exists.mp there
    obtain ⟨mem, path⟩ := find?_path found
    have parents : ∀ s ∈ h.spaces.rows, s.path.tail ∈ allPins h pins := fun s mem => mem_allPins pins mem
    have only : ∀ t ∈ h.spaces.rows, t.path = n :: parent → t = s := by
      intro t isIn same
      have again := Table.find?_of_mem isIn
      rw [same, found] at again
      exact (Option.some.inj again).symm
    rw [namespaceRelease, found]
    dsimp only
    by_cases several : s.references ≠ 1
    · rw [if_pos several]
      exact .alter (inPlace_references (· - 1)) alive (sums.unpin parents fun t isIn same => only t isIn same ▸ several)
    · rw [if_neg several]
      have last : referred (allHolds h holds) (allPins h pins) (n :: parent) = 0 := by
        have good := (sums.rows s mem).references.1
        rw [not_not.mp several, path, allPins, cons_append, referred_cons_pin, if_pos rfl] at good
        exact (succ.inj good).symm
      have gone : Balanced { h with spaces := h.spaces.remove fun t => t.path = n :: parent } (allHolds h holds)
        (allPins h pins) :=
        sums.remove parents last
      -- what the namespace had becomes a caller's
      have rows : h.spaces.rows.Perm (s :: (h.spaces.remove fun t => t.path = n :: parent).rows) := by
        rw [← path]
        exact Table.perm_remove mem
      have left : Kept { h with spaces := h.spaces.remove fun t => t.path = n :: parent } (s.own.toList ++ holds)
          (parent :: pins) := by
        have pinsSame : (allPins h pins).Perm
            (allPins { h with spaces := h.spaces.remove fun t => t.path = n :: parent } (parent :: pins)) := by
          refine ((rows.map fun t => t.path.tail).append_left pins).trans ?_
          rw [map_cons, path]
          exact perm_middle
        have holdsSame : (allHolds h holds).Perm
            (allHolds { h with spaces := h.spaces.remove fun t => t.path = n :: parent } (s.own.toList ++ holds)) := by
          refine ((rows.filterMap ChargedSpace.own).append_left holds).trans ?_
          cases own : s.own with
          | none =>
            rw [filterMap_cons_none own]
            exact .refl _
          | some x =>
            rw [filterMap_cons_some own]
            exact perm_middle
        exact ⟨gone.perm holdsSame pinsSame, alive.perm holdsSame⟩
      cases charge : s.charge with
      | none =>
        rw [ChargedSpace.own, charge] at left
        exact ih left
      | some uid =>
        rw [ChargedSpace.own, charge, path] at left
        have dropped : Kept _ holds (parent :: parent :: pins) := .chargeDrop left
        exact ih (ih dropped)

theorem retain_limit (h : Charges) (space t : SpaceRef) (kind : UserResource) :
    namespaceLimit (namespaceRetain h space) t kind = namespaceLimit h t kind := by
  unfold namespaceLimit
  split
  · rfl
  · rw [namespaceRetain_eq, alter_find, Option.map_map]
    congr 2
    split <;> rfl

theorem retain_chargeAt (h : Charges) (space t : SpaceRef) : chargeAt (namespaceRetain h space) t = chargeAt h t :=
  alter_chargeAt (inPlace_references (· + 1)) t

theorem retain_chainOf (h : Charges) (space t : SpaceRef) (uid : UInt32) :
    chainOf (namespaceRetain h space) t uid = chainOf h t uid :=
  chainOf_congr fun t _ _ => retain_chargeAt h space t

theorem countAdd_settled (h : Charges) (c : AccountRef) (kind : UserResource) :
    namespaceRetain (referTo (· + 1) ((chainOf h c.1 c.2).foldl (increment kind) h) c) c.1 =
      { namespaceRetain h c.1 with accounts := settled (namespaceRetain h c.1) c kind (· + 1) (· + 1) } := by
  rw [foldl_increment (chainOf_nodup h c.1 c.2), settled, retain_chainOf]
  rfl

/-- The tables with a charge at every level. -/
def chargedAt (h : Charges) (c : AccountRef) (kind : UserResource) : Charges :=
  { namespaceRetain h c.1 with accounts := settled (namespaceRetain h c.1) c kind (· + 1) (· + 1) }

theorem chargedAt_chargeAt (h : Charges) (c : AccountRef) (kind : UserResource) (t : SpaceRef) :
    chargeAt (chargedAt h c kind) t = chargeAt h t := retain_chargeAt h c.1 t

theorem chargedAt_count (below : ∀ p ∈ chainOf h c.1 c.2, countOf h p kind < namespaceLimit h p.1 kind) :
    ∀ p ∈ chainOf (chargedAt h c kind) c.1 c.2,
      countOf (chargedAt h c kind) p kind ≤ namespaceLimit (chargedAt h c kind) p.1 kind := by
  intro p mem
  rw [chainOf_congr fun t _ _ => chargedAt_chargeAt h c kind t] at mem
  have room := below p mem
  have lt := lt_iff_toNat_lt.mp room
  have size := (namespaceLimit h p.1 kind).toNat_lt
  have limit : namespaceLimit (chargedAt h c kind) p.1 kind = _ := retain_limit h c.1 p.1 kind
  rw [limit]
  cases is : (chargedAt h c kind).accounts p with
  | none =>
    rw [countOf, is]
    exact UInt32.zero_le
  | some a =>
    have settles : settled (namespaceRetain h c.1) c kind (· + 1) (· + 1) p = some a := is
    obtain ⟨old, pre, -, counts⟩ := settled_eq_some settles
    have val := counts kind
    rw [retain_chainOf, if_pos ⟨rfl, mem⟩] at val
    have isOld : countOf h p kind = old.count kind := by
      rw [countOf, show h.accounts p = some old from pre]
      rfl
    rw [countOf, is, Option.map_some, Option.getD_some, val, ← isOld, le_iff_toNat_le, toNat_succ (by omega)]
    omega

theorem Balanced.countAdd (sums : Balanced h holds pins) (there : (h.accounts c).isSome)
    (paid : c.1 ≠ [] → (chargeAt h c.1).isSome) (room : Room h 1) (kind : UserResource) :
    (countAdd h c kind = (h, some .ENOSPC)) ∨
      (countAdd h c kind = (chargedAt h c kind, none) ∧ Balanced (chargedAt h c kind) (⟨c, kind⟩ :: holds) pins ∧
        ∀ p ∈ chainOf (chargedAt h c kind) c.1 c.2,
          countOf (chargedAt h c kind) p kind ≤ namespaceLimit (chargedAt h c kind) p.1 kind) := by
  rcases countAdd_spec h c kind (sums.chain_there there) with ⟨added, below⟩ | ⟨bad, -⟩
  · rw [countAdd_settled] at added
    refine .inr ⟨added, ?_, chargedAt_count below⟩
    have retained := sums.retain c.1 (fun inner => find?_of_chargeAt (paid inner)) room
    refine retained.hold (fun s mem => ?_) there (fun inner => ?_) fun p mem => ?_
    · rw [namespaceRetain_eq] at mem
      obtain ⟨old, pre, path, -⟩ := alter_mem _ mem
      rw [path]
      exact (sums.rows old pre).parent
    · rw [retain_chargeAt]
      exact paid inner
    · rw [retain_chainOf] at mem
      rw [retain_limit]
      exact below p mem
  · exact .inl bad

theorem Balanced.openAccount (sums : Balanced h holds pins) (gone : h.accounts c = none) :
    Balanced { h with accounts := update h.accounts c (some {}) } holds pins := by
  have none := sums.direct_absent gone
  refine sums.settle sums.pinned (fun x mem => ⟨?_, (sums.held x mem).2⟩) (fun s mem => (sums.rows s mem).parent)
    (fun s mem => (sums.rows s mem).own) (fun _ => rfl) (fun k a is => ?_) sums.underflow
  · by_cases here : x.account = c
    · rw [here, update_self]
      rfl
    · rw [update_of_ne here]
      exact (sums.held x mem).1
  · by_cases here : k = c
    · subst here
      rw [update_self] at is
      obtain rfl := Option.some.inj is
      refine ⟨none.symm, fun r => ?_⟩
      rw [sums.charged_eq_zero none]
      exact ⟨rfl, zero_le _⟩
    · rw [update_of_ne here] at is
      exact sums.counted k a is

variable {uid : UInt32}

theorem allHolds_chargedAt (h : Charges) (c : AccountRef) (kind : UserResource) (holds : List Hold)
    (pins : List SpaceRef) :
    allHolds (chargedAt h c kind) holds = allHolds h holds ∧ allPins (chargedAt h c kind) pins = allPins h pins :=
  alter_lists h c.1 (inPlace_references (· + 1)) holds pins

theorem kept_chargedAt (sums : Balanced (chargedAt h c kind) (⟨c, kind⟩ :: allHolds h holds) (allPins h pins))
    (alive : ∀ k, k ≠ c → (h.accounts k).isSome → 0 < direct (allHolds h holds) k) :
    Kept (chargedAt h c kind) (⟨c, kind⟩ :: holds) pins := by
  obtain ⟨sameHolds, samePins⟩ := allHolds_chargedAt h c kind (⟨c, kind⟩ :: holds) pins
  refine ⟨?_, ?_⟩
  · rw [sameHolds, samePins]
    exact sums
  · rw [sameHolds]
    intro k is
    have there : (h.accounts k).isSome := by rwa [chargedAt, settled_isSome] at is
    change 0 < direct (⟨c, kind⟩ :: allHolds h holds) k
    rw [direct_cons]
    by_cases here : k = c
    · rw [if_pos here.symm]
      exact succ_pos _
    · exact Nat.add_pos_left (alive k here there) _

/-- A charge that was made, and the limits at that moment. -/
structure Charged (h : Charges) (c : AccountRef) (kind : UserResource) (holds : List Hold) (pins : List SpaceRef) :
    Prop where
  kept : Kept h (⟨c, kind⟩ :: holds) pins
  within : ∀ p ∈ chainOf h c.1 c.2, countOf h p kind ≤ namespaceLimit h p.1 kind

structure Refused (before h : Charges) (holds : List Hold) (pins : List SpaceRef) : Prop where
  kept : Kept h holds pins
  accounts : h.accounts = before.accounts
  spaces : h.spaces = before.spaces

theorem chargeAdd_outcome (kept : Kept h holds pins) (there : (h.accounts c).isSome) (room : Room h 1)
    (kind : UserResource) :
    (∃ h', chargeAdd h c kind = (h', none) ∧ Charged h' c kind holds pins) ∨
      ∃ error, chargeAdd h c kind = (h, some error) := by
  have paid : c.1 ≠ [] → (chargeAt h c.1).isSome := by
    obtain ⟨x, mem, rfl⟩ := direct_pos.mp (kept.alive c there)
    exact (kept.balanced.held x mem).2
  rcases kept.balanced.countAdd there paid room kind with bad | ⟨added, sums, sub⟩
  · exact .inr ⟨_, bad⟩
  · exact .inl ⟨_, added, kept_chargedAt sums fun k _ => kept.alive k, sub⟩

theorem chargeAcquire_outcome (kept : Kept h holds pins) (there : present h space)
    (room : Room h 1) (uid : UInt32) (kind : UserResource) (memory : Bool) :
    (∃ h', chargeAcquire h space uid kind memory = (h', none) ∧ Charged h' (space, uid) kind holds pins) ∨
      ∃ h' error, chargeAcquire h space uid kind memory = (h', some error) ∧ Refused h h' holds pins := by
  have same : Refused h h holds pins := ⟨kept, rfl, rfl⟩
  unfold chargeAcquire
  by_cases invalid : uid = 0xffffffff
  · rw [if_pos invalid]
    exact .inr ⟨_, _, rfl, same⟩
  rw [if_neg invalid]
  by_cases imported : (h.spaces.find? space).any fun s => !s.writer
  · rw [if_pos imported]
    exact .inr ⟨_, _, rfl, same⟩
  rw [if_neg imported]
  by_cases poor : h.accounts (space, uid) = none ∧ memory = false
  · rw [if_pos poor]
    exact .inr ⟨_, _, rfl, same⟩
  rw [if_neg poor]
  have paid : space ≠ [] → (chargeAt h space).isSome := by
    intro inner
    obtain ⟨s, found⟩ := Option.isSome_iff_exists.mp (by simpa [present, inner] using there)
    rw [found] at imported
    have writer : s.writer = true := by simpa using imported
    rw [(kept.balanced.rows s (find?_path found).1).writer] at writer
    rw [chargeAt, found]
    exact writer
  dsimp only
  cases account : h.accounts (space, uid) with
  | none =>
    have opened := kept.balanced.openAccount account
    rw [if_pos (by rfl)]
    rcases opened.countAdd (c := (space, uid)) (by simp) paid room kind with bad | ⟨added, sums, sub⟩
    · rw [bad]
      dsimp only
      rw [if_pos (show (update h.accounts (space, uid) (some {}) (space, uid)).any (fun a => a.references = 0) = true by
        rw [update_self]; rfl)]
      have accounts :
          (countRemove { h with accounts := update h.accounts (space, uid) (some {}) } (space, uid)).accounts =
            h.accounts := by
        rw [countRemove]
        rw [update_idem, ← account, update_eq_self]
      refine .inr ⟨_, _, rfl, ⟨opened.countRemove (kept.balanced.direct_absent account), fun k is => ?_⟩, accounts, rfl⟩
      rw [accounts] at is
      exact kept.alive k is
    · rw [added]
      refine .inl ⟨_, rfl, kept_chargedAt sums fun k ne is => kept.alive k ?_, sub⟩
      dsimp only at is
      rwa [update_of_ne ne] at is
  | some a =>
    rw [if_neg (by simp)]
    rcases kept.balanced.countAdd (c := (space, uid)) (by rw [account]; rfl) paid room kind with bad |
      ⟨added, sums, sub⟩
    · rw [bad]
      dsimp only
      have used : ¬ (h.accounts (space, uid)).any (fun a => a.references = 0) = true := by
        intro zero
        have some := kept.alive (space, uid) (by rw [account]; rfl)
        have none := (kept.balanced.references_zero.mp zero).2
        omega
      rw [if_neg used]
      exact .inr ⟨_, _, rfl, same⟩
    · rw [added]
      exact .inl ⟨_, rfl, kept_chargedAt sums fun k _ => kept.alive k, sub⟩

end Shroot.UserCharges
