import Shroot.UserNamespace.Charges

namespace Shroot.UserCharges

open General List Option UInt32 Nat

variable {h h' : Charges} {holds holds' : List Hold} {pins pins' : List SpaceRef} {k : AccountRef} {x : Hold}
  {space : SpaceRef} {s : ChargedSpace}

section

/-- How many of the holds were made at an account itself. -/
def direct (holds : List Hold) (k : AccountRef) : Nat := holds.countP fun x => x.account = k

/-- How often a namespace is referred to. -/
def referred (holds : List Hold) (pins : List SpaceRef) (space : SpaceRef) : Nat :=
  pins.count space + holds.countP fun x => x.account.1 = space

variable {res : UserResource}

theorem charged_cons : charged h (x :: holds) k res =
    charged h holds k res + if x.resource = res ∧ k ∈ chainOf h x.account.1 x.account.2 then 1 else 0 := by
  rw [charged, countP_cons, charged]
  simp

theorem direct_cons : direct (x :: holds) k = direct holds k + if x.account = k then 1 else 0 := by
  rw [direct, countP_cons, direct]
  simp

theorem referred_cons_hold :
    referred (x :: holds) pins space = referred holds pins space + if x.account.1 = space then 1 else 0 := by
  rw [referred, countP_cons, referred]
  simp only [decide_eq_true_eq]
  omega

theorem referred_cons_pin {pin : SpaceRef} :
    referred holds (pin :: pins) space = referred holds pins space + if pin = space then 1 else 0 := by
  rw [referred, count_cons, referred]
  simp only [beq_iff_eq]
  omega

theorem direct_pos : 0 < direct holds k ↔ ∃ y ∈ holds, y.account = k := by
  rw [direct, countP_pos_iff]
  simp

theorem charged_congr (same : ∀ y ∈ holds, chainOf h' y.account.1 y.account.2 = chainOf h y.account.1 y.account.2) :
    charged h' holds k res = charged h holds k res := by
  refine countP_congr fun y mem => ?_
  rw [same y mem]

theorem direct_le (h : Charges) (holds : List Hold) (k : AccountRef) :
    direct holds k ≤ charged h holds k .namespaces + charged h holds k .inotifyInstances +
      charged h holds k .inotifyWatches := by
  induction holds with
  | nil => exact le_refl _
  | cons x rest ih =>
    rw [direct_cons, charged_cons, charged_cons, charged_cons]
    by_cases here : x.account = k
    · subst here
      have mem := self_mem_chainOf h x.account.1 x.account.2
      cases kind : x.resource <;> simp [mem] <;> omega
    · rw [if_neg here]
      omega

end

/-- The accounts count the holds made at them and those charged through them, which the limits keep few. -/
def Counted (h : Charges) (holds : List Hold) : Prop :=
  ∀ k a, h.accounts k = some a → a.references.toNat = direct holds k ∧
    ∀ r, (a.count r).toNat = charged h holds k r ∧ charged h holds k r ≤ 0x7fffffff

theorem Counted.congr (good : Counted h holds) (fewer : ∀ k a, h'.accounts k = some a → h.accounts k = some a)
    (chains : ∀ y ∈ holds, chainOf h' y.account.1 y.account.2 = chainOf h y.account.1 y.account.2) :
    Counted h' holds := by
  intro k a is
  obtain ⟨refs, counts⟩ := good k a (fewer k a is)
  refine ⟨refs, fun r => ?_⟩
  rw [charged_congr chains]
  exact counts r

/-- A namespace that agrees with the holds and the references there are. -/
structure Listed (next : Nat) (holds : List Hold) (pins : List SpaceRef) (s : ChargedSpace) : Prop where
  numbered : s.path ≠ [] ∧ ∀ n ∈ s.path, n < next
  parent : s.path.tail ∈ pins
  own : ∀ uid, s.charge = some uid → ⟨(s.path.tail, uid), .namespaces⟩ ∈ holds
  writer : s.writer = s.charge.isSome
  references : s.references.toNat = referred holds pins s.path ∧ 0 < referred holds pins s.path
  limits : ∀ r, s.limits r ≤ INT_MAX

/-- Tables that agree with the holds and the references there are. -/
structure Balanced (h : Charges) (holds : List Hold) (pins : List SpaceRef) : Prop where
  rows : ∀ s ∈ h.spaces.rows, Listed h.next holds pins s
  pinned : ∀ p ∈ pins, p ≠ [] → (h.spaces.find? p).isSome
  held : ∀ x ∈ holds, (h.accounts x.account).isSome ∧ (x.account.1 ≠ [] → (chargeAt h x.account.1).isSome)
  counted : Counted h holds
  limits : ∀ r, h.initialLimits r ≤ INT_MAX
  freed : ∀ a ∈ h.freed, ∀ r, a.count r = 0
  underflow : h.underflow = false

/-- Every account has a hold of its own. -/
def Alive (h : Charges) (holds : List Hold) : Prop := ∀ k, (h.accounts k).isSome → 0 < direct holds k

theorem Balanced.perm (sums : Balanced h holds pins) (sameHolds : holds.Perm holds') (samePins : pins.Perm pins') :
    Balanced h holds' pins' := by
  have referredSame : ∀ space, referred holds' pins' space = referred holds pins space := fun space => by
    rw [referred, referred, samePins.count_eq, sameHolds.countP_eq]
  refine
    { sums with
      rows := fun s mem =>
        { sums.rows s mem with
          parent := samePins.mem_iff.mp (sums.rows s mem).parent
          own := fun uid is => sameHolds.mem_iff.mp ((sums.rows s mem).own uid is)
          references := by
            rw [referredSame]
            exact (sums.rows s mem).references }
      pinned := fun p mem => sums.pinned p (samePins.mem_iff.mpr mem)
      held := fun x mem => sums.held x (sameHolds.mem_iff.mpr mem)
      counted := fun k a is => ?_ }
  have good := sums.counted k a is
  simp only [direct, charged, sameHolds.countP_eq] at good ⊢
  exact good

theorem Alive.perm (alive : Alive h holds) (same : holds.Perm holds') : Alive h holds' := fun k is => by
  rw [direct, ← same.countP_eq]
  exact alive k is

theorem find?_path (found : h.spaces.find? space = some s) : s ∈ h.spaces.rows ∧ s.path = space :=
  Table.find?_eq_some.mp found

theorem find?_of_chargeAt (charge : (chargeAt h space).isSome) : (h.spaces.find? space).isSome := by
  obtain ⟨uid, is⟩ := isSome_iff_exists.mp charge
  obtain ⟨s, found, -⟩ := bind_eq_some_iff.mp is
  rw [found]
  rfl

section

variable (sums : Balanced h holds pins)
include sums

theorem Balanced.above {above : SpaceRef} (there : (h.spaces.find? space).isSome) (suffix : above <:+ space)
    (inner : above ≠ []) :
    (h.spaces.find? above).isSome := by
  induction space with
  | nil => exact absurd (suffix_nil.mp suffix) inner
  | cons n parent ih =>
    rcases suffix_cons_iff.mp suffix with rfl | higher
    · exact there
    · obtain ⟨s, found⟩ := isSome_iff_exists.mp there
      obtain ⟨mem, path⟩ := find?_path found
      have pin := (sums.rows s mem).parent
      rw [path] at pin
      refine ih (sums.pinned parent pin ?_) higher
      rintro rfl
      exact inner (suffix_nil.mp higher)

/-- Along a chain, every account after the first has a hold of its own: the charge of the namespace below. -/
theorem Balanced.along (P : AccountRef → Prop) {uid : UInt32} (first : P (space, uid)) (paid : ∀ x ∈ holds, P x.account)
    (mem : k ∈ chainOf h space uid) : P k := by
  induction space generalizing uid with
  | nil =>
    rw [mem_singleton.mp mem]
    exact first
  | cons n parent ih =>
    rcases mem_chainOf_cons.mp mem with rfl | ⟨owner, charge, above⟩
    · exact first
    · obtain ⟨s, found, isCharge⟩ := bind_eq_some_iff.mp charge
      obtain ⟨isIn, path⟩ := find?_path found
      have own := (sums.rows s isIn).own owner isCharge
      rw [path] at own
      exact ih (paid _ own) above

theorem Balanced.chain_there {c : AccountRef} (there : (h.accounts c).isSome) :
    ∀ p ∈ chainOf h c.1 c.2, (h.accounts p).isSome :=
  fun _ => sums.along (fun p => (h.accounts p).isSome) there fun x mem => (sums.held x mem).1

theorem Balanced.direct_absent (gone : h.accounts k = none) : direct holds k = 0 := by
  by_contra some
  obtain ⟨x, mem, rfl⟩ := direct_pos.mp (pos_of_ne_zero some)
  have there := (sums.held x mem).1
  rw [gone] at there
  cases there

theorem Balanced.charged_eq_zero (none : direct holds k = 0) (res : UserResource) : charged h holds k res = 0 := by
  rw [charged, countP_eq_zero]
  intro x mem
  simp only [decide_eq_true_eq, not_and]
  intro _ through
  have held : ∀ y ∈ holds, 0 < direct holds y.account := fun y isIn => direct_pos.mpr ⟨y, isIn, rfl⟩
  have here : 0 < direct holds k := sums.along (fun k => 0 < direct holds k) (held x mem) held through
  omega

theorem Balanced.limit_le (space : SpaceRef) (res : UserResource) :
    (namespaceLimit h space res).toNat ≤ 0x7fffffff := by
  have le : namespaceLimit h space res ≤ INT_MAX := by
    unfold namespaceLimit
    split
    · exact sums.limits res
    · cases found : h.spaces.find? space with
      | none => exact UInt32.zero_le
      | some s => exact (sums.rows s (find?_path found).1).limits res
  exact le_iff_toNat_le.mp le

/-- The chains of what is held lie in namespaces that there are. -/
theorem Balanced.chain_congr (mem : x ∈ holds)
    (same : ∀ t, (h.spaces.find? t).isSome → t <:+ x.account.1 → chargeAt h' t = chargeAt h t) :
    chainOf h' x.account.1 x.account.2 = chainOf h x.account.1 x.account.2 := by
  refine chainOf_congr fun t suffix inner => same t ?_ suffix
  have outer : x.account.1 ≠ [] := by
    intro root
    rw [root] at suffix
    exact inner (suffix_nil.mp suffix)
  exact sums.above (find?_of_chargeAt ((sums.held x mem).2 outer)) suffix inner

end

section

/-- A change of a namespace that leaves it where it is. -/
structure InPlace (change : ChargedSpace → ChargedSpace) : Prop where
  path : ∀ s, (change s).path = s.path
  writer : ∀ s, (change s).writer = s.writer
  charge : ∀ s, (change s).charge = s.charge

def alter (h : Charges) (space : SpaceRef) {change : ChargedSpace → ChargedSpace} (inPlace : InPlace change) :
    Charges :=
  { h with spaces := h.spaces.update space change inPlace.path }

variable {change : ChargedSpace → ChargedSpace} (inPlace : InPlace change)

theorem alter_find (t : SpaceRef) :
    (alter h space inPlace).spaces.find? t = (h.spaces.find? t).map fun s => if t = space then change s else s := by
  rw [alter, Table.find?_update]
  split
  · rfl
  · exact Option.map_id'.symm ▸ rfl

theorem alter_mem (mem : s ∈ (alter h space inPlace).spaces.rows) :
    ∃ old ∈ h.spaces.rows, s.path = old.path ∧ s.writer = old.writer ∧ s.charge = old.charge ∧
      s = if old.path = space then change old else old := by
  rw [alter, Table.mem_update] at mem
  obtain ⟨old, pre, rfl⟩ := mem
  refine ⟨old, pre, ?_⟩
  split
  · exact ⟨inPlace.path old, inPlace.writer old, inPlace.charge old, rfl⟩
  · exact ⟨rfl, rfl, rfl, rfl⟩

theorem alter_chargeAt (t : SpaceRef) : chargeAt (alter h space inPlace) t = chargeAt h t := by
  rw [chargeAt, alter_find, chargeAt]
  cases h.spaces.find? t with
  | none => rfl
  | some s => by_cases here : t = space <;> simp [here, inPlace.charge]

theorem Balanced.alter (sums : Balanced h holds pins)
    (pinned : ∀ p ∈ pins', p ≠ [] → (h.spaces.find? p).isSome) (parents : ∀ s ∈ h.spaces.rows, s.path.tail ∈ pins')
    (here : ∀ s ∈ h.spaces.rows, s.path = space →
      ((change s).references.toNat = referred holds pins' space ∧ 0 < referred holds pins' space) ∧
        ∀ r, (change s).limits r ≤ INT_MAX)
    (others : ∀ t, t ≠ space → referred holds pins' t = referred holds pins t) :
    Balanced (alter h space inPlace) holds pins' := by
  refine { sums with rows := fun s mem => ?_, pinned := fun p mem inner => ?_, held := fun x mem => ?_, counted := ?_ }
  · obtain ⟨old, pre, path, writer, charge, is⟩ := alter_mem inPlace mem
    have listed := sums.rows old pre
    refine ⟨path ▸ listed.numbered, path ▸ parents old pre, fun uid paid => path ▸ listed.own uid (charge ▸ paid),
      by rw [writer, charge, listed.writer], ?_, ?_⟩
    · rw [path]
      by_cases same : old.path = space
      · rw [is, if_pos same, same]
        exact (here old pre same).1
      · rw [is, if_neg same, others old.path same]
        exact listed.references
    · by_cases same : old.path = space
      · rw [is, if_pos same]
        exact (here old pre same).2
      · rw [is, if_neg same]
        exact listed.limits
  · rw [alter_find, isSome_map]
    exact pinned p mem inner
  · rw [alter_chargeAt]
    exact sums.held x mem
  · exact sums.counted.congr (fun _ _ is => is) fun y _ => chainOf_congr fun t _ _ => alter_chargeAt inPlace t

theorem inPlace_references (change : UInt32 → UInt32) : InPlace fun s => { s with references := change s.references } :=
  ⟨fun _ => rfl, fun _ => rfl, fun _ => rfl⟩

theorem namespaceRetain_eq (h : Charges) (space : SpaceRef) :
    namespaceRetain h space = alter h space (inPlace_references (· + 1)) := rfl

/-- Each namespace can be given more references. -/
abbrev Room (h : Charges) (more : Nat) : Prop := ∀ s ∈ h.spaces.rows, s.references.toNat + more < 2 ^ 32

theorem Balanced.retain (sums : Balanced h holds pins) (space : SpaceRef)
    (there : space ≠ [] → (h.spaces.find? space).isSome) (room : Room h 1) :
    Balanced (namespaceRetain h space) holds (space :: pins) := by
  rw [namespaceRetain_eq]
  refine sums.alter _ (fun p mem inner => ?_) (fun s mem => mem_cons_of_mem _ (sums.rows s mem).parent)
    (fun s mem path => ⟨?_, (sums.rows s mem).limits⟩) fun t ne => ?_
  · rcases mem_cons.mp mem with rfl | isIn
    · exact there inner
    · exact sums.pinned p isIn inner
  · have good := (sums.rows s mem).references.1
    rw [path] at good
    rw [referred_cons_pin, if_pos rfl, toNat_succ (room s mem), good]
    exact ⟨rfl, succ_pos _⟩
  · rw [referred_cons_pin, if_neg (Ne.symm ne), add_zero]

theorem Balanced.unpin (sums : Balanced h holds (space :: pins)) (parents : ∀ s ∈ h.spaces.rows, s.path.tail ∈ pins)
    (more : ∀ s ∈ h.spaces.rows, s.path = space → s.references ≠ 1) :
    Balanced (UserCharges.alter h space (inPlace_references (· - 1))) holds pins := by
  refine sums.alter _ (fun p mem => sums.pinned p (mem_cons_of_mem _ mem)) parents
    (fun s mem path => ⟨?_, (sums.rows s mem).limits⟩) fun t ne => ?_
  · have good := (sums.rows s mem).references.1
    have several := more s mem path
    rw [path, referred_cons_pin, if_pos rfl] at good
    have pos : referred holds pins space ≠ 0 := by
      intro none
      rw [none] at good
      exact several (UInt32.toNat_inj.mp good)
    have one : (1 : UInt32) ≤ s.references := le_iff_toNat_le.mpr (by rw [good]; exact le_add_left 1 _)
    refine ⟨?_, pos_of_ne_zero pos⟩
    rw [UInt32.toNat_sub_of_le _ _ one, good]
    rfl
  · rw [referred_cons_pin, if_neg (Ne.symm ne), add_zero]

theorem Balanced.initial (sums : Balanced h holds pins) (inner : ∀ p ∈ pins', p ≠ [] → p ∈ pins)
    (parents : ∀ s ∈ h.spaces.rows, s.path.tail ∈ pins')
    (same : ∀ t, t ≠ [] → referred holds pins' t = referred holds pins t) :
    Balanced h holds pins' :=
  { sums with
    rows := fun s mem =>
      { sums.rows s mem with
        parent := parents s mem
        references := by
          rw [same s.path (sums.rows s mem).numbered.1]
          exact (sums.rows s mem).references }
    pinned := fun p mem other => sums.pinned p (inner p mem other) other }

theorem referred_initial {t : SpaceRef} (inner : t ≠ []) : referred holds ([] :: pins) t = referred holds pins t := by
  rw [referred_cons_pin, if_neg (Ne.symm inner), add_zero]

/-- The last reference to a namespace is gone, and the namespace with it. -/
theorem Balanced.remove (sums : Balanced h holds (space :: pins)) (parents : ∀ s ∈ h.spaces.rows, s.path.tail ∈ pins)
    (last : referred holds pins space = 0) :
    Balanced { h with spaces := h.spaces.remove fun s => s.path = space } holds pins := by
  obtain ⟨unpinned, unheld⟩ : pins.count space = 0 ∧ (holds.countP fun x => x.account.1 = space) = 0 := by
    rw [referred] at last
    omega
  have away : ∀ x ∈ holds, x.account.1 ≠ space := by
    intro x mem
    simpa using countP_eq_zero.mp unheld x mem
  have find : ∀ t, t ≠ space → (h.spaces.remove fun s => s.path = space).find? t = h.spaces.find? t := by
    intro t ne
    rw [Table.find?_remove]
    cases found : h.spaces.find? t with
    | none => rfl
    | some s =>
      have path := (find?_path found).2
      simp [path, ne]
  have chargeSame : ∀ t, t ≠ space →
      chargeAt { h with spaces := h.spaces.remove fun s => s.path = space } t = chargeAt h t := by
    intro t ne
    unfold chargeAt
    rw [find t ne]
  -- nothing that is held lies below the namespace, or it would be the parent of something
  have below : ∀ t, (h.spaces.find? t).isSome → t ≠ space → ¬ space <:+ t := by
    intro t there ne suffix
    induction t with
    | nil => exact ne (suffix_nil.mp suffix).symm
    | cons n parent ih =>
      rcases suffix_cons_iff.mp suffix with same | higher
      · exact ne same.symm
      · obtain ⟨s, found⟩ := isSome_iff_exists.mp there
        obtain ⟨mem, path⟩ := find?_path found
        have pin := parents s mem
        rw [path] at pin
        by_cases here : parent = space
        · rw [here] at pin
          exact (count_eq_zero.mp unpinned) pin
        · refine ih (sums.pinned parent (mem_cons_of_mem _ pin) ?_) here higher
          rintro rfl
          exact here (suffix_nil.mp higher).symm
  have chains :
    ∀ x ∈ holds, chainOf { h with spaces := h.spaces.remove fun s => s.path = space } x.account.1 x.account.2 =
      chainOf h x.account.1 x.account.2 := by
    intro x mem
    refine sums.chain_congr mem fun t there suffix => chargeSame t ?_
    rintro rfl
    have outer : x.account.1 ≠ [] := by
      intro root
      rw [root] at suffix
      obtain ⟨s, found⟩ := isSome_iff_exists.mp there
      obtain ⟨isIn, path⟩ := find?_path found
      rw [suffix_nil.mp suffix] at path
      exact (sums.rows s isIn).numbered.1 path
    exact below _ (find?_of_chargeAt ((sums.held x mem).2 outer)) (away x mem) suffix
  refine { sums with rows := fun s mem => ?_, pinned := fun p mem inner => ?_, held := fun x mem => ?_, counted := ?_ }
  · obtain ⟨old, other⟩ := Table.mem_remove.mp mem
    have ne : space ≠ s.path := fun same => by simp [same] at other
    have good := (sums.rows s old).references
    rw [referred_cons_pin, if_neg ne, add_zero] at good
    exact { sums.rows s old with parent := parents s old, references := good }
  · rw [find p fun same => (count_eq_zero.mp unpinned) (same ▸ mem)]
    exact sums.pinned p (mem_cons_of_mem _ mem) inner
  · rw [chargeSame _ (away x mem)]
    exact sums.held x mem
  · exact sums.counted.congr (fun _ _ is => is) chains

end

variable {parent : SpaceRef}

theorem Balanced.next_fresh (sums : Balanced h holds pins) (parent : SpaceRef) :
    h.spaces.find? (h.next :: parent) = none := by
  refine Table.find?_eq_none.mpr fun s mem same => ?_
  have below := (sums.rows s mem).numbered.2 h.next (same ▸ mem_cons_self)
  omega

theorem addSpace_rows (fresh : h.spaces.find? (h.next :: parent) = none) (writer : Bool) (charge : Option UInt32) :
    (addSpace h parent writer charge).spaces.rows =
      { path := h.next :: parent, writer := writer, charge := charge } :: h.spaces.rows := by
  have others := Table.find?_eq_none.mp fresh
  rw [addSpace, Table.put]
  dsimp only
  rw [filter_eq_self.mpr fun s mem => by simpa using others s mem]

/-- A namespace of its own number, with a reference and a charge for its parent. -/
theorem Balanced.addSpace (sums : Balanced h holds pins) (charge : Option UInt32) (pin : parent ∈ pins)
    (own : ∀ uid, charge = some uid → ⟨(parent, uid), .namespaces⟩ ∈ holds) :
    Balanced (addSpace h parent charge.isSome charge) holds ((h.next :: parent) :: pins) := by
  have fresh := sums.next_fresh parent
  have rows : ∀ s ∈ (UserCharges.addSpace h parent charge.isSome charge).spaces.rows,
      s = { path := h.next :: parent, writer := charge.isSome, charge := charge } ∨ s ∈ h.spaces.rows := by
    intro s mem
    rw [addSpace_rows fresh] at mem
    exact mem_cons.mp mem
  have find : ∀ t, t ≠ h.next :: parent →
      (UserCharges.addSpace h parent charge.isSome charge).spaces.find? t = h.spaces.find? t := by
    intro t ne
    rw [UserCharges.addSpace, Table.find?_put, if_neg (Ne.symm ne)]
  have chargeSame : ∀ t, t ≠ h.next :: parent →
      chargeAt (UserCharges.addSpace h parent charge.isSome charge) t = chargeAt h t := by
    intro t ne
    rw [chargeAt, find t ne, chargeAt]
  have old : ∀ t, (h.spaces.find? t).isSome → t ≠ h.next :: parent := by
    rintro t there rfl
    rw [fresh] at there
    cases there
  have heldOld : ∀ x ∈ holds, x.account.1 ≠ h.next :: parent := by
    rintro x mem same
    have charges := (sums.held x mem).2 (same ▸ cons_ne_nil _ _)
    rw [chargeAt, same, fresh] at charges
    cases charges
  refine { sums with rows := fun s mem => ?_, pinned := fun p mem inner => ?_, held := fun x mem => ?_, counted := ?_ }
  · rcases rows s mem with rfl | pre
    · refine ⟨⟨cons_ne_nil _ _, fun n isIn => ?_⟩, mem_cons_of_mem _ pin, own, rfl, ?_, fun _ => UInt32.le_refl _⟩
      · rcases mem_cons.mp isIn with rfl | higher
        · exact lt_succ_self _
        · have inner : parent ≠ [] := ne_nil_of_mem higher
          obtain ⟨s, found⟩ := isSome_iff_exists.mp (sums.pinned parent pin inner)
          obtain ⟨there, path⟩ := find?_path found
          exact lt_succ_of_lt ((sums.rows s there).numbered.2 n (path ▸ higher))
      · have unpinned : pins.count (h.next :: parent) = 0 := by
          rw [count_eq_zero]
          exact fun isIn => old _ (sums.pinned _ isIn (cons_ne_nil _ _)) rfl
        have unheld : (holds.countP fun x => x.account.1 = h.next :: parent) = 0 := by
          rw [countP_eq_zero]
          intro x isIn
          simpa using heldOld x isIn
        rw [referred_cons_pin, if_pos rfl, referred, unpinned, unheld]
        exact ⟨rfl, one_pos⟩
    · have listed := sums.rows s pre
      have ne : h.next :: parent ≠ s.path := fun same => old s.path (by rw [Table.find?_of_mem pre]; rfl) same.symm
      refine
        { listed with
          numbered := ⟨listed.numbered.1, fun n isIn => lt_succ_of_lt (listed.numbered.2 n isIn)⟩
          parent := mem_cons_of_mem _ listed.parent
          references := ?_ }
      rw [referred_cons_pin, if_neg ne, add_zero]
      exact listed.references
  · rcases mem_cons.mp mem with rfl | pre
    · rw [UserCharges.addSpace, Table.find?_put, if_pos rfl]
      rfl
    · have there := sums.pinned p pre inner
      rwa [find p (old p there)]
  · obtain ⟨account, charges⟩ := sums.held x mem
    refine ⟨account, fun inner => ?_⟩
    rw [chargeSame _ (heldOld x mem)]
    exact charges inner
  · refine sums.counted.congr (fun _ _ is => is) fun x mem => ?_
    exact sums.chain_congr mem fun t there _ => chargeSame t (old t there)

end Shroot.UserCharges
