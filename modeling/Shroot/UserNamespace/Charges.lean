import Shroot.General.Tables
import Shroot.Errno

namespace Shroot.UserCharges

open General Function UInt32

variable {k : AccountRef}

inductive UserResource where
  | namespaces | inotifyInstances | inotifyWatches
  deriving DecidableEq

def INT_MAX : UInt32 := 0x7fffffff
def MD_USER_NAMESPACE_DEPTH : Nat := 33
def MD_USER_DEFAULT_INOTIFY_INSTANCES : UInt32 := 128
def MD_USER_DEFAULT_INOTIFY_WATCHES : UInt32 := 8192

/-- A pointer to a namespace, with those its parent links lead to. The empty list is `NULL`, the initial one. -/
abbrev SpaceRef := List Nat

/-- A pointer to an account: its namespace and its user. -/
abbrev AccountRef := SpaceRef × UInt32

structure UserCharge where
  count : UserResource → UInt32 := fun _ => 0
  references : UInt64 := 0

/-- What charges need of `struct md_user_namespace`. Its own charge is at an account of its parent, given
by the user. -/
structure ChargedSpace where
  path : SpaceRef
  references : UInt32 := 1
  writer : Bool
  limits : UserResource → UInt32 := fun _ => INT_MAX
  charge : Option UInt32 := none

/-- The accounts and the namespaces. `freed` and `underflow` say what happened: the accounts that were freed,
as they were then, and whether a count of zero was decremented. -/
structure Charges where
  spaces : Table ChargedSpace.path := .empty
  initialLimits : UserResource → UInt32 := fun
    | .namespaces => INT_MAX
    | .inotifyInstances => MD_USER_DEFAULT_INOTIFY_INSTANCES
    | .inotifyWatches => MD_USER_DEFAULT_INOTIFY_WATCHES
  accounts : AccountRef → Option UserCharge := fun _ => none
  next : Nat := 0
  freed : List UserCharge := []
  underflow : Bool := false

variable (h : Charges) (space : SpaceRef)

def namespaceLimit (resource : UserResource) : UInt32 :=
  if space = [] then h.initialLimits resource else ((h.spaces.find? space).map fun s => s.limits resource).getD 0

def namespaceSetLimit (resource : UserResource) (limit : UInt32) : Charges × Option Errno :=
  if limit > INT_MAX then (h, some .EINVAL)
  else if space = [] then ({ h with initialLimits := update h.initialLimits resource limit }, none)
  else
    match h.spaces.find? space with
    | none => (h, none)
    | some s =>
      if s.writer = false then (h, some .EPERM)
      else
        ({ h with spaces := h.spaces.update space (fun s =>
          { s with limits := update s.limits resource limit }) fun _ => rfl }, none)

def chargeAt : Option UInt32 := (h.spaces.find? space).bind ChargedSpace.charge

/-- An account and those that `count_parent` leads to. -/
def chainOf (h : Charges) : SpaceRef → UInt32 → List AccountRef
  | [], uid => [([], uid)]
  | n :: parent, uid => (n :: parent, uid) :: (chargeAt h (n :: parent)).elim [] (chainOf h parent)

variable (c : AccountRef)

def countOf (resource : UserResource) : UInt32 := ((h.accounts c).map fun a => a.count resource).getD 0

def recount (change : UInt32 → UInt32) (resource : UserResource) (h : Charges) (c : AccountRef) : Charges :=
  { h with accounts := update h.accounts c ((h.accounts c).map fun a =>
      { a with count := update a.count resource (change (a.count resource)) }) }

def increment (resource : UserResource) (h : Charges) (c : AccountRef) : Charges := recount (· + 1) resource h c

def decrement (resource : UserResource) (h : Charges) (c : AccountRef) : Charges :=
  { recount (· - 1) resource h c with underflow := h.underflow || countOf h c resource == 0 }

def countRemove : Charges := { h with accounts := update h.accounts c none, freed := (h.accounts c).toList ++ h.freed }

def namespaceRetain : Charges :=
  { h with spaces := h.spaces.update space (fun s => { s with references := s.references + 1 }) fun _ => rfl }

/-- Counts up until an account is full, which is then the result. -/
def countClimb (resource : UserResource) : List AccountRef → Charges → Charges × Option AccountRef
  | [], h => (h, none)
  | p :: rest, h =>
    if namespaceLimit h p.1 resource ≤ countOf h p resource then (h, some p)
    else countClimb resource rest (increment resource h p)

def referTo (change : UInt64 → UInt64) (h : Charges) (c : AccountRef) : Charges :=
  { h with accounts := update h.accounts c ((h.accounts c).map fun a => { a with references := change a.references }) }

/-- `count_add`. What is counted does not change where the chain leads. -/
def countAdd (resource : UserResource) : Charges × Option Errno :=
  let chain := chainOf h c.1 c.2
  match countClimb resource chain h with
  | (climbed, some bad) => ((chain.takeWhile (· ≠ bad)).foldl (decrement resource) climbed, some .ENOSPC)
  | (climbed, none) => (namespaceRetain (referTo (· + 1) climbed c) c.1, none)

/-- `md_user_charge_acquire`; `memory` says whether an account can be allocated. -/
def chargeAcquire (uid : UInt32) (resource : UserResource) (memory : Bool) : Charges × Option Errno :=
  if uid = 0xffffffff then (h, some .EINVAL)
  else if (h.spaces.find? space).any (fun s => !s.writer) then (h, some .EOPNOTSUPP)
  else if h.accounts (space, uid) = none ∧ memory = false then (h, some .ENOMEM)
  else
    let h :=
      if (h.accounts (space, uid)).isNone then { h with accounts := update h.accounts (space, uid) (some {}) } else h
    match countAdd h (space, uid) resource with
    | (h, some error) =>
      (if (h.accounts (space, uid)).any (fun a => a.references = 0) then countRemove h (space, uid) else h, some error)
    | (h, none) => (h, none)

def chargeAdd (resource : UserResource) : Charges × Option Errno := countAdd h c resource

/-- What `md_user_charge_release` does under its lock. -/
def chargeDrop (resource : UserResource) : Charges :=
  let h := referTo (· - 1) ((chainOf h c.1 c.2).foldl (decrement resource) h) c
  if (h.accounts c).any (fun a => a.references = 0) then countRemove h c else h

/-- `md_user_namespace_release`. A namespace nobody refers to goes before what it held. -/
def namespaceRelease : SpaceRef → Charges → Charges
  | [], h => h
  | n :: parent, h =>
    match h.spaces.find? (n :: parent) with
    | none => h
    | some s =>
      if s.references ≠ 1 then
        { h with spaces := h.spaces.update (n ::
          parent) (fun s => { s with references := s.references - 1 }) fun _ => rfl }
      else
        let h := { h with spaces := h.spaces.remove fun s => s.path = n :: parent }
        let h := s.charge.elim h fun uid => namespaceRelease parent (chargeDrop h (parent, uid) .namespaces)
        namespaceRelease parent h

def chargeRelease (resource : UserResource) : Charges := namespaceRelease c.1 (chargeDrop h c resource)

def addSpace (parent : SpaceRef) (writer : Bool) (charge : Option UInt32) : Charges :=
  { h with spaces := h.spaces.put { path := h.next :: parent, writer := writer, charge := charge }, next := h.next + 1 }

/-- `md_user_namespace_new`. `page` is the error of a user or group that the parent does not map, or of the
policy page. -/
def namespaceNew (parent : SpaceRef) (owner group : UInt32) (page : Option Errno) (memory : Bool) :
    Charges × Except Errno SpaceRef :=
  if parent.length ≥ MD_USER_NAMESPACE_DEPTH then (h, .error .ENOSPC)
  else if owner = 0xffffffff ∨ group = 0xffffffff then (h, .error .EINVAL)
  else
    match page with
    | some error => (h, .error error)
    | none =>
      let h := namespaceRetain h parent
      match chargeAcquire h parent owner .namespaces memory with
      | (h, some error) => (namespaceRelease parent h, .error error)
      | (h, none) => (addSpace h parent true (some owner), .ok (h.next :: parent))

/-- `md_user_namespace_import`, of so many pages: read-only namespaces, each the parent of the next. -/
def namespaceImport : Nat → SpaceRef → Charges → Charges × SpaceRef
  | 0, parent, h => (h, parent)
  | count + 1, parent, h => namespaceImport count (h.next :: parent) (addSpace h parent false none)

/-- A charge that has not been released. -/
structure Hold where
  account : AccountRef
  resource : UserResource
  deriving DecidableEq

/-- The charges and the references that callers have. -/
structure Outstanding where
  holds : List Hold := []
  pins : List SpaceRef := []

inductive ChargeEvent where
  | acquire (space : SpaceRef) (uid : UInt32) (resource : UserResource) (memory : Bool)
  | add (account : AccountRef) (resource : UserResource)
  | release (hold : Hold)
  | new (parent : SpaceRef) (owner group : UInt32) (page : Option Errno) (memory : Bool)
  | imported (count : Nat)
  | retain (space : SpaceRef)
  | drop (space : SpaceRef)
  | setLimit (space : SpaceRef) (resource : UserResource) (limit : UInt32)

def present : Bool := space = [] ∨ (h.spaces.find? space).isSome

local instance : LawfulBEq SpaceRef := inferInstance

/-- A call about a namespace or an account that there is, or a release of what a caller has. -/
def happen (world : Charges × Outstanding) (event : ChargeEvent) : Charges × Outstanding :=
  let (h, o) := world
  match event with
  | .acquire space uid resource memory =>
    if present h space then
      match chargeAcquire h space uid resource memory with
      | (h, none) => (h, { o with holds := ⟨(space, uid), resource⟩ :: o.holds })
      | (h, some _) => (h, o)
    else (h, o)
  | .add account resource =>
    if (h.accounts account).isSome then
      match chargeAdd h account resource with
      | (h, none) => (h, { o with holds := ⟨account, resource⟩ :: o.holds })
      | (h, some _) => (h, o)
    else (h, o)
  | .release hold =>
    if hold ∈ o.holds then (chargeRelease h hold.account hold.resource, { o with holds := o.holds.erase hold })
    else (h, o)
  | .new parent owner group page memory =>
    if present h parent then
      match namespaceNew h parent owner group page memory with
      | (h, .ok space) => (h, { o with pins := space :: o.pins })
      | (h, .error _) => (h, o)
    else (h, o)
  | .imported count =>
    if count ≤ MD_USER_NAMESPACE_DEPTH then
      let (h, space) := namespaceImport count [] h
      (h, { o with pins := space :: o.pins })
    else (h, o)
  | .retain space => if present h space then (namespaceRetain h space, { o with pins := space :: o.pins }) else (h, o)
  | .drop space => if space ∈ o.pins then (namespaceRelease space h, { o with pins := o.pins.erase space }) else (h, o)
  | .setLimit space resource limit => ((namespaceSetLimit h space resource limit).1, o)

open List

section

variable {h h' : Charges} {space : SpaceRef} {uid : UInt32}

theorem self_mem_chainOf (h : Charges) (space : SpaceRef) (uid : UInt32) : (space, uid) ∈ chainOf h space uid := by
  cases space with
  | nil => exact mem_singleton.mpr rfl
  | cons n parent => exact mem_cons_self

theorem mem_chainOf_cons {n : Nat} :
    k ∈ chainOf h (n :: space) uid ↔ k = (n :: space, uid) ∨ ∃ owner, chargeAt h (n :: space) = some owner ∧
      k ∈ chainOf h space owner := by
  rw [chainOf, mem_cons]
  cases chargeAt h (n :: space) <;> simp

theorem suffix_of_mem_chainOf (mem : k ∈ chainOf h space uid) : k.1 <:+ space := by
  induction space generalizing uid with
  | nil => rw [mem_singleton.mp mem]
  | cons n parent ih =>
    rcases mem_chainOf_cons.mp mem with rfl | ⟨owner, -, above⟩
    · exact suffix_refl _
    · exact (ih above).trans (suffix_cons n parent)

theorem chainOf_nodup (h : Charges) (space : SpaceRef) (uid : UInt32) : (chainOf h space uid).Nodup := by
  induction space generalizing uid with
  | nil => exact nodup_singleton _
  | cons n parent ih =>
    rw [chainOf]
    cases chargeAt h (n :: parent) with
    | none => exact nodup_singleton _
    | some owner =>
      refine nodup_cons.mpr ⟨fun mem => ?_, ih owner⟩
      have longer := (suffix_of_mem_chainOf mem).length_le
      rw [length_cons] at longer
      omega

/-- A chain depends on who pays for the namespaces on its way. -/
theorem chainOf_congr (same : ∀ t, t <:+ space → t ≠ [] → chargeAt h' t = chargeAt h t) :
    chainOf h' space uid = chainOf h space uid := by
  induction space generalizing uid with
  | nil => rfl
  | cons n parent ih =>
    have above : ∀ owner, chainOf h' parent owner = chainOf h parent owner := fun owner =>
      ih fun t suffix => same t (suffix.trans (suffix_cons n parent))
    rw [chainOf, chainOf, same _ (suffix_refl _) (cons_ne_nil n parent), funext above]

end

section

theorem toNat_succ {n : UInt32} (small : n.toNat + 1 < 2 ^ 32) : (n + 1).toNat = n.toNat + 1 := by
  exact Nat.mod_eq_of_lt small

variable {h : Charges} {kind : UserResource} {list : List AccountRef}
variable {accounts : AccountRef → Option UserCharge} {change : UInt32 → UInt32}

def UserCharge.recount (change : UInt32 → UInt32) (kind : UserResource) (a : UserCharge) : UserCharge :=
  { a with count := update a.count kind (change (a.count kind)) }

def recounted (change : UInt32 → UInt32) (kind : UserResource) (list : List AccountRef)
    (accounts : AccountRef → Option UserCharge) :
    AccountRef → Option UserCharge :=
  fun k => if k ∈ list then (accounts k).map (UserCharge.recount change kind) else accounts k

theorem recounted_of_mem (mem : k ∈ list) :
    recounted change kind list accounts k = (accounts k).map (UserCharge.recount change kind) := if_pos mem

theorem recounted_of_not_mem (other : k ∉ list) : recounted change kind list accounts k = accounts k := if_neg other

theorem recounted_cons {p : AccountRef} (fresh : p ∉ list) :
    recounted change kind list (update accounts p ((accounts p).map (UserCharge.recount change kind))) =
      recounted change kind (p :: list) accounts := by
  funext k
  unfold recounted
  by_cases here : k = p
  · subst here
    simp [fresh]
  · simp [here]

theorem foldl_increment (distinct : list.Nodup) :
    list.foldl (increment kind) h = { h with accounts := recounted (· + 1) kind list h.accounts } := by
  induction list generalizing h with
  | nil => rfl
  | cons p rest ih =>
    obtain ⟨fresh, distinct⟩ := nodup_cons.mp distinct
    rw [foldl_cons, ih distinct, ← recounted_cons fresh]
    rfl

theorem foldl_decrement (distinct : list.Nodup) :
    list.foldl (decrement kind) h = { h with
      accounts := recounted (· - 1) kind list h.accounts
      underflow := h.underflow || list.any fun c => countOf h c kind == 0 } := by
  induction list generalizing h with
  | nil =>
    rw [any_nil, Bool.or_false]
    rfl
  | cons p rest ih =>
    obtain ⟨fresh, distinct⟩ := nodup_cons.mp distinct
    have others : ∀ c ∈ rest, countOf (decrement kind h p) c kind = countOf h c kind := by
      intro c mem
      have ne : c ≠ p := fun same => fresh (same ▸ mem)
      unfold countOf decrement UserCharges.recount
      simp [ne]
    have rest_any : (rest.any fun c => countOf (decrement kind h p) c kind == 0) =
        rest.any fun c => countOf h c kind == 0 := by
      rw [any_eq, any_eq]
      congr 1
      refine propext (exists_congr fun c => and_congr_right fun mem => ?_)
      rw [others c mem]
    rw [foldl_cons, ih distinct, rest_any, any_cons, ← Bool.or_assoc, ← recounted_cons fresh]
    rfl

/-- Counting up ends at an account that is full, or at the end of the chain. -/
theorem countClimb_spec (h : Charges) (kind : UserResource) (distinct : list.Nodup) :
    (countClimb kind list h = (list.foldl (increment kind) h, none) ∧
      ∀ p ∈ list, countOf h p kind < namespaceLimit h p.1 kind) ∨
    ∃ before bad after, list = before ++ bad :: after ∧
      countClimb kind list h = (before.foldl (increment kind) h, some bad) ∧
      (∀ p ∈ before, countOf h p kind < namespaceLimit h p.1 kind) ∧
        namespaceLimit h bad.1 kind ≤ countOf h bad kind := by
  induction list generalizing h with
  | nil => exact .inl ⟨rfl, nofun⟩
  | cons p rest ih =>
    obtain ⟨fresh, distinct⟩ := nodup_cons.mp distinct
    by_cases full : namespaceLimit h p.1 kind ≤ countOf h p kind
    · refine .inr ⟨[], p, rest, rfl, ?_, nofun, full⟩
      rw [countClimb, if_pos full]
      rfl
    · have others : ∀ c, c ≠ p → countOf (increment kind h p) c kind = countOf h c kind := by
        intro c ne
        unfold countOf increment UserCharges.recount
        simp [ne]
      have room : countOf h p kind < namespaceLimit h p.1 kind := UInt32.not_le.mp full
      rw [countClimb, if_neg full]
      rcases ih (increment kind h p) distinct with ⟨climbed, below⟩ | ⟨before, bad, after, rfl, climbed, below, isFull⟩
      · refine .inl ⟨climbed, fun q mem => ?_⟩
        rcases mem_cons.mp mem with rfl | isIn
        · exact room
        · rw [← others q fun same => fresh (same ▸ isIn)]
          exact below q isIn
      · refine .inr ⟨p :: before, bad, after, rfl, climbed, fun q mem => ?_, ?_⟩
        · rcases mem_cons.mp mem with rfl | isIn
          · exact room
          · rw [← others q fun same => fresh (mem_append_left _ (same ▸ isIn))]
            exact below q isIn
        · rw [← others bad fun same => fresh (mem_append_right _ (same ▸ mem_cons_self))]
          exact isFull

/-- What was counted up is counted down again. -/
theorem foldl_decrement_increment (nodup : list.Nodup) (alive : ∀ p ∈ list, (h.accounts p).isSome)
    (room : ∀ p ∈ list, countOf h p kind < namespaceLimit h p.1 kind) :
    list.foldl (decrement kind) (list.foldl (increment kind) h) = h := by
  rw [foldl_increment nodup, foldl_decrement nodup]
  have good : ∀ p ∈ list, (countOf { h with accounts := recounted (· + 1) kind list h.accounts } p kind == 0) =
      false := by
    intro p mem
    obtain ⟨a, is⟩ := Option.isSome_iff_exists.mp (alive p mem)
    have below := room p mem
    have val : countOf h p kind = a.count kind := by rw [countOf, is]; rfl
    rw [val] at below
    unfold countOf
    dsimp only
    rw [recounted_of_mem mem, is]
    simp only [Option.map_some, UserCharge.recount, update_self, Option.getD_some, beq_eq_false_iff_ne]
    intro wraps
    have next := congrArg toNat wraps
    have bound := lt_iff_toNat_lt.mp below
    have size := (namespaceLimit h p.1 kind).toNat_lt
    rw [toNat_succ (by omega)] at next
    cases next
  have same : (list.any fun c => countOf { h with accounts := recounted (· + 1) kind list h.accounts } c kind == 0) =
      false := by
    rw [any_eq_false]
    intro p mem
    rw [good p mem]
    exact Bool.false_ne_true
  have accounts : recounted (· - 1) kind list (recounted (· + 1) kind list h.accounts) = h.accounts := by
    funext k
    by_cases mem : k ∈ list
    · rw [recounted_of_mem mem, recounted_of_mem mem, Option.map_map]
      cases h.accounts k with
      | none => rfl
      | some a => simp [UserCharge.recount]
    · rw [recounted_of_not_mem mem, recounted_of_not_mem mem]
  rw [same, Bool.or_false, accounts]

/-- A charge is made at every level or at none. -/
theorem countAdd_spec (h : Charges) (c : AccountRef) (kind : UserResource)
    (alive : ∀ p ∈ chainOf h c.1 c.2, (h.accounts p).isSome) :
    (countAdd h c kind =
      (namespaceRetain (referTo (· + 1) ((chainOf h c.1 c.2).foldl (increment kind) h) c) c.1, none) ∧
      ∀ p ∈ chainOf h c.1 c.2, countOf h p kind < namespaceLimit h p.1 kind) ∨
    (countAdd h c kind = (h, some .ENOSPC) ∧
      ∃ p ∈ chainOf h c.1 c.2, namespaceLimit h p.1 kind ≤ countOf h p kind) := by
  have distinct := chainOf_nodup h c.1 c.2
  rcases countClimb_spec h kind distinct with ⟨climbed, below⟩ | ⟨old, bad, new, split, climbed, below, full⟩
  · refine .inl ⟨?_, below⟩
    unfold countAdd
    simp only [climbed]
  · refine .inr ⟨?_, bad, split ▸ mem_append_right _ mem_cons_self, full⟩
    have fresh : bad ∉ old := by
      rw [split] at distinct
      intro mem
      exact (nodup_append.mp distinct).2.2 bad mem bad mem_cons_self rfl
    have undone : (chainOf h c.1 c.2).takeWhile (· ≠ bad) = old := by
      rw [split, takeWhile_append_of_pos]
      · simp
      · intro p mem
        simpa using fun same : p = bad => fresh (same ▸ mem)
    unfold countAdd
    simp only [climbed, undone]
    rw [foldl_decrement_increment]
    · exact ((split ▸ distinct : (old ++ bad :: new).Nodup).sublist (sublist_append_left _ _))
    · exact fun p mem => alive p (split ▸ mem_append_left _ mem)
    · exact below

end

/-- How many of the holds are charged at an account. -/
def charged (h : Charges) (holds : List Hold) (k : AccountRef) (res : UserResource) : Nat :=
  holds.countP fun x => x.resource = res ∧ k ∈ chainOf h x.account.1 x.account.2

end Shroot.UserCharges
