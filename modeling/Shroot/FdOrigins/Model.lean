import Shroot.Errno
import Shroot.General.Checks
import Shroot.General.Threads
import Shroot.General.Tables

namespace Shroot.FdOrigins

open General Function Nat

section

section

def FD_CLOEXEC : UInt32 := 1

abbrev ChannelId := Nat
abbrev LoanId := Nat
abbrev EntryId := Nat
abbrev SlotId := Nat

/-- `struct md_fd_object` with what its type says of it. -/
structure FdObject where
  id : Nat
  readiness : Bool
  selectors : UInt32

/-- `struct md_fd_loan_slot`; its links are in the ledger of its table. -/
structure LoanSlot where
  id : SlotId
  owner : LoanId

/-- `struct md_fd_origin_entry`; its place in a chain is its link. -/
structure Entry where
  id : EntryId
  object : Option FdObject := none
  channel : Option ChannelId := none
  loan : Option LoanSlot := none
  fd : UInt32 := 0
  flags : UInt32 := 0
  uncertain : Bool := false

/-- What a table keeps of its entries besides their chains: how many have a readiness type, and the list of loans. -/
structure Ledger where
  readiness : UInt32 := 0
  loans : UInt32 := 0
  threads : Threads SlotId := .empty
  entry : SlotId → Option EntryId := fun _ => none

def Entry.ready (e : Entry) : Bool := e.object.any FdObject.readiness

def entryLink (ledger : Ledger) (e : Entry) : Ledger :=
  let ledger := if e.ready then { ledger with readiness := ledger.readiness + 1 } else ledger
  match e.loan with
  | none => ledger
  | some slot =>
    { ledger with
      entry := update ledger.entry slot.id (some e.id)
      threads := ledger.threads.push slot.id
      loans := ledger.loans + 1 }

def entryUnlink (ledger : Ledger) (e : Entry) : Ledger :=
  let ledger := if e.ready then { ledger with readiness := ledger.readiness - 1 } else ledger
  match e.loan with
  | none => ledger
  | some slot => { ledger with threads := ledger.threads.unlink slot.id, loans := ledger.loans - 1 }

abbrev UINT64_MAX : UInt64 := 0xffffffffffffffff

abbrev Chains := Fin 61 → List Entry

/-- `struct md_fd_origins`. `nextId` is what an allocation gives next. -/
structure Origins where
  buckets : Option Chains := none
  ledger : Ledger := {}
  generation : UInt64 := 1
  owners : UInt32 := 1
  nextId : Nat := 0

def bucketOf (fd : UInt32) : Fin 61 := ⟨fd.toNat % 61, mod_lt _ (by decide)⟩

variable (t : Origins)

def slot (fd : UInt32) : Option Entry := t.buckets.bind fun chains => (chains (bucketOf fd)).find? (·.fd == fd)

def changed : Origins := if t.generation ≠ UINT64_MAX then { t with generation := t.generation + 1 } else t

/-- A chain with another entry, or none, where the one of the descriptor is or would be. -/
def replaceEntry (fd : UInt32) (entry : Option Entry) : List Entry → List Entry
  | [] => entry.toList
  | e :: rest => if e.fd = fd then entry.toList ++ rest else e :: replaceEntry fd entry rest

/-- The table and the entry that is no longer in it. -/
def install (entry : Option Entry) (fd : UInt32) : Origins × Option Entry :=
  let t := changed t
  match t.buckets with
  | none => (t, none)
  | some chains =>
    let retired := slot t fd
    let ledger := retired.elim t.ledger (entryUnlink t.ledger)
    let ledger := entry.elim ledger (entryLink ledger)
    let chain := replaceEntry fd (entry.map fun e => { e with fd := fd }) (chains (bucketOf fd))
    ({ t with buckets := some (update chains (bucketOf fd) chain), ledger := ledger }, retired)

/-- What an update says of a descriptor. -/
structure Origin where
  object : Option FdObject := none
  channel : Option ChannelId := none
  loan : Option LoanId := none
  flags : UInt32 := 0
  uncertain : Bool := false

/-- An update with its entry, and the chains it may need. An update without an entry removes one. -/
def prepare (origin : Option Origin) : Origins × Option Entry :=
  match origin with
  | none => (t, none)
  | some o =>
    ({ t with buckets := some (t.buckets.getD fun _ => []), nextId := t.nextId + 2 },
      some
        { id := t.nextId, object := o.object, channel := o.channel, flags := o.flags, uncertain := o.uncertain
          loan := o.loan.map fun owner => ⟨t.nextId + 1, owner⟩ })

/-- `md_fd_origins_finish_closed`. A negative result discards the update. -/
def finish (update : Option Entry) (result : Int32) : Origins :=
  if 0 ≤ result then (install t update result.toUInt32).1 else t

def abandon (update : Option Entry) : Origins := finish (changed t) update (-1)

/-- `md_fd_origins_finish_batch`, with the numbers that were received. -/
def finishBatch (updates : List (Option Entry)) (fds : List Int32) : Except Errno Origins := do
  failIf (fds.length > updates.length) .EINVAL
  failIf (∃ fd ∈ fds, fd < 0) .EPROTO
  failIf (¬ fds.Nodup) .EPROTO
  return (updates.zip fds).foldl (fun t update => (install t update.1 update.2.toUInt32).1) t

def prepareBatch (t : Origins) : List (Option Origin) → Origins × List (Option Entry)
  | [] => (t, [])
  | origin :: rest =>
    let first := prepare t origin
    let more := prepareBatch first.1 rest
    (more.1, first.2 :: more.2)

def modifyEntry (fd : UInt32) (change : Entry → Entry) : Origins :=
  match slot t fd with
  | none => t
  | some e =>
    { t with buckets := t.buckets.map fun chains => update chains (bucketOf fd) (replaceEntry fd (some (change e))
      (chains (bucketOf fd))) }

def setFlags (fd : Int32) (flags : UInt32) : Except Errno Origins := do
  failIf (fd < 0 ∨ flags &&& ~~~ FD_CLOEXEC ≠ 0) .EINVAL
  return changed (modifyEntry t fd.toUInt32 fun e => { e with flags := flags })

def channelResolve (number : Int32) (channel : ChannelId) (same : Bool) (flags : UInt32) : Except Errno Origins := do
  failIf (number < 0 ∨ flags &&& ~~~ FD_CLOEXEC ≠ 0) .EINVAL
  match slot t number.toUInt32 with
  | none => .error .ESTALE
  | some e =>
    failIf (¬ e.uncertain ∨ e.channel ≠ some channel) .ESTALE
    if same then return changed (modifyEntry t number.toUInt32 fun e => { e with uncertain := false, flags := flags })
    else return (install t none number.toUInt32).1

inductive Retirement where
  | close | cloexec | uncertain
  deriving DecidableEq

def selected (exec : Bool) (first last : UInt32) (e : Entry) : Bool :=
  if exec then !e.uncertain && e.flags &&& FD_CLOEXEC != 0 else decide (first ≤ e.fd ∧ e.fd ≤ last)

def fate (action : Retirement) (exec : Bool) (first last : UInt32) (e : Entry) : Option Entry :=
  if selected exec first last e ∧ action = .uncertain ∧
    (e.channel.isSome ∨ e.loan.isSome) then some { e with uncertain := true }
  else if selected exec first last e ∧ action ≠ .cloexec then none
  else if selected exec first last e then some { e with flags := e.flags ||| FD_CLOEXEC }
  else some e

/-- Walk a chain; what is retired comes before what was. -/
def sweepChain (choose : Entry → Option Entry) : Ledger → List Entry → List Entry → Ledger × List Entry × List Entry
  | ledger, retired, [] => (ledger, [], retired)
  | ledger, retired, e :: rest =>
    match choose e with
    | none => sweepChain choose (entryUnlink ledger e) (e :: retired) rest
    | some kept =>
      let walked := sweepChain choose ledger retired rest
      (walked.1, kept :: walked.2.1, walked.2.2)

/-- The chains that are walked: those of a short range, from the one of its first descriptor on, or all. -/
def walkedBuckets (exec : Bool) (first last : UInt32) : List (Fin 61) :=
  let count := if exec = false ∧ last - first < 61 then (last - first + 1).toNat else 61
  let start := if count < 61 then first.toNat % 61 else 0
  (List.range count).map fun n => ⟨(start + n) % 61, mod_lt _ (by decide)⟩

variable (first last : UInt32)

/-- `remove_entries`: the table and what was retired. -/
def removeEntries (action : Retirement) (exec : Bool) : Origins × List Entry :=
  let t := changed t
  match t.buckets with
  | none => (t, [])
  | some chains =>
    let swept := (walkedBuckets exec first last).foldl (fun state i =>
      let walked := sweepChain (fate action exec first last) state.1 state.2.1 (state.2.2 i)
      (walked.1, walked.2.2, update state.2.2 i walked.2.1)) (t.ledger, ([] : List Entry), chains)
    ({ t with ledger := swept.1, buckets := some swept.2.2 }, swept.2.1)

def closeRange (cloexec : Bool) : Except Errno Origins := do
  failIf (first > last) .EINVAL
  return (removeEntries t first last (if cloexec then .cloexec else .close) false).1

def abandonRange : Except Errno Origins := do
  failIf (first > last) .EINVAL
  return (removeEntries t first last .uncertain false).1

def exec : Origins := (removeEntries t 0 0 .close true).1

/-- `md_fd_origins_exit_collect`. -/
def exit : Origins := if t.owners = 1 then (removeEntries t 0 0xffffffff .close false).1 else t

inductive OrderState where
  | idle | queued | ready | running | cancelling
  deriving DecidableEq

/-- What an observation gives: the selectors of the descriptor's object and the generation. -/
structure Observation where
  selectors : UInt32
  generation : UInt64

def observe (fd : Int32) : Except Errno Observation := do
  let e := if 0 ≤ fd then slot t fd.toUInt32 else none
  failIf (t.generation = UINT64_MAX) .EOVERFLOW
  failIf (e.any Entry.uncertain) .ESTALE
  return { selectors := ((e.bind Entry.object).map FdObject.selectors).getD 0, generation := t.generation }

/-- `md_fd_origins_validate`; without a turn of this table there is no state. -/
def validate (turn : Option OrderState) (t : Origins) (generation : UInt64) : Except Errno Unit := do
  match turn with
  | none => throw .EINVAL
  | some state =>
    failIf (generation = 0) .EINVAL
    failIf (state ≠ .running) .EBUSY
    failIf (t.generation = UINT64_MAX) .EOVERFLOW
    failIf (t.generation ≠ generation) .EAGAIN

/-- `md_fd_origins_close_untracked`, in a turn that is running or not. -/
def closeUntracked (turn : Option OrderState) (t : Origins) (number : Int32) : Origins :=
  if turn = some .running ∧ t.owners = 1 ∧ (number < 0 ∨ slot t number.toUInt32 = none) then changed t else t

def copyEntry (i : Fin 61) (copy : Origins) (p : Entry) : Origins :=
  let e := { p with id := copy.nextId, loan := p.loan.map fun slot => ⟨copy.nextId + 1, slot.owner⟩ }
  let chains := copy.buckets.getD fun _ => []
  { copy with
    ledger := entryLink copy.ledger e
    buckets := some (update chains i (e :: chains i))
    nextId := copy.nextId + 2 }

/-- `md_fd_origins_fork` for a task that does not share the table. -/
def fork : Origins :=
  match t.buckets with
  | none => {}
  | some chains => (List.finRange 61).foldl (fun copy i => (chains i).foldl (copyEntry i) copy) {}

inductive Operation where
  | finish (origin : Option Origin) (result : Int32)
  | finishBatch (origins : List (Option Origin)) (fds : List Int32)
  | abandon (origin : Option Origin)
  | setFlags (fd : Int32) (flags : UInt32)
  | channelResolve (number : Int32) (channel : ChannelId) (same : Bool) (flags : UInt32)
  | closeRange (first last : UInt32) (cloexec : Bool)
  | abandonRange (first last : UInt32)
  | exec
  | exit
  | closeUntracked (turn : Option OrderState) (number : Int32)

/-- The table after an operation, whether or not it succeeds. -/
def perform : Operation → Origins
  | .finish origin result =>
    let prepared := prepare t origin
    finish prepared.1 prepared.2 result
  | .finishBatch origins fds =>
    let prepared := prepareBatch t origins
    (finishBatch prepared.1 prepared.2 fds).toOption.getD prepared.1
  | .abandon origin =>
    let prepared := prepare t origin
    abandon prepared.1 prepared.2
  | .setFlags fd flags => (setFlags t fd flags).toOption.getD t
  | .channelResolve number channel same flags => (channelResolve t number channel same flags).toOption.getD t
  | .closeRange first last cloexec => (closeRange t first last cloexec).toOption.getD t
  | .abandonRange first last => (abandonRange t first last).toOption.getD t
  | .exec => exec t
  | .exit => exit t
  | .closeUntracked turn number => closeUntracked turn t number

end

open UInt64

section

/-- What a descriptor is known to be. -/
structure View where
  object : Option FdObject
  channel : Option ChannelId
  flags : UInt32
  uncertain : Bool

def Entry.view (e : Entry) : View := ⟨e.object, e.channel, e.flags, e.uncertain⟩

/-- The map from descriptors that an observation is about. -/
def views (t : Origins) (fd : UInt32) : Option View := (slot t fd).map Entry.view

/-- The generation does not go back, and where it stays without being saturated so does the map. -/
structure Advances (t after : Origins) : Prop where
  generation : t.generation ≤ after.generation
  same : after.generation = t.generation → t.generation ≠ UINT64_MAX → views after = views t

variable {t : Origins}

theorem Advances.refl (t : Origins) : Advances t t := ⟨UInt64.le_refl _, fun _ _ => rfl⟩

theorem Advances.trans {u v : Origins} (first : Advances t u) (two : Advances u v) : Advances t v := by
  refine ⟨UInt64.le_trans first.generation two.generation, fun fixed open_ => ?_⟩
  have stayed : u.generation = t.generation := UInt64.le_antisymm (fixed ▸ two.generation) first.generation
  have still := two.same (fixed.trans stayed.symm) (stayed ▸ open_)
  exact still.trans (first.same stayed open_)

theorem changed_generation (t : Origins) :
    t.generation ≤ (changed t).generation ∧ (t.generation ≠ UINT64_MAX → (changed t).generation ≠ t.generation) := by
  unfold changed
  split
  next room =>
    have below : t.generation.toNat < 2 ^ 64 - 1 := by
      have bound := t.generation.toNat_lt
      have ne : t.generation.toNat ≠ 2 ^ 64 - 1 := fun full => room (UInt64.toNat_inj.mp full)
      omega
    have next : (t.generation + 1).toNat = t.generation.toNat + 1 := by exact mod_eq_of_lt (by simpa using by omega)
    dsimp only
    refine ⟨le_iff_toNat_le.mpr (by omega), fun _ same => ?_⟩
    have eq := congrArg toNat same
    omega
  next full => exact ⟨UInt64.le_refl _, fun room => absurd (not_not.mp full) room⟩

variable {after : Origins}

theorem Advances.of_changed (later : (changed t).generation ≤ after.generation) : Advances t after := by
  obtain ⟨up, ne⟩ := changed_generation t
  refine ⟨UInt64.le_trans up later, fun fixed room => absurd ?_ (ne room)⟩
  exact UInt64.le_antisymm (fixed ▸ later) up

theorem Advances.of_views (gen : after.generation = t.generation) (same : views after = views t) : Advances t after :=
  ⟨gen ▸ UInt64.le_refl _, fun _ _ => same⟩

end

section

variable (t : Origins)

theorem install_advances (entry : Option Entry) (fd : UInt32) : Advances t (install t entry fd).1 := by
  refine .of_changed ?_
  unfold install
  dsimp only
  split <;> exact UInt64.le_refl _

theorem removeEntries_advances (first last : UInt32) (action : Retirement) (exec : Bool) :
    Advances t (removeEntries t first last action exec).1 := by
  refine .of_changed ?_
  unfold removeEntries
  dsimp only
  split <;> exact UInt64.le_refl _

theorem modifyEntry_generation (fd : UInt32) (change : Entry → Entry) :
    (modifyEntry t fd change).generation = t.generation := by
  unfold modifyEntry
  split <;> rfl

theorem modifyEntry_advances (fd : UInt32) (change : Entry → Entry) :
    Advances t (changed (modifyEntry t fd change)) := by
  have same := modifyEntry_generation t fd change
  refine .of_changed ?_
  unfold changed
  rw [same]
  split
  · exact UInt64.le_refl _
  · rw [same]
    exact UInt64.le_refl _

theorem prepare_advances (origin : Option Origin) : Advances t (prepare t origin).1 := by
  cases origin with
  | none => exact .refl t
  | some o =>
    refine .of_views rfl ?_
    unfold views slot prepare
    cases t.buckets <;> rfl

theorem prepareBatch_advances (origins : List (Option Origin)) : Advances t (prepareBatch t origins).1 := by
  induction origins generalizing t with
  | nil => exact .refl t
  | cons origin rest ih => exact (prepare_advances t origin).trans (ih _)

theorem finish_advances (update : Option Entry) (res : Int32) : Advances t (finish t update res) := by
  unfold finish
  split
  · exact install_advances t update _
  · exact .refl t

theorem advances_getD {res : Except Errno Origins} (advances : Gives (Advances t) res) :
    Advances t (res.toOption.getD t) := by
  cases done : res with
  | ok after => exact advances after done
  | error _ => exact .refl t

theorem finishBatch_advances (updates : List (Option Entry)) (fds : List Int32) :
    Gives (Advances t) (finishBatch t updates fds) := by
  refine .failIf_bind fun _ => .failIf_bind fun _ => .failIf_bind fun _ => .pure ?_
  refine List.foldlRecOn (motive := Advances t) _ _ (.refl t) fun u advances update _ => ?_
  exact advances.trans (install_advances u update.1 _)

theorem setFlags_advances (fd : Int32) (flags : UInt32) : Gives (Advances t) (setFlags t fd flags) :=
  .failIf_bind fun _ => .pure (modifyEntry_advances t _ _)

theorem channelResolve_advances (num : Int32) (channel : ChannelId) (same : Bool) (flags : UInt32) :
    Gives (Advances t) (channelResolve t num channel same flags) := by
  refine .failIf_bind fun _ => ?_
  split
  · exact .error
  · refine .failIf_bind fun _ => .ite (fun _ => .pure ?_) fun _ => .pure ?_
    · exact modifyEntry_advances t _ _
    · exact install_advances t none _

theorem perform_advances (op : Operation) : Advances t (perform t op) := by
  cases op with
  | finish origin res => exact (prepare_advances t origin).trans (finish_advances _ _ res)
  | finishBatch origins fds =>
    exact (prepareBatch_advances t origins).trans (advances_getD _ (finishBatch_advances _ _ fds))
  | abandon origin =>
    have ready := prepare_advances t origin
    have moved : Advances (prepare t origin).1 (changed (prepare t origin).1) := .of_changed (UInt64.le_refl _)
    exact ready.trans (moved.trans (finish_advances _ (prepare t origin).2 (-1)))
  | setFlags fd flags => exact advances_getD t (setFlags_advances t fd flags)
  | channelResolve num channel same flags => exact advances_getD t (channelResolve_advances t num channel same flags)
  | closeRange first last cloexec =>
    exact advances_getD t (.failIf_bind fun _ => .pure (removeEntries_advances t _ _ _ _))
  | abandonRange first last => exact advances_getD t (.failIf_bind fun _ => .pure (removeEntries_advances t _ _ _ _))
  | exec => exact removeEntries_advances t _ _ _ _
  | exit =>
    simp only [perform, exit]
    split
    · exact removeEntries_advances t _ _ _ _
    · exact .refl t
  | closeUntracked turn num =>
    simp only [perform, closeUntracked]
    split
    · exact .of_changed (UInt64.le_refl _)
    · exact .refl t

theorem run_advances (operations : List Operation) : Advances t (operations.foldl perform t) :=
  List.foldlRecOn (motive := Advances t) operations perform (.refl t) fun u advances op _ =>
    advances.trans (perform_advances u op)

end

variable {t : Origins}

theorem validate_ok {turn : Option OrderState} {gen : UInt64} (valid : validate turn t gen = .ok ()) :
    t.generation ≠ UINT64_MAX ∧ t.generation = gen := by
  unfold validate at valid
  split at valid
  · cases valid
  · simp only [failIf_bind_ok, failIf_ok] at valid
    obtain ⟨-, -, room, same⟩ := valid
    exact ⟨room, not_not.mp same⟩

theorem observe_generation {fd : Int32} {seen : Observation} (observed : observe t fd = .ok seen) :
    seen.generation = t.generation := by
  unfold observe at observed
  simp only [failIf_bind_ok, pure_ok] at observed
  obtain ⟨-, -, rfl⟩ := observed
  rfl

/-- What was observed of a table is still so when its generation is valid, and a generation that is
saturated never is. -/
theorem validate_observed (t : Origins) (fd : Int32) (operations : List Operation) (turn : Option OrderState) :
    (∀ seen, observe t fd = .ok seen → validate turn (operations.foldl perform t) seen.generation = .ok () →
      views (operations.foldl perform t) = views t) ∧ (∀ gen, (operations.foldl perform t).generation = UINT64_MAX →
      validate turn (operations.foldl perform t) gen ≠ .ok ()) := by
  constructor
  · intro seen observed valid
    obtain ⟨room, same⟩ := validate_ok valid
    have fixed := same.trans (observe_generation observed)
    exact (run_advances t operations).same fixed (fixed ▸ room)
  · intro gen full valid
    exact (validate_ok valid).1 full

/-- Two descriptors of one chain. -/
def tracked : Origins := [.finish (some { flags := 1 }) 3, .finish (some { channel := some 7 }) 64].foldl perform {}

theorem validate_observed_tracked : (views tracked 64).isSome ∧
    views ([.finish (some {}) (-1), .closeRange 9 3 false].foldl perform tracked) = views tracked :=
  ⟨rfl, (validate_observed tracked 3 _ (some .running)).1 ⟨0, 3⟩ rfl rfl⟩

end

open List UInt32

section

def Entry.slotId (e : Entry) : Option SlotId := e.loan.map LoanSlot.id

/-- What the ledger of a table depends on in an entry. -/
def Entry.stake (e : Entry) : EntryId × Option FdObject × Option LoanSlot := (e.id, e.object, e.loan)

/-- A ledger that is right for these entries. -/
structure Ledger.Fits (ledger : Ledger) (live : List Entry) : Prop where
  readiness : ledger.readiness = ofNat (live.countP Entry.ready)
  loans : ledger.loans = ofNat (live.filterMap Entry.slotId).length
  threads : ∃ list, ledger.threads.Lists list ∧ list.Perm (live.filterMap Entry.slotId)
  entry : ∀ e ∈ live, ∀ slot, e.loan = some slot → ledger.entry slot.id = some e.id

variable {ledger : Ledger} {live live' : List Entry} {e : Entry}

theorem Ledger.Fits.perm (fits : ledger.Fits live) (perm : live.Perm live') : ledger.Fits live' where
  readiness := by rw [fits.readiness, perm.countP_eq]
  loans := by rw [fits.loans, (perm.filterMap _).length_eq]
  threads := by
    obtain ⟨list, lists, same⟩ := fits.threads
    exact ⟨list, lists, same.trans (perm.filterMap _)⟩
  entry e mem := fits.entry e (perm.mem_iff.mpr mem)

theorem Ledger.Fits.congr (fits : ledger.Fits live) (stakes : live'.map Entry.stake = live.map Entry.stake) :
    ledger.Fits live' := by
  have ready : live'.countP Entry.ready = live.countP Entry.ready := by
    have good :=
      congrArg (countP fun stake : EntryId × Option FdObject × Option LoanSlot => stake.2.1.any FdObject.readiness)
        stakes
    rwa [countP_map, countP_map] at good
  have slots : live'.filterMap Entry.slotId = live.filterMap Entry.slotId := by
    have kept :=
      congrArg (filterMap fun stake : EntryId × Option FdObject × Option LoanSlot => stake.2.2.map LoanSlot.id) stakes
    rwa [filterMap_map, filterMap_map] at kept
  refine ⟨ready ▸ fits.readiness, slots ▸ fits.loans, slots ▸ fits.threads, fun e mem slot is => ?_⟩
  have stake : e.stake ∈ live.map Entry.stake := stakes ▸ mem_map_of_mem mem
  obtain ⟨e', there, same⟩ := mem_map.mp stake
  obtain ⟨id, -, loan⟩ : e'.id = e.id ∧ e'.object = e.object ∧ e'.loan = e.loan := by simpa [Entry.stake] using same
  rw [← id]
  exact fits.entry e' there slot (loan.trans is)

theorem readied (ledger : Ledger) (e : Entry) :
    (if e.ready then { ledger with readiness := ledger.readiness + 1 } else ledger) =
      { ledger with readiness := ledger.readiness + if e.ready then 1 else 0 } := by
  by_cases ready : e.ready <;> simp [ready]

theorem unreadied (ledger : Ledger) (e : Entry) :
    (if e.ready then { ledger with readiness := ledger.readiness - 1 } else ledger) =
      { ledger with readiness := ledger.readiness - if e.ready then 1 else 0 } := by
  by_cases ready : e.ready <;> simp [ready]

theorem Ledger.Fits.link (fits : ledger.Fits live)
    (fresh : ∀ slot, e.loan = some slot → slot.id ∉ live.filterMap Entry.slotId) :
    (entryLink ledger e).Fits (e :: live) := by
  have readiness : ledger.readiness + (if e.ready then 1 else 0) = ofNat ((e :: live).countP Entry.ready) := by
    rw [countP_cons, ofNat_add, fits.readiness]
    by_cases ready : e.ready <;> simp [ready]
  obtain ⟨list, lists, perm⟩ := fits.threads
  simp only [entryLink, readied]
  cases loan : e.loan with
  | none =>
    have slots : (e :: live).filterMap Entry.slotId = live.filterMap Entry.slotId := by simp [Entry.slotId, loan]
    refine ⟨readiness, slots ▸ fits.loans, slots ▸ fits.threads, fun x mem slot is => ?_⟩
    rcases mem_cons.mp mem with rfl | old
    · rw [loan] at is
      cases is
    · exact fits.entry x old slot is
  | some slot =>
    have free := fresh slot loan
    have slots : (e :: live).filterMap Entry.slotId = slot.id :: live.filterMap Entry.slotId := by
      simp [Entry.slotId, loan]
    refine ⟨readiness, ?_, ⟨slot.id :: list, lists.push fun mem => free (perm.mem_iff.mp mem), slots ▸ perm.cons _⟩, ?_⟩
    · rw [slots, length_cons, ofNat_add, ← fits.loans]
      rfl
    · intro x mem other is
      rcases mem_cons.mp mem with rfl | old
      · rw [loan] at is
        obtain rfl := Option.some.inj is
        exact update_self ..
      · have ne : other.id ≠ slot.id := by
          intro same
          refine free (mem_filterMap.mpr ⟨x, old, ?_⟩)
          rw [Entry.slotId, is, Option.map_some, same]
        exact (update_of_ne ne ..).trans (fits.entry x old other is)

theorem Ledger.Fits.unlink (fits : ledger.Fits (e :: live)) : (entryUnlink ledger e).Fits live := by
  have readiness : ledger.readiness - (if e.ready then 1 else 0) = ofNat (live.countP Entry.ready) := by
    rw [fits.readiness, countP_cons, ofNat_add]
    by_cases ready : e.ready <;> simp [ready]
  obtain ⟨list, lists, perm⟩ := fits.threads
  have others : ∀ x ∈ live, ∀ slot, x.loan = some slot → ledger.entry slot.id = some x.id :=
    fun x mem => fits.entry x (mem_cons_of_mem e mem)
  simp only [entryUnlink, unreadied]
  cases loan : e.loan with
  | none =>
    have slots : (e :: live).filterMap Entry.slotId = live.filterMap Entry.slotId := by simp [Entry.slotId, loan]
    exact ⟨readiness, slots ▸ fits.loans, slots ▸ fits.threads, others⟩
  | some slot =>
    have slots : (e :: live).filterMap Entry.slotId = slot.id :: live.filterMap Entry.slotId := by
      simp [Entry.slotId, loan]
    rw [slots] at perm
    have erased := perm.erase slot.id
    rw [erase_cons_head] at erased
    refine ⟨readiness, ?_, ⟨list.erase slot.id, lists.unlink (perm.mem_iff.mpr mem_cons_self), erased⟩, others⟩
    rw [fits.loans, slots, length_cons, ofNat_add]
    simp

theorem Ledger.Fits.unlinkAll {gone : List Entry} (fits : ledger.Fits (gone ++ live)) :
    (gone.foldl entryUnlink ledger).Fits live := by
  induction gone generalizing ledger with
  | nil => exact fits
  | cons e rest ih => exact ih fits.unlink

end

variable (t : Origins)

/-- The chains of a table, which are empty before there is an array of them. -/
def chainsOf : Chains := t.buckets.getD fun _ => []

def entriesOf : List Entry := allOf (chainsOf t)

theorem slot_chainsOf (fd : UInt32) : slot t fd = (chainsOf t (bucketOf fd)).find? (·.fd == fd) := by
  unfold slot chainsOf
  cases t.buckets <;> rfl

/-- Chains in which every entry is where its descriptor belongs, and is the only one of it. -/
structure Placed (chains : Chains) : Prop where
  bucket : ∀ i, ∀ e ∈ chains i, bucketOf e.fd = i
  distinct : ∀ i, ((chains i).map Entry.fd).Nodup

/-- A table whose ledger is right for its chains. -/
structure Coherent (t : Origins) : Prop where
  placed : Placed (chainsOf t)
  fits : t.ledger.Fits (entriesOf t)
  known : ∀ e ∈ entriesOf t, e.id < t.nextId ∧ ∀ slot, e.loan = some slot → slot.id < t.nextId
  small : ∀ e ∈ entriesOf t, e.fd.toNat < 2 ^ 31

theorem coherent_new : Coherent {} where
  placed := ⟨nofun, fun _ => nodup_nil⟩
  fits := ⟨rfl, rfl, ⟨[], Threads.lists_empty, .refl _⟩, nofun⟩
  known := fun e mem => by
    obtain ⟨_, there⟩ := mem_allOf.mp mem
    cases there
  small := fun e mem => by
    obtain ⟨_, there⟩ := mem_allOf.mp mem
    cases there

/-- The counters and the list of loans, as numbers of the entries. -/
structure Tracks (t : Origins) : Prop where
  descriptors : ((entriesOf t).map Entry.fd).Nodup
  found : ∀ fd e, slot t fd = some e ↔ e ∈ entriesOf t ∧ e.fd = fd
  readiness : t.ledger.readiness.toNat = (entriesOf t).countP Entry.ready
  loans : ∃ list, t.ledger.threads.Lists list ∧ list.Perm ((entriesOf t).filterMap Entry.slotId) ∧
    t.ledger.loans.toNat = list.length ∧
      ∀ e ∈ entriesOf t, ∀ slot, e.loan = some slot → t.ledger.entry slot.id = some e.id

variable {chains : Chains}

theorem Placed.mem (placed : Placed chains) {e : Entry} (mem : e ∈ allOf chains) : e ∈ chains (bucketOf e.fd) := by
  obtain ⟨i, there⟩ := mem_allOf.mp mem
  rwa [placed.bucket i e there]

theorem Placed.descriptors (placed : Placed chains) : ((allOf chains).map Entry.fd).Nodup := by
  rw [allOf, map_flatMap, nodup_flatMap]
  refine ⟨fun i _ => placed.distinct i, (nodup_finRange 61).imp_of_mem fun {i j} _ _ apart => ?_⟩
  intro fd one two
  obtain ⟨e, isIn, rfl⟩ := mem_map.mp one
  obtain ⟨e', inside', same⟩ := mem_map.mp two
  exact apart (by rw [← placed.bucket i e isIn, ← placed.bucket j e' inside', same])

/-- A descriptor is found in its chain or nowhere. -/
theorem Placed.find (placed : Placed chains) (fd : UInt32) :
    (chains (bucketOf fd)).find? (·.fd == fd) = (allOf chains).find? (·.fd == fd) := by
  refine Option.ext fun e => ?_
  rw [find_of_distinct (placed.distinct _), find_of_distinct placed.descriptors]
  constructor
  · rintro ⟨mem, rfl⟩
    exact ⟨mem_allOf.mpr ⟨_, mem⟩, rfl⟩
  · rintro ⟨mem, rfl⟩
    exact ⟨placed.mem mem, rfl⟩

theorem Coherent.slot_eq {t : Origins} (sound : Coherent t) (fd : UInt32) :
    slot t fd = (entriesOf t).find? (·.fd == fd) :=
  (slot_chainsOf t fd).trans (sound.placed.find fd)

theorem Coherent.tracks {t : Origins} (sound : Coherent t) : Tracks t := by
  have nodup := sound.placed.descriptors
  -- a table has fewer entries than there are descriptors
  have few : (entriesOf t).length < 2 ^ 32 := by
    have values : ((entriesOf t).map fun e => e.fd.toNat).Nodup := by
      have mapped := nodup.map fun _ _ same => UInt32.toNat_inj.mp same
      rwa [map_map] at mapped
    have bounded : (entriesOf t).map (fun e => e.fd.toNat) ⊆ range (2 ^ 31) := by
      intro n mem
      obtain ⟨e, isIn, rfl⟩ := mem_map.mp mem
      exact mem_range.mpr (sound.small e isIn)
    have fewer := (subperm_of_subset values bounded).length_le
    rw [length_map, length_range] at fewer
    omega
  have exact_ : ∀ n, n ≤ (entriesOf t).length → (ofNat n).toNat = n := by
    intro n le
    exact mod_eq_of_lt (by omega)
  obtain ⟨list, lists, perm⟩ := sound.fits.threads
  refine ⟨nodup, fun fd e => ?_, ?_, list, lists, perm, ?_, sound.fits.entry⟩
  · rw [sound.slot_eq]
    exact find_of_distinct nodup
  · rw [sound.fits.readiness]
    exact exact_ _ countP_le_length
  · rw [sound.fits.loans, perm.length_eq]
    exact exact_ _ (length_filterMap_le _ _)

end Shroot.FdOrigins
