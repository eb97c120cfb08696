import Shroot.General.Positions
import Shroot.FdOrigins.Steps

namespace Shroot.FdOrigins

open General Function List Option Nat

variable {t : Origins} {t' : Origins} {m : OriginMap}

/-! What a table of origins is for: a map from descriptors to what is known of them. -/

abbrev OriginMap := UInt32 → Option Origin

/-- A map and how many tasks have it. -/
structure Spec where
  origins : OriginMap := fun _ => none
  owners : UInt32 := 1

def Origin.fate (action : Retirement) (o : Origin) : Option Origin :=
  match action with
  | .close => none
  | .cloexec => some { o with flags := o.flags ||| FD_CLOEXEC }
  | .uncertain => if o.channel.isSome ∨ o.loan.isSome then some { o with uncertain := true } else none

/-- The descriptors of a range meet their fate. -/
def sweepRange (m : OriginMap) (first last : UInt32) (action : Retirement) : OriginMap := fun fd =>
  (m fd).bind fun o => if first ≤ fd ∧ fd ≤ last then o.fate action else some o

/-- Those to close at an exec are closed. -/
def sweepExec (m : OriginMap) : OriginMap := fun fd =>
  (m fd).bind fun o => if o.uncertain = false ∧ o.flags &&& FD_CLOEXEC ≠ 0 then none else some o

def modifyOrigin (m : OriginMap) (fd : UInt32) (change : Origin → Origin) : OriginMap := update m fd ((m fd).map change)

instance decidableNonneg (fds : List Int32) : Decidable (∀ fd ∈ fds, 0 ≤ fd) := List.decidableBAll _ _

def specify (m : OriginMap) (owners : UInt32) : Operation → OriginMap
  | .finish origin result => if 0 ≤ result then update m result.toUInt32 origin else m
  | .finishBatch origins fds =>
    if fds.length ≤ origins.length ∧ (∀ fd ∈ fds, 0 ≤ fd) ∧ fds.Nodup then
      (origins.zip fds).foldl (fun m update => Function.update m update.2.toUInt32 update.1) m
    else m
  | .abandon _ => m
  | .setFlags fd flags =>
    if 0 ≤ fd ∧ flags &&& ~~~ FD_CLOEXEC = 0 then modifyOrigin m fd.toUInt32 fun o => { o with flags := flags } else m
  | .channelResolve number channel same flags =>
    if 0 ≤ number ∧ flags &&& ~~~ FD_CLOEXEC = 0 ∧
      (m number.toUInt32).any (fun o => o.uncertain && o.channel == some channel) then
      if same then modifyOrigin m number.toUInt32 fun o => { o with uncertain := false, flags := flags }
      else update m number.toUInt32 none
    else m
  | .closeRange first last cloexec =>
    if first ≤ last then sweepRange m first last (if cloexec then .cloexec else .close) else m
  | .abandonRange first last => if first ≤ last then sweepRange m first last .uncertain else m
  | .exec => sweepExec m
  | .exit => if owners = 1 then fun _ => none else m
  | .closeUntracked .. => m

/-- What happens to the tables of all tasks. A task shares its table with its child or gives it a copy. -/
inductive TableEvent where
  | operation (table : Nat) (operation : Operation)
  | fork (table : Nat) (shared : Bool)

/-- `md_fd_origins_fork` and the operations. -/
def happen (tables : List Origins) : TableEvent → List Origins
  | .operation table operation => tables.modify table (perform · operation)
  | .fork table shared =>
    if shared then tables.modify table fun t => { t with owners := t.owners + 1 }
    else tables ++ (tables[table]?.map fork).toList

def happenSpec (maps : List Spec) : TableEvent → List Spec
  | .operation table operation => maps.modify table fun s => { s with origins := specify s.origins s.owners operation }
  | .fork table shared =>
    if shared then maps.modify table fun s => { s with owners := s.owners + 1 }
    else maps ++ (maps[table]?.map fun s => { origins := s.origins }).toList

def specOf (t : Origins) : Spec := ⟨originsOf t, t.owners⟩

theorem originsOf_congr (same : chainsOf t' = chainsOf t) : originsOf t' = originsOf t := by
  funext fd
  rw [originsOf, originsOf, slot_chainsOf, slot_chainsOf, same]

/-- Updates ready to be installed: each is new to the table, and no two share a slot. -/
structure Ready (t : Origins) (updates : List (Option Entry)) : Prop where
  fresh : ∀ e, some e ∈ updates → FreshIn t e
  room : ∀ e, some e ∈ updates → t.buckets.isSome
  apart : (updates.filterMap fun update => update.bind Entry.slotId).Nodup

theorem prepare_chains (t : Origins) (origin : Option Origin) :
    chainsOf (prepare t origin).1 = chainsOf t ∧ (prepare t origin).1.ledger = t.ledger ∧
    (prepare t origin).1.owners = t.owners ∧
      t.nextId ≤ (prepare t origin).1.nextId ∧ (t.buckets.isSome → (prepare t origin).1.buckets.isSome) := by
  cases origin with
  | none => exact ⟨rfl, rfl, rfl, le_refl _, id⟩
  | some o => exact ⟨rfl, rfl, rfl, le_add_right _ _, fun _ => rfl⟩

theorem prepare_entry {origin : Option Origin} {e : Entry} (is : (prepare t origin).2 = some e) :
    e.id < (prepare t origin).1.nextId ∧ (prepare t origin).1.buckets.isSome ∧
      ∀ slot, e.loan = some slot → t.nextId ≤ slot.id ∧ slot.id < (prepare t origin).1.nextId := by
  cases origin with
  | none => cases is
  | some o =>
    obtain rfl := some.inj is
    refine ⟨by simp [prepare], rfl, fun slot loan => ?_⟩
    obtain ⟨owner, -, rfl⟩ := map_eq_some_iff.mp loan
    simp [prepare]

theorem prepare_origin (t : Origins) (origin : Option Origin) : (prepare t origin).2.map Entry.origin = origin := by
  cases origin with
  | none => rfl
  | some o => cases o with | mk object channel loan flags uncertain => cases loan <;> rfl

theorem prepareBatch_chains (origins : List (Option Origin)) : ∀ t : Origins,
    chainsOf (prepareBatch t origins).1 = chainsOf t ∧ (prepareBatch t origins).1.ledger = t.ledger ∧
      (prepareBatch t origins).1.owners = t.owners ∧ t.nextId ≤ (prepareBatch t origins).1.nextId ∧
      (t.buckets.isSome → (prepareBatch t origins).1.buckets.isSome) := by
  induction origins with
  | nil => exact fun t => ⟨rfl, rfl, rfl, le_refl _, id⟩
  | cons origin rest ih =>
    intro t
    obtain ⟨chains, ledger, owners, next, room⟩ := prepare_chains t origin
    obtain ⟨chains', ledger', owners', next', room'⟩ := ih (prepare t origin).1
    exact ⟨chains'.trans chains, ledger'.trans ledger, owners'.trans owners, next.trans next',
      fun held => room' (room held)⟩

theorem prepareBatch_origins (origins : List (Option Origin)) : ∀ t : Origins,
    (prepareBatch t origins).2.map (Option.map Entry.origin) = origins := by
  induction origins with
  | nil => exact fun _ => rfl
  | cons origin rest ih =>
    intro t
    rw [prepareBatch, map_cons, ih, prepare_origin]

theorem prepareBatch_ready (sound : Coherent t) (origins : List (Option Origin)) :
    Ready (prepareBatch t origins).1 (prepareBatch t origins).2 := by
  have spec : ∀ t : Origins, (∀ e, some e ∈ (prepareBatch t origins).2 → e.id < (prepareBatch t origins).1.nextId ∧
      (prepareBatch t origins).1.buckets.isSome ∧
      ∀ slot, e.loan = some slot → t.nextId ≤ slot.id ∧ slot.id < (prepareBatch t origins).1.nextId) ∧
      ((prepareBatch t origins).2.filterMap fun update => update.bind Entry.slotId).Nodup := by
    induction origins with
    | nil => exact fun t => ⟨nofun, nodup_nil⟩
    | cons origin rest ih =>
      intro t
      obtain ⟨later, apart⟩ := ih (prepare t origin).1
      obtain ⟨-, -, -, next, -⟩ := prepare_chains t origin
      obtain ⟨-, -, -, next', room'⟩ := prepareBatch_chains rest (prepare t origin).1
      constructor
      · intro e mem
        rcases mem_cons.mp mem with first | isIn
        · obtain ⟨id, room, slots⟩ := prepare_entry first.symm
          exact ⟨id.trans_le next', room' room, fun slot is => ⟨(slots slot is).1, (slots slot is).2.trans_le next'⟩⟩
        · obtain ⟨id, room, slots⟩ := later e isIn
          exact ⟨id, room, fun slot is => ⟨next.trans (slots slot is).1, (slots slot is).2⟩⟩
      · rw [prepareBatch, filterMap_cons]
        split
        · exact apart
        next id is =>
          refine nodup_cons.mpr ⟨fun mem => ?_, apart⟩
          obtain ⟨e, first, slotId⟩ := bind_eq_some_iff.mp is
          obtain ⟨slot, loan, rfl⟩ := map_eq_some_iff.mp slotId
          have low := ((prepare_entry first).2.2 slot loan).2
          obtain ⟨update, isIn, other⟩ := mem_filterMap.mp mem
          obtain ⟨e', isUpdate, slotId'⟩ := bind_eq_some_iff.mp other
          obtain ⟨slot', loan', same⟩ := map_eq_some_iff.mp slotId'
          have high := ((later e' (isUpdate ▸ isIn)).2.2 slot' loan').1
          rw [same] at high
          exact not_lt.mpr high low
  obtain ⟨each, apart⟩ := spec t
  obtain ⟨chains, -⟩ := prepareBatch_chains origins t
  refine ⟨fun e mem => ⟨(each e mem).1, fun slot is => ?_⟩, fun e mem => (each e mem).2.1, apart⟩
  obtain ⟨low, high⟩ := (each e mem).2.2 slot is
  refine ⟨high, fun used => ?_⟩
  rw [slotsOf, entriesOf, chains] at used
  exact not_lt.mpr low (sound.slot_known used)

theorem toUInt32_small {x : Int32} (pos : 0 ≤ x) : x.toUInt32.toNat < 2 ^ 31 := by
  have le := Int32.le_iff_toInt_le.mp pos
  have zero : (0 : Int32).toInt = 0 := by decide
  have val : x.toInt = x.toBitVec.toInt := rfl
  have bits : x.toUInt32.toNat = x.toBitVec.toNat := rfl
  rw [zero, val, BitVec.toInt_eq_toNat_cond] at le
  split at le <;> omega

theorem installAll_refines {updates : List (Option Entry)} (fds : List Int32) (sound : Coherent t)
    (ready : Ready t updates) (pos : ∀ fd ∈ fds, 0 ≤ fd) :
    let result := (updates.zip fds).foldl (fun t update => (install t update.1 update.2.toUInt32).1) t
    Coherent result ∧ result.owners = t.owners ∧ originsOf result =
      ((updates.map (Option.map Entry.origin)).zip fds).foldl
        (fun m update => Function.update m update.2.toUInt32 update.1) (originsOf t) := by
  induction updates generalizing t fds with
  | nil => exact ⟨sound, rfl, rfl⟩
  | cons update rest ih =>
    cases fds with
    | nil => exact ⟨sound, rfl, rfl⟩
    | cons fd more =>
      obtain ⟨put, origins, next, owners, room, slots⟩ := install_refines sound update fd.toUInt32
        (fun e is => ready.fresh e (is ▸ mem_cons_self)) (fun some => by
          obtain ⟨e, is⟩ := isSome_iff_exists.mp some
          exact ready.room e (is ▸ mem_cons_self)) (toUInt32_small (pos fd mem_cons_self))
      have still : Ready (install t update fd.toUInt32).1 rest := by
        refine ⟨fun e mem => ?_, fun e mem => room ▸ ready.room e (mem_cons_of_mem _ mem), ?_⟩
        · have fresh := ready.fresh e (mem_cons_of_mem _ mem)
          refine ⟨next ▸ fresh.id, fun slot is => ⟨next ▸ (fresh.slot slot is).1, fun used => ?_⟩⟩
          rcases slots slot.id used with old | ⟨first, isFirst, same⟩
          · exact (fresh.slot slot is).2 old
          · -- two updates of the batch would have one slot
            have apart := ready.apart
            have own : update.bind Entry.slotId = some slot.id := by
              rw [isFirst]
              exact same
            rw [filterMap_cons, own] at apart
            refine (nodup_cons.mp apart).1 (mem_filterMap.mpr ⟨some e, mem, ?_⟩)
            rw [bind_some, Entry.slotId, is, map_some]
        · have apart := ready.apart
          rw [filterMap_cons] at apart
          split at apart
          · exact apart
          · exact (nodup_cons.mp apart).2
      obtain ⟨sound', owners', origins'⟩ := ih more put still fun x mem => pos x (mem_cons_of_mem _ mem)
      refine ⟨sound', owners'.trans owners, ?_⟩
      rw [zip_cons_cons, foldl_cons, origins', origins]
      rfl

/-- A table after which the map is this. -/
structure Becomes (t t' : Origins) (m : OriginMap) : Prop where
  coherent : Coherent t'
  owners : t'.owners = t.owners
  origins : originsOf t' = m

theorem Becomes.same (sound : Coherent t) : Becomes t t (originsOf t) := ⟨sound, rfl, rfl⟩

theorem Becomes.changed (becomes : Becomes t t' m) : Becomes t (changed t') m :=
  ⟨becomes.coherent.changed, (changed_same t').2.2.2.trans becomes.owners,
    (originsOf_congr (changed_chains t')).trans becomes.origins⟩

/-- An operation that is refused where the specification changes nothing. -/
theorem Becomes.checked {m' : OriginMap} {bad good : Prop} [Decidable bad] [Decidable good] {e : Errno}
    {next : Except Errno Origins} (refused : Becomes t t' m) (agree : ¬ bad ↔ good)
    (accepted : good → Becomes t (next.toOption.getD t') m') :
    Becomes t ((failIf bad e >>= fun _ => next).toOption.getD t') (if good then m' else m) := by
  by_cases holds : good
  · rw [if_pos holds, failIf, if_neg (agree.mpr holds)]
    exact accepted holds
  · rw [if_neg holds, failIf, if_pos (not_not.mp fun fine => holds (agree.mp fine))]
    exact refused

theorem prepareBatch_becomes (sound : Coherent t) (origins : List (Option Origin)) :
    Becomes t (prepareBatch t origins).1 (originsOf t) := by
  obtain ⟨chains, ledger, owners, next, -⟩ := prepareBatch_chains origins t
  exact ⟨sound.grown chains ledger next, owners, originsOf_congr chains⟩

theorem prepare_becomes (sound : Coherent t) (origin : Option Origin) : Becomes t (prepare t origin).1 (originsOf t) :=
  prepareBatch_becomes sound [origin]

theorem finishBatch_becomes (sound : Coherent t) (origins : List (Option Origin)) (fds : List Int32) :
    Becomes t (perform t (.finishBatch origins fds)) (specify (originsOf t) t.owners (.finishBatch origins fds)) := by
  have ready := prepareBatch_becomes sound origins
  have length : (prepareBatch t origins).2.length = origins.length := by
    rw [← length_map (Option.map Entry.origin), prepareBatch_origins]
  simp only [perform, specify, finishBatch, length, ite_and]
  refine ready.checked not_lt fun _ => ready.checked (by simp [Int32.not_lt]) fun pos => ?_
  refine ready.checked not_not fun _ => ?_
  obtain ⟨new, owners, map⟩ := installAll_refines fds ready.coherent (prepareBatch_ready sound origins) pos
  refine ⟨new, owners.trans ready.owners, ?_⟩
  rw [prepareBatch_origins, ready.origins] at map
  exact map

theorem finish_becomes (sound : Coherent t) (origin : Option Origin) (res : Int32) :
    Becomes t (perform t (.finish origin res)) (specify (originsOf t) t.owners (.finish origin res)) := by
  have ready := prepare_becomes sound origin
  simp only [perform, specify, finish]
  by_cases positive : 0 ≤ res
  · rw [if_pos positive, if_pos positive]
    obtain ⟨new, owners, map⟩ := installAll_refines [res] ready.coherent (prepareBatch_ready sound [origin])
      (by simpa using positive)
    refine ⟨new, owners.trans ready.owners, ?_⟩
    rw [prepareBatch_origins, ready.origins] at map
    exact map
  · rw [if_neg positive, if_neg positive]
    exact ready

theorem modifyEntry_becomes (sound : Coherent t) (fd : UInt32) (change : Entry → Entry) (change' : Origin → Origin)
    (stake : ∀ e, (change e).stake = e.stake) (own : ∀ e, (change e).fd = e.fd)
    (same : ∀ e, (change e).origin = change' e.origin) :
    Becomes t (modifyEntry t fd change) (modifyOrigin (originsOf t) fd change') := by
  obtain ⟨new, found, owners⟩ := modifyEntry_refines sound fd stake own
  refine ⟨new, owners, ?_⟩
  funext other
  rw [originsOf, found other, modifyOrigin]
  by_cases here : other = fd
  · rw [if_pos here, here, update_self, originsOf, Option.map_map, Option.map_map]
    exact map_congr fun e _ => same e
  · rw [if_neg here, update_of_ne here, originsOf]

theorem setFlags_becomes (sound : Coherent t) (fd : Int32) (flags : UInt32) :
    Becomes t (perform t (.setFlags fd flags)) (specify (originsOf t) t.owners (.setFlags fd flags)) := by
  refine (Becomes.same sound).checked (by rw [not_or, not_not, Int32.not_lt]) fun _ => ?_
  exact (modifyEntry_becomes sound _ (fun e => { e with flags := flags }) (fun o => { o with flags := flags })
    (fun _ => rfl) (fun _ => rfl)
    fun _ => rfl).changed

theorem channelResolve_becomes (sound : Coherent t) (num : Int32) (channel : ChannelId) (same : Bool) (flags : UInt32) :
    Becomes t (perform t (.channelResolve num channel same flags))
      (specify (originsOf t) t.owners (.channelResolve num channel same flags)) := by
  have unchanged := Becomes.same sound
  simp only [perform, specify, channelResolve, ← and_assoc]
  rw [ite_and]
  refine unchanged.checked (by rw [not_or, not_not, Int32.not_lt]) fun fine => ?_
  rw [show originsOf t num.toUInt32 = (slot t num.toUInt32).map Entry.origin from rfl]
  cases slot t num.toUInt32 with
  | none => exact unchanged
  | some e =>
    refine unchanged.checked (by simp [Entry.origin]) fun _ => ?_
    cases same with
    | true =>
      exact (modifyEntry_becomes sound _ (fun e => { e with uncertain := false, flags := flags })
        (fun o => { o with uncertain := false, flags := flags }) (fun _ => rfl) (fun _ => rfl) fun _ => rfl).changed
    | false =>
      obtain ⟨new, origins, -, owners, -⟩ := install_refines sound none num.toUInt32 (by simp)
        (by simp) (toUInt32_small fine.1)
      exact ⟨new, owners, origins⟩

theorem fate_origin (action : Retirement) (first last : UInt32) (e : Entry) :
    (fate action false first last e).map Entry.origin = if first ≤ e.fd ∧
    e.fd ≤ last then e.origin.fate action else some e.origin := by
  by_cases inside : first ≤ e.fd ∧ e.fd ≤ last
  · cases action with
    | close => simp [fate, selected, inside, Origin.fate]
    | cloexec => simp [fate, selected, inside, Origin.fate, Entry.origin]
    | uncertain =>
      by_cases held : e.channel.isSome ∨ e.loan.isSome
      · simp [fate, selected, inside, Origin.fate, Entry.origin, held]
      · simp [fate, selected, inside, Origin.fate, Entry.origin, held]
  · rw [if_neg inside, fate_unselected (by simp [selected, inside])]
    rfl

theorem fate_exec_origin (e : Entry) :
    (fate .close true 0 0 e).map Entry.origin = if e.uncertain = false ∧
    e.flags &&& FD_CLOEXEC ≠ 0 then none else some e.origin := by
  by_cases closes : e.uncertain = false ∧ e.flags &&& FD_CLOEXEC ≠ 0
  · simp [fate, selected, closes]
  · rw [if_neg closes, fate_unselected]
    · rfl
    · by_contra is
      exact closes (by simpa [selected] using is)

section

variable (sound : Coherent t)

include sound

theorem removeEntries_becomes (first last : UInt32) (action : Retirement) (order : first ≤ last) :
    Becomes t (removeEntries t first last action false).1 (sweepRange (originsOf t) first last action) := by
  obtain ⟨new, found⟩ := removeEntries_refines sound first last action false fun _ => order
  refine ⟨new, (removeEntries_same ..).2, ?_⟩
  funext fd
  rw [originsOf, found fd, sweepRange, originsOf]
  cases held : slot t fd with
  | none => rfl
  | some e => rw [bind_some, map_some, bind_some, fate_origin, slot_fd held]

theorem exec_becomes : Becomes t (exec t) (sweepExec (originsOf t)) := by
  obtain ⟨new, found⟩ := removeEntries_refines sound 0 0 .close true (by simp)
  refine ⟨new, (removeEntries_same ..).2, ?_⟩
  funext fd
  rw [exec, originsOf, found fd, sweepExec, originsOf]
  cases slot t fd with
  | none => rfl
  | some e =>
    rw [bind_some, map_some, bind_some, fate_exec_origin]
    rfl

theorem exit_becomes : Becomes t (exit t) (specify (originsOf t) t.owners .exit) := by
  simp only [exit, specify]
  split
  · have everything : sweepRange (originsOf t) 0 0xffffffff .close = fun _ => none := by
      funext fd
      rw [sweepRange]
      cases originsOf t fd with
      | none => rfl
      | some o =>
        have fits : (0 : UInt32) ≤ fd ∧ fd ≤ 0xffffffff :=
          ⟨UInt32.zero_le, UInt32.le_iff_toNat_le.mpr (le_of_lt_succ fd.toNat_lt)⟩
        rw [bind_some, if_pos fits]
        rfl
    rw [← everything]
    exact removeEntries_becomes sound _ _ .close (by decide)
  · exact .same sound

theorem sweep_becomes (first last : UInt32) (action : Retirement) :
    Becomes t ((do
      failIf (first > last) .EINVAL
      return (removeEntries t first last action false).1 : Except Errno Origins).toOption.getD t)
      (if first ≤ last then sweepRange (originsOf t) first last action else originsOf t) :=
  (Becomes.same sound).checked UInt32.not_lt fun order => removeEntries_becomes sound _ _ _ order

/-- Every operation does to the map what it is specified to do. -/
theorem perform_becomes (op : Operation) : Becomes t (perform t op) (specify (originsOf t) t.owners op) := by
  cases op with
  | finish origin res => exact finish_becomes sound origin res
  | finishBatch origins fds => exact finishBatch_becomes sound origins fds
  | abandon origin =>
    have ready := (prepare_becomes sound origin).changed
    simpa [perform, abandon, finish, specify] using ready
  | setFlags fd flags => exact setFlags_becomes sound fd flags
  | channelResolve num channel same flags => exact channelResolve_becomes sound num channel same flags
  | closeRange first last cloexec => exact sweep_becomes sound first last _
  | abandonRange first last => exact sweep_becomes sound first last .uncertain
  | exec => exact exec_becomes sound
  | exit => exact exit_becomes sound
  | closeUntracked turn num =>
    simp only [perform, closeUntracked, specify]
    split
    · exact (Becomes.same sound).changed
    · exact .same sound

end

section

variable {copy : Origins}

theorem copyEntry_refines (sound : Coherent copy) {p : Entry} (gone : slot copy p.fd = none)
    (small : p.fd.toNat < 2 ^ 31) :
    Becomes copy (copyEntry (bucketOf p.fd) copy p) (update (originsOf copy) p.fd (some p.origin)) := by
  let e : Entry := { p with id := copy.nextId, loan := p.loan.map fun slot => ⟨copy.nextId + 1, slot.owner⟩ }
  have origin : e.origin = p.origin := by
    simp only [e, Entry.origin, Option.map_map]
    rfl
  have others : ((entriesOf copy).filter fun x => x.fd ≠ p.fd) = entriesOf copy := by
    rw [sound.slot_eq, find?_eq_none] at gone
    exact filter_eq_self.mpr (by simpa using gone)
  have replaces : Replaces copy (copyEntry (bucketOf p.fd) copy p) p.fd (some e) := by
    have own : ∀ x, some e = some x → x.fd = p.fd := fun x is => some.inj is ▸ rfl
    rw [slot_chainsOf, find?_eq_none] at gone
    have near : (e :: chainsOf copy (bucketOf p.fd)).Perm
        (e :: (chainsOf copy (bucketOf p.fd)).filter fun x => x.fd ≠ p.fd) := by
      rw [filter_eq_self.mpr (by simpa using gone)]
    obtain ⟨placed, perm⟩ := sound.placed.update own near
    exact ⟨own, placed, perm, le_add_right _ _⟩
  have slotLow : ∀ slot, e.loan = some slot → slot.id = copy.nextId + 1 := by
    intro slot is
    obtain ⟨old, -, rfl⟩ := map_eq_some_iff.mp is
    rfl
  have linked : (entryLink copy.ledger e).Fits (e :: entriesOf copy) := by
    refine sound.fits.link fun slot is used => ?_
    have below := sound.slot_known used
    rw [slotLow slot is] at below
    exact absurd below (by simp)
  refine ⟨replaces.coherent sound (others.symm ▸ linked) (fun x is => ?_) fun _ => small, rfl,
    origin ▸ replaces.origins sound⟩
  obtain rfl := some.inj is
  exact ⟨Nat.lt_add_of_pos_right (by decide), fun slot loan => slotLow slot loan ▸ lt_succ_self _⟩

theorem copyEntries_refines {entries : List Entry} (sound : Coherent copy) (nodup : (entries.map Entry.fd).Nodup)
    (gone : ∀ p ∈ entries, slot copy p.fd = none) (small : ∀ p ∈ entries, p.fd.toNat < 2 ^ 31) :
    Becomes copy (entries.foldl (fun copy p => copyEntry (bucketOf p.fd) copy p) copy)
      fun fd => ((entries.find? (·.fd == fd)).map Entry.origin).or (originsOf copy fd) := by
  induction entries generalizing copy with
  | nil => exact .same sound
  | cons p rest ih =>
    obtain ⟨fresh, nodup⟩ := nodup_cons.mp nodup
    have one := copyEntry_refines sound (gone p mem_cons_self) (small p mem_cons_self)
    have still : ∀ q ∈ rest, slot (copyEntry (bucketOf p.fd) copy p) q.fd = none := by
      intro q mem
      have ne : q.fd ≠ p.fd := fun same => fresh (same ▸ mem_map_of_mem mem)
      have origins := congrFun one.origins q.fd
      rw [update_of_ne ne, originsOf, originsOf, gone q (mem_cons_of_mem p mem)] at origins
      exact map_eq_none_iff.mp origins
    have more := ih one.coherent nodup still fun q mem => small q (mem_cons_of_mem p mem)
    refine ⟨more.coherent, more.owners.trans one.owners, more.origins.trans ?_⟩
    funext fd
    rw [one.origins]
    by_cases here : fd = p.fd
    · have later : rest.find? (·.fd == fd) = none := by
        rw [find?_eq_none]
        intro q mem
        simp only [beq_iff_eq]
        exact fun same => fresh ((same.trans here) ▸ mem_map_of_mem mem)
      rw [later, find?_cons_of_pos (by simp [here]), here, update_self]
      rfl
    · rw [update_of_ne here, find?_cons_of_neg (by simpa using Ne.symm here)]

theorem fork_eq (placed : Placed (chainsOf t)) :
    fork t = (entriesOf t).foldl (fun copy p => copyEntry (bucketOf p.fd) copy p) {} := by
  rw [entriesOf, allOf, foldl_flatMap]
  cases held : t.buckets with
  | none =>
    have empty : chainsOf t = fun _ => [] := by rw [chainsOf, held]; rfl
    rw [fork, held, empty]
    exact (foldl_fixed _).symm
  | some chains =>
    rw [chainsOf_some held] at placed ⊢
    rw [fork, held]
    refine foldl_ext _ _ _ fun copy i _ => foldl_ext _ _ _ fun copy p mem => ?_
    rw [placed.bucket i p mem]

theorem fork_becomes (sound : Coherent t) : Becomes {} (fork t) (originsOf t) := by
  have copied := copyEntries_refines coherent_new sound.placed.descriptors (fun p _ => rfl) sound.small
  rw [fork_eq sound.placed]
  refine ⟨copied.coherent, copied.owners, copied.origins.trans ?_⟩
  funext fd
  have nothing : originsOf {} fd = none := rfl
  rw [nothing, or_none, originsOf]
  congr 1
  exact (sound.slot_eq fd).symm

end

variable {tables : List Origins}

theorem modify_coherent (sound : ∀ t ∈ tables, Coherent t) {table : Nat} {change : Origins → Origins}
    (keeps : ∀ t, Coherent t → Coherent (change t)) : ∀ t ∈ tables.modify table change, Coherent t :=
  forall_mem_modify sound fun old there => keeps old (sound old (mem_of_getElem? there))

theorem happen_refines (sound : ∀ t ∈ tables, Coherent t) (event : TableEvent) :
    (∀ t ∈ happen tables event, Coherent t) ∧
      (happen tables event).map specOf = happenSpec (tables.map specOf) event := by
  cases event with
  | operation table operation =>
    refine ⟨modify_coherent sound fun t is => (perform_becomes is operation).coherent, map_modify_comm fun t mem => ?_⟩
    have becomes := perform_becomes (sound t mem) operation
    rw [specOf, becomes.origins, becomes.owners]
    rfl
  | fork table shared =>
    cases shared with
    | true => exact ⟨modify_coherent sound fun t is => is.grown rfl rfl (le_refl _), map_modify_comm fun t _ => rfl⟩
    | false =>
      have copies : ∀ t, tables[table]? = some t → Becomes {} (fork t) (originsOf t) := fun t there =>
        fork_becomes (sound t (mem_of_getElem? there))
      refine ⟨fun t mem => ?_, ?_⟩
      · rcases mem_append.mp mem with pre | new
        · exact sound t pre
        · obtain ⟨old, there, rfl⟩ := map_eq_some_iff.mp (mem_toList.mp new)
          exact (copies old there).coherent
      · simp only [happen, happenSpec, map_append, getElem?_map, Bool.false_eq_true, if_false]
        cases there : tables[table]? with
        | none => rfl
        | some t =>
          have copied := copies t there
          simp only [map_some, toList_some, map_cons, map_nil, specOf, copied.origins, copied.owners]

/-- Every table stands for the map that is specified, counts what it counts, and has its loans listed.
A sweep comes to the entries of its range and to no others, whichever chains it walks. -/
theorem origins_refine (events : List TableEvent) :
    (events.foldl happen [{}]).map specOf = events.foldl happenSpec [{}] ∧ ∀ t ∈ events.foldl happen [{}], Tracks t ∧
        ∀ first last action exec, (exec = false → first ≤ last) →
          entriesOf (removeEntries t first last action exec).1 =
            (entriesOf t).filterMap (fate action exec first last) := by
  have run : ∀ tables : List Origins, (∀ t ∈ tables, Coherent t) → (∀ t ∈ events.foldl happen tables, Coherent t) ∧
      (events.foldl happen tables).map specOf = events.foldl happenSpec (tables.map specOf) := by
    induction events with
    | nil => exact fun tables sound => ⟨sound, rfl⟩
    | cons event rest ih =>
      intro tables sound
      obtain ⟨still, same⟩ := happen_refines sound event
      obtain ⟨new, maps⟩ := ih (happen tables event) still
      exact ⟨new, by rw [foldl_cons, foldl_cons, maps, same]⟩
  obtain ⟨sound, maps⟩ := run [{}] (by simpa using coherent_new)
  refine ⟨maps, fun t mem => ⟨(sound t mem).tracks, fun first last action exec order => ?_⟩⟩
  obtain ⟨chains, -⟩ := removeEntries_eq (sound t mem).placed first last action exec order
  rw [entriesOf, chains, allOf_filterMap]
  rfl

/-- Two descriptors of one chain, a copy of the table, and a range that is closed in the first. -/
theorem origins_refine_forked :
    let events : List TableEvent :=
  [.operation 0 (.finish (some { flags := 1 }) 3), .operation 0 (.finish (some {}) 64),
      .fork 0 false, .operation 0 (.closeRange 0 10 false)]
    (events.foldl happen [{}]).map specOf = events.foldl happenSpec [{}] ∧
      (events.foldl happen [{}]).map (fun t => (entriesOf t).map Entry.fd) = [[64], [64, 3]] :=
  ⟨(origins_refine _).1, by decide +kernel⟩

end Shroot.FdOrigins
