import Shroot.FdOrigins.Model

namespace Shroot.FdOrigins

open General Function List UInt32 Nat

variable {fd : UInt32} {new : Option Entry} {t : Origins} {chains : Chains} {first last : UInt32} {e : Entry}
  {exec : Bool}

variable {chain : List Entry}

theorem replaceEntry_perm (distinct : (chain.map Entry.fd).Nodup) (fd : UInt32) (new : Option Entry) :
    (replaceEntry fd new chain).Perm (new.toList ++ chain.filter fun e => e.fd ≠ fd) := by
  induction chain with
  | nil => simp [replaceEntry]
  | cons e rest ih =>
    obtain ⟨fresh, distinct⟩ := nodup_cons.mp distinct
    by_cases here : e.fd = fd
    · subst here
      rw [replaceEntry, if_pos rfl, filter_cons_of_neg (by simp), filter_key_ne fresh]
    · rw [replaceEntry, if_neg here, filter_cons_of_pos (by simpa using here)]
      exact ((ih distinct).cons e).trans perm_middle.symm

theorem Placed.update (placed : Placed chains)
    (own : ∀ e, new = some e → e.fd = fd)
    (perm : chain.Perm (new.toList ++ (chains (bucketOf fd)).filter fun e => e.fd ≠ fd)) :
    Placed (update chains (bucketOf fd) chain) ∧
      (allOf (update chains (bucketOf fd) chain)).Perm (new.toList ++ (allOf chains).filter fun e => e.fd ≠ fd) := by
  have members : ∀ e ∈ chain, bucketOf e.fd = bucketOf fd := by
    intro e mem
    rcases mem_append.mp (perm.mem_iff.mp mem) with isNew | old
    · rw [own e (Option.mem_toList.mp isNew)]
    · exact placed.bucket _ e (mem_filter.mp old).1
  have distinct : (chain.map Entry.fd).Nodup := by
    have fewer : (((chains (bucketOf fd)).filter fun e => e.fd ≠ fd).map Entry.fd).Nodup :=
      (placed.distinct _).sublist (filter_sublist.map _)
    refine (perm.map _).nodup_iff.mpr ?_
    cases new with
    | none => exact fewer
    | some e =>
      refine nodup_cons.mpr ⟨fun mem => ?_, fewer⟩
      obtain ⟨x, isIn, same⟩ := mem_map.mp mem
      have ne : x.fd ≠ fd := by simpa using (mem_filter.mp isIn).2
      exact ne (same.trans (own e rfl))
  refine ⟨⟨fun i e mem => ?_, fun i => ?_⟩, ?_⟩
  · by_cases here : i = bucketOf fd
    · subst here
      rw [update_self] at mem
      exact members e mem
    · rw [update_of_ne here] at mem
      exact placed.bucket i e mem
  · by_cases here : i = bucketOf fd
    · subst here
      rw [update_self]
      exact distinct
    · rw [update_of_ne here]
      exact placed.distinct i
  · -- no other chain has the descriptor
    have off : (((finRange 61).erase (bucketOf fd)).flatMap chains).filter (fun e => e.fd ≠ fd) =
        ((finRange 61).erase (bucketOf fd)).flatMap chains := by
      refine filter_eq_self.mpr fun e mem => ?_
      obtain ⟨i, listed, isIn⟩ := mem_flatMap.mp mem
      have ne : e.fd ≠ fd := by
        intro same
        have here := placed.bucket i e isIn
        rw [same] at here
        exact (List.Nodup.not_mem_erase (nodup_finRange 61)) (here ▸ listed)
      simpa using ne
    have pre := (allOf_perm chains (bucketOf fd)).filter fun e => e.fd ≠ fd
    rw [filter_append, off] at pre
    have post := (allOf_update_perm chains (bucketOf fd) chain).trans (perm.append_right _)
    rw [append_assoc] at post
    exact post.trans (pre.symm.append_left _)

section

def Entry.origin (e : Entry) : Origin := ⟨e.object, e.channel, e.loan.map LoanSlot.owner, e.flags, e.uncertain⟩

def originsOf (t : Origins) (fd : UInt32) : Option Origin := (slot t fd).map Entry.origin

variable {t' : Origins}

theorem chainsOf_some (is : t.buckets = some chains) : chainsOf t = chains := by rw [chainsOf, is, Option.getD_some]

theorem slot_fd (held : slot t fd = some e) : e.fd = fd := by
  rw [slot_chainsOf] at held
  simpa using find?_some held

def slotsOf (t : Origins) : List SlotId := (entriesOf t).filterMap Entry.slotId

theorem Coherent.slot_known (sound : Coherent t) {id : SlotId} (mem : id ∈ slotsOf t) : id < t.nextId := by
  obtain ⟨e, isIn, is⟩ := mem_filterMap.mp mem
  obtain ⟨slot, loan, rfl⟩ := Option.map_eq_some_iff.mp is
  exact (sound.known e isIn).2 slot loan

theorem Coherent.of_members (sound : Coherent t) (placed : Placed (chainsOf t')) (fits : t'.ledger.Fits (entriesOf t'))
    (more : t.nextId ≤ t'.nextId) (members : ∀ x ∈ entriesOf t', ∃ y ∈ entriesOf t, x.stake = y.stake ∧ x.fd = y.fd) :
    Coherent t' := by
  refine ⟨placed, fits, fun x mem => ?_, fun x mem => ?_⟩
  · obtain ⟨y, old, same, -⟩ := members x mem
    obtain ⟨id, -, loan⟩ : x.id = y.id ∧ x.object = y.object ∧ x.loan = y.loan := by simpa [Entry.stake] using same
    obtain ⟨known, slots⟩ := sound.known y old
    rw [id, loan]
    exact ⟨known.trans_le more, fun slot is => (slots slot is).trans_le more⟩
  · obtain ⟨y, old, -, same⟩ := members x mem
    rw [same]
    exact sound.small y old

theorem Coherent.grown (sound : Coherent t) (chains : chainsOf t' = chainsOf t) (ledger : t'.ledger = t.ledger)
    (more : t.nextId ≤ t'.nextId) : Coherent t' := by
  have entries : entriesOf t' = entriesOf t := by rw [entriesOf, chains, entriesOf]
  refine sound.of_members (chains ▸ sound.placed) ?_ more fun x mem => ⟨x, entries ▸ mem, rfl, rfl⟩
  rw [entries, ledger]
  exact sound.fits

/-- A table with another entry, or none, for a descriptor. -/
structure Replaces (t t' : Origins) (fd : UInt32) (new : Option Entry) : Prop where
  own : ∀ e, new = some e → e.fd = fd
  placed : Placed (chainsOf t')
  perm : (entriesOf t').Perm (new.toList ++ (entriesOf t).filter fun e => e.fd ≠ fd)
  more : t.nextId ≤ t'.nextId

section

variable (replaces : Replaces t t' fd new)

include replaces

theorem Replaces.mem {x : Entry} (mem : x ∈ entriesOf t') : new = some x ∨ x ∈ entriesOf t := by
  rcases mem_append.mp (replaces.perm.mem_iff.mp mem) with isNew | old
  · exact .inl (Option.mem_toList.mp isNew)
  · exact .inr (mem_filter.mp old).1

theorem Replaces.coherent (sound : Coherent t)
    (fits : t'.ledger.Fits (new.toList ++ (entriesOf t).filter fun e => e.fd ≠ fd))
    (known : ∀ e, new = some e → e.id < t'.nextId ∧ ∀ slot, e.loan = some slot → slot.id < t'.nextId)
    (small : new.isSome → fd.toNat < 2 ^ 31) : Coherent t' := by
  refine ⟨replaces.placed, fits.perm replaces.perm.symm, fun x mem => ?_, fun x mem => ?_⟩
  · rcases replaces.mem mem with isNew | old
    · exact known x isNew
    · obtain ⟨id, slots⟩ := sound.known x old
      exact ⟨id.trans_le replaces.more, fun slot is => (slots slot is).trans_le replaces.more⟩
  · rcases replaces.mem mem with isNew | old
    · rw [replaces.own x isNew]
      exact small (isNew ▸ rfl)
    · exact sound.small x old

theorem Replaces.slot (sound : Coherent t) (other : UInt32) :
    slot t' other = if other = fd then new else slot t other := by
  rw [slot_chainsOf, replaces.placed.find, find_of_perm replaces.placed.descriptors replaces.perm, find?_append,
    sound.slot_eq]
  by_cases same : other = fd
  · subst same
    have gone : ((entriesOf t).filter fun e => e.fd ≠ other).find? (·.fd == other) = none := by simp
    rw [if_pos rfl, gone, Option.or_none]
    cases new with
    | none => rfl
    | some e => simp [replaces.own e rfl]
  · have free : new.toList.find? (·.fd == other) = none := by
      rw [find?_eq_none]
      intro e mem
      rw [replaces.own e (Option.mem_toList.mp mem)]
      simpa using Ne.symm same
    rw [if_neg same, free, Option.none_or, find?_filter]
    congr 1
    funext e
    by_cases here : e.fd = other <;> simp [here, same]

theorem Replaces.origins (sound : Coherent t) : originsOf t' = update (originsOf t) fd (new.map Entry.origin) := by
  funext other
  rw [originsOf, replaces.slot sound]
  by_cases here : other = fd
  · rw [if_pos here, here, update_self]
  · rw [if_neg here, update_of_ne here, originsOf]

end

theorem Coherent.replaces (sound : Coherent t) (own : ∀ e, new = some e → e.fd = fd)
    (chains : chainsOf t' = update (chainsOf t) (bucketOf fd) (replaceEntry fd new (chainsOf t (bucketOf fd))))
    (more : t.nextId ≤ t'.nextId) : Replaces t t' fd new := by
  obtain ⟨placed, perm⟩ := sound.placed.update own (replaceEntry_perm (sound.placed.distinct _) fd new)
  rw [← chains] at placed perm
  exact ⟨own, placed, perm, more⟩

theorem Coherent.split (sound : Coherent t) (fd : UInt32) :
    (entriesOf t).Perm ((slot t fd).toList ++ (entriesOf t).filter fun e => e.fd ≠ fd) := by
  rw [sound.slot_eq]
  exact perm_find_filter sound.placed.descriptors fd

end

/-- An entry that is in no table yet. -/
structure FreshIn (t : Origins) (e : Entry) : Prop where
  id : e.id < t.nextId
  slot : ∀ slot, e.loan = some slot → slot.id < t.nextId ∧ slot.id ∉ slotsOf t

theorem changed_same (t : Origins) :
    (changed t).buckets = t.buckets ∧ (changed t).ledger = t.ledger ∧ (changed t).nextId = t.nextId ∧
    (changed t).owners = t.owners := by
  unfold changed
  split
  · exact ⟨rfl, rfl, rfl, rfl⟩
  · exact ⟨rfl, rfl, rfl, rfl⟩

theorem changed_chains (t : Origins) : chainsOf (changed t) = chainsOf t := by
  rw [chainsOf, (changed_same t).1, chainsOf]

theorem changed_slot (t : Origins) (fd : UInt32) : slot (changed t) fd = slot t fd := by
  rw [slot_chainsOf, slot_chainsOf, changed_chains]

theorem Coherent.changed (sound : Coherent t) : Coherent (changed t) := by
  obtain ⟨-, ledger, next, -⟩ := changed_same t
  exact sound.grown (changed_chains t) ledger next.ge

def unlinked (t : Origins) (fd : UInt32) : Ledger := (slot t fd).elim t.ledger (entryUnlink t.ledger)

theorem install_eq {entry : Option Entry} (room : entry.isSome → t.buckets.isSome) (fd : UInt32) :
    chainsOf (install t entry fd).1 = update (chainsOf t) (bucketOf fd)
        (replaceEntry fd (entry.map fun e => { e with fd := fd }) (chainsOf t (bucketOf fd))) ∧
      (install t entry fd).1.ledger = entry.elim (unlinked t fd) (entryLink (unlinked t fd)) ∧
      (install t entry fd).1.nextId = t.nextId ∧ (install t entry fd).1.owners = t.owners ∧
      (install t entry fd).1.buckets.isSome = t.buckets.isSome := by
  obtain ⟨buckets, ledger, next, owners⟩ := changed_same t
  cases held : t.buckets with
  | none =>
    have none : entry = none := Option.not_isSome_iff_eq_none.mp fun some => by simpa [held] using room some
    have same : (install t entry fd).1 = changed t := by
      unfold install
      simp only [buckets, held]
    have empty : chainsOf t = fun _ => [] := by rw [chainsOf, held]; rfl
    rw [same, changed_chains, none, unlinked, slot, held, empty, buckets, held]
    exact ⟨(update_eq_self _ _).symm, ledger, next, owners, rfl⟩
  | some chains =>
    unfold install unlinked
    simp only [buckets, held, changed_slot, ledger, chainsOf_some held]
    exact ⟨rfl, trivial, next, owners, rfl⟩

theorem install_refines (sound : Coherent t) (entry : Option Entry) (fd : UInt32)
    (fresh : ∀ e, entry = some e → FreshIn t e) (room : entry.isSome → t.buckets.isSome) (small : fd.toNat < 2 ^ 31) :
    Coherent (install t entry fd).1 ∧
    originsOf (install t entry fd).1 = update (originsOf t) fd (entry.map Entry.origin) ∧
      (install t entry fd).1.nextId = t.nextId ∧ (install t entry fd).1.owners = t.owners ∧
      (install t entry fd).1.buckets.isSome = t.buckets.isSome ∧
      ∀ id ∈ slotsOf (install t entry fd).1, id ∈ slotsOf t ∨ ∃ e, entry = some e ∧ e.slotId = some id := by
  obtain ⟨chains, ledger, next, owners, buckets⟩ := install_eq room fd
  have own : ∀ e, (entry.map fun e => { e with fd := fd }) = some e → e.fd = fd := by
    intro e is
    obtain ⟨x, -, rfl⟩ := Option.map_eq_some_iff.mp is
    rfl
  have replaces := sound.replaces own chains next.ge
  have fits : (unlinked t fd).Fits ((entriesOf t).filter fun e => e.fd ≠ fd) := by
    have pre := sound.fits.perm (sound.split fd)
    unfold unlinked
    cases found : slot t fd with
    | none =>
      rw [found] at pre
      exact pre
    | some e =>
      rw [found] at pre
      exact pre.unlink
  have fits' : (install t entry fd).1.ledger.Fits ((entry.map fun e => { e with fd := fd }).toList ++
      (entriesOf t).filter fun e => e.fd ≠ fd) := by
    rw [ledger]
    cases is : entry with
    | none => exact fits
    | some e =>
      refine (fits.link fun slot loan mem => ((fresh e is).slot slot loan).2 ?_).congr rfl
      exact (filter_sublist.filterMap _).subset mem
  have known : ∀ e, (entry.map fun e => { e with fd := fd }) = some e → e.id < (install t entry fd).1.nextId ∧
      ∀ slot, e.loan = some slot → slot.id < (install t entry fd).1.nextId := by
    intro e is
    obtain ⟨x, isEntry, rfl⟩ := Option.map_eq_some_iff.mp is
    rw [next]
    exact ⟨(fresh x isEntry).id, fun slot loan => ((fresh x isEntry).slot slot loan).1⟩
  refine ⟨replaces.coherent sound fits' known fun _ => small, ?_, next, owners, buckets, fun id mem => ?_⟩
  · rw [replaces.origins sound]
    cases entry <;> rfl
  · obtain ⟨x, isIn, is⟩ := mem_filterMap.mp mem
    rcases replaces.mem isIn with isNew | old
    · obtain ⟨e, isEntry, rfl⟩ := Option.map_eq_some_iff.mp isNew
      exact .inr ⟨e, isEntry, is⟩
    · exact .inl (mem_filterMap.mpr ⟨x, old, is⟩)

theorem modifyEntry_refines (sound : Coherent t) (fd : UInt32) {change : Entry → Entry}
    (stake : ∀ e, (change e).stake = e.stake) (own : ∀ e, (change e).fd = e.fd) :
    Coherent (modifyEntry t fd change) ∧
      (∀ other, slot (modifyEntry t fd change) other = if other = fd then (slot t fd).map change else slot t other) ∧
      (modifyEntry t fd change).owners = t.owners := by
  cases held : slot t fd with
  | none =>
    have same : modifyEntry t fd change = t := by rw [modifyEntry, held]
    rw [same]
    refine ⟨sound, fun other => ?_, rfl⟩
    by_cases here : other = fd
    · rw [if_pos here, here, held, Option.map_none]
    · rw [if_neg here]
  | some e =>
    have isNew : ∀ x, some (change e) = some x → x.fd = fd := by
      rintro x is
      rw [← Option.some.inj is, own, slot_fd held]
    have chainsAfter : chainsOf (modifyEntry t fd change) =
        update (chainsOf t) (bucketOf fd) (replaceEntry fd (some (change e)) (chainsOf t (bucketOf fd))) := by
      rw [modifyEntry, held, chainsOf, chainsOf]
      cases inside : t.buckets with
      | none => rw [slot, inside] at held; cases held
      | some chains => rfl
    have ledger : (modifyEntry t fd change).ledger = t.ledger ∧ (modifyEntry t fd change).nextId = t.nextId ∧
        (modifyEntry t fd change).owners = t.owners := by
      rw [modifyEntry, held]
      exact ⟨rfl, rfl, rfl⟩
    have replaces := sound.replaces isNew chainsAfter ledger.2.1.ge
    have split := sound.split fd
    rw [held] at split
    refine ⟨sound.of_members replaces.placed ?_ ledger.2.1.ge fun x mem => ?_, replaces.slot sound, ledger.2.2⟩
    · rw [ledger.1]
      refine ((sound.fits.perm split).congr ?_).perm replaces.perm.symm
      simp [stake]
    · rcases replaces.mem mem with isIt | old
      · obtain rfl := Option.some.inj isIt
        exact ⟨e, split.mem_iff.mpr mem_cons_self, stake e, own e⟩
      · exact ⟨x, old, rfl, rfl⟩

theorem fate_keeps (action : Retirement) (exec : Bool) (first last : UInt32) (e kept : Entry)
    (is : fate action exec first last e = some kept) : kept.stake = e.stake ∧ kept.fd = e.fd := by
  unfold fate at is
  split at is
  · rw [← Option.some.inj is]
    exact ⟨rfl, rfl⟩
  · split at is
    · cases is
    · split at is
      · rw [← Option.some.inj is]
        exact ⟨rfl, rfl⟩
      · rw [← Option.some.inj is]
        exact ⟨rfl, rfl⟩

theorem fate_unselected {action : Retirement} (unselected : selected exec first last e = false) :
    fate action exec first last e = some e := by
  simp [fate, unselected]

theorem sweepChain_eq (choose : Entry → Option Entry) (ledger : Ledger) (gone chain : List Entry) :
    sweepChain choose ledger gone chain =
      ((chain.filter fun e => (choose e).isNone).foldl entryUnlink ledger, chain.filterMap choose,
        (chain.filter fun e => (choose e).isNone).reverse ++ gone) := by
  induction chain generalizing ledger gone with
  | nil => rfl
  | cons e rest ih =>
    cases chosen : choose e with
    | none => simp [sweepChain, chosen, ih]
    | some kept => simp [sweepChain, chosen, ih]

theorem sweep_eq (choose : Entry → Option Entry) (order : List (Fin 61)) (distinct : order.Nodup) (ledger : Ledger)
    (gone : List Entry) (chains : Chains) :
    order.foldl (fun (state : Ledger × List Entry × Chains) i =>
      let walked := sweepChain choose state.1 state.2.1 (state.2.2 i)
      (walked.1, walked.2.2, update state.2.2 i walked.2.1)) (ledger, gone, chains) =
    ((order.flatMap fun i => (chains i).filter fun e => (choose e).isNone).foldl entryUnlink ledger,
      (order.flatMap fun i => (chains i).filter fun e => (choose e).isNone).reverse ++ gone,
      fun i => if i ∈ order then (chains i).filterMap choose else chains i) := by
  induction order generalizing ledger gone chains with
  | nil => simp
  | cons i rest ih =>
    obtain ⟨fresh, distinct⟩ := nodup_cons.mp distinct
    have others : ∀ chain, ∀ j ∈ rest, update chains i chain j = chains j := by
      intro chain j mem
      refine update_of_ne ?_ _ _
      rintro rfl
      exact fresh mem
    have same : ∀ chain, (rest.flatMap fun j => (update chains i chain j).filter fun e => (choose e).isNone) =
        rest.flatMap fun j => (chains j).filter fun e => (choose e).isNone := by
      intro chain
      refine flatMap_congr fun j mem => ?_
      rw [others chain j mem]
    rw [foldl_cons, sweepChain_eq, ih distinct, same]
    refine Prod.ext ?_ (Prod.ext ?_ ?_)
    · rw [flatMap_cons, foldl_append]
    · simp only [flatMap_cons, reverse_append, append_assoc]
    · funext j
      by_cases here : j = i
      · subst here
        simp [fresh]
      · by_cases later : j ∈ rest
        · simp [later, here]
        · simp [later, here]

theorem span_succ {n : UInt32} (below : n < 61) : n.toNat < 61 ∧ (n + 1).toNat = n.toNat + 1 := by
  have lt : n.toNat < 61 := lt_iff_toNat_lt.mp below
  refine ⟨lt, ?_⟩
  exact mod_eq_of_lt (by simpa using by omega)

theorem walkedBuckets_distinct (exec : Bool) (first last : UInt32) : (walkedBuckets exec first last).Nodup := by
  have few : ∀ count start : Nat, count ≤ 61 →
      ((range count).map fun n => (⟨(start + n) % 61, mod_lt _ (by decide)⟩ : Fin 61)).Nodup := by
    intro count start le
    refine (nodup_map_iff_inj_on nodup_range).mpr fun n isIn m inside' same => ?_
    have values : (start + n) % 61 = (start + m) % 61 := congrArg Fin.val same
    have lt := mem_range.mp isIn
    have lt' := mem_range.mp inside'
    omega
  refine few _ _ ?_
  split
  next short =>
    have span := span_succ short.2
    omega
  · exact le_refl _

/-- The walk of a short range comes to the chain of each of its descriptors. -/
theorem mem_walkedBuckets (order : exec = false → first ≤ last)
    (isIn : exec = true ∨ first ≤ fd ∧ fd ≤ last) : bucketOf fd ∈ walkedBuckets exec first last := by
  unfold walkedBuckets
  simp only [mem_map, mem_range, Fin.ext_iff, bucketOf]
  by_cases short : exec = false ∧ last - first < 61
  · obtain ⟨isRange, narrow⟩ := short
    have bounds : first ≤ fd ∧ fd ≤ last := isIn.resolve_left (by simp [isRange])
    have low := le_iff_toNat_le.mp bounds.1
    have high := le_iff_toNat_le.mp bounds.2
    have span : (last - first).toNat = last.toNat - first.toNat := UInt32.toNat_sub_of_le _ _ (order isRange)
    obtain ⟨below, next⟩ := span_succ narrow
    rw [if_pos ⟨isRange, narrow⟩, next]
    split
    · exact ⟨fd.toNat - first.toNat, by omega, by omega⟩
    · exact ⟨fd.toNat % 61, by omega, by omega⟩
  · rw [if_neg short, if_neg (lt_irrefl 61)]
    exact ⟨fd.toNat % 61, mod_lt _ (by decide), by omega⟩

theorem removeEntries_same (t : Origins) (first last : UInt32) (action : Retirement) (exec : Bool) :
    (removeEntries t first last action exec).1.nextId = t.nextId ∧
    (removeEntries t first last action exec).1.owners = t.owners := by
  obtain ⟨-, -, next, owners⟩ := changed_same t
  unfold removeEntries
  dsimp only
  cases (changed t).buckets with
  | none => exact ⟨next, owners⟩
  | some chains => exact ⟨next, owners⟩

/-- Walking some chains or all of them comes to the same. -/
theorem removeEntries_eq (placed : Placed (chainsOf t)) (first last : UInt32) (action : Retirement) (exec : Bool)
    (order : exec = false → first ≤ last) :
    chainsOf (removeEntries t first last action exec).1 =
      (fun i => (chainsOf t i).filterMap (fate action exec first last)) ∧
      ∃ retired : List Entry, retired.Perm ((entriesOf t).filter fun e => (fate action exec first last e).isNone) ∧
        (removeEntries t first last action exec).1.ledger = retired.foldl entryUnlink t.ledger := by
  obtain ⟨buckets, ledger, -, -⟩ := changed_same t
  cases held : t.buckets with
  | none =>
    have same : (removeEntries t first last action exec).1 = changed t := by
      unfold removeEntries
      simp only [buckets, held]
    have empty : chainsOf t = fun _ => [] := by rw [chainsOf, held]; rfl
    rw [same, changed_chains, entriesOf, empty, ledger]
    refine ⟨rfl, [], ?_, rfl⟩
    exact .refl _
  | some chains =>
    have isChains := chainsOf_some held
    rw [isChains] at placed
    have unwalked : ∀ i, i ∉ walkedBuckets exec first last →
        ∀ e ∈ chains i, fate action exec first last e = some e := by
      intro i out e mem
      refine fate_unselected ?_
      by_contra is
      have chosen : selected exec first last e = true := by simpa using is
      refine out ?_
      rw [← placed.bucket i e mem]
      refine mem_walkedBuckets order ?_
      unfold selected at chosen
      cases exec with
      | true => exact .inl rfl
      | false => exact .inr (by simpa using chosen)
    have swept := sweep_eq (fate action exec first last) _ (walkedBuckets_distinct exec first last) t.ledger [] chains
    have res : (removeEntries t first last action exec).1 = { changed t with
        ledger := ((walkedBuckets exec first last).flatMap fun i => (chains i).filter fun e =>
          (fate action exec first last e).isNone).foldl entryUnlink t.ledger
        buckets := some fun i => if i ∈ walkedBuckets exec first last
          then (chains i).filterMap (fate action exec first last) else chains i } := by
      unfold removeEntries
      simp only [buckets, held, ledger, swept]
    rw [res]
    refine ⟨?_, _, ?_, rfl⟩
    · funext i
      change (if i ∈ walkedBuckets exec first last then (chains i).filterMap (fate action exec first last)
        else chains i) = _
      rw [isChains]
      split
      · rfl
      next out => rw [filterMap_congr (unwalked i out), filterMap_some]
    · rw [entriesOf, isChains, ← allOf_filter]
      refine flatMap_perm_allOf (walkedBuckets_distinct exec first last) fun i out => ?_
      rw [filter_eq_nil_iff]
      intro e mem
      simp [unwalked i out e mem]

theorem removeEntries_refines (sound : Coherent t) (first last : UInt32) (action : Retirement) (exec : Bool)
    (order : exec = false → first ≤ last) :
    Coherent (removeEntries t first last action exec).1 ∧
      ∀ fd, slot (removeEntries t first last action exec).1 fd = (slot t fd).bind (fate action exec first last) := by
  obtain ⟨chains, gone, perm, ledger⟩ := removeEntries_eq sound.placed first last action exec order
  have kept := fate_keeps action exec first last
  have entries : entriesOf (removeEntries t first last action exec).1 =
      (entriesOf t).filterMap (fate action exec first last) := by
    rw [entriesOf, chains, allOf_filterMap]
    rfl
  have members : ∀ x ∈ entriesOf (removeEntries t first last action exec).1, ∃ y ∈ entriesOf t, x.stake = y.stake ∧
      x.fd = y.fd := by
    intro x mem
    rw [entries] at mem
    obtain ⟨y, old, is⟩ := mem_filterMap.mp mem
    exact ⟨y, old, kept y x is⟩
  have fits : (removeEntries t first last action exec).1.ledger.Fits
      (entriesOf (removeEntries t first last action exec).1) := by
    rw [ledger, entries]
    have split := filter_append_filterMap_perm (entriesOf t) (fate action exec first last)
    have without := (sound.fits.perm (split.trans (perm.symm.append_right _))).unlinkAll
    exact without.congr (map_filterMap_of_kept fun x y is => (kept x y is).1)
  have placed : Placed (chainsOf (removeEntries t first last action exec).1) := by
    rw [chains]
    refine ⟨fun i e mem => ?_, fun i => ?_⟩
    · obtain ⟨y, old, is⟩ := mem_filterMap.mp mem
      rw [(kept y e is).2]
      exact sound.placed.bucket i y old
    · rw [map_filterMap_of_kept fun x y is => (kept x y is).2]
      exact (sound.placed.distinct i).sublist (filter_sublist.map _)
  refine ⟨sound.of_members placed fits (removeEntries_same ..).1.ge members, fun fd => ?_⟩
  · rw [slot_chainsOf, slot_chainsOf, chains]
    exact find_filterMap (sound.placed.distinct _) (fun x y is => (kept x y is).2) fd

end Shroot.FdOrigins
