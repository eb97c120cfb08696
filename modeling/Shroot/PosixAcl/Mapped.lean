import Shroot.PosixAcl.Model
import Shroot.UserNamespace.Installed

namespace Shroot.PosixAcl

open General List BitVec

section

variable {mode : BitVec 32} {acl : Acl} {p : Parts}

theorem aclValid_iff : aclValid (some acl) = true ↔
    (4 ≤ acl.size ∧ acl.size ≤ ACL_MAX ∧ (acl.size - 4) % 8 = 0) ∧ acl.version = 2 ∧
    (acl.size = 4 ∨ Reads {} acl.entries) := by
  simp [aclValid, Reads, Option.any_eq_true]

theorem valid_parts (valid : aclValid (some acl) = true) (given : acl.entries ≠ []) :
    ∃ p : Parts, acl.entries = p.entries := by
  have count := acl.counted
  have long := length_pos_iff.mpr given
  exact reads_iff.mp ((aclValid_iff.mp valid).2.2.resolve_left (by omega))

theorem valid_of_parts {changed : Acl} (valid : aclValid (some acl) = true) (size : changed.size = acl.size)
    (version : changed.version = acl.version) (is : changed.entries = p.entries) : aclValid (some changed) = true := by
  rw [aclValid_iff, size, version]
  exact (aclValid_iff.mp valid).imp_right fun rest => ⟨rest.1, .inr (reads_iff.mpr ⟨p, is⟩)⟩

def Parts.chmod (p : Parts) (mode : BitVec 32) (inherit : Bool) : Parts :=
  let set (old : BitVec 3) (bits : BitVec 32) := if inherit then old &&& bits.setWidth 3 else bits.setWidth 3
  { p with
    owner := set p.owner (mode >>> 6)
    group := if p.mask.isSome then p.group else set p.group (mode >>> 3)
    mask := p.mask.map (set · (mode >>> 3))
    other := set p.other mode
    masked := by simpa using p.masked }

def Parts.bits (p : Parts) : BitVec 9 :=
  p.owner.setWidth 9 <<< 6 ||| (p.mask.getD p.group).setWidth 9 <<< 3 ||| p.other.setWidth 9

theorem low_bits (bits : BitVec 32) : bits &&& 7#32 = (bits.setWidth 3).setWidth 32 := by
  refine eq_of_toNat_eq ?_
  rw [toNat_and, show (7#32).toNat = 2 ^ 3 - 1 from rfl, Nat.and_two_pow_sub_one_eq_mod]
  simp
  omega

theorem chmod_entries (inherit : Bool) :
    p.entries.map (chmodEntry mode inherit (p.entries.any (·.tag = ACL_MASK))) = (p.chmod mode inherit).entries := by
  have masked : p.entries.any (·.tag = ACL_MASK) = p.mask.isSome := by
    cases h : p.mask <;> simp [Parts.entries, Named.entries, entry, h]
  cases h : p.mask <;> cases inherit <;>
    simp [Parts.entries, Parts.chmod, Named.entries, chmodEntry, chmodBits, entry, h, low_bits, Function.comp_def]

theorem mode_bits (mode : BitVec 32) : (p.entries.foldl modeNext (mode &&& ~~~0o777)).setWidth 9 = p.bits := by
  have skip (tag : Nat) (named) (mode) (kind : tag = ACL_USER ∨ tag = ACL_GROUP) :
      (Named.entries tag named).foldl modeNext mode = mode := by
    rw [Named.entries, foldl_map]
    rcases kind with rfl | rfl <;> exact foldl_fixed' (fun _ => rfl) _
  simp only [Parts.entries, foldl_cons, foldl_append, skip, true_or, or_true]
  refine eq_of_getLsbD_eq fun i bound => ?_
  cases h : p.mask <;> interval_cases i <;> simp [modeNext, entry, Parts.bits, h]

theorem chmod_bits (p : Parts) (mode : BitVec 32) :
    (p.chmod mode false).bits = mode.setWidth 9 ∧ (p.chmod mode true).bits = mode.setWidth 9 &&& p.bits := by
  constructor <;> refine eq_of_getLsbD_eq fun i bound => ?_
  · cases h : p.mask <;> interval_cases i <;> simp [Parts.bits, Parts.chmod, h]
  · cases h : p.mask <;> interval_cases i <;> simp [Parts.bits, Parts.chmod, h, Bool.and_comm]

variable {ids : Identity} {owner group : UInt32} {want fewer : BitVec 32} {e e' : AclEntry} {l l' : List AclEntry}

theorem grants_iff {permissions : BitVec 32} : grants permissions want = true ↔ Within want permissions := by
  rw [grants, decide_eq_true_iff, within_iff]
  constructor
  · intro same i mem
    have bit := congrArg (·.getLsbD i) same
    simpa [mem] using bit
  · intro mem
    refine eq_of_getLsbD_eq fun i _ => ?_
    grind

/-- The entry in the place of another, with no other permissions than its. -/
structure Lowers (e e' : AclEntry) : Prop where
  tag : e.tag = e'.tag
  id : e.id = e'.id
  permissions : Within e.permissions e'.permissions

theorem permissionFrom_mono {mask mask' other other' : BitVec 32} {seen may allowed' : Bool}
    (lowers : Forall₂ Lowers l l') (subset : Within fewer want) (masks : Within mask mask')
    (others : Within other other') (allows : may = true → allowed' = true)
    (granted : permissionFrom ids owner group want mask seen may other l = true) :
    permissionFrom ids owner group fewer mask' seen allowed' other' l' = true := by
  have grant {p p'} (within : Within p p') (given : grants p want = true) : grants p' fewer = true :=
    grants_iff.mpr (subset.trans ((grants_iff.mp given).trans within))
  have both {p p'} (within : Within p p') : Within (p &&& mask) (p' &&& mask') := by
    rw [within_iff] at within masks ⊢
    simp only [getLsbD_and, Bool.and_eq_true]
    exact fun i mem => ⟨within i mem.1, masks i mem.2⟩
  induction lowers generalizing seen may allowed' other other' with
  | nil =>
    unfold permissionFrom at granted ⊢
    split at granted
    next is => exact (if_pos is).trans (allows granted)
    next is => exact (if_neg is).trans (grant others granted)
  | cons low _ ih =>
    unfold permissionFrom at granted ⊢
    rw [← low.tag, ← low.id]
    split at granted
    next is => exact (if_pos is).trans (grant low.permissions granted)
    next is =>
      rw [if_neg is]
      split at granted
      next is => exact (if_pos is).trans (grant (both low.permissions) granted)
      next is =>
        rw [if_neg is]
        refine ih ?_ ?_ granted
        · split
          · exact low.permissions
          · exact others
        · simp only [Bool.or_eq_true, Bool.and_eq_true]
          exact Or.imp allows (.imp_right (grant (both low.permissions)))

theorem aclMask_mono (lowers : Forall₂ Lowers l l') : Within (aclMask l) (aclMask l') := by
  refine rel_foldl (P := Within) (R := Lowers) (fun mask mask' sub e e' low => ?_) (.refl _) lowers
  simp only [← low.tag]
  split
  · exact low.permissions
  · exact sub

theorem chmodEntry_lowers (mask : Bool) : Lowers (chmodEntry mode true mask e) e := by
  unfold chmodEntry
  split
  · exact ⟨rfl, rfl, .and_left (.refl _) _⟩
  · exact ⟨rfl, rfl, .refl _⟩

theorem aclPermission_ok : aclPermission acl ids owner group want = .ok () ↔
    permissionFrom ids owner group want (aclMask acl.entries) false false 0 acl.entries = true := by
  simp [aclPermission]

theorem class_bits (same : mode.setWidth 9 = p.bits) :
    mode >>> 6 &&& 7#32 = p.owner.setWidth 32 ∧ mode >>> 3 &&& 7#32 = (p.mask.getD p.group).setWidth 32 ∧
      mode &&& 7#32 = p.other.setWidth 32 := by
  have cut (k : Nat) (low : k ≤ 6) : mode >>> k &&& 7#32 = ((p.bits >>> k).setWidth 3).setWidth 32 := by
    rw [low_bits, ← same]
    refine congrArg _ (eq_of_getLsbD_eq fun i bound => ?_)
    simp [bound, show k + i < 9 by omega]
  refine ⟨(cut 6 (by omega)).trans ?_, (cut 3 (by omega)).trans ?_, (cut 0 (by omega)).trans ?_⟩ <;>
    refine congrArg _ (eq_of_getLsbD_eq fun i bound => ?_) <;> interval_cases i <;> simp [Parts.bits]

theorem classic_plain (is : acl.entries = p.entries)
    (plain : ∀ e ∈ acl.entries, e.tag ≠ ACL_USER ∧ e.tag ≠ ACL_GROUP ∧ e.tag ≠ ACL_MASK) (mode : BitVec 32) :
    aclPermission acl ids owner group want = classicCheck ids owner group want (aclMode acl mode) := by
  have same : (aclMode acl mode).setWidth 9 = p.bits := by
    rw [aclMode, is]
    exact mode_bits mode
  obtain ⟨ofOwner, ofGroup, ofOther⟩ := class_bits same
  have gone {tag : Nat} {named : Bits} (never : ∀ e ∈ acl.entries, e.tag ≠ tag)
      (inside : ∀ e ∈ Named.entries tag named, e ∈ p.entries) : named = [] := by
    cases named with
    | nil => rfl
    | cons x _ => exact absurd rfl (never _ (is ▸ inside _ mem_cons_self))
  have users : p.users.1 = [] := gone (fun e mem => (plain e mem).1) fun e mem => by simp [Parts.entries, mem]
  have groups : p.groups.1 = [] := gone (fun e mem => (plain e mem).2.1) fun e mem => by simp [Parts.entries, mem]
  have mask : p.mask = none := by
    cases h : p.mask with
    | none => rfl
    | some bits => exact absurd rfl ((plain (whole ACL_MASK bits) (is ▸ by simp [Parts.entries, h])).2.2)
  rw [mask] at ofGroup
  have entries : acl.entries = [whole ACL_USER_OBJ p.owner, whole ACL_GROUP_OBJ p.group, whole ACL_OTHER p.other] := by
    rw [is, Parts.entries, users, groups, mask]
    rfl
  have full : p.group.setWidth 32 &&& 7#32 = p.group.setWidth 32 := by simp [low_bits]
  by_cases own : ids.uid.fs = owner
  · simp [aclPermission, classicCheck, entries, permissionFrom, entry, own, ofOwner]
  · cases member : identityInGroup ids group <;>
    simp [aclPermission, classicCheck, entries, permissionFrom, entry, own, member, aclMask, ofGroup, ofOther, full]

/-- A list that is not empty and its mode. -/
theorem acl_modes (valid : aclValid (some acl) = true) (given : acl.entries ≠ []) (mode old : BitVec 32) :
    (∀ inherit, aclValid (some (aclChmod acl mode inherit)) = true) ∧
      (aclMode (aclChmod acl mode false) old).setWidth 9 = mode.setWidth 9 ∧
    (aclMode (aclChmod acl mode true) old).setWidth 9 = mode.setWidth 9 &&& (aclMode acl old).setWidth 9 ∧
    ∀ ids owner group want,
      (aclPermission (aclChmod acl mode true) ids owner group want = .ok () →
        aclPermission acl ids owner group want = .ok ()) ∧
      (∀ fewer, Within fewer want → aclPermission acl ids owner group want = .ok () →
        aclPermission acl ids owner group fewer = .ok ()) ∧
      ((∀ e ∈ acl.entries, e.tag ≠ ACL_USER ∧ e.tag ≠ ACL_GROUP ∧ e.tag ≠ ACL_MASK) →
        aclPermission acl ids owner group want = classicCheck ids owner group want (aclMode acl old)) := by
  obtain ⟨p, is⟩ := valid_parts valid given
  have changed (inherit : Bool) : (aclChmod acl mode inherit).entries = (p.chmod mode inherit).entries := by
    rw [← chmod_entries, ← is]
    rfl
  have bits (inherit : Bool) : (aclMode (aclChmod acl mode inherit) old).setWidth 9 = (p.chmod mode inherit).bits := by
    rw [aclMode, changed]
    exact mode_bits old
  refine ⟨fun inherit => valid_of_parts valid rfl rfl (changed inherit), (bits false).trans (chmod_bits p mode).1,
    (bits true).trans ?_, fun ids owner group want => ⟨?_, ?_, ?_⟩⟩
  · rw [(chmod_bits p mode).2, aclMode, is, mode_bits]
  · rw [aclPermission_ok, aclPermission_ok]
    have lowers : Forall₂ Lowers (aclChmod acl mode true).entries acl.entries := by
      rw [aclChmod, forall₂_map_left_iff, forall₂_same]
      exact fun e _ => chmodEntry_lowers _
    exact permissionFrom_mono lowers (.refl _) (aclMask_mono lowers) (.refl _) id
  · rw [aclPermission_ok]
    intro fewer subset may
    have same : Forall₂ Lowers acl.entries acl.entries := forall₂_same.mpr fun e _ => ⟨rfl, rfl, .refl _⟩
    exact aclPermission_ok.mpr (permissionFrom_mono same subset (.refl _) (.refl _) id may)
  · exact fun plain => classic_plain is plain old

/-- A list that names two users. -/
def namedAcl : Acl where
  size := 52
  version := 2
  entries := [⟨ACL_USER_OBJ, 7, uint32Max⟩, ⟨ACL_USER, 6, 5⟩, ⟨ACL_USER, 4, 6⟩, ⟨ACL_GROUP_OBJ, 5, uint32Max⟩,
    ⟨ACL_MASK, 6, uint32Max⟩, ⟨ACL_OTHER, 0, uint32Max⟩]
  counted := rfl

theorem namedAcl_modes : aclValid (some namedAcl) = true ∧
    (aclMode (aclChmod namedAcl 0o640 false) 0).setWidth 9 = (0o640 : BitVec 32).setWidth 9 :=
  ⟨by decide, (acl_modes (by decide) (by decide) 0o640 0).2.1⟩

end

open UInt32

section

variable {map : List IdExtent} {ns : UserNamespace} {group : Bool} {id : UInt32}

theorem translate_back (sound : ExtentsSound map) (defined : translate map id false ≠ uint32Max) :
    translate map (translate map id false) true = id := by
  have given : id ≠ uint32Max := fun same => defined (same ▸ translate_max map false)
  have there := translate_toNat sound false given
  have back := translate_toNat sound true defined
  cases found : Shift.lookup (map.map (IdExtent.shift false)) id.toNat with
  | none => exact absurd (UInt32.toNat_inj.mp (by rw [there, found]; rfl)) defined
  | some y =>
    rw [found, Option.getD_some] at there
    rw [there, map_shift_true, (Shift.lookup_flip sound.apart).mpr found] at back
    exact UInt32.toNat_inj.mp back

theorem from_into (sound : ∀ n ∈ ns, ExtentsSound (n.page.maps group))
    (defined : userNamespaceInto ns group id ≠ uint32Max) :
    userNamespaceFrom ns group (userNamespaceInto ns group id) = id := by
  induction ns generalizing id with
  | nil => rfl
  | cons n parent ih =>
    have given : id ≠ uint32Max := by
      rintro rfl
      exact defined (userNamespaceInto_max _ _)
    rw [userNamespaceInto, if_neg given] at defined ⊢
    have above := ih (fun m mem => sound m (mem_cons_of_mem _ mem)) defined
    have step : translate (n.page.maps group) id false ≠ uint32Max := by
      intro same
      exact defined (by rw [same, userNamespaceInto_max])
    rw [userNamespaceFrom, if_neg defined, above, translate_back (sound n mem_cons_self) step]

end

/-- The order of the entries as one of numbers. -/
def rank (e : AclEntry) : Nat := e.tag * 2 ^ 32 + e.id.toNat

theorem entryOrder_iff {a b : AclEntry} : entryOrder a b = true ↔ rank a ≤ rank b := by
  have low := a.id.toNat_lt
  have low' := b.id.toNat_lt
  unfold entryOrder rank
  split <;> simp only [decide_eq_true_eq, le_iff_toNat_le] <;> omega

theorem entries_ordered (p : Parts) : p.entries.Pairwise (rank · < rank ·) := by
  have named (tag : Nat) (named : Named) : (Named.entries tag named.1).Pairwise (rank · < rank ·) :=
    pairwise_map.mpr (named.2.1.imp fun less => Nat.add_lt_add_left (lt_iff_toNat_lt.mp less) _)
  have other {a b : AclEntry} (less : a.tag < b.tag) : rank a < rank b := by
    have low := a.id.toNat_lt
    unfold rank
    omega
  have tags (tag : Nat) (named : Bits) : ∀ e ∈ Named.entries tag named, e.tag = tag := forall_mem_map.mpr fun _ _ => rfl
  have single : (p.mask.toList.map (whole ACL_MASK)).Pairwise (rank · < rank ·) := by cases p.mask <;> simp
  simp only [Parts.entries, pairwise_cons, pairwise_append, named, single, mem_append, mem_cons]
  grind [entry]

theorem eq_of_sorted {l l' : List AclEntry} (perm : l.Perm l') (sorted : l.Pairwise (entryOrder · ·))
    (asc : l'.Pairwise (rank · < rank ·)) : l = l' := by
  have nodup : (l'.map rank).Nodup := pairwise_map.mpr (asc.imp ne_of_lt)
  refine perm.eq_of_pairwise (fun a b mem mem' there back => ?_) sorted (asc.imp fun less => entryOrder_iff.mpr less.le)
  exact inj_on_of_nodup_map nodup (perm.mem_iff.mp mem) mem'
    (le_antisymm (entryOrder_iff.mp there) (entryOrder_iff.mp back))

theorem Named.renamed (named : Named) {f g : UInt32 → UInt32} (back : ∀ x ∈ named.1, g (f x.1) = x.1)
    (defined : ∀ x ∈ named.1, f x.1 ≠ uint32Max) :
    ∃ other : Named, other.1.Perm (named.1.map fun x => (f x.1, x.2)) := by
  have perm := mergeSort_perm (named.1.map fun x => (f x.1, x.2)) (fun a b => a.1 ≤ b.1)
  have sorted := @pairwise_mergeSort _ (fun a b => decide (a.1 ≤ b.1)) (fun a b c => by simpa using UInt32.le_trans)
    (fun a b => by simpa using UInt32.le_total a.1 b.1) (named.1.map fun x => (f x.1, x.2))
  have nodup : ((named.1.map fun x => (f x.1, x.2)).map Prod.fst).Nodup := by
    rw [map_map]
    refine pairwise_map.mpr (named.2.1.imp_of_mem fun mem mem' less same => UInt32.ne_of_lt less ?_)
    rw [← back _ mem, ← back _ mem']
    exact congrArg g same
  refine ⟨⟨_, ?_, fun x mem => ?_⟩, perm⟩
  · refine (sorted.and (pairwise_map.mp ((perm.map Prod.fst).nodup_iff.mpr nodup))).imp fun both => ?_
    exact UInt32.lt_of_le_of_ne (by simpa using both.1) both.2
  · obtain ⟨y, there, rfl⟩ := mem_map.mp (perm.mem_iff.mp mem)
    exact defined y there

section

variable {v : Identity} {acl : Acl} (injective : ∀ n ∈ v.userNamespace, ∀ group, ExtentsSound (n.page.maps group))

include injective

theorem mapEntry_back {e : AclEntry} (fine : unmapped v e = false) : mapEntry v false (mapEntry v true e) = e := by
  by_cases named : e.isNamed = true
  · have defined : userNamespaceInto v.userNamespace (e.tag = ACL_GROUP) e.id ≠ uint32Max := by
      simpa [unmapped, named] using fine
    have given : e.id ≠ uint32Max := by
      intro same
      exact defined (by rw [same, userNamespaceInto_max])
    have back := from_into (fun n mem => injective n mem _) defined
    rw [mapEntry, mapEntry, if_pos named]
    refine (if_pos named).trans ?_
    simp [identityVisibleId, back, given]
  · rw [mapEntry, mapEntry, if_neg named, if_neg named]

theorem Parts.mapped (p : Parts) (fine : ∀ e ∈ p.entries, unmapped v e = false) :
    ∃ p' : Parts, (p.entries.map (mapEntry v true)).Perm p'.entries := by
  have renamed (tag : Nat) (named : Named) (is : (entry tag 0 0).isNamed = true)
      (inside : ∀ e ∈ Named.entries tag named.1, e ∈ p.entries) := by
    have given : ∀ x ∈ named.1, userNamespaceInto v.userNamespace (tag = ACL_GROUP) x.1 ≠ uint32Max := by
      intro x mem
      have fine := fine _ (inside _ (mem_map_of_mem mem))
      rw [unmapped, show (entry tag x.1 x.2).isNamed = true from is] at fine
      exact of_decide_eq_false fine
    exact named.renamed (fun x mem => from_into (fun n mem => injective n mem _) (given x mem)) given
  obtain ⟨users, permUsers⟩ := renamed ACL_USER p.users rfl fun e mem => by simp [Parts.entries, mem]
  obtain ⟨groups, permGroups⟩ := renamed ACL_GROUP p.groups rfl fun e mem => by simp [Parts.entries, mem]
  have empty {l l' : Bits} {f : UInt32 × BitVec 3 → UInt32 × BitVec 3} (perm : l.Perm (l'.map f)) (some : l ≠ []) :
      l' ≠ [] := by
    rintro rfl
    exact some perm.eq_nil
  refine ⟨{ p with users, groups, masked := fun some => p.masked (some.imp (empty permUsers) (empty permGroups)) }, ?_⟩
  have mapped : p.entries.map (mapEntry v true) = whole ACL_USER_OBJ p.owner ::
      (Named.entries ACL_USER (p.users.1.map fun x => (userNamespaceInto v.userNamespace false x.1, x.2)) ++
        whole ACL_GROUP_OBJ p.group ::
          (Named.entries ACL_GROUP (p.groups.1.map fun x => (userNamespaceInto v.userNamespace true x.1, x.2)) ++
            (p.mask.toList.map (whole ACL_MASK) ++ [whole ACL_OTHER p.other]))) := by
    simp [Parts.entries, Named.entries, mapEntry, AclEntry.isNamed, entry, Function.comp_def]
  rw [mapped]
  exact (((permUsers.symm.map _).append (((permGroups.symm.map _).append_right _).cons _))).cons _

/-- A list into a namespace and back: it is refused exactly if an id that it names is not mapped. -/
theorem aclMap_round_trip (sorter : Sorter) (valid : aclValid (some acl) = true) :
    match (aclMap sorter (some v) true).run acl with
    | .ok () mapped =>
      (v.userNamespace = [] ∨ ∀ e ∈ acl.entries, unmapped v e = false) ∧ aclValid (some mapped) = true ∧
      mapped.entries.Perm (acl.entries.map (mapEntry v true)) ∧ (aclMap sorter (some v) false).run mapped = .ok () acl
    | .error e kept => (v.userNamespace ≠ [] ∧ ∃ e ∈ acl.entries, unmapped v e = true) ∧ e = .EINVAL ∧ kept = acl := by
  have parts : acl.entries = [] ∨ ∃ p : Parts, acl.entries = p.entries := by
    by_cases given : acl.entries = []
    · exact .inl given
    · exact .inr (valid_parts valid given)
  have asc : acl.entries.Pairwise (rank · < rank ·) := by
    rcases parts with is | ⟨p, is⟩
    · simp [is]
    · exact is ▸ entries_ordered p
  by_cases initial : v.userNamespace = []
  · have same : mapEntry v true = id := by
      funext e
      simp [mapEntry, initial, userNamespaceInto]
    simp [aclMap, initial, valid, same]
  have run (into : Bool) (acl : Acl) : (aclMap sorter (some v) into).run acl =
      if into ∧ acl.entries.any (unmapped v) then .error .EINVAL acl else .ok () (mapEntries acl sorter v into) := by
    simp only [aclMap, if_neg initial]
    refine (run_get_bind _).trans ?_
    unfold rejectIf
    split <;> rfl
  by_cases bad : acl.entries.any (unmapped v) = true
  · rw [run, if_pos ⟨rfl, bad⟩]
    exact ⟨⟨initial, any_eq_true.mp bad⟩, rfl, rfl⟩
  · rw [run, if_neg fun both => bad both.2]
    have fine : ∀ e ∈ acl.entries, unmapped v e = false := by simpa using bad
    have perm := sorter.perm (acl.entries.map (mapEntry v true))
    refine ⟨.inr fine, ?_, perm, ?_⟩
    · rcases parts with is | ⟨p, is⟩
      · obtain ⟨sized, version, rest⟩ := aclValid_iff.mp valid
        have four := rest.resolve_right fun reads => absurd (reads_nil.mp (is ▸ reads)) (by decide)
        exact aclValid_iff.mpr ⟨sized, version, .inl four⟩
      · obtain ⟨p', renamed⟩ := p.mapped injective (is ▸ fine)
        exact valid_of_parts valid rfl rfl
          (eq_of_sorted (perm.trans (is ▸ renamed)) (sorter.sorted _) (entries_ordered p'))
    · rw [run, if_neg fun both => Bool.false_ne_true both.1]
      have back : sorter.qsort ((sorter.qsort (acl.entries.map (mapEntry v true))).map (mapEntry v false)) =
          acl.entries := by
        refine eq_of_sorted ((sorter.perm _).trans ((perm.map _).trans ?_)) (sorter.sorted _) asc
        rw [map_map]
        exact .of_eq ((map_congr_left fun e mem => mapEntry_back injective (fine e mem)).trans (map_id _))
      simp only [mapEntries, back]

end

def mergeSorter : Sorter where
  qsort l := l.mergeSort entryOrder
  perm l := mergeSort_perm l _
  sorted := pairwise_mergeSort (fun a b c => by simpa only [entryOrder_iff] using le_trans)
    fun a b => by simpa only [Bool.or_eq_true, entryOrder_iff] using le_total (rank a) (rank b)

/-- An identity through whose namespace the ids 5 and 6 change places. -/
def crossing : Identity :=
  { identityNew 0 0 with userNamespace := nestedChain [⟨5, 10, 1⟩, ⟨6, 2, 1⟩] [⟨0, 100000, 65536⟩] }

theorem namedAcl_restored : aclValid (some namedAcl) = true ∧
    ∃ mapped, (aclMap mergeSorter (some crossing) true).run namedAcl = .ok () mapped ∧ aclValid (some mapped) = true ∧
      mapped.entries.Perm [⟨ACL_USER_OBJ, 7, uint32Max⟩, ⟨ACL_USER, 6, 100010⟩, ⟨ACL_USER, 4, 100002⟩,
        ⟨ACL_GROUP_OBJ, 5, uint32Max⟩, ⟨ACL_MASK, 6, uint32Max⟩, ⟨ACL_OTHER, 0, uint32Max⟩] ∧
      (aclMap mergeSorter (some crossing) false).run mapped = .ok () namedAcl := by
  have fine : ∀ n ∈ crossing.userNamespace, ∀ group, extentsAdmitted [] (n.page.maps group) = true := by decide
  have valid : aclValid (some namedAcl) = true := by decide
  have round := aclMap_round_trip (fun n mem group => extentsAdmitted_sound (fine n mem group)) mergeSorter valid
  cases run : (aclMap mergeSorter (some crossing) true).run namedAcl with
  | ok _ mapped =>
    rw [run] at round
    exact ⟨valid, mapped, rfl, round.2.1, round.2.2⟩
  | error e kept =>
    rw [run] at round
    exact absurd round.1.2 (by decide)

end Shroot.PosixAcl
