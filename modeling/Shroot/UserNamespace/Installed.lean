import Shroot.UserNamespace.Chain

namespace Shroot

section

variable {a b inner n ns parent : UserNamespace} {group : Bool} {level : UserLevel} {map ranges : List IdExtent}
  {opener : Option UserAuthority}
  {r : IdExtent}

open General List

/-- Chains as the supervisor builds them: new namespaces with empty maps, a
map published at any level by its one writer, pages accepted on import, and
read-only views of pages that another owner maintains. -/
inductive InstalledChain : UserNamespace → Prop
  | initial : InstalledChain []
  | new {parent ns owner group creatorSetfcap birth} :
      InstalledChain parent → userNamespaceNew parent owner group creatorSetfcap birth = .ok ns → InstalledChain ns
  | map {inner n ns group opener writer ranges} :
      InstalledChain (inner ++ n) → userNamespaceMap n group opener writer ranges = .ok ns →
        InstalledChain (inner ++ ns)
  | setgroups {inner n ns allowed} :
      InstalledChain (inner ++ n) → userNamespaceSetgroups n allowed = .ok ns → InstalledChain (inner ++ ns)
  | imported {parent level depth} :
      InstalledChain parent → validPage level.page depth parent = .ok () → InstalledChain (level :: parent)
  | observed {ns view} :
      InstalledChain ns → view.map UserLevel.page = ns.map UserLevel.page → InstalledChain view

theorem publish_maps (page : NamespacePage) (group other : Bool) (ranges : List IdExtent) :
    (page.publish group ranges).maps other = if other = group then ranges else page.maps other := by
  cases group <;> cases other <;> rfl

theorem userNamespaceMapAdmit_ok {authority : UserAuthority}
    (admission : userNamespaceMapAdmit n group opener = .ok (level, parent, authority)) :
    n = level :: parent ∧ level.page.maps group = [] := by
  unfold userNamespaceMapAdmit at admission
  split at admission
  · simp only [failIf_bind_ok, pure_ok, Prod.mk.injEq] at admission
    obtain ⟨_, _, empty, _, rfl, rfl, rfl⟩ := admission
    exact ⟨rfl, by simpa using empty⟩
  · cases admission

theorem userNamespaceMap_ok {writer : Option UserAuthority}
    (put : userNamespaceMap n group opener writer ranges = .ok ns) :
    ∃ level parent, n = level :: parent ∧ level.page.maps group = [] ∧ extentsAdmitted [] ranges = true ∧
      (∀ r ∈ ranges, covered parent group r.outside r.count = true) ∧
        ns = { level with page := level.page.publish group ranges } :: parent := by
  obtain ⟨⟨level, parent, opener⟩, admission, run⟩ := bind_ok.mp put
  obtain ⟨rfl, empty⟩ := userNamespaceMapAdmit_ok admission
  simp only [failIf_bind_ok, pure_ok] at run
  obtain ⟨_, fine, _, sub, rfl⟩ := run
  refine ⟨level, parent, rfl, empty, by simpa using fine, fun r mem => ?_, rfl⟩
  simp only [any_eq_true, not_exists, not_and, Bool.or_eq_true, not_or] at sub
  simpa using (sub r mem).2

theorem userNamespaceNew_ok {owner group : UInt32} {creatorSetfcap : Bool}
    {birth : NamespaceBirth} (made : userNamespaceNew parent owner group creatorSetfcap birth = .ok ns) :
    ∃ level, ns = level :: parent ∧ ∀ group, level.page.maps group = [] := by
  simp only [userNamespaceNew, failIf_bind_ok] at made
  obtain ⟨_, _, _, made⟩ := made
  split at made
  · cases made
  · cases made
    exact ⟨_, rfl, fun group => by cases group <;> rfl⟩

theorem userNamespaceSetgroups_ok {may : Bool} (changed : userNamespaceSetgroups n may = .ok ns) :
    ns = n ∨ ∃ level parent, n = level :: parent ∧ level.page.gidMap = [] ∧
      ns = { level with page := { level.page with groupsAllowed := 0 } } :: parent := by
  cases n with
  | nil => cases changed
  | cons level parent =>
    simp only [userNamespaceSetgroups, failIf_bind_ok] at changed
    obtain ⟨_, changed⟩ := changed
    split at changed
    · simp only [failIf_bind_ok, pure_ok] at changed
      exact .inl changed.2.symm
    · simp only [failIf_bind_ok, pure_ok] at changed
      exact .inr ⟨level, parent, rfl, by simpa using changed.1, changed.2.symm⟩

theorem validPage_ok {page : NamespacePage} {depth : UInt32} (fine : validPage page depth parent = .ok ())
    (group : Bool) :
    ExtentsSound (page.maps group) ∧ ∀ r ∈ page.maps group, covered parent group r.outside r.count = true := by
  have each {map : List IdExtent} (valid : validMap parent group map = true) :
      ExtentsSound map ∧ ∀ r ∈ map, covered parent group r.outside r.count = true := by
    simp only [validMap, Bool.and_eq_true, all_eq_true] at valid
    exact ⟨extentsAdmitted_sound valid.1.2, valid.2⟩
  simp only [validPage, failIf_bind_ok, failIf_ok, Bool.not_eq_true, Bool.not_eq_false'] at fine
  obtain ⟨_, _, uid, gid⟩ := fine
  cases group with
  | false => exact each uid
  | true => exact each gid

theorem covered_congr (same : a.map (fun n => n.page.maps group) = b.map fun n => n.page.maps group)
    (start count : UInt32) :
    covered a group start count = covered b group start count := by
  induction a generalizing b start with
  | nil =>
    cases b with
    | nil => rfl
    | cons _ _ => simp at same
  | cons n parent ih =>
    cases b with
    | nil => simp at same
    | cons m outer =>
      simp only [map_cons, cons.injEq] at same
      simp only [covered, same.1]
      split
      · exact ih same.2 _
      · rfl

theorem UserNamespace.WellMapped.congr
    (same : ∀ group, (a.map fun n => n.page.maps group) = b.map fun n => n.page.maps group)
    (mapped : a.WellMapped) : b.WellMapped := by
  induction a generalizing b with
  | nil =>
    cases b with
    | nil => trivial
    | cons _ _ => simp at same
  | cons n parent ih =>
    cases b with
    | nil => simp at same
    | cons m outer =>
      simp only [map_cons, cons.injEq] at same
      refine ⟨fun group => ?_, ih (fun group => (same group).2) mapped.2⟩
      rw [← (same group).1]
      refine ⟨mapped.sound group, fun r mem => ?_⟩
      rw [← covered_congr (same group).2]
      exact (mapped.1 group).2 r mem

section

variable (mapped : UserNamespace.WellMapped (inner ++ level :: parent)) (empty : level.page.maps group = [])

include mapped empty

/-- Below an unpublished map nothing is covered, so no descendant has an
extent of that kind yet. -/
theorem UserNamespace.WellMapped.inner_empty : ∀ n ∈ inner, n.page.maps group = [] := by
  have uncovered {ns : UserNamespace} {n : UserLevel} (none : n.page.maps group = []) (start count : UInt32) :
      covered (n :: ns) group start count = false := by
    simp [covered, none]
  induction inner with
  | nil => simp
  | cons n rest ih =>
    have tail := ih mapped.2
    have head : n.page.maps group = [] := by
      refine eq_nil_iff_forall_not_mem.mpr fun r mem => ?_
      have sub := (mapped.1 group).2 r mem
      cases rest with
      | nil => exact Bool.false_ne_true ((uncovered empty _ _).symm.trans sub)
      | cons m more => exact Bool.false_ne_true ((uncovered (tail m (by simp)) _ _).symm.trans sub)
    intro m mem
    rcases mem_cons.mp mem with same | later
    · exact same ▸ head
    · exact tail m later

/-- Publishing a map of one kind under descendants without such a map. -/
theorem UserNamespace.WellMapped.publish (fine : extentsAdmitted [] ranges = true)
    (sub : ∀ r ∈ ranges, covered parent group r.outside r.count = true) :
    UserNamespace.WellMapped (inner ++ { level with page := level.page.publish group ranges } :: parent) := by
  have none := mapped.inner_empty empty
  induction inner with
  | nil =>
    refine ⟨fun other => ?_, mapped.2⟩
    simp only [publish_maps]
    split
    next same => exact ⟨extentsAdmitted_sound fine, same ▸ sub⟩
    · exact mapped.1 other
  | cons n rest ih =>
    rw [cons_append] at mapped ⊢
    refine ⟨fun other => ⟨(mapped.1 other).1, fun r mem => ?_⟩, ih mapped.2 fun m later => none m (by simp [later])⟩
    by_cases same : other = group
    · subst same
      rw [none n (by simp)] at mem
      cases mem
    · have unchanged : ((rest ++ level :: parent).map fun n => n.page.maps other) =
          (rest ++ { level with page := level.page.publish group ranges } :: parent).map
            fun n => n.page.maps other := by
        simp [publish_maps, same]
      rw [← covered_congr unchanged]
      exact (mapped.1 other).2 r mem

end

theorem InstalledChain.wellMapped (put : InstalledChain ns) : ns.WellMapped := by
  induction put with
  | initial => trivial
  | new _ made ih =>
    obtain ⟨level, rfl, empty⟩ := userNamespaceNew_ok made
    exact ⟨fun group => by simp [empty group, ExtentsSound.nil], ih⟩
  | map _ run ih =>
    obtain ⟨level, parent, rfl, empty, fine, sub, rfl⟩ := userNamespaceMap_ok run
    exact ih.publish empty fine sub
  | setgroups _ run ih =>
    obtain rfl | ⟨level, parent, rfl, -, rfl⟩ := userNamespaceSetgroups_ok run
    · exact ih
    · exact ih.congr fun group => by simp [NamespacePage.maps]
  | imported _ accepted ih => exact ⟨validPage_ok accepted, ih⟩
  | @observed ns view _ pages ih =>
    refine ih.congr fun group => ?_
    have read (chain : UserNamespace) :
        (chain.map fun n => n.page.maps group) = (chain.map UserLevel.page).map (·.maps group) := by
      simp
    rw [read ns, read view, pages]

/-- The exactness of one step: when the loop's guard selects an extent, its
subtraction and addition are those of the naturals and stay below the
reserved id. -/
def ExactExtent (r : IdExtent) : Prop :=
  ∀ (reverse : Bool) (id : UInt32),
    let start := if reverse then r.outside else r.inside
    let base := if reverse then r.inside else r.outside
    start ≤ id → id - start < r.count → (id - start).toNat = id.toNat - start.toNat ∧
      base.toNat + (id - start).toNat < uint32Max.toNat

theorem ExtentsSound.exact (sound : ExtentsSound map) (mem : r ∈ map) : ExactExtent r := by
  intro reverse id start base low high
  have bound : base.toNat + r.count.toNat ≤ uint32Max.toNat := by
    cases reverse with
    | false => exact sound.outside_bound r mem
    | true => exact sound.inside_bound r mem
  exact ⟨UInt32.toNat_sub_of_le id start low, (extent_arithmetic bound low high).1⟩

/-- The same for the coverage walk, whose next start is computed the same way. -/
def ExactCoverage (r : IdExtent) : Prop :=
  ∀ start count : UInt32, r.inside ≤ start → start.toNat + count.toNat ≤ r.inside.toNat + r.count.toNat →
    (start - r.inside).toNat = start.toNat - r.inside.toNat ∧
      r.outside.toNat + (start - r.inside).toNat + count.toNat ≤ uint32Max.toNat

theorem ExtentsSound.exact_coverage (sound : ExtentsSound map) (mem : r ∈ map) : ExactCoverage r := by
  intro start count low high
  have difference := UInt32.toNat_sub_of_le start r.inside low
  have lowNat := UInt32.le_iff_toNat_le.mp low
  have outside := sound.outside_bound r mem
  exact ⟨difference, by omega⟩

/-- Along every installed chain the two translations are mutually inverse
partial injections, total on every published extent, and free of 32-bit
wrap-around at every level. -/
theorem installedChain_translations_inverse (installed : InstalledChain ns) (group : Bool) :
    (∀ r k : UInt32, r ≠ uint32Max → k ≠ uint32Max →
      (userNamespaceFrom ns group r = k ↔ userNamespaceInto ns group k = r)) ∧
    (∀ k k' : UInt32, userNamespaceInto ns group k ≠ uint32Max →
      userNamespaceInto ns group k = userNamespaceInto ns group k' → k = k') ∧
    (∀ r r' : UInt32, userNamespaceFrom ns group r ≠ uint32Max →
      userNamespaceFrom ns group r = userNamespaceFrom ns group r' → r = r') ∧
    ∀ level parent, level :: parent <:+ ns → ∀ r ∈ level.page.maps group,
      (∀ id : UInt32, r.inside ≤ id → id.toNat < r.inside.toNat + r.count.toNat →
        userNamespaceInto (level :: parent) group id ≠ uint32Max) ∧ ExactExtent r ∧ ExactCoverage r := by
  have mapped := installed.wellMapped
  refine ⟨fun r k root inner => ?_, fun k k' defined same => ?_, fun r r' defined same => ?_,
    fun level parent suffix r mem => ?_⟩
  · rw [userNamespaceFrom_eq_iff mapped group inner, userNamespaceInto_eq_iff mapped group root]
    simp [root, inner]
  · have first := ((userNamespaceInto_eq_iff mapped group defined).mp rfl).2
    have two := ((userNamespaceInto_eq_iff mapped group defined).mp same.symm).2
    exact UInt32.toNat_inj.mp ((chainBijection group ns mapped).inj first two)
  · have first := ((userNamespaceFrom_eq_iff mapped group defined).mp rfl).2
    have two := ((userNamespaceFrom_eq_iff mapped group defined).mp same.symm).2
    exact UInt32.toNat_inj.mp (Option.mem_unique first two)
  · have atLevel := mapped.suffix suffix
    have sound := atLevel.sound group
    exact ⟨fun id low high => extent_into_defined atLevel mem low high, sound.exact mem, sound.exact_coverage mem⟩

/-- A container's namespace over subordinate ids, and one nested in it. -/
def nestedChain (inner outer : List IdExtent) : UserNamespace :=
  let page (depth owner : UInt32) (key parent : UserNamespaceKey) (map : List IdExtent) : NamespacePage :=
    { magic := namespaceMagic, version := namespaceVersion, depth := depth, owner := owner, group := owner
      creatorSetfcap := 1, inode := key.generation, parent := parent, groupsAllowed := 1
      limits := replicate userResourceCount 2147483647, uidMap := map, gidMap := [] }
  [⟨⟨1, 9, 3⟩, false, page 2 100000 ⟨1, 9, 3⟩ ⟨1, 8, 2⟩ inner⟩, ⟨⟨1, 8, 2⟩, true, page 1 0 ⟨1, 8, 2⟩ default outer⟩]

theorem nestedChain_translations :
    userNamespaceInto (nestedChain [⟨5, 10, 3⟩] [⟨0, 100000, 65536⟩]) false 6 = 100011 ∧
      (userNamespaceFrom (nestedChain [⟨5, 10, 3⟩] [⟨0, 100000, 65536⟩]) false 100011 = 6 ↔
        userNamespaceInto (nestedChain [⟨5, 10, 3⟩] [⟨0, 100000, 65536⟩]) false 6 = 100011) := by
  have made : InstalledChain ([] ++ (nestedChain [] []).tail) :=
    .new .initial (show userNamespaceNew [] 0 0 true ⟨⟨1, 8, 2⟩, none⟩ = .ok _ by decide)
  have outer : InstalledChain ([] ++ (nestedChain [] [⟨0, 100000, 65536⟩]).tail) :=
    .map made (show userNamespaceMap _ false (some ⟨[], 0, 0, BitVec.allOnes 64⟩)
      (some ⟨[], 0, 0, BitVec.allOnes 64⟩) [⟨0, 100000, 65536⟩] = .ok _ by decide)
  have put : InstalledChain (nestedChain [⟨5, 10, 3⟩] [⟨0, 100000, 65536⟩]) :=
    .imported outer (show validPage _ 2 _ = .ok () by decide)
  exact ⟨by decide, (installedChain_translations_inverse put false).1 100011 6 (by decide) (by decide)⟩

end

open General List Bool

variable {parent : UserNamespace} {group : Bool}

inductive PolicyCall where
  | map (group : Bool) (opener writer : Option UserAuthority) (ranges : List IdExtent)
  | setgroups (allowed : Bool)

def PolicyCall.answer (n : UserNamespace) : PolicyCall → Except Errno UserNamespace
  | .map group opener writer ranges => userNamespaceMap n group opener writer ranges
  | .setgroups allowed => userNamespaceSetgroups n allowed

/-- A chain after a call for the namespace at a position of it. -/
def perform (ns : UserNamespace) (call : Nat × PolicyCall) : UserNamespace :=
  match call.2.answer (ns.drop call.1) with
  | .ok n => ns.take call.1 ++ n
  | .error _ => ns

def performAll (ns : UserNamespace) (calls : List (Nat × PolicyCall)) : UserNamespace := calls.foldl perform ns

/-- What a page keeps, whatever is asked of its namespace. -/
structure Settles (page page' : NamespacePage) : Prop where
  maps : ∀ group, page.maps group ≠ [] → page'.maps group = page.maps group
  denied : page.groupsAllowed = 0 → page'.groupsAllowed = 0
  groups : page.gidMap ≠ [] → page'.groupsAllowed = page.groupsAllowed

section

variable {page page' page'' : NamespacePage}

theorem Settles.refl (page : NamespacePage) : Settles page page := ⟨fun _ _ => rfl, id, fun _ => rfl⟩

theorem Settles.trans (first : Settles page page') (two : Settles page' page'') : Settles page page'' where
  maps group installed := by
    have kept := first.maps group installed
    rw [two.maps group (kept ▸ installed), kept]
  denied none := two.denied (first.denied none)
  groups installed := by
    have kept : page'.gidMap = page.gidMap := first.maps true installed
    rw [two.groups (kept ▸ installed), first.groups installed]

theorem Settles.publish (empty : page.maps group = []) (ranges : List IdExtent) :
    Settles page (page.publish group ranges) := by
  have groups : (page.publish group ranges).groupsAllowed = page.groupsAllowed := by cases group <;> rfl
  refine ⟨fun other put => ?_, groups.trans, fun _ => groups⟩
  rw [publish_maps, if_neg]
  rintro rfl
  exact put empty

end

variable {ns : UserNamespace} {level : UserLevel} {i : Nat}

theorem answer_settles {call : PolicyCall} {n m : UserNamespace} (answer : call.answer n = .ok m) :
    m = n ∨ ∃ level parent page, n = level :: parent ∧ m = { level with page } :: parent ∧ Settles level.page page := by
  cases call with
  | map group opener writer ranges =>
    obtain ⟨level, parent, rfl, empty, -, -, rfl⟩ := userNamespaceMap_ok answer
    exact .inr ⟨level, parent, _, rfl, rfl, .publish empty ranges⟩
  | setgroups may =>
    obtain same | ⟨level, parent, rfl, empty, rfl⟩ := userNamespaceSetgroups_ok answer
    · exact .inl same
    · exact .inr ⟨level, parent, _, rfl, rfl, fun group _ => by
        cases group <;> rfl, fun _ => rfl, fun put => absurd empty put⟩

theorem set_of_drop {k : Nat} (there : ns.drop k = level :: parent) (level' : UserLevel) :
    ns.take k ++ level' :: parent = ns.set k level' := by
  have bound : k < ns.length := by
    by_contra beyond
    rw [drop_eq_nil_of_le (Nat.not_lt.mp beyond)] at there
    cases there
  rw [set_eq_take_append_cons_drop, if_pos bound, ← tail_drop, there, tail_cons]

theorem perform_settles (found : ns[i]? = some level) (call : Nat × PolicyCall) :
    ∃ level', (perform ns call)[i]? = some level' ∧ Settles level.page level'.page := by
  unfold perform
  split
  next m answer =>
    obtain rfl | ⟨target, parent, page, there, rfl, settles⟩ := answer_settles answer
    · exact ⟨level, by rwa [take_append_drop], .refl _⟩
    rw [set_of_drop there]
    by_cases here : call.1 = i
    · have bound := (List.getElem?_eq_some_iff.mp found).1
      obtain rfl : level = target := by
        have head := congrArg head? there
        rw [head?_drop, here, found] at head
        exact Option.some.inj head
      exact ⟨_, by rw [here, getElem?_set_self bound], settles⟩
    · exact ⟨level, by rwa [getElem?_set_ne here], .refl _⟩
  · exact ⟨level, found, .refl _⟩

theorem performAll_settles (calls : List (Nat × PolicyCall)) (found : ns[i]? = some level) :
    ∃ level', (performAll ns calls)[i]? = some level' ∧ Settles level.page level'.page := by
  induction calls generalizing ns level with
  | nil => exact ⟨level, found, .refl _⟩
  | cons call rest ih =>
    obtain ⟨mid, there, first⟩ := perform_settles found call
    obtain ⟨level', new, two⟩ := ih there
    exact ⟨level', new, first.trans two⟩

section

variable {opener writer : Option UserAuthority} {ranges : List IdExtent}

theorem userNamespaceMap_again (put : level.page.maps group ≠ []) :
    userNamespaceMap (level :: parent) group opener writer ranges = .error .EPERM := by
  have bad : userNamespaceMapAdmit (level :: parent) group opener = .error .EPERM := by
    cases opener with
    | none => rfl
    | some opener =>
      have some : (!(level.page.maps group).isEmpty) = true := by simpa using put
      simp only [userNamespaceMapAdmit, some]
      cases level.writer <;> cases userNamespaceSame opener.space (level :: parent) <;>
        cases userNamespaceSame opener.space parent <;> rfl
  rw [userNamespaceMap, bad]
  rfl

theorem setgroups_denied (denied : level.page.groupsAllowed = 0) :
    userNamespaceSetgroups (level :: parent) true = .error .EPERM := by
  simp only [userNamespaceSetgroups, userNamespaceGroupsAllowed, denied]
  cases level.writer <;> rfl

theorem setgroups_mapped (put : level.page.gidMap ≠ []) :
    userNamespaceSetgroups (level :: parent) false = .error .EPERM := by
  have some : (!level.page.gidMap.isEmpty) = true := by simpa using put
  simp only [userNamespaceSetgroups, some]
  cases level.writer <;> rfl

/-- What lets a map be installed: both have the capability over the parent, or it is the opener's own id. -/
def Authorized (level : UserLevel) (parent : UserNamespace) (group : Bool) (opener : UserAuthority)
    (writer : Option UserAuthority) (ranges : List IdExtent) : Prop :=
  let cap := if group then capSetgid else capSetuid
  (opener.capable parent cap = true ∧ ∃ w, writer = some w ∧ w.capable parent cap = true) ∨
    ∃ r, ranges = [r] ∧ r.count = 1 ∧
      userNamespaceInto parent group r.outside = (if group then opener.gid else opener.uid) ∧
      (group = true → level.page.groupsAllowed = 0)

theorem userNamespaceMap_authorized (run : userNamespaceMap (level :: parent) group opener writer ranges = .ok ns) :
    ranges ≠ [] ∧ ∃ o, opener = some o ∧ Authorized level parent group o writer ranges := by
  obtain ⟨⟨level', parent', o⟩, admission, run⟩ := bind_ok.mp run
  cases opener with
  | none => cases admission
  | some opener =>
    simp only [userNamespaceMapAdmit, failIf_bind_ok, pure_ok, Prod.mk.injEq] at admission
    obtain ⟨-, -, -, -, rfl, rfl, rfl⟩ := admission
    simp only [failIf_bind_ok] at run
    obtain ⟨sized, -, may, -⟩ := run
    refine ⟨fun none => sized (by simp [none]), opener, rfl, ?_⟩
    by_cases privileged : (opener.capable parent (if group then capSetgid else capSetuid) &&
        writer.any (·.capable parent (if group then capSetgid else capSetuid))) = true
    · rw [and_eq_true, Option.any_eq_true] at privileged
      exact .inl privileged
    · have own : ownIdMap level parent group opener ranges = true := by simpa [privileged] using may
      unfold ownIdMap at own
      split at own
      next r =>
        simp only [and_eq_true, beq_iff_eq, not_eq_true', and_eq_false_iff] at own
        refine .inr ⟨r, rfl, own.1.1.1, own.1.2, fun isGroup => ?_⟩
        simpa [isGroup, userNamespaceGroupsAllowed] using own.2
      · cases own

end

/-- A map is installed once and with authority, and `setgroups` is denied for good and only before that. -/
theorem maps_installed_once (ns : UserNamespace) (calls : List (Nat × PolicyCall)) {i : Nat} {level : UserLevel}
    (found : ns[i]? = some level) :
    let after := performAll ns calls
    ∃ level', after[i]? = some level' ∧
      -- an installed map stays as it is, and there is no other
      (∀ group, level.page.maps group ≠ [] → level'.page.maps group = level.page.maps group ∧
        ∀ opener writer ranges, userNamespaceMap (after.drop i) group opener writer ranges = .error .EPERM) ∧
      (level.page.groupsAllowed = 0 → level'.page.groupsAllowed = 0 ∧
        userNamespaceSetgroups (after.drop i) true = .error .EPERM) ∧
      (level.page.gidMap ≠ [] → level'.page.groupsAllowed = level.page.groupsAllowed ∧
        userNamespaceSetgroups (after.drop i) false = .error .EPERM) ∧ ∀ group opener writer ranges,
        (∀ error, userNamespaceMap (after.drop i) group opener writer ranges = .error error →
          perform after (i, .map group opener writer ranges) = after) ∧
        ∀ n, userNamespaceMap (after.drop i) group opener writer ranges = .ok n → level'.page.maps group = [] ∧
          ranges ≠ [] ∧
          perform after (i, .map group opener writer ranges) =
            after.set i { level' with page := level'.page.publish group ranges } ∧
          ∃ o, opener = some o ∧ Authorized level' (after.drop (i + 1)) group o writer ranges := by
  intro after
  obtain ⟨level', isAfter, settles⟩ : ∃ level', after[i]? = some level' ∧ Settles level.page level'.page :=
    performAll_settles calls found
  have there : after.drop i = level' :: after.drop (i + 1) := by
    obtain ⟨bound, rfl⟩ := List.getElem?_eq_some_iff.mp isAfter
    exact drop_eq_getElem_cons bound
  refine ⟨level', isAfter, fun group put => ?_, fun denied => ?_, fun put => ?_,
    fun group opener writer ranges => ⟨?_, ?_⟩⟩
  · have kept := settles.maps group put
    exact ⟨kept, fun _ _ _ => there ▸ userNamespaceMap_again (kept ▸ put)⟩
  · have still := settles.denied denied
    exact ⟨still, there ▸ setgroups_denied still⟩
  · have kept : level'.page.gidMap = level.page.gidMap := settles.maps true put
    exact ⟨settles.groups put, there ▸ setgroups_mapped (kept ▸ put)⟩
  · intro error answer
    simp only [perform, PolicyCall.answer, answer]
  · intro n answer
    obtain ⟨level₀, parent, is, empty, -, -, rfl⟩ := userNamespaceMap_ok answer
    obtain ⟨rfl, rfl⟩ := cons.inj (there.symm.trans is)
    obtain ⟨some, authorized⟩ := userNamespaceMap_authorized (there ▸ answer)
    refine ⟨empty, some, ?_, authorized⟩
    simp only [perform, PolicyCall.answer, answer]
    exact set_of_drop there _

theorem maps_installed_once_nested :
    ∃ level', (performAll (nestedChain [] [⟨0, 100000, 65536⟩]) [(1, .setgroups false)])[1]? = some level' ∧
      level'.page.maps false = [⟨0, 100000, 65536⟩] := by
  obtain ⟨level', isAfter, once, -⟩ :=
    maps_installed_once (nestedChain [] [⟨0, 100000, 65536⟩]) [(1, .setgroups false)] (i := 1) rfl
  exact ⟨level', isAfter, (once false (by decide)).1⟩

end Shroot
