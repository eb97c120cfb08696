import Shroot.General.Shifts
import Shroot.UserNamespace.Model
import Shroot.General.Ancestry

namespace Shroot

section

variable {id start count : UInt32} {x y : Nat} {map prev : List IdExtent} {r : IdExtent}

open General List UInt32

/-- An extent read as a shift of natural numbers, in either direction. -/
def IdExtent.shift (reverse : Bool) (r : IdExtent) : Shift :=
  if reverse then ⟨r.outside.toNat, r.inside.toNat, r.count.toNat⟩
  else ⟨r.inside.toNat, r.outside.toNat, r.count.toNat⟩

/-- What the admission loop leaves of a map: both ends of every extent stay
below the reserved id, and no two extents meet on either side. -/
structure ExtentsSound (map : List IdExtent) : Prop where
  inside_bound : ∀ r ∈ map, r.inside.toNat + r.count.toNat ≤ uint32Max.toNat
  outside_bound : ∀ r ∈ map, r.outside.toNat + r.count.toNat ≤ uint32Max.toNat
  apart : (map.map (IdExtent.shift false)).Pairwise Shift.Apart

theorem ExtentsSound.nil : ExtentsSound [] := ⟨by simp, by simp, by simp⟩

theorem overlap_false {a an b bn : UInt32} (clear : overlap a an b bn = false) :
    a.toNat + an.toNat ≤ b.toNat ∨ b.toNat + bn.toNat ≤ a.toNat := by
  simp only [overlap, Bool.and_eq_false_iff, decide_eq_false_iff_not, gt_iff_lt, not_lt] at clear
  exact clear

theorem extentAdmitted_iff :
    extentAdmitted prev r = true ↔ r.count ≠ 0 ∧ r.inside.toNat + r.count.toNat ≤ uint32Max.toNat ∧
        r.outside.toNat + r.count.toNat ≤ uint32Max.toNat ∧
        ∀ p ∈ prev, overlap r.inside r.count p.inside p.count = false ∧
          overlap r.outside r.count p.outside p.count = false := by
  simp [extentAdmitted, and_assoc]

theorem extentAdmitted_apart {p : IdExtent} (fine : extentAdmitted prev r = true) (mem : p ∈ prev) :
    (p.shift false).Apart (r.shift false) := by
  obtain ⟨isIn, outside⟩ := (extentAdmitted_iff.mp fine).2.2.2 p mem
  exact ⟨(overlap_false isIn).symm, (overlap_false outside).symm⟩

theorem extentsAdmitted_apart (fine : extentsAdmitted prev map = true) :
    (∀ p ∈ prev, ∀ r ∈ map, (p.shift false).Apart (r.shift false)) ∧
      (map.map (IdExtent.shift false)).Pairwise Shift.Apart := by
  induction map generalizing prev with
  | nil => simp
  | cons r rest ih =>
    obtain ⟨head, tail⟩ := Bool.and_eq_true_iff.mp fine
    obtain ⟨across, sub⟩ := ih tail
    refine ⟨fun p mem q atQ => ?_, ?_⟩
    · rcases mem_cons.mp atQ with same | later
      · rw [same]
        exact extentAdmitted_apart head mem
      · exact across p (mem_append_left _ mem) q later
    · refine pairwise_cons.mpr ⟨?_, sub⟩
      intro shifted atShift
      obtain ⟨q, later, rfl⟩ := mem_map.mp atShift
      exact across r (by simp) q later

theorem extentsAdmitted_mem (fine : extentsAdmitted prev map = true) (mem : r ∈ map) :
    ∃ before, extentAdmitted before r = true := by
  induction map generalizing prev with
  | nil => simp at mem
  | cons q rest ih =>
    obtain ⟨head, tail⟩ := Bool.and_eq_true_iff.mp fine
    rcases mem_cons.mp mem with same | later
    · exact ⟨prev, same ▸ head⟩
    · exact ih tail later

theorem extentsAdmitted_sound (fine : extentsAdmitted [] map = true) : ExtentsSound map where
  inside_bound r mem := by
    obtain ⟨old, atR⟩ := extentsAdmitted_mem fine mem
    exact (extentAdmitted_iff.mp atR).2.1
  outside_bound r mem := by
    obtain ⟨old, atR⟩ := extentsAdmitted_mem fine mem
    exact (extentAdmitted_iff.mp atR).2.2.1
  apart := (extentsAdmitted_apart fine).2

theorem shift_true (r : IdExtent) : r.shift true = (r.shift false).flip := rfl

theorem map_shift_true (map : List IdExtent) :
    map.map (IdExtent.shift true) = (map.map (IdExtent.shift false)).map .flip := by
  simp [Function.comp_def, shift_true]

theorem ExtentsSound.shift_bound (sound : ExtentsSound map) (mem : r ∈ map) (reverse : Bool) :
    (r.shift reverse).target + (r.shift reverse).size ≤ uint32Max.toNat := by
  cases reverse with
  | false => exact sound.outside_bound r mem
  | true => exact sound.inside_bound r mem

/-- The guard of the translation loop, and both of its 32-bit computations,
over the naturals. -/
theorem extent_arithmetic {base : UInt32} (bound : base.toNat + count.toNat ≤ uint32Max.toNat) (low : start ≤ id)
    (high : id - start < count) :
    base.toNat + (id - start).toNat < uint32Max.toNat ∧
    (base + (id - start)).toNat = base.toNat + (id.toNat - start.toNat) := by
  have difference := UInt32.toNat_sub_of_le id start low
  have inCount := lt_iff_toNat_lt.mp high
  have top : uint32Max.toNat = 4294967295 := rfl
  rw [UInt32.toNat_add, difference]
  omega

theorem shift_covers_iff (r : IdExtent) (reverse : Bool) (id : UInt32) :
    (r.shift reverse).Covers id.toNat ↔
      (if reverse then r.outside else r.inside) ≤ id ∧ id - (if reverse then r.outside else r.inside) < r.count := by
  have each (start : UInt32) : (start.toNat ≤ id.toNat ∧ id.toNat < start.toNat + r.count.toNat) ↔ start ≤ id ∧
      id - start < r.count := by
    rw [le_iff_toNat_le, lt_iff_toNat_lt]
    refine and_congr_right fun low => ?_
    rw [UInt32.toNat_sub_of_le id start (le_iff_toNat_le.mpr low)]
    omega
  cases reverse with
  | false => exact each r.inside
  | true => exact each r.outside

/-- Over an admitted map the 32-bit loop computes the unbounded lookup, with
the reserved id for a missing entry. -/
theorem translate_toNat (sound : ExtentsSound map) (reverse : Bool) (given : id ≠ uint32Max) :
    (translate map id reverse).toNat =
      (Shift.lookup (map.map (IdExtent.shift reverse)) id.toNat).getD uint32Max.toNat := by
  have scan : (map.map (IdExtent.shift reverse)).find? (fun s => s.Covers id.toNat) =
      (map.find? fun r => (if reverse then r.outside else r.inside) ≤ id ∧
        id - (if reverse then r.outside else r.inside) < r.count).map (IdExtent.shift reverse) := by
    rw [find?_map]
    refine congrArg _ (congrArg (List.find? · map) (funext fun r => ?_))
    exact decide_eq_decide.mpr (shift_covers_iff r reverse id)
  simp only [translate, if_neg given, Shift.lookup, scan]
  cases found : map.find? fun r => decide ((if reverse then r.outside else r.inside) ≤ id ∧
      id - (if reverse then r.outside else r.inside) < r.count) with
  | none => rfl
  | some r =>
    have mem := mem_of_find?_eq_some found
    have guard := find?_some found
    simp only [decide_eq_true_eq] at guard
    have bound := sound.shift_bound mem reverse
    cases reverse with
    | false => exact (extent_arithmetic bound guard.1 guard.2).2
    | true => exact (extent_arithmetic bound guard.1 guard.2).2

theorem translate_member (sound : ExtentsSound map) (mem : r ∈ map) (low : r.inside ≤ id)
    (high : id.toNat < r.inside.toNat + r.count.toNat) :
    (translate map id false).toNat = r.outside.toNat + (id.toNat - r.inside.toNat) := by
  have given : id ≠ uint32Max := by
    rintro rfl
    have := sound.inside_bound r mem
    omega
  have covers : (r.shift false).Covers id.toNat := ⟨le_iff_toNat_le.mp low, high⟩
  rw [translate_toNat sound false given, Shift.lookup_complete sound.apart (mem_map_of_mem mem) covers]
  rfl

theorem lookup_lt (sound : ExtentsSound map) {reverse : Bool}
    (found : Shift.lookup (map.map (IdExtent.shift reverse)) x = some y) : y < uint32Max.toNat := by
  obtain ⟨s, mem, covers, val⟩ := Shift.lookup_sound found
  obtain ⟨r, atR, rfl⟩ := mem_map.mp mem
  have bound := sound.shift_bound atR reverse
  simp only [Shift.Covers, Shift.move] at covers val
  omega

variable {group : Bool} {k r : UInt32} {n : UserLevel} {ns parent : UserNamespace}

open General Option List UInt32

/-- The invariant of a parent chain: every map is admitted, and each of its
extents goes through one extent of every ancestor. -/
def UserNamespace.WellMapped : UserNamespace → Prop
  | [] => True
  | n :: parent =>
    (∀ group, ExtentsSound (n.page.maps group) ∧
      ∀ r ∈ n.page.maps group, covered parent group r.outside r.count = true) ∧
    UserNamespace.WellMapped parent

theorem UserNamespace.WellMapped.sound (mapped : UserNamespace.WellMapped (n :: parent)) (group : Bool) :
    ExtentsSound (n.page.maps group) :=
  (mapped.1 group).1

theorem UserNamespace.WellMapped.suffix {outer : UserNamespace} (mapped : ns.WellMapped) (suffix : outer <:+ ns) :
    outer.WellMapped := by
  induction ns with
  | nil => rwa [suffix_nil.mp suffix]
  | cons n parent ih =>
    rcases suffix_cons_iff.mp suffix with same | later
    · rwa [same]
    · exact ih mapped.2 later

/-- The whole chain as a partial bijection between ids of the namespace and
canonical ids, over unbounded arithmetic. -/
def chainBijection (group : Bool) : (ns : UserNamespace) → ns.WellMapped → Nat ≃. Nat
  | [], _ => PEquiv.refl Nat
  | _ :: parent, mapped => (Shift.pequiv _ (mapped.sound group).apart).trans (chainBijection group parent mapped.2)

theorem chainBijection_cons (mapped : UserNamespace.WellMapped (n :: parent)) (x : Nat) :
    chainBijection group (n :: parent) mapped x =
      (Shift.lookup ((n.page.maps group).map (IdExtent.shift false)) x).bind
        (chainBijection group parent mapped.2) := rfl

theorem chainBijection_symm_cons (mapped : UserNamespace.WellMapped (n :: parent)) (x : Nat) :
    (chainBijection group (n :: parent) mapped).symm x =
      ((chainBijection group parent mapped.2).symm x).bind
        (Shift.lookup ((n.page.maps group).map (IdExtent.shift true))) := by
  rw [map_shift_true]
  rfl

variable (mapped : ns.WellMapped)

theorem chainBijection_symm_lt (given : x < uint32Max.toNat)
    (found : (chainBijection group ns mapped).symm x = some y) :
    y < uint32Max.toNat := by
  cases ns with
  | nil => rwa [← some.inj found]
  | cons n parent =>
    rw [chainBijection_symm_cons, bind_eq_some_iff] at found
    obtain ⟨z, _, last⟩ := found
    exact lookup_lt (mapped.sound group) last

theorem toNat_lt_of_ne (given : id ≠ uint32Max) : id.toNat < uint32Max.toNat := by
  have bound := id.toNat_lt
  have top : uint32Max.toNat = 4294967295 := rfl
  have ne : id.toNat ≠ uint32Max.toNat := fun same => given (UInt32.toNat_inj.mp same)
  omega

theorem ne_of_toNat_lt (below : id.toNat < uint32Max.toNat) : id ≠ uint32Max := by
  rintro rfl
  exact lt_irrefl _ below

theorem userNamespaceInto_max (ns : UserNamespace) (group : Bool) :
    userNamespaceInto ns group uint32Max = uint32Max := by
  cases ns <;> simp [userNamespaceInto]

theorem userNamespaceFrom_max (ns : UserNamespace) (group : Bool) :
    userNamespaceFrom ns group uint32Max = uint32Max := by
  cases ns <;> simp [userNamespaceFrom]

theorem translate_max (map : List IdExtent) (reverse : Bool) : translate map uint32Max reverse = uint32Max := by
  simp [translate]

/-- The machine translation is the unbounded one, the reserved id standing
for an unmapped id. -/
theorem userNamespaceInto_toNat (group : Bool) (given : id ≠ uint32Max) :
    (userNamespaceInto ns group id).toNat = (chainBijection group ns mapped id.toNat).getD uint32Max.toNat := by
  induction ns generalizing id with
  | nil => rfl
  | cons n parent ih =>
    have step := translate_toNat (mapped.sound group) false given
    simp only [userNamespaceInto, if_neg given, chainBijection_cons]
    cases found : Shift.lookup ((n.page.maps group).map (IdExtent.shift false)) id.toNat with
    | none =>
      rw [found, getD_none, UInt32.toNat_inj] at step
      rw [step, userNamespaceInto_max]
      rfl
    | some y =>
      rw [found, getD_some] at step
      have below := lookup_lt (mapped.sound group) found
      rw [ih mapped.2 (ne_of_toNat_lt (step ▸ below)), step, bind_some]

theorem userNamespaceFrom_toNat (group : Bool) (given : id ≠ uint32Max) :
    (userNamespaceFrom ns group id).toNat =
      ((chainBijection group ns mapped).symm id.toNat).getD uint32Max.toNat := by
  induction ns with
  | nil => rfl
  | cons n parent ih =>
    have outer := ih mapped.2
    simp only [userNamespaceFrom, if_neg given, chainBijection_symm_cons]
    cases found : (chainBijection group parent mapped.2).symm id.toNat with
    | none =>
      rw [found, getD_none, UInt32.toNat_inj] at outer
      rw [outer, translate_max]
      rfl
    | some y =>
      rw [found, getD_some] at outer
      have below := chainBijection_symm_lt mapped.2 (toNat_lt_of_ne given) found
      rw [translate_toNat (mapped.sound group) true (ne_of_toNat_lt (outer ▸ below)), outer, bind_some]

theorem userNamespaceInto_eq_iff (group : Bool) (defined : r ≠ uint32Max) :
    userNamespaceInto ns group k = r ↔ k ≠ uint32Max ∧ chainBijection group ns mapped k.toNat = some r.toNat := by
  by_cases given : k = uint32Max
  · simp [given, userNamespaceInto_max, defined.symm]
  · rw [← UInt32.toNat_inj, userNamespaceInto_toNat mapped group given]
    have top := (toNat_lt_of_ne defined).ne'
    cases chainBijection group ns mapped k.toNat <;> simp [given, top]

theorem userNamespaceFrom_eq_iff (group : Bool) (defined : k ≠ uint32Max) :
    userNamespaceFrom ns group r = k ↔ r ≠ uint32Max ∧ chainBijection group ns mapped k.toNat = some r.toNat := by
  rw [← PEquiv.eq_some_iff]
  by_cases given : r = uint32Max
  · simp [given, userNamespaceFrom_max, defined.symm]
  · rw [← UInt32.toNat_inj, userNamespaceFrom_toNat mapped group given]
    have top := (toNat_lt_of_ne defined).ne'
    cases (chainBijection group ns mapped).symm r.toNat <;> simp [given, top]

/-- A covered range has every id of it translated up to the root. -/
theorem covered_into_defined (mapped : ns.WellMapped)
    (sub : covered ns group start count = true) (bound : start.toNat + count.toNat ≤ uint32Max.toNat)
    (low : start ≤ id) (high : id.toNat < start.toNat + count.toNat) :
    userNamespaceInto ns group id ≠ uint32Max := by
  induction ns generalizing start id with
  | nil => exact ne_of_toNat_lt (lt_of_lt_of_le high bound)
  | cons n parent ih =>
    have given : id ≠ uint32Max := ne_of_toNat_lt (lt_of_lt_of_le high bound)
    simp only [covered] at sub
    split at sub
    case h_2 => cases sub
    rename_i r found
    have mem := mem_of_find?_eq_some found
    have guard := find?_some found
    simp only [decide_eq_true_eq] at guard
    have startLow := le_iff_toNat_le.mp guard.1
    have idLow := le_iff_toNat_le.mp low
    have outside := (mapped.sound group).outside_bound r mem
    have top : uint32Max.toNat = 4294967295 := rfl
    have val := translate_member (mapped.sound group) mem (le_iff_toNat_le.mpr (le_trans startLow idLow))
      (lt_of_lt_of_le high guard.2)
    have startValue : (r.outside + (start - r.inside)).toNat = r.outside.toNat + (start.toNat - r.inside.toNat) := by
      rw [UInt32.toNat_add, UInt32.toNat_sub_of_le start r.inside guard.1]
      omega
    simp only [userNamespaceInto, if_neg given]
    refine ih mapped.2 sub ?_ (le_iff_toNat_le.mpr ?_) ?_
    all_goals omega

theorem extent_into_defined (mapped : UserNamespace.WellMapped (n :: parent)) {r : IdExtent}
    (mem : r ∈ n.page.maps group) (low : r.inside ≤ id) (high : id.toNat < r.inside.toNat + r.count.toNat) :
    userNamespaceInto (n :: parent) group id ≠ uint32Max := by
  have isIn := (mapped.sound group).inside_bound r mem
  have outside := (mapped.sound group).outside_bound r mem
  have given : id ≠ uint32Max := ne_of_toNat_lt (by omega)
  have lowNat := le_iff_toNat_le.mp low
  have val := translate_member (mapped.sound group) mem low high
  simp only [userNamespaceInto, if_neg given]
  refine covered_into_defined mapped.2 ((mapped.1 group).2 r mem) outside (le_iff_toNat_le.mpr ?_) ?_
  all_goals omega

end

open General List Bool

variable {a b parent : UserNamespace}

/-- What is the same for all pointers to a namespace: its key and its policy page. -/
def UserLevel.shared (level : UserLevel) : UserNamespaceKey × NamespacePage := (level.id, level.page)

/-- Namespaces with their parents, in which a key stands for one page and one parent. -/
structure UserTree where
  members : Set UserNamespace
  initial : [] ∈ members
  parents : ∀ n parent, n :: parent ∈ members → parent ∈ members
  identified : ∀ a ∈ members, ∀ b ∈ members, userNamespaceSame a b = true →
    a.map UserLevel.shared = b.map UserLevel.shared

section

variable {c : UserNamespace}

theorem userNamespaceSame_iff : userNamespaceSame a b = true ↔ a.head?.map (·.id) = b.head?.map (·.id) := by
  cases a <;> cases b <;> simp [userNamespaceSame]

theorem userNamespaceSame_symm (same : userNamespaceSame a b = true) : userNamespaceSame b a = true := by
  rw [userNamespaceSame_iff] at same ⊢
  exact same.symm

theorem userNamespaceSame_trans (first : userNamespaceSame a b = true) (two : userNamespaceSame b c = true) :
    userNamespaceSame a c = true := by
  rw [userNamespaceSame_iff] at first two ⊢
  exact first.trans two

theorem userNamespaceSame_of_shared (shared : a.map UserLevel.shared = b.map UserLevel.shared) :
    userNamespaceSame a b = true := by
  have heads : (a.map UserLevel.shared).head? = (b.map UserLevel.shared).head? := by rw [shared]
  have keys := congrArg (Option.map Prod.fst) heads
  rw [head?_map, head?_map, Option.map_map, Option.map_map] at keys
  exact userNamespaceSame_iff.mpr keys

/-- An ancestor is what the parent links lead to. -/
theorem userNamespaceContains_iff : userNamespaceContains a b = true ↔ ∃ m, m <:+ b ∧ userNamespaceSame m a = true :=
  exists_suffix_iff (userNamespaceContains a) (userNamespaceSame · a) rfl fun _ _ => rfl

end

namespace UserTree

variable (tree : UserTree)

theorem suffix_mem (mem : a ∈ tree.members) (above : b <:+ a) : b ∈ tree.members := by
  induction a with
  | nil => rwa [suffix_nil.mp above]
  | cons level parent ih =>
    rcases suffix_cons_iff.mp above with rfl | above
    · exact mem
    · exact ih (tree.parents level parent mem) above

theorem length_eq (inA : a ∈ tree.members) (inB : b ∈ tree.members) (same : userNamespaceSame a b = true) :
    a.length = b.length := by
  have shared := tree.identified a inA b inB same
  have lengths := congrArg length shared
  rwa [length_map, length_map] at lengths

theorem length_le_of_contains (inA : a ∈ tree.members) (inB : b ∈ tree.members)
    (below : userNamespaceContains a b = true) :
    a.length ≤ b.length := by
  obtain ⟨m, above, same⟩ := userNamespaceContains_iff.mp below
  have depth := tree.length_eq (tree.suffix_mem inB above) inA same
  have shorter := above.length_le
  omega

end UserTree

section

variable {actor target : UserNamespace} {uid : UInt32} {caps : BitVec 64} {cap : Nat}

theorem capableLoop_contains (may : userNamespaceCapableLoop actor uid caps cap target = true) :
    userNamespaceContains actor target = true := by
  rw [userNamespaceContains_iff]
  induction target with
  | nil =>
    rw [userNamespaceCapableLoop, and_eq_true] at may
    exact ⟨[], suffix_refl _, userNamespaceSame_symm may.1⟩
  | cons level parent ih =>
    rw [userNamespaceCapableLoop] at may
    split at may
    next here => exact ⟨level :: parent, suffix_refl _, userNamespaceSame_symm here⟩
    · split at may
      next owned =>
        rw [and_eq_true] at owned
        exact ⟨parent, suffix_cons level parent, owned.1⟩
      · obtain ⟨m, above, same⟩ := ih may
        exact ⟨m, above.trans (suffix_cons level parent), same⟩

/-- The decision is about the pages, not about the pointers to them. -/
theorem capableLoop_shared {other : UserNamespace} (shared : target.map UserLevel.shared = other.map UserLevel.shared) :
    userNamespaceCapableLoop actor uid caps cap target = userNamespaceCapableLoop actor uid caps cap other := by
  induction target generalizing other with
  | nil =>
    have none : other = [] := map_eq_nil_iff.mp shared.symm
    rw [none]
  | cons level parent ih =>
    cases other with
    | nil => cases shared
    | cons level' parent' =>
      obtain ⟨head, tail⟩ := cons.inj shared
      obtain ⟨key, page⟩ := Prod.mk.inj head
      have sameTarget : userNamespaceSame actor (level :: parent) = userNamespaceSame actor (level' :: parent') := by
        cases actor <;> simp [userNamespaceSame, key]
      have sameParent : userNamespaceSame parent actor = userNamespaceSame parent' actor := by
        rw [Bool.eq_iff_iff]
        have linked := userNamespaceSame_of_shared tail
        exact ⟨userNamespaceSame_trans (userNamespaceSame_symm linked), userNamespaceSame_trans linked⟩
      rw [userNamespaceCapableLoop, userNamespaceCapableLoop, sameTarget, sameParent, page, ih tail]

variable (tree : UserTree)

/-- One level down: the new namespace is not the actor's, which is above it. -/
theorem capableLoop_child (isActor : actor ∈ tree.members) {level : UserLevel}
    (mem : level :: parent ∈ tree.members) (may : userNamespaceCapableLoop actor uid caps cap parent = true) :
    userNamespaceCapableLoop actor uid caps cap (level :: parent) = true := by
  have above := tree.length_le_of_contains isActor (tree.parents level parent mem) (capableLoop_contains may)
  have other : ¬ userNamespaceSame actor (level :: parent) = true := by
    intro same
    have depth := tree.length_eq isActor mem same
    rw [length_cons] at depth
    omega
  rw [userNamespaceCapableLoop, if_neg other]
  split
  · rfl
  · exact may

theorem capableLoop_descendant (isActor : actor ∈ tree.members) (isTarget : target ∈ tree.members)
    (may : userNamespaceCapableLoop actor uid caps cap target = true) {d : UserNamespace} (isMember : d ∈ tree.members)
    (below : userNamespaceContains target d = true) : userNamespaceCapableLoop actor uid caps cap d = true := by
  obtain ⟨m, above, same⟩ := userNamespaceContains_iff.mp below
  induction d with
  | nil =>
    have root : m = [] := suffix_nil.mp above
    rw [← capableLoop_shared (tree.identified m (tree.suffix_mem isMember above) target isTarget same), root] at may
    exact may
  | cons level parent ih =>
    rcases suffix_cons_iff.mp above with rfl | higher
    · rwa [capableLoop_shared (tree.identified _ isMember target isTarget same)]
    · have inParent := tree.parents level parent isMember
      have under := userNamespaceContains_iff.mpr ⟨m, higher, same⟩
      exact capableLoop_child tree isActor isMember (ih inParent under higher)

/-- Other namespaces with the same parent. -/
def UserSiblings (a b : UserNamespace) : Prop :=
  userNamespaceSame a b = false ∧ ∃ level parent level' parent', a = level :: parent ∧ b = level' :: parent' ∧
    userNamespaceSame parent parent' = true

theorem contains_not_sibling (inA : a ∈ tree.members) (inB : b ∈ tree.members)
    (below : userNamespaceContains a b = true) : ¬ UserSiblings a b := by
  rintro ⟨other, level, parent, level', parent', rfl, rfl, same⟩
  have depth := tree.length_eq (tree.parents _ _ inA) (tree.parents _ _ inB) same
  rw [userNamespaceContains, or_eq_true] at below
  rcases below with here | higher
  · rw [userNamespaceSame_symm here] at other
    cases other
  · have shorter := tree.length_le_of_contains inA (tree.parents _ _ inB) higher
    rw [length_cons] at shorter
    omega

/-- A capability reaches the namespace of the actor and what is beneath it, and what it reaches it reaches with
everything beneath; so it never reaches a proper ancestor or a sibling. -/
theorem capable_downward (isActor : actor ∈ tree.members) (isTarget : target ∈ tree.members)
    (granted : userNamespaceCapable actor uid caps target cap = true) :
    userNamespaceContains actor target = true ∧
      (∀ d ∈ tree.members, userNamespaceContains target d = true → userNamespaceCapable actor uid caps d cap = true) ∧
      (userNamespaceContains target actor = true → userNamespaceSame target actor = true) ∧
        ¬ UserSiblings actor target := by
  unfold userNamespaceCapable at granted ⊢
  split at granted
  · cases granted
  rename_i inMask
  have below := capableLoop_contains granted
  refine ⟨below, fun d isMember under => ?_, fun higher => ?_, contains_not_sibling tree isActor isTarget below⟩
  · rw [if_neg inMask]
    exact capableLoop_descendant tree isActor isTarget granted isMember under
  · obtain ⟨m, above, same⟩ := userNamespaceContains_iff.mp higher
    have inM := tree.suffix_mem isActor above
    have depth := tree.length_eq inM isTarget same
    have deeper := tree.length_le_of_contains isActor isTarget below
    have whole : m = actor := above.eq_of_length_le (by omega)
    exact userNamespaceSame_symm (whole ▸ same)

end

/-- A new namespace with a key of its own extends the tree. -/
def UserTree.extend (tree : UserTree) (level : UserLevel) (parent : UserNamespace) (known : parent ∈ tree.members)
    (fresh : ∀ m ∈ tree.members, userNamespaceSame (level :: parent) m = false) : UserTree where
  members := insert (level :: parent) tree.members
  initial := .inr tree.initial
  parents n above mem := by
    rcases mem with same | mem
    · obtain ⟨rfl, rfl⟩ := cons.inj same
      exact .inr known
    · exact .inr (tree.parents n above mem)
  identified a inA b inB same := by
    rcases inA with rfl | inA
    · rcases inB with rfl | inB
      · rfl
      · rw [fresh b inB] at same
        cases same
    · rcases inB with rfl | inB
      · have differs := fresh a inA
        rw [userNamespaceSame_symm same] at differs
        cases differs
      · exact tree.identified a inA b inB same

def initialTree : UserTree where
  members := {[]}
  initial := Set.mem_singleton _
  parents _ _ mem := nomatch mem
  identified a inA b inB _ := by rw [Set.mem_singleton_iff.mp inA, Set.mem_singleton_iff.mp inB]

/-- A namespace that uid 1000 owns. -/
def sampleLevel : UserLevel :=
  { id := { device := 1, inode := 2, generation := 3 }, writer := true
    page :=
      { magic := namespaceMagic, version := namespaceVersion, depth := 1, owner := 1000, group := 1000
        creatorSetfcap := 0, inode := 3, parent := default, groupsAllowed := 1, limits := [], uidMap := []
        gidMap := [] } }

def sampleTree : UserTree :=
  initialTree.extend sampleLevel [] (Set.mem_singleton _) fun m mem => by
    rw [Set.mem_singleton_iff.mp mem]
    rfl

theorem capable_downward_owner :
    userNamespaceCapable [] 1000 0 [sampleLevel] capSysAdmin = true ∧ userNamespaceContains [] [sampleLevel] = true ∧
      ¬ UserSiblings [] [sampleLevel] := by
  have may : userNamespaceCapable [] 1000 0 [sampleLevel] capSysAdmin = true := by decide
  have whole := capable_downward sampleTree sampleTree.initial (.inl rfl) may
  exact ⟨may, whole.1, whole.2.2.2⟩

end Shroot
