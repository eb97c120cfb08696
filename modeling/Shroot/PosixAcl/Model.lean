import Shroot.General.Triples
import Shroot.Identity.Model

namespace Shroot.PosixAcl

open General

section

@[match_pattern] abbrev ACL_USER_OBJ : Nat := 1
@[match_pattern] abbrev ACL_USER : Nat := 2
@[match_pattern] abbrev ACL_GROUP_OBJ : Nat := 4
@[match_pattern] abbrev ACL_GROUP : Nat := 8
@[match_pattern] abbrev ACL_MASK : Nat := 16
@[match_pattern] abbrev ACL_OTHER : Nat := 32

def ACL_MAX : Nat := 65532

/-- `struct md_acl_entry`. The permissions are promoted to 32 bits wherever they are used. -/
structure AclEntry where
  tag : Nat
  permissions : BitVec 32
  id : UInt32
  deriving DecidableEq

/-- `struct md_acl` with the size of the value that holds it. -/
structure Acl where
  size : Nat
  version : UInt32
  entries : List AclEntry
  counted : entries.length = (size - 4) / 8

/-- The local variables of `md_acl_valid`. -/
structure Scan where
  phase : Nat := 0
  named : Bool := false
  mask : Bool := false
  previous : UInt32 := 0

/-- One round of the loop of `md_acl_valid`. -/
def Scan.next (s : Scan) (e : AclEntry) : Option Scan :=
  if e.permissions > 7 then none
  else if e.tag ≠ ACL_USER ∧ e.tag ≠ ACL_GROUP ∧ e.id ≠ uint32Max then none
  else match e.tag with
    | ACL_USER_OBJ => if s.phase ≠ 0 then none else some { s with phase := 1 }
    | ACL_USER =>
      if (s.phase ≠ 1 ∧ s.phase ≠ 2) ∨ e.id = uint32Max ∨ (s.phase = 2 ∧ e.id ≤ s.previous) then none
      else some { s with phase := 2, previous := e.id, named := true }
    | ACL_GROUP_OBJ => if s.phase ≠ 1 ∧ s.phase ≠ 2 then none else some { s with phase := 3 }
    | ACL_GROUP =>
      if (s.phase ≠ 3 ∧ s.phase ≠ 4) ∨ e.id = uint32Max ∨ (s.phase = 4 ∧ e.id ≤ s.previous) then none
      else some { s with phase := 4, previous := e.id, named := true }
    | ACL_MASK => if s.phase ≠ 3 ∧ s.phase ≠ 4 then none else some { s with phase := 5, mask := true }
    | ACL_OTHER => if s.phase < 3 ∨ s.phase > 5 ∨ (s.named ∧ ¬ s.mask) then none else some { s with phase := 6 }
    | _ => none

def aclValid : Option Acl → Bool
  | none => false
  | some acl =>
    if acl.size < 4 ∨ acl.size > ACL_MAX ∨ (acl.size - 4) % 8 ≠ 0 then false
    else if acl.version ≠ 2 then false
    else if acl.size = 4 then true
    else (acl.entries.foldlM Scan.next {}).any (·.phase = 6)

def AclEntry.isNamed (e : AclEntry) : Bool := e.tag = ACL_USER ∨ e.tag = ACL_GROUP

/-- Whether `entry_order` is not positive. -/
def entryOrder (a b : AclEntry) : Bool := if a.tag ≠ b.tag then a.tag < b.tag else a.id ≤ b.id

/-- What is assumed of `qsort`. -/
structure Sorter where
  qsort : List AclEntry → List AclEntry
  perm : ∀ l, (qsort l).Perm l
  sorted : ∀ l, (qsort l).Pairwise (entryOrder · ·)

/-- The entry as the second loop of `md_acl_map` leaves it. -/
def mapEntry (id : Identity) (into : Bool) (e : AclEntry) : AclEntry :=
  if e.isNamed then
    { e with id := if into then userNamespaceInto id.userNamespace (e.tag = ACL_GROUP) e.id
                   else identityVisibleId id (e.tag = ACL_GROUP) e.id }
  else e

/-- What the first loop of `md_acl_map` refuses. -/
def unmapped (id : Identity) (e : AclEntry) : Bool :=
  e.isNamed && userNamespaceInto id.userNamespace (e.tag = ACL_GROUP) e.id = uint32Max

variable (acl : Acl)

/-- The list after the second loop and `qsort`. -/
def mapEntries (sorter : Sorter) (id : Identity) (into : Bool) : Acl :=
  { acl with
    entries := sorter.qsort (acl.entries.map (mapEntry id into))
    counted := by rw [(sorter.perm _).length_eq, List.length_map, acl.counted] }

def aclMap (sorter : Sorter) (id : Option Identity) (into : Bool) : EStateM Errno Acl Unit := do
  match id with
  | none => return
  | some id =>
    if id.userNamespace = [] then return
    let acl ← get
    rejectIf (into ∧ acl.entries.any (unmapped id)) .EINVAL
    set (mapEntries acl sorter id into)

def modeNext (mode : BitVec 32) (e : AclEntry) : BitVec 32 :=
  match e.tag with
  | ACL_USER_OBJ => mode ||| e.permissions <<< 6
  | ACL_GROUP_OBJ => mode ||| e.permissions <<< 3
  | ACL_MASK => mode &&& ~~~(0o70 : BitVec 32) ||| e.permissions <<< 3
  | ACL_OTHER => mode ||| e.permissions
  | _ => mode

def aclMode (mode : BitVec 32) : BitVec 32 := acl.entries.foldl modeNext (mode &&& ~~~0o777)

/-- The bits that `md_acl_chmod` sets an entry to, where `mask` says whether there is a mask. -/
def chmodBits (mode : BitVec 32) (mask : Bool) (tag : Nat) : Option (BitVec 32) :=
  if tag = ACL_USER_OBJ then some (mode >>> 6 &&& 7)
  else if tag = ACL_MASK ∨ (tag = ACL_GROUP_OBJ ∧ ¬ mask) then some (mode >>> 3 &&& 7)
  else if tag = ACL_OTHER then some (mode &&& 7)
  else none

def chmodEntry (mode : BitVec 32) (inherit mask : Bool) (e : AclEntry) : AclEntry :=
  match chmodBits mode mask e.tag with
  | some bits => { e with permissions := if inherit then e.permissions &&& bits else bits }
  | none => e

def aclChmod (mode : BitVec 32) (inherit : Bool) : Acl :=
  { acl with
    entries := acl.entries.map (chmodEntry mode inherit (acl.entries.any (·.tag = ACL_MASK)))
    counted := by rw [List.length_map, acl.counted] }

def grants (permissions requested : BitVec 32) : Bool := permissions &&& requested = requested

variable (ids : Identity) (owner group : UInt32) (requested : BitVec 32)

/-- The second loop of `md_acl_permission`, with its local variables. -/
def permissionFrom (mask : BitVec 32) (seen allowed : Bool) (other : BitVec 32) : List AclEntry → Bool
  | [] => if seen then allowed else grants other requested
  | e :: rest =>
    if e.tag = ACL_USER_OBJ ∧ ids.uid.fs = owner then grants e.permissions requested
    else if e.tag = ACL_USER ∧ ids.uid.fs = e.id then grants (e.permissions &&& mask) requested
    else
      let member : Bool :=
        (e.tag = ACL_GROUP_OBJ ∧ identityInGroup ids group) ∨ (e.tag = ACL_GROUP ∧ identityInGroup ids e.id)
      permissionFrom mask (seen || member) (allowed || member && grants (e.permissions &&& mask) requested)
        (if e.tag = ACL_OTHER then e.permissions else other) rest

def aclMask (entries : List AclEntry) : BitVec 32 :=
  entries.foldl (fun mask e => if e.tag = ACL_MASK then e.permissions else mask) 7

def aclPermission : Except Errno Unit :=
  failIf (permissionFrom ids owner group requested (aclMask acl.entries) false false 0 acl.entries = false) .EACCES

/-- The check of a mode without an access control list, on the three bits of the class. -/
def classicCheck (mode : BitVec 32) : Except Errno Unit :=
  let shift := if ids.uid.fs = owner then 6 else if identityInGroup ids group then 3 else 0
  failIf (grants (mode >>> shift &&& 7) requested = false) .EACCES

end

open List Option BitVec

def entry (tag : Nat) (id : UInt32) (bits : BitVec 3) : AclEntry := ⟨tag, bits.setWidth 32, id⟩

/-- An entry that names no id. -/
abbrev whole (tag : Nat) : BitVec 3 → AclEntry := entry tag uint32Max

/-- Ids with their permissions. -/
abbrev Bits := List (UInt32 × BitVec 3)

/-- The named users or groups of an access control list, in the order of their ids. -/
abbrev Named := { l : Bits // l.Pairwise (·.1 < ·.1) ∧ ∀ x ∈ l, x.1 ≠ uint32Max }

def Named.entries (tag : Nat) (named : Bits) : List AclEntry := named.map fun x => entry tag x.1 x.2

/-- What a list that is not empty says, apart from its encoding. -/
structure Parts where
  owner : BitVec 3
  users : Named
  group : BitVec 3
  groups : Named
  mask : Option (BitVec 3)
  other : BitVec 3
  masked : users.1 ≠ [] ∨ groups.1 ≠ [] → mask.isSome

def Parts.entries (p : Parts) : List AclEntry :=
  whole ACL_USER_OBJ p.owner :: (Named.entries ACL_USER p.users.1 ++
    whole ACL_GROUP_OBJ p.group :: (Named.entries ACL_GROUP p.groups.1 ++
      (p.mask.toList.map (whole ACL_MASK) ++ [whole ACL_OTHER p.other])))

/-- What one round of the loop accepts, and what it makes of it. -/
inductive Scan.Step (s : Scan) : AclEntry → Scan → Prop
  | owner (bits : BitVec 3) (start : s.phase = 0) : Step s (whole ACL_USER_OBJ bits) { s with phase := 1 }
  | named {tag phase : Nat} {id : UInt32} (bits : BitVec 3)
      (kind : tag = ACL_USER ∧ phase = 1 ∨ tag = ACL_GROUP ∧ phase = 3) (defined : id ≠ uint32Max)
      (next : s.phase = phase ∨ s.phase = phase + 1 ∧ s.previous < id) :
      Step s (entry tag id bits) { s with phase := phase + 1, previous := id, named := true }
  | group (bits : BitVec 3) (next : s.phase = 1 ∨ s.phase = 2) :
      Step s (whole ACL_GROUP_OBJ bits) { s with phase := 3 }
  | mask (bits : BitVec 3) (next : s.phase = 3 ∨ s.phase = 4) :
      Step s (whole ACL_MASK bits) { s with phase := 5, mask := true }
  | other (bits : BitVec 3) (next : 3 ≤ s.phase ∧ s.phase ≤ 5) (masked : s.named = true → s.mask = true) :
      Step s (whole ACL_OTHER bits) { s with phase := 6 }

variable {s t : Scan} {e : AclEntry} {l : List AclEntry}

theorem entry_of_bits (few : ¬ e.permissions > 7) : e = entry e.tag e.id (e.permissions.setWidth 3) := by
  have same : e.permissions = (e.permissions.setWidth 3).setWidth 32 := by
    refine eq_of_toNat_eq ?_
    simp [lt_def] at few
    simp
    omega
  cases e
  exact congrArg (AclEntry.mk _ · _) same

theorem bits_le (bits : BitVec 3) : bits.setWidth 32 ≤ 7#32 := by
  simp [le_def]
  omega

theorem Scan.Step.of_next (found : s.next e = some t) : s.Step e t := by
  unfold Scan.next at found
  split at found
  · cases found
  next few =>
  split at found
  · cases found
  next whole =>
  rw [entry_of_bits few]
  have plain (user : e.tag ≠ ACL_USER) (group : e.tag ≠ ACL_GROUP) : e.id = uint32Max := by tauto
  split at found <;> simp only [ite_none_left_eq_some, some.injEq, reduceCtorEq] at found <;>
    obtain ⟨next, rfl⟩ := found
  next tag =>
    rw [plain (by simp [tag]) (by simp [tag]), tag]
    exact .owner _ (by omega)
  next tag =>
    rw [tag]
    exact .named _ (.inl ⟨rfl, rfl⟩) (by tauto) (by grind)
  next tag =>
    rw [plain (by simp [tag]) (by simp [tag]), tag]
    exact .group _ (by omega)
  next tag =>
    rw [tag]
    exact .named _ (.inr ⟨rfl, rfl⟩) (by tauto) (by grind)
  next tag =>
    rw [plain (by simp [tag]) (by simp [tag]), tag]
    exact .mask _ (by omega)
  next tag =>
    rw [plain (by simp [tag]) (by simp [tag]), tag]
    exact .other _ (by omega) (by tauto)

theorem Scan.Step.next (step : s.Step e t) : s.next e = some t := by
  cases step with
  | named bits kind defined next =>
    rcases kind with ⟨rfl, rfl⟩ | ⟨rfl, rfl⟩ <;> simp [Scan.next, entry, bits_le bits] <;> grind
  | owner bits | group bits | mask bits | other bits =>
    simp [Scan.next, entry, bits_le bits]
    grind

/-- The loop goes through the rest of the list from the state and ends in the last phase. -/
def Reads (s : Scan) (l : List AclEntry) : Prop := ∃ t, l.foldlM Scan.next s = some t ∧ t.phase = 6

theorem reads_nil : Reads s [] ↔ s.phase = 6 := by simp [Reads]

theorem reads_cons : Reads s (e :: l) ↔ ∃ t, s.Step e t ∧ Reads t l := by
  have steps : ∀ t, s.next e = some t ↔ s.Step e t := fun t => ⟨.of_next, Scan.Step.next⟩
  simp only [Reads, foldlM_cons, bind_eq_bind, bind_eq_some_iff, steps]
  tauto

theorem Reads.step (reads : Reads s l) (more : s.phase ≠ 6) :
    ∃ e rest t, l = e :: rest ∧ s.Step e t ∧ Reads t rest := by
  cases l with
  | nil => exact absurd (reads_nil.mp reads) more
  | cons e rest =>
    obtain ⟨t, step, later⟩ := reads_cons.mp reads
    exact ⟨e, rest, t, rfl, step, later⟩

theorem Reads.last (reads : Reads s l) (last : s.phase = 6) : l = [] := by
  cases l with
  | nil => rfl
  | cons e rest =>
    obtain ⟨t, step, -⟩ := reads_cons.mp reads
    cases step <;> omega

section

variable {tag phase : Nat} {r : Bits}

/-- The state after a run of named entries that starts in the phase or the next. -/
def Scan.after (s : Scan) (phase : Nat) (run : Bits) : Scan :=
  match run.getLast? with
  | none => s
  | some x => { s with phase := phase + 1, previous := x.1, named := true }

theorem after_cons (x : UInt32 × BitVec 3) :
    s.after phase (x :: r) = Scan.after { s with phase := phase + 1, previous := x.1, named := true } phase r := by
  unfold Scan.after
  rw [getLast?_cons]
  cases r.getLast? <;> rfl

theorem after_spec (here : s.phase = phase ∨ s.phase = phase + 1) :
    ((s.after phase r).phase = phase ∨ (s.after phase r).phase = phase + 1) ∧
      (s.after phase r).mask = s.mask ∧ ((s.after phase r).named = true ↔ s.named = true ∨ r ≠ []) := by
  cases r using reverseRecOn with
  | nil => simpa [Scan.after] using here
  | append_singleton r x => simp [Scan.after]

variable (kind : tag = ACL_USER ∧ phase = 1 ∨ tag = ACL_GROUP ∧ phase = 3) (here : s.phase = phase ∨
  s.phase = phase + 1)

include kind here

theorem Reads.split (reads : Reads s l) :
    ∃ (run : Named) (rest : List AclEntry), l = Named.entries tag run.1 ++ rest ∧ (∀ e ∈ rest.head?, e.tag ≠ tag) ∧
      Reads (s.after phase run.1) rest ∧ (s.phase = phase + 1 → ∀ x ∈ run.1, s.previous < x.1) := by
  induction l generalizing s with
  | nil => exact ⟨⟨[], by simp⟩, [], by simp [Named.entries], by simp, reads, by simp⟩
  | cons e l ih =>
    by_cases same : e.tag = tag
    · obtain ⟨t, step, later⟩ := reads_cons.mp reads
      cases step with
      | @named tag' phase' id bits kind' defined next =>
        obtain rfl : tag' = tag := same
        obtain rfl : phase' = phase := by omega
        obtain ⟨run, rest, rfl, head, reads, above⟩ := ih (.inr rfl) later
        have above := above rfl
        refine ⟨⟨(id, bits) :: run.1, pairwise_cons.mpr ⟨above, run.2.1⟩, forall_mem_cons.mpr ⟨defined, run.2.2⟩⟩,
          rest, rfl, head,
          after_cons (id, bits) ▸ reads, fun late => forall_mem_cons.mpr ⟨?_, fun x mem => ?_⟩⟩
        · exact (next.resolve_left (by omega)).2
        · exact UInt32.lt_trans (next.resolve_left (by omega)).2 (above x mem)
      | _ => rcases kind with ⟨rfl, -⟩ | ⟨rfl, -⟩ <;> nomatch same
    · exact ⟨⟨[], by simp⟩, e :: l, by simp [Named.entries], by simpa using same, reads, by simp⟩

theorem Reads.join (ascending : r.Pairwise (·.1 < ·.1)) (defined : ∀ x ∈ r, x.1 ≠ uint32Max)
    (above : s.phase = phase + 1 → ∀ x ∈ r, s.previous < x.1) (reads : Reads (s.after phase r) l) :
    Reads s (Named.entries tag r ++ l) := by
  induction r generalizing s with
  | nil => exact reads
  | cons x r ih =>
    obtain ⟨first, later⟩ := pairwise_cons.mp ascending
    refine reads_cons.mpr ⟨_, .named _ kind (defined x mem_cons_self) ?_, ih (.inr rfl) later
      (fun y mem => defined y (mem_cons_of_mem _ mem)) (fun _ => first) (after_cons x ▸ reads)⟩
    exact here.imp_right fun late => ⟨late, above late x mem_cons_self⟩

end

theorem Reads.owner (reads : Reads s l) (start : s.phase = 0) :
    ∃ bits rest, l = whole ACL_USER_OBJ bits :: rest ∧ Reads ⟨1, s.named, s.mask, s.previous⟩ rest := by
  obtain ⟨e, rest, t, rfl, step, reads⟩ := reads.step (by omega)
  cases step with
  | owner bits => exact ⟨bits, rest, rfl, reads⟩
  | named | group | mask | other => omega

theorem Reads.group (reads : Reads s l) (here : s.phase = 1 ∨ s.phase = 2) (head : ∀ e ∈ l.head?, e.tag ≠ ACL_USER) :
    ∃ bits rest, l = whole ACL_GROUP_OBJ bits :: rest ∧ Reads ⟨3, s.named, s.mask, s.previous⟩ rest := by
  obtain ⟨e, rest, t, rfl, step, reads⟩ := reads.step (by omega)
  cases step with
  | group bits => exact ⟨bits, rest, rfl, reads⟩
  | named bits kind =>
    obtain ⟨rfl, -⟩ := kind.resolve_right (by omega)
    exact absurd rfl (head _ rfl)
  | owner | mask | other => omega

theorem Reads.other (reads : Reads s l) (here : s.phase = 5) : ∃ bits, l = [whole ACL_OTHER bits] := by
  obtain ⟨e, rest, t, rfl, step, reads⟩ := reads.step (by omega)
  cases step with
  | other bits => exact ⟨bits, by rw [reads.last rfl]⟩
  | owner | named | group | mask => omega

theorem Reads.tail (reads : Reads s l) (here : s.phase = 3 ∨ s.phase = 4) (head : ∀ e ∈ l.head?, e.tag ≠ ACL_GROUP)
    (unmasked : s.mask = false) :
    ∃ (mask : Option (BitVec 3)) (bits : _), l = mask.toList.map (whole ACL_MASK) ++ [whole ACL_OTHER bits] ∧
      (s.named = true → mask.isSome) := by
  obtain ⟨e, rest, t, rfl, step, reads⟩ := reads.step (by omega)
  cases step with
  | mask mask =>
    obtain ⟨bits, rfl⟩ := reads.other rfl
    exact ⟨some mask, bits, rfl, fun _ => rfl⟩
  | other bits _ masked =>
    rw [reads.last rfl]
    exact ⟨none, bits, rfl, fun named => absurd (masked named) (by simp [unmasked])⟩
  | named bits kind =>
    obtain ⟨rfl, -⟩ := kind.resolve_left (by omega)
    exact absurd rfl (head _ rfl)
  | owner | group => omega

theorem reads_iff : Reads {} l ↔ ∃ p : Parts, l = p.entries := by
  have usersRead (users : Bits) := after_spec (s := ⟨1, false, false, 0⟩) (r := users) (.inl rfl)
  have groupsRead (s : Scan) (groups : Bits) :=
    after_spec (s := ⟨3, s.named, s.mask, s.previous⟩) (r := groups) (.inl rfl)
  constructor
  · intro start
    obtain ⟨owner, rest, rfl, first⟩ := start.owner rfl
    obtain ⟨users, rest, rfl, head, two, -⟩ := first.split (.inl ⟨rfl, rfl⟩) (.inl rfl)
    obtain ⟨phase, mask, named⟩ := usersRead users.1
    obtain ⟨group, rest, rfl, third⟩ := two.group phase head
    obtain ⟨groups, rest, rfl, head, fourth, -⟩ := third.split (.inr ⟨rfl, rfl⟩) (.inl rfl)
    obtain ⟨phase, mask', named'⟩ := groupsRead _ groups.1
    obtain ⟨mask, other, rfl, masked⟩ := fourth.tail phase head (mask'.trans mask)
    refine ⟨⟨owner, users, group, groups, mask, other, fun some => masked (named'.mpr ?_)⟩, rfl⟩
    exact some.imp_left fun some => named.mpr (.inr some)
  · rintro ⟨p, rfl⟩
    refine reads_cons.mpr ⟨_, .owner _ rfl, .join (.inl ⟨rfl, rfl⟩) (.inl rfl) p.users.2.1 p.users.2.2 nofun ?_⟩
    obtain ⟨phase, mask, named⟩ := usersRead p.users.1
    refine reads_cons.mpr ⟨_, .group _ phase, .join (.inr ⟨rfl, rfl⟩) (.inl rfl) p.groups.2.1 p.groups.2.2 nofun ?_⟩
    obtain ⟨phase, mask', named'⟩ := groupsRead (Scan.after ⟨1, false, false, 0⟩ 1 p.users.1) p.groups.1
    cases given : p.mask with
    | none =>
      refine reads_cons.mpr ⟨_, .other _ (by dsimp only at phase ⊢; omega) fun named'' => ?_, reads_nil.mpr rfl⟩
      have some := (named'.mp named'').imp_left fun old => (named.mp old).resolve_left nofun
      simpa [given] using p.masked some
    | some bits =>
      exact reads_cons.mpr ⟨_, .mask _ phase,
        reads_cons.mpr ⟨_, .other _ ⟨by simp, by simp⟩ fun _ => rfl, reads_nil.mpr rfl⟩⟩

end Shroot.PosixAcl
