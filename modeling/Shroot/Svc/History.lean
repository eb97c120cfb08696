import Shroot.Svc.Steps

namespace Shroot.Svc

open General List

variable {setup : Setup} {origin : Nat → Word} {space final : Space}

section

variable {i svc : Nat} {number : BitVec 64} {pool : CodePool} {new : Word}

section

variable (patched : Patched setup origin space)

include patched

theorem Patched.refused (bad : Refused space svc final) : Patched setup origin final :=
  (patched.refuse (s := Svc.refused svc) rfl rfl).same bad

theorem Patched.littered (littered : Littered space svc pool final) : Patched setup origin final :=
  (patched.refuse (s := Svc.refused svc) rfl rfl).wrote (pool.room_not_plain patched.pools littered.there littered.fits)
    ⟨littered.registry, littered.elsewhere⟩

theorem Admissible.original (admissible : Admissible setup space svc (newest space.registry.sites svc)) :
    origin svc = svcWord := by
  cases head : newest space.registry.sites svc with
  | some h =>
    obtain ⟨mem, call, state⟩ := newest_mem head
    rw [← call]
    exact (patched.admitted h mem (patched.published h mem state)).2.1
  | none =>
    rcases patched.word svc admissible.plain with own | ⟨h, found, -⟩
    · rw [← own]
      exact admissible.word.resolve_right fun ⟨p, found, _⟩ => by simp [head] at found
    · rw [head] at found
      cases found

end

theorem Added.gate_ne (addresses : space.registry.pools.map CodePool.address = setup.pools)
    (added : Added setup space svc number i pool new final) : pool.address + pool.used ≠ 0 := by
  have mem : pool.address ∈ setup.pools := by
    rw [← addresses]
    exact mem_map_of_mem (mem_of_getElem? added.there)
  have := (setup.pools_ok pool.address mem).1
  omega

theorem map_taken (pools : List CodePool) (i : Nat) :
    (pools.modify i CodePool.taken).map CodePool.address = pools.map CodePool.address :=
  map_modify_of_eq fun _ => rfl

theorem Patched.added (patched : Patched setup origin space)
    (admissible : Admissible setup space svc (newest space.registry.sites svc))
    (added : Added setup space svc number i pool new final) : Patched setup origin final := by
  have off : ∀ a, setup.Plain a → a ≠ svc → final.text a = space.text a := fun a plain other =>
    added.elsewhere a other fun isIn =>
      pool.room_not_plain patched.pools (mem_of_getElem? added.there) added.fits a isIn plain
  have site := patched.publish final.faults (map_taken _ i) (s := gateSite (pool.next setup svc number) new)
    (added.gate_ne patched.pools) rfl (admissible.original patched) admissible.plain rfl added.patched off
  exact site.same ⟨added.registry, rfl⟩

/-- A site is retired when that succeeds, and its call has its own instruction unless a newer gate has it. -/
theorem retire_patched (patched : Patched setup origin space) (i : Nat) :
    Ensures space
      (fun _ final => Patched setup origin final ∧
        final.registry = { space.registry with sites := space.registry.sites.modify i Site.retire })
      (fun final => Patched setup origin final ∧ final.registry = space.registry) (registryRetire i) := by
  refine .get_bind ?_
  split
  next free =>
    refine .pure ⟨patched, ?_⟩
    rw [modify_eq_self (getElem?_eq_none_iff.mp free)]
  rename_i s is
  refine .ite (fun retired => .pure ⟨patched, ?_⟩) fun live => ?_
  · have already : s.retire = s := by
      cases state : s.state with
      | published => exact absurd state retired
      | retired => rw [Site.retire, ← state]
    rw [modify_of_there is already]
  have mem := mem_of_getElem? is
  have published : s.state = .published := not_not.mp live
  obtain ⟨orig, was, plain⟩ := patched.admitted s mem (patched.published s mem published)
  refine ((registryRead_reads s.direct.svc).mono (fun _ _ read => read) fun _ same => ⟨patched.same same, same.1⟩).bind
    fun cur mid read => ?_
  obtain ⟨rfl, same⟩ := read
  have finish : ∀ last : Space, Patched setup origin last → last.registry = space.registry →
      (last.text s.direct.svc ≠ s.replacement ∨ last.text s.direct.svc = origin s.direct.svc) →
      Ensures last (fun _ final => Patched setup origin final ∧
        final.registry = { space.registry with sites := space.registry.sites.modify i Site.retire })
        (fun final => Patched setup origin final ∧ final.registry = space.registry)
          (setSite i { s with state := .retired }) := by
    intro last held reg gone
    have there : last.registry.sites[i]? = some s := by rw [reg]; exact is
    have changed : last.registry.sites.set i { s with state := .retired } =
        last.registry.sites.modify i Site.retire := by
      rw [modify_eq_set there]
      rfl
    refine .modify ⟨?_, ?_⟩
    · rw [changed]
      exact held.retire there gone
    · rw [changed, reg]
  refine .ite (fun patchedHere => ?_) fun other => ?_
  · refine ((writeWord_writes s.direct.svc s.original).mono (fun _ _ written => written) ?_).bind
      fun _ last written => ?_
    · exact fun last still => ⟨patched.same (same.trans still), (same.trans still).1⟩
    · have held : Patched setup origin last :=
        (patched.same same).rewrite written.1 written.2 (.inl (by rw [orig, was]))
      refine finish last held (written.1.trans same.1) (.inr ?_)
      rw [written.2, Function.update_self, orig, was]
  · refine finish mid (patched.same same) same.1 (.inl ?_)
    rw [same.2]
    exact other

/-- Every gate in a range is retired. -/
def Quiet (range : Nat → Prop) (space : Space) : Prop :=
  ∀ s ∈ space.registry.sites, range s.direct.svc → s.state = .retired

/-- A registry whose entries are closed has none that is open. -/
def Settled (space : Space) : Prop := space.registry.disabled = true → Quiet (fun _ => True) space

theorem Settled.of_registry (done : Settled space) (same : final.registry = space.registry) : Settled final := by
  unfold Settled Quiet
  rw [same]
  exact done

/-- What goes on without a revocation. -/
def Held (setup : Setup) (origin : Nat → Word) (closes : Prop) (space : Space) : Prop :=
  Patched setup origin space ∧ (closes → Settled space)

abbrev Holds {α : Type} (setup : Setup) (origin : Nat → Word) (closes : Prop) (space : Space) (action : SpaceM α) :
    Prop :=
  Ensures space (fun _ => Held setup origin closes) (Held setup origin closes) action

variable {closes : Prop}

theorem Held.same (held : Held setup origin closes space) (same : Same space final) : Held setup origin closes final :=
  ⟨held.1.same same, fun is => (held.2 is).of_registry same.1⟩

theorem Held.rewrite (held : Held setup origin closes space) {word : Word} (reg : final.registry = space.registry)
    (text : final.text = Function.update space.text svc word)
    (may : word = origin svc ∨ ∃ h, newest space.registry.sites svc = some h ∧ word = h.replacement) :
    Held setup origin closes final :=
  ⟨held.1.rewrite reg text may, fun is => (held.2 is).of_registry reg⟩

theorem Settled.refused (done : Settled space) (reg : final.registry = space.entered (refused svc)) :
    Settled final := by
  intro closed
  unfold Quiet
  rw [reg] at closed ⊢
  exact forall_mem_concat (done closed) fun _ => rfl

theorem Settled.retire (done : Settled space)
    (reg : final.registry = { space.registry with sites := space.registry.sites.modify i Site.retire }) :
    Settled final := by
  intro closed
  unfold Quiet
  rw [reg] at closed ⊢
  exact forall_mem_modify (done closed) fun _ _ _ => rfl

theorem Added.settled (enabled : space.registry.disabled = false)
    (added : Added setup space svc number i pool new final) : Settled final := by
  intro closed
  rw [added.registry] at closed
  exact absurd (enabled.symm.trans closed) Bool.false_ne_true

section

variable (held : Held setup origin closes space)

include held

theorem extend_held (maps : Maps setup) (staging : Staging) (svc : Nat) (number : BitVec 64) :
    Holds setup origin closes space (extend maps staging svc number (newest space.registry.sites svc)) := by
  refine (extend_outcome maps staging svc number _ held.1.pools).mono ?_ ?_
  · rintro _ final (same | bad | ⟨admissible, i, pool, new, added⟩)
    · exact held.same same
    · exact ⟨held.1.refused bad, fun is => (held.2 is).refused bad.1⟩
    · exact ⟨held.1.added admissible added, fun _ => added.settled admissible.enabled⟩
  · rintro final (bad | ⟨pool, littered⟩)
    · exact ⟨held.1.refused bad, fun is => (held.2 is).refused bad.1⟩
    · exact ⟨held.1.littered littered, fun is => (held.2 is).refused littered.registry⟩

theorem Held.read_bind {α : Type} {next : Word → SpaceM α}
    (goes : ∀ cur middle, Same space middle → Held setup origin closes middle →
      Holds setup origin closes middle (next cur)) :
    Holds setup origin closes space (registryRead svc >>= next) :=
  ((registryRead_reads svc).mono (fun _ _ read => read.2) fun _ same => held.same same).bind
    fun cur middle same => goes cur middle same (held.same same)

theorem resume_held (svc : Nat) : Holds setup origin closes space (registryResume svc) := by
  refine .get_bind ?_
  dsimp only
  split
  · exact .pure held
  rename_i s head
  refine .ite (fun _ => .pure held) fun _ => held.read_bind fun cur mid same held => ?_
  refine .ite (fun _ => .pure held) fun _ => ?_
  refine (writeWord_writes svc s.replacement).mono (fun _ last written => ?_) fun last still => held.same still
  refine held.rewrite written.1 written.2 (.inr ⟨s, ?_, rfl⟩)
  rw [same.1]
  exact head

theorem suspend_held (svc : Nat) : Holds setup origin closes space (registrySuspend svc) := by
  refine .get_bind ?_
  split
  · exact .pure held
  rename_i s head
  obtain ⟨mem, call, state⟩ := newest_mem head
  obtain ⟨orig, was, -⟩ := held.1.admitted s mem (held.1.published s mem state)
  refine held.read_bind fun cur mid same held => ?_
  refine .ite (fun _ => ?_) fun _ => .pure held
  refine (writeWord_writes svc s.original).mono (fun _ last written => ?_) fun last still => held.same still
  refine held.rewrite written.1 written.2 (.inl ?_)
  rw [orig, ← call, was]

theorem direct_held (maps : Maps setup) (staging : Staging) (svc : Nat) (number : BitVec 64) :
    Holds setup origin closes space (registryDirect maps staging svc number) := by
  refine .get_bind (.ite (fun _ => .pure held) fun _ => ?_)
  split
  next s head =>
    refine .ite (fun _ => ?_) fun _ => ?_
    · exact (resume_held held svc).bind fun _ _ held => .pure held
    refine held.read_bind fun cur mid same held => ?_
    refine .ite (fun _ => .pure held) fun _ => ?_
    rw [← head, ← same.1]
    refine (extend_held held maps staging svc number).bind fun extended last held => ?_
    exact .ite (fun _ => .pure held) fun _ => (resume_held held svc).bind fun _ _ held => .pure held
  next head =>
    refine .ite (fun _ => .pure held) fun _ => ?_
    rw [← head]
    exact extend_held held maps staging svc number

theorem retire_held (i : Nat) : Holds setup origin closes space (registryRetire i) :=
  (retire_patched held.1 i).mono (fun _ _ new => ⟨new.1, fun is => (held.2 is).retire new.2⟩)
    fun _ new => ⟨new.1, fun is => (held.2 is).of_registry new.2⟩

theorem unpatch_held (start size : Nat) : Holds setup origin closes space (registryUnpatch start size) := by
  refine .ite (fun _ => .pure held) fun _ => .get_bind ?_
  refine .forM held fun i _ before held => ?_
  refine .get_bind ?_
  split
  · exact .pure held
  · exact .ite (fun _ => retire_held held i) fun _ => .pure held

end

theorem Patched.disable (patched : Patched setup origin space) :
    Patched setup origin { space with registry := { space.registry with disabled := true } } :=
  ⟨patched.pools, patched.published, patched.admitted, patched.word⟩

theorem admitted_not_plain (a : Nat) (mem : wordsAt setup.admitted 2 a) : ¬ setup.Plain a := by
  intro plain
  obtain ⟨low, high⟩ := mem
  exact plain.2 ⟨low, by omega⟩

theorem revoke_patched (patched : Patched setup origin space) :
    Ensures space (fun _ => Patched setup origin) (Patched setup origin) (registryRevoke setup) := by
  refine .get_bind (.ite (fun _ => .pure patched) fun _ => .modify_bind ?_)
  have closed := patched.disable
  refine ((registryWrite_puts setup.admitted [0#32, 0#32]).mono (fun _ _ wrote => closed.wrote admitted_not_plain wrote)
    fun _ wrote => closed.wrote admitted_not_plain wrote).bind fun _ mid held => ?_
  refine .forM held fun i _ before held => ?_
  exact (retire_patched held i).mono (fun _ _ new => new.1) fun _ new => new.1

/-- Only a revocation can leave a closed registry with open entries. -/
theorem operation_held (held : Held setup origin closes space) {event : Event setup}
    (other : event = .revoke → ¬ closes) :
    Holds setup origin closes space (operation event) := by
  cases event with
  | direct maps staging svc number => exact direct_held held maps staging svc.toNat number
  | suspend svc => exact (suspend_held held svc.toNat).bind fun _ _ held => .pure held
  | resume svc => exact (resume_held held svc.toNat).bind fun _ _ held => .pure held
  | retire site => exact (retire_held held site).bind fun _ _ held => .pure held
  | unpatch start size => exact (unpatch_held held start.toNat size.toNat).bind fun _ _ held => .pure held
  | revoke =>
    refine ((revoke_patched held.1).mono ?_ ?_).bind fun _ _ held => .pure held
    · exact fun _ _ patched => ⟨patched, fun is => absurd is (other rfl)⟩
    · exact fun _ patched => ⟨patched, fun is => absurd is (other rfl)⟩

variable (patched : Patched setup origin space)

include patched

theorem Patched.facing (faults : List (Option Errno)) : Patched setup origin (space.facing faults) :=
  patched.same ⟨rfl, rfl⟩

theorem happen_patched (call : Call setup) : Patched setup origin (happen space call) :=
  (operation_held ⟨patched.facing call.faults, False.elim⟩ fun _ => id).leaves.1

theorem run_patched (calls : List (Call setup)) : Patched setup origin (run space calls) := by
  induction calls generalizing space with
  | nil => exact patched
  | cons call rest ih => exact ih (happen_patched patched call)

end

section

variable {before : Space} {i : Nat} {range : Nat → Prop}

/-- A call whose gates are all retired has its own instruction. -/
theorem Patched.restored (patched : Patched setup origin space) (quiet : Quiet range space) {s : Site}
    (mem : s ∈ space.registry.sites) (gate : s.direct.gate ≠ 0) (isIn : range s.direct.svc) :
    space.text s.direct.svc = svcWord := by
  obtain ⟨-, was, plain⟩ := patched.admitted s mem gate
  rw [← was]
  refine (patched.word s.direct.svc plain).resolve_right fun ⟨h, head, _⟩ => ?_
  obtain ⟨there, call, state⟩ := newest_mem head
  rw [quiet h there (by rw [call]; exact isIn)] at state
  cases state

/-- The sites up to a position are retired as far as they are in a range, and only states have changed. -/
structure Retiring (range : Nat → Prop) (before : Space) (count : Nat) (space : Space) : Prop where
  sites : space.registry.sites.map Site.direct = before.registry.sites.map Site.direct
  done : ∀ i s, i < count → space.registry.sites[i]? = some s → range s.direct.svc → s.state = .retired

theorem Retiring.quiet (retiring : Retiring range before before.registry.sites.length final) : Quiet range final := by
  intro s mem isIn
  obtain ⟨i, is⟩ := mem_iff_getElem?.mp mem
  refine retiring.done i s ?_ is isIn
  have length := congrArg length retiring.sites
  rw [length_map, length_map] at length
  rw [← length]
  exact (List.getElem?_eq_some_iff.mp is).1

theorem Retiring.next (retiring : Retiring range before i space)
    (reg : final.registry.sites = space.registry.sites.modify i Site.retire ∨
      (final.registry.sites = space.registry.sites ∧ ∀ s, space.registry.sites[i]? = some s → ¬ range s.direct.svc)) :
    Retiring range before (i + 1) final := by
  rcases reg with changed | ⟨same, outside⟩
  · refine ⟨?_, fun j s bound is mem => ?_⟩
    · have keeps : (space.registry.sites.modify i Site.retire).map Site.direct = space.registry.sites.map Site.direct :=
        map_modify_of_eq fun _ => rfl
      rw [changed, keeps]
      exact retiring.sites
    · rw [changed, getElem?_modify] at is
      split at is
      · obtain ⟨old, -, rfl⟩ := Option.map_eq_some_iff.mp is
        rfl
      · exact retiring.done j s (by omega) (by simpa using is) mem
  · refine ⟨by rw [same]; exact retiring.sites, fun j s bound is mem => ?_⟩
    rw [same] at is
    rcases Nat.lt_succ_iff_lt_or_eq.mp bound with prior | rfl
    · exact retiring.done j s prior is mem
    · exact absurd mem (outside s is)

variable (patched : Patched setup origin space)

include patched

theorem retire_sites (run : (registryRetire i).run space = .ok () final) :
    Patched setup origin final ∧ final.registry.sites = space.registry.sites.modify i Site.retire := by
  have new := (retire_patched patched i).of_ok run
  exact ⟨new.1, by rw [new.2]⟩

theorem retireAll {action : Nat → SpaceM Unit}
    (step : ∀ i before after, Patched setup origin before → (action i).run before = .ok () after →
      Patched setup origin after ∧
      (after.registry.sites = before.registry.sites.modify i Site.retire ∨
        (after.registry.sites = before.registry.sites ∧
          ∀ s, before.registry.sites[i]? = some s → ¬ range s.direct.svc)))
    (run : ((List.range space.registry.sites.length).forM action).run space = .ok () final) :
    Patched setup origin final ∧ Quiet range final := by
  have loop := run_forM_ok (fun done after => Patched setup origin after ∧ Retiring range space done.length after)
    ⟨patched, rfl, fun i _ bound => absurd bound (Nat.not_lt_zero i)⟩
      (fun done i rest before after whole held ran => ?_) run
  · have retiring := loop.2
    rw [length_range] at retiring
    exact ⟨loop.1, retiring.quiet⟩
  · have here : done.length = i := by
      have at_i : (List.range space.registry.sites.length)[done.length]? = some i := by rw [whole]; simp
      obtain ⟨_, is⟩ := List.getElem?_eq_some_iff.mp at_i
      simpa using is
    obtain ⟨kept, change⟩ := step i before after held.1 ran
    rw [length_append, length_singleton]
    exact ⟨kept, held.2.next (here ▸ change)⟩

theorem unpatch_quiet {start size : Nat} (run : (registryUnpatch start size).run space = .ok () final) :
    Patched setup origin final ∧ Quiet (inRange start size) final := by
  unfold registryUnpatch at run
  split at run
  next empty =>
    obtain ⟨-, rfl⟩ := run_pure_ok.mp run
    refine ⟨patched, fun s _ mem => absurd mem.2 ?_⟩
    rw [empty]
    exact Nat.not_lt_zero _
  refine retireAll patched (fun i before new held ran => ?_) run
  unfold unpatchAt at ran
  rw [run_get_bind] at ran
  split at ran
  next gone =>
    obtain ⟨-, rfl⟩ := run_pure_ok.mp ran
    exact ⟨held, .inr ⟨rfl, fun s is => by rw [gone] at is; cases is⟩⟩
  next s is =>
    split at ran
    · obtain ⟨kept, sites⟩ := retire_sites held ran
      exact ⟨kept, .inl sites⟩
    next outside =>
      obtain ⟨-, rfl⟩ := run_pure_ok.mp ran
      refine ⟨held, .inr ⟨rfl, fun s' is' => ?_⟩⟩
      rw [is] at is'
      rwa [← Option.some.inj is']

theorem revoke_quiet (enabled : space.registry.disabled = false)
    (run : (registryRevoke setup).run space = .ok () final) :
    Patched setup origin final ∧ Quiet (fun _ => True) final := by
  unfold registryRevoke at run
  rw [run_get_bind] at run
  dsimp only at run
  rw [enabled, if_neg Bool.false_ne_true, run_modify_bind] at run
  obtain ⟨_, mid, written, run⟩ := run_bind_ok.mp run
  have wrote := (registryWrite_puts setup.admitted [0#32, 0#32]).of_ok written
  have held := patched.disable.wrote admitted_not_plain wrote
  have same : mid.registry.sites = space.registry.sites := by rw [wrote.1]
  rw [← same] at run
  refine retireAll held (fun i before new held ran => ?_) run
  obtain ⟨kept, sites⟩ := retire_sites held ran
  exact ⟨kept, .inl sites⟩

end

theorem Settled.facing (settled : Settled space) (faults : List (Option Errno)) : Settled (space.facing faults) :=
  settled.of_registry rfl

theorem succeeds_run {call : Call setup} (success : succeeds space call) :
    ∃ value, (operation call.event).run (space.facing call.faults) = .ok value (happen space call) := by
  unfold succeeds at success
  cases outcome : gives (operation call.event) (space.facing call.faults) with
  | ok value => exact ⟨value, run_of_gives_ok outcome⟩
  | error error =>
    rw [outcome] at success
    cases success

def revocation (setup : Setup) (faults : List (Option Errno)) : Call setup := ⟨.revoke, faults⟩

def unpatching (setup : Setup) (first size : BitVec 64) (faults : List (Option Errno)) : Call setup :=
  ⟨.unpatch first size, faults⟩

/-- A revocation that succeeds with no failed one before it. -/
theorem revoke_restores (patched : Patched setup origin space) (done : Settled space) {faults : List (Option Errno)}
    (success : succeeds space (revocation setup faults)) :
    Quiet (fun _ => True) (happen space (revocation setup faults)) := by
  obtain ⟨val, ran⟩ := succeeds_run success
  obtain ⟨_, mid, first, last⟩ := run_bind_ok.mp ran
  obtain ⟨-, same⟩ := run_pure_ok.mp last
  rw [← same]
  cases closed : space.registry.disabled with
  | false => exact (revoke_quiet (patched.facing faults) closed first).2
  | true =>
    have still : (registryRevoke setup).run (space.facing faults) = .ok () (space.facing faults) := by
      unfold registryRevoke
      rw [run_get_bind]
      dsimp only [Space.facing]
      rw [closed, if_pos rfl]
      rfl
    obtain ⟨-, rfl⟩ := EStateM.Result.ok.inj (still.symm.trans first)
    exact done.facing faults closed

/-- No revocation in a history fails. -/
def RevokesSucceed : Space → List (Call setup) → Prop
  | _, [] => True
  | space, call :: rest => (call.event = .revoke → succeeds space call) ∧ RevokesSucceed (happen space call) rest

theorem happen_settled (patched : Patched setup origin space) (done : Settled space) {call : Call setup}
    (fine : call.event = .revoke → succeeds space call) : Settled (happen space call) := by
  obtain ⟨event, faults⟩ := call
  by_cases revoked : event = .revoke
  · subst revoked
    exact fun _ => revoke_restores patched done (fine rfl)
  · have held : Held setup origin True (space.facing faults) := ⟨patched.facing faults, fun _ => done.facing faults⟩
    exact (operation_held held fun is => absurd is revoked).leaves.2 trivial

theorem run_settled (patched : Patched setup origin space) (done : Settled space) {calls : List (Call setup)}
    (fine : RevokesSucceed space calls) : Settled (run space calls) := by
  induction calls generalizing space with
  | nil => exact done
  | cons call rest ih => exact ih (happen_patched patched call) (happen_settled patched done fine.1) fine.2

/-- Every admitted call has its own instruction or the branch to its newest gate. -/
def Guarded (space : Space) : Prop :=
  ∀ s ∈ space.registry.sites, s.direct.gate ≠ 0 → space.text s.direct.svc = svcWord ∨
    ∃ h, newest space.registry.sites s.direct.svc = some h ∧ space.text s.direct.svc = h.replacement

/-- Every admitted call in a range has its own instruction. -/
def Restored (range : Nat → Prop) (space : Space) : Prop :=
  ∀ s ∈ space.registry.sites, s.direct.gate ≠ 0 → range s.direct.svc → space.text s.direct.svc = svcWord

theorem Patched.guarded (patched : Patched setup origin space) : Guarded space := by
  intro s mem gate
  obtain ⟨-, was, plain⟩ := patched.admitted s mem gate
  rw [← was]
  exact patched.word s.direct.svc plain

/-- A call is guarded after any history. It is restored after an unpatching of its range that succeeds, and after a
revocation that succeeds when none failed before. -/
theorem sites_patched (setup : Setup) (text : Nat → Word) (history : List (Call setup)) :
    Guarded (run (start setup text) history) ∧
    (∀ first size faults, succeeds (run (start setup text) history) (unpatching setup first size faults) →
      Restored (inRange first.toNat size.toNat)
        (happen (run (start setup text) history) (unpatching setup first size faults))) ∧
    (RevokesSucceed (start setup text) history →
      ∀ faults, succeeds (run (start setup text) history) (revocation setup faults) →
      Restored (fun _ => True) (happen (run (start setup text) history) (revocation setup faults))) := by
  have patched := run_patched (.start setup text) history
  refine ⟨patched.guarded, fun first size faults success s m gate mem => ?_, fun fine faults success s m gate _ => ?_⟩
  · obtain ⟨val, ran⟩ := succeeds_run success
    obtain ⟨_, mid, unpatched, last⟩ := run_bind_ok.mp ran
    obtain ⟨-, same⟩ := run_pure_ok.mp last
    rw [← same] at m ⊢
    obtain ⟨held, quiet⟩ := unpatch_quiet (patched.facing faults) unpatched
    exact held.restored quiet m gate mem
  · have done : Settled (start setup text) := fun closed => by cases closed
    have quiet := revoke_restores patched (run_settled (.start setup text) done fine) success
    exact (happen_patched patched _).restored quiet m gate trivial

/-- A template with the three words that the base of the frames goes into. -/
def plainTemplate : Template := ⟨replicate 99 nopWord ++ [0xf2a00008#32, 0xf2c00008#32, 0xf2e00008#32], rfl⟩

def plainSetup : Setup where
  frames := 0x100000000
  dispatch := 0x10000
  nativeBegin := 0x10000
  nativeEnd := 0x20000
  pools := [0x400000]
  template := plainTemplate
  frames_ok := by decide
  dispatch_ok := by decide
  pools_ok := by unfold codeBytes; decide
  distinct := by decide
  few := by decide

/-- Everything below the pool is code. -/
def plainMaps : Maps plainSetup where
  executable address := address < 0x400000
  state_writable address is inside := by
    have low : 0x400000 ≤ plainSetup.admitted := by unfold Setup.admitted; decide
    simp only [decide_eq_true_eq] at is
    omega

/-- A gate is put in front of a call. -/
def directedOnce : List (Call plainSetup) := [⟨.direct plainMaps .absent 0x300000 56, []⟩]

theorem sites_patched_once : let space := run (start plainSetup fun _ => svcWord) directedOnce
    (∃ s ∈ space.registry.sites, s.direct.gate ≠ 0 ∧ space.text s.direct.svc ≠ svcWord) ∧
      Restored (fun _ => True) (happen space (revocation plainSetup [])) := by
  refine ⟨by decide +kernel, (sites_patched plainSetup _ directedOnce).2.2 ⟨fun revoked => ?_, trivial⟩ []
    (by decide +kernel)⟩
  cases revoked

/-- The word by which calls are admitted cannot be written when the registry is revoked. -/
def revokedOnce : List (Call plainSetup) := directedOnce ++ [⟨.revoke, [some Errno.EIO]⟩]

def revokedTwice : Space := happen (run (start plainSetup fun _ => svcWord) revokedOnce) (revocation plainSetup [])

/-- A second revocation reports success and leaves the branch in the text. -/
theorem revoke_again :
    succeeds (run (start plainSetup fun _ => svcWord) revokedOnce) (revocation plainSetup []) = true ∧
      ∃ s ∈ revokedTwice.registry.sites, s.direct.gate ≠ 0 ∧ revokedTwice.text s.direct.svc ≠ svcWord := by
  decide +kernel

end Shroot.Svc
