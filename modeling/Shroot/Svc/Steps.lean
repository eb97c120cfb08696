import Shroot.Svc.Registry
import Shroot.General.Positions

namespace Shroot.Svc

open General Option

section

variable {space middle final : Space} {addresses : Nat → Prop} {svc i : Nat} {s : Site} {word : Word}

/-- Nothing but the answers to come is different. -/
def Same (space final : Space) : Prop := final.registry = space.registry ∧ final.text = space.text

/-- The registry is the same, and the text outside some addresses. -/
def Wrote (addresses : Nat → Prop) (space final : Space) : Prop :=
  final.registry = space.registry ∧ ∀ a, ¬ addresses a → final.text a = space.text a

theorem Wrote.refl (space : Space) : Wrote addresses space space := ⟨rfl, fun _ _ => rfl⟩

theorem Wrote.trans (first : Wrote addresses space middle) (two : Wrote addresses middle final) :
    Wrote addresses space final :=
  ⟨two.1.trans first.1, fun a other => (two.2 a other).trans (first.2 a other)⟩

theorem Same.wrote (same : Same space final) : Wrote addresses space final := ⟨same.1, fun a _ => congrFun same.2 a⟩

theorem Same.refl (space : Space) : Same space space := ⟨rfl, rfl⟩

theorem Same.trans (first : Same space middle) (two : Same middle final) : Same space final :=
  ⟨two.1.trans first.1, two.2.trans first.2⟩

def wordsAt (addr count : Nat) (a : Nat) : Prop := addr ≤ a ∧ a < addr + 4 * count

theorem access_same : Ensures space (fun _ => Same space) (Same space) access := by
  refine .get_bind (.set_bind ?_)
  split
  · exact .throw ⟨rfl, rfl⟩
  · exact .pure ⟨rfl, rfl⟩

theorem access_bind {α : Type} {post : α → Space → Prop} {stopped : Space → Prop} {next : Unit → SpaceM α}
    (has : ∀ final, Same space final → stopped final)
    (goes : ∀ middle, Same space middle → Ensures middle post stopped (next ())) :
    Ensures space post stopped (access >>= next) :=
  (access_same.mono (fun _ _ same => same) has).bind fun _ middle same => goes middle same

variable (addr : Nat)

theorem registryRead_reads :
    Ensures space (fun word final => word = space.text addr ∧ Same space final) (Same space) (registryRead addr) := by
  refine .rejectIf_bind (.refl space) fun _ => access_bind (fun _ same => same) fun middle same => ?_
  refine .get_bind (.pure ⟨?_, same⟩)
  rw [same.2]

theorem writeWord_writes (word : Word) :
    Ensures space (fun _ final => final.registry = space.registry ∧ final.text = Function.update space.text addr word)
      (Same space)
      (registryWrite addr [word]) := by
  refine .rejectIf_bind (.refl space) fun _ => ?_
  refine access_bind (fun _ same => same) fun middle first =>
    access_bind (fun _ same => first.trans same) fun last two => ?_
  refine .modify ⟨(first.trans two).1, ?_⟩
  rw [(first.trans two).2]

/-- Only the room of some words has changed. -/
abbrev Puts (space : Space) (addr count : Nat) (state : Space) (action : SpaceM Unit) : Prop :=
  Ensures state (fun _ => Wrote (wordsAt addr count) space) (Wrote (wordsAt addr count) space) action

theorem putWord_wrote (space : Space) (addr : Nat) (word : Word) {n : Nat} :
    Wrote (wordsAt addr (n + 1)) space { space with text := Function.update space.text addr word } := by
  refine ⟨rfl, fun a other => Function.update_of_ne ?_ _ _⟩
  rintro rfl
  exact other ⟨le_refl _, by omega⟩

theorem Puts.cons {addr count : Nat} {action : SpaceM Unit} (same : Same space middle)
    (puts : ∀ state, Puts state (addr + 4) count state action) :
    Puts space addr (count + 1) middle (putWord addr word >>= fun _ => action) := by
  have first : Wrote (wordsAt addr (count + 1)) space { middle with text := Function.update middle.text addr word } :=
    same.wrote.trans (putWord_wrote middle addr word)
  have wider : ∀ {state final}, Wrote (wordsAt (addr + 4) count) state final →
      Wrote (wordsAt addr (count + 1)) state final := by
    refine fun wrote => ⟨wrote.1, fun a other => wrote.2 a fun mem => other ?_⟩
    obtain ⟨low, high⟩ := mem
    exact ⟨by omega, by omega⟩
  exact .modify_bind
    ((puts _).mono (fun _ _ wrote => first.trans (wider wrote)) fun _ wrote => first.trans (wider wrote))

theorem writeWords_puts (words : List Word) : Puts space addr words.length space (writeWords addr words) := by
  induction words using List.twoStepInduction generalizing addr space with
  | nil => exact .pure (Wrote.refl space)
  | singleton word =>
    refine access_bind (fun _ same => same.wrote) fun middle first =>
      access_bind (fun _ same => (first.trans same).wrote) fun last two => ?_
    exact .modify ((first.trans two).wrote.trans (putWord_wrote last addr word))
  | cons_cons word other rest ih one =>
    unfold writeWords
    split
    · refine access_bind (fun _ same => same.wrote) fun middle first => ?_
      exact Puts.cons first fun state => Puts.cons (.refl state) fun _ => ih (addr + 8)
    · refine access_bind (fun _ same => same.wrote) fun middle first =>
        access_bind (fun _ same => (first.trans same).wrote) fun last two => ?_
      exact Puts.cons (first.trans two) fun _ => one other (addr + 4)

theorem registryWrite_puts (words : List Word) : Puts space addr words.length space (registryWrite addr words) :=
  .rejectIf_bind (Wrote.refl space) fun _ => writeWords_puts addr words

theorem registryStage_puts (staging : Staging) (addr : Nat) (words : List Word) :
    Puts space addr words.length space (registryStage staging addr words) := by
  refine .rejectIf_bind (Wrote.refl space) fun _ => .ite (fun _ => .pure (Wrote.refl space)) fun _ => ?_
  cases staging with
  | absent => exact registryWrite_puts addr words
  | failed => exact registryWrite_puts addr words
  | written bytes =>
    have part : Wrote (wordsAt addr words.length) space { space with text := putBytes addr words bytes space.text } :=
      ⟨rfl, fun a other => if_neg fun ⟨low, high, _⟩ => other ⟨low, high⟩⟩
    refine .modify_bind (.ite (fun _ => .pure part) fun _ => .rejectIf_bind part fun _ => ?_)
    exact (registryWrite_puts addr words).mono (fun _ _ more => part.trans more) fun _ more => part.trans more

open List Function

section

variable {sites : List Site} {h : Site}

def Site.retire (s : Site) : Site := { s with state := .retired }

/-- The newest gate has only retired sites of its call behind it. -/
theorem newest_eq_some : newest sites svc = some h ↔ (h.direct.svc = svc ∧ h.state = .published) ∧
      ∃ older newer, sites = older ++ h :: newer ∧ ∀ s ∈ newer, ¬ (s.direct.svc = svc ∧ s.state = .published) := by
  unfold newest
  rw [find?_eq_some_iff_append]
  simp only [decide_eq_true_eq, Bool.not_eq_true', decide_eq_false_iff_not]
  constructor
  · rintro ⟨is, newer, older, split, none⟩
    refine ⟨is, older.reverse, newer.reverse, ?_, fun s mem => none s (mem_reverse.mp mem)⟩
    rw [← reverse_reverse sites, split]
    simp
  · rintro ⟨is, older, newer, rfl, none⟩
    exact ⟨is, newer.reverse, older.reverse, by simp, fun s mem => none s (mem_reverse.mp mem)⟩

theorem newest_mem (is : newest sites svc = some h) : h ∈ sites ∧ h.direct.svc = svc ∧ h.state = .published := by
  obtain ⟨⟨call, state⟩, older, newer, rfl, -⟩ := newest_eq_some.mp is
  exact ⟨by simp, call, state⟩

theorem newest_append (s : Site) :
    newest (sites ++ [s]) svc = if s.direct.svc = svc ∧ s.state = .published then some s else newest sites svc := by
  unfold newest
  by_cases is : s.direct.svc = svc ∧ s.state = .published <;> simp [is]

theorem newest_retire (is : newest sites svc = some h) (other : sites[i]? ≠ some h) :
    newest (sites.modify i Site.retire) svc = some h := by
  obtain ⟨here, older, newer, rfl, none⟩ := newest_eq_some.mp is
  refine newest_eq_some.mpr ⟨here, ?_⟩
  rcases Nat.lt_trichotomy i older.length with old | same | new
  · exact ⟨older.modify i Site.retire, newer, modify_append_left old, none⟩
  · rw [same, getElem?_append_right (le_refl _), Nat.sub_self] at other
    exact absurd rfl other
  · refine ⟨older, newer.modify (i - older.length - 1) Site.retire, ?_,
      forall_mem_modify none fun _ _ both => (nomatch both.2)⟩
    obtain ⟨k, rfl⟩ : ∃ k, i = older.length + (k + 1) := ⟨i - older.length - 1, by omega⟩
    rw [modify_append_right, modify_succ_cons, show older.length + (k + 1) - older.length - 1 = k by omega]

end

variable {setup : Setup} {origin : Nat → Word}

/-- An address where the registry has no code or state of its own. -/
def Setup.Plain (setup : Setup) (addr : Nat) : Prop :=
  (∀ pool ∈ setup.pools, ¬ (pool ≤ addr ∧ addr < pool + codeBytes)) ∧
    ¬ (setup.admitted ≤ addr ∧ addr < setup.admitted + 8)

/-- A registry and the text it has patched, which was another in the beginning. -/
structure Patched (setup : Setup) (origin : Nat → Word) (space : Space) : Prop where
  pools : space.registry.pools.map CodePool.address = setup.pools
  published : ∀ s ∈ space.registry.sites, s.state = .published → s.direct.gate ≠ 0
  admitted : ∀ s ∈ space.registry.sites, s.direct.gate ≠ 0 → s.original = svcWord ∧ origin s.direct.svc = svcWord ∧
    setup.Plain s.direct.svc
  word : ∀ a, setup.Plain a → space.text a = origin a ∨ ∃ h, newest space.registry.sites a = some h ∧
    space.text a = h.replacement

theorem Patched.start (setup : Setup) (text : Nat → Word) : Patched setup text (start setup text) where
  pools := by simp [Svc.start, comp_def]
  published s mem := by simp [Svc.start] at mem
  admitted s mem := by simp [Svc.start] at mem
  word a _ := .inl rfl

section

variable (patched : Patched setup origin space)

include patched

theorem Patched.of_registry (reg : final.registry = space.registry)
    (word : ∀ a, setup.Plain a → final.text a = origin a ∨ ∃ h, newest space.registry.sites a = some h ∧
      final.text a = h.replacement) :
    Patched setup origin final := by
  rw [← reg] at word
  exact ⟨reg ▸ patched.pools, reg ▸ patched.published, reg ▸ patched.admitted, word⟩

theorem Patched.wrote (own : ∀ a, addresses a → ¬ setup.Plain a) (wrote : Wrote addresses space final) :
    Patched setup origin final := by
  refine patched.of_registry wrote.1 fun a plain => ?_
  rw [wrote.2 a fun mem => own a mem plain]
  exact patched.word a plain

theorem Patched.same (same : Same space final) : Patched setup origin final :=
  have wrote : Wrote (fun _ => False) space final := same.wrote
  patched.wrote (fun _ absurd => absurd.elim) wrote

theorem Patched.rewrite (reg : final.registry = space.registry) (text : final.text = update space.text svc word)
    (may : word = origin svc ∨ ∃ h, newest space.registry.sites svc = some h ∧ word = h.replacement) :
    Patched setup origin final := by
  refine patched.of_registry reg fun a plain => ?_
  rw [text]
  by_cases here : a = svc
  · subst here
    rw [update_self]
    exact may
  · rw [update_of_ne here]
    exact patched.word a plain

end

variable (patched : Patched setup origin space)

include patched

theorem Patched.refuse (gate : s.direct.gate = 0) (state : s.state = .retired) :
    Patched setup origin { space with registry := { space.registry with sites := space.registry.sites ++ [s] } } := by
  refine ⟨patched.pools, forall_mem_concat patched.published fun is => ?_,
    forall_mem_concat patched.admitted fun other => absurd gate other,
    fun a plain => ?_⟩
  · rw [state] at is
    cases is
  · rw [newest_append, if_neg fun both => by rw [state] at both; cases both.2]
    exact patched.word a plain

theorem Patched.publish {text : Nat → Word} {pools : List CodePool} (faults : List (Option Errno))
    (addresses : pools.map CodePool.address = space.registry.pools.map CodePool.address)
    (gate : s.direct.gate ≠ 0) (orig : s.original = svcWord) (was : origin s.direct.svc = svcWord)
    (plain : setup.Plain s.direct.svc) (state : s.state = .published) (here : text s.direct.svc = s.replacement)
    (off : ∀ a, setup.Plain a → a ≠ s.direct.svc → text a = space.text a) :
    Patched setup origin
      { registry := { space.registry with sites := space.registry.sites ++ [s], pools := pools }
        text := text, faults := faults } := by
  refine ⟨addresses.trans patched.pools, forall_mem_concat patched.published fun _ => gate,
    forall_mem_concat patched.admitted fun _ => ⟨orig, was, plain⟩, fun a plain' => ?_⟩
  dsimp only
  rw [newest_append]
  by_cases same : a = s.direct.svc
  · subst same
    rw [if_pos ⟨rfl, state⟩]
    exact .inr ⟨s, rfl, here⟩
  · rw [if_neg fun both => same both.1.symm, off a plain' same]
    exact patched.word a plain'

theorem Patched.retire (is : space.registry.sites[i]? = some s)
    (gone : space.text s.direct.svc ≠ s.replacement ∨ space.text s.direct.svc = origin s.direct.svc) :
    Patched setup origin
      { space with registry := { space.registry with sites := space.registry.sites.modify i Site.retire } } := by
  refine ⟨patched.pools, forall_mem_modify patched.published nofun,
    forall_mem_modify patched.admitted fun old there => patched.admitted old (mem_of_getElem? there), fun a plain => ?_⟩
  rcases patched.word a plain with own | ⟨h, newest, text⟩
  · exact .inl own
  · by_cases same : h = s
    · subst same
      obtain ⟨-, rfl, -⟩ := newest_mem newest
      exact .inl (gone.resolve_left fun other => other text)
    · refine .inr ⟨h, newest_retire newest fun other => same ?_, text⟩
      rw [is] at other
      exact (some.inj other).symm

end

open List

variable {svc : Nat} {setup : Setup} {origin : Nat → Word} {space : Space}

/-- The site that is entered before it is known whether it can have a gate. -/
def refused (svc : Nat) : Site :=
  { direct := ⟨svc, 0, 0, 0⟩, kernelAlias := 0, original := 0, replacement := 0, state := .retired }

/-- A registry with a site entered. -/
def Space.entered (before : Space) (s : Site) : Registry :=
  { before.registry with sites := before.registry.sites ++ [s] }

def gateSite (c : DirectContext) (replacement : Word) : Site :=
  { direct := c, kernelAlias := c.gate + directSignalSize, original := svcWord, replacement := replacement
    state := .published }

/-- The context of a gate that comes next in a pool. -/
def CodePool.next (pool : CodePool) (setup : Setup) (svc : Nat) (number : BitVec 64) : DirectContext :=
  ⟨svc, pool.address + pool.used, setup.frames, number⟩

def CodePool.room (pool : CodePool) : Nat → Prop := wordsAt (pool.address + pool.used) 180

def CodePool.taken (pool : CodePool) : CodePool := { pool with used := pool.used + (gateBytes + 15) / 16 * 16 }

/-- A gate that was put into the pool at `i`, with its call patched. -/
structure Added (setup : Setup) (before : Space) (svc : Nat) (number : BitVec 64) (i : Nat) (pool : CodePool)
    (replacement : Word) (final : Space) : Prop where
  there : before.registry.pools[i]? = some pool
  fits : pool.used + gateBytes ≤ codeBytes
  registry : final.registry =
    { before.entered (gateSite (pool.next setup svc number) replacement) with
      pools := before.registry.pools.modify i CodePool.taken }
  patched : final.text svc = replacement
  elsewhere : ∀ a, a ≠ svc → ¬ pool.room a → final.text a = before.text a

/-- A failure that may have left something in the room of a gate to come. -/
structure Littered (before : Space) (svc : Nat) (pool : CodePool) (final : Space) : Prop where
  there : pool ∈ before.registry.pools
  fits : pool.used + gateBytes ≤ codeBytes
  registry : final.registry = before.entered (refused svc)
  elsewhere : ∀ a, ¬ pool.room a → final.text a = before.text a

variable {before : Space}

theorem CodePool.room_not_plain {pool : CodePool} (addresses : before.registry.pools.map CodePool.address = setup.pools)
    (there : pool ∈ before.registry.pools) (fits : pool.used + gateBytes ≤ codeBytes) (a : Nat) (isIn : pool.room a) :
    ¬ setup.Plain a := by
  intro plain
  have mem : pool.address ∈ setup.pools := by
    rw [← addresses]
    exact mem_map_of_mem there
  have size := gateBytes_eq
  obtain ⟨low, high⟩ := isIn
  exact plain.1 pool.address mem ⟨by omega, by omega⟩

theorem extendIn_outcome (staging : Staging) (num : BitVec 64) (prev : Option Site)
    (candidates : List (Nat × CodePool)) (registry : space.registry = before.entered (refused svc))
    (text : space.text = before.text)
    (pools : ∀ i pool, (i, pool) ∈ candidates → before.registry.pools[i]? = some pool) :
    Ensures space
      (fun _ final => Same space final ∨ ∃ i pool replacement, Added setup before svc num i pool replacement final)
      (fun final => ∃ pool, Littered before svc pool final)
      (extendIn setup staging before.registry.sites.length svc num prev candidates) := by
  induction candidates with
  | nil => exact .pure (.inl (.refl space))
  | cons candidate rest ih =>
    obtain ⟨i, pool⟩ := candidate
    have others := ih fun i pool mem => pools i pool (mem_cons_of_mem _ mem)
    rw [extendIn]
    split
    · exact others
    next fits =>
      dsimp only
      split
      · exact others
      rename_i code replacement planned
      have there := pools i pool mem_cons_self
      have mem := mem_of_getElem? there
      have room : pool.used + gateBytes ≤ codeBytes := Nat.not_lt.mp fits
      have staged : Puts space _ code.length space _ := registryStage_puts staging (pool.address + pool.used) code
      rw [gateCode_length planned] at staged
      refine (staged.mono (fun _ _ wrote => wrote) ?_).bind fun _ mid wrote => ?_
      · exact fun final wrote => ⟨pool, mem, room, wrote.1.trans registry, text ▸ wrote.2⟩
      refine ((writeWord_writes svc replacement).mono (fun _ _ written => written) ?_).bind fun _ last written => ?_
      · rintro final ⟨sameRegistry, sameText⟩
        refine ⟨pool, mem, room, (sameRegistry.trans wrote.1).trans registry, fun a other => ?_⟩
        rw [sameText, wrote.2 a other, text]
      obtain ⟨lastRegistry, lastText⟩ := written
      refine .modify_bind (.modify_bind (.pure (.inr ⟨i, pool, replacement, there, room, ?_, ?_, ?_⟩)))
      · rw [lastRegistry, wrote.1, registry]
        simp only [Space.entered, gateSite, CodePool.next, set_append_right _ _ (le_refl _), Nat.sub_self,
          set_cons_zero]
        rfl
      · rw [lastText, Function.update_self]
      · intro a other outside
        rw [lastText, Function.update_of_ne other, wrote.2 a outside, text]

def Refused (space : Space) (svc : Nat) (final : Space) : Prop :=
  final.registry = space.entered (refused svc) ∧ final.text = space.text

structure Admissible (setup : Setup) (space : Space) (svc : Nat) (previous : Option Site) : Prop where
  enabled : space.registry.disabled = false
  plain : setup.Plain svc
  word : space.text svc = svcWord ∨ ∃ p, previous = some p ∧ space.text svc = p.replacement

theorem tryRead_reads (addr : Nat) :
    Ensures space (fun current final => (current = none ∨ current = some (space.text addr)) ∧ Same space final)
      (fun _ => False)
      (tryCatch (some <$> registryRead addr) fun _ => pure none : SpaceM (Option Word)) := by
  have read :
    Ensures space (fun word final => word = space.text addr ∧ Same space final) (Same space) (registryRead addr) :=
    registryRead_reads addr
  unfold Ensures at read ⊢
  simp only [EStateM.run, tryCatch, tryCatchThe, MonadExceptOf.tryCatch, EStateM.tryCatch, Functor.map,
    EStateM.map] at read ⊢
  cases run : registryRead addr space with
  | ok word final =>
    rw [run] at read
    exact ⟨.inr (congrArg some read.1), read.2⟩
  | error error final =>
    rw [run] at read
    exact ⟨.inl rfl, read⟩

theorem plain_of_checks (maps : Maps setup) (addresses : space.registry.pools.map CodePool.address = setup.pools)
    (apart : ¬ ∃ pool ∈ space.registry.pools, distance svc pool.address < codeBytes)
    (executable : maps.executable svc) : setup.Plain svc := by
  refine ⟨fun addr mem isIn => ?_, maps.state_writable svc executable⟩
  rw [← addresses] at mem
  obtain ⟨pool, there, rfl⟩ := mem_map.mp mem
  refine apart ⟨pool, there, ?_⟩
  unfold distance
  omega

theorem extend_outcome (maps : Maps setup) (staging : Staging) (svc : Nat) (num : BitVec 64) (prev : Option Site)
    (addresses : space.registry.pools.map CodePool.address = setup.pools) :
    Ensures space
      (fun _ final => Same space final ∨ Refused space svc final ∨
        (Admissible setup space svc prev ∧ ∃ i pool replacement, Added setup space svc num i pool replacement final))
      (fun final => Refused space svc final ∨ ∃ pool, Littered space svc pool final)
      (extend maps staging svc num prev) := by
  refine .get_bind (.ite (fun _ => .pure (.inl (.refl space))) fun shape => ?_)
  refine .ite (fun _ => .pure (.inl (.refl space))) fun apart => .modify_bind ?_
  refine ((tryRead_reads svc).mono (fun _ _ read => read) fun _ none => none.elim).bind fun current mid read => ?_
  obtain ⟨is, same⟩ := read
  have registry : mid.registry = space.entered (refused svc) := same.1
  have text : mid.text = space.text := same.2
  refine .ite (fun _ => .pure (.inr (.inl ⟨registry, text⟩))) fun fine => ?_
  refine .rejectIf_bind (.inl ⟨registry, text⟩) fun _ => ?_
  simp only [not_or, not_and, not_not] at shape fine
  have plain := plain_of_checks maps addresses apart fine.2.2
  have admissible : Admissible setup space svc prev := by
    refine ⟨by simpa using shape.1, plain, ?_⟩
    obtain rfl : current = some (space.text svc) := is.resolve_left fine.1
    by_cases original : space.text svc = svcWord
    · exact .inl original
    · have found := fine.2.1 fun same => original (some.inj same)
      obtain ⟨p, known, same⟩ := map_eq_some_iff.mp found.symm
      exact .inr ⟨p, known, same.symm⟩
  have pools : ∀ i pool, (i, pool) ∈ space.registry.pools.mapIdx (fun i pool => (i, pool)) →
      space.registry.pools[i]? = some pool := by
    intro i pool mem
    obtain ⟨j, small, is⟩ := mem_mapIdx.mp mem
    obtain ⟨rfl, rfl⟩ := Prod.mk.inj is
    exact getElem?_eq_getElem small
  refine (extendIn_outcome staging num prev _ registry text pools).mono ?_ ?_
  · rintro _ final (same | added)
    · exact .inr (.inl ⟨same.1.trans registry, same.2.trans text⟩)
    · exact .inr (.inr ⟨admissible, added⟩)
  · exact fun final littered => .inr littered

end Shroot.Svc
