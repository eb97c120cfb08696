import Shroot.Semaphore.Ledger

namespace Shroot.Semaphore

open General List Option Database

variable {object : ObjectId} {n : Nat} {p : Pending} {u : Unit} {write : Database → Database} {α : Type}
  {refused : Errno} {val : Int} {process : Process} {row : UndoRow}

variable {s s' : Session}

section

variable {id : ObjectId} {info : Info} {kind : Kind}

theorem ask_ok (run : ask.run s = .ok u s') : s'.db = s.db := by
  unfold ask at run
  rw [run_get_bind] at run
  split at run
  · obtain ⟨-, rfl⟩ := run_pure_ok.mp run
    rfl
  · split at run
    · obtain ⟨-, rfl⟩ := run_pure_ok.mp run
      rfl
    · exact absurd run (by simp)

theorem query_ok {read : Database → α} {found : α} (run : (query read).run s = .ok found s') :
    found = read s.db ∧ s'.db = s.db := by
  obtain ⟨_, t, asked, run⟩ := run_bind_ok.mp run
  obtain ⟨rfl, rfl⟩ := run_pure_ok.mp run
  have same := ask_ok asked
  exact ⟨by rw [same], same⟩

theorem execute_ok (run : (execute write).run s = .ok u s') : s'.db = write s.db := by
  obtain ⟨_, t, asked, run⟩ := run_bind_ok.mp run
  have stored := run_modify_ok.mp run
  subst stored
  rw [ask_ok asked]

theorem insert_ok {write : Database → Option Database} (run : (insert write refused).run s = .ok u s') :
    write s.db = some s'.db := by
  obtain ⟨_, t, asked, run⟩ := run_bind_ok.mp run
  rw [run_get_bind] at run
  split at run
  · exact absurd run (by simp)
  next db written =>
    cases run
    rw [← ask_ok asked, written]

theorem permit_ok {refused : Option Errno} (run : (permit refused).run s = .ok u s') : s' = s := by
  unfold permit at run
  split at run
  · exact (run_pure_ok.mp run).2.symm
  · exact absurd run (by simp)

theorem noteChange_ok (run : noteChange.run s = .ok u s') : s'.db = s.db := by
  have stored := run_modify_ok.mp run
  rw [← stored]

theorem execute_noted (run : (do execute write; noteChange).run s = .ok u s') : s'.db = write s.db := by
  obtain ⟨_, t, wrote, run⟩ := run_bind_ok.mp run
  rw [noteChange_ok run, execute_ok wrote]

theorem ipcSave_ok {change : Info → Info} (run : (ipcSave id change).run s = .ok u s') :
    s'.db = s.db.setInfo id change := execute_noted run

theorem setValue_ok (run : (setValue object n val process).run s = .ok u s') :
    s'.db = s.db.setSem object n val process := execute_noted run

theorem value_ok {row : SemRow} (run : (value object n).run s = .ok row s') :
    s.db.sems.find? (object, n) = some row ∧ s'.db = s.db := by
  obtain ⟨found, t, asked, run⟩ := run_bind_ok.mp run
  obtain ⟨rfl, same⟩ := query_ok asked
  split at run
  · exact absurd run (by simp)
  next _ row' found =>
    obtain ⟨rfl, rfl⟩ := run_pure_ok.mp run
    exact ⟨found, same⟩

theorem ipcLoad_ok (run : (ipcLoad p kind id).run s = .ok info s') :
    (s.db.objects.find? id).any (fun row => row.kind = kind) ∧ s'.db = s.db := by
  obtain ⟨found, t, asked, run⟩ := run_bind_ok.mp run
  obtain ⟨rfl, same⟩ := query_ok asked
  split at run
  · exact absurd run (by simp)
  next _ row found =>
    obtain ⟨-, rfl⟩ := run_pure_ok.mp run
    obtain ⟨there, has⟩ := filter_eq_some_iff.mp found
    refine ⟨?_, same⟩
    rw [there]
    simp only [any_some, decide_eq_true_eq] at has ⊢
    exact has.1

theorem loadFor_ok (run : (loadFor p kind id).run s = .ok info s') :
    (s.db.objects.find? id).any (fun row => row.kind = kind) ∧ s'.db = s.db := by
  have found : (ipcLoad p kind id).run s = .ok info s' := by
    simp only [EStateM.run, loadFor] at run ⊢
    split at run
    · cases run
    · exact run
  exact ipcLoad_ok found

end

/-- A statement that stands for these events whenever it succeeds. -/
def Does {α : Type} (log : List Event) (statement : Statement α) : Prop :=
  ∀ s s' value, statement.run s = .ok value s' → Effect log s.db s'.db

namespace Does

variable {β : Type} {log : List Event} {first : Statement α} {next : α → Statement β}

theorem of_same (same : ∀ s s' value, first.run s = .ok value s' → s'.db = s.db) : Does [] first := by
  intro s s' value run
  rw [same s s' value run]
  exact .refl _

theorem pure (value : α) : Does [] (pure value) := of_same fun _ _ _ run => (run_pure_ok.mp run).2 ▸ rfl

theorem throw (stop : Stop) : Does log (throw stop : Statement α) := fun _ _ _ run => (run_throw_ne.mp run).elim

theorem bind (does : Does [] first) (goes : ∀ value, Does log (next value)) : Does log (first >>= next) := by
  intro s s' value run
  obtain ⟨v, t, ran, run⟩ := run_bind_ok.mp run
  exact (does s t v ran).nil_trans (goes v t s' value run)

theorem bind_nil (does : Does log first) (goes : ∀ value, Does [] (next value)) : Does log (first >>= next) := by
  intro s s' value run
  obtain ⟨v, t, ran, run⟩ := run_bind_ok.mp run
  exact (does s t v ran).trans_nil (goes v t s' value run)

theorem get_bind {next : Session → Statement β} (goes : ∀ s, Does log (next s)) : Does log (get >>= next) :=
  fun s s' val run => goes s s s' val run

theorem rejectIf_bind {bad : Prop} [Decidable bad] {stop : Stop} {next : Unit → Statement β}
    (goes : ¬ bad → Does log (next ())) : Does log (rejectIf bad stop >>= next) := by
  intro s s' val run
  obtain ⟨good, run⟩ := run_rejectIf_bind_ok.mp run
  exact goes good s s' val run

variable {items : List α}

theorem forM {action : α → Statement Unit} (does : ∀ item ∈ items, Does [] (action item)) :
    Does [] (items.forM action) := by
  induction items with
  | nil => exact .pure _
  | cons item rest ih =>
    exact (does item mem_cons_self).bind fun _ => ih fun item mem => does item (mem_cons_of_mem _ mem)

theorem mapM {action : α → Statement β} (does : ∀ item, Does [] (action item)) : Does [] (items.mapM action) := by
  induction items with
  | nil => exact .pure _
  | cons item rest ih =>
    rw [mapM_cons]
    exact (does item).bind fun _ => ih.bind fun _ => .pure _

theorem ask : Does [] ask := of_same fun _ _ _ run => ask_ok run

theorem query (read : Database → α) : Does [] (query read) := of_same fun _ _ _ run => (query_ok run).2

theorem execute (effect : ∀ db, Effect log db (write db)) : Does log (execute write) := by
  intro s s' _ run
  rw [execute_ok run]
  exact effect s.db

theorem insert {write : Database → Option Database} (effect : ∀ db db', write db = some db' → Effect log db db') :
    Does log (insert write refused) :=
  fun s s' _ run => effect s.db s'.db (insert_ok run)

theorem noteChange : Does [] noteChange := of_same fun _ _ _ run => noteChange_ok run

theorem permit (refused : Option Errno) : Does [] (permit refused) := of_same fun _ _ _ run => permit_ok run ▸ rfl

theorem value (object : ObjectId) (n : Nat) : Does [] (value object n) := of_same fun _ _ _ run => (value_ok run).2

theorem ipcLoad (p : Pending) (kind : Kind) (id : ObjectId) : Does [] (ipcLoad p kind id) :=
  of_same fun _ _ _ run => (ipcLoad_ok run).2

theorem ipcSave (id : ObjectId) (change : Info → Info) : Does [] (ipcSave id change) :=
  (Does.execute fun _ => setInfo_effect).bind fun _ => .noteChange

theorem ipcRemove (id : ObjectId) : Does [] (ipcRemove id) :=
  (Does.execute fun _ => removeObjects_effect).bind fun _ => .noteChange

end Does

section

variable {db db' : Database}

theorem level_setSem {o : ObjectId} {m : Nat} :
    (db.setSem object n val process).level o m =
      if o = object ∧ m = n then (db.level o m).map fun _ => val else db.level o m := by
  simp only [level, setSem, Table.find?_update, Prod.mk.injEq]
  split
  · rw [Option.map_map, Option.map_map]
    rfl
  · rfl

theorem putUndo_same (put : db.putUndo row = some db') : db'.sems = db.sems ∧ db'.objects = db.objects := by
  unfold putUndo at put
  split at put
  · cases put
    exact ⟨rfl, rfl⟩
  · cases put

theorem putWaiter_same {row : WaiterRow} (put : db.putWaiter row = some db') :
    db'.sems = db.sems ∧ db'.undo = db.undo := by
  unfold putWaiter at put
  split at put
  · cases put
    exact ⟨rfl, rfl⟩
  · cases put

theorem level_congr (same : db'.sems = db.sems) : db'.level = db.level := by
  funext o n
  rw [level, level, same]

theorem level_of_not_has (away : db.objects.find? object = none) : db.level object n = none := by
  cases found : db.sems.find? (object, n) with
  | none => simp [level, found]
  | some row =>
    obtain ⟨mem, same⟩ := Table.find?_eq_some.mp found
    have there := db.semObject row mem
    rw [show row.object = object from congrArg Prod.fst same, away] at there
    cases there

end

section

variable {b : SemBuf} {ops : List SemBuf}

/-- What an operation does to the values of a set, where it can be done. -/
def SemBuf.apply (levels : Nat → Option Int) (b : SemBuf) : Option (Nat → Option Int) :=
  (levels b.num).bind fun v =>
    if (b.op = 0 → v = 0) ∧ 0 ≤ v + b.op ∧ v + b.op ≤ semvmx then some (Function.update levels b.num (some (v + b.op)))
    else none

theorem undo_ok (undone : b.undo = true) (has : s.db.Holds object b.num)
    (run : (undo p object b.num (-b.op)).run s = .ok u s') :
    Effect [.operated p.owner p.space object b] s.db s'.db ∧ s'.db.sems = s.db.sems ∧ s'.db.objects = s.db.objects := by
  obtain ⟨row, t, asked, run⟩ := run_bind_ok.mp run
  obtain ⟨rfl, same⟩ := query_ok asked
  obtain ⟨sub, run⟩ := run_rejectIf_bind_ok.mp run
  rw [not_or, not_lt, not_lt] at sub
  have put := (insert_ok run)
  rw [same] at put
  exact ⟨putUndo_effect undone has rfl sub.1 sub.2 put, putUndo_same put⟩

theorem SemBuf.range (free : ¬ ((b.op = 0 ∧ val ≠ 0) ∨ (b.op < 0 ∧ val < -b.op))) (low : 0 ≤ val) :
    (b.op = 0 → val = 0) ∧ 0 ≤ val + b.op := by
  push Not at free
  by_cases negative : b.op < 0
  · omega
  · omega

variable (sound : s.db.Sound) (sem : (s.db.objects.find? object).any fun row => row.kind = .sem)

include sound sem

theorem operateOne_ok (run : (operateOne p object b).run s = .ok u s') :
    Effect [.operated p.owner p.space object b] s.db s'.db ∧ s'.db.objects = s.db.objects ∧
      b.apply (s.db.level object) = some (s'.db.level object) ∧ ∀ o, o ≠ object → s'.db.level o = s.db.level o := by
  obtain ⟨row, t, found, run⟩ := run_bind_ok.mp run
  obtain ⟨found, same⟩ := value_ok found
  dsimp only at run
  split at run
  · -- It would wait.
    split at run <;> exact absurd run (by simp)
  rename_i free
  obtain ⟨high, run⟩ := run_rejectIf_bind_ok.mp run
  obtain ⟨zero, low⟩ := SemBuf.range free (sound.range row (Table.find?_eq_some.mp found).1).1
  have high : row.value + b.op ≤ semvmx := not_lt.mp high
  have has : t.db.Holds object b.num := by
    rw [same]
    exact ⟨sem, by rw [found]; rfl⟩
  -- The undo row comes first, where there is one.
  have kept : ∃ t₂, Effect [.operated p.owner p.space object b] t.db t₂.db ∧ t₂.db.sems = t.db.sems ∧
      t₂.db.objects = t.db.objects ∧ (setValue object b.num (row.value + b.op) p.process).run t₂ = .ok u s' := by
    split at run
    · obtain ⟨_, t₂, undone, run⟩ := run_bind_ok.mp run
      obtain ⟨effect, sems, objects⟩ := undo_ok ‹_› has undone
      exact ⟨t₂, effect, sems, objects, run⟩
    · refine ⟨t, untallied_effect (by simpa using ‹¬ b.undo = true›) ?_ (.refl _), rfl, rfl, run⟩
      have there := has.1
      cases known : t.db.objects.find? object with
      | none => simp [known] at there
      | some _ => simp [Database.Has, known]
  rw [same] at kept
  obtain ⟨t₂, effect, sems, objects, run⟩ := kept
  have stored := setValue_ok run
  have level : t₂.db.level = s.db.level := level_congr sems
  have here : s.db.level object b.num = some row.value := by simp [Database.level, found]
  refine ⟨?_, by rw [stored]; exact objects, ?_, ?_⟩
  · rw [stored]
    exact effect.trans_nil (setSem_effect low high)
  · rw [SemBuf.apply, here, bind_some, if_pos ⟨zero, low, high⟩, stored]
    congr 1
    funext n
    rw [level_setSem, level]
    by_cases same : n = b.num
    · subst same
      simp [here]
    · simp [same]
  · intro o other
    funext n
    rw [stored, level_setSem, level, if_neg (fun both => other both.1)]

/-- What operations on a set do when all of them succeed. -/
def Operated (p : Pending) (object : ObjectId) (ops : List SemBuf) (db db' : Database) : Prop :=
  Effect (ops.map (.operated p.owner p.space object)) db db' ∧
    ops.foldlM SemBuf.apply (db.level object) = some (db'.level object) ∧ ∀ o, o ≠ object → db'.level o = db.level o

theorem operations_ok (run : (ops.forM (operateOne p object)).run s = .ok u s') : Operated p object ops s.db s'.db := by
  have loop := run_forM_ok (fun done t => Operated p object done s.db t.db ∧ t.db.objects = s.db.objects) ?_ ?_ run
  · exact loop.1
  · exact ⟨⟨.refl _, rfl, fun _ _ => rfl⟩, rfl⟩
  · rintro done b rest t t' - ⟨⟨effect, levels, others⟩, objects⟩ run
    obtain ⟨one, same, applied, off⟩ := operateOne_ok (effect.sound sound) (by rw [objects]; exact sem) run
    refine ⟨⟨?_, ?_, fun o other => (off o other).trans (others o other)⟩, same.trans objects⟩
    · rw [map_append]
      exact effect.trans one
    · rw [foldlM_append, levels]
      simp [applied]

theorem operate_ok {st : Info} {reply : Reply} (run : (operate p object ops st).run s = .ok reply s') :
    Operated p object ops s.db s'.db := by
  obtain ⟨-, run⟩ := run_rejectIf_bind_ok.mp run
  obtain ⟨_, t, may, run⟩ := run_bind_ok.mp run
  rw [permit_ok may] at run
  obtain ⟨_, t₁, looped, run⟩ := run_bind_ok.mp run
  obtain ⟨_, t₂, saved, run⟩ := run_bind_ok.mp run
  obtain ⟨-, rfl⟩ := run_pure_ok.mp run
  obtain ⟨effect, applied, others⟩ := operations_ok sound sem looped
  have stored := ipcSave_ok saved
  have level : t₂.db.level = t₁.db.level := level_congr (by rw [stored]; rfl)
  rw [Operated, level]
  exact ⟨by rw [stored]; exact effect.trans_nil setInfo_effect, applied, others⟩

end

variable {dead : OwnerId → Except Errno Bool} {now : Int} {owner self : OwnerId}

/-- What undoing a row does to the values: its delta is added, within the bounds. -/
def settle (levels : ObjectId → Nat → Option Int) (row : UndoRow) : ObjectId → Nat → Option Int :=
  fun o n => if o = row.object ∧ n = row.n then (levels o n).map fun val => clamp (val + row.delta) else levels o n

theorem clamp_range (val : Int) : 0 ≤ clamp val ∧ clamp val ≤ semvmx := by
  unfold clamp semvmx
  split
  · omega
  · split <;> omega

theorem undoRow_ok (run : (undoRow now row).run s = .ok u s') :
    Effect [] s.db s'.db ∧ s'.db.undo = s.db.undo ∧ s'.db.level = settle s.db.level row := by
  obtain ⟨object, t, asked, run⟩ := run_bind_ok.mp run
  obtain ⟨rfl, same⟩ := query_ok asked
  split at run
  next away =>
    obtain ⟨-, rfl⟩ := run_pure_ok.mp run
    rw [same]
    refine ⟨.refl _, rfl, ?_⟩
    funext o n
    unfold settle
    split
    next both =>
      rw [both.1, level_of_not_has away]
      rfl
    · rfl
  · obtain ⟨-, run⟩ := run_rejectIf_bind_ok.mp run
    obtain ⟨sem, t₁, found, run⟩ := run_bind_ok.mp run
    obtain ⟨found, same₁⟩ := value_ok found
    obtain ⟨_, t₂, wrote, run⟩ := run_bind_ok.mp run
    have wrote := setValue_ok wrote
    have saved := ipcSave_ok run
    rw [same] at found
    rw [same₁, same] at wrote
    obtain ⟨low, high⟩ := clamp_range (sem.value + row.delta)
    rw [saved, wrote]
    refine ⟨(setSem_effect low high).trans_nil setInfo_effect, rfl, ?_⟩
    have level : ((s.db.setSem row.object row.n (clamp (sem.value + row.delta)) row.process).setInfo row.object
        fun info => { info with otime := now }).level =
        (s.db.setSem row.object row.n (clamp (sem.value + row.delta)) row.process).level := level_congr rfl
    rw [level]
    funext o n
    rw [level_setSem, settle]
    split
    next both =>
      rw [both.1, both.2]
      simp [Database.level, found]
    · rfl

/-- What `md_ipc_undo_apply` does when it succeeds. -/
structure Settled (owner : OwnerId) (space : SpaceId) (a b : Database) : Prop where
  effect : Effect [.released owner space] a b
  undo : b.undo = a.undo.remove (UndoRow.isOf owner space)
  level : b.level = (a.undoRows owner space).foldl settle a.level

theorem undoApply_ok {space : SpaceId} (run : (undoApply now owner space).run s = .ok u s') :
    Settled owner space s.db s'.db := by
  obtain ⟨rows, t, asked, run⟩ := run_bind_ok.mp run
  obtain ⟨rfl, same⟩ := query_ok asked
  obtain ⟨_, t₁, looped, run⟩ := run_bind_ok.mp run
  have loop :=
    run_forM_ok (fun done t => Effect [] s.db t.db ∧ t.db.undo = s.db.undo ∧ t.db.level = done.foldl settle s.db.level)
      ?_ ?_ looped
  · obtain ⟨effect, undo, level⟩ := loop
    have gone := execute_ok run
    refine ⟨?_, ?_, ?_⟩
    · rw [gone]
      exact effect.nil_trans release_effect
    · rw [gone, ← undo]
      rfl
    · rw [← level]
      exact level_congr (by rw [gone]; rfl)
  · rw [same]
    exact ⟨.refl _, rfl, rfl⟩
  · rintro done row rest old new - ⟨effect, undo, level⟩ run
    obtain ⟨one, undo', level'⟩ := undoRow_ok run
    refine ⟨effect.nil_trans one, undo'.trans undo, ?_⟩
    rw [level', level, foldl_append]
    rfl

theorem removeOwner_ok (run : (removeOwner now owner).run s = .ok u s') : Effect [.released owner 0] s.db s'.db := by
  obtain ⟨_, t, undone, run⟩ := run_bind_ok.mp run
  obtain ⟨_, t₁, removed, run⟩ := run_bind_ok.mp run
  have done := undoApply_ok undone
  have removed := execute_ok removed
  have cleaned := execute_ok run
  have gone : Effect [] t.db t₁.db := by
    rw [removed]
    refine removeOwners_effect fun row mem => ?_
    -- The rows of the owner have just been removed.
    rw [done.undo] at mem
    have other := (Table.mem_remove.mp mem).2
    cases found : t.db.owners.find? row.owner with
    | none => rfl
    | some named =>
      have same := (Table.find?_eq_some.mp found).2
      simpa [UndoRow.isOf, same] using other
  rw [cleaned]
  exact (done.effect.trans_nil gone).trans_nil removeObjects_effect

/-- The owners that a transaction finds dead, in order. -/
def reaped (self : OwnerId) (dead : OwnerId → Except Errno Bool) (db : Database) : List OwnerId :=
  ((db.owners.rows.map (·.id)).insertionSort (· ≤ ·)).filter fun owner => owner ≠ self ∧ dead owner = .ok true

theorem reapOne_ok (run : (reapOne now self dead owner).run s = .ok u s') :
    Effect (([owner].filter fun owner => owner ≠ self ∧ dead owner = .ok true).map fun owner => .released owner 0)
      s.db s'.db ∧
      ((owner ≠ self → dead owner ≠ .ok true) → s'.db = s.db) := by
  obtain ⟨_, t, asked, run⟩ := run_bind_ok.mp run
  have same := ask_ok asked
  split at run
  next own =>
    obtain ⟨-, rfl⟩ := run_pure_ok.mp run
    rw [same]
    exact ⟨by simpa [own] using .refl s.db, fun _ => rfl⟩
  next other =>
    split at run
    · exact absurd run (by simp)
    next found =>
      rw [← same]
      exact ⟨by simpa [other, found] using removeOwner_ok run, fun alive => absurd found (alive other)⟩
    next found =>
      obtain ⟨-, rfl⟩ := run_pure_ok.mp run
      rw [same]
      exact ⟨by simpa [found] using .refl s.db, fun _ => rfl⟩

theorem reap_ok (run : (reap now self dead).run s = .ok u s') :
    Effect ((reaped self dead s.db).map fun owner => .released owner 0) s.db s'.db ∧
      ((∀ owner, owner ≠ self → dead owner ≠ .ok true) → s'.db = s.db) := by
  obtain ⟨owners, t, asked, run⟩ := run_bind_ok.mp run
  obtain ⟨rfl, same⟩ := query_ok asked
  refine run_forM_ok (fun done t =>
    Effect ((done.filter fun owner => owner ≠ self ∧ dead owner = .ok true).map fun owner => .released owner 0) s.db
      t.db ∧
      ((∀ owner, owner ≠ self → dead owner ≠ .ok true) → t.db = s.db)) ?_ ?_ run
  · rw [same]
    exact ⟨.refl _, fun _ => rfl⟩
  · rintro done owner rest old new - ⟨effect, still⟩ run
    obtain ⟨one, alive⟩ := reapOne_ok run
    refine ⟨?_, fun none => (alive (none owner)).trans (still none)⟩
    rw [filter_append, map_append]
    exact effect.trans one

end Shroot.Semaphore
