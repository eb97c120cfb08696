import Shroot.Errno
import Shroot.General.Checks
import Shroot.General.Loop

namespace Shroot.InodeView

open General List

variable {plan : Plan} {final : Store}

/-- The identifiers of objects, which a scope has too: that of its root. They are ordered as their texts are. -/
abbrev Id := Nat

def root : Id := 0

/-- A row of `inode_views`. -/
structure View where
  scope : Id
  upper : Option Id
  work : Option Id

/-- A row of `overlay_links`. -/
structure Link where
  object : Id
  upper : Option Id

/-- The tables; an object is with its scope. -/
structure Store where
  objects : List (Id × Id)
  views : List View
  links : List Link
  views_key : (views.map View.scope).Nodup

namespace Store

variable (db : Store)

/-- The pairs of a scope and one with an object that a view or a link of it has as its upper one or its work one. -/
def uses : List (Id × Id) :=
  (db.views.flatMap fun c => db.objects.filterMap fun u => if c.upper = some u.1 then some (c.scope, u.2) else none) ++
  (db.views.flatMap fun c => db.objects.filterMap fun u => if c.work = some u.1 then some (c.scope, u.2) else none) ++
  db.links.flatMap fun l => db.objects.flatMap fun c => db.objects.filterMap fun u =>
    if c.1 = l.object ∧ l.upper = some u.1 then some (c.2, u.2) else none

def edges : List (Id × Id) := (db.uses.filter fun e => e.1 ≠ e.2).dedup

/-- The views with a root object that are not the root. -/
def candidates : List Id := (db.views.filter fun v => (∃ o ∈ db.objects, o.1 = v.scope) ∧ v.scope > root).map View.scope

def scopeDelete (scope : Id) : Store where
  objects := db.objects.filter fun o => o.2 ≠ scope
  views := db.views.filter fun v => v.scope ≠ scope
  links := db.links.filter fun l => ¬ (l.object, scope) ∈ db.objects
  views_key := db.views_key.sublist (List.filter_sublist.map _)

end Store

/-- `view_gc`: the scopes with their blockers. -/
abbrev Plan := List (Id × Int)

def collectionPlan (db : Store) : Plan := db.candidates.map fun v => (v, db.edges.countP fun e => e.2 = v)

def collectionAdvance (edges : List (Id × Id)) (scope : Id) (removed : Bool) (plan : Plan) : Plan :=
  if removed then
    (plan.map fun e => if e.2 > 0 ∧ (scope, e.1) ∈ edges then (e.1, e.2 - 1) else e).filter fun e => e.1 ≠ scope
  else plan.map fun e => if e.1 = scope then (e.1, -1) else e

def ready (plan : Plan) : Option Id := ((plan.filter fun e => e.2 = 0).map Prod.fst).min?

/-- Whose lease is held by someone, and what fails. -/
structure Outside where
  held : Id → Bool
  fails : Id → Option Errno
  failsBefore : Option Errno
  failsAfter : Option Errno

theorem ready_mem {scope : Id} (is : ready plan = some scope) : (scope, 0) ∈ plan := by
  have mem := min?_mem is
  simp only [mem_map, mem_filter, decide_eq_true_eq] at mem
  obtain ⟨⟨v, b⟩, ⟨isIn, rfl⟩, rfl⟩ := mem
  exact isIn

theorem advance_shorter (edges : List (Id × Id)) {scope : Id} (gone : Bool) (there : (scope, 0) ∈ plan) :
    (collectionAdvance edges scope gone plan).countP (fun e => 0 ≤ e.2) < plan.countP fun e => 0 ≤ e.2 := by
  unfold collectionAdvance
  cases gone with
  | true =>
    rw [if_pos rfl, countP_filter, countP_map]
    refine countP_lt (fun e _ => ?_) there (by simp) (by simp)
    simp only [Function.comp, Bool.and_eq_true, decide_eq_true_eq]
    split <;> grind
  | false =>
    rw [if_neg (by simp), countP_map]
    refine countP_lt (fun e _ => ?_) there (by simp) (by simp)
    simp only [Function.comp]
    split <;> grind

/-- The loop of `views` that collects. -/
def collecting (w : Outside) (edges : List (Id × Id)) : Loop (Plan × Store) (Except Errno Store) where
  body s :=
    match ready s.1 with
    | none => .inl (.ok s.2)
    | some scope =>
      match w.fails scope with
      | some error => .inl (.error error)
      | none =>
        if w.held scope then .inr (collectionAdvance edges scope false s.1, s.2)
        else .inr (collectionAdvance edges scope true s.1, s.2.scopeDelete scope)
  size s := (s.1.countP (fun e => 0 ≤ e.2), 0)
  decreases s next goes := by
    split at goes
    · cases goes
    next scope first =>
      split at goes
      · cases goes
      · have there := ready_mem first
        split at goes
        · obtain rfl := Sum.inr.inj goes
          exact .left _ _ (advance_shorter edges false there)
        · obtain rfl := Sum.inr.inj goes
          exact .left _ _ (advance_shorter edges true there)

def viewsCollect (w : Outside) (db : Store) : Except Errno Store :=
  match w.failsBefore with
  | some error => .error error
  | none =>
    if ∀ v ∈ db.views, v.scope ≤ root then .ok db
    else do
      let final ← (collecting w db.edges).run (collectionPlan db, db)
      match w.failsAfter with
      | some error => .error error
      | none => return final

/-- A write transaction around a collection, as in `mdi_views_maintain`. -/
def viewsMaintain (w : Outside) (db : Store) : Except Errno Unit × Store :=
  match viewsCollect w db with
  | .ok final => (.ok (), final)
  | .error error => (.error error, db)

variable {w : Outside} {db : Store} {store : Store}

/-- A view depends on another one that has an object it uses. -/
def Store.Depends (db : Store) (c v : Id) : Prop := c ≠ v ∧ (c, v) ∈ db.uses

theorem mem_edges {c v : Id} : (c, v) ∈ db.edges ↔ db.Depends c v := by simp [Store.edges, Store.Depends, and_comm]

def Gone (db : Store) (plan : Plan) (v : Id) : Prop := v ∈ db.candidates ∧ v ∉ plan.map Prod.fst

instance (v : Id) : Decidable (Gone db plan v) := inferInstanceAs (Decidable (_ ∧ _))

/-- The edges to a view from those that are still there. -/
def blocking (db : Store) (plan : Plan) (v : Id) : List (Id × Id) :=
  db.edges.filter fun e => e.2 = v ∧ ¬ Gone db plan e.1

theorem blocking_nodup (db : Store) (plan : Plan) (v : Id) : (blocking db plan v).Nodup := (nodup_dedup _).filter _

def May (w : Outside) (db : Store) (v : Id) : Prop := v ∈ db.candidates ∧ w.held v = false

/-- What the loop keeps. -/
structure Collecting (w : Outside) (db : Store) (plan : Plan) (store : Store) : Prop where
  planned : ∀ e ∈ plan, e.1 ∈ db.candidates
  blockers : ∀ e ∈ plan, (e.2 = -1 ∧ w.held e.1 = true) ∨ e.2 = (blocking db plan e.1).length
  peels : ∀ v, Gone db plan v → Peels (May w db) db.Depends v
  views : store.views = db.views.filter fun v => ¬ Gone db plan v.scope

theorem Collecting.start (w : Outside) (db : Store) : Collecting w db (collectionPlan db) db := by
  have keys : (collectionPlan db).map Prod.fst = db.candidates := by simp [collectionPlan, Function.comp_def]
  have none : ∀ v, ¬ Gone db (collectionPlan db) v := fun v gone => gone.2 (keys ▸ gone.1)
  refine ⟨fun e mem => ?_, fun e mem => .inr ?_, fun v gone => absurd gone (none v), ?_⟩
  · rw [← keys]
    exact mem_map_of_mem mem
  · obtain ⟨v, -, rfl⟩ := mem_map.mp mem
    simp [blocking, none, countP_eq_length_filter]
  · simp [none]

theorem Collecting.busy (held : Collecting w db plan store) {scope : Id} (busy : w.held scope = true) :
    Collecting w db (collectionAdvance db.edges scope false plan) store := by
  have keys : (collectionAdvance db.edges scope false plan).map Prod.fst = plan.map Prod.fst := by
    simp only [collectionAdvance, Bool.false_eq_true, if_false, map_map]
    refine map_congr_left fun e _ => ?_
    simp only [Function.comp]
    split <;> rfl
  have same : ∀ v, Gone db (collectionAdvance db.edges scope false plan) v ↔ Gone db plan v := by
    intro v
    unfold Gone
    rw [keys]
  have still : ∀ v, blocking db (collectionAdvance db.edges scope false plan) v = blocking db plan v := by
    intro v
    simp only [blocking, same]
  refine ⟨fun e mem => ?_, fun e mem => ?_, fun v gone => held.peels v ((same v).mp gone), ?_⟩
  · simp only [collectionAdvance, Bool.false_eq_true, if_false, mem_map] at mem
    obtain ⟨old, isIn, rfl⟩ := mem
    have planned := held.planned old isIn
    split <;> exact planned
  · rw [still]
    simp only [collectionAdvance, Bool.false_eq_true, if_false, mem_map] at mem
    obtain ⟨old, isIn, rfl⟩ := mem
    split
    next is => exact .inl ⟨rfl, is ▸ busy⟩
    · exact held.blockers old isIn
  · simp only [same]
    exact held.views

/-- What an entry becomes when a view goes. -/
def unblocked (edges : List (Id × Id)) (scope : Id) (e : Id × Int) : Id × Int :=
  if e.2 > 0 ∧ (scope, e.1) ∈ edges then (e.1, e.2 - 1) else e

theorem unblocked_fst (edges : List (Id × Id)) (scope : Id) (e : Id × Int) : (unblocked edges scope e).1 = e.1 := by
  unfold unblocked
  split <;> rfl

theorem Collecting.removed (held : Collecting w db plan store) {scope : Id} (there : (scope, 0) ∈ plan)
    (free : w.held scope = false) :
    Collecting w db (collectionAdvance db.edges scope true plan) (store.scopeDelete scope) := by
  have planned := held.planned _ there
  have advanced : collectionAdvance db.edges scope true plan =
      (plan.filter fun e => e.1 ≠ scope).map (unblocked db.edges scope) := by
    change (plan.map (unblocked db.edges scope)).filter (fun e => e.1 ≠ scope) = _
    simp only [filter_map, Function.comp_def, unblocked_fst]
  have keys : (collectionAdvance db.edges scope true plan).map Prod.fst =
      (plan.map Prod.fst).filter fun v => v ≠ scope := by
    rw [advanced]
    simp only [map_map, filter_map, Function.comp_def, unblocked_fst]
  have gone : ∀ v, Gone db (collectionAdvance db.edges scope true plan) v ↔ Gone db plan v ∨ v = scope := by
    intro v
    unfold Gone
    rw [keys]
    by_cases same : v = scope
    · simp [same, planned]
    · simp [same]
  have fresh : ¬ Gone db plan scope := fun gone => gone.2 (mem_map_of_mem there)
  have blocking_eq : ∀ v, blocking db (collectionAdvance db.edges scope true plan) v =
      (blocking db plan v).erase (scope, v) := by
    intro v
    rw [(blocking_nodup db plan v).erase_eq_filter]
    unfold blocking
    rw [filter_filter]
    grind
  -- nothing blocks the view, so that everything that depends on it is gone
  have above : ∀ c, db.Depends c scope → Gone db plan c := by
    intro c depends
    rcases held.blockers _ there with ⟨minus, -⟩ | zero
    · cases minus
    · have empty : blocking db plan scope = [] := eq_nil_of_length_eq_zero (Int.natCast_eq_zero.mp zero.symm)
      by_contra remains
      have mem : (c, scope) ∈ blocking db plan scope := by simp [blocking, mem_edges, depends, remains]
      simp [empty] at mem
  refine ⟨fun e mem => ?_, fun e mem => ?_, fun v left => ?_, ?_⟩
  · rw [advanced, mem_map] at mem
    obtain ⟨old, isIn, rfl⟩ := mem
    rw [unblocked_fst]
    exact held.planned old (mem_of_mem_filter isIn)
  · rw [advanced, mem_map] at mem
    obtain ⟨old, isIn, rfl⟩ := mem
    have known := held.blockers old (mem_of_mem_filter isIn)
    rw [unblocked_fst, blocking_eq, length_erase]
    have edge : (scope, old.1) ∈ blocking db plan old.1 ↔ (scope, old.1) ∈ db.edges := by simp [blocking, fresh]
    unfold unblocked
    by_cases on : (scope, old.1) ∈ db.edges
    · have mem := edge.mpr on
      split <;> grind
    · simpa [on, edge] using known
  · rcases (gone v).mp left with pre | rfl
    · exact held.peels v pre
    · exact .peel ⟨planned, free⟩ fun c depends => held.peels c (above c depends)
  · simp only [Store.scopeDelete, held.views, filter_filter, gone]
    grind

/-- What a collection ends with: the views that are gone are all that could be peeled off. -/
theorem Collecting.done (held : Collecting w db plan store) (idle : ready plan = none) (v : Id) :
    Gone db plan v ↔ Peels (May w db) db.Depends v := by
  refine ⟨held.peels v, fun peels => ?_⟩
  induction peels with
  | @peel v may _ ih =>
    refine ⟨may.1, fun mem => ?_⟩
    obtain ⟨e, there, rfl⟩ := mem_map.mp mem
    rcases held.blockers e there with ⟨-, busy⟩ | blockers
    · exact absurd may.2 (by simp [busy])
    · have empty : blocking db plan e.1 = [] := by
        unfold blocking
        rw [filter_eq_nil_iff]
        rintro ⟨c, u⟩ edge
        simp only [decide_eq_true_eq, not_and, not_not]
        rintro rfl
        exact ih c (mem_edges.mp edge)
      have zero : e.2 = 0 := by simp [blockers, empty]
      have first : e.1 ∈ (plan.filter fun e => e.2 = 0).map Prod.fst :=
        mem_map_of_mem (mem_filter.mpr ⟨there, by simp [zero]⟩)
      rw [min?_eq_none_iff.mp idle] at first
      cases first

/-- A store has lost the views that can be peeled off, and no others. -/
def Collected (w : Outside) (db final : Store) : Prop :=
  ∀ v, v ∈ final.views ↔ v ∈ db.views ∧ ¬ Peels (May w db) db.Depends v.scope

def deleted (db final : Store) : Set Id := {v | v ∈ db.views.map View.scope ∧ v ∉ final.views.map View.scope}

theorem deleted_eq (views : Collected w db final) : deleted db final = {v | Peels (May w db) db.Depends v} := by
  ext v
  constructor
  · rintro ⟨there, away⟩
    obtain ⟨view, mem, rfl⟩ := mem_map.mp there
    by_contra remains
    exact away (mem_map_of_mem ((views view).mpr ⟨mem, remains⟩))
  · intro peels
    obtain ⟨view, mem, rfl⟩ := mem_map.mp peels.may_go.1
    refine ⟨mem_map_of_mem (mem_of_mem_filter mem), fun still => ?_⟩
    obtain ⟨other, isIn, same⟩ := mem_map.mp still
    exact ((views other).mp isIn).2 (same ▸ peels)

/-- The errors of what fails outside. -/
def Outside.Fails (w : Outside) (error : Errno) : Prop :=
  w.failsBefore = some error ∨ (∃ v, w.fails v = some error) ∨ w.failsAfter = some error

theorem collecting_ends (w : Outside) (db : Store) :
    (∀ final, (collecting w db.edges).run (collectionPlan db, db) = .ok final → Collected w db final) ∧
      ∀ error, (collecting w db.edges).run (collectionPlan db, db) = .error error → ∃ v, w.fails v = some error := by
  refine Loop.run_invariant (fun s : Plan × Store => Collecting w db s.1 s.2)
    (fun out : Except Errno Store => (∀ final, out = .ok final → Collected w db final) ∧
      ∀ error, out = .error error → ∃ v, w.fails v = some error)
    (fun s out held stops => ?_) (fun s next held goes => ?_) _ (Collecting.start w db)
  · simp only [collecting] at stops
    split at stops
    next idle =>
      obtain rfl := Sum.inl.inj stops
      refine ⟨?_, fun _ other => by cases other⟩
      rintro _ ⟨⟩ v
      simp [held.views, held.done idle]
    next scope _ =>
      split at stops
      next error fails =>
        obtain rfl := Sum.inl.inj stops
        refine ⟨fun _ other => (by cases other), ?_⟩
        rintro _ ⟨⟩
        exact ⟨scope, fails⟩
      · split at stops <;> cases stops
  · simp only [collecting] at goes
    split at goes
    · cases goes
    next scope first =>
      split at goes
      · cases goes
      · split at goes
        next busy =>
          obtain rfl := Sum.inr.inj goes
          exact held.busy busy
        next free =>
          obtain rfl := Sum.inr.inj goes
          exact held.removed (ready_mem first) (by simpa using free)

theorem viewsCollect_ok (run : viewsCollect w db = .ok final) : Collected w db final := by
  unfold viewsCollect at run
  split at run
  · cases run
  split at run
  next none =>
    obtain rfl := Except.ok.inj run
    refine fun v => ⟨fun mem => ⟨mem, fun peels => ?_⟩, fun both => both.1⟩
    obtain ⟨view, isIn, same⟩ := mem_map.mp peels.may_go.1
    simp only [mem_filter, decide_eq_true_eq] at isIn
    exact absurd (none view isIn.1) (Nat.not_le.mpr isIn.2.2)
  · obtain ⟨res, ran, run⟩ := bind_ok.mp run
    split at run
    · cases run
    · rw [← pure_ok.mp run]
      exact (collecting_ends w db).1 res ran

theorem viewsCollect_error {error : Errno} (run : viewsCollect w db = .error error) : w.Fails error := by
  unfold viewsCollect at run
  split at run
  next before =>
    obtain rfl := Except.error.inj run
    exact .inl before
  split at run
  · cases run
  cases ran : (collecting w db.edges).run (collectionPlan db, db) with
  | error e =>
    rw [ran, error_bind] at run
    obtain rfl := Except.error.inj run
    exact .inr (.inl ((collecting_ends w db).2 _ ran))
  | ok final =>
    rw [ran, ok_bind] at run
    split at run
    next after =>
      obtain rfl := Except.error.inj run
      exact .inr (.inr after)
    · cases run

/-- A collection that succeeds deletes the least set with every view whose lease is free and whose dependent views
are all in it. So a view that is leased survives, and one that a surviving view depends on. A collection fails only if
something outside does, and what it deleted comes back. -/
theorem views_collected (w : Outside) (db : Store) : match viewsMaintain w db with
    | (.ok _, final) =>
      IsLeast {s : Set Id | ∀ v ∈ db.candidates, w.held v = false → (∀ c, db.Depends c v → c ∈ s) → v ∈ s}
        (deleted db final) ∧
      (∀ v ∈ deleted db final, v ∈ db.candidates ∧ w.held v = false ∧ ∀ c, db.Depends c v → c ∈ deleted db final) ∧
      ∀ v ∈ final.views, v ∈ db.views
    | (.error error, final) => final = db ∧ w.Fails error := by
  unfold viewsMaintain
  cases run : viewsCollect w db with
  | error error => exact ⟨rfl, viewsCollect_error run⟩
  | ok final =>
    have views := viewsCollect_ok run
    dsimp only
    rw [deleted_eq views]
    have least : IsLeast _ {v | Peels (May w db) db.Depends v} := Peels.isLeast
    simp only [May, and_imp] at least
    exact ⟨least, fun v peels => ⟨peels.may_go.1, peels.may_go.2, fun c => peels.hanging⟩,
      fun v mem => ((views v).mp mem).1⟩

/-- The second view is over the first one, and the third is leased. -/
def threeViews : Store where
  objects := [(1, 1), (2, 2), (3, 3)]
  views := [⟨1, none, none⟩, ⟨2, some 1, none⟩, ⟨3, none, none⟩]
  links := []
  views_key := by decide

theorem views_collected_threeViews :
    ∃ final, viewsMaintain ⟨(· = 3), fun _ => none, none, none⟩ threeViews = (.ok (), final) ∧
    deleted threeViews final = {1, 2} := by
  have collected := views_collected ⟨(· = 3), fun _ => none, none, none⟩ threeViews
  cases run : viewsMaintain ⟨(· = 3), fun _ => none, none, none⟩ threeViews with
  | mk out final =>
    rw [run] at collected
    cases out with
    | error error =>
      obtain ⟨-, no | ⟨_, no⟩ | no⟩ := collected
      all_goals cases no
    | ok _ =>
      obtain ⟨⟨closed, -⟩, sound, -⟩ := collected
      have second : 2 ∈ deleted threeViews final := closed 2 (by decide) rfl fun c hangs => by
        simp [Store.Depends, Store.uses, threeViews] at hangs
      have first : 1 ∈ deleted threeViews final := closed 1 (by decide) rfl fun c hangs => by
        obtain rfl : c = 2 := by simpa [Store.Depends, Store.uses, threeViews] using hangs.2
        exact second
      refine ⟨final, rfl, Set.ext fun v => ⟨fun gone => ?_, ?_⟩⟩
      · obtain ⟨mem, free, -⟩ := sound v gone
        obtain rfl | rfl | rfl : v = 1 ∨ v = 2 ∨ v = 3 := by simpa [Store.candidates, threeViews, root] using mem
        · exact .inl rfl
        · exact .inr rfl
        · cases free
      · rintro (rfl | rfl)
        · exact first
        · exact second

end Shroot.InodeView
