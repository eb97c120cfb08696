import Shroot.Nft.Accepted
import Shroot.Nft.Objects

namespace Shroot.Nft

open General List Nat

variable {f g : NetworkFilter} {d : Chain} {s : ElementSet} {e : Expression}

def handles (f : NetworkFilter) : List Nat :=
  f.tables.map (·.handle) ++ (f.chains.map (·.handle) ++ (f.rules.map (·.handle) ++ f.sets.map (·.handle)))

/-- What an expression of a rule refers to is there, in the table of the rule. -/
structure References (f : NetworkFilter) (table : Nat) (e : Expression) : Prop where
  jump : ∀ v target, e = .verdict v → v.target? = some target → ∃ d ∈ f.chains, d.handle = target ∧ d.table = table
  set : ∀ handle, e.set? = some handle → ∃ s ∈ f.sets, s.handle = handle ∧ s.table = table
  ipset : ∀ handle source invert, e ≠ .ipset handle source invert

/-- A ruleset whose objects have their own handles and names, and whose references lead to objects. -/
structure Consistent (f : NetworkFilter) : Prop where
  positive : 0 < f.nextHandle
  distinct : (handles f).Nodup
  issued : ∀ h ∈ handles f, 0 < h ∧ h < f.nextHandle
  chainNames : (f.chains.map fun c => (c.table, c.name)).Nodup
  chainTables : ∀ c ∈ f.chains, ∃ t ∈ f.tables, t.handle = c.table
  setTables : ∀ s ∈ f.sets, ∃ t ∈ f.tables, t.handle = s.table
  rules : ∀ r ∈ f.rules, ∃ c ∈ f.chains, c.handle = r.chain ∧ ∀ e ∈ r.expressions, References f c.table e
  elements : ∀ s ∈ f.sets, ∀ e ∈ s.elements, ∀ target, e.verdict.target? = some target →
    ∃ d ∈ f.chains, d.handle = target ∧ d.table = s.table
  -- A chain is kept for the elements of verdict maps only, so that no other set may have such elements.
  verdictMaps : ∀ s ∈ f.sets, ∀ e ∈ s.elements, e.verdict.target? ≠ none → has s.flags NFT_SET_MAP ∧
    s.dataType = NFT_DATA_VERDICT
  maps : ∀ s ∈ f.sets, has s.flags NFT_SET_MAP → s.dataSize = 0 → s.dataType = NFT_DATA_VERDICT
  ipsets : ∀ s ∈ f.sets, s.ipset = none
  disciplined : AllDisciplined f

/-- Names by which no two sets of a table are called. Only anonymous sets have the names that those are given. -/
structure SetNames (f : NetworkFilter) : Prop where
  distinct : (f.sets.map fun s => (s.table, s.name)).Nodup
  anonymous : ∀ s ∈ f.sets, has s.flags NFT_SET_ANONYMOUS → s.name = anonymousName s.handle
  named : ∀ s ∈ f.sets, has s.flags NFT_SET_ANONYMOUS = false → ∀ n, s.name ≠ anonymousName n

/-- A later ruleset has new handles, and else none that an earlier one did not have any more. -/
structure Continues (f g : NetworkFilter) : Prop where
  next : f.nextHandle ≤ g.nextHandle
  tables : ∀ h ∈ g.tables.map (·.handle), h < f.nextHandle → h ∈ f.tables.map (·.handle)
  chains : ∀ h ∈ g.chains.map (·.handle), h < f.nextHandle → h ∈ f.chains.map (·.handle)
  rules : ∀ h ∈ g.rules.map (·.handle), h < f.nextHandle → h ∈ f.rules.map (·.handle)
  sets : ∀ h ∈ g.sets.map (·.handle), h < f.nextHandle → h ∈ f.sets.map (·.handle)

theorem Continues.refl (f : NetworkFilter) : Continues f f :=
  ⟨le_rfl, fun _ mem _ => mem, fun _ mem _ => mem, fun _ mem _ => mem, fun _ mem _ => mem⟩

theorem Continues.trans {h : NetworkFilter} (first : Continues f g) (second : Continues g h) : Continues f h where
  next := first.next.trans second.next
  tables x mem old := first.tables x (second.tables x mem (old.trans_le first.next)) old
  chains x mem old := first.chains x (second.chains x mem (old.trans_le first.next)) old
  rules x mem old := first.rules x (second.rules x mem (old.trans_le first.next)) old
  sets x mem old := first.sets x (second.sets x mem (old.trans_le first.next)) old

/-- A ruleset from which objects were deleted, but none that others need. -/
structure Kept (f g : NetworkFilter) : Prop where
  nextHandle : g.nextHandle = f.nextHandle
  tables : g.tables.Sublist f.tables
  chains : g.chains.Sublist f.chains
  rules : g.rules.Sublist f.rules
  sets : g.sets.Sublist f.sets
  chainTables : ∀ c ∈ g.chains, ∀ t ∈ f.tables, t.handle = c.table → t ∈ g.tables
  setTables : ∀ s ∈ g.sets, ∀ t ∈ f.tables, t.handle = s.table → t ∈ g.tables
  ruleChains : ∀ r ∈ g.rules, ∀ c ∈ f.chains, c.handle = r.chain → c ∈ g.chains
  jumps : ∀ r ∈ g.rules, ∀ v, .verdict v ∈ r.expressions → ∀ d ∈ f.chains, v.target? = some d.handle → d ∈ g.chains
  references : ∀ r ∈ g.rules, ∀ e ∈ r.expressions, ∀ s ∈ f.sets, e.set? = some s.handle → s ∈ g.sets
  elements : ∀ s ∈ g.sets, ∀ e ∈ s.elements, ∀ d ∈ f.chains, e.verdict.target? = some d.handle → d ∈ g.chains

/-- A rule whose expressions were accepted in a table. -/
structure Accepts (f : NetworkFilter) (r : Rule) : Prop where
  references : ∃ c ∈ f.chains, c.handle = r.chain ∧ ∀ e ∈ r.expressions, References f c.table e
  disciplined : Disciplined f 0 r.expressions

structure Created (f : NetworkFilter) (free : Prop) (s : ElementSet) : Prop where
  table : ∃ t ∈ f.tables, t.handle = s.table
  elements : s.elements = []
  ipset : s.ipset = none
  maps : has s.flags NFT_SET_MAP → s.dataSize = 0 → s.dataType = NFT_DATA_VERDICT
  anonymous : has s.flags NFT_SET_ANONYMOUS → s.name = anonymousName f.nextHandle
  named : has s.flags NFT_SET_ANONYMOUS = false → ∀ t ∈ f.sets, t.table = s.table → t.name ≠ s.name
  unreserved : free → has s.flags NFT_SET_ANONYMOUS = false → ∀ n, s.name ≠ anonymousName n

/-- What the elements of a set can become: elements that it had, and others whose verdicts lead to chains of
its table. -/
def Fits (f : NetworkFilter) (s : ElementSet) (elements : List Element) : Prop :=
  ∀ e ∈ elements, e ∈ s.elements ∨ ∀ target, e.verdict.target? = some target →
    has s.flags NFT_SET_MAP ∧ s.dataSize = 0 ∧ ∃ d ∈ f.chains, d.handle = target ∧ d.table = s.table

/-- What a request can do to a ruleset. -/
inductive Edit (free : Prop) (f : NetworkFilter) : NetworkFilter → Prop
  | delete {g : NetworkFilter} (kept : Kept f g) : Edit free f g
  | addTable (t : Table) :
      Edit free f { f with tables := f.tables ++ [{ t with handle := f.nextHandle }], nextHandle := f.nextHandle + 1 }
  | addChain (c : Chain) (table : ∃ t ∈ f.tables, t.handle = c.table)
    (name : ∀ d ∈ f.chains, d.table = c.table → d.name ≠ c.name) :
      Edit free f { f with chains := f.chains ++ [{ c with handle := f.nextHandle }], nextHandle := f.nextHandle + 1 }
  | setChain (i : Nat) (old c : Chain) (there : f.chains[i]? = some old) (table : c.table = old.table)
      (handle : c.handle = old.handle) (name : c.name = old.name) : Edit free f { f with chains := f.chains.set i c }
  | addRule (index : Nat) (r : Rule) (inside : index ≤ f.rules.length) (accepts : Accepts f r) :
      Edit free f
        { f with rules := f.rules.insertIdx index { r with handle := f.nextHandle }, nextHandle := f.nextHandle + 1 }
  | replaceRule (index : Nat) (r : Rule) (accepts : Accepts f r) :
      Edit free f { f with rules := f.rules.modify index fun old => { r with handle := old.handle } }
  | addSet (s : ElementSet) (created : Created f free s) :
      Edit free f { f with sets := f.sets ++ [{ s with handle := f.nextHandle }], nextHandle := f.nextHandle + 1 }
  | putElements (i : Nat) (s : ElementSet) (elements : List Element) (there : f.sets[i]? = some s)
    (fits : Fits f s elements) :
      Edit free f { f with sets := f.sets.modify i fun s => { s with elements } }

/-- The handles of a ruleset are its own, and were issued. -/
structure Issued (f : NetworkFilter) : Prop where
  positive : 0 < f.nextHandle
  distinct : (handles f).Nodup
  issued : ∀ h ∈ handles f, 0 < h ∧ h < f.nextHandle

theorem Issued.added (issued : Issued f) (perm : (handles g).Perm (f.nextHandle :: handles f))
    (next : g.nextHandle = f.nextHandle + 1) : Issued g := by
  refine ⟨by omega, ?_, fun h mem => ?_⟩
  · rw [perm.nodup_iff, nodup_cons]
    exact ⟨fun mem => absurd (issued.issued _ mem).2 (lt_irrefl _), issued.distinct⟩
  · rcases mem_cons.mp (perm.mem_iff.mp mem) with rfl | mem
    · exact ⟨issued.positive, by omega⟩
    · have bound := issued.issued h mem
      exact ⟨bound.1, by omega⟩

theorem Issued.kept (issued : Issued f) (sublist : (handles g).Sublist (handles f))
    (next : g.nextHandle = f.nextHandle) : Issued g := by
  refine ⟨next ▸ issued.positive, issued.distinct.sublist sublist, fun h mem => ?_⟩
  rw [next]
  exact issued.issued h (sublist.subset mem)

section

variable (good : Consistent f)

include good

theorem Consistent.isIssued : Issued f := ⟨good.positive, good.distinct, good.issued⟩

theorem Consistent.chain_eq {c : Chain} (one : c ∈ f.chains) (two : d ∈ f.chains) (same : c.handle = d.handle) :
    c = d := by
  have nodup := (nodup_append.mp (nodup_append.mp good.distinct).2.1).1
  exact inj_on_of_nodup_map nodup one two same

theorem Consistent.setHandles : (f.sets.map (·.handle)).Nodup :=
  (nodup_append.mp (nodup_append.mp (nodup_append.mp good.distinct).2.1).2.1).2.1

theorem Consistent.set_eq {t : ElementSet} (one : s ∈ f.sets) (two : t ∈ f.sets)
    (same : s.handle = t.handle) : s = t := inj_on_of_nodup_map good.setHandles one two same

theorem Consistent.set_issued (mem : s ∈ f.sets) : 0 < s.handle ∧ s.handle < f.nextHandle := by
  refine good.issued _ ?_
  simp only [handles, mem_append, mem_map]
  exact .inr (.inr (.inr ⟨s, mem, rfl⟩))

end

section

/-- All objects of a ruleset are still there, as far as they are referred to. -/
structure Extends (f g : NetworkFilter) : Prop where
  tables : ∀ t ∈ f.tables, ∃ u ∈ g.tables, u.handle = t.handle
  chains : ∀ c ∈ f.chains, ∃ d ∈ g.chains, d.handle = c.handle ∧ d.table = c.table
  sets : ∀ s ∈ f.sets, ∃ t ∈ g.sets, t.handle = s.handle ∧ t.table = s.table

theorem Extends.chain (extends_ : Extends f g) {target table : Nat}
    (there : ∃ d ∈ f.chains, d.handle = target ∧ d.table = table) :
    ∃ d ∈ g.chains, d.handle = target ∧ d.table = table := by
  obtain ⟨c, mem, rfl, rfl⟩ := there
  exact extends_.chains c mem

theorem Extends.table (extends_ : Extends f g) {handle : Nat} (there : ∃ t ∈ f.tables, t.handle = handle) :
    ∃ t ∈ g.tables, t.handle = handle := by
  obtain ⟨t, mem, rfl⟩ := there
  exact extends_.tables t mem

theorem References.extend {table : Nat} (refs : References f table e) (extends_ : Extends f g) :
    References g table e where
  jump v target is leads := extends_.chain (refs.jump v target is leads)
  set handle is := by
    obtain ⟨s, mem, rfl, rfl⟩ := refs.set handle is
    exact extends_.sets s mem
  ipset := refs.ipset

variable {exprs : List Expression}

theorem rule_extend (extends_ : Extends f g) {chain : Nat}
    (rule : ∃ c ∈ f.chains, c.handle = chain ∧ ∀ e ∈ exprs, References f c.table e) :
    ∃ c ∈ g.chains, c.handle = chain ∧ ∀ e ∈ exprs, References g c.table e := by
  obtain ⟨c, mem, rfl, refs⟩ := rule
  obtain ⟨d, there, handle, table⟩ := extends_.chains c mem
  refine ⟨d, there, handle, fun e isIn => ?_⟩
  rw [table]
  exact (refs e isIn).extend extends_

theorem Expression.Sized.mono (sized : e.Sized f)
    (sets : ∀ handle, e.set? = some handle → ∀ s ∈ g.sets, s.handle = handle →
      ∃ t ∈ f.sets, t.handle = handle ∧ t.keySize = s.keySize ∧ t.dataSize = s.dataSize) : e.Sized g := by
  cases e with
  | lookup set src size invert =>
    intro s mem is
    obtain ⟨t, there, same, key, -⟩ := sets set rfl s mem is
    rw [← key]
    exact sized t there same
  | verdictMap set src size =>
    intro s mem is
    obtain ⟨t, there, same, key, -⟩ := sets set rfl s mem is
    rw [← key]
    exact sized t there same
  | dataMap set src size dst dataSize =>
    intro s mem is
    obtain ⟨t, there, same, key, data⟩ := sets set rfl s mem is
    rw [← key, ← data]
    exact sized t there same
  | meta_ _ _ _ | fib _ _ _ _ | nat _ _ _ _ _ => exact sized
  | _ => trivial

theorem Disciplined.mono {known : Initialized} (sound : Disciplined f known exprs)
    (sized : ∀ e ∈ exprs, e.Sized f → e.Sized g) : Disciplined g known exprs := by
  induction exprs generalizing known with
  | nil => trivial
  | cons e rest ih =>
    obtain ⟨here, later⟩ := sound
    exact ⟨⟨sized e (.head _) here.sized, here.reads, here.write⟩, ih later fun e mem => sized e (.tail _ mem)⟩

/-- Sets with new handles, and the old ones with their sizes. -/
def SameSizes (f g : NetworkFilter) : Prop :=
  ∀ s ∈ g.sets, s.handle < f.nextHandle → ∃ t ∈ f.sets, t.handle = s.handle ∧ t.keySize = s.keySize ∧
    t.dataSize = s.dataSize

theorem disciplined_sizes (good : Consistent f) (sizes : SameSizes f g) {table : Nat}
    (refs : ∀ e ∈ exprs, References f table e) (sound : Disciplined f 0 exprs) : Disciplined g 0 exprs := by
  refine sound.mono fun e mem sized => sized.mono fun handle is s there same => ?_
  obtain ⟨t, isIn, rfl, -⟩ := (refs e mem).set handle is
  obtain ⟨u, old, rest⟩ := sizes s there (same ▸ (good.set_issued isIn).2)
  rw [same] at rest
  exact ⟨u, old, rest⟩

/-- A ruleset from which nothing was deleted, and whose chains, sets and rules were there or are sound. -/
structure Extended (f g : NetworkFilter) : Prop extends Extends f g where
  issued : Issued g
  sizes : SameSizes f g
  chainNames : (g.chains.map fun c => (c.table, c.name)).Nodup
  ofChain : ∀ c ∈ g.chains, (∃ d ∈ f.chains, d.table = c.table) ∨ ∃ t ∈ f.tables, t.handle = c.table
  ofSet : ∀ s ∈ g.sets, (∃ t ∈ f.sets, t.table = s.table ∧ t.flags = s.flags ∧ t.dataSize = s.dataSize ∧
    t.dataType = s.dataType ∧
    t.ipset = s.ipset ∧ Fits f t s.elements) ∨ ∃ free, Created f free s
  ofRule : ∀ r ∈ g.rules, (∃ q ∈ f.rules, q.chain = r.chain ∧ q.expressions = r.expressions) ∨ Accepts f r

theorem Consistent.whole (good : Consistent f) : Extended f f where
  tables t mem := ⟨t, mem, rfl⟩
  chains c mem := ⟨c, mem, rfl, rfl⟩
  sets s mem := ⟨s, mem, rfl, rfl⟩
  issued := good.isIssued
  sizes s mem _ := ⟨s, mem, rfl, rfl, rfl⟩
  chainNames := good.chainNames
  ofChain c mem := .inl ⟨c, mem, rfl⟩
  ofSet s mem := .inl ⟨s, mem, rfl, rfl, rfl, rfl, rfl, fun _ inside => .inl inside⟩
  ofRule r mem := .inl ⟨r, mem, rfl, rfl⟩

theorem Extended.consistent (grown : Extended f g) (good : Consistent f) : Consistent g where
  positive := grown.issued.positive
  distinct := grown.issued.distinct
  issued := grown.issued.issued
  chainNames := grown.chainNames
  chainTables c mem := by
    rcases grown.ofChain c mem with ⟨d, there, table⟩ | table
    · exact grown.table (table ▸ good.chainTables d there)
    · exact grown.table table
  setTables s mem := by
    rcases grown.ofSet s mem with ⟨t, there, table, -⟩ | ⟨_, made⟩
    · exact grown.table (table ▸ good.setTables t there)
    · exact grown.table made.table
  rules r mem := by
    rcases grown.ofRule r mem with ⟨q, there, chain, exprs⟩ | accepts
    · rw [← chain, ← exprs]
      exact rule_extend grown.toExtends (good.rules q there)
    · exact rule_extend grown.toExtends accepts.references
  elements s mem e isIn target leads := by
    rcases grown.ofSet s mem with ⟨t, there, table, _, _, _, _, fits⟩ | ⟨_, made⟩
    · refine grown.chain (table ▸ ?_)
      rcases fits e isIn with old | new
      · exact good.elements t there e old target leads
      · exact (new target leads).2.2
    · rw [made.elements] at isIn
      cases isIn
  verdictMaps s mem e isIn leads := by
    rcases grown.ofSet s mem with ⟨t, there, _, flags, dataSize, dataType, _, fits⟩ | ⟨_, made⟩
    · rw [← flags, ← dataType]
      rcases fits e isIn with old | new
      · exact good.verdictMaps t there e old leads
      · obtain ⟨target, is⟩ := Option.ne_none_iff_exists'.mp leads
        obtain ⟨isMap, noData, -⟩ := new target is
        exact ⟨isMap, good.maps t there isMap noData⟩
    · rw [made.elements] at isIn
      cases isIn
  maps s mem := by
    rcases grown.ofSet s mem with ⟨t, there, _, flags, dataSize, dataType, _, _⟩ | ⟨_, made⟩
    · rw [← flags, ← dataType, ← dataSize]
      exact good.maps t there
    · exact made.maps
  ipsets s mem := by
    rcases grown.ofSet s mem with ⟨t, there, _, _, _, _, ipset, _⟩ | ⟨_, made⟩
    · rw [← ipset]
      exact good.ipsets t there
    · exact made.ipset
  disciplined r mem := by
    rcases grown.ofRule r mem with ⟨q, there, _, exprs⟩ | accepts
    · rw [← exprs]
      obtain ⟨c, _, _, refs⟩ := good.rules q there
      exact disciplined_sizes good grown.sizes refs (good.disciplined q there)
    · obtain ⟨c, _, _, refs⟩ := accepts.references
      exact disciplined_sizes good grown.sizes refs accepts.disciplined

end

theorem Kept.refl (f : NetworkFilter) : Kept f f where
  nextHandle := rfl
  tables := .refl _
  chains := .refl _
  rules := .refl _
  sets := .refl _
  chainTables _ _ _ mem _ := mem
  setTables _ _ _ mem _ := mem
  ruleChains _ _ _ mem _ := mem
  jumps _ _ _ _ _ mem _ := mem
  references _ _ _ _ _ mem _ := mem
  elements _ _ _ _ _ mem _ := mem

section

variable (kept : Kept f g)

include kept

theorem Kept.handles : (handles g).Sublist (handles f) :=
  (kept.tables.map _).append ((kept.chains.map _).append ((kept.rules.map _).append (kept.sets.map _)))

theorem Kept.chain (mem : d ∈ g.chains) : d ∈ f.chains := kept.chains.subset mem

theorem Kept.set (mem : s ∈ g.sets) : s ∈ f.sets := kept.sets.subset mem

theorem Kept.consistent (good : Consistent f) : Consistent g where
  positive := (good.isIssued.kept kept.handles kept.nextHandle).positive
  distinct := (good.isIssued.kept kept.handles kept.nextHandle).distinct
  issued := (good.isIssued.kept kept.handles kept.nextHandle).issued
  chainNames := good.chainNames.sublist (kept.chains.map _)
  chainTables c mem := by
    obtain ⟨t, there, is⟩ := good.chainTables c (kept.chain mem)
    exact ⟨t, kept.chainTables c mem t there is, is⟩
  setTables s mem := by
    obtain ⟨t, there, is⟩ := good.setTables s (kept.set mem)
    exact ⟨t, kept.setTables s mem t there is, is⟩
  rules r mem := by
    obtain ⟨c, there, is, refs⟩ := good.rules r (kept.rules.subset mem)
    refine ⟨c, kept.ruleChains r mem c there is, is, fun e isIn => ⟨?_, ?_, (refs e isIn).ipset⟩⟩
    · intro v target isVerdict leads
      obtain ⟨d, isThere, rfl, table⟩ := (refs e isIn).jump v target isVerdict leads
      exact ⟨d, kept.jumps r mem v (isVerdict ▸ isIn) d isThere leads, rfl, table⟩
    · intro handle isSet
      obtain ⟨s, isThere, rfl, table⟩ := (refs e isIn).set handle isSet
      exact ⟨s, kept.references r mem e isIn s isThere isSet, rfl, table⟩
  elements s mem e isIn target leads := by
    obtain ⟨d, there, rfl, table⟩ := good.elements s (kept.set mem) e isIn target leads
    exact ⟨d, kept.elements s mem e isIn d there leads, rfl, table⟩
  verdictMaps s mem := good.verdictMaps s (kept.set mem)
  maps s mem := good.maps s (kept.set mem)
  ipsets s mem := good.ipsets s (kept.set mem)
  disciplined r mem := by
    refine (good.disciplined r (kept.rules.subset mem)).mono fun e _ sized => sized.mono fun handle _ s there same => ?_
    exact ⟨s, kept.set there, same, rfl, rfl⟩

theorem Kept.continues : Continues f g where
  next := kept.nextHandle.ge
  tables _ mem _ := (kept.tables.map _).subset mem
  chains _ mem _ := (kept.chains.map _).subset mem
  rules _ mem _ := (kept.rules.map _).subset mem
  sets _ mem _ := (kept.sets.map _).subset mem

end

theorem SetNames.kept (names : SetNames f) (sets : g.sets.Sublist f.sets) : SetNames g where
  distinct := names.distinct.sublist (sets.map _)
  anonymous s mem := names.anonymous s (sets.subset mem)
  named s mem := names.named s (sets.subset mem)

variable {free : Prop}

theorem replaceRule_handles (idx : Nat) (r : Rule) :
    (f.rules.modify idx fun old => { r with handle := old.handle }).map (·.handle) = f.rules.map (·.handle) :=
  map_modify_of_eq fun _ => rfl

theorem putElements_handles (i : Nat) (elements : List Element) :
    (f.sets.modify i fun s => { s with elements }).map (·.handle) = f.sets.map (·.handle) :=
  map_modify_of_eq fun _ => rfl

theorem putElements_names (i : Nat) (elements : List Element) :
    (f.sets.modify i fun s => { s with elements }).map (fun s => (s.table, s.name)) =
      f.sets.map fun s => (s.table, s.name) :=
  map_modify_of_eq fun _ => rfl

/-- Each edit keeps a ruleset consistent. -/
theorem Edit.consistent (edit : Edit free f g) (good : Consistent f) : Consistent g := by
  have whole := good.whole
  cases edit with
  | delete kept => exact kept.consistent good
  | addTable t =>
    refine Extended.consistent { whole with tables := fun t mem => ⟨t, mem_append_left _ mem, rfl⟩, issued := ?_ } good
    refine good.isIssued.added ?_ rfl
    simp only [handles, map_append, map_cons, map_nil, append_assoc, singleton_append]
    exact perm_middle
  | addChain c table name =>
    refine Extended.consistent
      { whole with
        chains := fun c mem => ⟨c, mem_append_left _ mem, rfl, rfl⟩
        issued := ?_
        chainNames := nodup_map_concat good.chainNames fun d there same => ?_
        ofChain := forall_mem_concat whole.ofChain (.inr table) } good
    · refine good.isIssued.added ?_ rfl
      simp only [handles, map_append, map_cons, map_nil, append_assoc, singleton_append]
      rw [← append_assoc, ← append_assoc]
      exact perm_middle
    · obtain ⟨sameTable, sameName⟩ := Prod.mk.inj same
      exact name d there sameTable sameName
  | setChain i old c there table handle name =>
    refine Extended.consistent
      { whole with
        chains := fun d mem => ?_
        issued := ?_
        chainNames := ?_
        ofChain := forall_mem_set whole.ofChain (.inl ⟨old, mem_of_getElem? there, table.symm⟩) } good
    · have found : d ∈ f.chains.set i c ∨ (d = old ∧ c ∈ f.chains.set i c) := exists_mem_set there mem
      rcases found with still | ⟨rfl, changed⟩
      · exact ⟨d, still, rfl, rfl⟩
      · exact ⟨c, changed, handle, table⟩
    · refine good.isIssued.kept ?_ rfl
      simp only [handles, map_set_of_eq there handle]
      exact List.Sublist.refl _
    · rw [map_set_of_eq there (by rw [table, name])]
      exact good.chainNames
  | addRule idx r isIn accepts =>
    refine Extended.consistent { whole with issued := ?_, ofRule := fun q mem => ?_ } good
    · refine good.isIssued.added ?_ rfl
      have rules : ((f.rules.insertIdx idx { r with handle := f.nextHandle }).map (·.handle)).Perm
          (f.nextHandle :: f.rules.map (·.handle)) := (perm_insertIdx _ _ isIn).map _
      refine (List.Perm.append_left _ (List.Perm.append_left _ (rules.append_right _))).trans ?_
      rw [← append_assoc]
      refine perm_middle.trans ?_
      rw [append_assoc]
      exact List.Perm.refl _
    · rcases eq_or_mem_of_mem_insertIdx mem with rfl | old
      · exact .inr ⟨accepts.references, accepts.disciplined⟩
      · exact whole.ofRule q old
  | replaceRule idx r accepts =>
    refine Extended.consistent
      { whole with issued := ?_, ofRule := forall_mem_modify whole.ofRule fun old _ => .inr ?_ } good
    · refine good.isIssued.kept ?_ rfl
      simp only [handles, replaceRule_handles]
      exact List.Sublist.refl _
    · exact ⟨accepts.references, accepts.disciplined⟩
  | addSet s made =>
    refine Extended.consistent
      { whole with
        sets := fun s mem => ⟨s, mem_append_left _ mem, rfl, rfl⟩
        issued := ?_
        sizes := forall_mem_concat whole.sizes fun old => absurd old (lt_irrefl _)
        ofSet := forall_mem_concat whole.ofSet (.inr ⟨free, ?_⟩) } good
    · refine good.isIssued.added ?_ rfl
      simp only [handles, map_append, map_cons, map_nil, ← append_assoc]
      exact perm_append_singleton _ _
    · exact ⟨made.table, made.elements, made.ipset, made.maps, made.anonymous, made.named, made.unreserved⟩
  | putElements i s elements there fits =>
    refine Extended.consistent
      { whole with
        sets := fun t mem => ?_
        issued := ?_
        sizes := forall_mem_modify whole.sizes fun old is _ => ⟨old, mem_of_getElem? is, rfl, rfl, rfl⟩
        ofSet := forall_mem_modify whole.ofSet fun old is => ?_ } good
    · rcases exists_mem_modify mem with still | changed
      · exact ⟨t, still, rfl, rfl⟩
      · exact ⟨_, changed, rfl, rfl⟩
    · refine good.isIssued.kept ?_ rfl
      simp only [handles, putElements_handles]
      exact List.Sublist.refl _
    · rw [there] at is
      cases is
      exact .inl ⟨s, mem_of_getElem? there, rfl, rfl, rfl, rfl, rfl, fits⟩

/-- Each edit takes new handles only. -/
theorem Edit.continues (edit : Edit free f g) : Continues f g := by
  have same := Continues.refl f
  have added : ∀ {handles : List Nat}, ∀ h ∈ handles ++ [f.nextHandle], h < f.nextHandle → h ∈ handles :=
    forall_mem_concat (fun _ known _ => known) fun old => absurd old (lt_irrefl _)
  cases edit with
  | delete kept => exact kept.continues
  | addTable t =>
    refine { same with next := le_succ _, tables := fun h mem => added h ?_ }
    rwa [map_append] at mem
  | addChain c table name =>
    refine { same with next := le_succ _, chains := fun h mem => added h ?_ }
    rwa [map_append] at mem
  | setChain i old c there table handle name =>
    refine { same with chains := fun h mem _ => ?_ }
    rwa [map_set_of_eq there handle] at mem
  | addRule idx r isIn accepts =>
    refine { same with next := le_succ _, rules := fun h mem old => ?_ }
    obtain ⟨q, isRule, rfl⟩ := mem_map.mp mem
    rcases eq_or_mem_of_mem_insertIdx isRule with rfl | known
    · exact absurd old (lt_irrefl _)
    · exact mem_map_of_mem known
  | replaceRule idx r accepts =>
    refine { same with rules := fun h mem _ => ?_ }
    rwa [replaceRule_handles] at mem
  | addSet s made =>
    refine { same with next := le_succ _, sets := fun h mem => added h ?_ }
    rwa [map_append] at mem
  | putElements i s elements there fits =>
    refine { same with sets := fun h mem _ => ?_ }
    rwa [putElements_handles] at mem

/-- The names of sets stay their own, if none is created with the name of an anonymous set. -/
theorem Edit.setNames (edit : Edit free f g) (good : Consistent f) (holds : free) (names : SetNames f) :
    SetNames g := by
  cases edit with
  | delete kept => exact names.kept kept.sets
  | addTable _ | addChain _ _ _ | setChain _ _ _ _ _ _ _ | addRule _ _ _ _ | replaceRule _ _ _ =>
    exact ⟨names.distinct, names.anonymous, names.named⟩
  | addSet s made =>
    have fresh : ∀ t ∈ f.sets, t.table = s.table → t.name ≠ s.name := by
      intro t mem table same
      cases isAnonymous : has s.flags NFT_SET_ANONYMOUS with
      | false => exact made.named isAnonymous t mem table same
      | true =>
        rw [made.anonymous isAnonymous] at same
        cases other : has t.flags NFT_SET_ANONYMOUS with
        | false => exact names.named t mem other _ same
        | true =>
          rw [names.anonymous t mem other] at same
          have handle : t.handle = f.nextHandle := anonymousName_injective same
          exact absurd (good.set_issued mem).2 (by omega)
    refine ⟨nodup_map_concat names.distinct fun t there same => ?_, forall_mem_concat names.anonymous made.anonymous,
      forall_mem_concat names.named (made.unreserved holds)⟩
    obtain ⟨sameTable, sameName⟩ := Prod.mk.inj same
    exact fresh t there sameTable sameName
  | putElements i s elements there fits =>
    refine ⟨?_, forall_mem_modify names.anonymous fun old is => names.anonymous old (mem_of_getElem? is),
      forall_mem_modify names.named fun old is => names.named old (mem_of_getElem? is)⟩
    rw [putElements_names]
    exact names.distinct

end Shroot.Nft
