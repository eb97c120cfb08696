import Shroot.Errno
import Shroot.General.Bits
import Shroot.General.Checks
import Shroot.General.Ancestry

namespace Shroot.Landlock

open General

section

abbrev Access := BitVec 64
abbrev Id := List UInt8

/-- Where an allocated object lies. -/
abbrev Address := Nat

def llAll : Access := 0x1fff

def landlockLayers : Nat := 16

/-- What `md_inode_lifetime_same` compares. -/
structure Lifetime where
  device : Nat
  inode : Nat
  scope : Id
  deriving DecidableEq

structure Key where
  store : Lifetime
  object : Id
  deriving DecidableEq

/-- `struct rule`, with the descriptor that its pin keeps. -/
structure Rule where
  key : Key
  allowed : Access
  pin : Option Nat := none

/-- `struct md_landlock_ruleset`. The rules lie in an array of their own. -/
structure Ruleset where
  handled : Access
  rules : Option Address := none

/-- A policy, as the rulesets of its layers, the newest first. Its nodes do not change once they
are made. -/
abbrev Policy := List Address

/-- The memory, the rulesets that were handed out, and the policies that were made. -/
structure World where
  arrays : Address → Option (List Rule) := fun _ => none
  rulesets : Address → Option Ruleset := fun _ => none
  /-- Above everything that was ever allocated. -/
  next : Address := 0
  handles : List Address := []
  policies : List Policy := []

namespace World

variable (w : World)

def rulesOf (r : Ruleset) : List Rule := (r.rules.bind w.arrays).getD []

variable (address : Address)

/-- What a layer is checked by. -/
def layer : Option (Access × List Rule) := (w.rulesets address).map fun r => (r.handled, w.rulesOf r)

def setArray (rules : Option (List Rule)) : World := { w with arrays := Function.update w.arrays address rules }

def setRuleset (r : Ruleset) : World := { w with rulesets := Function.update w.rulesets address (some r) }

def allocate (rules : List Rule) : Address × World :=
  (w.next, { w.setArray w.next (some rules) with next := w.next + 1 })

end World

variable (w : World)

def rulesetNew (handled : Access) (allocated : Bool) : World × Except Errno Address :=
  if handled = 0 then (w, .error .ENOMSG)
  else if handled &&& ~~~llAll ≠ 0 then (w, .error .EINVAL)
  else if ¬ allocated then (w, .error .ENOMEM)
  else ({ w.setRuleset w.next { handled } with next := w.next + 1 }, .ok w.next)

/-- What the calls that `md_landlock_rule_add` makes say: whether the array can grow, and whether
it moves then; the descriptor of the pin, when one is needed. -/
structure Growth where
  refused : Bool := false
  moves : Bool := true
  pin : Option (Except Errno Nat) := none

/-- Adds to the first rule with the key. -/
def mergeRule (key : Key) (allowed : Access) : List Rule → Option (List Rule)
  | [] => none
  | rule :: rest =>
    if rule.key = key then some ({ rule with allowed := rule.allowed ||| allowed } :: rest)
    else (mergeRule key allowed rest).map (rule :: ·)

/-- `realloc` with one more rule. -/
def grow (address : Address) (r : Ruleset) (rules : List Rule) (moves : Bool) : World :=
  match moves, r.rules with
  | false, some old => w.setArray old (some rules)
  | _, old =>
    let (new, w) := w.allocate rules
    let w := match old with
      | none => w
      | some old => w.setArray old none
    w.setRuleset address { r with rules := some new }

def ruleAdd (address : Address) (r : Ruleset) (key : Key) (allowed : Access) (growth : Growth) :
    World × Except Errno Unit :=
  if allowed = 0 then (w, .error .ENOMSG)
  else if allowed &&& ~~~r.handled ≠ 0 then (w, .error .EINVAL)
  else match mergeRule key allowed (w.rulesOf r), r.rules with
    | some merged, some array => (w.setArray array (some merged), .ok ())
    | _, _ =>
      match growth.pin with
      | some (.error error) => (w, .error error)
      | pin =>
        if growth.refused then (w, .error .ENOMEM)
        else
          let fd := match pin with
            | some (.ok fd) => some fd
            | _ => none
          (grow w address r (w.rulesOf r ++ [{ key, allowed, pin := fd }]) growth.moves, .ok ())

/-- What the allocations of `md_landlock_restrict` say. -/
structure Allocations where
  policy : Bool := true
  ruleset : Bool := true
  rules : Bool := true

def restrict (parent : Policy) (r : Ruleset) (allocations : Allocations) : World × Except Errno Policy :=
  if parent.length ≥ landlockLayers then (w, .error .E2BIG)
  else if ¬ allocations.policy then (w, .error .ENOMEM)
  else match rulesetNew w r.handled allocations.ruleset with
    | (_, .error error) => (w, .error error)
    | (after, .ok own) =>
      match r.rules with
      | none => (after, .ok (own :: parent))
      | some _ =>
        -- The ruleset that was just made is released again.
        if ¬ allocations.rules then (w, .error .ENOMEM)
        else
          let (array, after) := after.allocate (w.rulesOf r)
          (after.setRuleset own { handled := r.handled, rules := some array }, .ok (own :: parent))

section

variable (lookup : Key → Except Errno Bool)

/-- The loop over the rules of a layer: what they leave of the missing rights. -/
def checkRules : Access → List Rule → Except Errno Access
  | missing, [] => .ok missing
  | missing, rule :: rest =>
    if missing = 0 then .ok missing
    else if missing &&& rule.allowed = 0 then checkRules missing rest
    else do
      let found ← lookup rule.key
      checkRules (if found then missing &&& ~~~rule.allowed else missing) rest

def check (w : World) (access : Access) : Policy → Except Errno Unit
  | [] => .ok ()
  | address :: parent => do
    let (handled, rules) := (w.layer address).getD (0, [])
    let missing ← checkRules lookup (access &&& handled) rules
    failIf (missing ≠ 0) Errno.EACCES
    check w access parent

end

/-- The calls. A ruleset is named by when it was handed out, and so is a policy. -/
inductive Op where
  | rulesetNew (handled : Access) (allocated : Bool)
  | ruleAdd (ruleset : Nat) (key : Key) (allowed : Access) (growth : Growth)
  | restrict (parent : Option Nat) (ruleset : Nat) (allocations : Allocations)

def World.named (handle : Nat) : Option (Address × Ruleset) :=
  w.handles[handle]?.bind fun address => (w.rulesets address).map (address, ·)

/-- The policy that a call restricts further; none stands for an actor without one. -/
def World.parentPolicy : Option Nat → Option Policy
  | none => some []
  | some i => w.policies[i]?

def step : Op → World
  | .rulesetNew handled allocated =>
    match rulesetNew w handled allocated with
    | (w, .ok address) => { w with handles := w.handles ++ [address] }
    | (w, .error _) => w
  | .ruleAdd handle key allowed growth =>
    match w.named handle with
    | none => w
    | some (address, r) => (ruleAdd w address r key allowed growth).1
  | .restrict parent handle allocations =>
    match w.parentPolicy parent, w.named handle with
    | some parent, some (_, r) =>
      match restrict w parent r allocations with
      | (w, .ok policy) => { w with policies := w.policies ++ [policy] }
      | (w, .error _) => w
    | _, _ => w

def run (ops : List Op) : World := ops.foldl step {}

structure ObjectRow where
  object : Id
  parent : Option Id

/-- What a node tells the check. -/
structure Node where
  id : Id
  directory : Bool
  native : Bool := false
  attached : Bool := true
  /-- The parent of a native leaf. -/
  parent : Id := []

/-- A store as one check finds it. A statement can fail. -/
structure Catalogue where
  lifetime : Lifetime
  objects : Table ObjectRow.object
  /-- The names of an object, by their directories. -/
  names : List (Id × Id)
  node : Id → Except Errno Node
  fails : Id → Id → Option Errno := fun _ _ => none
  namesFail : Option Errno := none

variable (s : Catalogue)

def Catalogue.up (object : Id) : Option Id :=
  (s.objects.find? object).bind fun row => row.parent.bind fun parent => (s.objects.find? parent).map (·.object)

/-- `mdi_ancestor`. The chain has only rows, and none twice. -/
def ancestor (above child : Id) : Except Errno Bool :=
  match s.fails above child with
  | some error => .error error
  | none => .ok ((s.objects.find? child).isSome && (lineage s.up s.objects.rows.length child).contains above)

structure Selection where
  node : Option Node
  parent : Option Node

/-- The directory by which an object is selected: itself, or that of the name it was found by. -/
def Selection.directory (selected : Selection) : Option Node :=
  match selected.node with
  | some node => if node.directory then some node else selected.parent
  | none => selected.parent

/-- `matches`. -/
def keyMatches (selected : Selection) (key : Key) : Except Errno Bool :=
  if key.store ≠ s.lifetime then .ok false
  else if selected.node.any (·.id = key.object) then .ok true
  else match selected.directory with
    | none => .ok false
    | some dir => ancestor s key.object dir.id

def mdiLandlock (w : World) (policy : Policy) (s : Catalogue) (selected : Selection) (access : Access) :
    Except Errno Unit :=
  if policy = [] ∨ access = 0 then .ok ()
  else check (keyMatches s selected) w access policy

/-- The directory of an object's name, when it has one name. -/
def onlyParent (object : Id) : Option Id :=
  match (s.names.filter fun name => name.1 = object).take 2 with
  | [name] => some name.2
  | _ => none

/-- How `mdi_landlock_object` selects an object that no path led to. -/
def selectObject (node : Node) : Except Errno Selection :=
  if node.directory then .ok { node := some node, parent := none }
  else if node.native then
    if node.attached then (s.node node.parent).map fun parent => { node := some node, parent := some parent }
    else .ok { node := some node, parent := none }
  else match s.namesFail with
    | some error => .error error
    | none =>
      match onlyParent s node.id with
      | none => .ok { node := some node, parent := none }
      | some id => (s.node id).map fun parent => { node := some node, parent := some parent }

def mdiLandlockObject (w : World) (policy : Policy) (s : Catalogue) (node : Node) (access : Access) :
    Except Errno Unit :=
  if policy = [] ∨ access = 0 then .ok ()
  else selectObject s node >>= fun selected => mdiLandlock w policy s selected access

end

open List Option

variable {lookup : Key → Except Errno Bool} {placed : Key → Prop} {w : World} {access : Access} {policy : Policy}
  {s : Catalogue} {chosen : Selection} {i : Nat} {addr : Address} {w' : World}

/-- A right is granted by a rule that applies. -/
def grants (placed : Key → Prop) (rules : List Rule) (i : Nat) : Prop :=
  ∃ rule ∈ rules, rule.allowed.getLsbD i = true ∧ placed rule.key

/-- A lookup that does not fail says which rules apply. -/
def Faithful (lookup : Key → Except Errno Bool) (placed : Key → Prop) : Prop :=
  ∀ key answer, lookup key = .ok answer → (answer = true ↔ placed key)

theorem grants_cons {rule : Rule} {rest : List Rule} :
    grants placed (rule :: rest) i ↔ (rule.allowed.getLsbD i = true ∧ placed rule.key) ∨ grants placed rest i := by
  simp [grants]

theorem getLsbD_eq_false_of_and_eq_zero {a b : Access} (none : a &&& b = 0) (left : a.getLsbD i = true) :
    b.getLsbD i = false := by
  have bit := congrArg (·.getLsbD i) none
  simpa [left] using bit

/-- The rules of a layer leave missing what none of those that apply grants. -/
theorem checkRules_ok (faithful : Faithful lookup placed) {lack left : Access} {rules : List Rule}
    (run : checkRules lookup lack rules = .ok left) (i : Nat) :
    left.getLsbD i = true ↔ lack.getLsbD i = true ∧ ¬ grants placed rules i := by
  induction rules generalizing lack with
  | nil =>
    cases run
    simp [grants]
  | cons rule rest ih =>
    rw [checkRules] at run
    split at run
    next nothing =>
      cases run
      simp [nothing]
    · split at run
      · -- The rule has none of what is missing, and is not looked at.
        rename_i useless
        rw [ih run, grants_cons]
        refine and_congr_right fun wanted => ?_
        have other := getLsbD_eq_false_of_and_eq_zero useless wanted
        simp [other]
      · obtain ⟨found, looked, run⟩ := bind_ok.mp run
        have applies := faithful _ _ looked
        rw [ih run, grants_cons, ← applies]
        cases found with
        | true =>
          simp only [if_true, BitVec.getLsbD_and, BitVec.getLsbD_not, Bool.and_eq_true, and_true, not_or]
          constructor
          · rintro ⟨⟨wanted, -, other⟩, ungranted⟩
            exact ⟨wanted, by simpa using other, ungranted⟩
          · rintro ⟨wanted, other, ungranted⟩
            have bound : i < 64 := BitVec.lt_of_getLsbD wanted
            exact ⟨⟨wanted, by simpa [bound] using other⟩, ungranted⟩
        | false => simp

theorem checkRules_cases (lack : Access) (rules : List Rule) :
    (∃ left, checkRules lookup lack rules = .ok left) ∨
      ∃ error, checkRules lookup lack rules = .error error ∧ ∃ rule ∈ rules, lookup rule.key = .error error := by
  induction rules generalizing lack with
  | nil => exact .inl ⟨lack, rfl⟩
  | cons rule rest ih =>
    have later : ∀ m, (∃ left, checkRules lookup m rest = .ok left) ∨
        ∃ error, checkRules lookup m rest = .error error ∧ ∃ found ∈ rule :: rest, lookup found.key = .error error := by
      intro m
      rcases ih m with done | ⟨error, bad, found, mem, looked⟩
      · exact .inl done
      · exact .inr ⟨error, bad, found, mem_cons_of_mem _ mem, looked⟩
    rw [checkRules]
    split
    · exact .inl ⟨lack, rfl⟩
    · split
      · exact later lack
      · cases looked : lookup rule.key with
        | error error => exact .inr ⟨error, rfl, rule, by simp, looked⟩
        | ok found => exact later _

/-- Every right that is asked for and that the layer handles is granted in it. -/
def layerGrants (placed : Key → Prop) (w : World) (access : Access) (addr : Address) : Prop :=
  ∀ handled rules, w.layer addr = some (handled, rules) → ∀ i, access.getLsbD i = true → handled.getLsbD i = true →
    grants placed rules i

section

variable (faithful : Faithful lookup placed)

include faithful

theorem check_cons (run : check lookup w access (addr :: policy) = .ok ()) :
    layerGrants placed w access addr ∧ check lookup w access policy = .ok () := by
  obtain ⟨left, fine, run⟩ := bind_ok.mp run
  obtain ⟨none, run⟩ := failIf_bind_ok.mp run
  refine ⟨?_, run⟩
  intro handled rules found i asked handles
  rw [found] at fine
  by_contra ungranted
  have lack := (checkRules_ok faithful fine i).mpr ⟨by simp [asked, handles], ungranted⟩
  rw [not_not.mp none] at lack
  simp at lack

/-- A check that succeeds has found every right granted in every layer. -/
theorem check_sound (run : check lookup w access policy = .ok ()) :
    ∀ addr ∈ policy, layerGrants placed w access addr := by
  induction policy with
  | nil => exact nofun
  | cons addr parent ih =>
    obtain ⟨here, above⟩ := check_cons faithful run
    intro found mem
    rcases mem_cons.mp mem with rfl | mem
    · exact here
    · exact ih above found mem

/-- Where every right is granted in every layer, only a lookup that fails refuses. -/
theorem check_complete (may : ∀ addr ∈ policy, layerGrants placed w access addr) :
    check lookup w access policy = .ok () ∨
    ∃ error, check lookup w access policy = .error error ∧ ∃ key, lookup key = .error error := by
  induction policy with
  | nil => exact .inl rfl
  | cons addr parent ih =>
    rw [check]
    dsimp only
    generalize layer : (w.layer addr).getD (0, []) = content
    obtain ⟨handled, rules⟩ := content
    obtain ⟨left, fine⟩ | ⟨error, bad, rule, -, looked⟩ := @checkRules_cases lookup (access &&& handled) rules
    · have nothing : left = 0 := by
        apply BitVec.eq_of_getLsbD_eq
        intro i _
        by_contra missing
        obtain ⟨wanted, ungranted⟩ := (checkRules_ok faithful fine i).mp (by simpa using missing)
        rw [BitVec.getLsbD_and, Bool.and_eq_true] at wanted
        cases found : w.layer addr with
        | none =>
          rw [found] at layer
          cases layer
          simp at wanted
        | some content =>
          rw [found] at layer
          exact ungranted (may addr (by simp) handled rules (found.trans (congrArg some layer)) i wanted.1 wanted.2)
      rw [fine, nothing]
      simpa [failIf, bind, Except.bind] using ih fun found mem => may found (by simp [mem])
    · exact .inr ⟨error, by simp [bad, bind, Except.bind], rule.key, looked⟩

end

section

/-- A rule is placed on an object, or on the directory it was found in or one above that. -/
def Placed (s : Catalogue) (chosen : Selection) (key : Key) : Prop :=
  key.store = s.lifetime ∧ ((∃ node, chosen.node = some node ∧ node.id = key.object) ∨
      ∃ dir, chosen.directory = some dir ∧ (s.objects.find? dir.id).isSome ∧
        Relation.ReflTransGen (fun child up => s.up child = some up) dir.id key.object)

variable {key : Key}

theorem Catalogue.up_known {child up : Id} (link : s.up child = some up) : up ∈ s.objects.rows.map (·.object) := by
  obtain ⟨row, -, link⟩ := bind_eq_some_iff.mp link
  obtain ⟨parent, -, link⟩ := bind_eq_some_iff.mp link
  obtain ⟨above, found, rfl⟩ := map_eq_some_iff.mp link
  exact mem_map_of_mem (Table.find?_eq_some.mp found).1

theorem ancestor_ok {above child : Id} {answer : Bool} (run : ancestor s above child = .ok answer) :
    answer = true ↔ (s.objects.find? child).isSome ∧
      Relation.ReflTransGen (fun child up => s.up child = some up) child above := by
  unfold ancestor at run
  split at run
  · cases run
  · cases run
    rw [Bool.and_eq_true, contains_iff_mem]
    refine and_congr_right fun there => ?_
    obtain ⟨row, found⟩ := isSome_iff_exists.mp there
    obtain ⟨mem, rfl⟩ := Table.find?_eq_some.mp found
    have known := mem_lineage_length_iff (b := above) (mem_map_of_mem (f := ObjectRow.object) mem)
      fun child up (link : s.up child = some up) => s.up_known link
    rwa [length_map] at known

theorem keyMatches_faithful : Faithful (keyMatches s chosen) (Placed s chosen) := by
  intro key answer run
  unfold keyMatches at run
  split at run
  next foreign =>
    cases run
    simp [Placed, foreign]
  next same =>
    rw [not_not] at same
    split at run
    next own =>
      cases run
      obtain ⟨node, isNode, isKey⟩ := (Option.any_eq_true _ _).mp own
      simp only [true_iff]
      exact ⟨same, .inl ⟨node, isNode, by simpa using isKey⟩⟩
    next other =>
      have noSelf : ¬ ∃ node, chosen.node = some node ∧ node.id = key.object := by
        rintro ⟨node, isNode, isKey⟩
        simp [isNode, isKey] at other
      split at run
      next none =>
        cases run
        simp [Placed, noSelf, none]
      next dir isDir =>
        rw [ancestor_ok run]
        constructor
        · rintro ⟨there, climbs⟩
          exact ⟨same, .inr ⟨dir, isDir, there, climbs⟩⟩
        · rintro ⟨-, self | ⟨found, isFound, there, climbs⟩⟩
          · exact absurd self noSelf
          · obtain rfl := mem_unique isDir isFound
            exact ⟨there, climbs⟩

theorem keyMatches_error {e : Errno} (bad : keyMatches s chosen key = .error e) :
    ∃ above child, s.fails above child = some e := by
  unfold keyMatches at bad
  split at bad
  · cases bad
  · split at bad
    · cases bad
    · split at bad
      · cases bad
      next dir _ =>
        unfold ancestor at bad
        split at bad
        next found isError =>
          cases bad
          exact ⟨key.object, dir.id, isError⟩
        · cases bad

end

/-- Every layer of a policy grants, by the rules on the object or above, what is asked for and what
it handles. -/
def PolicyGrants (w : World) (policy : Policy) (s : Catalogue) (chosen : Selection) (access : Access) : Prop :=
  ∀ addr ∈ policy, layerGrants (Placed s chosen) w access addr

theorem mdiLandlock_sound (run : mdiLandlock w policy s chosen access = .ok ()) :
    PolicyGrants w policy s chosen access := by
  unfold mdiLandlock at run
  split at run
  next trivially =>
    intro addr mem handled rules found i asked
    rcases trivially with rfl | rfl
    · cases mem
    · simp at asked
  · exact check_sound keyMatches_faithful run

theorem mdiLandlock_complete (may : PolicyGrants w policy s chosen access) :
    mdiLandlock w policy s chosen access = .ok () ∨
      ∃ error, mdiLandlock w policy s chosen access = .error error ∧
        ∃ above child, s.fails above child = some error := by
  unfold mdiLandlock
  split
  · exact .inl rfl
  · obtain done | ⟨error, bad, key, looked⟩ := check_complete keyMatches_faithful may
    · exact .inl done
    · exact .inr ⟨error, bad, keyMatches_error looked⟩

/-- A further layer only takes rights away. -/
theorem mdiLandlock_cons (run : mdiLandlock w (addr :: policy) s chosen access = .ok ()) :
    mdiLandlock w policy s chosen access = .ok () := by
  unfold mdiLandlock at run ⊢
  split
  · rfl
  next some =>
    rw [if_neg (by simpa using fun zero => some (.inr zero))] at run
    exact (check_cons keyMatches_faithful run).2

theorem check_congr (same : ∀ addr ∈ policy, w'.layer addr = w.layer addr) :
    check lookup w' access policy = check lookup w access policy := by
  induction policy with
  | nil => rfl
  | cons addr parent ih =>
    have above := ih fun found mem => same found (mem_cons_of_mem _ mem)
    rw [check, check, same addr mem_cons_self, above]

theorem mdiLandlock_congr (same : ∀ addr ∈ policy, w'.layer addr = w.layer addr) :
    mdiLandlock w' policy s chosen access = mdiLandlock w policy s chosen access := by
  unfold mdiLandlock
  rw [check_congr same]

/-- What a policy is for: the check of an object, found by a path or not, says whether every layer
grants what is asked for, unless a lookup fails. -/
structure Decides (w : World) (policy : Policy) : Prop where
  sound : ∀ s chosen access, mdiLandlock w policy s chosen access = .ok () → PolicyGrants w policy s chosen access
  complete : ∀ s chosen access, PolicyGrants w policy s chosen access → mdiLandlock w policy s chosen access = .ok () ∨
      ∃ error, mdiLandlock w policy s chosen access = .error error ∧ ∃ above child, s.fails above child = some error
  object : ∀ s node chosen access, selectObject s node = .ok chosen →
    mdiLandlockObject w policy s node access = mdiLandlock w policy s chosen access

theorem decides (w : World) (policy : Policy) : Decides w policy where
  sound _ _ _ := mdiLandlock_sound
  complete _ _ _ := mdiLandlock_complete
  object s node selected access select := by
    unfold mdiLandlockObject
    split
    next trivially => rw [mdiLandlock, if_pos trivially]
    · rw [select]
      rfl

end Shroot.Landlock
