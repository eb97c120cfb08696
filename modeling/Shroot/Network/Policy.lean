import Shroot.Network.History

namespace Shroot.Network

open General List UInt32 Except

section

def newRule (p : RuleParse) (rules : List Rule) : Rule :=
  if FRA_PRIORITY ∈ p.seen then p.value
  else { p.value with priority := defaultPriority p.value.destination.family rules }

/-- A rule behind all rules whose priorities are not greater. -/
def placed (value : Rule) (rules : List Rule) : List Rule :=
  (rules.takeWhile fun r => r.priority ≤ value.priority) ++
    value :: rules.dropWhile fun r => r.priority ≤ value.priority

/-- A deletion needs a rule that it names, and an addition has a place for another rule. -/
def Accepts (m : Message) (p : RuleParse) (rules : List Rule) : Prop :=
  if m.type = RTM_DELRULE then ∃ r ∈ rules, deletesRule p.seen p.value r
  else ¬ (newRule p rules ∈ rules ∧ has m.flags NLM_F_EXCL) ∧ ¬ has m.flags NLM_F_REPLACE ∧ rules.length ≠ maxRules

/-- Rules by priority, and those of one priority as they arrived. -/
structure Ordered (arrivals rules : List Rule) : Prop where
  sorted : rules.Pairwise fun a b => a.priority ≤ b.priority
  stable :
    ∀ priority, (rules.filter fun r => r.priority = priority).Sublist (arrivals.filter fun r => r.priority = priority)

variable {arrivals rules : List Rule} {value : Rule}

theorem Ordered.erase (asc : Ordered arrivals rules) (p : Rule → Bool) : Ordered arrivals (rules.eraseP p) :=
  ⟨asc.sorted.sublist eraseP_sublist, fun priority => (eraseP_sublist.filter _).trans (asc.stable priority)⟩

/-- A new rule goes behind all rules of its priority. -/
theorem Ordered.insert {old new : List Rule} (asc : Ordered arrivals (old ++ new))
    (low : ∀ r ∈ old, r.priority ≤ value.priority) (high : ∀ r ∈ new, value.priority < r.priority) :
    Ordered (arrivals ++ [value]) (old ++ value :: new) := by
  obtain ⟨front, back, across⟩ := pairwise_append.mp asc.sorted
  refine ⟨pairwise_append.mpr ⟨front, pairwise_cons.mpr ⟨fun r mem => UInt32.le_of_lt (high r mem), back⟩,
    fun a inFront b mem => ?_⟩,
    fun priority => ?_⟩
  · rcases mem_cons.mp mem with rfl | later
    · exact low a inFront
    · exact across a inFront b later
  · have stable := asc.stable priority
    rw [filter_append] at stable
    by_cases same : value.priority = priority
    · have none : new.filter (fun r => r.priority = priority) = [] := by
        refine filter_eq_nil_iff.mpr fun r mem eq => ?_
        exact UInt32.ne_of_lt (high r mem) (same.trans (of_decide_eq_true eq).symm)
      simpa [filter_append, filter_cons, same, none] using stable
    · simpa [filter_append, filter_cons, same] using stable

end

variable (n : Topology) (source destination : IpAddress) (mark output : UInt32)

/-- A rule that ends the search: it matches, and its action is terminal or its table has a route. -/
def decides (r : Rule) : Bool :=
  r.destination.family == destination.family && ruleMatches source destination mark r &&
    (r.action != FR_ACT_TO_TBL || (routeTable n destination output r.table).1.isSome)

end Shroot.Network
