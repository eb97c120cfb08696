import Shroot.Nft.History

namespace Shroot.Nft

open General List

/-- The rules of a chain, in their order. -/
def chainRules (rules : List Rule) (chain : Nat) : List Rule := rules.filter (·.chain = chain)

/-- Where a new rule comes in the list of its chain. -/
inductive Inserted (position : Nat) (positionId : UInt32) (r : Rule) : Bool → List Rule → List Rule → Prop
  | head (rules : List Rule) : position = 0 ∧ positionId = 0 → Inserted position positionId r false rules (r :: rules)
  | tail (rules : List Rule) : position = 0 ∧ positionId = 0 → Inserted position positionId r true rules (rules ++ [r])
  | before {named : Rule} (front back : List Rule) : Names position positionId named →
      Inserted position positionId r false (front ++ named :: back) (front ++ r :: named :: back)
  | after {named : Rule} (front back : List Rule) : Names position positionId named →
      Inserted position positionId r true (front ++ named :: back) (front ++ named :: r :: back)

section

variable {chain handle position : Nat} {positionId : UInt32} {append : Bool} {rules front back : List Rule}
  {place : Place} {r : Rule}

@[simp] theorem chainRules_append :
    chainRules (front ++ back) chain = chainRules front chain ++ chainRules back chain := filter_append ..

@[simp] theorem chainRules_cons_same (ofChain : r.chain = chain) :
    chainRules (r :: rules) chain = r :: chainRules rules chain :=
  filter_cons_of_pos (by simpa using ofChain)

@[simp] theorem chainRules_cons_other (other : r.chain ≠ chain) :
    chainRules (r :: rules) chain = chainRules rules chain :=
  filter_cons_of_neg (by simpa using other)

/-- The place that is found in the array of all rules is right in the list of the chain. -/
theorem Scanned.inserted (scanned : Scanned chain handle position positionId append rules.length rules place)
    (located : place.located = true) (ofChain : r.chain = chain) :
    Inserted position positionId r append (chainRules rules chain)
      (chainRules (rules.insertIdx place.index r) chain) := by
  have lists : ∀ k, chainRules rules chain = chainRules (rules.take k) chain ++ chainRules (rules.drop k) chain :=
    fun k => by
    rw [← chainRules_append, take_append_drop]
  rw [insertIdx_split (scanned.inside located), chainRules_append, chainRules_cons_same ofChain]
  by_cases unset : position = 0 ∧ positionId = 0
  · cases append with
    | false =>
      have none : chainRules (rules.take place.index) chain = [] := by
        refine filter_eq_nil_iff.mpr fun x mem same => ?_
        obtain ⟨k, is⟩ := mem_iff_getElem?.mp mem
        rw [getElem?_take] at is
        split at is
        · exact (scanned.first unset rfl).1 k x is ‹_› (of_decide_eq_true same)
        · cases is
      rw [lists place.index, none]
      exact .head _ unset
    | true =>
      rw [scanned.last unset rfl, take_length, drop_length]
      exact .tail _ unset
  · obtain ⟨k, named, there, same, names, is⟩ := scanned.named unset located
    have back : rules.drop k = named :: rules.drop (k + 1) := by
      rw [drop_eq_getElem?_toList_append, there]
      rfl
    rw [lists k, back, chainRules_cons_same same]
    cases append with
    | false =>
      rw [show place.index = k from is, back, chainRules_cons_same same]
      exact .before _ _ names
    | true =>
      rw [show place.index = k + 1 from is, take_add_one, there, Option.toList_some, chainRules_append,
        chainRules_cons_same same, append_assoc]
      exact .after _ _ names

theorem chainRules_modify {i : Nat} {old : Rule} {g : Rule → Rule} (there : rules[i]? = some old)
    (ofChain : (g old).chain = old.chain) :
    (∀ other ≠ old.chain, chainRules (rules.modify i g) other = chainRules rules other) ∧
      ∃ front back, chainRules rules old.chain = front ++ old :: back ∧
        chainRules (rules.modify i g) old.chain = front ++ g old :: back := by
  have split : ∀ chain, chainRules rules chain = chainRules (rules.take i) chain ++
      chainRules (old :: rules.drop (i + 1)) chain := by
    intro chain
    have back : rules.drop i = old :: rules.drop (i + 1) := by
      rw [drop_eq_getElem?_toList_append, there]
      rfl
    rw [← back, ← chainRules_append, take_append_drop]
  have changed : rules.modify i g = rules.take i ++ g old :: rules.drop (i + 1) := by
    rw [modify_eq_take_drop, drop_eq_getElem?_toList_append, there]
    rfl
  refine ⟨fun other ne => ?_, _, _, split _ |>.trans (by rw [chainRules_cons_same rfl]), ?_⟩
  · rw [changed, split other, chainRules_append, chainRules_cons_other ne.symm,
      chainRules_cons_other (ofChain ▸ ne.symm)]
  · rw [changed, chainRules_append, chainRules_cons_same ofChain]

end

variable (o : Outside) (m : Message) {f g : NetworkFilter}

/-- What a request for a rule does: the rule it describes comes into the list of its chain, or takes the place there of
the one with its handle. -/
def RuleMade (f g : NetworkFilter) : Prop :=
  ∃ a t c handle e position positionId id r,
    ruleRequest m f [4, 7, 6, 9, 10, 5] false = .ok (a, some t, some c, handle) ∧
    a.get 4 = some e ∧ number (a.get 6) 8 = .ok position ∧ number (a.get 10) 4 = .ok positionId ∧
      number (a.get 9) 4 = .ok id ∧
    ruleValue o f t.handle c.handle (.ofNat id) (a.get 7) e.data = .ok r ∧
    (∀ other ≠ c.handle, chainRules g.rules other = chainRules f.rules other) ∧ if has m.flags NLM_F_REPLACE then
      ∃ old front back, old.handle = handle ∧ chainRules f.rules c.handle = front ++ old :: back ∧
        chainRules g.rules c.handle = front ++ { r with handle } :: back
    else
      Inserted position (.ofNat positionId) { r with handle := f.nextHandle } (has m.flags NLM_F_APPEND)
        (chainRules f.rules c.handle)
        (chainRules g.rules c.handle)

/-- A request that fails has changed no list, unless only its echo could not be encoded. -/
def RuleRefused (made : NetworkFilter → Prop) (f g : NetworkFilter) : Prop :=
  g.rules = f.rules ∨ (has m.flags NLM_F_ECHO = true ∧ o.reply.isSome ∧ made g)

theorem echo_ensures {made : NetworkFilter → Prop} (has : made g) :
    Ensures g (fun _ => made) (RuleRefused o m made f) (echo o m) := by
  unfold echo Outside.encode
  split
  next failing => exact .ite (fun asked => .throw (.inr ⟨asked, failing ▸ rfl, has⟩)) fun _ => .pure has
  · exact .pure has

theorem addRule_ensures {idx : Nat} {r : Rule} :
    Ensures f (fun _ g => g.rules = f.rules.insertIdx idx { r with handle := f.nextHandle })
      (fun g => g.rules = f.rules)
      (addRule o idx r) := by
  have reserves : Ensures f (fun _ g => g = f) (fun g => g.rules = f.rules) (reserve o (f.rules.length + 1) 1024) :=
    .rejectIf_bind rfl fun _ => .ite (fun _ => .throw rfl) fun _ => .pure rfl
  refine .get_bind (reserves.bind fun _ g same => ?_)
  rw [same]
  have takes :
    Ensures f (fun handle g => handle = f.nextHandle ∧ g.rules = f.rules) (fun g => g.rules = f.rules) takeHandle :=
    .get_bind (.rejectIf_bind rfl fun _ => ⟨rfl, rfl⟩)
  refine takes.bind fun handle g taken => .modify ?_
  rw [taken.1, taken.2]

theorem ruleValue_chain {table chain : Nat} {id : UInt32} {userdata : Option Network.Attribute} {wire : Bytes} :
    Gives (fun r => r.chain = chain) (ruleValue o f table chain id userdata wire) :=
  .bind fun _ _ => .bind fun _ _ => .failIf_bind fun _ => .pure rfl

theorem newRule_ensures : Ensures f (fun _ => RuleMade o m f) (RuleRefused o m (RuleMade o m f) f) (newRule o m) := by
  refine .get_bind (.ofExcept_bind (.inl rfl) fun request requested => ?_)
  obtain ⟨a, t, c, handle⟩ := request
  dsimp only
  split
  next t c e isE =>
    refine .ofExcept_bind (.inl rfl) fun _ _ => .ofExcept_bind (.inl rfl) fun position isPosition => ?_
    refine .ofExcept_bind (.inl rfl) fun positionId isPositionId => .ofExcept_bind (.inl rfl) fun id isId => ?_
    refine .rejectIf_bind (.inl rfl) fun located => .ite (fun replaces => ?_) fun adds => ?_
    · split
      · exact .throw (.inl rfl)
      next idx found =>
        obtain ⟨old, there, ofChain, isHandle⟩ := rulePlace_scanned.replace idx found
        refine .ofExcept_bind (.inl rfl) fun r val => .modify_bind (echo_ensures o m ?_)
        have sameChain := ruleValue_chain o r val
        obtain ⟨others, front, back, pre, new⟩ := chainRules_modify there
          (g := fun old => { r with handle := old.handle }) (sameChain.trans ofChain.symm)
        rw [ofChain] at others pre new
        rw [isHandle] at new
        refine ⟨a, t, c, handle, e, position, positionId, id, r, requested, isE, isPosition, isPositionId, isId,
          val, others, ?_⟩
        rw [if_pos replaces]
        exact ⟨old, front, back, isHandle, pre, new⟩
    · refine .rejectIf_bind (.inl rfl) fun _ => .ofExcept_bind (.inl rfl) fun r val => ?_
      have sameChain := ruleValue_chain o r val
      refine ((addRule_ensures o).mono (fun _ _ is => is) fun _ => .inl).bind fun _ g is => echo_ensures o m ?_
      have located := Bool.eq_true_of_not_eq_false located
      refine ⟨a, t, c, handle, e, position, positionId, id, r, requested, isE, isPosition, isPositionId, isId, val,
        fun other ne => ?_, ?_⟩
      · rw [is, insertIdx_split (rulePlace_scanned.inside located), chainRules_append,
          chainRules_cons_other (sameChain ▸ ne.symm),
          ← chainRules_append, take_append_drop]
      · rw [if_neg adds, is]
        exact rulePlace_scanned.inserted located sameChain
  · exact .throw (.inl rfl)

/-- The lists of rules after any request that changes them. -/
theorem rule_requests (f : NetworkFilter) :
    Ensures f (fun _ => RuleMade o m f) (RuleRefused o m (RuleMade o m f) f) (newRule o m) ∧
    Ensures f (fun _ g => ∃ a t c handle, ruleRequest m f [4, 7] false = .ok (a, t, c, handle) ∧
        ∀ chain, chainRules g.rules chain = (chainRules f.rules chain).filter (!ruleMatches m f t c handle ·))
      (fun g => g.rules = f.rules) (delRule m) := by
  refine ⟨newRule_ensures o m, .get_bind (.ofExcept_bind rfl fun request requested => .modify_bind ?_)⟩
  obtain ⟨a, t, c, handle⟩ := request
  refine .ite (fun lack => .throw ?_) fun _ => .pure ⟨a, t, c, handle, requested, fun chain => ?_⟩
  · exact filter_eq_self.mpr fun r mem => by simpa using countP_eq_zero.mp lack.1 r mem
  · exact filter_comm ..

/-- A ruleset with an empty chain. -/
def emptyChain : NetworkFilter where
  nextHandle := 3
  tables := [{ handle := 1, family := NFPROTO_IPV4, name := ascii "t" }]
  chains := [{ table := 1, handle := 2, name := ascii "c" }]

/-- A request for a rule of that chain. -/
def ruleMessage (flags : UInt32) (position : Bytes) : Message where
  type := NFT_MSG_NEWRULE
  flags := flags
  body := [2, 0, 0, 0] ++ attributeBytes 1 (textBytes "t") ++ attributeBytes 2 (textBytes "c") ++
    attributeBytes (0x8000 + 4) [] ++ position

/-- Two rules, and a third that is to go before the second. -/
theorem rule_requests_placed :
    let f := { emptyChain with nextHandle := 5, rules := [⟨2, 3, 0, [], [], []⟩, ⟨2, 4, 0, [], [], []⟩] }
    let m := ruleMessage 0 (attributeBytes 6 [0, 0, 0, 0, 0, 0, 0, 4])
    RuleMade {} m f (leaves (newRule {} m) f) ∧
      (chainRules (leaves (newRule {} m) f).rules 2).map (·.handle) = [3, 5, 4] := by
  intro f m
  obtain ⟨_, -, made⟩ | ⟨e, bad, -⟩ := (rule_requests {} m f).1.outcome
  · exact ⟨made, by decide +kernel⟩
  · have good : gives (newRule {} m) f = .ok () := by decide +kernel
    cases good.symm.trans bad

def echoedRule : Message := ruleMessage NLM_F_ECHO []

theorem unechoed_rule_stays :
    gives (newRule { reply := some .EMSGSIZE } echoedRule) emptyChain = .error .EMSGSIZE ∧
      chainRules (leaves (newRule { reply := some .EMSGSIZE } echoedRule) emptyChain).rules 2 ≠
        chainRules emptyChain.rules 2 := by
  decide +kernel

end Shroot.Nft
