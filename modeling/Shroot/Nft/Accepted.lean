import Shroot.General.Positions
import Shroot.Nft.Registers

namespace Shroot.Nft

open General
open Network (Attribute AF_INET AF_INET6 ipSize eachAttribute)

variable {known : Initialized} {a data : Option Attribute} {size table : Nat} {f : NetworkFilter}

theorem registerStart_word (id : Nat) : registerStart id % 4 = 0 := by
  unfold registerStart
  split
  · omega
  · split <;> omega

theorem registerOf_yields :
    Yields known (fun start after => after = known ∧ start % 4 = 0 ∧ start + size ≤ registerBytes)
      (registerOf a size) := by
  refine .ofExcept_bind fun id _ => ?_
  refine .rejectIf_bind fun good => .pure ⟨rfl, registerStart_word id, ?_⟩
  unfold registerBytes
  omega

theorem covers_of_mask {start : Nat} (fits : start + size ≤ registerBytes)
    (held : known &&& registerMask start size = registerMask start size) : Covers known start size := by
  intro k low high
  unfold registerBytes at fits
  have bit := congrArg (fun x : Initialized => x.getLsbD k) held
  have isIn : (registerMask start size).getLsbD k = true := (registerMask_bit (by omega)).mpr ⟨by omega, low, high⟩
  simp only [BitVec.getLsbD_and, isIn, Bool.and_true] at bit
  exact bit

section

variable {α : Type} {post : α → Initialized → Prop} {next : Nat → Parse α}

theorem readRegister_bind
    (goes : ∀ src, src + size ≤ registerBytes ∧ Covers known src size → Yields known post (next src)) :
    Yields known post (readRegister a size >>= next) := by
  intro val final run
  obtain ⟨src, _, first, run⟩ := run_bind_ok.mp run
  obtain ⟨_, _, found, fine⟩ := run_bind_ok.mp first
  obtain ⟨rfl, -, mem⟩ := registerOf_yields _ _ found
  obtain ⟨held, fine⟩ := run_rejectIf_bind_ok.mp fine
  obtain ⟨rfl, rfl⟩ := run_pure_ok.mp fine
  exact goes _ ⟨mem, covers_of_mask mem (not_not.mp held)⟩ val final run

theorem writeRegister_bind (goes : ∀ dst, dst + (size + 3) / 4 * 4 ≤ registerBytes →
      Yields (known ||| registerMask dst ((size + 3) / 4 * 4)) post (next dst)) :
    Yields known post (writeRegister a size >>= next) := by
  intro val final run
  obtain ⟨dst, _, first, run⟩ := run_bind_ok.mp run
  obtain ⟨_, _, found, marked⟩ := run_bind_ok.mp first
  obtain ⟨rfl, word, mem⟩ := registerOf_yields _ _ found
  obtain ⟨rfl, rfl⟩ := run_pure_ok.mp marked
  refine goes _ ?_ val final run
  unfold registerBytes at mem ⊢
  omega

end

section

variable {handle : Nat} {id : UInt32} {name : Option Bytes} {s : ElementSet}

/-- What an expression refers to is there, in the table if one is given. -/
def Expression.Resolves (f : NetworkFilter) (table : Nat) : Expression → Prop
  | .verdict v => ∀ target, v.target? = some target → ∃ c ∈ f.chains, c.handle = target ∧ (table = 0 ∨ c.table = table)
  | .lookup set _ _ _ | .verdictMap set _ _ | .dataMap set _ _ _ _ =>
    ∃ s ∈ f.sets, s.handle = set ∧ (table = 0 ∨ s.table = table)
  | .ipset set _ _ => ∃ s ∈ f.sets, s.handle = set ∧ s.ipset ≠ none
  | _ => True

theorem selects_table {ofTable itsHandle : Nat} {itsName : Bytes} {itsId : UInt32}
    (pick : selects table name handle id ofTable itsName itsHandle itsId = true) : table = 0 ∨ ofTable = table := by
  simp only [selects, Bool.and_eq_true, Bool.or_eq_true, decide_eq_true_eq] at pick
  exact pick.1

theorem chainFind_mem {c : Chain} (found : chainFind f table name handle id = some c) :
    c ∈ f.chains ∧ (table = 0 ∨ c.table = table) :=
  ⟨List.mem_of_find?_eq_some found, selects_table (by simpa using List.find?_some found)⟩

theorem setFind_mem (found : setFind f table name handle id = some s) : s ∈ f.sets ∧ (table = 0 ∨ s.table = table) :=
  ⟨List.mem_of_find?_eq_some found, selects_table (by simpa using List.find?_some found)⟩

theorem nftSet_mem (found : nftSet f table name id = some s) : s ∈ f.sets ∧ (table = 0 ∨ s.table = table) := by
  rcases Option.or_eq_some_iff.mp found with byName | ⟨-, byId⟩
  · obtain ⟨name, -, found⟩ := Option.bind_eq_some_iff.mp byName
    exact setFind_mem found
  · split at byId
    · exact setFind_mem byId
    · cases byId

theorem plainVerdict_target {code : Nat} {v : Verdict} (is : plainVerdict code = some v) : v.target? = none := by
  unfold plainVerdict at is
  split_ifs at is <;> cases is <;> rfl

theorem nftVerdict_resolves :
    Gives (fun v => ∀ target, v.target? = some target → ∃ c ∈ f.chains, c.handle = target ∧
      (table = 0 ∨ c.table = table))
      (nftVerdict f table a) := by
  refine .bind fun b _ => .bind fun v _ => .bind fun code _ => .ite (fun _ => ?_) fun _ => ?_
  · refine .bind fun chain _ => .bind fun id _ => ?_
    split
    · exact .error
    next c found =>
      obtain ⟨mem, sub⟩ := chainFind_mem found
      refine .failIf_bind fun _ => .pure ?_
      split
      · rintro _ ⟨⟩
        exact ⟨c, mem, rfl, sub⟩
      · rintro _ ⟨⟩
        exact ⟨c, mem, rfl, sub⟩
  · refine .failIf_bind fun _ => ?_
    split
    next verdict is =>
      refine .pure fun target leads => ?_
      rw [plainVerdict_target is] at leads
      cases leads
    · exact .error

end

section

variable {wire : Option Attribute}

/-- An expression that uses no registers. -/
structure Inert (f : NetworkFilter) (table : Nat) (e : Expression) : Prop where
  reads : e.reads = []
  write : e.write? = none
  sized : e.Sized f
  resolves : e.Resolves f table

theorem natTarget_inert (name : Bytes) (protocol : UInt32) (revision : Nat) :
    Gives (Inert f table) (natTarget wire name protocol revision) := by
  refine .bind fun range _ => .bind fun flags _ => .failIf_bind fun _ => ?_
  have ports : ∀ specified : Bool,
      (if specified then NatPort.constant range.minPort (some range.maxPort) else .keep).reads = [] := by
    intro specified
    cases specified <;> rfl
  refine .ite (fun _ => ?_) fun _ => ?_
  · exact .failIf_bind fun _ => .pure ⟨ports _, rfl, trivial, trivial⟩
  · refine .failIf_bind fun _ => .failIf_bind fun _ => .pure ?_
    generalize has range.flags NF_NAT_RANGE_MAP_IPS = mapsIps
    cases mapsIps with
    | true => exact ⟨ports _, rfl, fun ⟨_, is⟩ => (nomatch is), trivial⟩
    | false => exact ⟨ports _, rfl, fun ⟨_, is⟩ => (nomatch is), trivial⟩

theorem rejectTarget_inert (family : UInt32) : Gives (Inert f table) (rejectTarget wire family) := by
  refine .bind fun info _ => .ite (fun _ => .pure ⟨rfl, rfl, trivial, trivial⟩) fun _ => ?_
  split
  · exact .pure ⟨rfl, rfl, trivial, trivial⟩
  · exact .error

theorem connmarkTarget_inert : Gives (Inert f table) (connmarkTarget wire) := by
  refine .bind fun info _ => .failIf_bind fun _ => .pure ?_
  split
  · exact ⟨rfl, rfl, trivial, trivial⟩
  · split <;> exact ⟨rfl, rfl, trivial, trivial⟩

theorem target_inert : Gives (Inert f table) (target f table data) := by
  refine .bind fun a _ => .bind fun name _ => .bind fun revision _ => .failIf_bind fun _ => ?_
  refine .ite (fun _ => ?_) fun _ => .ite (fun _ => rejectTarget_inert _) (fun _ => ?_)
  · exact .bind fun info _ => .failIf_bind fun _ => .pure ⟨rfl, rfl, trivial, trivial⟩
  · refine .ite (fun _ => ?_) fun _ => .ite (fun _ => connmarkTarget_inert) (fun _ => natTarget_inert _ _ _)
    exact .bind fun info _ => .pure ⟨rfl, rfl, trivial, trivial⟩

theorem setMatch_inert (revision : Nat) : Gives (Inert f table) (setMatch f table wire revision) := by
  refine .bind fun info _ => ?_
  -- The two checked revisions go on as the others do.
  suffices rest : Gives (Inert f table) _ from
    .ite (fun _ => .failIf_bind fun _ => rest) fun _ => .ite (fun _ => .failIf_bind fun _ => rest) fun _ => rest
  refine .failIf_bind fun _ => ?_
  split
  · exact .error
  next s found =>
    have isIpset := List.find?_some found
    refine .failIf_bind fun _ => .pure ⟨rfl, rfl, trivial, s, List.mem_of_find?_eq_some found, rfl, ?_⟩
    intro isNone
    simp [isNone] at isIpset

theorem multiportMatch_inert (revision : Nat) : Gives (Inert f table) (multiportMatch wire revision) :=
  .bind fun _ _ => .failIf_bind fun _ => .bind fun _ _ => .pure ⟨rfl, rfl, trivial, trivial⟩

theorem transportMatch_inert (tcp : Bool) : Gives (Inert f table) (transportMatch wire tcp) :=
  .bind fun _ _ => .failIf_bind fun _ => .failIf_bind fun _ => .pure ⟨rfl, rfl, trivial, trivial⟩

/-- An extension whose structure is checked and then taken over. -/
theorem checked_inert {bad : Bytes → Prop} [∀ info, Decidable (bad info)] {errno : Errno} {e : Bytes → Expression}
    (inert : ∀ info, Inert f table (e info)) :
    Gives (Inert f table) (do
      let info ← extensionInfo wire size
      failIf (bad info) errno
      return e info) :=
  .bind fun info _ => .failIf_bind fun _ => .pure (inert info)

theorem compatMatch_inert : Gives (Inert f table) (compatMatch f table data) := by
  refine .bind fun a _ => .bind fun name _ => .bind fun revision _ => .failIf_bind fun _ => ?_
  iterate 2 refine .ite (fun _ => checked_inert fun _ => ⟨rfl, rfl, trivial, trivial⟩) fun _ => ?_
  refine .ite (fun _ => multiportMatch_inert revision) fun _ => ?_
  refine .ite (fun _ => setMatch_inert revision) fun _ => ?_
  iterate 4 refine .ite (fun _ => checked_inert fun _ => ⟨rfl, rfl, trivial, trivial⟩) fun _ => ?_
  refine .ite (fun _ => ?_) fun _ => ?_
  · refine checked_inert fun info => ?_
    split <;> exact ⟨rfl, rfl, trivial, trivial⟩
  · refine .ite (fun _ => .bind fun _ _ => .pure ⟨rfl, rfl, trivial, nofun⟩) fun _ => ?_
    refine .ite (fun _ => checked_inert fun _ => ⟨rfl, rfl, trivial, trivial⟩) fun _ => ?_
    exact transportMatch_inert _

end

section

variable {e : Expression}

/-- An expression that was accepted after others: it is sound, and what it writes is known from then on. -/
def Learned (f : NetworkFilter) (table : Nat) (known : Initialized) (e : Expression) (after : Initialized) : Prop :=
  e.Sound f known ∧ after = e.learns known ∧ e.Resolves f table

theorem covered_none : Readable known [] := by
  intro x mem
  cases mem

theorem covered_one {src : Nat} (fits : src + size ≤ registerBytes ∧ Covers known src size) :
    ∀ x ∈ [(src, size)], x.1 + x.2 ≤ registerBytes ∧ Covers known x.1 x.2 := by
  intro x mem
  rw [List.mem_singleton.mp mem]
  exact fits

theorem unwritten (x : Nat × Nat) (is : none = some x) : x.1 + (x.2 + 3) / 4 * 4 ≤ registerBytes := by
  cases is

theorem written {dst : Nat} (fits : dst + (size + 3) / 4 * 4 ≤ registerBytes) (x : Nat × Nat)
    (is : some (dst, size) = some x) :
    x.1 + (x.2 + 3) / 4 * 4 ≤ registerBytes := by
  cases is
  exact fits

theorem Inert.learned (inert : Inert f table e) : Learned f table known e known := by
  refine ⟨⟨inert.sized, ?_, ?_⟩, ?_, inert.resolves⟩
  · rw [inert.reads]
    exact covered_none
  · rw [inert.write]
    exact unwritten
  · unfold Expression.learns
    rw [inert.write]

theorem inert_learned (inert : Inert f table e) : Yields known (Learned f table known) (pure e : Parse Expression) :=
  .pure inert.learned

theorem parseReject_learned : Yields known (Learned f table known) (parseReject f table data) := by
  refine .ofExcept_bind fun a _ => .ofExcept_bind fun val _ => .rejectIf_bind fun _ => ?_
  refine .ite (fun _ => inert_learned ⟨rfl, rfl, trivial, trivial⟩) fun _ => ?_
  split
  · exact .throw
  · exact .rejectIf_bind fun _ => inert_learned ⟨rfl, rfl, trivial, trivial⟩

theorem parseImmediate_learned : Yields known (Learned f table known) (parseImmediate f table data) := by
  refine .ofExcept_bind fun a _ => .ofExcept_bind fun val _ => .ite (fun _ => ?_) (fun _ => ?_)
  · exact .ofExcept_bind fun v is => inert_learned ⟨rfl, rfl, trivial, nftVerdict_resolves v is⟩
  · refine .ofExcept_bind fun bytes _ => ?_
    exact writeRegister_bind fun dst fits => .pure ⟨⟨trivial, covered_none, written fits⟩, rfl, trivial⟩

theorem parseMeta_learned : Yields known (Learned f table known) (parseMeta data) := by
  refine .ofExcept_bind fun a _ => .ofExcept_bind fun val _ => .ite (fun _ => ?_) fun _ => ?_
  · exact .rejectIf_bind fun _ => readRegister_bind fun src mem =>
      .pure ⟨⟨trivial, covered_one mem, unwritten⟩, rfl, trivial⟩
  · split
    · exact .throw
    · exact writeRegister_bind fun dst fits => .pure ⟨⟨rfl, covered_none, written fits⟩, rfl, trivial⟩

theorem parsePayload_learned : Yields known (Learned f table known) (parsePayload f table data) := by
  refine .ofExcept_bind fun a _ => .ofExcept_bind fun key _ => ?_
  refine .ofExcept_bind fun offset _ => .ofExcept_bind fun size _ => ?_
  split
  · exact .throw
  · exact .rejectIf_bind fun _ => writeRegister_bind fun dst fits =>
      .pure ⟨⟨trivial, covered_none, written fits⟩, rfl, trivial⟩

theorem parseCompare_learned : Yields known (Learned f table known) (parseCompare data) := by
  refine .ofExcept_bind fun a _ => .ofExcept_bind fun op _ => .rejectIf_bind fun _ => ?_
  exact .ofExcept_bind fun val _ => readRegister_bind fun src mem =>
    .pure ⟨⟨trivial, covered_one mem, unwritten⟩, rfl, trivial⟩

theorem parseRange_learned : Yields known (Learned f table known) (parseRange data) := by
  refine .ofExcept_bind fun a _ => .ofExcept_bind fun op _ => .rejectIf_bind fun _ => ?_
  refine .ofExcept_bind fun low _ => .ofExcept_bind fun high _ => .rejectIf_bind fun _ => ?_
  exact readRegister_bind fun src mem => .pure ⟨⟨trivial, covered_one mem, unwritten⟩, rfl, trivial⟩

theorem parseBitwise_learned : Yields known (Learned f table known) (parseBitwise data) := by
  refine .ofExcept_bind fun a _ => .ofExcept_bind fun size _ => .ofExcept_bind fun op _ => ?_
  refine .rejectIf_bind fun _ => .ofExcept_bind fun mask _ => .rejectIf_bind fun maskSize => ?_
  refine .ofExcept_bind fun xor _ => .rejectIf_bind fun _ => ?_
  refine readRegister_bind fun src mem => ?_
  refine writeRegister_bind fun dst fits => .pure ?_
  have isSize : mask.length = size := not_not.mp maskSize
  subst isSize
  exact ⟨⟨trivial, covered_one mem, written fits⟩, rfl, trivial⟩

theorem parseCt_learned : Yields known (Learned f table known) (parseCt data) := by
  refine .ofExcept_bind fun a _ => .ofExcept_bind fun val _ => .ite (fun _ => ?_) fun _ => ?_
  · exact .rejectIf_bind fun _ => readRegister_bind fun src mem =>
      .pure ⟨⟨trivial, covered_one mem, unwritten⟩, rfl, trivial⟩
  · split
    · exact .throw
    · exact writeRegister_bind fun dst fits => .pure ⟨⟨trivial, covered_none, written fits⟩, rfl, trivial⟩

theorem parseFib_learned : Yields known (Learned f table known) (parseFib data) := by
  refine .ofExcept_bind fun a _ => .ofExcept_bind fun val _ => .ofExcept_bind fun flags _ => ?_
  refine .rejectIf_bind fun _ => ?_
  split
  · exact .throw
  · exact .rejectIf_bind fun _ => writeRegister_bind fun dst fits =>
      .pure ⟨⟨rfl, covered_none, written fits⟩, rfl, trivial⟩

theorem parseLookup_learned (nodup : (f.sets.map (·.handle)).Nodup) :
    Yields known (Learned f table known) (parseLookup f table data) := by
  refine .ofExcept_bind fun a _ => .ofExcept_bind fun name _ => .ofExcept_bind fun id _ => ?_
  refine .ofExcept_bind fun flags _ => .rejectIf_bind fun _ => ?_
  split
  · exact .throw
  next s found =>
    have only : ∀ t ∈ f.sets, t.handle = s.handle → t = s :=
      fun t mem same => List.inj_on_of_nodup_map nodup mem (nftSet_mem found).1 same
    have resolves : ∃ t ∈ f.sets, t.handle = s.handle ∧ (table = 0 ∨ t.table = table) :=
      ⟨s, (nftSet_mem found).1, rfl, (nftSet_mem found).2⟩
    have keySize : ∀ t ∈ f.sets, t.handle = s.handle → t.keySize = s.keySize :=
      fun t mem same => by rw [only t mem same]
    refine readRegister_bind fun src isIn => ?_
    refine .ite (fun _ => ?_) fun _ => ?_
    · refine .ofExcept_bind fun val _ => .rejectIf_bind fun _ => .ite (fun _ => ?_) fun _ => ?_
      · refine writeRegister_bind fun dst fits => .pure ?_
        refine ⟨⟨?_, covered_one isIn, written fits⟩, rfl, resolves⟩
        intro t mem same
        rw [only t mem same]
        exact ⟨rfl, rfl⟩
      · exact .rejectIf_bind fun _ => .pure ⟨⟨keySize, covered_one isIn, unwritten⟩, rfl, resolves⟩
    · exact .rejectIf_bind fun _ => .pure ⟨⟨keySize, covered_one isIn, unwritten⟩, rfl, resolves⟩

theorem parseNatAddress_yields {a : Fields} :
    Yields known (fun addr after => after = known ∧ Readable known (addr.reads size)) (parseNatAddress a size) := by
  unfold parseNatAddress
  split
  · exact .pure ⟨rfl, covered_none⟩
  · exact .throw
  · refine readRegister_bind fun src mem => .pure ?_
    exact ⟨rfl, covered_one mem⟩
  · refine readRegister_bind fun src mem => ?_
    refine readRegister_bind fun other _ => ?_
    exact .rejectIf_bind fun _ => .pure ⟨rfl, covered_one mem⟩

theorem parseNatPorts_yields {min max : Option Attribute} :
    Yields known (fun ports after => after = known ∧ Readable known ports.reads) (parseNatPorts min max) := by
  unfold parseNatPorts
  split
  · exact .pure ⟨rfl, covered_none⟩
  · exact .throw
  · refine readRegister_bind fun src isIn => .pure ?_
    exact ⟨rfl, covered_one isIn⟩
  · refine readRegister_bind fun src isIn => ?_
    refine readRegister_bind fun other too => .pure ?_
    refine ⟨rfl, fun x mem => ?_⟩
    rcases List.mem_cons.mp mem with rfl | mem
    · exact isIn
    · exact covered_one too x mem

theorem parseNat_learned : Yields known (Learned f table known) (parseNat f table data) := by
  refine .ofExcept_bind fun a _ => .ofExcept_bind fun op _ => .ofExcept_bind fun val _ => ?_
  refine .ofExcept_bind fun wanted _ => .rejectIf_bind fun _ => .ofExcept_bind fun flags _ => ?_
  refine .rejectIf_bind fun _ => parseNatAddress_yields.bind fun addr new found => ?_
  obtain ⟨rfl, addressReads⟩ := found
  refine parseNatPorts_yields.bind fun ports new found => ?_
  obtain ⟨rfl, portReads⟩ := found
  refine .rejectIf_bind fun _ => .rejectIf_bind fun _ => .rejectIf_bind fun _ => .pure ?_
  refine ⟨⟨?_, fun x mem => ?_, unwritten⟩, rfl, trivial⟩
  · intro _
    split
    · exact .inr rfl
    · exact .inl rfl
  · rcases List.mem_append.mp mem with addr | port
    · exact addressReads x addr
    · exact portReads x port

theorem parseMasquerade_learned : Yields known (Learned f table known) (parseMasquerade data) := by
  refine .ofExcept_bind fun a _ => .ofExcept_bind fun wanted _ => .rejectIf_bind fun _ => ?_
  refine .ofExcept_bind fun flags _ => parseNatPorts_yields.bind fun ports new found => ?_
  obtain ⟨rfl, portReads⟩ := found
  exact .rejectIf_bind fun _ => .pure ⟨⟨trivial, portReads, unwritten⟩, rfl, trivial⟩

theorem parseLog_learned : Yields known (Learned f table known) (parseLog data) := by
  refine .ofExcept_bind fun a _ => ?_
  split
  · exact .throw
  · refine .rejectIf_bind fun _ => .ofExcept_bind fun _ _ => .rejectIf_bind fun _ => ?_
    have last : ∀ group : Attribute, ∀ label : Option Bytes, Yields known (Learned f table known) (do
        rejectIf ((label.getD []).length ≥ 64) Errno.EINVAL
        return Expression.log { group := UInt16.ofNat (bigEndianValue group.data), label := label.getD [] }) :=
      fun group label => .rejectIf_bind fun _ => inert_learned ⟨rfl, rfl, trivial, trivial⟩
    refine .ite (fun _ => ?_) fun _ => ?_
    · exact last _ none
    · exact .ofExcept_bind fun label _ => last _ label

theorem parseLimit_learned : Yields known (Learned f table known) (parseLimit data) := by
  refine .ofExcept_bind fun a _ => .ofExcept_bind fun rate _ => .ofExcept_bind fun unit _ => ?_
  refine .ofExcept_bind fun burst _ => .ofExcept_bind fun type _ => .ofExcept_bind fun flags _ => ?_
  refine .rejectIf_bind fun _ => .rejectIf_bind fun _ => .rejectIf_bind fun _ => ?_
  exact inert_learned ⟨rfl, rfl, trivial, trivial⟩

theorem parseCounter_learned : Yields known (Learned f table known) (parseCounter data) := by
  refine .ofExcept_bind fun a _ => .ofExcept_bind fun packets _ => .ofExcept_bind fun bytes _ => ?_
  exact inert_learned ⟨rfl, rfl, trivial, trivial⟩

/-- Every expression that is accepted is sound after those before it. -/
theorem parseExpression_learned (nodup : (f.sets.map (·.handle)).Nodup) (name : Bytes) :
    Yields known (Learned f table known) (parseExpression f table data name) := by
  unfold parseExpression
  split
  next parser found =>
    obtain ⟨prior, later, whole, -⟩ := List.lookup_eq_some_iff.mp found
    have mem : (name, parser) ∈ expressionParsers f table data := by rw [whole]; simp
    simp only [expressionParsers, List.mem_cons, Prod.mk.injEq, List.not_mem_nil, or_false] at mem
    rcases mem with ⟨-, rfl⟩ | ⟨-, rfl⟩ | ⟨-, rfl⟩ | ⟨-, rfl⟩ | ⟨-, rfl⟩ | ⟨-, rfl⟩ | ⟨-, rfl⟩ | ⟨-, rfl⟩ |
      ⟨-, rfl⟩ | ⟨-, rfl⟩ |
      ⟨-, rfl⟩ | ⟨-, rfl⟩ | ⟨-, rfl⟩ | ⟨-, rfl⟩ | ⟨-, rfl⟩ | ⟨-, rfl⟩ | ⟨-, rfl⟩
    · exact parseReject_learned
    · exact parseImmediate_learned
    · exact parseMeta_learned
    · exact parsePayload_learned
    · exact parseCompare_learned
    · exact parseRange_learned
    · exact parseBitwise_learned
    · exact parseCt_learned
    · exact parseFib_learned
    · exact parseLookup_learned nodup
    · exact parseNat_learned
    · exact parseLog_learned
    · exact parseLimit_learned
    · exact parseCounter_learned
    · exact parseMasquerade_learned
    · exact .ofExcept fun _ is => (target_inert _ is).learned
    · exact .ofExcept fun _ is => (compatMatch_inert _ is).learned
  · exact .throw

end

def learnsAll (known : Initialized) (exprs : List Expression) : Initialized :=
  exprs.foldl (fun known e => e.learns known) known

theorem disciplined_append {left right : List Expression} :
    Disciplined f known (left ++ right) ↔ Disciplined f known left ∧ Disciplined f (learnsAll known left) right := by
  induction left generalizing known with
  | nil => simp [Disciplined, learnsAll]
  | cons e rest ih =>
    simp only [List.cons_append, Disciplined, ih, and_assoc]
    rfl

/-- What holds of the expressions so far, and of what is known after them. -/
structure Parsed (f : NetworkFilter) (table : Nat) (state : List Expression × Initialized) : Prop where
  sound : Disciplined f 0 state.1
  known : state.2 = learnsAll 0 state.1
  resolves : ∀ e ∈ state.1, e.Resolves f table

theorem parseItem_parsed (nodup : (f.sets.map (·.handle)).Nodup) {state : List Expression × Initialized}
    (item : Attribute) (read : Parsed f table state) :
    Yields state.2 (fun exprs after => Parsed f table (exprs, after)) (parseItem f table state.1 item) := by
  refine .rejectIf_bind fun _ => .ofExcept_bind fun a _ => .ofExcept_bind fun name _ => ?_
  split
  · exact .throw
  · refine .rejectIf_bind fun _ => (parseExpression_learned nodup _).bind fun e after learned => .pure ?_
    obtain ⟨sound, rfl, resolves⟩ := learned
    rw [read.known] at sound ⊢
    refine ⟨disciplined_append.mpr ⟨read.sound, sound, trivial⟩, ?_, forall_mem_concat read.resolves resolves⟩
    simp only [learnsAll, List.foldl_append, List.foldl_cons, List.foldl_nil]

/-- The expressions of a rule that is accepted read only what those before them wrote, and refer to what is there. -/
theorem nftExpressions_parsed (nodup : (f.sets.map (·.handle)).Nodup) {data : Bytes} {exprs : List Expression}
    (fine : nftExpressions f table data = .ok exprs) :
    Disciplined f 0 exprs ∧ ∀ e ∈ exprs, e.Resolves f table := by
  obtain ⟨state, loop, rfl⟩ := map_ok fine
  have kept : ∀ state item next, Parsed f table state → parseNext f table state item = .ok next →
      Parsed f table next := by
    intro state item next read ran
    unfold parseNext at ran
    split at ran
    next run =>
      cases ran
      exact parseItem_parsed nodup item read _ _ run
    · cases ran
  have initially : Parsed f table ([], 0) := ⟨trivial, rfl, nofun⟩
  have read := Network.eachAttribute_ok kept initially loop
  exact ⟨read.sound, read.resolves⟩

end Shroot.Nft
