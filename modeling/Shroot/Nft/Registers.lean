import Shroot.Nft.Evaluate
import Shroot.Nft.Expressions

namespace Shroot.Nft

open General Option Bool List BitVec Prod
open Network (IpAddress Attribute ipSize ipOf AF_INET AF_INET6 eachAttribute)

variable {f : NetworkFilter} {table size set : Nat} {s : ElementSet} {outcome : Outcome} {resolves tame : Prop}
  {leads : Chain → Prop} {known : Initialized} {r r' : Registers} {s'' : State}

def Covers (known : Initialized) (start size : Nat) : Prop := ∀ k, start ≤ k → k < start + size → known.getLsbD k = true

/-- Ranges of the registers that may be read. -/
abbrev Readable (known : Initialized) (ranges : List (Nat × Nat)) : Prop :=
  ∀ x ∈ ranges, x.1 + x.2 ≤ registerBytes ∧ Covers known x.1 x.2

/-- The bytes of a mark that come from a register. -/
def MarkSource.reads : MarkSource → List (Nat × Nat)
  | .register src => [(src, 4)]
  | _ => []

def NatAddress.reads (size : Nat) : NatAddress → List (Nat × Nat)
  | .register offset => [(offset, size)]
  | _ => []

def NatPort.reads : NatPort → List (Nat × Nat)
  | .register offset max => (offset, 2) :: max.toList.map fun max => (max, 2)
  | _ => []

def Expression.reads : Expression → List (Nat × Nat)
  | .metaSet source | .ctSet source => source.reads
  | .compare _ src value => [(src, value.length)]
  | .range _ src low _ => [(src, low.length)]
  | .bitwise src _ mask _ => [(src, mask.length)]
  | .lookup _ src size _ | .verdictMap _ src size | .dataMap _ src size _ _ => [(src, size)]
  | .nat _ family addr port _ => addr.reads (ipSize family) ++ port.reads
  | .masquerade port _ => port.reads
  | _ => []

/-- The range of the registers that an expression writes, up to the end of its last word. -/
def Expression.write? : Expression → Option (Nat × Nat)
  | .immediate dst value => some (dst, value.length)
  | .meta_ _ size dst | .payload _ _ size dst | .fib _ _ size dst => some (dst, size)
  | .bitwise _ dst mask _ => some (dst, mask.length)
  | .ct _ dst => some (dst, 4)
  | .dataMap _ _ _ dst dataSize => some (dst, dataSize)
  | _ => none

def Expression.learns (e : Expression) (known : Initialized) : Initialized :=
  match e.write? with
  | some (dst, size) => known ||| registerMask dst ((size + 3) / 4 * 4)
  | none => known

/-- The sizes of an expression are those of what it refers to. -/
def Expression.Sized (f : NetworkFilter) : Expression → Prop
  | .meta_ key size _ => size = key.size
  | .fib result _ size _ => size = if result = .oifname then 16 else 4
  | .lookup set _ size _ | .verdictMap set _ size => ∀ s ∈ f.sets, s.handle = set → s.keySize = size
  | .dataMap set _ size _ dataSize => ∀ s ∈ f.sets, s.handle = set → s.keySize = size ∧ s.dataSize = dataSize
  | .nat _ family addr _ _ => (∃ offset, addr = .register offset) → family = AF_INET ∨ family = AF_INET6
  | _ => True

/-- An expression reads only what is known, and writes only what there is. -/
structure Expression.Sound (f : NetworkFilter) (known : Initialized) (e : Expression) : Prop where
  sized : e.Sized f
  reads : ∀ x ∈ e.reads, x.1 + x.2 ≤ registerBytes ∧ Covers known x.1 x.2
  write : ∀ x, e.write? = some x → x.1 + (x.2 + 3) / 4 * 4 ≤ registerBytes

/-- So do the expressions of a rule, one after the other. -/
def Disciplined (f : NetworkFilter) : Initialized → List Expression → Prop
  | _, [] => True
  | known, e :: rest => e.Sound f known ∧ Disciplined f (e.learns known) rest

theorem registerMask_bit {start k : Nat} (fits : size ≤ 64) :
    (registerMask start size).getLsbD k = true ↔ k < 64 ∧ start ≤ k ∧ k < start + size := by
  simp only [registerMask, getLsbD_shiftLeft, getLsbD_ushiftRight, getLsbD_allOnes, and_eq_true,
    decide_eq_true_eq, not_eq_true', decide_eq_false_iff_not]
  omega

/-- An outcome that is not one of the errors of a broken ruleset. -/
def Sane (outcome : Outcome) : Prop := outcome ≠ .error .ELOOP ∧ outcome ≠ .error .ENOENT

instance (outcome : Outcome) : Decidable (Sane outcome) := inferInstanceAs (Decidable (_ ∧ _))

/-- What only a translation changes, and a jump. -/
def State.fixed (s : State) : List Nat × IpAddress × IpAddress := (s.depths, s.packet.source, s.packet.destination)

/-- A computation that uses no registers, and changes nothing that is fixed. -/
abbrev Quiet {α : Type} (action : Run α) : Prop :=
  Meets State.fixed (fun _ => True) (fun outcome => Sane outcome ∧ outcome ≠ .fault ∧ outcome ≠ .return_) action

theorem packet_quiet : Quiet Run.packet := Meets.get.bind fun _ _ => Meets.pure trivial

theorem rejectIf_quiet {bad : Prop} [Decidable bad]
    (ends : Sane outcome ∧ outcome ≠ .fault ∧ outcome ≠ .return_) : Quiet (rejectIf bad outcome) :=
  (Meets.rejectIf fun _ => by exact ends).mono fun _ _ => trivial

theorem accountCounter_quiet (env : Environment) (cell : CounterCell) : Quiet (accountCounter env cell) := by
  refine Meets.get.bind fun s _ => ?_
  split
  · exact .pure trivial
  · split
    · exact .pure trivial
    · refine (Meets.rejectIf fun _ => by decide).bind fun _ _ => ?_
      exact (Meets.rejectIf fun _ => by decide).bind fun _ _ => Meets.modify fun _ => rfl

theorem scatterPort_quiet (flags : UInt32) (low high : UInt16) : Quiet (scatterPort flags low high) := by
  unfold scatterPort randomUniform
  split
  · exact (Meets.modifyGet fun _ => rfl).bind fun chosen _ => Meets.modify fun _ => rfl
  · exact .pure trivial

theorem choosePort_quiet (env : Environment) (low high : UInt16) : Quiet (choosePort env low high) := by
  refine packet_quiet.bind fun p _ => ?_
  split
  · split
    · exact .modify fun _ => rfl
    · exact .throw (by decide)
  · split
    · exact .modify fun _ => rfl
    · exact .pure trivial

theorem rejectError_sane (r : Rejection) : Sane (.error (rejectError r)) := by
  unfold rejectError
  split <;> decide

/-- What an expression needs to be evaluated: its sets are there, and its jumps lead to chains. -/
structure Resolved (f : NetworkFilter) (c : Chain) (leads : Chain → Prop) (e : Expression) : Prop where
  set : ∀ set, e.set? = some set → ∃ s, setFind f c.table none set 0 = some s
  ipset : ∀ set source invert, e = .ipset set source invert → ∃ s, setFind f 0 none set 0 = some s
  verdict : ∀ v target, e = .verdict v → v.target? = some target →
    ∃ d, chainFind f c.table none target 0 = some d ∧ leads d
  element : ∀ set src size s element target, e = .verdictMap set src size → setFind f c.table none set 0 = some s →
    element ∈ s.elements → element.end_ = false → element.verdict.target? = some target →
    ∃ d, chainFind f c.table none target 0 = some d ∧ leads d

theorem setLookup_mem {key : Bytes} {element : Element} (found : setLookup s key = some element) :
    element ∈ s.elements ∧ element.end_ = false := by
  unfold setLookup at found
  dsimp only at found
  split at found
  next e is =>
    cases found
    obtain ⟨there, starts⟩ := filter_eq_some_iff.mp is
    simp only [and_eq_true, not_eq_true'] at starts
    exact ⟨mem_of_getElem? there, starts.1⟩
  · split at found
    · obtain ⟨there, starts⟩ := filter_eq_some_iff.mp found
      exact ⟨mem_of_getElem? there, by simpa using starts⟩
    · cases found

theorem selects_handle {handle ofTable itsHandle : Nat} {itsName : Bytes} {itsId : UInt32} :
    selects table none handle 0 ofTable itsName itsHandle itsId = true ↔
    (table = 0 ∨ ofTable = table) ∧ handle ≠ 0 ∧ handle = itsHandle := by
  unfold selects
  by_cases zero : handle = 0
  · simp [zero]
  · simp [zero]

theorem setFind_handle (found : setFind f table none set 0 = some s) : s ∈ f.sets ∧ s.handle = set := by
  have pick : selects table none set 0 s.table s.name s.handle s.id = true := by simpa using find?_some found
  exact ⟨mem_of_find?_eq_some found, (selects_handle.mp pick).2.2.symm⟩

section

variable {addr : NatAddress} {bytes : Bytes} {dst offset : Nat} {ports : NatPort} {α : Type}

/-- A packet of one family. -/
def Packet.Coherent (p : Packet) : Prop := p.source.family = p.destination.family

instance (p : Packet) : Decidable p.Coherent := inferInstanceAs (Decidable (_ = _))

def State.addresses (s : State) : IpAddress × IpAddress := (s.packet.source, s.packet.destination)

/-- Registers agree on what is known, where expressions keep to that, and are the same otherwise. -/
structure Agree (tame : Prop) (known : Initialized) (r r' : Registers) : Prop where
  known : tame → ∀ k, known.getLsbD k = true → r k = r' k
  same : ¬ tame → r = r'

/-- What two evaluations of an expression lead to. -/
def Follows (tame : Prop) (known : Initialized) (leads : Chain → Prop) : Progress → Progress → Prop
  | .next r, .next r' => Agree tame known r r'
  | .miss, .miss => True
  | .call goto target r, .call goto' target' r' =>
    goto = goto' ∧ target = target' ∧ leads target ∧ Agree tame known r r'
  | _, _ => False

/-- How a rule ends: sanely if its references are resolved, and if it is tame with no access
outside the registers, and for its chain to return only as it started. -/
structure Ends (resolves tame : Prop) (from_ : IpAddress × IpAddress) (outcome : Outcome) (s : State) : Prop where
  sane : resolves → Sane outcome
  inside : tame → outcome ≠ .fault
  back : tame → outcome = .return_ → s.addresses = from_

/-- What is the same for all registers. -/
abbrev Same {α : Type} (resolves tame : Prop) (from_ : IpAddress × IpAddress) (action action' : Run α) (s : State) :
    Prop :=
  Alike State.fixed (fun a b => a = b) (Ends resolves tame from_) action action' s

/-- Two evaluations of an expression that end or lead on alike. -/
abbrev Leads (resolves tame : Prop) (from_ : IpAddress × IpAddress) (known : Initialized) (leads : Chain → Prop)
    (action action' : Run Progress) (s : State) : Prop :=
  Alike State.fixed (Follows tame known leads) (Ends resolves tame from_) action action' s

variable {s : State} {from_ : IpAddress × IpAddress}

theorem Agree.refl : Agree tame known r r := ⟨fun _ _ _ => rfl, fun _ => rfl⟩

theorem Agree.mono {more : Initialized} (agree : Agree tame more r r')
    (less : tame → ∀ k, known.getLsbD k = true → more.getLsbD k = true) : Agree tame known r r' :=
  ⟨fun ok k is => agree.known ok k (less ok k is), agree.same⟩

theorem follows_proceed (agree : Agree tame known r r') (rel : Bool) :
    Follows tame known leads (proceed rel r) (proceed rel r') := by
  cases rel with
  | true => exact agree
  | false => trivial

theorem ends_of_ne (ends : Sane outcome ∧ outcome ≠ .fault ∧ outcome ≠ .return_) : Ends resolves tame from_ outcome s :=
  ⟨fun _ => ends.1, fun _ => ends.2.1, fun _ is => (ends.2.2 is).elim⟩

theorem ends_missing (unresolved : ¬ resolves) : Ends resolves tame from_ (.error .ENOENT) s :=
  ⟨fun is => (unresolved is).elim, nofun, nofun⟩

variable {action : Run α}

theorem Quiet.same (quiet : Quiet action) : Same resolves tame from_ action action s :=
  .of_meets quiet fun _ _ ends => ends_of_ne ends

theorem lax_same (lax : ¬ tame) (meets : Meets State.fixed (fun _ => True) (fun outcome => outcome = .fault) action) :
    Same resolves tame from_ action action s := by
  refine .of_meets meets ?_
  rintro _ final rfl
  exact ⟨fun _ => by decide, fun ok => (lax ok).elim, nofun⟩

theorem setOf_same (resolved : resolves → ∃ t, setFind f table none set 0 = some t) :
    Alike State.fixed (fun a b => a = b ∧ setFind f table none set 0 = some a) (Ends resolves tame from_)
      (setOf f table set)
      (setOf f table set) s := by
  unfold setOf
  split
  next found => exact .pure ⟨rfl, found⟩
  next lack =>
    refine .throw (ends_missing fun known => ?_)
    obtain ⟨t, found⟩ := resolved known
    cases lack.symm.trans found

section

variable (agree : Agree tame known r r')

include agree

theorem read_same (fits : tame → offset + size ≤ registerBytes ∧ Covers known offset size) :
    Same resolves tame from_ (r.read offset size) (r'.read offset size) s := by
  by_cases ok : tame
  · have fits := fits ok
    unfold Registers.read rejectIf
    rw [if_neg (by omega)]
    refine .pure (map_congr_left fun k mem => agree.known ok _ (fits.2 _ (by omega) ?_))
    have below := mem_range.mp mem
    omega
  · obtain rfl := agree.same ok
    exact lax_same ok ((Meets.rejectIf fun _ => by rfl).bind fun _ _ => Meets.pure trivial)

theorem write_alike (fits : tame → offset + bytes.length ≤ registerBytes) :
    Alike State.fixed (Agree tame (known ||| registerMask offset bytes.length)) (Ends resolves tame from_)
      (r.write offset bytes) (r'.write offset bytes) s := by
  by_cases ok : tame
  · have fits := fits ok
    unfold Registers.write rejectIf
    rw [if_neg (by omega)]
    refine .pure ⟨fun _ k is => ?_, fun lax => (lax ok).elim⟩
    unfold registerBytes at fits
    rw [getLsbD_or, or_eq_true, registerMask_bit (by omega)] at is
    split
    · rfl
    next outside => exact agree.known ok k (is.resolve_right fun ⟨_, fits⟩ => outside fits)
  · obtain rfl := agree.same ok
    refine (lax_same ok ((Meets.rejectIf fun _ => by rfl).bind fun _ _ => Meets.pure trivial)).weaken (fun _ => rfl) ?_
    rintro _ _ final same rfl
    exact ⟨same, .refl⟩

theorem setMark_same {source : MarkSource} (fits : tame → Readable known source.reads) (old other : UInt32) :
    Same resolves tame from_ (setMark source r old other) (setMark source r' old other) s := by
  cases source with
  | register src =>
    refine (read_same agree fun ok => fits ok (src, 4) (by simp [MarkSource.reads])).bind_eq fun a _ _ => ?_
    exact .pure rfl
  | constant val mask => exact .pure rfl
  | copy mask aux => exact .pure rfl

theorem natPorts_same (fits : tame → Readable known ports.reads) :
    Same resolves tame from_ (natPorts r ports) (natPorts r' ports) s := by
  cases ports with
  | keep => exact .pure rfl
  | constant low high => exact .pure rfl
  | register offset max =>
    refine (read_same agree fun ok => fits ok (offset, 2) (by simp [NatPort.reads])).bind_eq fun a _ _ => ?_
    cases max with
    | none => exact .pure rfl
    | some max =>
      refine (read_same agree fun ok => fits ok (max, 2) (by simp [NatPort.reads])).bind_eq fun a _ _ => ?_
      exact .pure rfl

theorem natAddress_same {old : IpAddress} (fits : tame → Readable known (addr.reads (ipSize old.family))) :
    Same resolves tame from_ (natAddress r old addr) (natAddress r' old addr) s := by
  cases addr with
  | keep => exact .pure rfl
  | constant val => exact .pure rfl
  | register offset =>
    refine (read_same agree fun ok => fits ok (offset, ipSize old.family) (by simp [NatAddress.reads])).bind_eq
      fun a _ _ => ?_
    exact .pure rfl

end

variable (env : Environment)

theorem sourceNat_same (agree : Agree tame known r r') (flags : UInt32) (fits : tame → Readable known ports.reads) :
    Same resolves tame from_ (sourceNat env ports flags r) (sourceNat env ports flags r') s := by
  refine packet_quiet.same.bind_eq fun p _ _ => ?_
  split
  · exact (rejectIf_quiet (by decide)).same
  · refine (natPorts_same agree fits).bind_eq fun given _ _ => (rejectIf_quiet (by decide)).same.bind_eq fun _ _ _ => ?_
    exact (scatterPort_quiet flags _ _).same.bind_eq fun _ _ _ => (choosePort_quiet env _ _).same

theorem applyVerdict_alike (agree : Agree tame known r r') (c : Chain) {v : Verdict} (same : s.addresses = from_)
    (there : resolves → ∀ target, v.target? = some target → ∃ d, chainFind f c.table none target 0 = some d ∧ leads d) :
    Leads resolves tame from_ known (fun d => resolves → leads d) (applyVerdict f c r v)
      (applyVerdict f c r' v) s := by
  unfold applyVerdict
  cases v with
  | jump target | goto target =>
    dsimp only
    split
    next found =>
      refine .pure ⟨rfl, rfl, fun resolving => ?_, agree⟩
      obtain ⟨d, isD, isLed⟩ := there resolving target rfl
      exact mem_unique isD found ▸ isLed
    next lack =>
      refine .throw (ends_missing fun resolving => ?_)
      obtain ⟨d, found, -⟩ := there resolving target rfl
      cases lack.symm.trans found
  | continue_ => exact .pure agree
  | break_ => exact .pure trivial
  | return_ => exact .throw ⟨fun _ => by decide, fun _ => by decide, fun _ _ => same⟩
  | accept | drop => exact .throw (ends_of_ne (by decide))

theorem length_padded (bytes : Bytes) : (padded bytes).length = (bytes.length + 3) / 4 * 4 := by
  simp only [padded, length_append, length_replicate]
  omega

@[simp] theorem length_filled (size : Nat) (bytes : Bytes) : (filled size bytes).length = size := by simp [filled]

@[simp] theorem length_native32 (val : UInt32) : (native32 val).length = 4 := by simp [native32]

section

variable (agree : Agree tame known r r')

include agree

theorem write_next (length : tame → bytes.length = size) (fits : tame → offset + size ≤ registerBytes) :
    Leads resolves tame from_ (known ||| registerMask offset size) leads
      (do return Progress.next (← r.write offset bytes)) (do return Progress.next (← r'.write offset bytes)) s := by
  refine (write_alike agree fun ok => length ok ▸ fits ok).bind fun _ _ _ _ new => .pure ?_
  exact .mono new fun ok k is => length ok ▸ is

theorem write_over (fits : tame → offset + bytes.length ≤ registerBytes) :
    Leads resolves tame from_ known leads
      (do return Progress.next (← r.write offset bytes)) (do return Progress.next (← r'.write offset bytes)) s := by
  refine (write_alike agree fits).bind fun _ _ _ _ new => .pure ?_
  exact .mono new fun _ k is => by rw [getLsbD_or, is, Bool.true_or]

theorem loadName_alike (p : Packet) {key : MetaKey} (sized : tame → size = key.size)
    (fits : tame → dst + (size + 3) / 4 * 4 ≤ registerBytes) :
    let load (r : Registers) : Run Progress := do
      let r ← loadName p dst r key
      if size ≤ 4 then return .next (← r.write dst (native32 (p.metaNumber key)))
      return .next r
    Leads resolves tame from_ (known ||| registerMask dst ((size + 3) / 4 * 4)) leads (load r) (load r') s := by
  by_cases ok : tame
  · obtain rfl := sized ok
    cases key with
    | iifname | oifname => exact write_next agree (fun _ => length_filled 16 _) fits
    | mark | iif | oif | nfproto | l4proto | pkttype => exact write_next agree (fun _ => length_native32 _) fits
  · obtain rfl := agree.same ok
    have loads : Meets State.fixed (fun _ => True) (fun outcome => outcome = .fault) (loadName p dst r key) := by
      cases key with
      | iifname | oifname => exact (Meets.rejectIf fun _ => by rfl).bind fun _ _ => Meets.pure trivial
      | mark | iif | oif | nfproto | l4proto | pkttype => exact .pure trivial
    refine (lax_same ok loads).bind_eq fun w _ _ => ?_
    split
    · exact write_next .refl (fun is => (ok is).elim) fits
    · exact .pure .refl

theorem fib_alike {res : FibResult} (flags : UInt32) (found : RouteResult)
    (sized : tame → size = if res = .oifname then 16 else 4) (mem : tame → dst + (size + 3) / 4 * 4 ≤ registerBytes) :
    let store (r : Registers) : Run Progress := do
      let r ← r.write dst (replicate size 0)
      if res = .addrtype then return .next (← r.write dst (native32 found.type))
      else if has flags NFTA_FIB_F_PRESENT
        then return .next (← r.write dst (native32 (if found.interface ≠ 0 then 1 else 0)))
      else if res = .oifname then return .next (← r.write dst (filled 16 found.name))
      else return .next (← r.write dst (native32 found.interface))
    Leads resolves tame from_ (known ||| registerMask dst ((size + 3) / 4 * 4)) leads (store r) (store r') s := by
  have whole : tame → (size + 3) / 4 * 4 = size ∧ 4 ≤ size := by
    intro ok
    have sized := sized ok
    split at sized <;> omega
  have short : ∀ val, tame → dst + (native32 val).length ≤ registerBytes := by
    intro val ok
    have fits := mem ok
    have words := whole ok
    rw [length_native32]
    omega
  refine (write_alike agree fun ok => ?_).bind fun w w' _ _ new => ?_
  · have fits := mem ok
    rw [length_replicate]
    omega
  · replace new : Agree tame (known ||| registerMask dst ((size + 3) / 4 * 4)) w w' := by
      refine new.mono fun ok k is => ?_
      rwa [length_replicate, ← (whole ok).1]
    split
    · exact write_over new (short _)
    · split
      · exact write_over new (short _)
      · split
        next isName =>
          refine write_over new fun ok => ?_
          have fits := mem ok
          have isSize := sized ok
          rw [if_pos isName] at isSize
          rw [length_filled]
          omega
        · exact write_over new (short _)

end

theorem change_same (change : Packet → Packet) :
    Alike (fun s => ((State.fixed s).1, ())) (fun a b => a = b) (Ends resolves tame from_) (Run.change change)
      (Run.change change) s :=
  ⟨rfl, rfl, rfl⟩

theorem change_ends (change : Packet → Packet) (ends : Sane outcome ∧ outcome ≠ .fault ∧ outcome ≠ .return_) :
    Alike (fun s => ((State.fixed s).1, ())) (fun (_ _ : α) => False) (Ends resolves tame from_)
      (Run.change change >>= fun _ => throw outcome) (Run.change change >>= fun _ => throw outcome) s :=
  (change_same change).bind_eq fun _ _ _ => .throw (ends_of_ne ends)

/-- A translation ends the rule, whatever it did to the addresses. -/
theorem nat_alike (agree : Agree tame known r r') {dest : Bool} {family : UInt32}
    (flags : UInt32) (sound : tame → (Expression.nat dest family addr ports flags).Sound f known)
    (good : tame → s.packet.Coherent) (c : Chain) (i j : Nat) :
    Leads resolves tame from_ known leads (evaluateExpression env f c i j (.nat dest family addr ports flags) r)
      (evaluateExpression env f c i j (.nat dest family addr ports flags) r') s := by
  have ports_inside : tame → Readable known ports.reads := fun ok x mem => (sound ok).reads x (mem_append_right _ mem)
  -- The size of the address is that of the packet's family, which the expression was checked for.
  have address_inside : family = 0 ∨ family = s.packet.destination.family → ∀ old : IpAddress,
      (tame → old.family = s.packet.destination.family) → tame → Readable known (addr.reads (ipSize old.family)) := by
    intro fits old same ok x mem
    cases addr with
    | keep | constant _ => cases mem
    | register offset =>
      have isFamily := (sound ok).sized ⟨offset, rfl⟩
      have ne : family ≠ 0 := by rcases isFamily with rfl | rfl <;> decide
      rw [same ok, ← fits.resolve_left ne] at mem
      exact (sound ok).reads x (mem_append_left _ mem)
  have start : Alike State.fixed (fun p p' => p = p' ∧ p = s.packet) (Ends resolves tame from_) Run.packet Run.packet
    s := ⟨rfl, rfl, rfl, rfl⟩
  refine start.bind fun p _ _ _ both => ?_
  obtain ⟨rfl, rfl⟩ := both
  dsimp only
  split
  · exact .pure trivial
  next fits =>
    have fits : family = 0 ∨ family = s.packet.destination.family := by
      by_contra other
      exact fits ⟨fun zero => other (.inl zero), fun same => other (.inr same)⟩
    refine .of_never ?_
    split
    · refine (natAddress_same agree (address_inside fits _ fun _ => rfl)).forget.bind_eq fun translated _ _ => ?_
      refine (change_same _).bind_eq fun _ _ _ => ?_
      exact (natPorts_same agree ports_inside).forget.bind_eq fun given _ _ => change_ends _ (by decide)
    · refine (natAddress_same agree (address_inside fits _ good)).forget.bind_eq fun translated _ _ => ?_
      refine (change_same _).bind_eq fun _ _ _ => ?_
      exact (sourceNat_same env agree flags ports_inside).forget.bind_eq fun _ _ _ => change_ends _ (by decide)

/-- Two evaluations of an expression that keeps to what is known differ only in what is not known, and one
whose references are resolved leads where they lead. -/
theorem evaluateExpression_alike (c : Chain) (i j : Nat) {e : Expression}
    (resolved : resolves → Resolved f c leads e) (sound : tame → e.Sound f known) (agree : Agree tame known r r')
    (good : tame → s.packet.Coherent) :
    Leads resolves tame s.addresses (e.learns known) (fun d => resolves → leads d)
      (evaluateExpression env f c i j e r) (evaluateExpression env f c i j e r') s := by
  have one : ∀ {src size : Nat}, e.reads = [(src, size)] → tame → src + size ≤ registerBytes ∧
      Covers known src size := by
    intro src size reads ok
    exact (sound ok).reads (src, size) (by rw [reads]; exact mem_singleton_self _)
  have set : ∀ {set src size : Nat} {t : ElementSet}, setFind f c.table none set 0 = some t → e.reads = [(src, size)] →
      (tame → ∀ s ∈ f.sets, s.handle = set → s.keySize = size) → tame → src + t.keySize ≤ registerBytes ∧
        Covers known src t.keySize := by
    intro set src size t found reads sized ok
    obtain ⟨mem, handle⟩ := setFind_handle found
    rw [sized ok t mem handle]
    exact one reads ok
  have fits : ∀ {dst size : Nat}, e.write? = some (dst, size) → tame → dst + (size + 3) / 4 * 4 ≤ registerBytes :=
    fun writes ok => (sound ok).write _ writes
  have changes : ∀ change : Packet → Packet, (∀ s : State, { s with packet := change s.packet }.fixed = s.fixed) →
    Quiet (.change change) :=
    fun change keeps => .modify keeps
  by_cases isNat : ∃ dest family addr ports flags, e = .nat dest family addr ports flags
  · obtain ⟨dest, family, addr, ports, flags, rfl⟩ := isNat
    exact nat_alike env agree flags sound good c i j
  refine packet_quiet.same.bind_eq fun p _ there => ?_
  replace there : State.addresses _ = s.addresses := congrArg snd there
  cases e with
  | physdev _ | icmpMatch _ _ _ _ _ | transport _ | multiport _ | stateMatch _ _ _ | markMatch _ _ _
  | connmarkMatch _ _ _ | packetType _ _ | reversePath _ | addressType _ _ _ _ => exact .pure (follows_proceed agree _)
  | limit _ =>
    refine (rejectIf_quiet (by decide)).same.bind_eq fun _ _ _ => ?_
    have clock : Quiet readClock := .modifyGet fun _ => rfl
    refine clock.same.bind_eq fun now _ _ => ?_
    have spends : Quiet (spendLimit i j now) := .modifyGet fun _ => rfl
    exact spends.same.bind_eq fun rel _ _ => .pure (follows_proceed agree _)
  | log log =>
    refine (rejectIf_quiet (by decide)).same.bind_eq fun _ _ _ => ?_
    split
    · have logs : Quiet (modify fun s => { s with logged := s.logged ++ [(p, log)] }) := .modify fun _ => rfl
      exact logs.same.bind_eq fun _ _ _ => .pure agree
    · exact .pure agree
  | ipset handle source invert =>
    refine (setOf_same fun resolving => (resolved resolving).ipset handle source invert rfl).bind fun t _ _ _ both => ?_
    obtain ⟨rfl, -⟩ := both
    exact .pure (follows_proceed agree _)
  | reject type code =>
    refine (rejectIf_quiet (by decide)).same.bind_eq fun _ _ _ => .of_never (change_ends _ ⟨rejectError_sane _, ?_⟩)
    exact ⟨nofun, nofun⟩
  | counter _ => exact (accountCounter_quiet env _).same.bind_eq fun _ _ _ => .pure agree
  | immediate dst val => exact write_next agree (fun _ => length_padded _) (fits rfl)
  | compare eq src val => exact (read_same agree (one rfl)).bind_eq fun bytes _ _ => .pure (follows_proceed agree _)
  | range eq src low high => exact (read_same agree (one rfl)).bind_eq fun bytes _ _ => .pure (follows_proceed agree _)
  | bitwise src dst mask xor =>
    refine (read_same agree (one rfl)).bind_eq fun bytes _ _ => write_next agree (fun _ => ?_) (fits rfl)
    rw [length_padded, length_map, length_range]
  | payload base offset size dst =>
    dsimp only
    split
    · exact .pure trivial
    next enough =>
      refine write_next agree (fun _ => ?_) (fits rfl)
      rw [length_padded, length_take, length_drop]
      omega
  | meta_ key size dst => exact loadName_alike agree p (fun ok => (sound ok).sized) (fits rfl)
  | metaSet source =>
    refine (setMark_same agree (fun ok => (sound ok).reads) _ _).bind_eq fun mark _ _ => ?_
    exact (changes _ fun _ => rfl).same.bind_eq fun _ _ _ => .pure agree
  | ctSet source =>
    refine (setMark_same agree (fun ok => (sound ok).reads) _ _).bind_eq fun ctmark _ _ => ?_
    exact (changes _ fun _ => rfl).same.bind_eq fun _ _ _ => .pure agree
  | ct key dst => exact write_next agree (fun _ => length_native32 _) (fits rfl)
  | fib res flags size dst => exact fib_alike agree flags _ (fun ok => (sound ok).sized) (fits rfl)
  | lookup handle src size invert =>
    refine (setOf_same fun resolving => (resolved resolving).set handle rfl).bind fun t _ _ _ both => ?_
    obtain ⟨rfl, found⟩ := both
    refine (read_same agree (set found rfl fun ok => (sound ok).sized)).bind_eq fun key _ _ => ?_
    exact .pure (follows_proceed agree _)
  | dataMap handle src size dst dataSize =>
    refine (setOf_same fun resolving => (resolved resolving).set handle rfl).bind fun t _ _ _ both => ?_
    obtain ⟨rfl, found⟩ := both
    refine (read_same agree (set found rfl fun ok s mem is => ((sound ok).sized s mem is).1)).bind_eq fun key _ _ => ?_
    split
    · exact .pure trivial
    · obtain ⟨mem, is⟩ := setFind_handle found
      refine write_next agree (fun ok => ?_) (fits rfl)
      rw [length_padded, length_filled, ((sound ok).sized _ mem is).2]
  | nat dest family addr ports flags => exact (isNat ⟨_, _, _, _, _, rfl⟩).elim
  | masquerade ports flags =>
    refine .of_never ((change_same _).bind_eq fun _ _ _ => ?_)
    exact (sourceNat_same env agree flags fun ok => (sound ok).reads).forget.bind_eq fun _ _ _ =>
      change_ends _ (by decide)
  | verdictMap handle src size =>
    refine (setOf_same fun resolving => (resolved resolving).set handle rfl).bind fun t _ _ atSet both => ?_
    obtain ⟨rfl, found⟩ := both
    refine (read_same agree (set found rfl fun ok => (sound ok).sized)).bind_eq fun key _ atKey => ?_
    split
    · exact .pure trivial
    next element isElement =>
      obtain ⟨mem, starts⟩ := setLookup_mem isElement
      refine applyVerdict_alike agree c ((congrArg snd (atKey.trans atSet)).trans there) fun resolving target => ?_
      exact (resolved resolving).element handle src size _ element target rfl found mem starts
  | verdict v =>
    exact applyVerdict_alike agree c there fun resolving target => (resolved resolving).verdict v target rfl

end

variable (env : Environment) {c : Chain}
variable {s s' : State} {jump : Chain → State → Outcome × State}

/-- The second state has entered no chain deeper than allowed since the first. -/
def Within (s s' : State) : Prop := ∀ n ∈ s'.depths, n ∈ s.depths ∨ n ≤ maxDepth

theorem Within.of_eq (same : s'.depths = s.depths) : Within s s' := fun _ mem => .inl (same ▸ mem)

theorem Within.trans (first : Within s s') (two : Within s' s'') : Within s s'' := by
  intro n mem
  rcases two n mem with old | low
  · exact first n old
  · exact .inr low

/-- A chain evaluation that ends sanely and not too deep. -/
def Behaves (s : State) (result : Outcome × State) : Prop := Sane result.1 ∧ Within s result.2

/-- How far expressions come without an end. -/
structure Reaches (resolves tame : Prop) (s s' : State) : Prop where
  within : resolves → Within s s'
  addresses : tame → s'.addresses = s.addresses

/-- What the evaluation of a chain is, if its references are resolved and if its rules are tame. -/
structure Evaluated (resolves tame : Prop) (s : State) (result : Outcome × State) : Prop where
  behaves : resolves → Behaves s result
  inside : tame → result.1 ≠ .fault
  back : tame → result.1 = .return_ → result.2.addresses = s.addresses

def RuleEnd.Evaluated (resolves tame : Prop) (s : State) : RuleEnd → Prop
  | .done outcome s' => Nft.Evaluated resolves tame s (outcome, s')
  | .missed s' => Reaches resolves tame s s'

theorem Reaches.of_fixed (same : s'.fixed = s.fixed) : Reaches resolves tame s s' :=
  ⟨fun _ => .of_eq (congrArg fst same), fun _ => congrArg snd same⟩

theorem Reaches.trans (first : Reaches resolves tame s s') (two : Reaches resolves tame s' s'') :
    Reaches resolves tame s s'' :=
  ⟨fun is => (first.within is).trans (two.within is), fun is => (two.addresses is).trans (first.addresses is)⟩

theorem Evaluated.after {res : Outcome × State} (ran : Evaluated resolves tame s' res)
    (reaches : Reaches resolves tame s s') : Evaluated resolves tame s res :=
  ⟨fun is => ⟨(ran.behaves is).1, (reaches.within is).trans (ran.behaves is).2⟩, ran.inside,
    fun is ret => (ran.back is ret).trans (reaches.addresses is)⟩

theorem RuleEnd.Evaluated.after {res : RuleEnd} (ran : res.Evaluated resolves tame s')
    (reaches : Reaches resolves tame s s') : res.Evaluated resolves tame s := by
  cases res with
  | done outcome final => exact Nft.Evaluated.after ran reaches
  | missed final => exact reaches.trans ran

theorem Reaches.coherent (reaches : Reaches resolves tame s s') (good : tame → s.packet.Coherent) (is : tame) :
    s'.packet.Coherent := by
  obtain ⟨source, dest⟩ := mk.inj (reaches.addresses is)
  unfold Packet.Coherent
  rw [source, dest]
  exact good is

section

variable (jumps : ∀ d, (resolves → leads d) → ∀ s, (tame → s.packet.Coherent) → Evaluated resolves tame s (jump d s))

include jumps

/-- The expressions of a rule end the same way for all registers that agree on what is known. -/
theorem evaluateRule_alike (i j : Nat) {exprs : List Expression}
    (resolved : resolves → ∀ e ∈ exprs, Resolved f c leads e) (sound : tame → Disciplined f known exprs)
    (agree : Agree tame known r r') (good : tame → s.packet.Coherent) :
    evaluateRule env f c jump i j exprs r s = evaluateRule env f c jump i j exprs r' s ∧
      (evaluateRule env f c jump i j exprs r s).Evaluated resolves tame s := by
  induction exprs generalizing j known r r' s with
  | nil => exact ⟨rfl, .of_fixed rfl⟩
  | cons e rest ih =>
    have here :=
      evaluateExpression_alike env c i j (fun is => resolved is e mem_cons_self) (fun is => (sound is).1) agree good
    have later := fun is e mem => resolved is e (mem_cons_of_mem _ mem)
    rcases here.runs with ⟨a, b, t, one, two, same, follows⟩ | ⟨outcome, t, one, two, same, ends⟩
    · have got : Reaches resolves tame s t := .of_fixed same
      simp only [evaluateRule, one, two]
      cases a with
      | miss =>
        cases b with
        | miss => exact ⟨rfl, got⟩
        | next _ | call _ _ _ => exact follows.elim
      | next w =>
        cases b with
        | next w' =>
          obtain ⟨eq, ran⟩ := ih (j + 1) later (fun is => (sound is).2) follows (got.coherent good)
          exact ⟨eq, ran.after got⟩
        | miss | call _ _ _ => exact follows.elim
      | call goto target w =>
        cases b with
        | miss | next _ => exact follows.elim
        | call goto' target' w' =>
          obtain ⟨rfl, rfl, isLed, agree⟩ := follows
          have called := (jumps target isLed t (got.coherent good)).after got
          cases run : jump target t with
          | mk outcome final =>
            rw [run] at called
            cases outcome with
            | return_ =>
              have back : Reaches resolves tame s final :=
                ⟨fun is => (called.behaves is).2, fun is => called.back is rfl⟩
              cases goto with
              | true =>
                simp only [run, if_true]
                exact ⟨trivial, called⟩
              | false =>
                obtain ⟨eq, ran⟩ := ih (j + 1) later (fun is => (sound is).2) agree (back.coherent good)
                simp only [run, false_eq_true, if_false]
                exact ⟨eq, ran.after back⟩
            | drop | accept | error _ | fault =>
              simp only [run]
              exact ⟨trivial, called⟩
    · simp only [evaluateRule, one, two]
      exact ⟨trivial, fun is => ⟨ends.sane is, .of_eq same⟩, ends.inside, ends.back⟩

theorem evaluateRules_evaluated (i : Nat)
    {rules : List Rule}
    (known : resolves → ∀ rule ∈ rules, rule.chain = c.handle → ∀ e ∈ rule.expressions, Resolved f c leads e)
    (sound : tame → ∀ rule ∈ rules, Disciplined f 0 rule.expressions) (good : tame → s.packet.Coherent) :
    Evaluated resolves tame s (evaluateRules env f c jump i rules s) := by
  induction rules generalizing i s with
  | nil => exact ⟨fun _ => ⟨show Sane .return_ by decide, .of_eq rfl⟩, nofun, fun _ _ => rfl⟩
  | cons rule rest ih =>
    have goes := fun i s => ih (s := s) i (fun is rule mem => known is rule (.tail _ mem))
      fun is rule mem => sound is rule (.tail _ mem)
    rw [evaluateRules]
    split
    · exact goes _ s good
    next ofChain =>
      have ran := (evaluateRule_alike env jumps i 0 (fun is => known is rule (.head _) (not_not.mp ofChain))
        (fun is => sound is rule (.head _)) (.refl (r := fun _ => 0)) good).2
      split
      next ended =>
        rw [ended] at ran
        exact ran
      next t ended =>
        rw [ended] at ran
        exact (goes (i + 1) t (Reaches.coherent ran good)).after ran

end

/-- The rules of a ruleset all keep to what is known. -/
def AllDisciplined (f : NetworkFilter) : Prop := ∀ rule ∈ f.rules, Disciplined f 0 rule.expressions

end Shroot.Nft
