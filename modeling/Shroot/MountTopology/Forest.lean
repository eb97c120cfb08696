import Shroot.General.Checks
import Shroot.Errno
import Shroot.General.Ancestry

namespace Shroot

open General Function

def fsMountsMax : Nat := 4096

/-- A node's entry in the `pass` array: `UINT_MAX`, `UINT_MAX-1` while its chain is
open, or its scan pass. -/
inductive Pass where
  | unset
  | visiting
  | at (pass : Nat)
  deriving DecidableEq

def Pass.value : Pass → Nat
  | .unset => 4294967295
  | .visiting => 4294967294
  | .at pass => pass

/-- The arrays the forest visit fills. -/
structure Scan where
  pass : Nat → Pass
  offsets : Nat → Nat

def Scan.start : Scan where
  pass _ := .unset
  offsets _ := 0

variable (parents : List Nat)

/-- One-based parent of a node, zero where the node has none. -/
def parentOf (node : Nat) : Nat := parents.getD node 0

/-- The inner loop that opens unvisited ancestors. The chain holds them, the last one opened first. -/
def openChain (parents : List Nat) : Nat → (Nat → Pass) → Nat → List Nat → (Nat → Pass) × List Nat
  | 0, pass, _, chain => (pass, chain)
  | fuel + 1, pass, next, chain =>
    if pass next = .unset then
      if parentOf parents next = 0 then (update pass next .visiting, next :: chain)
      else openChain parents fuel (update pass next .visiting) (parentOf parents next - 1) (next :: chain)
    else (pass, chain)

def nodePass (pass : Nat → Pass) (node : Nat) : Nat :=
  if parentOf parents node = 0 then 0
  else (pass (parentOf parents node - 1)).value + if node < parentOf parents node - 1 then 1 else 0

/-- The inner loop that closes a chain from its top ancestor down. -/
def closeChain (parents : List Nat) : Scan → List Nat → Except Errno Scan
  | scan, [] => .ok scan
  | scan, node :: rest => do
    failIf (parentOf parents node ≠ 0 ∧ scan.pass (parentOf parents node - 1) = .visiting) .ELOOP
    let pass := nodePass parents scan.pass node
    let closed : Scan :=
      { pass := update scan.pass node (.at pass)
        offsets := update scan.offsets (pass + 1) (scan.offsets (pass + 1) + 1) }
    closeChain parents closed rest

def visitNode (scan : Scan) (node : Nat) : Except Errno Scan :=
  if scan.pass node = .unset then
    let opened := openChain parents (parents.length + 1) scan.pass node []
    closeChain parents { scan with pass := opened.1 } opened.2
  else .ok scan

/-- Bucket the nodes stably by pass. -/
def bucketOrder (count : Nat) (scan : Scan) : List Nat :=
  let sums := (List.range' 1 (count - 1)).foldl
    (fun offsets i => update offsets i (offsets i + offsets (i - 1))) scan.offsets
  let placed := (List.range count).foldl
    (fun (state : (Nat → Nat) × (Nat → Nat)) i =>
      let bucket := (scan.pass i).value
      (update state.1 bucket (state.1 bucket + 1), update state.2 (state.1 bucket) i))
    (sums, fun _ => 0)
  (List.range count).map placed.2

def mountTopologyOrder : Except Errno (List Nat) := do
  failIf (parents.length > fsMountsMax + 1) .EINVAL
  failIf (∃ node ∈ List.range parents.length,
    parentOf parents node > parents.length ∨ parentOf parents node = node + 1) .EINVAL
  let scan ← (List.range parents.length).foldlM (visitNode parents) Scan.start
  return bucketOrder parents.length scan

/-- The parent link of a node, as the array spells it. -/
def parentLink (node : Nat) : Option Nat := if parentOf parents node = 0 then none else some (parentOf parents node - 1)

open List

variable {parents : List Nat}

/-- Every numbered node continues its parent's number. -/
def Settled (parents : List Nat) (pass : Nat → Pass) : Prop :=
  ∀ node number, pass node = .at number → parentOf parents node ≠ 0 →
    ∃ above, pass (parentOf parents node - 1) = .at above ∧
      number = above + if node < parentOf parents node - 1 then 1 else 0

/-- An open chain, ready to be closed from its head. -/
structure OpenChain (parents : List Nat) (pass : Nat → Pass) (chain : List Nat) : Prop where
  nodup : chain.Nodup
  visiting : ∀ node ∈ chain, pass node = .visiting
  linked : chain.IsChain fun up child => parentOf parents child = up + 1
  top : ∀ node ∈ chain.head?, parentOf parents node ≠ 0 → pass (parentOf parents node - 1) ≠ .unset

theorem settled_number {pass : Nat → Pass} {node num : Nat} (done : Settled parents pass)
    (fresh : ∀ old, pass node ≠ .at old)
    (parent : parentOf parents node ≠ 0 → ∃ above, pass (parentOf parents node - 1) = .at above ∧
      num = above + if node < parentOf parents node - 1 then 1 else 0) :
    Settled parents (update pass node (.at num)) := by
  intro other val marked linked
  have keeps : ∀ {up above}, pass up = .at above → update pass node (.at num) up = .at above := by
    intro up above upMarked
    have other : up ≠ node := by
      rintro rfl
      exact fresh above upMarked
    rw [update_of_ne other, upMarked]
  by_cases same : other = node
  · subst same
    rw [update_self, Pass.at.injEq] at marked
    obtain ⟨above, up, num⟩ := parent linked
    exact ⟨above, keeps up, by omega⟩
  · rw [update_of_ne same] at marked
    obtain ⟨above, up, num⟩ := done other val marked linked
    exact ⟨above, keeps up, num⟩

theorem closeChain_settled {chain : List Nat} {scan closed : Scan} (done : Settled parents scan.pass)
    (chained : OpenChain parents scan.pass chain) (run : closeChain parents scan chain = .ok closed) :
    Settled parents closed.pass ∧ (∀ node ∈ chain, ∃ number, closed.pass node = .at number) ∧
      ∀ node, node ∉ chain → closed.pass node = scan.pass node := by
  induction chain generalizing scan with
  | nil =>
    cases run
    exact ⟨done, by simp, fun _ _ => rfl⟩
  | cons head rest ih =>
    simp only [closeChain, failIf_bind_ok] at run
    obtain ⟨noLoop, run⟩ := run
    have opened := chained.visiting head (by simp)
    obtain ⟨fresh, nodup⟩ := nodup_cons.mp chained.nodup
    -- The head's parent was closed before: it is neither unvisited nor on this chain.
    have parent : parentOf parents head ≠ 0 → ∃ above, scan.pass (parentOf parents head - 1) = .at above ∧
        nodePass parents scan.pass head = above + if head < parentOf parents head - 1 then 1 else 0 := by
      intro linked
      have seen := chained.top head (by simp) linked
      cases up : scan.pass (parentOf parents head - 1) with
      | unset => exact absurd up seen
      | visiting => exact absurd ⟨linked, up⟩ noLoop
      | «at» above => exact ⟨above, rfl, by simp [nodePass, linked, up, Pass.value]⟩
    have tail : OpenChain parents (update scan.pass head (.at (nodePass parents scan.pass head))) rest := by
      refine ⟨nodup, fun node mem => ?_, ?_, fun node first linked => ?_⟩
      · have other : node ≠ head := by
          rintro rfl
          exact fresh mem
        rw [update_of_ne other]
        exact chained.visiting node (by simp [mem])
      · exact chained.linked.tail
      · cases rest with
        | nil => cases first
        | cons child rest =>
          obtain rfl : child = node := by simpa using first
          have link := (isChain_cons_cons.mp chained.linked).1
          simp [link]
    obtain ⟨new, marked, others⟩ := ih (settled_number done (by simp [opened]) parent) tail run
    refine ⟨new, fun node mem => ?_, fun node out => ?_⟩
    · rcases mem_cons.mp mem with rfl | inRest
      · exact ⟨_, by rw [others node fresh]; exact update_self ..⟩
      · exact marked node inRest
    · rw [others node (by aesop)]
      exact update_of_ne (by aesop) ..

theorem openChain_opens (fuel next : Nat) (pass : Nat → Pass) (chain : List Nat)
    (inRange : ∀ node, parentOf parents node ≤ parents.length) (nodup : chain.Nodup)
    (bounded : ∀ node ∈ chain, node < parents.length) (visiting : ∀ node, pass node = .visiting ↔ node ∈ chain)
    (linked : (next :: chain).IsChain (fun up child => parentOf parents child = up + 1))
    (start : next < parents.length) (enough : parents.length < chain.length + fuel) :
    let opened := openChain parents fuel pass next chain
    OpenChain parents opened.1 opened.2 ∧ (chain ⊆ opened.2) ∧ (pass next = .unset → next ∈ opened.2) ∧
      (∀ node, opened.1 node = .visiting ↔ node ∈ opened.2) ∧ ∀ node number, opened.1 node = .at number ↔
        pass node = .at number := by
  induction fuel generalizing next pass chain with
  | zero =>
    -- More open nodes than nodes: the fuel cannot run out.
    have fits : chain.length ≤ parents.length := by
      have subset : chain ⊆ List.range parents.length := fun node mem => mem_range.mpr (bounded node mem)
      simpa using (nodup.subperm subset).length_le
    omega
  | succ fuel ih =>
    by_cases unset : pass next = .unset
    · have out : next ∉ chain := by
        intro mem
        rw [(visiting next).mpr mem] at unset
        cases unset
      have visiting' : ∀ node, update pass next Pass.visiting node = .visiting ↔ node ∈ next :: chain := by
        intro node
        by_cases same : node = next
        · simp [same]
        · simp [same, visiting]
      have nums : ∀ node number, update pass next Pass.visiting node = .at number ↔ pass node = .at number := by
        intro node number
        by_cases same : node = next
        · simp [same, unset]
        · simp [same]
      by_cases terminal : parentOf parents next = 0
      · simp only [openChain, unset, terminal, if_true]
        refine ⟨⟨nodup_cons.mpr ⟨out, nodup⟩, fun node => (visiting' node).mpr, linked, ?_⟩,
          subset_cons_self _ _, fun _ => mem_cons_self, visiting', nums⟩
        intro node first isLinked
        obtain rfl : next = node := by simpa using first
        exact absurd terminal isLinked
      · simp only [openChain, unset, terminal, if_true, if_false]
        have step := inRange next
        obtain ⟨opened, grows, -, visits, numbers⟩ :=
          ih (parentOf parents next - 1) _ (next :: chain) (nodup_cons.mpr ⟨out, nodup⟩)
            (by simpa [start] using bounded) visiting'
            (isChain_cons_cons.mpr ⟨by omega, linked⟩) (by omega) (by simp only [length_cons]; omega)
        refine ⟨opened, fun node mem => grows (mem_cons_of_mem _ mem), fun _ => grows mem_cons_self, visits,
          fun node number => ?_⟩
        rw [numbers, nums]
    · rw [openChain, if_neg unset]
      refine ⟨⟨nodup, fun node => (visiting node).mpr, linked.tail, fun node first isLinked => ?_⟩,
        List.Subset.refl _, fun gone => absurd gone unset, visiting, fun _ _ => Iff.rfl⟩
      cases chain with
      | nil => cases first
      | cons child rest =>
        obtain rfl : child = node := by simpa using first
        have link := (isChain_cons_cons.mp linked).1
        simpa [link] using unset

/-- What the outer loop keeps: no chain stays open and the visited nodes are numbered. -/
structure Visited (parents : List Nat) (done : Nat) (pass : Nat → Pass) : Prop where
  settled : Settled parents pass
  closed : ∀ node, pass node ≠ .visiting
  numbered : ∀ node < done, ∃ number, pass node = .at number

theorem visitNode_visited {scan next : Scan} {node : Nat}
    (inRange : ∀ node, parentOf parents node ≤ parents.length) (bounded : node < parents.length)
    (seen : Visited parents node scan.pass) (run : visitNode parents scan node = .ok next) :
    Visited parents (node + 1) next.pass := by
  simp only [visitNode] at run
  split at run
  next unset =>
    obtain ⟨opened, -, started, visiting, nums⟩ := openChain_opens (parents.length + 1) node scan.pass []
      inRange nodup_nil (by simp) (by simp [seen.closed]) (isChain_singleton _) bounded (by simp)
    have done : Settled parents (openChain parents (parents.length + 1) scan.pass node []).1 := by
      intro other num marked linked
      obtain ⟨above, up, val⟩ := seen.settled other num ((nums _ _).mp marked) linked
      exact ⟨above, (nums _ _).mpr up, val⟩
    obtain ⟨new, marked, others⟩ := closeChain_settled done opened run
    refine ⟨new, fun other => ?_, fun other mem => ?_⟩
    · by_cases onChain : other ∈ (openChain parents (parents.length + 1) scan.pass node []).2
      · obtain ⟨num, val⟩ := marked other onChain
        simp [val]
      · rw [others other onChain]
        exact fun opened => onChain ((visiting other).mp opened)
    · by_cases onChain : other ∈ (openChain parents (parents.length + 1) scan.pass node []).2
      · exact marked other onChain
      · rw [others other onChain]
        rcases Nat.lt_succ_iff_lt_or_eq.mp mem with prior | rfl
        · obtain ⟨num, val⟩ := seen.numbered other prior
          exact ⟨num, (nums _ _).mpr val⟩
        · exact absurd (started unset) onChain
  next set =>
    cases run
    refine ⟨seen.settled, seen.closed, fun other mem => ?_⟩
    rcases Nat.lt_succ_iff_lt_or_eq.mp mem with prior | rfl
    · exact seen.numbered other prior
    · cases mark : scan.pass other with
      | unset => exact absurd mark set
      | visiting => exact absurd mark (seen.closed other)
      | «at» num => exact ⟨num, rfl⟩

theorem parentOf_beyond {node : Nat} (beyond : parents.length ≤ node) : parentOf parents node = 0 := by
  simp [parentOf, getD_eq_getElem?_getD, getElem?_eq_none beyond]

/-- An order is only produced for parent links without a cycle. -/
theorem mountTopologyOrder_acyclic {order : List Nat} (run : mountTopologyOrder parents = .ok order) :
    Acyclic (parentLink parents) := by
  simp only [mountTopologyOrder, failIf_bind_ok] at run
  obtain ⟨-, valid, run⟩ := run
  obtain ⟨scan, visits, -⟩ := bind_ok.mp run
  have fine : ∀ node, parentOf parents node ≤ parents.length ∧ parentOf parents node ≠ node + 1 := by
    intro node
    by_cases fits : node < parents.length
    · simp only [mem_range, not_exists, not_and, not_or] at valid
      have := valid node fits
      omega
    · simp [parentOf_beyond (Nat.not_lt.mp fits)]
  have seen : Visited parents parents.length scan.pass := by
    refine foldlM_range_ok (fun done (scan : Scan) => Visited parents done scan.pass) ?_ ?_ visits
    · exact ⟨by simp [Settled, Scan.start], by simp [Scan.start], by simp⟩
    · intro node scan next bounded held step
      exact visitNode_visited (fun node => (fine node).1) bounded held step
  -- A child has its parent's number and a larger index, or a larger number.
  refine not_transGen_of_rank (fun node => toLex ((scan.pass node).value, node)) fun child up link => ?_
  simp only [parentLink] at link
  split at link
  · cases link
  next linked =>
    have fits : child < parents.length := by
      by_contra beyond
      exact linked (parentOf_beyond (Nat.not_lt.mp beyond))
    obtain ⟨num, marked⟩ := seen.numbered child fits
    obtain ⟨above, upMarked, val⟩ := seen.settled child num marked linked
    obtain rfl : parentOf parents child - 1 = up := Option.some.inj link
    have other := (fine child).2
    rw [Prod.Lex.toLex_lt_toLex, marked, upMarked]
    simp only [Pass.value]
    split at val <;> omega

end Shroot
