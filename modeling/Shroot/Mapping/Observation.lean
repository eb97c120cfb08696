import Shroot.General.Checks
import Shroot.Errno

namespace Shroot.Mapping

open General List

variable {v : MappingRecord} {position count : Nat}

abbrev UINT64_MAX : BitVec 64 := 0xffffffffffffffff

def makedev (major minor : BitVec 32) : BitVec 64 :=
  (major &&& 0xfffff000).setWidth 64 <<< 32 ||| (major &&& 0xfff).setWidth 64 <<< 8 |||
    (minor &&& 0xffffff00).setWidth 64 <<< 12 ||| (minor &&& 0xff).setWidth 64

structure MappingSource where
  device : BitVec 64
  inode : BitVec 64

/-- `struct md_mapping_record`. `md_mapping_parse` refuses an empty range. -/
structure MappingRecord where
  first : BitVec 64
  end_ : BitVec 64
  offset : BitVec 64
  inode : BitVec 64
  major : BitVec 32
  minor : BitVec 32
  shared : Bool
  nonempty : first < end_

/-- What a descriptor gives: the answer to the seek, then records, then a failure or the end. -/
structure MappingReader where
  fd : Int32
  seek : Except Errno Unit := .ok ()
  records : List MappingRecord
  failure : Option Errno := none

section

variable (source : MappingSource) (address size offset : BitVec 64) (failure : Option Errno)

/-- The loop of `md_mapping_observe` from a cursor. -/
def observeFrom : BitVec 64 → List MappingRecord → Except Errno Bool
  | _, [] => failure.elim (.ok false) .error
  | cursor, v :: rest =>
    if v.first > cursor then .ok false
    else if v.end_ ≤ cursor then observeFrom cursor rest
    else if v.inode ≠ source.inode ∨ makedev v.major v.minor ≠ source.device ∨ v.shared = false ∨
        v.offset > UINT64_MAX - (cursor - v.first) ∨
          v.offset + (cursor - v.first) ≠ offset + cursor - address then .ok false
    else if v.end_ ≥ address + size then .ok true
    else observeFrom v.end_ rest

/-- `md_mapping_observe`, where 1 is true and 0 is false. -/
def mappingObserve (reader : MappingReader) : Option MappingSource → Except Errno Bool
  | none => .error .EINVAL
  | some source => do
    failIf (reader.fd < 0 ∨ size = 0 ∨ address > UINT64_MAX - size ∨ offset > UINT64_MAX - size) .EINVAL
    reader.seek
    observeFrom source address size offset reader.failure address reader.records

end

/-- A shared mapping of the source that has a byte of it at an address. -/
structure MappingRecord.Backs (m : MappingRecord) (source : MappingSource) (x position : Nat) : Prop where
  low : m.first.toNat ≤ x
  high : x < m.end_.toNat
  inode : m.inode = source.inode
  device : makedev m.major m.minor = source.device
  shared : m.shared = true
  offset : m.offset.toNat + (x - m.first.toNat) = position

/-- Every byte of a range of addresses is backed, one after the other. -/
def Backed (source : MappingSource) (mappings : List MappingRecord) (x position count : Nat) : Prop :=
  ∀ i < count, ∃ m ∈ mappings, m.Backs source (x + i) (position + i)

section

variable {source : MappingSource} {rest : List MappingRecord} {x : Nat}

theorem backed_skip (past : v.end_.toNat ≤ x) :
    Backed source (v :: rest) x position count ↔ Backed source rest x position count := by
  refine forall₂_congr fun i _ => ?_
  simp only [mem_cons, exists_eq_or_imp]
  refine or_iff_right fun backs => ?_
  have high := backs.high
  omega

variable (later : ∀ m ∈ rest, v.end_ ≤ m.first) (before : x < v.end_.toNat)

include later before

theorem backs_of_mem {m : MappingRecord} (mem : m ∈ v :: rest) (backs : m.Backs source x position) :
    v.Backs source x position := by
  rcases mem_cons.mp mem with rfl | mem
  · exact backs
  · have above := later m mem
    have low := backs.low
    bv_omega

/-- A mapping that backs one byte backs those up to its end, and the later mappings go on from there. -/
theorem backed_join (some : 0 < count) : Backed source (v :: rest) x position count ↔ v.Backs source x position ∧
    Backed source rest v.end_.toNat (position + (v.end_.toNat - x)) (count - (v.end_.toNat - x)) := by
  constructor
  · intro backed
    constructor
    · obtain ⟨m, mem, backs⟩ := backed 0 some
      exact backs_of_mem later before mem backs
    · intro i bound
      obtain ⟨m, mem, backs⟩ := backed (v.end_.toNat - x + i) (by omega)
      rcases mem_cons.mp mem with rfl | mem
      · have high := backs.high
        omega
      · refine ⟨m, mem, ?_⟩
        convert backs using 1 <;> omega
  · rintro ⟨first, backed⟩ i bound
    by_cases inside : x + i < v.end_.toNat
    · have low := first.low
      have same := first.offset
      exact ⟨v, mem_cons_self, by omega, inside, first.inode, first.device, first.shared, by omega⟩
    · obtain ⟨m, mem, backs⟩ := backed (x + i - v.end_.toNat) (by omega)
      refine ⟨m, mem_cons_of_mem _ mem, ?_⟩
      convert backs using 1 <;> omega

end

section

variable {source : MappingSource} {address size offset cursor : BitVec 64}

theorem backs_iff (low : v.first ≤ cursor) (high : cursor < v.end_) (new : address ≤ cursor)
    (fits : offset.toNat + (cursor.toNat - address.toNat) < 2 ^ 64) :
    v.Backs source cursor.toNat (offset.toNat + (cursor.toNat - address.toNat)) ↔
      ¬ (v.inode ≠ source.inode ∨ makedev v.major v.minor ≠ source.device ∨ v.shared = false ∨
        v.offset > UINT64_MAX - (cursor - v.first) ∨ v.offset + (cursor - v.first) ≠ offset + cursor - address) := by
  have offsets : v.offset.toNat + (cursor.toNat - v.first.toNat) = offset.toNat + (cursor.toNat - address.toNat) ↔
      ¬ (v.offset > UINT64_MAX - (cursor - v.first) ∨ v.offset + (cursor - v.first) ≠ offset + cursor - address) := by
    bv_omega
  constructor
  · rintro ⟨-, -, inode, device, shared, same⟩
    simpa [inode, device, shared] using offsets.mp same
  · intro good
    simp only [not_or, ne_eq, not_not, Bool.not_eq_false] at good offsets
    exact ⟨by bv_omega, by bv_omega, good.1, good.2.1, good.2.2.1, offsets.mpr good.2.2.2⟩

/-- The answer is right, or there is a failure to answer. -/
def Right (failed : Errno → Prop) (backed : Prop) : Except Errno Bool → Prop
  | .ok answer => answer = true ↔ backed
  | .error e => failed e

theorem observeFrom_right {failure : Option Errno} {records unread : List MappingRecord} {failed : Errno → Prop}
    (ascending : (records ++ unread).Pairwise (·.end_ ≤ ·.first)) (read : failure = none → unread = [])
    (fails : ∀ e, failure = some e → failed e) (addresses : address.toNat + size.toNat < 2 ^ 64)
    (offsets : offset.toNat + size.toNat < 2 ^ 64) (new : address ≤ cursor)
    (place : position = offset.toNat + (cursor.toNat - address.toNat))
    (left : cursor.toNat + count = address.toNat + size.toNat) (some : 0 < count) :
    Right failed (Backed source (records ++ unread) cursor.toNat position count)
      (observeFrom source address size offset failure cursor records) := by
  induction records generalizing cursor position count with
  | nil =>
    cases failure with
    | some e => exact fails e rfl
    | none =>
      rw [read rfl]
      refine ⟨nofun, fun backed => ?_⟩
      obtain ⟨m, mem, -⟩ := backed 0 some
      cases mem
  | cons v rest ih =>
    rw [cons_append] at ascending ⊢
    obtain ⟨later, ascending⟩ := pairwise_cons.mp ascending
    have nonempty := v.nonempty
    unfold observeFrom
    by_cases gap : v.first > cursor
    · rw [if_pos gap]
      refine ⟨nofun, fun backed => ?_⟩
      obtain ⟨m, mem, backs⟩ := backed 0 some
      have low := (backs_of_mem later (by bv_omega) mem backs).low
      bv_omega
    have low := BitVec.not_lt.mp gap
    by_cases past : v.end_ ≤ cursor
    · rw [if_neg gap, if_pos past, backed_skip past]
      exact ih ascending new place left some
    have high := BitVec.not_le.mp past
    rw [if_neg gap, if_neg past, backed_join later high some, place, backs_iff low high new (by omega)]
    split
    next bad => exact ⟨nofun, fun backed => absurd bad backed.1⟩
    next good =>
      rw [and_iff_right good]
      split
      next last => exact ⟨fun _ i bound => by bv_omega, fun _ => rfl⟩
      next last => exact ih ascending (by bv_omega) (by bv_omega) (by bv_omega) (by bv_omega)

/-- A range that is not empty is seen as what it is. -/
theorem mappingObserve_right {reader : MappingReader} (opened : 0 ≤ reader.fd) {mappings : List MappingRecord}
    (ascending : mappings.Pairwise (·.end_ ≤ ·.first)) (reads : reader.records <+: mappings)
    (whole : reader.failure = none → reader.records = mappings) (source : MappingSource) (range : size ≠ 0)
    (addresses : address.toNat + size.toNat < 2 ^ 64) (offsets : offset.toNat + size.toNat < 2 ^ 64) :
    Right (fun e => reader.seek = .error e ∨ reader.failure = some e)
      (Backed source mappings address.toNat offset.toNat size.toNat)
      (mappingObserve address size offset reader (some source)) := by
  obtain ⟨unread, rfl⟩ := reads
  have good : ¬ (reader.fd < 0 ∨ size = 0 ∨ address > UINT64_MAX - size ∨ offset > UINT64_MAX - size) := by
    rintro (closed | empty | wraps | wraps)
    · exact absurd opened (Int32.not_le.mpr closed)
    · exact range empty
    · bv_omega
    · bv_omega
  simp only [mappingObserve, failIf, if_neg good, ok_bind]
  cases seek : reader.seek with
  | error e => exact .inl rfl
  | ok _ =>
    exact observeFrom_right ascending (fun ended => by simpa using whole ended) (fun e => .inr) addresses offsets
      (BitVec.le_refl _) (by omega) rfl (by bv_omega)

end

/-- Two mappings of a file that meet. -/
def twoPages : MappingReader where
  fd := 3
  records := [⟨0x1000, 0x2000, 0, 7, 8, 1, true, by decide⟩, ⟨0x2000, 0x4000, 0x1000, 7, 8, 1, true, by decide⟩]

theorem twoPages_observed : Backed ⟨0x801, 7⟩ twoPages.records 0x1800 0x800 0x1000 :=
  (@mappingObserve_right 0x1800 0x1000 0x800 twoPages (by decide) _ (by decide) prefix_rfl (fun _ => rfl)
    ⟨0x801, 7⟩ (by decide)
    (by decide) (by decide)).mp rfl

/-- A range without bytes has none that is not backed, but it is refused. -/
theorem emptyRange_refused : Backed ⟨0x801, 7⟩ twoPages.records 0x1800 0x800 0 ∧
    mappingObserve 0x1800 0 0x800 twoPages (some ⟨0x801, 7⟩) = .error .EINVAL := ⟨nofun, rfl⟩

end Shroot.Mapping
