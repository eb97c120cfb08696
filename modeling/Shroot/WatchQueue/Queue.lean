import Shroot.Errno
import Shroot.General.Checks
import Shroot.General.Image
import Shroot.General.Triples

namespace Shroot.WatchQueue

open General List Option

section

variable {q final : Queue}

def nameMax : Nat := 255

/-- An event as a watch reports it; the name is the bytes before its terminator. -/
structure Event where
  wd : Nat
  mask : Nat
  cookie : Nat
  name : Option (List UInt8)

/-- `struct inotify_event`. -/
def header (wd mask cookie len : Nat) : List UInt8 :=
  littleEndian 4 wd ++ littleEndian 4 mask ++ littleEndian 4 cookie ++ littleEndian 4 len

/-- The record of an event, its name padded with zeros. -/
def eventBytes (e : Event) : Except Errno (List UInt8) :=
  match e.name with
  | none => return header e.wd e.mask e.cookie 0
  | some name => do
    failIf (name.length > nameMax) .ENAMETOOLONG
    failIf (name = [] ∨ slash ∈ name) .EINVAL
    let padded := (name.length + 1 + 15) / 16 * 16
    return header e.wd e.mask e.cookie padded ++ name ++ replicate (padded - name.length) 0

/-- A record of the list; the queue has one of its own for an overflow. -/
inductive Record where
  | overflow
  | event (bytes : List UInt8)
  deriving DecidableEq

/-- `wd` is -1 and `mask` is `IN_Q_OVERFLOW` in the queue's own record. -/
def Record.bytes : Record → List UInt8
  | .overflow => header (2 ^ 32 - 1) 0x4000 0 0
  | .event bytes => bytes

def Record.size (r : Record) : Nat := r.bytes.length

/-- `struct md_watch_queue`, the records from head to tail, the length of the free list, and the bytes in the socket. -/
structure Queue where
  error : Option Errno
  limit : Nat
  count : Nat
  bytes : Nat
  records : List Record
  free : Nat
  overflowQueued : Bool
  reserved : Nat
  reservedBytes : Nat
  markers : Nat

def create (limit : Nat) : Queue := ⟨none, limit, 0, 0, [], 0, false, 0, 0, 0⟩

abbrev QueueM := EStateM Errno Queue

def failed : QueueM Unit := do
  match (← get).error with
  | some error => throw error
  | none => return ()

def signalReady (sent : Option Errno) : QueueM Unit := do
  match sent with
  | none => modify fun q => { q with markers := q.markers + 1 }
  | some error => modify fun q => { q with error := some error }
  failed

def Queue.push (q : Queue) (r : Record) : Queue :=
  { q with records := q.records ++ [r], count := q.count + 1, bytes := q.bytes + r.size }

def append (r : Record) (sent : Option Errno) : QueueM Unit := do
  if (← get).records = [] then signalReady sent
  modify fun q => q.push r

def overflow (sent : Option Errno) : QueueM Unit := do
  if (← get).overflowQueued then return ()
  append .overflow sent
  modify fun q => { q with overflowQueued := true }

/-- The last record is the same and in no lease. -/
def Queue.repeats (q : Queue) (bytes : List UInt8) : Prop :=
  q.reserved ≠ q.count ∧ (q.records.getLast?).map Record.bytes = some bytes

instance (q : Queue) (bytes : List UInt8) : Decidable (q.repeats bytes) := inferInstanceAs (Decidable (_ ∧ _))

/-- `md_watch_queue_emit`; `memory` is whether there would be some for a record. -/
def emit (e : Event) (memory : Bool) (sent : Option Errno) : QueueM Unit := do
  failed
  let bytes ← MonadExcept.ofExcept (eventBytes e)
  let q ← get
  if q.repeats bytes then return ()
  if q.count ≥ q.limit ∨ (q.free = 0 ∧ ¬ memory) then overflow sent
  else
    modify fun q => { q with free := q.free - 1 }
    tryCatch (append (.event bytes) sent) fun error => do
      modify fun q => { q with free := q.free + 1 }
      throw error

def fitting : Nat → List Record → List Record
  | _, [] => []
  | room, r :: rest => if r.size ≤ room then r :: fitting (room - r.size) rest else []

/-- `md_watch_queue_reserve`; `received` is whether the socket can be read. -/
def reserve (capacity : Nat) (buffer received : Bool) : QueueM (List UInt8) := do
  failed
  let q ← get
  rejectIf (q.reserved ≠ 0 ∨ q.records = []) .EAGAIN
  rejectIf (q.records.head?.any fun r => capacity < r.size) .EINVAL
  rejectIf (¬ buffer) .EFAULT
  let taken := fitting capacity q.records
  -- `drain_marker`
  if q.markers = 0 ∨ ¬ received then
    set { q with error := some Errno.EIO }
    throw Errno.EIO
  set { q with markers := q.markers - 1, reserved := taken.length, reservedBytes := (taken.map Record.size).sum }
  return taken.flatMap Record.bytes

/-- The loop of `md_watch_queue_complete`. -/
def release : Nat → Queue → Queue
  | 0, q => q
  | n + 1, q =>
    match q.records with
    | [] => q
    | .overflow :: rest => release n { q with records := rest, overflowQueued := false }
    | .event _ :: rest => release n { q with records := rest, free := q.free + 1 }

def complete (delivered : Bool) (sent : Option Errno) : QueueM Unit := do
  let q ← get
  set { q with reserved := 0, reservedBytes := 0 }
  if q.reserved = 0 then return ()
  if delivered then
    modify (release q.reserved)
    modify fun r => { r with count := r.count - q.reserved, bytes := r.bytes - q.reservedBytes }
    if (← get).records ≠ [] then signalReady sent
  else signalReady sent

inductive Call where
  | emit (e : Event) (memory : Bool) (sent : Option Errno)
  | reserve (capacity : Nat) (buffer received : Bool)
  | complete (delivered : Bool) (sent : Option Errno)

def happen (q : Queue) : Call → Queue
  | .emit e memory sent => leaves (emit e memory sent) q
  | .reserve capacity buffer received => leaves (reserve capacity buffer received) q
  | .complete delivered sent => leaves (complete delivered sent) q

def run (limit : Nat) (calls : List Call) : Queue := calls.foldl happen (create limit)

def Queue.appended (q : Queue) (r : Record) : Queue :=
  { q.push r with markers := if q.records = [] then q.markers + 1 else q.markers }

theorem signalReady_fine (fine : q.error = none) (sent : Option Errno) :
    Ensures q (fun _ final => final = { q with markers := q.markers + 1 }) (fun final => final.error ≠ none)
      (signalReady sent) := by
  cases sent with
  | none =>
    refine .modify_bind (.get_bind ?_)
    simp only [fine]
    exact .pure rfl
  | some e => exact .modify_bind (.get_bind (.throw (by simp)))

theorem append_fine (fine : q.error = none) (r : Record) (sent : Option Errno) :
    Ensures q (fun _ final => final = q.appended r) (fun final => final.error ≠ none) (append r sent) := by
  refine .get_bind ?_
  by_cases empty : q.records = []
  · rw [if_pos empty]
    refine (signalReady_fine fine sent).bind fun _ mid is => .modify ?_
    simp [is, Queue.appended, Queue.push, empty]
  · rw [if_neg empty]
    refine .modify ?_
    simp [Queue.appended, Queue.push, empty]

/-- There is no place for one more event, or no memory for it. -/
def Queue.full (q : Queue) (memory : Bool) : Prop := q.count ≥ q.limit ∨ (q.free = 0 ∧ ¬ memory)

/-- What an event does to a queue: it is the last record again, it is lost, or it is queued. -/
inductive Emitted (q : Queue) (memory : Bool) (bytes : List UInt8) : Queue → Prop
  | coalesced : q.repeats bytes → Emitted q memory bytes q
  | covered : q.full memory → q.overflowQueued = true → Emitted q memory bytes q
  | overflowed : q.full memory → q.overflowQueued = false →
      Emitted q memory bytes { q.appended .overflow with overflowQueued := true }
  | queued (free : Nat) : q.count < q.limit → Emitted q memory bytes { q.appended (.event bytes) with free := free }

theorem failed_fine (fine : q.error = none) : Ensures q (fun _ final => final = q) (fun _ => False) failed := by
  refine .get_bind ?_
  simp only [fine]
  exact .pure rfl

theorem emit_fine (fine : q.error = none) (e : Event) (memory : Bool) (sent : Option Errno) :
    Ensures q (fun _ final => ∃ bytes, eventBytes e = .ok bytes ∧ Emitted q memory bytes final)
      (fun final => final.error ≠ none ∨ final = q ∧ ∃ error, eventBytes e = .error error) (emit e memory sent) := by
  refine ((failed_fine fine).mono (fun _ _ is => is) fun _ never => never.elim).bind fun _ _ is => ?_
  rw [is]
  cases valid : eventBytes e with
  | error error => exact .inr ⟨rfl, error, rfl⟩
  | ok bytes =>
    refine .get_bind (.ite (fun repeats => .pure ⟨bytes, rfl, .coalesced repeats⟩) fun _ => ?_)
    refine .ite (fun full => .get_bind ?_) fun room => .modify_bind ?_
    · cases queued : q.overflowQueued with
      | true => exact .pure ⟨bytes, rfl, .covered full queued⟩
      | false =>
        refine ((append_fine fine .overflow sent).mono (fun _ _ is => is) fun _ bad => .inl bad).bind
          fun _ _ is => .modify ?_
        rw [is]
        exact ⟨bytes, rfl, .overflowed full queued⟩
    · have away := append_fine (q := { q with free := q.free - 1 }) fine (.event bytes) sent
      refine away.tryCatch (fun _ final is => ⟨bytes, rfl, ?_⟩) fun error _ bad => .modify_bind (.throw (.inl bad))
      rw [is]
      exact .queued (q.free - 1) (by omega)

theorem fitting_eq_take (room : Nat) (records : List Record) :
    fitting room records = records.take (fitting room records).length := by
  induction records generalizing room with
  | nil => rfl
  | cons r rest ih =>
    unfold fitting
    split
    · rw [length_cons, take_succ_cons, ← ih]
    · rfl

def Queue.leased (q : Queue) (n : Nat) : Queue :=
  { q with markers := q.markers - 1, reserved := n, reservedBytes := ((q.records.take n).map Record.size).sum }

theorem reserve_fine (fine : q.error = none) (capacity : Nat) (buffer received : Bool) :
    Ensures q
      (fun bytes final => q.reserved = 0 ∧ ∃ n, 0 < n ∧ n ≤ q.records.length ∧ final = q.leased n ∧
        bytes = (q.records.take n).flatMap Record.bytes)
      (fun final => final.error ≠ none ∨ final = q) (reserve capacity buffer received) := by
  refine ((failed_fine fine).mono (fun _ _ is => is) fun _ never => never.elim).bind fun _ _ is => ?_
  rw [is]
  refine .get_bind (.rejectIf_bind (.inr rfl) fun open_ => .rejectIf_bind (.inr rfl) fun small => ?_)
  refine .rejectIf_bind (.inr rfl) fun _ => .ite (fun _ => .set_bind (.throw (.inl (by simp)))) fun _ => ?_
  have take := fitting_eq_take capacity q.records
  refine .set_bind (.pure ⟨by omega, (fitting capacity q.records).length, ?_, ?_, ?_, ?_⟩)
  · cases there : q.records with
    | nil => exact absurd (.inr there) open_
    | cons r rest =>
      have fits : r.size ≤ capacity := by simpa [there] using small
      simp [fitting, fits]
  · have := congrArg length take
    rw [length_take] at this
    omega
  · rw [Queue.leased, ← take]
  · rw [← take]

/-- What is left of a queue when its first records have been delivered. -/
theorem release_eq (n : Nat) (q : Queue) :
    ∃ free, release n q =
      { q with records := q.records.drop n, free := free, overflowQueued := q.overflowQueued && decide (.overflow
        ∉ q.records.take n) } := by
  induction n generalizing q with
  | zero => exact ⟨q.free, by simp [release]⟩
  | succ n ih =>
    unfold release
    split
    next empty =>
      cases q
      simp_all
    next rest is =>
      obtain ⟨free, eq⟩ := ih { q with records := rest, overflowQueued := false }
      exact ⟨free, by simp [eq, is]⟩
    next bytes rest is =>
      obtain ⟨free, eq⟩ := ih { q with records := rest, free := q.free + 1 }
      exact ⟨free, by simp [eq, is]⟩

/-- What a queue keeps while nothing has failed. -/
structure Kept (q : Queue) : Prop where
  count : q.count = q.records.length
  limited : q.count ≤ q.limit + q.overflowQueued.toNat
  bytes : q.bytes = (q.records.map Record.size).sum
  overflow : q.records.count .overflow = q.overflowQueued.toNat
  reserved : q.reserved ≤ q.records.length
  reservedBytes : q.reservedBytes = ((q.records.take q.reserved).map Record.size).sum
  markers : q.markers = if q.records ≠ [] ∧ q.reserved = 0 then 1 else 0

theorem Kept.create (limit : Nat) : Kept (create limit) := by constructor <;> simp [WatchQueue.create]

section

variable (kept : Kept q)

include kept

theorem Kept.appended (r : Record) (flag : Bool) (free : Nat) (limited : q.count + 1 ≤ q.limit + flag.toNat)
    (overflow : (q.records ++ [r]).count .overflow = flag.toNat) :
    Kept { q.appended r with overflowQueued := flag, free := free } := by
  have reserved := kept.reserved
  refine ⟨?_, limited, ?_, overflow, ?_, ?_, ?_⟩
  · simp [Queue.appended, Queue.push, kept.count]
  · simp [Queue.appended, Queue.push, kept.bytes]
  · simp only [Queue.appended, Queue.push, length_append]
    omega
  · simp only [Queue.appended, Queue.push, take_append_of_le_length reserved]
    exact kept.reservedBytes
  · have markers := kept.markers
    by_cases empty : q.records = []
    · simp_all [Queue.appended, Queue.push]
    · simp_all [Queue.appended, Queue.push]

theorem Kept.emitted {memory : Bool} {bytes : List UInt8} (emitted : Emitted q memory bytes final) : Kept final := by
  have overflow := kept.overflow
  have limited := kept.limited
  cases emitted with
  | coalesced => exact kept
  | covered => exact kept
  | overflowed _ unqueued =>
    rw [unqueued] at overflow limited
    exact kept.appended .overflow true q.free (by simpa using limited) (by simp [overflow])
  | queued free room => exact kept.appended (.event bytes) q.overflowQueued free (by omega) (by simp [overflow])

theorem Kept.leased {n : Nat} (unreserved : q.reserved = 0) (some : 0 < n) (there : n ≤ q.records.length) :
    Kept (q.leased n) := by
  have markers := kept.markers
  have nonempty : q.records ≠ [] := by
    rintro empty
    simp [empty] at there
    omega
  refine ⟨kept.count, kept.limited, kept.bytes, kept.overflow, there, rfl, ?_⟩
  simp [Queue.leased, markers, unreserved, nonempty]
  omega

theorem Kept.delivered (some : q.reserved ≠ 0) (free : Nat) :
    Kept
      { q with
        records := q.records.drop q.reserved, free := free, reserved := 0, reservedBytes := 0
        overflowQueued := q.overflowQueued && decide (.overflow ∉ q.records.take q.reserved)
        count := q.count - q.reserved, bytes := q.bytes - q.reservedBytes
        markers := if q.records.drop q.reserved ≠ [] then q.markers + 1 else q.markers } := by
  have count := kept.count
  have limited := kept.limited
  have overflow := kept.overflow
  have markers : q.markers = 0 := by rw [kept.markers, if_neg fun both => some both.2]
  have split := congrArg (List.count .overflow) (take_append_drop q.reserved q.records)
  rw [count_append] at split
  refine ⟨?_, ?_, ?_, ?_, by simp, by simp, ?_⟩
  · simp only [length_drop]
    omega
  · have := Bool.toNat_le q.overflowQueued
    dsimp only
    omega
  · have sizes := congrArg (fun l => (l.map Record.size).sum) (take_append_drop q.reserved q.records)
    simp only [map_append, sum_append] at sizes
    dsimp only
    rw [kept.bytes, kept.reservedBytes, ← sizes]
    omega
  · by_cases inside : .overflow ∈ q.records.take q.reserved
    · have := count_pos_iff.mpr inside
      have := Bool.toNat_le q.overflowQueued
      simp only [inside, not_true, decide_false, Bool.and_false, Bool.toNat_false]
      omega
    · have := count_eq_zero.mpr inside
      simp only [inside, not_false_eq_true, decide_true, Bool.and_true]
      omega
  · simp [markers]

theorem Kept.returned (some : q.reserved ≠ 0) :
    Kept { q with reserved := 0, reservedBytes := 0, markers := q.markers + 1 } := by
  have reserved := kept.reserved
  have nonempty : q.records ≠ [] := by
    rintro empty
    simp [empty] at reserved
    omega
  refine ⟨kept.count, kept.limited, kept.bytes, kept.overflow, by simp, by simp, ?_⟩
  simp [kept.markers, nonempty, some]

theorem complete_fine (fine : q.error = none) (delivered : Bool) (sent : Option Errno) :
    Ensures q
      (fun _ final => Kept final ∧ final.reserved = 0 ∧
        final.records = if delivered then q.records.drop q.reserved else q.records)
      (fun final => final.error ≠ none) (complete delivered sent) := by
  refine .get_bind (.set_bind (.ite (fun none => .pure ?_) fun some => .ite (fun is => ?_) fun is => ?_))
  · have zero : q.reservedBytes = 0 := by simp [kept.reservedBytes, none]
    have same : ({ q with reserved := 0, reservedBytes := 0 } : Queue) = q := by
      cases q
      simp_all
    simpa [same, none] using kept
  · obtain ⟨free, released⟩ := release_eq q.reserved { q with reserved := 0, reservedBytes := 0 }
    have new := kept.delivered some free
    refine .modify_bind (.modify_bind (.get_bind ?_))
    simp only [released, is, if_true] at new ⊢
    refine .ite (fun more => (signalReady_fine (by exact fine) sent).mono (fun _ final ready => ?_) fun _ bad => bad)
      fun last => .pure ?_
    · rw [if_pos more] at new
      rw [ready]
      exact ⟨new, rfl, rfl⟩
    · rw [if_neg last] at new
      exact ⟨new, rfl, rfl⟩
  · refine (signalReady_fine (by exact fine) sent).mono (fun _ final ready => ?_) fun _ bad => bad
    rw [ready]
    exact ⟨kept.returned some, rfl, by simp [is]⟩

end

theorem signalReady_bad (bad : q.error ≠ none) (sent : Option Errno) : (leaves (signalReady sent) q).error ≠ none := by
  obtain ⟨e, is⟩ := ne_none_iff_exists'.mp bad
  cases sent <;> simp [signalReady, failed, is]

theorem happen_bad (bad : q.error ≠ none) (call : Call) : (happen q call).error ≠ none := by
  obtain ⟨error, is⟩ := ne_none_iff_exists'.mp bad
  cases call with
  | emit e memory sent => simp [happen, emit, failed, is]
  | reserve capacity buffer received => simp [happen, reserve, failed, is]
  | complete delivered sent =>
    obtain ⟨free, released⟩ := release_eq q.reserved { q with reserved := 0, reservedBytes := 0 }
    simp only [happen, complete, leaves_get_bind, leaves_set_bind]
    split
    · exact bad
    · split
      · simp only [leaves_modify_bind, leaves_get_bind, released]
        split
        · exact signalReady_bad (by exact bad) sent
        · exact bad
      · exact signalReady_bad (by exact bad) sent

/-- What is kept unless something has failed. -/
def Sound (q : Queue) : Prop := q.error = none → Kept q

theorem happen_sound (sound : Sound q) (call : Call) : Sound (happen q call) := by
  by_cases fine : q.error = none
  · have kept := sound fine
    cases call with
    | emit e memory sent =>
      have new : Ensures q (fun _ => Sound) Sound (emit e memory sent) := by
        refine (emit_fine fine e memory sent).mono (fun _ _ ⟨_, _, emitted⟩ _ => kept.emitted emitted) ?_
        rintro final (bad | ⟨rfl, -⟩)
        · exact fun fine => absurd fine bad
        · exact sound
      exact new.leaves
    | reserve capacity buffer received =>
      have new : Ensures q (fun _ => Sound) Sound (reserve capacity buffer received) := by
        refine (reserve_fine fine capacity buffer received).mono (fun _ _ ⟨unreserved, _, pos, there, is, _⟩ _ => ?_) ?_
        · exact is ▸ kept.leased unreserved pos there
        · rintro final (bad | rfl)
          · exact fun fine => absurd fine bad
          · exact sound
      exact new.leaves
    | complete delivered sent =>
      have new : Ensures q (fun _ => Sound) Sound (complete delivered sent) :=
        (complete_fine kept fine delivered sent).mono (fun _ _ new _ => new.1) fun _ bad fine => absurd fine bad
      exact new.leaves
  · exact fun ended => absurd ended (happen_bad fine call)

theorem run_sound (limit : Nat) (calls : List Call) : Sound (run limit calls) := by
  induction calls using reverseRecOn with
  | nil => exact fun _ => .create limit
  | append_singleton old call ih =>
    rw [run, foldl_append]
    exact happen_sound ih call

/-- A queue whose socket has never failed, after any calls. -/
theorem queue_kept (limit : Nat) (calls : List Call) (fine : (run limit calls).error = none) : let q := run limit calls
    q.count = q.records.length ∧ q.count ≤ q.limit + 1 ∧ q.bytes = (q.records.map Record.size).sum ∧
    q.records.count .overflow = (if q.overflowQueued then 1 else 0) ∧
    q.reserved ≤ q.records.length ∧ q.reservedBytes = ((q.records.take q.reserved).map Record.size).sum ∧
    q.markers = if q.records ≠ [] ∧ q.reserved = 0 then 1 else 0 := by
  intro q
  have kept := run_sound limit calls fine
  have limited := kept.limited
  have one := Bool.toNat_le (run limit calls).overflowQueued
  refine ⟨kept.count, limited.trans (Nat.add_le_add_left one _), kept.bytes, ?_, kept.reserved, kept.reservedBytes,
    kept.markers⟩
  rw [kept.overflow]
  cases q.overflowQueued <;> rfl

/-- A queue for two records, which are leased when an event is lost. -/
def overflowing : List Call :=
  [.emit ⟨1, 2, 0, none⟩ true none, .emit ⟨1, 4, 0, none⟩ true none, .emit ⟨1, 4, 0, none⟩ true none,
    .reserve 64 true true, .emit ⟨1, 8, 0, none⟩ true none, .complete false none]

theorem queue_kept_overflowing :
    (run 2 overflowing).error = none ∧ (run 2 overflowing).overflowQueued = true ∧ (run 2 overflowing).markers = 1 :=
  have fine : (run 2 overflowing).error = none := by decide
  ⟨fine, by decide, (queue_kept 2 overflowing fine).2.2.2.2.2.2.trans (by decide)⟩

end

/-- An event that was emitted, with the queue it came to, whether there was memory, and how many records had been
delivered by then. -/
structure Emission where
  bytes : List UInt8
  queue : Queue
  memory : Bool
  delivered : Nat

/-- A queue with what readers have got from it. A lease is the buffer of the last reservation. -/
structure Trace where
  queue : Queue
  lease : List UInt8
  deliveries : List (List UInt8)
  delivered : Nat
  emissions : List Emission

def Trace.next (t : Trace) (call : Call) : Trace :=
  let after := { t with queue := happen t.queue call }
  match call with
  | .emit e memory _ =>
    match t.queue.error, eventBytes e with
    | none, .ok bytes => { after with emissions := t.emissions ++ [⟨bytes, t.queue, memory, t.delivered⟩] }
    | _, _ => after
  | .reserve capacity buffer received =>
    match gives (reserve capacity buffer received) t.queue with
    | .ok bytes => { after with lease := bytes }
    | .error _ => after
  | .complete delivered _ =>
    if delivered ∧ t.queue.reserved ≠ 0 then
      { after with deliveries := t.deliveries ++ [t.lease], delivered := t.delivered + t.queue.reserved }
    else after

def trace (limit : Nat) (calls : List Call) : Trace := calls.foldl Trace.next ⟨create limit, [], [], 0, []⟩

@[simp] theorem next_queue (t : Trace) (call : Call) : (t.next call).queue = happen t.queue call := by
  cases call <;> unfold Trace.next <;> dsimp only <;> split <;> rfl

/-- What becomes of an event; the places are among all records that were ever queued. -/
inductive Fate where
  | queued
  | coalesced (place : Nat)
  | lost (place : Nat)

/-- A coalesced event is the record that was last then and in no lease. A lost one found no place or no memory, and
there is an overflow that was not delivered by then. -/
def Emission.Explained (queued : List Record) (e : Emission) : Fate → Prop
  | .queued => True
  | .coalesced place =>
    place + 1 = e.delivered + e.queue.records.length ∧ e.queue.reserved < e.queue.records.length ∧
      (queued[place]?).map Record.bytes = some e.bytes
  | .lost place => e.queue.full e.memory ∧ e.delivered ≤ place ∧ queued[place]? = some .overflow

def Record.event? : Record → Option (List UInt8)
  | .overflow => none
  | .event bytes => some bytes

def keptEvent : Emission × Fate → Option (List UInt8)
  | (e, .queued) => some e.bytes
  | _ => none

/-- Everything that was emitted and delivered, from the records that were ever queued and the fates of the events. -/
structure Accounted (t : Trace) (queued : List Record) (fates : List Fate) : Prop where
  delivered : t.delivered ≤ queued.length
  bytes : t.deliveries.flatten = (queued.take t.delivered).flatMap Record.bytes
  waiting : t.queue.records = queued.drop t.delivered
  events : queued.filterMap Record.event? = (t.emissions.zip fates).filterMap keptEvent
  explained : List.Forall₂ (Emission.Explained queued) t.emissions fates

/-- The account while a lease is open. -/
structure Leased (t : Trace) (queued : List Record) (fates : List Fate) : Prop extends Accounted t queued fates where
  lease : t.queue.reserved ≠ 0 → t.lease = (t.queue.records.take t.queue.reserved).flatMap Record.bytes

variable {t : Trace} {queued : List Record} {fates : List Fate} {e : Emission}

theorem Emission.Explained.mono {fate : Fate} (explained : e.Explained queued fate) (more : List Record) :
    e.Explained (queued ++ more) fate := by
  cases fate with
  | queued => trivial
  | coalesced place =>
    obtain ⟨here, open_, bytes⟩ := explained
    obtain ⟨r, is, same⟩ := map_eq_some_iff.mp bytes
    have bound := (List.getElem?_eq_some_iff.mp is).1
    exact ⟨here, open_, by rw [getElem?_append_left bound]; exact bytes⟩
  | lost place =>
    obtain ⟨full, later, is⟩ := explained
    have bound := (List.getElem?_eq_some_iff.mp is).1
    exact ⟨full, later, by rw [getElem?_append_left bound]; exact is⟩

variable {queue : Queue}

section

variable (account : Leased t queued fates)

include account

/-- One event more, with what was queued for it. -/
theorem Leased.emitted (more : List Record) (fate : Fate)
    (records : queue.records = t.queue.records ++ more) (reserved : queue.reserved = t.queue.reserved)
    (bound : t.queue.reserved ≤ t.queue.records.length) (explained : e.Explained (queued ++ more) fate)
    (events : more.filterMap Record.event? = (keptEvent (e, fate)).toList) :
    Leased { t with queue := queue, emissions := t.emissions ++ [e] } (queued ++ more) (fates ++ [fate]) := by
  have lengths := account.explained.length_eq
  have sent := account.delivered
  refine ⟨⟨?_, ?_, ?_, ?_, ?_⟩, fun some => ?_⟩
  · simp only [length_append]
    omega
  · rw [take_append_of_le_length sent]
    exact account.bytes
  · rw [records, account.waiting, drop_append_of_le_length sent]
  · rw [filterMap_append, account.events, events, zip_append lengths, filterMap_append]
    cases fate <;> rfl
  · exact rel_append (account.explained.imp fun _ _ old => old.mono more) (.cons explained .nil)
  · rw [reserved] at some ⊢
    rw [records, take_append_of_le_length bound]
    exact account.lease some

theorem Leased.kept (records : queue.records = t.queue.records)
    (reserved : queue.reserved = t.queue.reserved ∨ queue.reserved = 0) :
    Leased { t with queue := queue } queued fates := by
  refine ⟨⟨account.delivered, account.bytes, records.trans account.waiting, account.events, account.explained⟩,
    fun some => ?_⟩
  obtain same := reserved.resolve_right some
  rw [records, same]
  exact account.lease (same ▸ some)

theorem Leased.emit (kept : Kept t.queue) {memory : Bool} {bytes : List UInt8}
    (emitted : Emitted t.queue memory bytes queue) :
    ∃ queued fates, Leased
      { t with queue := queue, emissions := t.emissions ++ [⟨bytes, t.queue, memory, t.delivered⟩] } queued fates := by
  have reserved := kept.reserved
  -- a place in the list is one among all records
  have place : ∀ i : Nat, queued[t.delivered + i]? = t.queue.records[i]? := by
    intro i
    rw [account.waiting, getElem?_drop]
  cases emitted with
  | coalesced repeats =>
    obtain ⟨open_, last⟩ := repeats
    rw [getLast?_eq_getElem?] at last
    have count := kept.count
    refine ⟨_, _, account.emitted [] (.coalesced (t.delivered + (t.queue.records.length - 1))) (by simp) rfl
      reserved ?_ rfl⟩
    refine ⟨by dsimp only; omega, by dsimp only; omega, ?_⟩
    rw [append_nil, place]
    exact last
  | covered full already =>
    have mem : .overflow ∈ t.queue.records := by
      rw [← count_pos_iff, kept.overflow, already]
      exact Nat.one_pos
    obtain ⟨i, is⟩ := mem_iff_getElem?.mp mem
    refine ⟨_, _, account.emitted [] (.lost (t.delivered + i)) (by simp) rfl reserved
      ⟨full, Nat.le_add_right _ i, ?_⟩ rfl⟩
    rw [append_nil, place]
    exact is
  | overflowed full =>
    refine ⟨_, _, account.emitted [.overflow] (.lost queued.length) rfl rfl reserved ⟨full, account.delivered, ?_⟩ rfl⟩
    rw [getElem?_append_right (le_refl _), Nat.sub_self]
    rfl
  | queued => exact ⟨_, _, account.emitted [.event bytes] .queued rfl rfl reserved trivial rfl⟩

theorem Leased.deliver (kept : Kept t.queue) (some : t.queue.reserved ≠ 0)
    (records : queue.records = t.queue.records.drop t.queue.reserved) (reserved : queue.reserved = 0) :
    Leased
      { t with queue := queue, deliveries := t.deliveries ++ [t.lease], delivered := t.delivered + t.queue.reserved }
        queued fates := by
  have bound := kept.reserved
  have length := congrArg length account.waiting
  rw [length_drop] at length
  refine ⟨⟨by dsimp only; omega, ?_, ?_, account.events, account.explained⟩, fun still => absurd reserved still⟩
  · rw [flatten_append, flatten_singleton, account.bytes, account.lease some, account.waiting, take_add, flatMap_append]
  · rw [records, account.waiting, drop_drop]

theorem next_leased (kept : Kept t.queue) (fine : t.queue.error = none) {call : Call}
    (new : (happen t.queue call).error = none) : ∃ queued fates, Leased (t.next call) queued fates := by
  cases call with
  | emit e memory sent =>
    have ended := (emit_fine fine e memory sent).outcome
    unfold Trace.next
    unfold happen at new ⊢
    obtain ⟨-, -, bytes, valid, emitted⟩ | ⟨-, -, bad | ⟨same, error, invalid⟩⟩ := ended
    · simp only [fine, valid]
      exact account.emit kept emitted
    · exact absurd new bad
    · simp only [fine, invalid, same]
      exact ⟨queued, fates, account⟩
  | reserve capacity buffer received =>
    have ended := (reserve_fine fine capacity buffer received).outcome
    unfold Trace.next
    unfold happen at new ⊢
    refine ⟨queued, fates, ?_⟩
    obtain ⟨bytes, given, -, n, -, -, left, rfl⟩ | ⟨error, given, bad | same⟩ := ended
    · simp only [given, left]
      exact { account.toAccounted with lease := fun _ => rfl }
    · exact absurd new bad
    · simp only [given, same]
      exact account
  | complete delivered sent =>
    have ended := (complete_fine kept fine delivered sent).outcome
    unfold Trace.next
    unfold happen at new ⊢
    refine ⟨queued, fates, ?_⟩
    obtain ⟨-, -, -, reserved, records⟩ | ⟨-, -, bad⟩ := ended
    · dsimp only
      split
      next both =>
        rw [if_pos both.1] at records
        exact account.deliver kept both.2 records reserved
      next neither =>
        refine account.kept ?_ (.inr reserved)
        cases delivered with
        | false => exact records
        | true =>
          have none : t.queue.reserved = 0 := by simpa using neither
          simpa [none] using records
    · exact absurd new bad

end

theorem trace_accounted (limit : Nat) (calls : List Call) :
    (trace limit calls).queue = run limit calls ∧
    ((run limit calls).error = none → ∃ queued fates, Leased (trace limit calls) queued fates) := by
  induction calls using reverseRecOn with
  | nil =>
    exact ⟨rfl, fun _ => ⟨[], [], ⟨by simp [trace], by simp [trace], by simp [trace, create], rfl, .nil⟩,
      fun some => absurd rfl some⟩⟩
  | append_singleton old call ih =>
    obtain ⟨same, account⟩ := ih
    rw [trace, run, foldl_append, foldl_append]
    change (Trace.next (trace limit old) call).queue = happen (run limit old) call ∧
      ((happen (run limit old) call).error = none → ∃ queued fates, Leased (.next (trace limit old) call) queued fates)
    rw [next_queue, same]
    refine ⟨rfl, fun new => ?_⟩
    have fine : (run limit old).error = none := by
      by_contra bad
      exact happen_bad bad call new
    obtain ⟨queued, fates, account⟩ := account fine
    rw [← same] at fine new
    exact next_leased account (same ▸ run_sound limit old (same ▸ fine)) fine new

/-- What readers have got from a queue whose socket has never failed is a part of all that was queued, in order and
once; the rest waits. Those are the events that were emitted, except for some that were the last record in no lease
at the time, and for some that found the queue full or no memory, for which there is an overflow that was not
delivered before them. -/
theorem deliveries_accounted (limit : Nat) (calls : List Call) (fine : (trace limit calls).queue.error = none) :
    ∃ queued fates, Accounted (trace limit calls) queued fates := by
  obtain ⟨same, account⟩ := trace_accounted limit calls
  obtain ⟨queued, fates, account⟩ := account (same ▸ fine)
  exact ⟨queued, fates, account.toAccounted⟩

theorem deliveries_accounted_overflowing :
    (trace 2 (overflowing ++ [.reserve 64 true true, .complete true none])).delivered = 3 ∧
      ∃ queued fates, Accounted (trace 2 (overflowing ++ [.reserve 64 true true, .complete true none])) queued fates :=
  ⟨by decide, deliveries_accounted 2 _ (by decide)⟩

end Shroot.WatchQueue
