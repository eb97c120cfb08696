import Shroot.General.Bits

namespace Shroot.General

section

/-- A loop whose body stops with a result or goes on from a smaller state. -/
structure Loop (σ ρ : Type) where
  body : σ → ρ ⊕ σ
  size : σ → ℕ × ℕ
  decreases : ∀ state next, body state = .inr next → Prod.Lex (· < ·) (· < ·) (size next) (size state)

namespace Loop

def run {σ ρ : Type} (loop : Loop σ ρ) (state : σ) : ρ :=
  match found : loop.body state with
  | .inl result => result
  | .inr next => run loop next
termination_by loop.size state
decreasing_by exact loop.decreases state next found

variable {σ ρ : Type} {loop : Loop σ ρ}

theorem run_stop {state : σ} {result : ρ} (stops : loop.body state = .inl result) : loop.run state = result := by
  rw [run]
  split <;> simp_all

theorem run_next {state next : σ} (goes : loop.body state = .inr next) : loop.run state = loop.run next := by
  rw [run]
  split <;> simp_all

/-- What every iteration keeps and every stop turns into the postcondition holds of the result. -/
theorem run_invariant (holds : σ → Prop) (post : ρ → Prop)
    (stops : ∀ state result, holds state → loop.body state = .inl result → post result)
    (keeps : ∀ state next, holds state → loop.body state = .inr next → holds next)
    (state : σ) (held : holds state) : post (loop.run state) := by
  induction state using run.induct loop with
  | case1 state result found => rw [run_stop found]; exact stops state result held found
  | case2 state next found ih => rw [run_next found]; exact ih (keeps state next held found)

/-- The states that a run passes, with how many of those it left are marked. -/
inductive Passes (loop : Loop σ ρ) (marked : σ → Bool) (start : σ) : ℕ → σ → Prop
  | start : Passes loop marked start 0 start
  | next {count : ℕ} {state next : σ} : Passes loop marked start count state → loop.body state = .inr next →
      Passes loop marked start (count + (marked state).toNat) next

variable {marked : σ → Bool} {start state : σ} {count : ℕ}

theorem Passes.run_eq (passes : loop.Passes marked start count state) : loop.run start = loop.run state := by
  induction passes with
  | start => rfl
  | next _ goes ih => rw [ih, run_next goes]

theorem Passes.invariant (passes : loop.Passes marked start count state) (holds : σ → Prop) (initially : holds start)
    (keeps : ∀ state next, holds state → loop.body state = .inr next → holds next) : holds state := by
  induction passes with
  | start => exact initially
  | next _ goes ih => exact keeps _ _ ih goes

theorem Passes.counted (passes : loop.Passes marked start count state) (counter : σ → ℕ)
    (counts : ∀ state next, loop.body state = .inr next → counter next = counter state + (marked state).toNat) :
    counter state = counter start + count := by
  induction passes with
  | start => rfl
  | next _ goes ih =>
    rw [counts _ _ goes, ih]
    omega

/-- Every run comes to a state where it stops. -/
theorem run_stops (loop : Loop σ ρ) (marked : σ → Bool) (start : σ) :
    ∃ count last, loop.Passes marked start count last ∧ loop.body last = .inl (loop.run start) := by
  suffices ends : ∀ state count, loop.Passes marked start count state →
      ∃ count last, loop.Passes marked start count last ∧ loop.body last = .inl (loop.run state) from
    ends start 0 .start
  intro state
  induction state using run.induct loop with
  | case1 state result found =>
    intro count passes
    exact ⟨count, state, passes, by rw [found, run_stop found]⟩
  | case2 state next found ih =>
    intro count passes
    rw [run_next found]
    exact ih _ (passes.next found)

end Loop

open List BitVec

variable {ν : Type} [DecidableEq ν] {w : Nat}

/-- Carries the marks of an edge's source to its target, and notes whether that changed them. -/
def spread (state : (ν → BitVec w) × Bool) (edge : ν × ν) : (ν → BitVec w) × Bool :=
  let added := state.1 edge.1 &&& ~~~state.1 edge.2
  (Function.update state.1 edge.2 (state.1 edge.2 ||| added), state.2 || added ≠ 0)

/-- The marks that the targets of the edges lack. -/
def lacking (edges : List (ν × ν)) (marks : ν → BitVec w) : Finset (ν × ℕ) :=
  ((edges.map Prod.snd).toFinset ×ˢ Finset.range w).filter fun (node, i) => (marks node).getLsbD i = false

section

variable {edges : List (ν × ν)} {state : (ν → BitVec w) × Bool}

theorem getLsbD_spread (edge : ν × ν) (node : ν) (i : ℕ) (had : (state.1 node).getLsbD i = true) :
    ((spread state edge).1 node).getLsbD i = true := by
  rw [spread]
  by_cases same : node = edge.2
  · subst same
    simp [had]
  · simp [Function.update_of_ne same, had]

theorem lacking_spread_subset (edge : ν × ν) : lacking edges (spread state edge).1 ⊆ lacking edges state.1 := by
  intro ⟨node, i⟩ mem
  rw [lacking, Finset.mem_filter] at mem ⊢
  refine ⟨mem.1, ?_⟩
  by_contra had
  have kept := getLsbD_spread edge node i (by simpa using had)
  simp [kept] at mem

/-- A pass that changes a mark leaves fewer lacking. -/
theorem lacking_pass (passed : List (ν × ν)) (within : passed ⊆ edges) :
    lacking edges (passed.foldl spread state).1 ⊆ lacking edges state.1 ∧
    ((passed.foldl spread state).2 = true → state.2 = true ∨
        lacking edges (passed.foldl spread state).1 ⊂ lacking edges state.1) := by
  induction passed generalizing state with
  | nil => exact ⟨subset_rfl, fun changed => .inl changed⟩
  | cons edge rest ih =>
    obtain ⟨shrinks, strictly⟩ := @ih (spread state edge) fun _ mem => within (mem_cons_of_mem _ mem)
    have first := @lacking_spread_subset _ _ _ edges state edge
    refine ⟨shrinks.trans first, fun changed => ?_⟩
    rcases strictly changed with already | fewer
    · by_cases before : state.2 = true
      · exact .inl before
      · -- This edge is the first that adds a mark.
        right
        refine Finset.ssubset_of_subset_of_ssubset shrinks ?_
        have added : state.1 edge.1 &&& ~~~state.1 edge.2 ≠ 0 := by simpa [spread, before] using already
        obtain ⟨i, here⟩ : ∃ i, (state.1 edge.1 &&& ~~~state.1 edge.2).getLsbD i = true := by
          by_contra none
          push Not at none
          refine added (eq_of_getLsbD_eq fun i _ => ?_)
          simpa using none i
        rw [getLsbD_and, getLsbD_not] at here
        simp only [Bool.and_eq_true, decide_eq_true_eq, Bool.not_eq_eq_eq_not, Bool.not_true] at here
        obtain ⟨source, bound, missing⟩ := here
        refine Finset.ssubset_iff_subset_ne.mpr ⟨first, fun same => ?_⟩
        have mem : (edge.2, i) ∈ lacking edges state.1 := by
          simp only [lacking, Finset.mem_filter, Finset.mem_product, mem_toFinset, Finset.mem_range]
          exact ⟨⟨mem_map_of_mem (within mem_cons_self), bound⟩, missing⟩
        rw [← same] at mem
        simp [lacking, spread, source, bound] at mem
    · exact .inr (Finset.ssubset_of_ssubset_of_subset fewer first)

end

/-- Passes along the edges until one changes nothing. -/
def propagation (edges : List (ν × ν)) : Loop (ν → BitVec w) (ν → BitVec w) where
  body marks :=
    let (marks, changed) := edges.foldl spread (marks, false)
    if changed then .inr marks else .inl marks
  size marks := ((lacking edges marks).card, 0)
  decreases marks next goes := by
    dsimp only at goes
    split at goes
    next changed =>
      cases goes
      obtain ⟨-, strictly⟩ := @lacking_pass _ _ _ edges (marks, false) edges (List.Subset.refl _)
      rcases strictly changed with false | fewer
      · cases false
      · exact Prod.Lex.left _ _ (Finset.card_lt_card fewer)
    · cases goes

end

open List

/-! Nodes are peeled off a graph from its ends: a node goes when it may go and everything that hangs on it is gone. -/

variable {α : Type}

inductive Peels (may : α → Prop) (hangs : α → α → Prop) : α → Prop
  | peel {v : α} : may v → (∀ c, hangs c v → Peels may hangs c) → Peels may hangs v

namespace Peels

variable {may : α → Prop} {hangs : α → α → Prop} {v : α}

theorem may_go (peels : Peels may hangs v) : may v := by
  cases peels with
  | peel has _ => exact has

theorem hanging (peels : Peels may hangs v) {c : α} (on : hangs c v) : Peels may hangs c := by
  cases peels with
  | peel _ above => exact above c on

/-- What is peeled is the least set that has every node which may go with everything on it. -/
theorem isLeast : IsLeast {s : Set α | ∀ v, may v → (∀ c, hangs c v → c ∈ s) → v ∈ s} {v | Peels may hangs v} := by
  refine ⟨fun v has above => .peel has above, fun s closed v peels => ?_⟩
  induction peels with
  | peel has _ ih => exact closed _ has ih

end Peels

theorem countP_lt {p q : α → Bool} {items : List α} (implies : ∀ x ∈ items, q x → p x) {x : α}
    (mem : x ∈ items) (has : p x) (fails : ¬ q x) : items.countP q < items.countP p := by
  obtain ⟨old, new, rfl⟩ := append_of_mem mem
  have first := countP_mono_left (l := old) fun y isIn => implies y (by simp [isIn])
  have last := countP_mono_left (l := new) fun y isIn => implies y (by simp [isIn])
  simp only [countP_append, countP_cons, has, fails, if_true]
  simp only [Bool.false_eq_true, if_false]
  omega

end Shroot.General
