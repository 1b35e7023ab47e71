import Mathlib.Data.Nat.Count
import Mathlib.Logic.Function.Iterate
/-!
# Clocked machines and their boundaries

A machine that takes one step per clock cycle, driven by an input
schedule (`trace`) or left to itself (`f^[n]`). Some of its states are
**boundaries**, between which it works on one unit of a larger step.
`NextAt` says when the next boundary is met, `NthReturn` when the `n`-th
is, and `nthReturn_of_simulates` is the law of the library: a machine
that implements one step of a specification from each boundary to the
next implements runs of it.
-/

namespace Clocked

/-! ## Runs under a schedule -/

section Trace

variable {I S : Type*} {step : I → S → S}

/-- The state after `n` cycles under an input schedule. -/
def trace (step : I → S → S) (input : ℕ → I) (s : S) : ℕ → S
  | 0 => s
  | n + 1 => step (input n) (trace step input s n)

@[simp] theorem trace_zero (input : ℕ → I) (s : S) : trace step input s 0 = s := rfl

theorem trace_succ (input : ℕ → I) (s : S) (n : ℕ) :
    trace step input s (n + 1) = step (input n) (trace step input s n) := rfl

/-- **Two runs under one schedule.** A relation every common step
preserves holds between them at every cycle. -/
theorem trace_related {R : S → S → Prop} (hstep : ∀ i s t, R s t → R (step i s) (step i t))
    {input : ℕ → I} {s t : S} (h : R s t) (n : ℕ) :
    R (trace step input s n) (trace step input t n) := by
  induction n with
  | zero => exact h
  | succ n ih => exact hstep _ _ _ ih

end Trace

/-! ## Boundaries -/

section Boundary

variable {S : Type*} {f : S → S} {B : S → Prop}

/-- **The next boundary is exactly `n` cycles away.** -/
structure NextAt (f : S → S) (B : S → Prop) (s : S) (n : ℕ) : Prop where
  pos : 0 < n
  here : B (f^[n] s)
  before : ∀ i, 0 < i → i < n → ¬ B (f^[i] s)

theorem NextAt.unique {s : S} {m n : ℕ} (hm : NextAt f B s m) (hn : NextAt f B s n) : m = n := by
  rcases Nat.lt_trichotomy m n with h | h | h
  · exact absurd hm.here (hn.before m hm.pos h)
  · exact h
  · exact absurd hn.here (hm.before n hn.pos h)

/-- **The first boundary from now on is exactly `n` cycles away**, the
present state included. -/
structure FirstAt (f : S → S) (B : S → Prop) (s : S) (n : ℕ) : Prop where
  here : B (f^[n] s)
  before : ∀ i < n, ¬ B (f^[i] s)

theorem FirstAt.unique {s : S} {m n : ℕ} (hm : FirstAt f B s m) (hn : FirstAt f B s n) :
    m = n := by
  rcases Nat.lt_trichotomy m n with h | h | h
  · exact absurd hm.here (hn.before m h)
  · exact h
  · exact absurd hn.here (hm.before n h)

theorem FirstAt.zero {s : S} (h : B s) : FirstAt f B s 0 where
  here := h
  before i hi := absurd hi (Nat.not_lt_zero i)

/-- One cycle earlier it is one cycle further away. -/
theorem FirstAt.succ {s : S} {n : ℕ} (hs : ¬ B s) (h : FirstAt f B (f s) n) :
    FirstAt f B s (n + 1) where
  here := h.here
  before i hi := by
    rcases i with - | i
    · exact hs
    · exact h.before i (by omega)

/-- How often the machine has come back to a boundary within `c` cycles;
the state it starts in does not count. -/
def returns (f : S → S) (B : S → Prop) [DecidablePred B] (s : S) (c : ℕ) : ℕ :=
  Nat.count (fun i => B (f^[i + 1] s)) c

/-- **Clocking until the machine has come back `n` times takes exactly
`c` cycles.** -/
structure NthReturn (f : S → S) (B : S → Prop) [DecidablePred B] (s : S) (n c : ℕ) : Prop where
  count : returns f B s c = n
  first : ∀ c', c' < c → returns f B s c' < n

variable [DecidablePred B]

theorem returns_of_no_boundary {s : S} {c : ℕ} (h : ∀ i, 0 < i → i ≤ c → ¬ B (f^[i] s)) :
    returns f B s c = 0 :=
  Nat.count_of_forall_not fun i hi => h (i + 1) (by omega) (by omega)

/-- Up to the next boundary the machine has come back once. -/
theorem returns_of_nextAt {s : S} {n : ℕ} (h : NextAt f B s n) : returns f B s n = 1 := by
  obtain ⟨m, rfl⟩ : ∃ m, n = m + 1 := ⟨n - 1, by have := h.pos; omega⟩
  have hzero : returns f B s m = 0 :=
    returns_of_no_boundary fun i hi him => h.before i hi (by omega)
  rw [returns, Nat.count_succ, if_pos h.here]
  rw [returns] at hzero
  omega

theorem returns_add {s : S} (m n : ℕ) :
    returns f B s (m + n) = returns f B s m + returns f B (f^[m] s) n := by
  rw [returns, Nat.count_add, returns, returns]
  congr 2
  funext i
  rw [← Function.iterate_add_apply, show i + 1 + m = m + i + 1 by omega]

theorem NthReturn.zero {s : S} : NthReturn f B s 0 0 where
  count := rfl
  first _ hc := absurd hc (Nat.not_lt_zero _)

/-- The first return, and `n` more from there. -/
theorem NthReturn.succ {s : S} {k n c : ℕ} (hk : NextAt f B s k)
    (h : NthReturn f B (f^[k] s) n c) : NthReturn f B s (n + 1) (k + c) where
  count := by rw [returns_add, returns_of_nextAt hk, h.count, Nat.add_comm]
  first c' hc := by
    rcases Nat.lt_or_ge c' k with hlt | hge
    · -- short of the first boundary nothing has been counted
      rw [returns_of_no_boundary fun i hi hic => hk.before i hi (by omega)]
      omega
    · obtain ⟨d, rfl⟩ : ∃ d, c' = k + d := ⟨c' - k, by omega⟩
      have := h.first d (by omega)
      rw [returns_add, returns_of_nextAt hk]
      omega

/-- `n` returns, and one more from there. -/
theorem NthReturn.snoc {s : S} {k n c : ℕ} (h : NthReturn f B s n c)
    (hk : NextAt f B (f^[c] s) k) : NthReturn f B s (n + 1) (c + k) where
  count := by rw [returns_add, returns_of_nextAt hk, h.count]
  first c' hc := by
    rcases Nat.lt_or_ge c' c with hlt | hge
    · have := h.first c' hlt
      omega
    · obtain ⟨d, rfl⟩ : ∃ d, c' = c + d := ⟨c' - c, by omega⟩
      rw [returns_add, h.count,
        returns_of_no_boundary fun i hi hid => hk.before i hi (by omega)]
      omega

/-! ## Implementing a specification from boundary to boundary -/

variable {A : Type*}

/-- `n` steps of a specification that may refuse one. -/
def runSpec (spec : A → Option A) : ℕ → A → Option A
  | 0, a => some a
  | n + 1, a => (spec a).bind (runSpec spec n)

/-- **Multi-cycle refinement.** If from every boundary of `Inv` at which
the specification takes a step the machine meets its next boundary at
that step's result, then it follows the specification for any number of
steps. -/
theorem nthReturn_of_simulates {spec : A → Option A} (abs : S → A) (Inv : S → Prop)
    (hstep : ∀ s a, Inv s → spec (abs s) = some a →
      ∃ k, NextAt f B s k ∧ Inv (f^[k] s) ∧ abs (f^[k] s) = a) :
    ∀ (n : ℕ) (s : S) (a : A), Inv s → runSpec spec n (abs s) = some a →
      ∃ c, NthReturn f B s n c ∧ Inv (f^[c] s) ∧ abs (f^[c] s) = a := by
  intro n
  induction n with
  | zero =>
    intro s a hs ha
    exact ⟨0, .zero, hs, by simpa [runSpec] using ha⟩
  | succ n ih =>
    intro s a hs ha
    obtain ⟨a', ha', hrest⟩ := Option.bind_eq_some_iff.1 ha
    obtain ⟨k, hk, hinv, habs⟩ := hstep s a' hs ha'
    -- the rest of the run is one from the boundary that step ends at
    obtain ⟨c, hc, hinv', habs'⟩ := ih (f^[k] s) a hinv (by rw [habs]; exact hrest)
    refine ⟨k + c, .succ hk hc, ?_, ?_⟩
    · rwa [Nat.add_comm, Function.iterate_add_apply]
    · rwa [Nat.add_comm, Function.iterate_add_apply]

/-- What `n` steps of a specification cost, as far as it takes them. -/
def runCost (spec : A → Option A) (cost : A → ℕ) : ℕ → A → ℕ
  | 0, _ => 0
  | n + 1, a => cost a + (spec a).elim 0 (runCost spec cost n)

/-- **Timed multi-cycle refinement.** If every step takes the cycles the
specification says it costs, so does every run. -/
theorem nthReturn_of_timed {spec : A → Option A} (cost : A → ℕ) (abs : S → A) (Inv : S → Prop)
    (hstep : ∀ s a, Inv s → spec (abs s) = some a →
      NextAt f B s (cost (abs s)) ∧ Inv (f^[cost (abs s)] s) ∧ abs (f^[cost (abs s)] s) = a) :
    ∀ (n : ℕ) (s : S) (a : A), Inv s → runSpec spec n (abs s) = some a →
      NthReturn f B s n (runCost spec cost n (abs s)) ∧
        Inv (f^[runCost spec cost n (abs s)] s) ∧ abs (f^[runCost spec cost n (abs s)] s) = a := by
  intro n
  induction n with
  | zero =>
    intro s a hs ha
    exact ⟨.zero, hs, Option.some.inj ha⟩
  | succ n ih =>
    intro s a hs ha
    obtain ⟨a', ha', hrest⟩ := Option.bind_eq_some_iff.1 ha
    obtain ⟨hk, hinv, habs⟩ := hstep s a' hs ha'
    rw [← habs] at hrest
    obtain ⟨hc, hinv', habs'⟩ := ih _ a hinv hrest
    have hcost : runCost spec cost (n + 1) (abs s) =
        cost (abs s) + runCost spec cost n (abs (f^[cost (abs s)] s)) := by
      rw [runCost, ha', Option.elim_some, habs]
    rw [hcost]
    refine ⟨.succ hk hc, ?_, ?_⟩
    · rwa [Nat.add_comm, Function.iterate_add_apply]
    · rwa [Nat.add_comm, Function.iterate_add_apply]

/-- **Multi-cycle refusal.** If besides the machine meets no boundary once
the specification has refused a step, it does not come back as often as
the specification would have stepped. -/
theorem returns_lt_of_simulates {spec : A → Option A} (abs : S → A) (Inv : S → Prop)
    (hstep : ∀ s a, Inv s → spec (abs s) = some a →
      ∃ k, NextAt f B s k ∧ Inv (f^[k] s) ∧ abs (f^[k] s) = a)
    (hstuck : ∀ s, Inv s → spec (abs s) = none → ∀ k, 0 < k → ¬ B (f^[k] s)) :
    ∀ (n : ℕ) (s : S), Inv s → runSpec spec n (abs s) = none → ∀ c, returns f B s c < n := by
  intro n
  induction n with
  | zero =>
    intro s _ hnone
    cases hnone
  | succ n ih =>
    intro s hs hnone c
    rcases ha : spec (abs s) with - | a
    · rw [returns_of_no_boundary fun i hi _ => hstuck s hs ha i hi]
      exact Nat.succ_pos n
    · obtain ⟨k, hk, hinv, habs⟩ := hstep s a hs ha
      rw [runSpec, ha, Option.bind_some, ← habs] at hnone
      rcases Nat.lt_or_ge c k with hlt | hge
      · rw [returns_of_no_boundary fun i hi hic => hk.before i hi (by omega)]
        exact Nat.succ_pos n
      · -- one return up to the next boundary, and too few from there
        obtain ⟨d, rfl⟩ : ∃ d, c = k + d := ⟨c - k, by omega⟩
        have hrest := ih _ hinv hnone d
        rw [returns_add, returns_of_nextAt hk]
        omega

end Boundary

/-! ## Preconditions, postconditions and cycles -/

section Leads

variable {S : Type*} {f : S → S} {P : S → Prop}

/-- **From any state of `A` the machine is in `B` after `n` cycles**, and
in `P` in each of the cycles before. -/
def Leads (f : S → S) (P A : S → Prop) (n : ℕ) (B : S → Prop) : Prop :=
  ∀ s, A s → (∀ i < n, P (f^[i] s)) ∧ B (f^[n] s)

variable {A B C : S → Prop} {m n : ℕ}

/-- One segment after another. -/
theorem Leads.trans (h₁ : Leads f P A m B) (h₂ : Leads f P B n C) :
    Leads f P A (m + n) C := by
  intro s hs
  obtain ⟨halong, hmid⟩ := h₁ s hs
  obtain ⟨halong', hend⟩ := h₂ _ hmid
  have hadd : ∀ i, f^[m + i] s = f^[i] (f^[m] s) := by
    intro i
    rw [Nat.add_comm, Function.iterate_add_apply]
  refine ⟨?_, hadd n ▸ hend⟩
  intro i hi
  rcases Nat.lt_or_ge i m with hlt | hge
  · exact halong i hlt
  · obtain ⟨j, rfl⟩ : ∃ j, i = m + j := ⟨i - m, by omega⟩
    rw [hadd]
    exact halong' j (by omega)

/-- **A loop**: `k` rounds of `c` cycles each, under an invariant that
counts them. -/
theorem Leads.loop {I : ℕ → S → Prop} {c k : ℕ}
    (h : ∀ i < k, Leads f P (I i) c (I (i + 1))) : Leads f P (I 0) (c * k) (I k) := by
  induction k with
  | zero =>
    intro s hs
    rw [Nat.mul_zero]
    exact ⟨fun i hi => absurd hi (Nat.not_lt_zero i), hs⟩
  | succ k ih =>
    rw [Nat.mul_succ]
    exact (ih fun i hi => h i (by omega)).trans (h k (by omega))

end Leads

end Clocked
