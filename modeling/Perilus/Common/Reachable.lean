import Mathlib.Data.Option.Basic
/-!
# Reachable states

A system takes one action at a time, and an action may fail. `Reachable`
is every state its runs meet when each step is one that `ok` allows
there; an invariant is proved once over one step and holds of them all.
-/

namespace Transition

variable {S A : Type*} {step : S → A → Option S} {ok : S → A → Prop} {s₀ s : S}

/-- **The states of the runs from `s₀`** whose steps are all allowed. -/
inductive Reachable (step : S → A → Option S) (ok : S → A → Prop) (s₀ : S) : S → Prop
  | init : Reachable step ok s₀ s₀
  | next {s s' : S} (a : A) (h : Reachable step ok s₀ s) (ha : ok s a)
      (hs : step s a = some s') : Reachable step ok s₀ s'

/-- **What every allowed step preserves** holds of every reachable state. -/
theorem Reachable.invariant {P : S → Prop} (h : Reachable step ok s₀ s) (h₀ : P s₀)
    (hstep : ∀ {s s' : S} {a : A}, P s → ok s a → step s a = some s' → P s') : P s := by
  induction h with
  | init => exact h₀
  | next a _ ha hs ih => exact hstep ih ha hs

/-- One action after another. -/
def run (step : S → A → Option S) : List A → S → Option S
  | [], s => some s
  | a :: as, s => (step s a).bind (run step as)

/-- A run of actions allowed everywhere. -/
theorem Reachable.run_of_forall {as : List A} (has : ∀ a ∈ as, ∀ s, ok s a)
    {s' : S} (h : Reachable step ok s₀ s) (hrun : run step as s = some s') :
    Reachable step ok s₀ s' := by
  induction as generalizing s with
  | nil => exact Option.some.inj hrun ▸ h
  | cons a as ih =>
    obtain ⟨s₁, hs₁, hrest⟩ := Option.bind_eq_some_iff.1 hrun
    exact ih (fun b hb => has b (List.mem_cons_of_mem a hb))
      (.next a h (has a List.mem_cons_self s) hs₁) hrest

/-- A state met by such a run, from what can be observed of it. -/
theorem Reachable.of_observed (ok : S → A → Prop) {B : Type*} {f : S → B} {v : B}
    {as : List A} (has : ∀ a ∈ as, ∀ s, ok s a) (h : (run step as s₀).map f = some v) :
    ∃ s, Reachable step ok s₀ s ∧ f s = v := by
  obtain ⟨s, hrun, hv⟩ := Option.map_eq_some_iff.1 h
  exact ⟨s, .run_of_forall has .init hrun, hv⟩

theorem run_append (as bs : List A) (s : S) :
    run step (as ++ bs) s = (run step as s).bind (run step bs) := by
  induction as generalizing s with
  | nil => rfl
  | cons a as ih =>
    rw [List.cons_append, run, run, Option.bind_assoc]
    exact congrArg _ (funext fun s' => ih s')

/-- A run of macro steps is the run of their steps. -/
theorem run_flatMap {B : Type*} {macroStep : S → B → Option S} {f : B → List A}
    (h : ∀ s b, macroStep s b = run step (f b) s) (bs : List B) (s : S) :
    run macroStep bs s = run step (bs.flatMap f) s := by
  induction bs generalizing s with
  | nil => rfl
  | cons b bs ih =>
    rw [List.flatMap_cons, run_append, run, h]
    exact congrArg _ (funext fun s' => ih s')

/-- **A run fails** at its first step that does. -/
theorem run_eq_none_iff {as : List A} {s : S} : run step as s = none ↔
    ∃ before a after s', as = before ++ a :: after ∧ run step before s = some s' ∧
      step s' a = none := by
  constructor
  · intro h
    induction as generalizing s with
    | nil => cases h
    | cons a as ih =>
      rcases hs : step s a with - | s₁
      · exact ⟨[], a, as, s, rfl, rfl, hs⟩
      · rw [run, hs] at h
        obtain ⟨before, a', after, s', rfl, hrun, hnone⟩ := ih h
        exact ⟨a :: before, a', after, s', rfl, by rw [run, hs]; exact hrun, hnone⟩
  · rintro ⟨before, a, after, s', rfl, hrun, hnone⟩
    rw [run_append, hrun, Option.bind_some, run, hnone, Option.bind_none]

section Simulation

variable {B T : Type*} {spec : T → B → Option T} {R : S → T → Prop} {as : List A} {t t' : T}

/-- **Forward simulation, up to the actions the specification does not
see.** If from related states a step of the specification is matched by
the system's on an action seen as it, and an action not seen keeps the
states related, then every run is matched. -/
theorem run_of_simulates_seen (seen : A → Option B) (ok : A → Prop)
    (hstep : ∀ {s : S} {t t' : T} {a : A} {b : B}, R s t → seen a = some b → spec t b = some t' →
      ∃ s', step s a = some s' ∧ R s' t')
    (hsilent : ∀ {s : S} {t : T} {a : A}, R s t → ok a → seen a = none →
      ∃ s', step s a = some s' ∧ R s' t)
    (hok : ∀ a ∈ as, ok a) (h : R s t) (hrun : run spec (as.filterMap seen) t = some t') :
    ∃ s', run step as s = some s' ∧ R s' t' := by
  induction as generalizing s t with
  | nil => exact ⟨s, rfl, Option.some.inj hrun ▸ h⟩
  | cons a as ih =>
    have hrest : ∀ a ∈ as, ok a := fun b hb => hok b (List.mem_cons_of_mem a hb)
    rcases hb : seen a with - | b
    · rw [List.filterMap_cons_none hb] at hrun
      obtain ⟨s₁, hs₁, h₁⟩ := hsilent h (hok a List.mem_cons_self) hb
      obtain ⟨s', hs', h'⟩ := ih hrest h₁ hrun
      exact ⟨s', by rw [run, hs₁, Option.bind_some, hs'], h'⟩
    · rw [List.filterMap_cons_some hb] at hrun
      obtain ⟨t₁, hspec, hrun⟩ := Option.bind_eq_some_iff.1 hrun
      obtain ⟨s₁, hs₁, h₁⟩ := hstep h hb hspec
      obtain ⟨s', hs', h'⟩ := ih hrest h₁ hrun
      exact ⟨s', by rw [run, hs₁, Option.bind_some, hs'], h'⟩

/-- **Forward simulation.** If from related states a step of the
specification is matched by the system's on the same action, so is every
run. -/
theorem run_of_simulates {spec : T → A → Option T}
    (hstep : ∀ {s : S} {t t' : T} {a : A}, R s t → spec t a = some t' →
      ∃ s', step s a = some s' ∧ R s' t')
    (h : R s t) (hrun : run spec as t = some t') :
    ∃ s', run step as s = some s' ∧ R s' t' := by
  refine run_of_simulates_seen some (fun _ => True) ?_ ?_ (fun _ _ => trivial) h
    (by rwa [List.filterMap_some])
  · intro s t t' a b hR hb hspec
    exact hstep hR (Option.some.inj hb ▸ hspec)
  · intro s t a _ _ hnone
    cases hnone

end Simulation

end Transition
