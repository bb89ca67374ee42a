import Mathlib.Data.List.Induction

/-!
# Labelled Transition Systems

A system is a set of initial states with a labelled step relation. A `Run` records the
labels of its steps in order; a state is `Reachable` when some run leads to it from an
initial state. The rules here are the ones the developments over a system use: what
holds initially and is kept by every step holds in every reachable state
(`Reachable.invariant`), possibly relative to an invariant that is already known
(`Reachable.invariant_of`), and the same of a property of the labels performed so far
(`Run.history`).
-/

/-- A labelled transition system over states `σ` with labels `α`. -/
structure Lts (σ α : Type*) where
  /-- The states a run may start in. -/
  init : σ → Prop
  /-- One step with its label. -/
  step : σ → α → σ → Prop

namespace Lts

variable {σ α : Type*} {M : Lts σ α}

/-- `Run M s l s'`: the labels `l`, performed in order, lead from `s` to `s'`. -/
inductive Run (M : Lts σ α) : σ → List α → σ → Prop
  | nil {s : σ} : Run M s [] s
  | snoc {s s' s'' : σ} {l : List α} {a : α} :
      Run M s l s' → M.step s' a s'' → Run M s (l ++ [a]) s''

/-- A step before a run makes a run. -/
theorem Run.cons {s s' s'' : σ} {a : α} {l : List α} (hs : M.step s a s')
    (h : Run M s' l s'') : Run M s (a :: l) s'' := by
  induction h with
  | nil => exact Run.nil.snoc hs
  | snoc _ hst ih => exact ih.snoc hst

/-- Two runs, one after the other. -/
theorem Run.append {s s' s'' : σ} {l l' : List α} (h : Run M s l s') (h' : Run M s' l' s'') :
    Run M s (l ++ l') s'' := by
  induction h' with
  | nil => rwa [List.append_nil]
  | snoc _ hst ih =>
      rw [← List.append_assoc]
      exact ih.snoc hst

/-- A state some run from an initial state leads to. -/
def Reachable (M : Lts σ α) (s : σ) : Prop :=
  ∃ s₀ l, M.init s₀ ∧ Run M s₀ l s

/-- The initial states are reachable. -/
theorem Reachable.of_init {s : σ} (h : M.init s) : M.Reachable s :=
  ⟨s, [], h, Run.nil⟩

/-- A step leads from a reachable state to a reachable one. -/
theorem Reachable.of_step {s s' : σ} {a : α} (h : M.Reachable s) (hs : M.step s a s') :
    M.Reachable s' := by
  obtain ⟨s₀, l, h₀, hrun⟩ := h
  exact ⟨s₀, l ++ [a], h₀, hrun.snoc hs⟩

/-- So does a run. -/
theorem Reachable.of_run {s s' : σ} {l : List α} (h : M.Reachable s) (hrun : Run M s l s') :
    M.Reachable s' := by
  obtain ⟨s₀, l₀, h₀, hrun₀⟩ := h
  exact ⟨s₀, l₀ ++ l, h₀, hrun₀.append hrun⟩

/-- **The invariant rule relative to a known invariant**: each step may use `K` of the
state it leaves. -/
theorem Reachable.invariant_of {K I : σ → Prop} (hK : ∀ s, M.Reachable s → K s)
    (hinit : ∀ s, M.init s → I s)
    (hstep : ∀ s a s', K s → I s → M.step s a s' → I s') {s : σ} (h : M.Reachable s) :
    I s := by
  obtain ⟨s₀, l, h₀, hrun⟩ := h
  induction hrun with
  | nil => exact hinit _ h₀
  | snoc hrun hs ih => exact hstep _ _ _ (hK _ ⟨_, _, h₀, hrun⟩) ih hs

/-- **The invariant rule**: what holds initially and is kept by every step holds in
every reachable state. -/
theorem Reachable.invariant {I : σ → Prop} (hinit : ∀ s, M.init s → I s)
    (hstep : ∀ s a s', I s → M.step s a s' → I s') {s : σ} (h : M.Reachable s) : I s :=
  h.invariant_of (K := fun _ => True) (fun _ _ => trivial) hinit
    fun s a s' _ hI hs => hstep s a s' hI hs

/-- The rule for a property that speaks of the labels performed so far. -/
theorem Run.history {I : List α → σ → Prop} {s₀ : σ} (hinit : I [] s₀)
    (hstep : ∀ l s a s', I l s → M.step s a s' → I (l ++ [a]) s')
    {l : List α} {s : σ} (h : Run M s₀ l s) : I l s := by
  induction h with
  | nil => exact hinit
  | snoc _ hst ih => exact hstep _ _ _ _ ih hst

/-- Steps that stutter can be taken out of a run. -/
theorem Run.erase {p : α → Bool} (hstutter : ∀ s a s', M.step s a s' → p a = false → s' = s)
    {s s' : σ} {l : List α} (h : Run M s l s') : Run M s (l.filter p) s' := by
  induction h with
  | nil => exact .nil
  | @snoc s' s'' l a hrun hstep ih =>
      rw [List.filter_append]
      cases hp : p a with
      | true =>
          rw [List.filter_cons_of_pos hp, List.filter_nil]
          exact ih.snoc hstep
      | false =>
          obtain rfl := hstutter _ _ _ hstep hp
          rw [List.filter_cons_of_neg (by simp [hp]), List.filter_nil, List.append_nil]
          exact ih

end Lts
