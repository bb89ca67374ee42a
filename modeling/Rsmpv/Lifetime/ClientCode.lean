import Mathlib.Data.List.Perm.Basic
import Rsmpv.Lifetime.World

/-!
# Client Code

Safe code that holds values of the wrapper and applies operations to them, one after the
other and in any order. A value is named by its position in the list of the values that
are alive; a method that consumes its receiver takes it out of the list. A panic that
unwinds out of a method reaches the client code, which goes on with the values it still
has; a second panic on the way aborts the process. What an aborted process had still to
release is part of its trace, so what is said of it is what holds up to the abort.
-/

namespace Rsmpv

/-- The world, the values that are alive, those that were leaked with `mem::forget`, and
whether the process has aborted. -/
structure ClientCode (V : Type) where
  world : World := {}
  values : List V := []
  leaked : List V := []
  aborted : Bool := false

namespace ClientCode

variable {V α β : Type}

/-- The values after a method that may fail. -/
def returned (wrap : α → V) (values failed : List V) : Except Error α → List V
  | .ok a => wrap a :: values
  | .error _ => failed

/-- Run a method. A panic reaches the client code, which goes on with the values it still
has. -/
def finish (s : ClientCode V) (p : Comp α) (ret : α → List V) (unwound : List V) :
    ClientCode V :=
  match p s.world with
  | (.ret a, w) => ⟨w, ret a, s.leaked, false⟩
  | (.unwind _, w) => ⟨w, unwound, s.leaked, false⟩
  | (.abort, w) | (.undefined, w) => ⟨w, unwound, s.leaked, true⟩

/-- Move a value out of the list. -/
def take (s : ClientCode V) (i : ℕ) : Option (V × List V) :=
  match s.values[i]? with
  | some v => some (v, s.values.eraseIdx i)
  | none => none

variable {s : ClientCode V} {w : World} {ret : α → List V} {unwound : List V}

/-- A value the client code has a reference to. -/
theorem perm_of_getElem? {i : ℕ} {v : V} (h : s.values[i]? = some v) :
    s.values.Perm (v :: s.values.eraseIdx i) := by
  obtain ⟨hi, rfl⟩ := List.getElem?_eq_some_iff.mp h
  exact (List.getElem_cons_eraseIdx_perm hi).symm

/-- A value that was moved out, and what is left of the values. -/
theorem take_eq_some {i : ℕ} {v : V} {rest : List V} (h : s.take i = some (v, rest)) :
    s.values[i]? = some v ∧ s.values.Perm (v :: rest) := by
  unfold take at h
  split at h
  next u hget =>
    obtain ⟨rfl, rfl⟩ := Prod.mk.inj (Option.some.inj h)
    exact ⟨hget, perm_of_getElem? hget⟩
  next => cases h

/-- An operation that returns gives back its value, and the process lives on. -/
theorem finish_ret {p : Comp α} {a : α} (h : p s.world = (.ret a, w)) :
    s.finish p ret unwound = ⟨w, ret a, s.leaked, false⟩ := by
  rw [finish, h]

/-- A method that begins with code that returns. -/
theorem finish_bind {p : Comp β} {k : β → Comp α} {b : β} (h : p s.world = (.ret b, w)) :
    s.finish (p >>= k) ret unwound =
      ({ s with world := w } : ClientCode V).finish (k b) ret unwound := by
  rw [finish, finish, Unwind.bind_apply, Unwind.andThen_ret h]

/-- A method that ends with a drop leaves the same values whether the drop panics or not. -/
theorem finish_drop {p : Comp Unit} {a : α} {n : ℕ} (h : p s.world = (.ofPanics n, w))
    (hret : ret a = unwound) :
    s.finish (p >>= fun _ => pure a) ret unwound = ⟨w, unwound, s.leaked, 2 ≤ n⟩ := by
  rw [finish, Unwind.bind_apply, Unwind.andThen, h]
  obtain _ | _ | n := n
  · simp [Exit.ofPanics, hret]
  · simp [Exit.ofPanics]
  · simp [Exit.ofPanics]

/-- The same of a method that is a drop. -/
theorem finish_ofPanics {p : Comp Unit} {n : ℕ} (h : p s.world = (.ofPanics n, w)) :
    s.finish p (fun _ => unwound) unwound = ⟨w, unwound, s.leaked, 2 ≤ n⟩ := by
  rw [finish, h]
  obtain _ | _ | n := n <;> simp [Exit.ofPanics]

end ClientCode

end Rsmpv
