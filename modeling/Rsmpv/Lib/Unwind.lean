import Mathlib.Data.Nat.Notation
import Mathlib.Logic.Basic

/-!
# Computations that May Unwind

A shallow embedding of code in a language with panics that unwind. A computation over
states `σ` ends with a value, unwinds with the payload of a panic, aborts the process (a
second panic while a first one unwinds), or leaves the defined behaviour of the language
(an access to memory that is not there).

* `catchUnwind` stops a panic and hands out its payload;
* `scope` runs a destructor at the end of a scope, on the normal and on the unwinding
  path.

Everything after a panic runs on the way out only through `scope`, so the drop points of
a program are explicit in its text.
-/

/-- How a computation ends. -/
inductive Exit (P α : Type*)
  | ret (value : α)
  | unwind (payload : P)
  | abort
  | undefined

/-- A computation over states `σ` whose panics carry payloads in `P`. -/
def Unwind (P σ α : Type*) := σ → Exit P α × σ

/-- How a scope ends that has the value `a` when its last destructor returns (`none`) or
panics. -/
def Exit.after {P α : Type*} (panics : Option P) (a : α) : Exit P α :=
  match panics with
  | none => .ret a
  | some p => .unwind p

/-- A scope has a value exactly when its last destructor returns. -/
theorem Exit.after_eq_ret_iff {P α : Type*} {q : Option P} {a b : α} :
    Exit.after q a = .ret b ↔ q = none ∧ a = b := by
  cases q with
  | none => simp [Exit.after]
  | some p => simp [Exit.after]

/-- How a scope ends in which `n` destructors panicked. -/
def Exit.ofPanics : ℕ → Exit Unit Unit
  | 0 => .ret ()
  | 1 => .unwind ()
  | _ => .abort

namespace Unwind

variable {P σ : Type*} {α β : Type}

/-- Return a value. -/
def ret (a : α) : Unwind P σ α := fun s => (.ret a, s)

/-- Continue with the value of `x`, if it has one. -/
def andThen (x : Unwind P σ α) (f : α → Unwind P σ β) : Unwind P σ β := fun s =>
  match x s with
  | (.ret a, s') => f a s'
  | (.unwind p, s') => (.unwind p, s')
  | (.abort, s') => (.abort, s')
  | (.undefined, s') => (.undefined, s')

instance : Monad (Unwind P σ) where
  pure := ret
  bind := andThen

/-- Panic with a payload. -/
def panic (p : P) : Unwind P σ α := fun s => (.unwind p, s)

/-- Leave the defined behaviour. -/
def undefined : Unwind P σ α := fun s => (.undefined, s)

/-- Read the state. -/
def read : Unwind P σ σ := fun s => (.ret s, s)

/-- Change the state. -/
def modify (f : σ → σ) : Unwind P σ Unit := fun s => (.ret (), f s)

/-- Foreign code: it changes the state and returns or panics. -/
def call (f : σ → Except P α × σ) : Unwind P σ α := fun s =>
  match f s with
  | (.ok a, s') => (.ret a, s')
  | (.error p, s') => (.unwind p, s')

/-- A destructor that returns, or panics with a payload. -/
def destructor (panics : Option P) : Unwind P σ Unit :=
  match panics with
  | none => ret ()
  | some p => panic p

/-- Stop a panic of `x`. -/
def catchUnwind (x : Unwind P σ α) : Unwind P σ (Except P α) := fun s =>
  match x s with
  | (.ret a, s') => (.ret (.ok a), s')
  | (.unwind p, s') => (.ret (.error p), s')
  | (.abort, s') => (.abort, s')
  | (.undefined, s') => (.undefined, s')

/-- Run `x` in a scope that ends with the destructor `drop`. A panic of the destructor
replaces a value, and aborts when it meets another panic. -/
def scope (x : Unwind P σ α) (drop : Unwind P σ Unit) : Unwind P σ α := fun s =>
  match x s with
  | (.ret a, s') => drop.andThen (fun _ => ret a) s'
  | (.unwind p, s') =>
    match drop s' with
    | (.ret _, s'') => (.unwind p, s'')
    | (.unwind _, s'') => (.abort, s'')
    | (.abort, s'') => (.abort, s'')
    | (.undefined, s'') => (.undefined, s'')
  | (.abort, s') => (.abort, s')
  | (.undefined, s') => (.undefined, s')

/-- Run `x` with a value in scope that `x` moves out unless it unwinds: `drop` is the
destructor of the value. -/
def onUnwind (x : Unwind P σ α) (drop : Unwind P σ Unit) : Unwind P σ α := fun s =>
  match x s with
  | (.unwind p, s') =>
    match drop s' with
    | (.ret _, s'') => (.unwind p, s'')
    | (.unwind _, s'') => (.abort, s'')
    | (.abort, s'') => (.abort, s'')
    | (.undefined, s'') => (.undefined, s'')
  | end_ => end_

/-- Run in `s`, the computation returns a value that satisfies `Q`. -/
def Returns (x : Unwind P σ α) (s : σ) (Q : α → Prop) : Prop :=
  ∃ a s', x s = (.ret a, s') ∧ Q a

/-! ### What a computation does in a state -/

/-- Returning a value changes nothing. -/
@[simp] theorem pure_apply (a : α) (s : σ) : (pure a : Unwind P σ α) s = (.ret a, s) := rfl

/-- A sequence, in a state. -/
@[simp] theorem bind_apply (x : Unwind P σ α) (f : α → Unwind P σ β) (s : σ) :
    (x >>= f) s = x.andThen f s := rfl

/-- Reading the state changes nothing. -/
@[simp] theorem read_apply (s : σ) : (read : Unwind P σ σ) s = (.ret s, s) := rfl

/-- Changing the state returns. -/
@[simp] theorem modify_apply (f : σ → σ) (s : σ) :
    (modify f : Unwind P σ Unit) s = (.ret (), f s) := rfl

/-- A destructor changes nothing that is modelled; it may panic. -/
theorem destructor_apply (q : Option P) (s : σ) :
    (destructor q : Unwind P σ Unit) s = (.after q (), s) := by
  cases q <;> rfl

/-- A scope that ends with a destructor. -/
@[simp] theorem destructor_andThen_ret (q : Option P) (a : α) (s : σ) :
    (destructor q).andThen (fun _ => ret a) s = (.after q a, s) := by
  cases q <;> rfl

section Ends

variable {x : Unwind P σ α} {s s' : σ} {a : α} {p : P}

/-- After a value the computation goes on. -/
theorem andThen_ret (h : x s = (.ret a, s')) (f : α → Unwind P σ β) :
    x.andThen f s = f a s' := by
  simp only [andThen, h]

/-- After a panic it does not. -/
theorem andThen_unwind (h : x s = (.unwind p, s')) (f : α → Unwind P σ β) :
    x.andThen f s = (.unwind p, s') := by
  simp only [andThen, h]

/-- What follows a scope that ends with a destructor, and does not change the state. -/
theorem andThen_after {q : Option P} {f : α → Unwind P σ β} {b : β}
    (h : x s = (.after q a, s')) (hf : f a s' = (.ret b, s')) :
    x.andThen f s = (.after q b, s') := by
  cases q with
  | none =>
      rw [andThen_ret h, hf]
      rfl
  | some p =>
      rw [andThen_unwind h]
      rfl

/-- Foreign code that returns. -/
theorem call_ok {f : σ → Except P α × σ} (h : f s = (.ok a, s')) :
    call f s = (.ret a, s') := by
  simp only [call, h]

/-- Foreign code that panics. -/
theorem call_error {f : σ → Except P α × σ} (h : f s = (.error p, s')) :
    call f s = (.unwind p, s') := by
  simp only [call, h]

/-- A guard hands a value on. -/
theorem catchUnwind_ret (h : x s = (.ret a, s')) :
    catchUnwind x s = (.ret (.ok a), s') := by
  simp only [catchUnwind, h]

/-- A guard stops a panic. -/
theorem catchUnwind_unwind (h : x s = (.unwind p, s')) :
    catchUnwind x s = (.ret (.error p), s') := by
  simp only [catchUnwind, h]

/-- A guard around foreign code returns what the code did. -/
theorem catchUnwind_call {f : σ → Except P α × σ} :
    catchUnwind (call f) s = (.ret (f s).1, (f s).2) := by
  cases h : f s with
  | mk r s' =>
      cases r with
      | ok a => rw [catchUnwind_ret (call_ok h)]
      | error p => rw [catchUnwind_unwind (call_error h)]

/-- Panics add up along a scope, as long as its body does not abort. -/
theorem scope_ofPanics {x d : Unwind Unit σ Unit} {s'' : σ} {m n : ℕ} (hm : m ≤ 1)
    (hx : x s = (.ofPanics m, s')) (hd : d s' = (.ofPanics n, s'')) :
    scope x d s = (.ofPanics (m + n), s'') := by
  obtain rfl | rfl : m = 0 ∨ m = 1 := by omega
  · rw [Nat.zero_add]
    simp only [scope, hx, Exit.ofPanics]
    match n with
    | 0 | 1 | n + 2 => simp only [andThen, hd, Exit.ofPanics, Unwind.ret]
  · simp only [scope, hx, Exit.ofPanics]
    match n with
    | 0 | 1 => simp only [hd, Exit.ofPanics]
    | n + 2 =>
        simp only [hd, Exit.ofPanics, Nat.add_comm 1 (n + 2)]

/-- A value that was moved out is not dropped. -/
theorem onUnwind_ret (h : x s = (.ret a, s')) (d : Unwind P σ Unit) :
    onUnwind x d s = (.ret a, s') := by
  simp only [onUnwind, h]

/-- A value that is dropped because of a panic, with a destructor that may panic too. -/
theorem onUnwind_unwind {x : Unwind Unit σ α} {d : Unwind Unit σ Unit} {n : ℕ} {s'' : σ}
    (h : x s = (.unwind (), s')) (hd : d s' = (.ofPanics n, s'')) :
    onUnwind x d s = (if n = 0 then .unwind () else .abort, s'') := by
  simp only [onUnwind, h, hd]
  match n with
  | 0 | 1 | n + 2 => simp [Exit.ofPanics]

/-- A scope that computes a good value and then runs a destructor returns exactly when the
destructor does. -/
theorem returns_iff_of_after {q : Option P} {Q : α → Prop} (h : x s = (.after q a, s'))
    (hQ : Q a) : x.Returns s Q ↔ q = none := by
  constructor
  · rintro ⟨b, s'', e, -⟩
    rw [h] at e
    exact (Exit.after_eq_ret_iff.mp (Prod.mk.inj e).1).1
  · rintro rfl
    exact ⟨a, s', h, hQ⟩

end Ends

end Unwind
