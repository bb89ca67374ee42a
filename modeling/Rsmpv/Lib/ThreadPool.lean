import Mathlib.Algebra.BigOperators.Group.Finset.Basic
import Mathlib.Algebra.Order.BigOperators.Group.Finset
import Rsmpv.Lib.Transition

/-!
# Pools of Threads over Shared Memory

Any number of threads run over one shared memory, one atomic step of one thread at a
time. A `Pool` is the shared memory with the control point of every thread; a program
is a relation `Move s t sh p`: in the pool `s`, thread `t` can step to the shared memory
`sh` and the control point `p`. The module gives the four tools the invariants of such
programs are made from:

* `Pool.reachable_assertions`, the interference-freedom rule: an assertion on the shared
  memory and one per thread hold in every reachable pool when each step keeps its own
  and disturbs nobody else's;
* `ledger`, the ledger rule: one thread's step changes a sum over all threads by
  what that thread gains and loses;
* `Owned.move`, mutual exclusion: lock owners and control points stay in agreement when
  every step keeps, takes or releases a lock;
* `exists_unblocked`, deadlock freedom from a lock order.
-/

/-- Shared memory and the control point of each thread. -/
structure Pool (T Sh Pc : Type*) where
  shared : Sh
  pc : T → Pc

namespace Pool

variable {T Sh Pc : Type*}

section Moves

variable [DecidableEq T]

/-- Thread `t` steps to the shared memory `sh` and the control point `p`. -/
def move (s : Pool T Sh Pc) (t : T) (sh : Sh) (p : Pc) : Pool T Sh Pc where
  shared := sh
  pc := Function.update s.pc t p

/-- The shared memory after a step. -/
@[simp] theorem move_shared (s : Pool T Sh Pc) (t : T) (sh : Sh) (p : Pc) :
    (s.move t sh p).shared = sh := rfl

/-- The control points after a step. -/
@[simp] theorem move_pc (s : Pool T Sh Pc) (t : T) (sh : Sh) (p : Pc) :
    (s.move t sh p).pc = Function.update s.pc t p := rfl

/-- A thread that stays where it is. -/
theorem move_self (s : Pool T Sh Pc) (t : T) : s.move t s.shared (s.pc t) = s := by
  rw [move, Function.update_eq_self]

/-- Two steps of one thread. -/
theorem move_move (s : Pool T Sh Pc) (t : T) (sh sh' : Sh) (p p' : Pc) :
    (s.move t sh p).move t sh' p' = s.move t sh' p' := by
  rw [move, move_pc, Function.update_idem]
  rfl

/-- Some thread is at a certain place: `t`, or another one. -/
theorem exists_pc (P : Pc → Prop) (s : Pool T Sh Pc) (t : T) :
    (∃ u, P (s.pc u)) ↔ P (s.pc t) ∨ ∃ u, u ≠ t ∧ P (s.pc u) := by
  constructor
  · rintro ⟨u, hu⟩
    by_cases hut : u = t
    · subst hut
      exact .inl hu
    · exact .inr ⟨u, hut, hu⟩
  · rintro (ht | ⟨u, -, hu⟩)
    · exact ⟨t, ht⟩
    · exact ⟨u, hu⟩

/-- The same after a step of `t`: the others are where they were. -/
theorem exists_pc_move (P : Pc → Prop) (s : Pool T Sh Pc) (t : T) (sh : Sh) (p : Pc) :
    (∃ u, P ((s.move t sh p).pc u)) ↔ P p ∨ ∃ u, u ≠ t ∧ P (s.pc u) := by
  rw [exists_pc P _ t, move_pc, Function.update_self]
  refine or_congr_right (exists_congr fun u => and_congr_right fun hu => ?_)
  rw [Function.update_of_ne hu]

/-- The transition system of a program; a step is labelled with the thread that takes
it. -/
def system (init : Pool T Sh Pc → Prop) (Move : Pool T Sh Pc → T → Sh → Pc → Prop) :
    Lts (Pool T Sh Pc) T where
  init := init
  step s t s' := ∃ sh p, Move s t sh p ∧ s' = s.move t sh p

section Assertions

variable {init : Pool T Sh Pc → Prop} {Move : Pool T Sh Pc → T → Sh → Pc → Prop}

/-- **Interference freedom.** `G` speaks of the shared memory and `L` of one thread. If
each step keeps `G` and its own thread's `L`, and disturbs no other thread's `L`, all of
them hold in every reachable pool. The steps may use a known invariant `K`. -/
theorem reachable_assertions {K : Pool T Sh Pc → Prop} {G : Sh → Prop}
    {L : Sh → T → Pc → Prop} (hK : ∀ s, (system init Move).Reachable s → K s)
    (hinit : ∀ s, init s → G s.shared ∧ ∀ u, L s.shared u (s.pc u))
    (hown : ∀ s t sh p, K s → G s.shared → (∀ u, L s.shared u (s.pc u)) →
      Move s t sh p → G sh ∧ L sh t p)
    (hother : ∀ s t sh p u, K s → G s.shared → (∀ u, L s.shared u (s.pc u)) →
      Move s t sh p → u ≠ t → L sh u (s.pc u))
    {s : Pool T Sh Pc} (h : (system init Move).Reachable s) :
    G s.shared ∧ ∀ u, L s.shared u (s.pc u) := by
  refine Lts.Reachable.invariant_of (K := K)
    (I := fun s => G s.shared ∧ ∀ u, L s.shared u (s.pc u)) hK (fun s hs => hinit s hs) ?_ h
  rintro s t s' hKs ⟨hG, hL⟩ ⟨sh, p, hmove, rfl⟩
  obtain ⟨hG', hLt⟩ := hown s t sh p hKs hG hL hmove
  refine ⟨hG', fun u => ?_⟩
  by_cases hu : u = t
  · subst hu
    simpa using hLt
  · simpa [Function.update_of_ne hu] using hother s t sh p u hKs hG hL hmove hu

end Assertions

/-! ### The ledger rule -/

/-- One thread's move changes a sum over all threads by that thread's own share. -/
theorem ledger [Fintype T] (F : Pc → ℕ) (pc : T → Pc) (t : T) (p : Pc) :
    (∑ u, F (Function.update pc t p u)) + F (pc t) = (∑ u, F (pc u)) + F p := by
  have hnew := Finset.add_sum_erase Finset.univ (fun u => F (Function.update pc t p u))
    (Finset.mem_univ t)
  have hold := Finset.add_sum_erase Finset.univ (fun u => F (pc u)) (Finset.mem_univ t)
  have hrest : (∑ u ∈ Finset.univ.erase t, F (Function.update pc t p u)) =
      ∑ u ∈ Finset.univ.erase t, F (pc u) :=
    Finset.sum_congr rfl fun u hu => by
      rw [Function.update_of_ne (Finset.ne_of_mem_erase hu)]
  simp only [Function.update_self] at hnew
  omega

end Moves

/-- A thread's own share is part of the sum. -/
theorem le_sum [Fintype T] (F : Pc → ℕ) (pc : T → Pc) (t : T) :
    F (pc t) ≤ ∑ u, F (pc u) :=
  Finset.single_le_sum (f := fun u => F (pc u)) (fun _ _ => Nat.zero_le _)
    (Finset.mem_univ t)

/-! ### Mutual exclusion -/

section Locks

variable {Lk : Type*}

/-- The recorded owners of the locks are the threads whose control point holds them. -/
def Owned (holds : Pc → Lk → Prop) (lock : Lk → Option T) (pc : T → Pc) : Prop :=
  ∀ ℓ t, lock ℓ = some t ↔ holds (pc t) ℓ

/-- No two threads hold one lock. -/
theorem Owned.unique {holds : Pc → Lk → Prop} {lock : Lk → Option T} {pc : T → Pc}
    (h : Owned holds lock pc) {ℓ : Lk} {t u : T} (ht : holds (pc t) ℓ)
    (hu : holds (pc u) ℓ) : t = u := by
  have e : some t = some u := ((h ℓ t).mpr ht).symm.trans ((h ℓ u).mpr hu)
  exact Option.some.inj e

/-- Nobody holds a free lock. -/
theorem Owned.not_holds {holds : Pc → Lk → Prop} {lock : Lk → Option T} {pc : T → Pc}
    (h : Owned holds lock pc) {ℓ : Lk} (hfree : lock ℓ = none) (t : T) :
    ¬ holds (pc t) ℓ := by
  rw [← h ℓ t, hfree]
  simp

variable [DecidableEq Lk]

/-- What one step of thread `t` from `p` to `p'` may do to the locks. -/
inductive LockEffect (holds : Pc → Lk → Prop) (t : T) (p p' : Pc)
    (lock : Lk → Option T) : (Lk → Option T) → Prop
  | keep : (∀ ℓ, holds p' ℓ ↔ holds p ℓ) → LockEffect holds t p p' lock lock
  | take (ℓ : Lk) : lock ℓ = none → holds p' ℓ →
      (∀ ℓ', ℓ' ≠ ℓ → (holds p' ℓ' ↔ holds p ℓ')) →
      LockEffect holds t p p' lock (Function.update lock ℓ (some t))
  | release (ℓ : Lk) : holds p ℓ → ¬ holds p' ℓ →
      (∀ ℓ', ℓ' ≠ ℓ → (holds p' ℓ' ↔ holds p ℓ')) →
      LockEffect holds t p p' lock (Function.update lock ℓ none)

variable {holds : Pc → Lk → Prop} {lock lock' : Lk → Option T} {pc : T → Pc}

/-- A step leaves a lock that is owned and that its thread does not hold. -/
theorem LockEffect.kept {t u : T} {p p' : Pc} (he : LockEffect holds t p p' lock lock')
    {ℓ : Lk} (hnot : ¬ holds p ℓ) (hlock : lock ℓ = some u) : lock' ℓ = some u := by
  cases he with
  | keep => exact hlock
  | take m hfree _ _ =>
      have hm : ℓ ≠ m := by
        rintro rfl
        rw [hfree] at hlock
        cases hlock
      rwa [Function.update_of_ne hm]
  | release m hp _ _ =>
      have hm : ℓ ≠ m := by
        rintro rfl
        exact hnot hp
      rwa [Function.update_of_ne hm]

/-- After its step a thread owns what its control point holds, if it did before. -/
theorem LockEffect.own {t : T} {p p' : Pc} (he : LockEffect holds t p p' lock lock')
    (h : ∀ ℓ, holds p ℓ → lock ℓ = some t) {ℓ : Lk} (hp' : holds p' ℓ) : lock' ℓ = some t := by
  cases he with
  | keep hk => exact h ℓ ((hk ℓ).mp hp')
  | take m _ _ hrest =>
      by_cases hm : ℓ = m
      · subst hm
        exact Function.update_self _ _ _
      · rw [Function.update_of_ne hm]
        exact h ℓ ((hrest ℓ hm).mp hp')
  | release m _ hnot hrest =>
      have hm : ℓ ≠ m := by
        rintro rfl
        exact hnot hp'
      rw [Function.update_of_ne hm]
      exact h ℓ ((hrest ℓ hm).mp hp')

/-- A lock that is owned after the step was taken by it, or was owned before; if the thread held
it then, it still does. -/
theorem LockEffect.owner {t u : T} {p p' : Pc} (he : LockEffect holds t p p' lock lock')
    {ℓ : Lk} (h : lock' ℓ = some u) :
    (t = u ∧ holds p' ℓ) ∨ (lock ℓ = some u ∧ (holds p ℓ → holds p' ℓ)) := by
  cases he with
  | keep hk => exact .inr ⟨h, (hk ℓ).mpr⟩
  | take m _ hp' hrest =>
      by_cases hm : ℓ = m
      · subst hm
        rw [Function.update_self] at h
        exact .inl ⟨Option.some.inj h, hp'⟩
      · rw [Function.update_of_ne hm] at h
        exact .inr ⟨h, (hrest ℓ hm).mpr⟩
  | release m _ _ hrest =>
      by_cases hm : ℓ = m
      · subst hm
        rw [Function.update_self] at h
        cases h
      · rw [Function.update_of_ne hm] at h
        exact .inr ⟨h, (hrest ℓ hm).mpr⟩

variable [DecidableEq T]

/-- **Mutual exclusion** is kept by a step that keeps, takes or releases a lock. -/
theorem Owned.move (h : Owned holds lock pc) {t : T} {p' : Pc}
    (he : LockEffect holds t (pc t) p' lock lock') :
    Owned holds lock' (Function.update pc t p') := by
  intro ℓ u
  by_cases hu : u = t
  · subst hu
    rw [Function.update_self]
    constructor
    · intro hlock
      rcases he.owner hlock with ⟨-, hp'⟩ | ⟨hold, hkept⟩
      · exact hp'
      · exact hkept ((h ℓ u).mp hold)
    · exact he.own fun ℓ hp => (h ℓ u).mpr hp
  · rw [Function.update_of_ne hu]
    constructor
    · intro hlock
      rcases he.owner hlock with ⟨htu, -⟩ | ⟨hold, -⟩
      · exact absurd htu.symm hu
      · exact (h ℓ u).mp hold
    · intro hheld
      have hnot : ¬ holds (pc t) ℓ := fun ht => hu (h.unique hheld ht)
      exact he.kept hnot ((h ℓ u).mpr hheld)

end Locks

/-! ### Deadlock freedom from a lock order -/

/-- **Lock order.** Every lock has a rank below `n`, and a thread waiting for a lock
holds only locks of smaller rank. If some thread is active, and lock holders are, then
some active thread is not blocked: what it waits for, if anything, is free. -/
theorem exists_unblocked {T Lk : Type*} {n : ℕ} {rank : Lk → ℕ} (hrank : ∀ ℓ, rank ℓ < n)
    {lock : Lk → Option T} {wants : T → Option Lk} {active : T → Prop}
    (hholder : ∀ ℓ t, lock ℓ = some t → active t)
    (horder : ∀ t ℓ ℓ', wants t = some ℓ → lock ℓ' = some t → rank ℓ' < rank ℓ)
    (hactive : ∃ t, active t) :
    ∃ t, active t ∧ ∀ ℓ, wants t = some ℓ → lock ℓ = none := by
  -- Follow the chain of holders: the rank waited for goes up with every link.
  suffices H : ∀ k t, active t → (∀ ℓ, wants t = some ℓ → n - rank ℓ ≤ k) →
      ∃ t, active t ∧ ∀ ℓ, wants t = some ℓ → lock ℓ = none by
    obtain ⟨t, ht⟩ := hactive
    exact H n t ht fun ℓ _ => Nat.sub_le n (rank ℓ)
  intro k
  induction k with
  | zero =>
      intro t ht hk
      refine ⟨t, ht, fun ℓ hℓ => ?_⟩
      have h1 := hk ℓ hℓ
      have h2 := hrank ℓ
      omega
  | succ k ih =>
      intro t ht hk
      by_cases hfree : ∀ ℓ, wants t = some ℓ → lock ℓ = none
      · exact ⟨t, ht, hfree⟩
      · push Not at hfree
        obtain ⟨ℓ, hℓ, hheld⟩ := hfree
        obtain ⟨u, hu⟩ := Option.ne_none_iff_exists'.mp hheld
        refine ih u (hholder ℓ u hu) fun ℓ' hℓ' => ?_
        have h1 := hk ℓ hℓ
        have h2 := horder u ℓ' ℓ hℓ' hu
        have h3 := hrank ℓ'
        omega

end Pool
