import Rsmpv.Slot.Model

/-!
# Lock Ownership and Progress of the Callback Slot

Each control point of `set`, `teardown` and `trampoline` holds a fixed set of locks, and
each step keeps it, takes one lock or releases one (`Move.lockEffect`). Hence the
recorded owner of a lock is always the one thread whose control point holds it
(`slot_owned`), so every operation that finished or unwound has released what it took.

The locks are ordered: the registration lock before libmpv's dispatch lock before the
slot lock (`Lock.rank`). Wherever a thread waits, it holds only smaller ones
(`Pc.lockStep_order`) — `register` is called under the registration lock, a dispatch takes
the slot lock under the dispatch lock, and under the slot lock nothing is awaited — so in
no reachable state is every thread with an unfinished operation blocked.

## Main results

* `Move.lockEffect`: a step keeps the locks, takes one that is free, or releases one.
* `slot_owned`: the owner of a lock is the thread whose control point holds it.
* `Pc.lockStep_order`: a thread waits for a lock only with smaller ones in hand.
* `callback_locking_deadlock_free`: while an operation is unfinished, some thread can step.
-/

namespace Rsmpv

/-! ### The places where a lock is taken or released -/

/-- The places where a lock is taken. -/
inductive LockStep : Pc → Lock → Pc → Prop
  | setRegistration (c : Callback) :
      LockStep (.set (.lockRegistration c)) .registration (.set (.leak c))
  | setSlot (c : Callback) : LockStep (.set (.lockSlot c)) .slot (.set (.replace c))
  | register (prev : Option Callback) :
      LockStep (.set (.register prev)) .dispatch (.set (.enter prev))
  | teardownRegistration (d : Bool) :
      LockStep (.teardown d .lockRegistration) .registration (.teardown d .unregister)
  | unregister (d : Bool) :
      LockStep (.teardown d .unregister) .dispatch (.teardown d .clear)
  | teardownSlot (d : Bool) : LockStep (.teardown d .lockSlot) .slot (.teardown d .take)
  | dispatch : LockStep .dispatching .dispatch (.trampoline .libmpv .lock)
  | trampoline (caller : Caller) :
      LockStep (.trampoline caller .lock) .slot (.trampoline caller .clone)

/-- A lock is taken in one of these places. -/
theorem Pc.lockStep_cases {p p' : Pc} {ℓ : Lock} (h : p.lockStep = some (ℓ, p')) :
    LockStep p ℓ p' := by
  unfold Pc.lockStep at h
  split at h
  case h_8 caller q =>
    cases q <;> cases h
    exact .trampoline caller
  all_goals cases h
  all_goals constructor

/-- The places where a lock is released. -/
inductive UnlockStep : Pc → Lock → Pc → Prop
  | setSlot (prev : Option Callback) :
      UnlockStep (.set (.unlockSlot prev)) .slot (.set (.register prev))
  | registered (prev : Option Callback) :
      UnlockStep (.set (.registering prev)) .dispatch (.set (.unlockRegistration prev))
  | setRegistration (prev : Option Callback) :
      UnlockStep (.set (.unlockRegistration prev)) .registration (.drop prev)
  | unregistered (d : Bool) :
      UnlockStep (.teardown d .unregistered) .dispatch (.teardown d .lockSlot)
  | teardownRegistration (d : Bool) (cb : Option Callback) :
      UnlockStep (.teardown d (.unlockRegistration cb)) .registration
        (.teardown d (.unlockSlot cb))
  | teardownSlot (d : Bool) (cb : Option Callback) :
      UnlockStep (.teardown d (.unlockSlot cb)) .slot (.teardown d (.destroy cb))
  | dispatched : UnlockStep (.trampoline .libmpv .ret) .dispatch .idle
  | cloned (caller : Caller) (c : Callback) :
      UnlockStep (.trampoline caller (.unlock (some c))) .slot (.trampoline caller (.call c))
  | empty (caller : Caller) :
      UnlockStep (.trampoline caller (.unlock none)) .slot (.trampoline caller .ret)

/-- A lock is released in one of these places. -/
theorem Pc.unlockStep_cases {p p' : Pc} {ℓ : Lock} (h : p.unlockStep = some (ℓ, p')) :
    UnlockStep p ℓ p' := by
  unfold Pc.unlockStep at h
  split at h
  case h_8 caller q _ =>
    cases q with
    | unlock cb =>
        cases cb with
        | none => cases h; exact .empty caller
        | some c => cases h; exact .cloned caller c
    | _ => cases h
  all_goals cases h
  all_goals constructor

/-! ### Locks held at a control point -/

/-- Taking a lock adds exactly that lock. -/
theorem Pc.lockStep_holds {p p' : Pc} {ℓ : Lock} (h : p.lockStep = some (ℓ, p')) :
    p.holds ℓ = false ∧ p'.holds ℓ = true ∧ ∀ ℓ', ℓ' ≠ ℓ → p'.holds ℓ' = p.holds ℓ' := by
  cases Pc.lockStep_cases h with
  | trampoline caller =>
      refine ⟨by cases caller <;> rfl, by cases caller <;> rfl, fun ℓ' hne => ?_⟩
      cases ℓ' <;> cases caller <;> first | rfl | exact absurd rfl hne
  | _ =>
      refine ⟨rfl, rfl, fun ℓ' hne => ?_⟩
      cases ℓ' <;> first | rfl | exact absurd rfl hne

/-- Releasing a lock removes exactly that lock. -/
theorem Pc.unlockStep_holds {p p' : Pc} {ℓ : Lock} (h : p.unlockStep = some (ℓ, p')) :
    p.holds ℓ = true ∧ p'.holds ℓ = false ∧ ∀ ℓ', ℓ' ≠ ℓ → p'.holds ℓ' = p.holds ℓ' := by
  cases Pc.unlockStep_cases h with
  | cloned caller | empty caller =>
      refine ⟨by cases caller <;> rfl, by cases caller <;> rfl, fun ℓ' hne => ?_⟩
      cases ℓ' <;> cases caller <;> first | rfl | exact absurd rfl hne
  | _ =>
      refine ⟨rfl, rfl, fun ℓ' hne => ?_⟩
      cases ℓ' <;> first | rfl | exact absurd rfl hne

/-- The locks a thread holds at a control point under libmpv `m`. -/
def Libmpv.holds (m : Libmpv) (p : Pc) (ℓ : Lock) : Prop :=
  m.has ℓ = true ∧ p.holds ℓ = true

variable {T : Type*} {m : Libmpv} {s : SlotState T} {t : T} {sh : Shared T} {p : Pc}

/-- Between two operations a thread holds no lock. -/
theorem Pc.idle_holds (ℓ : Lock) : Pc.idle.holds ℓ = false := by
  cases ℓ <;> rfl

/-- A lock that a control point does not hold. -/
theorem Libmpv.not_holds {ℓ : Lock} (h : p.holds ℓ = false) : ¬ m.holds p ℓ := by
  rintro ⟨-, hheld⟩
  rw [h] at hheld
  exact Bool.false_ne_true hheld

/-- A step keeps the locks, takes one that is free, or releases one. -/
theorem Move.lockEffect [DecidableEq T] (h : Move m s t sh p) :
    Pool.LockEffect m.holds t (s.pc t) p s.shared.lock sh.lock := by
  have same : ∀ q : Pc, s.pc t = q → (∀ ℓ, p.holds ℓ = q.holds ℓ) →
      Pool.LockEffect m.holds t (s.pc t) p s.shared.lock s.shared.lock := by
    rintro q rfl hq
    exact .keep fun ℓ => by simp [Libmpv.holds, hq ℓ]
  cases h with
  | @lock ℓ _ hstep hfree =>
      obtain ⟨-, hnew, hrest⟩ := Pc.lockStep_holds hstep
      by_cases hm : m.has ℓ = true
      · rw [Shared.acquire_has hm]
        refine .take ℓ (hfree hm) ⟨hm, hnew⟩ fun ℓ' hne => ?_
        simp [Libmpv.holds, hrest ℓ' hne]
      · rw [Shared.acquire, if_neg hm]
        refine .keep fun ℓ' => ?_
        by_cases hne : ℓ' = ℓ
        · subst hne; simp [Libmpv.holds, hm]
        · simp [Libmpv.holds, hrest ℓ' hne]
  | @unlock ℓ _ hstep =>
      obtain ⟨hold, hnew, hrest⟩ := Pc.unlockStep_holds hstep
      by_cases hm : m.has ℓ = true
      · rw [Shared.release_has hm]
        refine .release ℓ ⟨hm, hold⟩ (by simp [Libmpv.holds, hnew]) fun ℓ' hne => ?_
        simp [Libmpv.holds, hrest ℓ' hne]
      · rw [Shared.release, if_neg hm]
        refine .keep fun ℓ' => ?_
        by_cases hne : ℓ' = ℓ
        · subst hne; simp [Libmpv.holds, hm]
        · simp [Libmpv.holds, hrest ℓ' hne]
  | leak hp =>
      obtain ⟨_, e⟩ := s.shared.leak_eq
      rw [e]
      exact same _ hp fun ℓ => by cases ℓ <;> rfl
  | @clone caller hp =>
      obtain ⟨_, e⟩ := s.shared.cloneSlot_eq
      rw [e]
      exact same _ hp fun ℓ => by cases ℓ <;> cases caller <;> rfl
  | @call caller _ _ hp | @dropCloneShared caller _ _ hp | @dropCloneLast caller _ _ hp
  | @cloneDestructor caller _ _ hp | @abort caller _ hp =>
      exact same _ hp fun ℓ => by cases ℓ <;> cases caller <;> rfl
  | beginSet hp | beginClear hp | beginTeardown hp | beginDrop hp | beginDispatch hp
  | replace hp | register hp | raise hp | raised hp | unregister hp | take hp | destroy hp
  | dropNone hp | dropShared hp | dropLast hp | destructor hp =>
      exact same _ hp fun ℓ => by cases ℓ <;> rfl

/-- **Mutual exclusion**: the owner of a lock is the thread whose control point holds
it. -/
theorem slot_owned [DecidableEq T] (h : (slotSystem T m).Reachable s) :
    Pool.Owned m.holds s.shared.lock s.pc := by
  refine h.invariant (I := fun s => Pool.Owned m.holds s.shared.lock s.pc) ?_ ?_
  · rintro s rfl ℓ t
    cases ℓ <;> simp [Libmpv.holds, Pc.holds]
  · rintro s t s' hs ⟨sh, p, ⟨-, hmove⟩, rfl⟩
    exact hs.move hmove.lockEffect

/-- A thread between two operations holds no lock. -/
theorem lock_ne_of_idle [DecidableEq T] (h : (slotSystem T m).Reachable s)
    (ht : s.pc t = .idle) (ℓ : Lock) : s.shared.lock ℓ ≠ some t := by
  rw [Ne, slot_owned h ℓ t, ht]
  exact Libmpv.not_holds (Pc.idle_holds ℓ)

/-! ### The lock order -/

/-- The order in which the locks are taken. -/
def Lock.rank : Lock → ℕ
  | .registration => 0
  | .dispatch => 1
  | .slot => 2

/-- A thread waits for a lock only with smaller ones in hand. -/
theorem Pc.lockStep_order {p p' : Pc} {ℓ ℓ' : Lock} (h : p.lockStep = some (ℓ, p'))
    (hheld : p.holds ℓ' = true) : ℓ'.rank < ℓ.rank := by
  cases Pc.lockStep_cases h with
  | trampoline caller => cases ℓ' <;> cases caller <;> simp [Pc.holds, Lock.rank] at hheld ⊢
  | _ => cases ℓ' <;> simp [Pc.holds, Lock.rank] at hheld ⊢

/-! ### Progress -/

/-- A thread inside an operation whose awaited lock, if any, is free can step. -/
theorem Move.enabled (hp : s.pc t ≠ .idle)
    (hfree : ∀ ℓ q, (s.pc t).lockStep = some (ℓ, q) → s.shared.free m ℓ) :
    ∃ sh p, Move m s t sh p := by
  have take : ∀ {ℓ q}, (s.pc t).lockStep = some (ℓ, q) → ∃ sh p, Move m s t sh p :=
    fun hq => ⟨_, _, .lock hq (hfree _ _ hq)⟩
  have leave : ∀ {ℓ q}, (s.pc t).unlockStep = some (ℓ, q) → ∃ sh p, Move m s t sh p :=
    fun hq => ⟨_, _, .unlock hq⟩
  cases e : s.pc t with
  | idle => exact absurd e hp
  | set q =>
      cases q with
      | lockRegistration c => exact take (by rw [e]; rfl)
      | leak c => exact ⟨_, _, .leak e⟩
      | lockSlot c => exact take (by rw [e]; rfl)
      | replace c => exact ⟨_, _, .replace e⟩
      | unlockSlot prev => exact leave (by rw [e]; rfl)
      | register prev => exact take (by rw [e]; rfl)
      | enter prev => exact ⟨_, _, .register e⟩
      | registering prev => exact leave (by rw [e]; rfl)
      | unlockRegistration prev => exact leave (by rw [e]; rfl)
  | teardown d q =>
      cases q with
      | lockRegistration => exact take (by rw [e]; rfl)
      | unregister => exact take (by rw [e]; rfl)
      | clear => exact ⟨_, _, .unregister e⟩
      | unregistered => exact leave (by rw [e]; rfl)
      | lockSlot => exact take (by rw [e]; rfl)
      | take => exact ⟨_, _, .take e⟩
      | unlockRegistration cb => exact leave (by rw [e]; rfl)
      | unlockSlot cb => exact leave (by rw [e]; rfl)
      | destroy cb => exact ⟨_, _, .destroy e⟩
  | drop cb =>
      cases cb with
      | none => exact ⟨_, _, .dropNone e⟩
      | some c =>
          by_cases hone : s.shared.strong c = 1
          · exact ⟨_, _, .dropLast e hone⟩
          · exact ⟨_, _, .dropShared e hone⟩
  | destructor c => exact ⟨_, _, .destructor e⟩
  | dispatching => exact take (by rw [e]; rfl)
  | trampoline caller q =>
      cases q with
      | lock => exact take (by rw [e]; rfl)
      | clone => exact ⟨_, _, .clone e⟩
      | unlock cb => cases cb <;> cases caller <;> exact leave (by rw [e]; rfl)
      | call c => exact ⟨_, _, .call false e⟩
      | drop c panicking =>
          by_cases hone : s.shared.strong c = 1
          · exact ⟨_, _, .dropCloneLast e hone⟩
          · exact ⟨_, _, .dropCloneShared e hone⟩
      | destructor c panicking => exact ⟨_, _, .cloneDestructor e⟩
      | ret =>
          cases caller with
          | libmpv => exact leave (by rw [e]; rfl)
          | register prev => exact ⟨_, _, .raised e⟩

/-- In every reachable state with an unfinished operation, some thread inside one is not
blocked: the lock it waits for, if any, is free. -/
theorem exists_unblocked [DecidableEq T] (h : (slotSystem T m).Reachable s)
    (hbusy : ∃ t, s.pc t ≠ .idle) :
    ∃ t, s.pc t ≠ .idle ∧ ∀ ℓ q, (s.pc t).lockStep = some (ℓ, q) → s.shared.free m ℓ := by
  have howned := slot_owned h
  have hrank : ∀ ℓ : Lock, ℓ.rank < 3 := by
    intro ℓ; cases ℓ <;> decide
  have hholder : ∀ ℓ t, s.shared.lock ℓ = some t → s.pc t ≠ .idle :=
    fun ℓ t hl hidle => lock_ne_of_idle h hidle ℓ hl
  have horder : ∀ t ℓ ℓ', (s.pc t).lockStep.map Prod.fst = some ℓ →
      s.shared.lock ℓ' = some t → ℓ'.rank < ℓ.rank := by
    intro t ℓ ℓ' hw hl
    obtain ⟨⟨ℓ₁, q⟩, hq, rfl⟩ := Option.map_eq_some_iff.mp hw
    exact Pc.lockStep_order hq ((howned ℓ' t).mp hl).2
  obtain ⟨t, ht, hfree⟩ := Pool.exists_unblocked hrank hholder horder hbusy
  exact ⟨t, ht, fun ℓ q hq _ => hfree ℓ (by rw [hq]; rfl)⟩

/-- **The callback locking never deadlocks.** For any number of threads in `set`,
`teardown` and dispatches, with or without a libmpv dispatch lock: while an operation is
unfinished, some thread inside one is not blocked, and as long as the process lives it
can take a step; and a thread whose operation has finished or unwound owns no lock. -/
theorem callback_locking_deadlock_free (T : Type*) [DecidableEq T] (m : Libmpv)
    (s : SlotState T) (h : (slotSystem T m).Reachable s) :
    ((∃ t, s.pc t ≠ .idle) →
      ∃ t, s.pc t ≠ .idle ∧ (∀ ℓ q, (s.pc t).lockStep = some (ℓ, q) → s.shared.free m ℓ) ∧
        (s.shared.aborted = false → ∃ s', (slotSystem T m).step s t s')) ∧
    ∀ t, s.pc t = .idle → ∀ ℓ, s.shared.lock ℓ ≠ some t := by
  refine ⟨fun hbusy => ?_, fun t ht ℓ => lock_ne_of_idle h ht ℓ⟩
  obtain ⟨t, ht, hfree⟩ := exists_unblocked h hbusy
  refine ⟨t, ht, hfree, fun hlive => ?_⟩
  obtain ⟨sh, p, hmove⟩ := Move.enabled ht hfree
  exact ⟨s.move t sh p, sh, p, ⟨hlive, hmove⟩, rfl⟩

/-- With an invocation in progress on one thread, some thread can step. -/
theorem invocation_not_deadlocked : ∃ s : SlotState (Fin 2),
    s.pc 1 = .trampoline .libmpv (.call 0) ∧
      ∃ t s', s.pc t ≠ .idle ∧ (slotSystem (Fin 2) ⟨true⟩).step s t s' := by
  obtain ⟨s, hs, -, hlive, hp⟩ := exists_invocation
  obtain ⟨t, ht, -, hstep⟩ :=
    (callback_locking_deadlock_free (Fin 2) ⟨true⟩ s hs).1 ⟨1, by rw [hp]; nofun⟩
  obtain ⟨s', hs'⟩ := hstep hlive
  exact ⟨s, hp, t, s', ht, hs'⟩

end Rsmpv
