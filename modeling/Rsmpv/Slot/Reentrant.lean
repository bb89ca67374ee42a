import Rsmpv.Slot.Solo

/-!
# Calls from inside a Callback

The documentation forbids a callback to call `set_wakeup_callback` or `clear_wakeup_callback`, or
to drop the player, and its captures to do so in their `Drop`; a comment of `CallbackSlot` says
that such a call would deadlock, and that it would deadlock on libmpv's own lock anyway. Here the
closures and their destructors do make these calls: a thread is a stack of control points, each
below the top inside a closure that made the call above it. A mutex that its own thread locks
again blocks.

What happens is decided by the locks that the closure holds where it makes the call
(`reentrant_call_returns_iff`). If it holds one, the call never returns, and no other thread ever
gets that lock again. If it holds none, the call can return. The dispatches hold libmpv's lock if
it serializes them, and those that `register` raises hold the registration lock as well; the
destructors that `set` and `teardown` run at their end hold nothing. So the calls do not deadlock
only in these destructors, and in the dispatches that a libmpv without a lock starts.

## Main results

* `CallStack.Nested.step`, `reentrant_nested`: what the stacks of all threads are like in
  every reachable state.
* `before_of_run`: a thread that has to take a lock which its own closure holds stays before
  it, and so does everybody else.
* `Solo.begun`: alone, a call that has begun runs to its end.
* `reentrant_call_returns_iff`: a call from a closure can return exactly where no lock is
  held.
-/

namespace Rsmpv

/-- The control points of a thread: the call that is running, and those it was made from, the
last one first. -/
structure CallStack where
  top : Pc
  outer : List Pc

/-- Inside a closure: its call, or its destructor. -/
def Pc.userCode : Pc → Bool
  | .trampoline _ (.call _) | .trampoline _ (.destructor _ _) | .destructor _ => true
  | _ => false

/-- The operation of the owner that a thread is in, or else where it is. -/
def CallStack.shown (k : CallStack) : Pc := ((k.top :: k.outer).find? Pc.ownerOp).getD k.top

/-- A slot and the threads that use it, each with its stack. -/
abbrev ReentrantState (T : Type*) := Pool T (Shared T) CallStack

section Steps

variable {T : Type*} [DecidableEq T]

/-- The state as the running call of `t` finds it. -/
def running (s : ReentrantState T) (t : T) : SlotState T where
  shared := s.shared
  pc := Function.update (fun u => (s.pc u).shown) t (s.pc t).top

/-- `ReentrantMove m s t sh k`: thread `t` of `s` can step to the shared memory `sh` and the
stack `k`. -/
inductive ReentrantMove (m : Libmpv) (s : ReentrantState T) (t : T) :
    Shared T → CallStack → Prop
  /-- A step of the running call, or the beginning of one from outside. -/
  | step {sh : Shared T} {p : Pc} : (s.pc t).top ≠ .idle ∨ (s.pc t).outer = [] →
      Move m (running s t) t sh p → ReentrantMove m s t sh ⟨p, (s.pc t).outer⟩
  /-- The closure calls `set`. -/
  | enterSet : (s.pc t).top.userCode = true →
      ReentrantMove m s t { s.shared with
          next := s.shared.next + 1
          strong := Function.update s.shared.strong s.shared.next 1
          dropBegun := false }
        ⟨.set (.lockRegistration s.shared.next), (s.pc t).top :: (s.pc t).outer⟩
  /-- The closure calls `teardown`, to clear the callback or by dropping the owner. -/
  | enterTeardown (d : Bool) : (s.pc t).top.userCode = true →
      ReentrantMove m s t s.shared
        ⟨.teardown d .lockRegistration, (s.pc t).top :: (s.pc t).outer⟩
  /-- The call returns to the closure. -/
  | leave {p : Pc} {outer : List Pc} : (s.pc t).top = .idle → (s.pc t).outer = p :: outer →
      ReentrantMove m s t s.shared ⟨p, outer⟩

/-- The slot system in which closures make these calls. -/
def reentrantSystem (T : Type*) [DecidableEq T] (m : Libmpv) : Lts (ReentrantState T) T :=
  Pool.system (fun s => s = ⟨{}, fun _ => ⟨.idle, []⟩⟩)
    fun s t sh k => s.shared.aborted = false ∧ ReentrantMove m s t sh k

end Steps

/-! ### Before a lock is taken -/

/-- In `set` or `teardown`, before the registration lock is taken, or before the call of libmpv
takes the dispatch lock. -/
def Pc.before : Lock → Pc → Bool
  | .registration, .set (.lockRegistration _)
  | .registration, .teardown _ .lockRegistration => true
  | .dispatch, .set (.lockRegistration _) | .dispatch, .set (.leak _)
  | .dispatch, .set (.lockSlot _) | .dispatch, .set (.replace _)
  | .dispatch, .set (.unlockSlot _) | .dispatch, .set (.register _)
  | .dispatch, .teardown _ .lockRegistration | .dispatch, .teardown _ .unregister => true
  | _, _ => false

variable {T : Type*} {m : Libmpv} {t : T} {sh : Shared T} {p : Pc} {ℓ : Lock}

/-- Between two calls a thread has no lock to take. -/
theorem Pc.idle_not_before (ℓ : Lock) : ¬ Pc.before ℓ .idle = true := by
  cases ℓ <;> exact Bool.false_ne_true

/-- User code runs outside the slot lock, and is in no `set` or `teardown` that goes on. -/
theorem Pc.userCode_spec (h : p.userCode = true) :
    p.holds .slot = false ∧ ∀ ℓ, ¬ p.before ℓ = true := by
  unfold Pc.userCode at h
  split at h
  case h_1 caller c =>
    exact ⟨by cases caller <;> rfl, fun ℓ => by cases ℓ <;> exact Bool.false_ne_true⟩
  case h_2 caller c b =>
    exact ⟨by cases caller <;> rfl, fun ℓ => by cases ℓ <;> exact Bool.false_ne_true⟩
  case h_3 c => exact ⟨rfl, fun ℓ => by cases ℓ <;> exact Bool.false_ne_true⟩
  case h_4 => cases h

/-- Before a lock is taken it is not held. -/
theorem Pc.holds_of_before (h : p.before ℓ = true) : p.holds ℓ = false := by
  unfold Pc.before at h
  split at h <;> first | rfl | cases h

/-- **The wait**: a thread that has to take a lock stays before it while the lock is owned. -/
theorem Move.before {s : SlotState T} {u : T} (h : Move m s t sh p)
    (hbefore : (s.pc t).before ℓ = true) (hhas : m.has ℓ = true)
    (hlock : s.shared.lock ℓ = some u) : p.before ℓ = true := by
  cases h with
  | @lock ℓ' _ hstep hfree =>
      have hne : ℓ' ≠ ℓ := by
        rintro rfl
        rw [hfree hhas] at hlock
        cases hlock
      -- A step that takes another lock than `ℓ` comes before that.
      generalize s.pc t = q at hstep hbefore
      cases Pc.lockStep_cases hstep <;> cases ℓ <;>
        first | rfl | exact absurd rfl hne | cases hbefore
  | unlock hstep =>
      generalize s.pc t = q at hstep hbefore
      cases Pc.unlockStep_cases hstep <;> cases ℓ <;> first | rfl | cases hbefore
  | leak e | replace e =>
      rw [e] at hbefore
      cases ℓ <;> first | rfl | cases hbefore
  | beginSet e | beginClear e | beginTeardown e | beginDrop e | beginDispatch e | register e
  | raise e | raised e | unregister e | take e | destroy e | dropNone e | dropShared e | dropLast e
  | destructor e | clone e | call _ e | dropCloneShared e | dropCloneLast e | cloneDestructor e
  | abort e =>
      rw [e] at hbefore
      cases ℓ <;> cases hbefore

/-! ### The locks of a stack -/

/-- What a thread owns are the locks that its control points hold. Those below the top are in user
code, only the last of them holds any lock, and the call above it has that lock still to take. -/
structure CallStack.Nested (m : Libmpv) (sh : Shared T) (t : T) (k : CallStack) : Prop where
  owns : ∀ q ∈ k.top :: k.outer, ∀ ℓ, m.holds q ℓ → sh.lock ℓ = some t
  owner : ∀ ℓ, sh.lock ℓ = some t → ∃ q ∈ k.top :: k.outer, m.holds q ℓ
  user : ∀ q ∈ k.outer, q.userCode = true
  waits : ∀ q ∈ k.outer, ∀ ℓ, m.holds q ℓ → k.top.before ℓ = true
  below : ∀ q ∈ k.outer.tail, ∀ ℓ, ¬ m.holds q ℓ

/-- It speaks of the locks alone. -/
theorem CallStack.Nested.congr {sh' : Shared T} {k : CallStack} (h : k.Nested m sh t)
    (hlock : sh'.lock = sh.lock) : k.Nested m sh' t := by
  refine ⟨?_, ?_, h.user, h.waits, h.below⟩
  · rw [hlock]
    exact h.owns
  · rw [hlock]
    exact h.owner

/-- A call with no lock to take was made where none is held. -/
theorem CallStack.Nested.unheld {k : CallStack} (h : k.Nested m sh t)
    (hbefore : ∀ ℓ, ¬ k.top.before ℓ = true) : ∀ q ∈ k.outer, ∀ ℓ, ¬ m.holds q ℓ :=
  fun q hq ℓ hheld => hbefore ℓ (h.waits q hq ℓ hheld)

/-- The closure at the top makes a call, which begins before the locks it may hold. -/
theorem CallStack.Nested.enter {k : CallStack} (h : k.Nested m sh t)
    (huser : k.top.userCode = true) (hidle : ∀ ℓ, p.holds ℓ = false)
    (hbefore : p.before .registration = true ∧ p.before .dispatch = true) :
    CallStack.Nested m sh t ⟨p, k.top :: k.outer⟩ := by
  obtain ⟨hslot, htop⟩ := Pc.userCode_spec huser
  have hbelow := h.unheld htop
  refine ⟨?_, fun ℓ hℓ => ?_, ?_, ?_, hbelow⟩
  · intro q hq ℓ hheld
    rcases List.mem_cons.mp hq with rfl | hq
    · exact absurd hheld (Libmpv.not_holds (hidle ℓ))
    · exact h.owns q hq ℓ hheld
  · obtain ⟨q, hq, hheld⟩ := h.owner ℓ hℓ
    exact ⟨q, List.mem_cons_of_mem _ hq, hheld⟩
  · intro q hq
    rcases List.mem_cons.mp hq with rfl | hq
    · exact huser
    · exact h.user q hq
  · intro q hq ℓ hheld
    rcases List.mem_cons.mp hq with rfl | hq
    · cases ℓ with
      | registration => exact hbefore.1
      | dispatch => exact hbefore.2
      | slot => exact absurd hheld (Libmpv.not_holds hslot)
    · exact absurd hheld (hbelow q hq ℓ)

/-- Back in the closure no lock is held: a call that had one to wait for has not returned. -/
theorem CallStack.Nested.leave {outer : List Pc} (h : CallStack.Nested m sh t ⟨.idle, p :: outer⟩) :
    CallStack.Nested m sh t ⟨p, outer⟩ := by
  have hnone : ∀ q ∈ p :: outer, ∀ ℓ, ¬ m.holds q ℓ := h.unheld Pc.idle_not_before
  refine ⟨fun q hq ℓ hheld => absurd hheld (hnone q hq ℓ), fun ℓ hℓ => ?_,
    fun q hq => h.user q (List.mem_cons_of_mem _ hq),
    fun q hq ℓ hheld => absurd hheld (hnone q (List.mem_cons_of_mem _ hq) ℓ),
    fun q hq => hnone q (List.mem_cons_of_mem _ (List.mem_of_mem_tail hq))⟩
  obtain ⟨q, hq, hheld⟩ := h.owner ℓ hℓ
  rcases List.mem_cons.mp hq with rfl | hq
  · exact absurd hheld (Libmpv.not_holds (Pc.idle_holds ℓ))
  · exact absurd hheld (hnone q hq ℓ)

/-- A step of the running call. -/
theorem CallStack.Nested.step {k : CallStack} (h : k.Nested m sh t)
    {sh' : Shared T} (he : Pool.LockEffect m.holds t k.top p sh.lock sh'.lock)
    (hbefore : ∀ ℓ, k.top.before ℓ = true → m.has ℓ = true → sh.lock ℓ = some t →
      p.before ℓ = true) :
    CallStack.Nested m sh' t ⟨p, k.outer⟩ := by
  have htop : ∀ ℓ, m.holds k.top ℓ → sh.lock ℓ = some t :=
    h.owns k.top List.mem_cons_self
  refine ⟨?_, fun ℓ hℓ => ?_, h.user, ?_, h.below⟩
  · intro q hq ℓ hheld
    rcases List.mem_cons.mp hq with rfl | hq
    · exact he.own htop hheld
    · have hnot : ¬ m.holds k.top ℓ :=
        Libmpv.not_holds (Pc.holds_of_before (h.waits q hq ℓ hheld))
      exact he.kept hnot (h.owns q (List.mem_cons_of_mem _ hq) ℓ hheld)
  · rcases he.owner hℓ with ⟨-, hp⟩ | ⟨hold, hkept⟩
    · exact ⟨p, List.mem_cons_self, hp⟩
    · obtain ⟨q, hq, hheld⟩ := h.owner ℓ hold
      rcases List.mem_cons.mp hq with rfl | hq
      · exact ⟨p, List.mem_cons_self, hkept hheld⟩
      · exact ⟨q, List.mem_cons_of_mem _ hq, hheld⟩
  · intro q hq ℓ hheld
    exact hbefore ℓ (h.waits q hq ℓ hheld) hheld.1
      (h.owns q (List.mem_cons_of_mem _ hq) ℓ hheld)

/-- With no lock in the hands of other threads, those that the running call does not hold are
free, unless a closure below it holds one. -/
theorem CallStack.Nested.sole {k : CallStack} (h : k.Nested m sh t)
    (houter : ∀ q ∈ k.outer, ∀ ℓ, ¬ m.holds q ℓ)
    (hothers : ∀ u, u ≠ t → ∀ ℓ, sh.lock ℓ ≠ some u) : sh.Sole m k.top := by
  intro ℓ _ htop
  refine Option.eq_none_iff_forall_ne_some.mpr fun u hu => ?_
  by_cases hut : u = t
  · subst hut
    obtain ⟨q, hq, hheld⟩ := h.owner ℓ hu
    rcases List.mem_cons.mp hq with rfl | hq
    · exact Libmpv.not_holds htop hheld
    · exact houter q hq ℓ hheld
  · exact hothers u hut ℓ hu

/-- A step of another thread. -/
theorem CallStack.Nested.other {k : CallStack} {u : T} (h : k.Nested m sh u)
    {sh' : Shared T} {q : Pc} (hq : ∀ ℓ, m.holds q ℓ → sh.lock ℓ = some t)
    (he : Pool.LockEffect m.holds t q p sh.lock sh'.lock) (hu : u ≠ t) : k.Nested m sh' u := by
  refine ⟨fun r hr ℓ hheld => ?_, fun ℓ hℓ => ?_, h.user, h.waits, h.below⟩
  · have hlock := h.owns r hr ℓ hheld
    refine he.kept (fun hqℓ => ?_) hlock
    rw [hq ℓ hqℓ] at hlock
    exact hu (Option.some.inj hlock).symm
  · rcases he.owner hℓ with ⟨rfl, -⟩ | ⟨hold, -⟩
    · exact absurd rfl hu
    · exact h.owner ℓ hold

variable [DecidableEq T] {s : ReentrantState T}

/-- The running call is at the top of the stack. -/
@[simp] theorem running_pc (s : ReentrantState T) (t : T) : (running s t).pc t = (s.pc t).top := by
  simp [running]

/-- What a step of the running call does to the locks. -/
theorem running_lockEffect (h : Move m (running s t) t sh p) :
    Pool.LockEffect m.holds t (s.pc t).top p s.shared.lock sh.lock := by
  have he := h.lockEffect
  rwa [running_pc] at he

/-- In every reachable state all stacks are as described. -/
theorem reentrant_nested (h : (reentrantSystem T m).Reachable s) (t : T) :
    (s.pc t).Nested m s.shared t := by
  refine (Pool.reachable_assertions (K := fun _ => True) (G := fun _ => True)
    (L := fun sh t k => CallStack.Nested m sh t k) (fun _ _ => trivial) ?_ ?_ ?_ h).2 t
  · rintro s rfl
    refine ⟨trivial, fun u => ⟨?_, nofun, nofun, nofun, nofun⟩⟩
    intro q hq ℓ hheld
    obtain rfl := List.mem_singleton.mp hq
    exact absurd hheld (Libmpv.not_holds (Pc.idle_holds ℓ))
  · rintro s t sh k - - hs ⟨-, hmove⟩
    refine ⟨trivial, ?_⟩
    cases hmove with
    | step _ hmove =>
        refine (hs t).step (running_lockEffect hmove) fun ℓ hbefore hhas hlock => ?_
        refine hmove.before ?_ hhas hlock
        rwa [running_pc]
    | enterSet huser =>
        exact ((hs t).enter huser (fun ℓ => by cases ℓ <;> rfl) ⟨rfl, rfl⟩).congr rfl
    | enterTeardown d huser =>
        exact (hs t).enter huser (fun ℓ => by cases ℓ <;> rfl) ⟨rfl, rfl⟩
    | @leave p outer htop houter =>
        have hk := hs t
        rw [← show (⟨(s.pc t).top, (s.pc t).outer⟩ : CallStack) = s.pc t from rfl, htop,
          houter] at hk
        exact hk.leave
  · rintro s t sh k u - - hs ⟨-, hmove⟩ hu
    cases hmove with
    | step _ hmove =>
        exact (hs u).other ((hs t).owns _ List.mem_cons_self) (running_lockEffect hmove) hu
    | enterSet | enterTeardown | leave => exact (hs u).congr rfl

/-! ### Calls that never return -/

/-- The step lemma: while a lock is owned, a thread that has to take it stays in its call. -/
theorem before_of_step {u v a : T} {s' : ReentrantState T} (hhas : m.has ℓ = true)
    (hlock : s.shared.lock ℓ = some v) (hstep : (reentrantSystem T m).step s a s')
    (hbefore : (s.pc u).top.before ℓ = true) :
    (s'.pc u).top.before ℓ = true ∧ (s'.pc u).outer = (s.pc u).outer := by
  obtain ⟨sh, k, ⟨-, hmove⟩, rfl⟩ := hstep
  rw [Pool.move_pc]
  by_cases hu : u = a
  · subst hu
    rw [Function.update_self]
    cases hmove with
    | step _ hmove =>
        refine ⟨hmove.before ?_ hhas hlock, rfl⟩
        rwa [running_pc]
    | enterSet huser | enterTeardown _ huser =>
        exact absurd hbefore ((Pc.userCode_spec huser).2 ℓ)
    | leave htop =>
        rw [htop] at hbefore
        exact absurd hbefore (Pc.idle_not_before ℓ)
  · rw [Function.update_of_ne hu]
    exact ⟨hbefore, rfl⟩

/-- The lock that a closure holds stays with its thread, in whatever call from there. -/
theorem lock_of_outer (h : (reentrantSystem T m).Reachable s) {f : Pc}
    (hf : f ∈ (s.pc t).outer) (hheld : m.holds f ℓ) : s.shared.lock ℓ = some t :=
  (reentrant_nested h t).owns f (List.mem_cons_of_mem _ hf) ℓ hheld

/-- The run lemma: after a call from a closure that holds a lock, this thread and every other that
has to take the lock stay in their calls. -/
theorem before_of_run (h : (reentrantSystem T m).Reachable s) {f : Pc} {u : T} {l : List T}
    {s' : ReentrantState T} (hf : f ∈ (s.pc t).outer) (hheld : m.holds f ℓ)
    (hbefore : (s.pc u).top.before ℓ = true) (hrun : Lts.Run (reentrantSystem T m) s l s') :
    (s'.pc t).outer = (s.pc t).outer ∧ (s'.pc u).top.before ℓ = true ∧
      (s'.pc u).outer = (s.pc u).outer := by
  induction hrun with
  | nil => exact ⟨rfl, hbefore, rfl⟩
  | @snoc s₁ s₂ l a hrun hstep ih =>
      obtain ⟨hown, hbefore₁, houter⟩ := ih
      have hs₁ := h.of_run hrun
      have hf₁ : f ∈ (s₁.pc t).outer := by rwa [hown]
      have hlock := lock_of_outer hs₁ hf₁ hheld
      have hwaits := (reentrant_nested hs₁ t).waits f hf₁ ℓ hheld
      -- The thread itself has to take the lock that it owns, so that its stack stays.
      obtain ⟨-, hown₂⟩ := before_of_step hheld.1 hlock hstep hwaits
      obtain ⟨hbefore₂, houter₂⟩ := before_of_step hheld.1 hlock hstep hbefore₁
      exact ⟨hown₂.trans hown, hbefore₂, houter₂.trans houter⟩

/-! ### Calls that return -/

/-- A run of the thread alone, inside the closures. -/
theorem SoloRun.reentrant {ops : List SlotOp}
    (h : SoloRun m t s.shared (s.pc t).top ops sh p) :
    ∃ l, Lts.Run (reentrantSystem T m) s l (s.move t sh ⟨p, (s.pc t).outer⟩) := by
  induction h with
  | nil =>
      refine ⟨[], ?_⟩
      rw [show (⟨(s.pc t).top, (s.pc t).outer⟩ : CallStack) = s.pc t from rfl, Pool.move_self]
      exact .nil
  | @snoc ops sh₁ sh₂ p₁ p₂ _ hstep ih =>
      obtain ⟨hidle, haborted, hmove⟩ := hstep
      obtain ⟨l, hrun⟩ := ih
      have hpc : (s.move t sh₁ ⟨p₁, (s.pc t).outer⟩).pc t = ⟨p₁, (s.pc t).outer⟩ :=
        Function.update_self _ _ _
      refine ⟨l ++ [t], hrun.snoc ⟨sh₂, ⟨p₂, (s.pc t).outer⟩, ⟨haborted, ?_⟩, ?_⟩⟩
      · have hmoved := hmove (running (s.move t sh₁ ⟨p₁, (s.pc t).outer⟩) t) rfl
          (by rw [running_pc, hpc])
        have hstep := ReentrantMove.step (s := s.move t sh₁ ⟨p₁, (s.pc t).outer⟩)
          (.inl (by rwa [hpc])) hmoved
        rwa [hpc] at hstep
      · rw [Pool.move_move]

/-- A call of `set` or `teardown` that has just begun. -/
def Pc.begun : Pc → Bool
  | .set (.lockRegistration _) | .teardown _ .lockRegistration => true
  | _ => false

omit [DecidableEq T] in
/-- Alone, a call that has begun runs to its end. -/
theorem Solo.begun {p₀ : Pc} {sh₀ : Shared T} {ops : List SlotOp} (hp : p.begun = true)
    (h : Solo m t sh₀ p₀ ops p) : ∃ ops', Solo m t sh₀ p₀ ops' .idle := by
  unfold Pc.begun at hp
  split at hp
  · exact ⟨_, h.set⟩
  · exact ⟨_, h.teardown⟩
  · cases hp

/-- Where a closure can call into the slot that it is in: in a destructor at the end of
`set` or `teardown`, or in a dispatch that libmpv does not serialize. -/
def Libmpv.permits (m : Libmpv) : Pc → Bool
  | .destructor _ => true
  | .trampoline .libmpv _ => !m.serialized
  | _ => false

/-- These are the places of a closure where no lock is held. -/
theorem Libmpv.permits_iff {f : Pc} (hf : f.userCode = true) :
    m.permits f = true ↔ ∀ ℓ, ¬ m.holds f ℓ := by
  constructor
  · intro hpermits ℓ hheld
    unfold Libmpv.permits at hpermits
    split at hpermits
    case h_1 c =>
      exact Libmpv.not_holds (by cases ℓ <;> rfl) hheld
    case h_2 q =>
      cases ℓ with
      | registration => exact Libmpv.not_holds rfl hheld
      | dispatch =>
          have hserialized : m.serialized = true := hheld.1
          rw [hserialized] at hpermits
          cases hpermits
      | slot => exact Libmpv.not_holds (Pc.userCode_spec hf).1 hheld
    case h_3 => cases hpermits
  · intro hnone
    unfold Pc.userCode at hf
    split at hf
    case h_1 caller c | h_2 caller c b =>
      cases caller with
      | register prev => exact absurd ⟨rfl, rfl⟩ (hnone .registration)
      | libmpv =>
          rw [Libmpv.permits, Bool.not_eq_true', ← Bool.not_eq_true]
          exact fun hserialized => hnone .dispatch ⟨hserialized, rfl⟩
    case h_3 c => rfl
    case h_4 => cases hf

/-- **A call into the slot from its own closure.** If the closure holds a lock there, the call
never returns: at all times the lock is this thread's, and no thread that has to take it, at that
time or later, leaves its call. Otherwise the call, when it begins with no lock in the hands of
other threads, can return. -/
theorem reentrant_call_returns_iff (T : Type*) [DecidableEq T] (m : Libmpv)
    (s : ReentrantState T) (h : (reentrantSystem T m).Reachable s) (t : T) (f : Pc)
    (outer : List Pc) (hcall : (s.pc t).outer = f :: outer) :
    (∀ ℓ, m.holds f ℓ → ∀ l s₁, Lts.Run (reentrantSystem T m) s l s₁ →
      (s₁.pc t).outer = f :: outer ∧ s₁.shared.lock ℓ = some t ∧
        ∀ u, (s₁.pc u).top.before ℓ = true →
          ∀ l' s₂, Lts.Run (reentrantSystem T m) s₁ l' s₂ →
            (s₂.pc u).top.before ℓ = true ∧ (s₂.pc u).outer = (s₁.pc u).outer) ∧
    ((s.pc t).top.begun = true → s.shared.aborted = false →
      (∀ u, u ≠ t → ∀ ℓ, s.shared.lock ℓ ≠ some u) →
      ((∃ l s', Lts.Run (reentrantSystem T m) s l s' ∧ s'.pc t = ⟨f, outer⟩) ↔
        m.permits f = true)) := by
  have hnested := reentrant_nested h t
  have hf : f ∈ (s.pc t).outer := by
    rw [hcall]
    exact List.mem_cons_self
  have stays : ∀ ℓ, m.holds f ℓ → ∀ l s₁, Lts.Run (reentrantSystem T m) s l s₁ →
      (s₁.pc t).outer = f :: outer := by
    intro ℓ hheld l s₁ hrun
    obtain ⟨hown, -⟩ := before_of_run h hf hheld (hnested.waits f hf ℓ hheld) hrun
    exact hown.trans hcall
  refine ⟨fun ℓ hheld l s₁ hrun => ?_, fun hbegun haborted hothers => ?_⟩
  · have hs₁ := h.of_run hrun
    have houter := stays ℓ hheld l s₁ hrun
    have hf₁ : f ∈ (s₁.pc t).outer := by
      rw [houter]
      exact List.mem_cons_self
    refine ⟨houter, lock_of_outer hs₁ hf₁ hheld, fun u hbefore l' s₂ hrun' => ?_⟩
    exact (before_of_run hs₁ hf₁ hheld hbefore hrun').2
  · rw [Libmpv.permits_iff (hnested.user f hf)]
    constructor
    · rintro ⟨l, s', hrun, hpc⟩ ℓ hheld
      have houter := stays ℓ hheld l s' hrun
      rw [hpc] at houter
      exact List.cons_ne_self f outer houter.symm
    · intro hnone
      -- The thread runs alone to the end of the call, and then leaves it.
      have hunheld : ∀ q ∈ (s.pc t).outer, ∀ ℓ, ¬ m.holds q ℓ := by
        rw [hcall]
        intro q hq ℓ
        rcases List.mem_cons.mp hq with rfl | hq
        · exact hnone ℓ
        · refine hnested.below q ?_ ℓ
          rwa [hcall]
      have hsole := hnested.sole hunheld hothers
      obtain ⟨ops, sh, hsolo⟩ := Solo.begun hbegun (Solo.start (t := t) hsole haborted)
      obtain ⟨l, hrun⟩ := hsolo.run.reentrant
      have hpc : (s.move t sh ⟨.idle, (s.pc t).outer⟩).pc t = ⟨.idle, f :: outer⟩ := by
        rw [Pool.move_pc, Function.update_self, hcall]
      have hleave : (reentrantSystem T m).step (s.move t sh ⟨.idle, (s.pc t).outer⟩) t
          ((s.move t sh ⟨.idle, (s.pc t).outer⟩).move t sh ⟨f, outer⟩) :=
        ⟨sh, ⟨f, outer⟩, ⟨hsolo.aborted, .leave (by rw [hpc]) (by rw [hpc])⟩, rfl⟩
      exact ⟨_, _, hrun.snoc hleave, Function.update_self _ _ _⟩

/-- With a libmpv that does not serialize, a closure that clears its callback: in a dispatch that
`register` raises this never returns, in one that libmpv starts it can. -/
theorem reentrant_clear_raised_and_dispatched :
    (∃ s : ReentrantState Unit, (reentrantSystem Unit ⟨false⟩).Reachable s ∧
      (s.pc ()).outer = [.trampoline (.register none) (.call 0)] ∧
      ¬ ∃ l s', Lts.Run (reentrantSystem Unit ⟨false⟩) s l s' ∧
        s'.pc () = ⟨.trampoline (.register none) (.call 0), []⟩) ∧
    ∃ s : ReentrantState Unit, (reentrantSystem Unit ⟨false⟩).Reachable s ∧
      (s.pc ()).outer = [.trampoline .libmpv (.call 0)] ∧
      ∃ l s', Lts.Run (reentrantSystem Unit ⟨false⟩) s l s' ∧
        s'.pc () = ⟨.trampoline .libmpv (.call 0), []⟩ := by
  have start := Lts.Reachable.of_init (M := reentrantSystem Unit ⟨false⟩) rfl
  have begun := start.of_step (a := ()) ⟨_, _, ⟨rfl, .step (.inr rfl) (.beginSet rfl)⟩, rfl⟩
  have locked := begun.of_step (a := ())
    ⟨_, _, ⟨rfl, .step (.inr rfl) (.lock rfl fun _ => rfl)⟩, rfl⟩
  have leaked := locked.of_step (a := ()) ⟨_, _, ⟨rfl, .step (.inr rfl) (.leak rfl)⟩, rfl⟩
  have slotLocked := leaked.of_step (a := ())
    ⟨_, _, ⟨rfl, .step (.inr rfl) (.lock rfl fun _ => rfl)⟩, rfl⟩
  have stored := slotLocked.of_step (a := ())
    ⟨_, _, ⟨rfl, .step (.inr rfl) (.replace rfl)⟩, rfl⟩
  have slotFree := stored.of_step (a := ()) ⟨_, _, ⟨rfl, .step (.inr rfl) (.unlock rfl)⟩, rfl⟩
  have entered := slotFree.of_step (a := ())
    ⟨_, _, ⟨rfl, .step (.inr rfl) (.lock rfl nofun)⟩, rfl⟩
  have registered := entered.of_step (a := ())
    ⟨_, _, ⟨rfl, .step (.inr rfl) (.register rfl)⟩, rfl⟩
  refine ⟨?_, ?_⟩
  · have raised := registered.of_step (a := ())
      ⟨_, _, ⟨rfl, .step (.inr rfl) (.raise rfl)⟩, rfl⟩
    have reading := raised.of_step (a := ())
      ⟨_, _, ⟨rfl, .step (.inr rfl) (.lock rfl fun _ => rfl)⟩, rfl⟩
    have cloned := reading.of_step (a := ()) ⟨_, _, ⟨rfl, .step (.inr rfl) (.clone rfl)⟩, rfl⟩
    have calling := cloned.of_step (a := ()) ⟨_, _, ⟨rfl, .step (.inr rfl) (.unlock rfl)⟩, rfl⟩
    have clearing := calling.of_step (a := ()) ⟨_, _, ⟨rfl, .enterTeardown false rfl⟩, rfl⟩
    refine ⟨_, clearing, rfl, fun hreturns => ?_⟩
    have hpermits := ((reentrant_call_returns_iff Unit ⟨false⟩ _ clearing () _ _ rfl).2 rfl rfl
      fun u hu => absurd (Subsingleton.elim u ()) hu).mp hreturns
    cases hpermits
  · have left := registered.of_step (a := ()) ⟨_, _, ⟨rfl, .step (.inr rfl) (.unlock rfl)⟩, rfl⟩
    have unlocked := left.of_step (a := ()) ⟨_, _, ⟨rfl, .step (.inr rfl) (.unlock rfl)⟩, rfl⟩
    have idle := unlocked.of_step (a := ()) ⟨_, _, ⟨rfl, .step (.inr rfl) (.dropNone rfl)⟩, rfl⟩
    have raised := idle.of_step (a := ())
      ⟨_, _, ⟨rfl, .step (.inr rfl) (.beginDispatch rfl rfl)⟩, rfl⟩
    have dispatched := raised.of_step (a := ())
      ⟨_, _, ⟨rfl, .step (.inr rfl) (.lock rfl nofun)⟩, rfl⟩
    have reading := dispatched.of_step (a := ())
      ⟨_, _, ⟨rfl, .step (.inr rfl) (.lock rfl fun _ => rfl)⟩, rfl⟩
    have cloned := reading.of_step (a := ()) ⟨_, _, ⟨rfl, .step (.inr rfl) (.clone rfl)⟩, rfl⟩
    have calling := cloned.of_step (a := ()) ⟨_, _, ⟨rfl, .step (.inr rfl) (.unlock rfl)⟩, rfl⟩
    have clearing := calling.of_step (a := ()) ⟨_, _, ⟨rfl, .enterTeardown false rfl⟩, rfl⟩
    refine ⟨_, clearing, rfl, ?_⟩
    exact ((reentrant_call_returns_iff Unit ⟨false⟩ _ clearing () _ _ rfl).2 rfl rfl
      fun u hu => absurd (Subsingleton.elim u ()) hu).mpr rfl

end Rsmpv
