import Rsmpv.Slot.Ledger

/-!
# Agreement of the Registration and the Slot

`set` stores the closure and then registers; `teardown` unregisters and then takes the
closure out; both do so under the registration lock, which the trampoline never takes.
`Pc.agrees` says what the holder of that lock knows at each control point. The knowledge
is kept by the holder's own steps (`Move.agrees`), and nobody else touches the flag or
the slot (`Move.frame`), so it holds in every reachable state (`slot_agrees`): while
libmpv has the callback registered the slot is filled, and with the registration lock
free the two say the same.

A trampoline raised by `register` runs under the registration lock, so the slot still
holds what it cloned: its clone is never the last reference, and it never gets to run a
destructor there.

The slot itself outlives every dispatch: the reference leaked before the first
registration is never released (`slot_leaked`).

## Main results

* `Move.frame`, `Move.agrees`: one step keeps what its own thread knows, and nobody else's
  is disturbed.
* `Move.registered_slot`: no step leaves a callback registered with the slot empty.
* `slot_agrees`, `slot_leaked`: the two run lemmas.
* `callback_slot_agreement`: what they say of every reachable state.
-/

namespace Rsmpv

/-- What the holder of the registration lock knows of libmpv's flag and the slot. The other
threads know nothing. -/
def Pc.agrees (registered : Bool) (slot : Option Callback) : Pc → Prop
  | .set (.leak _) | .set (.lockSlot _) | .set (.replace _)
  | .teardown _ .unregister | .teardown _ .clear => registered = slot.isSome
  | .set (.unlockSlot _) | .set (.register _) | .set (.enter _) => slot.isSome
  | .set (.registering _) | .set (.unlockRegistration _) => registered ∧ slot.isSome
  | .trampoline (.register _) q =>
      registered ∧ slot.isSome ∧ (∀ c, q.owned = some c → slot = some c) ∧
        ∀ c b, q ≠ .destructor c b
  | .teardown _ .unregistered | .teardown _ .lockSlot | .teardown _ .take => ¬ registered
  | .teardown _ (.unlockRegistration _) => ¬ registered ∧ slot = none
  | _ => True

variable {T : Type*} {m : Libmpv} {s : SlotState T} {t : T} {sh : Shared T} {p : Pc}

/-- Without the registration lock there is nothing to know. -/
theorem Pc.agrees_of_not_holds (h : p.holds .registration = false) (registered : Bool)
    (slot : Option Callback) : p.agrees registered slot := by
  unfold Pc.agrees
  split <;> trivial

/-- Only the holder of the registration lock touches the flag and the slot. -/
theorem Move.frame (h : Move m s t sh p) (hp : (s.pc t).holds .registration = false) :
    sh.registered = s.shared.registered ∧ sh.slot = s.shared.slot := by
  cases h with
  | @lock ℓ _ _ _ =>
      obtain ⟨_, e⟩ := s.shared.acquire_eq m t ℓ
      rw [e]
      exact ⟨rfl, rfl⟩
  | @unlock ℓ _ _ =>
      obtain ⟨_, e⟩ := s.shared.release_eq m ℓ
      rw [e]
      exact ⟨rfl, rfl⟩
  | leak _ =>
      obtain ⟨_, e⟩ := s.shared.leak_eq
      rw [e]
      exact ⟨rfl, rfl⟩
  | clone _ =>
      obtain ⟨_, e⟩ := s.shared.cloneSlot_eq
      rw [e]
      exact ⟨rfl, rfl⟩
  | replace e | register e | unregister e | take e =>
      rw [e] at hp
      exact absurd hp (by simp [Pc.holds])
  | _ => exact ⟨rfl, rfl⟩

/-- A closure that the slot and a thread share has two references. -/
theorem Ledger.two_le [Fintype T] (hl : Ledger s) {c : Callback}
    (hslot : s.shared.slot = some c) (hc : c ∈ (s.pc t).owned) : 2 ≤ s.shared.strong c := by
  have h1 : 0 < (s.pc t).owned.count c := List.count_pos_iff.mpr hc
  have h2 := Pool.le_sum (fun q : Pc => q.owned.count c) s.pc t
  have h3 := hl.strong c
  rw [hslot] at h3
  simp only [Option.toList_some, List.count_cons_self, List.count_nil] at h3
  omega

/-- Taking a lock keeps the knowledge; with the registration lock comes the agreement. -/
theorem Pc.lockStep_agrees {p p' : Pc} {ℓ : Lock} {registered : Bool}
    {slot : Option Callback} (h : p.lockStep = some (ℓ, p'))
    (hfree : ℓ = .registration → registered = slot.isSome)
    (hp : p.agrees registered slot) : p'.agrees registered slot := by
  cases Pc.lockStep_cases h with
  | setRegistration | teardownRegistration => exact hfree rfl
  | trampoline caller =>
      cases caller with
      | libmpv => trivial
      | register prev => exact ⟨hp.1, hp.2.1, by simp [TrampolinePc.owned], by simp⟩
  | dispatch => trivial
  | setSlot | register | unregister | teardownSlot => exact hp

/-- Releasing a lock keeps the knowledge; the registration lock is released in
agreement. -/
theorem Pc.unlockStep_agrees {p p' : Pc} {ℓ : Lock} {registered : Bool}
    {slot : Option Callback} (h : p.unlockStep = some (ℓ, p'))
    (hp : p.agrees registered slot) :
    p'.agrees registered slot ∧ (ℓ = .registration → registered = slot.isSome) := by
  cases Pc.unlockStep_cases h with
  | setSlot | unregistered | registered => exact ⟨hp, nofun⟩
  | setRegistration => exact ⟨trivial, fun _ => hp.1.trans hp.2.symm⟩
  | teardownRegistration d cb =>
      have hregistered : registered = false := Bool.eq_false_of_not_eq_true hp.1
      exact ⟨trivial, fun _ => by rw [hregistered, hp.2]; rfl⟩
  | teardownSlot | dispatched => exact ⟨trivial, nofun⟩
  | cloned caller c | empty caller =>
      cases caller with
      | libmpv => exact ⟨trivial, nofun⟩
      | register prev => simp_all [Pc.agrees, TrampolinePc.owned]

/-- One step keeps what its own thread knows. -/
theorem Move.agrees [Fintype T] (hl : Ledger s)
    (hfree : s.shared.lock .registration = none →
      s.shared.registered = s.shared.slot.isSome)
    (hp : (s.pc t).agrees s.shared.registered s.shared.slot) (h : Move m s t sh p) :
    p.agrees sh.registered sh.slot := by
  cases h with
  | @lock ℓ _ hstep hlock =>
      obtain ⟨_, e⟩ := s.shared.acquire_eq m t ℓ
      rw [e]
      refine Pc.lockStep_agrees hstep (fun hreg => ?_) hp
      subst hreg
      exact hfree (hlock rfl)
  | @unlock ℓ _ hstep =>
      obtain ⟨_, e⟩ := s.shared.release_eq m ℓ
      rw [e]
      exact (Pc.unlockStep_agrees hstep hp).1
  | leak e =>
      obtain ⟨_, e'⟩ := s.shared.leak_eq
      rw [e] at hp
      rw [e']
      exact hp
  | replace e => rfl
  | register e =>
      rw [e] at hp
      exact ⟨rfl, hp⟩
  | raise e =>
      rw [e] at hp
      exact ⟨hp.1, hp.2, by simp [TrampolinePc.owned], by simp⟩
  | raised e =>
      rw [e] at hp
      exact ⟨hp.1, hp.2.1⟩
  | unregister e => exact Bool.false_ne_true
  | take e =>
      rw [e] at hp
      exact ⟨hp, rfl⟩
  | @clone caller e =>
      obtain ⟨_, e'⟩ := s.shared.cloneSlot_eq
      rw [e']
      cases caller with
      | libmpv => trivial
      | register prev =>
          rw [e] at hp
          exact ⟨hp.1, hp.2.1, fun c hc => hc, by simp⟩
  | @call caller c panics e =>
      cases caller with
      | libmpv => trivial
      | register prev =>
          rw [e] at hp
          exact ⟨hp.1, hp.2.1, hp.2.2.1, by simp⟩
  | @dropCloneShared caller c _ e hone =>
      cases caller with
      | libmpv => trivial
      | register prev =>
          rw [e] at hp
          exact ⟨hp.1, hp.2.1, by simp [TrampolinePc.owned], by simp⟩
  | @dropCloneLast caller c _ e hone =>
      cases caller with
      | libmpv => trivial
      | register prev =>
          -- The slot holds the closure too, so this was not the last reference.
          rw [e] at hp
          have h2 := hl.two_le (hp.2.2.1 c rfl) (t := t) (by rw [e]; exact List.mem_cons_self)
          omega
  | @cloneDestructor caller c b e | @abort caller c e =>
      cases caller with
      | libmpv => trivial
      | register prev =>
          rw [e] at hp
          exact absurd rfl (hp.2.2.2 c _)
  | beginSet e | beginClear e | beginTeardown e | beginDrop e | beginDispatch e
  | destroy e | dropNone e | dropShared e | dropLast e | destructor e => trivial

/-- A step that gives up the registration lock leaves flag and slot in agreement. -/
theorem Move.agree_of_release (hp : (s.pc t).agrees s.shared.registered s.shared.slot)
    (hheld : (s.pc t).holds .registration = true) (hfree : p.holds .registration = false)
    (h : Move m s t sh p) : sh.registered = sh.slot.isSome := by
  cases h with
  | @lock ℓ _ hstep _ =>
      obtain ⟨hnot, hnew, hrest⟩ := Pc.lockStep_holds hstep
      by_cases hℓ : Lock.registration = ℓ
      · subst hℓ; simp [hnew] at hfree
      · simp [hrest _ hℓ, hheld] at hfree
  | @unlock ℓ _ hstep =>
      obtain ⟨_, e⟩ := s.shared.release_eq m ℓ
      rw [e]
      obtain ⟨-, -, hrest⟩ := Pc.unlockStep_holds hstep
      by_cases hℓ : Lock.registration = ℓ
      · exact (Pc.unlockStep_agrees hstep hp).2 hℓ.symm
      · simp [hrest _ hℓ, hheld] at hfree
  | @clone caller e | @call caller _ _ e | @dropCloneShared caller _ _ e _
  | @dropCloneLast caller _ _ e _ | @cloneDestructor caller _ _ e | @abort caller _ e =>
      rw [e] at hheld
      cases caller <;> simp [Pc.holds] at hheld hfree
  | beginSet e | beginClear e | beginTeardown e | beginDrop e | beginDispatch e
  | destroy e | dropNone e | dropShared e | dropLast e | destructor e =>
      rw [e] at hheld
      simp [Pc.holds] at hheld
  | _ => simp [Pc.holds] at hfree

/-- While a callback is registered the slot is filled, and the two agree when nobody is
inside `set` or `teardown`. -/
def Shared.agrees (sh : Shared T) : Prop :=
  (sh.registered = true → sh.slot.isSome) ∧
    (sh.lock .registration = none → sh.registered = sh.slot.isSome)

/-- No step leaves a callback registered with the slot empty. -/
theorem Move.registered_slot (hG : s.shared.registered = true → s.shared.slot.isSome)
    (hp : (s.pc t).agrees s.shared.registered s.shared.slot) (h : Move m s t sh p) :
    sh.registered = true → sh.slot.isSome := by
  cases h with
  | @lock ℓ _ _ _ =>
      obtain ⟨_, e⟩ := s.shared.acquire_eq m t ℓ
      rw [e]
      exact hG
  | @unlock ℓ _ _ =>
      obtain ⟨_, e⟩ := s.shared.release_eq m ℓ
      rw [e]
      exact hG
  | leak _ =>
      obtain ⟨_, e⟩ := s.shared.leak_eq
      rw [e]
      exact hG
  | clone _ =>
      obtain ⟨_, e⟩ := s.shared.cloneSlot_eq
      rw [e]
      exact hG
  | replace e => exact fun _ => rfl
  | register e =>
      rw [e] at hp
      exact fun _ => hp
  | unregister e => exact fun hf => absurd hf Bool.false_ne_true
  | take e =>
      rw [e] at hp
      exact fun hr => absurd hr hp
  | _ => exact hG

/-- Registration and slot agree in every reachable state. -/
theorem slot_agrees [Fintype T] [DecidableEq T] (h : (slotSystem T m).Reachable s) :
    s.shared.agrees ∧ ∀ u, (s.pc u).agrees s.shared.registered s.shared.slot := by
  refine Pool.reachable_assertions (G := Shared.agrees)
    (L := fun sh _ p => p.agrees sh.registered sh.slot)
    (K := fun s => Pool.Owned m.holds s.shared.lock s.pc ∧ Ledger s)
    (fun s hs => ⟨slot_owned hs, slot_ledger hs⟩) ?_ ?_ ?_ h
  · rintro s rfl
    exact ⟨⟨by simp, by simp⟩, fun _ => trivial⟩
  · rintro s t sh p ⟨howned, hledger⟩ hG hL ⟨-, hmove⟩
    refine ⟨⟨hmove.registered_slot hG.1 (hL t), fun hfree => ?_⟩,
      hmove.agrees hledger hG.2 (hL t)⟩
    have howned' := howned.move hmove.lockEffect
    have hp : p.holds .registration = false := by
      have hno := howned'.not_holds hfree t
      simpa [Libmpv.holds, Libmpv.has] using hno
    by_cases hheld : (s.pc t).holds .registration = true
    · exact hmove.agree_of_release (hL t) hheld hp
    · obtain ⟨hr, hs⟩ := hmove.frame (by simpa using hheld)
      rw [hr, hs]
      refine hG.2 (Option.eq_none_iff_forall_ne_some.mpr fun u hu => ?_)
      -- Another owner would still own the lock after the step.
      have hu' := (howned .registration u).mp hu
      have hne : u ≠ t := by
        rintro rfl
        exact hheld hu'.2
      have := (howned' .registration u).mpr (by rwa [Function.update_of_ne hne])
      rw [hfree] at this
      exact absurd this (by simp)
  · rintro s t sh p u ⟨howned, -⟩ - hL ⟨-, hmove⟩ hne
    by_cases hu : (s.pc u).holds .registration = true
    · have ht : (s.pc t).holds .registration = false := by
        by_contra hh
        exact hne (howned.unique (ℓ := .registration) ⟨rfl, hu⟩ ⟨rfl, by simpa using hh⟩)
      obtain ⟨hr, hs⟩ := hmove.frame ht
      rw [hr, hs]
      exact hL u
    · exact Pc.agrees_of_not_holds (by simpa using hu) _ _

/-! ### The leaked reference -/

/-- Dispatches libmpv has begun or will begin with the context pointer it was given. -/
def Pc.inFlight : Pc → Bool
  | .dispatching | .trampoline _ _ => true
  | _ => false

/-- What a control point relies on: past the leak the reference exists, and a dispatch had
its context pointer from `register`. -/
def Pc.relies (leaked contextGiven : Bool) : Pc → Prop
  | .set (.lockRegistration _) | .set (.leak _) => True
  | .set (.registering _) => leaked ∧ contextGiven
  | .set _ => leaked
  | .dispatching | .trampoline _ _ => contextGiven
  | _ => True

/-- The leaked reference is counted once, and exists once the pointer was handed out. -/
def Shared.leaks (sh : Shared T) : Prop :=
  sh.leakedRefs = sh.leaked.toNat ∧ (sh.contextGiven = true → sh.leaked = true)

/-- Taking a lock keeps what is relied on. -/
theorem Pc.lockStep_relies {p p' : Pc} {ℓ : Lock} {leaked given : Bool}
    (h : p.lockStep = some (ℓ, p')) (hp : p.relies leaked given) : p'.relies leaked given := by
  cases Pc.lockStep_cases h with
  | trampoline caller => exact hp
  | _ => trivial

/-- Releasing a lock keeps what is relied on. -/
theorem Pc.unlockStep_relies {p p' : Pc} {ℓ : Lock} {leaked given : Bool}
    (h : p.unlockStep = some (ℓ, p')) (hp : p.relies leaked given) :
    p'.relies leaked given := by
  cases Pc.unlockStep_cases h with
  | cloned caller c | empty caller => exact hp
  | registered prev => exact hp.1
  | _ => trivial

/-- One step keeps the leaked reference and what its own thread relies on. -/
theorem Move.relies (hG : s.shared.leaks)
    (hp : (s.pc t).relies s.shared.leaked s.shared.contextGiven) (h : Move m s t sh p) :
    sh.leaks ∧ p.relies sh.leaked sh.contextGiven ∧
      (s.shared.leaked = true → sh.leaked = true) ∧
      (s.shared.contextGiven = true → sh.contextGiven = true) := by
  cases h with
  | @lock ℓ _ hstep _ =>
      obtain ⟨_, e⟩ := s.shared.acquire_eq m t ℓ
      rw [e]
      exact ⟨hG, Pc.lockStep_relies hstep hp, id, id⟩
  | @unlock ℓ _ hstep =>
      obtain ⟨_, e⟩ := s.shared.release_eq m ℓ
      rw [e]
      exact ⟨hG, Pc.unlockStep_relies hstep hp, id, id⟩
  | leak _ =>
      refine ⟨?_, ?_⟩ <;> unfold Shared.leak <;> split
      · exact hG
      · next hno =>
          refine ⟨?_, fun _ => rfl⟩
          have := hG.1
          simp only [Bool.not_eq_true] at hno
          simp only [hno, Bool.toNat_false] at this
          simp [this]
      · next hyes => exact ⟨hyes, id, id⟩
      · exact ⟨rfl, fun _ => rfl, id⟩
  | clone e =>
      obtain ⟨_, e'⟩ := s.shared.cloneSlot_eq
      rw [e] at hp
      rw [e']
      exact ⟨hG, hp, id, id⟩
  | register e =>
      rw [e] at hp
      exact ⟨⟨hG.1, fun _ => hp⟩, ⟨hp, rfl⟩, id, fun _ => rfl⟩
  | raise e =>
      rw [e] at hp
      exact ⟨hG, hp.2, id, id⟩
  | raised e =>
      rw [e] at hp
      exact ⟨hG, ⟨hG.2 hp, hp⟩, id, id⟩
  | replace e | call _ e | dropCloneShared e | dropCloneLast e | cloneDestructor e
  | abort e =>
      rw [e] at hp
      exact ⟨hG, hp, id, id⟩
  | beginDispatch e hgiven => exact ⟨hG, hgiven, id, id⟩
  | _ => exact ⟨hG, trivial, id, id⟩

/-- What a thread relies on stays true when others step: neither flag is ever cleared. -/
theorem Pc.relies_mono {p : Pc} {leaked given leaked' given' : Bool}
    (hp : p.relies leaked given) (h1 : leaked = true → leaked' = true)
    (h2 : given = true → given' = true) : p.relies leaked' given' := by
  unfold Pc.relies at hp ⊢
  split at hp <;> simp_all

/-- The leaked reference exists in every reachable state that has seen a registration. -/
theorem slot_leaked [DecidableEq T] (h : (slotSystem T m).Reachable s) :
    s.shared.leaks ∧ ∀ u, (s.pc u).relies s.shared.leaked s.shared.contextGiven := by
  refine Pool.reachable_assertions (G := Shared.leaks)
    (L := fun sh _ p => p.relies sh.leaked sh.contextGiven) (K := fun _ => True)
    (fun _ _ => trivial) ?_ ?_ ?_ h
  · rintro s rfl
    exact ⟨⟨rfl, by simp⟩, fun _ => trivial⟩
  · rintro s t sh p - hG hL ⟨-, hmove⟩
    obtain ⟨h1, h2, -, -⟩ := hmove.relies hG (hL t)
    exact ⟨h1, h2⟩
  · rintro s t sh p u - hG hL ⟨-, hmove⟩ -
    obtain ⟨-, -, h3, h4⟩ := hmove.relies hG (hL t)
    exact Pc.relies_mono (hL u) h3 h4

/-- **Callback slot agreement.** In every reachable state: while a callback is registered
the slot holds a closure, so a dispatch that reads the slot while it is registered gets
one; while nobody holds the registration lock, a callback is registered exactly when the
slot holds a closure; and exactly one reference to the slot has been leaked once a
dispatch is in flight, so it finds a valid slot however late it comes. -/
theorem callback_slot_agreement (T : Type*) [Fintype T] [DecidableEq T] (m : Libmpv)
    (s : SlotState T) (h : (slotSystem T m).Reachable s) :
    (s.shared.registered = true → s.shared.slot.isSome = true) ∧
    (∀ t caller sh p, s.pc t = .trampoline caller .clone → s.shared.registered = true →
      Move m s t sh p → ∃ c, p = .trampoline caller (.unlock (some c))) ∧
    (s.shared.lock .registration = none →
      (s.shared.registered = true ↔ s.shared.slot.isSome = true)) ∧
    ∀ t, (s.pc t).inFlight = true → s.shared.leakedRefs = 1 := by
  obtain ⟨⟨hreg, hfree⟩, -⟩ := slot_agrees h
  obtain ⟨hleaks, hrelies⟩ := slot_leaked h
  refine ⟨hreg, fun t caller sh p hp hr hmove => ?_, fun hl => by rw [hfree hl],
    fun t ht => ?_⟩
  · obtain ⟨c, hc⟩ := Option.isSome_iff_exists.mp (hreg hr)
    cases hmove with
    | @clone caller' e =>
        rw [hp] at e
        cases e
        exact ⟨c, by rw [hc]⟩
    | lock e _ => rw [hp] at e; cases caller <;> cases e
    | unlock e => rw [hp] at e; cases caller <;> cases e
    | call _ e => rw [hp] at e; cases e
    | _ e => rw [hp] at e; cases e
  · have hgiven : s.shared.contextGiven = true := by
      have hp := hrelies t
      unfold Pc.inFlight at ht
      unfold Pc.relies at hp
      split at ht <;> simp_all
    rw [hleaks.1, hleaks.2 hgiven]
    rfl

/-- With an invocation in progress, the slot holds a closure and one reference is
leaked. -/
theorem invocation_agreement : ∃ s : SlotState (Fin 2),
    s.pc 1 = .trampoline .libmpv (.call 0) ∧ s.shared.slot.isSome = true ∧
      s.shared.leakedRefs = 1 := by
  obtain ⟨s, hs, hreg, -, hp⟩ := exists_invocation
  obtain ⟨hslot, -, -, hleak⟩ := callback_slot_agreement (Fin 2) ⟨true⟩ s hs
  exact ⟨s, hp, hslot hreg, hleak 1 (by rw [hp]; rfl)⟩

end Rsmpv
