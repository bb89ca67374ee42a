import Rsmpv.Slot.Agreement

/-!
# Release of the Stored Closures

The ledger counts the references to a closure, so its destructor begins once, when the
last one goes, and no invocation is running then: a running invocation owns a clone.
What is left is where that happens and that it happens at all. A destructor runs at the
end of `set` and `teardown`, after all guards are gone, or in a trampoline outside the
slot guard — and a trampoline raised under the registration lock never gets there
(`slot_agrees`). And once the owner's drop has begun nobody fills the slot again
(`slot_dropped`), so when all threads are done every closure has been released.

## Main results

* `Move.destroying`: a destructor that runs was begun once.
* `Move.phases`, `slot_dropped`: after the owner's drop has taken the closure nobody fills
  the slot.
* `closures_released_once`: every closure is released exactly once, under no lock, and while
  no invocation of it runs.
-/

namespace Rsmpv

/-- The closure whose invocation is in progress. -/
def Pc.invoking : Pc → Option Callback
  | .trampoline _ (.call c) => some c
  | _ => none

/-- The closure whose destructor is running. -/
def Pc.destroying : Pc → Option Callback
  | .destructor c => some c
  | .trampoline _ (.destructor c _) => some c
  | _ => none

/-- Inside `set`, before the closure is stored. -/
def Pc.mayFill : Pc → Bool
  | .set (.lockRegistration _) | .set (.leak _) | .set (.lockSlot _)
  | .set (.replace _) => true
  | _ => false

/-- Inside `teardown`, before the closure is taken. -/
def Pc.mayTake : Pc → Bool
  | .teardown _ .lockRegistration | .teardown _ .unregister | .teardown _ .clear
  | .teardown _ .unregistered | .teardown _ .lockSlot | .teardown _ .take => true
  | _ => false

variable {T : Type*} {m : Libmpv} {s : SlotState T} {t : T} {sh : Shared T} {p : Pc}

/-! ### A running destructor -/

/-- Lock steps begin and end no destructor, and keep the phases of `set` and `teardown`. -/
theorem Pc.lockStep_phase {p p' : Pc} {ℓ : Lock} (h : p.lockStep = some (ℓ, p')) :
    p'.destroying = none ∧ p'.mayFill = p.mayFill ∧ p'.mayTake = p.mayTake := by
  cases Pc.lockStep_cases h <;> exact ⟨rfl, rfl, rfl⟩

/-- Releasing a lock changes nothing of what an operation is about to do. -/
theorem Pc.unlockStep_phase {p p' : Pc} {ℓ : Lock} (h : p.unlockStep = some (ℓ, p')) :
    p'.destroying = none ∧ p'.mayFill = p.mayFill ∧ p'.mayTake = p.mayTake := by
  cases Pc.unlockStep_cases h <;> exact ⟨rfl, rfl, rfl⟩

/-- A destructor that runs after a step was begun by it, or was running before. -/
theorem Move.destroying (h : Move m s t sh p) {c : Callback} (hc : p.destroying = some c) :
    (s.shared.strong c = 1 ∧ sh.drops c = s.shared.drops c + 1) ∨
      (s.pc t).destroying = some c := by
  cases h with
  | lock hstep _ => rw [(Pc.lockStep_phase hstep).1] at hc; cases hc
  | unlock hstep => rw [(Pc.unlockStep_phase hstep).1] at hc; cases hc
  | dropLast e hone =>
      cases hc
      exact .inl ⟨hone, Function.update_self ..⟩
  | dropCloneLast e hone =>
      cases hc
      exact .inl ⟨hone, Function.update_self ..⟩
  | abort e =>
      rw [e]
      exact .inr hc
  | call _ e => cases hc
  | _ e => cases hc

/-- While the destructor of a closure runs it has begun once. -/
theorem slot_destroying [Fintype T] [DecidableEq T] (h : (slotSystem T m).Reachable s) :
    ∀ u c, (s.pc u).destroying = some c → s.shared.drops c = 1 := by
  refine (Pool.reachable_assertions (G := fun _ => True)
    (L := fun sh _ p => ∀ c, p.destroying = some c → sh.drops c = 1) (K := Ledger)
    (fun s hs => slot_ledger hs) ?_ ?_ ?_ h).2
  · rintro s rfl
    exact ⟨trivial, fun u c hc => by cases hc⟩
  · rintro s t sh p hledger - hL ⟨-, hmove⟩
    refine ⟨trivial, fun c hc => ?_⟩
    rcases hmove.destroying hc with ⟨hone, hd⟩ | hold
    · rw [hd, hledger.lifetimes.alive c (by omega)]
    · exact hmove.drops_eq_one hledger (hL t c hold)
  · rintro s t sh p u hledger - hL ⟨-, hmove⟩ - c hc
    exact hmove.drops_eq_one hledger (hL u c hc)

/-! ### After the owner's drop has begun -/

/-- What a step may do to the slot and to the phases of `set` and `teardown`: only a thread
that may fill the slot fills it, and one that may take leaves that phase by taking. -/
theorem Move.phases (h : Move m s t sh p) :
    (s.shared.slot = none → (s.pc t).mayFill = false → sh.slot = none) ∧
    ((s.pc t).mayTake = true → p.mayTake = true ∨ sh.slot = none) ∧
    (sh.dropBegun = true →
      (s.shared.dropBegun = true ∧ (p.mayFill = true → (s.pc t).mayFill = true)) ∨
      (p.mayTake = true ∧ p.mayFill = false ∧
        ∀ u, u ≠ t → (s.pc u).ownerOp = false)) := by
  cases h with
  | @lock ℓ _ hstep _ =>
      obtain ⟨_, e⟩ := s.shared.acquire_eq m t ℓ
      obtain ⟨-, hf, ht⟩ := Pc.lockStep_phase hstep
      rw [e, hf, ht]
      exact ⟨fun h _ => h, .inl, fun h => .inl ⟨h, id⟩⟩
  | @unlock ℓ _ hstep =>
      obtain ⟨_, e⟩ := s.shared.release_eq m ℓ
      obtain ⟨-, hf, ht⟩ := Pc.unlockStep_phase hstep
      rw [e, hf, ht]
      exact ⟨fun h _ => h, .inl, fun h => .inl ⟨h, id⟩⟩
  | leak e =>
      obtain ⟨_, e'⟩ := s.shared.leak_eq
      rw [e, e']
      exact ⟨fun h _ => h, fun h => (by cases h), fun h => .inl ⟨h, fun _ => rfl⟩⟩
  | clone e =>
      obtain ⟨_, e'⟩ := s.shared.cloneSlot_eq
      rw [e, e']
      exact ⟨fun h _ => h, fun h => (by cases h), fun h => .inl ⟨h, fun hf => by cases hf⟩⟩
  | replace e =>
      rw [e]
      exact ⟨fun _ hf => (by cases hf), fun h => (by cases h), fun h => .inl ⟨h, fun _ => rfl⟩⟩
  | take e =>
      rw [e]
      exact ⟨fun _ _ => rfl, fun _ => .inr rfl, fun h => .inl ⟨h, fun hf => by cases hf⟩⟩
  | unregister e =>
      rw [e]
      exact ⟨fun h _ => h, fun _ => .inl rfl, fun h => .inl ⟨h, fun hf => by cases hf⟩⟩
  | beginSet e =>
      rw [e]
      exact ⟨fun h _ => h, fun h => (by cases h), fun h => by cases h⟩
  | beginDrop e hothers =>
      rw [e]
      exact ⟨fun h _ => h, fun h => (by cases h), fun _ => .inr ⟨rfl, rfl, hothers⟩⟩
  | call _ e | beginClear e | beginTeardown e | beginDispatch e | register e | raise e
  | raised e | destroy e | dropNone e | dropShared e | dropLast e | destructor e
  | dropCloneShared e | dropCloneLast e | cloneDestructor e | abort e =>
      rw [e]
      exact ⟨fun h _ => h, fun h => (by cases h), fun h => .inl ⟨h, fun hf => by cases hf⟩⟩

/-- Once the owner's drop has begun nobody will fill the slot, and it is empty unless
somebody is about to take what it holds. -/
def Dropped (s : SlotState T) : Prop :=
  s.shared.dropBegun = true →
    (∀ u, (s.pc u).mayFill = false) ∧ (s.shared.slot = none ∨ ∃ u, (s.pc u).mayTake = true)

/-- The run lemma: this holds in every reachable state. -/
theorem slot_dropped [DecidableEq T] (h : (slotSystem T m).Reachable s) : Dropped s := by
  refine h.invariant (I := Dropped) ?_ ?_
  · rintro s rfl hd
    cases hd
  · rintro s t s' hs ⟨sh, p, ⟨-, hmove⟩, rfl⟩ hd
    obtain ⟨hslot, htake, hbegun⟩ := hmove.phases
    rcases hbegun hd with ⟨hold, hfill⟩ | ⟨hp, hpf, hothers⟩
    · obtain ⟨hnofill, hempty⟩ := hs hold
      refine ⟨fun u => ?_, ?_⟩
      · by_cases hu : u = t
        · subst hu
          by_contra hf
          simp only [Pool.move_pc, Function.update_self, Bool.not_eq_false] at hf
          rw [hnofill u] at hfill
          exact absurd (hfill hf) Bool.false_ne_true
        · simpa [Function.update_of_ne hu] using hnofill u
      · rcases hempty with hnone | ⟨u, hu⟩
        · exact .inl (hslot hnone (hnofill t))
        · by_cases hut : u = t
          · subst hut
            rcases htake hu with h1 | h1
            · exact .inr ⟨u, by simpa using h1⟩
            · exact .inl h1
          · exact .inr ⟨u, by simpa [Function.update_of_ne hut] using hu⟩
    · refine ⟨fun u => ?_, .inr ⟨t, by simpa using hp⟩⟩
      by_cases hu : u = t
      · subst hu
        simpa using hpf
      · have hno := hothers u hu
        simp only [Pool.move_pc, Function.update_of_ne hu]
        unfold Pc.ownerOp at hno
        unfold Pc.mayFill
        split <;> simp_all

/-- **Closures are released exactly once.** In every reachable state: the destructor of
each closure has begun at most once; while an invocation is in progress the destructor
of its closure has not begun and is not running; when the owner's drop has been
performed and all threads are done, the destructor of every closure ever handed to `set`
has run exactly once; and a thread running a closure's destructor holds neither the
registration lock nor the slot lock. -/
theorem closures_released_once (T : Type*) [Fintype T] [DecidableEq T] (m : Libmpv)
    (s : SlotState T) (h : (slotSystem T m).Reachable s) :
    (∀ c, s.shared.drops c ≤ 1) ∧
    (∀ t c, (s.pc t).invoking = some c →
      s.shared.drops c = 0 ∧ ∀ u, (s.pc u).destroying ≠ some c) ∧
    (s.shared.dropBegun = true → (∀ t, s.pc t = .idle) →
      ∀ c, c < s.shared.next → s.shared.drops c = 1) ∧
    ∀ t c, (s.pc t).destroying = some c →
      s.shared.lock .registration ≠ some t ∧ s.shared.lock .slot ≠ some t := by
  have hledger := slot_ledger h
  refine ⟨fun c => ?_, fun t c hc => ?_, fun hd hidle c hlt => ?_, fun t c hc => ?_⟩
  · rcases Nat.eq_zero_or_pos (s.shared.strong c) with hz | hpos
    · by_cases hlt : c < s.shared.next
      · exact (hledger.lifetimes.dead c hlt hz).le
      · rw [(hledger.lifetimes.fresh c (not_lt.mp hlt)).2]
        exact Nat.zero_le 1
    · rw [hledger.lifetimes.alive c hpos]
      exact Nat.zero_le 1
  · have howned : c ∈ (s.pc t).owned := by
      unfold Pc.invoking at hc
      split at hc
      · next caller c' e =>
          cases hc
          rw [e]
          cases caller <;> exact List.mem_cons_self
      · cases hc
    have hz := hledger.lifetimes.alive c (hledger.pos_of_owned howned)
    refine ⟨hz, fun u hu => ?_⟩
    have := slot_destroying h u c hu
    omega
  · have hnone : s.shared.slot = none := by
      rcases (slot_dropped h hd).2 with hnone | ⟨u, hu⟩
      · exact hnone
      · rw [hidle u] at hu
        cases hu
    refine hledger.lifetimes.dead c hlt ?_
    rw [hledger.strong c, hnone]
    simp [hidle, Pc.owned]
  · have howned := slot_owned h
    have hagrees := (slot_agrees h).2 t
    rw [Ne, howned, Ne, howned]
    unfold Pc.destroying at hc
    split at hc
    · next e => rw [e]; simp [Libmpv.holds, Pc.holds]
    · next caller c' b e =>
        rw [e] at hagrees ⊢
        cases caller with
        | libmpv => simp [Libmpv.holds, Pc.holds]
        | register prev => exact absurd rfl (hagrees.2.2.2 c' b)
    · cases hc

/-- While the only closure is being invoked, its destructor has not begun. -/
theorem invocation_not_released : ∃ s : SlotState (Fin 2),
    s.pc 1 = .trampoline .libmpv (.call 0) ∧ s.shared.drops 0 = 0 := by
  obtain ⟨s, hs, -, -, hp⟩ := exists_invocation
  obtain ⟨-, hinvoking, -, -⟩ := closures_released_once (Fin 2) ⟨true⟩ s hs
  exact ⟨s, hp, (hinvoking 1 0 (by rw [hp]; rfl)).1⟩

end Rsmpv
