import Rsmpv.Slot.Release

/-!
# Replaced Closures

What becomes of a closure that `set` replaced or `teardown` took out, while dispatches go on:
nobody comes by it any more (`Move.inherits`). The dispatches that hold a clone of it finish
their call, and whoever lets go of it last runs its destructor
(`replaced_closure_released`), as the documentation of `set_wakeup_callback` and
`clear_wakeup_callback` promises.
-/

namespace Rsmpv

variable {T : Type*} {m : Libmpv} {s : SlotState T} {t : T} {sh : Shared T} {p : Pc}

/-- The closure that a `set` is about to store. -/
def Pc.filling : Pc → Option Callback
  | .set (.lockRegistration c) | .set (.leak c) | .set (.lockSlot c) | .set (.replace c) => some c
  | _ => none

/-- The clone that a dispatch holds. -/
def Pc.cloned : Pc → Option Callback
  | .trampoline _ q => q.owned
  | _ => none

/-- A closure that was handed to `set`, and is not in the slot and will not be again. -/
structure Gone (s : SlotState T) (c : Callback) : Prop where
  known : c < s.shared.next
  slot : s.shared.slot ≠ some c
  filling : ∀ t, (s.pc t).filling ≠ some c

/-- What a control point knows of a closure came from before. -/
structure Pc.Inherits (c : Callback) (p p' : Pc) : Prop where
  filling : p'.filling = some c → p.filling = some c
  owned : c ∈ p'.owned → c ∈ p.owned
  cloned : p'.cloned = some c → p.cloned = some c

/-- Taking a lock gives the thread no closure. -/
theorem Pc.lockStep_inherits {p p' : Pc} {ℓ : Lock} (h : p.lockStep = some (ℓ, p'))
    (c : Callback) : p.Inherits c p' := by
  refine ⟨?_, by rw [Pc.lockStep_owned h]; exact id, ?_⟩
  · cases Pc.lockStep_cases h <;> exact id
  · cases Pc.lockStep_cases h <;> exact id

/-- Nor does releasing one. -/
theorem Pc.unlockStep_inherits {p p' : Pc} {ℓ : Lock} (h : p.unlockStep = some (ℓ, p'))
    (c : Callback) : p.Inherits c p' := by
  refine ⟨?_, by rw [Pc.unlockStep_owned h]; exact id, ?_⟩
  · cases Pc.unlockStep_cases h <;> exact id
  · cases Pc.unlockStep_cases h <;> exact id

/-- A step of a dispatch, as far as the closures are concerned. -/
theorem Pc.Inherits.trampoline {c : Callback} {caller : Caller} {q q' : TrampolinePc}
    (h : q'.owned = some c → q.owned = some c) :
    Pc.Inherits c (.trampoline caller q) (.trampoline caller q') := by
  refine ⟨id, fun hc => ?_, h⟩
  cases caller with
  | libmpv =>
      rw [Pc.owned, Option.mem_toList] at hc ⊢
      exact h hc
  | register prev =>
      rw [Pc.owned, List.mem_append, Option.mem_toList] at hc ⊢
      exact hc.imp_left h

/-- **The step lemma**: nobody comes by a closure that is gone. -/
theorem Move.inherits {c : Callback} (h : Move m s t sh p) (hgone : Gone s c) :
    (s.pc t).Inherits c p ∧ c < sh.next ∧ sh.slot ≠ some c := by
  cases h with
  | @lock ℓ _ hstep _ =>
      obtain ⟨_, e⟩ := s.shared.acquire_eq m t ℓ
      rw [e]
      exact ⟨Pc.lockStep_inherits hstep c, hgone.known, hgone.slot⟩
  | @unlock ℓ _ hstep =>
      obtain ⟨_, e⟩ := s.shared.release_eq m ℓ
      rw [e]
      exact ⟨Pc.unlockStep_inherits hstep c, hgone.known, hgone.slot⟩
  | beginSet e =>
      have hne : s.shared.next ≠ c := hgone.known.ne'
      refine ⟨⟨fun hf => absurd (Option.some.inj hf) hne, fun hc => ?_, nofun⟩,
        Nat.lt_succ_of_lt hgone.known, hgone.slot⟩
      exact absurd (List.mem_singleton.mp hc).symm hne
  | leak e =>
      obtain ⟨_, e'⟩ := s.shared.leak_eq
      rw [e, e']
      exact ⟨⟨id, id, id⟩, hgone.known, hgone.slot⟩
  | @replace c' e =>
      have hne : some c' ≠ some c := by
        intro heq
        exact hgone.filling t (by rw [e]; exact heq)
      refine ⟨⟨nofun, fun hc => ?_, nofun⟩, hgone.known, hne⟩
      exact absurd (Option.mem_toList.mp hc) hgone.slot
  | take e =>
      refine ⟨⟨nofun, fun hc => ?_, nofun⟩, hgone.known, nofun⟩
      exact absurd (Option.mem_toList.mp hc) hgone.slot
  | clone e =>
      obtain ⟨_, e'⟩ := s.shared.cloneSlot_eq
      rw [e, e']
      exact ⟨.trampoline fun hc => absurd hc hgone.slot, hgone.known, hgone.slot⟩
  | call _ e | abort e =>
      rw [e]
      exact ⟨.trampoline id, hgone.known, hgone.slot⟩
  | dropCloneShared e | dropCloneLast e | cloneDestructor e =>
      rw [e]
      exact ⟨.trampoline nofun, hgone.known, hgone.slot⟩
  | raise e | raised e =>
      rw [e]
      exact ⟨⟨id, id, nofun⟩, hgone.known, hgone.slot⟩
  | register e | unregister e | destroy e =>
      rw [e]
      exact ⟨⟨nofun, id, nofun⟩, hgone.known, hgone.slot⟩
  | beginClear e | beginTeardown e | beginDrop e | beginDispatch e | dropNone e | dropShared e
  | dropLast e | destructor e =>
      exact ⟨⟨nofun, nofun, nofun⟩, hgone.known, hgone.slot⟩

/-- The run lemma: a closure that is gone stays gone, with those who had it. -/
theorem Gone.run [DecidableEq T] {s' : SlotState T} {l : List T} {c : Callback}
    (hgone : Gone s c) (hrun : (slotSystem T m).Run s l s') :
    Gone s' c ∧ ∀ t, (s.pc t).Inherits c (s'.pc t) := by
  refine hrun.history (I := fun _ s' => Gone s' c ∧ ∀ t, (s.pc t).Inherits c (s'.pc t))
    ⟨hgone, fun _ => ⟨id, id, id⟩⟩ ?_
  rintro - s₁ t s₂ ⟨hgone₁, hinherits⟩ ⟨sh, p, ⟨-, hmove⟩, rfl⟩
  obtain ⟨hp, hknown, hslot⟩ := hmove.inherits hgone₁
  have all : ∀ u, (s₁.pc u).Inherits c ((s₁.move t sh p).pc u) := by
    intro u
    by_cases hu : u = t
    · subst hu
      rw [Pool.move_pc, Function.update_self]
      exact hp
    · rw [Pool.move_pc, Function.update_of_ne hu]
      exact ⟨id, id, id⟩
  refine ⟨⟨hknown, hslot, fun u hu => hgone₁.filling u ((all u).filling hu)⟩, fun u => ?_⟩
  exact ⟨(hinherits u).filling ∘ (all u).filling, (hinherits u).owned ∘ (all u).owned,
    (hinherits u).cloned ∘ (all u).cloned⟩

/-- **A closure that was taken out of the slot**, from then on: it does not come back, only the
dispatches that hold a clone already can still call it, only the threads that have it keep it,
and its destructor has begun, once, exactly when none of them does any more. -/
theorem replaced_closure_released (T : Type*) [Fintype T] [DecidableEq T] (m : Libmpv)
    (s s' : SlotState T) (l : List T) (c : Callback) (h : (slotSystem T m).Reachable s)
    (hc : c < s.shared.next) (hslot : s.shared.slot ≠ some c)
    (hfilling : ∀ t, (s.pc t).filling ≠ some c) (hrun : (slotSystem T m).Run s l s') :
    s'.shared.slot ≠ some c ∧
    (∀ t, (s'.pc t).cloned = some c → (s.pc t).cloned = some c) ∧
    (∀ t, c ∈ (s'.pc t).owned → c ∈ (s.pc t).owned) ∧
    s'.shared.drops c ≤ 1 ∧
    (s'.shared.drops c = 1 ↔ ∀ t, c ∉ (s'.pc t).owned) := by
  obtain ⟨hgone, hinherits⟩ := Gone.run ⟨hc, hslot, hfilling⟩ hrun
  have hledger : Ledger s' := slot_ledger (h.of_run hrun)
  have hstrong : s'.shared.strong c = ∑ u, (s'.pc u).owned.count c := by
    have hcount : s'.shared.slot.toList.count c = 0 :=
      List.count_eq_zero.mpr fun hmem => hgone.slot (Option.mem_toList.mp hmem)
    rw [hledger.strong c, hcount, Nat.zero_add]
  have hnone : s'.shared.strong c = 0 ↔ ∀ t, c ∉ (s'.pc t).owned := by
    rw [hstrong, Finset.sum_eq_zero_iff]
    simp [List.count_eq_zero]
  refine ⟨hgone.slot, fun t => (hinherits t).cloned, fun t => (hinherits t).owned, ?_⟩
  rw [← hnone]
  rcases Nat.eq_zero_or_pos (s'.shared.strong c) with hzero | hpos
  · have hone := hledger.lifetimes.dead c hgone.known hzero
    exact ⟨hone.le, fun _ => hzero, fun _ => hone⟩
  · have hzero := hledger.lifetimes.alive c hpos
    refine ⟨by omega, fun hone => by omega, fun hstrong => by omega⟩

/-- The first closure is replaced while a dispatch calls it. -/
theorem exists_replaced : ∃ s s' : SlotState (Fin 2),
    (slotSystem (Fin 2) ⟨false⟩).Reachable s ∧ (slotSystem (Fin 2) ⟨false⟩).Run s [0] s' ∧
      s.shared.next = 2 ∧ s.shared.slot = some 1 ∧ s.pc 0 = .set (.unlockSlot (some 0)) ∧
      s.pc 1 = .trampoline .libmpv (.call 0) ∧ s'.pc 1 = .trampoline .libmpv (.call 0) := by
  have start := Lts.Reachable.of_init (M := slotSystem (Fin 2) ⟨false⟩) rfl
  have begun := start.of_step (a := 0) ⟨_, _, ⟨rfl, .beginSet rfl⟩, rfl⟩
  have locked := begun.of_step (a := 0) ⟨_, _, ⟨rfl, .lock rfl fun _ => rfl⟩, rfl⟩
  have leaked := locked.of_step (a := 0) ⟨_, _, ⟨rfl, .leak rfl⟩, rfl⟩
  have slotLocked := leaked.of_step (a := 0) ⟨_, _, ⟨rfl, .lock rfl fun _ => rfl⟩, rfl⟩
  have stored := slotLocked.of_step (a := 0) ⟨_, _, ⟨rfl, .replace rfl⟩, rfl⟩
  have slotFree := stored.of_step (a := 0) ⟨_, _, ⟨rfl, .unlock rfl⟩, rfl⟩
  have entered := slotFree.of_step (a := 0) ⟨_, _, ⟨rfl, .lock rfl nofun⟩, rfl⟩
  have registered := entered.of_step (a := 0) ⟨_, _, ⟨rfl, .register rfl⟩, rfl⟩
  have left := registered.of_step (a := 0) ⟨_, _, ⟨rfl, .unlock rfl⟩, rfl⟩
  have unlocked := left.of_step (a := 0) ⟨_, _, ⟨rfl, .unlock rfl⟩, rfl⟩
  have idle := unlocked.of_step (a := 0) ⟨_, _, ⟨rfl, .dropNone rfl⟩, rfl⟩
  have raised := idle.of_step (a := 1) ⟨_, _, ⟨rfl, .beginDispatch rfl rfl⟩, rfl⟩
  have running := raised.of_step (a := 1) ⟨_, _, ⟨rfl, .lock rfl nofun⟩, rfl⟩
  have reading := running.of_step (a := 1) ⟨_, _, ⟨rfl, .lock rfl fun _ => rfl⟩, rfl⟩
  have cloned := reading.of_step (a := 1) ⟨_, _, ⟨rfl, .clone rfl⟩, rfl⟩
  have calling := cloned.of_step (a := 1) ⟨_, _, ⟨rfl, .unlock rfl⟩, rfl⟩
  have again := calling.of_step (a := 0) ⟨_, _, ⟨rfl, .beginSet rfl⟩, rfl⟩
  have relocked := again.of_step (a := 0) ⟨_, _, ⟨rfl, .lock rfl fun _ => rfl⟩, rfl⟩
  have releaked := relocked.of_step (a := 0) ⟨_, _, ⟨rfl, .leak rfl⟩, rfl⟩
  have reslotLocked := releaked.of_step (a := 0) ⟨_, _, ⟨rfl, .lock rfl fun _ => rfl⟩, rfl⟩
  have replaced := reslotLocked.of_step (a := 0) ⟨_, _, ⟨rfl, .replace rfl⟩, rfl⟩
  exact ⟨_, _, replaced, Lts.Run.nil.snoc (l := []) ⟨_, _, ⟨rfl, .unlock rfl⟩, rfl⟩, rfl, rfl, rfl,
    rfl, rfl⟩

/-- A closure that was replaced during a dispatch is still alive in it. -/
theorem replaced_closure_in_flight : ∃ s : SlotState (Fin 2),
    s.shared.slot ≠ some 0 ∧ s.pc 1 = .trampoline .libmpv (.call 0) ∧ s.shared.drops 0 ≠ 1 := by
  obtain ⟨s, s', hs, hrun, hnext, hslot, h0, h1, h1'⟩ := exists_replaced
  have hfilling : ∀ t, (s.pc t).filling ≠ some 0 :=
    Fin.forall_fin_two.mpr ⟨by rw [h0]; nofun, by rw [h1]; nofun⟩
  obtain ⟨hslot', -, -, -, hdrops⟩ := replaced_closure_released (Fin 2) ⟨false⟩ s s' [0] 0 hs
    (by rw [hnext]; decide) (by rw [hslot]; decide) hfilling hrun
  refine ⟨s', hslot', h1', fun hone => ?_⟩
  refine hdrops.mp hone 1 ?_
  rw [h1']
  exact List.mem_singleton_self 0

end Rsmpv
