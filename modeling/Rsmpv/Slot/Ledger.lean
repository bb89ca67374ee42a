import Rsmpv.Slot.Locks

/-!
# The Reference Ledger of Stored Closures

A stored closure is an `Arc` shared by the slot, by the locals of `set` and `teardown`,
and by the clones of running trampolines; whoever releases the last reference runs the
destructor. The module counts: each step is balanced (`RefEffect.balance`), so in every
reachable state the `Arc` count of a closure is the number of references that exist in
the slot and in all threads, and a destructor has begun — once — exactly for the
closures that were handed to `set` and have none left (`slot_ledger`).

## Main results

* `Move.refEffect`: every step is of one of five kinds: it keeps all references, or moves
  one between the thread and the slot; it makes a closure; it clones one; it releases one;
  or it releases the last one.
* `RefEffect.balance`: each of them is balanced.
* `Lifetimes.step`: only the release of a last reference ends the life of a closure.
* `Ledger.move`, `slot_ledger`: one step keeps the ledger, and so does every run.
* `Ledger.pos_of_owned`, `Ledger.pos_of_slot`: what a thread owns or the slot holds is
  alive.
-/

namespace Rsmpv

/-- The clone a trampoline holds. -/
def TrampolinePc.owned : TrampolinePc → Option Callback
  | .unlock cb => cb
  | .call c | .drop c _ => some c
  | _ => none

/-- The closure references a thread owns at a control point. -/
def Pc.owned : Pc → List Callback
  | .set (.lockRegistration c) | .set (.leak c) | .set (.lockSlot c) | .set (.replace c) => [c]
  | .set (.unlockSlot prev) | .set (.register prev) | .set (.enter prev)
  | .set (.registering prev) | .set (.unlockRegistration prev) => prev.toList
  | .teardown _ (.unlockRegistration cb) | .teardown _ (.unlockSlot cb)
  | .teardown _ (.destroy cb) => cb.toList
  | .drop cb => cb.toList
  | .trampoline .libmpv q => q.owned.toList
  | .trampoline (.register prev) q => q.owned.toList ++ prev.toList
  | _ => []

variable {T : Type*} {m : Libmpv} {s : SlotState T} {t : T} {sh : Shared T} {p : Pc}

/-- What one step may do to the closure references: move them between the slot and the
thread, bring a new closure, clone what the slot holds, or release one reference. -/
inductive RefEffect (sh sh' : Shared T) (p p' : Pc) : Prop
  | keep : sh'.next = sh.next → sh'.strong = sh.strong → sh'.drops = sh.drops →
      (∀ c, sh'.slot.toList.count c + p'.owned.count c =
        sh.slot.toList.count c + p.owned.count c) → RefEffect sh sh' p p'
  | new : sh'.next = sh.next + 1 → sh'.strong = Function.update sh.strong sh.next 1 →
      sh'.drops = sh.drops → sh'.slot = sh.slot → p.owned = [] → p'.owned = [sh.next] →
      RefEffect sh sh' p p'
  | clone (c : Callback) : sh.slot = some c → sh'.next = sh.next →
      sh'.strong = Function.update sh.strong c (sh.strong c + 1) → sh'.drops = sh.drops →
      sh'.slot = sh.slot → p'.owned = c :: p.owned → RefEffect sh sh' p p'
  | release (c : Callback) : sh.strong c ≠ 1 → sh'.next = sh.next →
      sh'.strong = Function.update sh.strong c (sh.strong c - 1) → sh'.drops = sh.drops →
      sh'.slot = sh.slot → p.owned = c :: p'.owned → RefEffect sh sh' p p'
  | last (c : Callback) : sh.strong c = 1 → sh'.next = sh.next →
      sh'.strong = Function.update sh.strong c 0 →
      sh'.drops = Function.update sh.drops c (sh.drops c + 1) →
      sh'.slot = sh.slot → p.owned = c :: p'.owned → RefEffect sh sh' p p'

/-- Taking a lock moves no reference. -/
theorem Pc.lockStep_owned {p p' : Pc} {ℓ : Lock} (h : p.lockStep = some (ℓ, p')) :
    p'.owned = p.owned := by
  cases Pc.lockStep_cases h with
  | trampoline caller => cases caller <;> rfl
  | _ => rfl

/-- Releasing a lock moves no reference. -/
theorem Pc.unlockStep_owned {p p' : Pc} {ℓ : Lock} (h : p.unlockStep = some (ℓ, p')) :
    p'.owned = p.owned := by
  cases Pc.unlockStep_cases h with
  | cloned caller | empty caller => cases caller <;> rfl
  | _ => rfl

/-- Every step is of one of the five kinds. -/
theorem Move.refEffect (h : Move m s t sh p) : RefEffect s.shared sh (s.pc t) p := by
  have same : ∀ q : Pc, s.pc t = q → p.owned = q.owned → sh.slot = s.shared.slot →
      sh.next = s.shared.next → sh.strong = s.shared.strong → sh.drops = s.shared.drops →
      RefEffect s.shared sh (s.pc t) p := by
    rintro q rfl ho hs hn hst hd
    exact .keep hn hst hd fun c => by rw [ho, hs]
  cases h with
  | beginSet hp => exact .new rfl rfl rfl rfl (by rw [hp]; rfl) rfl
  | @lock ℓ _ hstep hfree =>
      obtain ⟨_, e⟩ := s.shared.acquire_eq m t ℓ
      exact same _ rfl (Pc.lockStep_owned hstep) (by rw [e]) (by rw [e]) (by rw [e]) (by rw [e])
  | @unlock ℓ _ hstep =>
      obtain ⟨_, e⟩ := s.shared.release_eq m ℓ
      exact same _ rfl (Pc.unlockStep_owned hstep) (by rw [e]) (by rw [e]) (by rw [e])
        (by rw [e])
  | leak hp =>
      obtain ⟨_, e⟩ := s.shared.leak_eq
      exact same _ hp rfl (by rw [e]) (by rw [e]) (by rw [e]) (by rw [e])
  | replace hp =>
      refine .keep rfl rfl rfl fun c => ?_
      rw [hp]
      simp [Pc.owned, Nat.add_comm]
  | take hp =>
      refine .keep rfl rfl rfl fun c => ?_
      rw [hp]
      simp [Pc.owned]
  | @clone caller hp =>
      cases e : s.shared.slot with
      | none =>
          rw [Shared.cloneSlot_none e]
          exact .keep rfl rfl rfl fun c => by rw [hp]; cases caller <;> rfl
      | some c =>
          rw [Shared.cloneSlot_some e]
          exact .clone c e rfl rfl rfl rfl (by rw [hp]; cases caller <;> rfl)
  | @dropCloneShared caller c _ hp hone =>
      exact .release c hone rfl rfl rfl rfl (by rw [hp]; cases caller <;> rfl)
  | @dropCloneLast caller c _ hp hone =>
      exact .last c hone rfl rfl rfl rfl (by rw [hp]; cases caller <;> rfl)
  | @dropShared c hp hone => exact .release c hone rfl rfl rfl rfl (by rw [hp]; rfl)
  | @dropLast c hp hone => exact .last c hone rfl rfl rfl rfl (by rw [hp]; rfl)
  | @call caller _ _ hp | @cloneDestructor caller _ _ hp | @abort caller _ hp =>
      exact same _ hp (by cases caller <;> rfl) rfl rfl rfl rfl
  | beginClear hp | beginTeardown hp | beginDrop hp | beginDispatch hp | register hp
  | raise hp | raised hp | unregister hp | destroy hp | dropNone hp | destructor hp =>
      exact same _ hp rfl rfl rfl rfl rfl

/-- Every step is balanced: a count changes by the references that the slot and the
thread gain and lose. -/
theorem RefEffect.balance {sh' : Shared T} {p' : Pc} (h : RefEffect sh sh' p p')
    (hnew : sh.strong sh.next = 0) (hpos : ∀ c ∈ p.owned, 0 < sh.strong c) (c : Callback) :
    sh'.strong c + sh.slot.toList.count c + p.owned.count c =
      sh.strong c + sh'.slot.toList.count c + p'.owned.count c := by
  have count : ∀ a l, List.count c (a :: l) = l.count c + if c = a then 1 else 0 := by
    intro a l
    by_cases hca : c = a
    · subst hca; simp
    · simp [hca, List.count_cons_of_ne (Ne.symm hca)]
  cases h with
  | keep _ hs _ hc =>
      have := hc c
      rw [hs]
      omega
  | new _ hs _ hslot hp hp' =>
      rw [hs, hslot, hp, hp', count, Function.update_apply]
      split
      · next hc => rw [hc, hnew, List.count_nil]; omega
      · simp
  | clone a _ _ hs _ hslot hp' =>
      rw [hs, hslot, hp', count, Function.update_apply]
      split
      · next hc => rw [hc]; omega
      · omega
  | release a _ _ hs _ hslot hp =>
      have := hpos a (by rw [hp]; exact List.mem_cons_self)
      rw [hs, hslot, hp, count, Function.update_apply]
      split
      · next hc => rw [hc]; omega
      · omega
  | last a hone _ hs _ hslot hp =>
      rw [hs, hslot, hp, count, Function.update_apply]
      split
      · next hc => rw [hc, hone]; omega
      · omega

/-- A closure lives from its `set` to the release of its last reference, which is when its
destructor begins. -/
structure Lifetimes (sh : Shared T) : Prop where
  alive : ∀ c, 0 < sh.strong c → sh.drops c = 0
  dead : ∀ c, c < sh.next → sh.strong c = 0 → sh.drops c = 1
  fresh : ∀ c, sh.next ≤ c → sh.strong c = 0 ∧ sh.drops c = 0

/-- A closure with a reference was handed to `set`. -/
theorem Lifetimes.lt_next (hl : Lifetimes sh) {c : Callback} (hc : 0 < sh.strong c) :
    c < sh.next := by
  by_contra hge
  have := (hl.fresh c (not_lt.mp hge)).1
  omega

/-- One step keeps the lifetimes: only the release of a last reference ends one. -/
theorem Lifetimes.step {sh' : Shared T} {p' : Pc} (hl : Lifetimes sh)
    (h : RefEffect sh sh' p p') (hslot : ∀ c, sh.slot = some c → 0 < sh.strong c)
    (hpos : ∀ c ∈ p.owned, 0 < sh.strong c) : Lifetimes sh' := by
  -- A count that stays positive, on a closure that stays alive.
  have adjust : ∀ a k, 0 < sh.strong a → 0 < k → sh'.next = sh.next →
      sh'.strong = Function.update sh.strong a k → sh'.drops = sh.drops → Lifetimes sh' := by
    intro a k ha hk hn hs hd
    have hlt := hl.lt_next ha
    constructor
    · intro c hc
      rw [hs, Function.update_apply] at hc
      rw [hd]
      split at hc
      · next e => rw [e]; exact hl.alive a ha
      · exact hl.alive c hc
    · intro c hc hz
      rw [hs, Function.update_apply] at hz
      rw [hd]
      split at hz
      · omega
      · exact hl.dead c (hn ▸ hc) hz
    · intro c hc
      rw [hn] at hc
      rw [hs, hd, Function.update_of_ne (lt_of_lt_of_le hlt hc).ne']
      exact hl.fresh c hc
  cases h with
  | keep hn hs hd _ =>
      constructor
      · rw [hs, hd]; exact hl.alive
      · rw [hn, hs, hd]; exact hl.dead
      · rw [hn, hs, hd]; exact hl.fresh
  | new hn hs hd _ _ _ =>
      constructor
      · intro c hc
        rw [hs, Function.update_apply] at hc
        rw [hd]
        split at hc
        · next e => rw [e]; exact (hl.fresh _ le_rfl).2
        · exact hl.alive c hc
      · intro c hc hz
        rw [hs, Function.update_apply] at hz
        rw [hd]
        split at hz
        · omega
        · next e =>
            rw [hn] at hc
            exact hl.dead c (lt_of_le_of_ne (Nat.lt_succ_iff.mp hc) e) hz
      · intro c hc
        rw [hn] at hc
        rw [hs, hd, Function.update_of_ne (Nat.lt_of_succ_le hc).ne']
        exact hl.fresh c (Nat.le_of_succ_le hc)
  | clone a ha hn hs hd _ _ =>
      exact adjust a _ (hslot a ha) (Nat.succ_pos _) hn hs hd
  | release a hone hn hs hd _ hp =>
      have ha := hpos a (by rw [hp]; exact List.mem_cons_self)
      exact adjust a _ ha (by omega) hn hs hd
  | last a hone hn hs hd _ hp =>
      have ha : 0 < sh.strong a := by omega
      have hlt := hl.lt_next ha
      constructor
      · intro c hc
        rw [hs, Function.update_apply] at hc
        split at hc
        · omega
        · next e => rw [hd, Function.update_of_ne e]; exact hl.alive c hc
      · intro c hc hz
        rw [hs, Function.update_apply] at hz
        split at hz
        · next e => rw [hd, e, Function.update_self, hl.alive a ha]
        · next e => rw [hd, Function.update_of_ne e]; exact hl.dead c (hn ▸ hc) hz
      · intro c hc
        rw [hn] at hc
        have e : c ≠ a := (lt_of_lt_of_le hlt hc).ne'
        rw [hs, hd, Function.update_of_ne e, Function.update_of_ne e]
        exact hl.fresh c hc

/-- **The ledger**: the `Arc` counts are the references that exist, in the slot and in
the threads. -/
structure Ledger [Fintype T] (s : SlotState T) : Prop where
  strong : ∀ c, s.shared.strong c =
    s.shared.slot.toList.count c + ∑ u, (s.pc u).owned.count c
  lifetimes : Lifetimes s.shared

section Ledger

variable [Fintype T]

/-- What a thread owns is alive. -/
theorem Ledger.pos_of_owned (hl : Ledger s) {c : Callback} (hc : c ∈ (s.pc t).owned) :
    0 < s.shared.strong c := by
  have h1 : 0 < (s.pc t).owned.count c := List.count_pos_iff.mpr hc
  have h2 := Pool.le_sum (fun q : Pc => q.owned.count c) s.pc t
  have h3 := hl.strong c
  omega

/-- What the slot holds is alive. -/
theorem Ledger.pos_of_slot (hl : Ledger s) {c : Callback} (hc : s.shared.slot = some c) :
    0 < s.shared.strong c := by
  have h := hl.strong c
  rw [hc] at h
  simp only [Option.toList_some, List.count_cons_self, List.count_nil] at h
  omega

/-- A destructor that has begun does not begin again. -/
theorem Move.drops_eq_one (h : Move m s t sh p) (hl : Ledger s) {c : Callback}
    (hc : s.shared.drops c = 1) : sh.drops c = 1 := by
  cases h.refEffect with
  | keep _ _ hd _ | new _ _ hd _ _ _ | clone _ _ _ _ hd _ _ | release _ _ _ _ hd _ _ =>
      rw [hd, hc]
  | last a hone _ _ hd _ _ =>
      have hne : c ≠ a := by
        rintro rfl
        have := hl.lifetimes.alive c (by omega)
        omega
      rw [hd, Function.update_of_ne hne, hc]

/-- One step keeps the ledger. -/
theorem Ledger.move [DecidableEq T] (hl : Ledger s) (h : Move m s t sh p) :
    Ledger (s.move t sh p) := by
  have hpos : ∀ c ∈ (s.pc t).owned, 0 < s.shared.strong c := fun c => hl.pos_of_owned
  refine ⟨fun c => ?_, hl.lifetimes.step h.refEffect (fun c => hl.pos_of_slot) hpos⟩
  have h1 := Pool.ledger (fun q : Pc => q.owned.count c) s.pc t p
  have h2 := hl.strong c
  have h3 := h.refEffect.balance (hl.lifetimes.fresh _ le_rfl).1 hpos c
  simp only [Pool.move_shared, Pool.move_pc]
  omega

/-- The ledger holds in every reachable state. -/
theorem slot_ledger [DecidableEq T] (h : (slotSystem T m).Reachable s) : Ledger s := by
  refine h.invariant ?_ ?_
  · rintro s rfl
    refine ⟨fun c => by simp [Pc.owned], ⟨fun c hc => ?_, fun c hc => ?_, fun c _ => ?_⟩⟩
    · exact absurd hc (lt_irrefl 0)
    · exact absurd hc (Nat.not_lt_zero c)
    · exact ⟨rfl, rfl⟩
  · rintro s t s' hs ⟨sh, p, ⟨-, hmove⟩, rfl⟩
    exact hs.move hmove

end Ledger

end Rsmpv
