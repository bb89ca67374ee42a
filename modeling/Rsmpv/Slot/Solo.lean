import Rsmpv.Slot.Locks

/-!
# One Thread Alone

What `set` and `teardown` do when no other thread interferes: with the locks free they run to
their end (`Solo.set`, `Solo.teardown`). `Solo` is a run of one thread, in whatever state the
other threads are, so that any system in which the thread takes these steps has it as a run of
its own.
-/

namespace Rsmpv

/-- The operations of an owner: `set` with a new closure, and `teardown` to clear the callback or
to destroy the object. -/
inductive SlotOp
  | set (callback : Callback)
  | teardown (destroys : Bool)
  deriving DecidableEq

/-- The operation that takes effect with the next step. -/
def Pc.effect : Pc → List SlotOp
  | .set (.replace c) => [.set c]
  | .teardown d .take => [.teardown d]
  | _ => []

variable {T : Type*} {m : Libmpv} {t : T} {sh sh' : Shared T} {p p' : Pc} {ops : List SlotOp}
  {ℓ : Lock}

/-- Thread `t` steps from `p` to `p'`, wherever the others are. -/
def StepsTo (m : Libmpv) (t : T) (sh : Shared T) (p : Pc) (sh' : Shared T) (p' : Pc) : Prop :=
  p ≠ .idle ∧ sh.aborted = false ∧
    ∀ s : SlotState T, s.shared = sh → s.pc t = p → Move m s t sh' p'

/-- Thread `t` runs from `p` to `p'`, and the operations `ops` take effect. -/
inductive SoloRun (m : Libmpv) (t : T) (sh : Shared T) (p : Pc) :
    List SlotOp → Shared T → Pc → Prop
  | nil : SoloRun m t sh p [] sh p
  | snoc {ops : List SlotOp} {sh₁ sh₂ : Shared T} {p₁ p₂ : Pc} : SoloRun m t sh p ops sh₁ p₁ →
      StepsTo m t sh₁ p₁ sh₂ p₂ → SoloRun m t sh p (ops ++ p₁.effect) sh₂ p₂

/-- Nobody but the thread at `p` holds a lock. -/
def Shared.Sole (m : Libmpv) (sh : Shared T) (p : Pc) : Prop :=
  ∀ ℓ, m.has ℓ = true → p.holds ℓ = false → sh.lock ℓ = none

/-- A state at the end of a run of one thread. -/
structure SoloAt (m : Libmpv) (t : T) (sh₀ : Shared T) (p₀ : Pc) (ops : List SlotOp) (p : Pc)
    (sh : Shared T) : Prop where
  run : SoloRun m t sh₀ p₀ ops sh p
  sole : sh.Sole m p
  aborted : sh.aborted = false
  next : sh.next = sh₀.next

/-- A run of one thread ends at `p`. -/
def Solo (m : Libmpv) (t : T) (sh₀ : Shared T) (p₀ : Pc) (ops : List SlotOp) (p : Pc) : Prop :=
  ∃ sh, SoloAt m t sh₀ p₀ ops p sh

variable {sh₀ : Shared T} {p₀ : Pc}

/-- A run begins. -/
theorem Solo.start (hsole : sh.Sole m p) (haborted : sh.aborted = false) :
    Solo m t sh p [] p :=
  ⟨sh, .nil, hsole, haborted, rfl⟩

/-- A step that leaves the locks. -/
theorem SoloAt.move (h : SoloAt m t sh₀ p₀ ops p sh) (sh' : Shared T) (hidle : p ≠ .idle)
    (hmove : ∀ s : SlotState T, s.shared = sh → s.pc t = p → Move m s t sh' p')
    (haborted : sh'.aborted = sh.aborted) (hnext : sh'.next = sh.next)
    (hlock : sh'.lock = sh.lock) (hholds : ∀ ℓ, p'.holds ℓ = p.holds ℓ) :
    Solo m t sh₀ p₀ (ops ++ p.effect) p' := by
  refine ⟨sh', h.run.snoc ⟨hidle, h.aborted, hmove⟩, fun ℓ hm hp => ?_,
    haborted.trans h.aborted, hnext.trans h.next⟩
  rw [hlock]
  exact h.sole ℓ hm ((hholds ℓ).symm.trans hp)

/-- Such a step with which no operation takes effect. -/
theorem SoloAt.quiet (h : SoloAt m t sh₀ p₀ ops p sh) (sh' : Shared T) (hidle : p ≠ .idle)
    (heffect : p.effect = [])
    (hmove : ∀ s : SlotState T, s.shared = sh → s.pc t = p → Move m s t sh' p')
    (haborted : sh'.aborted = sh.aborted) (hnext : sh'.next = sh.next)
    (hlock : sh'.lock = sh.lock) (hholds : ∀ ℓ, p'.holds ℓ = p.holds ℓ) :
    Solo m t sh₀ p₀ ops p' := by
  have hstep := h.move sh' hidle hmove haborted hnext hlock hholds
  rwa [heffect, List.append_nil] at hstep

/-- No operation takes effect where a lock is taken. -/
theorem Pc.lockStep_effect (h : p.lockStep = some (ℓ, p')) : p ≠ .idle ∧ p.effect = [] := by
  cases Pc.lockStep_cases h <;> exact ⟨nofun, rfl⟩

/-- No operation takes effect where a lock is released. -/
theorem Pc.unlockStep_effect (h : p.unlockStep = some (ℓ, p')) : p ≠ .idle ∧ p.effect = [] := by
  cases Pc.unlockStep_cases h <;> exact ⟨nofun, rfl⟩

/-- A lock is free for the thread. -/
theorem Solo.lock (h : Solo m t sh₀ p₀ ops p) (hp : p.lockStep = some (ℓ, p')) :
    Solo m t sh₀ p₀ ops p' := by
  obtain ⟨sh, hs⟩ := h
  obtain ⟨hidle, heffect⟩ := Pc.lockStep_effect hp
  obtain ⟨hnot, hnew, hrest⟩ := Pc.lockStep_holds hp
  obtain ⟨_, e⟩ := sh.acquire_eq m t ℓ
  have hmove : StepsTo m t sh p (sh.acquire m t ℓ) p' := by
    refine ⟨hidle, hs.aborted, ?_⟩
    rintro s rfl rfl
    exact .lock hp fun hm => hs.sole ℓ hm hnot
  have hrun := hs.run.snoc hmove
  rw [heffect, List.append_nil] at hrun
  refine ⟨_, hrun, fun ℓ' hm' hp' => ?_, by rw [e]; exact hs.aborted, by rw [e]; exact hs.next⟩
  have hne : ℓ' ≠ ℓ := by
    rintro rfl
    rw [hnew] at hp'
    cases hp'
  have hfree := hs.sole ℓ' hm' ((hrest ℓ' hne).symm.trans hp')
  rw [Shared.acquire]
  split
  · exact (Function.update_of_ne hne _ _).trans hfree
  · exact hfree

/-- The thread releases a lock. -/
theorem Solo.unlock (h : Solo m t sh₀ p₀ ops p) (hp : p.unlockStep = some (ℓ, p')) :
    Solo m t sh₀ p₀ ops p' := by
  obtain ⟨sh, hs⟩ := h
  obtain ⟨hidle, heffect⟩ := Pc.unlockStep_effect hp
  obtain ⟨-, -, hrest⟩ := Pc.unlockStep_holds hp
  obtain ⟨_, e⟩ := sh.release_eq m ℓ
  have hmove : StepsTo m t sh p (sh.release m ℓ) p' := by
    refine ⟨hidle, hs.aborted, ?_⟩
    rintro s rfl rfl
    exact .unlock hp
  have hrun := hs.run.snoc hmove
  rw [heffect, List.append_nil] at hrun
  refine ⟨_, hrun, fun ℓ' hm' hp' => ?_, by rw [e]; exact hs.aborted, by rw [e]; exact hs.next⟩
  by_cases hne : ℓ' = ℓ
  · subst hne
    rw [Shared.release_has hm']
    exact Function.update_self _ _ _
  · have hfree := hs.sole ℓ' hm' ((hrest ℓ' hne).symm.trans hp')
    rw [Shared.release]
    split
    · exact (Function.update_of_ne hne _ _).trans hfree
    · exact hfree

/-- The last statement of an operation releases what the slot held. -/
theorem Solo.drop {cb : Option Callback} (h : Solo m t sh₀ p₀ ops (.drop cb)) :
    Solo m t sh₀ p₀ ops .idle := by
  obtain ⟨sh, hs⟩ := h
  cases cb with
  | none =>
      refine hs.quiet sh nofun rfl ?_ rfl rfl rfl fun ℓ => by cases ℓ <;> rfl
      rintro s rfl hp
      exact .dropNone hp
  | some c =>
      by_cases hone : sh.strong c = 1
      · obtain ⟨sh₁, hs₁⟩ : Solo m t sh₀ p₀ ops (.destructor c) := by
          refine hs.quiet (sh.dropLast c) nofun rfl ?_ rfl rfl rfl
            fun ℓ => by cases ℓ <;> rfl
          rintro s rfl hp
          exact .dropLast hp hone
        refine hs₁.quiet sh₁ nofun rfl ?_ rfl rfl rfl fun ℓ => by cases ℓ <;> rfl
        rintro s rfl hp
        exact .destructor hp
      · refine hs.quiet (sh.dropShared c) nofun rfl ?_ rfl rfl rfl
          fun ℓ => by cases ℓ <;> rfl
        rintro s rfl hp
        exact .dropShared hp hone

/-- **`set` alone**: with the locks free it stores its closure, registers, and returns. -/
theorem Solo.set {c : Callback} (h : Solo m t sh₀ p₀ ops (.set (.lockRegistration c))) :
    Solo m t sh₀ p₀ (ops ++ [.set c]) .idle := by
  obtain ⟨sh₁, leaking⟩ := h.lock rfl
  have leaked : Solo m t sh₀ p₀ ops (.set (.lockSlot c)) := by
    obtain ⟨_, e⟩ := sh₁.leak_eq
    refine leaking.quiet sh₁.leak nofun rfl ?_ (by rw [e]) (by rw [e]) (by rw [e])
      fun ℓ => by cases ℓ <;> rfl
    rintro s rfl hp
    exact .leak hp
  obtain ⟨sh₂, replacing⟩ := leaked.lock rfl
  have stored : Solo m t sh₀ p₀ (ops ++ [.set c]) (.set (.unlockSlot sh₂.slot)) := by
    refine replacing.move { sh₂ with slot := some c } nofun ?_ rfl rfl rfl
      fun ℓ => by cases ℓ <;> rfl
    rintro s rfl hp
    exact .replace hp
  obtain ⟨sh₃, entered⟩ := (stored.unlock rfl).lock rfl
  have registered : Solo m t sh₀ p₀ (ops ++ [.set c]) (.set (.registering sh₂.slot)) := by
    refine entered.quiet { sh₃ with registered := true, contextGiven := true } nofun rfl ?_
      rfl rfl rfl fun ℓ => by cases ℓ <;> rfl
    rintro s rfl hp
    exact .register hp
  exact ((registered.unlock rfl).unlock rfl).drop

/-- **`teardown` alone**: with the locks free it unregisters, takes the closure, and returns. -/
theorem Solo.teardown {d : Bool} (h : Solo m t sh₀ p₀ ops (.teardown d .lockRegistration)) :
    Solo m t sh₀ p₀ (ops ++ [.teardown d]) .idle := by
  obtain ⟨sh₁, clearing⟩ := (h.lock rfl).lock rfl
  have cleared : Solo m t sh₀ p₀ ops (.teardown d .unregistered) := by
    refine clearing.quiet { sh₁ with registered := false } nofun rfl ?_ rfl rfl rfl
      fun ℓ => by cases ℓ <;> rfl
    rintro s rfl hp
    exact .unregister hp
  obtain ⟨sh₂, taking⟩ := (cleared.unlock rfl).lock rfl
  have taken : Solo m t sh₀ p₀ (ops ++ [.teardown d])
      (.teardown d (.unlockRegistration sh₂.slot)) := by
    refine taking.move { sh₂ with slot := none } nofun ?_ rfl rfl rfl
      fun ℓ => by cases ℓ <;> rfl
    rintro s rfl hp
    exact .take hp
  obtain ⟨sh₃, destroying⟩ := (taken.unlock rfl).unlock rfl
  have destroyed : Solo m t sh₀ p₀ (ops ++ [.teardown d]) (.drop sh₂.slot) := by
    refine destroying.quiet { sh₃ with destroyed := sh₃.destroyed || d } nofun rfl ?_ rfl rfl rfl
      fun ℓ => by cases ℓ <;> rfl
    rintro s rfl hp
    exact .destroy hp
  exact destroyed.drop

end Rsmpv
