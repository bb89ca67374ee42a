import Rsmpv.Lib.Account
import Rsmpv.Lib.Atomic
import Rsmpv.Lifetime.Render
import Rsmpv.Slot.Replaced
import Rsmpv.Slot.Solo

/-!
# The Slot, Sequentially and Concurrently

The lifetimes of the owners are modelled with one thread: there `CallbackSlot::set` and
`CallbackSlot::teardown` are single operations on the world. Here they are compared with what any
number of threads do statement by statement. The operations of the owners are put in the order in
which they take effect, when `set` stores its closure and `teardown` takes one. Then the slot
holds at all times what the sequential code leaves after these operations
(`slot_refines_sequential`). A closure that the sequential code has released was released here
as soon as no thread has it any more, and never before. When all threads are done nothing
distinguishes the two. And every sequence of operations is that of some run, in which one thread
performs them and no other takes a step.

## Main results

* `SlotOwner.run_set`, `SlotOwner.run_teardown`, `SlotOwner.after_view`: what the sequential
  code does to the slot, whichever owner it is run by.
* `Move.slotEffect`: each step of the concurrent slot is of one of six kinds.
* `Mirrors.move`, `slot_mirrors`: the slot mirrors the sequential one in every reachable
  state.
* `AtRest.run`: a thread performs any operations, one after the other.
* `slot_refines_sequential`: both directions.
-/

namespace Rsmpv

/-! ### The sequential code -/

/-- A call of libmpv, and not what the wrapper does by itself. -/
def Ev.isCall : Ev → Bool
  | .store _ _ | .take _ | .release _ => false
  | _ => true

/-- The owner of a slot: where the slot is, the calls of libmpv that register and unregister the
callback, and the one that destroys the object. -/
structure SlotOwner where
  slot : ℕ
  register : Ev
  unregister : Ev
  destroy : Ev
  calls : ∀ e ∈ [register, unregister, destroy], e.isCall = true
  distinct : [register, unregister, destroy].Nodup

/-- A builder or a player. -/
def Handle.coreOwner (h : Handle) : SlotOwner where
  slot := h.wakeupSlot
  register := .setWakeup h.raw h.wakeupSlot
  unregister := .clearWakeup h.raw
  destroy := .terminateDestroy h.raw
  calls := by simp [Ev.isCall]
  distinct := by simp

/-- A client. -/
def Handle.clientOwner (h : Handle) : SlotOwner where
  slot := h.wakeupSlot
  register := .setWakeup h.raw h.wakeupSlot
  unregister := .clearWakeup h.raw
  destroy := .destroy h.raw
  calls := by simp [Ev.isCall]
  distinct := by simp

/-- A render context. -/
def RenderInner.slotOwner (r : RenderInner) : SlotOwner where
  slot := r.updateSlot
  register := .setUpdate r.raw r.updateSlot
  unregister := .clearUpdate r.raw
  destroy := .freeContext r.raw
  calls := by simp [Ev.isCall]
  distinct := by simp

namespace SlotOwner

variable (o : SlotOwner) (panics : Callback → Bool)

/-- An operation, in the sequential code. The destructors of the closures return or panic. -/
def run : SlotOp → Comp Unit
  | .set c => CallbackSlot.set o.slot ⟨c, panics c⟩ (emit o.register)
  | .teardown false => CallbackSlot.teardown o.slot (emit o.unregister) (pure ())
  | .teardown true => CallbackSlot.teardown o.slot (emit o.unregister) (emit o.destroy)

/-- The world after some operations on a new slot, also when some of them unwind. -/
def after (ops : List SlotOp) : World := ops.foldl (fun w op => (o.run panics op w).2) {}

end SlotOwner

/-- The code of the owners are these operations. -/
theorem SlotOwner.run_owners (panics : Callback → Bool) (h : Handle) (r : RenderInner) (c : ℕ) :
    h.coreOwner.run panics (.set c) = h.setWakeupCallback ⟨c, panics c⟩ ∧
    h.coreOwner.run panics (.teardown false) = h.clearWakeupCallback ∧
    h.coreOwner.run panics (.teardown true) = h.teardown (emit (.terminateDestroy h.raw)) ∧
    h.clientOwner.run panics (.teardown true) = h.teardown (emit (.destroy h.raw)) ∧
    r.slotOwner.run panics (.set c) = r.setUpdateCallback ⟨c, panics c⟩ ∧
    r.slotOwner.run panics (.teardown false) = r.clearUpdateCallback ∧
    r.slotOwner.run panics (.teardown true) = r.teardown (emit (.freeContext r.raw)) :=
  ⟨rfl, rfl, rfl, rfl, rfl, rfl, rfl⟩

/-- What there is to see of a slot: what it holds, whether it was leaked, whether libmpv has the
callback registered and the object destroyed, and how often each closure was released. -/
@[ext]
structure SlotView where
  content : Option Callback := none
  leaked : Bool := false
  registered : Bool := false
  destroyed : Bool := false
  released : Callback → ℕ := fun _ => 0

/-- What an operation does to the slot. -/
def SlotView.apply (v : SlotView) : SlotOp → SlotView
  | .set c =>
    { v with
      content := some c
      leaked := true
      registered := true
      released := fun x => v.released x + v.content.toList.count x }
  | .teardown destroys =>
    { v with
      content := none
      registered := false
      destroyed := v.destroyed || destroys
      released := fun x => v.released x + v.content.toList.count x }

/-- Whether a callback is registered after some events: what the last of the two calls said. -/
def SlotOwner.registered (o : SlotOwner) (b : Bool) (l : List Ev) : Bool :=
  l.foldl (fun b e => if e = o.register then true else if e = o.unregister then false else b) b

/-- The slot of an owner, as it is in the world. -/
def World.slotView (w : World) (o : SlotOwner) : SlotView where
  content := (w.slots o.slot).content.map BoxedFn.id
  leaked := (w.slots o.slot).leaked
  registered := o.registered false w.trace
  destroyed := decide (o.destroy ∈ w.trace)
  released := fun c => w.trace.count (.release c)

section Sequential

variable {o : SlotOwner} {panics : Callback → Bool} {w : World}

/-- What the wrapper does by itself is none of the calls of the owner. -/
theorem SlotOwner.ne_of_not_isCall {e : Ev} (he : e.isCall = false) :
    e ≠ o.register ∧ e ≠ o.unregister ∧ e ≠ o.destroy := by
  refine ⟨?_, ?_, ?_⟩
  all_goals
    rintro rfl
    rw [o.calls _ (by simp)] at he
    cases he

/-- Registering and unregistering are different calls. -/
theorem SlotOwner.register_ne_unregister : o.unregister ≠ o.register := by
  have h := o.distinct
  simp only [List.nodup_cons, List.mem_cons] at h
  exact fun heq => h.1 (.inl heq.symm)

/-- Destroying the object is a third one. -/
theorem SlotOwner.destroy_ne : o.destroy ≠ o.register ∧ o.destroy ≠ o.unregister := by
  have h := o.distinct
  simp only [List.nodup_cons, List.mem_cons] at h
  exact ⟨fun heq => h.1 (.inr (.inl heq.symm)), fun heq => h.2.1 (.inl heq.symm)⟩

/-- Of two traces the second one counts, from where the first left off. -/
theorem SlotOwner.registered_append (b : Bool) (l l' : List Ev) :
    o.registered b (l ++ l') = o.registered (o.registered b l) l' :=
  List.foldl_append

/-- Events that are neither of the two calls leave the registration. -/
theorem SlotOwner.registered_of_ne {l : List Ev}
    (h : ∀ e ∈ l, e ≠ o.register ∧ e ≠ o.unregister) (b : Bool) : o.registered b l = b := by
  induction l with
  | nil => rfl
  | cons e l ih =>
      obtain ⟨hregister, hunregister⟩ := h e List.mem_cons_self
      rw [registered, List.foldl_cons, if_neg hregister, if_neg hunregister]
      exact ih fun e' he' => h e' (List.mem_cons_of_mem _ he')

/-- The release of what a slot held. -/
theorem SlotOwner.view_releases (o : SlotOwner) (content : Option BoxedFn) :
    (∀ b, o.registered b (releases content.toList) = b) ∧
    o.destroy ∉ releases content.toList ∧
    ∀ c, (releases content.toList).count (.release c) =
      (content.map BoxedFn.id).toList.count c := by
  have hne : ∀ e ∈ releases content.toList,
      e ≠ o.register ∧ e ≠ o.unregister ∧ e ≠ o.destroy := by
    intro e he
    obtain ⟨fn, -, rfl⟩ := List.mem_map.mp he
    exact SlotOwner.ne_of_not_isCall rfl
  refine ⟨SlotOwner.registered_of_ne fun e he => ⟨(hne e he).1, (hne e he).2.1⟩,
    fun hmem => (hne _ hmem).2.2 rfl, fun c => ?_⟩
  cases content with
  | none => rfl
  | some fn => simp [releases, List.count_singleton]

/-- The view after some events and the release of what the slot held. -/
theorem World.slotView_eq (w : World) {w' : World} {l : List Ev} (h : w'.trace =
      w.trace ++ (l ++ releases (w.slots o.slot).content.toList))
    (hl : ∀ c, Ev.release c ∉ l) :
    w'.slotView o =
      { content := (w'.slots o.slot).content.map BoxedFn.id
        leaked := (w'.slots o.slot).leaked
        registered := o.registered (w.slotView o).registered l
        destroyed := (w.slotView o).destroyed || decide (o.destroy ∈ l)
        released := fun c =>
          (w.slotView o).released c + (w.slotView o).content.toList.count c } := by
  obtain ⟨hregistered, hdestroy, hcount⟩ := o.view_releases (w.slots o.slot).content
  ext1
  · rfl
  · rfl
  · simp only [slotView, h, SlotOwner.registered_append, hregistered]
  · simp [slotView, h, hdestroy]
  · funext c
    simp only [slotView, h, List.count_append, List.count_eq_zero.mpr (hl c), hcount, Nat.zero_add]

/-- `set` stores the new closure, registers, and releases the old one. -/
theorem SlotOwner.run_set (o : SlotOwner) (panics : Callback → Bool) (w : World) (c : Callback) :
    (o.run panics (.set c) w).2.slotView o = (w.slotView o).apply (.set c) := by
  obtain ⟨hstore, hstore', hstore''⟩ := ne_of_not_isCall (o := o) (e := .store o.slot c) rfl
  have hlast : o.registered (w.slotView o).registered [.store o.slot c, o.register] = true := by
    simp [registered, hstore, hstore']
  have hdestroy : o.destroy ∉ [Ev.store o.slot c, o.register] := by
    simp [hstore''.symm, o.destroy_ne.1]
  have hrelease : ∀ x, Ev.release x ∉ [Ev.store o.slot c, o.register] := by
    intro x
    simp [(ne_of_not_isCall (o := o) (e := .release x) rfl).1]
  have hrun := CallbackSlot.set_apply o.slot ⟨c, panics c⟩ o.register w
  rw [run, hrun, w.slotView_eq (l := [.store o.slot c, o.register]) rfl hrelease]
  simp [World.stored, SlotView.apply, hlast, hdestroy]

/-- What `teardown` does to the view, with the calls that `destroy` makes. -/
theorem SlotOwner.view_tornDown (o : SlotOwner) (w : World) {d : Bool} {l : List Ev}
    (hl : l = if d then [o.destroy] else []) :
    (w.tornDown o.slot o.unregister l).slotView o = (w.slotView o).apply (.teardown d) := by
  obtain ⟨htake, htake', htake''⟩ := ne_of_not_isCall (o := o) (e := .take o.slot) rfl
  have hlast : o.registered (w.slotView o).registered ([o.unregister, .take o.slot] ++ l) =
      false := by
    cases d <;>
      simp [registered, hl, htake, htake', register_ne_unregister, o.destroy_ne]
  have hdestroy : decide (o.destroy ∈ [o.unregister, Ev.take o.slot] ++ l) = d := by
    cases d <;> simp [hl, htake''.symm, o.destroy_ne.2]
  have hrelease : ∀ x, Ev.release x ∉ [o.unregister, Ev.take o.slot] ++ l := by
    intro x
    obtain ⟨-, hne, hne'⟩ := ne_of_not_isCall (o := o) (e := .release x) rfl
    cases d <;> simp [hl, hne, hne']
  have htrace : (w.tornDown o.slot o.unregister l).trace = w.trace ++
      (([o.unregister, .take o.slot] ++ l) ++ releases (w.slots o.slot).content.toList) := rfl
  rw [w.slotView_eq htrace hrelease, hlast, hdestroy]
  simp only [World.tornDown, World.log_slots, World.setSlot_slots, Function.update_self]
  rfl

/-- `teardown` unregisters, takes the closure, destroys, and releases the closure. -/
theorem SlotOwner.run_teardown (o : SlotOwner) (panics : Callback → Bool) (w : World) (d : Bool) :
    (o.run panics (.teardown d) w).2.slotView o = (w.slotView o).apply (.teardown d) := by
  cases d with
  | false =>
      rw [run, CallbackSlot.teardown_pure_apply]
      exact o.view_tornDown w rfl
  | true =>
      rw [run, CallbackSlot.teardown_apply o.slot o.unregister [o.destroy] w (emit_apply o.destroy)]
      exact o.view_tornDown w rfl

/-- The sequential code does to the slot what the operations say. -/
theorem SlotOwner.after_view (o : SlotOwner) (panics : Callback → Bool) (ops : List SlotOp) :
    (o.after panics ops).slotView o = ops.foldl SlotView.apply {} := by
  induction ops using List.reverseRecOn with
  | nil => rfl
  | append_singleton ops op ih =>
      rw [after, List.foldl_concat, List.foldl_concat, ← ih]
      cases op with
      | set c => exact o.run_set panics _ c
      | teardown d => exact o.run_teardown panics _ d

end Sequential

/-! ### The concurrent code -/

/-- Inside `set`, after the slot was leaked and before the closure is stored. -/
def Pc.leaking : Pc → Bool
  | .set (.lockSlot _) | .set (.replace _) => true
  | _ => false

/-- Inside the owner's `teardown`, after the closure was taken and before the object is
destroyed. -/
def Pc.willDestroy : Pc → Bool
  | .teardown d (.unlockRegistration _) | .teardown d (.unlockSlot _)
  | .teardown d (.destroy _) => d
  | _ => false

/-- The slot system with the operations, in the order in which they take effect. -/
def slotOperations (T : Type*) [DecidableEq T] (m : Libmpv) :=
  (slotSystem T m).recording fun s t _ => (s.pc t).effect

variable {T : Type*} {m : Libmpv} {s : SlotState T} {t : T} {sh : Shared T} {p : Pc}

/-- What a step does to the slot, with the operation that takes effect. -/
inductive SlotEffect (sh sh' : Shared T) (p p' : Pc) : List SlotOp → Prop
  | keep : sh'.slot = sh.slot → sh'.next = sh.next → sh'.leaked = sh.leaked →
      sh'.destroyed = sh.destroyed → p'.filling = p.filling → p'.leaking = p.leaking →
      p'.willDestroy = p.willDestroy → SlotEffect sh sh' p p' []
  | new : sh'.slot = sh.slot → sh'.next = sh.next + 1 → sh'.leaked = sh.leaked →
      sh'.destroyed = sh.destroyed → p.filling = none → p'.filling = some sh.next →
      p'.leaking = p.leaking → p'.willDestroy = p.willDestroy → SlotEffect sh sh' p p' []
  | leak : sh'.slot = sh.slot → sh'.next = sh.next → sh'.leaked = true →
      sh'.destroyed = sh.destroyed → p'.filling = p.filling → p'.leaking = true →
      p'.willDestroy = p.willDestroy → SlotEffect sh sh' p p' []
  | set (c : Callback) : sh'.slot = some c → sh'.next = sh.next → sh'.leaked = sh.leaked →
      sh'.destroyed = sh.destroyed → p.filling = some c → p'.filling = none →
      p.leaking = true → p'.leaking = false → p'.willDestroy = p.willDestroy →
      SlotEffect sh sh' p p' [.set c]
  | take (d : Bool) : sh'.slot = none → sh'.next = sh.next → sh'.leaked = sh.leaked →
      sh'.destroyed = sh.destroyed → p'.filling = p.filling → p'.leaking = p.leaking →
      p.willDestroy = false → p'.willDestroy = d → SlotEffect sh sh' p p' [.teardown d]
  | destroy (d : Bool) : sh'.slot = sh.slot → sh'.next = sh.next → sh'.leaked = sh.leaked →
      sh'.destroyed = (sh.destroyed || d) → p'.filling = p.filling → p'.leaking = p.leaking →
      p.willDestroy = d → p'.willDestroy = false → SlotEffect sh sh' p p' []

/-- Taking a lock does nothing to the slot. -/
theorem Pc.lockStep_slot {p p' : Pc} {ℓ : Lock} (h : p.lockStep = some (ℓ, p')) :
    p.effect = [] ∧ p'.filling = p.filling ∧ p'.leaking = p.leaking ∧
      p'.willDestroy = p.willDestroy := by
  cases Pc.lockStep_cases h <;> exact ⟨rfl, rfl, rfl, rfl⟩

/-- Releasing a lock does nothing to the slot. -/
theorem Pc.unlockStep_slot {p p' : Pc} {ℓ : Lock} (h : p.unlockStep = some (ℓ, p')) :
    p.effect = [] ∧ p'.filling = p.filling ∧ p'.leaking = p.leaking ∧
      p'.willDestroy = p.willDestroy := by
  cases Pc.unlockStep_cases h <;> exact ⟨rfl, rfl, rfl, rfl⟩

/-- **The step lemma**: each step is of one of the six kinds. -/
theorem Move.slotEffect (h : Move m s t sh p) :
    SlotEffect s.shared sh (s.pc t) p (s.pc t).effect := by
  cases h with
  | @lock ℓ _ hstep _ =>
      obtain ⟨_, e⟩ := s.shared.acquire_eq m t ℓ
      obtain ⟨heffect, hfilling, hleaking, hdestroy⟩ := Pc.lockStep_slot hstep
      rw [heffect, e]
      exact .keep rfl rfl rfl rfl hfilling hleaking hdestroy
  | @unlock ℓ _ hstep =>
      obtain ⟨_, e⟩ := s.shared.release_eq m ℓ
      obtain ⟨heffect, hfilling, hleaking, hdestroy⟩ := Pc.unlockStep_slot hstep
      rw [heffect, e]
      exact .keep rfl rfl rfl rfl hfilling hleaking hdestroy
  | leak e =>
      obtain ⟨_, e'⟩ := s.shared.leak_eq
      rw [e, e']
      exact .leak rfl rfl rfl rfl rfl rfl rfl
  | clone e =>
      obtain ⟨_, e'⟩ := s.shared.cloneSlot_eq
      rw [e, e']
      exact .keep rfl rfl rfl rfl rfl rfl rfl
  | beginSet e =>
      rw [e]
      exact .new rfl rfl rfl rfl rfl rfl rfl rfl
  | @replace c e =>
      rw [e]
      exact .set c rfl rfl rfl rfl rfl rfl rfl rfl rfl
  | @take d e =>
      rw [e]
      exact .take d rfl rfl rfl rfl rfl rfl rfl rfl
  | @destroy d cb e =>
      rw [e]
      exact .destroy d rfl rfl rfl rfl rfl rfl rfl rfl
  | beginClear e | beginTeardown e | beginDrop e | beginDispatch e | register e | raise e | raised e
  | unregister e | dropNone e | dropShared e | dropLast e | destructor e | call _ e
  | dropCloneShared e | dropCloneLast e | cloneDestructor e | abort e =>
      rw [e]
      exact .keep rfl rfl rfl rfl rfl rfl rfl

/-! ### The two compared -/

/-- One step moves a closure from the thread to the slot, or from the slot to those that were
released. -/
theorem SlotEffect.balance {sh' : Shared T} {p' : Pc} {l : List SlotOp}
    {v : SlotView} (h : SlotEffect sh sh' p p' l) (hv : v.content = sh.slot)
    (c : Callback) :
    (l.foldl SlotView.apply v).released c + sh'.slot.toList.count c +
        p'.filling.toList.count c + (if c < sh.next then 1 else 0) =
      v.released c + sh.slot.toList.count c + p.filling.toList.count c +
        if c < sh'.next then 1 else 0 := by
  cases h with
  | keep hslot hnext _ _ hfilling _ _ | leak hslot hnext _ _ hfilling _ _
  | destroy d hslot hnext _ _ hfilling _ _ _ =>
      rw [hslot, hnext, hfilling, List.foldl_nil]
  | new hslot hnext _ _ hp hp' _ _ =>
      rw [hslot, hnext, hp, hp', List.foldl_nil, handedOut_succ]
      simp only [Option.toList_none, Option.toList_some, List.count_nil]
      omega
  | set c' hslot hnext _ _ hp hp' _ _ _ =>
      rw [hslot, hnext, hp, hp', List.foldl_cons, List.foldl_nil, SlotView.apply, hv]
      simp only [Option.toList_none, List.count_nil]
      omega
  | take d hslot hnext _ _ hfilling _ _ _ =>
      rw [hslot, hnext, hfilling, List.foldl_cons, List.foldl_nil, SlotView.apply, hv]
      simp only [Option.toList_none, List.count_nil]
      omega

section Compared

variable [Fintype T] [DecidableEq T] {v : SlotView} {ops : List SlotOp}

/-- The slot of a state and a slot of the sequential code, of which one may be ahead of the other:
a closure is released there when it leaves the slot, the slot is leaked there when the closure is
stored, and the object destroyed when the closure is taken. -/
structure Mirrors (s : SlotState T) (v : SlotView) : Prop where
  content : v.content = s.shared.slot
  registered : v.registered = v.content.isSome
  released : ∀ c, v.released c + s.shared.slot.toList.count c +
    ∑ u, (s.pc u).filling.toList.count c = if c < s.shared.next then 1 else 0
  leaked : s.shared.leaked = true ↔ v.leaked = true ∨ ∃ u, (s.pc u).leaking = true
  destroyed : v.destroyed = true ↔ s.shared.destroyed = true ∨ ∃ u, (s.pc u).willDestroy = true

/-- The step lemma for the two together. -/
theorem Mirrors.move {l : List SlotOp} (hv : Mirrors s v)
    (h : SlotEffect s.shared sh (s.pc t) p l) :
    Mirrors (s.move t sh p) (l.foldl SlotView.apply v) := by
  have hleaked := hv.leaked
  have hdestroyed := hv.destroyed
  rw [Pool.exists_pc (fun q : Pc => q.leaking = true) s t] at hleaked
  rw [Pool.exists_pc (fun q : Pc => q.willDestroy = true) s t] at hdestroyed
  refine ⟨?_, ?_, fun c => ?_, ?_, ?_⟩
  · cases h with
    | set c hslot | take d hslot => exact hslot.symm
    | keep hslot | new hslot | leak hslot | destroy d hslot => exact hv.content.trans hslot.symm
  · cases h with
    | set c | take d => rfl
    | _ => exact hv.registered
  · have hsum := Pool.ledger (fun q : Pc => q.filling.toList.count c) s.pc t p
    have hbalance := h.balance hv.content c
    have hold := hv.released c
    rw [Pool.move_pc, Pool.move_shared]
    omega
  · rw [Pool.exists_pc_move (fun q : Pc => q.leaking = true), Pool.move_shared]
    cases h with
    | keep _ _ hl _ _ hp _ | new _ _ hl _ _ _ hp _ | destroy d _ _ hl _ _ hp _ _ =>
        rw [hl, hp]
        exact hleaked
    | leak _ _ hl _ _ hp _ => simp [hl, hp]
    | set c _ _ hl _ _ _ hp _ _ =>
        rw [hl, hleaked]
        simp [SlotView.apply, hp]
    | take d _ _ hl _ _ hp _ _ =>
        rw [hl, hp]
        exact hleaked
  · rw [Pool.exists_pc_move (fun q : Pc => q.willDestroy = true), Pool.move_shared]
    cases h with
    | keep _ _ _ hd _ _ hp | new _ _ _ hd _ _ _ hp | leak _ _ _ hd _ _ hp =>
        rw [hd, hp]
        exact hdestroyed
    | set c _ _ _ hd _ _ _ _ hp =>
        rw [hd, hp]
        exact hdestroyed
    | take d _ _ _ hd _ _ hp hp' =>
        rw [hp] at hdestroyed
        simp only [List.foldl_cons, List.foldl_nil, SlotView.apply, Bool.or_eq_true, hdestroyed, hd,
          hp']
        simp only [Bool.false_eq_true, false_or]
        exact or_right_comm.trans or_assoc
    | destroy d _ _ _ hd _ _ hp hp' =>
        rw [hp] at hdestroyed
        simp only [List.foldl_nil, hdestroyed, hd, hp', Bool.or_eq_true, Bool.false_eq_true,
          false_or, or_assoc]

/-- In every reachable state the slot mirrors that of the sequential code. -/
theorem slot_mirrors (h : (slotOperations T m).Reachable (s, ops)) :
    Mirrors s (ops.foldl SlotView.apply {}) := by
  refine h.invariant (I := fun s => Mirrors s.1 (s.2.foldl SlotView.apply {})) ?_ ?_
  · rintro ⟨s, ops⟩ ⟨rfl, rfl⟩
    exact ⟨rfl, rfl, fun c => by simp [Pc.filling], by simp [Pc.leaking],
      by simp [Pc.willDestroy]⟩
  · rintro ⟨s, ops⟩ t ⟨_, ops'⟩ hs ⟨⟨sh, p, ⟨-, hmove⟩, rfl⟩, hops⟩
    obtain rfl : ops' = ops ++ (s.pc t).effect := hops
    rw [List.foldl_append]
    exact hs.move hmove.slotEffect

omit [DecidableEq T] in
/-- The closure that a thread is about to store is its own. -/
theorem Pc.filling_owned {c : Callback} (h : p.filling = some c) : c ∈ p.owned := by
  unfold Pc.filling at h
  split at h <;> cases h <;> exact List.mem_singleton_self c

omit [DecidableEq T] in
/-- A closure that no thread has was released as often as in the sequential code. -/
theorem Mirrors.released_of_unowned (hv : Mirrors s v) (hledger : Ledger s) {c : Callback}
    (hc : ∀ u, c ∉ (s.pc u).owned) : s.shared.drops c = v.released c := by
  have hfilling : ∑ u, (s.pc u).filling.toList.count c = 0 := by
    refine Finset.sum_eq_zero fun u _ => List.count_eq_zero.mpr fun hmem => ?_
    exact hc u (Pc.filling_owned (Option.mem_toList.mp hmem))
  have howned : ∑ u, (s.pc u).owned.count c = 0 :=
    Finset.sum_eq_zero fun u _ => List.count_eq_zero.mpr (hc u)
  have hreleased := hv.released c
  have hstrong := hledger.strong c
  rw [hfilling] at hreleased
  rw [howned] at hstrong
  rcases Nat.eq_zero_or_pos (s.shared.strong c) with hzero | hpos
  · by_cases hlt : c < s.shared.next
    · rw [if_pos hlt] at hreleased
      rw [hledger.lifetimes.dead c hlt hzero]
      omega
    · rw [if_neg hlt] at hreleased
      rw [(hledger.lifetimes.fresh c (not_lt.mp hlt)).2]
      omega
  · rw [if_pos (hledger.lifetimes.lt_next hpos)] at hreleased
    rw [hledger.lifetimes.alive c hpos]
    omega

/-- The slot of the concurrent code. -/
def Shared.slotView (sh : Shared T) : SlotView where
  content := sh.slot
  leaked := sh.leaked
  registered := sh.registered
  destroyed := sh.destroyed
  released := sh.drops

/-- With all threads done, nothing is under way. -/
theorem Mirrors.view_eq (hv : Mirrors s v) (h : (slotSystem T m).Reachable s)
    (hidle : ∀ u, s.pc u = .idle) : s.shared.slotView = v := by
  have hledger := slot_ledger h
  ext1
  · exact hv.content.symm
  · have hleaked := hv.leaked
    simp only [hidle, Pc.leaking, Bool.false_eq_true, exists_false, or_false] at hleaked
    exact Bool.eq_iff_iff.mpr hleaked
  · have hfree : s.shared.lock .registration = none :=
      Option.eq_none_iff_forall_ne_some.mpr fun u => lock_ne_of_idle h (hidle u) _
    rw [hv.registered, hv.content]
    exact (slot_agrees h).1.2 hfree
  · have hdestroyed := hv.destroyed
    simp only [hidle, Pc.willDestroy, Bool.false_eq_true, exists_false, or_false] at hdestroyed
    exact (Bool.eq_iff_iff.mpr hdestroyed).symm
  · funext c
    refine hv.released_of_unowned hledger fun u hu => ?_
    rw [hidle u] at hu
    cases hu

end Compared

/-! ### One thread alone -/

/-- The closures of a sequence of operations are new ones, from `n` on. -/
def SlotOp.Numbered : ℕ → List SlotOp → Prop
  | _, [] => True
  | n, .set c :: ops => c = n ∧ Numbered (n + 1) ops
  | n, .teardown _ :: ops => Numbered n ops

section Alone

variable [DecidableEq T] {ops ops' : List SlotOp}

/-- A run of one thread, with the operations recorded. -/
theorem SoloRun.recorded (h : SoloRun m t s.shared (s.pc t) ops' sh p) (ops : List SlotOp) :
    ∃ n, (slotOperations T m).Run (s, ops) (List.replicate n t)
      (s.move t sh p, ops ++ ops') := by
  induction h with
  | nil =>
      refine ⟨0, ?_⟩
      rw [Pool.move_self, List.append_nil]
      exact .nil
  | @snoc ops' sh₁ sh₂ p₁ p₂ _ hstep ih =>
      obtain ⟨-, haborted, hmove⟩ := hstep
      obtain ⟨n, hrun⟩ := ih
      have hpc : (s.move t sh₁ p₁).pc t = p₁ := Function.update_self _ _ _
      refine ⟨n + 1, ?_⟩
      rw [← Pool.move_move s t sh₁ sh₂ p₁ p₂, ← List.append_assoc, List.replicate_succ']
      refine hrun.snoc ⟨⟨_, _, ⟨haborted, hmove _ rfl hpc⟩, rfl⟩, ?_⟩
      change ops ++ ops' ++ p₁.effect = ops ++ ops' ++ ((s.move t sh₁ p₁).pc t).effect
      rw [hpc]

/-- At rest: all threads are done, and the process lives. -/
structure AtRest (s : SlotState T) : Prop where
  idle : ∀ u, s.pc u = .idle
  aborted : s.shared.aborted = false

/-- One operation from a state at rest to the next. -/
theorem AtRest.perform (hrest : AtRest s) (hs : (slotOperations T m).Reachable (s, ops))
    (t : T) {op : SlotOp} (hbegin : Move m s t sh p) (haborted : sh.aborted = s.shared.aborted)
    (hlock : sh.lock = s.shared.lock)
    (hsolo : Solo m t sh p [] p → Solo m t sh p [op] .idle) :
    ∃ n s', (slotOperations T m).Run (s, ops) (List.replicate n t) (s', ops ++ [op]) ∧
      AtRest s' ∧ s'.shared.next = sh.next := by
  have hfree : ∀ ℓ, sh.lock ℓ = none := by
    intro ℓ
    rw [hlock]
    exact Option.eq_none_iff_forall_ne_some.mpr fun u =>
      lock_ne_of_idle hs.of_recording (hrest.idle u) ℓ
  have hbegun : (slotOperations T m).step (s, ops) t (s.move t sh p, ops) := by
    refine ⟨⟨sh, p, ⟨hrest.aborted, hbegin⟩, rfl⟩, ?_⟩
    simp [hrest.idle, Pc.effect]
  obtain ⟨sh', hrun, -, halive, hnext⟩ :=
    hsolo (.start (fun ℓ _ _ => hfree ℓ) (haborted.trans hrest.aborted))
  have hpc : (s.move t sh p).pc t = p := Function.update_self _ _ _
  have hrun' : SoloRun m t (s.move t sh p).shared ((s.move t sh p).pc t) [op] sh' .idle := by
    rwa [hpc]
  obtain ⟨n, hrecorded⟩ := hrun'.recorded ops
  refine ⟨n + 1, _, .cons hbegun hrecorded, ⟨fun u => ?_, halive⟩, hnext⟩
  rw [Pool.move_move]
  by_cases hu : u = t
  · rw [hu]
    exact Function.update_self _ _ _
  · rw [Pool.move_pc, Function.update_of_ne hu, hrest.idle u]

/-- One thread performs any operations, one after the other. -/
theorem AtRest.run (hrest : AtRest s) (hs : (slotOperations T m).Reachable (s, ops)) (t : T)
    (h : SlotOp.Numbered s.shared.next ops') :
    ∃ n s', (slotOperations T m).Run (s, ops) (List.replicate n t) (s', ops ++ ops') ∧
      AtRest s' := by
  induction ops' generalizing s ops with
  | nil =>
      refine ⟨0, s, ?_, hrest⟩
      rw [List.append_nil]
      exact .nil
  | cons op ops' ih =>
      rw [List.append_cons]
      -- The first operation, and then the others.
      have perform : ∀ {n₁ s₁}, (slotOperations T m).Run (s, ops) (List.replicate n₁ t)
          (s₁, ops ++ [op]) → AtRest s₁ → SlotOp.Numbered s₁.shared.next ops' →
          ∃ n s', (slotOperations T m).Run (s, ops) (List.replicate n t)
            (s', ops ++ [op] ++ ops') ∧ AtRest s' := by
        intro n₁ s₁ hrun₁ hrest₁ hnumbered
        obtain ⟨n₂, s', hrun₂, hrest'⟩ := ih hrest₁ (hs.of_run hrun₁) hnumbered
        refine ⟨n₁ + n₂, s', ?_, hrest'⟩
        rw [List.replicate_add]
        exact hrun₁.append hrun₂
      cases op with
      | set c =>
          obtain ⟨rfl, h⟩ := h
          obtain ⟨n₁, s₁, hrun₁, hrest₁, hnext⟩ :=
            hrest.perform hs t (.beginSet (hrest.idle t)) rfl rfl fun h => h.set
          exact perform hrun₁ hrest₁ (by rwa [hnext])
      | teardown d =>
          have hbegin : Move m s t s.shared (.teardown d .lockRegistration) := by
            cases d with
            | false => exact .beginClear (hrest.idle t)
            | true => exact .beginTeardown (hrest.idle t)
          obtain ⟨n₁, s₁, hrun₁, hrest₁, hnext⟩ :=
            hrest.perform hs t hbegin rfl rfl fun h => h.teardown
          exact perform hrun₁ hrest₁ (by rwa [hnext])

end Alone

/-- **The sequential slot is what the concurrent one comes to.** With the operations of the owners
in the order in which they took effect, the sequential code leaves in the slot, at any time, what
is there; a closure that no thread has was released as often as there, and one that a thread has
was not released yet; and when all threads are done the two are the same in everything there is
to see. Conversely any thread can perform any operations, one after the other, with none of the
others taking a step. -/
theorem slot_refines_sequential (T : Type*) [Fintype T] [DecidableEq T] (m : Libmpv)
    (o : SlotOwner) (panics : Callback → Bool) :
    (∀ (s : SlotState T) ops, (slotOperations T m).Reachable (s, ops) →
      ((o.after panics ops).slotView o).content = s.shared.slot ∧
      (∀ c, (∀ t, c ∉ (s.pc t).owned) →
        s.shared.drops c = ((o.after panics ops).slotView o).released c) ∧
      (∀ c t, c ∈ (s.pc t).owned → s.shared.drops c = 0) ∧
      ((∀ t, s.pc t = .idle) → s.shared.slotView = (o.after panics ops).slotView o)) ∧
    ∀ (t : T) ops, SlotOp.Numbered 0 ops →
      ∃ n s, (slotOperations T m).Run (⟨{}, fun _ => .idle⟩, []) (List.replicate n t) (s, ops) ∧
        ∀ u, s.pc u = .idle := by
  refine ⟨fun s ops hs => ?_, fun t ops hops => ?_⟩
  · have hreachable := hs.of_recording
    have hledger := slot_ledger hreachable
    have hv := slot_mirrors hs
    rw [o.after_view]
    refine ⟨hv.content, fun c => hv.released_of_unowned hledger, fun c t hc => ?_,
      hv.view_eq hreachable⟩
    exact hledger.lifetimes.alive c (hledger.pos_of_owned hc)
  · have start : AtRest (⟨{}, fun _ => .idle⟩ : SlotState T) := ⟨fun _ => rfl, rfl⟩
    have init : (slotOperations T m).Reachable (⟨{}, fun _ => .idle⟩, []) :=
      .of_init ⟨rfl, rfl⟩
    obtain ⟨n, s, hrun, hrest⟩ := start.run init t hops
    exact ⟨n, s, hrun, hrest.idle⟩

end Rsmpv
