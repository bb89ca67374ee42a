import Rsmpv.Lib.Atomic
import Rsmpv.Slot.Release

/-!
# The Slot as an Atomic Cell

What `CallbackSlot` is for: it is one cell that holds the callback. `set` exchanges its content
for a new closure, `teardown` exchanges it for nothing, a dispatch reads it and calls what it
read. The code takes two locks for that and calls into libmpv in between, and dispatches may
begin while `set` is in `register`, on the same thread. Yet each operation takes effect in one
moment between its call and its return (`slot_linearizes`): what `set` and `teardown` are
handed back to release, and what a dispatch calls, is what an atomic cell gives.

## Conventions

A thread has two frames, in which operations may be under way at the same time: its own
`set`, `teardown` or dispatch, and the dispatch that `register` raised inside its `set`.
Each frame is a process of the atomic cell. `Pc.phase` says of a control point where in its
operation a frame is: before its moment of effect, after it and before its return, or in
none.

## Main results

* `Move.changes`: each step moves one frame, and changes the slot only as the cell changes
  in the moment of effect.
* `Move.respond`: the closure that a dispatch goes on to call, and the one that `set` or
  `teardown` goes on to release, is the one that the cell returns.
* `slot_linearizes`: every history is a run of the atomic cell.
-/

namespace Rsmpv

open Atomic (Phase Event)

/-- The operations of the cell. -/
inductive CellOp
  | exchange (callback : Option Callback)
  | read

/-- The cell: each operation returns what was in it. -/
def callbackCell : Atomic.Object (Option Callback) CellOp (Option Callback) where
  init := none
  apply op cell := match op with
    | .exchange callback => (cell, callback)
    | .read => (cell, cell)

/-- A thread runs one operation, and inside `register` one dispatch more. -/
inductive Frame
  | operation
  | raised
  deriving DecidableEq

/-- A dispatch: it reads the slot, and has returned from the cell when it calls the closure. -/
def TrampolinePc.phase : TrampolinePc → Phase CellOp (Option Callback)
  | .lock | .clone => .pending .read
  | .unlock callback => .done callback
  | .call _ | .drop _ _ | .destructor _ _ | .ret => .idle

/-- Where a thread is in its operation on the cell. -/
def Pc.phase : Frame → Pc → Phase CellOp (Option Callback)
  | .operation, .set (.lockRegistration c) | .operation, .set (.leak c)
  | .operation, .set (.lockSlot c) | .operation, .set (.replace c) =>
    .pending (.exchange (some c))
  | .operation, .set (.unlockSlot prev) | .operation, .set (.register prev)
  | .operation, .set (.enter prev) | .operation, .set (.registering prev)
  | .operation, .set (.unlockRegistration prev)
  | .operation, .trampoline (.register prev) _ => .done prev
  | .operation, .teardown _ (.unlockRegistration cb)
  | .operation, .teardown _ (.unlockSlot cb) | .operation, .teardown _ (.destroy cb) => .done cb
  | .operation, .teardown _ _ => .pending (.exchange none)
  | .operation, .dispatching => .pending .read
  | .operation, .trampoline .libmpv q => q.phase
  | .raised, .trampoline (.register _) q => q.phase
  | _, _ => .idle

variable {T : Type*} {m : Libmpv} {s : SlotState T} {t : T} {sh : Shared T} {p : Pc}

/-- What a step of thread `t` does to the cell. -/
def Pc.events (t : T) (p p' : Pc) : List (Event (T × Frame) CellOp (Option Callback)) :=
  (p.phase .operation).events (t, .operation) (p'.phase .operation) ++
    (p.phase .raised).events (t, .raised) (p'.phase .raised)

/-- The slot system with its history. -/
def slotHistory (T : Type*) [DecidableEq T] (m : Libmpv) :=
  (slotSystem T m).recording fun s t s' => Pc.events t (s.pc t) (s'.pc t)

/-- The cell that a state of the slot system stands for. -/
def slotCell (s : SlotState T) :
    Atomic.State (T × Frame) (Option Callback) CellOp (Option Callback) where
  value := s.shared.slot
  phase := fun q => (s.pc q.1).phase q.2

/-- What a step of a thread does to the cell: one of its frames moves, the other stays. -/
def Changes (v : Option Callback) (p : Pc) (v' : Option Callback) (p' : Pc) : Prop :=
  ∃ f, (∀ f', f' ≠ f → p'.phase f' = p.phase f') ∧
    Atomic.Change callbackCell v (p.phase f) v' (p'.phase f)

/-- A step that moves the thread's operation. -/
theorem Changes.operation {v v' : Option Callback} {p p' : Pc}
    (hraised : p'.phase .raised = p.phase .raised)
    (h : Atomic.Change callbackCell v (p.phase .operation) v' (p'.phase .operation)) :
    Changes v p v' p' := by
  refine ⟨.operation, fun f' hf' => ?_, h⟩
  cases f' with
  | operation => exact absurd rfl hf'
  | raised => exact hraised

/-- A step that moves the dispatch raised inside `register`. -/
theorem Changes.raised {v v' : Option Callback} {p p' : Pc}
    (hoperation : p'.phase .operation = p.phase .operation)
    (h : Atomic.Change callbackCell v (p.phase .raised) v' (p'.phase .raised)) :
    Changes v p v' p' := by
  refine ⟨.raised, fun f' hf' => ?_, h⟩
  cases f' with
  | operation => exact hoperation
  | raised => exact absurd rfl hf'

/-- Where no frame moves. -/
theorem Changes.same {v : Option Callback} {p p' : Pc}
    (h : ∀ f, p'.phase f = p.phase f) : Changes v p v p' :=
  .operation (h .raised) (by rw [h .operation]; exact .keep)

/-- A dispatch moves in the frame it runs in. -/
theorem Changes.trampoline {v : Option Callback} {caller : Caller} {q q' : TrampolinePc}
    (h : Atomic.Change callbackCell v q.phase v q'.phase) :
    Changes v (.trampoline caller q) v (.trampoline caller q') := by
  cases caller with
  | libmpv => exact .operation rfl h
  | register prev => exact .raised rfl h

/-- Taking a lock is no event. -/
theorem Pc.lockStep_changes {p p' : Pc} {ℓ : Lock} (h : p.lockStep = some (ℓ, p'))
    (v : Option Callback) : Changes v p v p' := by
  cases Pc.lockStep_cases h with
  | trampoline caller => exact .trampoline .keep
  | _ => exact .same fun f => by cases f <;> rfl

/-- `set` and a dispatch return from the cell when they release their last lock. -/
theorem Pc.unlockStep_changes {p p' : Pc} {ℓ : Lock} (h : p.unlockStep = some (ℓ, p'))
    (v : Option Callback) : Changes v p v p' := by
  cases Pc.unlockStep_cases h with
  | setRegistration prev => exact .operation rfl (.respond prev)
  | cloned caller c => exact .trampoline (.respond (some c))
  | empty caller => exact .trampoline (.respond none)
  | _ => exact .same fun f => by cases f <;> rfl

/-- **The step lemma**: each step moves one frame, and changes the slot only as the cell
changes in the moment of effect. -/
theorem Move.changes (h : Move m s t sh p) : Changes s.shared.slot (s.pc t) sh.slot p := by
  cases h with
  | @lock ℓ _ hstep _ =>
      obtain ⟨_, e⟩ := s.shared.acquire_eq m t ℓ
      rw [e]
      exact Pc.lockStep_changes hstep _
  | @unlock ℓ _ hstep =>
      obtain ⟨_, e⟩ := s.shared.release_eq m ℓ
      rw [e]
      exact Pc.unlockStep_changes hstep _
  | beginSet e =>
      rw [e]
      exact .operation rfl (.invoke (CellOp.exchange (some s.shared.next)))
  | beginClear e | beginTeardown e | beginDrop e =>
      rw [e]
      exact .operation rfl (.invoke (CellOp.exchange none))
  | beginDispatch e =>
      rw [e]
      exact .operation rfl (.invoke CellOp.read)
  | raise e =>
      rw [e]
      exact .raised rfl (.invoke CellOp.read)
  | @replace c e =>
      rw [e]
      exact .operation rfl (.commit (CellOp.exchange (some c)))
  | take e =>
      rw [e]
      exact .operation rfl (.commit (CellOp.exchange none))
  | clone e =>
      obtain ⟨_, e'⟩ := s.shared.cloneSlot_eq
      rw [e, e']
      exact .trampoline (.commit CellOp.read)
  | @destroy d cb e =>
      rw [e]
      exact .operation rfl (.respond cb)
  | leak e =>
      obtain ⟨_, e'⟩ := s.shared.leak_eq
      rw [e, e']
      exact .same fun f => by cases f <;> rfl
  | call _ e | dropCloneShared e | dropCloneLast e | cloneDestructor e | abort e =>
      rw [e]
      exact .trampoline .keep
  | register e | raised e | unregister e | dropNone e | dropShared e | dropLast e
  | destructor e =>
      rw [e]
      exact .same fun f => by cases f <;> rfl

/-- The frame that a dispatch runs in: its thread has no other operation, or is in `register`. -/
def Caller.frame : Caller → Frame
  | .libmpv => .operation
  | .register _ => .raised

/-- **What is done with the results.** The closure that a dispatch goes on to call, and the one that
`set` or `teardown` goes on to release, is what the cell returned to it in this very step. -/
theorem Move.respond (h : Move m s t sh p) :
    (∀ caller c, p = .trampoline caller (.call c) →
      Pc.events t (s.pc t) p = [.respond (t, caller.frame) (some c)]) ∧
    ∀ cb, p = .drop cb → Pc.events t (s.pc t) p = [.respond (t, .operation) cb] := by
  refine ⟨?_, ?_⟩
  · rintro caller c rfl
    cases h with
    | lock hstep _ =>
        generalize s.pc t = q at hstep
        cases Pc.lockStep_cases hstep
    | unlock hstep =>
        generalize s.pc t = q at hstep ⊢
        cases Pc.unlockStep_cases hstep
        cases caller <;> rfl
  · rintro cb rfl
    cases h with
    | lock hstep _ =>
        generalize s.pc t = q at hstep
        cases Pc.lockStep_cases hstep
    | unlock hstep =>
        generalize s.pc t = q at hstep ⊢
        cases Pc.unlockStep_cases hstep
        rfl
    | destroy e =>
        rw [e]
        rfl

/-- A step of a thread performs its events on the cell. -/
theorem Changes.run [DecidableEq T]
    (h : Changes s.shared.slot (s.pc t) sh.slot p) :
    (Atomic.system (T × Frame) callbackCell).Run (slotCell s) (Pc.events t (s.pc t) p)
      (slotCell (s.move t sh p)) := by
  obtain ⟨f, hother, hchange⟩ := h
  have hevents : Pc.events t (s.pc t) p = ((s.pc t).phase f).events (t, f) (p.phase f) := by
    cases f with
    | operation =>
        rw [Pc.events, hother .raised (by decide), Atomic.Phase.events_self, List.append_nil]
    | raised =>
        rw [Pc.events, hother .operation (by decide), Atomic.Phase.events_self, List.nil_append]
  have hcell : slotCell (s.move t sh p) =
      ⟨sh.slot, Function.update (slotCell s).phase (t, f) (p.phase f)⟩ := by
    refine congrArg (Atomic.State.mk sh.slot) (funext fun q => ?_)
    obtain ⟨u, f'⟩ := q
    by_cases hu : u = t
    · subst hu
      by_cases hf : f' = f
      · subst hf
        rw [Pool.move_pc, Function.update_self, Function.update_self]
      · rw [Pool.move_pc, Function.update_self, Function.update_of_ne (by simpa using hf)]
        exact hother f' hf
    · rw [Pool.move_pc, Function.update_of_ne hu, Function.update_of_ne (by simp [hu])]
      rfl
  rw [hevents, hcell]
  exact Atomic.Change.run hchange

/-- Every operation of the cell returns what was in it. -/
theorem callbackCell_result (op : CellOp) (cell : Option Callback) :
    (callbackCell.apply op cell).1 = cell := by
  cases op <;> rfl

/-- **The slot is an atomic cell.** In every interleaving the history of the calls, the returns
and the moments of effect of all operations is a run of the cell. So what a `set` or `teardown`
is handed back to release, and what a dispatch calls, is what the slot held at one moment after
the operation had begun. -/
theorem slot_linearizes (T : Type*) [DecidableEq T] (m : Libmpv) (s : SlotState T)
    (h : List (Event (T × Frame) CellOp (Option Callback)))
    (hr : (slotHistory T m).Reachable (s, h)) :
    (Atomic.system (T × Frame) callbackCell).Run ⟨none, fun _ => .idle⟩ h (slotCell s) ∧
    ∀ past q callback future, h = past ++ .respond q callback :: future →
      ∃ before op during after cell,
        past = before ++ .invoke q op :: (during ++ .commit q :: after) ∧
        (∀ e ∈ during ++ after, e.process ≠ q) ∧
        (Atomic.system (T × Frame) callbackCell).Run ⟨none, fun _ => .idle⟩
          (before ++ .invoke q op :: during) cell ∧
        callback = cell.value := by
  have hinit : ∀ s, (slotSystem T m).init s →
      (Atomic.system (T × Frame) callbackCell).init (slotCell s) := by
    rintro s rfl
    refine congrArg (Atomic.State.mk none) (funext fun q => ?_)
    obtain ⟨u, f⟩ := q
    cases f <;> rfl
  have hstep : ∀ s t s', (slotSystem T m).step s t s' →
      (Atomic.system (T × Frame) callbackCell).Run (slotCell s)
        (Pc.events t (s.pc t) (s'.pc t)) (slotCell s') := by
    rintro s t s' ⟨sh, p, ⟨-, hmove⟩, rfl⟩
    rw [Pool.move_pc, Function.update_self]
    exact hmove.changes.run
  obtain ⟨s₀, rfl, hrun⟩ := Lts.reachable_recording hinit hstep hr
  refine ⟨hrun, fun past q callback future hsplit => ?_⟩
  obtain ⟨before, op, during, after, cell, hpast, hother, hbefore, hresult⟩ :=
    Atomic.results_explained hrun past _ future hsplit q callback rfl
  exact ⟨before, op, during, after, cell, hpast, hother, hbefore,
    hresult.trans (callbackCell_result op cell.value)⟩

/-- A dispatch that calls a closure, with its history. -/
theorem invocation_linearizes : ∃ (s : SlotState (Fin 2))
    (h : List (Event (Fin 2 × Frame) CellOp (Option Callback))),
    s.pc 1 = .trampoline .libmpv (.call 0) ∧
      (Atomic.system (Fin 2 × Frame) callbackCell).Run ⟨none, fun _ => .idle⟩ h
        (slotCell s) := by
  obtain ⟨s, hs, -, -, hp⟩ := exists_invocation
  obtain ⟨h, hr⟩ : ∃ h, (slotHistory (Fin 2) ⟨true⟩).Reachable (s, h) := hs.exists_recording
  exact ⟨s, h, hp, (slot_linearizes (Fin 2) ⟨true⟩ s h hr).1⟩

end Rsmpv
