import Rsmpv.Lib.ThreadPool

/-!
# The Callback Slot as a Step System

`CallbackSlot` (`slot.rs`) is run by any number of threads: `set` and `teardown` on the
owner's side, `trampoline` on whatever thread libmpv dispatches from — its own, or the
one that is inside `set`, raised synchronously by `register`. Each thread is at one
control point (`Pc`) of one of the three functions, and one step of one thread performs
one statement: take a lock, one access to what the lock protects, release the lock, one
call into libmpv or into user code.

## What is shared

`Shared` holds the two mutexes of `CallbackSlot` (`registration` with its `bool`, and the
slot), libmpv's side of the registration, and the `Arc` counts of the stored closures.
Of libmpv the model assumes what its header promises and no more: registering and
unregistering set and clear a flag, `register` may dispatch on the calling thread, and a
dispatch may start on any thread once libmpv was handed the context pointer, also long
after the callback was unregistered or the owner destroyed. With `serialized` set,
libmpv moreover holds a lock of its own over every callback and every registration
call; without it, callbacks run concurrently.

## Guards and panics

A guard lives as long as Rust keeps it: the slot guard of `set` and of `trampoline` is a
temporary of one statement, and in `teardown` it is a temporary of the block's tail
expression, so the registration guard is released first. A call or a destructor of a
closure ends by returning or by panicking. A panic out of `drop(previous)` or
`drop(callback)` unwinds out of the operation; in `trampoline` both are caught, except
that a destructor panicking while the call's own panic unwinds aborts the process. What a
caught payload does when it is dropped after the guard touches nothing shared; whether it
panics is the subject of `Rsmpv.Unwinding`.
-/

namespace Rsmpv

/-- A closure handed to `set`; each call brings a new one. -/
abbrev Callback := ℕ

/-- The mutexes a step may take: the two of `CallbackSlot`, and the one libmpv may hold
over callbacks and registration calls. -/
inductive Lock
  | registration
  | slot
  | dispatch
  deriving DecidableEq

/-- How the linked libmpv runs callbacks: with `serialized`, one at a time under its
dispatch lock. -/
structure Libmpv where
  serialized : Bool

/-- Where a thread is in `trampoline`. A clone that is held is the constructor's
argument; `panicking` records that the call unwinds. -/
inductive TrampolinePc
  | lock
  | clone
  | unlock (callback : Option Callback)
  | call (callback : Callback)
  | drop (callback : Callback) (panicking : Bool)
  | destructor (callback : Callback) (panicking : Bool)
  | ret
  deriving DecidableEq

/-- Where a thread is in `set`, up to the end of the block that holds the registration
lock. `register` is the call, `enter` its effect inside libmpv, `registering` the rest of
the call, during which libmpv may raise dispatches. -/
inductive SetPc
  | lockRegistration (callback : Callback)
  | leak (callback : Callback)
  | lockSlot (callback : Callback)
  | replace (callback : Callback)
  | unlockSlot (previous : Option Callback)
  | register (previous : Option Callback)
  | enter (previous : Option Callback)
  | registering (previous : Option Callback)
  | unlockRegistration (previous : Option Callback)
  deriving DecidableEq

/-- Where a thread is in `teardown`, up to the call of `destroy`. -/
inductive TeardownPc
  | lockRegistration
  | unregister
  | clear
  | unregistered
  | lockSlot
  | take
  | unlockRegistration (callback : Option Callback)
  | unlockSlot (callback : Option Callback)
  | destroy (callback : Option Callback)
  deriving DecidableEq

/-- Who called the trampoline: a thread of libmpv, or `register` on a thread whose `set`
still holds `previous`. -/
inductive Caller
  | libmpv
  | register (previous : Option Callback)
  deriving DecidableEq

/-- The control point of a thread. `drop` and `destructor` are the last statement of `set`
and `teardown`, which hold no lock there; `teardown true` is the owner's teardown, whose
`destroy` destroys the mpv object, and `teardown false` only clears the callback. -/
inductive Pc
  | idle
  | set (p : SetPc)
  | teardown (destroys : Bool) (p : TeardownPc)
  | drop (callback : Option Callback)
  | destructor (callback : Callback)
  | dispatching
  | trampoline (caller : Caller) (p : TrampolinePc)
  deriving DecidableEq

/-- The memory the threads share. `slot` is the content of the slot mutex, `leaked` the
`bool` of the registration mutex and `leakedRefs` the `Arc<Slot>` references forgotten so
far; `registered` and `contextGiven` are libmpv's: a callback is registered, and the
context pointer was handed over at least once. `strong` and `drops` are, for each closure
below `next`, its `Arc` count and how often its destructor has begun to run. -/
structure Shared (T : Type*) where
  lock : Lock → Option T := fun _ => none
  slot : Option Callback := none
  leaked : Bool := false
  leakedRefs : ℕ := 0
  registered : Bool := false
  contextGiven : Bool := false
  destroyed : Bool := false
  aborted : Bool := false
  next : ℕ := 0
  strong : Callback → ℕ := fun _ => 0
  drops : Callback → ℕ := fun _ => 0
  /-- The owner's drop has begun: a destroying teardown that found no other operation of
  the owner running, and no `set` has begun since. Dropping needs exclusive access, so in
  a program this stays true once it is. -/
  dropBegun : Bool := false

/-- A slot and the threads that use it. -/
abbrev SlotState (T : Type*) := Pool T (Shared T) Pc

/-! ### Taking and releasing locks -/

/-- Where the trampoline takes the slot lock. -/
def TrampolinePc.lockStep : TrampolinePc → Option TrampolinePc
  | .lock => some .clone
  | _ => none

/-- Where the trampoline's guard is released, at the end of the statement. -/
def TrampolinePc.unlockStep : TrampolinePc → Option TrampolinePc
  | .unlock (some c) => some (.call c)
  | .unlock none => some .ret
  | _ => none

/-- The lock a control point waits for, and where it continues with the lock. -/
def Pc.lockStep : Pc → Option (Lock × Pc)
  | .set (.lockRegistration c) => some (.registration, .set (.leak c))
  | .set (.lockSlot c) => some (.slot, .set (.replace c))
  | .set (.register prev) => some (.dispatch, .set (.enter prev))
  | .teardown d .lockRegistration => some (.registration, .teardown d .unregister)
  | .teardown d .unregister => some (.dispatch, .teardown d .clear)
  | .teardown d .lockSlot => some (.slot, .teardown d .take)
  | .dispatching => some (.dispatch, .trampoline .libmpv .lock)
  | .trampoline caller p => p.lockStep.map fun p' => (.slot, .trampoline caller p')
  | _ => none

/-- The lock a control point releases, and where it continues without it. -/
def Pc.unlockStep : Pc → Option (Lock × Pc)
  | .set (.unlockSlot prev) => some (.slot, .set (.register prev))
  | .set (.registering prev) => some (.dispatch, .set (.unlockRegistration prev))
  | .set (.unlockRegistration prev) => some (.registration, .drop prev)
  | .teardown d .unregistered => some (.dispatch, .teardown d .lockSlot)
  | .teardown d (.unlockRegistration cb) => some (.registration, .teardown d (.unlockSlot cb))
  | .teardown d (.unlockSlot cb) => some (.slot, .teardown d (.destroy cb))
  | .trampoline .libmpv .ret => some (.dispatch, .idle)
  | .trampoline caller p => p.unlockStep.map fun p' => (.slot, .trampoline caller p')
  | _ => none

/-- The locks held at a control point. -/
def Pc.holds : Pc → Lock → Bool
  | .set (.lockRegistration _), _ => false
  | .set _, .registration => true
  | .set (.replace _), .slot | .set (.unlockSlot _), .slot => true
  | .set (.enter _), .dispatch | .set (.registering _), .dispatch => true
  | .teardown _ (.unlockRegistration _), .registration
  | .teardown _ .unregister, .registration | .teardown _ .clear, .registration
  | .teardown _ .unregistered, .registration | .teardown _ .lockSlot, .registration
  | .teardown _ .take, .registration => true
  | .teardown _ .clear, .dispatch | .teardown _ .unregistered, .dispatch => true
  | .teardown _ .take, .slot | .teardown _ (.unlockRegistration _), .slot
  | .teardown _ (.unlockSlot _), .slot => true
  | .trampoline (.register _) _, .registration => true
  | .trampoline _ _, .dispatch => true
  | .trampoline _ .clone, .slot | .trampoline _ (.unlock _), .slot => true
  | _, _ => false

/-- The dispatch lock exists only in a libmpv that serializes. -/
def Libmpv.has (m : Libmpv) (ℓ : Lock) : Bool :=
  match ℓ with
  | .dispatch => m.serialized
  | _ => true

/-- The operations of the owner, `set` and `teardown`. -/
def Pc.ownerOp : Pc → Bool
  | .idle | .dispatching | .trampoline .libmpv _ => false
  | _ => true

namespace Shared

variable {T : Type*}

/-- A lock that can be taken now. -/
def free (m : Libmpv) (sh : Shared T) (ℓ : Lock) : Prop :=
  m.has ℓ = true → sh.lock ℓ = none

/-- Take a lock, if libmpv has it. -/
def acquire (m : Libmpv) (sh : Shared T) (t : T) (ℓ : Lock) : Shared T :=
  if m.has ℓ then { sh with lock := Function.update sh.lock ℓ (some t) } else sh

/-- Release a lock, if libmpv has it. -/
def release (m : Libmpv) (sh : Shared T) (ℓ : Lock) : Shared T :=
  if m.has ℓ then { sh with lock := Function.update sh.lock ℓ none } else sh

/-- `Arc::clone` of what the slot holds. -/
def cloneSlot (sh : Shared T) : Shared T :=
  match sh.slot with
  | some c => { sh with strong := Function.update sh.strong c (sh.strong c + 1) }
  | none => sh

/-- Release one `Arc` reference that is not the last. -/
def dropShared (sh : Shared T) (c : Callback) : Shared T :=
  { sh with strong := Function.update sh.strong c (sh.strong c - 1) }

/-- Release the last `Arc` reference: the destructor begins. -/
def dropLast (sh : Shared T) (c : Callback) : Shared T :=
  { sh with
    strong := Function.update sh.strong c 0
    drops := Function.update sh.drops c (sh.drops c + 1) }

/-- `leaked` is set on the first registration, with one forgotten clone of the slot. -/
def leak (sh : Shared T) : Shared T :=
  if sh.leaked then sh else { sh with leaked := true, leakedRefs := sh.leakedRefs + 1 }

/-- Taking a lock that exists. -/
@[simp] theorem acquire_has {m : Libmpv} {ℓ : Lock} (h : m.has ℓ = true) (sh : Shared T)
    (t : T) : sh.acquire m t ℓ = { sh with lock := Function.update sh.lock ℓ (some t) } :=
  if_pos h

/-- Releasing a lock that exists. -/
@[simp] theorem release_has {m : Libmpv} {ℓ : Lock} (h : m.has ℓ = true) (sh : Shared T) :
    sh.release m ℓ = { sh with lock := Function.update sh.lock ℓ none } :=
  if_pos h

/-- Taking a lock changes nothing but who owns it. -/
theorem acquire_eq (m : Libmpv) (sh : Shared T) (t : T) (ℓ : Lock) :
    ∃ lock, sh.acquire m t ℓ = { sh with lock := lock } := by
  rw [acquire]
  split
  · exact ⟨_, rfl⟩
  · exact ⟨sh.lock, rfl⟩

/-- Releasing a lock changes nothing but who owns it. -/
theorem release_eq (m : Libmpv) (sh : Shared T) (ℓ : Lock) :
    ∃ lock, sh.release m ℓ = { sh with lock := lock } := by
  rw [release]
  split
  · exact ⟨_, rfl⟩
  · exact ⟨sh.lock, rfl⟩

/-- Of an empty slot nothing is cloned. -/
theorem cloneSlot_none {sh : Shared T} (h : sh.slot = none) : sh.cloneSlot = sh := by
  rw [cloneSlot, h]

/-- The clone of a closure is one reference more. -/
theorem cloneSlot_some {sh : Shared T} {c : Callback} (h : sh.slot = some c) :
    sh.cloneSlot = { sh with strong := Function.update sh.strong c (sh.strong c + 1) } := by
  rw [cloneSlot, h]

/-- Cloning the slot's content changes nothing but the `Arc` counts. -/
theorem cloneSlot_eq (sh : Shared T) :
    ∃ strong, sh.cloneSlot = { sh with strong := strong } := by
  rw [cloneSlot]
  split
  · exact ⟨_, rfl⟩
  · exact ⟨sh.strong, rfl⟩

/-- Leaking changes nothing but the record of the leaked reference. -/
theorem leak_eq (sh : Shared T) :
    ∃ refs, sh.leak = { sh with leaked := true, leakedRefs := refs } := by
  rw [leak]
  split
  · next h => exact ⟨sh.leakedRefs, by rw [← h]⟩
  · exact ⟨_, rfl⟩

end Shared

/-! ### The steps -/

/-- `Move m s t sh p`: with libmpv `m`, thread `t` of the pool `s` can step to the shared
memory `sh` and the control point `p`. -/
inductive Move {T : Type*} (m : Libmpv) (s : SlotState T) (t : T) : Shared T → Pc → Prop
  /-- A call of `set` with a new closure. -/
  | beginSet : s.pc t = .idle →
      Move m s t { s.shared with
          next := s.shared.next + 1
          strong := Function.update s.shared.strong s.shared.next 1
          dropBegun := false } (.set (.lockRegistration s.shared.next))
  /-- A call of `teardown` from `clear_wakeup_callback` and its like. -/
  | beginClear : s.pc t = .idle → Move m s t s.shared (.teardown false .lockRegistration)
  /-- A call of `teardown` from the owner's `Drop`, while others use the slot. -/
  | beginTeardown : s.pc t = .idle → Move m s t s.shared (.teardown true .lockRegistration)
  /-- A call of `teardown` from the owner's `Drop` with exclusive access. -/
  | beginDrop : s.pc t = .idle → (∀ u, u ≠ t → (s.pc u).ownerOp = false) →
      Move m s t { s.shared with dropBegun := true } (.teardown true .lockRegistration)
  /-- libmpv starts a dispatch with the context pointer it was given, however late. -/
  | beginDispatch : s.pc t = .idle → s.shared.contextGiven = true →
      Move m s t s.shared .dispatching
  | lock {ℓ : Lock} {p : Pc} : (s.pc t).lockStep = some (ℓ, p) → s.shared.free m ℓ →
      Move m s t (s.shared.acquire m t ℓ) p
  | unlock {ℓ : Lock} {p : Pc} : (s.pc t).unlockStep = some (ℓ, p) →
      Move m s t (s.shared.release m ℓ) p
  | leak {c : Callback} : s.pc t = .set (.leak c) →
      Move m s t s.shared.leak (.set (.lockSlot c))
  | replace {c : Callback} : s.pc t = .set (.replace c) →
      Move m s t { s.shared with slot := some c } (.set (.unlockSlot s.shared.slot))
  /-- libmpv's side of `register`. -/
  | register {prev : Option Callback} : s.pc t = .set (.enter prev) →
      Move m s t { s.shared with registered := true, contextGiven := true }
        (.set (.registering prev))
  /-- `register` dispatches synchronously, as often as it likes. -/
  | raise {prev : Option Callback} : s.pc t = .set (.registering prev) →
      Move m s t s.shared (.trampoline (.register prev) .lock)
  | raised {prev : Option Callback} : s.pc t = .trampoline (.register prev) .ret →
      Move m s t s.shared (.set (.registering prev))
  /-- libmpv's side of `unregister`. -/
  | unregister {d : Bool} : s.pc t = .teardown d .clear →
      Move m s t { s.shared with registered := false } (.teardown d .unregistered)
  | take {d : Bool} : s.pc t = .teardown d .take →
      Move m s t { s.shared with slot := none }
        (.teardown d (.unlockRegistration s.shared.slot))
  | destroy {d : Bool} {cb : Option Callback} : s.pc t = .teardown d (.destroy cb) →
      Move m s t { s.shared with destroyed := s.shared.destroyed || d } (.drop cb)
  | dropNone : s.pc t = .drop none → Move m s t s.shared .idle
  | dropShared {c : Callback} : s.pc t = .drop (some c) → s.shared.strong c ≠ 1 →
      Move m s t (s.shared.dropShared c) .idle
  | dropLast {c : Callback} : s.pc t = .drop (some c) → s.shared.strong c = 1 →
      Move m s t (s.shared.dropLast c) (.destructor c)
  /-- The destructor returns, or unwinds out of the operation. -/
  | destructor {c : Callback} : s.pc t = .destructor c → Move m s t s.shared .idle
  | clone {caller : Caller} : s.pc t = .trampoline caller .clone →
      Move m s t s.shared.cloneSlot (.trampoline caller (.unlock s.shared.slot))
  /-- The call returns, or panics. -/
  | call {caller : Caller} {c : Callback} (panics : Bool) :
      s.pc t = .trampoline caller (.call c) →
      Move m s t s.shared (.trampoline caller (.drop c panics))
  | dropCloneShared {caller : Caller} {c : Callback} {panicking : Bool} :
      s.pc t = .trampoline caller (.drop c panicking) → s.shared.strong c ≠ 1 →
      Move m s t (s.shared.dropShared c) (.trampoline caller .ret)
  | dropCloneLast {caller : Caller} {c : Callback} {panicking : Bool} :
      s.pc t = .trampoline caller (.drop c panicking) → s.shared.strong c = 1 →
      Move m s t (s.shared.dropLast c) (.trampoline caller (.destructor c panicking))
  /-- The destructor of the clone returns, or panics inside the guard. -/
  | cloneDestructor {caller : Caller} {c : Callback} {panicking : Bool} :
      s.pc t = .trampoline caller (.destructor c panicking) →
      Move m s t s.shared (.trampoline caller .ret)
  /-- A second panic while the call's panic unwinds. -/
  | abort {caller : Caller} {c : Callback} :
      s.pc t = .trampoline caller (.destructor c true) →
      Move m s t { s.shared with aborted := true } (.trampoline caller (.destructor c true))

/-- The slot system: all threads idle on a new slot; a step needs a live process. -/
def slotSystem (T : Type*) [DecidableEq T] (m : Libmpv) : Lts (SlotState T) T :=
  Pool.system (fun s => s = ⟨{}, fun _ => .idle⟩)
    fun s t sh p => s.shared.aborted = false ∧ Move m s t sh p

/-- Two threads on a serializing libmpv: the first registers a closure, and the second is
in the middle of a dispatch that invokes it. -/
theorem exists_invocation : ∃ s : SlotState (Fin 2),
    (slotSystem (Fin 2) ⟨true⟩).Reachable s ∧ s.shared.registered = true ∧
      s.shared.aborted = false ∧ s.pc 1 = .trampoline .libmpv (.call 0) := by
  have start := Lts.Reachable.of_init (M := slotSystem (Fin 2) ⟨true⟩) rfl
  have begun := start.of_step (a := 0) ⟨_, _, ⟨rfl, .beginSet rfl⟩, rfl⟩
  have locked := begun.of_step (a := 0) ⟨_, _, ⟨rfl, .lock rfl fun _ => rfl⟩, rfl⟩
  have leaked := locked.of_step (a := 0) ⟨_, _, ⟨rfl, .leak rfl⟩, rfl⟩
  have slotLocked := leaked.of_step (a := 0) ⟨_, _, ⟨rfl, .lock rfl fun _ => rfl⟩, rfl⟩
  have stored := slotLocked.of_step (a := 0) ⟨_, _, ⟨rfl, .replace rfl⟩, rfl⟩
  have slotFree := stored.of_step (a := 0) ⟨_, _, ⟨rfl, .unlock rfl⟩, rfl⟩
  have entered := slotFree.of_step (a := 0) ⟨_, _, ⟨rfl, .lock rfl fun _ => rfl⟩, rfl⟩
  have registered := entered.of_step (a := 0) ⟨_, _, ⟨rfl, .register rfl⟩, rfl⟩
  have left := registered.of_step (a := 0) ⟨_, _, ⟨rfl, .unlock rfl⟩, rfl⟩
  have raised := left.of_step (a := 1) ⟨_, _, ⟨rfl, .beginDispatch rfl rfl⟩, rfl⟩
  have running := raised.of_step (a := 1) ⟨_, _, ⟨rfl, .lock rfl fun _ => rfl⟩, rfl⟩
  have reading := running.of_step (a := 1) ⟨_, _, ⟨rfl, .lock rfl fun _ => rfl⟩, rfl⟩
  have cloned := reading.of_step (a := 1) ⟨_, _, ⟨rfl, .clone rfl⟩, rfl⟩
  have calling := cloned.of_step (a := 1) ⟨_, _, ⟨rfl, .unlock rfl⟩, rfl⟩
  exact ⟨_, calling, rfl, rfl, rfl⟩

end Rsmpv
