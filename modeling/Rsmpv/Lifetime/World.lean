import Mathlib.Data.List.Perm.Basic
import Mathlib.Data.List.Perm.Subperm
import Mathlib.Logic.Function.Basic
import Rsmpv.Error
import Rsmpv.Lib.Unwind
import Rsmpv.Lib.Utf8

/-!
# The World the Wrappers Act On

The owners of `lib.rs` and `render.rs` — builders, players, clients, render contexts —
call libmpv, swap the contents of callback slots and release closures. What they do is
recorded as a trace of events, oldest first: a call when it returns, the release of a
closure when its destructor begins. One thread acts at a time here; the interleavings of
the slot operations are the subject of the `Slot` modules.

The destructor of a closure either returns or panics. `Comp` is the monad of code that
may unwind through the world, and the drop glue of an owner is written as nested scopes:
the `Drop` body first, then the fields in the order of their declaration, each of them
also when something before it panicked.
-/

namespace Rsmpv

/-- A closure the user handed over, with the behaviour of its destructor. -/
structure BoxedFn where
  id : ℕ
  panics : Bool
  deriving DecidableEq

/-- How `mpv_render_context_create` ends: with an error, with success but no context, or
with a context. -/
inductive ContextResult
  | failed
  | null
  | context (r : ℕ)
  deriving DecidableEq

/-- The calls of libmpv, the swaps of slot contents, and the releases of closures. -/
inductive Ev
  | create (result : Option ℕ)
  | createClient (core : ℕ) (result : Option ℕ)
  | setProperty (h : ℕ)
  | mpvInitialize (h : ℕ)
  | setWakeup (h slot : ℕ)
  | clearWakeup (h : ℕ)
  | addProtocol (h fn : ℕ) (ok : Bool)
  | terminateDestroy (h : ℕ)
  | destroy (h : ℕ)
  | createContext (h : ℕ) (getProcAddress : Option ℕ) (result : ContextResult)
  | setUpdate (r slot : ℕ)
  | clearUpdate (r : ℕ)
  | update (r : ℕ)
  | render (r : ℕ)
  | freeContext (r : ℕ)
  | store (slot fn : ℕ)
  | take (slot : ℕ)
  | release (fn : ℕ)
  deriving DecidableEq

namespace Ev

/-- The handle an event brings into being. -/
def opened : Ev → Option ℕ
  | create result | createClient _ result => result
  | _ => none

/-- The handle an event destroys. -/
def destroyed : Ev → Option ℕ
  | terminateDestroy h | destroy h => some h
  | _ => none

/-- The handle a call is made on. -/
def handle : Ev → Option ℕ
  | createClient h _ | setProperty h | mpvInitialize h | setWakeup h _ | clearWakeup h
  | addProtocol h _ _ | terminateDestroy h | destroy h | createContext h _ _ => some h
  | _ => none

/-- The render context an event brings into being. -/
def contextCreated : Ev → Option ℕ
  | createContext _ _ (.context r) => some r
  | _ => none

/-- The render context an event frees. -/
def contextFreed : Ev → Option ℕ
  | freeContext r => some r
  | _ => none

/-- The render context a call is made on. -/
def context : Ev → Option ℕ
  | setUpdate r _ | clearUpdate r | update r | render r | freeContext r => some r
  | _ => none

/-- The closure that is forgotten, because libmpv reported a context that is null. -/
def forgotten : Ev → Option ℕ
  | createContext _ getProcAddress .null => getProcAddress
  | _ => none

/-- The closure whose destructor begins. -/
def released : Ev → Option ℕ
  | release fn => some fn
  | _ => none

end Ev

/-- A `CallbackSlot`: the content of the slot mutex and the `bool` of the registration
mutex. -/
structure SlotCell where
  content : Option BoxedFn := none
  leaked : Bool := false
  deriving DecidableEq

/-- The trace, the slots by their address, the next free address or number of each kind,
the closures whose destructors panic, and the strong count of the player's `Arc`, if it
lives in one. -/
structure World where
  trace : List Ev := []
  slots : ℕ → SlotCell := fun _ => {}
  nextSlot : ℕ := 0
  nextHandle : ℕ := 0
  nextContext : ℕ := 0
  nextFn : ℕ := 0
  armed : List ℕ := []
  strong : ℕ := 0

/-- Code of the wrapper. -/
abbrev Comp := Unwind Unit World

namespace World

variable {w : World}

/-- Append events to the trace. -/
def log (w : World) (l : List Ev) : World := { w with trace := w.trace ++ l }

/-- Write a slot. -/
def setSlot (w : World) (slot : ℕ) (cell : SlotCell) : World :=
  { w with slots := Function.update w.slots slot cell }

/-- Allocate a slot. -/
def newSlot (w : World) : World :=
  { w.setSlot w.nextSlot {} with nextSlot := w.nextSlot + 1 }

/-- The user makes a closure. -/
def newFn (w : World) (panics : Bool) : World :=
  { w with
    nextFn := w.nextFn + 1
    armed := if panics then w.nextFn :: w.armed else w.armed }

/-- Logging adds to the trace. -/
@[simp] theorem log_trace (l : List Ev) : (w.log l).trace = w.trace ++ l := rfl

/-- Logging leaves the slots. -/
@[simp] theorem log_slots (l : List Ev) : (w.log l).slots = w.slots := rfl

/-- Writing a slot leaves the others. -/
@[simp] theorem setSlot_slots (i : ℕ) (c : SlotCell) :
    (w.setSlot i c).slots = Function.update w.slots i c := rfl

/-- A closure with a destructor that panics keeps it. -/
theorem mem_newFn_armed (w : World) {panics : Bool} {n : ℕ} (h : n ∈ w.armed) :
    n ∈ (w.newFn panics).armed := by
  cases panics with
  | true => exact List.mem_cons_of_mem _ h
  | false => exact h

/-- A new closure is armed if its destructor panics, and the others stay as they are. -/
theorem newFn_armed {panics : Bool} {held hand : List BoxedFn}
    (h : ∀ fn ∈ held ++ hand, fn.panics = true → fn.id ∈ w.armed) :
    ∀ fn ∈ held ++ ⟨w.nextFn, panics⟩ :: hand, fn.panics = true →
      fn.id ∈ (w.newFn panics).armed := by
  intro fn hfn hp
  rcases List.mem_append.mp hfn with hfn | hfn
  · exact w.mem_newFn_armed (h fn (List.mem_append_left _ hfn) hp)
  · rcases List.mem_cons.mp hfn with rfl | hfn
    · obtain rfl : panics = true := hp
      exact List.mem_cons_self
    · exact w.mem_newFn_armed (h fn (List.mem_append_right _ hfn) hp)

/-- Logging twice. -/
theorem log_log (l l' : List Ev) : (w.log l).log l' = w.log (l ++ l') := by
  simp [log]

/-- Logging nothing. -/
theorem log_nil : w.log [] = w := by
  simp [log]

/-- Logging and writing a slot do not disturb each other. -/
theorem log_setSlot (l : List Ev) (i : ℕ) (c : SlotCell) :
    (w.log l).setSlot i c = (w.setSlot i c).log l := rfl

end World

/-- A call of libmpv that has returned. -/
def emit (e : Ev) : Comp Unit := Unwind.modify fun w => w.log [e]

/-- An event is logged. -/
@[simp] theorem emit_apply (e : Ev) (w : World) : emit e w = (.ret (), w.log [e]) := rfl

/-- `cstr`: a string with an interior NUL is refused. -/
def cstr (s : String) : Except Error (List UInt8) :=
  if 0 ∈ Utf8.bytes s then .error .interiorNul else .ok (Utf8.bytes s)

/-! ### Closures -/

/-- The user makes a closure whose destructor panics, or does not. -/
def BoxedFn.new (panics : Bool) : Comp BoxedFn := fun w =>
  (.ret ⟨w.nextFn, panics⟩, w.newFn panics)

/-- Drop a closure. -/
def BoxedFn.drop (fn : BoxedFn) : Comp Unit := do
  emit (.release fn.id)
  Unwind.destructor (if fn.panics then some () else none)

/-- Drop the closures of a `Vec` or an `Option`, in order. -/
def dropAll : List BoxedFn → Comp Unit
  | [] => pure ()
  | fn :: fns => Unwind.scope fn.drop (dropAll fns)

/-- The releases of closures, as events. -/
def releases (fns : List BoxedFn) : List Ev := fns.map fun fn => .release fn.id

/-- How many of the closures have a destructor that panics. -/
def panicCount (fns : List BoxedFn) : ℕ := fns.countP (·.panics)

/-- The releases of two lists of closures. -/
theorem releases_append (fns fns' : List BoxedFn) :
    releases (fns ++ fns') = releases fns ++ releases fns' :=
  List.map_append

/-- The panics of two lists of closures add up. -/
theorem panicCount_append (fns fns' : List BoxedFn) :
    panicCount (fns ++ fns') = panicCount fns + panicCount fns' :=
  List.countP_append

/-- Different closures that panic are as many as their numbers. -/
theorem panicCount_le_length {fns : List BoxedFn} {armed : List ℕ}
    (hnodup : (fns.map BoxedFn.id).Nodup)
    (harmed : ∀ fn ∈ fns, fn.panics = true → fn.id ∈ armed) : panicCount fns ≤ armed.length := by
  have hfilter : ((fns.filter (·.panics)).map BoxedFn.id).Nodup :=
    hnodup.sublist (List.filter_sublist.map _)
  have hsub : (fns.filter (·.panics)).map BoxedFn.id ⊆ armed := by
    intro n hn
    obtain ⟨fn, hfn, rfl⟩ := List.mem_map.mp hn
    obtain ⟨hmem, hp⟩ := List.mem_filter.mp hfn
    exact harmed fn hmem hp
  have hle := (List.subperm_of_subset hfilter hsub).length_le
  rwa [List.length_map, ← List.countP_eq_length_filter] at hle

/-- A slot holds at most one closure that panics. -/
theorem panicCount_toList_le_one (c : Option BoxedFn) : panicCount c.toList ≤ 1 :=
  List.countP_le_length.trans (by cases c <;> simp)

/-- A new closure has the next number. -/
theorem BoxedFn.new_apply (panics : Bool) (w : World) :
    BoxedFn.new panics w = (.ret ⟨w.nextFn, panics⟩, w.newFn panics) :=
  rfl

/-- A closure is released, and its destructor may panic. -/
theorem BoxedFn.drop_apply (fn : BoxedFn) (w : World) :
    fn.drop w = (.ofPanics (panicCount [fn]), w.log (releases [fn])) := by
  cases h : fn.panics with
  | true => simp [drop, Unwind.andThen, Unwind.destructor_apply, h, panicCount, releases,
      Exit.after, Exit.ofPanics]
  | false => simp [drop, Unwind.andThen, Unwind.destructor_apply, h, panicCount, releases,
      Exit.after, Exit.ofPanics]

/-- Every closure is released, whichever of their destructors panic. -/
theorem dropAll_apply (fns : List BoxedFn) (w : World) :
    dropAll fns w = (.ofPanics (panicCount fns), w.log (releases fns)) := by
  induction fns generalizing w with
  | nil => simp [dropAll, panicCount, releases, World.log, Exit.ofPanics]
  | cons fn fns ih =>
      have hone : panicCount [fn] ≤ 1 := List.countP_le_length
      have hsum : panicCount (fn :: fns) = panicCount [fn] + panicCount fns :=
        panicCount_append [fn] fns
      have hlog : w.log (releases (fn :: fns)) = (w.log (releases [fn])).log (releases fns) := by
        rw [World.log_log]
        rfl
      rw [hsum, hlog]
      exact Unwind.scope_ofPanics hone (fn.drop_apply w) (ih _)

/-! ### The callback slot -/

namespace CallbackSlot

/-- `CallbackSlot::new`. -/
def new : Comp ℕ := fun w => (.ret w.nextSlot, w.newSlot)

/-- `CallbackSlot::set`. -/
def set (slot : ℕ) (callback : BoxedFn) (register : Comp Unit) : Comp Unit := do
  let w ← Unwind.read
  let previous := (w.slots slot).content
  Unwind.modify fun w => (w.setSlot slot ⟨some callback, true⟩).log [.store slot callback.id]
  register
  dropAll previous.toList

/-- `CallbackSlot::teardown`. -/
def teardown (slot : ℕ) (unregister destroy : Comp Unit) : Comp Unit := do
  unregister
  let w ← Unwind.read
  let callback := (w.slots slot).content
  Unwind.modify fun w =>
    (w.setSlot slot { w.slots slot with content := none }).log [.take slot]
  Unwind.scope destroy (dropAll callback.toList)

/-- The drop glue of a `CallbackSlot`: a slot that was never registered goes with its
content, any other stays in memory for good. -/
def drop (slot : ℕ) : Comp Unit := do
  let w ← Unwind.read
  if (w.slots slot).leaked then pure ()
  else dropAll (w.slots slot).content.toList

end CallbackSlot

/-- The world after a callback was set, with the call `register`. -/
def World.stored (w : World) (slot : ℕ) (fn : BoxedFn) (register : Ev) : World :=
  (w.setSlot slot ⟨some fn, true⟩).log
    ([.store slot fn.id, register] ++ releases (w.slots slot).content.toList)

/-- The world after a callback was unregistered with the call `unregister` and released,
with the calls `destroy` in between. -/
def World.tornDown (w : World) (slot : ℕ) (unregister : Ev) (destroy : List Ev) : World :=
  (w.setSlot slot ⟨none, (w.slots slot).leaked⟩).log
    ([unregister, .take slot] ++ destroy ++ releases (w.slots slot).content.toList)

namespace CallbackSlot

/-- Setting a callback: the new one is stored and registered, the old one is released. -/
theorem set_apply (slot : ℕ) (callback : BoxedFn) (e : Ev) (w : World) :
    set slot callback (emit e) w =
      (.ofPanics (panicCount (w.slots slot).content.toList), w.stored slot callback e) := by
  simp only [set, Unwind.bind_apply, Unwind.andThen, Unwind.read_apply,
    Unwind.modify_apply, emit_apply]
  rw [dropAll_apply, World.log_log, World.log_log]
  rfl

/-- Tearing down: unregister, take the callback, destroy, release it. -/
theorem teardown_apply (slot : ℕ) (e : Ev) (l : List Ev) (w : World) {destroy : Comp Unit}
    (hdestroy : ∀ w, destroy w = (.ret (), w.log l)) :
    teardown slot (emit e) destroy w =
      (.ofPanics (panicCount (w.slots slot).content.toList), w.tornDown slot e l) := by
  simp only [teardown, Unwind.bind_apply, Unwind.andThen, Unwind.read_apply,
    Unwind.modify_apply, emit_apply, World.log_slots]
  have hscope := Unwind.scope_ofPanics (m := 0) (Nat.zero_le 1)
    (hdestroy (((w.log [e]).setSlot slot ⟨none, (w.slots slot).leaked⟩).log [.take slot]))
    (dropAll_apply (w.slots slot).content.toList _)
  rw [Nat.zero_add] at hscope
  rw [hscope]
  simp [World.tornDown, World.log_setSlot, World.log_log]

/-- Clearing: a teardown that destroys nothing. -/
theorem teardown_pure_apply (slot : ℕ) (e : Ev) (w : World) :
    teardown slot (emit e) (pure ()) w =
      (.ofPanics (panicCount (w.slots slot).content.toList), w.tornDown slot e []) :=
  teardown_apply slot e [] w fun w => by rw [Unwind.pure_apply, World.log_nil]

/-- An emptied slot is dropped without a release. -/
theorem drop_apply {slot : ℕ} {w : World} (h : (w.slots slot).content = none) :
    drop slot w = (.ret (), w) := by
  simp only [drop, Unwind.bind_apply, Unwind.andThen, Unwind.read_apply, h]
  split <;> rfl

/-- A teardown with a destroy call, followed by fields that release closures. -/
theorem teardown_scope (slot : ℕ) (unregister destroy : Ev) {fields : Comp Unit}
    {fns : List BoxedFn} (hfields : ∀ w : World, (w.slots slot).content = none →
      fields w = (.ofPanics (panicCount fns), w.log (releases fns))) (w : World) :
    Unwind.scope (teardown slot (emit unregister) (emit destroy)) fields w =
      (.ofPanics (panicCount ((w.slots slot).content.toList ++ fns)),
        (w.setSlot slot ⟨none, (w.slots slot).leaked⟩).log
          ([unregister, .take slot, destroy] ++
            releases ((w.slots slot).content.toList ++ fns))) := by
  have hbody := teardown_apply slot unregister [destroy] w (emit_apply destroy)
  have hscope := Unwind.scope_ofPanics (panicCount_toList_le_one _) hbody
    (hfields _ (by simp [World.tornDown]))
  rw [panicCount_append, hscope, World.tornDown, World.log_log, releases_append]
  simp

end CallbackSlot

/-! ### Owners of a slot -/

section Owners

variable {V : Type} {slot : V → ℕ} {own : V → List BoxedFn}

/-- The closures that values hold, each the content of its slot and some of its own. -/
def heldBy (slot : V → ℕ) (own : V → List BoxedFn) (slots : ℕ → SlotCell)
    (values : List V) : List BoxedFn :=
  values.flatMap fun v => (slots (slot v)).content.toList ++ own v

/-- What the first value holds, and what the others do. -/
theorem heldBy_cons (slots : ℕ → SlotCell) (v : V) (values : List V) :
    heldBy slot own slots (v :: values) =
      (slots (slot v)).content.toList ++ own v ++ heldBy slot own slots values :=
  List.flatMap_cons

/-- Writing a slot that no value owns. -/
theorem heldBy_update {slots : ℕ → SlotCell} {i : ℕ} {cell : SlotCell} {values : List V}
    (h : i ∉ values.map slot) :
    heldBy slot own (Function.update slots i cell) values = heldBy slot own slots values := by
  refine List.flatMap_congr fun v hv => ?_
  have hne : slot v ≠ i := fun he => h (he ▸ List.mem_map_of_mem hv)
  rw [Function.update_of_ne hne]

/-- Exchanging the content of a slot exchanges what its owner holds. -/
theorem heldBy_swap (own : V → List BoxedFn) (slots : ℕ → SlotCell) (cell : SlotCell)
    (hand : List BoxedFn) {v : V}
    {values : List V} (h : slot v ∉ values.map slot) :
    (heldBy slot own slots (v :: values) ++ (cell.content.toList ++ hand)).Perm
      (heldBy slot own (Function.update slots (slot v) cell) (v :: values) ++
        ((slots (slot v)).content.toList ++ hand)) := by
  rw [List.perm_iff_count]
  intro fn
  simp only [heldBy_cons, heldBy_update h, Function.update_self, List.count_append]
  omega

/-- A new value owns a new slot. -/
theorem heldBy_new {slots : ℕ → SlotCell} {i : ℕ} {v : V} {values : List V} (hv : slot v = i)
    (h : i ∉ values.map slot) :
    heldBy slot own (Function.update slots i {}) (v :: values) =
      own v ++ heldBy slot own slots values := by
  rw [heldBy_cons, heldBy_update h, hv, Function.update_self]
  rfl

/-- A value whose slot is empty leaves, and the running code holds what it owned. -/
theorem heldBy_leave {slots : ℕ → SlotCell} {v : V} (values : List V) (hand : List BoxedFn)
    (hempty : (slots (slot v)).content = none) :
    (heldBy slot own slots (v :: values) ++ hand).Perm
      (heldBy slot own slots values ++ (own v ++ hand)) := by
  rw [heldBy_cons, hempty, Option.toList_none, List.nil_append, List.append_assoc]
  exact List.perm_append_comm_assoc _ _ _

/-- The closures of one value are among those held. -/
theorem mem_heldBy {slots : ℕ → SlotCell} {values : List V} {v : V} {fn : BoxedFn}
    (hv : v ∈ values) (hfn : fn ∈ own v) : fn ∈ heldBy slot own slots values :=
  List.mem_flatMap.mpr ⟨v, hv, List.mem_append_right _ hfn⟩

/-- A closure that a value owns is not in the hands of the running code. -/
theorem ne_of_mem_heldBy {slots : ℕ → SlotCell} {values : List V} {v : V} {fn f : BoxedFn}
    {hand : List BoxedFn}
    (h : ((heldBy slot own slots values ++ fn :: hand).map BoxedFn.id).Nodup)
    (hv : v ∈ values) (hf : f ∈ own v) : f.id ≠ fn.id := by
  rw [List.map_append] at h
  have hheld : f.id ∈ (heldBy slot own slots values).map BoxedFn.id :=
    List.mem_map_of_mem (mem_heldBy hv hf)
  exact (List.nodup_append.mp h).2.2 _ hheld fn.id
    (List.mem_map_of_mem List.mem_cons_self)

end Owners

end Rsmpv
