import Rsmpv.Lifetime.ClientCode
import Rsmpv.Lifetime.Player

/-!
# Render Contexts

`RenderInner` and `RenderContext` (`render.rs`). A render context owns the address of
libmpv's context, the boxed `get_proc_address` closure if its backend has one, and the
update slot; next to these stands the core reference, a borrow of the player or an `Arc`
of it. The core reference is dropped last, and it also goes when the creation fails or
panics (`dropCore`).

The strong count of the `Arc` is in the world; the player inside is `m`.
-/

namespace Rsmpv

/-- `RenderInner`. -/
structure RenderInner where
  raw : ℕ
  getProcAddress : Option BoxedFn
  updateSlot : ℕ
  deriving DecidableEq

/-- libmpv makes a render context. -/
def newContext (h : ℕ) (getProcAddress : Option BoxedFn) : Comp ℕ := fun w =>
  (.ret w.nextContext, { w with nextContext := w.nextContext + 1 }.log
    [.createContext h (getProcAddress.map BoxedFn.id) (.context w.nextContext)])

namespace RenderInner

/-- `RenderInner::create`, with the status libmpv returns and whether the context it
reports is null. The closure of a context that is null is forgotten. -/
def create (h : ℕ) (getProcAddress : Option BoxedFn) (code : CInt) (null : Bool) :
    Comp (Except Error RenderInner) :=
  match check code with
  | .error e => do
    emit (.createContext h (getProcAddress.map BoxedFn.id) .failed)
    dropAll getProcAddress.toList
    pure (.error e)
  | .ok _ =>
    if null then do
      emit (.createContext h (getProcAddress.map BoxedFn.id) .null)
      Unwind.panic ()
    else do
      let raw ← newContext h getProcAddress
      let updateSlot ← CallbackSlot.new
      pure (.ok ⟨raw, getProcAddress, updateSlot⟩)

/-- `RenderInner::set_update_callback`. -/
def setUpdateCallback (r : RenderInner) (callback : BoxedFn) : Comp Unit :=
  CallbackSlot.set r.updateSlot callback (emit (.setUpdate r.raw r.updateSlot))

/-- `RenderInner::teardown`. -/
def teardown (r : RenderInner) (destroy : Comp Unit) : Comp Unit :=
  CallbackSlot.teardown r.updateSlot (emit (.clearUpdate r.raw)) destroy

/-- `RenderContext::clear_update_callback`. -/
def clearUpdateCallback (r : RenderInner) : Comp Unit := r.teardown (pure ())

/-- `RenderInner::update`, with the flags libmpv returns. -/
def update (r : RenderInner) (flags : ℕ) : Comp Bool := do
  emit (.update r.raw)
  pure (flags &&& mpvRenderUpdateFrame != 0)

/-- A render call, unless the checks before it refuse its arguments (`none`). -/
def render (r : RenderInner) : Option CInt → Comp (Except Error Unit)
  | none => pure (.error .invalidParameter)
  | some code => do
    emit (.render r.raw)
    pure ((check code).map fun _ => ())

/-- `RenderInner::drop`, and the fields after it. -/
def drop (r : RenderInner) : Comp Unit :=
  Unwind.scope (r.teardown (emit (.freeContext r.raw)))
    (Unwind.scope (dropAll r.getProcAddress.toList) (CallbackSlot.drop r.updateSlot))

/-- The closures a context owns: the update closure in its slot, then its
`get_proc_address`. -/
def closures (slots : ℕ → SlotCell) (r : RenderInner) : List BoxedFn :=
  (slots r.updateSlot).content.toList ++ r.getProcAddress.toList

end RenderInner

/-- `RenderContext::new_software`, and `RenderContext::new_opengl` with a closure. The core
reference moves into the context, or is dropped. -/
def newRenderContext (m : Mpv) (dropCore : Comp Unit) (getProcAddress : Option BoxedFn)
    (code : CInt) (null : Bool) : Comp (Except Error RenderInner) := do
  match ← Unwind.onUnwind (RenderInner.create m.inner.raw getProcAddress code null) dropCore
  with
  | .ok inner => pure (.ok inner)
  | .error e => do
    dropCore
    pure (.error e)

/-- The drop glue of a `RenderContext`: the renderer before the core reference. -/
def dropRenderContext (r : RenderInner) (dropCore : Comp Unit) : Comp Unit :=
  Unwind.scope r.drop dropCore

/-- `Arc::clone` of the player's `Arc`. -/
def cloneArc : Comp Unit := Unwind.modify fun w => { w with strong := w.strong + 1 }

/-- The drop of an `Arc` of the player: the last one drops the player. -/
def dropArc (m : Mpv) : Comp Unit := do
  let w ← Unwind.read
  Unwind.modify fun w => { w with strong := w.strong - 1 }
  if w.strong = 1 then m.drop else pure ()

/-- The closure for `get_proc_address`, for the backend that takes one. -/
def newGetProcAddress : Option Bool → Comp (Option BoxedFn)
  | none => pure none
  | some panics => do
    let fn ← BoxedFn.new panics
    pure (some fn)

namespace World

/-- The closure for `get_proc_address` that the user makes in a world. -/
def getProcAddress (w : World) (gpa : Option Bool) : Option BoxedFn :=
  gpa.map fun panics => ⟨w.nextFn, panics⟩

/-- The world after the user made the closure for `get_proc_address`. -/
def newGetProcAddress (w : World) : Option Bool → World
  | none => w
  | some panics => w.newFn panics

/-- The world after a context was made. -/
def contextCreated (w : World) (h : ℕ) (getProcAddress : Option BoxedFn) : World :=
  ({ w with nextContext := w.nextContext + 1 }.log
    [.createContext h (getProcAddress.map BoxedFn.id) (.context w.nextContext)]).newSlot

/-- The world after a renderer was dropped. -/
def freed (w : World) (r : RenderInner) : World :=
  (w.setSlot r.updateSlot ⟨none, (w.slots r.updateSlot).leaked⟩).log
    ([.clearUpdate r.raw, .take r.updateSlot, .freeContext r.raw] ++
      releases (r.closures w.slots))

/-- The world after an `Arc` of the player was dropped. -/
def arcDropped (w : World) (m : Mpv) : World :=
  if w.strong = 1 then ({ w with strong := w.strong - 1 } : World).dropped (.mpv m)
  else { w with strong := w.strong - 1 }

variable {w : World}

/-- Boxing a `get_proc_address` is no event. -/
theorem newGetProcAddress_trace (gpa : Option Bool) :
    (w.newGetProcAddress gpa).trace = w.trace := by
  cases gpa <;> rfl

/-- Boxing a `get_proc_address` counts no reference. -/
theorem newGetProcAddress_strong (gpa : Option Bool) :
    (w.newGetProcAddress gpa).strong = w.strong := by
  cases gpa <;> rfl

/-- Dropping an `Arc` of the player makes no closure. -/
theorem arcDropped_armed (m : Mpv) : (w.arcDropped m).armed = w.armed := by
  rw [arcDropped]
  split <;> rfl

end World

/-! ### What the methods do -/

/-- What `set_update_callback` does: it stores, registers, and releases what was there. -/
theorem RenderInner.setUpdateCallback_apply (r : RenderInner) (fn : BoxedFn) (w : World) :
    r.setUpdateCallback fn w =
      (.ofPanics (panicCount (w.slots r.updateSlot).content.toList),
        w.stored r.updateSlot fn (.setUpdate r.raw r.updateSlot)) :=
  CallbackSlot.set_apply _ _ _ _

/-- What `clear_update_callback` does: it unregisters, and releases what was there. -/
theorem RenderInner.clearUpdateCallback_apply (r : RenderInner) (w : World) :
    r.clearUpdateCallback w =
      (.ofPanics (panicCount (w.slots r.updateSlot).content.toList),
        w.tornDown r.updateSlot (.clearUpdate r.raw) []) :=
  CallbackSlot.teardown_pure_apply _ _ _

/-- Dropping a renderer: unregister, empty the slot, free, and then release the update
closure and `get_proc_address`. -/
theorem RenderInner.drop_apply (r : RenderInner) (w : World) :
    r.drop w = (.ofPanics (panicCount (r.closures w.slots)), w.freed r) := by
  refine CallbackSlot.teardown_scope _ _ _ (fun w hw => ?_) w
  have hslot : CallbackSlot.drop r.updateSlot (w.log (releases r.getProcAddress.toList)) =
      (.ofPanics 0, w.log (releases r.getProcAddress.toList)) := CallbackSlot.drop_apply hw
  exact Unwind.scope_ofPanics (panicCount_toList_le_one _) (dropAll_apply _ w) hslot

/-- Dropping an `Arc` of a player that owns no closures. -/
theorem dropArc_apply {m : Mpv} {w : World} (h : (Value.mpv m).closures w.slots = []) :
    dropArc m w = (.ret (), w.arcDropped m) := by
  simp only [dropArc, Unwind.bind_apply, Unwind.andThen, Unwind.read_apply,
    Unwind.modify_apply, World.arcDropped]
  split
  · have hdrop := (Value.mpv m).drop_apply { w with strong := w.strong - 1 }
    rw [h] at hdrop
    exact hdrop
  · rfl

/-- Boxing a `get_proc_address` returns its box, if there is one. -/
theorem newGetProcAddress_apply (gpa : Option Bool) (w : World) :
    newGetProcAddress gpa w = (.ret (w.getProcAddress gpa), w.newGetProcAddress gpa) := by
  cases gpa <;> rfl

namespace ClientCode

variable {V : Type} {s : ClientCode V} {m : Mpv} {dropCore : Comp Unit}
  {gpa : Option BoxedFn} {code : CInt} {wrap : RenderInner → V} {rest : List V} {w : World}

/-- A context is made: the core reference has moved into it. -/
theorem finish_newRenderContext (hcode : 0 ≤ code) :
    s.finish (newRenderContext m dropCore gpa code false) (returned wrap rest rest) rest =
      ⟨s.world.contextCreated m.inner.raw gpa,
        wrap ⟨s.world.nextContext, gpa, s.world.nextSlot⟩ :: rest, s.leaked, false⟩ := by
  have hcreate : RenderInner.create m.inner.raw gpa code false s.world =
      (.ret (.ok ⟨s.world.nextContext, gpa, s.world.nextSlot⟩),
        s.world.contextCreated m.inner.raw gpa) := by
    rw [RenderInner.create, check_of_nonneg hcode]
    rfl
  unfold newRenderContext
  rw [finish_bind (Unwind.onUnwind_ret hcreate _)]
  rfl

/-- The creation fails: the closure is released, and the core reference is dropped whether
the closure's destructor panics or not. -/
theorem finish_newRenderContext_failed {null : Bool} (hcode : code < 0)
    (hcore : dropCore (s.world.log ([.createContext m.inner.raw (gpa.map BoxedFn.id) .failed] ++
      releases gpa.toList)) = (.ret (), w)) :
    s.finish (newRenderContext m dropCore gpa code null) (returned wrap rest rest) rest =
      ⟨w, rest, s.leaked, false⟩ := by
  have hcreate : RenderInner.create m.inner.raw gpa code null = fun w =>
      (dropAll gpa.toList >>= fun _ => pure (.error (Error.fromRaw code)) :
        Comp (Except Error RenderInner))
        (w.log [.createContext m.inner.raw (gpa.map BoxedFn.id) .failed]) := by
    rw [RenderInner.create, check_of_neg hcode]
    rfl
  have hdrop := dropAll_apply gpa.toList
    (s.world.log [.createContext m.inner.raw (gpa.map BoxedFn.id) .failed])
  rw [World.log_log] at hdrop
  obtain ⟨failed, hfailed⟩ : ∃ w', s.world.log ([.createContext m.inner.raw
      (gpa.map BoxedFn.id) .failed] ++ releases gpa.toList) = w' := ⟨_, rfl⟩
  rw [hfailed] at hdrop hcore
  rw [newRenderContext]
  obtain hzero | hone : panicCount gpa.toList = 0 ∨ panicCount gpa.toList = 1 := by
    have hle := panicCount_toList_le_one gpa
    omega
  · rw [hzero] at hdrop
    have hret : RenderInner.create m.inner.raw gpa code null s.world =
        (.ret (.error (Error.fromRaw code)), failed) := by
      rw [hcreate]
      exact Unwind.andThen_ret hdrop _
    rw [finish_bind (Unwind.onUnwind_ret hret _)]
    dsimp only
    rw [finish_bind (s := { s with world := failed }) hcore]
    rfl
  · rw [hone] at hdrop
    have hunwind : RenderInner.create m.inner.raw gpa code null s.world =
        (.unwind (), failed) := by
      rw [hcreate]
      exact Unwind.andThen_unwind hdrop _
    have hon := Unwind.onUnwind_unwind (n := 0) hunwind hcore
    rw [if_pos rfl] at hon
    rw [finish, Unwind.bind_apply, Unwind.andThen_unwind hon]

/-- libmpv reports success and a null context: the panic drops the core reference, and
forgets the closure. -/
theorem finish_newRenderContext_null (hcode : 0 ≤ code)
    (hcore : dropCore (s.world.log
      [.createContext m.inner.raw (gpa.map BoxedFn.id) .null]) = (.ret (), w)) :
    s.finish (newRenderContext m dropCore gpa code true) (returned wrap rest rest) rest =
      ⟨w, rest, s.leaked, false⟩ := by
  have hunwind : RenderInner.create m.inner.raw gpa code true s.world = (.unwind (),
      s.world.log [.createContext m.inner.raw (gpa.map BoxedFn.id) .null]) := by
    rw [RenderInner.create, check_of_nonneg hcode]
    rfl
  have hon := Unwind.onUnwind_unwind (n := 0) hunwind hcore
  rw [if_pos rfl] at hon
  rw [newRenderContext, finish, Unwind.bind_apply, Unwind.andThen_unwind hon]

/-- A context is dropped, with the core reference if the renderer did not abort. -/
theorem finish_dropRenderContext {r : RenderInner}
    (hone : panicCount (r.closures s.world.slots) ≤ 1)
    (hcore : dropCore (s.world.freed r) = (.ret (), w)) :
    s.finish (dropRenderContext r dropCore) (fun _ => rest) rest =
      ⟨w, rest, s.leaked, false⟩ := by
  have hscope := Unwind.scope_ofPanics (n := 0) hone (r.drop_apply s.world) hcore
  rw [Nat.add_zero] at hscope
  change s.finish (Unwind.scope r.drop dropCore) _ _ = _
  rw [finish_ofPanics hscope, decide_eq_false (by omega)]

/-- Two destructors of a renderer panic. -/
theorem finish_dropRenderContext_abort {r : RenderInner}
    (htwo : 2 ≤ panicCount (r.closures s.world.slots)) :
    s.finish (dropRenderContext r dropCore) (fun _ => rest) rest =
      ⟨s.world.freed r, rest, s.leaked, true⟩ := by
  have hdrop := r.drop_apply s.world
  obtain ⟨n, hn⟩ := Nat.exists_eq_add_of_le' htwo
  rw [hn] at hdrop
  have habort : dropRenderContext r dropCore s.world = (.abort, s.world.freed r) := by
    simp only [dropRenderContext, Unwind.scope, hdrop, Exit.ofPanics]
  rw [finish, habort]

end ClientCode

end Rsmpv
