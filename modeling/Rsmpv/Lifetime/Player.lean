import Rsmpv.Lifetime.World

/-!
# Builders, Players and Clients

The three owners of a libmpv handle (`lib.rs`) and the code that makes, uses and drops
them. A method that can fail returns its `Result`; what libmpv answers is a parameter of
the method, as are the strings that may hold a NUL.

The owners differ in their destroy call and in what they own besides the handle: a player
also owns the open functions of its protocols, which its drop glue releases last. What a
drop does to the world is one statement for the three of them (`Value.drop_apply`).
-/

namespace Rsmpv

/-- `Handle`: the address of the `mpv_handle`, and that of the wakeup slot. -/
structure Handle where
  raw : ℕ
  wakeupSlot : ℕ
  deriving DecidableEq

namespace Handle

/-- `Handle::from_raw`. -/
def fromRaw (raw : ℕ) : Comp Handle := do
  let wakeupSlot ← CallbackSlot.new
  pure ⟨raw, wakeupSlot⟩

/-- `Handle::teardown`. -/
def teardown (h : Handle) (destroy : Comp Unit) : Comp Unit :=
  CallbackSlot.teardown h.wakeupSlot (emit (.clearWakeup h.raw)) destroy

/-- `Handle::set_wakeup_callback`. -/
def setWakeupCallback (h : Handle) (callback : BoxedFn) : Comp Unit :=
  CallbackSlot.set h.wakeupSlot callback (emit (.setWakeup h.raw h.wakeupSlot))

/-- `Handle::clear_wakeup_callback`. -/
def clearWakeupCallback (h : Handle) : Comp Unit := h.teardown (pure ())

/-- `Handle::set_property`. The value is refused by its own `set_on` for an interior NUL
(`none`), or set with a status. -/
def setProperty (h : Handle) (name : String) (setOn : Option CInt) :
    Comp (Except Error Unit) :=
  match cstr name, setOn with
  | .error e, _ => pure (.error e)
  | .ok _, none => pure (.error .interiorNul)
  | .ok _, some code => do
    emit (.setProperty h.raw)
    pure ((check code).map fun _ => ())

/-- The drop glue of a `Handle`. -/
def dropFields (h : Handle) : Comp Unit := CallbackSlot.drop h.wakeupSlot

end Handle

/-- `Builder`. -/
structure Builder where
  inner : Handle
  deriving DecidableEq

/-- `Mpv`. -/
structure Mpv where
  inner : Handle
  protocols : List BoxedFn := []
  deriving DecidableEq

/-- `Client`, which borrows the player with the handle `core`. -/
structure Client where
  inner : Handle
  core : ℕ
  deriving DecidableEq

/-- libmpv makes a handle, or returns null. -/
def openHandle (call : Option ℕ → Ev) (ok : Bool) : Comp (Option ℕ) := fun w =>
  if ok then
    (.ret (some w.nextHandle),
      { w with nextHandle := w.nextHandle + 1 }.log [call (some w.nextHandle)])
  else (.ret none, w.log [call none])

/-- `Builder::drop`, and the fields after it. -/
def Builder.drop (b : Builder) : Comp Unit :=
  Unwind.scope (b.inner.teardown (emit (.terminateDestroy b.inner.raw))) b.inner.dropFields

/-- `Mpv::drop`, and the fields after it. -/
def Mpv.drop (m : Mpv) : Comp Unit :=
  Unwind.scope (m.inner.teardown (emit (.terminateDestroy m.inner.raw)))
    (Unwind.scope m.inner.dropFields (dropAll m.protocols))

/-- `Client::drop`, and the fields after it. -/
def Client.drop (c : Client) : Comp Unit :=
  Unwind.scope (c.inner.teardown (emit (.destroy c.inner.raw))) c.inner.dropFields

/-- `Mpv::builder`. -/
def Mpv.builder (ok : Bool) : Comp (Except Error Builder) := do
  match ← openHandle .create ok with
  | none => pure (.error .createFailed)
  | some raw => do
    let inner ← Handle.fromRaw raw
    pure (.ok ⟨inner⟩)

/-- `Builder::set_property`. -/
def Builder.setProperty (b : Builder) (name : String) (setOn : Option CInt) :
    Comp (Except Error Builder) := do
  match ← b.inner.setProperty name setOn with
  | .error e => do
    b.drop
    pure (.error e)
  | .ok () => pure (.ok b)

/-- `Builder::build`. The handle is read out of a `ManuallyDrop`, so on success the builder
is not dropped. -/
def Builder.build (b : Builder) (code : CInt) : Comp (Except Error Mpv) := do
  emit (.mpvInitialize b.inner.raw)
  match check code with
  | .ok _ => pure (.ok { inner := b.inner })
  | .error e => do
    b.drop
    pure (.error e)

/-- `Mpv::new`. -/
def Mpv.new (ok : Bool) (code : CInt) : Comp (Except Error Mpv) := do
  match ← Mpv.builder ok with
  | .error e => pure (.error e)
  | .ok b => b.build code

/-- `Mpv::create_client`. -/
def Mpv.createClient (m : Mpv) (name : Option String) (ok : Bool) :
    Comp (Except Error Client) := do
  match name.mapM cstr with
  | .error e => pure (.error e)
  | .ok _ =>
    match ← openHandle (.createClient m.inner.raw) ok with
    | none => pure (.error .createFailed)
    | some raw => do
      let inner ← Handle.fromRaw raw
      pure (.ok ⟨inner, m.inner.raw⟩)

/-- `Mpv::register_protocol`. On success the player comes back with the open function in
its registry. -/
def Mpv.registerProtocol (m : Mpv) (protocol : String) (openFn : BoxedFn) (code : CInt) :
    Comp (Except Error Mpv) :=
  match cstr protocol with
  | .error e => do
    openFn.drop
    pure (.error e)
  | .ok _ => do
    emit (.addProtocol m.inner.raw openFn.id (0 ≤ code))
    match check code with
    | .error e => do
      openFn.drop
      pure (.error e)
    | .ok _ => pure (.ok { m with protocols := m.protocols ++ [openFn] })

/-! ### Owners of a handle -/

/-- A value that owns a handle. -/
inductive Value
  | builder (b : Builder)
  | mpv (m : Mpv)
  | client (c : Client)
  deriving DecidableEq

namespace Value

/-- The handle a value owns. -/
def inner : Value → Handle
  | builder b => b.inner
  | mpv m => m.inner
  | client c => c.inner

/-- The address of the handle. -/
def raw (v : Value) : ℕ := v.inner.raw

/-- The address of the wakeup slot. -/
def slot (v : Value) : ℕ := v.inner.wakeupSlot

/-- The open functions a value owns. -/
def protocols : Value → List BoxedFn
  | mpv m => m.protocols
  | builder _ | client _ => []

/-- The destroy call of the owner. -/
def destroying : Value → Ev
  | builder b => .terminateDestroy b.inner.raw
  | mpv m => .terminateDestroy m.inner.raw
  | client c => .destroy c.inner.raw

/-- The event that brought the handle of a value into being. -/
def opening : Value → Ev
  | builder b => .create (some b.inner.raw)
  | mpv m => .create (some m.inner.raw)
  | client c => .createClient c.core (some c.inner.raw)

/-- Drop a value. -/
def drop : Value → Comp Unit
  | builder b => b.drop
  | mpv m => m.drop
  | client c => c.drop

/-- The closures a value owns: the wakeup closure in its slot, then its open functions. -/
def closures (slots : ℕ → SlotCell) (v : Value) : List BoxedFn :=
  (slots v.slot).content.toList ++ v.protocols

/-- What dropping a value does: unregister, empty the slot, destroy, release. -/
def dropEvents (slots : ℕ → SlotCell) (v : Value) : List Ev :=
  [.clearWakeup v.raw, .take v.slot, v.destroying] ++ releases (v.closures slots)

end Value

namespace World

/-- The world after a value was dropped. -/
def dropped (w : World) (v : Value) : World :=
  (w.setSlot v.slot ⟨none, (w.slots v.slot).leaked⟩).log (v.dropEvents w.slots)

/-- The world after libmpv made a handle and the wrapper its slot. -/
def opened (w : World) (call : Option ℕ → Ev) : World :=
  ({ w with nextHandle := w.nextHandle + 1 }.log [call (some w.nextHandle)]).newSlot

end World

/-! ### What the methods do -/

/-- What `set_wakeup_callback` does: it stores, registers, and releases what was there. -/
theorem Handle.setWakeupCallback_apply (h : Handle) (fn : BoxedFn) (w : World) :
    h.setWakeupCallback fn w =
      (.ofPanics (panicCount (w.slots h.wakeupSlot).content.toList),
        w.stored h.wakeupSlot fn (.setWakeup h.raw h.wakeupSlot)) :=
  CallbackSlot.set_apply _ _ _ _

/-- What `clear_wakeup_callback` does: it unregisters, and releases what was there. -/
theorem Handle.clearWakeupCallback_apply (h : Handle) (w : World) :
    h.clearWakeupCallback w =
      (.ofPanics (panicCount (w.slots h.wakeupSlot).content.toList),
        w.tornDown h.wakeupSlot (.clearWakeup h.raw) []) :=
  CallbackSlot.teardown_pure_apply _ _ _

/-- Setting a property makes one call, or none and fails. -/
theorem Handle.setProperty_apply (h : Handle) (name : String) (setOn : Option CInt)
    (w : World) : ∃ r calls, (calls = [] ∨ calls = [.setProperty h.raw]) ∧
      (r = .ok () → calls = [.setProperty h.raw]) ∧
      h.setProperty name setOn w = (.ret r, w.log calls) := by
  unfold Handle.setProperty
  cases cstr name with
  | error e => exact ⟨.error e, [], .inl rfl, nofun, by rw [World.log_nil]; rfl⟩
  | ok n =>
      cases setOn with
      | none => exact ⟨.error .interiorNul, [], .inl rfl, nofun, by rw [World.log_nil]; rfl⟩
      | some code => exact ⟨_, _, .inr rfl, fun _ => rfl, rfl⟩

/-- Dropping an owner: whatever panics on the way, it performs all of its steps. -/
theorem Value.drop_apply (v : Value) (w : World) :
    v.drop w = (.ofPanics (panicCount (v.closures w.slots)), w.dropped v) := by
  have hslot : ∀ (h : Handle) (w : World), (w.slots h.wakeupSlot).content = none →
      h.dropFields w = (.ofPanics 0, w) := fun h w hw => CallbackSlot.drop_apply hw
  have hnone : ∀ (h : Handle) (w : World), (w.slots h.wakeupSlot).content = none →
      h.dropFields w = (.ofPanics (panicCount []), w.log (releases [])) := by
    intro h w hw
    rw [hslot h w hw]
    simp [panicCount, releases, World.log]
  cases v with
  | builder b => exact CallbackSlot.teardown_scope _ _ _ (hnone b.inner) w
  | client c => exact CallbackSlot.teardown_scope _ _ _ (hnone c.inner) w
  | mpv m =>
      refine CallbackSlot.teardown_scope _ _ _ (fun w hw => ?_) w
      have hscope := Unwind.scope_ofPanics (Nat.zero_le 1) (hslot m.inner w hw)
        (dropAll_apply m.protocols w)
      rwa [Nat.zero_add] at hscope

end Rsmpv
