import Rsmpv.Lifetime.ClientCode
import Rsmpv.Lifetime.Player

/-!
# Client Code over Handles

Client code that holds builders, players and clients, with the operations the types and the
borrows allow. A builder or a player is not moved while a client borrows it.

`handleStep_effect` says once what an operation can do to the world and to the values; the
accounts of the next module are kept along its cases.
-/

namespace Rsmpv

/-- An event that opens, destroys, releases and registers nothing; if it is a call on a
handle, then on one of `owned`. -/
structure PlainEv (e : Ev) (owned : List ℕ) : Prop where
  destroyed : e.destroyed = none
  opened : e.opened = none
  released : e.released = none
  registers : ∀ h fn, e ≠ .addProtocol h fn true
  handle : ∀ h, e.handle = some h → h ∈ owned

/-- A call on one handle is plain for that handle. -/
theorem PlainEv.of_handle {e : Ev} {a : ℕ} (hd : e.destroyed = none) (ho : e.opened = none)
    (hr : e.released = none) (hp : ∀ h fn, e ≠ .addProtocol h fn true)
    (hh : e.handle = some a) : PlainEv e [a] :=
  ⟨hd, ho, hr, hp, fun _ he => List.mem_singleton.mpr (Option.some.inj (he.symm.trans hh))⟩

/-- A plain event is plain for more handles. -/
theorem PlainEv.mono {e : Ev} {owned owned' : List ℕ} (h : PlainEv e owned)
    (hsub : ∀ a ∈ owned, a ∈ owned') : PlainEv e owned' :=
  { h with handle := fun a ha => hsub a (h.handle a ha) }

/-- An operation of the client code on the values it holds, with what libmpv answers. -/
inductive HandleOp
  | builder (ok : Bool)
  | setProperty (i : ℕ) (name : String) (setOn : Option CInt)
  | build (i : ℕ) (code : CInt)
  | createClient (i : ℕ) (name : Option String) (ok : Bool)
  | registerProtocol (i : ℕ) (protocol : String) (panics : Bool) (code : CInt)
  | setWakeupCallback (i : ℕ) (panics : Bool)
  | clearWakeupCallback (i : ℕ)
  | drop (i : ℕ)

/-- The operation hands over a wakeup closure whose destructor panics. -/
def HandleOp.wakeupPanics : HandleOp → Bool
  | setWakeupCallback _ panics => panics
  | _ => false

/-- The operation hands over an open function whose destructor panics. -/
def HandleOp.openFnPanics : HandleOp → Bool
  | registerProtocol _ _ panics _ => panics
  | _ => false

/-- The operation hands over a closure whose destructor panics. -/
def HandleOp.panics (op : HandleOp) : Bool := op.wakeupPanics || op.openFnPanics

namespace ClientCode

/-- A client borrows the value with the handle `h`. -/
def borrowed (s : ClientCode Value) (h : ℕ) : Prop := ∃ c, Value.client c ∈ s.values ∧ c.core = h

instance (s : ClientCode Value) (h : ℕ) : Decidable (s.borrowed h) :=
  decidable_of_iff (s.values.any fun
    | .client c => c.core = h
    | .builder _ | .mpv _ => false) (by
    rw [List.any_eq_true]
    constructor
    · rintro ⟨v, hv, hc⟩
      cases v with
      | client c => exact ⟨c, hv, by simpa using hc⟩
      | builder b | mpv m => cases hc
    · rintro ⟨c, hc, h⟩
      exact ⟨_, hc, by simpa using h⟩)

/-- Move a value out of the list, which the borrow checker refuses while a client borrows
it. -/
def consume (s : ClientCode Value) (i : ℕ) : Option (Value × List Value) :=
  match s.take i with
  | some (v, rest) => if s.borrowed v.raw then none else some (v, rest)
  | none => none

/-- One operation. What the types do not allow has no effect. -/
def handleStep (s : ClientCode Value) (op : HandleOp) : ClientCode Value :=
  if s.aborted then s
  else
    match op with
    | .builder ok =>
      s.finish (Mpv.builder ok) (returned .builder s.values s.values) s.values
    | .setProperty i name setOn =>
      match s.consume i with
      | some (.builder b, rest) =>
        s.finish (b.setProperty name setOn) (returned .builder rest rest) rest
      | _ => s
    | .build i code =>
      match s.consume i with
      | some (.builder b, rest) => s.finish (b.build code) (returned .mpv rest rest) rest
      | _ => s
    | .createClient i name ok =>
      match s.values[i]? with
      | some (.mpv m) =>
        s.finish (m.createClient name ok) (returned .client s.values s.values) s.values
      | _ => s
    | .registerProtocol i protocol panics code =>
      match s.values[i]? with
      | some (.mpv m) =>
        let kept := Value.mpv m :: s.values.eraseIdx i
        s.finish (BoxedFn.new panics >>= fun fn => m.registerProtocol protocol fn code)
          (returned .mpv (s.values.eraseIdx i) kept) kept
      | _ => s
    | .setWakeupCallback i panics =>
      match s.values[i]? with
      | some v =>
        s.finish (BoxedFn.new panics >>= v.inner.setWakeupCallback) (fun _ => s.values)
          s.values
      | none => s
    | .clearWakeupCallback i =>
      match s.values[i]? with
      | some v => s.finish v.inner.clearWakeupCallback (fun _ => s.values) s.values
      | none => s
    | .drop i =>
      match s.consume i with
      | some (v, rest) => s.finish v.drop (fun _ => rest) rest
      | none => s

/-- A run of client code. -/
def handleRun (ops : List HandleOp) : ClientCode Value := ops.foldl handleStep {}

/-- A run with one more operation. -/
theorem handleRun_snoc (ops : List HandleOp) (op : HandleOp) :
    handleRun (ops ++ [op]) = (handleRun ops).handleStep op := by
  simp [handleRun]

variable {s : ClientCode Value}

/-- A value that was moved out, and what is left of the values. -/
theorem consume_eq_some {i : ℕ} {v : Value} {rest : List Value}
    (h : s.consume i = some (v, rest)) :
    s.values.Perm (v :: rest) ∧ ∀ u, Value.client u ∈ rest → u.core ≠ v.raw := by
  rw [consume] at h
  split at h
  next v' rest' htake =>
    split at h
    next => cases h
    next hfree =>
      obtain ⟨rfl, rfl⟩ := Prod.mk.inj (Option.some.inj h)
      obtain ⟨-, perm⟩ := take_eq_some htake
      refine ⟨perm, fun c hc hcore => hfree ?_⟩
      exact ⟨c, perm.mem_iff.mpr (List.mem_cons_of_mem _ hc), hcore⟩
  next => cases h

/-! ### What an operation can do -/

/-- What an operation can do: `panics` is the destructor of the closure it hands over. -/
inductive HandleEffect (s : ClientCode Value) (panics : Bool) : ClientCode Value → Prop
  | idle : HandleEffect s panics ⟨s.world, s.values, s.leaked, false⟩
  | called {e : Ev} {values : List Value} (perm : s.values.Perm values)
      (plain : PlainEv e (s.values.map Value.raw)) :
      HandleEffect s panics ⟨s.world.log [e], values, s.leaked, false⟩
  | opened {v : Value} (raw : v.raw = s.world.nextHandle) (slot : v.slot = s.world.nextSlot)
      (protocols : v.protocols = [])
      (owned : ∀ h, v.opening.handle = some h → h ∈ s.values.map Value.raw) :
      HandleEffect s panics
        ⟨({ s.world with nextHandle := s.world.nextHandle + 1 }.log [v.opening]).newSlot,
          v :: s.values, s.leaked, false⟩
  | built {b : Builder} {rest : List Value} (perm : s.values.Perm (.builder b :: rest)) :
      HandleEffect s panics
        ⟨s.world.log [.mpvInitialize b.inner.raw], .mpv { inner := b.inner } :: rest,
          s.leaked, false⟩
  | stored {v : Value} {rest : List Value} (perm : s.values.Perm (v :: rest)) :
      HandleEffect s panics
        ⟨(s.world.newFn panics).stored v.slot ⟨s.world.nextFn, panics⟩ (.setWakeup v.raw v.slot),
          s.values, s.leaked, false⟩
  | cleared {v : Value} {rest : List Value} (perm : s.values.Perm (v :: rest)) :
      HandleEffect s panics
        ⟨s.world.tornDown v.slot (.clearWakeup v.raw) [], s.values, s.leaked, false⟩
  | registered {m : Mpv} {rest : List Value} (perm : s.values.Perm (.mpv m :: rest)) :
      HandleEffect s panics
        ⟨(s.world.newFn panics).log [.addProtocol m.inner.raw s.world.nextFn true],
          .mpv { m with protocols := m.protocols ++ [⟨s.world.nextFn, panics⟩] } :: rest,
          s.leaked, false⟩
  | rejected {m : Mpv} {rest : List Value} {calls : List Ev}
      (perm : s.values.Perm (.mpv m :: rest))
      (plain : ∀ e ∈ calls, PlainEv e [m.inner.raw]) :
      HandleEffect s panics
        ⟨(s.world.newFn panics).log (calls ++ [.release s.world.nextFn]), .mpv m :: rest,
          s.leaked, false⟩
  | dropped {v : Value} {rest : List Value} {calls : List Ev}
      (perm : s.values.Perm (v :: rest)) (free : ∀ u, Value.client u ∈ rest → u.core ≠ v.raw)
      (plain : ∀ e ∈ calls, PlainEv e [v.raw]) :
      HandleEffect s panics
        ⟨(s.world.log calls).dropped v, rest,
          s.leaked, 2 ≤ panicCount (v.closures s.world.slots)⟩

/-- `Mpv::builder` opens a handle, or fails. -/
theorem effect_builder (ok panics : Bool) :
    HandleEffect s panics
      (s.finish (Mpv.builder ok) (returned .builder s.values s.values) s.values) := by
  cases ok with
  | true => exact .opened (v := .builder ⟨s.world.nextHandle, s.world.nextSlot⟩) rfl rfl rfl nofun
  | false => exact .called (.refl _) ⟨rfl, rfl, rfl, nofun, nofun⟩

/-- `Mpv::create_client` opens a handle on the core of the player, or fails. -/
theorem effect_createClient {m : Mpv} (hm : Value.mpv m ∈ s.values) (name : Option String)
    (ok panics : Bool) :
    HandleEffect s panics
      (s.finish (m.createClient name ok) (returned .client s.values s.values) s.values) := by
  have hraw : ∀ h, some m.inner.raw = some h → h ∈ s.values.map Value.raw := by
    intro h he
    obtain rfl := Option.some.inj he
    exact List.mem_map_of_mem hm
  rw [Mpv.createClient]
  cases name.mapM cstr with
  | error e => exact .idle
  | ok n =>
      cases ok with
      | true =>
          exact .opened
            (v := .client ⟨⟨s.world.nextHandle, s.world.nextSlot⟩, m.inner.raw⟩) rfl rfl rfl hraw
      | false => exact .called (.refl _) ⟨rfl, rfl, rfl, nofun, hraw⟩

/-- A consuming method ends with the drop of its receiver, after some calls. -/
theorem effect_drop {α : Type} {v : Value} {rest : List Value} {calls : List Ev} {a : α}
    {ret : α → List Value} (perm : s.values.Perm (v :: rest))
    (free : ∀ u, Value.client u ∈ rest → u.core ≠ v.raw)
    (plain : ∀ e ∈ calls, PlainEv e [v.raw]) (hret : ret a = rest) (panics : Bool) :
    HandleEffect s panics (({ s with world := s.world.log calls } : ClientCode Value).finish
      (v.drop >>= fun _ => pure a) ret rest) := by
  rw [finish_drop (v.drop_apply _) hret]
  exact .dropped perm free plain

/-- `Builder::set_property` gives the builder back, or drops it when it fails. -/
theorem effect_setProperty {b : Builder} {rest : List Value}
    (perm : s.values.Perm (.builder b :: rest))
    (free : ∀ u, Value.client u ∈ rest → u.core ≠ b.inner.raw) (name : String)
    (setOn : Option CInt) (panics : Bool) :
    HandleEffect s panics
      (s.finish (b.setProperty name setOn) (returned .builder rest rest) rest) := by
  have hplain : PlainEv (.setProperty b.inner.raw) [b.inner.raw] :=
    .of_handle rfl rfl rfl nofun rfl
  rw [Builder.setProperty]
  obtain ⟨r, calls, hcalls, hr, happly⟩ := b.inner.setProperty_apply name setOn s.world
  rw [finish_bind happly]
  cases r with
  | error e =>
      refine effect_drop (v := .builder b) perm free (fun e he => ?_) rfl panics
      rcases hcalls with rfl | rfl
      · cases he
      · obtain rfl := List.mem_singleton.mp he
        exact hplain
  | ok u =>
      obtain rfl := hr rfl
      refine .called perm (hplain.mono fun a ha => ?_)
      obtain rfl := List.mem_singleton.mp ha
      exact List.mem_map_of_mem (perm.mem_iff.mpr List.mem_cons_self)

/-- `Builder::build` makes the builder a player, or drops it when it fails. -/
theorem effect_build {b : Builder} {rest : List Value}
    (perm : s.values.Perm (.builder b :: rest))
    (free : ∀ u, Value.client u ∈ rest → u.core ≠ b.inner.raw) (code : CInt) (panics : Bool) :
    HandleEffect s panics (s.finish (b.build code) (returned .mpv rest rest) rest) := by
  rw [Builder.build, finish_bind (emit_apply _ _)]
  cases check code with
  | ok c => exact .built perm
  | error e =>
      refine effect_drop (v := .builder b) perm free (fun e he => ?_) rfl panics
      obtain rfl := List.mem_singleton.mp he
      exact .of_handle rfl rfl rfl nofun rfl

/-- A registration that fails, before or in the call, releases the closure it was given. -/
theorem finish_registerProtocol_failed (m : Mpv) (rest kept : List Value) {protocol : String}
    {code : CInt} (panics : Bool) (hfail : (∃ e, cstr protocol = .error e) ∨ code < 0) :
    ∃ calls, (∀ e ∈ calls, PlainEv e [m.inner.raw]) ∧
      s.finish (BoxedFn.new panics >>= fun fn => m.registerProtocol protocol fn code)
        (returned .mpv rest kept) kept =
          ⟨(s.world.newFn panics).log (calls ++ [.release s.world.nextFn]), kept,
            s.leaked, false⟩ := by
  have hone : ¬ 2 ≤ panicCount [⟨s.world.nextFn, panics⟩] := by
    have hle : panicCount [⟨s.world.nextFn, panics⟩] ≤ 1 := List.countP_le_length
    omega
  rw [finish_bind (BoxedFn.new_apply _ _)]
  rw [Mpv.registerProtocol]
  cases hname : cstr protocol with
  | error e =>
      refine ⟨[], nofun, ?_⟩
      dsimp only
      rw [finish_drop (BoxedFn.drop_apply _ _), decide_eq_false hone]
      · rfl
      · rfl
  | ok p =>
      have hcode : code < 0 := hfail.resolve_left (by rintro ⟨e, he⟩; cases hname.symm.trans he)
      refine ⟨[.addProtocol m.inner.raw s.world.nextFn false], fun e he => ?_, ?_⟩
      · obtain rfl := List.mem_singleton.mp he
        exact .of_handle rfl rfl rfl nofun rfl
      · dsimp only
        rw [finish_bind (emit_apply _ _), check_of_neg hcode,
          decide_eq_false (Int.not_le.mpr hcode)]
        dsimp only
        rw [finish_drop (BoxedFn.drop_apply _ _), decide_eq_false hone, World.log_log]
        · rfl
        · rfl

/-- `Mpv::register_protocol` keeps the open function, or releases it when it fails. -/
theorem effect_registerProtocol {m : Mpv} {rest : List Value}
    (perm : s.values.Perm (.mpv m :: rest)) (protocol : String) (panics : Bool) (code : CInt) :
    HandleEffect s panics
      (s.finish (BoxedFn.new panics >>= fun fn => m.registerProtocol protocol fn code)
        (returned .mpv rest (.mpv m :: rest)) (.mpv m :: rest)) := by
  by_cases hfail : (∃ e, cstr protocol = .error e) ∨ code < 0
  · obtain ⟨calls, plain, heq⟩ :=
      finish_registerProtocol_failed (s := s) m rest (.mpv m :: rest) panics hfail
    rw [heq]
    exact .rejected perm plain
  · obtain ⟨hname, hcode⟩ := not_or.mp hfail
    have hcode : 0 ≤ code := Int.not_lt.mp hcode
    rw [finish_bind (BoxedFn.new_apply _ _)]
    rw [Mpv.registerProtocol]
    cases hc : cstr protocol with
    | error e => exact absurd ⟨e, hc⟩ hname
    | ok p =>
        dsimp only
        rw [finish_bind (emit_apply _ _), check_of_nonneg hcode, decide_eq_true hcode]
        exact .registered perm

/-- An aborted process does nothing. -/
theorem handleStep_of_aborted (op : HandleOp) (h : s.aborted = true) : s.handleStep op = s := by
  unfold handleStep
  exact if_pos h

/-- **What an operation can do.** -/
theorem handleStep_effect (op : HandleOp) (h : s.aborted = false) :
    HandleEffect s op.panics (s.handleStep op) := by
  have hidle : HandleEffect s op.panics s := by
    have hs : HandleEffect s op.panics ⟨s.world, s.values, s.leaked, false⟩ := .idle
    rwa [← h] at hs
  have hone : ∀ c : Option BoxedFn, decide (2 ≤ panicCount c.toList) = false := by
    intro c
    have hle := panicCount_toList_le_one c
    exact decide_eq_false (by omega)
  unfold handleStep
  rw [if_neg (by simp [h])]
  cases op with
  | builder ok => exact effect_builder ok false
  | setProperty i name setOn =>
      dsimp only
      split
      next b rest hc =>
        obtain ⟨perm, free⟩ := consume_eq_some hc
        exact effect_setProperty perm free name setOn false
      next => exact hidle
  | build i code =>
      dsimp only
      split
      next b rest hc =>
        obtain ⟨perm, free⟩ := consume_eq_some hc
        exact effect_build perm free code false
      next => exact hidle
  | createClient i name ok =>
      dsimp only
      split
      next m hget => exact effect_createClient (List.mem_of_getElem? hget) name ok false
      next => exact hidle
  | registerProtocol i protocol panics code =>
      dsimp only
      split
      next m hget => exact effect_registerProtocol (perm_of_getElem? hget) protocol panics code
      next => exact hidle
  | setWakeupCallback i panics =>
      have hp : (HandleOp.setWakeupCallback i panics).panics = panics := Bool.or_false panics
      rw [hp] at hidle ⊢
      dsimp only
      split
      next v hget =>
        rw [finish_bind (BoxedFn.new_apply _ _),
          finish_ofPanics (Handle.setWakeupCallback_apply _ _ _), hone]
        exact .stored (perm_of_getElem? hget)
      next => exact hidle
  | clearWakeupCallback i =>
      dsimp only
      split
      next v hget =>
        rw [finish_ofPanics (Handle.clearWakeupCallback_apply _ _), hone]
        exact .cleared (perm_of_getElem? hget)
      next => exact hidle
  | drop i =>
      dsimp only
      split
      next v rest hc =>
        obtain ⟨perm, free⟩ := consume_eq_some hc
        rw [finish_ofPanics (v.drop_apply _)]
        have hnone : ∀ e ∈ [], PlainEv e [v.raw] := nofun
        have hdrop : HandleEffect s false _ := .dropped perm free hnone
        rwa [World.log_nil] at hdrop
      next => exact hidle

end ClientCode

end Rsmpv
