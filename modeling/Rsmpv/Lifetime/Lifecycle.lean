import Rsmpv.Lifetime.Accounts

/-!
# The Life of a Handle

What holds of every run of client code over builders, players and clients: the accounts of
`Accounts` (`ClientCode.handleRun_accounts`), and, as long as no two destructors panic in one
drop, a process that lives on. `handle_lifecycle` reads the life of a handle off them: it
is made by one call and destroyed by one call, the destroy call comes right after its
wakeup callback was unregistered, and what the closures of its owner are released after it.

## Main results

* `HandleEffect.accounts`, `handleRun_accounts`: one operation keeps the accounts, and so
  does a run.
* `HandleEffect.drop_order`: in the drop of an owner the callback is unregistered, taken out
  of its slot and only then is the handle destroyed; the closures are released after it.
* `handleRun_aborted`: a process aborts only after two closures with a panicking destructor
  were handed over.
* `count_destroyed`, `count_released_protocol`: what is destroyed and released, in numbers.
* `handle_lifecycle`: the life of a handle, over every run.
-/

namespace Rsmpv

namespace Accounts

variable {w : World} {values : List Value} {v : Value}

/-- The closures of one value that panic are among all that do. -/
theorem panicCount_le (h : Accounts w (v :: values) []) :
    panicCount (v.closures w.slots) ≤ w.armed.length := by
  have hall := h.closures.nodup
  rw [List.append_nil, heldBy_cons, List.map_append] at hall
  refine panicCount_le_length (List.nodup_append.mp hall).1 fun fn hfn => h.armed fn ?_
  rw [List.append_nil, heldBy_cons]
  exact List.mem_append_left _ hfn

end Accounts

namespace ClientCode

variable {s s' : ClientCode Value} {panics : Bool}

/-! ### One operation -/

/-- **Every operation keeps the accounts.** -/
theorem HandleEffect.accounts (he : HandleEffect s panics s') (h : Accounts s.world s.values []) :
    Accounts s'.world s'.values [] := by
  cases he with
  | idle => exact h
  | called perm plain => exact (h.call plain).perm perm
  | opened raw slot protocols owned => exact h.opening _ raw slot protocols owned
  | built perm =>
      refine ((h.perm perm).call_head ?_).built
      exact .of_handle rfl rfl rfl nofun rfl
  | stored perm => exact ((h.perm perm).stored panics).perm perm.symm
  | cleared perm => exact (h.perm perm).cleared.perm perm.symm
  | registered perm => exact (h.perm perm).register panics
  | rejected perm plain =>
      have hcalls := ((h.perm perm).mint panics).calls plain
      have hrel := hcalls.releaseOne
      rwa [World.log_log] at hrel
  | dropped perm free plain => exact ((h.perm perm).calls plain).dropped free

/-- A process aborts in a drop in which two destructors panic. -/
theorem HandleEffect.aborted (he : HandleEffect s panics s') (h : Accounts s.world s.values [])
    (ha : s'.aborted = true) : 2 ≤ s'.world.armed.length := by
  cases he with
  | dropped perm free plain =>
      have hle := (h.perm perm).panicCount_le
      exact (of_decide_eq_true ha).trans hle
  | _ => cases ha

/-- The closures with a panicking destructor come from the operations that hand one over. -/
theorem HandleEffect.armed (he : HandleEffect s panics s') :
    s'.world.armed.length ≤ s.world.armed.length + if panics then 1 else 0 := by
  have hnew : (s.world.newFn panics).armed.length =
      s.world.armed.length + if panics then 1 else 0 := by
    cases panics <;> rfl
  cases he with
  | stored perm | registered perm | rejected perm plain => exact hnew.le
  | _ => exact Nat.le_add_right _ _

/-- An owner whose handle is no longer owned was dropped: after the last calls on the
handle, its callback is unregistered, taken and released, and its open functions are
released. -/
theorem HandleEffect.drop_order (he : HandleEffect s panics s') {v : Value} (hv : v ∈ s.values)
    (hgone : v.raw ∉ s'.values.map Value.raw) :
    ∃ calls, s'.world.trace = s.world.trace ++ calls ++ v.dropEvents s.world.slots := by
  have hraw : v.raw ∈ s.values.map Value.raw := List.mem_map_of_mem hv
  cases he with
  | idle | stored perm | cleared perm => exact absurd hraw hgone
  | called perm plain => exact absurd ((perm.map _).mem_iff.mp hraw) hgone
  | opened raw slot protocols owned => exact absurd (List.mem_cons_of_mem _ hraw) hgone
  | built perm | registered perm | rejected perm plain =>
      exact absurd ((perm.map _).mem_iff.mp hraw) hgone
  | @dropped u rest calls perm free plain =>
      obtain rfl | hv := List.mem_cons.mp (perm.mem_iff.mp hv)
      · exact ⟨calls, rfl⟩
      · exact absurd (List.mem_map_of_mem hv) hgone

/-- A registration that fails releases the closure it was given. -/
theorem handleStep_registerProtocol_failed {i : ℕ} {protocol : String} {code : CInt} {m : Mpv}
    (h : s.aborted = false) (hm : s.values[i]? = some (.mpv m))
    (hfail : (∃ e, cstr protocol = .error e) ∨ code < 0) :
    (s.handleStep (.registerProtocol i protocol panics code)).world.trace.filterMap Ev.released =
      s.world.trace.filterMap Ev.released ++ [s.world.nextFn] := by
  obtain ⟨calls, plain, heq⟩ := finish_registerProtocol_failed (s := s) m
    (s.values.eraseIdx i) (.mpv m :: s.values.eraseIdx i) panics hfail
  have hcalls : calls.filterMap Ev.released = [] :=
    List.filterMap_eq_nil_iff.mpr fun e he => (plain e he).released
  rw [handleStep]
  rw [if_neg (by simp [h])]
  dsimp only
  rw [hm]
  dsimp only
  rw [heq, World.log_trace, List.filterMap_append, List.filterMap_append, hcalls]
  rfl

/-! ### Runs -/

/-- What holds of every run. -/
theorem handleRun_accounts (ops : List HandleOp) :
    Accounts (handleRun ops).world (handleRun ops).values [] := by
  induction ops using List.reverseRecOn with
  | nil => exact Accounts.init
  | append_singleton ops op ih =>
      rw [handleRun_snoc]
      cases ha : (handleRun ops).aborted with
      | true => rwa [handleStep_of_aborted op ha]
      | false => exact (handleStep_effect op ha).accounts ih

/-- Of the closures made in a run no more have a destructor that panics than were given one. -/
theorem handleRun_armed (ops : List HandleOp) :
    (handleRun ops).world.armed.length ≤ ops.countP HandleOp.panics := by
  induction ops using List.reverseRecOn with
  | nil => exact Nat.le_refl 0
  | append_singleton ops op ih =>
      rw [handleRun_snoc, List.countP_append, List.countP_singleton]
      cases ha : (handleRun ops).aborted with
      | true =>
          rw [handleStep_of_aborted op ha]
          exact ih.trans (Nat.le_add_right _ _)
      | false => exact (handleStep_effect op ha).armed.trans (Nat.add_le_add_right ih _)

/-- A process aborts only after two closures with a panicking destructor were handed
over. -/
theorem handleRun_aborted (ops : List HandleOp) (h : (handleRun ops).aborted = true) :
    2 ≤ (handleRun ops).world.armed.length := by
  induction ops using List.reverseRecOn with
  | nil => cases h
  | append_singleton ops op ih =>
      rw [handleRun_snoc] at h ⊢
      cases ha : (handleRun ops).aborted with
      | true =>
          rw [handleStep_of_aborted op ha]
          exact ih ha
      | false => exact (handleStep_effect op ha).aborted (handleRun_accounts ops) h

end ClientCode

/-! ### The life of a handle -/

namespace Accounts

variable {w : World} {values : List Value}

/-- A handle libmpv made has been destroyed exactly once, unless it is owned. -/
theorem count_destroyed (h : Accounts w values []) {a : ℕ}
    (ha : a ∈ w.trace.filterMap Ev.opened) :
    (w.trace.filterMap Ev.destroyed).count a = if a ∈ values.map Value.raw then 0 else 1 :=
  h.handles.count_spent (h.opened.lt_of_spent ha)

/-- An open function that serves a protocol has been released exactly once when its player
was terminated, and not before. -/
theorem count_released_protocol (h : Accounts w values []) {a fn : ℕ}
    (ha : .addProtocol a fn true ∈ w.trace) :
    (w.trace.filterMap Ev.released).count fn =
      if .terminateDestroy a ∈ w.trace then 1 else 0 := by
  have hcount := h.closures.count_spent (h.registered_lt ha)
  rcases h.registered a fn ha with ⟨m, hm, rfl, hfn⟩ | ⟨ht, hf⟩
  · have howned : m.inner.raw ∉ w.trace.filterMap Ev.destroyed :=
      h.handles.not_spent (List.mem_map_of_mem (f := Value.raw) hm)
    have hopen : .terminateDestroy m.inner.raw ∉ w.trace := fun ht =>
      howned (List.mem_filterMap.mpr ⟨_, ht, rfl⟩)
    obtain ⟨f, hf, rfl⟩ := List.mem_map.mp hfn
    have hheld : f.id ∈ (heldBy Value.slot Value.protocols w.slots values ++ []).map BoxedFn.id :=
      List.mem_map_of_mem (List.mem_append_left _ (mem_heldBy hm hf))
    rw [hcount, if_pos hheld, if_neg hopen]
  · have hreleased : fn ∈ w.trace.filterMap Ev.released := hf.resolve_left nofun
    have hheld : fn ∉
        (heldBy Value.slot Value.protocols w.slots values ++ []).map BoxedFn.id :=
      fun hheld => h.closures.not_spent hheld hreleased
    rw [hcount, if_neg hheld, if_pos ht]

end Accounts

/-- A closure that panics is a wakeup callback or an open function. -/
theorem HandleOp.countP_panics_le (ops : List HandleOp) :
    ops.countP panics ≤ ops.countP wakeupPanics + ops.countP openFnPanics := by
  induction ops with
  | nil => exact Nat.le_refl 0
  | cons op ops ih =>
      have hop : (if op.panics then 1 else 0) ≤
          (if op.wakeupPanics then 1 else 0) + if op.openFnPanics then 1 else 0 := by
        rw [panics]
        cases op.wakeupPanics <;> cases op.openFnPanics <;> decide
      simp only [List.countP_cons]
      omega

/-- A process that aborts although at most one wakeup closure has a panicking destructor
was handed an open function with a panicking one. -/
theorem ClientCode.handleRun_aborted_openFn {ops : List HandleOp}
    (h : ops.countP HandleOp.wakeupPanics ≤ 1) (ha : (handleRun ops).aborted = true) :
    ∃ op ∈ ops, op.openFnPanics = true := by
  have harmed := handleRun_aborted ops ha
  have hle := handleRun_armed ops
  have hsum := HandleOp.countP_panics_le ops
  exact List.countP_pos_iff.mp (by omega)

/-- **The life of a handle.** In every run in which at most one wakeup closure has a
destructor that panics:

* the process does not abort, unless the destructor of an open function panics too;
* every event is lawful: no call on a destroyed handle, the destroy call of the right kind
  directly after the wakeup callback was unregistered and taken out of its slot, the
  clients before their player, closures released once, protocols after the termination;
* every handle libmpv made is made once, and destroyed exactly once unless it is still
  owned;
* when an owner goes, its drop ends the trace: unregister, take, destroy, and only then the
  wakeup closure it still had stored and its open functions are released;
* a closure that serves a protocol is released exactly once when the player terminates;
* a failed registration releases its closure. -/
theorem handle_lifecycle (ops : List HandleOp) (h : ops.countP HandleOp.wakeupPanics ≤ 1) :
    let s := ClientCode.handleRun ops
    let opened := s.world.trace.filterMap Ev.opened
    let destroyed := s.world.trace.filterMap Ev.destroyed
    let released := s.world.trace.filterMap Ev.released
    (s.aborted = true → ∃ op ∈ ops, op.openFnPanics = true) ∧
    Trace.Every Lawful s.world.trace ∧
    opened.Nodup ∧
    (∀ a ∈ opened, destroyed.count a = if a ∈ s.values.map Value.raw then 0 else 1) ∧
    (∀ op, ∀ v ∈ s.values, v.raw ∉ (s.handleStep op).values.map Value.raw →
      ∃ calls, (s.handleStep op).world.trace = s.world.trace ++ calls ++
        ([.clearWakeup v.raw, .take v.slot, v.destroying] ++
          releases ((s.world.slots v.slot).content.toList ++ v.protocols))) ∧
    (s.aborted = false →
      (∀ a fn, .addProtocol a fn true ∈ s.world.trace →
        released.count fn = if .terminateDestroy a ∈ s.world.trace then 1 else 0) ∧
      ∀ i protocol panics code m, s.values[i]? = some (.mpv m) →
        (∃ e, cstr protocol = .error e) ∨ code < 0 →
        (s.handleStep (.registerProtocol i protocol panics code)).world.trace.filterMap
          Ev.released = released ++ [s.world.nextFn]) := by
  have hacc := ClientCode.handleRun_accounts ops
  refine ⟨ClientCode.handleRun_aborted_openFn h, hacc.lawful, hacc.opened.nodup_spent,
    fun a ha => hacc.count_destroyed ha, fun op v hv hgone => ?_, fun halive => ⟨fun a fn ha =>
      hacc.count_released_protocol ha, fun i protocol panics code m hm hfail => ?_⟩⟩
  · cases halive : (ClientCode.handleRun ops).aborted with
    | true =>
        rw [ClientCode.handleStep_of_aborted op halive] at hgone
        exact absurd (List.mem_map_of_mem hv) hgone
    | false => exact (ClientCode.handleStep_effect op halive).drop_order hv hgone
  · exact ClientCode.handleStep_registerProtocol_failed halive hm hfail

/-- A run in which the destructor of a wakeup closure panics while its player is dropped,
with a client and a protocol gone before. -/
theorem handle_lifecycle_panicking :
    let ops : List HandleOp := [.builder true, .setWakeupCallback 0 true, .build 0 0,
      .createClient 0 none true, .registerProtocol 1 "demo" false 0, .drop 1, .drop 0]
    let s := ClientCode.handleRun ops
    ∀ a ∈ s.world.trace.filterMap Ev.opened,
      (s.world.trace.filterMap Ev.destroyed).count a = 1 := by
  intro ops s a ha
  have hvalues : s.values = [] := by decide
  obtain ⟨-, -, -, hdestroyed, -⟩ := handle_lifecycle ops (by decide)
  refine (hdestroyed a ha).trans (if_neg ?_)
  change a ∉ s.values.map Value.raw
  rw [hvalues]
  exact List.not_mem_nil

end Rsmpv
