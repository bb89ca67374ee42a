import Rsmpv.Lifetime.RenderCode

/-!
# Owned Render Contexts

Runs over an `Arc` of the player, its clones, and render contexts that own one. Every value
the client code holds and every value it leaked stands for one strong reference
(`Counted.strong`), so the player is terminated by the drop of the last one, and at that
time no context is left that was not freed (`Termination`). A leaked context keeps its
reference, and the player with it.

## Main results

* `RenderEffect.counted`, `renderRun_counted`: every operation keeps the strong count, and
  so does a run.
* `Counted.lives`: the player lives on while a value is leaked.
* `count_released_failed`: the closure of a creation that failed has been released exactly
  once.
* `renderRun_aborted`: a process aborts only after two closures with a panicking destructor
  were handed over.
* `owned_contexts_ordered`: the life of an owned context, over every run.
-/

namespace Rsmpv

/-- The operation hands over a closure whose destructor panics. -/
def RenderOp.panics (op : RenderOp) : Bool := op.updatePanics || op.loaderPanics

/-- The player is terminated once, when its strong count reaches zero, and last. -/
structure Termination (w : World) : Prop where
  destroyed : w.trace.filterMap Ev.destroyed = if w.strong = 0 then [0] else []
  last : Trace.Every TerminatedLast w.trace

namespace Termination

variable {w w' : World}

/-- Events that destroy nothing. -/
theorem grow (h : Termination w) (l : List Ev) (htrace : w'.trace = w.trace ++ l)
    (hl : ∀ e ∈ l, e.destroyed = none) (hstrong : w'.strong = w.strong) : Termination w' where
  destroyed := by
    rw [htrace, List.filterMap_append, List.filterMap_eq_nil_iff.mpr hl, List.append_nil,
      hstrong]
    exact h.destroyed
  last := by
    rw [htrace]
    exact (TerminatedLast.every_append hl).mpr h.last

/-- The `Arc` of a player that lives is cloned. -/
theorem clone (h : Termination w) (hstrong : w.strong ≠ 0) :
    Termination { w with strong := w.strong + 1 } where
  destroyed := by
    have hnone := h.destroyed
    rw [if_neg hstrong] at hnone
    exact hnone
  last := h.last

/-- A trace that grows by the releases of closures, after some other events. -/
theorem grow_releases (h : Termination w) (l : List Ev) (fns : List BoxedFn)
    (htrace : w'.trace = w.trace ++ (l ++ releases fns))
    (hl : ∀ e ∈ l, e.destroyed = none) (hstrong : w'.strong = w.strong) : Termination w' := by
  refine h.grow _ htrace (fun e he => ?_) hstrong
  rcases List.mem_append.mp he with he | he
  · exact hl e he
  · exact destroyed_of_mem_releases he

/-- The last `Arc` is dropped when all contexts are freed. -/
theorem arcDropped (h : Termination w) (hplayer : (Value.mpv newPlayer).closures w.slots = [])
    (hstrong : w.strong ≠ 0) (hfreed : w.strong = 1 →
      ∀ b gpa r, .createContext b gpa (.context r) ∈ w.trace → .freeContext r ∈ w.trace) :
    Termination (w.arcDropped newPlayer) := by
  rw [World.arcDropped]
  have hnone := h.destroyed
  rw [if_neg hstrong] at hnone
  split
  next hone =>
    have htrace : (({ w with strong := w.strong - 1 } : World).dropped (.mpv newPlayer)).trace =
        ((w.trace ++ [.clearWakeup 0]) ++ [.take 0]) ++ [.terminateDestroy 0] := by
      have hevents : (Value.mpv newPlayer).dropEvents w.slots =
          [.clearWakeup 0, .take 0, .terminateDestroy 0] := by
        rw [Value.dropEvents, hplayer]
        rfl
      change w.trace ++ (Value.mpv newPlayer).dropEvents w.slots = _
      rw [hevents]
      simp
    have hzero : (({ w with strong := w.strong - 1 } : World).dropped
        (.mpv newPlayer)).strong = 0 := Nat.sub_eq_zero_of_le hone.le
    exact {
      destroyed := by
        rw [htrace, hzero, Trace.filterMap_snoc_some (f := Ev.destroyed) rfl,
          Trace.filterMap_snoc_none rfl, Trace.filterMap_snoc_none rfl, hnone]
        rfl
      last := by
        rw [htrace]
        refine Trace.every_snoc.mpr ⟨Trace.every_snoc.mpr ⟨Trace.every_snoc.mpr
          ⟨h.last, .of_lives rfl⟩, .of_lives rfl⟩, fun a _ b gpa r hr => ?_⟩
        have hr : Ev.createContext b gpa (.context r) ∈ w.trace := by simpa using hr
        simpa using hfreed hone b gpa r hr }
  next hmany =>
    exact {
      destroyed := by
        have hne : w.strong - 1 ≠ 0 := by omega
        change w.trace.filterMap Ev.destroyed = if w.strong - 1 = 0 then [0] else []
        rw [if_neg hne, hnone]
      last := h.last }

end Termination

/-- The strong count is the number of values that stand for a reference; a context whose
drop aborted the process has kept its own. -/
structure Counted (s : ClientCode RenderValue) : Prop where
  strong : s.world.strong =
    s.values.length + s.leaked.length + if s.aborted then 1 else 0
  termination : Termination s.world

/-- A reference is dropped that no remaining value stands for. -/
theorem Counted.refDropped {w : World} {kept leaked : List RenderValue}
    (h : Termination w) (hstrong : w.strong = kept.length + 1 + leaked.length)
    (hacc : RenderAccounts newPlayer w (contextsOf (kept ++ leaked)) []) :
    Counted ⟨w.arcDropped newPlayer, kept, leaked, false⟩ where
  strong := by
    have harc : (w.arcDropped newPlayer).strong = w.strong - 1 := by
      rw [World.arcDropped]
      split <;> rfl
    change (w.arcDropped newPlayer).strong = kept.length + leaked.length + 0
    omega
  termination := by
    refine h.arcDropped hacc.player (by omega) fun hone b gpa r hr => ?_
    obtain rfl : kept = [] := List.length_eq_zero_iff.mp (by omega)
    obtain rfl : leaked = [] := List.length_eq_zero_iff.mp (by omega)
    exact hacc.all_freed hr

namespace ClientCode

variable {k : CoreRef} {s s' : ClientCode RenderValue}

/-- Every operation keeps the count. -/
theorem RenderEffect.counted {op : RenderOp} (he : RenderEffect .arc s op s')
    (halive : s.aborted = false) (hacc : RenderAccounts newPlayer s.world s.owned [])
    (h : Counted s) : Counted s' := by
  have hterm := h.termination
  have hstrong := h.strong
  simp only [halive, Bool.false_eq_true, if_false, Nat.add_zero] at hstrong
  have htaken : ∀ gpa {kept}, s.values.Perm (.core :: kept) →
      (s.world.newGetProcAddress gpa).strong = kept.length + 1 + s.leaked.length := by
    intro gpa kept taken
    rw [World.newGetProcAddress_strong, hstrong, taken.length_eq, List.length_cons]
  cases he with
  | idle => exact ⟨hstrong, hterm⟩
  | moved perm => exact ⟨by rw [hstrong, perm.length_eq]; rfl, hterm⟩
  | cloned shared held =>
      have hlength := List.length_pos_iff.mpr held
      exact ⟨by simp only [List.length_cons, hstrong]; simp; omega, hterm.clone (by omega)⟩
  | @called op c rest e perm plain lives =>
      refine ⟨hstrong, hterm.grow [e] rfl (fun e' he' => ?_) rfl⟩
      exact List.mem_singleton.mp he' ▸ lives
  | @created i gpa code null kept taken =>
      refine ⟨htaken gpa taken, hterm.grow [_] (congrArg (· ++ [_])
        (World.newGetProcAddress_trace gpa)) (fun e he => ?_)
        (World.newGetProcAddress_strong gpa)⟩
      rw [List.mem_singleton.mp he]
      rfl
  | @failed i gpa code null kept taken =>
      refine Counted.refDropped (hterm.grow_releases [_] (s.world.getProcAddress gpa).toList
        (congrArg (· ++ _) (World.newGetProcAddress_trace gpa)) (fun e he => ?_)
        (World.newGetProcAddress_strong gpa)) (htaken gpa taken)
        ((hacc.perm (owned_taken taken)).creationFailed gpa)
      rw [List.mem_singleton.mp he]
      rfl
  | @null i gpa code null kept taken =>
      refine Counted.refDropped (hterm.grow [_]
        (congrArg (· ++ _) (World.newGetProcAddress_trace gpa)) (fun e he => ?_)
        (World.newGetProcAddress_strong gpa)) (htaken gpa taken)
        ((hacc.perm (owned_taken taken)).creationNull gpa)
      rw [List.mem_singleton.mp he]
      rfl
  | @stored i panics c rest perm =>
      exact ⟨hstrong, hterm.grow_releases [_, _] _ rfl (by simp [Ev.destroyed]) rfl⟩
  | @cleared op c rest perm =>
      exact ⟨hstrong, hterm.grow_releases ([_, _] ++ []) _ rfl (by simp [Ev.destroyed]) rfl⟩
  | @contextDropped op c rest perm =>
      have hlength := perm.length_eq
      refine Counted.refDropped (hterm.grow_releases [_, _, _] _ rfl (by simp [Ev.destroyed])
        rfl) ?_ (hacc.perm (owned_perm perm)).dropped
      change s.world.strong = _
      rw [hstrong, hlength]
      rfl
  | @contextAborted op c rest perm two =>
      have hlength := perm.length_eq
      refine ⟨?_, hterm.grow_releases [_, _, _] _ rfl (by simp [Ev.destroyed]) rfl⟩
      change s.world.strong = rest.length + s.leaked.length + 1
      rw [List.length_cons] at hlength
      omega
  | @coreDropped i rest get perm free =>
      have hlength := perm.length_eq
      refine Counted.refDropped hterm ?_ (hacc.perm (owned_perm_core perm))
      rw [hstrong, hlength]
      rfl
  | @forgot i v rest get perm =>
      have hlength := perm.length_eq
      refine ⟨?_, hterm⟩
      change s.world.strong = rest.length + (s.leaked.length + 1) + 0
      rw [List.length_cons] at hlength
      omega

/-- A process aborts in a drop in which two destructors panic. -/
theorem RenderEffect.aborted {op : RenderOp} (he : RenderEffect k s op s')
    (h : RenderAccounts newPlayer s.world s.owned []) (ha : s'.aborted = true) :
    2 ≤ s'.world.armed.length := by
  cases he with
  | contextAborted perm two => exact two.trans (h.perm (owned_perm perm)).panicCount_le
  | _ => cases ha

/-- The closures with a panicking destructor come from the operations that hand one over. -/
theorem RenderEffect.armed {op : RenderOp} (he : RenderEffect .arc s op s') :
    s'.world.armed.length ≤ s.world.armed.length + if op.panics then 1 else 0 := by
  have hcreate : ∀ i gpa code null, (s.world.newGetProcAddress gpa).armed.length =
      s.world.armed.length + if (RenderOp.create i gpa code null).panics then 1 else 0 := by
    intro i gpa code null
    match gpa with
    | none | some false | some true => rfl
  cases he with
  | @created i gpa code null kept taken => exact (hcreate i gpa code null).le
  | @failed i gpa code null kept taken =>
      change (World.arcDropped _ newPlayer).armed.length ≤ _
      rw [World.arcDropped_armed]
      exact (hcreate i gpa code null).le
  | @null i gpa code null kept taken =>
      change (World.arcDropped _ newPlayer).armed.length ≤ _
      rw [World.arcDropped_armed]
      exact (hcreate i gpa code null).le
  | @stored i panics c rest perm => cases panics <;> exact Nat.le_refl _
  | contextDropped perm | coreDropped get perm free =>
      change (World.arcDropped _ newPlayer).armed.length ≤ _
      rw [World.arcDropped_armed]
      exact Nat.le_add_right _ _
  | _ => exact Nat.le_add_right _ _

/-! ### Runs -/

/-- The strong count is right after every run. -/
theorem renderRun_counted (ops : List RenderOp) : Counted (renderRun .arc ops) := by
  induction ops using List.reverseRecOn with
  | nil =>
      refine ⟨rfl, rfl, ?_⟩
      have hcreate : Trace.Every TerminatedLast ([] ++ [.create (some 0)]) :=
        Trace.every_snoc.mpr ⟨Trace.every_nil, .of_lives rfl⟩
      exact Trace.every_snoc.mpr ⟨hcreate, .of_lives rfl⟩
  | append_singleton ops op ih =>
      rw [renderRun_snoc]
      cases ha : (renderRun .arc ops).aborted with
      | true => rwa [renderStep_of_aborted op ha]
      | false =>
          have hacc := renderRun_accounts (k := .arc) ops
          exact (renderStep_effect op ha hacc).counted ha hacc ih

/-- Of the closures made in a run no more have a destructor that panics than were given one. -/
theorem renderRun_armed (ops : List RenderOp) :
    (renderRun .arc ops).world.armed.length ≤ ops.countP RenderOp.panics := by
  induction ops using List.reverseRecOn with
  | nil => exact Nat.le_refl 0
  | append_singleton ops op ih =>
      rw [renderRun_snoc, List.countP_append, List.countP_singleton]
      cases ha : (renderRun .arc ops).aborted with
      | true =>
          rw [renderStep_of_aborted op ha]
          exact ih.trans (Nat.le_add_right _ _)
      | false =>
          have he := renderStep_effect (k := .arc) op ha (renderRun_accounts ops)
          exact he.armed.trans (Nat.add_le_add_right ih _)

/-- A process aborts only after two closures with a panicking destructor were handed
over. -/
theorem renderRun_aborted (ops : List RenderOp) (h : (renderRun k ops).aborted = true) :
    2 ≤ (renderRun k ops).world.armed.length := by
  induction ops using List.reverseRecOn with
  | nil => cases h
  | append_singleton ops op ih =>
      rw [renderRun_snoc] at h ⊢
      cases ha : (renderRun k ops).aborted with
      | true =>
          rw [renderStep_of_aborted op ha]
          exact ih ha
      | false =>
          have hacc := renderRun_accounts (k := k) ops
          exact (renderStep_effect op ha hacc).aborted hacc h

end ClientCode

/-! ### The life of a context -/

namespace RenderAccounts

variable {m : Mpv} {w : World} {contexts : List RenderInner}

/-- The closure of a failed creation has been released exactly once. -/
theorem count_released_failed (h : RenderAccounts m w contexts []) {a fn : ℕ}
    (ha : .createContext a (some fn) .failed ∈ w.trace) :
    (w.trace.filterMap Ev.released).count fn = 1 := by
  have hreleased : fn ∈ w.trace.filterMap Ev.released := (h.failed a fn ha).resolve_left nofun
  rw [h.closures.count_spent (h.closures.lt_of_spent hreleased)]
  exact if_neg fun hheld => h.closures.not_spent hheld hreleased

/-- The closure of a creation without a context is not released. -/
theorem not_released_null (h : RenderAccounts m w contexts []) {a fn : ℕ}
    (ha : .createContext a (some fn) .null ∈ w.trace) : .release fn ∉ w.trace := by
  intro hr
  have hforgotten : fn ∈ w.trace.filterMap Ev.forgotten := List.mem_filterMap.mpr ⟨_, ha, rfl⟩
  exact h.closures.not_spent (List.mem_append_right _ hforgotten)
    (List.mem_filterMap.mpr ⟨_, hr, rfl⟩)

end RenderAccounts

/-- The player lives on while a value is leaked. -/
theorem Counted.lives {s : ClientCode RenderValue} (h : Counted s) {v : RenderValue}
    (hv : v ∈ s.leaked) (a : ℕ) : .terminateDestroy a ∉ s.world.trace := by
  intro ha
  have hpos := List.length_pos_of_mem hv
  have hstrong : s.world.strong ≠ 0 := by
    rw [h.strong]
    omega
  have hnone := h.termination.destroyed
  rw [if_neg hstrong] at hnone
  have hmem : a ∈ s.world.trace.filterMap Ev.destroyed := List.mem_filterMap.mpr ⟨_, ha, rfl⟩
  rw [hnone] at hmem
  cases hmem

/-- A closure that panics is an update callback or a `get_proc_address`. -/
theorem RenderOp.countP_panics_le (ops : List RenderOp) :
    ops.countP panics ≤ ops.countP updatePanics + ops.countP loaderPanics := by
  induction ops with
  | nil => exact Nat.le_refl 0
  | cons op ops ih =>
      have hop : (if op.panics then 1 else 0) ≤
          (if op.updatePanics then 1 else 0) + if op.loaderPanics then 1 else 0 := by
        rw [panics]
        cases op.updatePanics <;> cases op.loaderPanics <;> decide
      simp only [List.countP_cons]
      omega

/-- A process that aborts although at most one update closure has a panicking destructor
was handed a `get_proc_address` with a panicking one. -/
theorem ClientCode.renderRun_aborted_loader {ops : List RenderOp}
    (h : ops.countP RenderOp.updatePanics ≤ 1) (ha : (renderRun .arc ops).aborted = true) :
    ∃ op ∈ ops, op.loaderPanics = true := by
  have harmed := renderRun_aborted ops ha
  have hle := renderRun_armed ops
  have hsum := RenderOp.countP_panics_le ops
  exact List.countP_pos_iff.mp (by omega)

/-- **The life of an owned context.** In every run in which at most one update closure has a
destructor that panics:

* the process does not abort, unless the destructor of a `get_proc_address` panics too;
* the player is terminated at most once, and when it is, every context made on it has been
  freed;
* every event is lawful: no call on a freed context; a context freed directly after its
  update callback was unregistered and taken out of its slot; closures released once, those
  of a context after it was freed;
* a context is freed at most once;
* a failed creation has released its `get_proc_address` exactly once, and one that succeeded
  without a context does not release it;
* a player with a leaked context is not terminated. -/
theorem owned_contexts_ordered (ops : List RenderOp)
    (h : ops.countP RenderOp.updatePanics ≤ 1) :
    let s := ClientCode.renderRun .arc ops
    (s.aborted = true → ∃ op ∈ ops, op.loaderPanics = true) ∧
    (s.world.trace.filterMap Ev.destroyed).length ≤ 1 ∧
    Trace.Every TerminatedLast s.world.trace ∧
    Trace.Every RenderLawful s.world.trace ∧
    (s.world.trace.filterMap Ev.contextFreed).Nodup ∧
    (∀ a fn, .createContext a (some fn) .failed ∈ s.world.trace →
      (s.world.trace.filterMap Ev.released).count fn = 1) ∧
    (∀ a fn, .createContext a (some fn) .null ∈ s.world.trace →
      .release fn ∉ s.world.trace) ∧
    ∀ r, .context r ∈ s.leaked → ∀ a, .terminateDestroy a ∉ s.world.trace := by
  have hacc := ClientCode.renderRun_accounts (k := .arc) ops
  have hcounted := ClientCode.renderRun_counted ops
  refine ⟨ClientCode.renderRun_aborted_loader h, ?_, hcounted.termination.last, hacc.lawful,
    hacc.freed.nodup_spent, fun a fn ha => hacc.count_released_failed ha,
    fun a fn ha => hacc.not_released_null ha, fun r hr => hcounted.lives hr⟩
  rw [hcounted.termination.destroyed]
  split <;> simp

/-- A run over two contexts, the first with a closure that panics while it is dropped, after
the client code has dropped its own `Arc`. -/
theorem owned_contexts_ordered_panicking :
    let ops : List RenderOp := [.clone 0, .clone 0, .create 0 (some false) 0 false,
      .setUpdateCallback 0 true, .create 1 none 0 false, .drop 2, .drop 1, .drop 0]
    let s := ClientCode.renderRun .arc ops
    .terminateDestroy 0 ∈ s.world.trace ∧ Trace.Every TerminatedLast s.world.trace := by
  intro ops s
  obtain ⟨-, -, hlast, -⟩ := owned_contexts_ordered ops (by decide)
  exact ⟨by decide, hlast⟩

end Rsmpv
