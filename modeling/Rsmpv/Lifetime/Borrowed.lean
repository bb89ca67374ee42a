import Rsmpv.Lifetime.RenderCode

/-!
# Borrowed Render Contexts

Runs over a player and render contexts that borrow it. The borrow keeps the player in its
place while a context is alive, so a player that is dropped has no context left but the
leaked ones: `mem::forget` ends the borrow and runs no destructor. The player is therefore
terminated last in exactly those runs in which it is not dropped after a context was leaked
(`borrowed_contexts_freed_iff`).
-/

namespace Rsmpv

namespace ClientCode

variable {k : CoreRef} {s : ClientCode RenderValue} {op : RenderOp}

/-- The operation drops the player, which no context borrows. -/
def dropsPlayer (s : ClientCode RenderValue) (op : RenderOp) : Prop :=
  s.aborted = false ∧ contextsOf s.values = [] ∧
    ∃ i, op = .drop i ∧ s.values[i]? = some .core

/-- The operation leaks a context. -/
def forgetsContext (s : ClientCode RenderValue) (op : RenderOp) : Prop :=
  s.aborted = false ∧ ∃ i r, op = .forget i ∧ s.values[i]? = some (.context r)

/-! ### The leaked contexts -/

/-- To forget a context leaks it. -/
theorem leaked_forget {i : ℕ} {r : RenderInner} (halive : s.aborted = false)
    (hget : s.values[i]? = some (.context r)) :
    (s.renderStep k (.forget i)).leaked = .context r :: s.leaked := by
  simp [renderStep, consumeValue, take, halive, hget]

/-- A context is leaked by the operations that leak one, and by no others. -/
theorem leaked_step (h : RenderAccounts newPlayer s.world s.owned []) :
    contextsOf (s.renderStep k op).leaked = [] ↔
      contextsOf s.leaked = [] ∧ ¬ s.forgetsContext op := by
  by_cases hf : s.forgetsContext op
  · obtain ⟨halive, i, r, rfl, hget⟩ := hf
    rw [leaked_forget halive hget]
    refine iff_of_false (List.cons_ne_nil r _) fun hn => hn.2 ?_
    exact ⟨halive, i, r, rfl, hget⟩
  · rw [and_iff_left hf]
    cases halive : s.aborted with
    | true => rw [renderStep_of_aborted op halive]
    | false =>
        have he := renderStep_effect (k := k) op halive h
        generalize hs' : s.renderStep k op = s' at he
        cases he with
        | @forgot i v rest get perm =>
            cases v with
            | core => rfl
            | context r => exact absurd ⟨halive, i, r, rfl, get⟩ hf
        | _ => rfl

/-- No context is leaked exactly when no operation forgets one. -/
theorem leaked_run (ops : List RenderOp) :
    contextsOf (renderRun k ops).leaked = [] ↔
      Trace.Every (fun before op => ¬ (renderRun k before).forgetsContext op) ops := by
  induction ops using List.reverseRecOn with
  | nil => exact iff_of_true rfl Trace.every_nil
  | append_singleton ops op ih =>
      rw [renderRun_snoc, Trace.every_snoc, ← ih]
      exact leaked_step (renderRun_accounts ops)

/-! ### The termination of the player -/

/-- The drop of a player that no context borrows. -/
theorem trace_dropsPlayer (h : RenderAccounts newPlayer s.world s.owned [])
    (hd : s.dropsPlayer op) :
    (s.renderStep .borrow op).world.trace =
      ((s.world.trace ++ [.clearWakeup 0]) ++ [.take 0]) ++ [.terminateDestroy 0] := by
  obtain ⟨halive, hfree, i, rfl, hget⟩ := hd
  have hrest : contextsOf (s.values.eraseIdx i) = [] := by
    have hperm := (perm_of_getElem? hget).filterMap RenderValue.inner
    exact List.nil_perm.mp ((List.Perm.of_eq hfree.symm).trans hperm)
  have hconsume : s.consumeValue .borrow i = some (.core, s.values.eraseIdx i) := by
    simp [consumeValue, take, hget, hrest]
  have hstep : s.renderStep .borrow (.drop i) =
      ⟨s.world.dropped (.mpv newPlayer), s.values.eraseIdx i, s.leaked, false⟩ := by
    unfold renderStep
    rw [if_neg (by simp [halive])]
    dsimp only
    rw [hconsume]
    exact finish_ret (CoreRef.dropCore_apply .borrow h)
  have hevents : (Value.mpv newPlayer).dropEvents s.world.slots =
      [.clearWakeup 0, .take 0, .terminateDestroy 0] := by
    rw [Value.dropEvents, h.player]
    rfl
  rw [hstep]
  change s.world.trace ++ (Value.mpv newPlayer).dropEvents s.world.slots = _
  simp [hevents]

/-- The other operations destroy nothing. -/
theorem trace_not_dropsPlayer (h : RenderAccounts newPlayer s.world s.owned [])
    (hd : ¬ s.dropsPlayer op) :
    Trace.Every TerminatedLast (s.renderStep .borrow op).world.trace ↔
      Trace.Every TerminatedLast s.world.trace := by
  cases halive : s.aborted with
  | true => rw [renderStep_of_aborted op halive]
  | false =>
      have he := renderStep_effect (k := .borrow) op halive h
      generalize hs' : s.renderStep .borrow op = s' at he
      cases he with
      | idle | moved perm => rfl
      | cloned shared held => cases shared
      | @called op c rest e perm plain lives =>
          exact TerminatedLast.every_append fun e' he' => List.mem_singleton.mp he' ▸ lives
      | @created i gpa code null kept taken =>
          change Trace.Every _ ((s.world.newGetProcAddress gpa).trace ++ _) ↔ _
          rw [World.newGetProcAddress_trace]
          exact TerminatedLast.every_append (by simp [Ev.destroyed])
      | @failed i gpa code null kept taken =>
          change Trace.Every _ ((s.world.newGetProcAddress gpa).trace ++ _) ↔ _
          rw [World.newGetProcAddress_trace]
          exact TerminatedLast.every_append_releases (by simp [Ev.destroyed])
      | @null i gpa code null kept taken =>
          change Trace.Every _ ((s.world.newGetProcAddress gpa).trace ++ _) ↔ _
          rw [World.newGetProcAddress_trace]
          exact TerminatedLast.every_append (by simp [Ev.destroyed])
      | @stored i panics c rest perm =>
          exact TerminatedLast.every_append_releases (l := [_, _]) (by simp [Ev.destroyed])
      | @cleared op c rest perm =>
          exact TerminatedLast.every_append_releases (l := [_, _] ++ []) (by simp [Ev.destroyed])
      | @contextDropped op c rest perm | @contextAborted op c rest perm two =>
          exact TerminatedLast.every_append_releases (l := [_, _, _]) (by simp [Ev.destroyed])
      | @coreDropped i rest get perm free =>
          have hperm := perm.filterMap RenderValue.inner
          have hnil : contextsOf s.values = [] := by
            refine hperm.trans ?_ |>.eq_nil
            exact .of_eq (free rfl)
          exact absurd ⟨halive, hnil, i, rfl, get⟩ hd
      | forgot get perm => rfl

/-- **What an operation does to the order**: the drop of the player keeps it when no context
was leaked, and every other operation keeps it. -/
theorem terminatedLast_step (h : RenderAccounts newPlayer s.world s.owned []) :
    Trace.Every TerminatedLast (s.renderStep .borrow op).world.trace ↔
      Trace.Every TerminatedLast s.world.trace ∧
        (s.dropsPlayer op → contextsOf s.leaked = []) := by
  by_cases hd : s.dropsPlayer op
  · have howned : s.owned = contextsOf s.leaked := by
      rw [owned, contextsOf, List.filterMap_append]
      exact congrArg (· ++ contextsOf s.leaked) hd.2.1
    rw [howned] at h
    rw [trace_dropsPlayer (howned ▸ h) hd, Trace.every_snoc, Trace.every_snoc,
      Trace.every_snoc]
    constructor
    · rintro ⟨⟨⟨hlast, -⟩, -⟩, hend⟩
      refine ⟨hlast, fun _ => List.eq_nil_iff_forall_not_mem.mpr fun c hc => ?_⟩
      obtain ⟨⟨a, gpa, hcreated⟩, hopen⟩ := h.created_not_freed hc
      have hfreed := hend 0 rfl a gpa c.raw (by simp [hcreated])
      exact hopen (by simpa using hfreed)
    · rintro ⟨hlast, hnone⟩
      refine ⟨⟨⟨hlast, .of_lives rfl⟩, .of_lives rfl⟩, fun _ _ a gpa r hr => ?_⟩
      have hr : Ev.createContext a gpa (.context r) ∈ s.world.trace := by simpa using hr
      rw [hnone hd] at h
      simpa using h.all_freed hr
  · rw [trace_not_dropsPlayer h hd]
    exact (and_iff_left fun hd' => absurd hd' hd).symm

end ClientCode

/-- **When borrowed contexts are freed before their player terminates.** In a run over a
player and contexts that borrow it, every context that was made has been freed whenever the
player is terminated, if and only if no operation drops the player after one that leaked a
context. -/
theorem borrowed_contexts_freed_iff (ops : List RenderOp) :
    Trace.Every TerminatedLast (ClientCode.renderRun .borrow ops).world.trace ↔
      Trace.Every (fun before op => (ClientCode.renderRun .borrow before).dropsPlayer op →
        Trace.Every (fun earlier op' =>
          ¬ (ClientCode.renderRun .borrow earlier).forgetsContext op') before) ops := by
  induction ops using List.reverseRecOn with
  | nil =>
      have hplayer : Trace.Every TerminatedLast ([] ++ [.create (some 0), .mpvInitialize 0]) :=
        (TerminatedLast.every_append (by simp [Ev.destroyed])).mpr Trace.every_nil
      exact iff_of_true hplayer Trace.every_nil
  | append_singleton ops op ih =>
      rw [ClientCode.renderRun_snoc, Trace.every_snoc, ← ih, ← ClientCode.leaked_run]
      exact ClientCode.terminatedLast_step (ClientCode.renderRun_accounts ops)

/-- A context is leaked, and then its player dropped. -/
theorem borrowed_context_not_freed : ¬ Trace.Every TerminatedLast
    (ClientCode.renderRun .borrow [.create 0 none 0 false, .forget 0, .drop 0]).world.trace := by
  intro h
  have hfreed := h [.create (some 0), .mpvInitialize 0, .createContext 0 none (.context 0),
    .clearWakeup 0, .take 0] (.terminateDestroy 0) [] rfl 0 rfl 0 none 0 (by decide)
  exact absurd hfreed (by decide)

end Rsmpv
