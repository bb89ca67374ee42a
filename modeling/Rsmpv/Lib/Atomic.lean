import Mathlib.Logic.Function.Basic
import Rsmpv.Lib.Trace
import Rsmpv.Lib.Transition

/-!
# Atomic Objects and Histories

A sequential object is a value and what each operation does to it. Processes that share it
call operations that overlap in time; the object is atomic when each of them takes effect at
one moment between its call and its return. The atomic object is itself a transition system
(`Atomic.system`), whose labels are the calls, the moments of effect and the returns of all
processes. An implementation is linearizable when the history of each of its runs is a run of
the atomic object. `Lts.recording` gives a system its history, and `reachable_recording` is the
rule that derives this from single steps: a mapping of states under which every step performs
the events it is recorded with.

## Main results

* `reachable_recording`: the simulation rule.
* `Change.run`: what one process does in a step is a run of the atomic object.
* `results_explained`: every result is explained by a moment between the call and the return
  of its operation.
-/

namespace Lts

variable {σ α ε : Type*}

/-- The system that keeps a history: each step appends its events. -/
def recording (M : Lts σ α) (events : σ → α → σ → List ε) : Lts (σ × List ε) α where
  init s := M.init s.1 ∧ s.2 = []
  step s a s' := M.step s.1 a s'.1 ∧ s'.2 = s.2 ++ events s.1 a s'.1

variable {M : Lts σ α} {events : σ → α → σ → List ε}

/-- A history belongs to a reachable state. -/
theorem Reachable.of_recording {s : σ} {h : List ε}
    (hr : (M.recording events).Reachable (s, h)) : M.Reachable s := by
  refine hr.invariant (I := fun s => M.Reachable s.1) ?_ ?_
  · rintro s ⟨hs, -⟩
    exact .of_init hs
  · rintro s a s' hs ⟨hstep, -⟩
    exact hs.of_step hstep

/-- Every reachable state has a history. -/
theorem Reachable.exists_recording {s : σ} (hr : M.Reachable s) :
    ∃ h, (M.recording events).Reachable (s, h) := by
  refine hr.invariant (I := fun s => ∃ h, (M.recording events).Reachable (s, h)) ?_ ?_
  · intro s hs
    exact ⟨[], .of_init ⟨hs, rfl⟩⟩
  · rintro s a s' ⟨h, hs⟩ hstep
    have hrec : (M.recording events).step (s, h) a (s', h ++ events s a s') := ⟨hstep, rfl⟩
    exact ⟨_, hs.of_step hrec⟩

/-- **The simulation rule.** If every step performs in `A` the events it is recorded with, then
every history is a run of `A`. -/
theorem reachable_recording {τ : Type*} {A : Lts τ ε} {abs : σ → τ}
    (hinit : ∀ s, M.init s → A.init (abs s))
    (hstep : ∀ s a s', M.step s a s' → A.Run (abs s) (events s a s') (abs s'))
    {s : σ} {h : List ε} (hr : (M.recording events).Reachable (s, h)) :
    ∃ s₀, A.init s₀ ∧ A.Run s₀ h (abs s) := by
  refine hr.invariant (I := fun s => ∃ s₀, A.init s₀ ∧ A.Run s₀ s.2 (abs s.1)) ?_ ?_
  · rintro ⟨s, h⟩ ⟨hs, rfl⟩
    exact ⟨abs s, hinit s hs, .nil⟩
  · rintro ⟨s, h⟩ a ⟨s', h'⟩ ⟨s₀, hs₀, hrun⟩ ⟨hst, hh⟩
    obtain rfl : h' = h ++ events s a s' := hh
    exact ⟨s₀, hs₀, hrun.append (hstep s a s' hst)⟩

end Lts

namespace Atomic

/-- A sequential object: what each operation returns, and what it leaves. -/
structure Object (σ Op Ret : Type*) where
  init : σ
  apply : Op → σ → Ret × σ

/-- Where a process is in an operation: called and without effect so far, or with a result. -/
inductive Phase (Op Ret : Type*)
  | idle
  | pending (op : Op)
  | done (r : Ret)

/-- What a process does: call an operation, perform it, return its result. -/
inductive Event (P Op Ret : Type*)
  | invoke (p : P) (op : Op)
  | commit (p : P)
  | respond (p : P) (r : Ret)

/-- The value, and where each process is. -/
structure State (P σ Op Ret : Type*) where
  value : σ
  phase : P → Phase Op Ret

variable {P σ Op Ret : Type*}

/-- The process of an event. -/
def Event.process : Event P Op Ret → P
  | .invoke p _ | .commit p | .respond p _ => p

/-- The events of a process whose phase changes. -/
def Phase.events (p : P) : Phase Op Ret → Phase Op Ret → List (Event P Op Ret)
  | .idle, .pending op => [.invoke p op]
  | .pending _, .done _ => [.commit p]
  | .done r, .idle => [.respond p r]
  | _, _ => []

/-- A process whose phase stays does nothing. -/
theorem Phase.events_self (p : P) (phase : Phase Op Ret) : phase.events p phase = [] := by
  cases phase <;> rfl

variable [DecidableEq P]

/-- One event. The value changes in the moment of effect and at no other time. -/
inductive Step (obj : Object σ Op Ret) :
    State P σ Op Ret → Event P Op Ret → State P σ Op Ret → Prop
  | invoke {v : σ} {phase : P → Phase Op Ret} {p : P} (op : Op) : phase p = .idle →
      Step obj ⟨v, phase⟩ (.invoke p op) ⟨v, Function.update phase p (.pending op)⟩
  | commit {v : σ} {phase : P → Phase Op Ret} {p : P} {op : Op} : phase p = .pending op →
      Step obj ⟨v, phase⟩ (.commit p)
        ⟨(obj.apply op v).2, Function.update phase p (.done (obj.apply op v).1)⟩
  | respond {v : σ} {phase : P → Phase Op Ret} {p : P} {r : Ret} : phase p = .done r →
      Step obj ⟨v, phase⟩ (.respond p r) ⟨v, Function.update phase p .idle⟩

/-- The atomic object, shared by the processes `P`. -/
def system (P : Type*) [DecidableEq P] (obj : Object σ Op Ret) :
    Lts (State P σ Op Ret) (Event P Op Ret) where
  init s := s = ⟨obj.init, fun _ => .idle⟩
  step := Step obj

/-- What one process can do to the value and its own phase. -/
inductive Change (obj : Object σ Op Ret) : σ → Phase Op Ret → σ → Phase Op Ret → Prop
  | keep {v : σ} {phase : Phase Op Ret} : Change obj v phase v phase
  | invoke {v : σ} (op : Op) : Change obj v .idle v (.pending op)
  | commit {v : σ} (op : Op) :
      Change obj v (.pending op) (obj.apply op v).2 (.done (obj.apply op v).1)
  | respond {v : σ} (r : Ret) : Change obj v (.done r) v .idle

/-- A change of one process is a run of the atomic object. -/
theorem Change.run {obj : Object σ Op Ret} {v v' : σ} {phase : P → Phase Op Ret} {p : P}
    {phase' : Phase Op Ret} (h : Change obj v (phase p) v' phase') :
    (system P obj).Run ⟨v, phase⟩ ((phase p).events p phase')
      ⟨v', Function.update phase p phase'⟩ := by
  generalize hp : phase p = before at h ⊢
  cases h with
  | keep =>
      rw [Phase.events_self, ← hp, Function.update_eq_self]
      exact .nil
  | invoke op => exact Lts.Run.nil.snoc (l := []) (Step.invoke op hp)
  | commit op => exact Lts.Run.nil.snoc (l := []) (Step.commit hp)
  | respond r => exact Lts.Run.nil.snoc (l := []) (Step.respond hp)

/-! ### Results -/

/-- The result `r` is what an operation of `p` gave that took effect between its call and the end
of the history. -/
def Explains (obj : Object σ Op Ret) (h : List (Event P Op Ret)) (p : P) (r : Ret) : Prop :=
  ∃ before op during after s, h = before ++ .invoke p op :: (during ++ .commit p :: after) ∧
    (∀ e ∈ during ++ after, e.process ≠ p) ∧
    (system P obj).Run ⟨obj.init, fun _ => .idle⟩ (before ++ .invoke p op :: during) s ∧
    r = (obj.apply op s.value).1

/-- What the history says of a process in a phase. -/
def Phase.Since (obj : Object σ Op Ret) (h : List (Event P Op Ret)) (p : P) :
    Phase Op Ret → Prop
  | .idle => True
  | .pending op => ∃ before during, h = before ++ .invoke p op :: during ∧
      ∀ e ∈ during, e.process ≠ p
  | .done r => Explains obj h p r

/-- An event of another process changes nothing that is said. -/
theorem Phase.Since.snoc {obj : Object σ Op Ret} {h : List (Event P Op Ret)} {p : P}
    {phase : Phase Op Ret} (hs : phase.Since obj h p) {e : Event P Op Ret} (he : e.process ≠ p) :
    phase.Since obj (h ++ [e]) p := by
  have other : ∀ {l : List (Event P Op Ret)}, (∀ e ∈ l, e.process ≠ p) →
      ∀ e' ∈ l ++ [e], e'.process ≠ p := by
    intro l hl e' he'
    rcases List.mem_append.mp he' with h' | h'
    · exact hl e' h'
    · rw [List.mem_singleton.mp h']
      exact he
  cases phase with
  | idle => trivial
  | pending op =>
      obtain ⟨before, during, rfl, hduring⟩ := hs
      exact ⟨before, during ++ [e], by simp, other hduring⟩
  | done r =>
      obtain ⟨before, op, during, after, s, rfl, hduring, hrun, hr⟩ := hs
      refine ⟨before, op, during, after ++ [e], s, by simp, ?_, hrun, hr⟩
      rw [← List.append_assoc]
      exact other hduring

/-- **Every result is explained** by a moment between the call and the return of its
operation. -/
theorem results_explained {obj : Object σ Op Ret} {h : List (Event P Op Ret)}
    {s : State P σ Op Ret} (hrun : (system P obj).Run ⟨obj.init, fun _ => .idle⟩ h s) :
    Trace.Every (fun past e => ∀ p r, e = .respond p r → Explains obj past p r) h := by
  suffices H : (system P obj).Run ⟨obj.init, fun _ => .idle⟩ h s ∧
      (∀ p, (s.phase p).Since obj h p) ∧
      Trace.Every (fun past e => ∀ p r, e = .respond p r → Explains obj past p r) h from H.2.2
  refine hrun.history (I := fun h s => (system P obj).Run ⟨obj.init, fun _ => .idle⟩ h s ∧
      (∀ p, (s.phase p).Since obj h p) ∧
      Trace.Every (fun past e => ∀ p r, e = .respond p r → Explains obj past p r) h)
    ⟨.nil, fun _ => trivial, Trace.every_nil⟩ ?_
  rintro h s e s' ⟨hrun, hsince, hevery⟩ hstep
  have moved : ∀ {p : P} {phase : Phase Op Ret}, e.process = p →
      phase.Since obj (h ++ [e]) p →
        ∀ q, (Function.update s.phase p phase q).Since obj (h ++ [e]) q := by
    intro p phase hp hphase q
    by_cases hq : q = p
    · subst hq
      rwa [Function.update_self]
    · rw [Function.update_of_ne hq]
      exact (hsince q).snoc (by rw [hp]; exact Ne.symm hq)
  refine ⟨hrun.snoc hstep, ?_, Trace.every_snoc.mpr ⟨hevery, ?_⟩⟩
  · cases hstep with
    | @invoke v phase p op hp => exact moved rfl ⟨h, [], rfl, by simp⟩
    | @commit v phase p op hp =>
        refine moved rfl ?_
        have hpending : Phase.Since obj h p (.pending op) := hp ▸ hsince p
        obtain ⟨before, during, rfl, hduring⟩ := hpending
        exact ⟨before, op, during, [], ⟨v, phase⟩, by simp, by simpa using hduring, hrun, rfl⟩
    | @respond v phase p r hp => exact moved rfl trivial
  · rintro q r rfl
    cases hstep with
    | respond hp =>
        have hdone : Phase.Since obj h q (.done r) := hp ▸ hsince q
        exact hdone

end Atomic
