import Rsmpv.Event.Poll

/-!
# Polls Return

In libmpv a `poll_event` never waits, and a `wait_event` only while nothing is pending. A caller
for which libmpv has something to say, or to which it has said it already, returns after the steps
it has left (`ReadPc.rest`), whatever the others do. So the event lock is only ever held for a few
steps of its holder, and a `poll_event` that waits for it gets it as soon as the holder has run
(`poll_event_returns`). Nothing is promised of a `wait_event` for which nothing is pending: with a
negative timeout it may wait forever. An event that is posted ends its wait.

## Main results

* `exists_return`: a caller that made its call returns by itself.
* `exists_return_call`: so does one that libmpv answers at once, with the oldest pending
  event.
* `exists_poll`: a poll that finds the lock free returns by itself.
* `poll_event_returns`: the three together, from every reachable state.
-/

namespace Rsmpv

/-- The steps a caller has left. -/
def ReadPc.rest : ReadPc → ℕ
  | .call => 5
  | .header _ => 4
  | .payload _ _ => 3
  | .memory _ _ _ => 2
  | .finish _ _ => 1

section Progress

variable {T : Type*} [DecidableEq T] {v : ℕ} {s s' : HandleState T} {t : T} {r : Reader}
  {p : ReadPc} {i : ℕ}

/-- From `s` to `s'` the `i`-th call returned to `t`, and nothing else was done. -/
structure ReturnedTo (t : T) (r : Reader) (i : ℕ) (s s' : HandleState T) : Prop where
  idle : s'.pc t = .idle
  others : ∀ u, u ≠ t → s'.pc u = s.pc u
  queue : s'.shared.queue = s.shared.queue
  calls : s'.shared.calls = s.shared.calls
  returned : ∃ result, s'.shared.returned i = some (t, result)
  unlocked : r = .pollEvent → s'.shared.eventLock = none

/-- A caller that made its call returns by itself. -/
theorem exists_return (ht : s.pc t = .read r p) (hi : p.index = some i) :
    ∃ s', (handleSystem T v).Run s (List.replicate p.rest t) s' ∧ ReturnedTo t r i s s' := by
  induction hn : p.rest generalizing s p with
  | zero => cases p <;> cases hn
  | succ n ih =>
      -- A read of the cell, after which there is one step less.
      have read : ∀ {p' : ReadPc}, HandleMove v s t s.shared (.read r p') → p'.index = some i →
          p'.rest = n → ∃ s', (handleSystem T v).Run s (List.replicate (n + 1) t) s' ∧
            ReturnedTo t r i s s' := by
        intro p' hmove hindex hrest
        obtain ⟨s', hrun, hreturned⟩ := ih (s := s.move t s.shared (.read r p'))
          (Function.update_self _ _ _) hindex hrest
        refine ⟨s', .cons ⟨_, _, hmove, rfl⟩ hrun, hreturned.idle, fun u hu => ?_,
          hreturned.queue, hreturned.calls, hreturned.returned, hreturned.unlocked⟩
        rw [hreturned.others u hu, Pool.move_pc, Function.update_of_ne hu]
      cases p with
      | call => cases hi
      | header j => exact read (.header ht) hi (Nat.succ.inj hn)
      | payload j header => exact read (.payload ht) hi (Nat.succ.inj hn)
      | memory j header data => exact read (.memory ht) hi (Nat.succ.inj hn)
      | finish j result =>
          obtain rfl := Option.some.inj hi
          obtain rfl := Nat.succ.inj hn
          have returned : (s.shared.record j t result).returned j = some (t, result) :=
            Function.update_self _ _ _
          cases r with
          | pollEvent =>
              refine ⟨_, .cons ⟨_, _, .returnPoll ht, rfl⟩ .nil, Function.update_self _ _ _,
                fun u hu => Function.update_of_ne hu _ _, rfl, rfl, ⟨result, returned⟩,
                fun _ => rfl⟩
          | waitEvent =>
              refine ⟨_, .cons ⟨_, _, .returnWait ht, rfl⟩ .nil, Function.update_self _ _ _,
                fun u hu => Function.update_of_ne hu _ _, rfl, rfl, ⟨result, returned⟩, nofun⟩

/-- A caller that is about to make its call, and that libmpv answers at once, returns by itself,
with the oldest pending event if there is one. -/
theorem exists_return_call (h : (handleSystem T v).Reachable s) (ht : s.pc t = .read r .call)
    (hnow : r = .pollEvent ∨ s.shared.queue ≠ []) :
    ∃ s' i, (handleSystem T v).Run s (List.replicate 5 t) s' ∧ s'.pc t = .idle ∧
      (∀ u, u ≠ t → s'.pc u = s.pc u) ∧ (r = .pollEvent → s'.shared.eventLock = none) ∧
      s'.shared.returned i = some (t, Event.fromRaw v (s.shared.queue.head?.getD .none)) ∧
      s'.shared.queue = s.shared.queue.tail := by
  have hpc : (s.move t (s.shared.waitEvent t) (.read r (.header s.shared.calls.length))).pc t =
      .read r (.header s.shared.calls.length) := Function.update_self _ _ _
  obtain ⟨s', hrun, hreturned⟩ := exists_return (v := v) hpc rfl
  have hrun' : (handleSystem T v).Run s (List.replicate 5 t) s' :=
    .cons ⟨_, _, .call ht hnow, rfl⟩ hrun
  refine ⟨s', s.shared.calls.length, hrun', hreturned.idle, fun u hu => ?_, hreturned.unlocked, ?_,
    hreturned.queue⟩
  · rw [hreturned.others u hu, Pool.move_pc, Function.update_of_ne hu]
  · -- The call is the last one of the record.
    obtain ⟨result, hresult⟩ := hreturned.returned
    obtain ⟨c, hc, heq⟩ := (handle_inv (h.of_run hrun')).results _ _ hresult
    rw [hreturned.calls, Pool.move_shared, HandleShared.waitEvent,
      List.getElem?_concat_length] at hc
    obtain rfl := Option.some.inj hc
    rw [hresult, heq]
    rfl

/-- A caller between its call and its return returns by itself, unless it has to wait. -/
theorem exists_return_read (h : (handleSystem T v).Reachable s) (ht : s.pc t = .read r p)
    (hnow : p = .call → r = .pollEvent ∨ s.shared.queue ≠ []) :
    ∃ s' i result, (handleSystem T v).Run s (List.replicate p.rest t) s' ∧ s'.pc t = .idle ∧
      (∀ u, u ≠ t → s'.pc u = s.pc u) ∧ (r = .pollEvent → s'.shared.eventLock = none) ∧
      s'.shared.returned i = some (t, result) ∧
      (p = .call → result = Event.fromRaw v (s.shared.queue.head?.getD .none)) := by
  have called : ∀ {i}, p.index = some i → ∃ s' i result,
      (handleSystem T v).Run s (List.replicate p.rest t) s' ∧ s'.pc t = .idle ∧
        (∀ u, u ≠ t → s'.pc u = s.pc u) ∧ (r = .pollEvent → s'.shared.eventLock = none) ∧
        s'.shared.returned i = some (t, result) := by
    intro i hi
    obtain ⟨s', hrun, hreturned⟩ := exists_return (v := v) ht hi
    obtain ⟨result, hresult⟩ := hreturned.returned
    exact ⟨s', i, result, hrun, hreturned.idle, hreturned.others, hreturned.unlocked, hresult⟩
  cases p with
  | call =>
      obtain ⟨s', i, hrun, hidle, hothers, hunlocked, hresult, -⟩ :=
        exists_return_call h ht (hnow rfl)
      exact ⟨s', i, _, hrun, hidle, hothers, hunlocked, hresult, fun _ => rfl⟩
  | header _ | payload _ _ | memory _ _ _ | finish _ _ =>
      obtain ⟨s', i, result, hrun, hidle, hothers, hunlocked, hresult⟩ := called rfl
      exact ⟨s', i, result, hrun, hidle, hothers, hunlocked, hresult, nofun⟩

/-- A poll that finds the lock free returns by itself. -/
theorem exists_poll (h : (handleSystem T v).Reachable s) (ht : s.pc t = .lock)
    (hfree : s.shared.eventLock = none) :
    ∃ s' i result, (handleSystem T v).Run s (List.replicate 6 t) s' ∧ s'.pc t = .idle ∧
      (∀ u, u ≠ t → s'.pc u = s.pc u) ∧ s'.shared.returned i = some (t, result) ∧
      (result = some none → s'.shared.queue = []) := by
  have hstep : (handleSystem T v).step s t
      (s.move t { s.shared with eventLock := some t } (.read .pollEvent .call)) :=
    ⟨_, _, .lock ht hfree, rfl⟩
  obtain ⟨s', i, hrun, hidle, hothers, -, hresult, hqueue⟩ :=
    exists_return_call (h.of_step hstep) (Function.update_self _ _ _) (.inl rfl)
  refine ⟨s', i, _, .cons hstep hrun, hidle, fun u hu => ?_, hresult, fun hnone => ?_⟩
  · rw [hothers u hu, Pool.move_pc, Function.update_of_ne hu]
  · rw [Event.fromRaw_eq_some_none_iff] at hnone
    rw [hqueue, Pool.move_shared]
    cases hq : s.shared.queue with
    | nil => rfl
    | cons e queue =>
        -- A posted event is not `MPV_EVENT_NONE`.
        rw [Pool.move_shared, hq] at hnone
        have hposted : e ∈ s.shared.posted := by
          rw [(handle_inv h).fifo, hq]
          exact List.mem_append_right _ List.mem_cons_self
        exact absurd hnone ((handle_inv h).real e hposted)

end Progress

/-- **Every poll returns.** From any state of a handle that any number of threads poll: a
`poll_event` that has the event lock returns after the few steps it has left, running alone, and
so does a `wait_event`, if an event is pending or it has its answer; who has still to call libmpv
returns the oldest pending event. And a `poll_event` that waits for the event lock returns after
the steps of the lock's holder and its own, and returns nothing only if no event is left
pending. -/
theorem poll_event_returns (T : Type*) [DecidableEq T] (v : ℕ) (s : HandleState T)
    (h : (handleSystem T v).Reachable s) :
    (∀ t r p, s.pc t = .read r p → (p = .call → r = .pollEvent ∨ s.shared.queue ≠ []) →
      ∃ s' i result,
        (handleSystem T v).Run s (List.replicate p.rest t) s' ∧ s'.pc t = .idle ∧
        (∀ u, u ≠ t → s'.pc u = s.pc u) ∧ s'.shared.returned i = some (t, result) ∧
        (p = .call → result = Event.fromRaw v (s.shared.queue.head?.getD .none))) ∧
    ∀ t, s.pc t = .lock → ∃ l s' i result,
      (handleSystem T v).Run s l s' ∧ l.length ≤ 11 ∧
      (∀ u ∈ l, u = t ∨ s.shared.eventLock = some u) ∧ s'.pc t = .idle ∧
      (∀ u, u ≠ t → s.shared.eventLock ≠ some u → s'.pc u = s.pc u) ∧
      s'.shared.returned i = some (t, result) ∧ (result = some none → s'.shared.queue = []) := by
  refine ⟨fun t r p ht hnow => ?_, fun t ht => ?_⟩
  · obtain ⟨s', i, result, hrun, hidle, hothers, -, hresult, holdest⟩ :=
      exists_return_read h ht hnow
    exact ⟨s', i, result, hrun, hidle, hothers, hresult, holdest⟩
  · cases hlock : s.shared.eventLock with
    | none =>
        obtain ⟨s', i, result, hrun, hidle, hothers, hresult, hempty⟩ := exists_poll h ht hlock
        refine ⟨_, s', i, result, hrun, by simp, fun u hu => .inl (List.eq_of_mem_replicate hu),
          hidle, fun u hu _ => hothers u hu, hresult, hempty⟩
    | some holder =>
        obtain ⟨p, hholder⟩ := ((handle_inv h).locked holder).mp hlock
        have hne : t ≠ holder := by
          rintro rfl
          rw [ht] at hholder
          cases hholder
        -- The holder is in `poll_event`, so it does not wait.
        obtain ⟨s₁, -, -, hrun₁, -, hothers₁, hunlocked, -⟩ :=
          exists_return_read h hholder fun _ => .inl rfl
        have ht₁ : s₁.pc t = .lock := (hothers₁ t hne).trans ht
        obtain ⟨s', i, result, hrun, hidle, hothers, hresult, hempty⟩ :=
          exists_poll (h.of_run hrun₁) ht₁ (hunlocked rfl)
        have hrest : p.rest ≤ 5 := by cases p <;> simp [ReadPc.rest]
        refine ⟨_, s', i, result, hrun₁.append hrun, ?_, fun u hu => ?_, hidle,
          fun u hu hnot => ?_, hresult, hempty⟩
        · rw [List.length_append, List.length_replicate, List.length_replicate]
          omega
        · rcases List.mem_append.mp hu with hu | hu
          · exact .inr (by rw [List.eq_of_mem_replicate hu])
          · exact .inl (List.eq_of_mem_replicate hu)
        · rw [hothers u hu, hothers₁ u fun heq => hnot (by rw [heq])]

/-- A thread that waits for another one's poll returns after it. -/
theorem poll_event_returns_waiting : ∃ (s s' : HandleState (Fin 2)) (i : ℕ)
    (result : Option (Option Event)), (handleSystem (Fin 2) 0).Reachable s ∧
      s.pc 1 = .lock ∧ s.shared.eventLock = some 0 ∧ s'.pc 1 = .idle ∧
      s'.shared.returned i = some (1, result) := by
  have start := Lts.Reachable.of_init (M := handleSystem (Fin 2) 0) rfl
  have first := start.of_step (a := 0) ⟨_, _, .beginPoll rfl fun u p => by simp, rfl⟩
  have second := first.of_step (a := 1) ⟨_, _, .beginPoll rfl fun u p => by
    simp only [Pool.move_pc, Function.update_apply]
    split <;> simp, rfl⟩
  have locked := second.of_step (a := 0) ⟨_, _, .lock rfl rfl, rfl⟩
  obtain ⟨l, s', i, result, -, -, -, hidle, -, hresult, -⟩ :=
    (poll_event_returns (Fin 2) 0 _ locked).2 1 rfl
  exact ⟨_, s', i, result, locked, rfl, rfl, hidle, hresult⟩

end Rsmpv
