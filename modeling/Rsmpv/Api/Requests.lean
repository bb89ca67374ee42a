import Rsmpv.Api.Calls
import Rsmpv.Event.Contract

/-!
# Asynchronous Requests and Their Replies

`get_property_async`, `set_property_async` and the asynchronous commands return when libmpv has
accepted a request; the result comes later, as an event with the caller's userdata, to whoever
polls the handle then. The system is put together from the two that are there: the calls
(`Rsmpv.Api.Calls`) and the event queue of one handle (`Rsmpv.Event.Poll`), run by the same
threads. libmpv accepts or refuses each request, and answers each one that it accepted with one
event of its kind and userdata, when it likes; other events it posts at any time.

A `Ticket` is what a request and its reply have in common. `async_replies` is the balance of
each ticket in every reachable state: the requests that returned successfully or are being
returned are the replies that were delivered, are being read, are queued, or are still owed.

## Main results

* `env_eq`, `count_env`: what libmpv has accepted is what the calls that were made say.
* `HandleInv.count_posted`: a reply that was posted is delivered, being read or queued.
* `AsyncInv.step`, `async_inv`: one step of the two systems keeps the balance, and so does a
  run.
* `async_replies`: every accepted request is answered at most once, and no reply is lost.
-/

namespace Rsmpv

/-! ### Tickets -/

/-- The kinds of asynchronous requests. -/
inductive AsyncKind
  | getProperty
  | setProperty
  | command
  deriving DecidableEq

/-- What a request and its reply have in common. -/
structure Ticket where
  kind : AsyncKind
  userdata : UInt64
  deriving DecidableEq

/-- The requests among the functions of libmpv. -/
def MpvFn.ticket : MpvFn → Option Ticket
  | getPropertyAsync userdata _ => some ⟨.getProperty, userdata⟩
  | setPropertyAsync userdata _ => some ⟨.setProperty, userdata⟩
  | commandAsync userdata | commandNodeAsync userdata => some ⟨.command, userdata⟩
  | _ => none

/-- The replies among the raw events. -/
def RawEvent.ticket (e : RawEvent) : Option Ticket :=
  match e.header.eventId with
  | mpvEventGetPropertyReply => some ⟨.getProperty, e.header.replyUserdata⟩
  | mpvEventSetPropertyReply => some ⟨.setProperty, e.header.replyUserdata⟩
  | mpvEventCommandReply => some ⟨.command, e.header.replyUserdata⟩
  | _ => Option.none

/-- The replies among the events. -/
def Event.ticket : Event → Option Ticket
  | getPropertyReply userdata _ => some ⟨.getProperty, userdata⟩
  | setPropertyReply userdata _ => some ⟨.setProperty, userdata⟩
  | commandReply userdata _ => some ⟨.command, userdata⟩
  | _ => none

/-- The ticket survives the decoder. -/
theorem Event.Faithful.ticket {v : ℕ} {raw : RawEvent} {ev : Event} (h : ev.Faithful v raw) :
    ev.ticket = raw.ticket := by
  have other : ∀ {id : CInt}, raw.header.eventId = id → id ≠ mpvEventGetPropertyReply →
      id ≠ mpvEventSetPropertyReply → id ≠ mpvEventCommandReply → none = raw.ticket := by
    rintro id rfl hget hset hcommand
    rw [RawEvent.ticket]
    split <;> simp_all
  cases ev with
  | getPropertyReply userdata result | setPropertyReply userdata result
  | commandReply userdata result =>
      obtain ⟨hid, rfl, -⟩ := h
      rw [RawEvent.ticket, hid]
      rfl
  | unknown eventId =>
      obtain ⟨rfl, hunknown⟩ := h
      simp only [knownEvents, payloadEvents, List.mem_append, List.mem_cons, List.not_mem_nil,
        not_or] at hunknown
      exact other rfl (by tauto) (by tauto) (by tauto)
  | shutdown | fileLoaded | videoReconfig | audioReconfig | seek | playbackRestart
  | queueOverflow => exact other h (by decide) (by decide) (by decide)
  | logMessage _ | startFile _ | endFile _ _ _ _ _ | clientMessage _ | propertyChange _ _ _
  | hook _ _ _ => exact other h.1 (by decide) (by decide) (by decide)

/-- A reply is an event. -/
theorem RawEvent.ne_none_of_ticket {e : RawEvent} {k : Ticket} (h : e.ticket = some k) :
    e.header.eventId ≠ mpvEventNone := by
  intro hnone
  rw [RawEvent.ticket, hnone] at h
  cases h

/-! ### The system -/

/-- The request that an exchange gets accepted by the handle at the address `handle`. -/
def accepted (handle : ℕ) (x : Request × Answer) : List Ticket :=
  if x.1.handle = handle ∧ 0 ≤ x.2.code then x.1.fn.ticket.toList else []

/-- A libmpv that answers within the C headers, with the requests it has accepted. -/
def asyncMpv (handle : ℕ) : Lts (List Ticket) (Request × Answer) where
  init acc := acc = []
  step acc x acc' := Answers x.1.fn x.2 ∧ acc' = acc ++ accepted handle x

/-- The calls, the event queue of the handle, and the requests that libmpv has replied to. -/
structure AsyncState (T : Type) where
  calls : CallState T (List Ticket)
  handle : HandleState T
  answered : List Ticket

/-- One step of thread `t`: of a call, of a poll, or of a thread of libmpv. -/
inductive AsyncStep {T : Type} [DecidableEq T] (v handle : ℕ) :
    AsyncState T → T → AsyncState T → Prop
  | call {s : AsyncState T} {t : T} {c : CallState T (List Ticket)} : s.handle.pc t = .idle →
      (callSystem T (asyncMpv handle)).step s.calls t c →
      AsyncStep v handle s t { s with calls := c }
  | poll {s : AsyncState T} {t : T} {h : HandleState T} : s.calls.pc t = .idle →
      (handleSystem T v).step s.handle t h → h.shared.posted = s.handle.shared.posted →
      AsyncStep v handle s t { s with handle := h }
  /-- libmpv replies to a request that it accepted. -/
  | reply {s : AsyncState T} {t : T} {e : RawEvent} {k : Ticket} : s.calls.pc t = .idle →
      s.handle.pc t = .idle → e.Contract v → e.ticket = some k →
      s.answered.count k < s.calls.shared.env.count k →
      AsyncStep v handle s t { s with
        handle := s.handle.move t (s.handle.shared.post e) .idle
        answered := s.answered ++ [k] }
  | other {s : AsyncState T} {t : T} {e : RawEvent} : s.calls.pc t = .idle →
      s.handle.pc t = .idle → e.Contract v → e.ticket = none →
      e.header.eventId ≠ mpvEventNone →
      AsyncStep v handle s t { s with
        handle := s.handle.move t (s.handle.shared.post e) .idle }

/-- The handle at the address `handle`, of a libmpv with client API `v`. -/
def asyncSystem (T : Type) [DecidableEq T] (v handle : ℕ) : Lts (AsyncState T) T where
  init s := (callSystem T (asyncMpv handle)).init s.calls ∧ (handleSystem T v).init s.handle ∧
    s.answered = []
  step := AsyncStep v handle

/-! ### What the calls add up to -/

/-- An asynchronous request returned successfully. -/
def ApiCall.succeeded : (c : ApiCall) → c.Result → Bool
  | getPropertyAsync _ _ _, r | setPropertyAsync _ _ _, r | commandAsync _ _, r
  | commandNodeAsync _ _, r => Except.isOk r
  | _, _ => false

/-- A call whose argument was refused did not succeed. -/
theorem ApiCall.succeeded_refusal (c : ApiCall) (e : Error) :
    c.succeeded (c.refusal e) = false := by
  cases c <;> rfl

/-- A request succeeds when libmpv accepts it. -/
theorem ApiCall.succeeded_iff {c : ApiCall} {a : Answer} {r : c.Result} {k : Ticket}
    (hr : c.Reports a r) (hk : c.fn.ticket = some k) : c.succeeded r = true ↔ 0 ≤ a.code := by
  have status : ∀ {x : Except Error Unit}, Api.Reports (fun _ v => v = ()) a x →
      (Except.isOk x = true ↔ 0 ≤ a.code) := by
    intro x hx
    cases hx with
    | failed hneg => exact ⟨nofun, fun hok => absurd hok (Int.not_le.mpr hneg)⟩
    | ok hok _ => exact ⟨fun _ => hok, fun _ => rfl⟩
  cases c with
  | getPropertyAsync _ _ _ | setPropertyAsync _ _ _ | commandAsync _ _ | commandNodeAsync _ _ =>
      exact status hr
  | setProperty name value => cases value <;> cases hk
  | _ => cases hk

/-- How often a request of ticket `k` was accepted in some exchanges. -/
def acceptedIn (handle : ℕ) (k : Ticket) (l : Exchanges) : ℕ :=
  (l.map fun x => (accepted handle x).count k).sum

/-- A call that is done has one request accepted if it was one and succeeded, and none
otherwise. -/
theorem ApiCall.Ends.acceptedIn {h : Handle} {c : ApiCall} {r : c.Result} {l : Exchanges}
    (hends : ApiCall.Ends h c r l) (handle : ℕ) (k : Ticket) :
    acceptedIn handle k l =
      if h.raw = handle ∧ c.fn.ticket = some k ∧ c.succeeded r = true then 1 else 0 := by
  obtain ⟨e, -, rfl, rfl⟩ | ⟨a, -, -, hreports, rfl⟩ := hends.elim
  · rw [c.succeeded_refusal]
    simp [Rsmpv.acceptedIn]
  · simp only [Rsmpv.acceptedIn, List.map_cons, List.map_nil, List.sum_cons, List.sum_nil,
      Nat.add_zero, accepted]
    by_cases hk : c.fn.ticket = some k
    · simp only [ApiCall.succeeded_iff hreports hk, hk]
      by_cases hcond : h.raw = handle ∧ 0 ≤ a.code <;> simp [hcond]
    · have hzero : c.fn.ticket.toList.count k = 0 := by
        rw [List.count_eq_zero, Option.mem_toList]
        exact hk
      by_cases hcond : h.raw = handle ∧ 0 ≤ a.code <;> simp [hcond, hk, hzero]

/-- A sum of zeros and ones counts. -/
theorem sum_eq_countP {α : Type} {p : α → Bool} {g : α → ℕ} {l : List α}
    (h : ∀ x ∈ l, g x = if p x then 1 else 0) : (l.map g).sum = l.countP p := by
  induction l with
  | nil => rfl
  | cons x l ih =>
      rw [List.map_cons, List.sum_cons, List.countP_cons, h x List.mem_cons_self,
        ih fun y hy => h y (List.mem_cons_of_mem x hy), Nat.add_comm]

section Calls

variable {T : Type} [DecidableEq T] {handle : ℕ} {c : CallState T (List Ticket)}

/-- The libmpv of the requests answers within the C headers. -/
theorem asyncMpv_answers (handle : ℕ) (e : List Ticket) (req : Request) (a : Answer)
    (e' : List Ticket) (h : (asyncMpv handle).step e (req, a) e') : Answers req.fn a := h.1

/-- libmpv has accepted what the exchanges say. -/
theorem env_eq (h : (callSystem T (asyncMpv handle)).Reachable c) :
    c.shared.env = (c.shared.exchanges.map Prod.snd).flatMap (accepted handle) := by
  obtain ⟨e, rfl, hrun⟩ := Ownership.exchanges_run h
  refine hrun.history (I := fun l acc => acc = l.flatMap (accepted handle)) rfl ?_
  rintro l acc x acc' rfl ⟨-, rfl⟩
  simp

/-- What libmpv has accepted only grows. -/
theorem env_grows {t : T} {c' : CallState T (List Ticket)}
    (h : (callSystem T (asyncMpv handle)).step c t c') (k : Ticket) :
    c.shared.env.count k ≤ c'.shared.env.count k := by
  obtain ⟨sh, p, hmove, rfl⟩ := h
  cases hmove with
  | ask _ _ hstep _ _ =>
      obtain ⟨-, henv⟩ := hstep
      rw [Pool.move_shared, henv, List.count_append]
      exact Nat.le_add_right _ _
  | _ => exact Nat.le_refl _

/-- The requests of ticket `k` on the handle that returned successfully. -/
def requested (handle : ℕ) (k : Ticket) (c : CallState T (List Ticket)) : ℕ :=
  c.shared.done.countP fun d =>
    d.job.1.raw = handle ∧ d.job.2.fn.ticket = some k ∧ d.job.2.succeeded d.result = true

/-- What libmpv has accepted was requested, or its call is about to return. -/
theorem count_env [Fintype T] (h : (callSystem T (asyncMpv handle)).Reachable c) (k : Ticket) :
    c.shared.env.count k =
      requested handle k c + ∑ u, acceptedIn handle k (c.pc u).log := by
  have hsound := calls_sound (asyncMpv_answers handle) h
  rw [env_eq h, List.count_flatMap, List.map_map]
  refine (hsound.sum_exchanges fun x => (accepted handle x).count k).trans ?_
  refine congrArg (· + ∑ u, acceptedIn handle k (c.pc u).log) (sum_eq_countP fun d hd => ?_)
  have hends : ApiCall.Ends d.job.1 d.job.2 d.result d.log := hsound.done d hd
  simp only [decide_eq_true_eq]
  exact hends.acceptedIn handle k

end Calls

/-! ### Where the replies are -/

/-- The ticket of the reply that a call of `mpv_wait_event` dequeued. -/
def EventCall.ticket {T : Type} (c : EventCall T) : Option Ticket :=
  c.dequeued.bind RawEvent.ticket

namespace HandleShared

variable {T : Type}

/-- The ticket of the reply that the `i`-th call returned. -/
def replyOf (sh : HandleShared T) (i : ℕ) : Option Ticket :=
  match sh.returned i with
  | some (_, some (some ev)) => ev.ticket
  | _ => none

/-- The replies of ticket `k` that were returned from `poll_event` or `wait_event`. -/
def delivered (k : Ticket) (sh : HandleShared T) : ℕ :=
  sh.calls.zipIdx.countP fun c => sh.replyOf c.2 = some k

/-- The replies of ticket `k` that a caller has dequeued, but not returned. -/
def beingRead (k : Ticket) (sh : HandleShared T) : ℕ :=
  sh.calls.zipIdx.countP fun c => c.1.ticket = some k ∧ (sh.returned c.2).isNone

/-- The replies of ticket `k` that are in the queue. -/
def queued (k : Ticket) (sh : HandleShared T) : ℕ :=
  sh.queue.countP fun e => e.ticket = some k

end HandleShared

section Handle

variable {T : Type} {v : ℕ} {s : HandleState T} {i : ℕ} {c : EventCall T}

/-- A call returns the reply it dequeued. -/
theorem HandleInv.replyOf_eq (h : HandleInv v s)
    (hposted : ∀ e ∈ s.shared.posted, e.Contract v) (hc : s.shared.calls[i]? = some c) :
    s.shared.replyOf i = if (s.shared.returned i).isNone then none else c.ticket := by
  rcases hret : s.shared.returned i with _ | ⟨t, r⟩
  · simp [HandleShared.replyOf, hret]
  · obtain ⟨c', hc', -, hresult⟩ := h.returned_faithful hposted hret
    obtain rfl : c' = c := Option.some.inj (hc'.symm.trans hc)
    obtain ⟨hnone, rfl⟩ | ⟨e, ev, he, rfl, hfaithful⟩ := hresult
    · simp [HandleShared.replyOf, hret, EventCall.ticket, hnone]
    · simp [HandleShared.replyOf, hret, EventCall.ticket, he, hfaithful.ticket]

/-- A caller that has dequeued a reply and not returned it is not idle. -/
theorem HandleInv.beingRead_eq_zero (h : HandleInv v s) (hidle : ∀ u, s.pc u = .idle)
    (k : Ticket) : s.shared.beingRead k = 0 := by
  rw [HandleShared.beingRead, List.countP_eq_zero]
  rintro ⟨c, i⟩ hmem hread
  rw [List.mk_mem_zipIdx_iff_getElem?] at hmem
  have hlt := (List.getElem?_eq_some_iff.mp hmem).1
  rw [decide_eq_true_eq, Option.isNone_iff_eq_none] at hread
  obtain ⟨t, r, p, ht, -⟩ := h.pending i hlt hread.2
  rw [hidle t] at ht
  cases ht

/-- Every reply that was posted is delivered, being read or queued. -/
theorem HandleInv.count_posted (h : HandleInv v s)
    (hposted : ∀ e ∈ s.shared.posted, e.Contract v) (k : Ticket) :
    s.shared.posted.countP (fun e => e.ticket = some k) =
      s.shared.delivered k + s.shared.beingRead k + s.shared.queued k := by
  have hcalls : (s.shared.calls.filterMap (·.dequeued)).countP (fun e => e.ticket = some k) =
      s.shared.calls.zipIdx.countP fun c => c.1.ticket = some k := by
    rw [List.countP_filterMap, ← List.zipIdx_map_fst 0 s.shared.calls, List.countP_map,
      List.zipIdx_map_fst]
    refine List.countP_congr fun c _ => ?_
    rcases hd : c.1.dequeued with _ | e <;> simp [EventCall.ticket, hd]
  have hreturned : s.shared.delivered k = s.shared.calls.zipIdx.countP fun c =>
      (c.1.ticket = some k) && !(s.shared.returned c.2).isNone := by
    refine List.countP_congr ?_
    rintro ⟨c, i⟩ hmem
    rw [List.mk_mem_zipIdx_iff_getElem?] at hmem
    simp only [h.replyOf_eq hposted hmem]
    cases s.shared.returned i <;> simp
  rw [h.fifo, List.countP_append, hcalls,
    List.countP_eq_countP_filter_add _ _ fun c => !(s.shared.returned c.2).isNone,
    List.countP_filter, List.countP_filter, hreturned]
  simp only [HandleShared.beingRead, HandleShared.queued, Bool.not_not, Bool.decide_and,
    Bool.decide_eq_true]

end Handle

/-! ### The invariant -/

section System

variable {T : Type} [DecidableEq T] {v handle : ℕ} {s : AsyncState T}

/-- The two systems run side by side, and libmpv owes what it has accepted and not answered. -/
structure AsyncInv (v handle : ℕ) (s : AsyncState T) : Prop where
  calls : (callSystem T (asyncMpv handle)).Reachable s.calls
  handle : (handleSystem T v).Reachable s.handle
  posted : ∀ e ∈ s.handle.shared.posted, e.Contract v
  answered : s.answered = s.handle.shared.posted.filterMap RawEvent.ticket
  owed : ∀ k, s.answered.count k ≤ s.calls.shared.env.count k

/-- libmpv posts an event. -/
theorem AsyncInv.post (h : AsyncInv v handle s) {t : T} {e : RawEvent}
    (hidle : s.handle.pc t = .idle) (he : e.Contract v) (hne : e.header.eventId ≠ mpvEventNone)
    (howed : ∀ k, (s.answered ++ e.ticket.toList).count k ≤ s.calls.shared.env.count k) :
    AsyncInv v handle { s with
      handle := s.handle.move t (s.handle.shared.post e) .idle
      answered := s.answered ++ e.ticket.toList } where
  calls := h.calls
  handle := h.handle.of_step ⟨_, _, .post e hidle hne, rfl⟩
  posted e' he' := by
    rcases List.mem_append.mp he' with hold | hnew
    · exact h.posted e' hold
    · rw [List.mem_singleton.mp hnew]
      exact he
  answered := by
    rw [h.answered, Pool.move_shared, HandleShared.post, List.filterMap_append]
    cases hk : e.ticket <;> simp [hk]
  owed := howed

/-- The step lemma. -/
theorem AsyncInv.step (h : AsyncInv v handle s) {t : T} {s' : AsyncState T}
    (hstep : AsyncStep v handle s t s') : AsyncInv v handle s' := by
  cases hstep with
  | call hidle hstep =>
      refine ⟨h.calls.of_step hstep, h.handle, h.posted, h.answered, fun k => ?_⟩
      exact (h.owed k).trans (env_grows hstep k)
  | poll hidle hstep hposted =>
      refine ⟨h.calls, h.handle.of_step hstep, ?_, ?_, h.owed⟩
      · rw [hposted]
        exact h.posted
      · rw [hposted]
        exact h.answered
  | @reply e k hcalls hidle he hk hlt =>
      have hpost := h.post hidle he (RawEvent.ne_none_of_ticket hk) fun k' => by
        rw [hk, Option.toList_some, List.count_append, List.count_singleton]
        have hold := h.owed k'
        by_cases hkk : k = k'
        · subst hkk
          simp only [BEq.rfl, if_true]
          omega
        · simp [hkk, hold]
      rw [hk] at hpost
      exact hpost
  | other hcalls hidle he hk hne =>
      have hpost := h.post hidle he hne fun k' => by
        rw [hk, Option.toList_none, List.append_nil]
        exact h.owed k'
      rw [hk, Option.toList_none, List.append_nil] at hpost
      exact hpost

/-- The run lemma. -/
theorem async_inv (h : (asyncSystem T v handle).Reachable s) : AsyncInv v handle s := by
  refine h.invariant ?_ fun s t s' hs hstep => hs.step hstep
  rintro s ⟨hcalls, hhandle, hanswered⟩
  have hnone : s.handle.shared.posted = [] := by
    have hinit : s.handle = ⟨{}, fun _ => .idle⟩ := hhandle
    rw [hinit]
  refine ⟨.of_init hcalls, .of_init hhandle, ?_, ?_, fun k => ?_⟩
  · simp [hnone]
  · rw [hanswered, hnone]
    rfl
  · rw [hanswered]
    exact Nat.zero_le _

/-- The replies of ticket `k` that libmpv still owes. -/
def owed (k : Ticket) (s : AsyncState T) : ℕ := s.calls.shared.env.count k - s.answered.count k

/-! ### The result -/

/-- **Every accepted request is answered at most once, and no reply is lost.** Whatever requests
any threads make, however libmpv accepts, refuses and answers them, and whoever polls the handle:
in every reachable state, the requests of one ticket that returned successfully or are about to
are the replies to it that were delivered, are being read, are queued, or are owed. So when
nothing is in progress, queued or owed, there were as many replies as requests. -/
theorem async_replies [Fintype T] (h : (asyncSystem T v handle).Reachable s) (k : Ticket) :
    (s.answered.count k ≤ s.calls.shared.env.count k ∧
      requested handle k s.calls + ∑ u, acceptedIn handle k (s.calls.pc u).log =
        s.handle.shared.delivered k + s.handle.shared.beingRead k + s.handle.shared.queued k +
          owed k s) ∧
    ((∀ u, s.calls.pc u = .idle) → (∀ u, s.handle.pc u = .idle) → s.handle.shared.queue = [] →
      owed k s = 0 → requested handle k s.calls = s.handle.shared.delivered k) := by
  have hs := async_inv h
  have hinv := handle_inv hs.handle
  have hanswered : s.answered.count k =
      s.handle.shared.posted.countP fun e => e.ticket = some k := by
    rw [hs.answered, List.count_eq_countP, List.countP_filterMap]
    refine List.countP_congr fun e _ => ?_
    rcases e.ticket with _ | k' <;> simp
  have hbalance : requested handle k s.calls + ∑ u, acceptedIn handle k (s.calls.pc u).log =
      s.handle.shared.delivered k + s.handle.shared.beingRead k + s.handle.shared.queued k +
        owed k s := by
    have hle := hs.owed k
    have henv := count_env hs.calls k
    have hposted := hinv.count_posted hs.posted k
    rw [owed]
    omega
  refine ⟨⟨hs.owed k, hbalance⟩, fun hcalls hhandle hqueue howed => ?_⟩
  have hlog : ∑ u, acceptedIn handle k (s.calls.pc u).log = 0 := by
    refine Finset.sum_eq_zero fun u _ => ?_
    rw [hcalls u]
    rfl
  have hread := hinv.beingRead_eq_zero hhandle k
  have hqueued : s.handle.shared.queued k = 0 := by rw [HandleShared.queued, hqueue]; rfl
  omega

end System

/-- A property was requested by a call that returned, and the reply was polled afterwards. -/
theorem async_replies_once : ∃ s : AsyncState Unit, (asyncSystem Unit 0 1).Reachable s ∧
    requested 1 ⟨.getProperty, 7⟩ s.calls = 1 ∧
    s.handle.shared.delivered ⟨.getProperty, 7⟩ = 1 := by
  have start : (asyncSystem Unit 0 1).Reachable
      ⟨⟨⟨.empty, [], [], []⟩, fun _ => .idle⟩, ⟨{}, fun _ => .idle⟩, []⟩ :=
    .of_init ⟨⟨rfl, rfl, rfl, rfl, fun _ => rfl⟩, rfl, rfl⟩
  -- The request.
  have accepts : (asyncMpv 1).step []
      (⟨1, .getPropertyAsync 7 mpvFormatString, .text [0x76, 0x6F]⟩, ⟨0, .nothing⟩)
      [⟨.getProperty, 7⟩] := ⟨.status rfl (by decide), rfl⟩
  have hands : mpvInterface.conveys ⟨0, .nothing⟩ ⟨0, .nothing⟩ .empty := .nothing .nothing
  have begun := start.of_step (a := ()) (.call rfl
    ⟨_, _, .start (⟨1, 0⟩, .getPropertyAsync .string 7 "vo") rfl, rfl⟩)
  have named := begun.of_step (a := ()) (.call rfl ⟨_, _, .alloc (p := 0) rfl rfl, rfl⟩)
  have asked := named.of_step (a := ()) (.call rfl
    ⟨_, _, .ask rfl rfl accepts hands (Ownership.Heap.apart_empty _), rfl⟩)
  have freed := asked.of_step (a := ()) (.call rfl ⟨_, _, .free rfl rfl trivial, rfl⟩)
  have returned := freed.of_step (a := ()) (.call rfl ⟨_, _, .finish rfl, rfl⟩)
  -- The reply.
  have replied := returned.of_step (a := ()) (.reply
    (e := ⟨⟨mpvEventGetPropertyReply, mpvErrorPropertyNotFound, 7⟩, none, {}⟩) rfl rfl
    (.failedReply (.inl rfl) (by decide)) rfl (by decide))
  -- The poll.
  have polling := replied.of_step (a := ()) (.poll rfl
    ⟨_, _, .beginPoll rfl fun u p => by simp, rfl⟩ rfl)
  have locked := polling.of_step (a := ()) (.poll rfl ⟨_, _, .lock rfl rfl, rfl⟩ rfl)
  have called := locked.of_step (a := ()) (.poll rfl ⟨_, _, .call rfl (.inl rfl), rfl⟩ rfl)
  have header := called.of_step (a := ()) (.poll rfl ⟨_, _, .header rfl, rfl⟩ rfl)
  have payload := header.of_step (a := ()) (.poll rfl ⟨_, _, .payload rfl, rfl⟩ rfl)
  have decoded := payload.of_step (a := ()) (.poll rfl ⟨_, _, .memory rfl, rfl⟩ rfl)
  have polled := decoded.of_step (a := ()) (.poll rfl ⟨_, _, .returnPoll rfl, rfl⟩ rfl)
  have hbalance := (async_replies polled ⟨.getProperty, 7⟩).2 (fun _ => rfl) (fun _ => rfl) rfl rfl
  exact ⟨_, polled, rfl, hbalance.symm⟩

end Rsmpv
