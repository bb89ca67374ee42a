import Rsmpv.Event.Model
import Rsmpv.Lib.ThreadPool

/-!
# Shared Event Draining

Any number of threads call `poll_event` on one handle while libmpv posts events to it.
libmpv keeps the pending events in a queue and hands them out through one storage cell:
every `mpv_wait_event` call overwrites it, with the event it dequeued or with
`MPV_EVENT_NONE`. The decoder reads the cell piece by piece (the `mpv_event` struct, the
payload behind its `data`, the strings and nodes behind that), and each read sees what the
cell holds at that moment.

`poll_event` holds the event lock from before its `mpv_wait_event` call to after its
decode, and calls with a zero timeout, so libmpv answers it at once. `wait_event` takes no
lock: the borrow checker lets it run only while no other borrow of the handle exists. It
waits in libmpv while nothing is pending, for as long as its timeout says; time is not
modelled, so the end of such a wait is a step that may come late or never. The record of
the `mpv_wait_event` calls, in their order, with what each dequeued, and of what the
callers returned, is kept beside the state.

## Main results

* `reader_unique`: at most one caller is between its `mpv_wait_event` call and its return.
* `HandleMove.calls`: a step makes at most one such call, which dequeues the oldest pending
  event.
* `HandleInv.step`, `handle_inv`: the invariant `HandleInv` holds in every reachable state:
  the cell has what the latest call left there, and what a reader has decoded so far is read
  from it.
* `poll_event_loses_nothing`: the events that were dequeued are the ones that were posted,
  in their order, and each is returned by the one call that dequeued it.
-/

namespace Rsmpv

/-! ### The system -/

/-- The two callers of `mpv_wait_event`. -/
inductive Reader
  | pollEvent
  | waitEvent
  deriving DecidableEq

/-- Where a caller is between its `mpv_wait_event` call, the `i`-th of the handle, and its
return: the pieces of the event it has read so far. -/
inductive ReadPc
  | call
  | header (i : ℕ)
  | payload (i : ℕ) (header : EventHeader)
  | memory (i : ℕ) (header : EventHeader) (data : Option EventPayload)
  | finish (i : ℕ) (result : Option (Option Event))

/-- The control point of a thread. -/
inductive HandlePc
  | idle
  | lock
  | read (r : Reader) (p : ReadPc)

/-- A call of `mpv_wait_event`: who made it, and what it dequeued. -/
structure EventCall (T : Type*) where
  caller : T
  dequeued : Option RawEvent

/-- What the call left in the cell. -/
def EventCall.event {T : Type*} (c : EventCall T) : RawEvent := c.dequeued.getD RawEvent.none

/-- What the threads share: the event lock, libmpv's queue and cell, and the record of what
was posted, called and returned. A caller returns the decoded event, where `none` is a
decode that left the defined behaviour. -/
structure HandleShared (T : Type*) where
  eventLock : Option T := none
  queue : List RawEvent := []
  cell : RawEvent := .none
  posted : List RawEvent := []
  calls : List (EventCall T) := []
  returned : ℕ → Option (T × Option (Option Event)) := fun _ => none

/-- A handle and the threads that use it. -/
abbrev HandleState (T : Type*) := Pool T (HandleShared T) HandlePc

namespace HandleShared

variable {T : Type*}

/-- libmpv posts an event. -/
def post (sh : HandleShared T) (e : RawEvent) : HandleShared T :=
  { sh with queue := sh.queue ++ [e], posted := sh.posted ++ [e] }

/-- `mpv_wait_event`, called by `t`. -/
def waitEvent (sh : HandleShared T) (t : T) : HandleShared T :=
  { sh with
    queue := sh.queue.tail
    cell := sh.queue.head?.getD .none
    calls := sh.calls ++ [⟨t, sh.queue.head?⟩] }

/-- The `i`-th call returns `result` to `t`. -/
def record (sh : HandleShared T) (i : ℕ) (t : T) (result : Option (Option Event)) :
    HandleShared T :=
  { sh with returned := Function.update sh.returned i (some (t, result)) }

end HandleShared

/-- `HandleMove v s t sh p`: with a libmpv of client API version `v`, thread `t` of `s` can
step to the shared memory `sh` and the control point `p`. -/
inductive HandleMove {T : Type*} (v : ℕ) (s : HandleState T) (t : T) :
    HandleShared T → HandlePc → Prop
  /-- A thread of libmpv posts an event. -/
  | post (e : RawEvent) : s.pc t = .idle → e.header.eventId ≠ mpvEventNone →
      HandleMove v s t (s.shared.post e) .idle
  /-- A call of `poll_event(&self)`: no exclusive borrow exists. -/
  | beginPoll : s.pc t = .idle → (∀ u p, s.pc u ≠ .read .waitEvent p) →
      HandleMove v s t s.shared .lock
  /-- A call of `wait_event(&mut self)`: no other borrow exists. -/
  | beginWait : s.pc t = .idle → (∀ u, s.pc u = .idle) →
      HandleMove v s t s.shared (.read .waitEvent .call)
  | lock : s.pc t = .lock → s.shared.eventLock = none →
      HandleMove v s t { s.shared with eventLock := some t } (.read .pollEvent .call)
  /-- libmpv answers at once: `poll_event` asks it not to wait, and an event that is pending
  ends the wait of `wait_event`, whatever its timeout. -/
  | call {r : Reader} : s.pc t = .read r .call → r = .pollEvent ∨ s.shared.queue ≠ [] →
      HandleMove v s t (s.shared.waitEvent t) (.read r (.header s.shared.calls.length))
  /-- The wait of `wait_event` ends with nothing pending: its timeout has elapsed, or libmpv woke
  up. When this happens is up to libmpv, and with a negative timeout it may never happen; until
  then the thread takes no step. -/
  | elapse : s.pc t = .read .waitEvent .call → s.shared.queue = [] →
      HandleMove v s t (s.shared.waitEvent t) (.read .waitEvent (.header s.shared.calls.length))
  | header {r : Reader} {i : ℕ} : s.pc t = .read r (.header i) →
      HandleMove v s t s.shared (.read r (.payload i s.shared.cell.header))
  | payload {r : Reader} {i : ℕ} {h : EventHeader} : s.pc t = .read r (.payload i h) →
      HandleMove v s t s.shared (.read r (.memory i h s.shared.cell.data))
  | memory {r : Reader} {i : ℕ} {h : EventHeader} {d : Option EventPayload} :
      s.pc t = .read r (.memory i h d) →
      HandleMove v s t s.shared
        (.read r (.finish i (Event.fromRaw v ⟨h, d, s.shared.cell.memory⟩)))
  | returnPoll {i : ℕ} {result : Option (Option Event)} :
      s.pc t = .read .pollEvent (.finish i result) →
      HandleMove v s t { s.shared.record i t result with eventLock := none } .idle
  | returnWait {i : ℕ} {result : Option (Option Event)} :
      s.pc t = .read .waitEvent (.finish i result) →
      HandleMove v s t (s.shared.record i t result) .idle

/-- The handle: all threads idle, nothing posted. -/
def handleSystem (T : Type*) [DecidableEq T] (v : ℕ) : Lts (HandleState T) T :=
  Pool.system (fun s => s = ⟨{}, fun _ => .idle⟩) (HandleMove v)

/-! ### The invariant -/

variable {T : Type*} {v : ℕ} {s : HandleState T} {t : T}

/-- The `i`-th call was made by `t`, is the last so far, has not returned, and its event is
in the cell. -/
structure HandleShared.Current (sh : HandleShared T) (t : T) (i : ℕ) : Prop where
  last : i + 1 = sh.calls.length
  made : ∃ c, sh.calls[i]? = some c ∧ c.caller = t ∧ sh.cell = c.event
  open_ : sh.returned i = none

/-- What a caller has read so far is the event its own call left in the cell. -/
def ReadPc.Consistent (v : ℕ) (sh : HandleShared T) (t : T) : ReadPc → Prop
  | .call => True
  | .header i => sh.Current t i
  | .payload i h => sh.Current t i ∧ h = sh.cell.header
  | .memory i h d => sh.Current t i ∧ h = sh.cell.header ∧ d = sh.cell.data
  | .finish i result => sh.Current t i ∧ result = Event.fromRaw v sh.cell

/-- The call a caller has made and not returned from. -/
def ReadPc.index : ReadPc → Option ℕ
  | .call => none
  | .header i | .payload i _ | .memory i _ _ | .finish i _ => some i

/-- The invariant of a handle. -/
structure HandleInv (v : ℕ) (s : HandleState T) : Prop where
  locked : ∀ t, s.shared.eventLock = some t ↔ ∃ p, s.pc t = .read .pollEvent p
  alone : ∀ t p, s.pc t = .read .waitEvent p → ∀ u, u ≠ t → s.pc u = .idle
  fifo : s.shared.posted = s.shared.calls.filterMap (·.dequeued) ++ s.shared.queue
  real : ∀ e ∈ s.shared.posted, e.header.eventId ≠ mpvEventNone
  reading : ∀ t r p, s.pc t = .read r p → p.Consistent v s.shared t
  pending : ∀ i, i < s.shared.calls.length → s.shared.returned i = none →
    ∃ t r p, s.pc t = .read r p ∧ p.index = some i
  results : ∀ i r, s.shared.returned i = some r →
    ∃ c, s.shared.calls[i]? = some c ∧ r = (c.caller, Event.fromRaw v c.event)

/-- Consistency speaks of the cell and the record only. -/
theorem ReadPc.Consistent.congr {sh sh' : HandleShared T} {p : ReadPc}
    (h : p.Consistent v sh t) (hcalls : sh'.calls = sh.calls) (hcell : sh'.cell = sh.cell)
    (hreturned : sh'.returned = sh.returned) : p.Consistent v sh' t := by
  have current : ∀ {i}, sh.Current t i → sh'.Current t i := fun hc =>
    ⟨by rw [hcalls]; exact hc.last, by rw [hcalls, hcell]; exact hc.made,
      by rw [hreturned]; exact hc.open_⟩
  cases p with
  | call => trivial
  | header i => exact current h
  | payload i _ | memory i _ _ | finish i _ =>
      refine ⟨current h.1, ?_⟩
      rw [hcell]
      exact h.2

namespace HandleInv

/-- **At most one caller** is between its `mpv_wait_event` call and its return. -/
theorem reader_unique (h : HandleInv v s) {u : T} {r r' : Reader} {p p' : ReadPc}
    (ht : s.pc t = .read r p) (hu : s.pc u = .read r' p') : u = t := by
  by_contra hne
  cases r with
  | waitEvent =>
      rw [h.alone t p ht u hne] at hu
      cases hu
  | pollEvent =>
      cases r' with
      | waitEvent =>
          rw [h.alone u p' hu t (Ne.symm hne)] at ht
          cases ht
      | pollEvent =>
          have h1 := (h.locked t).mpr ⟨p, ht⟩
          have h2 := (h.locked u).mpr ⟨p', hu⟩
          rw [h1] at h2
          exact hne (Option.some.inj h2).symm

/-- The call a caller is in is the one it is consistent with. -/
theorem current_of_index (h : HandleInv v s) {r : Reader} {p : ReadPc} {i : ℕ}
    (ht : s.pc t = .read r p) (hi : p.index = some i) : s.shared.Current t i := by
  have hc := h.reading t r p ht
  cases p with
  | call => cases hi
  | header j => obtain rfl := Option.some.inj hi; exact hc
  | payload j _ | memory j _ _ | finish j _ => obtain rfl := Option.some.inj hi; exact hc.1

/-- Before a call is made, all earlier calls have returned. -/
theorem returned_of_call (h : HandleInv v s) {r : Reader} (ht : s.pc t = .read r .call)
    {i : ℕ} (hi : i < s.shared.calls.length) : s.shared.returned i ≠ none := by
  intro hnone
  obtain ⟨u, r', p, hu, hp⟩ := h.pending i hi hnone
  obtain rfl := h.reader_unique ht hu
  rw [ht] at hu
  cases hu
  cases hp

/-- A call beyond the record has not returned. -/
theorem returned_of_length_le (h : HandleInv v s) {i : ℕ}
    (hi : s.shared.calls.length ≤ i) : s.shared.returned i = none := by
  cases hr : s.shared.returned i with
  | none => rfl
  | some r =>
      obtain ⟨c, hc, -⟩ := h.results i r hr
      have := (List.getElem?_eq_some_iff.mp hc).1
      omega

variable [DecidableEq T]

/-- A read of the cell. -/
theorem advance (h : HandleInv v s) {r : Reader} {p p' : ReadPc}
    (ht : s.pc t = .read r p) (hindex : p'.index = p.index)
    (hp' : p'.Consistent v s.shared t) :
    HandleInv v (s.move t s.shared (.read r p')) := by
  have other : ∀ u, u ≠ t → (s.move t s.shared (.read r p')).pc u = s.pc u :=
    fun u hu => Function.update_of_ne hu _ _
  have self : (s.move t s.shared (.read r p')).pc t = .read r p' :=
    Function.update_self _ _ _
  refine ⟨fun u => ?_, fun u q hu w hw => ?_, h.fifo, h.real, fun u r' q hu => ?_,
    fun i hi hnone => ?_, h.results⟩
  · rw [Pool.move_shared, h.locked u]
    by_cases hut : u = t
    · subst hut
      rw [self, ht]
      cases r <;> simp
    · rw [other u hut]
  · by_cases hut : u = t
    · subst hut
      rw [self] at hu
      cases hu
      rw [other w hw]
      exact h.alone u p ht w hw
    · rw [other u hut] at hu
      exact absurd (h.reader_unique ht hu) hut
  · by_cases hut : u = t
    · subst hut
      rw [self] at hu
      cases hu
      exact hp'
    · rw [other u hut] at hu
      exact absurd (h.reader_unique ht hu) hut
  · obtain ⟨u, r', q, hu, hq⟩ := h.pending i hi hnone
    obtain rfl := h.reader_unique ht hu
    rw [ht] at hu
    cases hu
    exact ⟨u, r, p', self, hindex.trans hq⟩

/-- An event is posted. -/
theorem post (h : HandleInv v s) {e : RawEvent} (ht : s.pc t = .idle)
    (he : e.header.eventId ≠ mpvEventNone) :
    HandleInv v (s.move t (s.shared.post e) .idle) := by
  have hpc : (s.move t (s.shared.post e) .idle).pc = s.pc := by
    rw [Pool.move_pc, ← ht, Function.update_eq_self]
  refine ⟨fun u => ?_, fun u q hu => ?_, ?_, fun e' he' => ?_, fun u r p hu => ?_,
    fun i hi hnone => ?_, h.results⟩
  · rw [hpc]
    exact h.locked u
  · rw [hpc] at hu ⊢
    exact h.alone u q hu
  · simp only [Pool.move_shared, HandleShared.post, h.fifo, List.append_assoc]
  · rcases List.mem_append.mp he' with h' | h'
    · exact h.real e' h'
    · rw [List.mem_singleton.mp h']
      exact he
  · rw [hpc] at hu
    exact (h.reading u r p hu).congr rfl rfl rfl
  · rw [hpc]
    exact h.pending i hi hnone

/-- A caller of `poll_event` starts to wait for the lock. -/
theorem beginPoll (h : HandleInv v s) (ht : s.pc t = .idle)
    (hwait : ∀ u p, s.pc u ≠ .read .waitEvent p) :
    HandleInv v (s.move t s.shared .lock) := by
  have other : ∀ {u r p}, (s.move t s.shared .lock).pc u = .read r p ↔ s.pc u = .read r p := by
    intro u r p
    by_cases hu : u = t
    · subst hu
      rw [Pool.move_pc, Function.update_self, ht]
      simp
    · rw [Pool.move_pc, Function.update_of_ne hu]
  refine ⟨fun u => ?_, fun u q hu => ?_, h.fifo, h.real, fun u r p hu => ?_,
    fun i hi hnone => ?_, h.results⟩
  · simp only [other]
    exact h.locked u
  · exact absurd (other.mp hu) (hwait u q)
  · exact h.reading u r p (other.mp hu)
  · obtain ⟨u, r, p, hu, hp⟩ := h.pending i hi hnone
    exact ⟨u, r, p, other.mpr hu, hp⟩

/-- A caller becomes the reader, when there is none. -/
theorem enter (h : HandleInv v s) (r : Reader) (lock : Option T)
    (hnone : ∀ u r p, s.pc u ≠ .read r p)
    (hlock : ∀ u, lock = some u ↔ u = t ∧ r = .pollEvent)
    (halone : r = .waitEvent → ∀ u, u ≠ t → s.pc u = .idle) :
    HandleInv v (s.move t { s.shared with eventLock := lock } (.read r .call)) := by
  have reader : ∀ {u r' p}, (s.move t { s.shared with eventLock := lock }
      (.read r .call)).pc u = .read r' p → u = t ∧ r' = r ∧ p = .call := by
    intro u r' p hu
    by_cases hut : u = t
    · subst hut
      rw [Pool.move_pc, Function.update_self] at hu
      cases hu
      exact ⟨rfl, rfl, rfl⟩
    · rw [Pool.move_pc, Function.update_of_ne hut] at hu
      exact absurd hu (hnone u r' p)
  refine ⟨fun u => ?_, fun u q hu w hw => ?_, h.fifo, h.real, fun u r' p hu => ?_,
    fun i hi hpend => ?_, h.results⟩
  · constructor
    · intro hu
      obtain ⟨rfl, rfl⟩ := (hlock u).mp hu
      exact ⟨.call, Function.update_self _ _ _⟩
    · rintro ⟨p, hu⟩
      obtain ⟨rfl, hr, -⟩ := reader hu
      exact (hlock u).mpr ⟨rfl, hr.symm⟩
  · obtain ⟨rfl, hr, -⟩ := reader hu
    rw [Pool.move_pc, Function.update_of_ne hw]
    exact halone hr.symm w hw
  · obtain ⟨-, -, rfl⟩ := reader hu
    trivial
  · obtain ⟨u, r', p, hu, -⟩ := h.pending i hi hpend
    exact absurd hu (hnone u r' p)

/-- The reader calls `mpv_wait_event`. -/
theorem call (h : HandleInv v s) {r : Reader} (ht : s.pc t = .read r .call) :
    HandleInv v (s.move t (s.shared.waitEvent t)
      (.read r (.header s.shared.calls.length))) := by
  have self : (s.move t (s.shared.waitEvent t)
      (.read r (.header s.shared.calls.length))).pc t =
        .read r (.header s.shared.calls.length) := Function.update_self _ _ _
  have reader : ∀ {u r' p}, (s.move t (s.shared.waitEvent t)
      (.read r (.header s.shared.calls.length))).pc u = .read r' p →
        u = t ∧ r' = r ∧ p = .header s.shared.calls.length := by
    intro u r' p hu
    by_cases hut : u = t
    · subst hut
      rw [self] at hu
      cases hu
      exact ⟨rfl, rfl, rfl⟩
    · rw [Pool.move_pc, Function.update_of_ne hut] at hu
      exact absurd (h.reader_unique ht hu) hut
  refine ⟨fun u => ?_, fun u q hu w hw => ?_, ?_, h.real, fun u r' p hu => ?_,
    fun i hi hnone => ?_, fun i res hres => ?_⟩
  · refine (h.locked u).trans ⟨?_, ?_⟩
    · rintro ⟨p, hu⟩
      obtain rfl := h.reader_unique ht hu
      rw [ht] at hu
      cases hu
      exact ⟨_, self⟩
    · rintro ⟨p, hu⟩
      obtain ⟨rfl, rfl, -⟩ := reader hu
      exact ⟨_, ht⟩
  · obtain ⟨rfl, rfl, -⟩ := reader hu
    rw [Pool.move_pc, Function.update_of_ne hw]
    exact h.alone u _ ht w hw
  · simp only [Pool.move_shared, HandleShared.waitEvent, h.fifo, List.filterMap_append]
    cases s.shared.queue <;> simp
  · obtain ⟨rfl, -, rfl⟩ := reader hu
    refine ⟨by simp [HandleShared.waitEvent], ?_, h.returned_of_length_le le_rfl⟩
    exact ⟨⟨u, s.shared.queue.head?⟩, by simp [HandleShared.waitEvent], rfl, rfl⟩
  · have hi' : i < s.shared.calls.length + 1 := by
      simpa [HandleShared.waitEvent] using hi
    by_cases hlast : i < s.shared.calls.length
    · exact absurd hnone (h.returned_of_call ht hlast)
    · obtain rfl : i = s.shared.calls.length := by omega
      exact ⟨t, r, _, self, rfl⟩
  · obtain ⟨c, hc, hr⟩ := h.results i res hres
    refine ⟨c, ?_, hr⟩
    have hlt := (List.getElem?_eq_some_iff.mp hc).1
    simpa [HandleShared.waitEvent, List.getElem?_append_left hlt] using hc

/-- The reader returns what it decoded. -/
theorem finish (h : HandleInv v s) {r : Reader} {i : ℕ} {result : Option (Option Event)}
    (ht : s.pc t = .read r (.finish i result)) (lock : Option T)
    (hlock : lock = if r = .pollEvent then none else s.shared.eventLock) :
    HandleInv v (s.move t { s.shared.record i t result with eventLock := lock } .idle) := by
  obtain ⟨hcur, hresult⟩ := h.reading t r _ ht
  obtain ⟨c, hc, hcaller, hcell⟩ := hcur.made
  have noreader : ∀ {u r' p}, (s.move t { s.shared.record i t result with
      eventLock := lock } .idle).pc u ≠ .read r' p := by
    intro u r' p hu
    by_cases hut : u = t
    · subst hut
      rw [Pool.move_pc, Function.update_self] at hu
      cases hu
    · rw [Pool.move_pc, Function.update_of_ne hut] at hu
      exact hut (h.reader_unique ht hu)
  refine ⟨fun u => ⟨fun hu => ?_, fun ⟨p, hu⟩ => absurd hu noreader⟩,
    fun u q hu => absurd hu noreader, h.fifo, h.real, fun u r' p hu => absurd hu noreader,
    fun j hj hnone => ?_, fun j res hres => ?_⟩
  · simp only [Pool.move_shared] at hu
    rw [hlock] at hu
    cases r with
    | pollEvent => cases hu
    | waitEvent =>
        obtain ⟨p, hp⟩ := (h.locked u).mp hu
        obtain rfl := h.reader_unique ht hp
        rw [ht] at hp
        cases hp
  · by_cases hji : j = i
    · subst hji
      simp [HandleShared.record] at hnone
    · have hnone' : s.shared.returned j = none := by
        simpa [HandleShared.record, Function.update_of_ne hji] using hnone
      obtain ⟨u, r', p, hu, hp⟩ := h.pending j hj hnone'
      obtain rfl := h.reader_unique ht hu
      rw [ht] at hu
      cases hu
      exact absurd (Option.some.inj hp).symm hji
  · by_cases hji : j = i
    · subst hji
      have e : res = (t, result) := by simpa [HandleShared.record] using hres.symm
      exact ⟨c, hc, by rw [e, hcaller, hresult, hcell]⟩
    · refine h.results j res ?_
      simpa [HandleShared.record, Function.update_of_ne hji] using hres

/-- **The step lemma**: every step keeps the invariant. -/
theorem step (h : HandleInv v s) {sh : HandleShared T} {p : HandlePc}
    (hmove : HandleMove v s t sh p) : HandleInv v (s.move t sh p) := by
  cases hmove with
  | post e ht he => exact h.post ht he
  | beginPoll ht hwait => exact h.beginPoll ht hwait
  | beginWait ht hidle =>
      have hfree : ∀ u, s.shared.eventLock ≠ some u := by
        intro u hu
        obtain ⟨p, hp⟩ := (h.locked u).mp hu
        rw [hidle u] at hp
        cases hp
      refine h.enter .waitEvent s.shared.eventLock (fun u r p hu => ?_) (fun u => ?_)
        fun _ u _ => hidle u
      · rw [hidle u] at hu
        cases hu
      · exact ⟨fun hu => absurd hu (hfree u), fun hu => nomatch hu.2⟩
  | lock ht hfree =>
      refine h.enter .pollEvent (some t) (fun u r p hu => ?_) (fun u => ?_) nofun
      · cases r with
        | pollEvent =>
            rw [(h.locked u).mpr ⟨p, hu⟩] at hfree
            cases hfree
        | waitEvent =>
            by_cases hut : t = u
            · subst hut
              rw [ht] at hu
              cases hu
            · rw [h.alone u p hu t hut] at ht
              cases ht
      · exact ⟨fun hu => ⟨(Option.some.inj hu).symm, rfl⟩, fun hu => by rw [hu.1]⟩
  | call ht _ => exact h.call ht
  | elapse ht _ => exact h.call ht
  | header ht => exact h.advance ht rfl ⟨h.reading _ _ _ ht, rfl⟩
  | payload ht =>
      obtain ⟨hcur, hh⟩ := h.reading _ _ _ ht
      exact h.advance ht rfl ⟨hcur, hh, rfl⟩
  | memory ht =>
      obtain ⟨hcur, rfl, rfl⟩ := h.reading _ _ _ ht
      exact h.advance ht rfl ⟨hcur, rfl⟩
  | returnPoll ht => exact h.finish ht none rfl
  | returnWait ht => exact h.finish ht s.shared.eventLock rfl

end HandleInv

/-- The run lemma: the invariant holds in every reachable state. -/
theorem handle_inv [DecidableEq T] (h : (handleSystem T v).Reachable s) : HandleInv v s := by
  refine h.invariant (I := HandleInv v) ?_ ?_
  · rintro s rfl
    exact ⟨by simp, by simp, rfl, by simp, by simp, by simp, by simp⟩
  · rintro s t s' hs ⟨sh, p, hmove, rfl⟩
    exact hs.step hmove

/-- A step makes at most one `mpv_wait_event` call, which dequeues the oldest pending
event, if there is one. -/
theorem HandleMove.calls {sh : HandleShared T} {p : HandlePc} (h : HandleMove v s t sh p) :
    sh.calls = s.shared.calls ∨
      (sh.calls = s.shared.calls ++ [⟨t, s.shared.queue.head?⟩] ∧
        sh.queue = s.shared.queue.tail) := by
  cases h with
  | call _ _ | elapse _ _ => exact .inr ⟨rfl, rfl⟩
  | _ => exact .inl rfl

/-! ### Draining -/

/-- **Shared event draining loses and duplicates nothing.** In every reachable state, for
any number of callers:

* the events dequeued by the `mpv_wait_event` calls, in the order of the calls, followed
  by the queue are exactly the events posted so far;
* a call that returned did so to the thread that made it, with the decoding of the event
  its own `mpv_wait_event` dequeued, and returned no event exactly when it dequeued none;
* a call that did not return is the last one made, and its thread is still in it;
* the next call dequeues the oldest pending event, and nothing when none is pending. -/
theorem poll_event_loses_nothing (T : Type*) [DecidableEq T] (v : ℕ) (s : HandleState T)
    (h : (handleSystem T v).Reachable s) :
    s.shared.posted = s.shared.calls.filterMap (·.dequeued) ++ s.shared.queue ∧
    (∀ i t r, s.shared.returned i = some (t, r) → ∃ c, s.shared.calls[i]? = some c ∧
      t = c.caller ∧ r = Event.fromRaw v c.event ∧ (r = some none ↔ c.dequeued = none)) ∧
    (∀ i c, s.shared.calls[i]? = some c → s.shared.returned i = none →
      i + 1 = s.shared.calls.length ∧
        ∃ r p, s.pc c.caller = .read r p ∧ p.index = some i) ∧
    ∀ t s', (handleSystem T v).step s t s' → s'.shared.calls = s.shared.calls ∨
      (s'.shared.calls = s.shared.calls ++ [⟨t, s.shared.queue.head?⟩] ∧
        s'.shared.queue = s.shared.queue.tail) := by
  have hs := handle_inv h
  refine ⟨hs.fifo, fun i t r hr => ?_, fun i c hc hnone => ?_, ?_⟩
  · obtain ⟨c, hc, e⟩ := hs.results i _ hr
    obtain ⟨rfl, rfl⟩ := Prod.mk.inj e
    refine ⟨c, hc, rfl, rfl, ?_⟩
    rw [Event.fromRaw_eq_some_none_iff, EventCall.event]
    cases hd : c.dequeued with
    | none => exact ⟨fun _ => rfl, fun _ => rfl⟩
    | some e =>
        have hposted : e ∈ s.shared.posted := by
          rw [hs.fifo]
          exact List.mem_append_left _
            (List.mem_filterMap.mpr ⟨c, List.mem_of_getElem? hc, hd⟩)
        exact ⟨fun he => absurd he (hs.real e hposted), nofun⟩
  · have hi := (List.getElem?_eq_some_iff.mp hc).1
    obtain ⟨t, r, p, ht, hp⟩ := hs.pending i hi hnone
    have hcur := hs.current_of_index ht hp
    obtain ⟨c', hc', hcaller, -⟩ := hcur.made
    obtain rfl : c' = c := Option.some.inj (hc'.symm.trans hc)
    exact ⟨hcur.last, r, p, by rw [hcaller]; exact ht, hp⟩
  · rintro t s' ⟨sh, p, hmove, rfl⟩
    exact hmove.calls

/-- An event posted by one thread is returned to another that polls. -/
theorem poll_event_returns_shutdown : ∃ s : HandleState (Fin 2),
    (handleSystem (Fin 2) 0).Reachable s ∧
      s.shared.returned 0 = some (1, some (some .shutdown)) ∧
      ∃ c, s.shared.calls[0]? = some c ∧ c.caller = 1 ∧ c.dequeued ≠ none := by
  have start := Lts.Reachable.of_init (M := handleSystem (Fin 2) 0) rfl
  have posted := start.of_step (a := 0)
    ⟨_, _, .post ⟨⟨mpvEventShutdown, 0, 0⟩, none, {}⟩ rfl (by decide), rfl⟩
  have begun := posted.of_step (a := 1) ⟨_, _, .beginPoll rfl fun u p => by
    simp [Function.update_apply], rfl⟩
  have locked := begun.of_step (a := 1) ⟨_, _, .lock rfl rfl, rfl⟩
  have called := locked.of_step (a := 1) ⟨_, _, .call rfl (.inl rfl), rfl⟩
  have header := called.of_step (a := 1) ⟨_, _, .header rfl, rfl⟩
  have payload := header.of_step (a := 1) ⟨_, _, .payload rfl, rfl⟩
  have decoded := payload.of_step (a := 1) ⟨_, _, .memory rfl, rfl⟩
  have done := decoded.of_step (a := 1) ⟨_, _, .returnPoll rfl, rfl⟩
  obtain ⟨-, hreturned, -, -⟩ := poll_event_loses_nothing (Fin 2) 0 _ done
  obtain ⟨c, hc, ht, -, hnone⟩ := hreturned 0 1 (some (some .shutdown)) rfl
  exact ⟨_, done, rfl, c, hc, ht.symm, fun hd => nomatch hnone.mpr hd⟩

end Rsmpv
