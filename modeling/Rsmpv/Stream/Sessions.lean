import Rsmpv.Lib.Transition
import Rsmpv.Unwinding

/-!
# Stream Sessions

libmpv opens any number of streams and calls back into them in any order, using a cookie
between its successful open and its close. A session is the world of the trampolines
together with the cookies libmpv holds; a step is one callback with the value it returned.

The streams themselves are deterministic machines that see only the calls addressed to
them: `UserCode.replay` runs one such machine over a sequence of callbacks. After any run,
which is one of callbacks that returned, the box of each open cookie holds its stream as if
it had run alone, and a stream's destructor has run at its close, once
(`Session.recorded_of_run`). When the destructors of returned errors and of panic payloads
do not panic, every callback returns (`Session.step_exists`).

libmpv calls back through the function pointers of the info struct that the open of the
stream filled in (`StreamCbInfo.call`). Each of them is the trampoline for its callback
(`StreamCallback.run_read` and so on); a call of another would be undefined.

## Main results

* `StreamCallback.run_stream`, `StreamCallback.run_open`, `StreamCallback.run_close`: what a
  callback does to the world, whichever destructors panic on the way out.
* `Session.effect_of_step`: the inversion lemma for one callback, which is one that
  returned.
* `Session.Recorded.step`, `Session.recorded_of_run`: what a session leaves behind.
* `stream_sessions_simulate`: every stream answers and is left as if it had run alone, and
  each result is the one that the headers specify for what the stream said.
-/

namespace Rsmpv

open Unwind StreamWorld

variable {P E O S : Type}

/-- A callback of libmpv, with the memory it passes. -/
inductive StreamCallback
  | openStream (uri : List UInt8) (info : StreamCbInfo)
  | read (cookie : Cookie) (buf : ℕ → UInt8) (nbytes : UInt64)
  | seek (cookie : Cookie) (offset : Int64)
  | size (cookie : Cookie)
  | close (cookie : Cookie)

/-- What a callback hands back to libmpv. -/
inductive CallbackResult
  | opened (code : CInt) (info : StreamCbInfo)
  | read (n : Int64) (buf : ℕ → UInt8)
  | position (n : Int64)
  | closed

namespace StreamCallback

/-- The cookie a callback is addressed to. -/
def cookie : StreamCallback → Option Cookie
  | openStream _ _ => none
  | read k _ _ | seek k _ | size k | close k => some k

end StreamCallback

/-- A trampoline, called with the arguments of a callback. A call of one as a function of
another type is undefined. -/
def StreamFn.run (u : UserCode P E O S) (t : Target) :
    StreamFn → StreamCallback → Unwind P (StreamWorld O S) CallbackResult
  | readTrampoline, .read k buf nbytes => do
    modify fun w => { w with buffer := buf }
    let n ← Rsmpv.readTrampoline u t k nbytes
    let w ← Unwind.read
    pure (.read n w.buffer)
  | seekTrampoline, .seek k offset => do
    let n ← Rsmpv.seekTrampoline u k offset
    pure (.position n)
  | sizeTrampoline, .size k => do
    let n ← Rsmpv.sizeTrampoline u k
    pure (.position n)
  | closeTrampoline, .close k => do
    Rsmpv.closeTrampoline u k
    pure .closed
  | _, _ => Unwind.undefined

namespace StreamCbInfo

/-- The function pointer that libmpv takes for a callback. -/
def fnOf (info : StreamCbInfo) : StreamCallback → Option StreamFn
  | .openStream _ _ => none
  | .read _ _ _ => info.readFn
  | .seek _ _ => info.seekFn
  | .size _ => info.sizeFn
  | .close _ => info.closeFn

/-- libmpv calls back through the info struct of a stream; a null pointer cannot be called. -/
def call (info : StreamCbInfo) (u : UserCode P E O S) (t : Target) (cb : StreamCallback) :
    Unwind P (StreamWorld O S) CallbackResult :=
  match info.fnOf cb with
  | some f => f.run u t cb
  | none => Unwind.undefined

end StreamCbInfo

namespace StreamCallback

/-- What libmpv calls: to open a stream the function it has for the protocol, and for a stream
with cookie `k` the functions of the info struct that its open handed out. -/
def run (u : UserCode P E O S) (t : Target) :
    StreamCallback → Unwind P (StreamWorld O S) CallbackResult
  | openStream uri info => do
    let r ← openTrampoline u uri info
    pure (.opened r.1 r.2)
  | read k buf nbytes => (StreamCbInfo.ofCookie k).call u t (read k buf nbytes)
  | seek k offset => (StreamCbInfo.ofCookie k).call u t (seek k offset)
  | size k => (StreamCbInfo.ofCookie k).call u t (size k)
  | close k => (StreamCbInfo.ofCookie k).call u t (close k)

section Dispatch

variable (u : UserCode P E O S) (t : Target) (k : Cookie)

/-- The read callback of a stream is `read_trampoline`. -/
theorem run_read (buf : ℕ → UInt8) (nbytes : UInt64) :
    (read k buf nbytes).run u t = (do
      modify fun w => { w with buffer := buf }
      let n ← readTrampoline u t k nbytes
      let w ← Unwind.read
      pure (.read n w.buffer)) := rfl

/-- The seek callback of a stream is `seek_trampoline`. -/
theorem run_seek (offset : Int64) :
    (seek k offset).run u t = (do
      let n ← seekTrampoline u k offset
      pure (.position n)) := rfl

/-- The size callback of a stream is `size_trampoline`. -/
theorem run_size :
    (size k).run u t = (do
      let n ← sizeTrampoline u k
      pure (.position n)) := rfl

/-- The close callback of a stream is `close_trampoline`. -/
theorem run_closeFn :
    (close k).run u t = (do
      closeTrampoline u k
      pure .closed) := rfl

end Dispatch

end StreamCallback

/-- The world and the cookies libmpv holds. -/
structure Session (O S : Type) where
  world : StreamWorld O S
  live : List Cookie := []

/-- The cookies libmpv holds after a callback: a successful open hands one out, and a close
ends one. -/
def Session.track (live : List Cookie) : StreamCallback → CallbackResult → List Cookie
  | .openStream _ _, .opened code info =>
    if code = mpvErrorSuccess then info.cookie.toList ++ live else live
  | .close k, _ => live.filter (· ≠ k)
  | _, _ => live

/-- The sessions of libmpv with the streams of `u`, from the state `o` behind the open
function. -/
def streamSessions (u : UserCode P E O S) (t : Target) (o : O) :
    Lts (Session O S) (StreamCallback × CallbackResult) where
  init s := s = { world := { opener := o } }
  step s e s' := (∀ k ∈ e.1.cookie, k ∈ s.live) ∧
    e.1.run u t s.world = (.ret e.2, s'.world) ∧ s'.live = Session.track s.live e.1 e.2

/-! ### One stream on its own -/

/-- What a stream in state `s` answers to a callback. -/
def UserCode.reply (u : UserCode P E O S) (t : Target) (s : S) :
    StreamCallback → CallbackResult
  | .read _ buf nbytes =>
    let r := u.read s (t.sliceLen nbytes) fun i => buf i
    .read (readResult (t.sliceLen nbytes) r.1) (overwrite buf r.2.1)
  | .seek _ offset =>
    match u64TryFrom offset with
    | none => .position (Int64.ofInt mpvErrorGeneric)
    | some o => .position (seekResult (u.seek s o).1)
  | .size _ => .position (sizeResult (u.size s).1)
  | _ => .closed

/-- The state a callback leaves a stream in. -/
def UserCode.advance (u : UserCode P E O S) (t : Target) (s : S) : StreamCallback → S
  | .read _ buf nbytes => (u.read s (t.sliceLen nbytes) fun i => buf i).2.2
  | .seek _ offset =>
    match u64TryFrom offset with
    | none => s
    | some o => (u.seek s o).2
  | .size _ => (u.size s).2
  | _ => s

/-- The stream of cookie `k` after the callbacks of `l` that are addressed to it. -/
def UserCode.replay (u : UserCode P E O S) (t : Target) (k : Cookie) (s : S)
    (l : List StreamCallback) : S :=
  (l.filter fun cb => cb.cookie = some k).foldl (u.advance t) s

/-- The state behind the open function after the opens of `l`. -/
def UserCode.openerAfter (u : UserCode P E O S) (o : O) (l : List StreamCallback) : O :=
  l.foldl (fun o cb =>
    match cb with
    | .openStream uri _ => (u.openFn o (Utf8.fromUtf8Lossy uri)).2
    | _ => o) o

/-- The destructors of returned errors and of panic payloads do not panic. -/
structure UserCode.Quiet (u : UserCode P E O S) : Prop where
  error : ∀ e, u.dropError e = none
  payload : ∀ p, u.dropPayload p = none

section Callbacks

variable {u : UserCode P E O S} {t : Target} {w : StreamWorld O S} {k : Cookie} {s : S}

/-- With quiet destructors a caught result leaves nothing behind. -/
theorem UserCode.Quiet.caught {α : Type} (hq : u.Quiet) (o : Except P α) :
    u.caught o = none := by
  cases o with
  | ok _ => rfl
  | error p => exact hq.payload p

/-- With quiet destructors neither does a result with an error. -/
theorem UserCode.Quiet.leftover {α : Type} (hq : u.Quiet)
    (o : Except P (Except (IoError E) α)) : u.leftover o = none := by
  cases o with
  | ok r =>
      cases r with
      | ok _ => rfl
      | error e => cases h : e.object <;> simp [UserCode.leftover, h, hq.error]
  | error p => exact hq.payload p

/-- The destructor of what a callback leaves outside the guard. -/
def UserCode.leftBy (u : UserCode P E O S) (t : Target) (s : S) : StreamCallback → Option P
  | .read _ buf nbytes => u.leftover (u.read s (t.sliceLen nbytes) fun i => buf i).1
  | .seek _ offset => (u64TryFrom offset).bind fun o => u.leftover (u.seek s o).1
  | .size _ => u.caught (u.size s).1
  | _ => none

/-- A callback on an open stream answers for that stream and advances it alone; whether it returns
is decided by the destructor that it leaves. -/
theorem StreamCallback.run_stream (h : w.boxes k = some s) {cb : StreamCallback}
    (hk : cb.cookie = some k) (hc : cb ≠ .close k) :
    ∃ w', cb.run u t w = (.after (u.leftBy t s cb) (u.reply t s cb), w') ∧
      w'.boxes = Function.update w.boxes k (some (u.advance t s cb)) ∧
      w'.opener = w.opener ∧ w'.next = w.next ∧ w'.dropped = w.dropped := by
  cases cb with
  | openStream uri info => cases hk
  | read k' buf nbytes =>
      obtain rfl : k' = k := Option.some.inj hk
      have e := readTrampoline_apply (u := u) (t := t)
        (w := { w with buffer := buf }) (k := k') h nbytes
      refine ⟨{ w.setStream k' (u.read s (t.sliceLen nbytes) fun i => buf i).2.2 with
        buffer := overwrite buf (u.read s (t.sliceLen nbytes) fun i => buf i).2.1 },
        ?_, rfl, rfl, rfl, rfl⟩
      rw [run_read, bind_apply, andThen_ret (modify_apply _ _)]
      exact andThen_after e rfl
  | seek k' offset =>
      obtain rfl : k' = k := Option.some.inj hk
      rw [run_seek, bind_apply]
      cases ho : u64TryFrom offset with
      | none =>
          refine ⟨w, ?_, ?_, rfl, rfl, rfl⟩
          · rw [andThen_ret (seekTrampoline_negative ho)]
            simp only [UserCode.leftBy, UserCode.reply, ho, Option.bind_none]
            rfl
          · simp only [UserCode.advance, ho]
            rw [← h, Function.update_eq_self]
      | some o =>
          refine ⟨w.setStream k' (u.seek s o).2, ?_, ?_, rfl, rfl, rfl⟩
          · simp only [UserCode.leftBy, UserCode.reply, ho, Option.bind_some]
            exact andThen_after (seekTrampoline_apply h ho) rfl
          · simp only [UserCode.advance, ho, setStream]
  | size k' =>
      obtain rfl : k' = k := Option.some.inj hk
      refine ⟨w.setStream k' (u.size s).2, ?_, rfl, rfl, rfl, rfl⟩
      rw [run_size, bind_apply]
      exact andThen_after (sizeTrampoline_apply h) rfl
  | close k' =>
      obtain rfl : k' = k := Option.some.inj hk
      exact absurd rfl hc

/-- Such a callback returns when it leaves no destructor that panics. -/
theorem StreamCallback.run_stream_of_leftBy (h : w.boxes k = some s)
    {cb : StreamCallback} (hk : cb.cookie = some k) (hc : cb ≠ .close k)
    (hleft : u.leftBy t s cb = none) :
    ∃ w', cb.run u t w = (.ret (u.reply t s cb), w') ∧
      w'.boxes = Function.update w.boxes k (some (u.advance t s cb)) ∧
      w'.opener = w.opener ∧ w'.next = w.next ∧ w'.dropped = w.dropped := by
  obtain ⟨w', hrun, hrest⟩ := run_stream (u := u) (t := t) h hk hc
  rw [hleft] at hrun
  exact ⟨w', hrun, hrest⟩

/-- Closing a stream empties its box and drops it. -/
theorem StreamCallback.run_close (h : w.boxes k = some s) :
    (StreamCallback.close k).run u t w =
      (.after ((u.dropStream s).bind u.dropPayload) .closed, w.closed k) := by
  rw [run_closeFn, bind_apply]
  exact andThen_after (closeTrampoline_apply h) rfl

/-- Opening a stream boxes what the open function returned, if it returned a stream. -/
theorem StreamCallback.run_open (uri : List UInt8) (info : StreamCbInfo) :
    (StreamCallback.openStream uri info).run u t w =
      (.after (u.caught (u.openFn w.opener (Utf8.fromUtf8Lossy uri)).1) (.opened
        (openResult w.next info (u.openFn w.opener (Utf8.fromUtf8Lossy uri)).1).1
        (openResult w.next info (u.openFn w.opener (Utf8.fromUtf8Lossy uri)).1).2),
      { w with opener := (u.openFn w.opener (Utf8.fromUtf8Lossy uri)).2 }.opened
        (u.openFn w.opener (Utf8.fromUtf8Lossy uri)).1) := by
  simp only [run, bind_apply]
  exact andThen_after (openTrampoline_apply uri info) rfl

/-- With quiet destructors a callback on a stream leaves nothing behind. -/
theorem UserCode.Quiet.leftBy (hq : u.Quiet) (cb : StreamCallback) :
    u.leftBy t s cb = none := by
  cases cb with
  | read k buf nbytes => exact hq.leftover _
  | seek k offset =>
      cases ho : u64TryFrom offset with
      | none => simp [UserCode.leftBy, ho]
      | some o => simp [UserCode.leftBy, ho, hq.leftover]
  | size k => exact hq.caught _
  | openStream uri info | close k => rfl

/-- With quiet destructors a stream that panics in its own is closed all the same. -/
theorem UserCode.Quiet.dropped (hq : u.Quiet) : (u.dropStream s).bind u.dropPayload = none := by
  cases u.dropStream s with
  | none => rfl
  | some p => exact hq.payload p

end Callbacks

/-! ### What a callback of a session does -/

/-- What holds between callbacks: libmpv holds exactly the cookies that have a box. -/
structure Session.Valid (s : Session O S) : Prop where
  boxed : ∀ k, k ∈ s.live ↔ ∃ st, s.world.boxes k = some st
  allocated : ∀ k ∈ s.live, k < s.world.next

/-- What one callback of a session can do. -/
inductive Session.Effect (u : UserCode P E O S) (t : Target) (s s' : Session O S) :
    StreamCallback × CallbackResult → Prop
  /-- An open that got a stream hands out a new cookie for it. -/
  | opened {uri : List UInt8} {info : StreamCbInfo} {st : S} :
      (u.openFn s.world.opener (Utf8.fromUtf8Lossy uri)).1 = .ok (.ok st) →
      s'.world.boxes = Function.update s.world.boxes s.world.next (some st) →
      s'.world.opener = (u.openFn s.world.opener (Utf8.fromUtf8Lossy uri)).2 →
      s'.world.next = s.world.next + 1 → s'.world.dropped = s.world.dropped →
      s'.live = s.world.next :: s.live →
      Effect u t s s' (.openStream uri info,
        .opened mpvErrorSuccess (.ofCookie s.world.next))
  /-- An open that got an error or a panic leaves everything but its own state. -/
  | failed {uri : List UInt8} {info : StreamCbInfo} :
      (∀ st, (u.openFn s.world.opener (Utf8.fromUtf8Lossy uri)).1 ≠ .ok (.ok st)) →
      s'.world.boxes = s.world.boxes →
      s'.world.opener = (u.openFn s.world.opener (Utf8.fromUtf8Lossy uri)).2 →
      s'.world.next = s.world.next → s'.world.dropped = s.world.dropped →
      s'.live = s.live →
      Effect u t s s' (.openStream uri info, .opened mpvErrorLoadingFailed info)
  /-- A callback on an open stream reaches that stream alone. -/
  | called {cb : StreamCallback} {k : Cookie} {st : S} :
      cb.cookie = some k → cb ≠ .close k → s.world.boxes k = some st →
      s'.world.boxes = Function.update s.world.boxes k (some (u.advance t st cb)) →
      s'.world.opener = s.world.opener → s'.world.next = s.world.next →
      s'.world.dropped = s.world.dropped → s'.live = s.live →
      Effect u t s s' (cb, u.reply t st cb)
  /-- A close empties the box and drops the stream. -/
  | closed {k : Cookie} {st : S} :
      s.world.boxes k = some st →
      s'.world.boxes = Function.update s.world.boxes k none →
      s'.world.opener = s.world.opener → s'.world.next = s.world.next →
      s'.world.dropped = s.world.dropped ++ [k] → s'.live = s.live.filter (· ≠ k) →
      Effect u t s s' (.close k, .closed)

section Steps

variable {u : UserCode P E O S} {t : Target} {o : O} {s s' : Session O S}

/-- A callback on a stream leaves libmpv's cookies, unless it closes it. -/
theorem Session.track_stream {live : List Cookie} {cb : StreamCallback} {k : Cookie}
    {r : CallbackResult} (hk : cb.cookie = some k) (hc : cb ≠ .close k) :
    Session.track live cb r = live := by
  cases cb with
  | openStream _ _ => cases hk
  | close k' =>
      obtain rfl : k' = k := Option.some.inj hk
      exact absurd rfl hc
  | read _ _ _ | seek _ _ | size _ => cases r <;> rfl

/-- The inversion lemma for one callback, which is one that returned. -/
theorem Session.effect_of_step (hs : s.Valid)
    {e : StreamCallback × CallbackResult} (h : (streamSessions u t o).step s e s') :
    Session.Effect u t s s' e := by
  obtain ⟨cb, r⟩ := e
  obtain ⟨hlive, hrun, htrack⟩ := h
  cases hk : cb.cookie with
  | none =>
      cases cb with
      | openStream uri info =>
          rw [StreamCallback.run_open] at hrun
          obtain ⟨hr, hw⟩ := Prod.mk.inj hrun
          obtain ⟨-, rfl⟩ := Exit.after_eq_ret_iff.mp hr
          cases ho : (u.openFn s.world.opener (Utf8.fromUtf8Lossy uri)).1 with
          | ok res =>
              cases res with
              | ok st =>
                  rw [ho] at hw htrack
                  exact .opened ho (by rw [← hw]; rfl) (by rw [← hw]; rfl)
                    (by rw [← hw]; rfl) (by rw [← hw]; rfl) htrack
              | error e =>
                  rw [ho] at hw htrack
                  exact .failed (by rw [ho]; nofun) (by rw [← hw]; rfl)
                    (by rw [← hw]; rfl) (by rw [← hw]; rfl) (by rw [← hw]; rfl) htrack
          | error p =>
              rw [ho] at hw htrack
              exact .failed (by rw [ho]; nofun) (by rw [← hw]; rfl)
                (by rw [← hw]; rfl) (by rw [← hw]; rfl) (by rw [← hw]; rfl) htrack
      | read _ _ _ | seek _ _ | size _ | close _ => cases hk
  | some k =>
      obtain ⟨st, hst⟩ := (hs.boxed k).mp (hlive k hk)
      by_cases hc : cb = .close k
      · subst hc
        rw [StreamCallback.run_close hst] at hrun
        obtain ⟨hr, hw⟩ := Prod.mk.inj hrun
        obtain ⟨-, rfl⟩ := Exit.after_eq_ret_iff.mp hr
        exact .closed hst (by rw [← hw]; rfl) (by rw [← hw]; rfl) (by rw [← hw]; rfl)
          (by rw [← hw]; rfl) htrack
      · obtain ⟨w', hrun', hboxes, hopener, hnext, hdropped⟩ :=
          StreamCallback.run_stream (u := u) (t := t) hst hk hc
        rw [hrun'] at hrun
        obtain ⟨hr, rfl⟩ := Prod.mk.inj hrun
        obtain ⟨-, rfl⟩ := Exit.after_eq_ret_iff.mp hr
        exact .called hk hc hst hboxes hopener hnext hdropped
          (htrack.trans (Session.track_stream hk hc))

/-- With quiet destructors every callback on a cookie libmpv holds, and every open, returns. -/
theorem Session.step_exists (hq : u.Quiet) (hs : s.Valid) {cb : StreamCallback}
    (h : ∀ k ∈ cb.cookie, k ∈ s.live) : ∃ r s', (streamSessions u t o).step s (cb, r) s' := by
  have returns : ∀ {q r w'}, cb.run u t s.world = (.after q r, w') → q = none →
      ∃ r s', (streamSessions u t o).step s (cb, r) s' := by
    rintro q r w' hrun rfl
    exact ⟨r, ⟨w', Session.track s.live cb r⟩, h, hrun, rfl⟩
  cases hk : cb.cookie with
  | none =>
      cases cb with
      | openStream uri info => exact returns (StreamCallback.run_open uri info) (hq.caught _)
      | read _ _ _ | seek _ _ | size _ | close _ => cases hk
  | some k =>
      obtain ⟨st, hst⟩ := (hs.boxed k).mp (h k hk)
      by_cases hc : cb = .close k
      · subst hc
        exact returns (StreamCallback.run_close hst) hq.dropped
      · obtain ⟨w', hrun, -⟩ := StreamCallback.run_stream (u := u) (t := t) hst hk hc
        exact returns hrun (hq.leftBy cb)

/-- A callback keeps libmpv's cookies and the boxes in agreement. -/
theorem Session.Effect.valid {e : StreamCallback × CallbackResult} (hs : s.Valid)
    (h : Session.Effect u t s s' e) : s'.Valid := by
  cases h with
  | @opened uri info st _ hboxes _ hnext _ hlive =>
      constructor
      · intro k
        rw [hlive, hboxes, List.mem_cons, hs.boxed]
        by_cases hk : k = s.world.next
        · simp [hk]
        · simp [hk]
      · intro k hk
        rw [hlive, List.mem_cons] at hk
        rw [hnext]
        rcases hk with rfl | hk
        · exact Nat.lt_succ_self _
        · exact (hs.allocated k hk).trans (Nat.lt_succ_self _)
  | failed _ hboxes _ hnext _ hlive =>
      constructor
      · intro k
        rw [hlive, hboxes, hs.boxed]
      · intro k hk
        rw [hlive] at hk
        rw [hnext]
        exact hs.allocated k hk
  | @called cb k st _ _ hst hboxes _ hnext _ hlive =>
      constructor
      · intro k'
        rw [hlive, hboxes, hs.boxed]
        by_cases hk : k' = k
        · simp [hk, hst]
        · rw [Function.update_of_ne hk]
      · intro k' hk
        rw [hlive] at hk
        rw [hnext]
        exact hs.allocated k' hk
  | @closed k st _ hboxes _ hnext _ hlive =>
      constructor
      · intro k'
        rw [hlive, hboxes, List.mem_filter, hs.boxed]
        by_cases hk : k' = k
        · simp [hk]
        · simp [hk]
      · intro k' hk
        rw [hlive, List.mem_filter] at hk
        rw [hnext]
        exact hs.allocated k' hk.1

end Steps

/-! ### Whole sessions -/

/-- The callback that closes cookie `k`. -/
def StreamCallback.closes (k : Cookie) : StreamCallback → Bool
  | .close k' => k' = k
  | _ => false

/-- After the session `l`, a box holds the stream that the open of `k` in `l` got, as the
callbacks to `k` since then leave it when the stream runs alone. -/
def Plays (u : UserCode P E O S) (t : Target) (o : O) (k : Cookie)
    (l : List (StreamCallback × CallbackResult)) (box : Option S) : Prop :=
  ∃ l₁ uri info l₂ st,
    l = l₁ ++ (.openStream uri info, .opened mpvErrorSuccess (.ofCookie k)) :: l₂ ∧
    (u.openFn (u.openerAfter o (l₁.map Prod.fst)) (Utf8.fromUtf8Lossy uri)).1
      = .ok (.ok st) ∧
    (∀ e ∈ l₂, e.1.closes k = false) ∧
    box = some (u.replay t k st (l₂.map Prod.fst))

/-- What a session leaves behind. -/
structure Session.Recorded (u : UserCode P E O S) (t : Target) (o : O)
    (l : List (StreamCallback × CallbackResult)) (s : Session O S) : Prop where
  valid : s.Valid
  opener : s.world.opener = u.openerAfter o (l.map Prod.fst)
  plays : ∀ k ∈ s.live, Plays u t o k l (s.world.boxes k)
  closes : ∀ k, s.world.dropped.count k = l.countP fun e => e.1.closes k
  dropped : ∀ k, s.world.dropped.count k =
    if k < s.world.next ∧ k ∉ s.live then 1 else 0

section Runs

variable {u : UserCode P E O S} {t : Target} {o : O} {s s' : Session O S}
  {l : List (StreamCallback × CallbackResult)} {e : StreamCallback × CallbackResult}

/-- One callback more: it is replayed if it is addressed to the stream. -/
theorem UserCode.replay_append (k : Cookie) (st : S) (l : List StreamCallback)
    (cb : StreamCallback) : u.replay t k st (l ++ [cb]) =
      if cb.cookie = some k then u.advance t (u.replay t k st l) cb
      else u.replay t k st l := by
  unfold UserCode.replay
  rw [List.filter_append]
  by_cases h : cb.cookie = some k <;> simp [h]

/-- One callback more: an open changes the state behind the open function. -/
theorem UserCode.openerAfter_append (o : O) (l : List StreamCallback)
    (cb : StreamCallback) : u.openerAfter o (l ++ [cb]) =
      match cb with
      | .openStream uri _ => (u.openFn (u.openerAfter o l) (Utf8.fromUtf8Lossy uri)).2
      | _ => u.openerAfter o l := by
  simp only [UserCode.openerAfter, List.foldl_append, List.foldl_cons, List.foldl_nil]

/-- Another callback is not the close of the stream. -/
theorem StreamCallback.closes_eq_false {cb : StreamCallback} {k : Cookie}
    (hc : cb ≠ .close k) : cb.closes k = false := by
  cases cb with
  | close k' =>
      simp only [closes, decide_eq_false_iff_not]
      exact fun hk => hc (by rw [hk])
  | openStream _ _ | read _ _ _ | seek _ _ | size _ => rfl

/-- A callback that is not for `k` leaves what `k` plays as it is. -/
theorem Plays.other {k : Cookie} {box : Option S} (h : Plays u t o k l box)
    (he : e.1.cookie ≠ some k) : Plays u t o k (l ++ [e]) box := by
  obtain ⟨l₁, uri, info, l₂, st, rfl, hopen, hclose, rfl⟩ := h
  refine ⟨l₁, uri, info, l₂ ++ [e], st, by simp, hopen, ?_, ?_⟩
  · intro e' he'
    rcases List.mem_append.mp he' with h' | h'
    · exact hclose e' h'
    · obtain rfl := List.mem_singleton.mp h'
      exact StreamCallback.closes_eq_false fun hclose => he (by rw [hclose]; rfl)
  · rw [List.map_append, List.map_singleton, UserCode.replay_append, if_neg he]

/-- A callback for `k` that does not close it advances what `k` plays. -/
theorem Plays.call {k : Cookie} {st : S} (h : Plays u t o k l (some st))
    (he : e.1.cookie = some k) (hc : e.1 ≠ .close k) :
    Plays u t o k (l ++ [e]) (some (u.advance t st e.1)) := by
  obtain ⟨l₁, uri, info, l₂, st₀, rfl, hopen, hclose, hst⟩ := h
  refine ⟨l₁, uri, info, l₂ ++ [e], st₀, by simp, hopen, ?_, ?_⟩
  · intro e' he'
    rcases List.mem_append.mp he' with h' | h'
    · exact hclose e' h'
    · obtain rfl := List.mem_singleton.mp h'
      exact StreamCallback.closes_eq_false hc
  · rw [List.map_append, List.map_singleton, UserCode.replay_append, if_pos he,
      Option.some.inj hst]

/-- The step lemma: one callback extends the record by itself. -/
theorem Session.Recorded.step (hs : s.Recorded u t o l) (h : Session.Effect u t s s' e) :
    s'.Recorded u t o (l ++ [e]) := by
  have hvalid := h.valid hs.valid
  cases h with
  | @opened uri info st ho hboxes hopener hnext hdropped hlive =>
      refine ⟨hvalid, ?_, ?_, ?_, ?_⟩
      · rw [hopener, hs.opener, List.map_append, List.map_singleton,
          UserCode.openerAfter_append]
      · intro k hk
        rw [hlive, List.mem_cons] at hk
        by_cases hkn : k = s.world.next
        · subst hkn
          rw [hboxes, Function.update_self]
          refine ⟨l, uri, info, [], st, rfl, ?_, by simp, rfl⟩
          rw [← hs.opener]
          exact ho
        · rw [hboxes, Function.update_of_ne hkn]
          exact (hs.plays k (hk.resolve_left hkn)).other nofun
      · intro k
        rw [hdropped, hs.closes, List.countP_append]
        simp [StreamCallback.closes]
      · intro k
        rw [hdropped, hs.dropped, hnext, hlive]
        have hnew : s.world.next ∉ s.live := fun hmem =>
          absurd (hs.valid.allocated _ hmem) (lt_irrefl _)
        by_cases hkn : k = s.world.next
        · simp [hkn]
        · have hlt : k < s.world.next + 1 ↔ k < s.world.next :=
            ⟨fun h => lt_of_le_of_ne (Nat.lt_succ_iff.mp h) hkn, Nat.lt_succ_of_lt⟩
          simp [hkn, hlt]
  | @failed uri info _ hboxes hopener hnext hdropped hlive =>
      refine ⟨hvalid, ?_, ?_, ?_, ?_⟩
      · rw [hopener, hs.opener, List.map_append, List.map_singleton,
          UserCode.openerAfter_append]
      · intro k hk
        rw [hboxes]
        exact (hs.plays k (hlive ▸ hk)).other nofun
      · intro k
        rw [hdropped, hs.closes, List.countP_append]
        simp [StreamCallback.closes]
      · intro k
        rw [hdropped, hs.dropped, hnext, hlive]
  | @called cb k st hk hc hst hboxes hopener hnext hdropped hlive =>
      refine ⟨hvalid, ?_, ?_, ?_, ?_⟩
      · rw [hopener, hs.opener, List.map_append, List.map_singleton,
          UserCode.openerAfter_append]
        cases cb with
        | openStream _ _ => cases hk
        | read _ _ _ | seek _ _ | size _ | close _ => rfl
      · intro k' hk'
        have hplays := hs.plays k' (hlive ▸ hk')
        by_cases hkk : k' = k
        · subst hkk
          rw [hboxes, Function.update_self]
          exact (hst ▸ hplays).call hk hc
        · rw [hboxes, Function.update_of_ne hkk]
          refine hplays.other ?_
          simp only [hk]
          exact fun he => hkk (Option.some.inj he).symm
      · intro k'
        rw [hdropped, hs.closes, List.countP_append]
        have hno : cb.closes k' = false := by
          by_cases hkk : k' = k
          · subst hkk
            exact StreamCallback.closes_eq_false hc
          · refine StreamCallback.closes_eq_false ?_
            rintro rfl
            exact hkk (Option.some.inj hk)
        simp [hno]
      · intro k'
        rw [hdropped, hs.dropped, hnext, hlive]
  | @closed k st hst hboxes hopener hnext hdropped hlive =>
      have hmem : k ∈ s.live := (hs.valid.boxed k).mpr ⟨st, hst⟩
      refine ⟨hvalid, ?_, ?_, ?_, ?_⟩
      · rw [hopener, hs.opener, List.map_append, List.map_singleton,
          UserCode.openerAfter_append]
      · intro k' hk'
        rw [hlive, List.mem_filter] at hk'
        have hkk : k' ≠ k := by simpa using hk'.2
        rw [hboxes, Function.update_of_ne hkk]
        refine (hs.plays k' hk'.1).other ?_
        exact fun he => hkk (Option.some.inj he).symm
      · intro k'
        rw [hdropped, List.count_append, hs.closes, List.countP_append]
        by_cases hkk : k' = k
        · simp [StreamCallback.closes, hkk]
        · simp [StreamCallback.closes, Ne.symm hkk]
      · intro k'
        rw [hdropped, List.count_append, hs.dropped, hnext, hlive]
        simp only [List.mem_filter]
        by_cases hkk : k' = k
        · subst hkk
          simp [hmem, hs.valid.allocated k' hmem]
        · simp [hkk, Ne.symm hkk]

/-- The run lemma: what a session leaves behind. -/
theorem Session.recorded_of_run {s₀ : Session O S}
    (h₀ : (streamSessions u t o).init s₀) (h : Lts.Run (streamSessions u t o) s₀ l s) :
    s.Recorded u t o l := by
  refine Lts.Run.history (I := fun l s => s.Recorded u t o l) ?_ ?_ h
  · obtain rfl := h₀
    exact ⟨⟨by simp, by simp⟩, rfl, by simp, by simp, by simp⟩
  · intro l s e s' hs hstep
    exact hs.step (Session.effect_of_step hs.valid hstep)

end Runs

/-! ### What libmpv is told -/

/-- What a read of `nbytes` may tell libmpv when the stream's `read` ended as `o`. -/
structure ReadSpec (t : Target) (nbytes : UInt64)
    (o : Except P (Except (IoError E) ℕ)) (r : Int64) : Prop where
  failed : r = -1 ↔ ∀ n, o ≠ .ok (.ok n)
  count : ∀ n, o = .ok (.ok n) →
    r.toInt = min (n : ℤ) (min (nbytes.toNat : ℤ) (t.isizeMax : ℤ))
  range : IsReadResult nbytes r

/-- What a seek may tell libmpv when the stream's `seek` ended as `o`. -/
def SeekSpec (o : Except P (Except (IoError E) UInt64)) (r : Int64) : Prop :=
  match o with
  | .ok (.ok pos) => r.toInt = if pos.toNat < 2 ^ 63 then (pos.toNat : ℤ) else mpvErrorGeneric
  | .ok (.error e) =>
    r.toInt = if e.kind = .unsupported then mpvErrorUnsupported else mpvErrorGeneric
  | .error _ => r.toInt = mpvErrorGeneric

/-- What `size_fn` may tell libmpv when the stream's `size` ended as `o`. -/
def SizeSpec (o : Except P (Option UInt64)) (r : Int64) : Prop :=
  match o with
  | .ok (some n) => r.toInt = if n.toNat < 2 ^ 63 then (n.toNat : ℤ) else mpvErrorUnsupported
  | _ => r.toInt = mpvErrorUnsupported

/-- The slice of a read covers the buffer up to the largest slice there can be. -/
theorem Target.sliceLen_eq (t : Target) (nbytes : UInt64) :
    t.sliceLen nbytes = min nbytes.toNat t.isizeMax := by
  have hmax : t.isizeMax ≤ t.usizeMax := by cases t <;> decide
  rw [sliceLen, usizeTryFrom]
  split
  · rfl
  · next h =>
      rw [Option.getD_none, min_eq_right hmax, min_eq_right]
      omega

/-- A read is answered as specified. -/
theorem readSpec_readResult (t : Target) (nbytes : UInt64)
    (o : Except P (Except (IoError E) ℕ)) :
    ReadSpec t nbytes o (readResult (t.sliceLen nbytes) o) := by
  have hcount : ∀ n, (Int64.ofNat (min n (t.sliceLen nbytes))).toInt =
      min (n : ℤ) (min (nbytes.toNat : ℤ) (t.isizeMax : ℤ)) := by
    intro n
    have h := t.sliceLen_lt nbytes
    rw [Int64.toInt_ofNat_of_lt (by omega), t.sliceLen_eq]
    omega
  refine ⟨?_, ?_, isReadResult_readResult t nbytes o⟩
  · cases o with
    | ok r =>
        cases r with
        | ok n =>
            refine ⟨fun h => ?_, fun h => absurd rfl (h n)⟩
            have e := hcount n
            simp only [readResult] at h
            rw [h] at e
            have hneg : (-1 : Int64).toInt = -1 := by decide
            rw [hneg] at e
            omega
        | error e => exact ⟨fun _ => nofun, fun _ => rfl⟩
    | error p => exact ⟨fun _ => nofun, fun _ => rfl⟩
  · rintro n rfl
    exact hcount n

/-- A `u64` that does not fit `i64` is replaced by the error code. -/
theorem toInt_i64TryFrom_getD (n : UInt64) {code : CInt} (h1 : -2 ^ 63 ≤ code)
    (h2 : code < 2 ^ 63) : ((i64TryFrom n).getD (Int64.ofInt code)).toInt =
      if n.toNat < 2 ^ 63 then (n.toNat : ℤ) else code := by
  rw [i64TryFrom]
  split
  · next h => rw [Option.getD_some, Int64.toInt_ofNat_of_lt h]
  · rw [Option.getD_none, Int64.toInt_ofInt_of_le h1 h2]

/-- A seek is answered as specified. -/
theorem seekSpec_seekResult (o : Except P (Except (IoError E) UInt64)) :
    SeekSpec o (seekResult o) := by
  cases o with
  | ok r =>
      cases r with
      | ok pos => exact toInt_i64TryFrom_getD pos (by decide) (by decide)
      | error e =>
          simp only [SeekSpec, seekResult]
          split <;> decide
  | error p => exact (by decide : (Int64.ofInt mpvErrorGeneric).toInt = mpvErrorGeneric)

/-- A question for the size is answered as specified. -/
theorem sizeSpec_sizeResult (o : Except P (Option UInt64)) :
    SizeSpec o (sizeResult o) := by
  have hcode : (Int64.ofInt mpvErrorUnsupported).toInt = mpvErrorUnsupported := by decide
  cases o with
  | ok r =>
      cases r with
      | some n => exact toInt_i64TryFrom_getD n (by decide) (by decide)
      | none => exact hcode
  | error p => exact hcode

/-- A negative offset is no `u64`. -/
theorem u64TryFrom_of_neg {n : Int64} (h : n.toInt < 0) : u64TryFrom n = none :=
  if_neg (Int.not_le.mpr h)

/-- Another offset is one. -/
theorem u64TryFrom_of_nonneg {n : Int64} (h : 0 ≤ n.toInt) :
    u64TryFrom n = some (UInt64.ofNat n.toInt.toNat) :=
  if_pos h

/-- What libmpv is told when it calls back into a stream in state `st`, and what the
stream's box holds afterwards. A seek to a negative offset does not reach the stream. -/
def Answered (u : UserCode P E O S) (t : Target) (st : S) (cb : StreamCallback)
    (r : CallbackResult) (box : Option S) : Prop :=
  match cb with
  | .openStream _ _ => False
  | .read _ buf nbytes =>
    let called := u.read st (t.sliceLen nbytes) fun i => buf i
    box = some called.2.2 ∧ ∃ n, r = .read n (overwrite buf called.2.1) ∧
      ReadSpec t nbytes called.1 n
  | .seek _ offset =>
    let called := u.seek st (UInt64.ofNat offset.toInt.toNat)
    if offset.toInt < 0 then
      box = some st ∧ ∃ n, r = .position n ∧ n.toInt = mpvErrorGeneric
    else box = some called.2 ∧ ∃ n, r = .position n ∧ SeekSpec called.1 n
  | .size _ => box = some (u.size st).2 ∧ ∃ n, r = .position n ∧ SizeSpec (u.size st).1 n
  | .close _ => box = none ∧ r = .closed

/-- The reply of a stream is the specified answer. -/
theorem answered_reply (u : UserCode P E O S) (t : Target) (st : S) {cb : StreamCallback}
    {k : Cookie} (hk : cb.cookie = some k) (hc : cb ≠ .close k) :
    Answered u t st cb (u.reply t st cb) (some (u.advance t st cb)) := by
  cases cb with
  | openStream _ _ => cases hk
  | read _ buf nbytes => exact ⟨rfl, _, rfl, readSpec_readResult t nbytes _⟩
  | seek _ offset =>
      simp only [Answered, UserCode.reply, UserCode.advance]
      by_cases hneg : offset.toInt < 0
      · rw [if_pos hneg, u64TryFrom_of_neg hneg]
        exact ⟨rfl, _, rfl, by decide⟩
      · rw [if_neg hneg, u64TryFrom_of_nonneg (Int.not_lt.mp hneg)]
        exact ⟨rfl, _, rfl, seekSpec_seekResult _⟩
  | size _ => exact ⟨rfl, _, rfl, sizeSpec_sizeResult _⟩
  | close k' => exact absurd (by rw [Option.some.inj hk]) hc

/-! ### The simulation -/

/-- **Stream sessions simulate the user's streams.** Whatever the user's open function and
streams do, as long as the destructors of returned errors and panic payloads do not
panic, in every session of libmpv:

* every open, and every callback on a cookie between its open and its close, returns;
* an open that got a stream hands out a new cookie for it, and one that got an error or
  a panic returns `MPV_ERROR_LOADING_FAILED`, leaves the info struct as it was and creates
  no cookie;
* a callback on a cookie reaches the stream of that cookie and no other, and is answered
  as specified for what that stream did;
* the stream of an open cookie is in the state its own callbacks alone have brought it
  to, panics included, from the state its open returned it in;
* the destructor of a stream has run once if its cookie was closed, and not before. -/
theorem stream_sessions_simulate (u : UserCode P E O S) (hq : u.Quiet) (t : Target) (o : O)
    (l : List (StreamCallback × CallbackResult)) (s₀ s : Session O S)
    (h₀ : (streamSessions u t o).init s₀) (h : Lts.Run (streamSessions u t o) s₀ l s) :
    (∀ cb : StreamCallback, (∀ k ∈ cb.cookie, k ∈ s.live) →
      ∃ r s', (streamSessions u t o).step s (cb, r) s') ∧
    (∀ uri info r s', (streamSessions u t o).step s (.openStream uri info, r) s' →
      (∃ st, (u.openFn s.world.opener (Utf8.fromUtf8Lossy uri)).1 = .ok (.ok st) ∧
        r = .opened mpvErrorSuccess (.ofCookie s.world.next) ∧ s.world.next ∉ s.live ∧
        s'.live = s.world.next :: s.live ∧
        s'.world.boxes = Function.update s.world.boxes s.world.next (some st)) ∨
      ((∀ st, (u.openFn s.world.opener (Utf8.fromUtf8Lossy uri)).1 ≠ .ok (.ok st)) ∧
        r = .opened mpvErrorLoadingFailed info ∧ s'.live = s.live ∧
        s'.world.boxes = s.world.boxes)) ∧
    (∀ cb k r s', cb.cookie = some k → (streamSessions u t o).step s (cb, r) s' →
      (∃ st, s.world.boxes k = some st ∧ Answered u t st cb r (s'.world.boxes k)) ∧
      ∀ k', k' ≠ k → s'.world.boxes k' = s.world.boxes k') ∧
    (∀ k ∈ s.live, Plays u t o k l (s.world.boxes k)) ∧
    ∀ k, s.world.dropped.count k = (l.countP fun e => e.1.closes k) ∧
      s.world.dropped.count k = if k < s.world.next ∧ k ∉ s.live then 1 else 0 := by
  have hs := Session.recorded_of_run h₀ h
  refine ⟨fun cb hcb => Session.step_exists hq hs.valid hcb, ?_, ?_, hs.plays,
    fun k => ⟨hs.closes k, hs.dropped k⟩⟩
  · intro uri info r s' hstep
    cases Session.effect_of_step hs.valid hstep with
    | opened ho hboxes _ _ _ hlive =>
        refine .inl ⟨_, ho, rfl, fun hmem => ?_, hlive, hboxes⟩
        exact absurd (hs.valid.allocated _ hmem) (lt_irrefl _)
    | failed ho hboxes _ _ _ hlive => exact .inr ⟨ho, rfl, hlive, hboxes⟩
    | called hk => cases hk
  · intro cb k r s' hk hstep
    cases Session.effect_of_step hs.valid hstep with
    | opened | failed => cases hk
    | @called _ k' st hk' hc hst hboxes _ _ _ _ =>
        obtain rfl : k' = k := Option.some.inj (hk'.symm.trans hk)
        refine ⟨⟨st, hst, ?_⟩, fun k'' hne => by rw [hboxes, Function.update_of_ne hne]⟩
        rw [hboxes, Function.update_self]
        exact answered_reply u t st hk' hc
    | @closed k' st hst hboxes _ _ hdropped hlive =>
        obtain rfl : k' = k := Option.some.inj hk
        refine ⟨⟨st, hst, ?_, rfl⟩, fun k'' hne => by
          rw [hboxes, Function.update_of_ne hne]⟩
        rw [hboxes, Function.update_self]

/-- A stream of four bytes that reports more than it was asked for, and panics when it is
asked for its size. -/
def boastingStream : UserCode Unit Unit Unit ℕ where
  openFn o _ := (.ok (.ok 0), o)
  read s _ buf := (.ok (.ok 1000), buf, s + 1)
  seek s _ := (.ok (.error ⟨.unsupported, none⟩), s)
  size s := (.error (), s + 1)
  dropStream _ := none
  dropError _ := none
  dropPayload _ := none

/-- It is clamped: after it is opened, a read of 16 bytes reports at most 16. -/
theorem boastingStream_clamped : ∃ (s s' : Session Unit ℕ) (n : Int64) (buf : ℕ → UInt8),
    (streamSessions boastingStream .bits64 ()).step s
      (.read 0 (fun _ => 0) 16, .read n buf) s' ∧ n.toInt = 16 := by
  have hq : boastingStream.Quiet := ⟨fun _ => rfl, fun _ => rfl⟩
  have hopen : (streamSessions boastingStream .bits64 ()).step { world := { opener := () } }
      (.openStream [] ⟨none, none, none, none, none, none⟩,
        .opened mpvErrorSuccess (.ofCookie 0))
      ⟨{ opener := (), boxes := Function.update (fun _ => none) 0 (some 0), next := 1 }, [0]⟩ :=
    ⟨nofun, by rw [StreamCallback.run_open]; rfl, rfl⟩
  obtain ⟨hreturns, -, hanswer, -, -⟩ := stream_sessions_simulate boastingStream hq .bits64 ()
    _ _ _ rfl (Lts.Run.nil.snoc hopen)
  obtain ⟨r, s', hread⟩ := hreturns (.read 0 (fun _ => 0) 16) (by simp [StreamCallback.cookie])
  obtain ⟨⟨st, hst, -, n, rfl, hn⟩, -⟩ := hanswer _ 0 r s' rfl hread
  exact ⟨_, s', n, _, hread, hn.count 1000 rfl⟩

end Rsmpv
