import Rsmpv.Stream.Sessions

/-!
# Streams that Cannot Seek

A type that implements `Stream` (`stream_cb.rs`) by `read` alone has the default methods: `seek`
returns `io::ErrorKind::Unsupported`, and `size` returns `None`. libmpv finds out by trying, at
first right after opening a stream, and may try again at any time. A probe of such a stream is
answered with `MPV_ERROR_UNSUPPORTED` and leaves the session as it is (`Session.probe_eq`),
so the probes can be taken out of a session (`default_probes_invisible`).

## Main results

* `run_probe_eq`: a probe that returns left everything as it was, whatever the destructors
  of the user's values do.
* `Session.probe_eq`, `Session.probe_step`: a step of a session that is a probe stutters,
  and every open stream can be probed.
* `default_probes_invisible`: so a session is one without its probes, with the same streams
  at its end.
-/

namespace Rsmpv

open Unwind StreamWorld

variable {P E O S : Type}

/-! ### The default methods -/

namespace DefaultStream

/-- The default `Stream::seek`. -/
def seek (s : S) (_ : UInt64) : Except P (Except (IoError E) UInt64) × S :=
  (.ok (.error ⟨.unsupported, none⟩), s)

/-- The default `Stream::size`. -/
def size (s : S) : Except P (Option UInt64) × S := (.ok none, s)

end DefaultStream

/-- The user's code with the default methods for every stream. -/
def UserCode.withDefaults (u : UserCode P E O S) : UserCode P E O S :=
  { u with
    seek := DefaultStream.seek
    size := DefaultStream.size }

/-! ### Probes -/

/-- libmpv tries to seek, or asks for the size. -/
def StreamCallback.isProbe : StreamCallback → Bool
  | .seek _ _ | .size _ => true
  | _ => false

/-- What a probe is answered with. -/
def StreamCallback.refusal : StreamCallback → CallbackResult
  | .seek _ offset =>
    .position (Int64.ofInt (if offset.toInt < 0 then mpvErrorGeneric else mpvErrorUnsupported))
  | _ => .position (Int64.ofInt mpvErrorUnsupported)

/-- A probe is for a stream, and leaves it open. -/
theorem StreamCallback.exists_cookie {cb : StreamCallback} (hprobe : cb.isProbe = true) :
    ∃ k, cb.cookie = some k ∧ cb ≠ .close k := by
  cases cb with
  | openStream _ _ | read _ _ _ | close _ => cases hprobe
  | seek k _ | size k => exact ⟨k, rfl, nofun⟩

section Probes

variable {u : UserCode P E O S} {t : Target} {o : O} {w : StreamWorld O S} {k : Cookie}

/-- A stream that stays in its state. -/
theorem setStream_self {s : S} (h : w.boxes k = some s) : w.setStream k s = w := by
  rw [setStream, ← h, Function.update_eq_self]

/-- A probe of an open stream. -/
theorem run_probe {s : S} (h : w.boxes k = some s) {cb : StreamCallback} (hk : cb.cookie = some k)
    (hprobe : cb.isProbe = true) : cb.run u.withDefaults t w = (.ret cb.refusal, w) := by
  cases cb with
  | openStream _ _ | read _ _ _ | close _ => cases hprobe
  | seek k' offset =>
      obtain rfl : k' = k := Option.some.inj hk
      simp only [StreamCallback.run_seek, bind_apply, StreamCallback.refusal]
      by_cases hneg : offset.toInt < 0
      · rw [andThen_ret (seekTrampoline_negative (u64TryFrom_of_neg hneg)), if_pos hneg]
        rfl
      · have e : seekTrampoline u.withDefaults k' offset w =
            (.ret (Int64.ofInt mpvErrorUnsupported), w.setStream k' s) :=
          seekTrampoline_apply h (u64TryFrom_of_nonneg (Int.not_lt.mp hneg))
        rw [setStream_self h] at e
        rw [andThen_ret e, if_neg hneg]
        rfl
  | size k' =>
      obtain rfl : k' = k := Option.some.inj hk
      have e : sizeTrampoline u.withDefaults k' w =
          (.ret (Int64.ofInt mpvErrorUnsupported), w.setStream k' s) := sizeTrampoline_apply h
      rw [setStream_self h] at e
      rw [StreamCallback.run_size, bind_apply, andThen_ret e]
      rfl

/-- A probe that returns left everything as it was. -/
theorem run_probe_eq {cb : StreamCallback} (hprobe : cb.isProbe = true) {r : CallbackResult}
    {w' : StreamWorld O S} (hrun : cb.run u.withDefaults t w = (.ret r, w')) :
    r = cb.refusal ∧ w' = w := by
  obtain ⟨k, hk, -⟩ := cb.exists_cookie hprobe
  cases hbox : w.boxes k with
  | some s =>
      rw [run_probe hbox hk hprobe] at hrun
      obtain ⟨hr, hw⟩ := Prod.mk.inj hrun
      exact ⟨(Exit.ret.inj hr).symm, hw.symm⟩
  | none =>
      cases cb with
      | openStream _ _ | read _ _ _ | close _ => cases hprobe
      | seek k' offset =>
          obtain rfl : k' = k := Option.some.inj hk
          by_cases hneg : offset.toInt < 0
          · simp only [StreamCallback.run_seek, bind_apply, StreamCallback.refusal,
              if_pos hneg] at hrun ⊢
            rw [andThen_ret (seekTrampoline_negative (u64TryFrom_of_neg hneg))] at hrun
            obtain ⟨hr, hw⟩ := Prod.mk.inj hrun
            exact ⟨(Exit.ret.inj hr).symm, hw.symm⟩
          · simp [StreamCallback.run_seek, andThen, seekTrampoline, catchUnwind, callStream, hbox,
              u64TryFrom_of_nonneg (Int.not_lt.mp hneg)] at hrun
      | size k' =>
          obtain rfl : k' = k := Option.some.inj hk
          simp [StreamCallback.run_size, andThen, sizeTrampoline, catchUnwind, callStream,
            hbox] at hrun

/-- A step that is a probe. -/
theorem Session.probe_eq {s s' : Session O S} {e : StreamCallback × CallbackResult}
    (hprobe : e.1.isProbe = true) (h : (streamSessions u.withDefaults t o).step s e s') :
    e.2 = e.1.refusal ∧ s' = s := by
  obtain ⟨-, hrun, htrack⟩ := h
  obtain ⟨hr, hworld⟩ := run_probe_eq hprobe hrun
  obtain ⟨k, hk, hc⟩ := e.1.exists_cookie hprobe
  obtain ⟨world, live⟩ := s'
  refine ⟨hr, ?_⟩
  obtain rfl : world = s.world := hworld
  obtain rfl : live = s.live := htrack.trans (Session.track_stream hk hc)
  rfl

/-- A probe of a stream that is open. -/
theorem Session.probe_step {s : Session O S} (hs : s.Valid) {cb : StreamCallback}
    (hprobe : cb.isProbe = true) (hlive : ∀ k ∈ cb.cookie, k ∈ s.live) :
    (streamSessions u.withDefaults t o).step s (cb, cb.refusal) s := by
  obtain ⟨k, hk, hc⟩ := cb.exists_cookie hprobe
  obtain ⟨st, hst⟩ := (hs.boxed k).mp (hlive k hk)
  exact ⟨hlive, run_probe hst hk hprobe, (Session.track_stream hk hc).symm⟩

end Probes

/-- **Probing a stream that cannot seek has no effect.** In every session of streams with the
default methods: each probe was refused; the session without its probes is one as well, with the
same results and ending in the same state; and whatever has happened, libmpv can probe each open
stream, and is refused. Of the user's other code nothing is assumed. -/
theorem default_probes_invisible (u : UserCode P E O S) (t : Target) (o : O)
    (l : List (StreamCallback × CallbackResult)) (s₀ s : Session O S)
    (h₀ : (streamSessions u.withDefaults t o).init s₀)
    (h : (streamSessions u.withDefaults t o).Run s₀ l s) :
    (∀ e ∈ l, e.1.isProbe = true → e.2 = e.1.refusal) ∧
    (streamSessions u.withDefaults t o).Run s₀ (l.filter fun e => !e.1.isProbe) s ∧
    ∀ cb : StreamCallback, cb.isProbe = true → (∀ k ∈ cb.cookie, k ∈ s.live) →
      (streamSessions u.withDefaults t o).step s (cb, cb.refusal) s := by
  refine ⟨?_, ?_, fun cb => ?_⟩
  · refine h.history (I := fun l _ => ∀ e ∈ l, e.1.isProbe = true → e.2 = e.1.refusal) (by simp) ?_
    intro l s e s' ih hstep e' he' hprobe
    rcases List.mem_append.mp he' with hold | hnew
    · exact ih e' hold hprobe
    · obtain rfl := List.mem_singleton.mp hnew
      exact (Session.probe_eq hprobe hstep).1
  · refine h.erase fun s e s' hstep he => ?_
    exact (Session.probe_eq (by simpa using he) hstep).2
  · -- Every callback of the session returned, so the boxes are those of the open streams.
    exact Session.probe_step (Session.recorded_of_run h₀ h).valid

/-- A stream that was opened is probed. -/
theorem default_probes_invisible_open : ∃ s : Session Unit ℕ,
    (streamSessions boastingStream.withDefaults .bits64 ()).Run { world := { opener := () } }
      [(.openStream [] ⟨none, none, none, none, none, none⟩,
        .opened mpvErrorSuccess (.ofCookie 0))] s ∧
    (streamSessions boastingStream.withDefaults .bits64 ()).step s
      (.seek 0 0, .position (Int64.ofInt mpvErrorUnsupported)) s := by
  have hopen : (streamSessions boastingStream.withDefaults .bits64 ()).step
      { world := { opener := () } }
      (.openStream [] ⟨none, none, none, none, none, none⟩,
        .opened mpvErrorSuccess (.ofCookie 0))
      ⟨{ opener := (), boxes := Function.update (fun _ => none) 0 (some 0), next := 1 }, [0]⟩ :=
    ⟨nofun, by rw [StreamCallback.run_open]; rfl, rfl⟩
  obtain ⟨-, -, hprobes⟩ := default_probes_invisible boastingStream .bits64 () _ _ _ rfl
    (Lts.Run.nil.snoc hopen)
  exact ⟨_, Lts.Run.nil.snoc hopen, hprobes (.seek 0 0) rfl
    (by simp [StreamCallback.cookie])⟩

end Rsmpv
