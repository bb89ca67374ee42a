import Rsmpv.Stream.Trampolines

/-!
# No Unwinding into libmpv

Seven `extern "C"` functions stand between libmpv and user code: the slot trampoline, the
`get_proc_address` trampoline, and the five of a stream. All of them call user code inside
`catch_unwind`, and the slot trampoline also drops its clone of the closure there. What
they do not guard is the drop of the result they match on: a caught panic payload, and the
`io::Error` a `read` or a `seek` returned, are values of the user's, and their destructors
run after the guard has ended.

`trampolines_return_iff` says when a trampoline returns: exactly when the destructor of
what the guarded call left does not panic — and, for the slot, when the destructor of the
closure does not panic while a panic of its call unwinds.

## Main results

* `callbackTrampoline_returns_iff`: the slot trampoline, with a clone that may be the last
  one.
* `getProcAddressTrampoline_apply`: a panic is a null pointer, unless its payload panics in
  turn.
* `isReadResult_readResult` and the lemmas next to it: a value that is returned is one
  libmpv allows.
* `trampolines_return_iff`: all of them together.
-/

namespace Rsmpv

open Unwind

/-! ### The two callbacks without a stream -/

/-- A closure stored in a slot, over a world `W`: its call, and the release of one clone of
it, which runs its destructor if the clone is the last. -/
structure Closure (P W : Type) where
  call : W → Except P Unit × W
  release : W → Except P Unit × W

variable {P W : Type}

/-- `CallbackSlot::trampoline` with the content it clones out of the slot. -/
def callbackTrampoline (dropPayload : P → Option P) (slot : Option (Closure P W)) :
    Unwind P W Unit := do
  match slot with
  | none => pure ()
  | some callback =>
    let result ← catchUnwind (scope (call callback.call) (call callback.release))
    match result with
    | .ok _ => pure ()
    | .error payload => destructor (dropPayload payload)

/-- A C pointer; null is zero. -/
abbrev Pointer := ℕ

/-- `get_proc_address_trampoline`. A name that is not valid UTF-8 is looked up as the
empty string. -/
def getProcAddressTrampoline (dropPayload : P → Option P)
    (f : W → String → Except P Pointer × W) (name : List UInt8) : Unwind P W Pointer := do
  let result ← catchUnwind
    (call fun w => f w ((String.fromUTF8? name.toByteArray).getD ""))
  match result with
  | .ok address => pure address
  | .error payload =>
    destructor (dropPayload payload)
    pure 0

/-- What the guarded block of the slot trampoline does, seen from outside: both the call
and the release of the clone return or panic. -/
def Closure.quiet (c : Closure P W) (dropPayload : P → Option P) (w : W) : Prop :=
  match (c.call w).1, (c.release (c.call w).2).1 with
  | .ok _, .ok _ => True
  | .ok _, .error payload => dropPayload payload = none
  | .error payload, .ok _ => dropPayload payload = none
  | .error _, .error _ => False

/-- The slot trampoline returns exactly when what it drops outside the guard does not
panic and no second panic meets the first. -/
theorem callbackTrampoline_returns_iff (dropPayload : P → Option P) (c : Closure P W)
    (w : W) : (callbackTrampoline dropPayload (some c)).Returns w (fun _ => True) ↔
      c.quiet dropPayload w := by
  obtain ⟨hcall, hrelease⟩ : (∃ r w₁, c.call w = (r, w₁)) ∧
      ∃ r w₂, c.release (c.call w).2 = (r, w₂) := ⟨⟨_, _, rfl⟩, ⟨_, _, rfl⟩⟩
  obtain ⟨r, w₁, h1⟩ := hcall
  obtain ⟨d, w₂, h2⟩ := hrelease
  rw [h1] at h2
  simp only [Returns, callbackTrampoline, bind_apply, Closure.quiet, h1, h2]
  cases r with
  | ok a =>
      cases d with
      | ok _ =>
          simp [andThen, catchUnwind, scope, call, h1, h2, Unwind.ret]
      | error p =>
          simp [andThen, catchUnwind, scope, call, h1, h2, destructor_apply,
            Exit.after_eq_ret_iff]
  | error p =>
      cases d with
      | ok _ =>
          simp [andThen, catchUnwind, scope, call, h1, h2, destructor_apply,
            Exit.after_eq_ret_iff]
      | error q =>
          simp [andThen, catchUnwind, scope, call, h1, h2]

/-- What `get_proc_address_trampoline` does: a name that is not UTF-8 is looked up as the empty one,
and a panic is answered with a null pointer. -/
theorem getProcAddressTrampoline_apply (dropPayload : P → Option P)
    (f : W → String → Except P Pointer × W) (name : List UInt8) (w : W) :
    getProcAddressTrampoline dropPayload f name w =
      match (f w ((String.fromUTF8? name.toByteArray).getD "")).1 with
      | .ok address => (.ret address, (f w ((String.fromUTF8? name.toByteArray).getD "")).2)
      | .error payload => (.after (dropPayload payload) 0,
          (f w ((String.fromUTF8? name.toByteArray).getD "")).2) := by
  simp only [getProcAddressTrampoline, bind_apply]
  rw [andThen_ret catchUnwind_call]
  cases (f w ((String.fromUTF8? name.toByteArray).getD "")).1 with
  | ok _ => rfl
  | error _ => exact destructor_andThen_ret _ _ _

/-! ### The results libmpv knows -/

/-- The values `open_fn` may return. -/
def IsOpenResult (r : CInt × StreamCbInfo) : Prop :=
  r.1 = mpvErrorSuccess ∨ r.1 = mpvErrorLoadingFailed

/-- The values `read_fn` may return for a buffer of `nbytes`. -/
def IsReadResult (nbytes : UInt64) (r : Int64) : Prop :=
  r = -1 ∨ (0 ≤ r.toInt ∧ r.toInt ≤ nbytes.toNat)

/-- The values `seek_fn` may return. -/
def IsSeekResult (r : Int64) : Prop :=
  r = Int64.ofInt mpvErrorGeneric ∨ r = Int64.ofInt mpvErrorUnsupported ∨ 0 ≤ r.toInt

/-- The values `size_fn` may return. -/
def IsSizeResult (r : Int64) : Prop :=
  r = Int64.ofInt mpvErrorUnsupported ∨ 0 ≤ r.toInt

variable {E O S : Type}

/-- A result is the error code or not negative. -/
theorem i64TryFrom_getD (n : UInt64) (e : Int64) :
    (i64TryFrom n).getD e = e ∨ 0 ≤ ((i64TryFrom n).getD e).toInt := by
  rw [i64TryFrom]
  split
  · next h =>
      right
      rw [Option.getD_some, Int64.toInt_ofNat_of_lt h]
      omega
  · exact .inl rfl

/-- An open returns success or `MPV_ERROR_LOADING_FAILED`. -/
theorem isOpenResult_openResult (next : Cookie) (info : StreamCbInfo)
    (o : Except P (Except Error S)) : IsOpenResult (openResult next info o) := by
  unfold openResult
  split
  · exact .inl rfl
  · exact .inr rfl

/-- A slice is no longer than libmpv's buffer. -/
theorem Target.sliceLen_le (t : Target) (nbytes : UInt64) : t.sliceLen nbytes ≤ nbytes.toNat := by
  rw [sliceLen, usizeTryFrom]
  split
  · exact min_le_left _ _
  · next h => exact le_trans (min_le_left _ _) (le_of_lt (not_le.mp h))

/-- The length of a slice fits an `i64`. -/
theorem Target.sliceLen_lt (t : Target) (nbytes : UInt64) : t.sliceLen nbytes < 2 ^ 63 := by
  have hmax : t.isizeMax < 2 ^ 63 := by cases t <;> decide
  exact lt_of_le_of_lt (min_le_right _ _) hmax

/-- A read returns -1, or no more bytes than it was asked for. -/
theorem isReadResult_readResult (t : Target) (nbytes : UInt64)
    (o : Except P (Except (IoError E) ℕ)) :
    IsReadResult nbytes (readResult (t.sliceLen nbytes) o) := by
  unfold readResult
  split
  · next n =>
      have h1 := t.sliceLen_le nbytes
      have h2 := t.sliceLen_lt nbytes
      have h3 : min n (t.sliceLen nbytes) ≤ t.sliceLen nbytes := min_le_right _ _
      right
      rw [Int64.toInt_ofNat_of_lt (by omega)]
      omega
  · exact .inl rfl

/-- A seek returns a position or an error code. -/
theorem isSeekResult_seekResult (o : Except P (Except (IoError E) UInt64)) :
    IsSeekResult (seekResult o) := by
  unfold seekResult
  split
  · next pos =>
      rcases i64TryFrom_getD pos (Int64.ofInt mpvErrorGeneric) with h | h
      · exact .inl h
      · exact .inr (.inr h)
  · next e =>
      split
      · exact .inr (.inl rfl)
      · exact .inl rfl
  · exact .inl rfl

/-- A question for the size is answered with a size or an error code. -/
theorem isSizeResult_sizeResult (o : Except P (Option UInt64)) :
    IsSizeResult (sizeResult o) := by
  unfold sizeResult
  split
  · next size => exact i64TryFrom_getD size _
  · exact .inl rfl

/-! ### When a trampoline returns -/

/-- **No unwinding into libmpv, exactly when.** Whatever user code does, each trampoline
returns to libmpv, with a value libmpv knows, if and only if no destructor panics outside
the guard: that of the caught payload of a panic, that of the `io::Error` returned by
`read` or `seek`, and in the slot trampoline that of the closure while a panic of its
call unwinds. -/
theorem trampolines_return_iff (u : UserCode P E O S) (t : Target) :
    (∀ (slot : Option (Closure P W)) (v : W),
      (callbackTrampoline u.dropPayload slot).Returns v (fun _ => True) ↔
        ∀ c ∈ slot, c.quiet u.dropPayload v) ∧
    (∀ (f : W → String → Except P Pointer × W) (name : List UInt8) (v : W),
      (getProcAddressTrampoline u.dropPayload f name).Returns v (fun _ => True) ↔
        u.caught (f v ((String.fromUTF8? name.toByteArray).getD "")).1 = none) ∧
    (∀ (w : StreamWorld O S) (uri : List UInt8) (info : StreamCbInfo),
      (openTrampoline u uri info).Returns w IsOpenResult ↔
        u.caught (u.openFn w.opener (Utf8.fromUtf8Lossy uri)).1 = none) ∧
    ∀ (w : StreamWorld O S) (k : Cookie) (s : S), w.boxes k = some s →
      (∀ nbytes, (readTrampoline u t k nbytes).Returns w (IsReadResult nbytes) ↔
        u.leftover (u.read s (t.sliceLen nbytes) (w.slice (t.sliceLen nbytes))).1 = none) ∧
      (∀ offset, (seekTrampoline u k offset).Returns w IsSeekResult ↔
        ∀ o, u64TryFrom offset = some o → u.leftover (u.seek s o).1 = none) ∧
      ((sizeTrampoline u k).Returns w IsSizeResult ↔ u.caught (u.size s).1 = none) ∧
      ((closeTrampoline u k).Returns w (fun _ => True) ↔
        (u.dropStream s).bind u.dropPayload = none) := by
  refine ⟨fun slot v => ?_, fun f name v => ?_, fun w uri info => ?_, fun w k s h =>
    ⟨fun nbytes => ?_, fun offset => ?_, ?_, ?_⟩⟩
  · cases slot with
    | none => exact ⟨fun _ c hc => absurd hc (by simp), fun _ => ⟨(), v, rfl, trivial⟩⟩
    | some c => simpa using callbackTrampoline_returns_iff u.dropPayload c v
  · have e := getProcAddressTrampoline_apply u.dropPayload f name v
    cases hf : (f v ((String.fromUTF8? name.toByteArray).getD "")).1 with
    | ok a =>
        rw [hf] at e
        exact ⟨fun _ => rfl, fun _ => ⟨a, _, e, trivial⟩⟩
    | error p =>
        rw [hf] at e
        exact returns_iff_of_after e trivial
  · exact returns_iff_of_after (openTrampoline_apply uri info)
      (isOpenResult_openResult _ _ _)
  · exact returns_iff_of_after (readTrampoline_apply h nbytes)
      (isReadResult_readResult t nbytes _)
  · cases ho : u64TryFrom offset with
    | none =>
        refine ⟨fun _ => nofun, fun _ => ⟨_, _, seekTrampoline_negative ho, .inl rfl⟩⟩
    | some o =>
        rw [returns_iff_of_after (seekTrampoline_apply h ho) (isSeekResult_seekResult _)]
        simp
  · exact returns_iff_of_after (sizeTrampoline_apply h) (isSizeResult_sizeResult _)
  · exact returns_iff_of_after (closeTrampoline_apply h) trivial

/-! ### A stream whose error panics when dropped -/

/-- A stream whose reads return an error that wraps an object, over a destructor of that
object that panics. -/
def failingStream : UserCode Unit Unit Unit Unit where
  openFn o _ := (.ok (.ok ()), o)
  read s _ buf := (.ok (.error ⟨.other, some ()⟩), buf, s)
  seek s offset := (.ok (.ok offset), s)
  size s := (.ok none, s)
  dropStream _ := none
  dropError _ := some ()
  dropPayload _ := none

/-- The world in which `failingStream` is open as cookie 0. -/
def failingWorld : StreamWorld Unit Unit where
  opener := ()
  boxes := Function.update (fun _ => none) 0 (some ())
  next := 1

/-- Reading from it unwinds out of `read_trampoline`. -/
theorem readTrampoline_unwinds :
    (readTrampoline failingStream .bits64 0 16 failingWorld).1 = .unwind () ∧
      ¬ (readTrampoline failingStream .bits64 0 16).Returns failingWorld
        (IsReadResult 16) := by
  have h : failingWorld.boxes 0 = some () := rfl
  have e := readTrampoline_apply (u := failingStream) (t := .bits64) h 16
  refine ⟨by rw [e]; rfl, ?_⟩
  rw [returns_iff_of_after e (isReadResult_readResult _ _ _)]
  nofun

/-- The other callbacks of the same stream return. -/
theorem failingStream_returns :
    (closeTrampoline failingStream 0).Returns failingWorld (fun _ => True) := by
  obtain ⟨-, -, -, hstream⟩ :=
    trampolines_return_iff (W := Unit) failingStream .bits64
  exact ((hstream failingWorld 0 () rfl).2.2.2).mpr rfl

end Rsmpv
