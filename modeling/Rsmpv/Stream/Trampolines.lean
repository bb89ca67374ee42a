import Rsmpv.Stream.Model

/-!
# What the Stream Trampolines Do

One equation for each trampoline: in a world where its cookie has a box, it returns the
value its `match` computes unless a destructor that runs outside `catch_unwind` panics
(`UserCode.leftover`, `UserCode.caught`), and the only box it changes is its own, which
keeps the stream in the state its method left it in — also when the method panicked.
-/

namespace Rsmpv

open Unwind

variable {P E O S α : Type} {u : UserCode P E O S} {t : Target} {w : StreamWorld O S}
  {k : Cookie} {s : S}

/-! ### What is dropped outside the guard -/

/-- The destructor of what a caught call leaves: the payload of its panic. -/
def UserCode.caught (u : UserCode P E O S) : Except P α → Option P
  | .ok _ => none
  | .error payload => u.dropPayload payload

/-- The destructor of what a caught `io::Result` call leaves: the error it returned, or
the payload of its panic. -/
def UserCode.leftover (u : UserCode P E O S) : Except P (Except (IoError E) α) → Option P
  | .ok (.ok _) => none
  | .ok (.error e) => e.object.bind u.dropError
  | .error payload => u.dropPayload payload

/-! ### The results -/

/-- What `open_trampoline` returns and leaves in the info struct, where `next` is the
address of the next box. -/
def openResult (next : Cookie) (info : StreamCbInfo) :
    Except P (Except Error S) → CInt × StreamCbInfo
  | .ok (.ok _) => (0, .ofCookie next)
  | _ => (mpvErrorLoadingFailed, info)

/-- What a read returns to libmpv. -/
def readResult (len : ℕ) : Except P (Except (IoError E) ℕ) → Int64
  | .ok (.ok n) => Int64.ofNat (min n len)
  | _ => -1

/-- What a seek returns to libmpv. -/
def seekResult : Except P (Except (IoError E) UInt64) → Int64
  | .ok (.ok pos) => (i64TryFrom pos).getD (Int64.ofInt mpvErrorGeneric)
  | .ok (.error e) =>
    Int64.ofInt (if e.kind = .unsupported then mpvErrorUnsupported else mpvErrorGeneric)
  | .error _ => Int64.ofInt mpvErrorGeneric

/-- What a question for the size returns to libmpv. -/
def sizeResult : Except P (Option UInt64) → Int64
  | .ok (some size) => (i64TryFrom size).getD (Int64.ofInt mpvErrorUnsupported)
  | _ => Int64.ofInt mpvErrorUnsupported

/-! ### The effects -/

namespace StreamWorld

/-- The box of `k` holds `s`. -/
def setStream (w : StreamWorld O S) (k : Cookie) (s : S) : StreamWorld O S :=
  { w with boxes := Function.update w.boxes k (some s) }

/-- A box for the stream that was opened, if one was. -/
def opened (w : StreamWorld O S) : Except P (Except Error S) → StreamWorld O S
  | .ok (.ok stream) => { w with
      boxes := Function.update w.boxes w.next (some stream)
      next := w.next + 1 }
  | _ => w

/-- The box of `k` is gone, and the destructor of its stream has begun. -/
def closed (w : StreamWorld O S) (k : Cookie) : StreamWorld O S :=
  { w with boxes := Function.update w.boxes k none, dropped := w.dropped ++ [k] }

/-- A guarded call of a method of an open stream. -/
theorem callStream_apply (h : w.boxes k = some s) (f : S → Except P α × S) :
    catchUnwind (callStream k f) w = (.ret (f s).1, w.setStream k (f s).2) := by
  have e : callStream k f w = Unwind.call (fun w => ((f s).1,
      { w with boxes := Function.update w.boxes k (some (f s).2) })) w := by
    simp only [callStream, h]
  cases ho : (f s).1 with
  | ok a => exact catchUnwind_ret (e.trans (call_ok (by rw [ho]; rfl)))
  | error p => exact catchUnwind_unwind (e.trans (call_error (by rw [ho]; rfl)))

/-- A guarded call of `read`, which also writes to the buffer. -/
theorem callRead_apply {len : ℕ} (h : w.boxes k = some s)
    (f : S → (Fin len → UInt8) → Except P α × (Fin len → UInt8) × S) :
    catchUnwind (callRead k len f) w = (.ret (f s (w.slice len)).1,
      { w.setStream k (f s (w.slice len)).2.2 with
        buffer := overwrite w.buffer (f s (w.slice len)).2.1 }) := by
  have e : callRead k len f w = Unwind.call (fun w => ((f s (w.slice len)).1,
      { w.setStream k (f s (w.slice len)).2.2 with
        buffer := overwrite w.buffer (f s (w.slice len)).2.1 })) w := by
    simp only [callRead, h, setStream]
  cases ho : (f s (w.slice len)).1 with
  | ok a => exact catchUnwind_ret (e.trans (call_ok (by rw [ho])))
  | error p => exact catchUnwind_unwind (e.trans (call_error (by rw [ho])))

end StreamWorld

open StreamWorld

/-- What an open does: it returns unless the destructor of a caught payload panics. -/
theorem openTrampoline_apply (uri : List UInt8) (info : StreamCbInfo) :
    openTrampoline u uri info w =
      (.after (u.caught (u.openFn w.opener (Utf8.fromUtf8Lossy uri)).1)
        (openResult w.next info (u.openFn w.opener (Utf8.fromUtf8Lossy uri)).1),
        { w with opener := (u.openFn w.opener (Utf8.fromUtf8Lossy uri)).2 }.opened
          (u.openFn w.opener (Utf8.fromUtf8Lossy uri)).1) := by
  simp only [openTrampoline, bind_apply, callOpen]
  rw [andThen_ret catchUnwind_call]
  cases (u.openFn w.opener (Utf8.fromUtf8Lossy uri)).1 with
  | ok r => cases r <;> rfl
  | error p => exact destructor_andThen_ret _ _ _

/-- What a read of an open stream does. -/
theorem readTrampoline_apply (h : w.boxes k = some s) (n : UInt64) :
    readTrampoline u t k n w =
      (.after (u.leftover (u.read s (t.sliceLen n) (w.slice (t.sliceLen n))).1)
        (readResult (t.sliceLen n) (u.read s (t.sliceLen n) (w.slice (t.sliceLen n))).1),
        { w.setStream k (u.read s (t.sliceLen n) (w.slice (t.sliceLen n))).2.2 with
          buffer := overwrite w.buffer
            (u.read s (t.sliceLen n) (w.slice (t.sliceLen n))).2.1 }) := by
  simp only [readTrampoline, bind_apply]
  rw [andThen_ret (callRead_apply h _)]
  cases (u.read s (t.sliceLen n) (w.slice (t.sliceLen n))).1 with
  | ok r =>
      cases r with
      | ok c => rfl
      | error e => exact destructor_andThen_ret _ _ _
  | error p => exact destructor_andThen_ret _ _ _

/-- A seek to a negative offset is refused, and touches nothing. -/
theorem seekTrampoline_negative {offset : Int64} (h : u64TryFrom offset = none) :
    seekTrampoline u k offset w = (.ret (Int64.ofInt mpvErrorGeneric), w) := by
  simp only [seekTrampoline, h, pure_apply]

/-- What a seek of an open stream does. -/
theorem seekTrampoline_apply (h : w.boxes k = some s) {offset : Int64} {o : UInt64}
    (ho : u64TryFrom offset = some o) :
    seekTrampoline u k offset w =
      (.after (u.leftover (u.seek s o).1) (seekResult (u.seek s o).1),
        w.setStream k (u.seek s o).2) := by
  simp only [seekTrampoline, ho, bind_apply]
  rw [andThen_ret (callStream_apply h _)]
  cases (u.seek s o).1 with
  | ok r =>
      cases r with
      | ok c => rfl
      | error e => exact destructor_andThen_ret _ _ _
  | error p => exact destructor_andThen_ret _ _ _

/-- What a question for the size of an open stream does. -/
theorem sizeTrampoline_apply (h : w.boxes k = some s) :
    sizeTrampoline u k w =
      (.after (u.caught (u.size s).1) (sizeResult (u.size s).1),
        w.setStream k (u.size s).2) := by
  simp only [sizeTrampoline, bind_apply]
  rw [andThen_ret (callStream_apply h _)]
  cases (u.size s).1 with
  | ok r => cases r <;> rfl
  | error p => exact destructor_andThen_ret _ _ _

/-- What a close of an open stream does. -/
theorem closeTrampoline_apply (h : w.boxes k = some s) :
    closeTrampoline u k w =
      (.after ((u.dropStream s).bind u.dropPayload) (), w.closed k) := by
  simp only [closeTrampoline, bind_apply, StreamWorld.dropStream]
  have hbox : (boxFromRaw k : Unwind P (StreamWorld O S) S) w =
      (.ret s, { w with boxes := Function.update w.boxes k none }) := by
    simp only [boxFromRaw, h]
  rw [andThen_ret hbox]
  cases hd : u.dropStream s with
  | none => rfl
  | some p => exact destructor_apply _ _

end Rsmpv
