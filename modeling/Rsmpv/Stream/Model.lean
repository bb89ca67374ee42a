import Mathlib.Logic.Function.Basic
import Rsmpv.Error
import Rsmpv.Lib.Unwind
import Rsmpv.Lib.Utf8

/-!
# The Stream Callbacks

The five trampolines of `stream_cb.rs` that libmpv calls to open, read, seek, measure and
close a stream, over user code that is not known: an open function and a `Stream` are
arbitrary state machines, and each of their calls may return anything its type allows or
panic with any payload. So may the destructors of what they hand over. The values a
trampoline drops are dropped in its text where Rust drops them: a result that is not
moved out of is dropped when the `match` on it ends, outside `catch_unwind`.

A cookie is the address of the box an open stream lives in. Boxes are numbered in the
order of their allocation, so that an address names one stream for good; an access to
a box that is not there is undefined.

## Conventions

The callbacks are computations that may unwind (`Rsmpv.Lib.Unwind`), over the boxes of the
open streams and the state behind the open function. `UserCode` is all the code that is not
the wrapper's: what `open`, `read`, `seek` and `size` return or panic with, what they write
to the buffer, and whether the destructors of streams, errors and payloads panic. A `u64`
and an `i64` are fixed-width, and the casts between them are the source's (`try_from`): an
offset, a position or a size that does not fit becomes the error code that the source gives
it, and a count of bytes is cut to the buffer.
-/

namespace Rsmpv

/-- `io::ErrorKind`, as far as it is inspected. -/
inductive ErrorKind
  | unsupported
  | other
  deriving DecidableEq

/-- An `io::Error`: its kind, and the user's error object if it wraps one. -/
structure IoError (E : Type) where
  kind : ErrorKind
  object : Option E

/-- Address of the box of an open stream. -/
abbrev Cookie := ℕ

/-- The user's code: panic payloads `P`, error objects `E`, the state `O` behind the open
function, and stream objects `S` of all the types that implement `Stream`. A method
returns or panics, and leaves its object in some state either way; a destructor returns
(`none`) or panics. -/
structure UserCode (P E O S : Type) where
  openFn : O → String → Except P (Except Error S) × O
  read : S → (len : ℕ) → (Fin len → UInt8) →
    Except P (Except (IoError E) ℕ) × (Fin len → UInt8) × S
  seek : S → UInt64 → Except P (Except (IoError E) UInt64) × S
  size : S → Except P (Option UInt64) × S
  dropStream : S → Option P
  dropError : E → Option P
  dropPayload : P → Option P

/-- The memory the trampolines work on: the state behind the open function, the boxes of
the open streams, libmpv's buffer for the read in progress, and the cookies whose stream's
destructor has begun, in order. -/
structure StreamWorld (O S : Type) where
  opener : O
  boxes : Cookie → Option S := fun _ => none
  next : Cookie := 0
  buffer : ℕ → UInt8 := fun _ => 0
  dropped : List Cookie := []

/-- The trampolines a `mpv_stream_cb_info` may point to. -/
inductive StreamFn
  | readTrampoline
  | seekTrampoline
  | sizeTrampoline
  | closeTrampoline
  deriving DecidableEq

/-- `mpv_stream_cb_info`. -/
structure StreamCbInfo where
  cookie : Option Cookie
  readFn : Option StreamFn
  seekFn : Option StreamFn
  sizeFn : Option StreamFn
  closeFn : Option StreamFn
  cancelFn : Option StreamFn
  deriving DecidableEq

/-- The info struct of an open stream. -/
def StreamCbInfo.ofCookie (cookie : Cookie) : StreamCbInfo where
  cookie := some cookie
  readFn := some .readTrampoline
  seekFn := some .seekTrampoline
  sizeFn := some .sizeTrampoline
  closeFn := some .closeTrampoline
  cancelFn := none

/-- The pointer widths Rust targets. -/
inductive Target
  | bits16
  | bits32
  | bits64
  deriving DecidableEq

/-- The bits of a pointer. -/
def Target.pointerWidth : Target → ℕ
  | bits16 => 16
  | bits32 => 32
  | bits64 => 64

/-- `usize::MAX`. -/
def Target.usizeMax (t : Target) : ℕ := 2 ^ t.pointerWidth - 1

/-- `isize::MAX`. -/
def Target.isizeMax (t : Target) : ℕ := 2 ^ (t.pointerWidth - 1) - 1

/-- `usize::try_from(n)`. -/
def Target.usizeTryFrom (t : Target) (n : UInt64) : Option ℕ :=
  if n.toNat ≤ t.usizeMax then some n.toNat else none

/-- `u64::try_from(n)`. -/
def u64TryFrom (n : Int64) : Option UInt64 :=
  if 0 ≤ n.toInt then some (UInt64.ofNat n.toInt.toNat) else none

/-- `i64::try_from(n)`. -/
def i64TryFrom (n : UInt64) : Option Int64 :=
  if n.toNat < 2 ^ 63 then some (Int64.ofNat n.toNat) else none

namespace StreamWorld

variable {P O S α : Type}

/-- `Box::into_raw(Box::new(stream))`. -/
def boxNew (stream : S) : Unwind P (StreamWorld O S) Cookie := fun w =>
  (.ret w.next, { w with
    boxes := Function.update w.boxes w.next (some stream)
    next := w.next + 1 })

/-- `Box::from_raw`: take the stream out of its box. -/
def boxFromRaw (cookie : Cookie) : Unwind P (StreamWorld O S) S := fun w =>
  match w.boxes cookie with
  | some stream => (.ret stream, { w with boxes := Function.update w.boxes cookie none })
  | none => (.undefined, w)

/-- Call a method on the stream behind a cookie, which it may change. -/
def callStream (cookie : Cookie) (f : S → Except P α × S) :
    Unwind P (StreamWorld O S) α := fun w =>
  match w.boxes cookie with
  | some stream =>
    Unwind.call (fun w => ((f stream).1,
      { w with boxes := Function.update w.boxes cookie (some (f stream).2) })) w
  | none => (.undefined, w)

/-- The bytes of the buffer that a slice of length `len` covers. -/
def slice (w : StreamWorld O S) (len : ℕ) : Fin len → UInt8 := fun i => w.buffer i

/-- The buffer after a slice of it was written. -/
def overwrite (buffer : ℕ → UInt8) {len : ℕ} (bytes : Fin len → UInt8) : ℕ → UInt8 :=
  fun i => if h : i < len then bytes ⟨i, h⟩ else buffer i

/-- Call `read` on the stream behind a cookie with the first `len` bytes of the
buffer. -/
def callRead (cookie : Cookie) (len : ℕ)
    (f : S → (Fin len → UInt8) → Except P α × (Fin len → UInt8) × S) :
    Unwind P (StreamWorld O S) α := fun w =>
  match w.boxes cookie with
  | some stream =>
    Unwind.call (fun w => ((f stream (w.slice len)).1,
      { w with
        boxes := Function.update w.boxes cookie (some (f stream (w.slice len)).2.2)
        buffer := overwrite w.buffer (f stream (w.slice len)).2.1 })) w
  | none => (.undefined, w)

/-- Call the open function. -/
def callOpen (f : O → Except P α × O) : Unwind P (StreamWorld O S) α :=
  Unwind.call fun w => ((f w.opener).1, { w with opener := (f w.opener).2 })

/-- The destructor of the stream that lived in the box of `cookie`. -/
def dropStream (cookie : Cookie) (panics : Option P) : Unwind P (StreamWorld O S) Unit := do
  Unwind.modify fun w => { w with dropped := w.dropped ++ [cookie] }
  Unwind.destructor panics

end StreamWorld

variable {P E O S : Type}

/-- Drop an `io::Error` with the object it wraps. -/
def UserCode.dropIoError (u : UserCode P E O S) (e : IoError E) :
    Unwind P (StreamWorld O S) Unit :=
  Unwind.destructor (e.object.bind u.dropError)

/-- Drop a caught panic payload. -/
def UserCode.discard (u : UserCode P E O S) (payload : P) :
    Unwind P (StreamWorld O S) Unit :=
  Unwind.destructor (u.dropPayload payload)

/-! ### The trampolines -/

open StreamWorld in
/-- `open_trampoline`. A stream that was opened is boxed, and its address is the cookie. -/
def openTrampoline (u : UserCode P E O S) (uri : List UInt8) (info : StreamCbInfo) :
    Unwind P (StreamWorld O S) (CInt × StreamCbInfo) := do
  let uri := Utf8.fromUtf8Lossy uri
  let result ← Unwind.catchUnwind (callOpen fun o => u.openFn o uri)
  match result with
  | .ok (.ok stream) =>
    let cookie ← boxNew stream
    pure (0, .ofCookie cookie)
  | .ok (.error _) => pure (mpvErrorLoadingFailed, info)
  | .error payload =>
    u.discard payload
    pure (mpvErrorLoadingFailed, info)

/-- The length of the slice a read of `nbytes` is given. -/
def Target.sliceLen (t : Target) (nbytes : UInt64) : ℕ :=
  min ((t.usizeTryFrom nbytes).getD t.usizeMax) t.isizeMax

open StreamWorld in
/-- `read_trampoline`. The slice is bounded by `isize::MAX`, and the count by the slice. -/
def readTrampoline (u : UserCode P E O S) (t : Target) (cookie : Cookie) (nbytes : UInt64) :
    Unwind P (StreamWorld O S) Int64 := do
  let len := t.sliceLen nbytes
  let result ← Unwind.catchUnwind (callRead cookie len fun stream buf =>
    u.read stream len buf)
  match result with
  | .ok (.ok n) => pure (Int64.ofNat (min n len))
  | .ok (.error e) =>
    u.dropIoError e
    pure (-1)
  | .error payload =>
    u.discard payload
    pure (-1)

open StreamWorld in
/-- `seek_trampoline`. A negative offset does not get to the stream. -/
def seekTrampoline (u : UserCode P E O S) (cookie : Cookie) (offset : Int64) :
    Unwind P (StreamWorld O S) Int64 := do
  match u64TryFrom offset with
  | none => pure (Int64.ofInt mpvErrorGeneric)
  | some offset =>
    let result ← Unwind.catchUnwind (callStream cookie fun stream => u.seek stream offset)
    match result with
    | .ok (.ok pos) => pure ((i64TryFrom pos).getD (Int64.ofInt mpvErrorGeneric))
    | .ok (.error e) =>
      let code := if e.kind = .unsupported then mpvErrorUnsupported else mpvErrorGeneric
      u.dropIoError e
      pure (Int64.ofInt code)
    | .error payload =>
      u.discard payload
      pure (Int64.ofInt mpvErrorGeneric)

open StreamWorld in
/-- `size_trampoline`. -/
def sizeTrampoline (u : UserCode P E O S) (cookie : Cookie) :
    Unwind P (StreamWorld O S) Int64 := do
  let result ← Unwind.catchUnwind (callStream cookie fun stream => u.size stream)
  match result with
  | .ok (some size) => pure ((i64TryFrom size).getD (Int64.ofInt mpvErrorUnsupported))
  | .ok none => pure (Int64.ofInt mpvErrorUnsupported)
  | .error payload =>
    u.discard payload
    pure (Int64.ofInt mpvErrorUnsupported)

open StreamWorld in
/-- `close_trampoline`. The stream is dropped inside the guard. -/
def closeTrampoline (u : UserCode P E O S) (cookie : Cookie) :
    Unwind P (StreamWorld O S) Unit := do
  let stream ← boxFromRaw cookie
  let result ← Unwind.catchUnwind (dropStream cookie (u.dropStream stream))
  match result with
  | .ok _ => pure ()
  | .error payload => u.discard payload

end Rsmpv
