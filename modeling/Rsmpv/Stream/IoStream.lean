import Rsmpv.Stream.Trampolines

/-!
# Streams over Readers

`IoStream` (`stream_cb.rs`) makes a stream of any type that implements `Read` and `Seek`.
The type is not known: a `ReadSeek` is an arbitrary state machine with the methods the
wrapper calls, each of which may return anything its type allows or panic.

`IoStream::size` measures the stream by moving its position to the end and back. Each of
its three steps returns early on an error (`orReturn`), so a failure can leave the reader
anywhere between.
-/

namespace Rsmpv

variable {P E O R α β : Type}

/-- `io::SeekFrom`. -/
inductive SeekFrom
  | start (n : UInt64)
  | end (n : Int64)
  | current (n : Int64)
  deriving DecidableEq

/-- A type that implements `Read` and `Seek`. -/
structure ReadSeek (P E R : Type) where
  read : R → (len : ℕ) → (Fin len → UInt8) →
    Except P (Except (IoError E) ℕ) × (Fin len → UInt8) × R
  seek : R → SeekFrom → Except P (Except (IoError E) UInt64) × R
  streamPosition : R → Except P (Except (IoError E) UInt64) × R

/-! ### The adapter -/

/-- `call.ok()?`: an error is dropped, and nothing returned. -/
def orReturn (dropError : E → Option P) (call : Except P (Except (IoError E) α) × R)
    (rest : α → R → Except P (Option β) × R) : Except P (Option β) × R :=
  match call with
  | (.ok (.ok a), s) => rest a s
  | (.ok (.error e), s) =>
    match e.object.bind dropError with
    | none => (.ok none, s)
    | some p => (.error p, s)
  | (.error p, s) => (.error p, s)

namespace IoStream

/-- `IoStream::read`. -/
def read (r : ReadSeek P E R) (s : R) (len : ℕ) (buf : Fin len → UInt8) :
    Except P (Except (IoError E) ℕ) × (Fin len → UInt8) × R :=
  r.read s len buf

/-- `IoStream::seek`. -/
def seek (r : ReadSeek P E R) (s : R) (offset : UInt64) :
    Except P (Except (IoError E) UInt64) × R :=
  r.seek s (.start offset)

/-- `IoStream::size`. -/
def size (r : ReadSeek P E R) (dropError : E → Option P) (s : R) : Except P (Option UInt64) × R :=
  orReturn dropError (r.streamPosition s) fun pos s =>
    orReturn dropError (r.seek s (.end 0)) fun size s =>
      orReturn dropError (r.seek s (.start pos)) fun _ s => (.ok (some size), s)

end IoStream

/-- The user's code with an `IoStream` of `r` for every stream. -/
def UserCode.withIoStream (u : UserCode P E O R) (r : ReadSeek P E R) : UserCode P E O R :=
  { u with
    read := IoStream.read r
    seek := IoStream.seek r
    size := IoStream.size r u.dropError }

/-- User code that opens nothing, and none of whose destructors panics. -/
def idleCode (S : Type) : UserCode Unit Unit Unit S where
  openFn o _ := (.ok (.error .loadingFailed), o)
  read s _ buf := (.ok (.ok 0), buf, s)
  seek s _ := (.ok (.error ⟨.unsupported, none⟩), s)
  size s := (.ok none, s)
  dropStream _ := none
  dropError _ := none
  dropPayload _ := none

section OrReturn

variable {dropError : E → Option P} {call : Except P (Except (IoError E) α) × R}
  {rest : α → R → Except P (Option β) × R}

/-- The call succeeds. -/
theorem orReturn_ok {a : α} (h : call.1 = .ok (.ok a)) :
    orReturn dropError call rest = rest a call.2 := by
  obtain ⟨o, s⟩ := call
  subst h
  rfl

/-- The call does not succeed: nothing after it runs. -/
theorem orReturn_failed (h : ∀ a, call.1 ≠ .ok (.ok a)) :
    (orReturn dropError call rest).2 = call.2 ∧
      ∀ b, (orReturn dropError call rest).1 ≠ .ok (some b) := by
  obtain ⟨o, s⟩ := call
  cases o with
  | ok result =>
      cases result with
      | ok a => exact absurd rfl (h a)
      | error e =>
          unfold orReturn
          cases he : e.object.bind dropError <;> simp [he]
  | error p => exact ⟨rfl, by simp [orReturn]⟩

end OrReturn

end Rsmpv
