import Rsmpv.Api.Model
import Rsmpv.Node.Readable

/-!
# What a Call Says

A call of libmpv without its pointers: a `Request` is what libmpv reads in memory when it is
called (`MpvCall.view`), and an `Answer` what it says by its status and by what it writes
(`Conveys`). `Answers` is the part of the C headers the wrapper relies on: which functions
write what, that they do so only on success, and that a string or a node that is written
comes in memory of its own. Nothing is said about `out` when a call fails.
-/

namespace Rsmpv

open Node NodeStorage
open Ownership (Heap Interface)

/-! ### Requests -/

/-- A value without pointers; text is the bytes before the NUL. -/
inductive Datum
  | flag (v : CInt)
  | int64 (v : Int64)
  | double (bits : UInt64)
  | text (bytes : List UInt8)
  | node (n : Node)

/-- What is passed by address, as it is read. -/
inductive Input
  | none
  | text (s : List UInt8)
  | texts (s s' : List UInt8)
  | data (name : List UInt8) (d : Datum)
  | argv (args : List (List UInt8))
  | node (n : Node)

/-- A call as libmpv reads it. -/
structure Request where
  handle : ℕ
  fn : MpvFn
  input : Input

/-- The C string at `p`. -/
def readCString (h : Heap Cell) (p : ℕ) : Option (List UInt8) :=
  match h p with
  | some (.cstring mem) => Utf8.cstrBytes mem
  | _ => Option.none

/-- The strings of an `argv`, up to its first null pointer. -/
def readPtrs (h : Heap Cell) : List Ptr → Option (List (List UInt8))
  | [] => Option.none
  | Option.none :: _ => some []
  | some p :: ptrs => do
    let arg ← readCString h p
    let args ← readPtrs h ptrs
    some (arg :: args)

/-- The strings of the `argv` at `p`. -/
def readArgs (h : Heap Cell) (p : ℕ) : Option (List (List UInt8)) :=
  match h p with
  | some (.argv ptrs) => readPtrs h ptrs
  | _ => Option.none

/-- The node `raw` in the storage at `p`. -/
def readStored (h : Heap Cell) (raw : RawNode) (p : ℕ) : Option Node :=
  match h p with
  | some (.storage st) => fromRaw st raw
  | _ => Option.none

/-- The value the data of a property points to. -/
def InData.view (h : Heap Cell) : InData → Option Datum
  | .flag v => some (.flag v)
  | .int64 v => some (.int64 v)
  | .double bits => some (.double bits)
  | .node raw p => (readStored h raw p).map .node

/-- The arguments as libmpv reads them. -/
def MpvArgs.view (h : Heap Cell) : MpvArgs → Option Input
  | .none => some .none
  | .text p => (readCString h p).map .text
  | .texts p q => do
    let s ← readCString h p
    let s' ← readCString h q
    some (.texts s s')
  | .data p d => do
    let name ← readCString h p
    let value ← d.view h
    some (.data name value)
  | .argv p => (readArgs h p).map .argv
  | .node raw p => (readStored h raw p).map .node

/-- What libmpv reads when it is called. -/
def MpvCall.view (h : Heap Cell) (q : MpvCall) : Option Request :=
  (q.args.view h).map fun input => ⟨q.handle, q.fn, input⟩

section Mono

variable {h h' : Heap Cell} (hsub : h.Sub h')
include hsub

/-- A string reads the same when more memory is allocated. -/
theorem readCString_mono {p : ℕ} {s : List UInt8} (hs : readCString h p = some s) :
    readCString h' p = some s := by
  rw [readCString] at hs ⊢
  split at hs
  · next mem hp =>
      rw [hsub p _ hp]
      exact hs
  · cases hs

/-- So do the strings of a list of pointers. -/
theorem readPtrs_mono {ptrs : List Ptr} {args : List (List UInt8)}
    (hargs : readPtrs h ptrs = some args) : readPtrs h' ptrs = some args := by
  induction ptrs generalizing args with
  | nil => cases hargs
  | cons p ptrs ih =>
      cases p with
      | none => exact hargs
      | some p =>
          obtain ⟨arg, harg, hrest⟩ := Option.bind_eq_some_iff.mp hargs
          obtain ⟨rest, hrest', hcons⟩ := Option.bind_eq_some_iff.mp hrest
          exact Option.bind_eq_some_iff.mpr ⟨arg, readCString_mono hsub harg,
            Option.bind_eq_some_iff.mpr ⟨rest, ih hrest', hcons⟩⟩

/-- So does a terminated array of them. -/
theorem readArgs_mono {p : ℕ} {args : List (List UInt8)} (hargs : readArgs h p = some args) :
    readArgs h' p = some args := by
  rw [readArgs] at hargs ⊢
  split at hargs
  · next ptrs hp =>
      rw [hsub p _ hp]
      exact readPtrs_mono hsub hargs
  · cases hargs

/-- So does a node in the storage of a call. -/
theorem readStored_mono {raw : RawNode} {p : ℕ} {n : Node} (hn : readStored h raw p = some n) :
    readStored h' raw p = some n := by
  rw [readStored] at hn ⊢
  split at hn
  · next st hp =>
      rw [hsub p _ hp]
      exact hn
  · cases hn

/-- What libmpv reads through a data pointer does not change when more memory is allocated. -/
theorem InData.view_mono {d : InData} {v : Datum} (hv : d.view h = some v) :
    d.view h' = some v := by
  cases d with
  | flag _ | int64 _ | double _ => exact hv
  | node raw p =>
      obtain ⟨n, hn, rfl⟩ := Option.map_eq_some_iff.mp hv
      exact Option.map_eq_some_iff.mpr ⟨n, readStored_mono hsub hn, rfl⟩

/-- The frame rule of the arguments: libmpv reads the same of them in any larger memory. -/
theorem MpvArgs.view_mono {a : MpvArgs} {input : Input} (ha : a.view h = some input) :
    a.view h' = some input := by
  cases a with
  | none => exact ha
  | text p =>
      obtain ⟨s, hs, rfl⟩ := Option.map_eq_some_iff.mp ha
      exact Option.map_eq_some_iff.mpr ⟨s, readCString_mono hsub hs, rfl⟩
  | texts p q =>
      obtain ⟨s, hs, hrest⟩ := Option.bind_eq_some_iff.mp ha
      obtain ⟨s', hs', hinput⟩ := Option.bind_eq_some_iff.mp hrest
      exact Option.bind_eq_some_iff.mpr ⟨s, readCString_mono hsub hs,
        Option.bind_eq_some_iff.mpr ⟨s', readCString_mono hsub hs', hinput⟩⟩
  | data p d =>
      obtain ⟨name, hname, hrest⟩ := Option.bind_eq_some_iff.mp ha
      obtain ⟨v, hv, hinput⟩ := Option.bind_eq_some_iff.mp hrest
      exact Option.bind_eq_some_iff.mpr ⟨name, readCString_mono hsub hname,
        Option.bind_eq_some_iff.mpr ⟨v, InData.view_mono hsub hv, hinput⟩⟩
  | argv p =>
      obtain ⟨args, hargs, rfl⟩ := Option.map_eq_some_iff.mp ha
      exact Option.map_eq_some_iff.mpr ⟨args, readArgs_mono hsub hargs, rfl⟩
  | node raw p =>
      obtain ⟨n, hn, rfl⟩ := Option.map_eq_some_iff.mp ha
      exact Option.map_eq_some_iff.mpr ⟨n, readStored_mono hsub hn, rfl⟩

end Mono

/-! ### Answers -/

/-- What libmpv wrote, without pointers: nothing to be relied on, a null pointer, or a
value. -/
inductive Handed
  | nothing
  | null
  | value (d : Datum)

/-- An answer as libmpv means it. -/
structure Answer where
  code : CInt
  out : Handed

/-- The functions that return a status and write nothing. -/
def MpvFn.writesNothing : MpvFn → Bool
  | .getProperty _ | .getPropertyOsdString | .commandRet | .commandNode => false
  | _ => true

/-- The answers of the functions. A status is negative for a failure. -/
inductive Answers : MpvFn → Answer → Prop
  | failed {fn : MpvFn} {code : CInt} : fn ≠ .getPropertyOsdString → code < 0 →
      Answers fn ⟨code, .nothing⟩
  | status {fn : MpvFn} {code : CInt} : fn.writesNothing = true → 0 ≤ code →
      Answers fn ⟨code, .nothing⟩
  | flag {code : CInt} (v : CInt) : 0 ≤ code →
      Answers (.getProperty mpvFormatFlag) ⟨code, .value (.flag v)⟩
  | int64 {code : CInt} (v : Int64) : 0 ≤ code →
      Answers (.getProperty mpvFormatInt64) ⟨code, .value (.int64 v)⟩
  | double {code : CInt} (bits : UInt64) : 0 ≤ code →
      Answers (.getProperty mpvFormatDouble) ⟨code, .value (.double bits)⟩
  | string {code : CInt} (bytes : List UInt8) : 0 ≤ code →
      Answers (.getProperty mpvFormatString) ⟨code, .value (.text bytes)⟩
  | node {code : CInt} (n : Node) : 0 ≤ code →
      Answers (.getProperty mpvFormatNode) ⟨code, .value (.node n)⟩
  | osdString (code : CInt) (bytes : List UInt8) :
      Answers .getPropertyOsdString ⟨code, .value (.text bytes)⟩
  | osdNull (code : CInt) : Answers .getPropertyOsdString ⟨code, .null⟩
  | commandRet {code : CInt} (n : Node) : 0 ≤ code →
      Answers .commandRet ⟨code, .value (.node n)⟩
  | commandNode {code : CInt} (n : Node) : 0 ≤ code →
      Answers .commandNode ⟨code, .value (.node n)⟩

/-- How an answer is given: the reply, and the memory libmpv hands over with it. -/
inductive Conveys (code : CInt) : Handed → Reply → Heap Cell → Prop
  | nothing (out : Out) : Conveys code .nothing ⟨code, out⟩ .empty
  | null : Conveys code .null ⟨code, .text Option.none⟩ .empty
  | flag (v : CInt) : Conveys code (.value (.flag v)) ⟨code, .flag v⟩ .empty
  | int64 (v : Int64) : Conveys code (.value (.int64 v)) ⟨code, .int64 v⟩ .empty
  | double (bits : UInt64) : Conveys code (.value (.double bits)) ⟨code, .double bits⟩ .empty
  | text {bytes mem : List UInt8} (p : ℕ) : Utf8.cstrBytes mem = some bytes →
      Conveys code (.value (.text bytes)) ⟨code, .text (some p)⟩ (.single p (.text mem))
  | node {n : Node} {raw : RawNode} {mem : NodeStorage} (p : ℕ) : fromRaw mem raw = some n →
      Conveys code (.value (.node n)) ⟨code, .node raw (some p)⟩ (.single p (.contents mem))
  | plain {n : Node} {raw : RawNode} : fromRaw {} raw = some n →
      Conveys code (.value (.node n)) ⟨code, .node raw Option.none⟩ .empty

/-- The cells the ways to free take. -/
def Dealloc.Releases : Dealloc → Cell → Prop
  | .drop, .cstring _ | .drop, .argv _ | .drop, .storage _ => True
  | .mpvFree, .text _ => True
  | .mpvFreeNodeContents, .contents _ => True
  | _, _ => False

/-- libmpv, as the wrapper sees it. -/
def mpvInterface : Interface MpvCall Reply Cell Dealloc Request Answer where
  view := MpvCall.view
  view_mono hsub hv := by
    obtain ⟨input, hinput, rfl⟩ := Option.map_eq_some_iff.mp hv
    exact Option.map_eq_some_iff.mpr ⟨input, MpvArgs.view_mono hsub hinput, rfl⟩
  allowed req a := Answers req.fn a
  conveys a := Conveys a.code a.out
  releases := Dealloc.Releases

end Rsmpv
