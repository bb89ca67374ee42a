import Mathlib.Data.Option.Basic
import Rsmpv.Error
import Rsmpv.Lib.Utf8

/-!
# Nodes and Their Raw Form

`Node` is the wrapper's owned value, and `RawNode` (`mpv_node`) the form libmpv reads and
writes: a tag with a value that is, for strings, lists and byte arrays, the address of an
allocation. `NodeStorage` (`node.rs`) owns six kinds of allocations; an address is the
number of an allocation of its kind, in the order they were made, and null is `none`.
Allocations are never moved or freed while the storage lives, so pushing onto one of the
`Vec`s leaves every earlier address valid.

`build` writes the raw form of a node into a storage, and `fromRaw` reads a raw
node back out of memory. The reader gives up (`none`) where the source would leave the
defined behaviour: at a null or dangling address, an unterminated string, an entry
beyond its array, or a field of the union that was not written.

## Conventions

A Rust `String` is a Lean `String`, stored as its UTF-8 bytes; a NUL in it is what
`CString::new` refuses. A map is the list of its entries, in the order of the source's
`Vec`: a key may stand there twice. A C `int` is an integer, and an `as c_int` cast wraps
(`asCInt`). The reader descends through addresses, and nothing in a raw node says how deep
it is; `fromRawFuel` has a bound on the nesting, and `fromRaw` the one that is enough for
every memory (`fromRaw_of_fromRawFuel`).
-/

namespace Rsmpv

/-- `Node`; a double is its bits. -/
inductive Node
  | none
  | flag (v : Bool)
  | int64 (v : Int64)
  | double (bits : UInt64)
  | string (s : String)
  | array (items : List Node)
  | map (entries : List (String × Node))
  | byteArray (data : List UInt8)

/-- A pointer to the base of an allocation. -/
abbrev Ptr := Option ℕ

/-- `mpv_node_u`, with the field that was written. -/
inductive RawValue
  | string (p : Ptr)
  | flag (v : CInt)
  | int64 (v : Int64)
  | double (bits : UInt64)
  | list (p : Ptr)
  | ba (p : Ptr)
  deriving DecidableEq

/-- `mpv_node`. -/
structure RawNode where
  u : RawValue
  format : CInt
  deriving DecidableEq

/-- `mpv_node_list`. -/
structure RawNodeList where
  num : CInt
  values : Ptr
  keys : Ptr
  deriving DecidableEq

/-- `mpv_byte_array`. -/
structure RawByteArray where
  data : Ptr
  size : ℕ
  deriving DecidableEq

/-- `NodeStorage`: the allocations of each kind. -/
structure NodeStorage where
  strings : List (List UInt8) := []
  lists : List RawNodeList := []
  nodeArrays : List (List RawNode) := []
  keyArrays : List (List Ptr) := []
  byteArrays : List RawByteArray := []
  bytes : List (List UInt8) := []
  deriving DecidableEq

/-! ### Building -/

/-- Computations that fill a storage; on an error the storage keeps what was pushed. -/
abbrev BuildM := EStateM Error NodeStorage

namespace NodeStorage

/-- `NodeStorage::cstring`. -/
def cstring (s : String) : BuildM Ptr := fun st =>
  if 0 ∈ Utf8.bytes s then .error .interiorNul st
  else .ok (some st.strings.length)
    { st with strings := st.strings ++ [Utf8.bytes s ++ [0]] }

/-- Push a boxed slice of nodes. -/
def pushNodeArray (values : List RawNode) : BuildM Ptr := fun st =>
  .ok (some st.nodeArrays.length) { st with nodeArrays := st.nodeArrays ++ [values] }

/-- Push a boxed slice of keys. -/
def pushKeyArray (keys : List Ptr) : BuildM Ptr := fun st =>
  .ok (some st.keyArrays.length) { st with keyArrays := st.keyArrays ++ [keys] }

/-- Push a boxed list header. -/
def pushList (list : RawNodeList) : BuildM Ptr := fun st =>
  .ok (some st.lists.length) { st with lists := st.lists ++ [list] }

/-- Push a boxed slice of bytes. -/
def pushBytes (data : List UInt8) : BuildM Ptr := fun st =>
  .ok (some st.bytes.length) { st with bytes := st.bytes ++ [data] }

/-- Push a boxed byte array header. -/
def pushByteArray (ba : RawByteArray) : BuildM Ptr := fun st =>
  .ok (some st.byteArrays.length) { st with byteArrays := st.byteArrays ++ [ba] }

mutual

/-- `NodeStorage::build`. -/
def build : Node → BuildM RawNode
  | .none => pure ⟨.int64 0, mpvFormatNone⟩
  | .flag v => pure ⟨.flag v.toNat, mpvFormatFlag⟩
  | .int64 v => pure ⟨.int64 v, mpvFormatInt64⟩
  | .double bits => pure ⟨.double bits, mpvFormatDouble⟩
  | .string s => do
    let p ← cstring s
    pure ⟨.string p, mpvFormatString⟩
  | .array items => do
    let values ← buildItems items
    let valuesPtr ← pushNodeArray values
    let listPtr ← pushList ⟨asCInt items.length, valuesPtr, Option.none⟩
    pure ⟨.list listPtr, mpvFormatNodeArray⟩
  | .map entries => do
    let (keys, values) ← buildEntries entries
    let valuesPtr ← pushNodeArray values
    let keysPtr ← pushKeyArray keys
    let listPtr ← pushList ⟨asCInt entries.length, valuesPtr, keysPtr⟩
    pure ⟨.list listPtr, mpvFormatNodeMap⟩
  | .byteArray data => do
    let dataPtr ← pushBytes data
    let baPtr ← pushByteArray ⟨dataPtr, data.length⟩
    pure ⟨.ba baPtr, mpvFormatByteArray⟩

/-- The loop over the items of an array. -/
def buildItems : List Node → BuildM (List RawNode)
  | [] => pure []
  | item :: items => do
    let value ← build item
    let values ← buildItems items
    pure (value :: values)

/-- The loop over the entries of a map: the keys and the values. -/
def buildEntries : List (String × Node) → BuildM (List Ptr × List RawNode)
  | [] => pure ([], [])
  | (key, value) :: entries => do
    let keyPtr ← cstring key
    let rawValue ← build value
    let (keys, values) ← buildEntries entries
    pure (keyPtr :: keys, rawValue :: values)

end

/-- The storage after a sequence of builds, whether each succeeds or fails. -/
def buildAll (st : NodeStorage) : List Node → NodeStorage
  | [] => st
  | n :: ns =>
    match build n st with
    | .ok _ st' | .error _ st' => st'.buildAll ns

/-! ### Reading -/

/-- `CStr::from_ptr(p).to_string_lossy()`. -/
def readString (st : NodeStorage) (p : Ptr) : Option String := do
  let mem ← st.strings[← p]?
  let bytes ← Utf8.cstrBytes mem
  some (Utf8.fromUtf8Lossy bytes)

/-- `*values.add(i)`. -/
def readValue (st : NodeStorage) (values : Ptr) (i : ℕ) : Option RawNode := do
  (← st.nodeArrays[← values]?)[i]?

/-- `*keys.add(i)`, read as a string. -/
def readKey (st : NodeStorage) (keys : Ptr) (i : ℕ) : Option String := do
  st.readString (← (← st.keyArrays[← keys]?)[i]?)

/-- The bytes of a byte array. -/
def readBytes (st : NodeStorage) (ba : RawByteArray) : Option (List UInt8) :=
  if ba.size = 0 then some []
  else do
    let data ← st.bytes[← ba.data]?
    if ba.size ≤ data.length then some (data.take ba.size) else Option.none

end NodeStorage

namespace Node

/-- `Node::from_raw` for nesting up to `fuel`. -/
def fromRawFuel (st : NodeStorage) : ℕ → RawNode → Option Node
  | 0, _ => Option.none
  | fuel + 1, raw =>
    match raw.format with
    | mpvFormatFlag =>
      match raw.u with
      | .flag v => some (.flag (v != 0))
      | _ => Option.none
    | mpvFormatInt64 =>
      match raw.u with
      | .int64 v => some (.int64 v)
      | _ => Option.none
    | mpvFormatDouble =>
      match raw.u with
      | .double bits => some (.double bits)
      | _ => Option.none
    | mpvFormatString =>
      match raw.u with
      | .string p => (st.readString p).map .string
      | _ => Option.none
    | mpvFormatNodeArray =>
      match raw.u with
      | .list p => do
        let list ← st.lists[← p]?
        let items ← (List.range list.num.toNat).mapM fun i => do
          fromRawFuel st fuel (← st.readValue list.values i)
        some (.array items)
      | _ => Option.none
    | mpvFormatNodeMap =>
      match raw.u with
      | .list p => do
        let list ← st.lists[← p]?
        let entries ← (List.range list.num.toNat).mapM fun i => do
          let key ← st.readKey list.keys i
          let value ← fromRawFuel st fuel (← st.readValue list.values i)
          some (key, value)
        some (.map entries)
      | _ => Option.none
    | mpvFormatByteArray =>
      match raw.u with
      | .ba p => do
        let ba ← st.byteArrays[← p]?
        (st.readBytes ba).map .byteArray
      | _ => Option.none
    | _ => some .none

/-- `Node::from_raw`. Nesting passes through a list header each time, so in memory without
cycles it is never deeper than there are headers. -/
def fromRaw (st : NodeStorage) (raw : RawNode) : Option Node :=
  fromRawFuel st (st.lists.length + 1) raw

end Node

end Rsmpv
