import Rsmpv.Lib.Ownership
import Rsmpv.Lifetime.Player
import Rsmpv.Node.Property

/-!
# The Calls of a Handle

The methods of `Handle` that pass data to libmpv or get data from it (`lib.rs`), with the typed
property access they are made from (`property.rs`), as procedures over memory. A `CString`, an
`argv` and a `NodeStorage` are cells the wrapper allocates and drops at the end of the function
that declares them, on every path out of it. A string and the contents of a node are cells
libmpv hands over, to be given back with `mpv_free` and `mpv_free_node_contents`. What
libmpv is passed are addresses.

A local variable libmpv writes to (`out`, `result`) is part of its reply. Reading it as
another type than was written, or reading a null pointer, is undefined behaviour
(`Proc.fault`), as is every access to an address that is not allocated.
-/

namespace Rsmpv

open Node NodeStorage
open Ownership (Proc Heap)

/-! ### Formats and typed values -/

/-- `Format`. -/
inductive Format
  | none
  | string
  | osdString
  | flag
  | int64
  | double
  | node
  deriving DecidableEq

/-- `Format::to_raw`. -/
def Format.toRaw : Format → CInt
  | none => mpvFormatNone
  | string => mpvFormatString
  | osdString => mpvFormatOsdString
  | flag => mpvFormatFlag
  | int64 => mpvFormatInt64
  | double => mpvFormatDouble
  | node => mpvFormatNode

/-- The types that implement `GetProperty`, which is sealed. -/
inductive GetProperty
  | bool
  | i64
  | f64
  | string
  | node
  deriving DecidableEq

namespace GetProperty

/-- The type itself; a double is its bits. -/
def Value : GetProperty → Type
  | bool => Bool
  | i64 => Int64
  | f64 => UInt64
  | string => String
  | node => Node

/-- `GetProperty::FORMAT`. -/
def format : GetProperty → Format
  | bool => .flag
  | i64 => .int64
  | f64 => .double
  | string => .string
  | node => .node

/-- The format the `get_from` of the type passes. -/
def rawFormat : GetProperty → CInt
  | bool => mpvFormatFlag
  | i64 => mpvFormatInt64
  | f64 => mpvFormatDouble
  | string => mpvFormatString
  | node => mpvFormatNode

/-- What is read at once is in the format a reply is asked for in. -/
theorem format_toRaw (ty : GetProperty) : ty.format.toRaw = ty.rawFormat := by
  cases ty <;> rfl

end GetProperty

/-- The values of the types that implement `SetProperty`, which is sealed. -/
inductive SetProperty
  | bool (v : Bool)
  | i64 (v : Int64)
  | f64 (bits : UInt64)
  | str (s : String)
  | string (s : String)
  | stringRef (s : String)
  | node (n : Node)
  | nodeRef (n : Node)

/-- The values that convert `Into<Node>`. -/
inductive IntoNode
  | bool (v : Bool)
  | i64 (v : Int64)
  | f64 (bits : UInt64)
  | str (s : String)
  | string (s : String)
  | node (n : Node)
  | vec (l : List IntoNode)

mutual

/-- The `From` implementations of `Node`. -/
def IntoNode.into : IntoNode → Node
  | .bool v => .flag v
  | .i64 v => .int64 v
  | .f64 bits => .double bits
  | .str s => .string s
  | .string s => .string s
  | .node n => n
  | .vec l => .array (IntoNode.intoAll l)

/-- The items of a `Vec`, each turned into a node. -/
def IntoNode.intoAll : List IntoNode → List Node
  | [] => []
  | v :: l => v.into :: IntoNode.intoAll l

end

/-! ### Memory, questions and replies -/

/-- The allocations of a call: those of the wrapper, and those libmpv hands over. -/
inductive Cell
  | cstring (mem : List UInt8)
  | argv (ptrs : List Ptr)
  | storage (st : NodeStorage)
  | text (mem : List UInt8)
  | contents (mem : NodeStorage)

/-- The ways an allocation is freed. -/
inductive Dealloc
  | drop
  | mpvFree
  | mpvFreeNodeContents
  deriving DecidableEq

/-- The functions of libmpv, with what they are passed by value. -/
inductive MpvFn
  | loadConfigFile
  | getProperty (format : CInt)
  | getPropertyOsdString
  | setProperty (format : CInt)
  | setPropertyString
  | delProperty
  | getPropertyAsync (userdata : UInt64) (format : CInt)
  | setPropertyAsync (userdata : UInt64) (format : CInt)
  | observeProperty (userdata : UInt64) (format : CInt)
  | unobserveProperty (userdata : UInt64)
  | command
  | commandRet
  | commandString
  | commandAsync (userdata : UInt64)
  | commandNode
  | commandNodeAsync (userdata : UInt64)
  | abortAsyncCommand (userdata : UInt64)
  | requestEvent (eventId enable : CInt)
  | requestLogMessages
  | hookAdd (userdata : UInt64) (priority : CInt)
  | hookContinue (id : UInt64)
  deriving DecidableEq

/-- What the `data` of a property to set points to: a local variable, which for a node is a
raw node in a storage. -/
inductive InData
  | flag (v : CInt)
  | int64 (v : Int64)
  | double (bits : UInt64)
  | node (raw : RawNode) (storage : ℕ)

/-- What they are passed by address. -/
inductive MpvArgs
  | none
  | text (p : ℕ)
  | texts (p q : ℕ)
  | data (p : ℕ) (d : InData)
  | argv (p : ℕ)
  | node (raw : RawNode) (storage : ℕ)

/-- A call of libmpv. -/
structure MpvCall where
  handle : ℕ
  fn : MpvFn
  args : MpvArgs

/-- What libmpv wrote, or returned as a pointer. The tree a node points to is one allocation
here, and null if there is none. -/
inductive Out
  | nothing
  | flag (v : CInt)
  | int64 (v : Int64)
  | double (bits : UInt64)
  | text (p : Ptr)
  | node (raw : RawNode) (contents : Ptr)

/-- What libmpv answers: the status it returned, and what it wrote. -/
structure Reply where
  code : CInt
  out : Out

/-- A procedure that calls libmpv. -/
abbrev Api (α : Type) := Proc MpvCall Reply Cell Dealloc α

namespace Api

variable {α : Type}

/-- Call a function of libmpv and wait for its reply. -/
def call (handle : ℕ) (fn : MpvFn) (args : MpvArgs) : Api Reply :=
  .ask ⟨handle, fn, args⟩ .ret

/-- Allocate a cell. -/
def alloc (c : Cell) : Api ℕ := Proc.alloc c .ret

/-- Free a cell the way it has to be freed. -/
def free (k : Dealloc) (p : ℕ) : Api Unit := Proc.free k p (.ret ())

/-! ### Memory the wrapper owns -/

/-- `let p = CString::new(s)?;` with the rest of the function that declares it. -/
def withCString (s : String) (body : ℕ → Api (Except Error α)) : Api (Except Error α) :=
  match cstr s with
  | .error e => pure (.error e)
  | .ok bytes => do
    let p ← alloc (.cstring (bytes ++ [0]))
    let r ← body p
    free .drop p
    pure r

/-- `let raw = storage.build(n)?;` with the rest of the function that declares `storage`. -/
def withStorage (n : Node) (body : RawNode → ℕ → Api (Except Error α)) :
    Api (Except Error α) :=
  match build n {} with
  | .error e st => do
    let p ← alloc (.storage st)
    free .drop p
    pure (.error e)
  | .ok raw st => do
    let p ← alloc (.storage st)
    let r ← body raw p
    free .drop p
    pure r

/-- The drop glue of a `Vec<CString>`. -/
def dropAll : List ℕ → Api Unit
  | [] => pure ()
  | p :: ps => do
    free .drop p
    dropAll ps

/-- The `collect::<Result<Vec<CString>>>` of `cstr_args`, which drops what it has collected
when it fails. -/
def collect (owned : List ℕ) : List String → Api (Except Error (List ℕ))
  | [] => pure (.ok owned)
  | s :: args =>
    match cstr s with
    | .error e => do
      dropAll owned
      pure (.error e)
    | .ok bytes => do
      let p ← alloc (.cstring (bytes ++ [0]))
      collect (owned ++ [p]) args

/-- `let (_owned, mut ptrs) = cstr_args(args)?;` with the rest of the function. -/
def withArgs (args : List String) (body : ℕ → Api (Except Error α)) : Api (Except Error α) := do
  match ← collect [] args with
  | .error e => pure (.error e)
  | .ok owned => do
    let ptrs ← alloc (.argv (owned.map some ++ [Option.none]))
    let r ← body ptrs
    free .drop ptrs
    dropAll owned
    pure r

/-! ### Memory libmpv hands over -/

/-- `CStr::from_ptr(p).to_string_lossy()`. -/
def readText : Ptr → Api String
  | Option.none => .fault
  | some p => .read p fun c =>
    match c with
    | .text mem =>
      match Utf8.cstrBytes mem with
      | some bytes => pure (Utf8.fromUtf8Lossy bytes)
      | Option.none => .fault
    | _ => .fault

/-- `mpv_free(p)`. -/
def mpvFree : Ptr → Api Unit
  | Option.none => pure ()
  | some p => free .mpvFree p

/-- `Node::from_raw(&node)`. -/
def readNode (raw : RawNode) : Ptr → Api Node
  | Option.none =>
    match fromRaw {} raw with
    | some n => pure n
    | Option.none => .fault
  | some p => .read p fun c =>
    match c with
    | .contents mem =>
      match fromRaw mem raw with
      | some n => pure n
      | Option.none => .fault
    | _ => .fault

/-- `mpv_free_node_contents(&node)`. -/
def mpvFreeNodeContents : Ptr → Api Unit
  | Option.none => pure ()
  | some p => free .mpvFreeNodeContents p

/-! ### What follows a call -/

/-- `check(code).map(|_| ())`. -/
def statusOnly (reply : Reply) : Api (Except Error Unit) :=
  pure ((check reply.code).map fun _ => ())

/-- `check(code)?;` with the rest of the function. -/
def checked (reply : Reply) (rest : Api (Except Error α)) : Api (Except Error α) :=
  match check reply.code with
  | .error e => pure (.error e)
  | .ok _ => rest

/-- The node in `result` or `out`, which is read and then freed. -/
def takeNode : Out → Api (Except Error Node)
  | .node raw contents => do
    let value ← readNode raw contents
    mpvFreeNodeContents contents
    pure (.ok value)
  | _ => .fault

/-- What `command_ret` and `command_node` do with the reply. -/
def resultNode (reply : Reply) : Api (Except Error Node) :=
  checked reply (takeNode reply.out)

/-- What the `get_from` of each type does with `out`. -/
def takeOut : (ty : GetProperty) → Out → Api (Except Error ty.Value)
  | .bool, .flag out => pure (.ok (out != 0))
  | .i64, .int64 out => pure (.ok out)
  | .f64, .double out => pure (.ok out)
  | .string, .text out => do
    let value ← readText out
    mpvFree out
    pure (.ok value)
  | .node, out => takeNode out
  | _, _ => .fault

/-- What `get_from` does with the reply. -/
def finishGet (ty : GetProperty) (reply : Reply) : Api (Except Error ty.Value) :=
  checked reply (takeOut ty reply.out)

/-- What `get_property_osd_string` does with the pointer. -/
def finishOsdString (reply : Reply) : Api (Except Error String) :=
  match reply.out with
  | .text Option.none => pure (.error .propertyError)
  | .text (some p) => do
    let value ← readText (some p)
    free .mpvFree p
    pure (.ok value)
  | _ => .fault

/-- What `unobserve_property` does with the status: `check(code).map(|n| n as u32)`. -/
def finishUnobserve (reply : Reply) : Api (Except Error UInt32) :=
  pure ((check reply.code).map UInt32.ofInt)

/-! ### Typed property access -/

/-- `GetProperty::get_from`. -/
def getFrom (ty : GetProperty) (handle name : ℕ) : Api (Except Error ty.Value) := do
  let reply ← call handle (.getProperty ty.rawFormat) (.text name)
  finishGet ty reply

/-- `set_raw`. -/
def setRaw (handle name : ℕ) (format : CInt) (data : InData) : Api (Except Error Unit) := do
  let reply ← call handle (.setProperty format) (.data name data)
  statusOnly reply

/-- `SetProperty::set_on` for `&str`. -/
def setStr (s : String) (handle name : ℕ) : Api (Except Error Unit) :=
  withCString s fun value => do
    let reply ← call handle .setPropertyString (.texts name value)
    statusOnly reply

/-- `SetProperty::set_on` for `Node`. -/
def setNode (n : Node) (handle name : ℕ) : Api (Except Error Unit) :=
  withStorage n fun raw storage => setRaw handle name mpvFormatNode (.node raw storage)

/-- `SetProperty::set_on`. -/
def setOn : SetProperty → ℕ → ℕ → Api (Except Error Unit)
  | .bool v, handle, name => setRaw handle name mpvFormatFlag (.flag v.toNat)
  | .i64 v, handle, name => setRaw handle name mpvFormatInt64 (.int64 v)
  | .f64 bits, handle, name => setRaw handle name mpvFormatDouble (.double bits)
  | .str s, handle, name => setStr s handle name
  | .string s, handle, name => setStr s handle name
  | .stringRef s, handle, name => setStr s handle name
  | .node n, handle, name => setNode n handle name
  | .nodeRef n, handle, name => setNode n handle name

/-! ### The methods -/

variable (h : Handle)

/-- `Handle::load_config_file`, where `path` is `Path::to_str`. -/
def loadConfigFile (path : Option String) : Api (Except Error Unit) :=
  match path with
  | Option.none => pure (.error .invalidParameter)
  | some path => withCString path fun path => do
    let reply ← call h.raw .loadConfigFile (.text path)
    statusOnly reply

/-- `Handle::get_property`. -/
def getProperty (ty : GetProperty) (name : String) : Api (Except Error ty.Value) :=
  withCString name fun name => getFrom ty h.raw name

/-- `Handle::get_property_osd_string`. -/
def getPropertyOsdString (name : String) : Api (Except Error String) :=
  withCString name fun name => do
    let reply ← call h.raw .getPropertyOsdString (.text name)
    finishOsdString reply

/-- `Handle::set_property`. -/
def setProperty (name : String) (value : SetProperty) : Api (Except Error Unit) :=
  withCString name fun name => setOn value h.raw name

/-- `Handle::del_property`. -/
def delProperty (name : String) : Api (Except Error Unit) :=
  withCString name fun name => do
    let reply ← call h.raw .delProperty (.text name)
    statusOnly reply

/-- `Handle::get_property_async`. -/
def getPropertyAsync (ty : GetProperty) (userdata : UInt64) (name : String) :
    Api (Except Error Unit) :=
  withCString name fun name => do
    let reply ← call h.raw (.getPropertyAsync userdata ty.format.toRaw) (.text name)
    statusOnly reply

/-- `Handle::set_property_async`. -/
def setPropertyAsync (userdata : UInt64) (name : String) (value : IntoNode) :
    Api (Except Error Unit) :=
  withCString name fun name =>
    withStorage value.into fun raw storage => do
      let reply ← call h.raw (.setPropertyAsync userdata mpvFormatNode)
        (.data name (.node raw storage))
      statusOnly reply

/-- `Handle::observe_property`. -/
def observeProperty (userdata : UInt64) (name : String) (format : Format) :
    Api (Except Error Unit) :=
  withCString name fun name => do
    let reply ← call h.raw (.observeProperty userdata format.toRaw) (.text name)
    statusOnly reply

/-- `Handle::unobserve_property`. -/
def unobserveProperty (userdata : UInt64) : Api (Except Error UInt32) := do
  let reply ← call h.raw (.unobserveProperty userdata) .none
  finishUnobserve reply

/-- `Handle::command`. -/
def command (args : List String) : Api (Except Error Unit) :=
  withArgs args fun ptrs => do
    let reply ← call h.raw .command (.argv ptrs)
    statusOnly reply

/-- `Handle::command_ret`. -/
def commandRet (args : List String) : Api (Except Error Node) :=
  withArgs args fun ptrs => do
    let reply ← call h.raw .commandRet (.argv ptrs)
    resultNode reply

/-- `Handle::command_string`. -/
def commandString (command : String) : Api (Except Error Unit) :=
  withCString command fun command => do
    let reply ← call h.raw .commandString (.text command)
    statusOnly reply

/-- `Handle::command_async`. -/
def commandAsync (userdata : UInt64) (args : List String) : Api (Except Error Unit) :=
  withArgs args fun ptrs => do
    let reply ← call h.raw (.commandAsync userdata) (.argv ptrs)
    statusOnly reply

/-- `Handle::command_node`. -/
def commandNode (args : Node) : Api (Except Error Node) :=
  withStorage args fun raw storage => do
    let reply ← call h.raw .commandNode (.node raw storage)
    resultNode reply

/-- `Handle::command_node_async`. -/
def commandNodeAsync (userdata : UInt64) (args : Node) : Api (Except Error Unit) :=
  withStorage args fun raw storage => do
    let reply ← call h.raw (.commandNodeAsync userdata) (.node raw storage)
    statusOnly reply

/-- `Handle::abort_async_command`. -/
def abortAsyncCommand (userdata : UInt64) : Api Unit := do
  let _ ← call h.raw (.abortAsyncCommand userdata) .none

/-- `Handle::request_event`. -/
def requestEvent (eventId : CInt) (enable : Bool) : Api (Except Error Unit) := do
  let reply ← call h.raw (.requestEvent eventId enable.toNat) .none
  statusOnly reply

/-- `Handle::request_log_messages`. -/
def requestLogMessages (minLevel : String) : Api (Except Error Unit) :=
  withCString minLevel fun minLevel => do
    let reply ← call h.raw .requestLogMessages (.text minLevel)
    statusOnly reply

/-- `Handle::hook_add`. -/
def hookAdd (userdata : UInt64) (name : String) (priority : CInt) : Api (Except Error Unit) :=
  withCString name fun name => do
    let reply ← call h.raw (.hookAdd userdata priority) (.text name)
    statusOnly reply

/-- `Handle::hook_continue`. -/
def hookContinue (id : UInt64) : Api (Except Error Unit) := do
  let reply ← call h.raw (.hookContinue id) .none
  statusOnly reply

end Api

end Rsmpv
