import Rsmpv.Node.Model

/-!
# Events

`Event` (`event.rs`) and its decoder. A raw event is what `mpv_wait_event` leaves in
libmpv's event storage: the `mpv_event` struct itself, the payload its `data` points to
(`none` is the null pointer), and the memory the strings and nodes of the payload live in.
As in `Node.fromRaw`, the decoder gives up where the source would leave the defined
behaviour: at a missing payload, a struct field the linked libmpv does not have, property
data that is invalid, or an argument beyond the end of its array.
-/

namespace Rsmpv

/-! ### Raw events -/

/-- What the `data` of a `mpv_event_property` points to. -/
inductive RawPropertyValue
  | string (p : Ptr)
  | flag (v : CInt)
  | int64 (v : Int64)
  | double (bits : UInt64)
  | node (raw : RawNode)
  | invalid

/-- `mpv_event_property`. -/
structure RawProperty where
  name : Ptr
  format : CInt
  data : Option RawPropertyValue

/-- The fields of `mpv_event_end_file` that exist since client API 1.108. -/
structure RawEndFilePlaylist where
  playlistEntryId : Int64
  playlistInsertId : Int64
  playlistInsertNumEntries : CInt

/-- The payloads `mpv_event.data` points to. -/
inductive EventPayload
  | property (prop : RawProperty)
  | logMessage (pre level text : Ptr) (logLevel : CInt)
  | command (result : RawNode)
  | startFile (playlistEntryId : Int64)
  | endFile (reason error : CInt) (playlist : Option RawEndFilePlaylist)
  | clientMessage (numArgs : CInt) (args : List Ptr)
  | hook (name : Ptr) (id : UInt64)

/-- The fields of `mpv_event` besides `data`. -/
structure EventHeader where
  eventId : CInt
  error : CInt
  replyUserdata : UInt64

/-- A raw event with the memory it points to. -/
structure RawEvent where
  header : EventHeader
  data : Option EventPayload
  memory : NodeStorage

/-- What `mpv_wait_event` returns when there is no event. -/
def RawEvent.none : RawEvent := ⟨⟨mpvEventNone, 0, 0⟩, Option.none, {}⟩

/-! ### Decoded events -/

/-- `PropertyData`. -/
inductive PropertyData
  | none
  | string (s : String)
  | osdString (s : String)
  | flag (v : Bool)
  | int64 (v : Int64)
  | double (bits : UInt64)
  | node (n : Node)

/-- `EndFileReason`. -/
inductive EndFileReason
  | eof
  | stop
  | quit
  | error
  | redirect
  | unknown (raw : CInt)
  deriving DecidableEq

/-- `EndFileReason::from_raw`. -/
def EndFileReason.fromRaw : CInt → EndFileReason
  | mpvEndFileReasonEof => eof
  | mpvEndFileReasonStop => stop
  | mpvEndFileReasonQuit => quit
  | mpvEndFileReasonError => error
  | mpvEndFileReasonRedirect => redirect
  | other => unknown other

/-- `LogMessage`. -/
structure LogMessage where
  prefixText : String
  level : String
  text : String
  logLevel : CInt

/-- `Event`. -/
inductive Event
  | shutdown
  | logMessage (message : LogMessage)
  | getPropertyReply (userdata : UInt64) (result : Except Error (String × PropertyData))
  | setPropertyReply (userdata : UInt64) (result : Except Error Unit)
  | commandReply (userdata : UInt64) (result : Except Error Node)
  | startFile (playlistEntryId : Int64)
  | endFile (reason : EndFileReason) (error : Option Error) (playlistEntryId : Int64)
      (playlistInsertId : Int64) (playlistInsertNumEntries : CInt)
  | fileLoaded
  | clientMessage (args : List String)
  | videoReconfig
  | audioReconfig
  | seek
  | playbackRestart
  | propertyChange (userdata : UInt64) (name : String) (data : PropertyData)
  | queueOverflow
  | hook (userdata : UInt64) (name : String) (id : UInt64)
  | unknown (eventId : CInt)

/-! ### Decoding -/

/-- `has_api_1_108`. -/
def hasApi1108 (apiVersion : ℕ) : Bool := mpvMakeVersion 1 108 ≤ apiVersion

/-- `lossy`: a null string is empty. -/
def lossy (mem : NodeStorage) : Ptr → Option String
  | Option.none => some ""
  | some p => mem.readString (some p)

/-- `property_data`. -/
def propertyData (mem : NodeStorage) (prop : RawProperty) : Option PropertyData :=
  match prop.data with
  | Option.none => some .none
  | some data =>
    match prop.format with
    | mpvFormatString =>
      match data with
      | .string p => (lossy mem p).map .string
      | _ => Option.none
    | mpvFormatOsdString =>
      match data with
      | .string p => (lossy mem p).map .osdString
      | _ => Option.none
    | mpvFormatFlag =>
      match data with
      | .flag v => some (.flag (v != 0))
      | _ => Option.none
    | mpvFormatInt64 =>
      match data with
      | .int64 v => some (.int64 v)
      | _ => Option.none
    | mpvFormatDouble =>
      match data with
      | .double bits => some (.double bits)
      | _ => Option.none
    | mpvFormatNode =>
      match data with
      | .node raw => (Node.fromRaw mem raw).map .node
      | _ => Option.none
    | _ => some .none

/-- The decoded payload of a reply event, which is only looked at if the request
succeeded. -/
def replyResult {α : Type} (error : CInt) (payload : Option α) : Option (Except Error α) :=
  match check error with
  | .ok _ => payload.map .ok
  | .error e => some (.error e)

/-- The `match` of `Event::from_raw` on an event other than `MPV_EVENT_NONE`. -/
def Event.decode (apiVersion : ℕ) (raw : RawEvent) : Option Event :=
  let ev := raw.header
  let mem := raw.memory
  match ev.eventId with
  | mpvEventShutdown => some .shutdown
  | mpvEventLogMessage =>
    match raw.data with
    | some (.logMessage pre level text logLevel) => do
      let prefixText ← lossy mem pre
      let level ← lossy mem level
      let text ← lossy mem text
      some (.logMessage ⟨prefixText, level, text, logLevel⟩)
    | _ => Option.none
  | mpvEventGetPropertyReply => do
    let result ← replyResult ev.error (
      match raw.data with
      | some (.property prop) => do
        let name ← lossy mem prop.name
        let data ← propertyData mem prop
        some (name, data)
      | _ => Option.none)
    some (.getPropertyReply ev.replyUserdata result)
  | mpvEventSetPropertyReply => do
    let result ← replyResult ev.error (some ())
    some (.setPropertyReply ev.replyUserdata result)
  | mpvEventCommandReply => do
    let result ← replyResult ev.error (
      match raw.data with
      | some (.command result) => Node.fromRaw mem result
      | _ => Option.none)
    some (.commandReply ev.replyUserdata result)
  | mpvEventStartFile =>
    match raw.data with
    | Option.none => some (.startFile 0)
    | some (.startFile playlistEntryId) => some (.startFile playlistEntryId)
    | _ => Option.none
  | mpvEventEndFile =>
    match raw.data with
    | some (.endFile reason error playlist) => do
      let error := if error < 0 then some (Error.fromRaw error) else Option.none
      if hasApi1108 apiVersion then
        let ef ← playlist
        some (.endFile (.fromRaw reason) error ef.playlistEntryId ef.playlistInsertId
          ef.playlistInsertNumEntries)
      else some (.endFile (.fromRaw reason) error 0 0 0)
    | _ => Option.none
  | mpvEventFileLoaded => some .fileLoaded
  | mpvEventClientMessage =>
    match raw.data with
    | some (.clientMessage numArgs args) => do
      let args ← (List.range numArgs.toNat).mapM fun i => do lossy mem (← args[i]?)
      some (.clientMessage args)
    | _ => Option.none
  | mpvEventVideoReconfig => some .videoReconfig
  | mpvEventAudioReconfig => some .audioReconfig
  | mpvEventSeek => some .seek
  | mpvEventPlaybackRestart => some .playbackRestart
  | mpvEventPropertyChange =>
    match raw.data with
    | some (.property prop) => do
      let name ← lossy mem prop.name
      let data ← propertyData mem prop
      some (.propertyChange ev.replyUserdata name data)
    | _ => Option.none
  | mpvEventQueueOverflow => some .queueOverflow
  | mpvEventHook =>
    match raw.data with
    | some (.hook name id) => do
      let name ← lossy mem name
      some (.hook ev.replyUserdata name id)
    | _ => Option.none
  | other => some (.unknown other)

/-- `Event::from_raw`: there is no event for `MPV_EVENT_NONE`. -/
def Event.fromRaw (apiVersion : ℕ) (raw : RawEvent) : Option (Option Event) :=
  if raw.header.eventId = mpvEventNone then some Option.none
  else (Event.decode apiVersion raw).map some

/-- The decoder returns no event for `MPV_EVENT_NONE` and for nothing else. -/
theorem Event.fromRaw_eq_some_none_iff (apiVersion : ℕ) (raw : RawEvent) :
    Event.fromRaw apiVersion raw = some Option.none ↔
      raw.header.eventId = mpvEventNone := by
  rw [fromRaw]
  split
  · next h => exact ⟨fun _ => h, fun _ => rfl⟩
  · next h => simp [h]

end Rsmpv
