import Rsmpv.Event.Poll
import Rsmpv.Node.WellFormed

/-!
# What the Headers Promise of an Event

`Contract v` describes the raw events of a libmpv with client API `v`, as the C headers do:
which payload comes with which id, that a failed reply may come without one or with one
that was never filled in, that `MPV_EVENT_START_FILE` has no payload and
`mpv_event_end_file` ends after its `error` before 1.108, and that the data of a property
is what its format names, if it names anything. Strings outside nodes may be null. What is
not promised, such as the payload of an event that has none or the memory behind the last
argument, is arbitrary.

`Faithful v` says what a decoded event has to do with the raw one. On every event of the
contract the decoder is defined, returns nothing for `MPV_EVENT_NONE` alone, and is
faithful (`from_raw_faithful`).

## Main results

* `RawPropertyValue.WellFormed.propertyData`: the data of a property is what its format
  names, and data of any other format is not looked at.
* `decodes_getPropertyReply`, `decodes_endFile` and so on: one lemma for each kind of event,
  over the payload that the headers promise for it.
* `decodes_of_contract`: the kinds together.
* `from_raw_faithful`: the decoder is defined and faithful on every event of the contract.
* `HandleInv.returned_faithful`: so is what `poll_event` returns, however many threads poll.
-/

namespace Rsmpv

/-! ### Strings and properties -/

/-- `p` is null or points to a terminated string. -/
def NodeStorage.IsText (mem : NodeStorage) (p : Ptr) : Prop := p = none ∨ mem.IsCStr p

/-- A null string is empty, and a terminated one is read. -/
theorem NodeStorage.IsText.lossy {mem : NodeStorage} {p : Ptr} (h : mem.IsText p) :
    ∃ s, lossy mem p = some s := by
  obtain rfl | hp := h
  · exact ⟨"", rfl⟩
  · obtain ⟨s, hs, -⟩ := hp.readString
    obtain ⟨a, bytes, rfl, -⟩ := hp
    exact ⟨s, hs⟩

/-- The formats `property_data` reads the data of. -/
def readableFormats : List CInt :=
  [mpvFormatString, mpvFormatOsdString, mpvFormatFlag, mpvFormatInt64, mpvFormatDouble,
    mpvFormatNode]

/-- The data of a property is what its format names. With any other format, such as
`MPV_FORMAT_NONE`, it is unusable. -/
inductive RawPropertyValue.WellFormed (mem : NodeStorage) : CInt → RawPropertyValue → Prop
  | string {p : Ptr} : mem.IsText p → WellFormed mem mpvFormatString (.string p)
  | osdString {p : Ptr} : mem.IsText p → WellFormed mem mpvFormatOsdString (.string p)
  | flag (v : CInt) : WellFormed mem mpvFormatFlag (.flag v)
  | int64 (v : Int64) : WellFormed mem mpvFormatInt64 (.int64 v)
  | double (bits : UInt64) : WellFormed mem mpvFormatDouble (.double bits)
  | node {raw : RawNode} : raw.WellFormed mem → WellFormed mem mpvFormatNode (.node raw)
  | unusable {format : CInt} (value : RawPropertyValue) :
      format ∉ readableFormats → WellFormed mem format value

/-- A `mpv_event_property` that libmpv filled in; its data may be null. -/
structure RawProperty.WellFormed (mem : NodeStorage) (prop : RawProperty) : Prop where
  name : mem.IsText prop.name
  data : ∀ value, prop.data = some value → value.WellFormed mem prop.format

/-- What the data of a property stands for. -/
inductive RawPropertyValue.Means (mem : NodeStorage) :
    CInt → RawPropertyValue → PropertyData → Prop
  | string {p : Ptr} {s : String} :
      lossy mem p = some s → Means mem mpvFormatString (.string p) (.string s)
  | osdString {p : Ptr} {s : String} :
      lossy mem p = some s → Means mem mpvFormatOsdString (.string p) (.osdString s)
  | flag (v : CInt) : Means mem mpvFormatFlag (.flag v) (.flag (v != 0))
  | int64 (v : Int64) : Means mem mpvFormatInt64 (.int64 v) (.int64 v)
  | double (bits : UInt64) : Means mem mpvFormatDouble (.double bits) (.double bits)
  | node {raw : RawNode} {n : Node} :
      Node.fromRaw mem raw = some n → Means mem mpvFormatNode (.node raw) (.node n)
  | unusable {format : CInt} (value : RawPropertyValue) :
      format ∉ readableFormats → Means mem format value .none

/-- What a property stands for: its name, and its data if there is any. -/
structure RawProperty.Means (mem : NodeStorage) (prop : RawProperty) (name : String)
    (data : PropertyData) : Prop where
  name : lossy mem prop.name = some name
  absent : prop.data = none → data = .none
  present : ∀ value, prop.data = some value → value.Means mem prop.format data

section

variable {mem : NodeStorage} {name p : Ptr} {raw : RawNode}

/-- A property in the string format is its text. -/
theorem propertyData_string : propertyData mem ⟨name, mpvFormatString, some (.string p)⟩ =
    (lossy mem p).map .string := rfl

/-- A property in the OSD string format is its text. -/
theorem propertyData_osdString :
    propertyData mem ⟨name, mpvFormatOsdString, some (.string p)⟩ =
      (lossy mem p).map .osdString := rfl

/-- A property in the node format is its tree. -/
theorem propertyData_node : propertyData mem ⟨name, mpvFormatNode, some (.node raw)⟩ =
    (Node.fromRaw mem raw).map .node := rfl

end

/-- Data of a format that is not readable is not looked at. -/
theorem propertyData_unusable {mem : NodeStorage} {prop : RawProperty}
    (h : prop.format ∉ readableFormats) : propertyData mem prop = some .none := by
  simp only [readableFormats, List.mem_cons, List.not_mem_nil, not_or] at h
  rw [propertyData]
  split
  · rfl
  · split
    case h_7 => rfl
    all_goals simp_all

/-- `property_data` is defined on data that is what its format names, and returns what it
stands for. -/
theorem RawPropertyValue.WellFormed.propertyData {mem : NodeStorage} {format : CInt}
    {value : RawPropertyValue} (h : value.WellFormed mem format) (name : Ptr) :
    ∃ data, propertyData mem ⟨name, format, some value⟩ = some data ∧
      value.Means mem format data := by
  induction h with
  | string hp =>
      obtain ⟨s, hs⟩ := hp.lossy
      exact ⟨.string s, by rw [propertyData_string, hs, Option.map_some], .string hs⟩
  | osdString hp =>
      obtain ⟨s, hs⟩ := hp.lossy
      exact ⟨.osdString s, by rw [propertyData_osdString, hs, Option.map_some], .osdString hs⟩
  | flag v => exact ⟨.flag (v != 0), rfl, .flag v⟩
  | int64 v => exact ⟨.int64 v, rfl, .int64 v⟩
  | double bits => exact ⟨.double bits, rfl, .double bits⟩
  | node hraw =>
      obtain ⟨n, hn, -⟩ := Node.exists_fromRaw hraw
      exact ⟨.node n, by rw [propertyData_node, hn, Option.map_some], .node hn⟩
  | unusable value hformat =>
      exact ⟨.none, propertyData_unusable hformat, .unusable value hformat⟩

/-- A property that libmpv filled in is read. -/
theorem RawProperty.WellFormed.means {mem : NodeStorage} {prop : RawProperty}
    (h : prop.WellFormed mem) :
    ∃ name data, lossy mem prop.name = some name ∧ propertyData mem prop = some data ∧
      prop.Means mem name data := by
  obtain ⟨name, format, data⟩ := prop
  obtain ⟨s, hs⟩ := h.name.lossy
  rcases data with _ | value
  · exact ⟨s, .none, hs, rfl, hs, fun _ => rfl, fun _ h => absurd h (by simp)⟩
  · obtain ⟨data, hread, hmeans⟩ := (h.data value rfl).propertyData name
    refine ⟨s, data, hs, hread, hs, fun h => absurd h (by simp), fun value' h => ?_⟩
    obtain rfl := Option.some.inj h
    exact hmeans

/-! ### The contract -/

/-- The events that come with a payload. -/
def payloadEvents : List CInt :=
  [mpvEventLogMessage, mpvEventGetPropertyReply, mpvEventCommandReply, mpvEventStartFile,
    mpvEventEndFile, mpvEventClientMessage, mpvEventPropertyChange, mpvEventHook]

/-- The raw events of a libmpv with client API `v`. -/
inductive RawEvent.Contract (v : ℕ) : RawEvent → Prop
  | plain {header : EventHeader} {data : Option EventPayload} {mem : NodeStorage} :
      header.eventId ∉ payloadEvents → Contract v ⟨header, data, mem⟩
  | logMessage {error : CInt} {userdata : UInt64} {pre level text : Ptr} {logLevel : CInt}
      {mem : NodeStorage} : mem.IsText pre → mem.IsText level → mem.IsText text →
      Contract v ⟨⟨mpvEventLogMessage, error, userdata⟩,
        some (.logMessage pre level text logLevel), mem⟩
  | getPropertyReply {error : CInt} {userdata : UInt64} {prop : RawProperty}
      {mem : NodeStorage} : 0 ≤ error → prop.WellFormed mem →
      Contract v ⟨⟨mpvEventGetPropertyReply, error, userdata⟩, some (.property prop), mem⟩
  | commandReply {error : CInt} {userdata : UInt64} {result : RawNode} {mem : NodeStorage} :
      0 ≤ error → result.WellFormed mem →
      Contract v ⟨⟨mpvEventCommandReply, error, userdata⟩, some (.command result), mem⟩
  | failedReply {eventId error : CInt} {userdata : UInt64} {data : Option EventPayload}
      {mem : NodeStorage} : eventId = mpvEventGetPropertyReply ∨ eventId = mpvEventCommandReply →
      error < 0 → Contract v ⟨⟨eventId, error, userdata⟩, data, mem⟩
  | startFile {error : CInt} {userdata : UInt64} {playlistEntryId : Int64}
      {mem : NodeStorage} :
      Contract v ⟨⟨mpvEventStartFile, error, userdata⟩, some (.startFile playlistEntryId), mem⟩
  | startFileOld {error : CInt} {userdata : UInt64} {mem : NodeStorage} :
      v < mpvMakeVersion 1 108 →
      Contract v ⟨⟨mpvEventStartFile, error, userdata⟩, Option.none, mem⟩
  | endFile {error : CInt} {userdata : UInt64} {reason rawError : CInt}
      {playlist : Option RawEndFilePlaylist} {mem : NodeStorage} :
      (playlist.isSome ↔ mpvMakeVersion 1 108 ≤ v) →
      Contract v ⟨⟨mpvEventEndFile, error, userdata⟩, some (.endFile reason rawError playlist),
        mem⟩
  | clientMessage {error : CInt} {userdata : UInt64} {numArgs : CInt} {args : List Ptr}
      {mem : NodeStorage} :
      (∀ i < numArgs.toNat, ∃ p, args[i]? = some p ∧ mem.IsText p) →
      Contract v ⟨⟨mpvEventClientMessage, error, userdata⟩, some (.clientMessage numArgs args),
        mem⟩
  | propertyChange {error : CInt} {userdata : UInt64} {prop : RawProperty}
      {mem : NodeStorage} : prop.WellFormed mem →
      Contract v ⟨⟨mpvEventPropertyChange, error, userdata⟩, some (.property prop), mem⟩
  | hook {error : CInt} {userdata : UInt64} {name : Ptr} {id : UInt64} {mem : NodeStorage} :
      mem.IsText name →
      Contract v ⟨⟨mpvEventHook, error, userdata⟩, some (.hook name id), mem⟩

/-! ### Faithful events -/

/-- The result of a reply with status `error`: the error if and only if the status is
negative, and otherwise the payload. -/
structure IsReply {α : Type} (error : CInt) (Payload : α → Prop) (result : Except Error α) :
    Prop where
  failed_iff : result = .error (Error.fromRaw error) ↔ error < 0
  succeeded : 0 ≤ error → ∃ a, result = .ok a ∧ Payload a

/-- The events `Event::from_raw` knows. -/
def knownEvents : List CInt :=
  payloadEvents ++ [mpvEventNone, mpvEventShutdown, mpvEventSetPropertyReply,
    mpvEventFileLoaded, mpvEventVideoReconfig, mpvEventAudioReconfig, mpvEventSeek,
    mpvEventPlaybackRestart, mpvEventQueueOverflow]

/-- The decoded event says what the raw one does. -/
def Event.Faithful (v : ℕ) (raw : RawEvent) : Event → Prop
  | .shutdown => raw.header.eventId = mpvEventShutdown
  | .logMessage message => raw.header.eventId = mpvEventLogMessage ∧
      ∃ pre level text, raw.data = some (.logMessage pre level text message.logLevel) ∧
        lossy raw.memory pre = some message.prefixText ∧
        lossy raw.memory level = some message.level ∧
        lossy raw.memory text = some message.text
  | .getPropertyReply userdata result => raw.header.eventId = mpvEventGetPropertyReply ∧
      userdata = raw.header.replyUserdata ∧
      IsReply raw.header.error (fun payload => ∃ prop, raw.data = some (.property prop) ∧
        prop.Means raw.memory payload.1 payload.2) result
  | .setPropertyReply userdata result => raw.header.eventId = mpvEventSetPropertyReply ∧
      userdata = raw.header.replyUserdata ∧
      IsReply raw.header.error (fun _ => True) result
  | .commandReply userdata result => raw.header.eventId = mpvEventCommandReply ∧
      userdata = raw.header.replyUserdata ∧
      IsReply raw.header.error (fun n => ∃ result, raw.data = some (.command result) ∧
        Node.fromRaw raw.memory result = some n) result
  | .startFile playlistEntryId => raw.header.eventId = mpvEventStartFile ∧
      (raw.data = none → playlistEntryId = 0) ∧
      ∀ payload, raw.data = some payload → payload = .startFile playlistEntryId
  | .endFile reason error playlistEntryId playlistInsertId playlistInsertNumEntries =>
      raw.header.eventId = mpvEventEndFile ∧
      ∃ rawReason rawError playlist, raw.data = some (.endFile rawReason rawError playlist) ∧
        reason = .fromRaw rawReason ∧
        (error.isSome ↔ rawError < 0) ∧ (∀ e, error = some e → e = Error.fromRaw rawError) ∧
        (v < mpvMakeVersion 1 108 → playlistEntryId = 0 ∧ playlistInsertId = 0 ∧
          playlistInsertNumEntries = 0) ∧
        (mpvMakeVersion 1 108 ≤ v → playlist = some
          ⟨playlistEntryId, playlistInsertId, playlistInsertNumEntries⟩)
  | .fileLoaded => raw.header.eventId = mpvEventFileLoaded
  | .clientMessage args => raw.header.eventId = mpvEventClientMessage ∧
      ∃ numArgs ptrs, raw.data = some (.clientMessage numArgs ptrs) ∧
        args.length = numArgs.toNat ∧
        ∀ (i : ℕ) (arg : String), args[i]? = some arg →
          ∃ p, ptrs[i]? = some p ∧ lossy raw.memory p = some arg
  | .videoReconfig => raw.header.eventId = mpvEventVideoReconfig
  | .audioReconfig => raw.header.eventId = mpvEventAudioReconfig
  | .seek => raw.header.eventId = mpvEventSeek
  | .playbackRestart => raw.header.eventId = mpvEventPlaybackRestart
  | .propertyChange userdata name data => raw.header.eventId = mpvEventPropertyChange ∧
      userdata = raw.header.replyUserdata ∧
      ∃ prop, raw.data = some (.property prop) ∧ prop.Means raw.memory name data
  | .queueOverflow => raw.header.eventId = mpvEventQueueOverflow
  | .hook userdata name id => raw.header.eventId = mpvEventHook ∧
      userdata = raw.header.replyUserdata ∧
      ∃ ptr, raw.data = some (.hook ptr id) ∧ lossy raw.memory ptr = some name
  | .unknown eventId => eventId = raw.header.eventId ∧ eventId ∉ knownEvents

/-! ### Decoding -/

section Reply

variable {α : Type} {error : CInt} {Payload : α → Prop}

/-- A reply without an error is its payload. -/
theorem replyResult_of_nonneg (h : 0 ≤ error) (payload : Option α) :
    replyResult error payload = payload.map .ok := by
  rw [replyResult, check_of_nonneg h]

/-- The payload of a failed reply is not looked at. -/
theorem replyResult_of_neg (h : error < 0) (payload : Option α) :
    replyResult error payload = some (.error (Error.fromRaw error)) := by
  rw [replyResult, check_of_neg h]

/-- The result of a reply without an error. -/
theorem IsReply.ok (h : 0 ≤ error) {a : α} (ha : Payload a) : IsReply error Payload (.ok a) := by
  refine ⟨⟨fun heq => ?_, fun hneg => ?_⟩, fun _ => ⟨a, rfl, ha⟩⟩
  · simp at heq
  · exact absurd h (Int.not_le.mpr hneg)

/-- The result of a reply with an error: the payload is not looked at. -/
theorem IsReply.failed (h : error < 0) :
    IsReply error Payload (.error (Error.fromRaw error)) :=
  ⟨⟨fun _ => h, fun _ => rfl⟩, fun hok => absurd hok (Int.not_le.mpr h)⟩

end Reply

namespace Event

variable {v : ℕ} {mem : NodeStorage} {error : CInt} {userdata : UInt64}

/-- The decoder is defined on the event, and faithful. -/
def Decodes (v : ℕ) (raw : RawEvent) : Prop :=
  ∃ ev, decode v raw = some ev ∧ Faithful v raw ev

/-- A reply to a `set_property_async` has no payload to decode. -/
theorem decodes_setPropertyReply {data : Option EventPayload} :
    Decodes v ⟨⟨mpvEventSetPropertyReply, error, userdata⟩, data, mem⟩ := by
  obtain hok | hneg := le_or_gt 0 error
  · refine ⟨.setPropertyReply userdata (.ok ()), ?_, rfl, rfl, .ok hok trivial⟩
    simp only [decode, replyResult_of_nonneg hok]
    rfl
  · refine ⟨.setPropertyReply userdata (.error (Error.fromRaw error)), ?_, rfl, rfl, .failed hneg⟩
    simp only [decode, replyResult_of_neg hneg]
    rfl

/-- Events without a payload. -/
theorem decodes_plain {header : EventHeader} {data : Option EventPayload}
    (hne : header.eventId ≠ mpvEventNone) (hplain : header.eventId ∉ payloadEvents) :
    Decodes v ⟨header, data, mem⟩ := by
  obtain ⟨eventId, error, userdata⟩ := header
  by_cases hset : eventId = mpvEventSetPropertyReply
  · subst hset
    exact decodes_setPropertyReply
  simp only [payloadEvents, List.mem_cons, List.not_mem_nil, not_or] at hne hplain
  rw [Decodes, decode]
  dsimp only
  split
  case h_1 | h_8 | h_10 | h_11 | h_12 | h_13 | h_15 => exact ⟨_, rfl, rfl⟩
  case h_17 =>
      refine ⟨_, rfl, rfl, ?_⟩
      simp only [knownEvents, payloadEvents, List.mem_append, List.mem_cons, List.not_mem_nil,
        not_or]
      simp_all
  all_goals simp_all

/-- A failed reply is decoded whatever its data pointer is. -/
theorem decodes_failedReply {eventId : CInt} {data : Option EventPayload}
    (hid : eventId = mpvEventGetPropertyReply ∨ eventId = mpvEventCommandReply)
    (hneg : error < 0) : Decodes v ⟨⟨eventId, error, userdata⟩, data, mem⟩ := by
  obtain rfl | rfl := hid
  · refine ⟨.getPropertyReply userdata (.error (Error.fromRaw error)), ?_, rfl, rfl,
      .failed hneg⟩
    simp only [decode, replyResult_of_neg hneg]
    rfl
  · refine ⟨.commandReply userdata (.error (Error.fromRaw error)), ?_, rfl, rfl, .failed hneg⟩
    simp only [decode, replyResult_of_neg hneg]
    rfl

/-- A reply with a property. -/
theorem decodes_getPropertyReply {prop : RawProperty} (hok : 0 ≤ error)
    (hprop : prop.WellFormed mem) :
    Decodes v ⟨⟨mpvEventGetPropertyReply, error, userdata⟩, some (.property prop), mem⟩ := by
  obtain ⟨name, data, hname, hdata, hmeans⟩ := hprop.means
  refine ⟨.getPropertyReply userdata (.ok (name, data)), ?_, rfl, rfl,
    .ok hok ⟨prop, rfl, hmeans⟩⟩
  simp only [decode, replyResult_of_nonneg hok, hname, hdata]
  rfl

/-- A reply with the result of a command. -/
theorem decodes_commandReply {result : RawNode} (hok : 0 ≤ error)
    (hresult : result.WellFormed mem) :
    Decodes v ⟨⟨mpvEventCommandReply, error, userdata⟩, some (.command result), mem⟩ := by
  obtain ⟨n, hn, -⟩ := Node.exists_fromRaw hresult
  refine ⟨.commandReply userdata (.ok n), ?_, rfl, rfl, .ok hok ⟨result, rfl, hn⟩⟩
  simp only [decode, replyResult_of_nonneg hok, hn]
  rfl

/-- A log message: three texts and a level. -/
theorem decodes_logMessage {pre level text : Ptr} {logLevel : CInt} (hpre : mem.IsText pre)
    (hlevel : mem.IsText level) (htext : mem.IsText text) :
    Decodes v ⟨⟨mpvEventLogMessage, error, userdata⟩, some (.logMessage pre level text logLevel),
      mem⟩ := by
  obtain ⟨prefixText, hp⟩ := hpre.lossy
  obtain ⟨levelText, hl⟩ := hlevel.lossy
  obtain ⟨lineText, ht⟩ := htext.lossy
  refine ⟨.logMessage ⟨prefixText, levelText, lineText, logLevel⟩, ?_, rfl, pre, level, text,
    rfl, hp, hl, ht⟩
  simp only [decode, hp, hl, ht]
  rfl

/-- The end of a file: the fields that a libmpv before 1.108 does not have are zero. -/
theorem faithful_endFile {reason rawError : CInt} {playlist : Option RawEndFilePlaylist}
    (playlistEntryId playlistInsertId : Int64) (playlistInsertNumEntries : CInt)
    (hold : v < mpvMakeVersion 1 108 → playlistEntryId = 0 ∧ playlistInsertId = 0 ∧
      playlistInsertNumEntries = 0)
    (hnew : mpvMakeVersion 1 108 ≤ v → playlist = some
      ⟨playlistEntryId, playlistInsertId, playlistInsertNumEntries⟩) :
    Faithful v ⟨⟨mpvEventEndFile, error, userdata⟩, some (.endFile reason rawError playlist), mem⟩
      (.endFile (.fromRaw reason) (if rawError < 0 then some (Error.fromRaw rawError) else none)
        playlistEntryId playlistInsertId playlistInsertNumEntries) := by
  refine ⟨rfl, reason, rawError, playlist, rfl, rfl, ?_, fun e he => ?_, hold, hnew⟩
  · simp
  · obtain ⟨-, herror⟩ := Option.ite_none_right_eq_some.mp he
    exact (Option.some.inj herror).symm

/-- The playlist fields are read only where the struct has them. -/
theorem decodes_endFile {reason rawError : CInt} {playlist : Option RawEndFilePlaylist}
    (hplaylist : playlist.isSome ↔ mpvMakeVersion 1 108 ≤ v) :
    Decodes v ⟨⟨mpvEventEndFile, error, userdata⟩, some (.endFile reason rawError playlist),
      mem⟩ := by
  obtain hv | hv := lt_or_ge v (mpvMakeVersion 1 108)
  · have hapi : hasApi1108 v = false := decide_eq_false (Nat.not_le.mpr hv)
    refine ⟨_, ?_, faithful_endFile 0 0 0 (fun _ => ⟨rfl, rfl, rfl⟩) fun h => ?_⟩
    · simp only [decode, hapi]
      rfl
    · exact absurd h (Nat.not_le.mpr hv)
  · have hapi : hasApi1108 v = true := decide_eq_true hv
    obtain ⟨ef, rfl⟩ := Option.isSome_iff_exists.mp (hplaylist.mpr hv)
    refine ⟨_, ?_, faithful_endFile ef.playlistEntryId ef.playlistInsertId
      ef.playlistInsertNumEntries (fun h => ?_) fun _ => rfl⟩
    · simp only [decode, hapi]
      rfl
    · exact absurd hv (Nat.not_le.mpr h)

/-- An argument is read for each of the count. -/
theorem decodes_clientMessage {numArgs : CInt} {args : List Ptr}
    (hargs : ∀ i < numArgs.toNat, ∃ p, args[i]? = some p ∧ mem.IsText p) :
    Decodes v ⟨⟨mpvEventClientMessage, error, userdata⟩, some (.clientMessage numArgs args),
      mem⟩ := by
  obtain ⟨texts, hlen, htexts⟩ := Arena.exists_list (n := numArgs.toNat)
    (R := fun i text => ∃ p, args[i]? = some p ∧ lossy mem p = some text) fun i hi => by
      obtain ⟨p, hp, htext⟩ := hargs i hi
      obtain ⟨text, hread⟩ := htext.lossy
      exact ⟨text, p, hp, hread⟩
  have hread : (List.range numArgs.toNat).mapM
      (fun i => do lossy mem (← args[i]?)) = some texts := by
    rw [← hlen]
    refine Arena.mapM_range fun i text htext => ?_
    obtain ⟨p, hp, hp'⟩ := htexts i text htext
    rw [hp]
    exact hp'
  refine ⟨.clientMessage texts, ?_, rfl, numArgs, args, rfl, hlen, htexts⟩
  simp only [decode, hread]
  rfl

/-- A change of an observed property. -/
theorem decodes_propertyChange {prop : RawProperty} (hprop : prop.WellFormed mem) :
    Decodes v ⟨⟨mpvEventPropertyChange, error, userdata⟩, some (.property prop), mem⟩ := by
  obtain ⟨name, data, hname, hdata, hmeans⟩ := hprop.means
  refine ⟨.propertyChange userdata name data, ?_, rfl, rfl, prop, rfl, hmeans⟩
  simp only [decode, hname, hdata]
  rfl

/-- A hook, with the text of its name. -/
theorem decodes_hook {name : Ptr} {id : UInt64} (hname : mem.IsText name) :
    Decodes v ⟨⟨mpvEventHook, error, userdata⟩, some (.hook name id), mem⟩ := by
  obtain ⟨text, htext⟩ := hname.lossy
  refine ⟨.hook userdata text id, ?_, rfl, rfl, name, rfl, htext⟩
  simp only [decode, htext]
  rfl

/-- The decoder is defined on every event of the contract but `MPV_EVENT_NONE`, and is
faithful. -/
theorem decodes_of_contract {raw : RawEvent} (h : raw.Contract v)
    (hne : raw.header.eventId ≠ mpvEventNone) : Decodes v raw := by
  cases h with
  | plain hplain => exact decodes_plain hne hplain
  | logMessage hpre hlevel htext => exact decodes_logMessage hpre hlevel htext
  | getPropertyReply hok hprop => exact decodes_getPropertyReply hok hprop
  | commandReply hok hresult => exact decodes_commandReply hok hresult
  | failedReply hid hneg => exact decodes_failedReply hid hneg
  | startFile => exact ⟨_, rfl, rfl, by simp, by simp⟩
  | startFileOld => exact ⟨_, rfl, rfl, by simp, by simp⟩
  | endFile hplaylist => exact decodes_endFile hplaylist
  | clientMessage hargs => exact decodes_clientMessage hargs
  | propertyChange hprop => exact decodes_propertyChange hprop
  | hook hname => exact decodes_hook hname

/-- A decoded event is returned, unless it is none. -/
theorem fromRaw_of_decode {raw : RawEvent} {ev : Event}
    (hne : raw.header.eventId ≠ mpvEventNone) (h : decode v raw = some ev) :
    fromRaw v raw = some (some ev) := by
  rw [fromRaw, if_neg hne, h, Option.map_some]

end Event

/-- **Event decoding is defined and faithful**: on every event that obeys the headers of a
libmpv with client API `v`, the decoder stays within what the contract promises, returns
nothing for `MPV_EVENT_NONE` and for nothing else, and otherwise returns an event that says
what the raw one does. -/
theorem from_raw_faithful {v : ℕ} {raw : RawEvent} (h : raw.Contract v) :
    ∃ result, Event.fromRaw v raw = some result ∧
      (result = none ↔ raw.header.eventId = mpvEventNone) ∧
      ∀ ev, result = some ev → ev.Faithful v raw := by
  by_cases hne : raw.header.eventId = mpvEventNone
  · have hread := (Event.fromRaw_eq_some_none_iff v raw).mpr hne
    exact ⟨none, hread, ⟨fun _ => hne, fun _ => rfl⟩, fun ev hev => absurd hev (by simp)⟩
  · obtain ⟨ev, hev, hfaithful⟩ := Event.decodes_of_contract h hne
    refine ⟨some ev, Event.fromRaw_of_decode hne hev,
      ⟨fun hnone => absurd hnone (by simp), fun h => absurd h hne⟩, fun ev' hev' => ?_⟩
    obtain rfl := Option.some.inj hev'
    exact hfaithful

/-- The data of a property that is not available is not looked at. -/
example : Event.fromRaw 0 ⟨⟨mpvEventPropertyChange, 0, 7⟩,
    some (.property ⟨none, mpvFormatNone, some .invalid⟩), {}⟩ =
      some (some (.propertyChange 7 "" .none)) := rfl

/-- The end of a file that failed to load, from a libmpv without the playlist fields. -/
def oldEndFile : RawEvent :=
  ⟨⟨mpvEventEndFile, 0, 0⟩, some (.endFile mpvEndFileReasonError mpvErrorLoadingFailed none), {}⟩

/-- The end of a file, from a libmpv that has no playlist fields. -/
theorem from_raw_faithful_old : ∃ result,
    Event.fromRaw (mpvMakeVersion 1 107) oldEndFile = some result ∧
    (result = none ↔ oldEndFile.header.eventId = mpvEventNone) ∧
    ∀ ev, result = some ev → ev.Faithful (mpvMakeVersion 1 107) oldEndFile :=
  from_raw_faithful (.endFile (by decide))

/-! ### Polling -/

/-- A handle whose libmpv keeps to the headers never leaves the defined behaviour, however
many threads poll it: a call that dequeued an event returned a faithful copy of it, and one
that dequeued none returned nothing. -/
theorem HandleInv.returned_faithful {T : Type*} {v : ℕ} {s : HandleState T} (h : HandleInv v s)
    (hposted : ∀ e ∈ s.shared.posted, e.Contract v) {i : ℕ} {t : T}
    {r : Option (Option Event)} (hr : s.shared.returned i = some (t, r)) :
    ∃ c, s.shared.calls[i]? = some c ∧ c.caller = t ∧
      ((c.dequeued = none ∧ r = some none) ∨
        ∃ e ev, c.dequeued = some e ∧ r = some (some ev) ∧ ev.Faithful v e) := by
  obtain ⟨c, hc, heq⟩ := h.results i _ hr
  obtain ⟨rfl, rfl⟩ := Prod.mk.inj heq
  refine ⟨c, hc, rfl, ?_⟩
  rcases hd : c.dequeued with _ | e
  · exact .inl ⟨rfl, by rw [EventCall.event, hd]; rfl⟩
  · have hmem : e ∈ s.shared.posted := by
      rw [h.fifo]
      exact List.mem_append_left _
        (List.mem_filterMap.mpr ⟨c, List.mem_of_getElem? hc, hd⟩)
    have hne := h.real e hmem
    obtain ⟨ev, hev, hfaithful⟩ := Event.decodes_of_contract (hposted e hmem) hne
    refine .inr ⟨e, ev, rfl, ?_, hfaithful⟩
    rw [EventCall.event, hd]
    exact Event.fromRaw_of_decode hne hev


end Rsmpv
