import Mathlib.Algebra.Group.Int.Defs
import Mathlib.Algebra.Group.Nat.Defs
import Mathlib.Logic.Basic

/-!
# The Constants of the C API

The numbers of `rsmpv-sys` that the wrapper compares with or returns. A C `int` is an
integer here; where the wrapper makes one with an `as` cast, the cast wraps
(`asCInt`), and the 64-bit results of the stream callbacks have their own fixed-width
type.
-/

namespace Rsmpv

/-- A C `int`. -/
abbrev CInt := ℤ

/-- The cast `n as c_int` of a length: two's complement in 32 bits. -/
def asCInt (n : ℕ) : CInt := (n : ℤ).bmod (2 ^ 32)

/-- The cast keeps what fits. -/
theorem asCInt_of_lt {n : ℕ} (h : n < 2 ^ 31) : asCInt n = n := by
  unfold asCInt
  rw [Int.bmod_eq_of_le] <;> omega

/-! ### Error codes -/

@[match_pattern] abbrev mpvErrorSuccess : CInt := 0
@[match_pattern] abbrev mpvErrorEventQueueFull : CInt := -1
@[match_pattern] abbrev mpvErrorNomem : CInt := -2
@[match_pattern] abbrev mpvErrorUninitialized : CInt := -3
@[match_pattern] abbrev mpvErrorInvalidParameter : CInt := -4
@[match_pattern] abbrev mpvErrorOptionNotFound : CInt := -5
@[match_pattern] abbrev mpvErrorOptionFormat : CInt := -6
@[match_pattern] abbrev mpvErrorOptionError : CInt := -7
@[match_pattern] abbrev mpvErrorPropertyNotFound : CInt := -8
@[match_pattern] abbrev mpvErrorPropertyFormat : CInt := -9
@[match_pattern] abbrev mpvErrorPropertyUnavailable : CInt := -10
@[match_pattern] abbrev mpvErrorPropertyError : CInt := -11
@[match_pattern] abbrev mpvErrorCommand : CInt := -12
@[match_pattern] abbrev mpvErrorLoadingFailed : CInt := -13
@[match_pattern] abbrev mpvErrorAoInitFailed : CInt := -14
@[match_pattern] abbrev mpvErrorVoInitFailed : CInt := -15
@[match_pattern] abbrev mpvErrorNothingToPlay : CInt := -16
@[match_pattern] abbrev mpvErrorUnknownFormat : CInt := -17
@[match_pattern] abbrev mpvErrorUnsupported : CInt := -18
@[match_pattern] abbrev mpvErrorNotImplemented : CInt := -19
@[match_pattern] abbrev mpvErrorGeneric : CInt := -20

/-! ### Data formats -/

@[match_pattern] abbrev mpvFormatNone : CInt := 0
@[match_pattern] abbrev mpvFormatString : CInt := 1
@[match_pattern] abbrev mpvFormatOsdString : CInt := 2
@[match_pattern] abbrev mpvFormatFlag : CInt := 3
@[match_pattern] abbrev mpvFormatInt64 : CInt := 4
@[match_pattern] abbrev mpvFormatDouble : CInt := 5
@[match_pattern] abbrev mpvFormatNode : CInt := 6
@[match_pattern] abbrev mpvFormatNodeArray : CInt := 7
@[match_pattern] abbrev mpvFormatNodeMap : CInt := 8
@[match_pattern] abbrev mpvFormatByteArray : CInt := 9

/-! ### Events -/

@[match_pattern] abbrev mpvEventNone : CInt := 0
@[match_pattern] abbrev mpvEventShutdown : CInt := 1
@[match_pattern] abbrev mpvEventLogMessage : CInt := 2
@[match_pattern] abbrev mpvEventGetPropertyReply : CInt := 3
@[match_pattern] abbrev mpvEventSetPropertyReply : CInt := 4
@[match_pattern] abbrev mpvEventCommandReply : CInt := 5
@[match_pattern] abbrev mpvEventStartFile : CInt := 6
@[match_pattern] abbrev mpvEventEndFile : CInt := 7
@[match_pattern] abbrev mpvEventFileLoaded : CInt := 8
@[match_pattern] abbrev mpvEventClientMessage : CInt := 16
@[match_pattern] abbrev mpvEventVideoReconfig : CInt := 17
@[match_pattern] abbrev mpvEventAudioReconfig : CInt := 18
@[match_pattern] abbrev mpvEventSeek : CInt := 20
@[match_pattern] abbrev mpvEventPlaybackRestart : CInt := 21
@[match_pattern] abbrev mpvEventPropertyChange : CInt := 22
@[match_pattern] abbrev mpvEventQueueOverflow : CInt := 24
@[match_pattern] abbrev mpvEventHook : CInt := 25

@[match_pattern] abbrev mpvEndFileReasonEof : CInt := 0
@[match_pattern] abbrev mpvEndFileReasonStop : CInt := 2
@[match_pattern] abbrev mpvEndFileReasonQuit : CInt := 3
@[match_pattern] abbrev mpvEndFileReasonError : CInt := 4
@[match_pattern] abbrev mpvEndFileReasonRedirect : CInt := 5

/-! ### Rendering -/

abbrev mpvRenderUpdateFrame : ℕ := 1

@[match_pattern] abbrev mpvRenderParamInvalid : CInt := 0
@[match_pattern] abbrev mpvRenderParamApiType : CInt := 1
@[match_pattern] abbrev mpvRenderParamOpenglInitParams : CInt := 2
@[match_pattern] abbrev mpvRenderParamOpenglFbo : CInt := 3
@[match_pattern] abbrev mpvRenderParamFlipY : CInt := 4
@[match_pattern] abbrev mpvRenderParamAdvancedControl : CInt := 10
@[match_pattern] abbrev mpvRenderParamNextFrameInfo : CInt := 11
@[match_pattern] abbrev mpvRenderParamBlockForTargetTime : CInt := 12
@[match_pattern] abbrev mpvRenderParamDrmDisplayV2 : CInt := 16
@[match_pattern] abbrev mpvRenderParamSwSize : CInt := 17
@[match_pattern] abbrev mpvRenderParamSwFormat : CInt := 18
@[match_pattern] abbrev mpvRenderParamSwStride : CInt := 19
@[match_pattern] abbrev mpvRenderParamSwPointer : CInt := 20

abbrev mpvRenderFrameInfoPresent : UInt64 := 1
abbrev mpvRenderFrameInfoRedraw : UInt64 := 2
abbrev mpvRenderFrameInfoRepeat : UInt64 := 4
abbrev mpvRenderFrameInfoBlockVsync : UInt64 := 8

/-- `MPV_MAKE_VERSION`. -/
def mpvMakeVersion (major minor : ℕ) : ℕ := major <<< 16 ||| minor

end Rsmpv
