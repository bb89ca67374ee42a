import Rsmpv.Sys

/-!
# Errors

`Error` (`error.rs`) and the two maps between it and libmpv's status codes. `check` turns
a status into a `Result`: a negative one is an error, and the error keeps its code
(`Error.rawCode_fromRaw`).
-/

namespace Rsmpv

/-- An error from libmpv, or from the wrapper itself. -/
inductive Error
  | eventQueueFull
  | outOfMemory
  | uninitialized
  | invalidParameter
  | optionNotFound
  | optionFormat
  | optionError
  | propertyNotFound
  | propertyFormat
  | propertyUnavailable
  | propertyError
  | command
  | loadingFailed
  | aoInitFailed
  | voInitFailed
  | nothingToPlay
  | unknownFormat
  | unsupported
  | notImplemented
  | generic
  | other (code : CInt)
  | interiorNul
  | createFailed
  deriving DecidableEq

/-- `Error::from_raw`. -/
def Error.fromRaw : CInt → Error
  | mpvErrorEventQueueFull => eventQueueFull
  | mpvErrorNomem => outOfMemory
  | mpvErrorUninitialized => uninitialized
  | mpvErrorInvalidParameter => invalidParameter
  | mpvErrorOptionNotFound => optionNotFound
  | mpvErrorOptionFormat => optionFormat
  | mpvErrorOptionError => optionError
  | mpvErrorPropertyNotFound => propertyNotFound
  | mpvErrorPropertyFormat => propertyFormat
  | mpvErrorPropertyUnavailable => propertyUnavailable
  | mpvErrorPropertyError => propertyError
  | mpvErrorCommand => command
  | mpvErrorLoadingFailed => loadingFailed
  | mpvErrorAoInitFailed => aoInitFailed
  | mpvErrorVoInitFailed => voInitFailed
  | mpvErrorNothingToPlay => nothingToPlay
  | mpvErrorUnknownFormat => unknownFormat
  | mpvErrorUnsupported => unsupported
  | mpvErrorNotImplemented => notImplemented
  | mpvErrorGeneric => generic
  | code => other code

/-- `Error::raw_code`. -/
def Error.rawCode : Error → Option CInt
  | eventQueueFull => some mpvErrorEventQueueFull
  | outOfMemory => some mpvErrorNomem
  | uninitialized => some mpvErrorUninitialized
  | invalidParameter => some mpvErrorInvalidParameter
  | optionNotFound => some mpvErrorOptionNotFound
  | optionFormat => some mpvErrorOptionFormat
  | optionError => some mpvErrorOptionError
  | propertyNotFound => some mpvErrorPropertyNotFound
  | propertyFormat => some mpvErrorPropertyFormat
  | propertyUnavailable => some mpvErrorPropertyUnavailable
  | propertyError => some mpvErrorPropertyError
  | command => some mpvErrorCommand
  | loadingFailed => some mpvErrorLoadingFailed
  | aoInitFailed => some mpvErrorAoInitFailed
  | voInitFailed => some mpvErrorVoInitFailed
  | nothingToPlay => some mpvErrorNothingToPlay
  | unknownFormat => some mpvErrorUnknownFormat
  | unsupported => some mpvErrorUnsupported
  | notImplemented => some mpvErrorNotImplemented
  | generic => some mpvErrorGeneric
  | other code => some code
  | interiorNul | createFailed => none

/-- Every error made from a status code keeps it. -/
theorem Error.rawCode_fromRaw (code : CInt) : (fromRaw code).rawCode = some code := by
  unfold fromRaw
  split <;> rfl

/-- `check`: a status `>= 0` is a success. -/
def check (code : CInt) : Except Error CInt :=
  if 0 ≤ code then .ok code else .error (Error.fromRaw code)

/-- A code that is not negative is handed on. -/
theorem check_of_nonneg {code : CInt} (h : 0 ≤ code) : check code = .ok code :=
  if_pos h

/-- A negative code becomes an error. -/
theorem check_of_neg {code : CInt} (h : code < 0) :
    check code = .error (Error.fromRaw code) :=
  if_neg (Int.not_le.mpr h)

end Rsmpv
