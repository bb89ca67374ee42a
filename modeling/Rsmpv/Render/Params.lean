import Mathlib.Data.Nat.Bitwise
import Rsmpv.Event.Contract
import Rsmpv.Lib.Ownership
import Rsmpv.Render.Software

/-!
# The Parameters of the Render API

`RenderInner::new_opengl`, `new_software`, `next_frame_info`, `render_opengl` and
`render_software` (`render.rs`) pass libmpv arrays of `mpv_render_param`, each a type and an
untyped pointer to what the type says, which mostly is a local variable of the function. libmpv
reads an array up to the parameter of type `MPV_RENDER_PARAM_INVALID`. Whether it can do so is
a matter of memory: the array has to end with that parameter, each pointer has to point to what
its type says, and the local variables have to be there for as long as the call lasts.

The functions are procedures that own memory (`Rsmpv.Lib.Ownership`), over any number of threads
and render contexts. A local variable libmpv writes to is part of its reply.

## Conventions

A parameter is read by its type: `RawRenderParam.read` says which type points to what, and a
pointer to anything else cannot be read. Static strings are part of the program and always
there. Whether an array ends is decided by its contents: without the terminator nothing is
read (`readParams`).

## Main results

* `readParams_cons`, `readParams_invalid`: an array is read parameter by parameter, up to
  the terminator.
* `tidy_withLocal`: a local variable is there for the rest of its function.
* `run_tidy`: each call can be made, is passed its arguments, and leaves no memory behind.
* `render_params_read`: so it is in every interleaving of render calls.
-/

namespace Rsmpv

open Ownership (Proc Heap Interface Safe safe_ask safe_scoped)

/-! ### Memory -/

/-- `OpenGlFbo`, and the `mpv_opengl_fbo` made of it. -/
structure OpenGlFbo where
  fbo : Int32
  width : Int32
  height : Int32
  internalFormat : Int32

/-- `mpv_opengl_drm_params_v2`. -/
structure DrmParamsV2 where
  fd : CInt
  crtcId : CInt
  connectorId : CInt
  atomicRequestPtr : Ptr
  renderFd : CInt

/-- The `data` of a parameter: null, a string of the program, the caller's pixels, or the
address of a local variable. Here and below `w` is the width of a `usize`. -/
inductive ParamData (w : ℕ)
  | null
  | text (mem : List UInt8)
  | pixels (slice : ByteSlice w)
  | address (p : ℕ)

/-- `mpv_render_param`. -/
structure RawRenderParam (w : ℕ) where
  type : CInt
  data : ParamData w

/-- What a parameter points to. All but the first two are the local variables. -/
inductive RenderCell (w : ℕ)
  | text (mem : List UInt8)
  | pixels (slice : ByteSlice w)
  | initParams (getProcAddressCtx : ℕ)
  | drmParams (drm : DrmParamsV2)
  | fbo (fbo : OpenGlFbo)
  | int (v : CInt)
  | size (width height : Int32)
  | usize (n : BitVec w)
  | frameInfo
  | params (l : List (RawRenderParam w))

/-- The functions of libmpv. -/
inductive RenderFn
  | createContext
  | getInfo
  | render
  deriving DecidableEq

/-- The parameters of a call: an array, by its address, or one by value. -/
inductive ParamsArg (w : ℕ)
  | array (p : ℕ)
  | one (param : RawRenderParam w)

/-- A call of libmpv, on the handle or the context at the address `object`. -/
structure RenderQuery (w : ℕ) where
  fn : RenderFn
  object : ℕ
  params : ParamsArg w

/-- What libmpv returns, and what it leaves in `raw` and `info`. -/
structure RenderReply where
  code : CInt
  context : Ptr
  flags : UInt64
  targetTime : Int64

/-! ### What libmpv reads -/

/-- A parameter as it is read. -/
inductive RenderArg (w : ℕ)
  | apiType (name : List UInt8)
  | openglInitParams (getProcAddressCtx : ℕ)
  | openglFbo (fbo : OpenGlFbo)
  | flipY (v : CInt)
  | advancedControl (v : CInt)
  | nextFrameInfo
  | blockForTargetTime (v : CInt)
  | drmDisplayV2 (drm : DrmParamsV2)
  | swSize (width height : Int32)
  | swFormat (name : List UInt8)
  | swStride (stride : BitVec w)
  | swPointer (ptr : BitVec w)

/-- A call as libmpv reads it. -/
structure RenderRequest (w : ℕ) where
  fn : RenderFn
  object : ℕ
  args : List (RenderArg w)

section Read

variable {w : ℕ}

/-- What a pointer points to. -/
def ParamData.target (h : Heap (RenderCell w)) : ParamData w → Option (RenderCell w)
  | null => none
  | text mem => some (.text mem)
  | pixels slice => some (.pixels slice)
  | address p => h p

/-- Memory is read as the type of the parameter says it is. -/
def RenderArg.read : CInt → RenderCell w → Option (RenderArg w)
  | mpvRenderParamApiType, .text mem => (Utf8.cstrBytes mem).map .apiType
  | mpvRenderParamOpenglInitParams, .initParams ctx => some (.openglInitParams ctx)
  | mpvRenderParamOpenglFbo, .fbo fbo => some (.openglFbo fbo)
  | mpvRenderParamFlipY, .int v => some (.flipY v)
  | mpvRenderParamAdvancedControl, .int v => some (.advancedControl v)
  | mpvRenderParamNextFrameInfo, .frameInfo => some .nextFrameInfo
  | mpvRenderParamBlockForTargetTime, .int v => some (.blockForTargetTime v)
  | mpvRenderParamDrmDisplayV2, .drmParams drm => some (.drmDisplayV2 drm)
  | mpvRenderParamSwSize, .size width height => some (.swSize width height)
  | mpvRenderParamSwFormat, .text mem => (Utf8.cstrBytes mem).map .swFormat
  | mpvRenderParamSwStride, .usize stride => some (.swStride stride)
  | mpvRenderParamSwPointer, .pixels slice => some (.swPointer slice.ptr)
  | _, _ => none

/-- What libmpv reads of a parameter: its data, as the type says. -/
def RawRenderParam.read (h : Heap (RenderCell w)) (p : RawRenderParam w) :
    Option (RenderArg w) :=
  (p.data.target h).bind (RenderArg.read p.type)

/-- An array is read up to its first invalid parameter, and has to have one. -/
def readParams (h : Heap (RenderCell w)) : List (RawRenderParam w) → Option (List (RenderArg w))
  | [] => none
  | p :: l =>
    if p.type = mpvRenderParamInvalid then some []
    else do
      let arg ← p.read h
      let args ← readParams h l
      some (arg :: args)

/-- What libmpv reads of the parameters: an array up to the terminator, or the one there is. -/
def ParamsArg.view (h : Heap (RenderCell w)) : ParamsArg w → Option (List (RenderArg w))
  | array p =>
    match h p with
    | some (.params l) => readParams h l
    | _ => none
  | one param => (param.read h).map ([·])

/-- What libmpv reads of a call. -/
def RenderQuery.view (h : Heap (RenderCell w)) (q : RenderQuery w) : Option (RenderRequest w) :=
  (q.params.view h).map fun args => ⟨q.fn, q.object, args⟩

variable {h h' : Heap (RenderCell w)} (hsub : h.Sub h')
include hsub

/-- A parameter reads the same in any larger memory. -/
theorem RawRenderParam.read_mono {p : RawRenderParam w} {arg : RenderArg w}
    (hp : p.read h = some arg) : p.read h' = some arg := by
  obtain ⟨cell, htarget, hread⟩ := Option.bind_eq_some_iff.mp hp
  refine Option.bind_eq_some_iff.mpr ⟨cell, ?_, hread⟩
  cases hdata : p.data with
  | null | text _ | pixels _ =>
      rw [hdata] at htarget
      exact htarget
  | address q =>
      rw [hdata] at htarget
      exact hsub q cell htarget

/-- So does an array of them. -/
theorem readParams_mono {l : List (RawRenderParam w)} {args : List (RenderArg w)}
    (hl : readParams h l = some args) : readParams h' l = some args := by
  induction l generalizing args with
  | nil => cases hl
  | cons p l ih =>
      rw [readParams] at hl ⊢
      split at hl
      · next hp => rw [if_pos hp, hl]
      · next hp =>
          rw [if_neg hp]
          obtain ⟨arg, harg, hrest⟩ := Option.bind_eq_some_iff.mp hl
          obtain ⟨args', hargs, hcons⟩ := Option.bind_eq_some_iff.mp hrest
          exact Option.bind_eq_some_iff.mpr ⟨arg, RawRenderParam.read_mono hsub harg,
            Option.bind_eq_some_iff.mpr ⟨args', ih hargs, hcons⟩⟩

/-- So does what a call passes. -/
theorem ParamsArg.view_mono {a : ParamsArg w} {args : List (RenderArg w)}
    (ha : a.view h = some args) : a.view h' = some args := by
  cases a with
  | array p =>
      rw [ParamsArg.view] at ha
      split at ha
      · next l hp =>
          rw [ParamsArg.view, hsub p _ hp]
          exact readParams_mono hsub ha
      · cases ha
  | one param =>
      obtain ⟨arg, harg, rfl⟩ := Option.map_eq_some_iff.mp ha
      exact Option.map_eq_some_iff.mpr ⟨arg, RawRenderParam.read_mono hsub harg, rfl⟩

end Read

/-- The calls of libmpv, which may answer anything. -/
def renderInterface (w : ℕ) :
    Interface (RenderQuery w) RenderReply (RenderCell w) Unit (RenderRequest w) RenderReply where
  view := RenderQuery.view
  view_mono hsub hv := by
    obtain ⟨args, hargs, rfl⟩ := Option.map_eq_some_iff.mp hv
    exact Option.map_eq_some_iff.mpr ⟨args, ParamsArg.view_mono hsub hargs, rfl⟩
  allowed _ _ := True
  conveys a r δ := r = a ∧ δ = .empty
  releases _ _ := True

/-! ### The code -/

/-- `FrameInfo`. -/
structure FrameInfo where
  present : Bool
  redraw : Bool
  repeat_ : Bool
  blockVsync : Bool
  targetTime : Int64

/-- What becomes of a context: the creation fails, or panics over a context that is null. -/
inductive Creation
  | failed (e : Error)
  | panicked
  | created (raw : ℕ)

/-- A function of `render.rs`, over the memory it shares with libmpv. -/
abbrev RenderProc (w : ℕ) (α : Type) := Proc (RenderQuery w) RenderReply (RenderCell w) Unit α

namespace RenderProc

variable {w : ℕ} {α : Type}

/-- A local variable, with the rest of the function that declares it. -/
def withLocal (c : RenderCell w) (body : ℕ → RenderProc w α) : RenderProc w α := do
  let p ← Proc.alloc c .ret
  let r ← body p
  Proc.free () p (.ret ())
  pure r

/-- Call a function of libmpv and wait for its reply. -/
def call (fn : RenderFn) (object : ℕ) (params : ParamsArg w) : RenderProc w RenderReply :=
  .ask ⟨fn, object, params⟩ .ret

/-- `RenderInner::create`. -/
def create (mpv params : ℕ) : RenderProc w Creation := do
  let reply ← call .createContext mpv (.array params)
  match check reply.code, reply.context with
  | .error e, _ => pure (.failed e)
  | .ok _, none => pure .panicked
  | .ok _, some raw => pure (.created raw)

/-- The string that is static in the program, with its terminator. -/
def static (s : String) : ParamData w := .text (Utf8.bytes s ++ [0])

/-- `RenderInner::new_opengl`, with the address of the closure. -/
def newOpengl (mpv : ℕ) (advancedControl : Bool) (getProcAddress : ℕ)
    (drmRenderFd : Option CInt) : RenderProc w Creation :=
  withLocal (.initParams getProcAddress) fun init =>
    withLocal (.int advancedControl.toInt) fun advanced =>
      withLocal (.drmParams ⟨-1, 0, 0, none, drmRenderFd.getD (-1)⟩) fun drm =>
        let invalid : RawRenderParam w := ⟨mpvRenderParamInvalid, .null⟩
        let drmParam := if drmRenderFd.isSome then ⟨mpvRenderParamDrmDisplayV2, .address drm⟩
          else invalid
        withLocal (.params [⟨mpvRenderParamApiType, static "opengl"⟩,
          ⟨mpvRenderParamOpenglInitParams, .address init⟩,
          ⟨mpvRenderParamAdvancedControl, .address advanced⟩, drmParam, invalid]) (create mpv)

/-- `RenderInner::new_software`. -/
def newSoftware (mpv : ℕ) : RenderProc w Creation :=
  withLocal (.params [⟨mpvRenderParamApiType, static "sw"⟩, ⟨mpvRenderParamInvalid, .null⟩])
    (create mpv)

/-- `mpv_render_context_get_info`, and what is made of what it leaves in `info`. -/
def frameInfo (raw : ℕ) (param : RawRenderParam w) : RenderProc w (Except Error FrameInfo) := do
  let reply ← call .getInfo raw (.one param)
  let flag := fun f : UInt64 => reply.flags &&& f != 0
  pure ((check reply.code).map fun _ => {
    present := flag mpvRenderFrameInfoPresent
    redraw := flag mpvRenderFrameInfoRedraw
    repeat_ := flag mpvRenderFrameInfoRepeat
    blockVsync := flag mpvRenderFrameInfoBlockVsync
    targetTime := reply.targetTime })

/-- `RenderInner::next_frame_info`. -/
def nextFrameInfo (raw : ℕ) : RenderProc w (Except Error FrameInfo) :=
  withLocal .frameInfo fun info => frameInfo raw ⟨mpvRenderParamNextFrameInfo, .address info⟩

/-- `mpv_render_context_render` with its status checked, as both render functions end. -/
def render (raw params : ℕ) : RenderProc w (Except Error Unit) := do
  let reply ← call .render raw (.array params)
  pure ((check reply.code).map fun _ => ())

/-- `RenderInner::render_opengl`. -/
def renderOpengl (raw : ℕ) (fbo : OpenGlFbo) (flipY blockForTargetTime : Bool) :
    RenderProc w (Except Error Unit) :=
  withLocal (.fbo fbo) fun rawFbo =>
    withLocal (.int flipY.toInt) fun flip =>
      withLocal (.int blockForTargetTime.toInt) fun block =>
        withLocal (.params [⟨mpvRenderParamOpenglFbo, .address rawFbo⟩,
          ⟨mpvRenderParamFlipY, .address flip⟩,
          ⟨mpvRenderParamBlockForTargetTime, .address block⟩,
          ⟨mpvRenderParamInvalid, .null⟩]) (render raw)

/-- `RenderInner::render_software`. -/
def renderSoftware (raw : ℕ) (width height : Int32) (format : SwPixelFormat) (stride : BitVec w)
    (pixels : ByteSlice w) : RenderProc w (Except Error Unit) :=
  match RenderInner.checkSoftware width height format stride pixels with
  | .error e => pure (.error e)
  | .ok _ =>
    withLocal (.size width height) fun size =>
      withLocal (.usize stride) fun stride =>
        withLocal (.params [⟨mpvRenderParamSwSize, .address size⟩,
          ⟨mpvRenderParamSwFormat, static format.asCstr⟩,
          ⟨mpvRenderParamSwStride, .address stride⟩, ⟨mpvRenderParamSwPointer, .pixels pixels⟩,
          ⟨mpvRenderParamInvalid, .null⟩]) (render raw)

end RenderProc

/-! ### The calls -/

/-- A call of the render API with its arguments. -/
inductive RenderCall (w : ℕ)
  | newOpengl (mpv : ℕ) (advancedControl : Bool) (getProcAddress : ℕ)
      (drmRenderFd : Option CInt)
  | newSoftware (mpv : ℕ)
  | nextFrameInfo (raw : ℕ)
  | renderOpengl (raw : ℕ) (fbo : OpenGlFbo) (flipY blockForTargetTime : Bool)
  | renderSoftware (raw : ℕ) (width height : Int32) (format : SwPixelFormat)
      (stride : BitVec w) (pixels : ByteSlice w)

/-- The calls that were made, with their replies. -/
abbrev RenderExchanges (w : ℕ) := List (RenderRequest w × RenderReply)

/-- What the flags libmpv leaves in `info` stand for. -/
structure FrameInfo.Means (a : RenderReply) (info : FrameInfo) : Prop where
  present : info.present = a.flags.toNat.testBit 0
  redraw : info.redraw = a.flags.toNat.testBit 1
  repeat_ : info.repeat_ = a.flags.toNat.testBit 2
  blockVsync : info.blockVsync = a.flags.toNat.testBit 3
  targetTime : info.targetTime = a.targetTime

/-- How a creation goes on after libmpv answered. -/
inductive Creation.Reports (a : RenderReply) : Creation → Prop
  | failed : a.code < 0 → Reports a (.failed (.fromRaw a.code))
  | panicked : 0 ≤ a.code → a.context = none → Reports a .panicked
  | created {raw : ℕ} : 0 ≤ a.code → a.context = some raw → Reports a (.created raw)

namespace RenderCall

variable {w : ℕ}

/-- What the function returns. -/
def Result : RenderCall w → Type
  | newOpengl _ _ _ _ | newSoftware _ => Creation
  | nextFrameInfo _ => Except Error FrameInfo
  | renderOpengl _ _ _ _ | renderSoftware _ _ _ _ _ _ => Except Error Unit

/-- The function itself. -/
def run : (c : RenderCall w) → RenderProc w c.Result
  | newOpengl mpv advancedControl getProcAddress drmRenderFd =>
    RenderProc.newOpengl mpv advancedControl getProcAddress drmRenderFd
  | newSoftware mpv => RenderProc.newSoftware mpv
  | nextFrameInfo raw => RenderProc.nextFrameInfo raw
  | renderOpengl raw fbo flipY blockForTargetTime =>
    RenderProc.renderOpengl raw fbo flipY blockForTargetTime
  | renderSoftware raw width height format stride pixels =>
    RenderProc.renderSoftware raw width height format stride pixels

/-- The function that the call calls, and what on. -/
def target : RenderCall w → RenderFn × ℕ
  | newOpengl mpv _ _ _ | newSoftware mpv => (.createContext, mpv)
  | nextFrameInfo raw => (.getInfo, raw)
  | renderOpengl raw _ _ _ | renderSoftware raw _ _ _ _ _ => (.render, raw)

/-- The arguments of the call as parameters, unless they are refused. -/
def args : RenderCall w → Option (List (RenderArg w))
  | newOpengl _ advancedControl getProcAddress drmRenderFd =>
    some ([.apiType (Utf8.bytes "opengl"), .openglInitParams getProcAddress,
      .advancedControl advancedControl.toInt] ++
      (drmRenderFd.map fun fd => .drmDisplayV2 ⟨-1, 0, 0, none, fd⟩).toList)
  | newSoftware _ => some [.apiType (Utf8.bytes "sw")]
  | nextFrameInfo _ => some [.nextFrameInfo]
  | renderOpengl _ fbo flipY blockForTargetTime =>
    some [.openglFbo fbo, .flipY flipY.toInt, .blockForTargetTime blockForTargetTime.toInt]
  | renderSoftware _ width height format stride pixels =>
    if SurfaceFits width.toInt height.toInt format.bytesPerPixel stride.toNat pixels.len.toNat
    then some [.swSize width height, .swFormat (Utf8.bytes format.asCstr), .swStride stride,
      .swPointer pixels.ptr]
    else none

/-- The result says what libmpv answered. -/
def Reports (a : RenderReply) : (c : RenderCall w) → c.Result → Prop
  | newOpengl _ _ _ _, r | newSoftware _, r => Creation.Reports a r
  | nextFrameInfo _, r => IsReply a.code (FrameInfo.Means a) r
  | renderOpengl _ _ _ _, r | renderSoftware _ _ _ _ _ _, r => IsReply a.code (fun _ => True) r

/-- The result of a call whose arguments are refused. -/
def Refuses : (c : RenderCall w) → c.Result → Prop
  | renderSoftware _ _ _ _ _ _, r => r = .error .invalidParameter
  | _, _ => False

/-- What a call ends with: libmpv was called once, with the arguments of the call as its
parameters, and the result says what it answered; or the arguments were refused. -/
inductive Ends (c : RenderCall w) (r : c.Result) : RenderExchanges w → Prop
  | answered {l : List (RenderArg w)} {a : RenderReply} : c.args = some l → c.Reports a r →
      Ends c r [(⟨c.target.1, c.target.2, l⟩, a)]
  | refused : c.args = none → c.Refuses r → Ends c r []

end RenderCall

/-! ### Local variables -/

namespace RenderProc

variable {w : ℕ} {α : Type} {h : Heap (RenderCell w)} {l : RenderExchanges w}
  {P : α → RenderExchanges w → Prop}

/-- `m` leaves the memory as it found it, and ends as `P` says. -/
def Tidy (m : RenderProc w α) (l : RenderExchanges w) (h : Heap (RenderCell w))
    (P : α → RenderExchanges w → Prop) : Prop :=
  Safe (renderInterface w) m l h fun a l' h' => h' = h ∧ P a l'

/-- A local variable is there for the rest of its function, and so is all that was there. -/
theorem tidy_withLocal {c : RenderCell w} {body : ℕ → RenderProc w α}
    (hbody : ∀ p h', h.Sub h' → h' p = some c → Tidy (body p) l h' P) :
    Tidy (withLocal c body) l h P := by
  refine safe_scoped trivial fun p hp => hbody p _ (Heap.sub_add _ _) ?_
  rw [Heap.add_of_none hp, Heap.single_self]

/-- A call whose parameters can be read, and what follows it. -/
theorem tidy_call {fn : RenderFn} {object : ℕ} {params : ParamsArg w}
    {finish : RenderReply → RenderProc w α} {args : List (RenderArg w)}
    (hview : params.view h = some args)
    (hfinish : ∀ a, Tidy (finish a) (l ++ [(⟨fn, object, args⟩, a)]) h P) :
    Tidy (do
      let reply ← call fn object params
      finish reply) l h P := by
  have hread : (renderInterface w).view h ⟨fn, object, params⟩ = some ⟨fn, object, args⟩ := by
    simp [renderInterface, RenderQuery.view, hview]
  refine safe_ask hread fun a r δ _ hconveys _ => ?_
  obtain ⟨rfl, rfl⟩ := hconveys
  rw [Heap.add_empty]
  exact hfinish r

/-- Returning a value touches no memory. -/
theorem tidy_pure {a : α} (ha : P a l) : Tidy (pure a) l h P := ⟨rfl, ha⟩

/-- The end of a creation. -/
theorem tidy_create {mpv p : ℕ} {args : List (RenderArg w)}
    {P : Creation → RenderExchanges w → Prop} (hview : (ParamsArg.array p).view h = some args)
    (hP : ∀ a r, Creation.Reports a r → P r (l ++ [(⟨.createContext, mpv, args⟩, a)])) :
    Tidy (create mpv p) l h P := by
  refine tidy_call hview fun a => ?_
  obtain hok | hneg := le_or_gt 0 a.code
  · rw [check_of_nonneg hok]
    cases hcontext : a.context with
    | none => exact tidy_pure (hP a _ (.panicked hok hcontext))
    | some raw => exact tidy_pure (hP a _ (.created hok hcontext))
  · rw [check_of_neg hneg]
    exact tidy_pure (hP a _ (.failed hneg))

/-- The end of a rendering call. -/
theorem tidy_render {raw p : ℕ} {args : List (RenderArg w)}
    {P : Except Error Unit → RenderExchanges w → Prop}
    (hview : (ParamsArg.array p).view h = some args)
    (hP : ∀ a r, IsReply a.code (fun _ => True) r → P r (l ++ [(⟨.render, raw, args⟩, a)])) :
    Tidy (render raw p) l h P := by
  refine tidy_call hview fun a => tidy_pure (hP a _ ?_)
  obtain hok | hneg := le_or_gt 0 a.code
  · rw [check_of_nonneg hok]
    exact .ok hok trivial
  · rw [check_of_neg hneg]
    exact .failed hneg

/-- A flag of a frame is a bit. -/
theorem flag_eq_testBit {flags f : UInt64} {i : ℕ} (hf : f.toNat = 2 ^ i) :
    (flags &&& f != 0) = flags.toNat.testBit i := by
  have hand : (flags &&& f).toNat = (flags.toNat.testBit i).toNat * 2 ^ i := by
    rw [UInt64.toNat_and, hf, Nat.and_two_pow]
  have hpos := Nat.two_pow_pos i
  rw [Bool.eq_iff_iff, bne_iff_ne, ne_eq, ← UInt64.toNat_inj, hand]
  cases flags.toNat.testBit i <;> simp

/-- The end of `next_frame_info`. -/
theorem tidy_frameInfo {raw : ℕ} {param : RawRenderParam w} {args : List (RenderArg w)}
    {P : Except Error FrameInfo → RenderExchanges w → Prop}
    (hview : (ParamsArg.one param).view h = some args)
    (hP : ∀ a r, IsReply a.code (FrameInfo.Means a) r →
      P r (l ++ [(⟨.getInfo, raw, args⟩, a)])) :
    Tidy (frameInfo raw param) l h P := by
  refine tidy_call hview fun a => tidy_pure (hP a _ ?_)
  obtain hok | hneg := le_or_gt 0 a.code
  · rw [check_of_nonneg hok]
    exact .ok hok ⟨flag_eq_testBit rfl, flag_eq_testBit rfl, flag_eq_testBit rfl,
      flag_eq_testBit rfl, rfl⟩
  · rw [check_of_neg hneg]
    exact .failed hneg

end RenderProc

/-! ### Parameters that can be read -/

section Readable

variable {w : ℕ} {h : Heap (RenderCell w)} {p : RawRenderParam w} {l : List (RawRenderParam w)}
  {type : CInt} {cell : RenderCell w} {arg : RenderArg w} {args : List (RenderArg w)} {q : ℕ}

/-- The parameter that ends an array has no meaning. -/
theorem RawRenderParam.type_ne_invalid (hp : p.read h = some arg) :
    p.type ≠ mpvRenderParamInvalid := by
  intro hinvalid
  obtain ⟨cell, -, hread⟩ := Option.bind_eq_some_iff.mp hp
  rw [hinvalid] at hread
  cases cell <;> cases hread

/-- An array is read parameter by parameter. -/
theorem readParams_cons (hp : p.read h = some arg) (hl : readParams h l = some args) :
    readParams h (p :: l) = some (arg :: args) := by
  rw [readParams, if_neg (RawRenderParam.type_ne_invalid hp), hp, hl]
  rfl

/-- The terminator ends an array, whatever stands behind it. -/
theorem readParams_invalid (l : List (RawRenderParam w)) :
    readParams h (⟨mpvRenderParamInvalid, .null⟩ :: l) = some [] := rfl

/-- An array at an address is read where it stands. -/
theorem view_array (hq : h q = some (.params l)) (hl : readParams h l = some args) :
    (ParamsArg.array q).view h = some args := by
  rw [ParamsArg.view, hq]
  exact hl

/-- A pointer to a local is read as what the local holds. -/
theorem read_address (hq : h q = some cell) (hread : RenderArg.read type cell = some arg) :
    RawRenderParam.read h ⟨type, .address q⟩ = some arg := by
  rw [RawRenderParam.read, ParamData.target, hq]
  exact hread

/-- A string of the program is read as it is written there. -/
theorem read_static {s : String} (hs : 0 ∉ Utf8.bytes s) {f : List UInt8 → RenderArg w}
    (hread : ∀ mem, RenderArg.read type (.text mem : RenderCell w) =
      (Utf8.cstrBytes mem).map f) :
    RawRenderParam.read h ⟨type, RenderProc.static s⟩ = some (f (Utf8.bytes s)) := by
  rw [RawRenderParam.read, RenderProc.static, ParamData.target, Option.bind_some, hread,
    Utf8.cstrBytes_terminated hs, Option.map_some]

end Readable

/-! ### The functions -/

namespace RenderCall

variable {w : ℕ}

open RenderProc

/-- **Each call** can be made, calls libmpv with its arguments, and leaves no memory behind. -/
theorem run_tidy (hw : 32 ≤ w) (c : RenderCall w) :
    RenderProc.Tidy c.run [] .empty c.Ends := by
  cases c with
  | newOpengl mpv advancedControl getProcAddress drmRenderFd =>
      refine tidy_withLocal fun init h₁ _ hinit => ?_
      refine tidy_withLocal fun advanced h₂ hsub₂ hadvanced => ?_
      refine tidy_withLocal fun drm h₃ hsub₃ hdrm => ?_
      refine tidy_withLocal fun params h₄ hsub₄ hparams => ?_
      have hinit := hsub₄ _ _ (hsub₃ _ _ (hsub₂ _ _ hinit))
      have hadvanced := hsub₄ _ _ (hsub₃ _ _ hadvanced)
      have hdrm := hsub₄ _ _ hdrm
      refine tidy_create (view_array hparams (readParams_cons (read_static (by decide) fun _ => rfl)
        (readParams_cons (read_address hinit rfl)
          (readParams_cons (read_address hadvanced rfl) ?_)))) fun a r hr => .answered rfl hr
      -- The fourth parameter ends the array, unless there is a file descriptor.
      cases drmRenderFd with
      | none => exact readParams_invalid _
      | some fd => exact readParams_cons (read_address hdrm rfl) (readParams_invalid _)
  | newSoftware mpv =>
      refine tidy_withLocal fun params h₁ _ hparams => ?_
      exact tidy_create (view_array hparams (readParams_cons
        (read_static (by decide) fun _ => rfl) (readParams_invalid _)))
        fun a r hr => .answered rfl hr
  | nextFrameInfo raw =>
      refine tidy_withLocal fun info h₁ _ hinfo => ?_
      refine tidy_frameInfo ?_ fun a r hr => .answered rfl hr
      rw [ParamsArg.view, read_address hinfo rfl]
      rfl
  | renderOpengl raw fbo flipY blockForTargetTime =>
      refine tidy_withLocal fun rawFbo h₁ _ hfbo => ?_
      refine tidy_withLocal fun flip h₂ hsub₂ hflip => ?_
      refine tidy_withLocal fun block h₃ hsub₃ hblock => ?_
      refine tidy_withLocal fun params h₄ hsub₄ hparams => ?_
      have hfbo := hsub₄ _ _ (hsub₃ _ _ (hsub₂ _ _ hfbo))
      have hflip := hsub₄ _ _ (hsub₃ _ _ hflip)
      have hblock := hsub₄ _ _ hblock
      exact tidy_render (view_array hparams (readParams_cons (read_address hfbo rfl)
        (readParams_cons (read_address hflip rfl) (readParams_cons (read_address hblock rfl)
          (readParams_invalid _))))) fun a r hr => .answered rfl hr
  | renderSoftware raw width height format stride pixels =>
      by_cases hfits : SurfaceFits width.toInt height.toInt format.bytesPerPixel stride.toNat
          pixels.len.toNat
      · have hargs : (renderSoftware raw width height format stride pixels).args =
            some [.swSize width height, .swFormat (Utf8.bytes format.asCstr), .swStride stride,
              .swPointer pixels.ptr] := if_pos hfits
        have hformat : 0 ∉ Utf8.bytes format.asCstr := by cases format <;> decide
        simp only [run, RenderProc.renderSoftware, RenderInner.checkSoftware_eq hw, if_pos hfits]
        refine tidy_withLocal fun size h₁ _ hsize => ?_
        refine tidy_withLocal fun strideVar h₂ hsub₂ hstride => ?_
        refine tidy_withLocal fun params h₃ hsub₃ hparams => ?_
        have hsize := hsub₃ _ _ (hsub₂ _ _ hsize)
        have hstride := hsub₃ _ _ hstride
        exact tidy_render (view_array hparams (readParams_cons (read_address hsize rfl)
          (readParams_cons (read_static hformat fun _ => rfl)
            (readParams_cons (read_address hstride rfl)
              (readParams_cons rfl (readParams_invalid _)))))) fun a r hr => .answered hargs hr
      · simp only [run, RenderProc.renderSoftware, RenderInner.checkSoftware_eq hw, if_neg hfits]
        exact tidy_pure (.refused (if_neg hfits) rfl)

end RenderCall

/-! ### All calls together -/

/-- Threads, each between calls of the render API or in one, with the memory they share. -/
abbrev RenderPool (T σ : Type) (w : ℕ) :=
  Pool T
    (Ownership.Shared (RenderCell w) (RenderRequest w) RenderReply σ T
      fun c : RenderCall w => c.Result)
    (Ownership.ThreadPc (RenderQuery w) RenderReply (RenderCell w) Unit (RenderRequest w)
      RenderReply fun c : RenderCall w => c.Result)

/-- The threads `T` over a libmpv that answers as `libmpv` does. -/
def renderCalls (T : Type) [DecidableEq T] {σ : Type} {w : ℕ}
    (libmpv : Lts σ (RenderRequest w × RenderReply)) : Lts (RenderPool T σ w) T :=
  Ownership.jobSystem (renderInterface w) libmpv fun c => c.run

/-- **Parameters of the render API are there, and are the arguments.** For any render calls of
any threads, in every interleaving, whatever libmpv answers: no array libmpv is about to read
lacks its end, and no parameter points to what is gone or is not of its type; no memory is left
when no call is in progress; the calls of libmpv are, in their order, a run of it; and a call that
returned called libmpv once, with its arguments as the parameters and the answer in its result, or
had a surface that does not fit. -/
theorem render_params_read (T : Type) [DecidableEq T] {σ : Type} {w : ℕ} (hw : 32 ≤ w)
    (libmpv : Lts σ (RenderRequest w × RenderReply)) (s : RenderPool T σ w)
    (h : (renderCalls T libmpv).Reachable s) :
    (∀ t c m l, s.pc t = .running c m l → ¬ m.Faulty (renderInterface w) s.shared.heap) ∧
    ((∀ t, s.pc t = .idle) → s.shared.heap = .empty) ∧
    (∃ e, libmpv.init e ∧ libmpv.Run e (s.shared.exchanges.map Prod.snd) s.shared.env) ∧
    ∀ d ∈ s.shared.done, d.job.Ends d.result d.log := by
  have hs : Ownership.Sound (renderInterface w)
      (fun (c : RenderCall w) r l => RenderCall.Ends c r l) s :=
    Ownership.reachable_sound (RenderCall.run_tidy hw) (fun _ _ _ _ _ => trivial) h
  exact ⟨fun t c m l hpc => hs.not_faulty hpc, hs.no_leak, Ownership.exchanges_run h, hs.done⟩

/-- A renderer with a file descriptor was made. -/
theorem render_params_read_drm : ∃ (s : RenderPool Unit Unit 64) (r : Creation)
    (l : RenderExchanges 64),
    (renderCalls Unit ⟨fun _ => True, fun _ _ _ => True⟩).Reachable s ∧
    s.shared.done = [⟨(), .newOpengl 1 true 5 (some 3), r, l⟩] ∧
    RenderCall.Ends (.newOpengl 1 true 5 (some 3) : RenderCall 64) r l := by
  have start : (renderCalls Unit ⟨fun _ => True, fun _ _ _ => True⟩).Reachable
      (⟨⟨.empty, (), [], []⟩, fun _ => .idle⟩ : RenderPool Unit Unit 64) :=
    .of_init ⟨trivial, rfl, rfl, rfl, fun _ => rfl⟩
  have hands : (renderInterface 64).conveys ⟨0, some 9, 0, 0⟩ ⟨0, some 9, 0, 0⟩ .empty :=
    ⟨rfl, rfl⟩
  have begun := start.of_step (a := ())
    ⟨_, _, .start (.newOpengl 1 true 5 (some 3)) rfl, rfl⟩
  have init := begun.of_step (a := ()) ⟨_, _, .alloc (p := 0) rfl rfl, rfl⟩
  have advanced := init.of_step (a := ()) ⟨_, _, .alloc (p := 1) rfl rfl, rfl⟩
  have drm := advanced.of_step (a := ()) ⟨_, _, .alloc (p := 2) rfl rfl, rfl⟩
  have params := drm.of_step (a := ()) ⟨_, _, .alloc (p := 3) rfl rfl, rfl⟩
  have asked := params.of_step (a := ())
    ⟨_, _, .ask (e := ()) rfl rfl trivial hands (Heap.apart_empty _), rfl⟩
  have freed₃ := asked.of_step (a := ()) ⟨_, _, .free rfl rfl trivial, rfl⟩
  have freed₂ := freed₃.of_step (a := ()) ⟨_, _, .free rfl rfl trivial, rfl⟩
  have freed₁ := freed₂.of_step (a := ()) ⟨_, _, .free rfl rfl trivial, rfl⟩
  have freed₀ := freed₁.of_step (a := ()) ⟨_, _, .free rfl rfl trivial, rfl⟩
  have done := freed₀.of_step (a := ()) ⟨_, _, .finish rfl, rfl⟩
  obtain ⟨-, -, -, hends⟩ := render_params_read Unit (by decide) _ _ done
  exact ⟨_, _, _, done, rfl, hends _ (List.mem_singleton_self _)⟩

end Rsmpv
