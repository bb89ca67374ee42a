import Rsmpv.Api.Safety

/-!
# Any Calls from Any Threads

All the methods of `Rsmpv.Api.Model`, called with any arguments on any handles by any number of
threads that share one allocator with libmpv. Addresses are used again as soon as they are
free, so a pointer that was kept too long would reach somebody else's memory.

Without its memory, a call is what it passes to libmpv (`ApiCall.fn`, `ApiCall.input`), which
arguments it refuses (`ApiCall.Refuses`), and what its result says of the answer
(`ApiCall.Reports`). In every interleaving the calls do no more and no less: they keep to their
own memory and leave none behind (`api_calls_keep_memory`), and they take effect one at a time,
each by a single exchange with libmpv or by none (`api_calls_linearize`).

## Conventions

A thread performs one operation of its procedure at a time: an allocation, a read, a `free`,
or one exchange with libmpv. What libmpv answers is not fixed; it is any environment that
keeps to the headers (`Answers`). A call that is refused makes no exchange. Where a list is
longer than its C count can say, the node that libmpv reads is the one that was given with
its lists cut (`Node.wrapped`).

## Main results

* `run_tidy`: each call on its own gives back what it acquires, and ends as `Ends` says.
* `calls_sound`: so it is of any calls of any threads, by the ownership rule of
  `Rsmpv.Lib.Ownership`.
* `api_calls_keep_memory`: no access is faulty, the cells in use are divided among the calls
  in progress, and none are left when there are none.
* `api_calls_linearize`: the exchanges are a run of libmpv, and each call reports its own.
* `api_calls_return`: a thread that runs alone comes to the end of its call.
-/

namespace Rsmpv

open Node (ContainNul containNul_cons)
open Ownership (Heap Safe Divided)

/-! ### The calls without memory -/

/-- A method of `Handle` with its arguments. -/
inductive ApiCall
  | loadConfigFile (path : Option String)
  | getProperty (ty : GetProperty) (name : String)
  | getPropertyOsdString (name : String)
  | setProperty (name : String) (value : SetProperty)
  | delProperty (name : String)
  | getPropertyAsync (ty : GetProperty) (userdata : UInt64) (name : String)
  | setPropertyAsync (userdata : UInt64) (name : String) (value : IntoNode)
  | observeProperty (userdata : UInt64) (name : String) (format : Format)
  | unobserveProperty (userdata : UInt64)
  | command (args : List String)
  | commandRet (args : List String)
  | commandString (command : String)
  | commandAsync (userdata : UInt64) (args : List String)
  | commandNode (args : Node)
  | commandNodeAsync (userdata : UInt64) (args : Node)
  | abortAsyncCommand (userdata : UInt64)
  | requestEvent (eventId : CInt) (enable : Bool)
  | requestLogMessages (minLevel : String)
  | hookAdd (userdata : UInt64) (name : String) (priority : CInt)
  | hookContinue (id : UInt64)

namespace ApiCall

/-- What the method returns. -/
def Result : ApiCall → Type
  | getProperty ty _ => Except Error ty.Value
  | getPropertyOsdString _ => Except Error String
  | unobserveProperty _ => Except Error UInt32
  | commandRet _ | commandNode _ => Except Error Node
  | abortAsyncCommand _ => Unit
  | _ => Except Error Unit

/-- The method itself. -/
def run (h : Handle) : (c : ApiCall) → Api c.Result
  | loadConfigFile path => Api.loadConfigFile h path
  | getProperty ty name => Api.getProperty h ty name
  | getPropertyOsdString name => Api.getPropertyOsdString h name
  | setProperty name value => Api.setProperty h name value
  | delProperty name => Api.delProperty h name
  | getPropertyAsync ty userdata name => Api.getPropertyAsync h ty userdata name
  | setPropertyAsync userdata name value => Api.setPropertyAsync h userdata name value
  | observeProperty userdata name format => Api.observeProperty h userdata name format
  | unobserveProperty userdata => Api.unobserveProperty h userdata
  | command args => Api.command h args
  | commandRet args => Api.commandRet h args
  | commandString s => Api.commandString h s
  | commandAsync userdata args => Api.commandAsync h userdata args
  | commandNode args => Api.commandNode h args
  | commandNodeAsync userdata args => Api.commandNodeAsync h userdata args
  | abortAsyncCommand userdata => Api.abortAsyncCommand h userdata
  | requestEvent eventId enable => Api.requestEvent h eventId enable
  | requestLogMessages minLevel => Api.requestLogMessages h minLevel
  | hookAdd userdata name priority => Api.hookAdd h userdata name priority
  | hookContinue id => Api.hookContinue h id

end ApiCall

/-- The strings of a value to set. -/
def SetProperty.strings : SetProperty → List String
  | bool _ | i64 _ | f64 _ => []
  | str s | string s | stringRef s => [s]
  | node n | nodeRef n => n.strings

/-- The function that sets the value. -/
def SetProperty.fn : SetProperty → MpvFn
  | bool _ => .setProperty mpvFormatFlag
  | i64 _ => .setProperty mpvFormatInt64
  | f64 _ => .setProperty mpvFormatDouble
  | str _ | string _ | stringRef _ => .setPropertyString
  | node _ | nodeRef _ => .setProperty mpvFormatNode

/-- What it is passed. -/
def SetProperty.input (name : String) : SetProperty → Input
  | bool v => .data (Utf8.bytes name) (.flag v.toNat)
  | i64 v => .data (Utf8.bytes name) (.int64 v)
  | f64 bits => .data (Utf8.bytes name) (.double bits)
  | str s | string s | stringRef s => .texts (Utf8.bytes name) (Utf8.bytes s)
  | node n | nodeRef n => .data (Utf8.bytes name) (.node n.wrapped)

namespace ApiCall

/-- All the strings among the arguments, also those in nodes. -/
def strings : ApiCall → List String
  | loadConfigFile path => path.toList
  | getProperty _ name | getPropertyOsdString name | delProperty name
  | getPropertyAsync _ _ name | observeProperty _ name _ | hookAdd _ name _ => [name]
  | setProperty name value => name :: value.strings
  | setPropertyAsync _ name value => name :: value.into.strings
  | command args | commandRet args | commandAsync _ args => args
  | commandString s | requestLogMessages s => [s]
  | commandNode args | commandNodeAsync _ args => args.strings
  | unobserveProperty _ | abortAsyncCommand _ | requestEvent _ _ | hookContinue _ => []

/-- The arguments for which libmpv is not called: a path that is not UTF-8, and a NUL in any
string. -/
inductive Refuses : ApiCall → Error → Prop
  | notUtf8 : Refuses (loadConfigFile none) .invalidParameter
  | nul {c : ApiCall} : ContainNul c.strings → Refuses c .interiorNul

/-- The result of a call that is refused. -/
def refusal : (c : ApiCall) → Error → c.Result
  | loadConfigFile _, e | getProperty _ _, e | getPropertyOsdString _, e | setProperty _ _, e
  | delProperty _, e | getPropertyAsync _ _ _, e | setPropertyAsync _ _ _, e
  | observeProperty _ _ _, e | unobserveProperty _, e | command _, e | commandRet _, e
  | commandString _, e | commandAsync _ _, e | commandNode _, e | commandNodeAsync _ _, e
  | requestEvent _ _, e | requestLogMessages _, e | hookAdd _ _ _, e | hookContinue _, e =>
    Except.error e
  | abortAsyncCommand _, _ => ()

/-- The function of libmpv that is called. -/
def fn : ApiCall → MpvFn
  | loadConfigFile _ => .loadConfigFile
  | getProperty ty _ => .getProperty ty.rawFormat
  | getPropertyOsdString _ => .getPropertyOsdString
  | setProperty _ value => value.fn
  | delProperty _ => .delProperty
  | getPropertyAsync ty userdata _ => .getPropertyAsync userdata ty.rawFormat
  | setPropertyAsync userdata _ _ => .setPropertyAsync userdata mpvFormatNode
  | observeProperty userdata _ format => .observeProperty userdata format.toRaw
  | unobserveProperty userdata => .unobserveProperty userdata
  | command _ => .command
  | commandRet _ => .commandRet
  | commandString _ => .commandString
  | commandAsync userdata _ => .commandAsync userdata
  | commandNode _ => .commandNode
  | commandNodeAsync userdata _ => .commandNodeAsync userdata
  | abortAsyncCommand userdata => .abortAsyncCommand userdata
  | requestEvent eventId enable => .requestEvent eventId enable.toNat
  | requestLogMessages _ => .requestLogMessages
  | hookAdd userdata _ priority => .hookAdd userdata priority
  | hookContinue id => .hookContinue id

/-- What libmpv reads of the arguments. Of a node it reads the lists up to their C counts, which
wrap (`build_reads_wrapped`). -/
def input : ApiCall → Input
  | loadConfigFile path => .text (Utf8.bytes (path.getD ""))
  | getProperty _ name | getPropertyOsdString name | delProperty name
  | getPropertyAsync _ _ name | observeProperty _ name _ | hookAdd _ name _ =>
    .text (Utf8.bytes name)
  | setProperty name value => value.input name
  | setPropertyAsync _ name value => .data (Utf8.bytes name) (.node value.into.wrapped)
  | command args | commandRet args | commandAsync _ args => .argv (args.map Utf8.bytes)
  | commandString s | requestLogMessages s => .text (Utf8.bytes s)
  | commandNode args | commandNodeAsync _ args => .node args.wrapped
  | unobserveProperty _ | abortAsyncCommand _ | requestEvent _ _ | hookContinue _ => .none

/-- What the result says of the answer. -/
def Reports : (c : ApiCall) → Answer → c.Result → Prop
  | getProperty ty _, a, r => Api.Reports (fun a v => ty.Means a.out v) a r
  | getPropertyOsdString _, a, r => Api.OsdReports a r
  | unobserveProperty _, a, r => Api.Reports (fun a v => v = UInt32.ofInt a.code) a r
  | commandRet _, a, r | commandNode _, a, r => Api.Reports Api.NodeMeans a r
  | abortAsyncCommand _, _, _ => True
  | loadConfigFile _, a, r | setProperty _ _, a, r | delProperty _, a, r
  | getPropertyAsync _ _ _, a, r | setPropertyAsync _ _ _, a, r | observeProperty _ _ _, a, r
  | command _, a, r | commandString _, a, r | commandAsync _ _, a, r
  | commandNodeAsync _ _, a, r | requestEvent _ _, a, r | requestLogMessages _, a, r
  | hookAdd _ _ _, a, r | hookContinue _, a, r => Api.Reports (fun _ v => v = ()) a r

/-- **What a call does**: it is refused, and libmpv is not called; or libmpv is called once, and
the result says what it answered. -/
inductive Ends (h : Handle) (c : ApiCall) : c.Result → Exchanges → Prop
  | refused {e : Error} : c.Refuses e → Ends h c (c.refusal e) []
  | answered {a : Answer} {r : c.Result} : (∀ e, ¬ c.Refuses e) → Answers c.fn a →
      c.Reports a r → Ends h c r [(⟨h.raw, c.fn, c.input⟩, a)]

/-- The two ends of a call, as equations. -/
theorem Ends.elim {h : Handle} {c : ApiCall} {r : c.Result} {l : Exchanges} (hends : Ends h c r l) :
    (∃ e, c.Refuses e ∧ r = c.refusal e ∧ l = []) ∨
      ∃ a, (∀ e, ¬ c.Refuses e) ∧ Answers c.fn a ∧ c.Reports a r ∧
        l = [(⟨h.raw, c.fn, c.input⟩, a)] := by
  cases hends with
  | refused hrefuses => exact .inl ⟨_, hrefuses, rfl, rfl⟩
  | answered hnot hanswers hreports => exact .inr ⟨_, hnot, hanswers, hreports, rfl⟩

/-- Without a NUL only a path can be refused. -/
theorem not_refuses {c : ApiCall} (hnul : ¬ ContainNul c.strings)
    (hpath : c ≠ loadConfigFile none) (e : Error) : ¬ c.Refuses e := by
  intro h
  cases h with
  | notUtf8 => exact hpath rfl
  | nul h => exact hnul h

/-! ### Each call on its own -/

section Shapes

open Api

variable {α : Type} {fn : MpvFn} {finish : Reply → Api (Except Error α)}
  {post : Answer → Except Error α → Prop} {handle : ℕ} {h : Heap Cell}
  {P : Except Error α → Exchanges → Prop}

/-- A call that passes one string. -/
theorem tidy_text (hfinish : Finishes fn finish post) {s : String}
    (hnul : ContainNul [s] → P (.error .interiorNul) [])
    (hP : ¬ ContainNul [s] → ∀ a x, Answers fn a → post a x →
      P x [(⟨handle, fn, .text (Utf8.bytes s)⟩, a)]) :
    Tidy (withCString s fun p => do
      let reply ← call handle fn (.text p)
      finish reply) [] h P := by
  refine tidy_withCString (fun hs => hnul ⟨s, List.mem_singleton_self s, hs⟩)
    fun hs p h' _ hread => tidy_call hfinish (by rw [MpvArgs.view, hread]; rfl) (hP ?_)
  rintro ⟨s', hs', hzero⟩
  exact hs (List.mem_singleton.mp hs' ▸ hzero)

/-- A call that passes an `argv`. -/
theorem tidy_argv (hfinish : Finishes fn finish post) {args : List String}
    (hnul : ContainNul args → P (.error .interiorNul) [])
    (hP : ¬ ContainNul args → ∀ a x, Answers fn a → post a x →
      P x [(⟨handle, fn, .argv (args.map Utf8.bytes)⟩, a)]) :
    Tidy (withArgs args fun p => do
      let reply ← call handle fn (.argv p)
      finish reply) [] h P :=
  tidy_withArgs hnul fun hargs p h' _ hread =>
    tidy_call hfinish (by rw [MpvArgs.view, hread]; rfl) (hP hargs)

/-- A call that passes a node. -/
theorem tidy_node (hfinish : Finishes fn finish post) {n : Node}
    (hnul : ContainNul n.strings → P (.error .interiorNul) [])
    (hP : ¬ ContainNul n.strings → ∀ a x, Answers fn a → post a x →
      P x [(⟨handle, fn, .node n.wrapped⟩, a)]) :
    Tidy (withStorage n fun raw p => do
      let reply ← call handle fn (.node raw p)
      finish reply) [] h P :=
  tidy_withStorage hnul fun hn raw p h' _ hread =>
    tidy_call hfinish (by rw [MpvArgs.view, hread]; rfl) (hP hn)

/-- A call that passes a property name and a number. -/
theorem tidy_data (hfinish : Finishes fn finish post) {name : String} {d : InData} {v : Datum}
    (hd : ∀ h, d.view h = some v)
    (hnul : ContainNul [name] → P (.error .interiorNul) [])
    (hP : ¬ ContainNul [name] → ∀ a x, Answers fn a → post a x →
      P x [(⟨handle, fn, .data (Utf8.bytes name) v⟩, a)]) :
    Tidy (withCString name fun p => do
      let reply ← call handle fn (.data p d)
      finish reply) [] h P := by
  refine tidy_withCString (fun hs => hnul ⟨name, List.mem_singleton_self name, hs⟩)
    fun hs p h' _ hread => tidy_call hfinish ?_ (hP ?_)
  · simp only [MpvArgs.view, hread, hd h']
    rfl
  · rintro ⟨s', hs', hzero⟩
    exact hs (List.mem_singleton.mp hs' ▸ hzero)

/-- A call that passes a property name and a string. -/
theorem tidy_texts (hfinish : Finishes fn finish post) {name s : String}
    (hnul : ContainNul [name, s] → P (.error .interiorNul) [])
    (hP : ¬ ContainNul [name, s] → ∀ a x, Answers fn a → post a x →
      P x [(⟨handle, fn, .texts (Utf8.bytes name) (Utf8.bytes s)⟩, a)]) :
    Tidy (withCString name fun p => withCString s fun q => do
      let reply ← call handle fn (.texts p q)
      finish reply) [] h P := by
  refine tidy_withCString (fun hname => hnul ⟨name, by simp, hname⟩) fun hname p h' _ hread =>
    tidy_withCString (fun hs => hnul ⟨s, by simp, hs⟩) fun hs q h'' hsub hread' =>
      tidy_call hfinish ?_ (hP ?_)
  · simp only [MpvArgs.view, readCString_mono hsub hread, hread']
    rfl
  · rw [containNul_cons, containNul_cons]
    simp [hname, hs, ContainNul]

/-- A call that passes a property name and a node. -/
theorem tidy_dataNode (hfinish : Finishes fn finish post) {name : String} {n : Node}
    (hnul : ContainNul (name :: n.strings) → P (.error .interiorNul) [])
    (hP : ¬ ContainNul (name :: n.strings) → ∀ a x, Answers fn a → post a x →
      P x [(⟨handle, fn, .data (Utf8.bytes name) (.node n.wrapped)⟩, a)]) :
    Tidy (withCString name fun p => withStorage n fun raw q => do
      let reply ← call handle fn (.data p (.node raw q))
      finish reply) [] h P := by
  refine tidy_withCString (fun hname => hnul (containNul_cons.mpr (.inl hname)))
    fun hname p h' _ hread =>
      tidy_withStorage (fun hn => hnul (containNul_cons.mpr (.inr hn)))
        fun hn raw q h'' hsub hread' => tidy_call hfinish ?_ (hP ?_)
  · simp only [MpvArgs.view, InData.view, readCString_mono hsub hread, hread']
    rfl
  · rw [containNul_cons]
    exact not_or.mpr ⟨hname, hn⟩

/-- A call that passes nothing by address. -/
theorem tidy_plain {finish : Reply → Api α} {post : Answer → α → Prop}
    {P : α → Exchanges → Prop} (hfinish : Finishes fn finish post)
    (hP : ∀ a x, Answers fn a → post a x → P x [(⟨handle, fn, .none⟩, a)]) :
    Tidy (do
      let reply ← call handle fn .none
      finish reply) [] h P :=
  tidy_call hfinish rfl hP

end Shapes

open Api in
/-- **Each call on its own** gives back all the memory it acquires, and does what it does
without it. -/
theorem run_tidy (h : Handle) (c : ApiCall) : Tidy (c.run h) [] .empty (Ends h c) := by
  have refused : ∀ c : ApiCall, ContainNul c.strings → Ends h c (c.refusal .interiorNul) [] :=
    fun c hnul => .refused (.nul hnul)
  have answered : ∀ (c : ApiCall), c ≠ loadConfigFile none → ¬ ContainNul c.strings →
      ∀ a r, Answers c.fn a → c.Reports a r → Ends h c r [(⟨h.raw, c.fn, c.input⟩, a)] :=
    fun c hpath hnul a r ha hr => .answered (not_refuses hnul hpath) ha hr
  have status : ∀ {fn : MpvFn}, fn.writesNothing = true →
      Finishes fn Api.statusOnly (Api.Reports fun _ v => v = ()) :=
    fun hfn => finishes_map hfn fun _ => ()
  cases c with
  | loadConfigFile path =>
      cases path with
      | none => exact tidy_pure (.refused .notUtf8)
      | some path =>
          exact tidy_text (status (by rfl)) (refused (loadConfigFile (some path)))
            (answered (loadConfigFile (some path)) (by simp))
  | getProperty ty name =>
      exact tidy_text (finishes_finishGet ty) (refused (getProperty ty name))
        (answered (getProperty ty name) (by simp))
  | getPropertyOsdString name =>
      exact tidy_text finishes_finishOsdString (refused (getPropertyOsdString name))
        (answered (getPropertyOsdString name) (by simp))
  | setProperty name value =>
      have refused' := refused (setProperty name value)
      have answered' := answered (setProperty name value) (by simp)
      cases value with
      | bool _ | i64 _ | f64 _ =>
          exact tidy_data (status (by rfl)) (fun _ => rfl) refused' answered'
      | str _ | string _ | stringRef _ => exact tidy_texts (status (by rfl)) refused' answered'
      | node _ | nodeRef _ => exact tidy_dataNode (status (by rfl)) refused' answered'
  | delProperty name =>
      exact tidy_text (status (by rfl)) (refused (delProperty name))
        (answered (delProperty name) (by simp))
  | getPropertyAsync ty userdata name =>
      rw [run, Api.getPropertyAsync, ty.format_toRaw]
      exact tidy_text (status (by rfl)) (refused (getPropertyAsync ty userdata name))
        (answered (getPropertyAsync ty userdata name) (by simp))
  | setPropertyAsync userdata name value =>
      exact tidy_dataNode (status (by rfl)) (refused (setPropertyAsync userdata name value))
        (answered (setPropertyAsync userdata name value) (by simp))
  | observeProperty userdata name format =>
      exact tidy_text (status (by rfl)) (refused (observeProperty userdata name format))
        (answered (observeProperty userdata name format) (by simp))
  | unobserveProperty userdata =>
      exact tidy_plain (finishes_map rfl UInt32.ofInt)
        (answered (unobserveProperty userdata) (by simp) (by simp [ContainNul, strings]))
  | command args =>
      exact tidy_argv (status (by rfl)) (refused (command args))
        (answered (command args) (by simp))
  | commandRet args =>
      exact tidy_argv (finishes_resultNode (.inl rfl)) (refused (commandRet args))
        (answered (commandRet args) (by simp))
  | commandString s =>
      exact tidy_text (status (by rfl)) (refused (commandString s))
        (answered (commandString s) (by simp))
  | commandAsync userdata args =>
      exact tidy_argv (status (by rfl)) (refused (commandAsync userdata args))
        (answered (commandAsync userdata args) (by simp))
  | commandNode args =>
      exact tidy_node (finishes_resultNode (.inr rfl)) (refused (commandNode args))
        (answered (commandNode args) (by simp))
  | commandNodeAsync userdata args =>
      exact tidy_node (status (by rfl)) (refused (commandNodeAsync userdata args))
        (answered (commandNodeAsync userdata args) (by simp))
  | abortAsyncCommand userdata =>
      have finishes : Finishes (.abortAsyncCommand userdata) (fun _ => pure ())
          fun _ _ => True := by
        intro a r δ h l hallowed hconveys _
        rw [hallowed.out_eq_nothing rfl] at hconveys
        rw [hconveys.of_nothing, Heap.add_empty]
        exact ⟨rfl, rfl, trivial⟩
      exact tidy_plain finishes
        (answered (abortAsyncCommand userdata) (by simp) (by simp [ContainNul, strings]))
  | requestEvent eventId enable =>
      exact tidy_plain (status (by rfl))
        (answered (requestEvent eventId enable) (by simp) (by simp [ContainNul, strings]))
  | requestLogMessages minLevel =>
      exact tidy_text (status (by rfl)) (refused (requestLogMessages minLevel))
        (answered (requestLogMessages minLevel) (by simp))
  | hookAdd userdata name priority =>
      exact tidy_text (status (by rfl)) (refused (hookAdd userdata name priority))
        (answered (hookAdd userdata name priority) (by simp))
  | hookContinue id =>
      exact tidy_plain (status (by rfl))
        (answered (hookContinue id) (by simp) (by simp [ContainNul, strings]))

end ApiCall

/-! ### All calls together -/

/-- Threads, each between calls or in one, with the memory they share. -/
abbrev CallState (T σ : Type) :=
  Pool T
    (Ownership.Shared Cell Request Answer σ T fun j : Handle × ApiCall => j.2.Result)
    (Ownership.ThreadPc MpvCall Reply Cell Dealloc Request Answer
      fun j : Handle × ApiCall => j.2.Result)

/-- The threads `T` over a libmpv that answers as `libmpv` does. -/
def callSystem (T : Type) [DecidableEq T] {σ : Type} (libmpv : Lts σ (Request × Answer)) :
    Lts (CallState T σ) T :=
  Ownership.jobSystem mpvInterface libmpv fun j => j.2.run j.1

/-- What a job is to end with. -/
abbrev CallEnds (j : Handle × ApiCall) (r : j.2.Result) (l : Exchanges) : Prop :=
  ApiCall.Ends j.1 j.2 r l

/-- Each method is safe on its own: it keeps to its memory, gives all of it back, and ends as `Ends`
says. -/
theorem calls_safe (j : Handle × ApiCall) :
    Safe mpvInterface (j.2.run j.1) [] .empty (Ownership.Ends CallEnds j) :=
  ApiCall.run_tidy j.1 j.2

/-- What libmpv hands over takes up finitely many addresses, so there is always a fresh one. -/
theorem conveys_bounded (a : Answer) (r : Reply) (δ : Heap Cell)
    (h : mpvInterface.conveys a r δ) : δ.Bounded := by
  obtain ⟨code, out⟩ := a
  have hconveys : Conveys code out r δ := h
  cases hconveys with
  | text p | node p => exact Heap.bounded_single p _
  | _ => exact Heap.bounded_empty

section

variable {T σ : Type} [DecidableEq T] {libmpv : Lts σ (Request × Answer)} {s : CallState T σ}

/-- What the calls on their own say of them together. -/
theorem calls_sound (hlibmpv : ∀ e req a e', libmpv.step e (req, a) e' → Answers req.fn a)
    (h : (callSystem T libmpv).Reachable s) :
    Ownership.Sound mpvInterface CallEnds s :=
  Ownership.reachable_sound calls_safe hlibmpv h

end

/-! ### A libmpv with one value -/

/-- The answers of a libmpv in which every property is the text `no`, and that can do nothing
else. -/
def constantAnswer : MpvFn → Answer
  | .getProperty format =>
    if format = mpvFormatString then ⟨0, .value (.text [0x6E, 0x6F])⟩
    else ⟨mpvErrorPropertyFormat, .nothing⟩
  | .getPropertyOsdString => ⟨0, .null⟩
  | _ => ⟨mpvErrorUnsupported, .nothing⟩

/-- A libmpv that gives every question the same fitting answer. -/
def constantMpv : Lts Unit (Request × Answer) where
  init _ := True
  step _ l _ := l.2 = constantAnswer l.1.fn

/-- It answers within the C headers. -/
theorem constantMpv_answers (e : Unit) (req : Request) (a : Answer) (e' : Unit)
    (h : constantMpv.step e (req, a) e') : Answers req.fn a := by
  have ha : a = constantAnswer req.fn := h
  rw [ha]
  cases req.fn with
  | getProperty format =>
      rw [constantAnswer]
      split
      · next hf =>
          rw [hf]
          exact .string _ (by decide)
      · exact .failed (by simp) (by decide)
  | getPropertyOsdString => exact .osdNull 0
  | _ => exact .failed (by simp) (by decide)

/-- It answers whatever it is asked. -/
theorem constantMpv_answering : Ownership.Answering mpvInterface constantMpv := by
  intro e req
  refine ⟨constantAnswer req.fn, (), rfl, fun n => ?_⟩
  cases req.fn with
  | getProperty format =>
      rw [constantAnswer]
      split
      · have hread : Utf8.cstrBytes [0x6E, 0x6F, 0] = some [0x6E, 0x6F] := rfl
        exact ⟨_, _, .text n hread, fun p hp => Heap.single_of_ne (by omega)⟩
      · exact ⟨_, _, .nothing .nothing, fun p _ => rfl⟩
  | getPropertyOsdString => exact ⟨_, _, .null, fun p _ => rfl⟩
  | _ => exact ⟨_, _, .nothing .nothing, fun p _ => rfl⟩

/-- The only thread has begun a call. -/
def begun (j : Handle × ApiCall) : CallState Unit Unit :=
  (⟨⟨.empty, (), [], []⟩, fun _ => .idle⟩ : CallState Unit Unit).move () ⟨.empty, (), [], []⟩
    (.running j (j.2.run j.1) [])

/-- A thread can begin with any call. -/
theorem begun_reachable (j : Handle × ApiCall) :
    (callSystem Unit constantMpv).Reachable (begun j) := by
  have h₀ : (callSystem Unit constantMpv).Reachable ⟨⟨.empty, (), [], []⟩, fun _ => .idle⟩ :=
    .of_init ⟨trivial, rfl, rfl, rfl, fun _ => rfl⟩
  exact h₀.of_step ⟨_, _, .start j rfl, rfl⟩

/-- The call is done, and there are no others. -/
theorem exists_called (j : Handle × ApiCall) : ∃ s r l,
    (callSystem Unit constantMpv).Reachable s ∧ (∀ t, s.pc t = .idle) ∧
      s.shared.done = [⟨(), j, r, l⟩] := by
  obtain ⟨k, s, r, l, hrun, hidle, hdone, -⟩ := Ownership.exists_return calls_safe
    constantMpv_answers conveys_bounded constantMpv_answering (begun_reachable j) (t := ()) rfl
  exact ⟨s, r, l, (begun_reachable j).of_run hrun, fun _ => hidle, hdone⟩

/-! ### The results -/

section

variable {T σ : Type} [DecidableEq T] {libmpv : Lts σ (Request × Answer)} {s : CallState T σ}

/-- **Calls keep to their memory.** Whatever libmpv answers within the C headers, in every
interleaving of any calls: no thread is about to read or free what is not allocated, to free
something in the wrong way, to hand libmpv a pointer that cannot be read, or to read something
as what it is not; every allocation belongs to one call that is in progress; and so none is left
when no call is. -/
theorem api_calls_keep_memory
    (hlibmpv : ∀ e req a e', libmpv.step e (req, a) e' → Answers req.fn a)
    (h : (callSystem T libmpv).Reachable s) :
    (∀ t j m l, s.pc t = .running j m l → ¬ m.Faulty mpvInterface s.shared.heap) ∧
    (∃ own : T → Heap Cell, Divided own s.shared.heap ∧ ∀ t, s.pc t = .idle → own t = .empty) ∧
    ((∀ t, s.pc t = .idle) → s.shared.heap = .empty) := by
  have hs := calls_sound hlibmpv h
  obtain ⟨own, hdivided, howns⟩ := hs.divided
  refine ⟨fun t j m l hpc => hs.not_faulty hpc, ⟨own, hdivided, fun t hidle => ?_⟩, hs.no_leak⟩
  have ht := howns t
  rw [hidle] at ht
  exact ht

/-- After the property was read, all memory has been given back. -/
theorem read_keeps_memory : ∃ s : CallState Unit Unit, (callSystem Unit constantMpv).Reachable s ∧
    s.shared.done.length = 1 ∧ s.shared.heap = .empty := by
  obtain ⟨s, r, l, hs, hidle, hdone⟩ := exists_called (⟨1, 0⟩, .getProperty .string "pause")
  exact ⟨s, hs, by rw [hdone]; rfl, (api_calls_keep_memory constantMpv_answers hs).2.2 hidle⟩

/-- **Calls take effect one at a time.** In every interleaving the exchanges with libmpv are, in
their order, a run of it; those of one thread are the ones of its calls, one call after the
other; and a call that returned had one exchange, in which libmpv read its arguments (a node with
the lists that do not fit their C counts cut to them) and whose answer its result reports, or had
none because an argument was refused. -/
theorem api_calls_linearize
    (hlibmpv : ∀ e req a e', libmpv.step e (req, a) e' → Answers req.fn a)
    (h : (callSystem T libmpv).Reachable s) :
    (∃ e, libmpv.init e ∧ libmpv.Run e (s.shared.exchanges.map Prod.snd) s.shared.env) ∧
    (∀ t, (s.shared.exchanges.filter (·.1 = t)).map Prod.snd =
      (s.shared.done.filter (·.thread = t)).flatMap Ownership.Done.log ++ (s.pc t).log) ∧
    ∀ d ∈ s.shared.done, ApiCall.Ends d.job.1 d.job.2 d.result d.log :=
  have hs := calls_sound hlibmpv h
  ⟨Ownership.exchanges_run h, hs.logs, hs.done⟩

/-- The property was read by one exchange. -/
theorem read_linearizes : ∃ r l, ApiCall.Ends ⟨1, 0⟩ (.getProperty .string "pause") r l ∧
    ∃ e, constantMpv.init e ∧ constantMpv.Run e l () := by
  obtain ⟨s, r, l, hs, hidle, hdone⟩ := exists_called (⟨1, 0⟩, .getProperty .string "pause")
  obtain ⟨hrun, hlogs, hends⟩ := api_calls_linearize constantMpv_answers hs
  refine ⟨r, l, hends _ (by rw [hdone]; exact List.mem_singleton_self _), ?_⟩
  have hall : s.shared.exchanges.map Prod.snd = l := by
    have hlog := hlogs ()
    rw [hidle (), hdone] at hlog
    simpa [Ownership.ThreadPc.log] using hlog
  rw [← hall]
  exact hrun

/-- **Every call returns**: from any state of any interleaving, a thread that runs alone comes to
the end of the call it is in, if libmpv answers what it is asked. It returns what was refused, or
what libmpv answered to the arguments it read. -/
theorem api_calls_return
    (hlibmpv : ∀ e req a e', libmpv.step e (req, a) e' → Answers req.fn a)
    (hanswers : Ownership.Answering mpvInterface libmpv)
    (h : (callSystem T libmpv).Reachable s) {t : T} {j : Handle × ApiCall}
    {m : Api j.2.Result} {l : Exchanges} (hpc : s.pc t = .running j m l) :
    ∃ k s' r l', (callSystem T libmpv).Run s (List.replicate k t) s' ∧ s'.pc t = .idle ∧
      s'.shared.done = s.shared.done ++ [⟨t, j, r, l'⟩] ∧ ApiCall.Ends j.1 j.2 r l' ∧
      ∀ u, u ≠ t → s'.pc u = s.pc u := by
  obtain ⟨k, s', r, l', hrun, hidle, hdone, hother⟩ := Ownership.exists_return calls_safe
    hlibmpv conveys_bounded hanswers h hpc
  refine ⟨k, s', r, l', hrun, hidle, hdone, ?_, hother⟩
  have hs' : (callSystem T libmpv).Reachable s' := h.of_run hrun
  exact (calls_sound hlibmpv hs').done ⟨t, j, r, l'⟩ (by rw [hdone]; simp)

/-- A read that has begun returns. -/
theorem read_returns : ∃ k s' r l,
    (callSystem Unit constantMpv).Run (begun (⟨1, 0⟩, .getProperty .string "pause"))
      (List.replicate k ()) s' ∧
    s'.shared.done = [⟨(), (⟨1, 0⟩, .getProperty .string "pause"), r, l⟩] ∧
    ApiCall.Ends ⟨1, 0⟩ (.getProperty .string "pause") r l := by
  obtain ⟨k, s', r, l, hrun, -, hdone, hends, -⟩ :=
    api_calls_return constantMpv_answers constantMpv_answering
      (begun_reachable (⟨1, 0⟩, .getProperty .string "pause")) (t := ()) rfl
  exact ⟨k, s', r, l, hrun, hdone, hends⟩

end

end Rsmpv
