import Rsmpv.Event.Model
import Rsmpv.Lifetime.Player
import Rsmpv.Node.Property

/-!
# Commands

The two ways a command reaches libmpv (`lib.rs`). `command` and its variants pass an array of
C strings that ends with a null pointer, which `cstr_args` builds; `command_node` and its
variants pass a node, which `NodeStorage::build` builds. libmpv reads the first up to the
null pointer (`readArgv`) and the second up to its count (`readNodeArgs`).

For a list of strings, as it is and as an array of string nodes, the two agree
(`command_paths_agree`): both are refused for a NUL in the same lists, before any call,
and otherwise libmpv reads the list from memory the caller still owns.

## Conventions

The strings of an argument list are `CString`s that the caller of libmpv owns, so the array
of pointers is read in a memory that holds all of them (`NodeStorage.HoldsCStr`). The end of
a list is its null pointer on the one path and its count on the other; only the second one
has a bound.

## Main results

* `cstrArgs_spec`: `cstr_args` fails for a NUL, and otherwise points to the arguments in
  their order.
* `build_strings`: an array of strings is built as a list from which libmpv reads the
  strings.
* `callArgv_handsOver`, `callNode_handsOver`: what each path hands over.
* `command_paths_agree`: it is the same.
-/

namespace Rsmpv

open Node NodeStorage

/-! ### The code -/

/-- `cstr_args`: the owned strings, and the pointers to them with a null pointer at the end. -/
def cstrArgs (args : List String) : Except Error (List (List UInt8) × List Ptr) := do
  let owned ← args.mapM cstr
  let ptrs := (List.range owned.length).map some
  .ok (owned, ptrs ++ [Option.none])

/-- The functions of libmpv that run a command. -/
inductive CommandFn
  | command
  | commandRet
  | commandAsync (userdata : UInt64)
  | commandNode
  | commandNodeAsync (userdata : UInt64)
  deriving DecidableEq

/-- What they are passed. -/
inductive CommandArgs
  | argv (ptrs : List Ptr)
  | node (raw : RawNode)

/-- A call of libmpv, with the memory the caller owns while it is made. -/
structure CommandCall where
  handle : ℕ
  fn : CommandFn
  args : CommandArgs
  memory : NodeStorage

/-- Call a function that takes an `argv`. The owned strings are bound (`_owned`), so they live
until the call returned. -/
def callArgv {α : Type} (fn : CommandFn) (finish : NodeReply → Option (Except Error α))
    (h : Handle) (libmpv : CommandCall → NodeReply) (args : List String) :
    List CommandCall × Option (Except Error α) :=
  match cstrArgs args with
  | .error e => ([], some (.error e))
  | .ok (owned, ptrs) =>
    let call := ⟨h.raw, fn, .argv ptrs, { strings := owned.map (· ++ [0]) }⟩
    ([call], finish (libmpv call))

/-- Call a function that takes a node. The storage is bound too. -/
def callNode {α : Type} (fn : CommandFn) (finish : NodeReply → Option (Except Error α))
    (h : Handle) (libmpv : CommandCall → NodeReply) (args : Node) :
    List CommandCall × Option (Except Error α) :=
  match build args {} with
  | .error e _ => ([], some (.error e))
  | .ok raw storage =>
    let call := ⟨h.raw, fn, .node raw, storage⟩
    ([call], finish (libmpv call))

/-- `check(code).map(|_| ())`. -/
def statusOnly (reply : NodeReply) : Option (Except Error Unit) :=
  some ((check reply.code).map fun _ => ())

/-- `check(code)?`, and then the result node. -/
def resultNode (reply : NodeReply) : Option (Except Error Node) :=
  replyResult reply.code (fromRaw reply.memory reply.raw)

namespace Handle

/-- `Handle::command`. -/
def command (h : Handle) := callArgv .command statusOnly h

/-- `Handle::command_ret`. -/
def commandRet (h : Handle) := callArgv .commandRet resultNode h

/-- `Handle::command_async`. -/
def commandAsync (h : Handle) (userdata : UInt64) :=
  callArgv (.commandAsync userdata) statusOnly h

/-- `Handle::command_node`. -/
def commandNode (h : Handle) := callNode .commandNode resultNode h

/-- `Handle::command_node_async`. -/
def commandNodeAsync (h : Handle) (userdata : UInt64) :=
  callNode (.commandNodeAsync userdata) statusOnly h

end Handle

/-! ### What libmpv reads -/

/-- The C string at `p`. -/
def readCStr (mem : NodeStorage) (p : Ptr) : Option (List UInt8) := do
  Utf8.cstrBytes (← mem.strings[← p]?)

/-- The strings of an `argv`, up to its first null pointer. -/
def readArgv (mem : NodeStorage) : List Ptr → Option (List (List UInt8))
  | [] => Option.none
  | Option.none :: _ => some []
  | some p :: ptrs => do
    let arg ← readCStr mem (some p)
    let args ← readArgv mem ptrs
    some (arg :: args)

/-- The string of a string node. -/
def readNodeString (mem : NodeStorage) (raw : RawNode) : Option (List UInt8) :=
  match raw.format with
  | mpvFormatString =>
    match raw.u with
    | .string p => readCStr mem p
    | _ => Option.none
  | _ => Option.none

/-- The strings of an array node, up to its count. -/
def readNodeArgs (mem : NodeStorage) (raw : RawNode) : Option (List (List UInt8)) :=
  match raw.format with
  | mpvFormatNodeArray =>
    match raw.u with
    | .list p => do
      let list ← mem.lists[← p]?
      (List.range list.num.toNat).mapM fun i => do
        readNodeString mem (← mem.readValue list.values i)
    | _ => Option.none
  | _ => Option.none

/-- The arguments libmpv reads in a call. -/
def CommandCall.read (call : CommandCall) : Option (List (List UInt8)) :=
  match call.args with
  | .argv ptrs => readArgv call.memory ptrs
  | .node raw => readNodeArgs call.memory raw

/-! ### The two paths -/

/-- Memory holds the terminated bytes of `s` at `p`. -/
def NodeStorage.HoldsCStr (mem : NodeStorage) (p : Ptr) (s : String) : Prop :=
  ∃ a, p = some a ∧ mem.strings[a]? = some (Utf8.bytes s ++ [0])

variable {mem : NodeStorage} {args : List String}

/-- A string with no NUL is read back as it was stored. -/
theorem readCStr_of_holds {p : Ptr} {s : String} (hs : 0 ∉ Utf8.bytes s)
    (h : mem.HoldsCStr p s) : readCStr mem p = some (Utf8.bytes s) := by
  obtain ⟨a, rfl, ha⟩ := h
  simp [readCStr, ha, Utf8.cstrBytes_terminated hs]

/-- A stored string stays where it is. -/
theorem NodeStorage.HoldsCStr.mono {st st' : NodeStorage} {p : Ptr} {s : String}
    (h : st.Extends st') (hs : st.HoldsCStr p s) : st'.HoldsCStr p s := by
  obtain ⟨a, rfl, ha⟩ := hs
  exact ⟨a, rfl, Arena.read_of_grown ha h.strings⟩

/-- An array of pointers with a null pointer after them is read to its end. -/
theorem readArgv_of_forall₂ {ptrs : List Ptr} (hargs : ¬ ContainNul args)
    (h : List.Forall₂ mem.HoldsCStr ptrs args) :
    readArgv mem (ptrs ++ [Option.none]) = some (args.map Utf8.bytes) := by
  induction h with
  | nil => rfl
  | @cons p s ptrs args hp _ ih =>
      obtain ⟨hs, hargs⟩ := not_or.mp (mt containNul_cons.mpr hargs)
      have hread := readCStr_of_holds hs hp
      obtain ⟨a, rfl, -⟩ := hp
      simp [readArgv, hread, ih hargs]

/-- The strings of a list are converted if none has a NUL. -/
theorem mapM_cstr (args : List String) :
    (ContainNul args ∧ args.mapM cstr = .error .interiorNul) ∨
      (¬ ContainNul args ∧ args.mapM cstr = .ok (args.map Utf8.bytes)) := by
  induction args with
  | nil => exact .inr ⟨by simp [ContainNul], rfl⟩
  | cons s args ih =>
      rw [containNul_cons, List.mapM_cons]
      by_cases hs : 0 ∈ Utf8.bytes s
      · exact .inl ⟨.inl hs, by simp [cstr, hs, bind, Except.bind]⟩
      · obtain ⟨hnul, hrest⟩ | ⟨hnul, hrest⟩ := ih
        · exact .inl ⟨.inr hnul, by simp [cstr, hs, hrest, bind, Except.bind]⟩
        · refine .inr ⟨not_or.mpr ⟨hs, hnul⟩, ?_⟩
          simp [cstr, hs, hrest, bind, Except.bind, pure, Except.pure]

/-- `cstr_args` fails for a NUL, and otherwise points to the arguments. -/
theorem cstrArgs_spec (args : List String) :
    (ContainNul args ∧ cstrArgs args = .error .interiorNul) ∨
      (¬ ContainNul args ∧ cstrArgs args =
        .ok (args.map Utf8.bytes, (List.range args.length).map some ++ [Option.none])) := by
  obtain ⟨hnul, hmap⟩ | ⟨hnul, hmap⟩ := mapM_cstr args
  · exact .inl ⟨hnul, by simp [cstrArgs, hmap, bind, Except.bind]⟩
  · exact .inr ⟨hnul, by simp [cstrArgs, hmap, bind, Except.bind]⟩

/-- The pointers of `cstr_args` point to its strings. -/
theorem forall₂_holdsCStr (args : List String) :
    List.Forall₂ (NodeStorage.HoldsCStr { strings := (args.map Utf8.bytes).map (· ++ [0]) })
      ((List.range args.length).map some) args := by
  refine List.forall₂_iff_get.mpr ⟨by simp, fun i hi hi' => ⟨i, by simp, ?_⟩⟩
  have hi'' : i < args.length := hi'
  simp [hi'']

/-- `cstring` stores its string, or refuses it for a NUL. -/
theorem cstring_holds (s : String) (st : NodeStorage) :
    st.Builds (0 ∈ Utf8.bytes s) (fun p st' => st'.HoldsCStr p s) (cstring s st) := by
  have hspec := cstring_builds s st
  rw [cstring] at hspec ⊢
  split
  · next hs =>
      rw [if_pos hs] at hspec
      exact hspec
  · next hs =>
      rw [if_neg hs] at hspec
      exact ⟨hspec.1, hs, _, rfl, Arena.read_allocated _ _⟩

/-- A raw string node with the bytes of `s`. -/
def IsRawString (st : NodeStorage) (v : RawNode) (s : String) : Prop :=
  ∃ p, v = ⟨.string p, mpvFormatString⟩ ∧ st.HoldsCStr p s

/-- Building a string value stores the string. -/
theorem build_string (s : String) (st : NodeStorage) :
    st.Builds (0 ∈ Utf8.bytes s) (fun v st' => IsRawString st' v s) (build (.string s) st) := by
  rw [build]
  refine (Builds.bind (cstring_holds s st) fun p st₁ _ hp => Builds.pure ?_).imp
    (by simp) fun _ _ _ h => h
  exact ⟨p, rfl, hp⟩

/-- The items of an array of strings are built as string nodes. -/
theorem buildItems_strings (args : List String) (st : NodeStorage) :
    st.Builds (ContainNul args) (fun values st' => List.Forall₂ (IsRawString st') values args)
      (buildItems (args.map Node.string) st) := by
  induction args generalizing st with
  | nil =>
      rw [List.map, buildItems]
      exact (Builds.pure .nil).imp (by simp [ContainNul]) fun _ _ _ h => h
  | cons s args ih =>
      rw [List.map_cons]
      rw [buildItems]
      refine (Builds.bind (build_string s st) fun v st₁ h₁ hv =>
        Builds.bind (ih st₁) fun values st₂ h₂ hvalues => Builds.pure ?_).imp
        (by simp [containNul_cons]) fun _ _ _ h => h
      obtain ⟨p, rfl, hp⟩ := hv
      exact .cons ⟨p, rfl, hp.mono h₂⟩ hvalues

/-- An array node is read string by string. -/
theorem readNodeArgs_array {a : ℕ} {list : RawNodeList} {l : List (List UInt8)}
    (hlist : mem.lists[a]? = some list) (hnum : list.num.toNat = l.length)
    (h : ∀ i b, l[i]? = some b →
      ∃ v, mem.readValue list.values i = some v ∧ readNodeString mem v = some b) :
    readNodeArgs mem ⟨.list (some a), mpvFormatNodeArray⟩ = some l := by
  have hloop : ((List.range list.num.toNat).mapM fun i => do
      readNodeString mem (← mem.readValue list.values i)) = some l := by
    rw [hnum]
    refine Arena.mapM_range fun i b hb => ?_
    obtain ⟨v, hv, hread⟩ := h i b hb
    simp [hv, hread]
  simp only [readNodeArgs, Option.bind_eq_bind, Option.bind_some, hlist] at hloop ⊢
  exact hloop

/-- An array of strings is built as a list from which libmpv reads the strings. -/
theorem build_strings (hlen : args.length ≤ 2 ^ 31 - 1) (st : NodeStorage) :
    st.Builds (ContainNul args)
      (fun raw st' => ¬ ContainNul args → readNodeArgs st' raw = some (args.map Utf8.bytes))
      (build (.array (args.map .string)) st) := by
  rw [build]
  refine (Builds.bind (buildItems_strings args st) fun values st₁ h₁ hitems =>
    Builds.bind (pushNodeArray_builds values st₁) fun p st₂ h₂ hvalues =>
    Builds.bind (pushList_builds _ st₂) fun q st₃ h₃ hlist => Builds.pure ?_).imp
    (by simp) fun _ _ _ h => h
  intro hargs
  obtain ⟨⟨a, rfl, ha⟩, -⟩ := hlist
  have hnum : (asCInt (args.map Node.string).length).toNat = (args.map Utf8.bytes).length := by
    rw [List.length_map, List.length_map, toNat_asCInt hlen]
  refine readNodeArgs_array ha (by simpa only using hnum) fun i b hb => ?_
  obtain ⟨s, hs, rfl⟩ : ∃ s, args[i]? = some s ∧ Utf8.bytes s = b := by
    simpa [List.getElem?_map] using hb
  obtain ⟨v, hv, p', rfl, hp⟩ := Arena.read_of_forall₂ hitems hs
  have hzero : 0 ∉ Utf8.bytes s := fun hz => hargs ⟨s, List.mem_of_getElem? hs, hz⟩
  exact ⟨_, readValue_mono h₃ (hvalues.1 i _ hv),
    readCStr_of_holds hzero (hp.mono (h₂.trans h₃))⟩

/-- What a function is to do with a command: it fails for a NUL before it calls libmpv, and
otherwise makes one call, in which libmpv reads the arguments. -/
structure HandsOver {α : Type} (h : Handle) (fn : CommandFn) (args : List String)
    (r : List CommandCall × Option (Except Error α)) : Prop where
  refused : ContainNul args → r = ([], some (.error .interiorNul))
  called : ¬ ContainNul args → ∃ call, r.1 = [call] ∧ call.handle = h.raw ∧ call.fn = fn ∧
    call.read = some (args.map Utf8.bytes)
  status : ¬ ContainNul args → r.2 ≠ some (.error .interiorNul)

/-- Errors of libmpv are none of the wrapper's own. -/
theorem check_ne_interiorNul {code : CInt} {e : Error} (h : check code = .error e) :
    e ≠ .interiorNul := by
  rintro rfl
  rw [check] at h
  split at h
  · cases h
  · have hcode := Error.rawCode_fromRaw code
    rw [Except.error.inj h] at hcode
    cases hcode

/-- A status is no `InteriorNul`: that error comes from the wrapper alone. -/
theorem statusOnly_ne (reply : NodeReply) : statusOnly reply ≠ some (.error .interiorNul) := by
  intro h
  have hmap := Option.some.inj h
  cases hc : check reply.code with
  | ok code =>
      rw [hc] at hmap
      cases hmap
  | error e =>
      rw [hc] at hmap
      exact check_ne_interiorNul hc (Except.error.inj hmap)

/-- Neither is the end of a command that returns a node. -/
theorem resultNode_ne (reply : NodeReply) : resultNode reply ≠ some (.error .interiorNul) := by
  intro h
  rw [resultNode, replyResult] at h
  split at h
  · obtain ⟨n, -, hn⟩ := Option.map_eq_some_iff.mp h
    cases hn
  · next e he => exact check_ne_interiorNul he (Except.error.inj (Option.some.inj h))

section Paths

variable {α : Type} {finish : NodeReply → Option (Except Error α)}

/-- The path through `cstr_args`. -/
theorem callArgv_handsOver (hfinish : ∀ reply, finish reply ≠ some (.error .interiorNul))
    (fn : CommandFn) (h : Handle) (libmpv : CommandCall → NodeReply) (args : List String) :
    HandsOver h fn args (callArgv fn finish h libmpv args) := by
  obtain ⟨hnul, hargs⟩ | ⟨hnul, hargs⟩ := cstrArgs_spec args
  · refine ⟨fun _ => ?_, fun hnot => absurd hnul hnot, fun hnot => absurd hnul hnot⟩
    simp only [callArgv, hargs]
  · have hread := readArgv_of_forall₂ hnul (forall₂_holdsCStr args)
    simp only [callArgv, hargs]
    exact ⟨fun hyes => absurd hyes hnul, fun _ => ⟨_, rfl, rfl, rfl, hread⟩, fun _ => hfinish _⟩

/-- The path through `NodeStorage::build`. -/
theorem callNode_handsOver (hfinish : ∀ reply, finish reply ≠ some (.error .interiorNul))
    (fn : CommandFn) (h : Handle) (libmpv : CommandCall → NodeReply) {args : List String}
    (hlen : args.length ≤ 2 ^ 31 - 1) :
    HandsOver h fn args (callNode fn finish h libmpv (.array (args.map .string))) := by
  have hspec := build_strings hlen {}
  rw [callNode]
  cases hr : build (.array (args.map .string)) {} with
  | ok raw storage =>
      rw [hr] at hspec
      obtain ⟨-, hnul, hread⟩ := hspec
      exact ⟨fun hyes => absurd hyes hnul, fun _ => ⟨_, rfl, rfl, rfl, hread hnul⟩,
        fun _ => hfinish _⟩
  | error e storage =>
      rw [hr] at hspec
      obtain ⟨-, rfl, hnul⟩ := hspec
      exact ⟨fun _ => rfl, fun hnot => absurd hnul hnot, fun hnot => absurd hnul hnot⟩

end Paths

/-- **The two paths hand over the same command.** For any list of arguments that a C count can
hold, the functions on `cstr_args` and those on an array of string nodes fail with
`InteriorNul` for the same lists, before they call libmpv, and otherwise make one call in
which libmpv reads exactly these arguments, from memory that is still owned. -/
theorem command_paths_agree (args : List String) (hlen : args.length ≤ 2 ^ 31 - 1)
    (h : Handle) (userdata : UInt64) (libmpv : CommandCall → NodeReply) :
    HandsOver h .command args (h.command libmpv args) ∧
    HandsOver h .commandRet args (h.commandRet libmpv args) ∧
    HandsOver h (.commandAsync userdata) args (h.commandAsync userdata libmpv args) ∧
    HandsOver h .commandNode args (h.commandNode libmpv (.array (args.map .string))) ∧
    HandsOver h (.commandNodeAsync userdata) args
      (h.commandNodeAsync userdata libmpv (.array (args.map .string))) :=
  ⟨callArgv_handsOver statusOnly_ne _ h libmpv args,
    callArgv_handsOver resultNode_ne _ h libmpv args,
    callArgv_handsOver statusOnly_ne _ h libmpv args,
    callNode_handsOver resultNode_ne _ h libmpv hlen,
    callNode_handsOver statusOnly_ne _ h libmpv hlen⟩

/-- A command with an empty argument, on both paths. -/
theorem command_paths_agree_empty : ∃ argv node,
    ((Handle.mk 1 0).command (fun _ => ⟨0, ⟨.int64 0, mpvFormatNone⟩, {}⟩)
      ["show-text", ""]).1 = [argv] ∧
    ((Handle.mk 1 0).commandNode (fun _ => ⟨0, ⟨.int64 0, mpvFormatNone⟩, {}⟩)
      (.array [.string "show-text", .string ""])).1 = [node] ∧
    argv.read = some [Utf8.bytes "show-text", []] ∧ node.read = argv.read := by
  obtain ⟨hargv, -, -, hnode, -⟩ := command_paths_agree ["show-text", ""] (by decide)
    (Handle.mk 1 0) 0 fun _ => ⟨0, ⟨.int64 0, mpvFormatNone⟩, {}⟩
  have hnul : ¬ ContainNul ["show-text", ""] := by
    have hname : 0 ∉ Utf8.bytes "show-text" := by decide
    have hempty : 0 ∉ Utf8.bytes "" := by decide
    simp [ContainNul, hname, hempty]
  obtain ⟨argv, hcall, -, -, hread⟩ := hargv.called hnul
  obtain ⟨node, hcall', -, -, hread'⟩ := hnode.called hnul
  refine ⟨argv, node, hcall, hcall', hread.trans ?_, hread'.trans hread.symm⟩
  rfl

end Rsmpv
