import Rsmpv.Api.Calls
import Rsmpv.Event.Contract

/-!
# One Value on Every Path

A property value goes to libmpv at once (`set_property`, by six Rust types in four C formats)
or as a node (`set_property_async`, by `Into<Node>`), and comes back at once (`get_property`) or
in an event: the reply to `get_property_async`, or a change of an observed property. As a
`Node` it is the same value on all of these paths: what is passed is what was given
(cut to the counts C can express, which leaves it whole when its lengths fit), and what is
returned, at once or in an event, is what libmpv wrote (`property_values_agree`).

## Main results

* `SetProperty.assignment`: in whichever format a value is set, libmpv is passed the node it
  stands for.
* `GetProperty.Means.toNode`, `GetProperty.Means.propertyData`: what is read, and what an
  event with the same datum decodes to, is what libmpv wrote.
* `property_values_agree`: the two, over every interleaving of calls.
-/

namespace Rsmpv

open Node (ContainNul)

/-! ### Values as nodes -/

/-- The value a datum stands for. -/
def Datum.value : Datum → Node
  | flag v => .flag (v != 0)
  | int64 v => .int64 v
  | double bits => .double bits
  | text bytes => .string (Utf8.fromUtf8Lossy bytes)
  | node n => n

/-- The property and the value that a call passes. -/
def Input.assignment : Input → Option (List UInt8 × Node)
  | data name d => some (name, d.value)
  | texts name s => some (name, .string (Utf8.fromUtf8Lossy s))
  | _ => Option.none

/-- The value that is set. -/
def SetProperty.value : SetProperty → Node
  | bool v => .flag v
  | i64 v => .int64 v
  | f64 bits => .double bits
  | str s | string s | stringRef s => .string s
  | node n | nodeRef n => n

/-- The property and the value a call is to set. -/
def ApiCall.sets : ApiCall → Option (String × Node)
  | setProperty name value => some (name, value.value)
  | setPropertyAsync _ name value => some (name, value.into)
  | _ => none

/-- A value that was read. -/
def GetProperty.toNode : (ty : GetProperty) → ty.Value → Node
  | .bool, v => .flag v
  | .i64, v => .int64 v
  | .f64, bits => .double bits
  | .string, s => .string s
  | .node, n => n

/-- The same value in an event. -/
def GetProperty.data : (ty : GetProperty) → ty.Value → PropertyData
  | .bool, v => .flag v
  | .i64, v => .int64 v
  | .f64, bits => .double bits
  | .string, s => .string s
  | .node, n => .node n

/-- In `mem`, the data of an event property of the given format says `d`. -/
inductive RawPropertyValue.Holds (mem : NodeStorage) :
    CInt → RawPropertyValue → Datum → Prop
  | flag (v : CInt) : Holds mem mpvFormatFlag (.flag v) (.flag v)
  | int64 (v : Int64) : Holds mem mpvFormatInt64 (.int64 v) (.int64 v)
  | double (bits : UInt64) : Holds mem mpvFormatDouble (.double bits) (.double bits)
  | string {p : Ptr} {bytes : List UInt8} : readCStr mem p = some bytes →
      Holds mem mpvFormatString (.string p) (.text bytes)
  | node {raw : RawNode} {n : Node} : Node.fromRaw mem raw = some n →
      Holds mem mpvFormatNode (.node raw) (.node n)

/-! ### The paths -/

/-- The strings of a property value are those of the node it stands for. -/
theorem SetProperty.strings_value (v : SetProperty) : v.strings = v.value.strings := by
  cases v <;> rfl

/-- However a value is set, libmpv is passed the value. -/
theorem SetProperty.assignment (name : String) (v : SetProperty) :
    (v.input name).assignment = some (Utf8.bytes name, v.value.wrapped) := by
  cases v with
  | bool v => cases v <;> rfl
  | str s | string s | stringRef s =>
      simp [SetProperty.input, Input.assignment, SetProperty.value, Node.wrapped]
  | _ => rfl

/-- A call that sets something passes it, and refuses a NUL in it. -/
theorem ApiCall.sets_spec {c : ApiCall} {name : String} {n : Node}
    (h : c.sets = some (name, n)) :
    c.strings = name :: n.strings ∧
      c.input.assignment = some (Utf8.bytes name, n.wrapped) := by
  cases c with
  | setProperty name' value =>
      obtain ⟨rfl, rfl⟩ := Prod.mk.inj (Option.some.inj h)
      exact ⟨by rw [ApiCall.strings, value.strings_value], value.assignment name'⟩
  | setPropertyAsync userdata name' value =>
      obtain ⟨rfl, rfl⟩ := Prod.mk.inj (Option.some.inj h)
      exact ⟨rfl, rfl⟩
  | _ => cases h

/-- What is read says what was written. -/
theorem GetProperty.Means.toNode {ty : GetProperty} {out : Handed} {v : ty.Value}
    (h : ty.Means out v) : ∃ d, out = .value d ∧ ty.toNode v = d.value := by
  cases ty <;> cases out with
  | value d =>
      cases d <;> first | exact absurd h id | exact ⟨_, rfl, by rw [show v = _ from h]; rfl⟩
  | _ => exact absurd h id

/-- The bytes libmpv put at `p` are decoded lossily. -/
theorem lossy_of_readCStr {mem : NodeStorage} {p : Ptr} {bytes : List UInt8}
    (h : readCStr mem p = some bytes) : lossy mem p = some (Utf8.fromUtf8Lossy bytes) := by
  obtain ⟨a, rfl, ha⟩ := Option.bind_eq_some_iff.mp h
  obtain ⟨text, htext, hbytes⟩ := Option.bind_eq_some_iff.mp ha
  simp [lossy, NodeStorage.readString, htext, hbytes]

/-- An event that carries the same datum decodes to the value that is read. -/
theorem GetProperty.Means.propertyData {ty : GetProperty} {d : Datum} {v : ty.Value}
    (h : ty.Means (.value d) v) {mem : NodeStorage} {value : RawPropertyValue}
    (hvalue : value.Holds mem ty.format.toRaw d) (name : Ptr) :
    propertyData mem ⟨name, ty.format.toRaw, some value⟩ = some (ty.data v) := by
  cases ty with
  | bool =>
      generalize hf : GetProperty.bool.format.toRaw = format at hvalue ⊢
      cases hvalue with
      | flag c =>
          obtain rfl : v = (c != 0) := h
          rfl
      | _ => cases hf
  | i64 =>
      generalize hf : GetProperty.i64.format.toRaw = format at hvalue ⊢
      cases hvalue with
      | int64 c =>
          obtain rfl : v = c := h
          rfl
      | _ => cases hf
  | f64 =>
      generalize hf : GetProperty.f64.format.toRaw = format at hvalue ⊢
      cases hvalue with
      | double bits =>
          obtain rfl : v = bits := h
          rfl
      | _ => cases hf
  | string =>
      generalize hf : GetProperty.string.format.toRaw = format at hvalue ⊢
      cases hvalue with
      | @string p bytes hread =>
          obtain rfl : v = Utf8.fromUtf8Lossy bytes := h
          rw [propertyData_string, lossy_of_readCStr hread]
          rfl
      | _ => cases hf
  | node =>
      generalize hf : GetProperty.node.format.toRaw = format at hvalue ⊢
      cases hvalue with
      | node hread =>
          obtain rfl : v = _ := h
          rw [propertyData_node, hread]
          rfl
      | _ => cases hf

/-- A property that was read was written by libmpv. -/
theorem ApiCall.ends_getProperty {h : Handle} {ty : GetProperty} {name : String} {v : ty.Value}
    {l : Exchanges}
    (hends : ApiCall.Ends h (.getProperty ty name) (Except.ok v : Except Error ty.Value) l) :
    ∃ req a, l = [(req, a)] ∧ ty.Means a.out v := by
  obtain ⟨e, -, hr, -⟩ | ⟨a, -, -, hreports, rfl⟩ := hends.elim
  · cases hr
  · have hget : Api.Reports (fun a v => ty.Means a.out v) a (Except.ok v) := hreports
    cases hget with
    | ok _ hmeans => exact ⟨_, a, rfl, hmeans⟩

/-- **One value on every path.** In every interleaving of any calls: a call that sets a
property, at once or asynchronously and from any type, passes libmpv the value it was given,
or nothing if there is a NUL in it; and a call that read one returned the value libmpv wrote,
which an event that carries the same datum in the format of the type decodes to as well. -/
theorem property_values_agree {T σ : Type} [DecidableEq T] {libmpv : Lts σ (Request × Answer)}
    {s : CallState T σ}
    (hlibmpv : ∀ e req a e', libmpv.step e (req, a) e' → Answers req.fn a)
    (h : (callSystem T libmpv).Reachable s) :
    (∀ d ∈ s.shared.done, ∀ name n, d.job.2.sets = some (name, n) →
      (ContainNul (name :: n.strings) ∧ d.log = []) ∨
      (¬ ContainNul (name :: n.strings) ∧ ∃ req a, d.log = [(req, a)] ∧
        req.input.assignment = some (Utf8.bytes name, n.wrapped))) ∧
    ∀ t hdl ty name (v : GetProperty.Value ty) l,
      ⟨t, (hdl, .getProperty ty name), Except.ok v, l⟩ ∈ s.shared.done →
      ∃ req a d, l = [(req, a)] ∧ a.out = .value d ∧ ty.toNode v = d.value ∧
        ∀ mem value p, RawPropertyValue.Holds mem ty.format.toRaw value d →
          propertyData mem ⟨p, ty.format.toRaw, some value⟩ = some (ty.data v) := by
  have hdone := (calls_sound hlibmpv h).done
  refine ⟨?_, fun t hdl ty name v l hmem => ?_⟩
  · rintro ⟨t, ⟨hdl, c⟩, r, l⟩ hmem name n hsets
    obtain ⟨hstrings, hinput⟩ := ApiCall.sets_spec hsets
    have hends : ApiCall.Ends hdl c r l := hdone _ hmem
    cases hends with
    | refused hrefuses =>
        cases hrefuses with
        | notUtf8 => cases hsets
        | nul hnul => exact .inl ⟨hstrings ▸ hnul, rfl⟩
    | answered hnot _ _ =>
        exact .inr ⟨fun hnul => hnot .interiorNul (.nul (hstrings ▸ hnul)), _, _, rfl, hinput⟩
  · obtain ⟨req, a, rfl, hmeans⟩ := ApiCall.ends_getProperty (hdone _ hmem)
    obtain ⟨d, hd, hvalue⟩ := hmeans.toNode
    rw [hd] at hmeans
    exact ⟨req, a, d, rfl, hd, hvalue, fun mem value p hholds => hmeans.propertyData hholds p⟩

/-- A vector that is set asynchronously is passed as an array. -/
theorem property_values_agree_vec : ∃ r req a,
    ApiCall.Ends ⟨1, 0⟩ (.setPropertyAsync 7 "tags" (.vec [.str "a", .bool true])) r [(req, a)] ∧
      req.input.assignment = some (Utf8.bytes "tags", .array [.string "a", .flag true]) := by
  obtain ⟨s, r, l, hs, -, hdone⟩ := exists_called
    (⟨1, 0⟩, .setPropertyAsync 7 "tags" (.vec [.str "a", .bool true]))
  obtain ⟨hsets, -⟩ := property_values_agree constantMpv_answers hs
  have hmem : ⟨(), (⟨1, 0⟩, .setPropertyAsync 7 "tags" (.vec [.str "a", .bool true])), r, l⟩ ∈
      s.shared.done := by rw [hdone]; exact List.mem_singleton_self _
  have hnul : ¬ ContainNul ["tags", "a"] := by
    rintro ⟨str, hstr, hzero⟩
    have hall : ∀ str ∈ ["tags", "a"], 0 ∉ Utf8.bytes str := by decide
    exact hall str hstr hzero
  obtain ⟨hnul', -⟩ | ⟨-, req, a, hlog, hassign⟩ := hsets _ hmem _ _ rfl
  · exact absurd hnul' hnul
  · obtain rfl : l = [(req, a)] := hlog
    exact ⟨r, req, a, (calls_sound constantMpv_answers hs).done _ hmem, hassign⟩

end Rsmpv
