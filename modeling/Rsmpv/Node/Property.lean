import Rsmpv.Node.WellFormed

/-!
# Node Properties

`GetProperty` and `SetProperty` for `Node` (`property.rs`): a property is read from a raw
node that libmpv wrote, and written by handing libmpv one that was built in a storage
of its own. The first read of a property may lose something, such as broken UTF-8, a flag
that is neither 0 nor 1, or a format that is not known. What it returns can be
written, and from then on reading and writing change nothing (`read_write_unchanged`).
-/

namespace Rsmpv

open Node NodeStorage

/-- What libmpv answers to `mpv_get_property`: a status, and the node it wrote with the
memory the node points to. -/
structure NodeReply where
  code : CInt
  raw : RawNode
  memory : NodeStorage

/-- `GetProperty::get_from` for `Node`. -/
def Node.getFrom (reply : NodeReply) : Option (Except Error Node) :=
  match check reply.code with
  | .error e => some (.error e)
  | .ok _ => (fromRaw reply.memory reply.raw).map .ok

/-- `SetProperty::set_on` for `Node`, where `libmpv` is the status of `mpv_set_property` for
the node it is handed. -/
def Node.setOn (n : Node) (libmpv : RawNode → NodeStorage → CInt) : Except Error Unit :=
  match build n {} with
  | .error e _ => .error e
  | .ok raw st => (check (libmpv raw st)).map fun _ => ()

/-- Read the node libmpv holds and write it back: what libmpv then holds. -/
def rewrite (held : RawNode × NodeStorage) : Option (RawNode × NodeStorage) := do
  let n ← fromRaw held.2 held.1
  match build n {} with
  | .ok raw st => some (raw, st)
  | .error _ _ => Option.none

/-- Read and write back `k` times. -/
def rewrites : ℕ → RawNode × NodeStorage → Option (RawNode × NodeStorage)
  | 0, held => some held
  | k + 1, held => do rewrites k (← rewrite held)

/-- A writable node is built, and reads as itself. -/
theorem Node.Writable.build {n : Node} (h : n.Writable) (st : NodeStorage) :
    ∃ raw st', build n st = .ok raw st' ∧ fromRaw st' raw = some n := by
  have hspec := build_spec n st
  cases hr : NodeStorage.build n st with
  | ok raw st' =>
      rw [hr] at hspec
      exact ⟨raw, st', rfl, fromRaw_of_fromRawFuel (hspec.2.2 h.2)⟩
  | error e st' =>
      rw [hr] at hspec
      exact absurd hspec.2.2 h.1

/-- Rewriting keeps what is read. -/
theorem rewrites_read {n : Node} (h : n.Writable) (k : ℕ) (held : RawNode × NodeStorage)
    (hread : fromRaw held.2 held.1 = some n) :
    ∃ raw mem, rewrites k held = some (raw, mem) ∧ fromRaw mem raw = some n := by
  induction k generalizing held with
  | zero => exact ⟨held.1, held.2, rfl, hread⟩
  | succ k ih =>
      obtain ⟨raw, st, hbuild, hn⟩ := h.build {}
      have hstep : rewrite held = some (raw, st) := by simp [rewrite, hread, hbuild]
      obtain ⟨raw', mem', hrest, hn'⟩ := ih (raw, st) hn
      exact ⟨raw', mem', by simp [rewrites, hstep, hrest], hn'⟩

/-- **Every value read from libmpv can be written back unchanged.** A node libmpv handed out
is read, as a property and on its own; what was read can be built into any storage and
reads as itself there, which is what `set_on` hands libmpv; and after any number of
rewrites the same value is read. -/
theorem read_write_unchanged {mem : NodeStorage} {raw : RawNode} (h : raw.WellFormed mem) :
    ∃ n, fromRaw mem raw = some n ∧
      (∀ code, 0 ≤ code → Node.getFrom ⟨code, raw, mem⟩ = some (.ok n)) ∧
      (∀ st, ∃ raw' st', build n st = .ok raw' st' ∧ fromRaw st' raw' = some n) ∧
      (∃ raw' mem', fromRaw mem' raw' = some n ∧ ∀ libmpv,
        n.setOn libmpv = (check (libmpv raw' mem')).map fun _ => ()) ∧
      ∀ k, ∃ raw' mem', rewrites k (raw, mem) = some (raw', mem') ∧
        fromRaw mem' raw' = some n := by
  obtain ⟨n, hn, hw⟩ := exists_fromRaw h
  refine ⟨n, hn, fun code hcode => ?_, hw.build, ?_, fun k => rewrites_read hw k (raw, mem) hn⟩
  · simp [Node.getFrom, check_of_nonneg hcode, hn]
  · obtain ⟨raw', mem', hbuild, hread⟩ := hw.build {}
    exact ⟨raw', mem', hread, fun libmpv => by simp [Node.setOn, hbuild]⟩

/-- Memory with a broken string, a list with a negative count, and an array of both and of
a node whose format is not known. -/
def oddMemory : NodeStorage where
  strings := [[0xFF, 0x61, 0x00, 0x62]]
  lists := [⟨-3, Option.none, Option.none⟩, ⟨3, some 0, Option.none⟩]
  nodeArrays := [[⟨.string (some 0), mpvFormatString⟩, ⟨.list (some 0), mpvFormatNodeMap⟩,
    ⟨.int64 0, 100⟩]]

/-- What is read from this memory is written back. -/
theorem read_write_unchanged_odd : ∃ n,
    fromRaw oddMemory ⟨.list (some 1), mpvFormatNodeArray⟩ = some n ∧
    ∀ st, ∃ raw' st', build n st = .ok raw' st' ∧ fromRaw st' raw' = some n := by
  have hstring : RawNode.WellFormed oddMemory ⟨.string (some 0), mpvFormatString⟩ :=
    .string ⟨0, [0xFF, 0x61, 0x00, 0x62], rfl, rfl, by decide⟩
  have hmap : RawNode.WellFormed oddMemory ⟨.list (some 0), mpvFormatNodeMap⟩ := by
    refine @RawNode.WellFormed.map oddMemory 0 _ 0 [] (fun _ => ⟨.int64 0, 0⟩) rfl
      ⟨by decide, by decide⟩ ?_ ?_ ?_ ?_
    · intro hpos
      exact absurd hpos (by decide)
    all_goals
      intro i hi
      exact absurd hi (Nat.not_lt_zero i)
  have harray : RawNode.WellFormed oddMemory ⟨.list (some 1), mpvFormatNodeArray⟩ := by
    refine @RawNode.WellFormed.array oddMemory 1 _
      (fun i => ([⟨.string (some 0), mpvFormatString⟩,
        ⟨.list (some 0), mpvFormatNodeMap⟩] : List RawNode)[i]?.getD ⟨.int64 0, 100⟩) rfl
      ⟨by decide, by decide⟩ (by decide) fun i hi => ?_
    obtain rfl | rfl | rfl : i = 0 ∨ i = 1 ∨ i = 2 := by
      have hlt : i < 3 := hi
      omega
    · exact hstring
    · exact hmap
    · exact .unknown (by decide)
  obtain ⟨n, hn, -, hbuild, -⟩ := read_write_unchanged harray
  exact ⟨n, hn, hbuild⟩

end Rsmpv
