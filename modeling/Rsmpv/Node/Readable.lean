import Rsmpv.Node.Counts

/-!
# What libmpv Reads of a Built Node

`node_round_trip` reads back the trees whose lengths fit a C count, and `build_counts_iff` says
that no others keep all their entries. This module says what is read of the others. The count
of a list is its length wrapped to 32 bits, and a negative count stands for no entries, so a
list is read up to `(len as c_int).max(0)`, and never past its end. What is read of a tree
is the tree with every array and map cut to that length (`Node.wrapped`), for every tree that
has no NUL; the others are refused as `InteriorNul` (`build_reads_wrapped`).

## Main results

* `wrapped_eq_iff`: a tree is left whole exactly when its lengths fit their counts.
* `NodeStorage.wrapped_invariant`: what was built decodes to the tree that was cut.
* `build_reads_wrapped`: the two directions of `build` for every tree: what it fails for,
  and what is read of what it wrote, also after more was built in the same storage.
-/

namespace Rsmpv

open Node NodeStorage

namespace Node

mutual

/-- The tree that is left when every array and map is cut to its wrapped length. -/
def wrapped : Node → Node
  | .none => .none
  | .flag v => .flag v
  | .int64 v => .int64 v
  | .double bits => .double bits
  | .string s => .string s
  | .array items => .array ((wrappedItems items).take (asCInt items.length).toNat)
  | .map entries => .map ((wrappedEntries entries).take (asCInt entries.length).toNat)
  | .byteArray data => .byteArray data

/-- The items of an array, each cut. -/
def wrappedItems : List Node → List Node
  | [] => []
  | item :: items => item.wrapped :: wrappedItems items

/-- The entries of a map, each cut. -/
def wrappedEntries : List (String × Node) → List (String × Node)
  | [] => []
  | (key, value) :: entries => (key, value.wrapped) :: wrappedEntries entries

end

/-- The items are cut one by one. -/
theorem wrappedItems_eq (items : List Node) : wrappedItems items = items.map wrapped := by
  induction items with
  | nil => rfl
  | cons item items ih => rw [wrappedItems, ih, List.map_cons]

/-- The entries are cut one by one, and keep their keys. -/
theorem wrappedEntries_eq (entries : List (String × Node)) :
    wrappedEntries entries = entries.map fun e => (e.1, e.2.wrapped) := by
  induction entries with
  | nil => rfl
  | cons e entries ih => rw [wrappedEntries, ih, List.map_cons]

/-- A node without lists is not cut. -/
theorem wrapped_leaf {n : Node} (h : n.lengths = []) : n.wrapped = n := by
  cases n with
  | none | flag v | int64 v | double bits | string s | byteArray data => rfl
  | array items | map entries => simp [lengths] at h

/-- A balanced remainder of a length is never more than the length. -/
theorem bmod_le_self (n m : ℕ) : (n : ℤ).bmod m ≤ n := by
  have hmod : (n : ℤ) % m ≤ n := by exact_mod_cast Nat.mod_le n m
  rw [Int.bmod_eq_emod]
  split <;> omega

/-- A wrapped length is no longer than the length. -/
theorem toNat_asCInt_le (n : ℕ) : (asCInt n).toNat ≤ n :=
  Int.toNat_le.mpr (bmod_le_self n (2 ^ 32))

/-- A list that is cut to its wrapped length is whole only if it fits. -/
theorem take_asCInt_eq {α : Type} {l l' : List α} (hlen : l'.length = l.length) :
    l'.take (asCInt l.length).toNat = l ↔ l.length ≤ 2 ^ 31 - 1 ∧ l' = l := by
  constructor
  · intro h
    have hle := toNat_asCInt_le l.length
    have hcount := congrArg List.length h
    rw [List.length_take, hlen, Nat.min_eq_left hle] at hcount
    refine ⟨?_, ?_⟩
    · refine asCInt_eq_iff.mp (le_antisymm (bmod_le_self _ _) ?_)
      obtain hneg | hnonneg := le_total (asCInt l.length) 0
      · rw [Int.toNat_of_nonpos hneg] at hcount
        rw [← hcount]
        rfl
      · exact (congrArg Nat.cast hcount).symm.trans (Int.toNat_of_nonneg hnonneg) |>.le
    · rw [hcount, ← hlen, List.take_length] at h
      exact h
  · rintro ⟨hfit, rfl⟩
    rw [toNat_asCInt hfit, List.take_length]

mutual

/-- **A tree is left whole** exactly when its lengths fit their counts. -/
theorem wrapped_eq_iff (n : Node) : n.wrapped = n ↔ Fit n.lengths := by
  cases n with
  | none | flag v | int64 v | double bits | string s | byteArray data =>
      simp [wrapped, lengths, Fit]
  | array items =>
      rw [wrapped, Node.array.injEq, take_asCInt_eq (by rw [wrappedItems_eq, List.length_map]),
        lengths, fit_cons, wrappedItems_eq_iff items]
  | map entries =>
      rw [wrapped, Node.map.injEq, take_asCInt_eq (by rw [wrappedEntries_eq, List.length_map]),
        lengths, fit_cons, wrappedEntries_eq_iff entries]

/-- Cutting changes no item exactly when the lengths in all of them fit. -/
theorem wrappedItems_eq_iff (items : List Node) :
    wrappedItems items = items ↔ Fit (itemLengths items) := by
  cases items with
  | nil => simp [wrappedItems, itemLengths, Fit]
  | cons item items =>
      rw [wrappedItems, List.cons.injEq, itemLengths, fit_append, wrapped_eq_iff item,
        wrappedItems_eq_iff items]

/-- Cutting changes no entry exactly when the lengths in all of them fit. -/
theorem wrappedEntries_eq_iff (entries : List (String × Node)) :
    wrappedEntries entries = entries ↔ Fit (entryLengths entries) := by
  cases entries with
  | nil => simp [wrappedEntries, entryLengths, Fit]
  | cons e entries =>
      obtain ⟨key, value⟩ := e
      rw [wrappedEntries, List.cons.injEq, entryLengths, fit_append, Prod.mk.injEq,
        wrapped_eq_iff value, wrappedEntries_eq_iff entries]
      simp

end

end Node

/-- What was built decodes to the tree that was cut. -/
theorem NodeStorage.wrapped_invariant :
    BuildInvariant fun base st raw n => Decodes base st raw n.wrapped where
  mono hext hbase h := h.mono hext hbase
  leaf n st h := by
    rw [wrapped_leaf h]
    exact build_leaf n st h
  array {base a st st' list values items} hext hbase hcount ha hnum hvalues hitems := by
    have hfuel : st'.lists.length - base = st.lists.length - base + 1 := by omega
    rw [Decodes, hfuel, wrapped, wrappedItems_eq]
    refine fromRawFuel_array ha ?_ fun i m hm => ?_
    · rw [hnum, List.length_take, List.length_map, Nat.min_eq_left (toNat_asCInt_le _)]
    · have hm' := List.mem_of_getElem? hm
      have hget : (items.map wrapped)[i]? = some m := by
        rw [List.getElem?_take] at hm
        split at hm
        · exact hm
        · cases hm
      rw [List.getElem?_map, Option.map_eq_some_iff] at hget
      obtain ⟨n, hn, rfl⟩ := hget
      obtain ⟨v, hv, hdec⟩ := Arena.read_of_forall₂ hitems hn
      exact ⟨v, hvalues i v hv, fromRawFuel_mono hext le_rfl hdec⟩
  map {base a st st' list values entries} hext hbase hcount ha hnum hvalues hkeys hentries := by
    have hfuel : st'.lists.length - base = st.lists.length - base + 1 := by omega
    rw [Decodes, hfuel, wrapped, wrappedEntries_eq]
    refine fromRawFuel_map ha ?_ fun i e he => ?_
    · rw [hnum, List.length_take, List.length_map, Nat.min_eq_left (toNat_asCInt_le _)]
    · have hget : (entries.map fun e => (e.1, e.2.wrapped))[i]? = some e := by
        rw [List.getElem?_take] at he
        split at he
        · exact he
        · cases he
      rw [List.getElem?_map, Option.map_eq_some_iff] at hget
      obtain ⟨e', he', rfl⟩ := hget
      obtain ⟨v, hv, hdec⟩ := Arena.read_of_forall₂ hentries he'
      exact ⟨hkeys i e' he', v, hvalues i v hv, fromRawFuel_mono hext le_rfl hdec⟩

/-- What a build leaves to be read, whatever the lengths. -/
theorem NodeStorage.fromRaw_of_build {n : Node} {st st' : NodeStorage} {raw : RawNode}
    (h : build n st = .ok raw st') : ¬ ContainNul n.strings ∧ fromRaw st' raw = some n.wrapped := by
  have hspec := wrapped_invariant.build_node n st
  rw [h] at hspec
  exact ⟨hspec.2.1, fromRaw_of_fromRawFuel hspec.2.2⟩

/-- **What is read of a built node**, for every tree: building fails exactly for a NUL, and with no
other error than `InteriorNul`; what was built can always be read, now and after any further
builds into the same storage, and what is read is the tree with every list cut to its wrapped
length. That is the tree itself exactly when its lengths fit. -/
theorem build_reads_wrapped (n : Node) (st : NodeStorage) :
    (∀ e, (∃ st', build n st = .error e st') ↔ ContainNul n.strings ∧ e = .interiorNul) ∧
    (∀ raw st', build n st = .ok raw st' → ∀ ns,
      fromRaw (st'.buildAll ns) raw = some n.wrapped) ∧
    (n.wrapped = n ↔ Fit n.lengths) := by
  have hspec := wrapped_invariant.build_node n st
  refine ⟨fun e => ⟨?_, ?_⟩, fun raw st' hr ns => ?_, wrapped_eq_iff n⟩
  · rintro ⟨st', hr⟩
    rw [hr] at hspec
    obtain ⟨-, he, hnul⟩ := hspec
    exact ⟨hnul, he⟩
  · rintro ⟨hnul, rfl⟩
    cases hr : build n st with
    | ok raw st' =>
        rw [hr] at hspec
        exact absurd hnul hspec.2.1
    | error e st' =>
        rw [hr] at hspec
        obtain ⟨-, rfl, -⟩ := hspec
        exact ⟨st', rfl⟩
  · rw [hr] at hspec
    exact fromRaw_of_fromRawFuel (fromRawFuel_mono (buildAll_extends ns st') le_rfl hspec.2.2)

end Rsmpv
