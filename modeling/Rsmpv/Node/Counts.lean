import Rsmpv.Node.WellFormed

/-!
# Counts of Lists

`NodeStorage::build` writes the length of an array or a map into `mpv_node_list.num` with an
`as c_int` cast, which wraps. A raw tree is counted when each of its lists has all the
entries of the array or map it was built from and a count that stands in a given relation to
their number (`CountedTree`). Whatever the lengths, `build` writes the wrapped counts
(`build_counted`), so the counts are the lengths exactly when the lengths fit a C `int`
(`CountedTree.fit_lengths`): a longer list loses entries without an error.

## Main results

* `asCInt_eq_iff`: wrapping keeps exactly the lengths that fit.
* `build_counted`: `build` writes the wrapped count of every list, whatever the lengths.
* `CountedTree.exact`, `CountedTree.fit_lengths`: the wrapped counts are exact if the
  lengths fit, and only then.
* `build_counts_iff`: building keeps all the data exactly for the trees whose lengths fit.
-/

namespace Rsmpv

open Node NodeStorage

/-! ### CountedTree trees -/

/-- Memory holds at `raw` the lists of the tree `n`, at every depth, with counts that are in
relation `R` to their numbers of entries. -/
inductive CountedTree (R : CInt → ℕ → Prop) (st : NodeStorage) : RawNode → Node → Prop
  | leaf {raw : RawNode} {n : Node} : n.lengths = [] → CountedTree R st raw n
  | array {a : ℕ} {list : RawNodeList} {values : List RawNode} {items : List Node} :
      st.lists[a]? = some list → R list.num items.length →
      (∀ (i : ℕ) (v : RawNode), values[i]? = some v → st.readValue list.values i = some v) →
      values.length = items.length →
      (∀ (i : ℕ) (v : RawNode) (n : Node), values[i]? = some v → items[i]? = some n →
        CountedTree R st v n) →
      CountedTree R st ⟨.list (some a), mpvFormatNodeArray⟩ (.array items)
  | map {a : ℕ} {list : RawNodeList} {values : List RawNode}
      {entries : List (String × Node)} :
      st.lists[a]? = some list → R list.num entries.length →
      (∀ (i : ℕ) (v : RawNode), values[i]? = some v → st.readValue list.values i = some v) →
      (∀ (i : ℕ) (e : String × Node), entries[i]? = some e →
        st.readKey list.keys i = some e.1) →
      values.length = entries.length →
      (∀ (i : ℕ) (v : RawNode) (e : String × Node), values[i]? = some v →
        entries[i]? = some e → CountedTree R st v e.2) →
      CountedTree R st ⟨.list (some a), mpvFormatNodeMap⟩ (.map entries)

/-- The count is the number of entries. -/
def Exact (num : CInt) (len : ℕ) : Prop := num = len

/-- The count is the number of entries, wrapped. -/
def Wrapped (num : CInt) (len : ℕ) : Prop := num = asCInt len

section CountedTree

variable {R R' : CInt → ℕ → Prop} {st st' : NodeStorage} {raw : RawNode} {n : Node}

/-- A counted tree stays one in every extension of the memory. -/
theorem CountedTree.mono (h : st.Extends st') (hn : CountedTree R st raw n) :
    CountedTree R st' raw n := by
  induction hn with
  | leaf hleaf => exact .leaf hleaf
  | array hlist hnum hvalues hlen _ ih =>
      exact .array (Arena.read_of_grown hlist h.lists) hnum
        (fun i v hv => readValue_mono h (hvalues i v hv)) hlen ih
  | map hlist hnum hvalues hkeys hlen _ ih =>
      exact .map (Arena.read_of_grown hlist h.lists) hnum
        (fun i v hv => readValue_mono h (hvalues i v hv))
        (fun i e he => readKey_mono h (hkeys i e he)) hlen ih

/-- Wrapping keeps exactly the lengths that fit. -/
theorem asCInt_eq_iff {len : ℕ} : asCInt len = len ↔ len ≤ 2 ^ 31 - 1 := by
  constructor
  · intro h
    have hlt : (len : ℤ) < (((2 ^ 32 : ℕ) : ℤ) + 1) / 2 := by
      rw [← h]
      exact Int.bmod_lt (by decide)
    omega
  · intro h
    exact asCInt_of_lt (by omega)

/-- Where the lengths fit, the wrapped counts are exact. -/
theorem CountedTree.exact (hn : CountedTree Wrapped st raw n) (hfit : Fit n.lengths) :
    CountedTree Exact st raw n := by
  induction hn with
  | leaf hleaf => exact .leaf hleaf
  | array hlist hnum hvalues hlen _ ih =>
      obtain ⟨hlen', hfits⟩ := fit_cons.mp hfit
      refine .array hlist (hnum.trans (asCInt_eq_iff.mpr hlen')) hvalues hlen
        fun i v m hv hm => ih i v m hv hm ?_
      exact fit_itemLengths.mp hfits m (List.mem_of_getElem? hm)
  | map hlist hnum hvalues hkeys hlen _ ih =>
      obtain ⟨hlen', hfits⟩ := fit_cons.mp hfit
      refine .map hlist (hnum.trans (asCInt_eq_iff.mpr hlen')) hvalues hkeys hlen
        fun i v e hv he => ih i v e hv he ?_
      exact fit_entryLengths.mp hfits e (List.mem_of_getElem? he)

/-- Two arrays of values that are read at the same place agree. -/
theorem exists_same_value {p : Ptr} {values values' : List RawNode} {i : ℕ}
    (hvalues : ∀ (i : ℕ) (v : RawNode), values[i]? = some v → st.readValue p i = some v)
    (hvalues' : ∀ (i : ℕ) (v : RawNode), values'[i]? = some v → st.readValue p i = some v)
    (hi : i < values.length) (hi' : i < values'.length) :
    ∃ v, values[i]? = some v ∧ values'[i]? = some v := by
  have hv := List.getElem?_eq_getElem hi
  have hv' := List.getElem?_eq_getElem hi'
  have heq := Option.some.inj ((hvalues i _ hv).symm.trans (hvalues' i _ hv'))
  exact ⟨_, hv, heq ▸ hv'⟩

/-- Where the wrapped counts are exact, the lengths fit. -/
theorem CountedTree.fit_lengths (hn : CountedTree Wrapped st raw n)
    (hexact : CountedTree Exact st raw n) : Fit n.lengths := by
  induction hn with
  | leaf hleaf =>
      rw [hleaf]
      simp [Fit]
  | array hlist hnum hvalues hlen _ ih =>
      cases hexact with
      | leaf hleaf => simp [lengths] at hleaf
      | array hlist' hnum' hvalues' hlen' hitems' =>
          obtain rfl := Option.some.inj (hlist.symm.trans hlist')
          refine fit_cons.mpr ⟨asCInt_eq_iff.mp (hnum.symm.trans hnum'),
            fit_itemLengths.mpr fun m hm => ?_⟩
          obtain ⟨i, hi⟩ := List.getElem?_of_mem hm
          have hlt := (List.getElem?_eq_some_iff.mp hi).1
          obtain ⟨v, hv, hv'⟩ := exists_same_value hvalues hvalues' (hlen ▸ hlt) (hlen' ▸ hlt)
          exact ih i v m hv hi (hitems' i v m hv' hi)
  | map hlist hnum hvalues _ hlen _ ih =>
      cases hexact with
      | leaf hleaf => simp [lengths] at hleaf
      | map hlist' hnum' hvalues' _ hlen' hentries' =>
          obtain rfl := Option.some.inj (hlist.symm.trans hlist')
          refine fit_cons.mpr ⟨asCInt_eq_iff.mp (hnum.symm.trans hnum'),
            fit_entryLengths.mpr fun e he => ?_⟩
          obtain ⟨i, hi⟩ := List.getElem?_of_mem he
          have hlt := (List.getElem?_eq_some_iff.mp hi).1
          obtain ⟨v, hv, hv'⟩ := exists_same_value hvalues hvalues' (hlen ▸ hlt) (hlen' ▸ hlt)
          exact ih i v e hv hi (hentries' i v e hv' hi)

end CountedTree

/-! ### What building counts -/

namespace NodeStorage

/-- An array in memory has the lists of its items. -/
theorem counted_of_forall₂ {R : CInt → ℕ → Prop} {α : Type} {st : NodeStorage}
    {values : List RawNode} {l : List α} {value : α → Node}
    (h : List.Forall₂ (fun raw e => CountedTree R st raw (value e)) values l) :
    values.length = l.length ∧ ∀ (i : ℕ) (v : RawNode) (e : α), values[i]? = some v →
      l[i]? = some e → CountedTree R st v (value e) := by
  refine ⟨h.length_eq, fun i v e hv he => ?_⟩
  obtain ⟨v', hv', hcounted⟩ := Arena.read_of_forall₂ h he
  obtain rfl := Option.some.inj (hv.symm.trans hv')
  exact hcounted

/-- Whatever the lengths, the lists that were built have wrapped counts. -/
theorem counted_invariant : BuildInvariant fun _ st raw n => CountedTree Wrapped st raw n where
  mono hext _ h := h.mono hext
  leaf n st h := (build_leaf n st h).imp Iff.rfl fun _ _ _ _ => .leaf h
  array hext _ _ ha hnum hvalues hitems := by
    obtain ⟨hlen, hcounted⟩ := counted_of_forall₂ hitems
    exact .array ha hnum hvalues hlen fun i v m hv hm => (hcounted i v m hv hm).mono hext
  map hext _ _ ha hnum hvalues hkeys hentries := by
    obtain ⟨hlen, hcounted⟩ := counted_of_forall₂ hentries
    exact .map ha hnum hvalues hkeys hlen fun i v e hv he => (hcounted i v e hv he).mono hext

/-- `build` writes the wrapped count of every list. -/
theorem build_counted (n : Node) (st : NodeStorage) :
    st.Builds (ContainNul n.strings) (fun raw st' => CountedTree Wrapped st' raw n)
      (build n st) :=
  counted_invariant.build_node n st

/-- What a build that succeeds leaves. -/
theorem exists_build {n : Node} (hnul : ¬ ContainNul n.strings) (st : NodeStorage) :
    ∃ raw st', build n st = .ok raw st' ∧ CountedTree Wrapped st' raw n := by
  have hspec := build_counted n st
  cases hr : build n st with
  | ok raw st' =>
      rw [hr] at hspec
      exact ⟨raw, st', rfl, hspec.2.2⟩
  | error e st' =>
      rw [hr] at hspec
      exact absurd hspec.2.2 hnul

end NodeStorage

/-- **When building keeps all the data.** Whenever `build` succeeds, every list at every depth
has the number of its entries as its count, and the reader sees the whole tree, exactly for
the trees that are refused for a NUL and those whose lengths fit a C `int`. -/
theorem build_counts_iff (n : Node) (st : NodeStorage) :
    (∀ raw st', build n st = .ok raw st' →
      CountedTree Exact st' raw n ∧ fromRaw st' raw = some n) ↔
      ContainNul n.strings ∨ Fit n.lengths := by
  constructor
  · intro h
    by_cases hnul : ContainNul n.strings
    · exact .inl hnul
    · obtain ⟨raw, st', hr, hwrapped⟩ := exists_build hnul st
      exact .inr (hwrapped.fit_lengths (h raw st' hr).1)
  · rintro h raw st' hr
    have hspec := build_spec n st
    have hcounted := build_counted n st
    rw [hr] at hspec hcounted
    obtain ⟨-, hnul, hdec⟩ := hspec
    obtain hnul' | hfit := h
    · exact absurd hnul' hnul
    · exact ⟨hcounted.2.2.exact hfit, fromRaw_of_fromRawFuel (hdec hfit)⟩

/-- A list whose count wraps to zero is read as an empty one. -/
theorem exists_build_replicate {len : ℕ} (h : asCInt len = 0) :
    ∃ raw st', build (.array (List.replicate len .none)) {} = .ok raw st' ∧
      CountedTree Wrapped st' raw (.array (List.replicate len .none)) ∧
      fromRaw st' raw = some (.array []) := by
  have hnul : ¬ ContainNul (Node.array (List.replicate len .none)).strings := by
    rw [Node.strings, containNul_itemStrings]
    rintro ⟨m, hm, hnul⟩
    obtain rfl := List.eq_of_mem_replicate hm
    simp [Node.strings, ContainNul] at hnul
  obtain ⟨raw, st', hr, hcounted⟩ := exists_build hnul {}
  refine ⟨raw, st', hr, hcounted, ?_⟩
  cases hcounted with
  | leaf hleaf => simp [lengths] at hleaf
  | @array a list _ _ hlist hnum _ _ _ =>
      have hzero : list.num = 0 := by
        rw [Wrapped, List.length_replicate, h] at hnum
        exact hnum
      have hread : fromRawFuel st' (0 + 1) ⟨.list (some a), mpvFormatNodeArray⟩ =
          some (.array []) := by
        refine fromRawFuel_array hlist ?_ fun i n hn => ?_
        · rw [hzero]
          rfl
        · simp at hn
      exact fromRaw_of_fromRawFuel hread

/-- An array of `2 ^ 32` entries is built as an empty list. -/
theorem build_drops_entries : ∃ raw st',
    build (.array (List.replicate (2 ^ 32) .none)) {} = .ok raw st' ∧
      ¬ CountedTree Exact st' raw (.array (List.replicate (2 ^ 32) .none)) ∧
      fromRaw st' raw = some (.array []) := by
  have hwrap : asCInt (2 ^ 32) = 0 := Int.bmod_self
  obtain ⟨raw, st', hr, hcounted, hread⟩ := exists_build_replicate hwrap
  refine ⟨raw, st', hr, fun hexact => ?_, hread⟩
  have hfit := hcounted.fit_lengths hexact
  rw [lengths, List.length_replicate] at hfit
  have hlen := (fit_cons.mp hfit).1
  omega

end Rsmpv
