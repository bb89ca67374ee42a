import Rsmpv.Node.RoundTrip

/-!
# Nodes libmpv Hands Out

What the C headers promise of an `mpv_node` that libmpv wrote, in any memory and with any
sharing (`RawNode.WellFormed`): the field of the union is the one its format names,
strings and keys are terminated, and the entries of a list are there up to its count.
Nothing is promised of the flags, of the counts beyond their type (a negative one has no
entries), or of formats that are not known.

`Node.fromRaw` is defined on every such node, and its result is one that can be written
again (`Node.Writable`): no string in it has a NUL, and its lengths fit a C count.

## Main results

* `exists_fromRawFuel`: the reader is defined on every well-formed node, for enough nesting.
* `fromRaw_of_fromRawFuel`: the nesting that `Node.fromRaw` allows is enough: lists that are
  read at all are read within as many levels as there are lists (`Arena.good_of_good`).
* `exists_fromRaw`: so the reader is defined, and what it returns can be written again.
-/

namespace Rsmpv

/-! ### Well-formed nodes -/

/-- `p` points to a terminated string. -/
def NodeStorage.IsCStr (mem : NodeStorage) (p : Ptr) : Prop :=
  ∃ a bytes, p = some a ∧ mem.strings[a]? = some bytes ∧ 0 ∈ bytes

/-- The values of a C `int`. -/
def IsCInt (n : ℤ) : Prop := -2 ^ 31 ≤ n ∧ n < 2 ^ 31

/-- The formats `Node::from_raw` knows. -/
def knownFormats : List CInt :=
  [mpvFormatFlag, mpvFormatInt64, mpvFormatDouble, mpvFormatString, mpvFormatNodeArray,
    mpvFormatNodeMap, mpvFormatByteArray]

/-- Memory holds a finite node tree at `raw`. -/
inductive RawNode.WellFormed (mem : NodeStorage) : RawNode → Prop
  | flag (v : CInt) : WellFormed mem ⟨.flag v, mpvFormatFlag⟩
  | int64 (v : Int64) : WellFormed mem ⟨.int64 v, mpvFormatInt64⟩
  | double (bits : UInt64) : WellFormed mem ⟨.double bits, mpvFormatDouble⟩
  | string {p : Ptr} : mem.IsCStr p → WellFormed mem ⟨.string p, mpvFormatString⟩
  | array {a : ℕ} {list : RawNodeList} {values : ℕ → RawNode} :
      mem.lists[a]? = some list → IsCInt list.num →
      (∀ i < list.num.toNat, mem.readValue list.values i = some (values i)) →
      (∀ i < list.num.toNat, WellFormed mem (values i)) →
      WellFormed mem ⟨.list (some a), mpvFormatNodeArray⟩
  | map {a : ℕ} {list : RawNodeList} {b : ℕ} {keys : List Ptr} {values : ℕ → RawNode} :
      mem.lists[a]? = some list → IsCInt list.num →
      (0 < list.num → list.keys = some b ∧ mem.keyArrays[b]? = some keys) →
      (∀ i < list.num.toNat, ∃ key, keys[i]? = some key ∧ mem.IsCStr key) →
      (∀ i < list.num.toNat, mem.readValue list.values i = some (values i)) →
      (∀ i < list.num.toNat, WellFormed mem (values i)) →
      WellFormed mem ⟨.list (some a), mpvFormatNodeMap⟩
  | byteArray {a : ℕ} {ba : RawByteArray} :
      mem.byteArrays[a]? = some ba →
      (0 < ba.size → ∃ b data, ba.data = some b ∧ mem.bytes[b]? = some data ∧
        ba.size ≤ data.length) →
      WellFormed mem ⟨.ba (some a), mpvFormatByteArray⟩
  | unknown {u : RawValue} {format : CInt} :
      format ∉ knownFormats → WellFormed mem ⟨u, format⟩

/-! ### What the reader finds -/

namespace NodeStorage

variable {mem : NodeStorage} {p : Ptr}

/-- A terminated string is read, and what is read has no NUL. -/
theorem IsCStr.readString (h : mem.IsCStr p) :
    ∃ s, mem.readString p = some s ∧ 0 ∉ Utf8.bytes s := by
  obtain ⟨a, bytes, rfl, hmem, hzero⟩ := h
  have hread : Utf8.cstrBytes bytes = some (bytes.takeWhile (· ≠ 0)) := if_pos hzero
  refine ⟨Utf8.fromUtf8Lossy (bytes.takeWhile (· ≠ 0)), ?_, ?_⟩
  · simp [NodeStorage.readString, hmem, hread]
  · exact Utf8.zero_notMem_fromUtf8Lossy (Utf8.zero_notMem_of_cstrBytes hread)

/-- The bytes of a byte array are there. -/
theorem readBytes_of_le {ba : RawByteArray} (h : 0 < ba.size → ∃ b data, ba.data = some b ∧
    mem.bytes[b]? = some data ∧ ba.size ≤ data.length) :
    ∃ data, mem.readBytes ba = some data := by
  rw [readBytes]
  split
  · exact ⟨[], rfl⟩
  · next hz =>
      obtain ⟨b, data, hb, hdata, hle⟩ := h (Nat.pos_of_ne_zero hz)
      exact ⟨data.take ba.size, by simp [hb, hdata, hle]⟩

end NodeStorage

namespace Node

/-- A node that can be built: no NUL in a string, and no list too long. -/
def Writable (n : Node) : Prop := ¬ ContainNul n.strings ∧ Fit n.lengths

/-- A node with no strings and no lists can be written. -/
theorem writable_leaf {n : Node} (hstrings : n.strings = []) (hlengths : n.lengths = []) :
    n.Writable := by
  rw [Writable, hstrings, hlengths]
  simp [ContainNul, Fit]

/-- An array can be written if its length fits and its items can. -/
theorem writable_array {items : List Node} (hlen : items.length ≤ 2 ^ 31 - 1)
    (h : ∀ (i : ℕ) (n : Node), items[i]? = some n → n.Writable) : (array items).Writable := by
  have hmem : ∀ n ∈ items, n.Writable := fun n hn => by
    obtain ⟨i, hi⟩ := List.getElem?_of_mem hn
    exact h i n hi
  refine ⟨fun hnul => ?_, fit_cons.mpr ⟨hlen, fit_itemLengths.mpr fun n hn => (hmem n hn).2⟩⟩
  obtain ⟨n, hn, hnul⟩ := containNul_itemStrings.mp hnul
  exact (hmem n hn).1 hnul

/-- A map can be written if its length fits, its keys have no NUL, and its values can. -/
theorem writable_map {entries : List (String × Node)} (hlen : entries.length ≤ 2 ^ 31 - 1)
    (h : ∀ (i : ℕ) (e : String × Node), entries[i]? = some e →
      0 ∉ Utf8.bytes e.1 ∧ e.2.Writable) :
    (map entries).Writable := by
  have hmem : ∀ e ∈ entries, 0 ∉ Utf8.bytes e.1 ∧ e.2.Writable := fun e he => by
    obtain ⟨i, hi⟩ := List.getElem?_of_mem he
    exact h i e hi
  refine ⟨fun hnul => ?_,
    fit_cons.mpr ⟨hlen, fit_entryLengths.mpr fun e he => (hmem e he).2.2⟩⟩
  obtain ⟨e, he, hkey | hvalue⟩ := containNul_entryStrings.mp hnul
  · exact (hmem e he).1 hkey
  · exact (hmem e he).2.1 hvalue

/-- A count that is a C `int` fits again. -/
theorem toNat_le_of_isCInt {n : ℤ} (h : IsCInt n) : n.toNat ≤ 2 ^ 31 - 1 := by
  have hlt := h.2
  omega

/-- One nesting bound is enough for all the entries of a list. -/
theorem exists_fuel {mem : NodeStorage} {values : ℕ → RawNode} {α : Type} {l : List α}
    {value : α → Node}
    (h : ∀ i e, l[i]? = some e → ∃ fuel, fromRawFuel mem fuel (values i) = some (value e)) :
    ∃ fuel, ∀ i e, l[i]? = some e → fromRawFuel mem fuel (values i) = some (value e) := by
  obtain ⟨fuel, hfuel⟩ := Arena.exists_bound (n := l.length)
    (Q := fun i fuel => ∀ e, l[i]? = some e → fromRawFuel mem fuel (values i) = some (value e))
    (fun i f f' hle hf e he => fromRawFuel_mono (.refl mem) hle (hf e he))
    fun i hi => by
      have he := List.getElem?_eq_getElem hi
      obtain ⟨fuel, hfuel⟩ := h i _ he
      refine ⟨fuel, fun e he' => ?_⟩
      obtain rfl := Option.some.inj (he.symm.trans he')
      exact hfuel
  exact ⟨fuel, fun i e he => hfuel i (List.getElem?_eq_some_iff.mp he).1 e he⟩

/-- A format that is not known is read as nothing. -/
theorem fromRawFuel_unknown {mem : NodeStorage} {fuel : ℕ} {u : RawValue} {format : CInt}
    (h : format ∉ knownFormats) : fromRawFuel mem (fuel + 1) ⟨u, format⟩ = some .none := by
  simp only [knownFormats, List.mem_cons, List.not_mem_nil, not_or] at h
  rw [fromRawFuel]
  split
  case h_8 => rfl
  all_goals simp_all

/-- The reader is defined on every well-formed node, for enough nesting, and what it returns
can be written. -/
theorem exists_fromRawFuel {mem : NodeStorage} {raw : RawNode} (h : raw.WellFormed mem) :
    ∃ fuel n, fromRawFuel mem fuel raw = some n ∧ n.Writable := by
  induction h with
  | flag v => exact ⟨1, .flag (v != 0), rfl, writable_leaf rfl rfl⟩
  | int64 v => exact ⟨1, .int64 v, rfl, writable_leaf rfl rfl⟩
  | double bits => exact ⟨1, .double bits, rfl, writable_leaf rfl rfl⟩
  | string hp =>
      obtain ⟨s, hs, hzero⟩ := hp.readString
      refine ⟨1, .string s, ?_, ?_⟩
      · rw [fromRawFuel_string, hs]
        rfl
      · simp [Writable, strings, lengths, ContainNul, Fit, hzero]
  | @array a list values hlist hnum hvalues _ ih =>
      obtain ⟨items, hlen, hitems⟩ := Arena.exists_list (n := list.num.toNat)
        (R := fun i n => (∃ fuel, fromRawFuel mem fuel (values i) = some n) ∧ n.Writable)
        fun i hi => by
          obtain ⟨fuel, n, hn, hw⟩ := ih i hi
          exact ⟨n, ⟨fuel, hn⟩, hw⟩
      obtain ⟨fuel, hfuel⟩ := exists_fuel fun i n hn => (hitems i n hn).1
      refine ⟨fuel + 1, .array items, fromRawFuel_array hlist hlen.symm fun i n hn => ?_, ?_⟩
      · have hi : i < list.num.toNat := hlen ▸ (List.getElem?_eq_some_iff.mp hn).1
        exact ⟨values i, hvalues i hi, hfuel i n hn⟩
      · exact writable_array (hlen ▸ toNat_le_of_isCInt hnum) fun i n hn => (hitems i n hn).2
  | @map a list b keys values hlist hnum hkeys hkey hvalues _ ih =>
      obtain ⟨entries, hlen, hentries⟩ := Arena.exists_list (n := list.num.toNat)
        (R := fun i (e : String × Node) => mem.readKey list.keys i = some e.1 ∧
          (∃ fuel, fromRawFuel mem fuel (values i) = some e.2) ∧
          0 ∉ Utf8.bytes e.1 ∧ e.2.Writable)
        fun i hi => by
          have hpos : 0 < list.num := Int.lt_toNat.mp (Nat.zero_lt_of_lt hi)
          obtain ⟨hb, hmem⟩ := hkeys hpos
          obtain ⟨key, hk, hcstr⟩ := hkey i hi
          obtain ⟨s, hs, hzero⟩ := hcstr.readString
          obtain ⟨fuel, n, hn, hw⟩ := ih i hi
          have hread : mem.readKey list.keys i = some s := by
            simp [NodeStorage.readKey, hb, hmem, hk, hs]
          exact ⟨(s, n), hread, ⟨fuel, hn⟩, hzero, hw⟩
      obtain ⟨fuel, hfuel⟩ := exists_fuel fun i e he => (hentries i e he).2.1
      refine ⟨fuel + 1, .map entries, fromRawFuel_map hlist hlen.symm fun i e he => ?_, ?_⟩
      · have hi : i < list.num.toNat := hlen ▸ (List.getElem?_eq_some_iff.mp he).1
        exact ⟨(hentries i e he).1, values i, hvalues i hi, hfuel i e he⟩
      · exact writable_map (hlen ▸ toNat_le_of_isCInt hnum) fun i e he => (hentries i e he).2.2
  | byteArray hba hdata =>
      obtain ⟨data, hread⟩ := NodeStorage.readBytes_of_le hdata
      refine ⟨1, .byteArray data, ?_, writable_leaf rfl rfl⟩
      rw [fromRawFuel_byteArray]
      simp [hba, hread]
  | unknown hformat =>
      exact ⟨1, .none, fromRawFuel_unknown hformat, writable_leaf rfl rfl⟩

/-! ### The nesting bound -/

section Depth

variable {mem : NodeStorage}

/-- The entries of the list at `a` are read within nesting `fuel`. -/
def GoodList (mem : NodeStorage) (fuel a : ℕ) : Prop :=
  ∃ list, mem.lists[a]? = some list ∧ ∀ i < list.num.toNat,
    ∃ v n, mem.readValue list.values i = some v ∧ fromRawFuel mem fuel v = some n

/-- A list that is good to some depth is good to any larger one. -/
theorem GoodList.mono {fuel fuel' a : ℕ} (h : GoodList mem fuel a) (hle : fuel ≤ fuel') :
    GoodList mem fuel' a := by
  obtain ⟨list, hlist, hentries⟩ := h
  refine ⟨list, hlist, fun i hi => ?_⟩
  obtain ⟨v, n, hv, hn⟩ := hentries i hi
  exact ⟨v, n, hv, fromRawFuel_mono (.refl mem) hle hn⟩

/-- Reading a node asks of its list, if it has one, that its entries are read: one nesting
bound is as good as another that is enough for the same lists. -/
theorem exists_fromRawFuel_of_goodList {fuel fuel' : ℕ} {raw : RawNode} {n : Node}
    (hgood : ∀ a, GoodList mem fuel a → GoodList mem fuel' a)
    (h : fromRawFuel mem (fuel + 1) raw = some n) :
    ∃ n', fromRawFuel mem (fuel' + 1) raw = some n' := by
  obtain ⟨u, format⟩ := raw
  by_cases harray : format = mpvFormatNodeArray
  · subst harray
    obtain ⟨a, list, items, rfl, hlist, rfl, hlen, hread⟩ := of_fromRawFuel_array h
    obtain ⟨list', hlist', hentries⟩ := hgood a ⟨list, hlist, fun i hi => by
      have hm := List.getElem?_eq_getElem (hlen.symm ▸ hi)
      obtain ⟨v, hv, hdec⟩ := hread i _ hm
      exact ⟨v, _, hv, hdec⟩⟩
    obtain rfl : list = list' := Option.some.inj (hlist.symm.trans hlist')
    obtain ⟨items', hlen', hitems'⟩ := Arena.exists_list (n := list.num.toNat)
      (R := fun i m => ∃ v, mem.readValue list.values i = some v ∧
        fromRawFuel mem fuel' v = some m)
      fun i hi => by
        obtain ⟨v, m, hv, hm⟩ := hentries i hi
        exact ⟨m, v, hv, hm⟩
    exact ⟨.array items', fromRawFuel_array hlist hlen'.symm hitems'⟩
  · by_cases hmap : format = mpvFormatNodeMap
    · subst hmap
      obtain ⟨a, list, entries, rfl, hlist, rfl, hlen, hread⟩ := of_fromRawFuel_map h
      obtain ⟨list', hlist', hentries⟩ := hgood a ⟨list, hlist, fun i hi => by
        have he := List.getElem?_eq_getElem (hlen.symm ▸ hi)
        obtain ⟨-, v, hv, hdec⟩ := hread i _ he
        exact ⟨v, _, hv, hdec⟩⟩
      obtain rfl : list = list' := Option.some.inj (hlist.symm.trans hlist')
      obtain ⟨entries', hlen', hentries'⟩ := Arena.exists_list (n := list.num.toNat)
        (R := fun i (e : String × Node) => mem.readKey list.keys i = some e.1 ∧
          ∃ v, mem.readValue list.values i = some v ∧ fromRawFuel mem fuel' v = some e.2)
        fun i hi => by
          have he := List.getElem?_eq_getElem (hlen.symm ▸ hi)
          obtain ⟨hkey, -⟩ := hread i _ he
          obtain ⟨v, m, hv, hm⟩ := hentries i hi
          exact ⟨(_, m), hkey, v, hv, hm⟩
      exact ⟨.map entries', fromRawFuel_map hlist hlen'.symm hentries'⟩
    · -- no other format has a list
      refine ⟨n, ?_⟩
      rw [fromRawFuel] at h ⊢
      split at h <;> simp_all

/-- **The nesting bound of `Node.fromRaw` is enough**: a node that is read within some nesting
is read within as many levels as there are lists. -/
theorem fromRaw_of_fromRawFuel {fuel : ℕ} {raw : RawNode} {n : Node}
    (h : fromRawFuel mem fuel raw = some n) : fromRaw mem raw = some n := by
  have hlists : ∀ f a, GoodList mem f a → GoodList mem mem.lists.length a := by
    refine fun f a hf => Arena.good_of_good (fun f a hf => hf.mono (Nat.le_succ f))
      (fun f a hf => ?_) (fun f hback a hf => ?_) hf
    · obtain ⟨list, hlist, -⟩ := hf
      exact (List.getElem?_eq_some_iff.mp hlist).1
    · obtain ⟨list, hlist, hentries⟩ := hf
      refine ⟨list, hlist, fun i hi => ?_⟩
      obtain ⟨v, m, hv, hm⟩ := hentries i hi
      obtain ⟨m', hm'⟩ := exists_fromRawFuel_of_goodList hback hm
      exact ⟨v, m', hv, hm'⟩
  cases fuel with
  | zero => cases h
  | succ fuel =>
      obtain ⟨n', hn'⟩ := exists_fromRawFuel_of_goodList (hlists fuel) h
      have hmax := fromRawFuel_mono (.refl mem) (le_max_left (fuel + 1) (mem.lists.length + 1)) h
      have hmax' := fromRawFuel_mono (.refl mem) (le_max_right (fuel + 1) _) hn'
      obtain rfl : n = n' := Option.some.inj (hmax.symm.trans hmax')
      exact hn'

end Depth

/-- **The reader is defined on every well-formed node**, and what it returns can be
written. -/
theorem exists_fromRaw {mem : NodeStorage} {raw : RawNode} (h : raw.WellFormed mem) :
    ∃ n, fromRaw mem raw = some n ∧ n.Writable := by
  obtain ⟨fuel, n, hn, hw⟩ := exists_fromRawFuel h
  exact ⟨n, fromRaw_of_fromRawFuel hn, hw⟩

end Node

end Rsmpv
