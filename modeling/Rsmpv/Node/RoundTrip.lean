import Rsmpv.Lib.Arena
import Rsmpv.Node.Model

/-!
# The Node Round Trip

A storage only grows (`NodeStorage.Extends`), and whatever the reader finds in one it
finds in every extension of it (`Node.fromRawFuel_mono`), so a raw node stays good for as
long as its storage lives. `build` has three mutually recursive parts and one rule for them
(`BuildInvariant`): they only extend the storage, they fail exactly when the tree contains
a NUL, and what passes from the entries of a list to the list holds of what they write. One
such invariant is that the result decodes, in the storage that is left, to the tree that
was given, provided the lists are short enough for their C counts (`build_spec`).

## Main results

* `Node.fromRawFuel_mono`: what was decoded stays decoded, in every extension of the memory.
* `Builds.bind`, `Builds.imp`: the rules for the steps of `build`, each of which extends the
  storage or fails for a NUL; one lemma of this form for each helper (`cstring_builds` to
  `pushByteArray_builds`).
* `build_node`, `build_items`, `build_entries`: the rule for the three parts of `build`.
* `decodes_invariant`, `build_spec`: the instance that gives the round trip.
* `node_round_trip`: the round trip, with whatever is built afterwards.
-/

namespace Rsmpv

/-! ### Storages grow -/

/-- Every allocation of `st` is an allocation of `st'`, at the same address. -/
structure NodeStorage.Extends (st st' : NodeStorage) : Prop where
  strings : st.strings <+: st'.strings
  lists : st.lists <+: st'.lists
  nodeArrays : st.nodeArrays <+: st'.nodeArrays
  keyArrays : st.keyArrays <+: st'.keyArrays
  byteArrays : st.byteArrays <+: st'.byteArrays
  bytes : st.bytes <+: st'.bytes

namespace NodeStorage

variable {st st' st'' : NodeStorage}

/-- Each storage extends itself. -/
theorem Extends.refl (st : NodeStorage) : st.Extends st :=
  ⟨List.prefix_rfl, List.prefix_rfl, List.prefix_rfl, List.prefix_rfl, List.prefix_rfl,
    List.prefix_rfl⟩

/-- Extensions compose. -/
theorem Extends.trans (h : st.Extends st') (h' : st'.Extends st'') : st.Extends st'' :=
  ⟨h.strings.trans h'.strings, h.lists.trans h'.lists, h.nodeArrays.trans h'.nodeArrays,
    h.keyArrays.trans h'.keyArrays, h.byteArrays.trans h'.byteArrays,
    h.bytes.trans h'.bytes⟩

/-- A string is read the same in each extension of the storage. -/
theorem readString_mono (h : st.Extends st') {p : Ptr} {s : String}
    (hs : st.readString p = some s) : st'.readString p = some s := by
  obtain ⟨i, hp, hi⟩ := Option.bind_eq_some_iff.mp hs
  obtain ⟨mem, hmem, hrest⟩ := Option.bind_eq_some_iff.mp hi
  refine Option.bind_eq_some_iff.mpr ⟨i, hp, Option.bind_eq_some_iff.mpr ⟨mem, ?_, hrest⟩⟩
  exact Arena.read_of_grown hmem h.strings

/-- So is an entry of an array of nodes. -/
theorem readValue_mono (h : st.Extends st') {p : Ptr} {i : ℕ} {raw : RawNode}
    (hr : st.readValue p i = some raw) : st'.readValue p i = some raw := by
  obtain ⟨a, hp, ha⟩ := Option.bind_eq_some_iff.mp hr
  obtain ⟨values, hvalues, hi⟩ := Option.bind_eq_some_iff.mp ha
  refine Option.bind_eq_some_iff.mpr ⟨a, hp, Option.bind_eq_some_iff.mpr ⟨values, ?_, hi⟩⟩
  exact Arena.read_of_grown hvalues h.nodeArrays

/-- So is a key of a map. -/
theorem readKey_mono (h : st.Extends st') {p : Ptr} {i : ℕ} {s : String}
    (hs : st.readKey p i = some s) : st'.readKey p i = some s := by
  obtain ⟨a, hp, ha⟩ := Option.bind_eq_some_iff.mp hs
  obtain ⟨keys, hkeys, hi⟩ := Option.bind_eq_some_iff.mp ha
  obtain ⟨key, hkey, hread⟩ := Option.bind_eq_some_iff.mp hi
  refine Option.bind_eq_some_iff.mpr ⟨a, hp, Option.bind_eq_some_iff.mpr ⟨keys, ?_,
    Option.bind_eq_some_iff.mpr ⟨key, hkey, readString_mono h hread⟩⟩⟩
  exact Arena.read_of_grown hkeys h.keyArrays

/-- So are the bytes of a byte array. -/
theorem readBytes_mono (h : st.Extends st') {ba : RawByteArray} {data : List UInt8}
    (hd : st.readBytes ba = some data) : st'.readBytes ba = some data := by
  rw [readBytes] at hd ⊢
  split at hd
  · next hz => rw [if_pos hz]; exact hd
  · next hz =>
      rw [if_neg hz]
      obtain ⟨a, hp, ha⟩ := Option.bind_eq_some_iff.mp hd
      obtain ⟨bytes, hbytes, hrest⟩ := Option.bind_eq_some_iff.mp ha
      refine Option.bind_eq_some_iff.mpr ⟨a, hp,
        Option.bind_eq_some_iff.mpr ⟨bytes, ?_, hrest⟩⟩
      exact Arena.read_of_grown hbytes h.bytes

end NodeStorage

/-- **What was decoded stays decoded**, in every extension of the memory and with every
larger nesting bound. -/
theorem Node.fromRawFuel_mono {st st' : NodeStorage} (h : st.Extends st') {fuel : ℕ} :
    ∀ {fuel' : ℕ} {raw : RawNode} {n : Node}, fuel ≤ fuel' →
      fromRawFuel st fuel raw = some n → fromRawFuel st' fuel' raw = some n := by
  induction fuel with
  | zero => intro fuel' raw n _ hn; cases hn
  | succ fuel ih =>
      intro fuel' raw n hle hn
      obtain ⟨fuel', rfl⟩ : ∃ f, fuel' = f + 1 := ⟨fuel' - 1, by omega⟩
      have hle' : fuel ≤ fuel' := by omega
      obtain ⟨u, format⟩ := raw
      rw [fromRawFuel] at hn ⊢
      simp only at hn ⊢
      split at hn
      · exact hn
      · exact hn
      · exact hn
      · -- a string
        split at hn
        · obtain ⟨s, hs, rfl⟩ := Option.map_eq_some_iff.mp hn
          exact Option.map_eq_some_iff.mpr ⟨s, NodeStorage.readString_mono h hs, rfl⟩
        · exact hn
      · -- an array
        split at hn
        · obtain ⟨a, hp, ha⟩ := Option.bind_eq_some_iff.mp hn
          obtain ⟨list, hlist, hl⟩ := Option.bind_eq_some_iff.mp ha
          obtain ⟨items, hitems, hrest⟩ := Option.bind_eq_some_iff.mp hl
          refine Option.bind_eq_some_iff.mpr ⟨a, hp, Option.bind_eq_some_iff.mpr
            ⟨list, Arena.read_of_grown hlist h.lists, Option.bind_eq_some_iff.mpr
              ⟨items, Arena.mapM_mono ?_ hitems, hrest⟩⟩⟩
          intro i m hm
          obtain ⟨v, hv, hdec⟩ := Option.bind_eq_some_iff.mp hm
          exact Option.bind_eq_some_iff.mpr ⟨v, NodeStorage.readValue_mono h hv, ih hle' hdec⟩
        · exact hn
      · -- a map
        split at hn
        · obtain ⟨a, hp, ha⟩ := Option.bind_eq_some_iff.mp hn
          obtain ⟨list, hlist, hl⟩ := Option.bind_eq_some_iff.mp ha
          obtain ⟨entries, hentries, hrest⟩ := Option.bind_eq_some_iff.mp hl
          refine Option.bind_eq_some_iff.mpr ⟨a, hp, Option.bind_eq_some_iff.mpr
            ⟨list, Arena.read_of_grown hlist h.lists, Option.bind_eq_some_iff.mpr
              ⟨entries, Arena.mapM_mono ?_ hentries, hrest⟩⟩⟩
          intro i e he
          obtain ⟨key, hkey, hk⟩ := Option.bind_eq_some_iff.mp he
          obtain ⟨v, hv, hm⟩ := Option.bind_eq_some_iff.mp hk
          obtain ⟨m, hdec, he'⟩ := Option.bind_eq_some_iff.mp hm
          exact Option.bind_eq_some_iff.mpr ⟨key, NodeStorage.readKey_mono h hkey,
            Option.bind_eq_some_iff.mpr ⟨v, NodeStorage.readValue_mono h hv,
              Option.bind_eq_some_iff.mpr ⟨m, ih hle' hdec, he'⟩⟩⟩
        · exact hn
      · -- a byte array
        split at hn
        · obtain ⟨a, hp, ha⟩ := Option.bind_eq_some_iff.mp hn
          obtain ⟨ba, hba, hb⟩ := Option.bind_eq_some_iff.mp ha
          obtain ⟨data, hdata, hrest⟩ := Option.map_eq_some_iff.mp hb
          exact Option.bind_eq_some_iff.mpr ⟨a, hp, Option.bind_eq_some_iff.mpr
            ⟨ba, Arena.read_of_grown hba h.byteArrays, Option.map_eq_some_iff.mpr
              ⟨data, NodeStorage.readBytes_mono h hdata, hrest⟩⟩⟩
        · exact hn
      · exact hn

/-! ### What a tree contains -/

namespace Node

mutual

/-- The strings and the map keys anywhere in a tree. -/
def strings : Node → List String
  | .string s => [s]
  | .array items => itemStrings items
  | .map entries => entryStrings entries
  | _ => []

/-- The strings in the items of an array. -/
def itemStrings : List Node → List String
  | [] => []
  | item :: items => strings item ++ itemStrings items

/-- The keys of a map, and the strings in its values. -/
def entryStrings : List (String × Node) → List String
  | [] => []
  | (key, value) :: entries => key :: (strings value ++ entryStrings entries)

end

mutual

/-- The lengths of the arrays and maps anywhere in a tree. -/
def lengths : Node → List ℕ
  | .array items => items.length :: itemLengths items
  | .map entries => entries.length :: entryLengths entries
  | _ => []

/-- The lengths in the items of an array. -/
def itemLengths : List Node → List ℕ
  | [] => []
  | item :: items => lengths item ++ itemLengths items

/-- The lengths in the values of a map. -/
def entryLengths : List (String × Node) → List ℕ
  | [] => []
  | (_, value) :: entries => lengths value ++ entryLengths entries

end

/-- One of the strings contains a NUL. -/
def ContainNul (l : List String) : Prop := ∃ s ∈ l, 0 ∈ Utf8.bytes s

/-- The lengths fit `mpv_node_list.num`. -/
def Fit (l : List ℕ) : Prop := ∀ n ∈ l, n ≤ 2 ^ 31 - 1

/-- A NUL in one of two lists of strings. -/
theorem containNul_append {l l' : List String} :
    ContainNul (l ++ l') ↔ ContainNul l ∨ ContainNul l' := by
  simp only [ContainNul, List.mem_append, or_and_right, exists_or]

/-- A NUL in the first string, or in another. -/
theorem containNul_cons {s : String} {l : List String} :
    ContainNul (s :: l) ↔ 0 ∈ Utf8.bytes s ∨ ContainNul l := by
  simp [ContainNul]

/-- All lengths of two lists fit. -/
theorem fit_append {l l' : List ℕ} : Fit (l ++ l') ↔ Fit l ∧ Fit l' := by
  simp only [Fit, List.forall_mem_append]

/-- The first length fits, and so do the others. -/
theorem fit_cons {n : ℕ} {l : List ℕ} : Fit (n :: l) ↔ n ≤ 2 ^ 31 - 1 ∧ Fit l := by
  simp only [Fit, List.forall_mem_cons]

/-- A NUL in an array is one in an item. -/
theorem containNul_itemStrings {items : List Node} :
    ContainNul (itemStrings items) ↔ ∃ n ∈ items, ContainNul n.strings := by
  induction items with
  | nil => simp [itemStrings, ContainNul]
  | cons n items ih => simp [itemStrings, containNul_append, ih]

/-- The lengths in an array fit when those in each item do. -/
theorem fit_itemLengths {items : List Node} :
    Fit (itemLengths items) ↔ ∀ n ∈ items, Fit n.lengths := by
  induction items with
  | nil => simp [itemLengths, Fit]
  | cons n items ih => simp [itemLengths, fit_append, ih]

/-- A NUL in a map is one in a key or a value. -/
theorem containNul_entryStrings {entries : List (String × Node)} :
    ContainNul (entryStrings entries) ↔
      ∃ e ∈ entries, 0 ∈ Utf8.bytes e.1 ∨ ContainNul e.2.strings := by
  induction entries with
  | nil => simp [entryStrings, ContainNul]
  | cons e entries ih =>
      simp [entryStrings, containNul_cons, containNul_append, ih, or_assoc]

/-- The lengths in a map fit when those in each value do. -/
theorem fit_entryLengths {entries : List (String × Node)} :
    Fit (entryLengths entries) ↔ ∀ e ∈ entries, Fit e.2.lengths := by
  induction entries with
  | nil => simp [entryLengths, Fit]
  | cons e entries ih => simp [entryLengths, fit_append, ih]

end Node

/-! ### What building does -/

namespace NodeStorage

/-- The ends of a build that starts in `st`: it fails exactly when `nul` holds, always with
`InteriorNul`, and otherwise returns a value that is `good` in the storage it leaves. -/
def Builds {α : Type} (st : NodeStorage) (nul : Prop) (good : α → NodeStorage → Prop) :
    EStateM.Result Error NodeStorage α → Prop
  | .ok a st' => st.Extends st' ∧ ¬ nul ∧ good a st'
  | .error e st' => st.Extends st' ∧ e = .interiorNul ∧ nul

variable {α β : Type} {st st' : NodeStorage}

/-- The sequence rule. -/
theorem Builds.bind {x : BuildM α} {f : α → BuildM β} {nul nul' : Prop}
    {good : α → NodeStorage → Prop} {good' : β → NodeStorage → Prop}
    (hx : st.Builds nul good (x st))
    (hf : ∀ a st', st.Extends st' → good a st' → st'.Builds nul' good' (f a st')) :
    st.Builds (nul ∨ nul') good' ((x >>= f) st) := by
  cases hr : x st with
  | ok a st' =>
      have e : (x >>= f) st = f a st' := by simp only [Bind.bind, EStateM.bind, hr]
      rw [hr] at hx
      rw [e]
      obtain ⟨hext, hnul, hgood⟩ := hx
      have hrest := hf a st' hext hgood
      cases hr' : f a st' with
      | ok b st'' =>
          rw [hr'] at hrest
          obtain ⟨hext', hnul', hgood'⟩ := hrest
          exact ⟨hext.trans hext', not_or.mpr ⟨hnul, hnul'⟩, hgood'⟩
      | error err st'' =>
          rw [hr'] at hrest
          obtain ⟨hext', he, hnul'⟩ := hrest
          exact ⟨hext.trans hext', he, .inr hnul'⟩
  | error err st' =>
      have e : (x >>= f) st = .error err st' := by simp only [Bind.bind, EStateM.bind, hr]
      rw [hr] at hx
      rw [e]
      obtain ⟨hext, he, hnul⟩ := hx
      exact ⟨hext, he, .inl hnul⟩

/-- The rule for returning a value. -/
theorem Builds.pure {good : α → NodeStorage → Prop} {a : α} (h : good a st) :
    st.Builds False good ((Pure.pure a : BuildM α) st) :=
  ⟨Extends.refl st, id, h⟩

/-- The consequence rule. -/
theorem Builds.imp {nul nul' : Prop} {good good' : α → NodeStorage → Prop}
    {r : EStateM.Result Error NodeStorage α} (h : st.Builds nul good r) (hnul : nul ↔ nul')
    (hgood : ∀ a st', st.Extends st' → good a st' → good' a st') :
    st.Builds nul' good' r := by
  cases r with
  | ok a st' => exact ⟨h.1, fun hn => h.2.1 (hnul.mpr hn), hgood a st' h.1 h.2.2⟩
  | error e st' => exact ⟨h.1, h.2.1, hnul.mp h.2.2⟩

/-- `cstring` allocates the string, or fails for a NUL. -/
theorem cstring_builds (s : String) (st : NodeStorage) :
    st.Builds (0 ∈ Utf8.bytes s) (fun p st' => st'.readString p = some s ∧
      st'.lists.length = st.lists.length) (cstring s st) := by
  rw [cstring]
  split
  · next h => exact ⟨Extends.refl st, rfl, h⟩
  · next h =>
      refine ⟨⟨List.prefix_append _ _, List.prefix_rfl, List.prefix_rfl, List.prefix_rfl,
        List.prefix_rfl, List.prefix_rfl⟩, h, ?_, rfl⟩
      simp [readString, Utf8.cstrBytes_terminated h]

/-- `push_node_array` allocates the values, in their order. -/
theorem pushNodeArray_builds (values : List RawNode) (st : NodeStorage) :
    st.Builds False (fun p st' => (∀ i v, values[i]? = some v → st'.readValue p i = some v) ∧
      st'.lists.length = st.lists.length) (pushNodeArray values st) := by
  refine ⟨⟨List.prefix_rfl, List.prefix_rfl, List.prefix_append _ _, List.prefix_rfl,
    List.prefix_rfl, List.prefix_rfl⟩, id, fun i v hv => ?_, rfl⟩
  simpa [readValue] using hv

/-- `push_key_array` allocates the keys, in their order. -/
theorem pushKeyArray_builds (keys : List Ptr) (st : NodeStorage) :
    st.Builds False (fun p st' => (∀ i key s, keys[i]? = some key →
      st.readString key = some s → st'.readKey p i = some s) ∧
      st'.lists.length = st.lists.length) (pushKeyArray keys st) := by
  have hext : st.Extends { st with keyArrays := st.keyArrays ++ [keys] } :=
    ⟨List.prefix_rfl, List.prefix_rfl, List.prefix_rfl, List.prefix_append _ _,
      List.prefix_rfl, List.prefix_rfl⟩
  refine ⟨hext, id, fun i key s hkey hs => ?_, rfl⟩
  have hs' := readString_mono hext hs
  simpa [readKey, hkey] using hs'

/-- `push_list` allocates the list, and one more list is there. -/
theorem pushList_builds (list : RawNodeList) (st : NodeStorage) :
    st.Builds False (fun p st' => (∃ a, p = some a ∧ st'.lists[a]? = some list) ∧
      st'.lists.length = st.lists.length + 1) (pushList list st) := by
  refine ⟨⟨List.prefix_rfl, List.prefix_append _ _, List.prefix_rfl, List.prefix_rfl,
    List.prefix_rfl, List.prefix_rfl⟩, id, ⟨_, rfl, Arena.read_allocated _ _⟩, ?_⟩
  simp

/-- `push_bytes` allocates the data. -/
theorem pushBytes_builds (data : List UInt8) (st : NodeStorage) :
    st.Builds False (fun p st' => st'.readBytes ⟨p, data.length⟩ = some data)
      (pushBytes data st) := by
  refine ⟨⟨List.prefix_rfl, List.prefix_rfl, List.prefix_rfl, List.prefix_rfl,
    List.prefix_rfl, List.prefix_append _ _⟩, id, ?_⟩
  by_cases hz : data.length = 0
  · simp [readBytes, List.length_eq_zero_iff.mp hz]
  · simp [readBytes, hz]

/-- `push_byte_array` allocates the struct. -/
theorem pushByteArray_builds (ba : RawByteArray) (st : NodeStorage) :
    st.Builds False (fun p st' => ∃ a, p = some a ∧ st'.byteArrays[a]? = some ba)
      (pushByteArray ba st) := by
  exact ⟨⟨List.prefix_rfl, List.prefix_rfl, List.prefix_rfl, List.prefix_rfl,
    List.prefix_append _ _, List.prefix_rfl⟩, id, _, rfl, Arena.read_allocated _ _⟩

end NodeStorage

/-! ### Reading lists -/

namespace Node

variable {st : NodeStorage} {fuel a : ℕ} {list : RawNodeList}

/-- Reading a string node. -/
theorem fromRawFuel_string (p : Ptr) : fromRawFuel st (fuel + 1) ⟨.string p, mpvFormatString⟩ =
    (st.readString p).map .string := rfl

/-- Reading a byte array node. -/
theorem fromRawFuel_byteArray (p : Ptr) :
    fromRawFuel st (fuel + 1) ⟨.ba p, mpvFormatByteArray⟩ = (do
      let ba ← st.byteArrays[← p]?
      (st.readBytes ba).map .byteArray) := rfl

/-- An array is read item by item. -/
theorem fromRawFuel_array {items : List Node} (hlist : st.lists[a]? = some list)
    (hnum : list.num.toNat = items.length)
    (hitems : ∀ i n, items[i]? = some n →
      ∃ v, st.readValue list.values i = some v ∧ fromRawFuel st fuel v = some n) :
    fromRawFuel st (fuel + 1) ⟨.list (some a), mpvFormatNodeArray⟩ =
      some (.array items) := by
  have hloop : ((List.range list.num.toNat).mapM fun i => do
      fromRawFuel st fuel (← st.readValue list.values i)) = some items := by
    rw [hnum]
    refine Arena.mapM_range fun i n hi => ?_
    obtain ⟨v, hv, hdec⟩ := hitems i n hi
    simp [hv, hdec]
  simp only [fromRawFuel, Option.bind_eq_bind, Option.bind_some, hlist] at hloop ⊢
  rw [hloop]
  rfl

/-- A map is read entry by entry. -/
theorem fromRawFuel_map {entries : List (String × Node)} (hlist : st.lists[a]? = some list)
    (hnum : list.num.toNat = entries.length)
    (hentries : ∀ i e, entries[i]? = some e → st.readKey list.keys i = some e.1 ∧
      ∃ v, st.readValue list.values i = some v ∧ fromRawFuel st fuel v = some e.2) :
    fromRawFuel st (fuel + 1) ⟨.list (some a), mpvFormatNodeMap⟩ =
      some (.map entries) := by
  have hloop : ((List.range list.num.toNat).mapM fun i => do
      let key ← st.readKey list.keys i
      let value ← fromRawFuel st fuel (← st.readValue list.values i)
      some (key, value)) = some entries := by
    rw [hnum]
    refine Arena.mapM_range fun i e hi => ?_
    obtain ⟨hkey, v, hv, hdec⟩ := hentries i e hi
    simp [hkey, hv, hdec]
  simp only [fromRawFuel, Option.bind_eq_bind, Option.bind_some, hlist] at hloop ⊢
  rw [hloop]
  rfl

/-- What was read as an array was read item by item. -/
theorem of_fromRawFuel_array {u : RawValue} {n : Node}
    (h : fromRawFuel st (fuel + 1) ⟨u, mpvFormatNodeArray⟩ = some n) :
    ∃ a list items, u = .list (some a) ∧ st.lists[a]? = some list ∧ n = .array items ∧
      items.length = list.num.toNat ∧ ∀ i m, items[i]? = some m →
        ∃ v, st.readValue list.values i = some v ∧ fromRawFuel st fuel v = some m := by
  cases u with
  | list p =>
      obtain ⟨a, rfl, ha⟩ := Option.bind_eq_some_iff.mp h
      obtain ⟨list, hlist, hl⟩ := Option.bind_eq_some_iff.mp ha
      obtain ⟨items, hitems, hn⟩ := Option.bind_eq_some_iff.mp hl
      obtain rfl := Option.some.inj hn
      obtain ⟨hlen, hread⟩ := Arena.read_of_mapM_range hitems
      exact ⟨a, list, items, rfl, hlist, rfl, hlen, fun i m hm =>
        Option.bind_eq_some_iff.mp (hread i m hm)⟩
  | string _ | flag _ | int64 _ | double _ | ba _ => cases h

/-- What was read as a map was read entry by entry. -/
theorem of_fromRawFuel_map {u : RawValue} {n : Node}
    (h : fromRawFuel st (fuel + 1) ⟨u, mpvFormatNodeMap⟩ = some n) :
    ∃ a list entries, u = .list (some a) ∧ st.lists[a]? = some list ∧ n = .map entries ∧
      entries.length = list.num.toNat ∧ ∀ i e, entries[i]? = some e →
        st.readKey list.keys i = some e.1 ∧
        ∃ v, st.readValue list.values i = some v ∧ fromRawFuel st fuel v = some e.2 := by
  cases u with
  | list p =>
      obtain ⟨a, rfl, ha⟩ := Option.bind_eq_some_iff.mp h
      obtain ⟨list, hlist, hl⟩ := Option.bind_eq_some_iff.mp ha
      obtain ⟨entries, hentries, hn⟩ := Option.bind_eq_some_iff.mp hl
      obtain rfl := Option.some.inj hn
      obtain ⟨hlen, hread⟩ := Arena.read_of_mapM_range hentries
      refine ⟨a, list, entries, rfl, hlist, rfl, hlen, fun i e he => ?_⟩
      obtain ⟨key, hkey, hk⟩ := Option.bind_eq_some_iff.mp (hread i e he)
      obtain ⟨v, hv, hm⟩ := Option.bind_eq_some_iff.mp hk
      obtain ⟨m, hdec, he'⟩ := Option.bind_eq_some_iff.mp hm
      obtain rfl := Option.some.inj he'
      exact ⟨hkey, v, hv, hdec⟩
  | string _ | flag _ | int64 _ | double _ | ba _ => cases h

end Node

/-! ### The round trip -/

namespace NodeStorage

open Node

/-- A length that fits is its own C count. -/
theorem toNat_asCInt {n : ℕ} (h : n ≤ 2 ^ 31 - 1) : (asCInt n).toNat = n := by
  rw [asCInt_of_lt (by omega)]
  simp

/-- In the storage `st'`, `raw` decodes to `n` within the nesting that was added to a
storage of `base` lists. -/
def Decodes (base : ℕ) (st' : NodeStorage) (raw : RawNode) (n : Node) : Prop :=
  fromRawFuel st' (st'.lists.length - base + 1) raw = some n

/-- What was decoded once is decoded in each extension, with the same bound or a larger one. -/
theorem Decodes.mono {base base' : ℕ} {st st' : NodeStorage} {raw : RawNode} {n : Node}
    (h : Decodes base' st raw n) (hext : st.Extends st') (hbase : base ≤ base') :
    Decodes base st' raw n := by
  have hlen := hext.lists.length_le
  exact fromRawFuel_mono hext (by omega) h

/-- What is to be shown of a relation `P base st raw n` for it to hold of the raw nodes that
`build` writes, where `st` is the storage it leaves and `base` the number of lists it found:
further pushes keep it (`mono`), it holds of the nodes without lists (`leaf`), and it passes
from the entries of a list to the list (`array`, `map`). -/
structure BuildInvariant (P : ℕ → NodeStorage → RawNode → Node → Prop) : Prop where
  mono {base base' : ℕ} {st st' : NodeStorage} {raw : RawNode} {n : Node} :
    st.Extends st' → base ≤ base' → P base' st raw n → P base st' raw n
  leaf (n : Node) (st : NodeStorage) : n.lengths = [] →
    st.Builds (ContainNul n.strings) (fun raw st' => P st.lists.length st' raw n) (build n st)
  array {base a : ℕ} {st st' : NodeStorage} {list : RawNodeList} {values : List RawNode}
      {items : List Node} :
    st.Extends st' → base ≤ st.lists.length → st'.lists.length = st.lists.length + 1 →
    st'.lists[a]? = some list → list.num = asCInt items.length →
    (∀ (i : ℕ) (v : RawNode), values[i]? = some v → st'.readValue list.values i = some v) →
    List.Forall₂ (P base st) values items →
    P base st' ⟨.list (some a), mpvFormatNodeArray⟩ (.array items)
  map {base a : ℕ} {st st' : NodeStorage} {list : RawNodeList} {values : List RawNode}
      {entries : List (String × Node)} :
    st.Extends st' → base ≤ st.lists.length → st'.lists.length = st.lists.length + 1 →
    st'.lists[a]? = some list → list.num = asCInt entries.length →
    (∀ (i : ℕ) (v : RawNode), values[i]? = some v → st'.readValue list.values i = some v) →
    (∀ (i : ℕ) (e : String × Node), entries[i]? = some e →
      st'.readKey list.keys i = some e.1) →
    List.Forall₂ (fun raw e => P base st raw e.2) values entries →
    P base st' ⟨.list (some a), mpvFormatNodeMap⟩ (.map entries)

namespace BuildInvariant

variable {P : ℕ → NodeStorage → RawNode → Node → Prop}

mutual

/-- **The rule for `build`**: an invariant holds of what it writes. -/
theorem build_node (h : BuildInvariant P) (n : Node) (st : NodeStorage) :
    st.Builds (ContainNul n.strings) (fun raw st' => P st.lists.length st' raw n)
      (build n st) := by
  cases n with
  | none | flag v | int64 v | double bits | string s | byteArray data => exact h.leaf _ st rfl
  | array items =>
      rw [build]
      refine (Builds.bind (h.build_items items st) fun values st₁ h₁ hitems =>
        Builds.bind (pushNodeArray_builds values st₁) fun p st₂ h₂ hvalues =>
        Builds.bind (pushList_builds _ st₂) fun q st₃ h₃ hlist => Builds.pure ?_).imp
        (by simp [Node.strings]) fun _ _ _ h => h
      obtain ⟨⟨a, rfl, ha⟩, hcount⟩ := hlist
      rw [hvalues.2] at hcount
      exact h.array (h₂.trans h₃) h₁.lists.length_le hcount ha (by simp only)
        (fun i v hv => readValue_mono h₃ (hvalues.1 i v hv)) hitems
  | map entries =>
      rw [build]
      refine (Builds.bind (h.build_entries entries st) fun kvs st₁ h₁ hentries =>
        Builds.bind (pushNodeArray_builds kvs.2 st₁) fun p st₂ h₂ hvalues =>
        Builds.bind (pushKeyArray_builds kvs.1 st₂) fun k st₃ h₃ hkeys =>
        Builds.bind (pushList_builds _ st₃) fun q st₄ h₄ hlist => Builds.pure ?_).imp
        (by simp [Node.strings]) fun _ _ _ h => h
      obtain ⟨⟨a, rfl, ha⟩, hcount⟩ := hlist
      rw [hkeys.2, hvalues.2] at hcount
      obtain ⟨hkey, hvalue⟩ := hentries
      refine h.map (h₂.trans (h₃.trans h₄)) h₁.lists.length_le hcount ha (by simp only)
        (fun i v hv => readValue_mono (h₃.trans h₄) (hvalues.1 i v hv)) (fun i e he => ?_) hvalue
      obtain ⟨key, hk, hs⟩ := Arena.read_of_forall₂ hkey he
      exact readKey_mono h₄ (hkeys.1 i key e.1 hk (readString_mono h₂ hs))

/-- An invariant of building holds of every item of an array. -/
theorem build_items (h : BuildInvariant P) (items : List Node) (st : NodeStorage) :
    st.Builds (ContainNul (itemStrings items))
      (fun values st' => List.Forall₂ (P st.lists.length st') values items)
      (buildItems items st) := by
  cases items with
  | nil =>
      rw [buildItems]
      exact (Builds.pure .nil).imp (by simp [itemStrings, ContainNul]) fun _ _ _ h => h
  | cons item items =>
      rw [buildItems]
      refine (Builds.bind (h.build_node item st) fun value st₁ h₁ hvalue =>
        Builds.bind (h.build_items items st₁) fun values st₂ h₂ hvalues =>
        Builds.pure ?_).imp (by simp [itemStrings, containNul_append]) fun _ _ _ h => h
      have hle := h₁.lists.length_le
      exact .cons (h.mono h₂ le_rfl hvalue)
        (hvalues.imp fun _ _ hraw => h.mono (Extends.refl st₂) hle hraw)

/-- An invariant of building holds of every value of a map, whose keys are stored. -/
theorem build_entries (h : BuildInvariant P) (entries : List (String × Node))
    (st : NodeStorage) :
    st.Builds (ContainNul (entryStrings entries))
      (fun kvs st' =>
        List.Forall₂ (fun p (e : String × Node) => st'.readString p = some e.1)
          kvs.1 entries ∧
        List.Forall₂ (fun raw (e : String × Node) => P st.lists.length st' raw e.2)
          kvs.2 entries) (buildEntries entries st) := by
  cases entries with
  | nil =>
      rw [buildEntries]
      exact (Builds.pure ⟨.nil, .nil⟩).imp (by simp [entryStrings, ContainNul])
        fun _ _ _ h => h
  | cons entry entries =>
      obtain ⟨key, value⟩ := entry
      rw [buildEntries]
      refine (Builds.bind (cstring_builds key st) fun p st₁ h₁ hp =>
        Builds.bind (h.build_node value st₁) fun raw st₂ h₂ hraw =>
        Builds.bind (h.build_entries entries st₂) fun kvs st₃ h₃ hkvs =>
        Builds.pure ?_).imp
        (by simp [entryStrings, containNul_cons, containNul_append]) fun _ _ _ h => h
      have hle₁ := h₁.lists.length_le
      have hle₂ := h₂.lists.length_le
      exact ⟨.cons (readString_mono (h₂.trans h₃) hp.1) hkvs.1,
        .cons (h.mono h₃ hle₁ hraw)
          (hkvs.2.imp fun _ _ hraw => h.mono (Extends.refl st₃) (hle₁.trans hle₂) hraw)⟩

end

end BuildInvariant

/-- A node without lists is built, and decodes to itself. -/
theorem build_leaf (n : Node) (st : NodeStorage) (h : n.lengths = []) :
    st.Builds (ContainNul n.strings) (fun raw st' => Decodes st.lists.length st' raw n)
      (build n st) := by
  cases n with
  | none | flag v | int64 v | double bits =>
      rw [build]
      refine (Builds.pure ?_).imp (by simp [Node.strings, ContainNul]) fun _ _ _ h => h
      try cases v
      all_goals rfl
  | string s =>
      rw [build]
      refine (Builds.bind (cstring_builds s st) fun p st₁ _ hp => Builds.pure ?_).imp
        (by simp [Node.strings, ContainNul]) fun _ _ _ h => h
      rw [Decodes, fromRawFuel_string, hp.1]
      rfl
  | byteArray data =>
      rw [build]
      refine (Builds.bind (pushBytes_builds data st) fun p st₁ h₁ hbytes =>
        Builds.bind (pushByteArray_builds _ st₁) fun q st₂ h₂ hba => Builds.pure ?_).imp
        (by simp [Node.strings, ContainNul]) fun _ _ _ h => h
      obtain ⟨a, rfl, ha⟩ := hba
      rw [Decodes, fromRawFuel_byteArray]
      simp [ha, readBytes_mono h₂ hbytes]
  | array items | map entries => simp [lengths] at h

/-- Where the lengths fit, what was built decodes. -/
theorem decodes_invariant :
    BuildInvariant fun base st raw n => Fit n.lengths → Decodes base st raw n where
  mono hext hbase h hfit := (h hfit).mono hext hbase
  leaf n st h := (build_leaf n st h).imp Iff.rfl fun _ _ _ hdec _ => hdec
  array {base a st st' list values items} hext hbase hcount ha hnum hvalues hitems hfit := by
    obtain ⟨hlen, hfits⟩ := fit_cons.mp hfit
    have hfuel : st'.lists.length - base = st.lists.length - base + 1 := by omega
    rw [Decodes, hfuel]
    refine fromRawFuel_array ha (by rw [hnum, toNat_asCInt hlen]) fun i n hn => ?_
    obtain ⟨v, hv, hdec⟩ := Arena.read_of_forall₂ hitems hn
    have hread := hdec (fit_itemLengths.mp hfits n (List.mem_of_getElem? hn))
    exact ⟨v, hvalues i v hv, fromRawFuel_mono hext le_rfl hread⟩
  map {base a st st' list values entries} hext hbase hcount ha hnum hvalues hkeys hentries
      hfit := by
    obtain ⟨hlen, hfits⟩ := fit_cons.mp hfit
    have hfuel : st'.lists.length - base = st.lists.length - base + 1 := by omega
    rw [Decodes, hfuel]
    refine fromRawFuel_map ha (by rw [hnum, toNat_asCInt hlen]) fun i e he => ⟨hkeys i e he, ?_⟩
    obtain ⟨v, hv, hdec⟩ := Arena.read_of_forall₂ hentries he
    have hread := hdec (fit_entryLengths.mp hfits e (List.mem_of_getElem? he))
    exact ⟨v, hvalues i v hv, fromRawFuel_mono hext le_rfl hread⟩

/-- **What `build` does.** -/
theorem build_spec (n : Node) (st : NodeStorage) :
    st.Builds (ContainNul n.strings)
      (fun raw st' => Fit n.lengths → Decodes st.lists.length st' raw n) (build n st) :=
  decodes_invariant.build_node n st

/-- Further builds only extend the storage. -/
theorem buildAll_extends (ns : List Node) (st : NodeStorage) : st.Extends (st.buildAll ns) := by
  induction ns generalizing st with
  | nil => exact Extends.refl st
  | cons n ns ih =>
      have hspec := build_spec n st
      rw [buildAll]
      cases hr : build n st with
      | ok raw st' | error e st' =>
          rw [hr] at hspec
          exact hspec.1.trans (ih st')

end NodeStorage

open Node NodeStorage in
/-- **The node round trip.** For a tree whose arrays and maps fit their C counts, built
into any storage: `build` fails exactly when a string or a key anywhere in the tree
contains a NUL, always with `InteriorNul`; and when it succeeds, reading the result back
gives the tree, also after any further sequence of builds into the same storage. -/
theorem node_round_trip (n : Node) (hn : Fit n.lengths) (st : NodeStorage) :
    ((∃ e st', build n st = .error e st') ↔ ContainNul n.strings) ∧
    (∀ e st', build n st = .error e st' → e = .interiorNul) ∧
    ∀ raw st', build n st = .ok raw st' →
      ∀ ns, fromRaw (st'.buildAll ns) raw = some n := by
  have hspec := build_spec n st
  refine ⟨⟨?_, fun hnul => ?_⟩, ?_, ?_⟩
  · rintro ⟨e, st', hr⟩
    rw [hr] at hspec
    exact hspec.2.2
  · cases hr : build n st with
    | ok raw st' =>
        rw [hr] at hspec
        exact absurd hnul hspec.2.1
    | error e st' => exact ⟨e, st', rfl⟩
  · intro e st' hr
    rw [hr] at hspec
    exact hspec.2.1
  · intro raw st' hr ns
    rw [hr] at hspec
    have hgrown := (buildAll_extends ns st').lists.length_le
    exact fromRawFuel_mono (buildAll_extends ns st') (by omega) (hspec.2.2 hn)

/-- A map with an empty array, an empty string and a repeated key is read back. -/
theorem node_round_trip_map : ∃ raw st',
    NodeStorage.build (.map [("k", .array []), ("k", .string ""), ("", .flag true)]) {} =
      .ok raw st' ∧ Node.fromRaw st' raw =
        some (.map [("k", .array []), ("k", .string ""), ("", .flag true)]) := by
  obtain ⟨hfail, -, hread⟩ := node_round_trip
    (.map [("k", .array []), ("k", .string ""), ("", .flag true)])
    (by simp [Node.Fit, Node.lengths, Node.entryLengths, Node.itemLengths]) {}
  cases hr : NodeStorage.build
      (.map [("k", .array []), ("k", .string ""), ("", .flag true)]) {} with
  | ok raw st' => exact ⟨raw, st', rfl, hread raw st' hr []⟩
  | error e st' =>
      refine absurd (hfail.mp ⟨e, st', hr⟩) ?_
      have hk : 0 ∉ Utf8.bytes "k" := by decide
      have hempty : 0 ∉ Utf8.bytes "" := by decide
      simp [Node.ContainNul, Node.strings, Node.entryStrings, Node.itemStrings, hk, hempty]

end Rsmpv
