import Rsmpv.Api.Contract
import Rsmpv.Command

/-!
# Calls Keep to Their Memory

Each part of a call is shown safe on its own, over the cells the thread owns: a function gives
back whatever it acquired (`Tidy`), on every path. A declaration that owns memory
(`withCString`, `withStorage`, `withArgs`) is tidy when the rest of its function is, over a heap
in which the pointer reads as what was declared; the rest needs to be shown for the values
without NUL only. What follows a call (`Finishes`) takes over the memory libmpv hands over,
and looks at it after a success alone.

## Conventions

`Tidy` is a judgement about a procedure over a heap, in the style of a triple: the heap
holds what the procedure may read, and at its end the heap is what it was. The rules follow
the shape of the functions. A declaration allocates, runs the rest of the function, and
drops (`tidy_withCString`, `tidy_withStorage`, `tidy_withArgs`); a call of libmpv comes next
(`tidy_call`); and what follows it is one of the few ends that the methods have
(`finishes_checked`, `finishes_resultNode`, `finishes_finishGet`,
`finishes_finishOsdString`). A method is tidy by putting these together, and none of the
rules is about a single method.
-/

namespace Rsmpv

open Node (ContainNul containNul_cons)
open NodeStorage (build build_spec fromRaw_of_build)
open Ownership (Heap Safe safe_alloc safe_read safe_free safe_scoped safe_ask)

/-- What has passed between a call and libmpv. -/
abbrev Exchanges := List (Request × Answer)

/-- `m` leaves the heap as it found it, and ends as `P` says. -/
def Tidy {α : Type} (m : Api α) (l : Exchanges) (h : Heap Cell)
    (P : α → Exchanges → Prop) : Prop :=
  Safe mpvInterface m l h fun a l' h' => h' = h ∧ P a l'

namespace Api

variable {α β : Type} {l : Exchanges} {h : Heap Cell} {P : α → Exchanges → Prop}

/-- Returning a value touches no memory. -/
theorem tidy_pure {a : α} (ha : P a l) : Tidy (pure a) l h P := ⟨rfl, ha⟩

/-! ### Memory the wrapper owns -/

/-- A cell that is allocated, and dropped after the rest of its function. -/
theorem tidy_scoped {c : Cell} (hc : Dealloc.drop.Releases c) {body : ℕ → Api α}
    (hbody : ∀ p, h p = none → Tidy (body p) l (h.add (.single p c)) P) :
    Tidy (do
      let p ← alloc c
      let r ← body p
      free .drop p
      pure r) l h P :=
  safe_scoped hc hbody

/-- The string of a `CString` that was allocated last is the text it was made from. -/
theorem readCString_single {p : ℕ} (hp : h p = none) {s : String} (hs : 0 ∉ Utf8.bytes s) :
    readCString (h.add (.single p (.cstring (Utf8.bytes s ++ [0])))) p =
      some (Utf8.bytes s) := by
  rw [readCString, Heap.add_of_none hp, Heap.single_self]
  exact Utf8.cstrBytes_terminated hs

/-- A string is refused for a NUL; otherwise its pointer reads as the string. -/
theorem tidy_withCString {s : String} {P : Except Error α → Exchanges → Prop}
    {body : ℕ → Api (Except Error α)}
    (hnul : 0 ∈ Utf8.bytes s → P (.error .interiorNul) l)
    (hbody : 0 ∉ Utf8.bytes s → ∀ p h', h.Sub h' → readCString h' p = some (Utf8.bytes s) →
      Tidy (body p) l h' P) :
    Tidy (withCString s body) l h P := by
  by_cases hs : 0 ∈ Utf8.bytes s
  · simp only [withCString, cstr, hs, if_true]
    exact tidy_pure (hnul hs)
  · simp only [withCString, cstr, hs, if_false]
    exact tidy_scoped (c := .cstring _) trivial fun p hp =>
      hbody hs p _ (Heap.sub_add _ _) (readCString_single hp hs)

/-- A node is refused for a NUL; otherwise libmpv reads it, cut to its wrapped lengths. -/
theorem tidy_withStorage {n : Node} {P : Except Error α → Exchanges → Prop}
    {body : RawNode → ℕ → Api (Except Error α)}
    (hnul : ContainNul n.strings → P (.error .interiorNul) l)
    (hbody : ¬ ContainNul n.strings → ∀ raw p h', h.Sub h' →
      readStored h' raw p = some n.wrapped → Tidy (body raw p) l h' P) :
    Tidy (withStorage n body) l h P := by
  have hspec := build_spec n {}
  rw [withStorage]
  cases hr : build n {} with
  | error e st =>
      rw [hr] at hspec
      obtain ⟨-, rfl, hcontains⟩ := hspec
      refine safe_alloc fun p hp => ?_
      have hcell : h.add (.single p (.storage st)) p = some (.storage st) := by
        rw [Heap.add_of_none hp, Heap.single_self]
      exact safe_free hcell trivial ⟨Heap.erase_add_single hp _, hnul hcontains⟩
  | ok raw st =>
      obtain ⟨hcontains, hread⟩ := fromRaw_of_build hr
      refine tidy_scoped (c := .storage st) trivial fun p hp =>
        hbody hcontains raw p _ (Heap.sub_add _ _) ?_
      rw [readStored, Heap.add_of_none hp, Heap.single_self]
      exact hread

/-! ### Arrays of strings -/

/-- The cell of a `CString`. -/
def stringCell (s : String) : Cell := .cstring (Utf8.bytes s ++ [0])

/-- `owned` are the addresses of the strings `args`, in cells that `h` does not have. -/
structure Owned (h : Heap Cell) (owned : List ℕ) (args : List String) : Prop where
  length : owned.length = args.length
  nodup : owned.Nodup
  fresh : ∀ p ∈ owned, h p = none

/-- The heap with the strings. -/
def withStrings (h : Heap Cell) (owned : List ℕ) (args : List String) : Heap Cell :=
  h.add (.ofList (owned.zip (args.map stringCell)))

/-- The cells that an argument list owns are at its addresses. -/
theorem Owned.map_fst {owned : List ℕ} {args : List String} (ho : Owned h owned args) :
    (owned.zip (args.map stringCell)).map Prod.fst = owned :=
  List.map_fst_zip (by rw [List.length_map, ho.length])

/-- The first string has a cell, and without it there are the others. -/
theorem Owned.cons {owned : List ℕ} {args : List String} {p : ℕ} {s : String}
    (ho : Owned h (p :: owned) (s :: args)) :
    withStrings h (p :: owned) (s :: args) p = some (stringCell s) ∧
      (withStrings h (p :: owned) (s :: args)).erase p = withStrings h owned args ∧
      Owned h owned args := by
  obtain ⟨hp, hnodup⟩ := List.nodup_cons.mp ho.nodup
  have hn := ho.fresh p List.mem_cons_self
  have hrest : Owned h owned args := ⟨Nat.succ.inj ho.length, hnodup,
    fun q hq => ho.fresh q (List.mem_cons_of_mem p hq)⟩
  refine ⟨?_, ?_, hrest⟩
  · rw [withStrings, Heap.add_of_none hn]
    simp [Heap.ofList]
  · rw [← hrest.map_fst] at hp
    exact Heap.erase_add_ofList hn hp

/-- Dropping the strings leaves the heap without them. -/
theorem safe_dropAll {owned : List ℕ} {args : List String} (ho : Owned h owned args) :
    Safe mpvInterface (dropAll owned) l (withStrings h owned args)
      fun _ l' h' => h' = h ∧ l' = l := by
  induction owned generalizing args with
  | nil => exact ⟨Heap.add_empty h, rfl⟩
  | cons p owned ih =>
      cases args with
      | nil => cases ho.length
      | cons s args =>
          obtain ⟨hcell, herase, hrest⟩ := ho.cons
          refine safe_free hcell trivial ?_
          rw [herase]
          exact ih hrest

/-- The pointers read as the strings. -/
theorem readPtrs_owned {owned : List ℕ} {args : List String} (ho : Owned h owned args)
    (hargs : ¬ ContainNul args) :
    readPtrs (withStrings h owned args) (owned.map some ++ [none]) =
      some (args.map Utf8.bytes) := by
  induction owned generalizing args with
  | nil =>
      obtain rfl := List.length_eq_zero_iff.mp ho.length.symm
      rfl
  | cons p owned ih =>
      cases args with
      | nil => cases ho.length
      | cons s args =>
          obtain ⟨hs, hnul⟩ := not_or.mp (mt containNul_cons.mpr hargs)
          obtain ⟨hcell, herase, hrest⟩ := ho.cons
          have hread : readCString (withStrings h (p :: owned) (s :: args)) p =
              some (Utf8.bytes s) := by
            rw [readCString, hcell]
            exact Utf8.cstrBytes_terminated hs
          have htail := ih hrest hnul
          rw [← herase] at htail
          simp [readPtrs, hread, readPtrs_mono (Heap.erase_sub _ p) htail]

/-- One more string. -/
theorem Owned.snoc {owned : List ℕ} {args : List String} (ho : Owned h owned args) {p : ℕ}
    (hp : withStrings h owned args p = none) (s : String) :
    Owned h (owned ++ [p]) (args ++ [s]) ∧
      (withStrings h owned args).add (.single p (stringCell s)) =
        withStrings h (owned ++ [p]) (args ++ [s]) := by
  have hn : h p = none := by
    cases hc : h p with
    | none => rfl
    | some c =>
        rw [withStrings, Heap.add_of_some hc] at hp
        cases hp
  rw [withStrings, Heap.add_of_none hn, Heap.ofList_eq_none, ho.map_fst] at hp
  refine ⟨⟨?_, ?_, ?_⟩, ?_⟩
  · simp [ho.length]
  · refine List.nodup_append.mpr ⟨ho.nodup, List.nodup_singleton p, fun q hq r hr hqr => hp ?_⟩
    rw [← List.mem_singleton.mp hr, ← hqr]
    exact hq
  · intro q hq
    obtain hq | hq := List.mem_append.mp hq
    · exact ho.fresh q hq
    · rw [List.mem_singleton.mp hq]
      exact hn
  · rw [withStrings, withStrings, List.map_append, List.map_singleton,
      List.zip_append (by rw [List.length_map, ho.length]), List.zip_cons_cons, List.zip_nil_left,
      Heap.ofList_snoc]
    funext q
    simp only [Heap.add, Option.or_assoc]

/-- `cstr_args` drops what it has if a string has a NUL, and otherwise owns them all. -/
theorem safe_collect {owned : List ℕ} {args rest : List String} (ho : Owned h owned args) :
    Safe mpvInterface (collect owned rest) l (withStrings h owned args) fun r l' h' => l' = l ∧
      ((ContainNul rest ∧ r = .error .interiorNul ∧ h' = h) ∨
        (¬ ContainNul rest ∧ ∃ owned', r = .ok owned' ∧ Owned h owned' (args ++ rest) ∧
          h' = withStrings h owned' (args ++ rest))) := by
  induction rest generalizing owned args with
  | nil =>
      refine ⟨rfl, .inr ⟨by simp [ContainNul], owned, rfl, ?_⟩⟩
      rw [List.append_nil]
      exact ⟨ho, rfl⟩
  | cons s rest ih =>
      by_cases hs : 0 ∈ Utf8.bytes s
      · simp only [collect, cstr, hs, if_true]
        refine Safe.bind (safe_dropAll ho) fun _ l' h' hend => ?_
        obtain ⟨rfl, rfl⟩ := hend
        exact ⟨rfl, .inl ⟨containNul_cons.mpr (.inl hs), rfl, rfl⟩⟩
      · simp only [collect, cstr, hs, if_false]
        refine safe_alloc fun p hp => ?_
        obtain ⟨ho', hheap⟩ := ho.snoc hp s
        rw [show Cell.cstring (Utf8.bytes s ++ [0]) = stringCell s from rfl, hheap]
        refine (ih ho').mono fun r l' h' hend => ?_
        simpa [containNul_cons, hs] using hend

/-- An `argv` is refused for a NUL; otherwise it reads as its strings. -/
theorem tidy_withArgs {args : List String} {P : Except Error α → Exchanges → Prop}
    {body : ℕ → Api (Except Error α)}
    (hnul : ContainNul args → P (.error .interiorNul) l)
    (hbody : ¬ ContainNul args → ∀ p h', h.Sub h' →
      readArgs h' p = some (args.map Utf8.bytes) → Tidy (body p) l h' P) :
    Tidy (withArgs args body) l h P := by
  have hcollect := @safe_collect l h [] [] args ⟨rfl, .nil, by simp⟩
  simp only [show withStrings h [] [] = h from Heap.add_empty h, List.nil_append] at hcollect
  refine Safe.bind hcollect fun r l' h' hend => ?_
  obtain ⟨rfl, ⟨hcontains, rfl, rfl⟩ | ⟨hcontains, owned, rfl, ho, rfl⟩⟩ := hend
  · exact tidy_pure (hnul hcontains)
  · refine safe_alloc fun p hp => ?_
    have hargv : (withStrings h owned args).add
        (.single p (.argv (owned.map some ++ [none]))) p =
        some (.argv (owned.map some ++ [none])) := by
      rw [Heap.add_of_none hp, Heap.single_self]
    have hsub := Heap.sub_add (withStrings h owned args)
      (.single p (.argv (owned.map some ++ [none])))
    have hread : readArgs ((withStrings h owned args).add
        (.single p (.argv (owned.map some ++ [none])))) p = some (args.map Utf8.bytes) := by
      rw [readArgs, hargv]
      exact readPtrs_mono hsub (readPtrs_owned ho hcontains)
    refine Safe.bind (hbody hcontains p _
      (fun q c hc => hsub q c (Heap.sub_add _ _ q c hc)) hread) fun r l' h' hr => ?_
    obtain ⟨rfl, hr⟩ := hr
    refine safe_free hargv trivial ?_
    rw [Heap.erase_add_single hp]
    refine Safe.bind (safe_dropAll ho) fun _ l'' h'' hend => ?_
    obtain ⟨rfl, rfl⟩ := hend
    exact tidy_pure hr

end Api

/-! ### What follows a call -/

/-- A function that writes nothing says no more than its status. -/
theorem Answers.out_eq_nothing {fn : MpvFn} {a : Answer} (hfn : fn.writesNothing = true)
    (ha : Answers fn a) : a.out = .nothing := by
  cases ha with
  | failed | status => rfl
  | _ => cases hfn

/-- What a failed call writes is nothing to be relied on. -/
theorem Answers.out_of_neg {fn : MpvFn} {a : Answer} (hfn : fn ≠ .getPropertyOsdString)
    (ha : Answers fn a) (hneg : a.code < 0) : a.out = .nothing := by
  cases ha with
  | failed | status => rfl
  | osdString | osdNull => exact absurd rfl hfn
  | flag _ h | int64 _ h | double _ h | string _ h | node _ h | commandRet _ h | commandNode _ h =>
      exact absurd hneg (Int.not_lt.mpr h)

/-- The status of a reply is the one of the answer. -/
theorem Conveys.code_eq {code : CInt} {out : Handed} {r : Reply} {δ : Heap Cell}
    (h : Conveys code out r δ) : r.code = code := by
  cases h <;> rfl

/-- An answer that hands nothing over allocates nothing. -/
theorem Conveys.of_nothing {code : CInt} {r : Reply} {δ : Heap Cell}
    (h : Conveys code .nothing r δ) : δ = .empty := by
  cases h
  rfl

namespace Api

variable {α : Type} {l : Exchanges} {h : Heap Cell} {P : α → Exchanges → Prop}

/-- `finish` takes the memory libmpv hands over with an answer of `fn`, gives it back, and
returns what `post` says of the answer. -/
def Finishes (fn : MpvFn) (finish : Reply → Api α) (post : Answer → α → Prop) : Prop :=
  ∀ (a : Answer) (r : Reply) (δ h : Heap Cell) (l : Exchanges), Answers fn a →
    Conveys a.code a.out r δ → h.Apart δ →
    Safe mpvInterface (finish r) l (h.add δ) fun x l' h' => h' = h ∧ l' = l ∧ post a x

/-- A call and what follows it, where libmpv can read what it is passed. -/
theorem tidy_call {fn : MpvFn} {finish : Reply → Api α} {post : Answer → α → Prop}
    (hfinish : Finishes fn finish post) {handle : ℕ} {args : MpvArgs} {input : Input}
    (hview : args.view h = some input)
    (hP : ∀ a x, Answers fn a → post a x → P x (l ++ [(⟨handle, fn, input⟩, a)])) :
    Tidy (do
      let reply ← call handle fn args
      finish reply) l h P := by
  have hread : mpvInterface.view h ⟨handle, fn, args⟩ = some ⟨handle, fn, input⟩ := by
    simp [mpvInterface, MpvCall.view, hview]
  refine safe_ask hread fun a r δ hallowed hconveys happart => ?_
  refine (hfinish a r δ h _ hallowed hconveys happart).mono fun x l' h' hend => ?_
  obtain ⟨rfl, rfl, hpost⟩ := hend
  exact ⟨rfl, hP a x hallowed hpost⟩

/-- The result of a call that can fail: the error of a negative status, or what the answer
`means`. -/
inductive Reports (means : Answer → α → Prop) (a : Answer) : Except Error α → Prop
  | failed : a.code < 0 → Reports means a (.error (.fromRaw a.code))
  | ok {v : α} : 0 ≤ a.code → means a v → Reports means a (.ok v)

/-- A cell that libmpv hands over is read and given back. -/
theorem safe_take {m : Api α} {k : Dealloc} {c : Cell} {p : ℕ} {x : α}
    (hm : ∀ H : Heap Cell, H p = some c → Safe mpvInterface m l H
      fun v l' h' => h' = H ∧ l' = l ∧ v = x)
    (hk : k.Releases c) (happart : h.Apart (.single p c)) :
    Safe mpvInterface (do
      let v ← m
      free k p
      pure (Except.ok v : Except Error α)) l (h.add (.single p c))
      fun r l' h' => h' = h ∧ l' = l ∧ r = .ok x := by
  have hcell := Heap.add_of_apart happart (Heap.single_self p c)
  refine Safe.bind (hm _ hcell) fun v l' h' hend => ?_
  obtain ⟨rfl, rfl, rfl⟩ := hend
  exact safe_free hcell hk ⟨Heap.erase_add_single happart.eq_none c, rfl, rfl⟩

/-- Reading a string of libmpv's that is there. -/
theorem safe_readText {mem bytes : List UInt8} (hbytes : Utf8.cstrBytes mem = some bytes) {p : ℕ}
    (hp : h p = some (.text mem)) :
    Safe mpvInterface (readText (some p)) l h fun s l' h' =>
      h' = h ∧ l' = l ∧ s = Utf8.fromUtf8Lossy bytes := by
  refine safe_read hp ?_
  simp only [hbytes]
  exact ⟨rfl, rfl, rfl⟩

/-- Reading a node of libmpv's that is there. -/
theorem safe_readNode {mem : NodeStorage} {raw : RawNode} {n : Node}
    (hn : Node.fromRaw mem raw = some n) {p : ℕ} (hp : h p = some (.contents mem)) :
    Safe mpvInterface (readNode raw (some p)) l h fun m l' h' => h' = h ∧ l' = l ∧ m = n := by
  refine safe_read hp ?_
  simp only [hn]
  exact ⟨rfl, rfl, rfl⟩

/-! ### The functions that follow a call -/

/-- `check(code).map(..)`, after a function that writes nothing. -/
theorem finishes_map {fn : MpvFn} (hfn : fn.writesNothing = true) (f : CInt → α) :
    Finishes fn (fun reply => pure ((check reply.code).map f))
      (Reports fun a v => v = f a.code) := by
  intro a r δ h l hallowed hconveys _
  rw [hallowed.out_eq_nothing hfn] at hconveys
  simp only [hconveys.of_nothing, hconveys.code_eq, Heap.add_empty]
  refine ⟨rfl, rfl, ?_⟩
  by_cases hok : 0 ≤ a.code
  · rw [check_of_nonneg hok]
    exact .ok hok rfl
  · have hneg := Int.not_le.mp hok
    rw [check_of_neg hneg]
    exact .failed hneg

/-- `check(code)?`, and then what is done after a success. -/
theorem finishes_checked {fn : MpvFn} (hfn : fn ≠ .getPropertyOsdString)
    {rest : Out → Api (Except Error α)} {means : Answer → α → Prop}
    (hrest : ∀ (a : Answer) (r : Reply) (δ h : Heap Cell) (l : Exchanges), Answers fn a →
      0 ≤ a.code → Conveys a.code a.out r δ → h.Apart δ →
      Safe mpvInterface (rest r.out) l (h.add δ)
        fun x l' h' => h' = h ∧ l' = l ∧ ∃ v, means a v ∧ x = .ok v) :
    Finishes fn (fun reply => checked reply (rest reply.out)) (Reports means) := by
  intro a r δ h l hallowed hconveys happart
  simp only [checked, hconveys.code_eq]
  by_cases hok : 0 ≤ a.code
  · simp only [check_of_nonneg hok]
    refine (hrest a r δ h l hallowed hok hconveys happart).mono fun x l' h' hend => ?_
    obtain ⟨rfl, rfl, v, hv, rfl⟩ := hend
    exact ⟨rfl, rfl, .ok hok hv⟩
  · have hneg := Int.not_le.mp hok
    rw [hallowed.out_of_neg hfn hneg] at hconveys
    simp only [check_of_neg hneg, hconveys.of_nothing, Heap.add_empty]
    exact ⟨rfl, rfl, .failed hneg⟩

/-- A node that was written is read, and its contents are given back. -/
theorem safe_takeNode {code : CInt} {n : Node} {r : Reply} {δ : Heap Cell}
    (hconveys : Conveys code (.value (.node n)) r δ) (happart : h.Apart δ) :
    Safe mpvInterface (takeNode r.out) l (h.add δ)
      fun x l' h' => h' = h ∧ l' = l ∧ x = .ok n := by
  cases hconveys with
  | node p hread =>
      exact safe_take (fun H hp => safe_readNode hread hp) (k := .mpvFreeNodeContents) trivial
        happart
  | plain hread =>
      simp only [takeNode, readNode, hread, Heap.add_empty]
      exact ⟨rfl, rfl, rfl⟩

/-- What `command_ret` and `command_node` read. -/
def NodeMeans (a : Answer) (n : Node) : Prop := a.out = .value (.node n)

/-- The end of `command_ret` and `command_node`: decode the result, then free what libmpv put in it.
-/
theorem finishes_resultNode {fn : MpvFn} (hfn : fn = .commandRet ∨ fn = .commandNode) :
    Finishes fn resultNode (Reports NodeMeans) := by
  refine finishes_checked (by obtain rfl | rfl := hfn <;> simp) ?_
  intro a r δ h l hallowed hok hconveys happart
  obtain ⟨n, hn⟩ : ∃ n, a.out = .value (.node n) := by
    cases hallowed with
    | commandRet n | commandNode n => exact ⟨n, rfl⟩
    | failed _ hneg => exact absurd hneg (Int.not_lt.mpr hok)
    | status hw => obtain rfl | rfl := hfn <;> cases hw
    | _ => obtain hfn | hfn := hfn <;> cases hfn
  rw [hn] at hconveys
  refine (safe_takeNode hconveys happart).mono fun x l' h' hend => ?_
  obtain ⟨rfl, rfl, rfl⟩ := hend
  exact ⟨rfl, rfl, n, hn, rfl⟩

end Api

/-- What a value of the type says of what was written. -/
def GetProperty.Means : (ty : GetProperty) → Handed → ty.Value → Prop
  | .bool, .value (.flag v), b => b = (v != 0)
  | .i64, .value (.int64 v), x => x = v
  | .f64, .value (.double bits), x => x = bits
  | .string, .value (.text bytes), s => s = Utf8.fromUtf8Lossy bytes
  | .node, .value (.node n), m => m = n
  | _, _, _ => False

namespace Api

/-- What is written after a success is of the type that was asked for. -/
theorem safe_takeOut (ty : GetProperty) {a : Answer} {r : Reply} {δ : Heap Cell}
    (hallowed : Answers (.getProperty ty.rawFormat) a) (hok : 0 ≤ a.code)
    (hconveys : Conveys a.code a.out r δ) (happart : h.Apart δ) :
    Safe mpvInterface (takeOut ty r.out) l (h.add δ)
      fun x l' h' => h' = h ∧ l' = l ∧ ∃ v, ty.Means a.out v ∧ x = .ok v := by
  generalize hfn : MpvFn.getProperty ty.rawFormat = fn at hallowed
  cases hallowed with
  | failed _ hneg => exact absurd hneg (Int.not_lt.mpr hok)
  | status hw => rw [← hfn] at hw; cases hw
  | osdString | osdNull | commandRet | commandNode => cases hfn
  | flag v =>
      cases ty with
      | bool =>
          cases hconveys
          rw [Heap.add_empty]
          exact ⟨rfl, rfl, _, rfl, rfl⟩
      | _ => cases hfn
  | int64 v =>
      cases ty with
      | i64 =>
          cases hconveys
          rw [Heap.add_empty]
          exact ⟨rfl, rfl, _, rfl, rfl⟩
      | _ => cases hfn
  | double bits =>
      cases ty with
      | f64 =>
          cases hconveys
          rw [Heap.add_empty]
          exact ⟨rfl, rfl, _, rfl, rfl⟩
      | _ => cases hfn
  | string bytes =>
      cases ty with
      | string =>
          cases hconveys with
          | text p hbytes =>
              refine (safe_take (fun H hp => safe_readText hbytes hp) (k := .mpvFree) trivial
                happart).mono fun x l' h' hend => ?_
              obtain ⟨rfl, rfl, rfl⟩ := hend
              exact ⟨rfl, rfl, _, rfl, rfl⟩
      | _ => cases hfn
  | node n =>
      cases ty with
      | node =>
          refine (safe_takeNode hconveys happart).mono fun x l' h' hend => ?_
          obtain ⟨rfl, rfl, rfl⟩ := hend
          exact ⟨rfl, rfl, _, rfl, rfl⟩
      | _ => cases hfn

/-- The end of `get_property`, for each type of property. -/
theorem finishes_finishGet (ty : GetProperty) :
    Finishes (.getProperty ty.rawFormat) (finishGet ty) (Reports fun a v => ty.Means a.out v) :=
  finishes_checked (by simp) fun _ _ _ _ _ hallowed hok hconveys happart =>
    safe_takeOut ty hallowed hok hconveys happart

/-- What `get_property_osd_string` returns: an error of its own for a null pointer. -/
inductive OsdReports (a : Answer) : Except Error String → Prop
  | null : a.out = .null → OsdReports a (.error .propertyError)
  | text {bytes : List UInt8} : a.out = .value (.text bytes) →
      OsdReports a (.ok (Utf8.fromUtf8Lossy bytes))

/-- The end of `get_property_osd_string`: copy the string, then free it. -/
theorem finishes_finishOsdString :
    Finishes .getPropertyOsdString finishOsdString OsdReports := by
  intro a r δ h l hallowed hconveys happart
  cases hallowed with
  | failed hne => exact absurd rfl hne
  | status hw => cases hw
  | osdNull =>
      cases hconveys
      rw [Heap.add_empty]
      exact ⟨rfl, rfl, .null rfl⟩
  | osdString code bytes =>
      cases hconveys with
      | text p hbytes =>
          refine (safe_take (fun H hp => safe_readText hbytes hp) (k := .mpvFree) trivial
            happart).mono fun x l' h' hend => ?_
          obtain ⟨rfl, rfl, rfl⟩ := hend
          exact ⟨rfl, rfl, .text rfl⟩

end Api

end Rsmpv
