import Rsmpv.Stream.IoStream
import Rsmpv.Stream.Sessions

/-!
# Streams as Files

An `IoStream` over a lawful reader, seen through the trampolines, is a read-only file: data
with one position (`streamFile`). A read returns some bytes from the position on, at least
one unless it asks for none or the position is at the end or past it; a seek sets the
position; and measuring leaves it where it was, though it is moved to the end and back
underneath (`ReadSeek.Lawful.size`).

Each callback is a step of the file (`fileStep_of_lawful`), so any sequence of callbacks is a
run of it, and a file that is read in chunks until a read returns nothing delivers the rest
of its data (`Delivered.of_run`).

## Main results

* `ReadSeek.Lawful.size`: measuring returns the length of the data and moves the position
  back.
* `fileStep_of_lawful`: each callback is a step of the file, and leaves nothing to drop.
* `runCallbacks_file`: any callbacks return, and are a run of the file.
* `Delivered.step`, `Delivered.of_run`: what is read in chunks is the data, piece by piece.
* `io_stream_is_file`: the refinement and the delivery together.
* `cursor_lawful`: a cursor over bytes is such a reader.
-/

namespace Rsmpv

open Unwind StreamWorld

/-! ### The file -/

/-- One callback on a file with data `d`, from one position to the next. -/
inductive FileStep (d : List UInt8) (k : Cookie) :
    ℕ → StreamCallback × CallbackResult → ℕ → Prop
  /-- A read returns the `n` bytes at the position. -/
  | read {p n : ℕ} {buf buf' : ℕ → UInt8} {nbytes : UInt64} :
      n ≤ nbytes.toNat → n ≤ d.length - p → (n = 0 ↔ nbytes = 0 ∨ d.length ≤ p) →
      (∀ i < n, d[p + i]? = some (buf' i)) → (∀ i, nbytes.toNat ≤ i → buf' i = buf i) →
      FileStep d k p (.read k buf nbytes, .read (Int64.ofNat n) buf') (p + n)
  /-- A seek sets the position. -/
  | seek {p : ℕ} {offset : Int64} :
      0 ≤ offset.toInt →
      FileStep d k p (.seek k offset, .position offset) offset.toInt.toNat
  /-- A seek to a negative position is refused. -/
  | refused {p : ℕ} {offset : Int64} :
      offset.toInt < 0 →
      FileStep d k p (.seek k offset, .position (Int64.ofInt mpvErrorGeneric)) p
  /-- The file is measured. -/
  | size {p : ℕ} : FileStep d k p (.size k, .position (Int64.ofNat d.length)) p

/-- A file with data `d`, open at some position. -/
def streamFile (d : List UInt8) (k : Cookie) :
    Lts ℕ (StreamCallback × CallbackResult) where
  init _ := True
  step := FileStep d k

/-! ### Lawful readers -/

/-- A reader over the bytes `d` whose calls succeed, where `pos` is its position. A read may be
short, but is only empty when it asks for nothing or the position is at the end or past it.
Seeking to an offset succeeds at least for those a callback can ask for and for positions the
reader has been at. -/
structure ReadSeek.Lawful {P E R : Type} (r : ReadSeek P E R) (d : List UInt8)
    (pos : R → UInt64) : Prop where
  read : ∀ s len buf, ∃ n, (r.read s len buf).1 = .ok (.ok n) ∧ n ≤ len ∧
    n ≤ d.length - (pos s).toNat ∧ (n = 0 ↔ len = 0 ∨ d.length ≤ (pos s).toNat) ∧
    (∀ i (h : i < len), i < n →
      d[(pos s).toNat + i]? = some ((r.read s len buf).2.1 ⟨i, h⟩)) ∧
    (pos (r.read s len buf).2.2).toNat = (pos s).toNat + n
  seekStart : ∀ s n, (n.toNat < 2 ^ 63 ∨ ∃ s', n = pos s') →
    (r.seek s (.start n)).1 = .ok (.ok n) ∧ pos (r.seek s (.start n)).2 = n
  seekEnd : ∀ s, (r.seek s (.end 0)).1 = .ok (.ok (UInt64.ofNat d.length)) ∧
    pos (r.seek s (.end 0)).2 = UInt64.ofNat d.length
  streamPosition : ∀ s, (r.streamPosition s).1 = .ok (.ok (pos s)) ∧
    pos (r.streamPosition s).2 = pos s

/-- The callbacks on an open file. -/
def StreamCallback.IsFileOp (k : Cookie) (cb : StreamCallback) : Prop :=
  cb.cookie = some k ∧ cb ≠ .close k

section Lawful

variable {P E O R : Type} {r : ReadSeek P E R} {d : List UInt8} {pos : R → UInt64}
  {u : UserCode P E O R} {t : Target} {k : Cookie} {s : R}

/-- Measuring returns the length of the data, and the position is back where it was. -/
theorem ReadSeek.Lawful.size (hr : r.Lawful d pos) (dropError : E → Option P) (s : R) :
    (IoStream.size r dropError s).1 = .ok (some (UInt64.ofNat d.length)) ∧
      pos (IoStream.size r dropError s).2 = pos s := by
  obtain ⟨hpos, hpos'⟩ := hr.streamPosition s
  obtain ⟨hend, -⟩ := hr.seekEnd (r.streamPosition s).2
  obtain ⟨hback, hback'⟩ := hr.seekStart (r.seek (r.streamPosition s).2 (.end 0)).2 (pos s)
    (.inr ⟨s, rfl⟩)
  rw [IoStream.size, orReturn_ok hpos, orReturn_ok hend, orReturn_ok hback]
  exact ⟨rfl, hback'⟩

/-- A read is given an empty slice only if it asks for nothing. -/
theorem Target.sliceLen_eq_zero_iff (t : Target) (nbytes : UInt64) :
    t.sliceLen nbytes = 0 ↔ nbytes = 0 := by
  have hmax : 0 < t.isizeMax := by cases t <;> decide
  have hzero : nbytes.toNat = 0 ↔ nbytes = 0 := by
    rw [← UInt64.toNat_inj]
    rfl
  rw [t.sliceLen_eq, ← hzero]
  omega

/-- An offset that is not negative is its own `u64`. -/
theorem toNat_ofNat_toInt {offset : Int64} (h : 0 ≤ offset.toInt) :
    (UInt64.ofNat offset.toInt.toNat).toNat = offset.toInt.toNat ∧
      offset.toInt.toNat < 2 ^ 63 := by
  have hlt := offset.toInt_lt
  have hnat : offset.toInt.toNat < 2 ^ 63 := by omega
  refine ⟨?_, hnat⟩
  rw [UInt64.toNat_ofNat', Nat.mod_eq_of_lt]
  omega

/-- A number that fits is handed on as it is. -/
theorem i64TryFrom_getD_of_lt {n : UInt64} (h : n.toNat < 2 ^ 63) (e : Int64) :
    (i64TryFrom n).getD e = Int64.ofNat n.toNat := by
  rw [i64TryFrom, if_pos h, Option.getD_some]

/-- **Each callback is a step of the file**, and leaves nothing to drop. -/
theorem fileStep_of_lawful (hr : r.Lawful d pos) (hd : d.length < 2 ^ 63)
    {cb : StreamCallback} (hcb : cb.IsFileOp k) :
    FileStep d k (pos s).toNat (cb, (u.withIoStream r).reply t s cb)
        (pos ((u.withIoStream r).advance t s cb)).toNat ∧
      (u.withIoStream r).leftBy t s cb = none := by
  obtain ⟨hk, hc⟩ := hcb
  cases cb with
  | openStream uri info => cases hk
  | close k' => exact absurd (Option.some.inj hk ▸ rfl) hc
  | read k' buf nbytes =>
      obtain rfl : k' = k := Option.some.inj hk
      obtain ⟨n, hn, hlen, hrest, hzero, hbytes, hpos⟩ :=
        hr.read s (t.sliceLen nbytes) fun i => buf i
      refine ⟨?_, by simp [UserCode.leftBy, UserCode.withIoStream, IoStream.read, hn,
        UserCode.leftover]⟩
      have hle := t.sliceLen_le nbytes
      have hstep : FileStep d k' (pos s).toNat (.read k' buf nbytes, .read (Int64.ofNat n)
          (overwrite buf (r.read s (t.sliceLen nbytes) fun i => buf i).2.1))
          ((pos s).toNat + n) := by
        refine .read (hlen.trans hle) hrest ?_ (fun i hi => ?_) fun i hi => ?_
        · rw [hzero, t.sliceLen_eq_zero_iff]
        · rw [hbytes i (by omega) hi, overwrite, dif_pos (by omega)]
        · rw [overwrite, dif_neg (by omega)]
      have hcount : readResult (t.sliceLen nbytes)
          (r.read s (t.sliceLen nbytes) fun i => buf i).1 = Int64.ofNat n := by
        rw [hn, readResult, min_eq_left hlen]
      rw [← hpos, ← hcount] at hstep
      exact hstep
  | seek k' offset =>
      obtain rfl : k' = k := Option.some.inj hk
      by_cases hneg : offset.toInt < 0
      · have ho := u64TryFrom_of_neg hneg
        simp only [UserCode.reply, UserCode.advance, UserCode.leftBy, ho]
        exact ⟨.refused hneg, rfl⟩
      · have hnonneg : 0 ≤ offset.toInt := Int.not_lt.mp hneg
        have ho := u64TryFrom_of_nonneg hnonneg
        obtain ⟨hoff, hlt⟩ := toNat_ofNat_toInt hnonneg
        have hlt' : (UInt64.ofNat offset.toInt.toNat).toNat < 2 ^ 63 := by rw [hoff]; exact hlt
        obtain ⟨hseek, hpos⟩ := hr.seekStart s _ (.inl hlt')
        have hresult : seekResult (r.seek s (.start (UInt64.ofNat offset.toInt.toNat))).1 =
            offset := by
          rw [hseek, seekResult, i64TryFrom_getD_of_lt hlt', hoff]
          exact Int64.toInt_inj.mp (by rw [Int64.toInt_ofNat_of_lt hlt]; omega)
        simp only [UserCode.reply, UserCode.advance, UserCode.leftBy, ho, Option.bind_some,
          UserCode.withIoStream, IoStream.seek]
        rw [hpos, hoff, hresult, hseek]
        exact ⟨.seek hnonneg, rfl⟩
  | size k' =>
      obtain rfl : k' = k := Option.some.inj hk
      obtain ⟨hsize, hpos⟩ := hr.size u.dropError s
      have hlen : (UInt64.ofNat d.length).toNat = d.length := by
        rw [UInt64.toNat_ofNat', Nat.mod_eq_of_lt (by omega)]
      have hresult : sizeResult (IoStream.size r u.dropError s).1 = Int64.ofNat d.length := by
        rw [hsize, sizeResult, i64TryFrom_getD_of_lt (by rw [hlen]; exact hd), hlen]
      simp only [UserCode.reply, UserCode.advance, UserCode.leftBy, UserCode.withIoStream]
      rw [hpos, hresult, hsize]
      exact ⟨.size, rfl⟩

end Lawful

/-! ### Sequences of callbacks -/

/-- The callbacks `cbs` one after another, with what each returned. -/
def runCallbacks {P E O S : Type} (u : UserCode P E O S) (t : Target) :
    List StreamCallback →
      Unwind P (StreamWorld O S) (List (StreamCallback × CallbackResult))
  | [] => pure []
  | cb :: cbs => do
    let r ← cb.run u t
    let rest ← runCallbacks u t cbs
    pure ((cb, r) :: rest)

/-- Any callbacks on an open file return, and are a run of the file. -/
theorem runCallbacks_file {P E O R : Type} {r : ReadSeek P E R} {d : List UInt8}
    {pos : R → UInt64} (hr : r.Lawful d pos) (hd : d.length < 2 ^ 63) (u : UserCode P E O R)
    (t : Target) {k : Cookie} {cbs : List StreamCallback} (hcbs : ∀ cb ∈ cbs, cb.IsFileOp k)
    {w : StreamWorld O R} {s : R} (hbox : w.boxes k = some s) :
    ∃ l w' s', runCallbacks (u.withIoStream r) t cbs w = (.ret l, w') ∧
      l.map Prod.fst = cbs ∧ w'.boxes k = some s' ∧
      (streamFile d k).Run (pos s).toNat l (pos s').toNat := by
  induction cbs generalizing w s with
  | nil => exact ⟨[], w, s, rfl, rfl, hbox, .nil⟩
  | cons cb cbs ih =>
      have hcb := hcbs cb List.mem_cons_self
      obtain ⟨hstep, hleft⟩ := fileStep_of_lawful (u := u) (t := t) (s := s) hr hd hcb
      obtain ⟨w₁, hrun, hboxes, -⟩ :=
        StreamCallback.run_stream_of_leftBy hbox hcb.1 hcb.2 hleft
      have hbox₁ : w₁.boxes k = some ((u.withIoStream r).advance t s cb) := by
        rw [hboxes, Function.update_self]
      obtain ⟨l, w', s', hrest, hfst, hbox', hl⟩ :=
        ih (fun cb' hcb' => hcbs cb' (List.mem_cons_of_mem _ hcb')) hbox₁
      refine ⟨(cb, (u.withIoStream r).reply t s cb) :: l, w', s', ?_, ?_, hbox', ?_⟩
      · simp only [runCallbacks, bind_apply]
        rw [andThen_ret hrun, bind_apply, andThen_ret hrest]
        rfl
      · rw [List.map_cons, hfst]
      · exact Lts.Run.cons hstep hl

/-! ### Reading in chunks -/

/-- A read that asks for something, or a measurement. -/
def StreamCallback.IsChunk : StreamCallback → Prop
  | .read _ _ nbytes => nbytes ≠ 0
  | .size _ => True
  | _ => False

/-- libmpv reads. -/
def StreamCallback.isRead : StreamCallback → Bool
  | .read _ _ _ => true
  | _ => false

/-- The bytes a callback delivered. -/
def CallbackResult.bytes : CallbackResult → List UInt8
  | .read n buf => (List.range n.toInt.toNat).map buf
  | _ => []

/-- A read returned nothing. -/
def CallbackResult.IsEmptyRead : CallbackResult → Prop
  | .read n _ => n = 0
  | _ => False

/-- What chunks from position `p` to position `p'` delivered. -/
structure Delivered (d : List UInt8) (p : ℕ) (l : List (StreamCallback × CallbackResult))
    (p' : ℕ) : Prop where
  le : p ≤ p'
  bytes : (l.flatMap fun e => e.2.bytes) = (d.drop p).take (p' - p)
  atEnd : (∃ e ∈ l, e.2.IsEmptyRead) → d.length ≤ p'
  within : p' ≤ max p d.length
  progress : (∀ e ∈ l, ¬ e.2.IsEmptyRead) → p + l.countP (fun e => e.1.isRead) ≤ p'

section Chunks

variable {d : List UInt8} {k : Cookie} {p p' p'' : ℕ}
  {l : List (StreamCallback × CallbackResult)} {e : StreamCallback × CallbackResult}

/-- The bytes of a read are those of the data. -/
theorem map_range_eq_take {n : ℕ} {buf : ℕ → UInt8} (h : ∀ i < n, d[p + i]? = some (buf i)) :
    (List.range n).map buf = (d.drop p).take n := by
  refine List.ext_getElem? fun i => ?_
  by_cases hi : i < n
  · rw [List.getElem?_take_of_lt hi, List.getElem?_drop, h i hi, List.getElem?_map,
      List.getElem?_range hi]
    rfl
  · rw [List.getElem?_eq_none (by simpa using hi),
      List.getElem?_eq_none (by rw [List.length_take]; omega)]

/-- The step lemma: a chunk delivers the bytes at the position. -/
theorem Delivered.step (hd : d.length < 2 ^ 63) (h : Delivered d p l p')
    (hchunk : e.1.IsChunk) (hs : FileStep d k p' e p'') : Delivered d p (l ++ [e]) p'' := by
  cases hs with
  | @read n buf buf' nbytes hlen hrest hzero hbytes _ =>
      have hlt : n < 2 ^ 63 := by omega
      have hn : (Int64.ofNat n).toInt.toNat = n := by
        rw [Int64.toInt_ofNat_of_lt hlt]
        rfl
      have hempty : Int64.ofNat n = 0 ↔ n = 0 := by
        rw [← Int64.toInt_inj, Int64.toInt_ofNat_of_lt hlt]
        exact Int.natCast_eq_zero
      have hread : (CallbackResult.read (Int64.ofNat n) buf').bytes = (d.drop p').take n := by
        rw [CallbackResult.bytes, hn, map_range_eq_take hbytes]
      have hdrop : (d.drop p).drop (p' - p) = d.drop p' := by
        rw [List.drop_drop, Nat.add_sub_cancel' h.le]
      have hnz : nbytes ≠ 0 := hchunk
      refine ⟨by have := h.le; omega, ?_, ?_, ?_, ?_⟩
      · rw [List.flatMap_append, h.bytes, List.flatMap_singleton, hread,
          Nat.sub_add_comm h.le, List.take_add, hdrop]
      · rintro ⟨e', he', hz⟩
        obtain hold | rfl := List.mem_append.mp he' |>.imp_right List.mem_singleton.mp
        · exact (h.atEnd ⟨e', hold, hz⟩).trans (Nat.le_add_right _ _)
        · obtain hz | hend := hzero.mp (hempty.mp hz)
          · exact absurd hz hnz
          · omega
      · have hwithin := h.within
        omega
      · intro hall
        have hold := h.progress fun e' he' => hall e' (List.mem_append_left _ he')
        have hpos : n ≠ 0 := fun hz =>
          hall _ (List.mem_append_right _ List.mem_cons_self) (hempty.mpr hz)
        have hone : (StreamCallback.read k buf nbytes).isRead = true := rfl
        rw [List.countP_append, List.countP_singleton, if_pos hone]
        omega
  | seek _ => exact hchunk.elim
  | refused _ => exact hchunk.elim
  | size =>
      refine ⟨h.le, ?_, ?_, h.within, ?_⟩
      · rw [List.flatMap_append, h.bytes]
        simp [CallbackResult.bytes]
      · rintro ⟨e', he', hz⟩
        obtain hold | rfl := List.mem_append.mp he' |>.imp_right List.mem_singleton.mp
        · exact h.atEnd ⟨e', hold, hz⟩
        · exact hz.elim
      · intro hall
        have hold := h.progress fun e' he' => hall e' (List.mem_append_left _ he')
        rw [List.countP_append]
        simpa [StreamCallback.isRead] using hold

/-- The run lemma: what chunks delivered. -/
theorem Delivered.of_run (hd : d.length < 2 ^ 63) (h : (streamFile d k).Run p l p')
    (hchunks : ∀ e ∈ l, e.1.IsChunk) : Delivered d p l p' := by
  refine h.history (I := fun l p' => (∀ e ∈ l, e.1.IsChunk) → Delivered d p l p') (fun _ => ?_)
    (fun l p' e p'' ih hs hchunks => ?_) hchunks
  · exact ⟨le_rfl, by simp, by simp, le_max_left _ _, by simp⟩
  · refine (ih fun e' he' => hchunks e' (List.mem_append_left _ he')).step hd ?_ hs
    exact hchunks e (List.mem_append_right _ List.mem_cons_self)

end Chunks

/-! ### In-memory readers -/

/-- An `io::Cursor` over `d`: its state is its position, and its reads are as long as they
can be. -/
def cursor (d : List UInt8) : ReadSeek Unit Unit UInt64 where
  read pos len buf :=
    let n := min len (d.length - pos.toNat)
    (.ok (.ok n), fun i => if i < n then d.getD (pos.toNat + i) 0 else buf i,
      pos + UInt64.ofNat n)
  seek pos
    | .start n => (.ok (.ok n), n)
    | .end n => seekBy d.length n pos
    | .current n => seekBy pos.toNat n pos
  streamPosition pos := (.ok (.ok pos), pos)
where
  /-- Move to `base + n`, if that is a position. -/
  seekBy (base : ℕ) (n : Int64) (pos : UInt64) :
      Except Unit (Except (IoError Unit) UInt64) × UInt64 :=
    let target := base + n.toInt
    if 0 ≤ target ∧ target < 2 ^ 64 then
      (.ok (.ok (UInt64.ofNat target.toNat)), UInt64.ofNat target.toNat)
    else (.ok (.error ⟨.other, none⟩), pos)

/-- A cursor moves to its end. -/
theorem cursor_seek_end {d : List UInt8} (hd : d.length < 2 ^ 63) (pos : UInt64) :
    (cursor d).seek pos (.end 0) =
      (.ok (.ok (UInt64.ofNat d.length)), UInt64.ofNat d.length) := by
  have hzero : (0 : Int64).toInt = 0 := rfl
  have htarget : 0 ≤ (d.length : ℤ) + (0 : Int64).toInt ∧
      (d.length : ℤ) + (0 : Int64).toInt < 2 ^ 64 := by omega
  have hnat : ((d.length : ℤ) + (0 : Int64).toInt).toNat = d.length := by omega
  simp only [cursor, cursor.seekBy, if_pos htarget, hnat]

/-- A cursor is a lawful reader. -/
theorem cursor_lawful {d : List UInt8} (hd : d.length < 2 ^ 63) : (cursor d).Lawful d id where
  read pos len buf := by
    refine ⟨min len (d.length - pos.toNat), rfl, min_le_left _ _, min_le_right _ _, ?_,
      fun i hi hn => ?_, ?_⟩
    · simp only [id]
      omega
    · have hlt : id pos.toNat + i < d.length := by
        rw [id]
        omega
      change d[id pos.toNat + i]? = some (if i < min len (d.length - pos.toNat) then
        d.getD (id pos.toNat + i) 0 else buf ⟨i, hi⟩)
      rw [if_pos hn, List.getD_eq_getElem?_getD, List.getElem?_eq_getElem hlt,
        Option.getD_some]
    · have hpos := pos.toNat_lt
      change (pos + UInt64.ofNat (min len (d.length - pos.toNat))).toNat = _
      rw [UInt64.toNat_add, UInt64.toNat_ofNat', id, Nat.mod_eq_of_lt (by omega),
        Nat.mod_eq_of_lt (by omega)]
  seekStart pos n _ := ⟨rfl, rfl⟩
  seekEnd pos := by
    rw [cursor_seek_end hd]
    exact ⟨rfl, rfl⟩
  streamPosition pos := ⟨rfl, rfl⟩

/-- **An `IoStream` is a faithful read-only file.** Over a lawful reader of the bytes `d`, any
sequence of read, seek and size callbacks on an open stream returns, and is a run of the
file `d` from the reader's position. When the callbacks are reads of any sizes but 0 and
measurements, in any order, and a read returned nothing, then the bytes they delivered
are those from the starting position to the end; and a read does return nothing after
as many reads as there are bytes left. -/
theorem io_stream_is_file {P E O R : Type} (r : ReadSeek P E R) (d : List UInt8)
    (pos : R → UInt64) (hr : r.Lawful d pos) (hd : d.length < 2 ^ 63) (u : UserCode P E O R)
    (t : Target) (k : Cookie) (cbs : List StreamCallback) (hcbs : ∀ cb ∈ cbs, cb.IsFileOp k)
    (w : StreamWorld O R) (s : R) (hbox : w.boxes k = some s) :
    ∃ l w' s', runCallbacks (u.withIoStream r) t cbs w = (.ret l, w') ∧
      l.map Prod.fst = cbs ∧ w'.boxes k = some s' ∧
      (streamFile d k).Run (pos s).toNat l (pos s').toNat ∧
      ((∀ cb ∈ cbs, cb.IsChunk) →
        ((∃ e ∈ l, e.2.IsEmptyRead) →
          (l.flatMap fun e => e.2.bytes) = d.drop (pos s).toNat) ∧
        (d.length - (pos s).toNat < cbs.countP StreamCallback.isRead →
          ∃ e ∈ l, e.2.IsEmptyRead)) := by
  obtain ⟨l, w', s', hrun, hfst, hbox', hfile⟩ := runCallbacks_file hr hd u t hcbs hbox
  refine ⟨l, w', s', hrun, hfst, hbox', hfile, fun hchunks => ?_⟩
  have hdel := Delivered.of_run hd hfile fun e he => hchunks e.1 (hfst ▸ List.mem_map_of_mem he)
  refine ⟨fun hend => ?_, fun hmany => ?_⟩
  · have hlen := hdel.atEnd hend
    rw [hdel.bytes, List.take_of_length_le]
    rw [List.length_drop]
    omega
  · by_contra hnone
    have hprogress := hdel.progress fun e he hz => hnone ⟨e, he, hz⟩
    have hwithin := hdel.within
    have hcount : cbs.countP StreamCallback.isRead = l.countP fun e => e.1.isRead := by
      rw [← hfst, List.countP_map]
      rfl
    omega

/-- A cursor in the middle of its data is measured and read in pieces. -/
theorem io_stream_is_file_cursor : ∃ l w',
    runCallbacks ((idleCode UInt64).withIoStream (cursor [1, 2, 3])) .bits64
      [.size 0, .read 0 (fun _ => 0) 2, .size 0, .read 0 (fun _ => 0) 1,
        .read 0 (fun _ => 0) 5] { opener := (), boxes := fun _ => some 1 } = (.ret l, w') ∧
    (l.flatMap fun e => e.2.bytes) = [2, 3] := by
  obtain ⟨l, w', s', hrun, -, -, -, hchunks⟩ := io_stream_is_file (cursor [1, 2, 3]) [1, 2, 3] id
    (cursor_lawful (by decide)) (by decide) (idleCode UInt64) .bits64 0
    [.size 0, .read 0 (fun _ => 0) 2, .size 0, .read 0 (fun _ => 0) 1, .read 0 (fun _ => 0) 5]
    (by simp [StreamCallback.IsFileOp, StreamCallback.cookie])
    { opener := (), boxes := fun _ => some 1 } 1 rfl
  obtain ⟨hbytes, hempty⟩ := hchunks (by simp [StreamCallback.IsChunk])
  exact ⟨l, w', hrun, hbytes (hempty (by decide))⟩

end Rsmpv
