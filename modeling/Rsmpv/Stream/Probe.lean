import Rsmpv.Stream.File

/-!
# Failing Size Probes

Measuring an `IoStream` whose seeks may fail. `size` asks for the position, moves to the end
and moves back, and gives up at the first of the three that fails. When it is the last one
the reader is left at the end of the data (`pos_size_stranded`), and libmpv is only told that
the size is not known: its next read finds the end of the file. On every other path the
position is back where it was (`pos_size_of_not_stranded`).

## Main results

* `pos_size_stranded`, `pos_size_of_not_stranded`: where a probe leaves the reader, on each
  of its paths.
* `size_probe_restores_iff`: the position after a probe is the one before it exactly when
  the reader was not left at the end, or was there already.
* `flakyCursor_seeksMayFail`: a cursor whose seeks fail when one likes is such a reader.
-/

namespace Rsmpv

open Unwind StreamWorld

variable {P E O R : Type}

/-! ### Readers whose seeks fail -/

/-- A call did not succeed. -/
def Failed {α : Type} (o : Except P (Except (IoError E) α)) : Prop := ∀ a, o ≠ .ok (.ok a)

/-- A reader with position `pos` and the end of its data at `endPos`. Each seek may fail, and
then the position stays; what a read returns is determined by the position. -/
structure ReadSeek.SeeksMayFail (r : ReadSeek P E R) (endPos : UInt64) (pos : R → UInt64) :
    Prop where
  read : ∀ s s' len buf, pos s = pos s' →
    (r.read s len buf).1 = (r.read s' len buf).1 ∧
      (r.read s len buf).2.1 = (r.read s' len buf).2.1
  seekFailed : ∀ s target, Failed (r.seek s target).1 → pos (r.seek s target).2 = pos s
  seekStart : ∀ s n m, (r.seek s (.start n)).1 = .ok (.ok m) →
    m = n ∧ pos (r.seek s (.start n)).2 = n
  seekEnd : ∀ s m, (r.seek s (.end 0)).1 = .ok (.ok m) →
    m = endPos ∧ pos (r.seek s (.end 0)).2 = endPos
  positionFailed : ∀ s, Failed (r.streamPosition s).1 → pos (r.streamPosition s).2 = pos s
  position : ∀ s m, (r.streamPosition s).1 = .ok (.ok m) →
    m = pos s ∧ pos (r.streamPosition s).2 = pos s

/-- A reader whose answers to a probe are to ask for the position, to move to the end, and to
refuse to move back. -/
structure ReadSeek.Stranded (r : ReadSeek P E R) (pos : R → UInt64) (s : R) : Prop where
  position : ¬ Failed (r.streamPosition s).1
  seekEnd : ¬ Failed (r.seek (r.streamPosition s).2 (.end 0)).1
  seekBack : Failed (r.seek (r.seek (r.streamPosition s).2 (.end 0)).2 (.start (pos s))).1

section Probe

variable {r : ReadSeek P E R} {endPos : UInt64} {pos : R → UInt64} {s : R}

/-- A call that did not fail has a value. -/
theorem exists_of_not_failed {α : Type} {o : Except P (Except (IoError E) α)}
    (h : ¬ Failed o) : ∃ a, o = .ok (.ok a) := by
  by_contra hnone
  exact h fun a ha => hnone ⟨a, ha⟩

/-- A reader that does not move back is left at the end. -/
theorem pos_size_stranded (hr : r.SeeksMayFail endPos pos) (dropError : E → Option P)
    (h : r.Stranded pos s) : pos (IoStream.size r dropError s).2 = endPos := by
  obtain ⟨p, hp⟩ := exists_of_not_failed h.position
  obtain ⟨n, hn⟩ := exists_of_not_failed h.seekEnd
  obtain ⟨rfl, -⟩ := hr.position s p hp
  obtain ⟨-, hend⟩ := hr.seekEnd _ n hn
  rw [IoStream.size, orReturn_ok hp, orReturn_ok hn, (orReturn_failed h.seekBack).1,
    hr.seekFailed _ _ h.seekBack, hend]

/-- On every other path the position is back where it was. -/
theorem pos_size_of_not_stranded (hr : r.SeeksMayFail endPos pos) (dropError : E → Option P)
    (h : ¬ r.Stranded pos s) : pos (IoStream.size r dropError s).2 = pos s := by
  rw [IoStream.size]
  by_cases hposition : Failed (r.streamPosition s).1
  · rw [(orReturn_failed hposition).1, hr.positionFailed s hposition]
  · obtain ⟨p, hp⟩ := exists_of_not_failed hposition
    obtain ⟨rfl, hpos⟩ := hr.position s p hp
    rw [orReturn_ok hp]
    by_cases hseekEnd : Failed (r.seek (r.streamPosition s).2 (.end 0)).1
    · rw [(orReturn_failed hseekEnd).1, hr.seekFailed _ _ hseekEnd, hpos]
    · obtain ⟨n, hn⟩ := exists_of_not_failed hseekEnd
      have hback := fun hback => h ⟨hposition, hseekEnd, hback⟩
      obtain ⟨m, hm⟩ := exists_of_not_failed hback
      rw [orReturn_ok hn, orReturn_ok hm]
      exact (hr.seekStart _ _ _ hm).2

end Probe

/-! ### Through the trampolines -/

/-- A size callback leaves the read position of the stream `s` as it was, and any read after it
returns what it would have returned without it. -/
def ProbeRestores (u : UserCode P E O R) (t : Target) (k : Cookie) (pos : R → UInt64)
    (w : StreamWorld O R) (s : R) : Prop :=
  let w' := ((StreamCallback.size k).run u t w).2
  (∃ s', w'.boxes k = some s' ∧ pos s' = pos s) ∧ ∀ buf nbytes,
    ((StreamCallback.read k buf nbytes).run u t w').1 =
      ((StreamCallback.read k buf nbytes).run u t w).1

section Trampolines

variable {u : UserCode P E O R} {t : Target} {k : Cookie} {w : StreamWorld O R} {s : R}

/-- A size callback leaves the stream in the state its `size` left it in. -/
theorem run_size_boxes (h : w.boxes k = some s) :
    ((StreamCallback.size k).run u t w).2.boxes k = some (u.size s).2 := by
  obtain ⟨w', hrun, hboxes, -⟩ :=
    StreamCallback.run_stream (u := u) (t := t) h rfl (nofun : StreamCallback.size k ≠ .close k)
  rw [hrun, hboxes]
  exact Function.update_self k _ _

/-- What a read callback on an open stream returns. -/
theorem run_read_fst (h : w.boxes k = some s) (buf : ℕ → UInt8) (nbytes : UInt64) :
    ((StreamCallback.read k buf nbytes).run u t w).1 =
      .after (u.leftover (u.read s (t.sliceLen nbytes) fun i => buf i).1)
        (.read (readResult (t.sliceLen nbytes) (u.read s (t.sliceLen nbytes) fun i => buf i).1)
          (overwrite buf (u.read s (t.sliceLen nbytes) fun i => buf i).2.1)) := by
  obtain ⟨w', hrun, -⟩ :=
    StreamCallback.run_stream (u := u) (t := t) h rfl
      (nofun : StreamCallback.read k buf nbytes ≠ .close k)
  rw [hrun]
  rfl

end Trampolines

/-- **When a size probe does not disturb playback**: exactly when the reader did not refuse to
move back from the end after it had moved there, or was at the end already. -/
theorem size_probe_restores_iff {r : ReadSeek P E R} {endPos : UInt64} {pos : R → UInt64}
    (hr : r.SeeksMayFail endPos pos) (u : UserCode P E O R) (t : Target) (k : Cookie)
    (w : StreamWorld O R) (s : R) (hbox : w.boxes k = some s) :
    ProbeRestores (u.withIoStream r) t k pos w s ↔ ¬ r.Stranded pos s ∨ pos s = endPos := by
  have hbox' := run_size_boxes (u := u.withIoStream r) (t := t) hbox
  constructor
  · rintro ⟨⟨s', hs', hpos⟩, -⟩
    by_contra hnot
    obtain ⟨hstranded, hne⟩ := not_or.mp hnot
    obtain rfl := Option.some.inj (hbox'.symm.trans hs')
    have hend := pos_size_stranded hr u.dropError (not_not.mp hstranded)
    exact hne (hpos.symm.trans hend)
  · intro hcond
    have hpos : pos (IoStream.size r u.dropError s).2 = pos s := by
      by_cases hstranded : r.Stranded pos s
      · obtain hnot | hend := hcond
        · exact absurd hstranded hnot
        · rw [pos_size_stranded hr u.dropError hstranded, hend]
      · exact pos_size_of_not_stranded hr u.dropError hstranded
    refine ⟨⟨_, hbox', hpos⟩, fun buf nbytes => ?_⟩
    have hread : ((u.withIoStream r).read ((u.withIoStream r).size s).2 (t.sliceLen nbytes)
          fun i => buf i).1 =
        ((u.withIoStream r).read s (t.sliceLen nbytes) fun i => buf i).1 ∧
        ((u.withIoStream r).read ((u.withIoStream r).size s).2 (t.sliceLen nbytes)
          fun i => buf i).2.1 =
        ((u.withIoStream r).read s (t.sliceLen nbytes) fun i => buf i).2.1 :=
      hr.read _ s _ _ hpos
    rw [run_read_fst hbox', run_read_fst hbox, hread.1, hread.2]

/-! ### A cursor whose seeks fail -/

/-- A cursor over `d` with the failures of its next seeks. -/
def flakyCursor (d : List UInt8) : ReadSeek Unit Unit (UInt64 × List Bool) where
  read s len buf :=
    let r := (cursor d).read s.1 len buf
    (r.1, r.2.1, (r.2.2, s.2))
  seek s target := attempt s ((cursor d).seek s.1 target)
  streamPosition s := attempt s ((cursor d).streamPosition s.1)
where
  /-- One seek: it fails if its turn is to fail. -/
  attempt (s : UInt64 × List Bool) (call : Except Unit (Except (IoError Unit) UInt64) × UInt64) :
      Except Unit (Except (IoError Unit) UInt64) × UInt64 × List Bool :=
    match s.2 with
    | true :: fails => (.ok (.error ⟨.other, none⟩), s.1, fails)
    | fails => (call.1, call.2, fails.tail)

/-- A seek of the flaky cursor is an attempt at one of the cursor. -/
theorem flakyCursor_seek (d : List UInt8) (s : UInt64 × List Bool) (target : SeekFrom) :
    (flakyCursor d).seek s target = flakyCursor.attempt s ((cursor d).seek s.1 target) := rfl

/-- So is its `stream_position`. -/
theorem flakyCursor_streamPosition (d : List UInt8) (s : UInt64 × List Bool) :
    (flakyCursor d).streamPosition s = flakyCursor.attempt s (.ok (.ok s.1), s.1) := rfl

/-- A seek whose turn it is to fail leaves the position, and the others are the cursor's. -/
theorem flakyCursor_attempt (s : UInt64 × List Bool)
    (call : Except Unit (Except (IoError Unit) UInt64) × UInt64) :
    (Failed (flakyCursor.attempt s call).1 ∧ (flakyCursor.attempt s call).2.1 = s.1) ∨
      ((flakyCursor.attempt s call).1 = call.1 ∧ (flakyCursor.attempt s call).2.1 = call.2) := by
  rw [flakyCursor.attempt]
  split
  · exact .inl ⟨by simp [Failed], rfl⟩
  · exact .inr ⟨rfl, rfl⟩

/-- A seek of a cursor that fails leaves the position. -/
theorem cursor_seek_failed {d : List UInt8} {p : UInt64} {target : SeekFrom}
    (h : Failed ((cursor d).seek p target).1) : ((cursor d).seek p target).2 = p := by
  have hseekBy : ∀ base n, Failed (cursor.seekBy base n p).1 → (cursor.seekBy base n p).2 = p := by
    intro base n hfail
    unfold cursor.seekBy at hfail ⊢
    dsimp only at hfail ⊢
    split at hfail
    · exact absurd rfl (hfail _)
    · next hrange => rw [if_neg hrange]
  cases target with
  | start n => exact absurd rfl (h n)
  | «end» n =>
      simp only [cursor] at h ⊢
      exact hseekBy _ n h
  | current n =>
      simp only [cursor] at h ⊢
      exact hseekBy _ n h

/-- A cursor whose seeks fail is such a reader, whichever of them do. -/
theorem flakyCursor_seeksMayFail {d : List UInt8} (hd : d.length < 2 ^ 63) :
    (flakyCursor d).SeeksMayFail (UInt64.ofNat d.length) Prod.fst where
  read s s' len buf h := by
    obtain ⟨p, fails⟩ := s
    obtain ⟨p', fails'⟩ := s'
    obtain rfl : p = p' := h
    exact ⟨rfl, rfl⟩
  seekFailed s target h := by
    rw [flakyCursor_seek] at h ⊢
    obtain ⟨-, hpos⟩ | ⟨hsame, hpos⟩ := flakyCursor_attempt s ((cursor d).seek s.1 target)
    · exact hpos
    · rw [hsame] at h
      rw [hpos, cursor_seek_failed h]
  seekStart s n m h := by
    rw [flakyCursor_seek] at h ⊢
    obtain ⟨hfail, -⟩ | ⟨hsame, hpos⟩ := flakyCursor_attempt s (.ok (.ok n), n)
    · exact absurd h (hfail m)
    · have heq := Except.ok.inj (Except.ok.inj (hsame.symm.trans h))
      exact ⟨heq.symm, hpos⟩
  seekEnd s m h := by
    rw [flakyCursor_seek, cursor_seek_end hd] at h ⊢
    obtain ⟨hfail, -⟩ | ⟨hsame, hpos⟩ :=
      flakyCursor_attempt s (.ok (.ok (UInt64.ofNat d.length)), UInt64.ofNat d.length)
    · exact absurd h (hfail m)
    · have heq := Except.ok.inj (Except.ok.inj (hsame.symm.trans h))
      exact ⟨heq.symm, hpos⟩
  positionFailed s h := by
    rw [flakyCursor_streamPosition] at h ⊢
    obtain ⟨-, hpos⟩ | ⟨-, hpos⟩ := flakyCursor_attempt s (.ok (.ok s.1), s.1)
    · exact hpos
    · exact hpos
  position s m h := by
    rw [flakyCursor_streamPosition] at h ⊢
    obtain ⟨hfail, -⟩ | ⟨hsame, hpos⟩ := flakyCursor_attempt s (.ok (.ok s.1), s.1)
    · exact absurd h (hfail m)
    · rw [hsame] at h
      exact ⟨(Except.ok.inj (Except.ok.inj h)).symm, hpos⟩

/-- The position is asked for, the end is found, and the seek back fails: three bytes that
were to be read next are lost. -/
theorem size_probe_loses_position :
    (flakyCursor [1, 2, 3]).SeeksMayFail 3 Prod.fst ∧
    ¬ ProbeRestores ((idleCode _).withIoStream (flakyCursor [1, 2, 3])) .bits64 0 Prod.fst
      { opener := (), boxes := fun _ => some (0, [false, false, true]) }
      (0, [false, false, true]) := by
  have hr := flakyCursor_seeksMayFail (d := [1, 2, 3]) (by decide)
  have hstranded : (flakyCursor [1, 2, 3]).Stranded Prod.fst (0, [false, false, true]) := by
    refine ⟨fun h => h 0 rfl, fun h => h 3 ?_, fun n hn => ?_⟩
    · rw [flakyCursor_seek, cursor_seek_end (by decide)]
      rfl
    · rw [flakyCursor_seek, flakyCursor_seek, cursor_seek_end (by decide)] at hn
      simp [flakyCursor, flakyCursor.attempt] at hn
  refine ⟨hr, ?_⟩
  rintro ⟨⟨s', hs', hpos⟩, -⟩
  have hend := pos_size_stranded hr (idleCode (UInt64 × List Bool)).dropError hstranded
  rw [run_size_boxes rfl] at hs'
  obtain rfl := Option.some.inj hs'
  have hmoved : (UInt64.ofNat 3) = 0 := hend.symm.trans hpos
  exact absurd hmoved (by decide)

/-- A probe that fails before it moved restores the position. -/
theorem size_probe_restores_first :
    ProbeRestores ((idleCode _).withIoStream (flakyCursor [1, 2, 3])) .bits64 0 Prod.fst
      { opener := (), boxes := fun _ => some (1, [true]) } (1, [true]) := by
  refine (size_probe_restores_iff (flakyCursor_seeksMayFail (by decide)) (idleCode _) .bits64 0
    { opener := (), boxes := fun _ => some (1, [true]) } (1, [true]) rfl).mpr (.inl fun h => ?_)
  refine h.position ?_
  simp [Failed, flakyCursor, flakyCursor.attempt]

end Rsmpv
