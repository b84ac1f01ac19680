import OscHost.Files.OpenFile
import OscHost.Proofs.Files.Walk
/-!
  No use of an open file connects it to a process.

  A process reads what is written to a `sink` when the file is closed.  Only opening makes one: reading,
  writing, moving in a file and closing it keep what the file is connected to, and a file that is
  removed or renamed lives on as bytes without a name or under another one.
-/

namespace OscHost.Files.OpenFile

variable {t t' : Tree} {f f' : OpenFile}

/-- Whether a process reads what is written to a file. -/
def isSink (f : OpenFile) : Bool :=
  match f.stream with
  | .sink .. => true
  | _ => false

theorem isSink_congr (h : f'.stream = f.stream) : f'.isSink = f.isSink := by
  unfold isSink
  rw [h]

/-! ## Writing -/

@[simp] theorem isSink_setContent (t : Tree) (f : OpenFile) (content : ByteArray) :
    (f.setContent t content).2.isSink = f.isSink := by
  obtain ⟨stream, _⟩ := f
  cases stream <;> rfl

@[simp] theorem isSink_commit (t : Tree) (f : OpenFile) (data : ByteArray) :
    (f.commit t data).2.isSink = f.isSink := by
  unfold commit
  split
  · rfl
  · rw [← isSink_setContent t f (overwrite (f.content t)
      (if f.access.appends then (f.content t).size else f.position) data)]
    rfl

@[simp] theorem isSink_flush (t : Tree) (f : OpenFile) : (f.flush t).2.isSink = f.isSink := by
  have hstream : (f.flush t).2.stream = (f.commit t f.pending).2.stream := rfl
  exact (isSink_congr hstream).trans (isSink_commit t f f.pending)

theorem isSink_write {data : ByteArray} (h : f.write t data = .ok (t', f')) :
    f'.isSink = f.isSink := by
  unfold write at h
  split at h
  · cases h
    rfl
  · split at h
    · cases h
    · dsimp only at h
      split at h
      · cases h
        rfl
      · -- pending bytes are flushed before the new ones are committed
        generalize hp : flush t _ = p at h
        obtain ⟨u, g⟩ := p
        have hg : g.isSink = f.isSink := (congrArg (·.2.isSink) hp).symm.trans (isSink_flush ..)
        dsimp only at h
        generalize hq : commit u g _ = q at h
        obtain ⟨u', g'⟩ := q
        have hg' : g'.isSink = g.isSink := (congrArg (·.2.isSink) hq).symm.trans (isSink_commit ..)
        have hstream : f'.stream = g'.stream := by
          cases h
          rfl
        exact (isSink_congr hstream).trans (hg'.trans hg)

/-! ## Reading -/

@[simp] theorem stream_fetch (t : Tree) (f : OpenFile) : (f.fetch t).2.stream = f.stream := rfl

@[simp] theorem stream_take (f : OpenFile) (n : Nat) : (f.take n).2.stream = f.stream := rfl

@[simp] theorem stream_fetchAtLeast (t : Tree) (n fuel : Nat) (f : OpenFile) :
    (fetchAtLeast t n fuel f).stream = f.stream := by
  induction fuel generalizing f with
  | zero => rfl
  | succ fuel ih =>
    have hf := stream_fetch t f
    unfold fetchAtLeast
    split
    · rfl
    · split
      · next he => rw [ih, ← hf, he]
      · next he => rw [← hf, he]

@[simp] theorem stream_fetchLine (t : Tree) (fuel seen : Nat) (f : OpenFile) :
    (fetchLine t fuel seen f).2.stream = f.stream := by
  induction fuel generalizing seen f with
  | zero => rfl
  | succ fuel ih =>
    have hf := stream_fetch t f
    unfold fetchLine
    split
    · rfl
    · dsimp only
      split
      · next he => rw [ih, ← hf, he]
      · next he => rw [← hf, he]

@[simp] theorem stream_skipBlanks (t : Tree) (fuel : Nat) (f : OpenFile) :
    (skipBlanks t fuel f).stream = f.stream := by
  induction fuel generalizing f with
  | zero => rfl
  | succ fuel ih =>
    have hf := stream_fetch t (f.take (blanks f.ahead 0)).2
    unfold skipBlanks
    dsimp only
    split
    · split
      · next he => rw [ih, ← stream_take f (blanks f.ahead 0), ← hf, he]
      · next he => rw [← stream_take f (blanks f.ahead 0), ← hf, he]
    · rfl

theorem stream_readLine (t : Tree) (keepEnd : Bool) (f : OpenFile) :
    (f.readLine t keepEnd).2.stream = f.stream := by
  have hline := stream_fetchLine t (f.blocks t) 0 f
  unfold readLine
  dsimp only
  split
  · rwa [stream_take]
  · split <;> rwa [stream_take]

theorem stream_readBytes (t : Tree) (n : Nat) (f : OpenFile) :
    (f.readBytes t n).2.stream = f.stream := by
  have hfetch := stream_fetchAtLeast t (max n 1) (f.blocks t) f
  unfold readBytes
  dsimp only
  split
  · exact hfetch
  · rwa [stream_take]

theorem stream_readAll (t : Tree) (f : OpenFile) : (f.readAll t).2.stream = f.stream := by
  unfold readAll
  dsimp only
  rw [stream_take, stream_fetchAtLeast]

theorem stream_readNumeral (t : Tree) (f : OpenFile) : (f.readNumeral t).2.stream = f.stream := by
  unfold readNumeral
  dsimp only
  rw [stream_take, stream_fetchAtLeast, stream_skipBlanks]

theorem isSink_read {format : ReadFormat} {data : Option ByteArray}
    (h : f.read t format = .ok (data, t', f')) : f'.isSink = f.isSink := by
  unfold read at h
  split at h
  · cases h
  · split at h
    · cases h
    · dsimp only at h
      -- whatever waits to be written is flushed before anything is read
      have hflush : (if f.pending.isEmpty then (t, f) else f.flush t).2.isSink = f.isSink := by
        split
        · rfl
        · exact isSink_flush t f
      generalize (if f.pending.isEmpty then (t, f) else f.flush t) = p at h hflush
      obtain ⟨u, g⟩ := p
      have hg : f'.stream = g.stream := by
        cases format with
        | line keepEnd => cases h; exact stream_readLine u keepEnd g
        | all => cases h; exact stream_readAll u g
        | bytes n => cases h; exact stream_readBytes u n g
        | numeral => cases h; exact stream_readNumeral u g
      exact (isSink_congr hg).trans hflush

/-! ## Moving, closing and losing the name -/

theorem isSink_seek {whence : Whence} {offset : Int} {place : Nat}
    (h : f.seek t whence offset = .ok (place, t', f')) : f'.isSink = f.isSink := by
  unfold seek at h
  split at h
  · cases h
  · cases h
  · split at h
    · cases h
    · cases whence with
      | start | current | theEnd =>
        dsimp only at h
        split at h
        · cases h
        · have hstream : f'.stream = (f.flush t).2.stream := by
            cases h
            rfl
          exact (isSink_congr hstream).trans (isSink_flush t f)

@[simp] theorem isSink_close (t : Tree) (f : OpenFile) : (f.close t).2.isSink = f.isSink := by
  have hstream : (f.close t).2.stream = (f.flush t).2.stream := rfl
  exact (isSink_congr hstream).trans (isSink_flush t f)

@[simp] theorem isSink_detach (t : Tree) (gone : Location) (f : OpenFile) :
    (f.detach t gone).isSink = f.isSink := by
  obtain ⟨stream, _⟩ := f
  unfold detach
  cases stream with
  | named l =>
    dsimp only
    split <;> rfl
  | _ => rfl

@[simp] theorem isSink_renamed (source target : Location) (f : OpenFile) :
    (f.renamed source target).isSink = f.isSink := by
  obtain ⟨stream, _⟩ := f
  unfold renamed
  cases stream with
  | named l =>
    dsimp only
    split <;> rfl
  | _ => rfl

/-! ## Opening -/

theorem isSink_openFile {path : String} {mode : Mode} (h : openFile t path mode = .ok (t', f)) :
    f.isSink = false := by
  unfold openFile at h
  split at h
  · obtain ⟨l, _, h⟩ := bind_eq_ok.mp h
    cases h
    split <;> rfl
  · obtain ⟨l, _, h⟩ := bind_eq_ok.mp h
    split at h
    · split at h <;> cases h
      rfl
    · cases h
      rfl

end OscHost.Files.OpenFile
