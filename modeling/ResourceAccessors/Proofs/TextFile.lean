import ResourceAccessors.TextFile
import ResourceAccessors.Proofs.Encoding.RoundTrip
import ResourceAccessors.Proofs.FileSystem.Faults
import ResourceAccessors.Proofs.FileSystem.Plain

/-! Text files that were written. The bytes of a text are read back as that text by the same
encoding name, though the names that mean an encoding for reading are not quite those that mean one
for writing: whatever can be written under a name can be read under it. -/
namespace ResourceAccessors.TextFile
set_option autoImplicit false

variable {fs after : FileSystem} {p : Path} {content : Value} {encoding s : String}
  {bytes : List UInt8}

/-! ## Encoding names -/

theorem encodingOf_eq_ok {transform : String → CodecFault} {e : Encoding} :
    encodingOf transform encoding = .ok e ↔
      hasNul encoding = false ∧ Codec.ofName? encoding = some (.text e) := by
  unfold encodingOf
  cases hnul : hasNul encoding with
  | true => simp
  | false =>
    cases hname : Codec.ofName? encoding with
    | none => simp
    | some codec => cases codec <;> simp

theorem ofName?_surroundings : Codec.ofName? surroundings = none := by
  decide +kernel

theorem readingEncoding_of_encodingOf {transform : String → CodecFault} {e : Encoding}
    (h : encodingOf transform encoding = .ok e) : readingEncoding encoding = .ok e := by
  have hname := (encodingOf_eq_ok.1 h).2
  have hne : encoding ≠ surroundings := by
    rintro rfl
    simp [ofName?_surroundings] at hname
  rw [readingEncoding, if_neg hne]
  exact encodingOf_eq_ok.2 (encodingOf_eq_ok.1 h)

/-! ## Contents -/

theorem bytesOf_eq_ok (h : bytesOf content encoding = .ok bytes) :
    ∃ s e, content = .text s ∧ encodingOf .transformWritten encoding = .ok e ∧
      e.encode s = .ok bytes := by
  unfold bytesOf at h
  split at h
  · next s =>
    split at h
    · simp at h
    · next e he =>
      split at h
      · simp at h
      · next b hb =>
        simp only [Except.ok.injEq] at h
        exact ⟨s, e, rfl, he, h ▸ hb⟩
  · simp at h

theorem read_of_bytesOf (hb : bytesOf (.text s) encoding = .ok bytes)
    (hr : fs.read p = .ok bytes) : read fs p encoding = .ok s := by
  obtain ⟨t, e, ht, he, hencode⟩ := bytesOf_eq_ok hb
  rw [Value.text.injEq] at ht
  subst ht
  have hnul := (encodingOf_eq_ok.1 he).1
  simp only [read, hnul, hr, readingEncoding_of_encodingOf he, Encoding.decode_encode hencode,
    Bool.false_eq_true, if_false]

/-- A file does not differ from a text exactly if it is there and read as that text. -/
theorem differs_eq_false_iff :
    differs fs p (.text s) encoding = .ok false ↔
      fs.hasEntry p = .ok true ∧ read fs p encoding = .ok s := by
  unfold differs
  split
  · next hentry => simp [hentry]
  · next hentry => simp [hentry]
  · next hentry =>
    split
    · next hread => simp [hread]
    · next old hread => simp [hentry, hread]

theorem isText_of_differs_eq_false (h : differs fs p content encoding = .ok false) :
    ∃ s, content = .text s := by
  unfold differs at h
  split at h
  · simp at h
  · simp at h
  · split at h
    · simp at h
    · split at h
      · next s => exact ⟨s, rfl⟩
      · simp at h

theorem hasEntry_of_differs_eq_false (h : differs fs p content encoding = .ok false) :
    fs.hasEntry p = .ok true := by
  unfold differs at h
  split at h
  · simp at h
  · simp at h
  · next hentry => exact hentry

/-- A file that does not differ from a text is there, and its bytes are decoded to the text. -/
theorem exists_file_of_differs {e : Encoding} (hname : Codec.ofName? encoding = some (.text e))
    (h : differs fs p (.text s) encoding = .ok false) :
    ∃ loc bytes, fs.locate p = .ok loc ∧ fs.entryAt loc = some (.file bytes) ∧
      e.decode bytes = .ok s := by
  have hread := (differs_eq_false_iff.1 h).2
  unfold read at hread
  split at hread
  · simp at hread
  · next hnul =>
    have hencoding : encodingOf .transformRead encoding = .ok e :=
      encodingOf_eq_ok.2 ⟨Bool.eq_false_iff.2 hnul, hname⟩
    have hreading := readingEncoding_of_encodingOf hencoding
    split at hread
    · simp at hread
    · next bytes hbytes =>
      rw [hreading] at hread
      simp only at hread
      split at hread
      · simp at hread
      · next text htext =>
        rw [Except.ok.injEq] at hread
        obtain ⟨loc, hloc, hfile⟩ := FileSystem.read_eq_ok_iff.1 hbytes
        exact ⟨loc, bytes, hloc, hfile, hread ▸ htext⟩

/-- A comparison depends on the entry its path leads to and on nothing else. -/
theorem differs_congr (hentry : after.hasEntry p = fs.hasEntry p)
    (hread : after.read p = fs.read p) :
    differs after p content encoding = differs fs p content encoding := by
  simp only [differs, read, hentry, hread]

/-! ## Faults that are not of the file -/

theorem isOfFile_file_eq_false {fault : FileFault} :
    (TextFault.file fault).isOfFile = false ↔ ∀ o q, fault ≠ .obstructed o q := by
  cases fault <;> simp [TextFault.isOfFile]

/-- A comparison fails for another reason than the file exactly if the file can be read and the
encoding cannot be used for it. -/
theorem differs_eq_error_iff {fault : TextFault} (hnul : hasNul encoding = false) :
    (differs fs p content encoding = .error fault ∧ fault.isOfFile = false) ↔
      ∃ bytes c, fs.read p = .ok bytes ∧ readingEncoding encoding = .error c ∧
        fault = .codec c := by
  constructor
  · rintro ⟨h, hof⟩
    unfold differs at h
    split at h
    · next f hentry =>
      simp only [Except.error.injEq] at h
      rw [← h, isOfFile_file_eq_false] at hof
      obtain ⟨o, q, hobstructed⟩ := FileSystem.obstructed_of_leadsTo hentry
      exact absurd hobstructed (hof o q)
    · simp at h
    · next hentry =>
      split at h
      · next f hread =>
        simp only [Except.error.injEq] at h
        subst h
        simp only [read, hnul, Bool.false_eq_true, if_false] at hread
        split at hread
        · next g hg =>
          simp only [Except.error.injEq] at hread
          rw [← hread, isOfFile_file_eq_false] at hof
          cases FileSystem.ofLookup_of_read hg with
          | obstacle o q => exact absurd rfl (hof o q)
          | nul hholds => exact absurd hholds (FileSystem.not_holdsNul_of_hasEntry hentry)
        · next bytes hbytes =>
          split at hread
          · next c hc =>
            simp only [Except.error.injEq] at hread
            exact ⟨bytes, c, hbytes, hc, hread.symm⟩
          · split at hread
            · simp only [Except.error.injEq] at hread
              simp [← hread, TextFault.isOfFile] at hof
            · simp at hread
      · split at h <;> simp at h
  · rintro ⟨bytes, c, hbytes, hc, rfl⟩
    have hentry := FileSystem.hasEntry_of_read hbytes
    simp only [differs, hentry, read, hnul, hbytes, hc, Bool.false_eq_true, if_false]
    simp [TextFault.isOfFile]

theorem writeBytes_eq (fs : FileSystem) (p : Path) (bytes : List UInt8) :
    writeBytes fs p bytes = ((fs.save fs.limits.outputs p bytes).1.mapError .file,
      (fs.save fs.limits.outputs p bytes).2) := by
  unfold writeBytes FileSystem.save
  cases fs.makeDirectories fs.limits.outputs p.parent with
  | mk result ready =>
    cases result with
    | error fault => rfl
    | ok => cases hwrite : ready.write p bytes <;> simp only [hwrite] <;> rfl

theorem save_of_writeBytes {bytes : List UInt8} (h : writeBytes fs p bytes = (.ok (), after)) :
    fs.save fs.limits.outputs p bytes = (.ok (), after) := by
  rw [writeBytes_eq] at h
  cases hsave : fs.save fs.limits.outputs p bytes with
  | mk result partway =>
    rw [hsave, Prod.mk.injEq] at h
    obtain ⟨hresult, rfl⟩ := h
    cases result with
    | error cause => cases hresult
    | ok => rfl

theorem save_of_writeBytes_error {bytes : List UInt8} {fault : TextFault}
    (h : writeBytes fs p bytes = (.error fault, after)) :
    ∃ cause, fs.save fs.limits.outputs p bytes = (.error cause, after) := by
  rw [writeBytes_eq] at h
  cases hsave : fs.save fs.limits.outputs p bytes with
  | mk result partway =>
    rw [hsave, Prod.mk.injEq] at h
    obtain ⟨hresult, rfl⟩ := h
    cases result with
    | error cause => exact ⟨cause, rfl⟩
    | ok => cases hresult

/-- Writing fails for another reason than the file exactly if there are no bytes for the content
for such a reason, or if there are and the file is refused. -/
theorem write_eq_error_iff {fault : TextFault} :
    ((write fs p content encoding).1 = .error fault ∧ fault.isOfFile = false) ↔
      (bytesOf content encoding = .error fault ∧ fault.isOfFile = false) ∨
        ((∃ bytes, bytesOf content encoding = .ok bytes) ∧
          ∃ cause, fs.Refuses fs.limits.outputs p cause ∧ fault = .file cause) := by
  unfold write
  cases hb : bytesOf content encoding with
  | error f => simp
  | ok bytes =>
    simp only [writeBytes_eq, reduceCtorEq, false_and, Except.ok.injEq, exists_eq', true_and,
      false_or, ← FileSystem.save_refuses_iff bytes]
    cases (fs.save fs.limits.outputs p bytes).1 with
    | ok =>
      change ((Except.ok () : Except TextFault Unit) = .error fault ∧ _) ↔ _
      simp
    | error cause =>
      change ((Except.error (.file cause) : Except TextFault Unit) = .error fault ∧ _) ↔ _
      simp only [Except.error.injEq]
      constructor
      · rintro ⟨rfl, hof⟩
        exact ⟨cause, ⟨rfl, isOfFile_file_eq_false.1 hof⟩, rfl⟩
      · rintro ⟨_, ⟨rfl, hof⟩, rfl⟩
        exact ⟨rfl, isOfFile_file_eq_false.2 hof⟩

/-! ## Writing -/

/-- Writing text that did not fail: the directories above the file were added, and then the bytes
were written. -/
structure Saved (fs : FileSystem) (p : Path) (content : Value) (encoding : String)
    (after : FileSystem) (bytes : List UInt8) (ready : FileSystem) (place : Place) : Prop where
  encoded : bytesOf content encoding = .ok bytes
  made : FileSystem.Made p.parent fs ready
  written : ready.Written p bytes after place

theorem saved_of_write (h : write fs p content encoding = (.ok (), after)) :
    ∃ bytes ready place, Saved fs p content encoding after bytes ready place := by
  unfold write at h
  split at h
  · simp at h
  · next bytes hb =>
    obtain ⟨ready, place, hmade, hwritten⟩ := FileSystem.written_of_save (save_of_writeBytes h)
    exact ⟨bytes, ready, place, hb, hmade, hwritten⟩

namespace Saved

variable {ready : FileSystem} {place : Place}

theorem isTree (h : Saved fs p content encoding after bytes ready place) (htree : fs.IsTree) :
    after.IsTree :=
  h.written.isTree (h.made.isTree htree)

theorem locate (h : Saved fs p content encoding after bytes ready place) (htree : fs.IsTree) :
    after.locate p = .ok place.location :=
  h.written.locate (h.made.isTree htree)

theorem differs_eq_false (h : Saved fs p (.text s) encoding after bytes ready place)
    (htree : fs.IsTree) : differs after p (.text s) encoding = .ok false := by
  have hl := h.locate htree
  have hf := h.written.entryAt_location
  exact differs_eq_false_iff.2 ⟨FileSystem.hasEntry_of_locate hl hf,
    read_of_bytesOf h.encoded (FileSystem.read_of_locate hl hf)⟩

theorem grown (h : Saved fs p content encoding after bytes ready place) (htree : fs.IsTree)
    (hl : fs.LinkFree) (hp : p.Plain) : after.LinkFree ∧ FileSystem.Grown [p.names] fs after := by
  have habove : p.parent.names <+: p.names := List.dropLast_prefix p.names
  obtain ⟨hready, hmade⟩ := h.made.grown hl hp.parent habove
  obtain ⟨hafter, hwritten⟩ := h.written.grown (h.made.isTree htree) hready hp
  exact ⟨hafter, hmade.trans hwritten⟩

end Saved

end ResourceAccessors.TextFile
