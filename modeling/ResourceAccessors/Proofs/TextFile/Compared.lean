import ResourceAccessors.Proofs.Encoding.Marks
import ResourceAccessors.Proofs.TextFile

/-! What a comparison says of a file with given bytes. The file is decoded and the texts compared, so
that it is left alone exactly where its bytes spell the text. In an encoding without a mark or a
signature these are the bytes that would be written; a file that another program has written with
the other mark, or without a signature, is left alone as well. -/
namespace ResourceAccessors.TextFile
set_option autoImplicit false

variable {fs : FileSystem} {p : Path} {loc : Location} {bytes : List UInt8}
  {encoding text : String} {e : Encoding}

/-! ## Names of encodings -/

/-- The usual names of the encodings that write nothing in front of a text. -/
def unmarkedNames : List (String × Scheme) := [
  ("utf-8", .utf8), ("latin-1", .latin1), ("ascii", .ascii), ("cp1252", .cp1252),
  ("utf-16-le", .utf16 .little), ("utf-16-be", .utf16 .big), ("utf-32-le", .utf32 .little),
  ("utf-32-be", .utf32 .big)]

/-- The usual names of the encodings that write a mark or a signature in front of a text. -/
def markedNames : List (String × Encoding) := [
  ("utf-8-sig", .signedUtf8), ("utf-16", .marked .utf16), ("utf-32", .marked .utf32)]

theorem encodingOf_unmarkedNames (transform : String → CodecFault) :
    ∀ named ∈ unmarkedNames, encodingOf transform named.1 = .ok (.plain named.2) := by
  have hnames : ∀ named ∈ unmarkedNames,
      hasNul named.1 = false ∧ Codec.ofName? named.1 = some (.text (.plain named.2)) := by
    decide +kernel
  exact fun named hnamed => encodingOf_eq_ok.2 (hnames named hnamed)

theorem encodingOf_markedNames (transform : String → CodecFault) :
    ∀ named ∈ markedNames, encodingOf transform named.1 = .ok named.2 := by
  have hnames : ∀ named ∈ markedNames,
      hasNul named.1 = false ∧ Codec.ofName? named.1 = some (.text named.2) := by
    decide +kernel
  exact fun named hnamed => encodingOf_eq_ok.2 (hnames named hnamed)

/-! ## Files that can be read -/

theorem bytesOf_text_eq_ok_iff (hencoding : encodingOf .transformWritten encoding = .ok e) :
    bytesOf (.text text) encoding = .ok bytes ↔ e.encode text = .ok bytes := by
  simp only [bytesOf, hencoding]
  cases e.encode text <;> simp

/-- The comparison with a file that is there. -/
theorem differs_of_file (hencoding : encodingOf .transformWritten encoding = .ok e)
    (hlocate : fs.locate p = .ok loc) (hfile : fs.entryAt loc = some (.file bytes))
    (text : String) :
    differs fs p (.text text) encoding =
      match e.decode bytes with
      | .ok old => .ok (old ≠ text)
      | .error fault => .error (.decode fault) := by
  have hnul := (encodingOf_eq_ok.1 hencoding).1
  simp only [differs, read, FileSystem.hasEntry_of_locate hlocate hfile, hnul,
    FileSystem.read_of_locate hlocate hfile, readingEncoding_of_encodingOf hencoding,
    Bool.false_eq_true, if_false]
  cases e.decode bytes <;> rfl

section
variable (hencoding : encodingOf .transformWritten encoding = .ok e)
  (hlocate : fs.locate p = .ok loc) (hfile : fs.entryAt loc = some (.file bytes))
include hencoding hlocate hfile

theorem differs_eq_false_iff_spells :
    differs fs p (.text text) encoding = .ok false ↔ e.Spells text bytes := by
  rw [differs_of_file hencoding hlocate hfile, ← Encoding.decode_eq_ok_iff]
  cases e.decode bytes <;> simp

theorem differs_eq_true_iff_spells :
    differs fs p (.text text) encoding = .ok true ↔ ∃ old, old ≠ text ∧ e.Spells old bytes := by
  simp only [differs_of_file hencoding hlocate hfile, ← Encoding.decode_eq_ok_iff]
  cases e.decode bytes <;> simp

theorem differs_eq_decode_iff {fault : DecodeFault} :
    differs fs p (.text text) encoding = .error (.decode fault) ↔
      e.decode bytes = .error fault := by
  rw [differs_of_file hencoding hlocate hfile]
  cases e.decode bytes <;> simp

end

/-! ## Encodings without a mark -/

/-- In such an encoding a file is left alone exactly if its bytes are the ones that would be
written. Of the files that are not, those whose bytes would be written for another text are taken
for changed, and the rest are no text of this encoding. -/
theorem differs_plain {scheme : Scheme}
    (hencoding : encodingOf .transformWritten encoding = .ok (.plain scheme))
    (hlocate : fs.locate p = .ok loc) (hfile : fs.entryAt loc = some (.file bytes))
    (text : String) :
    (differs fs p (.text text) encoding = .ok false ↔
        bytesOf (.text text) encoding = .ok bytes) ∧
      (differs fs p (.text text) encoding = .ok true ↔
        ∃ other, other ≠ text ∧ bytesOf (.text other) encoding = .ok bytes) ∧
      ((∃ position offending flaw, differs fs p (.text text) encoding =
          .error (.decode (.malformed scheme position offending flaw))) ↔
        ∀ other, bytesOf (.text other) encoding ≠ .ok bytes) := by
  have hwritten : ∀ other, bytesOf (.text other) encoding = .ok bytes ↔
      (Encoding.plain scheme).Spells other bytes := fun _ => bytesOf_text_eq_ok_iff hencoding
  simp only [ne_eq, hwritten]
  refine ⟨differs_eq_false_iff_spells hencoding hlocate hfile,
    differs_eq_true_iff_spells hencoding hlocate hfile, ?_⟩
  simp only [differs_eq_decode_iff hencoding hlocate hfile, Encoding.decode_plain_eq_error_iff]
  rw [Scheme.decodeFrom_eq_malformed_iff]
  -- Every list of characters is that of a string.
  exact ⟨fun h other => h other.toList, fun h cs hcs =>
    h (String.ofList cs) (by rw [Encoding.Spells, String.toList_ofList]; exact hcs)⟩

/-- One file, with the bytes of U+FEFF and a letter in UTF-16. -/
def markedFile : FileSystem :=
  (FileSystem.empty .usual).set ["f"] (.file [0xfe, 0xff, 0, 0x63])

def markedFilePath : Path := .ofString "/f"

theorem locate_markedFilePath : markedFile.locate markedFilePath = .ok ["f"] := by
  rfl

/-- Without a mark U+FEFF is a character, and its bytes in the other order are that of another. -/
theorem differs_plain_markedFile :
    differs markedFile markedFilePath (.text "\uFEFFc") "utf-16-be" = .ok false ∧
      differs markedFile markedFilePath (.text "c") "utf-16-be" = .ok true ∧
      differs markedFile markedFilePath (.text "\uFEFFc") "utf-16-le" = .ok true ∧
      (∃ position offending flaw, differs markedFile markedFilePath (.text "c") "utf-8" =
        .error (.decode (.malformed .utf8 position offending flaw))) := by
  have hnamed := encodingOf_unmarkedNames .transformWritten
  have hbig := hnamed ("utf-16-be", .utf16 .big) (by decide)
  have hlittle := hnamed ("utf-16-le", .utf16 .little) (by decide)
  have hutf8 := hnamed ("utf-8", .utf8) (by decide)
  have hfile : markedFile.entryAt ["f"] = some (.file [0xfe, 0xff, 0, 0x63]) := rfl
  have hwritten : bytesOf (.text "\uFEFFc") "utf-16-be" = .ok [0xfe, 0xff, 0, 0x63] :=
    (bytesOf_text_eq_ok_iff hbig).2 rfl
  have hother : bytesOf (.text "\uFFFE\u6300") "utf-16-le" = .ok [0xfe, 0xff, 0, 0x63] :=
    (bytesOf_text_eq_ok_iff hlittle).2 rfl
  refine ⟨(differs_plain hbig locate_markedFilePath hfile _).1.2 hwritten,
    (differs_plain hbig locate_markedFilePath hfile _).2.1.2 ⟨_, by decide, hwritten⟩,
    (differs_plain hlittle locate_markedFilePath hfile _).2.1.2 ⟨_, by decide, hother⟩,
    (differs_plain hutf8 locate_markedFilePath hfile _).2.2.2 fun other hutf => ?_⟩
  have hdecode := Encoding.decode_encode ((bytesOf_text_eq_ok_iff hutf8).1 hutf)
  cases hdecode

/-! ## Encodings with a mark or a signature -/

/-- A file is left alone exactly if its bytes spell the text. On other bytes a comparison says that
the file has changed or that it cannot be decoded, and the latter exactly if they spell no text. -/
theorem differs_spelled (hencoding : encodingOf .transformWritten encoding = .ok e)
    (hlocate : fs.locate p = .ok loc) (hfile : fs.entryAt loc = some (.file bytes))
    (text : String) :
    (differs fs p (.text text) encoding = .ok false ↔ e.Spells text bytes) ∧
      (¬ e.Spells text bytes → differs fs p (.text text) encoding = .ok true ∨
        ∃ fault, differs fs p (.text text) encoding = .error (.decode fault)) ∧
      ((∃ fault, differs fs p (.text text) encoding = .error (.decode fault)) ↔
        ∀ other, ¬ e.Spells other bytes) := by
  refine ⟨differs_eq_false_iff_spells hencoding hlocate hfile, fun hother => ?_, ?_⟩
  · rw [← Encoding.decode_eq_ok_iff] at hother
    rw [differs_of_file hencoding hlocate hfile]
    cases hdecode : e.decode bytes with
    | ok old =>
      have hne : old ≠ text := fun h => hother (hdecode.trans (congrArg _ h))
      exact .inl (congrArg _ (decide_eq_true hne))
    | error fault => exact .inr ⟨fault, rfl⟩
  · simp only [differs_eq_decode_iff hencoding hlocate hfile]
    exact Encoding.exists_decode_eq_error_iff

/-- A mark of either order is taken off and is no part of the text, and there is none of these in
UTF-8. -/
theorem differs_spelled_markedFile :
    differs markedFile markedFilePath (.text "c") "utf-16" = .ok false ∧
      differs markedFile markedFilePath (.text "\uFEFFc") "utf-16" = .ok true ∧
      (∃ fault, differs markedFile markedFilePath (.text "c") "utf-8-sig" =
        .error (.decode fault)) := by
  have hnamed := encodingOf_markedNames .transformWritten
  have hwide := hnamed ("utf-16", .marked .utf16) (by decide)
  have hsigned := hnamed ("utf-8-sig", .signedUtf8) (by decide)
  have hfile : markedFile.entryAt ["f"] = some (.file [0xfe, 0xff, 0, 0x63]) := rfl
  have hspells : (Encoding.marked .utf16).Spells "c" [0xfe, 0xff, 0, 0x63] := .inl ⟨.big, rfl⟩
  have hmark : ¬ (Encoding.marked .utf16).Spells "\uFEFFc" [0xfe, 0xff, 0, 0x63] := by
    rw [← Encoding.decode_eq_ok_iff, Encoding.decode_eq_ok_iff.2 hspells, Except.ok.injEq]
    decide
  obtain ⟨-, hchanged, hfault⟩ := differs_spelled hwide locate_markedFilePath hfile "\uFEFFc"
  refine ⟨(differs_spelled hwide locate_markedFilePath hfile _).1.2 hspells,
    (hchanged hmark).resolve_right fun h => hfault.1 h "c" hspells,
    (differs_spelled hsigned locate_markedFilePath hfile _).2.2.2 fun other hother => ?_⟩
  have hdecode := Encoding.decode_eq_ok_iff.2 hother
  cases hdecode

end ResourceAccessors.TextFile
