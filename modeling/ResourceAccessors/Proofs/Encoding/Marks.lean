import ResourceAccessors.Proofs.Encoding.Spelling

/-! The bytes of a text in the encodings that have more than one way to write it. A scheme has one
spelling for a text or none; where a mark or a signature may stand in front there are a few, and
decoding takes exactly these for the text. -/
namespace ResourceAccessors
set_option autoImplicit false

variable {bytes rest : List UInt8} {cs : List Char} {p : Nat}

/-- A signature that the end of the file cuts short. -/
def Utf8.IsCutSignature (bytes : List UInt8) : Prop :=
  bytes = [0xef] ∨ bytes = [0xef, 0xbb]

/-- The bytes that an encoding reads as a text. Signed UTF-8 takes text with its signature or
without, but text that starts with U+FEFF itself needs one, and a signature that is cut short is empty
text. A marked encoding takes either mark, and none only where there is no text. -/
def Encoding.Spells (e : Encoding) (text : String) (bytes : List UInt8) : Prop :=
  match e with
  | plain scheme => scheme.encode text.toList = .ok bytes
  | signedUtf8 =>
    bytes = Utf8.signature ++ Utf8.encode text.toList ∨
      (bytes = Utf8.encode text.toList ∧ text.toList.head? ≠ some '\uFEFF') ∨
      (Utf8.IsCutSignature bytes ∧ text = "")
  | marked width =>
    (∃ order, bytes = width.mark order ++ width.encode order text.toList) ∨
      (bytes = [] ∧ text = "")

example : (Wide.mark .utf16 .little, Wide.mark .utf16 .big) = ([0xff, 0xfe], [0xfe, 0xff]) := by
  decide

example : (Wide.mark .utf32 .little, Wide.mark .utf32 .big) =
    ([0xff, 0xfe, 0, 0], [0, 0, 0xfe, 0xff]) := by
  decide

theorem Utf8.signature_eq : signature = encodeChar '\uFEFF' := by
  decide

/-- The bytes of a text start with the signature only where the text starts with U+FEFF. -/
theorem Utf8.head?_eq_of_encode_eq (h : encode cs = signature ++ rest) :
    cs.head? = some '\uFEFF' := by
  have hcs : decodeFrom 0 (signature ++ rest) = .ok cs := h ▸ decodeFrom_encode 0 cs
  rw [signature_eq, decodeFrom_encodeChar] at hcs
  cases hrest : decodeFrom (0 + (encodeChar '\uFEFF').length) rest with
  | error fault =>
    rw [hrest] at hcs
    cases hcs
  | ok more =>
    rw [hrest, Except.map, Except.ok.injEq] at hcs
    rw [← hcs, List.head?_cons]

theorem Utf8.exists_encode_eq_signature_append (h : cs.head? = some '\uFEFF') :
    ∃ rest, encode cs = signature ++ rest := by
  obtain ⟨more, rfl⟩ := List.head?_eq_some_iff.1 h
  exact ⟨encode more, by rw [encode, List.flatMap_cons, signature_eq]; rfl⟩

theorem Utf8.decode_eq_ok_iff : Scheme.utf8.decode bytes = .ok cs ↔ bytes = Utf8.encode cs := by
  rw [Scheme.decode, Scheme.decodeFrom_eq_ok_iff, Scheme.encode, Except.ok.injEq, eq_comm]

theorem Encoding.decodeSigned_of_cut (h : Utf8.IsCutSignature bytes) :
    decodeSigned bytes = .ok [] := by
  obtain rfl | rfl := h <;> rfl

theorem Encoding.decodeSigned_of_unsigned (hcut : ¬ Utf8.IsCutSignature bytes)
    (hsigned : ∀ rest, bytes ≠ Utf8.signature ++ rest) :
    decodeSigned bytes = Scheme.utf8.decode bytes := by
  have htake : bytes.take 3 ≠ Utf8.signature := fun htake =>
    hsigned (bytes.drop 3) (by rw [← htake, List.take_append_drop])
  rw [decodeSigned, if_neg htake]
  split
  · next hcond =>
    simp only [Bool.and_eq_true, decide_eq_true_eq] at hcond
    obtain ⟨hlength, heq⟩ := hcond
    rcases bytes with _ | ⟨a, _ | ⟨b, _ | ⟨c, rest⟩⟩⟩
    · rfl
    · exact absurd (.inl heq) hcut
    · exact absurd (.inr heq) hcut
    · simp only [List.length_cons] at hlength
      omega
  · rfl

theorem Utf8.ne_encode_of_cut (h : IsCutSignature bytes) : bytes ≠ Utf8.encode cs := by
  intro hcs
  have hdecode := Utf8.decode_eq_ok_iff.2 hcs
  obtain rfl | rfl := h <;> cases hdecode

theorem Encoding.decodeSigned_eq_ok_iff :
    decodeSigned bytes = .ok cs ↔
      bytes = Utf8.signature ++ Utf8.encode cs ∨
        (bytes = Utf8.encode cs ∧ cs.head? ≠ some '\uFEFF') ∨
        (Utf8.IsCutSignature bytes ∧ cs = []) := by
  by_cases hsigned : ∃ rest, bytes = Utf8.signature ++ rest
  · obtain ⟨rest, rfl⟩ := hsigned
    rw [decodeSigned_signature_append, Utf8.decode_eq_ok_iff, List.append_cancel_left_eq]
    refine ⟨.inl, ?_⟩
    rintro (hrest | ⟨hcs, hhead⟩ | ⟨hcut | hcut, -⟩)
    · exact hrest
    · exact absurd (Utf8.head?_eq_of_encode_eq hcs.symm) hhead
    all_goals simp [Utf8.signature] at hcut
  · rw [not_exists] at hsigned
    by_cases hcut : Utf8.IsCutSignature bytes
    · rw [decodeSigned_of_cut hcut, Except.ok.injEq]
      constructor
      · exact fun hcs => .inr (.inr ⟨hcut, hcs.symm⟩)
      · rintro (hcs | ⟨hcs, -⟩ | ⟨-, hcs⟩)
        · exact absurd hcs (hsigned _)
        · exact absurd hcs (Utf8.ne_encode_of_cut hcut)
        · exact hcs.symm
    · rw [decodeSigned_of_unsigned hcut hsigned, Utf8.decode_eq_ok_iff]
      constructor
      · intro hcs
        refine .inr (.inl ⟨hcs, fun hhead => ?_⟩)
        obtain ⟨rest, hrest⟩ := Utf8.exists_encode_eq_signature_append hhead
        exact hsigned rest (hcs.trans hrest)
      · rintro (hcs | ⟨hcs, -⟩ | ⟨hcut', -⟩)
        · exact absurd hcs (hsigned _)
        · exact hcs
        · exact absurd hcut' hcut

theorem Wide.decodeFrom_eq_ok_iff {width : Wide} {order : ByteOrder} :
    (width.scheme order).decodeFrom p bytes = .ok cs ↔ bytes = width.encode order cs := by
  rw [Scheme.decodeFrom_eq_ok_iff, encode_scheme, Except.ok.injEq, eq_comm]

theorem Wide.length_mark (width : Wide) (order : ByteOrder) :
    (width.mark order).length = (width.mark .little).length := by
  cases width <;> cases order <;> rfl

theorem Wide.mark_append_inj {width : Wide} {order other : ByteOrder} {more : List UInt8}
    (h : width.mark order ++ rest = width.mark other ++ more) : order = other ∧ rest = more := by
  have hlength := (width.length_mark order).trans (width.length_mark other).symm
  obtain ⟨hmark, hrest⟩ := List.append_inj h hlength
  refine ⟨?_, hrest⟩
  cases width <;> cases order <;> cases other <;> first | rfl | cases hmark

/-- Without a mark there may only be no text. -/
theorem Wide.decode_unmarked {width : Wide}
    (h : ∀ order rest, bytes ≠ width.mark order ++ rest) :
    width.decode bytes = .ok cs ↔ bytes = [] ∧ cs = [] := by
  have htake : ∀ order, bytes.take (width.mark .little).length ≠ width.mark order :=
    fun order htake => h order (bytes.drop (width.mark .little).length)
      (by rw [← htake, List.take_append_drop])
  have hnil : bytes = [] ↔ (width.scheme .little).decode bytes = .ok [] := by
    rw [Scheme.decode, decodeFrom_eq_ok_iff]
    cases width <;> rfl
  simp only [decode, if_neg (htake .little), if_neg (htake .big), hnil]
  cases (width.scheme .little).decode bytes with
  | error fault => simp
  | ok text => cases text <;> simp [eq_comm]

theorem Wide.decode_eq_ok_iff {width : Wide} :
    width.decode bytes = .ok cs ↔
      (∃ order, bytes = width.mark order ++ width.encode order cs) ∨ (bytes = [] ∧ cs = []) := by
  by_cases hmarked : ∃ order rest, bytes = width.mark order ++ rest
  · obtain ⟨order, rest, rfl⟩ := hmarked
    rw [decode_mark_append, decodeFrom_eq_ok_iff]
    constructor
    · exact fun hrest => .inl ⟨order, hrest ▸ rfl⟩
    · rintro (⟨other, h⟩ | ⟨h, -⟩)
      · obtain ⟨rfl, hrest⟩ := mark_append_inj h
        exact hrest
      · cases width <;> cases order <;> cases h
  · simp only [not_exists] at hmarked
    rw [decode_unmarked hmarked]
    refine ⟨.inr, ?_⟩
    rintro (⟨order, h⟩ | h)
    · exact absurd h (hmarked order _)
    · exact h

/-- An encoding reads bytes as the text they spell, and as no other. -/
theorem Encoding.decode_eq_ok_iff {e : Encoding} {text : String} :
    e.decode bytes = .ok text ↔ e.Spells text bytes := by
  have htext : ∀ decoded : Except DecodeFault (List Char),
      decoded.map String.ofList = .ok text ↔ decoded = .ok text.toList := by
    intro decoded
    cases decoded with
    | error fault => simp [Except.map]
    | ok cs =>
      simp only [Except.map, Except.ok.injEq]
      exact ⟨fun h => h ▸ String.toList_ofList.symm, fun h => h ▸ String.ofList_toList⟩
  have hempty : text = "" ↔ text.toList = [] := String.toList_eq_nil_iff.symm
  cases e with
  | plain scheme => exact (htext _).trans Scheme.decodeFrom_eq_ok_iff
  | signedUtf8 =>
    rw [Spells, hempty]
    exact (htext _).trans decodeSigned_eq_ok_iff
  | marked width =>
    rw [Spells, hempty]
    exact (htext _).trans Wide.decode_eq_ok_iff

/-- Bytes that spell no text have a fault, and bytes that spell one have none. -/
theorem Encoding.exists_decode_eq_error_iff {e : Encoding} :
    (∃ fault, e.decode bytes = .error fault) ↔ ∀ text, ¬ e.Spells text bytes := by
  simp only [← decode_eq_ok_iff]
  cases e.decode bytes <;> simp

theorem Encoding.decode_plain_eq_error_iff {scheme : Scheme} {fault : DecodeFault} :
    (plain scheme).decode bytes = .error fault ↔ scheme.decodeFrom 0 bytes = .error fault := by
  change (scheme.decodeFrom 0 bytes).map String.ofList = .error fault ↔ _
  cases scheme.decodeFrom 0 bytes <;> simp [Except.map]

end ResourceAccessors
