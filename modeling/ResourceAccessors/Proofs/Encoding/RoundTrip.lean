import ResourceAccessors.Encoding.Octets

/-! Decoding what was encoded. A scheme writes every character as bytes that it reads back as that
character, whatever comes behind them, so that a whole text comes back; of the marks in front of a
text, exactly the one that the encoding wrote is taken off again. -/
namespace ResourceAccessors
set_option autoImplicit false

/-- No character is a surrogate or lies behind U+10FFFF. -/
theorem toNat_range (c : Char) :
    c.toNat < 0xd800 ∨ (0xdfff < c.toNat ∧ c.toNat < 0x110000) := c.valid

theorem toNat_byte {n : Nat} (h : n < 0x100) : (UInt8.ofNat n).toNat = n := by
  rw [UInt8.toNat_ofNat']
  omega

/-- A decoder that reads back the bytes of one character, whatever is behind them, reads back the
bytes of a text. -/
theorem decode_flatMap {ε : Type} {decode : Nat → List UInt8 → Except ε (List Char)}
    {bytes : Char → List UInt8} (hnil : ∀ p, decode p [] = .ok [])
    (hcons : ∀ p c rest, decode p (bytes c ++ rest) =
      (decode (p + (bytes c).length) rest).map (c :: ·))
    (p : Nat) (cs : List Char) : decode p (cs.flatMap bytes) = .ok cs := by
  induction cs generalizing p with
  | nil => exact hnil p
  | cons c cs ih =>
    rw [List.flatMap_cons, hcons, ih]
    rfl

/-! ## UTF-8 -/

namespace Utf8

theorem isTail_ofNat {n : Nat} (h : n < 0x40) : isTail (.ofNat (0x80 + n)) = true := by
  simp only [isTail, toNat_byte (show 0x80 + n < 0x100 by omega), Bool.and_eq_true, decide_eq_true_eq]
  omega

theorem isSecond_three {n : Nat} (h1 : 0x800 ≤ n) (h2 : n < 0x10000)
    (h3 : n < 0xd800 ∨ 0xdfff < n) :
    isSecond (.ofNat (0xe0 + n / 0x1000)) (.ofNat (0x80 + n / 0x40 % 0x40)) = true := by
  have hs := isTail_ofNat (show n / 0x40 % 0x40 < 0x40 by omega)
  have hb := toNat_byte (show 0x80 + n / 0x40 % 0x40 < 0x100 by omega)
  simp only [isSecond, hs, hb, toNat_byte (show 0xe0 + n / 0x1000 < 0x100 by omega), Bool.true_and]
  split <;> first | (simp only [decide_eq_true_eq]; omega) | rfl

theorem isSecond_four {n : Nat} (h1 : 0x10000 ≤ n) (h2 : n < 0x110000) :
    isSecond (.ofNat (0xf0 + n / 0x40000)) (.ofNat (0x80 + n / 0x1000 % 0x40)) = true := by
  have hs := isTail_ofNat (show n / 0x1000 % 0x40 < 0x40 by omega)
  have hb := toNat_byte (show 0x80 + n / 0x1000 % 0x40 < 0x100 by omega)
  simp only [isSecond, hs, hb, toNat_byte (show 0xf0 + n / 0x40000 < 0x100 by omega), Bool.true_and]
  split <;> first | (simp only [decide_eq_true_eq]; omega) | rfl

theorem assemble_eq {lead : Nat} {tails : List UInt8} {c : Char}
    (h : tails.foldl (fun n b => n * 0x40 + (b.toNat - 0x80)) lead = c.toNat) :
    assemble lead tails = c := by
  rw [assemble, h, Char.ofNat_toNat]

theorem decodeFrom_encodeChar (p : Nat) (c : Char) (rest : List UInt8) :
    decodeFrom p (encodeChar c ++ rest) =
      (decodeFrom (p + (encodeChar c).length) rest).map (c :: ·) := by
  have hc := toNat_range c
  have ht : ∀ m, m % 0x40 < 0x40 := fun m => Nat.mod_lt m (by omega)
  have hv : ∀ m, (UInt8.ofNat (0x80 + m % 0x40)).toNat = 0x80 + m % 0x40 :=
    fun m => toNat_byte (by have := ht m; omega)
  by_cases h1 : c.toNat < 0x80
  · have ha := toNat_byte (show c.toNat < 0x100 by omega)
    have he : assemble c.toNat [] = c := assemble_eq rfl
    simp only [encodeChar, h1, if_true, List.singleton_append, List.length_singleton]
    rw [decodeFrom.eq_def]
    simp only [ha, h1, if_true, he]
  by_cases h2 : c.toNat < 0x800
  · have ha := toNat_byte (show 0xc0 + c.toNat / 0x40 < 0x100 by omega)
    have he : assemble (0xc0 + c.toNat / 0x40 - 0xc0) [.ofNat (0x80 + c.toNat % 0x40)] = c :=
      assemble_eq (by simp only [List.foldl_cons, List.foldl_nil, hv]; omega)
    simp only [encodeChar, h1, h2, if_true, if_false, List.cons_append, List.nil_append,
      List.length_cons, List.length_nil]
    rw [decodeFrom.eq_def]
    simp only [ha, isTail_ofNat (ht _), he, if_true, Bool.or_eq_true, decide_eq_true_eq]
    rw [if_neg (by omega), if_neg (by omega), if_pos (by omega)]
  by_cases h3 : c.toNat < 0x10000
  · have ha := toNat_byte (show 0xe0 + c.toNat / 0x1000 < 0x100 by omega)
    have hs := isSecond_three (show 0x800 ≤ c.toNat by omega) h3 (by omega)
    have he : assemble (0xe0 + c.toNat / 0x1000 - 0xe0)
        [.ofNat (0x80 + c.toNat / 0x40 % 0x40), .ofNat (0x80 + c.toNat % 0x40)] = c :=
      assemble_eq (by simp only [List.foldl_cons, List.foldl_nil, hv]; omega)
    simp only [encodeChar, h1, h2, h3, if_true, if_false, List.cons_append, List.nil_append,
      List.length_cons, List.length_nil]
    rw [decodeFrom.eq_def]
    simp only [ha, hs, isTail_ofNat (ht _), he, Bool.not_true, Bool.false_eq_true, if_false,
      Bool.or_eq_true, decide_eq_true_eq]
    rw [if_neg (by omega), if_neg (by omega), if_neg (by omega), if_pos (by omega)]
  · have ha := toNat_byte (show 0xf0 + c.toNat / 0x40000 < 0x100 by omega)
    have hs := isSecond_four (show 0x10000 ≤ c.toNat by omega) (by omega)
    have he : assemble (0xf0 + c.toNat / 0x40000 - 0xf0) [.ofNat (0x80 + c.toNat / 0x1000 % 0x40),
        .ofNat (0x80 + c.toNat / 0x40 % 0x40), .ofNat (0x80 + c.toNat % 0x40)] = c :=
      assemble_eq (by simp only [List.foldl_cons, List.foldl_nil, hv]; omega)
    simp only [encodeChar, h1, h2, h3, if_false, List.cons_append, List.nil_append,
      List.length_cons, List.length_nil]
    rw [decodeFrom.eq_def]
    simp only [ha, hs, isTail_ofNat (ht _), he, Bool.not_true, Bool.false_eq_true, if_false, if_true,
      Bool.or_eq_true, decide_eq_true_eq]
    rw [if_neg (by omega), if_neg (by omega), if_neg (by omega), if_neg (by omega)]

theorem decodeFrom_encode (p : Nat) (cs : List Char) : decodeFrom p (encode cs) = .ok cs :=
  decode_flatMap (fun _ => by rw [decodeFrom]) decodeFrom_encodeChar p cs

end Utf8

/-! ## UTF-16 and UTF-32 -/

namespace Utf16

theorem unitBytes_eq (order : ByteOrder) (unit : Nat) (h : unit < 0x10000) :
    ∃ a b, unitBytes order unit = [a, b] ∧ unitValue order a b = unit := by
  have hl := toNat_byte (show unit % 0x100 < 0x100 by omega)
  have hh := toNat_byte (show unit / 0x100 < 0x100 by omega)
  cases order with
  | little =>
    refine ⟨_, _, rfl, ?_⟩
    simp only [unitValue, hl, hh]
    omega
  | big =>
    refine ⟨_, _, rfl, ?_⟩
    simp only [unitValue, hl, hh]
    omega

theorem decodeFrom_encodeChar (order : ByteOrder) (p : Nat) (c : Char) (rest : List UInt8) :
    decodeFrom order p (encodeChar order c ++ rest) =
      (decodeFrom order (p + (encodeChar order c).length) rest).map (c :: ·) := by
  have hc := toNat_range c
  by_cases h : c.toNat < 0x10000
  · obtain ⟨a, b, hb, hv⟩ := unitBytes_eq order c.toNat h
    have hl : isLow c.toNat = false := by
      simp only [isLow, Bool.and_eq_false_iff, decide_eq_false_iff_not]
      omega
    have hh : isHigh c.toNat = false := by
      simp only [isHigh, Bool.and_eq_false_iff, decide_eq_false_iff_not]
      omega
    simp only [encodeChar, h, if_true, hb, List.cons_append, List.nil_append, List.length_cons,
      List.length_nil]
    rw [decodeFrom.eq_def]
    simp only [hv, hl, hh, Bool.false_eq_true, if_false, Char.ofNat_toNat]
  · obtain ⟨a, b, hab, hv⟩ := unitBytes_eq order (0xd800 + (c.toNat - 0x10000) / 0x400) (by omega)
    obtain ⟨d, e, hde, hw⟩ := unitBytes_eq order (0xdc00 + (c.toNat - 0x10000) % 0x400) (by omega)
    have hl : isLow (0xd800 + (c.toNat - 0x10000) / 0x400) = false := by
      simp only [isLow, Bool.and_eq_false_iff, decide_eq_false_iff_not]
      omega
    have hh : isHigh (0xd800 + (c.toNat - 0x10000) / 0x400) = true := by
      simp only [isHigh, Bool.and_eq_true, decide_eq_true_eq]
      omega
    have hd : isLow (0xdc00 + (c.toNat - 0x10000) % 0x400) = true := by
      simp only [isLow, Bool.and_eq_true, decide_eq_true_eq]
      omega
    have hn : 0x10000 + (0xd800 + (c.toNat - 0x10000) / 0x400 - 0xd800) * 0x400 +
        (0xdc00 + (c.toNat - 0x10000) % 0x400 - 0xdc00) = c.toNat := by omega
    simp only [encodeChar, h, if_false, hab, hde, List.cons_append, List.nil_append,
      List.length_cons, List.length_nil]
    rw [decodeFrom.eq_def]
    simp only [hv, hw, hl, hh, hd, hn, Bool.false_eq_true, if_false, if_true, Char.ofNat_toNat]

theorem decodeFrom_encode (order : ByteOrder) (p : Nat) (cs : List Char) :
    decodeFrom order p (encode order cs) = .ok cs :=
  decode_flatMap (fun _ => by rw [decodeFrom]) (decodeFrom_encodeChar order) p cs

end Utf16

namespace Utf32

theorem unitBytes_eq (order : ByteOrder) (unit : Nat) (h : unit < 0x100000000) :
    ∃ a b c d, unitBytes order unit = [a, b, c, d] ∧ unitValue order a b c d = unit := by
  have h0 := toNat_byte (show unit % 0x100 < 0x100 by omega)
  have h1 := toNat_byte (show unit / 0x100 % 0x100 < 0x100 by omega)
  have h2 := toNat_byte (show unit / 0x10000 % 0x100 < 0x100 by omega)
  have h3 := toNat_byte (show unit / 0x1000000 < 0x100 by omega)
  cases order with
  | little =>
    refine ⟨_, _, _, _, rfl, ?_⟩
    simp only [unitValue, h0, h1, h2, h3]
    omega
  | big =>
    refine ⟨_, _, _, _, rfl, ?_⟩
    simp only [unitValue, h0, h1, h2, h3]
    omega

theorem decodeFrom_unitBytes (order : ByteOrder) (p : Nat) (c : Char) (rest : List UInt8) :
    decodeFrom order p (unitBytes order c.toNat ++ rest) =
      (decodeFrom order (p + (unitBytes order c.toNat).length) rest).map (c :: ·) := by
  have hc := toNat_range c
  obtain ⟨a, b, d, e, hb, hv⟩ := unitBytes_eq order c.toNat (by omega)
  have hs : (decide (0xd800 ≤ c.toNat) && decide (c.toNat < 0xe000)) = false := by
    simp only [Bool.and_eq_false_iff, decide_eq_false_iff_not]
    omega
  simp only [hb, List.cons_append, List.nil_append, List.length_cons, List.length_nil]
  rw [decodeFrom.eq_def]
  simp only [hv, hs, Bool.false_eq_true, if_false, show ¬ 0x110000 ≤ c.toNat by omega,
    Char.ofNat_toNat]

theorem decodeFrom_encode (order : ByteOrder) (p : Nat) (cs : List Char) :
    decodeFrom order p (encode order cs) = .ok cs :=
  decode_flatMap (fun _ => by rw [decodeFrom]) (decodeFrom_unitBytes order) p cs

end Utf32

/-! ## One byte for every character -/

namespace SingleByte

theorem codePoint?_of_byte?_cp1252 {c : Char} {b : UInt8} (h : byte? .cp1252 c = some b) :
    codePoint? .cp1252 b = some c.toNat := by
  simp only [byte?] at h
  split at h
  · next hr =>
    simp only [Option.some.injEq] at h
    simp only [Bool.or_eq_true, Bool.and_eq_true, decide_eq_true_eq] at hr
    have hb := toNat_byte (show c.toNat < 0x100 by omega)
    rw [← h]
    simp only [codePoint?, hb, Bool.or_eq_true, decide_eq_true_eq]
    rw [if_pos (by omega)]
  · next hr =>
    obtain ⟨i, hi, rfl⟩ := Option.map_eq_some_iff.1 h
    obtain ⟨hlt, hget, -⟩ := List.idxOf?_eq_some_iff.1 hi
    have hlen : cp1252Middle.length = 32 := by decide
    have hb := toNat_byte (show 0x80 + i < 0x100 by omega)
    have hz : c.toNat ≠ 0 := by
      intro hz
      simp [hz] at hr
    have hs : cp1252Middle[0x80 + i - 0x80]? = some c.toNat := by
      rw [Nat.add_sub_cancel_left, List.getElem?_eq_getElem hlt, hget]
    simp only [codePoint?, hb, hs, Bool.or_eq_true, decide_eq_true_eq]
    rw [if_neg (by omega)]

theorem codePoint?_of_byte? {scheme : Scheme} {c : Char} {b : UInt8}
    (h : byte? scheme c = some b) : codePoint? scheme b = some c.toNat := by
  cases scheme with
  | cp1252 => exact codePoint?_of_byte?_cp1252 h
  | ascii =>
    simp only [byte?, Option.ite_none_right_eq_some, Option.some.injEq] at h
    rw [← h.2]
    simp only [codePoint?, toNat_byte (show c.toNat < 0x100 by omega), h.1, if_true]
  | _ =>
    simp only [byte?, Option.ite_none_right_eq_some, Option.some.injEq] at h
    rw [← h.2]
    simp only [codePoint?, toNat_byte h.1]

theorem decodeFrom_encodeFrom {scheme : Scheme} {cs : List Char} {bytes : List UInt8} {p : Nat}
    (h : encodeFrom scheme p cs = .ok bytes) (q : Nat) : decodeFrom scheme q bytes = .ok cs := by
  induction cs generalizing bytes p q with
  | nil =>
    simp only [encodeFrom, Except.ok.injEq] at h
    rw [← h]
    rfl
  | cons c cs ih =>
    simp only [encodeFrom] at h
    split at h
    · next b hb =>
      cases he : encodeFrom scheme (p + 1) cs with
      | error fault => simp [he, Except.map] at h
      | ok more =>
        simp only [he, Except.map, Except.ok.injEq] at h
        rw [← h]
        simp only [decodeFrom, codePoint?_of_byte? hb, ih he, Except.map, Char.ofNat_toNat]
    · simp at h

end SingleByte

/-! ## Schemes and encodings -/

theorem Scheme.decodeFrom_encode {scheme : Scheme} {cs : List Char} {bytes : List UInt8}
    (h : scheme.encode cs = .ok bytes) (p : Nat) : scheme.decodeFrom p bytes = .ok cs := by
  cases scheme with
  | utf8 =>
    simp only [encode, Except.ok.injEq] at h
    exact h ▸ Utf8.decodeFrom_encode p cs
  | utf16 order =>
    simp only [encode, Except.ok.injEq] at h
    exact h ▸ Utf16.decodeFrom_encode order p cs
  | utf32 order =>
    simp only [encode, Except.ok.injEq] at h
    exact h ▸ Utf32.decodeFrom_encode order p cs
  | latin1 => exact SingleByte.decodeFrom_encodeFrom h p
  | ascii => exact SingleByte.decodeFrom_encodeFrom h p
  | cp1252 => exact SingleByte.decodeFrom_encodeFrom h p

theorem Wide.encode_scheme (width : Wide) (order : ByteOrder) (cs : List Char) :
    (width.scheme order).encode cs = .ok (width.encode order cs) := by
  cases width <;> rfl

theorem Wide.decode_mark_append (width : Wide) (order : ByteOrder) (rest : List UInt8) :
    width.decode (width.mark order ++ rest) =
      (width.scheme order).decodeFrom (width.mark .little).length rest := by
  cases width <;> cases order <;> rfl

theorem Encoding.decodeSigned_signature_append (bytes : List UInt8) :
    decodeSigned (Utf8.signature ++ bytes) = Scheme.utf8.decode bytes := by
  have hl : (Utf8.signature ++ bytes).length = 3 + bytes.length := by
    rw [List.length_append]
    rfl
  have ht : (Utf8.signature ++ bytes).take 3 = Utf8.signature := List.take_left' rfl
  have hlong : decide (3 + bytes.length < 3) = false := decide_eq_false (by omega)
  simp only [decodeSigned, hl, ht, hlong, Bool.false_and, Bool.false_eq_true, if_false, if_true]
  rfl

/-- What an encoding writes it reads back. -/
theorem Encoding.decode_encode {e : Encoding} {text : String} {bytes : List UInt8}
    (h : e.encode text = .ok bytes) : e.decode bytes = .ok text := by
  have hmap : Except.map String.ofList (.ok text.toList : Except DecodeFault (List Char)) =
      .ok text := by
    rw [Except.map, String.ofList_toList]
  rw [← hmap]
  cases e with
  | plain scheme => exact congrArg (Except.map _) (Scheme.decodeFrom_encode h 0)
  | signedUtf8 =>
    simp only [encode, Except.ok.injEq] at h
    have hd := (decodeSigned_signature_append _).trans (Utf8.decodeFrom_encode 0 text.toList)
    exact congrArg (Except.map _) (h ▸ hd)
  | marked width =>
    simp only [encode, Except.ok.injEq] at h
    have hd := (width.decode_mark_append .little _).trans
      (Scheme.decodeFrom_encode (width.encode_scheme .little text.toList) _)
    exact congrArg (Except.map _) (h ▸ hd)

end ResourceAccessors
