import ResourceAccessors.Proofs.Encoding.RoundTrip

/-! The bytes that spell a text. Decoding in a scheme takes one character after another off the
bytes, and what it takes off is what that character is written as; so it ends in a text only where
the bytes are what the text is written as, and stops at malformed bytes everywhere else. -/
namespace ResourceAccessors
set_option autoImplicit false

theorem toNat_ofNat {n : Nat} (h : n < 0xd800 ∨ (0xdfff < n ∧ n < 0x110000)) :
    (Char.ofNat n).toNat = n := by
  rw [Char.ofNat, dif_pos h]
  rfl

theorem ofNat_eq_of_toNat {n : Nat} {b : UInt8} (h : n = b.toNat) : UInt8.ofNat n = b := by
  rw [h, UInt8.ofNat_toNat]

/-- How the decoding of bytes in a scheme can end: in a text that is written as these bytes, or
where they are malformed. -/
inductive Scheme.Ends (scheme : Scheme) (bytes : List UInt8) :
    Except DecodeFault (List Char) → Prop
  | text (cs : List Char) : scheme.encode cs = .ok bytes → Ends scheme bytes (.ok cs)
  | malformed (position : Nat) (offending : List UInt8) (flaw : Flaw) :
      Ends scheme bytes (.error (.malformed scheme position offending flaw))

variable {bytes rest : List UInt8} {r : Except DecodeFault (List Char)} {c : Char}
  {cs : List Char} {p : Nat}

/-- One character is taken off, and the rest decoded. -/
theorem Scheme.Ends.cons {scheme : Scheme} (h : scheme.Ends rest r)
    (hc : ∀ cs, scheme.encode cs = .ok rest → scheme.encode (c :: cs) = .ok bytes) :
    scheme.Ends bytes (r.map (c :: ·)) := by
  cases h with
  | text cs hcs => exact .text _ (hc cs hcs)
  | malformed position offending flaw => exact .malformed _ _ _

/-- A scheme that writes a text character by character. -/
theorem Scheme.Ends.cons_flatMap {scheme : Scheme} {write : Char → List UInt8}
    {char : List UInt8} (hscheme : ∀ cs, scheme.encode cs = .ok (cs.flatMap write))
    (hc : write c = char) (h : scheme.Ends rest r) :
    scheme.Ends (char ++ rest) (r.map (c :: ·)) := by
  refine h.cons fun cs hcs => ?_
  rw [hscheme, Except.ok.injEq] at hcs ⊢
  rw [List.flatMap_cons, hc, hcs]

/-! ## UTF-8 -/

namespace Utf8

theorem toNat_assemble {lead n : Nat} {tails : List UInt8}
    (h : tails.foldl (fun n b => n * 0x40 + (b.toNat - 0x80)) lead = n)
    (hn : n < 0xd800 ∨ (0xdfff < n ∧ n < 0x110000)) : (assemble lead tails).toNat = n := by
  rw [assemble, h, toNat_ofNat hn]

theorem isTail_range {b : UInt8} (h : isTail b = true) : 0x80 ≤ b.toNat ∧ b.toNat < 0xc0 := by
  simpa [isTail] using h

/-- A second byte is one that follows, and behind some first bytes not every one may. -/
theorem isSecond_range {a b : UInt8} (h : isSecond a b = true) :
    (0x80 ≤ b.toNat ∧ b.toNat < 0xc0) ∧ (a.toNat = 0xe0 → 0xa0 ≤ b.toNat) ∧
      (a.toNat = 0xed → b.toNat < 0xa0) ∧ (a.toNat = 0xf0 → 0x90 ≤ b.toNat) ∧
      (a.toNat = 0xf4 → b.toNat < 0x90) := by
  obtain ⟨htail, hb⟩ := Bool.and_eq_true_iff.1 h
  refine ⟨isTail_range htail, ?_⟩
  split at hb <;> simp_all

theorem encodeChar_assemble_one {a : UInt8} (h : a.toNat < 0x80) :
    encodeChar (assemble a.toNat []) = [a] := by
  have hn : (assemble a.toNat []).toNat = a.toNat := toNat_assemble rfl (by omega)
  simp only [encodeChar, hn, if_pos h, UInt8.ofNat_toNat]

theorem encodeChar_assemble_two {a b : UInt8} (ha : 0xc2 ≤ a.toNat) (ha' : a.toNat < 0xe0)
    (hb : isTail b = true) : encodeChar (assemble (a.toNat - 0xc0) [b]) = [a, b] := by
  have hb := isTail_range hb
  have hn : (assemble (a.toNat - 0xc0) [b]).toNat =
      (a.toNat - 0xc0) * 0x40 + (b.toNat - 0x80) := toNat_assemble rfl (by omega)
  have hfirst := ofNat_eq_of_toNat
    (show 0xc0 + (assemble (a.toNat - 0xc0) [b]).toNat / 0x40 = a.toNat by omega)
  have hsecond := ofNat_eq_of_toNat
    (show 0x80 + (assemble (a.toNat - 0xc0) [b]).toNat % 0x40 = b.toNat by omega)
  simp only [encodeChar, hfirst, hsecond]
  rw [if_neg (by omega), if_pos (by omega)]

theorem encodeChar_assemble_three {a b c : UInt8} (ha : 0xe0 ≤ a.toNat) (ha' : a.toNat < 0xf0)
    (hb : isSecond a b = true) (hc : isTail c = true) :
    encodeChar (assemble (a.toNat - 0xe0) [b, c]) = [a, b, c] := by
  obtain ⟨hb, hlow, hhigh, -, -⟩ := isSecond_range hb
  have hc := isTail_range hc
  have hn : (assemble (a.toNat - 0xe0) [b, c]).toNat =
      ((a.toNat - 0xe0) * 0x40 + (b.toNat - 0x80)) * 0x40 + (c.toNat - 0x80) :=
    toNat_assemble rfl (by omega)
  have hfirst := ofNat_eq_of_toNat
    (show 0xe0 + (assemble (a.toNat - 0xe0) [b, c]).toNat / 0x1000 = a.toNat by omega)
  have hsecond := ofNat_eq_of_toNat
    (show 0x80 + (assemble (a.toNat - 0xe0) [b, c]).toNat / 0x40 % 0x40 = b.toNat by omega)
  have hthird := ofNat_eq_of_toNat
    (show 0x80 + (assemble (a.toNat - 0xe0) [b, c]).toNat % 0x40 = c.toNat by omega)
  simp only [encodeChar, hfirst, hsecond, hthird]
  rw [if_neg (by omega), if_neg (by omega), if_pos (by omega)]

theorem encodeChar_assemble_four {a b c d : UInt8} (ha : 0xf0 ≤ a.toNat) (ha' : a.toNat ≤ 0xf4)
    (hb : isSecond a b = true) (hc : isTail c = true) (hd : isTail d = true) :
    encodeChar (assemble (a.toNat - 0xf0) [b, c, d]) = [a, b, c, d] := by
  obtain ⟨hb, -, -, hlow, hhigh⟩ := isSecond_range hb
  have hc := isTail_range hc
  have hd := isTail_range hd
  have hn : (assemble (a.toNat - 0xf0) [b, c, d]).toNat =
      (((a.toNat - 0xf0) * 0x40 + (b.toNat - 0x80)) * 0x40 + (c.toNat - 0x80)) * 0x40 +
        (d.toNat - 0x80) := toNat_assemble rfl (by omega)
  have hfirst := ofNat_eq_of_toNat
    (show 0xf0 + (assemble (a.toNat - 0xf0) [b, c, d]).toNat / 0x40000 = a.toNat by omega)
  have hsecond := ofNat_eq_of_toNat
    (show 0x80 + (assemble (a.toNat - 0xf0) [b, c, d]).toNat / 0x1000 % 0x40 = b.toNat by omega)
  have hthird := ofNat_eq_of_toNat
    (show 0x80 + (assemble (a.toNat - 0xf0) [b, c, d]).toNat / 0x40 % 0x40 = c.toNat by omega)
  have hfourth := ofNat_eq_of_toNat
    (show 0x80 + (assemble (a.toNat - 0xf0) [b, c, d]).toNat % 0x40 = d.toNat by omega)
  simp only [encodeChar, hfirst, hsecond, hthird, hfourth]
  rw [if_neg (by omega), if_neg (by omega), if_neg (by omega)]

theorem ends_cons {char : List UInt8} (hc : encodeChar c = char) (h : Scheme.utf8.Ends rest r) :
    Scheme.utf8.Ends (char ++ rest) (r.map (c :: ·)) :=
  h.cons_flatMap (fun _ => rfl) hc

theorem ends (p : Nat) (bytes : List UInt8) : Scheme.utf8.Ends bytes (decodeFrom p bytes) := by
  fun_induction decodeFrom p bytes with
  | case1 => exact .text [] rfl
  | case2 p a rest h1 ih => exact ends_cons (encodeChar_assemble_one h1) ih
  | case5 p a h1 hstart b rest h2 hb ih =>
    simp only [Bool.or_eq_true, decide_eq_true_eq, not_or] at hstart
    exact ends_cons (encodeChar_assemble_two (by omega) h2 hb) ih
  | case10 p a h1 hstart b h2 hb c rest hc h3 ih =>
    simp only [Bool.not_eq_true', Bool.not_eq_false] at hb hc
    exact ends_cons (encodeChar_assemble_three (by omega) h3 hb hc) ih
  | case12 p a h1 hstart b h2 hb c hc h3 d rest hd ih =>
    simp only [Bool.or_eq_true, decide_eq_true_eq, not_or] at hstart
    simp only [Bool.not_eq_true', Bool.not_eq_false] at hb hc
    exact ends_cons (encodeChar_assemble_four (by omega) (by omega) hb hc hd) ih
  | _ => exact .malformed _ _ _

end Utf8

/-! ## UTF-16 and UTF-32 -/

namespace Utf16

variable {order : ByteOrder}

theorem unitBytes_unitValue (order : ByteOrder) (a b : UInt8) :
    unitBytes order (unitValue order a b) = [a, b] := by
  have ha := a.toNat_lt
  have hb := b.toNat_lt
  cases order with
  | little =>
    have hlow := ofNat_eq_of_toNat (show (a.toNat + b.toNat * 0x100) % 0x100 = a.toNat by omega)
    have hhigh := ofNat_eq_of_toNat (show (a.toNat + b.toNat * 0x100) / 0x100 = b.toNat by omega)
    simp only [unitBytes, unitValue, hlow, hhigh]
  | big =>
    have hhigh := ofNat_eq_of_toNat (show (a.toNat * 0x100 + b.toNat) / 0x100 = a.toNat by omega)
    have hlow := ofNat_eq_of_toNat (show (a.toNat * 0x100 + b.toNat) % 0x100 = b.toNat by omega)
    simp only [unitBytes, unitValue, hlow, hhigh]

theorem unitValue_lt (order : ByteOrder) (a b : UInt8) : unitValue order a b < 0x10000 := by
  have ha := a.toNat_lt
  have hb := b.toNat_lt
  cases order <;> simp only [unitValue] <;> omega

theorem isHigh_iff {unit : Nat} : isHigh unit = true ↔ 0xd800 ≤ unit ∧ unit < 0xdc00 := by
  simp [isHigh]

theorem isLow_iff {unit : Nat} : isLow unit = true ↔ 0xdc00 ≤ unit ∧ unit < 0xe000 := by
  simp [isLow]

theorem encodeChar_unit {a b : UInt8} (hlow : ¬ isLow (unitValue order a b) = true)
    (hhigh : ¬ isHigh (unitValue order a b) = true) :
    encodeChar order (.ofNat (unitValue order a b)) = [a, b] := by
  rw [isLow_iff] at hlow
  rw [isHigh_iff] at hhigh
  have hlt := unitValue_lt order a b
  have hn : (Char.ofNat (unitValue order a b)).toNat = unitValue order a b :=
    toNat_ofNat (by omega)
  simp only [encodeChar, hn, if_pos hlt, unitBytes_unitValue]

theorem encodeChar_pair {a b c d : UInt8} (hhigh : isHigh (unitValue order a b) = true)
    (hlow : isLow (unitValue order c d) = true) :
    encodeChar order (.ofNat (0x10000 + (unitValue order a b - 0xd800) * 0x400 +
      (unitValue order c d - 0xdc00))) = [a, b, c, d] := by
  rw [isHigh_iff] at hhigh
  rw [isLow_iff] at hlow
  generalize hn : 0x10000 + (unitValue order a b - 0xd800) * 0x400 +
    (unitValue order c d - 0xdc00) = n
  have hc : (Char.ofNat n).toNat = n := toNat_ofNat (by omega)
  have hfirst : 0xd800 + (n - 0x10000) / 0x400 = unitValue order a b := by omega
  have hsecond : 0xdc00 + (n - 0x10000) % 0x400 = unitValue order c d := by omega
  simp only [encodeChar, hc, hfirst, hsecond, unitBytes_unitValue]
  rw [if_neg (by omega)]
  rfl

theorem ends_cons {char : List UInt8} (hc : encodeChar order c = char)
    (h : (Scheme.utf16 order).Ends rest r) :
    (Scheme.utf16 order).Ends (char ++ rest) (r.map (c :: ·)) :=
  h.cons_flatMap (fun _ => rfl) hc

theorem ends (order : ByteOrder) (p : Nat) (bytes : List UInt8) :
    (Scheme.utf16 order).Ends bytes (decodeFrom order p bytes) := by
  fun_induction decodeFrom order p bytes with
  | case1 => exact .text [] rfl
  | case6 p a b unit hlow hhigh c d rest low hpair ih =>
    exact ends_cons (encodeChar_pair hhigh hpair) ih
  | case8 p a b rest unit hlow hhigh ih => exact ends_cons (encodeChar_unit hlow hhigh) ih
  | _ => exact .malformed _ _ _

end Utf16

namespace Utf32

variable {order : ByteOrder}

theorem unitBytes_unitValue (order : ByteOrder) (a b c d : UInt8) :
    unitBytes order (unitValue order a b c d) = [a, b, c, d] := by
  have ha := a.toNat_lt
  have hb := b.toNat_lt
  have hc := c.toNat_lt
  have hd := d.toNat_lt
  have hunit : ∀ w x y z : UInt8, ∀ n,
      n = w.toNat + x.toNat * 0x100 + y.toNat * 0x10000 + z.toNat * 0x1000000 →
      [UInt8.ofNat (n % 0x100), .ofNat (n / 0x100 % 0x100), .ofNat (n / 0x10000 % 0x100),
        .ofNat (n / 0x1000000)] = [w, x, y, z] := by
    intro w x y z n hn
    have hw := w.toNat_lt
    have hx := x.toNat_lt
    have hy := y.toNat_lt
    rw [ofNat_eq_of_toNat (show n % 0x100 = w.toNat by omega),
      ofNat_eq_of_toNat (show n / 0x100 % 0x100 = x.toNat by omega),
      ofNat_eq_of_toNat (show n / 0x10000 % 0x100 = y.toNat by omega),
      ofNat_eq_of_toNat (show n / 0x1000000 = z.toNat by omega)]
  cases order with
  | little => exact hunit a b c d _ rfl
  | big =>
    have hreverse := hunit d c b a (unitValue .big a b c d) (by simp only [unitValue]; omega)
    simp only [unitBytes, hreverse]
    rfl

theorem ends (order : ByteOrder) (p : Nat) (bytes : List UInt8) :
    (Scheme.utf32 order).Ends bytes (decodeFrom order p bytes) := by
  fun_induction decodeFrom order p bytes with
  | case1 => exact .text [] rfl
  | case4 p a b c d rest unit hsurrogate hrange ih =>
    simp only [Bool.and_eq_true, decide_eq_true_eq] at hsurrogate
    have hn : (Char.ofNat unit).toNat = unit := toNat_ofNat (by omega)
    have hc : unitBytes order (Char.ofNat unit).toNat = [a, b, c, d] := by
      rw [hn, unitBytes_unitValue]
    exact ih.cons_flatMap (fun _ => rfl) hc
  | _ => exact .malformed _ _ _

end Utf32

/-! ## One byte for every character -/

namespace SingleByte

variable {scheme : Scheme}

/-- The characters of the middle of code page 1252 are found where they stand. -/
theorem cp1252Middle_idxOf : ∀ i : Fin 32, ∀ code, cp1252Middle[i.val]? = some code → code ≠ 0 →
    0x100 ≤ code ∧ code < 0xd800 ∧ cp1252Middle.idxOf? code = some i.val := by
  decide

theorem byte?_of_codePoint?_cp1252 {b : UInt8} {code : Nat} (h : codePoint? .cp1252 b = some code) :
    byte? .cp1252 (.ofNat code) = some b := by
  have hb := b.toNat_lt
  simp only [codePoint?] at h
  split at h
  · next hr =>
    rw [Option.some.injEq] at h
    subst h
    have hn : (Char.ofNat b.toNat).toNat = b.toNat := toNat_ofNat (by omega)
    simp only [Bool.or_eq_true, decide_eq_true_eq] at hr
    simp only [byte?, hn, UInt8.ofNat_toNat, Bool.or_eq_true, Bool.and_eq_true, decide_eq_true_eq]
    rw [if_pos (by omega)]
  · next hr =>
    simp only [Bool.or_eq_true, decide_eq_true_eq, not_or] at hr
    split at h
    · simp at h
    · simp at h
    · next found hne hfound =>
      rw [Option.some.injEq] at h
      subst h
      obtain ⟨hlow, hhigh, hindex⟩ :=
        cp1252Middle_idxOf ⟨b.toNat - 0x80, by omega⟩ found hfound hne
      have hn : (Char.ofNat found).toNat = found := toNat_ofNat (by omega)
      have hbyte := ofNat_eq_of_toNat (show 0x80 + (b.toNat - 0x80) = b.toNat by omega)
      simp only [byte?, hn, hindex, Option.map_some, hbyte, Bool.or_eq_true, Bool.and_eq_true,
        decide_eq_true_eq]
      rw [if_neg (by omega)]

theorem byte?_of_codePoint? {b : UInt8} {code : Nat} (h : codePoint? scheme b = some code) :
    byte? scheme (.ofNat code) = some b := by
  have hb := b.toNat_lt
  have hn : (Char.ofNat b.toNat).toNat = b.toNat := toNat_ofNat (by omega)
  cases scheme with
  | cp1252 => exact byte?_of_codePoint?_cp1252 h
  | ascii =>
    simp only [codePoint?, Option.ite_none_right_eq_some, Option.some.injEq] at h
    rw [← h.2]
    simp only [byte?, hn, h.1, if_true, UInt8.ofNat_toNat]
  | _ =>
    simp only [codePoint?, Option.some.injEq] at h
    rw [← h]
    simp only [byte?, hn, UInt8.ofNat_toNat]
    rw [if_pos (by omega)]

/-- Where a text has bytes they are the same at every position. -/
theorem encodeFrom_of_eq_ok (h : encodeFrom scheme p cs = .ok bytes) (q : Nat) :
    encodeFrom scheme q cs = .ok bytes := by
  induction cs generalizing bytes p q with
  | nil => exact h
  | cons c cs ih =>
    rw [encodeFrom] at h ⊢
    split at h
    · cases he : encodeFrom scheme (p + 1) cs with
      | error fault => simp [he, Except.map] at h
      | ok more =>
        rw [ih he (q + 1), ← he]
        exact h
    · simp at h

/-- A scheme whose texts are written byte by byte. -/
theorem ends (hscheme : ∀ cs, scheme.encode cs = encodeFrom scheme 0 cs) (p : Nat)
    (bytes : List UInt8) : scheme.Ends bytes (decodeFrom scheme p bytes) := by
  fun_induction decodeFrom scheme p bytes with
  | case1 => exact .text [] (hscheme [])
  | case2 p b rest code hcode ih =>
    refine ih.cons fun cs hcs => ?_
    rw [hscheme] at hcs ⊢
    simp only [encodeFrom, byte?_of_codePoint? hcode, encodeFrom_of_eq_ok hcs 1, Except.map]
  | case3 => exact .malformed _ _ _

end SingleByte

/-! ## Schemes -/

namespace Scheme

theorem ends (scheme : Scheme) (p : Nat) (bytes : List UInt8) :
    scheme.Ends bytes (scheme.decodeFrom p bytes) := by
  cases scheme with
  | utf8 => exact Utf8.ends p bytes
  | utf16 order => exact Utf16.ends order p bytes
  | utf32 order => exact Utf32.ends order p bytes
  | latin1 => exact SingleByte.ends (fun _ => rfl) p bytes
  | ascii => exact SingleByte.ends (fun _ => rfl) p bytes
  | cp1252 => exact SingleByte.ends (fun _ => rfl) p bytes

theorem decodeFrom_eq_ok_iff {scheme : Scheme} :
    scheme.decodeFrom p bytes = .ok cs ↔ scheme.encode cs = .ok bytes := by
  refine ⟨fun h => ?_, fun h => decodeFrom_encode h p⟩
  have hends := scheme.ends p bytes
  rw [h] at hends
  cases hends with
  | text _ hcs => exact hcs

/-- Bytes that no text is written as are malformed. -/
theorem decodeFrom_eq_malformed_iff {scheme : Scheme} :
    (∃ position offending flaw,
        scheme.decodeFrom p bytes = .error (.malformed scheme position offending flaw)) ↔
      ∀ cs, scheme.encode cs ≠ .ok bytes := by
  have hends := scheme.ends p bytes
  constructor
  · rintro ⟨position, offending, flaw, h⟩ cs hcs
    rw [decodeFrom_eq_ok_iff.2 hcs] at h
    simp at h
  · intro hnone
    generalize scheme.decodeFrom p bytes = r at hends
    cases hends with
    | text cs hcs => exact absurd hcs (hnone cs)
    | malformed position offending flaw => exact ⟨position, offending, flaw, rfl⟩

end Scheme

end ResourceAccessors
