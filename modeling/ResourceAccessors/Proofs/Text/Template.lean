import ResourceAccessors.Text.Template

/-! Templates whose slots are plain. Where the words between them hold no percent sign, a slot for a
text takes the text as it is, whatever signs it holds, and a slot for a number takes its digits. -/
namespace ResourceAccessors.Text
set_option autoImplicit false

/-- A part of a message: words of the program, a text that is put in, or a number. -/
inductive Part where
  | words (s : String)
  | shown (s : String)
  | counted (n : Nat)
  deriving DecidableEq

namespace Part

/-- A part as it stands in the template. -/
def stated : Part → List Char
  | words s => s.toList
  | shown _ => ['%', 's']
  | counted _ => ['%', 'd']

def argument? : Part → Option Argument
  | words _ => none
  | shown s => some (.text s)
  | counted n => some (.integer n)

/-- A part as it is read in the message. -/
def spoken : Part → List Char
  | words s => s.toList
  | shown s => s.toList
  | counted n => (toString n).toList

def Plain : Part → Prop
  | words s => '%' ∉ s.toList
  | shown _ | counted _ => True

end Part

/-! ## Pieces -/

/-- A slot with nothing but its conversion. -/
def Slot.bare (c : Char) (behind : Nat) : Slot where
  key := .unset
  flags := ⟨false, false, false, false, false⟩
  width := .unset
  precision := .unset
  conversion := some c
  behind := behind

theorem pieces_append {cs : List Char} (h : '%' ∉ cs) (rest : List Char) :
    pieces (cs ++ rest) = cs.map .literal ++ pieces rest := by
  induction cs with
  | nil => rfl
  | cons c cs ih =>
    have hc : c ≠ '%' := fun e => h (e ▸ List.mem_cons_self ..)
    have hr : '%' ∉ cs := fun hm => h (List.mem_cons_of_mem c hm)
    rw [List.cons_append, pieces.eq_def]
    split
    · simp_all
    · simp_all
    · next heq =>
      obtain ⟨rfl, rfl⟩ := List.cons.inj heq
      simp [hc, ih hr]

theorem pieces_slot {c : Char} (h : c = 's' ∨ c = 'd') (rest : List Char) :
    pieces ('%' :: c :: rest) = .slot (Slot.bare c rest.length) :: pieces rest := by
  have hread : Slot.read (c :: rest) = (Slot.bare c rest.length, rest) := by
    rcases h with rfl | rfl <;> rfl
  have hc : c ≠ '%' := by
    rcases h with rfl | rfl <;> decide
  rw [pieces.eq_def]
  split
  · simp_all
  · simp_all
  · next heq =>
    obtain ⟨rfl, rfl⟩ := List.cons.inj heq
    simp [hread]

theorem fillPieces_append (total : Nat) (s : Supply) (cs : List Char) (rest : List Piece) :
    fillPieces total s (cs.map .literal ++ rest) = (fillPieces total s rest).map (cs ++ ·) := by
  induction cs with
  | nil =>
    cases h : fillPieces total s rest <;> simp [h, Except.map]
  | cons c cs ih =>
    rw [List.map_cons, List.cons_append, fillPieces, ih]
    cases fillPieces total s rest <;> rfl

/-- Nothing is added to what is written into a slot without a width. -/
theorem fill_eq_body {c : Char} {a : Argument} {w : Written} {flags : Flags} {precision : Option Nat}
    {index : Nat} (hflags : flags.left = false)
    (hw : Conversion.write flags precision c index a = .ok w) :
    Conversion.fill flags none precision c index a = .ok (w.sign ++ w.base ++ w.body) := by
  have hlongest : ¬ Conversion.longest ≤ 0 := by decide
  unfold Conversion.fill
  rw [hw]
  simp only [Option.getD_none, if_neg hlongest, Written.pad, hflags, Nat.zero_sub,
    List.replicate_zero, List.nil_append, Bool.false_eq_true, if_false, Number.zeros]
  split <;> simp

theorem fillSlot_bare {total behind : Nat} {c : Char} {a : Argument} {w : Written}
    {fields : Option (List (String × Argument))} (more : List Argument)
    (hw : Conversion.write (Slot.bare c behind).flags none c (total - behind - 1) a = .ok w) :
    fillSlot total (Slot.bare c behind) ⟨a :: more, fields⟩ =
      .ok (w.sign ++ w.base ++ w.body, ⟨more, fields⟩) := by
  have hfill := fill_eq_body rfl hw
  change (do
    let written ← Conversion.fill (Slot.bare c behind).flags none none c (total - behind - 1) a
    return (written, (⟨more, fields⟩ : Supply))) = _
  rw [hfill]
  rfl

theorem write_text (flags : Flags) (index : Nat) (s : String) :
    Conversion.write flags none 's' index (.text s) = .ok (.plain s.toList) := rfl

theorem write_number (behind index n : Nat) :
    Conversion.write (Slot.bare 'd' behind).flags none 'd' index (.integer n) =
      .ok ⟨[], [], (toString n).toList, true⟩ := by
  have hdigits : (toString n).toList = Nat.toDigits 10 n := String.toList_ofList
  have hsign : ¬ (n : Int) < 0 := by omega
  have hmost : ¬ Conversion.mostDigits < (none : Option Nat).getD 0 := by decide
  have hlongest : ¬ Conversion.longest ≤ (none : Option Nat).getD 0 := by decide
  change Conversion.writeInteger _ none 10 [] n = _
  unfold Conversion.writeInteger
  rw [if_neg hmost, if_neg hlongest, hdigits]
  simp [Conversion.signOf, hsign, Slot.bare, Number.padDigits, Number.zeros]

/-! ## Templates -/

/-- Filling the template of some parts gives the parts as they are read. -/
theorem fillPieces_parts {parts : List Part} (h : ∀ p ∈ parts, p.Plain) (total : Nat) :
    fillPieces total ⟨parts.filterMap Part.argument?, none⟩ (pieces (parts.flatMap Part.stated)) =
      .ok (parts.flatMap Part.spoken) := by
  induction parts with
  | nil => simp [pieces, fillPieces]
  | cons p parts ih =>
    have ih := ih fun p' hp' => h p' (List.mem_cons_of_mem p hp')
    rw [List.flatMap_cons, List.flatMap_cons]
    cases p with
    | words s =>
      have hs : '%' ∉ s.toList := h (.words s) (List.mem_cons_self ..)
      rw [Part.stated, pieces_append hs, fillPieces_append,
        List.filterMap_cons_none (by rfl), ih]
      rfl
    | shown s =>
      rw [Part.stated, List.cons_append, List.cons_append, List.nil_append, pieces_slot (.inl rfl),
        List.filterMap_cons_some (by rfl), fillPieces, fillSlot_bare _ (write_text _ _ s)]
      simp only [ih]
      rfl
    | counted n =>
      rw [Part.stated, List.cons_append, List.cons_append, List.nil_append, pieces_slot (.inr rfl),
        List.filterMap_cons_some (by rfl), fillPieces, fillSlot_bare _ (write_number _ _ n)]
      simp only [ih]
      rfl

theorem fill_parts {parts : List Part} (h : ∀ p ∈ parts, p.Plain)
    (hslot : parts.filterMap Part.argument? ≠ []) :
    fill (String.ofList (parts.flatMap Part.stated)) (parts.filterMap Part.argument?) =
      .ok (String.ofList (parts.flatMap Part.spoken)) := by
  have hnone : (parts.filterMap Part.argument?).isEmpty = false := by
    rw [List.isEmpty_eq_false_iff]
    exact hslot
  have hsupply : Supply.ofArguments (parts.filterMap Part.argument?) =
      ⟨parts.filterMap Part.argument?, none⟩ := by
    unfold Supply.ofArguments
    split
    · next first more hrecord =>
      have hmem : Argument.record (first :: more) ∈ parts.filterMap Part.argument? := by
        rw [hrecord]
        exact List.mem_singleton_self _
      obtain ⟨p, -, hp⟩ := List.mem_filterMap.1 hmem
      cases p <;> simp [Part.argument?] at hp
    · rfl
  unfold fill
  rw [if_neg (by rw [hnone]; decide), hsupply, String.toList_ofList]
  simp only [fillPieces_parts h]
  rfl

end ResourceAccessors.Text
