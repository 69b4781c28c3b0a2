import ResourceAccessors.Proofs.Conversion.Effect
import ResourceAccessors.Proofs.FileSystem.Alike

/-! The same conversion in two file systems, one grown out of the other. Where its output is apart
from what the one has more, it ends alike in both: it is given the same answer, and the directories
it needs are there already or added. Only where the lookup of its output meets a name that is too
long in one of them does it fail later in the other, which is no failure of the file if the answer
is no text. And only where too many directories of its output are missing in the other is it given up
there. -/
namespace ResourceAccessors
set_option autoImplicit false

open ResourceAccessors.Action

namespace FileSystem.Alike

variable {lean full lean' full' : FileSystem} {outputs : List Location} {p : Path}

/-! ## Text files -/

theorem differs (h : Alike outputs lean full) (hp : p.Plain) (hclear : Clear outputs p)
    (content : Value) (encoding : String) :
    TextFile.differs full p content encoding = TextFile.differs lean p content encoding ∨
      (TextFile.differs lean p content encoding = .ok true ∧
        TextFile.differs full p content encoding = .error (.file (.obstructed .nameTooLong p)) ∧
        full.EndsTooLong p.names ∧ checkPath p = .ok () ∧ outputs ≠ []) := by
  rcases h.lookup hp hclear with ⟨hentry, hread⟩ | ⟨hlean, hfull, hends⟩
  · refine .inl ?_
    unfold TextFile.differs
    rw [hentry]
    cases hthere : lean.hasEntry p with
    | error fault => rfl
    | ok isThere =>
      cases isThere with
      | false => rfl
      | true =>
        unfold TextFile.read
        rw [hread hthere]
  · refine .inr ⟨?_, ?_, hends⟩
    · simp only [TextFile.differs, hlean]
    · simp only [TextFile.differs, hfull]

/-- Whether two attempts to write a file end alike: in success or in faults of one kind. -/
inductive EndsAlike : Except TextFault Unit → Except TextFault Unit → Prop
  | written : EndsAlike (.ok ()) (.ok ())
  | failed (fault fault' : TextFault) : fault.isOfFile = fault'.isOfFile →
      EndsAlike (.error fault) (.error fault')

theorem isOfFile_of_ofLookup {fault : FileFault} (h : fault.OfLookup p) (hnul : ¬ p.HoldsNul) :
    (TextFault.file fault).isOfFile = true := by
  cases h with
  | obstacle => rfl
  | nul hholds => exact absurd hholds hnul

theorem endsAlike_of_makeDirectories {limit : CallLimit} {fault fault' : FileFault}
    (hshallow : ¬ lean.TooDeep limit p) (hshallow' : ¬ full.TooDeep limit p)
    (hlean : (lean.makeDirectories limit p).1 = .error fault)
    (hfull : (full.makeDirectories limit p).1 = .error fault') :
    EndsAlike (.error (.file fault)) (.error (.file fault')) := by
  by_cases hnul : p.HoldsNul
  · rw [makeDirectories_of_holdsNul hnul] at hlean hfull
    exact .failed _ _ (by rw [Except.error.inj hlean.symm, Except.error.inj hfull.symm])
  · have hother : ∀ {fs : FileSystem} {f : FileFault}, ¬ fs.TooDeep limit p →
        (fs.makeDirectories limit p).1 = .error f → (TextFault.file f).isOfFile = true := by
      intro fs f hnot hf
      rcases makeDirectories_error hf with ⟨hdeep, -⟩ | ⟨-, hlookup⟩
      · exact absurd hdeep hnot
      · exact isOfFile_of_ofLookup hlookup hnul
    exact .failed _ _ ((hother hshallow hlean).trans (hother hshallow' hfull).symm)

theorem writeBytes (h : Alike outputs lean full) (hp : p.Plain) (hclear : Clear outputs p)
    (hshallow : ¬ lean.TooDeep lean.limits.outputs p.parent) (bytes : List UInt8) :
    EndsAlike (TextFile.writeBytes lean p bytes).1 (TextFile.writeBytes full p bytes).1 ∧
      Alike outputs (TextFile.writeBytes lean p bytes).2 (TextFile.writeBytes full p bytes).2 := by
  unfold TextFile.writeBytes
  rw [h.grown.keeps.limits]
  generalize lean.limits.outputs = limit at hshallow
  obtain ⟨hiff, hready⟩ :=
    h.makeDirectories hp.parent (hclear.aside.of_prefix (List.dropLast_prefix _)) hshallow
  have hway : (lean.makeDirectories limit p.parent).1 = .ok () → ∀ {way}, way <+: p.names →
      (full.makeDirectories limit p.parent).2.entryAt way =
        (lean.makeDirectories limit p.parent).2.entryAt way :=
    fun hok _ hpre => h.way_eq hp hclear hok hpre
  have hfailed : ∀ {fault fault'}, (lean.makeDirectories limit p.parent).1 = .error fault →
      (full.makeDirectories limit p.parent).1 = .error fault' →
        EndsAlike (.error (.file fault)) (.error (.file fault')) :=
    endsAlike_of_makeDirectories hshallow (h.not_tooDeep hshallow)
  cases hlean : lean.makeDirectories limit p.parent with
  | mk result lean' =>
    cases hfull : full.makeDirectories limit p.parent with
    | mk result' full' =>
      rw [hlean, hfull] at hiff hready hway hfailed
      cases result with
      | error fault =>
        cases result' with
        | error fault' => exact ⟨hfailed rfl rfl, hready⟩
        | ok u => simp at hiff
      | ok u =>
        cases result' with
        | error fault' => simp at hiff
        | ok u' =>
          rcases hready.write hp (hway rfl) bytes with
            ⟨fault, hl, hf⟩ | ⟨lean'', full'', hl, hf, hlast⟩
          · simp only [hl, hf]
            exact ⟨.failed _ _ rfl, hready⟩
          · simp only [hl, hf]
            exact ⟨.written, hlast⟩

theorem writeText (h : Alike outputs lean full) (hp : p.Plain) (hclear : Clear outputs p)
    (hshallow : ¬ lean.TooDeep lean.limits.outputs p.parent) (content : Value)
    (encoding : String) :
    EndsAlike (TextFile.write lean p content encoding).1
        (TextFile.write full p content encoding).1 ∧
      Alike outputs (TextFile.write lean p content encoding).2
        (TextFile.write full p content encoding).2 := by
  unfold TextFile.write
  cases hb : TextFile.bytesOf content encoding with
  | error fault => exact ⟨.failed _ _ rfl, h⟩
  | ok bytes => exact h.writeBytes hp hclear hshallow bytes

/-- Where a name that is too long stands behind a directory of the one, no file is written in the
other. -/
theorem writeBytes_of_endsTooLong (h : Alike outputs lean full) (hp : p.Plain)
    (hlooked : checkPath p = .ok ()) (hends : full.EndsTooLong p.names)
    (hshallow : ¬ lean.TooDeep lean.limits.outputs p.parent) (bytes : List UInt8) :
    ∃ fault lean', TextFile.writeBytes lean p bytes = (.error fault, lean') ∧
      fault.isOfFile = true ∧ Alike outputs lean' full := by
  have hready := h.makeDirectories_of_endsTooLong hp hlooked hends hshallow
  have hnul := (checkPath_eq_ok_iff.1 hlooked).1
  unfold TextFile.writeBytes
  cases hlean : lean.makeDirectories lean.limits.outputs p.parent with
  | mk result lean' =>
    rw [hlean] at hready
    cases result with
    | error fault =>
      refine ⟨_, lean', rfl, ?_, hready⟩
      rcases makeDirectories_error (congrArg Prod.fst hlean) with ⟨hdeep, -⟩ | ⟨-, hlookup⟩
      · exact absurd hdeep hshallow
      · exact isOfFile_of_ofLookup hlookup fun hholds => hnul hholds.of_parent
    | ok u =>
      simp only
      cases hw : lean'.write p bytes with
      | error fault => exact ⟨_, lean', rfl, isOfFile_of_ofLookup (ofLookup_of_write hw) hnul, hready⟩
      | ok written => exact absurd (hready.leanLinkFree.fits_of_write hp hw) hends.not_fits

end FileSystem.Alike

/-! ## Conversions -/

open FileSystem

/-- An answer that cannot fail in another way than its file does: it is a text, or the names of its
path are short enough to be looked up. -/
def Generated.Sound (g : Generated) : Prop :=
  g.content.isText = true ∨ Fits g.destination.names

namespace Conversion

variable {settings : Settings} {converter other : Converter} {ordinal : Nat} {source : SourceFile}
  {lean full full' : FileSystem} {outputs : List Location} {o : Outcome} {g : Generated}

/-- A file that cannot be looked up in the one cannot be written in the other. -/
theorem unwritable_of_endsTooLong (h : Alike outputs lean full) (hp : g.destination.Plain)
    (hlooked : checkPath g.destination = .ok ()) (hends : full.EndsTooLong g.destination.names)
    (hcodec : ∃ e, TextFile.encodingOf .transformWritten settings.encoding = .ok e)
    (hsound : g.Sound) (hshallow : ¬ lean.TooDeep lean.limits.outputs g.destination.parent) :
    ∃ fault lean', TextFile.write lean g.destination g.content settings.encoding =
        (.error fault, lean') ∧ fault.isOfFile = true ∧ Alike outputs lean' full := by
  obtain ⟨e, he⟩ := hcodec
  have htext := hsound.resolve_right hends.not_fits
  unfold TextFile.write
  cases hb : TextFile.bytesOf g.content settings.encoding with
  | ok bytes => exact h.writeBytes_of_endsTooLong hp hlooked hends hshallow bytes
  | error fault =>
    refine ⟨fault, lean, rfl, ?_, h⟩
    unfold TextFile.bytesOf at hb
    split at hb
    · rw [he] at hb
      simp only at hb
      split at hb
      · rw [Except.error.injEq] at hb
        exact hb ▸ rfl
      · simp at hb
    · next hne => cases hv : g.content <;> simp_all [Value.isText]

/-- What is to be written in the one is to be written in the other. -/
theorem differs_of_alike (h : Alike outputs lean full) (hp : g.destination.Plain)
    (hclear : Clear outputs g.destination)
    (hd : TextFile.differs full g.destination g.content settings.encoding = .ok true) :
    TextFile.differs lean g.destination g.content settings.encoding = .ok true := by
  rcases h.differs hp hclear g.content settings.encoding with hsame | ⟨hlean, -⟩
  · exact hsame ▸ hd
  · exact hlean

/-- A conversion that ends in the one file system ends alike in the other. -/
theorem step_alike (h : Alike outputs lean full)
    (hconsult : consult other (request settings ordinal source) lean =
      consult converter (request settings ordinal source) full)
    (hstep : (step settings converter ordinal source).Returns full o full')
    (hplain : ∀ p, o.output = some p → p.Plain) (hclear : ∀ p, o.output = some p → Clear outputs p)
    (hcodec : outputs ≠ [] →
      ∃ e, TextFile.encodingOf .transformWritten settings.encoding = .ok e)
    (hsound : ∀ g, consult converter (request settings ordinal source) full = .ok (.generated g) →
      g.Sound ∧ ¬ lean.TooDeep lean.limits.outputs g.destination.parent) :
    ∃ o' lean', (step settings other ordinal source).Returns lean o' lean' ∧
      o'.status = o.status ∧ o'.output = o.output ∧ Alike outputs lean' full' := by
  obtain ⟨events, hrun⟩ := hstep
  have hs := stepped settings converter ordinal source full
  rw [hrun] at hs
  cases hs with
  | complained thrown hc hcontained =>
    exact ⟨_, lean, returns_of_complaint (hconsult.trans hc) hcontained, rfl, rfl, h⟩
  | unreadable g fault hc hd hof =>
    have hg := hconsult.trans hc
    have hp := hplain _ rfl
    rcases h.differs hp (hclear _ rfl) g.content settings.encoding with
      hsame | ⟨hlean, -, hends, hlooked, hne⟩
    · exact ⟨_, lean, returns_of_unreadable hg (hsame ▸ hd) hof, rfl, rfl, h⟩
    · obtain ⟨cause, lean', hw, hcause, hlast⟩ :=
        unwritable_of_endsTooLong h hp hlooked hends (hcodec hne) (hsound g hc).1 (hsound g hc).2
      exact ⟨_, lean', returns_of_unwritable hg hlean hw hcause, rfl, rfl, hlast⟩
  | unchanged g hc hd =>
    have hg := hconsult.trans hc
    rcases h.differs (hplain _ rfl) (hclear _ rfl) g.content settings.encoding with
      hsame | ⟨-, hfull, -⟩
    · exact ⟨_, lean, returns_of_unchanged hg (hsame ▸ hd), rfl, rfl, h⟩
    · simp [hfull] at hd
  | unwritable g fault partway hc hd hw hof =>
    have hlean := differs_of_alike h (hplain _ rfl) (hclear _ rfl) hd
    obtain ⟨hends, hlast⟩ :=
      h.writeText (hplain _ rfl) (hclear _ rfl) (hsound g hc).2 g.content settings.encoding
    rw [hw] at hends hlast
    cases hwl : TextFile.write lean g.destination g.content settings.encoding with
    | mk result lean' =>
      rw [hwl] at hends hlast
      cases hends with
      | failed cause _ hsame =>
        exact ⟨_, lean', returns_of_unwritable (hconsult.trans hc) hlean hwl (hsame.trans hof), rfl,
          rfl, hlast⟩
  | converted g after hc hd hw =>
    have hlean := differs_of_alike h (hplain _ rfl) (hclear _ rfl) hd
    obtain ⟨hends, hlast⟩ :=
      h.writeText (hplain _ rfl) (hclear _ rfl) (hsound g hc).2 g.content settings.encoding
    rw [hw] at hends hlast
    cases hwl : TextFile.write lean g.destination g.content settings.encoding with
    | mk result lean' =>
      rw [hwl] at hends hlast
      cases hends with
      | written =>
        exact ⟨_, lean', returns_of_written (hconsult.trans hc) hlean hwl, rfl, rfl, hlast⟩

end Conversion

end ResourceAccessors
