import ResourceAccessors.Proofs.Conversion.Escape
import ResourceAccessors.Proofs.Run.Accounting
import ResourceAccessors.Proofs.Run.Course

/-! Encodings that are none. The check of the settings asks whether a codec is known by the name of
the encoding; whether it is an encoding of texts is asked by the first file that is read or written in
it. A run whose settings pass their check therefore ends in a fault of the name exactly if it comes to
a file and the codec is no encoding. -/
namespace ResourceAccessors
set_option autoImplicit false

open ResourceAccessors.Action

/-- The codec is at fault because no encoding goes by its name. -/
def CodecFault.isOfName : CodecFault → Bool
  | unknown _ | transformRead _ | transformWritten _ => true
  | foreign _ | nulInName => false

variable {settings : Settings} {converter : Converter} {listener : Option Listener}
  {base : Option Path} {ordinal : Nat} {source : SourceFile} {fs : FileSystem} {c : CodecFault}
  {g : Generated}

theorem Settings.check_eq_ok_iff : settings.check = .ok () ↔
    checkPatterns settings.patterns = .ok () ∧ TextFile.hasNul settings.encoding = false ∧
      (Codec.ofName? settings.encoding).isSome = true := by
  unfold check checkEncoding
  cases checkPatterns settings.patterns with
  | error fault => simp
  | ok =>
    cases TextFile.hasNul settings.encoding with
    | true => simp
    | false => cases Codec.ofName? settings.encoding <;> simp

theorem Settings.check_eq_unknown (hpatterns : checkPatterns settings.patterns = .ok ())
    (hnul : TextFile.hasNul settings.encoding = false)
    (hnone : Codec.ofName? settings.encoding = none) :
    settings.check = .error (.unknownEncoding settings.encoding) := by
  simp [check, checkEncoding, hpatterns, hnul, hnone]

namespace TextFile

/-- A name by which a codec is known is at fault only if the codec is no encoding. -/
theorem transform_of_encodingOf {transform : String → CodecFault} {encoding : String}
    (hnul : hasNul encoding = false) (hknown : (Codec.ofName? encoding).isSome = true)
    (h : encodingOf transform encoding = .error c) (hc : c.isOfName = true) :
    Codec.ofName? encoding = some .transform := by
  simp only [encodingOf, hnul, Bool.false_eq_true, if_false] at h
  split at h
  · simp at h
  · next htransform => exact htransform
  · rw [Except.error.injEq] at h
    simp [← h, CodecFault.isOfName] at hc
  · next hnone => simp [hnone] at hknown

end TextFile

namespace Conversion

open TextFile

/-- What a conversion makes of a codec that is no encoding: a file that is there is read in it, and
a text is written in it where there is none. -/
def Misread (fs : FileSystem) (encoding : String) (g : Generated) (c : CodecFault) : Prop :=
  ((∃ bytes, fs.read g.destination = .ok bytes) ∧ c = .transformRead encoding) ∨
    (fs.hasEntry g.destination = .ok false ∧ (∃ s, g.content = .text s) ∧
      c = .transformWritten encoding)

theorem escapes_codec_iff : Escapes fs settings.encoding g (.codec c) ↔
    Codec.ofName? settings.encoding = some .transform ∧ Misread fs settings.encoding g c := by
  constructor
  · intro h
    cases h with
    | unreadable bytes hread htransform => exact ⟨htransform, .inl ⟨⟨bytes, hread⟩, rfl⟩⟩
    | unwritable s hfree hcontent htransform => exact ⟨htransform, .inr ⟨hfree, ⟨s, hcontent⟩, rfl⟩⟩
  · rintro ⟨htransform, ⟨⟨bytes, hread⟩, rfl⟩ | ⟨hfree, ⟨s, hcontent⟩, rfl⟩⟩
    · exact .unreadable bytes hread htransform
    · exact .unwritable s hfree hcontent htransform

/-- An interruption is no fault of a text file. -/
theorem step_fails_text_iff (hk : Known settings.encoding) {e : TextFault} :
    (step settings converter ordinal source).Fails fs (.text e) ↔
      ∃ g, consult converter (request settings ordinal source) fs = .ok (.generated g) ∧
        Escapes fs settings.encoding g e := by
  rcases Classical.em (∃ thrown, converter fs (request settings ordinal source) = .error thrown ∧
      thrown.raised.family.interrupts = true) with ⟨thrown, hthrown, hinterrupts⟩ | hno
  · have hanswer : consult converter (request settings ordinal source) fs = .error thrown := by
      rw [consult, hthrown]
    rw [Fails, run_step, hanswer]
    simp [run_handle_interrupted hinterrupts]
  · have hconv : ∀ thrown, converter fs (request settings ordinal source) = .error thrown →
        thrown.raised.family.interrupts = false := by
      intro thrown hthrown
      exact Bool.eq_false_iff.2 fun hinterrupts => hno ⟨thrown, hthrown, hinterrupts⟩
    rw [Fails, step_eq_error_iff hk hconv]
    constructor
    · intro h
      cases h with
      | escaped g e hg he => exact ⟨g, hg, he⟩
    · rintro ⟨g, hg, he⟩
      exact .escaped g e hg he

theorem transform_of_step_fails (hcheck : settings.check = .ok ()) (hc : c.isOfName = true)
    (h : (step settings converter ordinal source).Fails fs (.text (.codec c))) :
    Codec.ofName? settings.encoding = some .transform := by
  obtain ⟨-, hnul, hknown⟩ := Settings.check_eq_ok_iff.1 hcheck
  have hs := stepped settings converter ordinal source fs
  unfold Fails at h
  generalize (step settings converter ordinal source).run fs = trace at h hs
  cases hs with
  | uncomparable g fault _ hdiffers hof =>
    obtain ⟨bytes, c', -, hreading, rfl⟩ := (differs_eq_error_iff hnul).1 ⟨hdiffers, hof⟩
    simp only [Except.error.injEq, Fault.text.injEq, TextFault.codec.injEq] at h
    subst h
    unfold readingEncoding at hreading
    split at hreading
    · simp at hreading
    · exact transform_of_encodingOf hnul hknown hreading hc
  | unencodable g fault partway _ _ hwrite hof =>
    simp only [Except.error.injEq, Fault.text.injEq] at h
    subst h
    have hfails : (TextFile.write fs g.destination g.content settings.encoding).1 =
        .error (.codec c) := by rw [hwrite]
    rcases write_eq_error_iff.1 ⟨hfails, hof⟩ with ⟨hbytes, -⟩ | ⟨-, cause, -, hcause⟩
    · unfold bytesOf at hbytes
      split at hbytes
      · split at hbytes
        · next hencoding =>
          simp only [Except.error.injEq, TextFault.codec.injEq] at hbytes
          exact transform_of_encodingOf hnul hknown hencoding (hbytes ▸ hc)
        · split at hbytes <;> simp at hbytes
      · simp at hbytes
    · simp at hcause
  | _ => simp at h

theorem step_fails_iff (hcheck : settings.check = .ok ()) (hc : c.isOfName = true) :
    (step settings converter ordinal source).Fails fs (.text (.codec c)) ↔
      Codec.ofName? settings.encoding = some .transform ∧
        ∃ g, consult converter (request settings ordinal source) fs = .ok (.generated g) ∧
          Misread fs settings.encoding g c := by
  obtain ⟨-, hnul, -⟩ := Settings.check_eq_ok_iff.1 hcheck
  constructor
  · intro h
    have htransform := transform_of_step_fails hcheck hc h
    obtain ⟨g, hg, he⟩ := (step_fails_text_iff ⟨hnul, .inl htransform⟩).1 h
    exact ⟨htransform, g, hg, (escapes_codec_iff.1 he).2⟩
  · rintro ⟨htransform, g, hg, hmisread⟩
    exact (step_fails_text_iff ⟨hnul, .inl htransform⟩).2
      ⟨g, hg, escapes_codec_iff.2 ⟨htransform, hmisread⟩⟩

end Conversion

namespace Run

open Conversion

theorem run_encoded :
    (Settings.checkPatterns settings.patterns = .ok () →
      TextFile.hasNul settings.encoding = false → Codec.ofName? settings.encoding = none →
      (run settings converter listener base).run fs =
        ⟨.error (.settings (.unknownEncoding settings.encoding)), fs, []⟩) ∧
    (∀ fault, settings.check = .error fault →
      (run settings converter listener base).run fs = ⟨.error (.settings fault), fs, []⟩) ∧
    ∀ c, c.isOfName = true →
      ((run settings converter listener base).Fails fs (.text (.codec c)) ↔
        settings.check = .ok () ∧ Codec.ofName? settings.encoding = some .transform ∧
        ∃ sources k source os mid g,
          Scan.run fs (rootOf settings base fs) settings.patterns.texts settings.recursive =
            .ok sources ∧
          sources[k]? = some source ∧
          Converts settings converter listener sources.length 0 fs (sources.take k) os mid ∧
          consult converter (request settings k source) mid = .ok (.generated g) ∧
          Misread mid settings.encoding g c) := by
  refine ⟨fun hpatterns hnul hnone => ?_, fun fault hfault => ?_, fun c hc => ?_⟩
  · rw [run_eq, Settings.check_eq_unknown hpatterns hnul hnone]
  · rw [run_eq, hfault]
  · rw [run_fails_text_iff]
    constructor
    · rintro ⟨hcheck, -, sources, hscan, hloop⟩
      obtain ⟨k, source, os, mid, hk, hbefore, hbreaks⟩ := convertFrom_fails_iff.1 hloop
      rw [Nat.zero_add] at hbreaks
      cases hbreaks with
      | converting hstep =>
        obtain ⟨htransform, g, hg, hmisread⟩ := (step_fails_iff hcheck hc).1 hstep
        exact ⟨hcheck, htransform, sources, k, source, os, mid, g, hscan, hk, hbefore, hg, hmisread⟩
    · rintro ⟨hcheck, htransform, sources, k, source, os, mid, g, hscan, hk, hbefore, hg, hmisread⟩
      have hstep := (step_fails_iff hcheck hc).2 ⟨htransform, g, hg, hmisread⟩
      refine ⟨hcheck, isDirectory_of_scan hscan hk, sources, hscan,
        convertFrom_fails_iff.2 ⟨k, source, os, mid, hk, hbefore, ?_⟩⟩
      rw [Nat.zero_add]
      exact .converting hstep

/-! ## A codec that turns bytes into bytes -/

def hexSettings : Settings :=
  { plainSettings with encoding := "hex" }

theorem hexSettings_check : hexSettings.check = .ok () := rfl

theorem run_encoded_hex :
    hexSettings.check = .ok () ∧
      (run hexSettings secondOnly none none).Fails twoResources
        (.text (.codec (.transformWritten "hex"))) ∧
      (run { hexSettings with encoding := "hexx" } secondOnly none none).run twoResources =
        ⟨.error (.settings (.unknownEncoding "hexx")), twoResources, []⟩ := by
  have hfirst : (step hexSettings secondOnly 0 (resourceOf "a")).Returns twoResources
      (failed (resourceOf "a") none "no") twoResources := returns_iff.2 ⟨rfl, rfl⟩
  have htransform : Codec.ofName? hexSettings.encoding = some .transform := by decide +kernel
  refine ⟨hexSettings_check, ?_, ?_⟩
  · exact (run_encoded.2.2 _ rfl).2 ⟨hexSettings_check, htransform, _, 1, resourceOf "b", _,
      twoResources, ⟨.ofString "/out", .text "c"⟩, scan_twoResources, rfl,
      .cons hfirst (heard_none _ _) (.nil 1 _), rfl, .inr ⟨rfl, ⟨"c", rfl⟩, rfl⟩⟩
  · exact run_encoded.1 rfl rfl (by decide +kernel)

/-- Settings that pass their check may name an encoding that is none. -/
theorem not_run_always_encodes :
    ¬ ∀ (settings : Settings) (converter : Converter) (listener : Option Listener)
      (base : Option Path) (fs : FileSystem) (c : CodecFault), settings.check = .ok () →
      c.isOfName = true → ¬ (run settings converter listener base).Fails fs (.text (.codec c)) := by
  intro h
  exact h hexSettings secondOnly none none twoResources (.transformWritten "hex")
    hexSettings_check rfl rfl

end Run

end ResourceAccessors
