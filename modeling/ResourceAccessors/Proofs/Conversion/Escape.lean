import ResourceAccessors.Settings
import ResourceAccessors.Proofs.Conversion.Stepped

/-! What gets past the conversion of one file. Whatever a converter answers or raises, short of an
interruption, the conversion ends in an outcome unless the output file is asked for in a way in
which no file can be: its path holds a NUL character, too many of the directories above it are
missing, its content is no text, or the encoding is a codec that is none. `Escapes` says when the
conversion comes as far as to find that out, and with which fault it ends then. What remains is a
destination that is no path, and a fault of the converter whose text cannot be told. -/
namespace ResourceAccessors
set_option autoImplicit false

namespace TextFile

/-- A codec of this library, though not every one is an encoding. -/
structure Known (encoding : String) : Prop where
  hasNul : hasNul encoding = false
  codec : Codec.ofName? encoding = some .transform ∨ ∃ e, Codec.ofName? encoding = some (.text e)

variable {fs : FileSystem} {p : Path} {content : Value} {encoding : String}

theorem Known.readingEncoding_eq (h : Known encoding) :
    readingEncoding encoding = encodingOf .transformRead encoding := by
  refine if_neg ?_
  rintro rfl
  have hcodec := h.codec
  simp [ofName?_surroundings] at hcodec

theorem encodingOf_transform {transform : String → CodecFault} (hnul : hasNul encoding = false)
    (h : Codec.ofName? encoding = some .transform) :
    encodingOf transform encoding = .error (transform encoding) := by
  simp only [encodingOf, hnul, h, Bool.false_eq_true, if_false]

theorem Known.encodingOf_eq_error {transform : String → CodecFault} {c : CodecFault}
    (h : Known encoding) (he : encodingOf transform encoding = .error c) :
    Codec.ofName? encoding = some .transform ∧ c = transform encoding := by
  rcases h.codec with ht | ⟨e, ht⟩
  · rw [encodingOf_transform h.hasNul ht, Except.error.injEq] at he
    exact ⟨ht, he.symm⟩
  · rw [encodingOf_eq_ok.2 ⟨h.hasNul, ht⟩] at he
    simp at he

theorem differs_of_absent (h : fs.hasEntry p = .ok false) :
    differs fs p content encoding = .ok true := by
  simp only [differs, h]

theorem hasEntry_or_read_of_differs (h : differs fs p content encoding = .ok true) :
    fs.hasEntry p = .ok false ∨ ∃ old, read fs p encoding = .ok old := by
  unfold differs at h
  split at h
  · simp at h
  · next hentry => exact .inl hentry
  · split at h
    · simp at h
    · next old hread => exact .inr ⟨old, hread⟩

theorem read_eq_ok {old : String} (hnul : hasNul encoding = false)
    (h : read fs p encoding = .ok old) :
    ∃ bytes e, fs.read p = .ok bytes ∧ readingEncoding encoding = .ok e := by
  simp only [read, hnul, Bool.false_eq_true, if_false] at h
  split at h
  · simp at h
  · next bytes hbytes =>
    split at h
    · simp at h
    · next e he => exact ⟨bytes, e, hbytes, he⟩

theorem differs_of_read {old : String} (hnul : hasNul encoding = false)
    (hcontent : content.isText = false) (h : read fs p encoding = .ok old) :
    differs fs p content encoding = .ok true := by
  obtain ⟨bytes, -, hbytes, -⟩ := read_eq_ok hnul h
  have hentry := FileSystem.hasEntry_of_read hbytes
  cases content <;> simp_all [differs, Value.isText]

theorem bytesOf_of_not_text (h : content.isText = false) :
    bytesOf content encoding = .error (.notText content.kind) := by
  cases content <;> simp_all [bytesOf, Value.isText]

end TextFile

namespace Conversion

open TextFile

/-- A generated file for which the conversion ends in a fault, with the fault. -/
inductive Escapes (fs : FileSystem) (encoding : String) (g : Generated) : TextFault → Prop
  | unreadable (bytes : List UInt8) : fs.read g.destination = .ok bytes →
      Codec.ofName? encoding = some .transform →
      Escapes fs encoding g (.codec (.transformRead encoding))
  | unwritable (s : String) : fs.hasEntry g.destination = .ok false → g.content = .text s →
      Codec.ofName? encoding = some .transform →
      Escapes fs encoding g (.codec (.transformWritten encoding))
  | notText : g.content.isText = false →
      (fs.hasEntry g.destination = .ok false ∨
        ∃ old, TextFile.read fs g.destination encoding = .ok old) →
      Escapes fs encoding g (.notText g.content.kind)
  | nulInPath (bytes : List UInt8) : bytesOf g.content encoding = .ok bytes →
      g.destination.HoldsNul →
      (g.destination.parent.HoldsNul ∨
        (fs.makeDirectories fs.limits.outputs g.destination.parent).1 = .ok ()) →
      Escapes fs encoding g (.file .nulInPath)
  | tooNested (bytes : List UInt8) : bytesOf g.content encoding = .ok bytes →
      differs fs g.destination g.content encoding = .ok true →
      fs.TooDeep fs.limits.outputs g.destination.parent →
      Escapes fs encoding g (.file (.tooNested fs.limits.outputs.reason))

variable {fs : FileSystem} {encoding : String} {g : Generated} {fault : TextFault}

theorem escapes_of_differs (hk : Known encoding)
    (h : differs fs g.destination g.content encoding = .error fault)
    (hof : fault.isOfFile = false) : Escapes fs encoding g fault := by
  obtain ⟨bytes, c, hbytes, hc, rfl⟩ := (differs_eq_error_iff hk.hasNul).1 ⟨h, hof⟩
  obtain ⟨ht, rfl⟩ := hk.encodingOf_eq_error (hk.readingEncoding_eq ▸ hc)
  exact .unreadable bytes hbytes ht

theorem escapes_of_write (hk : Known encoding)
    (hd : differs fs g.destination g.content encoding = .ok true)
    (h : (TextFile.write fs g.destination g.content encoding).1 = .error fault)
    (hof : fault.isOfFile = false) : Escapes fs encoding g fault := by
  rcases write_eq_error_iff.1 ⟨h, hof⟩ with ⟨hb, -⟩ | ⟨⟨bytes, hb⟩, cause, hrefused, rfl⟩
  · cases hcontent : g.content.isText with
    | false =>
      rw [bytesOf_of_not_text hcontent, Except.error.injEq] at hb
      exact hb ▸ .notText hcontent (hasEntry_or_read_of_differs hd)
    | true =>
      unfold bytesOf at hb
      split at hb
      · next s hs =>
        split at hb
        · next c hc =>
          obtain ⟨ht, rfl⟩ := hk.encodingOf_eq_error hc
          simp only [Except.error.injEq] at hb
          -- nothing can be read in such a codec, so the file is new
          refine hb ▸ .unwritable s ((hasEntry_or_read_of_differs hd).resolve_right ?_) hs ht
          rintro ⟨old, hold⟩
          obtain ⟨-, e, -, he⟩ := read_eq_ok hk.hasNul hold
          rw [hk.readingEncoding_eq, encodingOf_transform hk.hasNul ht] at he
          simp at he
        · split at hb
          · simp only [Except.error.injEq] at hb
            simp [← hb, TextFault.isOfFile] at hof
          · simp at hb
      · next hne =>
        cases hv : g.content <;> simp_all [Value.isText]
  · cases hrefused with
    | nul hnul hparent => exact .nulInPath bytes hb hnul hparent
    | tooNested hdeep => exact .tooNested bytes hb hd hdeep

theorem escapes_iff (hk : Known encoding) :
    Escapes fs encoding g fault ↔
      fault.isOfFile = false ∧
        (differs fs g.destination g.content encoding = .error fault ∨
          (differs fs g.destination g.content encoding = .ok true ∧
            (TextFile.write fs g.destination g.content encoding).1 = .error fault)) := by
  constructor
  · intro h
    cases h with
    | unreadable bytes hbytes ht =>
      have hc := hk.readingEncoding_eq.trans (encodingOf_transform hk.hasNul ht)
      exact ⟨rfl, .inl ((differs_eq_error_iff hk.hasNul).2 ⟨bytes, _, hbytes, hc, rfl⟩).1⟩
    | unwritable s habsent hs ht =>
      have hb : bytesOf g.content encoding = .error (.codec (.transformWritten encoding)) := by
        rw [hs]
        simp only [bytesOf, encodingOf_transform hk.hasNul ht]
      exact ⟨rfl, .inr ⟨differs_of_absent habsent, (write_eq_error_iff.2 (.inl ⟨hb, rfl⟩)).1⟩⟩
    | notText hcontent hthere =>
      have hd : differs fs g.destination g.content encoding = .ok true := by
        rcases hthere with habsent | ⟨old, hold⟩
        · exact differs_of_absent habsent
        · exact differs_of_read hk.hasNul hcontent hold
      exact ⟨rfl, .inr ⟨hd, (write_eq_error_iff.2 (.inl ⟨bytesOf_of_not_text hcontent, rfl⟩)).1⟩⟩
    | nulInPath bytes hb hnul hparent =>
      have habsent : fs.hasEntry g.destination = .ok false := FileSystem.leadsTo_of_holdsNul hnul
      exact ⟨rfl, .inr ⟨differs_of_absent habsent,
        (write_eq_error_iff.2 (.inr ⟨⟨bytes, hb⟩, _, .nul hnul hparent, rfl⟩)).1⟩⟩
    | tooNested bytes hb hd hdeep =>
      exact ⟨rfl, .inr ⟨hd,
        (write_eq_error_iff.2 (.inr ⟨⟨bytes, hb⟩, _, .tooNested hdeep, rfl⟩)).1⟩⟩
  · rintro ⟨hof, hd | ⟨hd, hw⟩⟩
    · exact escapes_of_differs hk hd hof
    · exact escapes_of_write hk hd hw hof

/-! ## The conversion of one file -/

variable {settings : Settings} {converter : Converter} {ordinal : Nat} {source : SourceFile}

theorem known_of_check (hcheck : settings.check = .ok ())
    (hforeign : Codec.ofName? settings.encoding ≠ some .foreign) : Known settings.encoding := by
  unfold Settings.check at hcheck
  split at hcheck
  · simp at hcheck
  · unfold Settings.checkEncoding at hcheck
    split at hcheck
    · simp at hcheck
    · next hnul =>
      refine ⟨Bool.eq_false_iff.2 hnul, ?_⟩
      split at hcheck
      · next hsome =>
        obtain ⟨codec, hcodec⟩ := Option.isSome_iff_exists.1 hsome
        cases codec with
        | text e => exact .inr ⟨e, hcodec⟩
        | transform => exact .inl hcodec
        | foreign => exact absurd hcodec hforeign
      · simp at hcheck

theorem outcome_of_step {o : Outcome}
    (h : ((step settings converter ordinal source).run fs).result = .ok o) :
    o.source = source.source ∧ o.relative = source.relative ∧
      (o.status = .converted ∨ o.status = .unchanged ∨ o.status = .failed) := by
  have hs := stepped settings converter ordinal source fs
  generalize (step settings converter ordinal source).run fs = trace at h hs
  cases hs <;> simp only [Except.ok.injEq, reduceCtorEq] at h <;> subst h <;>
    simp [failed, finished]

theorem interrupts_of_consult {thrown : Thrown} {r : Request}
    (hconv : ∀ thrown, converter fs r = .error thrown → thrown.raised.family.interrupts = false)
    (h : consult converter r fs = .error thrown) : thrown.raised.family.interrupts = false := by
  unfold consult at h
  split at h
  · next other hother =>
    simp only [Except.error.injEq] at h
    exact h ▸ hconv other hother
  · split at h
    · simp only [Except.error.injEq] at h
      exact h ▸ rfl
    · simp at h

/-- The conversion ends in a fault: one that its generated file escapes with, that its destination
is no path, or one raised where the text of another is asked for. -/
inductive EndsIn (settings : Settings) (converter : Converter) (ordinal : Nat)
    (source : SourceFile) (fs : FileSystem) : Fault → Prop
  | escaped (g : Generated) (e : TextFault) :
      consult converter (request settings ordinal source) fs = .ok (.generated g) →
      Escapes fs settings.encoding g e → EndsIn settings converter ordinal source fs (.text e)
  | misplaced (fault : ShapeFault) :
      consult converter (request settings ordinal source) fs = .ok (.misplaced fault) →
      EndsIn settings converter ordinal source fs (.shape fault)
  | unspoken (thrown : Thrown) (breakdown : Breakdown) :
      consult converter (request settings ordinal source) fs = .error thrown →
      thrown.instead = some breakdown →
      EndsIn settings converter ordinal source fs (.raised breakdown.raised)

theorem endsIn_generated_iff {fault : Fault}
    (hc : consult converter (request settings ordinal source) fs = .ok (.generated g)) :
    EndsIn settings converter ordinal source fs fault ↔
      ∃ e, Escapes fs settings.encoding g e ∧ fault = .text e := by
  constructor
  · intro h
    cases h with
    | escaped g' e hc' he =>
      obtain rfl : g = g' := Answer.generated.inj (Except.ok.inj (hc.symm.trans hc'))
      exact ⟨e, he, rfl⟩
    | misplaced fault hc' => simp [hc] at hc'
    | unspoken thrown breakdown hc' => simp [hc] at hc'
  · rintro ⟨e, he, rfl⟩
    exact .escaped g e hc he

theorem endsIn_of_ok {o : Outcome} {fault : Fault}
    (hc : consult converter (request settings ordinal source) fs = .ok (.generated g))
    (hno : ∀ e, ¬ Escapes fs settings.encoding g e) :
    (.ok o : Except Fault Outcome) = .error fault ↔
      EndsIn settings converter ordinal source fs fault := by
  rw [endsIn_generated_iff hc]
  refine iff_of_false (by simp) ?_
  rintro ⟨e, he, -⟩
  exact hno e he

theorem endsIn_of_error {f : TextFault} {fault : Fault}
    (hc : consult converter (request settings ordinal source) fs = .ok (.generated g))
    (honly : ∀ e, Escapes fs settings.encoding g e ↔ e = f) :
    (.error (.text f) : Except Fault Outcome) = .error fault ↔
      EndsIn settings converter ordinal source fs fault := by
  rw [endsIn_generated_iff hc]
  constructor
  · intro h
    exact ⟨f, (honly f).2 rfl, (Except.error.inj h).symm⟩
  · rintro ⟨e, he, rfl⟩
    rw [(honly e).1 he]

theorem endsIn_thrown_iff {thrown : Thrown} {fault : Fault}
    (hc : consult converter (request settings ordinal source) fs = .error thrown) :
    EndsIn settings converter ordinal source fs fault ↔
      ∃ breakdown, thrown.instead = some breakdown ∧ fault = .raised breakdown.raised := by
  constructor
  · intro h
    cases h with
    | escaped g e hc' => simp [hc] at hc'
    | misplaced fault hc' => simp [hc] at hc'
    | unspoken other breakdown hc' hinstead =>
      obtain rfl : thrown = other := Except.error.inj (hc.symm.trans hc')
      exact ⟨breakdown, hinstead, rfl⟩
  · rintro ⟨breakdown, hinstead, rfl⟩
    exact .unspoken thrown breakdown hc hinstead

theorem endsIn_misplaced_iff {why : ShapeFault} {fault : Fault}
    (hc : consult converter (request settings ordinal source) fs = .ok (.misplaced why)) :
    EndsIn settings converter ordinal source fs fault ↔ fault = .shape why := by
  constructor
  · intro h
    cases h with
    | escaped g e hc' => simp [hc] at hc'
    | misplaced other hc' =>
      obtain rfl : why = other := Answer.misplaced.inj (Except.ok.inj (hc.symm.trans hc'))
      rfl
    | unspoken thrown breakdown hc' => simp [hc] at hc'
  · rintro rfl
    exact .misplaced why hc

theorem step_eq_error_iff (hk : Known settings.encoding)
    (hconv : ∀ thrown, converter fs (request settings ordinal source) = .error thrown →
      thrown.raised.family.interrupts = false) {fault : Fault} :
    ((step settings converter ordinal source).run fs).result = .error fault ↔
      EndsIn settings converter ordinal source fs fault := by
  have hs := stepped settings converter ordinal source fs
  generalize (step settings converter ordinal source).run fs = trace at hs
  cases hs with
  | interrupted thrown hc hi => simp [interrupts_of_consult hconv hc] at hi
  | complained thrown hc hcontained => simp [endsIn_thrown_iff hc, hcontained.text]
  | unspoken thrown breakdown hc hfamily hinstead =>
    simp [endsIn_thrown_iff hc, hinstead, eq_comm]
  | misplaced why hc => simp [endsIn_misplaced_iff hc, eq_comm]
  | unreadable g f hc hd hof =>
    refine endsIn_of_ok hc fun e he => ?_
    obtain ⟨hnot, hd' | ⟨hd', -⟩⟩ := (escapes_iff hk).1 he
    · rw [hd, Except.error.injEq] at hd'
      rw [← hd', hof] at hnot
      simp at hnot
    · simp [hd] at hd'
  | uncomparable g f hc hd hof =>
    refine endsIn_of_error hc fun e => ?_
    rw [escapes_iff hk, hd]
    constructor
    · rintro ⟨-, hd' | ⟨hd', -⟩⟩
      · exact (Except.error.inj hd').symm
      · simp at hd'
    · rintro rfl
      exact ⟨hof, .inl rfl⟩
  | unchanged g hc hd =>
    refine endsIn_of_ok hc fun e he => ?_
    obtain ⟨-, hd' | ⟨hd', -⟩⟩ := (escapes_iff hk).1 he <;> simp [hd] at hd'
  | unwritable g f partway hc hd hw hof =>
    refine endsIn_of_ok hc fun e he => ?_
    obtain ⟨hnot, hd' | ⟨-, hw'⟩⟩ := (escapes_iff hk).1 he
    · simp [hd] at hd'
    · rw [hw, Except.error.injEq] at hw'
      rw [← hw', hof] at hnot
      simp at hnot
  | unencodable g f partway hc hd hw hof =>
    refine endsIn_of_error hc fun e => ?_
    rw [escapes_iff hk, hd, hw]
    constructor
    · rintro ⟨-, hd' | ⟨-, hw'⟩⟩
      · simp at hd'
      · exact (Except.error.inj hw').symm
    · rintro rfl
      exact ⟨hof, .inr ⟨rfl, rfl⟩⟩
  | converted g after hc hd hw =>
    refine endsIn_of_ok hc fun e he => ?_
    obtain ⟨-, hd' | ⟨-, hw'⟩⟩ := (escapes_iff hk).1 he
    · simp [hd] at hd'
    · simp [hw] at hw'

theorem step_ends_iff (hcheck : settings.check = .ok ())
    (hforeign : Codec.ofName? settings.encoding ≠ some .foreign)
    (hconv : ∀ thrown, converter fs (request settings ordinal source) = .error thrown →
      thrown.raised.family.interrupts = false) :
    ((∃ o, ((step settings converter ordinal source).run fs).result = .ok o ∧
        o.source = source.source ∧ o.relative = source.relative ∧
        (o.status = .converted ∨ o.status = .unchanged ∨ o.status = .failed)) ↔
      ∀ fault, ¬ EndsIn settings converter ordinal source fs fault) ∧
    ∀ fault, ((step settings converter ordinal source).run fs).result = .error fault ↔
      EndsIn settings converter ordinal source fs fault := by
  have hk := known_of_check hcheck hforeign
  refine ⟨⟨?_, fun hno => ?_⟩, fun fault => step_eq_error_iff hk hconv⟩
  · rintro ⟨o, ho, -⟩ fault hends
    have herror := (step_eq_error_iff hk hconv).2 hends
    rw [ho] at herror
    simp at herror
  · cases hr : ((step settings converter ordinal source).run fs).result with
    | ok o => exact ⟨o, rfl, outcome_of_step hr⟩
    | error fault => exact absurd ((step_eq_error_iff hk hconv).1 hr) (hno fault)

/-! ## A path that holds a NUL character -/

def plainSettings : Settings where
  input := none
  accessorNamespace := ""
  internal := false
  patterns := defaultPatterns
  recursive := true
  encoding := defaultEncoding
  report := none

def nulConverter : Converter := fun _ _ => .ok (.tuple [.text "/a\x00b", .text "c"])

def lonelySource : SourceFile := ⟨⟨.root, ["r"]⟩, ⟨.root, []⟩, ⟨.relative, ["r"]⟩⟩

theorem plainSettings_check : plainSettings.check = .ok () := rfl

theorem step_ends_iff_nulConverter :
    plainSettings.check = .ok () ∧
      ((step plainSettings nulConverter 0 lonelySource).run (.empty .usual)).result =
        .error (.text (.file .nulInPath)) := by
  have hconv : ∀ thrown, nulConverter (.empty .usual) (request plainSettings 0 lonelySource) =
      .error thrown → thrown.raised.family.interrupts = false := by
    intro thrown h
    simp [nulConverter] at h
  have hnul : (Path.ofString "/a\x00b").HoldsNul := ⟨"a\x00b", by decide +kernel, by decide⟩
  have he : Escapes (.empty .usual) plainSettings.encoding ⟨.ofString "/a\x00b", .text "c"⟩
      (.file .nulInPath) := .nulInPath [0x63] rfl hnul (.inr rfl)
  exact ⟨plainSettings_check, ((step_ends_iff plainSettings_check (by decide +kernel) hconv).2 _).2
    (.escaped _ _ rfl he)⟩

/-- A conversion need not end in an outcome, though its settings pass their check and its converter
raises nothing. -/
theorem not_step_always_ends :
    ¬ ∀ (settings : Settings) (converter : Converter) (ordinal : Nat) (source : SourceFile)
      (fs : FileSystem), settings.check = .ok () →
      (∀ thrown, converter fs (request settings ordinal source) = .error thrown →
        thrown.raised.family.interrupts = false) →
      ∃ o, ((step settings converter ordinal source).run fs).result = .ok o := by
  intro h
  have hconv : ∀ thrown, nulConverter (.empty .usual) (request plainSettings 0 lonelySource) =
      .error thrown → thrown.raised.family.interrupts = false := by
    intro thrown hr
    simp [nulConverter] at hr
  obtain ⟨o, ho⟩ :=
    h plainSettings nulConverter 0 lonelySource (.empty .usual) plainSettings_check hconv
  have hr : ((step plainSettings nulConverter 0 lonelySource).run (.empty .usual)).result =
      .error (.text (.file .nulInPath)) := rfl
  rw [hr] at ho
  simp at ho

end Conversion

end ResourceAccessors
