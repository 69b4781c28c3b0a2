import ResourceAccessors.Proofs.Action
import ResourceAccessors.Proofs.Conversion.Stepped
import ResourceAccessors.Proofs.FileSystem.Touched

/-! What the conversion of one file does to the others. Nothing is touched before there is an answer
to write. A conversion that fails after that may have added directories above its output, and only
one that ends as converted has written a file: the one its output leads to. One that is broken off
leaves the directories it added and nothing else. -/
namespace ResourceAccessors
set_option autoImplicit false

open ResourceAccessors.Action FileSystem

/-- The output, if it was written. -/
def Outcome.written (o : Outcome) : List Path :=
  if o.status = .converted then o.output.toList else []

variable {fs mid after partway : FileSystem} {loc : Location}

/-! ## Text files -/

namespace TextFile

variable {p : Path} {content : Value} {encoding : String} {bytes : List UInt8}
  {ready : FileSystem} {place : Place} {fault : TextFault}

theorem made_of_write_error (h : write fs p content encoding = (.error fault, partway)) :
    Made p.parent fs partway := by
  unfold write at h
  split at h
  · rw [Prod.mk.injEq] at h
    exact h.2 ▸ .refl fs
  · obtain ⟨cause, hsave⟩ := save_of_writeBytes_error h
    exact made_of_save_error hsave

theorem Saved.touched (h : Saved fs p content encoding after bytes ready place)
    (htree : fs.IsTree) : Touched [p] [p] fs after :=
  (h.made.touched.mono (List.nil_subset _) (List.Subset.refl _)).trans
    (h.written.touched (h.made.isTree htree))

end TextFile

/-! ## Conversions that end in an outcome -/

namespace Conversion

variable {settings : Settings} {converter : Converter} {ordinal : Nat} {source : SourceFile}
  {o : Outcome} {fault : Fault}

/-- What a conversion that ends in an outcome leaves of a file system. -/
inductive Effect (settings : Settings) (converter : Converter) (ordinal : Nat)
    (source : SourceFile) (fs : FileSystem) : Outcome → FileSystem → Prop
  | refused (message : String) :
      Effect settings converter ordinal source fs (failed source none message) fs
  | stopped (g : Generated) (message : String) (after : FileSystem) :
      consult converter (request settings ordinal source) fs = .ok (.generated g) →
      Made g.destination.parent fs after →
      Effect settings converter ordinal source fs
        (failed source (some g.destination) message) after
  | unchanged (g : Generated) :
      consult converter (request settings ordinal source) fs = .ok (.generated g) →
      TextFile.differs fs g.destination g.content settings.encoding = .ok false →
      Effect settings converter ordinal source fs (finished source g.destination false) fs
  | converted (g : Generated) (bytes : List UInt8) (ready : FileSystem) (place : Place)
      (after : FileSystem) :
      consult converter (request settings ordinal source) fs = .ok (.generated g) →
      TextFile.Saved fs g.destination g.content settings.encoding after bytes ready place →
      Effect settings converter ordinal source fs (finished source g.destination true) after

theorem effect_of_step (h : (step settings converter ordinal source).Returns fs o after) :
    Effect settings converter ordinal source fs o after := by
  obtain ⟨events, hrun⟩ := h
  have hs := stepped settings converter ordinal source fs
  rw [hrun] at hs
  cases hs with
  | complained thrown _ _ => exact .refused _
  | unreadable g fault hg _ _ => exact .stopped g _ fs hg (.refl fs)
  | unchanged g hg hd => exact .unchanged g hg hd
  | unwritable g fault partway hg _ hw _ =>
    exact .stopped g _ _ hg (TextFile.made_of_write_error hw)
  | converted g after hg _ hw =>
    obtain ⟨bytes, ready, place, hsaved⟩ := TextFile.saved_of_write hw
    exact .converted g bytes ready place _ hg hsaved

namespace Effect

theorem isTree (h : Effect settings converter ordinal source fs o after) (htree : fs.IsTree) :
    after.IsTree := by
  cases h with
  | refused | unchanged => exact htree
  | stopped g message _ _ hmade => exact hmade.isTree htree
  | converted g bytes ready place _ _ hsaved => exact hsaved.isTree htree

theorem touched (h : Effect settings converter ordinal source fs o after) (htree : fs.IsTree) :
    Touched o.written o.output.toList fs after := by
  cases h with
  | refused | unchanged => exact .refl _ _ _
  | stopped g message _ _ hmade => exact hmade.touched
  | converted g bytes ready place _ _ hsaved => exact hsaved.touched htree

theorem grown (h : Effect settings converter ordinal source fs o after) (htree : fs.IsTree)
    (hl : fs.LinkFree) (hplain : ∀ p, o.output = some p → p.Plain) :
    after.LinkFree ∧ Grown (o.output.toList.map Path.names) fs after := by
  cases h with
  | refused | unchanged => exact ⟨hl, .refl _ fs⟩
  | stopped g message _ _ hmade =>
    exact hmade.grown hl (hplain _ rfl).parent (List.dropLast_prefix _)
  | converted g bytes ready place _ _ hsaved => exact hsaved.grown htree hl (hplain _ rfl)

/-- Where a conversion does not end as finished, an entry is as it was, or it is a directory that
was missing above the output. -/
theorem others (h : Effect settings converter ordinal source fs o after) (htree : fs.IsTree)
    (hl : fs.LinkFree) (hplain : ∀ p, o.output = some p → p.Plain)
    (hloc : o.status ≠ .failed → ∀ p, o.output = some p → p.names ≠ loc) :
    after.entryAt loc = fs.entryAt loc ∨
      (fs.entryAt loc = none ∧ after.entryAt loc = some .directory ∧
        ∃ p, o.output = some p ∧ loc <+: p.names ∧ loc ≠ p.names) := by
  have habove : ∀ {p : Path} {ready : FileSystem}, p.Plain → Made p.parent fs ready →
      ready.entryAt loc = fs.entryAt loc ∨
        (fs.entryAt loc = none ∧ ready.entryAt loc = some .directory ∧
          loc <+: p.names ∧ loc ≠ p.names) := by
    intro p ready hp hmade
    rcases hmade.others hl hp.parent loc with heq | ⟨hfree, hdir, hpre⟩
    · exact .inl heq
    · refine .inr ⟨hfree, hdir, hpre.trans (List.dropLast_prefix _), ?_⟩
      rintro rfl
      have hle := hpre.length_le
      rw [Path.parent, List.length_dropLast] at hle
      have hnil : p.names = [] := List.length_eq_zero_iff.1 (by omega)
      simp [hnil] at hfree
  cases h with
  | refused | unchanged => exact .inl rfl
  | stopped g message _ _ hmade =>
    rcases habove (hplain _ rfl) hmade with heq | ⟨hfree, hdir, hpre, hne⟩
    · exact .inl heq
    · exact .inr ⟨hfree, hdir, _, rfl, hpre, hne⟩
  | converted g bytes ready place _ _ hsaved =>
    have hp := hplain g.destination rfl
    have hne := hloc (by simp [finished]) g.destination rfl
    have hready := (hsaved.made.grown hl hp.parent (List.prefix_refl _)).1
    have hwritten := (hsaved.written.grown (hsaved.made.isTree htree) hready hp).2
    have hlast : after.entryAt loc = ready.entryAt loc := by
      have hplace := hsaved.written.location_eq hready hp
      rw [hsaved.written.eq, entryAt_set _ _ _ _ ?_, if_neg (hplace ▸ hne.symm)]
      intro hnil
      have hfile := hsaved.written.entryAt_location
      simp [hnil] at hfile
    rw [hlast]
    rcases habove hp hsaved.made with heq | ⟨hfree, hdir, hpre, hne'⟩
    · exact .inl heq
    · exact .inr ⟨hfree, hdir, _, rfl, hpre, hne'⟩

/-- A conversion that finished leaves its output where the path leads to. -/
theorem exists_output (h : Effect settings converter ordinal source fs o after)
    (htree : fs.IsTree) (hfinished : o.status ≠ .failed) :
    ∃ p loc e, o.output = some p ∧ after.locate p = .ok loc ∧ after.entryAt loc = some e := by
  cases h with
  | refused => simp [failed] at hfinished
  | stopped => simp [failed] at hfinished
  | unchanged g _ hd =>
    obtain ⟨loc, e, hloc, he, -⟩ :=
      leadsTo_eq_true_iff.1 (TextFile.hasEntry_of_differs_eq_false hd)
    exact ⟨g.destination, loc, e, rfl, hloc, he⟩
  | converted g bytes ready place _ _ hsaved =>
    exact ⟨g.destination, place.location, _, rfl, hsaved.locate htree,
      hsaved.written.entryAt_location⟩

/-- A conversion that finished leaves in its output the text that the converter gave. -/
theorem holds {e : Encoding} (h : Effect settings converter ordinal source fs o after)
    (htree : fs.IsTree) (hname : Codec.ofName? settings.encoding = some (.text e))
    (hfinished : o.status ≠ .failed) :
    ∃ p s loc bytes, o.output = some p ∧
      consult converter (request settings ordinal source) fs = .ok (.generated ⟨p, .text s⟩) ∧
      after.locate p = .ok loc ∧ after.entryAt loc = some (.file bytes) ∧
      e.decode bytes = .ok s := by
  have hfile : ∀ {g : Generated},
      consult converter (request settings ordinal source) fs = .ok (.generated g) →
      TextFile.differs after g.destination g.content settings.encoding = .ok false →
      ∃ s loc bytes, consult converter (request settings ordinal source) fs =
          .ok (.generated ⟨g.destination, .text s⟩) ∧ after.locate g.destination = .ok loc ∧
        after.entryAt loc = some (.file bytes) ∧ e.decode bytes = .ok s := by
    rintro ⟨p, content⟩ hg hd
    obtain ⟨s, rfl⟩ := TextFile.isText_of_differs_eq_false hd
    obtain ⟨loc, bytes, hloc, hf, hdecode⟩ := TextFile.exists_file_of_differs hname hd
    exact ⟨s, loc, bytes, hg, hloc, hf, hdecode⟩
  cases h with
  | refused => simp [failed] at hfinished
  | stopped => simp [failed] at hfinished
  | unchanged g hg hd =>
    exact ⟨g.destination, (hfile hg hd).imp fun _ hs => by simpa [finished] using hs⟩
  | converted g bytes ready place _ hg hsaved =>
    obtain ⟨s, -, hcontent, -, -⟩ := TextFile.bytesOf_eq_ok hsaved.encoded
    have hd : TextFile.differs after g.destination g.content settings.encoding = .ok false := by
      rw [hcontent] at hsaved ⊢
      exact hsaved.differs_eq_false htree
    exact ⟨g.destination, (hfile hg hd).imp fun _ hs => by simpa [finished] using hs⟩

end Effect

/-- Without a text encoding nothing is written, and no directory is added. -/
theorem files_of_step_of_codec
    (h : (step settings converter ordinal source).Returns fs o after)
    (hcodec : ¬ ∃ e, TextFile.encodingOf .transformWritten settings.encoding = .ok e) :
    after = fs := by
  obtain ⟨events, hrun⟩ := h
  have hs := stepped settings converter ordinal source fs
  rw [hrun] at hs
  have hbytes : ∀ {content : Value} {bytes : List UInt8},
      TextFile.bytesOf content settings.encoding ≠ .ok bytes := by
    intro content bytes hb
    obtain ⟨s, e, -, he, -⟩ := TextFile.bytesOf_eq_ok hb
    exact hcodec ⟨e, he⟩
  cases hs with
  | complained | unreadable | unchanged => rfl
  | unwritable g fault partway _ _ hw _ =>
    unfold TextFile.write at hw
    split at hw
    · exact (Prod.mk.inj hw).2.symm
    · next hb => exact absurd hb hbytes
  | converted g after _ _ hw =>
    obtain ⟨bytes, ready, place, hsaved⟩ := TextFile.saved_of_write hw
    exact absurd hsaved.encoded hbytes

/-! ## Conversions that are known to end -/

section

variable {g : Generated} {thrown : Thrown} {cause : TextFault}

theorem returns_of_complaint
    (hc : consult converter (request settings ordinal source) fs = .error thrown)
    (hcontained : thrown.Contained) :
    (step settings converter ordinal source).Returns fs
      (failed source none (complaint source thrown.raised).1) fs := by
  rw [returns_iff, run_step, hc]
  simp only [run_handle_complained hcontained, and_self]

variable (hc : consult converter (request settings ordinal source) fs = .ok (.generated g))
include hc

theorem returns_of_unreadable
    (hd : TextFile.differs fs g.destination g.content settings.encoding = .error cause)
    (hof : cause.isOfFile = true) :
    (step settings converter ordinal source).Returns fs (failed source (some g.destination)
      (OutputFault.reading g.destination cause).message) fs := by
  rw [returns_iff, run_step, hc]
  simp only [run_handle_generated, Output.run_writeIfChanged, hd, outputFault?_wrap, hof, if_true,
    and_self]

theorem returns_of_unchanged
    (hd : TextFile.differs fs g.destination g.content settings.encoding = .ok false) :
    (step settings converter ordinal source).Returns fs
      (finished source g.destination false) fs := by
  rw [returns_iff, run_step, hc]
  simp only [run_handle_generated, Output.run_writeIfChanged, hd, and_self]

variable (hd : TextFile.differs fs g.destination g.content settings.encoding = .ok true)
include hd

theorem returns_of_unwritable
    (hw : TextFile.write fs g.destination g.content settings.encoding = (.error cause, partway))
    (hof : cause.isOfFile = true) :
    (step settings converter ordinal source).Returns fs (failed source (some g.destination)
      (OutputFault.writing g.destination cause).message) partway := by
  rw [returns_iff, run_step, hc]
  simp only [run_handle_generated, Output.run_writeIfChanged, hd, hw, outputFault?_wrap, hof,
    if_true, and_self]

theorem returns_of_written
    (hw : TextFile.write fs g.destination g.content settings.encoding = (.ok (), after)) :
    (step settings converter ordinal source).Returns fs
      (finished source g.destination true) after := by
  rw [returns_iff, run_step, hc]
  simp only [run_handle_generated, Output.run_writeIfChanged, hd, hw, and_self]

end

end Conversion

end ResourceAccessors
