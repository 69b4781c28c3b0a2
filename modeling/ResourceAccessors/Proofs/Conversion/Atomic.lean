import ResourceAccessors.Proofs.Conversion.Effect
import ResourceAccessors.Proofs.Conversion.Escape

/-! Conversions that fail. A conversion fails at exactly one stage, whether it then ends in a failed
outcome or in a fault. Up to the last stage it has looked at the files and changed none; when the
output is saved it may have added directories on the way there, and they hold nothing else. -/
namespace ResourceAccessors.Conversion
set_option autoImplicit false

open FileSystem

/-- What a conversion does, one after another: the converter is asked, its answer is checked, its
destination is taken for a path and the content compared with the output that is there, and the
content is encoded and saved. -/
inductive Stage where
  | asking
  | checking
  | placing
  | comparing
  | encoding
  | saving
  deriving DecidableEq

variable (settings : Settings) (converter : Converter) (ordinal : Nat) (source : SourceFile)
  (fs : FileSystem)

/-- A conversion comes as far as a stage and fails there. -/
inductive FailsAt : Stage → Prop
  | asking (thrown : Thrown) :
      converter fs (request settings ordinal source) = .error thrown → FailsAt .asking
  | checking (value : Value) (fault : ShapeFault) :
      converter fs (request settings ordinal source) = .ok value →
      value.toAnswer = .error fault → FailsAt .checking
  | placing (fault : ShapeFault) :
      consult converter (request settings ordinal source) fs = .ok (.misplaced fault) →
      FailsAt .placing
  | comparing (g : Generated) (fault : TextFault) :
      consult converter (request settings ordinal source) fs = .ok (.generated g) →
      TextFile.differs fs g.destination g.content settings.encoding = .error fault →
      FailsAt .comparing
  | encoding (g : Generated) (fault : TextFault) :
      consult converter (request settings ordinal source) fs = .ok (.generated g) →
      TextFile.differs fs g.destination g.content settings.encoding = .ok true →
      TextFile.bytesOf g.content settings.encoding = .error fault → FailsAt .encoding
  | saving (g : Generated) (bytes : List UInt8) (fault : TextFault) (partway : FileSystem) :
      consult converter (request settings ordinal source) fs = .ok (.generated g) →
      TextFile.differs fs g.destination g.content settings.encoding = .ok true →
      TextFile.bytesOf g.content settings.encoding = .ok bytes →
      TextFile.writeBytes fs g.destination bytes = (.error fault, partway) → FailsAt .saving

/-- A conversion failed if its outcome says so, or if it has none. -/
def Failing : Except Fault Outcome → Prop
  | .ok o => o.status = .failed
  | .error _ => True

variable {settings converter ordinal source fs}

/-- A fault in the answer is one of the converter or one that the check of its value finds. -/
theorem failsAt_of_consult {thrown : Thrown}
    (h : consult converter (request settings ordinal source) fs = .error thrown) :
    FailsAt settings converter ordinal source fs .asking ∨
      FailsAt settings converter ordinal source fs .checking := by
  unfold consult at h
  split at h
  · next other hraised => exact .inl (.asking other hraised)
  · next value hvalue =>
    split at h
    · next fault hfault => exact .inr (.checking value fault hvalue hfault)
    · simp at h

/-- A write that fails does so for want of bytes, with the files as they were, or while the bytes
are saved. -/
theorem write_error_cases {p : Path} {content : Value} {encoding : String} {fault : TextFault}
    {partway : FileSystem} (h : TextFile.write fs p content encoding = (.error fault, partway)) :
    (TextFile.bytesOf content encoding = .error fault ∧ partway = fs) ∨
      ∃ bytes, TextFile.bytesOf content encoding = .ok bytes ∧
        TextFile.writeBytes fs p bytes = (.error fault, partway) := by
  unfold TextFile.write at h
  split at h
  · next f hf =>
    rw [Prod.mk.injEq, Except.error.injEq] at h
    exact .inl ⟨h.1 ▸ hf, h.2.symm⟩
  · next bytes hbytes => exact .inr ⟨bytes, hbytes, h⟩

/-- There is no stage but one at which a conversion fails. -/
theorem FailsAt.unique {stage other : Stage} (h : FailsAt settings converter ordinal source fs stage)
    (ho : FailsAt settings converter ordinal source fs other) : other = stage := by
  -- a stage is only come to by what the one before it has found
  cases h <;> cases ho <;> simp_all [consult]

/-- Before the output is saved nothing is changed, and then directories are added above it. -/
theorem made_of_failing
    (h : Failing ((step settings converter ordinal source).run fs).result) :
    ∃ stage, FailsAt settings converter ordinal source fs stage ∧
      (stage ≠ .saving → ((step settings converter ordinal source).run fs).files = fs) ∧
      (((step settings converter ordinal source).run fs).files = fs ∨
        ∃ g, consult converter (request settings ordinal source) fs = .ok (.generated g) ∧
          Made g.destination.parent fs ((step settings converter ordinal source).run fs).files) := by
  have hs := stepped settings converter ordinal source fs
  generalize (step settings converter ordinal source).run fs = trace at h hs
  have hwrite : ∀ {g fault partway},
      consult converter (request settings ordinal source) fs = .ok (.generated g) →
      TextFile.differs fs g.destination g.content settings.encoding = .ok true →
      TextFile.write fs g.destination g.content settings.encoding = (.error fault, partway) →
      ∃ stage, FailsAt settings converter ordinal source fs stage ∧
        (stage ≠ .saving → partway = fs) ∧
        (partway = fs ∨
          ∃ g, consult converter (request settings ordinal source) fs = .ok (.generated g) ∧
            Made g.destination.parent fs partway) := by
    intro g fault partway hg hd hw
    rcases write_error_cases hw with ⟨hbytes, hsame⟩ | ⟨bytes, hbytes, hsaved⟩
    · exact ⟨.encoding, .encoding g fault hg hd hbytes, fun _ => hsame, .inl hsame⟩
    · exact ⟨.saving, .saving g bytes fault partway hg hd hbytes hsaved, fun hne => absurd rfl hne,
        .inr ⟨g, hg, TextFile.made_of_write_error hw⟩⟩
  cases hs with
  | interrupted thrown hthrown | complained thrown hthrown | unspoken thrown breakdown hthrown =>
    rcases failsAt_of_consult hthrown with hstage | hstage
    · exact ⟨.asking, hstage, fun _ => rfl, .inl rfl⟩
    · exact ⟨.checking, hstage, fun _ => rfl, .inl rfl⟩
  | misplaced fault hg => exact ⟨.placing, .placing fault hg, fun _ => rfl, .inl rfl⟩
  | unreadable g fault hg hd | uncomparable g fault hg hd =>
    exact ⟨.comparing, .comparing g fault hg hd, fun _ => rfl, .inl rfl⟩
  | unwritable g fault partway hg hd hw => exact hwrite hg hd hw
  | unencodable g fault partway hg hd hw => exact hwrite hg hd hw
  | unchanged => simp [Failing, finished] at h
  | converted => simp [Failing, finished] at h

theorem touched_of_failing
    (h : Failing ((step settings converter ordinal source).run fs).result) :
    ∃ ways, Touched [] ways fs ((step settings converter ordinal source).run fs).files := by
  obtain ⟨-, -, -, hsame | ⟨g, -, hmade⟩⟩ := made_of_failing h
  · refine ⟨[], ?_⟩
    rw [hsame]
    exact .refl _ _ _
  · exact ⟨_, hmade.touched⟩

/-- What a conversion that fails adds are directories on the way to its output, with nothing but
such directories in them. -/
theorem new_of_failing (htree : fs.IsTree)
    (h : Failing ((step settings converter ordinal source).run fs).result) {loc : Location}
    {e : Entry} (he : ((step settings converter ordinal source).run fs).files.entryAt loc = some e)
    (hfree : fs.entryAt loc = none) :
    e = .directory ∧
      (∃ g, consult converter (request settings ordinal source) fs = .ok (.generated g) ∧
        ∃ n < g.destination.names.length,
          ((step settings converter ordinal source).run fs).files.Names
            (g.destination.take n) loc) ∧
      ∀ names below, ((step settings converter ordinal source).run fs).files.entryAt
        (loc ++ names) = some below → below = .directory := by
  obtain ⟨-, -, -, hsame | ⟨g, hg, hmade⟩⟩ := made_of_failing h
  · rw [hsame, hfree] at he
    simp at he
  · obtain ⟨hdir, hway, hbelow⟩ := hmade.touched.directory_of_new htree he hfree
    exact ⟨hdir, ⟨g, hg, hway⟩, hbelow⟩

/-- A conversion that fails leaves every entry as it was. Whatever is new stands on the way to the
output and is a directory with nothing but such directories in it, and nothing is new unless the
output was about to be saved. -/
theorem step_atomic (htree : fs.IsTree)
    (hfails : Failing ((step settings converter ordinal source).run fs).result) :
    let after := ((step settings converter ordinal source).run fs).files
    (∀ loc e, fs.entryAt loc = some e → after.entryAt loc = some e) ∧
      (∀ loc e, after.entryAt loc = some e → fs.entryAt loc = none →
        e = .directory ∧
          (∃ g, consult converter (request settings ordinal source) fs = .ok (.generated g) ∧
            ∃ n < g.destination.names.length, after.Names (g.destination.take n) loc) ∧
          ∀ names below, after.entryAt (loc ++ names) = some below → below = .directory) ∧
      ∃ stage, FailsAt settings converter ordinal source fs stage ∧
        (∀ other, FailsAt settings converter ordinal source fs other → other = stage) ∧
        (stage ≠ .saving → after = fs) := by
  intro after
  obtain ⟨stage, hstage, hsame, -⟩ := made_of_failing hfails
  obtain ⟨ways, htouched⟩ := touched_of_failing hfails
  exact ⟨fun loc e he => htouched.entryAt_eq he,
    fun loc e he hfree => new_of_failing htree hfails he hfree,
    stage, hstage, fun other ho => hstage.unique ho, hsame⟩

/-! ## An output that turns out to be a directory -/

/-- A directory and a link to it. -/
def linkedDirectory : FileSystem :=
  ((FileSystem.empty .usual).set ["d"] .directory).set ["l"] (.link "d")

theorem linkedDirectory_isTree : linkedDirectory.IsTree :=
  ((isTree_empty .usual).set_child (entryAt_nil _) rfl).set_child (entryAt_nil _) rfl

/-- Has an output that climbs out of a directory which is not there yet. -/
def climbingConverter : Converter := fun _ _ => .ok (.tuple [.text "/l/e/..", .text "c"])

theorem step_atomic_climbing :
    let after := ((step plainSettings climbingConverter 0 lonelySource).run linkedDirectory).files
    linkedDirectory.IsTree ∧ after.entryAt ["l"] = some (.link "d") ∧
      after.entryAt ["d", "e"] = some .directory ∧
      FailsAt plainSettings climbingConverter 0 lonelySource linkedDirectory .saving ∧
      ∀ names below, after.entryAt (["d", "e"] ++ names) = some below → below = .directory := by
  intro after
  have hfails : Failing
      ((step plainSettings climbingConverter 0 lonelySource).run linkedDirectory).result := rfl
  have hmade : after.entryAt ["d", "e"] = some .directory := rfl
  obtain ⟨hkept, hnew, stage, hstage, -, hsame⟩ := step_atomic linkedDirectory_isTree hfails
  have hsaving : stage = .saving := by
    refine Classical.byContradiction fun hne => ?_
    have hfree : linkedDirectory.entryAt ["d", "e"] = none := rfl
    rw [show after = linkedDirectory from hsame hne, hfree] at hmade
    simp at hmade
  exact ⟨linkedDirectory_isTree, hkept _ _ rfl, hmade, hsaving ▸ hstage, (hnew _ _ hmade rfl).2.2⟩

end ResourceAccessors.Conversion
