import ResourceAccessors.Output
import ResourceAccessors.Proofs.TextFile

/-! Outputs that are settled. Whenever writing an output ends, the file its path leads to holds the
text, and writing the same output again changes nothing. Links on the way are followed and missing
directories added, so this is about the path of the output and not about a plain file. -/
namespace ResourceAccessors
set_option autoImplicit false

namespace Output

/-- Writing an output, step by step: the file is compared, and written only if it differs. -/
theorem run_writeIfChanged (encoding : String) (g : Generated) (fs : FileSystem) :
    (writeIfChanged encoding g).run fs =
      match TextFile.differs fs g.destination g.content encoding with
      | .error fault => ⟨.error (wrap (.reading g.destination) fault), fs, []⟩
      | .ok false => ⟨.ok false, fs, [.note (.unchanged g.destination)]⟩
      | .ok true =>
        match TextFile.write fs g.destination g.content encoding with
        | (.error fault, partway) => ⟨.error (wrap (.writing g.destination) fault), partway, []⟩
        | (.ok (), after) => ⟨.ok true, after, [.note (.written g.destination)]⟩ := by
  have hask : (Action.ask fun fs => TextFile.differs fs g.destination g.content encoding).run fs =
      ⟨.ok (TextFile.differs fs g.destination g.content encoding), fs, []⟩ := rfl
  unfold writeIfChanged
  rw [Action.run_bind_ok hask]
  cases hd : TextFile.differs fs g.destination g.content encoding with
  | error fault => rfl
  | ok differs =>
    cases differs with
    | false => rfl
    | true =>
      cases hw : TextFile.write fs g.destination g.content encoding with
      | mk result after =>
        cases result with
        | error fault =>
          have hwrite : (write encoding g).run fs =
              ⟨.error (wrap (.writing g.destination) fault), after, []⟩ := by
            refine Action.run_bind_error ?_
            simp only [Action.run, Action.change, hw]
            rfl
          simp only
          rw [Action.run_bind_error hwrite]
          rfl
        | ok =>
          have hwrite : (write encoding g).run fs =
              ⟨.ok (), after, [.note (.written g.destination)]⟩ := by
            have hchange : (Action.change fun fs =>
                let after := TextFile.write fs g.destination g.content encoding
                (after.1.mapError (wrap (.writing g.destination)), after.2)).run fs =
                  ⟨.ok (), after, []⟩ := by
              simp only [Action.run, Action.change, hw]
              rfl
            exact Action.run_bind_ok hchange
          simp only
          rw [Action.run_bind_ok hwrite]
          rfl

theorem writeIfChanged_settles {fs after : FileSystem} {destination : Path}
    {content encoding : String} {written : Bool} {events : List Event} (htree : fs.IsTree)
    (h : (writeIfChanged encoding ⟨destination, .text content⟩).run fs =
      ⟨.ok written, after, events⟩) :
    TextFile.read after destination encoding = .ok content ∧
      (writeIfChanged encoding ⟨destination, .text content⟩).run after =
        ⟨.ok false, after, [.note (.unchanged destination)]⟩ := by
  have hsame : TextFile.differs after destination (.text content) encoding = .ok false := by
    rw [run_writeIfChanged] at h
    split at h
    · simp at h
    · next hd =>
      simp only [Trace.mk.injEq] at h
      exact h.2.1 ▸ hd
    · split at h
      · simp at h
      · next ready hw =>
        simp only [Trace.mk.injEq] at h
        obtain ⟨bytes, ready, place, hs⟩ := TextFile.saved_of_write (h.2.1 ▸ hw)
        exact hs.differs_eq_false htree
  constructor
  · exact (TextFile.differs_eq_false_iff.1 hsame).2
  · rw [run_writeIfChanged]
    simp only [hsame]

def danglingLink : FileSystem :=
  ((FileSystem.empty .usual).set ["d"] .directory).set ["l"] (.link "d/out")

theorem danglingLink_isTree : danglingLink.IsTree := by
  have hd : (FileSystem.empty .usual).entryAt [] = some .directory := FileSystem.entryAt_nil _
  have h : ((FileSystem.empty .usual).set ["d"] .directory).IsTree :=
    (FileSystem.isTree_empty .usual).set_child hd rfl
  exact h.set_child (FileSystem.entryAt_nil _) rfl

theorem writeIfChanged_settles_danglingLink :
    let written := (writeIfChanged "utf-8-sig" ⟨⟨.root, ["l"]⟩, .text "\uFEFFa\r\n"⟩).run danglingLink
    danglingLink.IsTree ∧ written.result = .ok true ∧
      TextFile.read written.files ⟨.root, ["l"]⟩ "utf-8-sig" = .ok "\uFEFFa\r\n" := by
  intro written
  have h : written = ⟨.ok true, written.files, written.events⟩ := rfl
  exact ⟨danglingLink_isTree, rfl, (writeIfChanged_settles danglingLink_isTree h).1⟩

end Output

end ResourceAccessors
