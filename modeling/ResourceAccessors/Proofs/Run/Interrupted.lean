import ResourceAccessors.Proofs.Conversion.Atomic
import ResourceAccessors.Proofs.Run.Accounting
import ResourceAccessors.Proofs.Run.Course
import ResourceAccessors.Proofs.Run.Footprint

/-! Runs that are broken off. A fault that gets past the conversion of one file ends the run there
and then: the files are those that the conversions before it left, except for directories on the way
to the output it was about to write, and what was asked and told until then is all that was. -/
namespace ResourceAccessors
set_option autoImplicit false

open ResourceAccessors.Action FileSystem

namespace Event

def message? : Event → Option Message
  | message m => some m
  | note _ | progress _ | call _ => none

def request? : Event → Option Request
  | call r => some r
  | message _ | note _ | progress _ => none

def update? : Event → Option Progress
  | progress p => some p
  | message _ | note _ | call _ => none

end Event

variable {settings : Settings} {converter : Converter} {listener : Option Listener}
  {ordinal total index : Nat} {source : SourceFile} {sources : List SourceFile} {o : Outcome}
  {os : List Outcome} {fs mid after : FileSystem} {loc : Location} {bytes : List UInt8}
  {events : List Event} {fault : Fault}

namespace Conversion

theorem events_of_step (settings : Settings) (converter : Converter) (ordinal : Nat)
    (source : SourceFile) (fs : FileSystem) :
    ((step settings converter ordinal source).run fs).events.filterMap Event.request? =
        [request settings ordinal source] ∧
      ((step settings converter ordinal source).run fs).events.filterMap Event.update? = [] ∧
      ((step settings converter ordinal source).run fs).events.filterMap Event.message? = [] := by
  have hs := stepped settings converter ordinal source fs
  generalize (step settings converter ordinal source).run fs = trace at hs
  cases hs with
  | complained thrown _ _ | unspoken thrown _ _ _ _ =>
    unfold complaint
    split <;> exact ⟨rfl, rfl, rfl⟩
  | _ => exact ⟨rfl, rfl, rfl⟩

/-- A file that is there after a conversion was there before, or it is the whole output. -/
theorem Effect.file_cases (h : Effect settings converter ordinal source fs o after)
    (htree : fs.IsTree) (hfile : after.entryAt loc = some (.file bytes)) :
    fs.entryAt loc = some (.file bytes) ∨
      ∃ g, consult converter (request settings ordinal source) fs = .ok (.generated g) ∧
        TextFile.bytesOf g.content settings.encoding = .ok bytes ∧
        after.locate g.destination = .ok loc := by
  cases h with
  | refused | unchanged => exact .inl hfile
  | stopped g message _ _ hmade => exact .inl (hmade.touched.file_eq hfile)
  | converted g written ready place _ hg hsaved =>
    have hthere := hsaved.written.entryAt_location
    by_cases hloc : loc = place.location
    · subst hloc
      rw [hthere, Option.some.injEq, Entry.file.injEq] at hfile
      exact .inr ⟨g, hg, hfile ▸ hsaved.encoded, hsaved.locate htree⟩
    · have hne : place.location ≠ [] := by
        intro hnil
        simp [hnil] at hthere
      rw [hsaved.written.eq, entryAt_set _ _ _ _ hne, if_neg hloc] at hfile
      exact .inl (hsaved.made.touched.file_eq hfile)

end Conversion

namespace Run

open Conversion

/-! ## What is heard of a run -/

theorem run_sayAll (messages : List Message) (fs : FileSystem) :
    (sayAll messages).run fs = ⟨.ok (), fs, messages.map .message⟩ := by
  induction messages with
  | nil => rfl
  | cons m messages ih =>
    have hsay : (say m).run fs = ⟨.ok (), fs, [.message m]⟩ := rfl
    rw [sayAll, run_bind_ok hsay, ih]
    rfl

theorem run_announce {update : Progress} (h : Heard listener ordinal update) :
    (announce listener ordinal update).run fs =
      ⟨.ok (), fs, if listener.isSome then [.progress update] else []⟩ := by
  unfold announce
  cases listener with
  | none => rfl
  | some hear =>
    have hemit : (emit (.progress update)).run fs = ⟨.ok (), fs, [.progress update]⟩ := rfl
    simp only
    rw [run_bind_ok hemit, h hear rfl]
    rfl

/-- What the conversion of some files asks and tells. -/
structure Told (settings : Settings) (listener : Option Listener) (total index : Nat)
    (sources : List SourceFile) (os : List Outcome) (events : List Event) : Prop where
  requests : events.filterMap Event.request? =
    sources.mapIdx fun i source => request settings (index + i) source
  updates : events.filterMap Event.update? =
    if listener.isSome then os.mapIdx fun i o => fileUpdate (index + i + 1) total o else []
  messages : events.filterMap Event.message? = os.flatMap Message.ofOutcome

theorem Told.cons {first rest : List Event}
    (h : Told settings listener total (index + 1) sources os rest)
    (hrequests : first.filterMap Event.request? = [request settings index source])
    (hupdates : first.filterMap Event.update? = [])
    (hmessages : first.filterMap Event.message? = []) :
    Told settings listener total index (source :: sources) (o :: os)
      (first ++ ((Message.ofOutcome o).map .message ++
        ((if listener.isSome then [.progress (fileUpdate (index + 1) total o)] else []) ++
          rest))) := by
  have hsaid : ∀ messages : List Message,
      (messages.map Event.message).filterMap Event.request? = [] ∧
        (messages.map Event.message).filterMap Event.update? = [] ∧
        (messages.map Event.message).filterMap Event.message? = messages := by
    intro messages
    refine ⟨?_, ?_, ?_⟩
    · simp [List.filterMap_eq_nil_iff, Event.request?]
    · simp [List.filterMap_eq_nil_iff, Event.update?]
    · rw [List.filterMap_map]
      exact List.filterMap_some
  have hnext : ∀ i, index + 1 + i = index + (i + 1) := by omega
  refine ⟨?_, ?_, ?_⟩
  · have hannounced : (if listener.isSome then [Event.progress (fileUpdate (index + 1) total o)]
        else []).filterMap Event.request? = [] := by
      split <;> rfl
    rw [List.filterMap_append, List.filterMap_append, List.filterMap_append, hrequests,
      (hsaid _).1, hannounced, h.requests, List.mapIdx_cons]
    simp only [hnext]
    rfl
  · rw [List.filterMap_append, List.filterMap_append, List.filterMap_append, hupdates,
      (hsaid _).2.1, h.updates, List.mapIdx_cons]
    simp only [hnext]
    split <;> rfl
  · have hannounced : (if listener.isSome then [Event.progress (fileUpdate (index + 1) total o)]
        else []).filterMap Event.message? = [] := by
      split <;> rfl
    rw [List.filterMap_append, List.filterMap_append, List.filterMap_append, hmessages,
      (hsaid _).2.2, hannounced, h.messages, List.flatMap_cons]
    rfl

/-- The conversion of files that do not end the loop is passed through by the loop over them and
more. -/
theorem Converts.run_append
    (h : Converts settings converter listener total index fs sources os after) (summary : Summary)
    (rest : List SourceFile) :
    let tail := (convertFrom settings converter listener total (index + sources.length)
      (os.foldl Summary.record summary) rest).run after
    ∃ events, Told settings listener total index sources os events ∧
      (convertFrom settings converter listener total index summary (sources ++ rest)).run fs =
        ⟨tail.result, tail.files, events ++ tail.events⟩ := by
  induction h generalizing summary with
  | nil index fs =>
    refine ⟨[], ⟨rfl, ?_, rfl⟩, rfl⟩
    split <;> rfl
  | @cons index fs mid after source sources o os hstep hheard _ ih =>
    obtain ⟨first, hfirst⟩ := hstep
    have hevents := events_of_step settings converter index source fs
    rw [hfirst] at hevents
    obtain ⟨events, htold, hrun⟩ := ih (summary.record o)
    refine ⟨_, htold.cons hevents.1 hevents.2.1 hevents.2.2, ?_⟩
    rw [List.cons_append, convertFrom, run_bind_ok hfirst, run_bind_ok (run_sayAll _ mid),
      run_bind_ok (run_announce hheard), hrun]
    have hlength : index + 1 + sources.length = index + (source :: sources).length := by
      rw [List.length_cons]
      omega
    simp only [hlength, List.foldl_cons, List.append_assoc]

/-- A fault of the loop is the fault of the run. Nothing is asked before, and nothing told to the
listener. -/
theorem run_of_convertFrom_error {base : Option Path} (hcheck : settings.check = .ok ())
    (hdir : fs.isDirectory (rootOf settings base fs) = .ok true)
    (hscan : Scan.run fs (rootOf settings base fs) settings.patterns.texts settings.recursive =
      .ok sources)
    (hloop : (convertFrom settings converter listener sources.length 0
      (Summary.empty (rootOf settings base fs)) sources).run fs = ⟨.error fault, after, events⟩) :
    (run settings converter listener base).run fs =
      ⟨.error fault, after, [.message .blank, .message (.starting (rootOf settings base fs)),
        .message .blank, .note (.candidates sources.length)] ++ events⟩ := by
  have hfound : (convertFound settings converter listener (rootOf settings base fs) sources).run fs =
      ⟨.error fault, after, events⟩ := by
    unfold convertFound convertSources
    rw [run_bind_error (run_bind_error hloop)]
  rw [run_eq, hcheck, hdir]
  simp only [run_convertAll, hscan, hfound]
  rfl

/-! ## What is left of a run -/

/-- A file that is there after a loop was there before, or it is the whole output of a source. -/
theorem Converts.file_cases
    (h : Converts settings converter listener total index fs sources os after) (htree : fs.IsTree)
    (hfile : after.entryAt loc = some (.file bytes)) :
    fs.entryAt loc = some (.file bytes) ∨
      ∃ i source g, sources[i]? = some source ∧
        consult converter (request settings (index + i) source)
          (filesAfter settings converter index fs (sources.take i)) = .ok (.generated g) ∧
        TextFile.bytesOf g.content settings.encoding = .ok bytes ∧
        after.locate g.destination = .ok loc := by
  induction h with
  | nil => exact .inl hfile
  | @cons index fs mid after source sources o os hstep _ hrest ih =>
    have heffect := effect_of_step hstep
    have htmid := heffect.isTree htree
    rcases ih htmid hfile with hmid | ⟨i, later, g, hlater, hg, hbytes, hloc⟩
    · rcases heffect.file_cases htree hmid with hfs | ⟨g, hg, hbytes, hloc⟩
      · exact .inl hfs
      · exact .inr ⟨0, source, g, rfl, hg, hbytes, (hrest.touched htmid).1.keeps.locate hloc⟩
    · refine .inr ⟨i + 1, later, g, hlater, ?_, hbytes, hloc⟩
      rw [List.take_succ_cons, filesAfter, (returns_iff.1 hstep).2, Nat.add_comm i, ← Nat.add_assoc]
      exact hg

theorem run_stops {base : Option Path} {k : Nat} (htree : fs.IsTree)
    (hcheck : settings.check = .ok ())
    (hscan : Scan.run fs (rootOf settings base fs) settings.patterns.texts settings.recursive =
      .ok sources)
    (hsource : sources[k]? = some source)
    (hbefore : Converts settings converter listener sources.length 0 fs (sources.take k) os mid)
    (hfault : ((step settings converter k source).run mid).result = .error fault) :
    ∃ after events, (run settings converter listener base).run fs =
        ⟨.error fault, after, events⟩ ∧
      mid = filesAfter settings converter 0 fs (sources.take k) ∧
      (∀ loc e, mid.entryAt loc = some e → after.entryAt loc = some e) ∧
      (∀ loc e, after.entryAt loc = some e → mid.entryAt loc = none →
        ∃ g, consult converter (request settings k source) mid = .ok (.generated g) ∧
          (∃ n < g.destination.names.length, after.Names (g.destination.take n) loc) ∧
          ∀ names below, after.entryAt (loc ++ names) = some below → below = .directory) ∧
      (∀ loc bytes, after.entryAt loc = some (.file bytes) →
        fs.entryAt loc = some (.file bytes) ∨
          ∃ i < k, ∃ earlier g, sources[i]? = some earlier ∧
            consult converter (request settings i earlier)
              (filesAfter settings converter 0 fs (sources.take i)) = .ok (.generated g) ∧
            TextFile.bytesOf g.content settings.encoding = .ok bytes ∧
            after.locate g.destination = .ok loc) ∧
      events.filterMap Event.request? = (sources.take (k + 1)).mapIdx (request settings) ∧
      os.length = k ∧
      events.filterMap Event.update? = if listener.isSome then os.mapIdx fun i o =>
        ⟨sources.length, i + 1, some s!"完成 {o.relative}", .running⟩ else [] := by
  obtain ⟨hk, hget⟩ := List.getElem?_eq_some_iff.1 hsource
  have hlength : (sources.take k).length = k := List.length_take_of_le (Nat.le_of_lt hk)
  have hsplit : sources.take k ++ source :: sources.drop (k + 1) = sources := by
    rw [← hget, ← List.drop_eq_getElem_cons hk, List.take_append_drop]
  obtain ⟨htouched, htmid⟩ := hbefore.touched htree
  have hfailing : Failing ((step settings converter k source).run mid).result := by
    rw [hfault]
    trivial
  obtain ⟨hrequests, hupdates, -⟩ := events_of_step settings converter k source mid
  have hstep : (step settings converter k source).run mid = ⟨.error fault,
      ((step settings converter k source).run mid).files,
      ((step settings converter k source).run mid).events⟩ := by
    rw [← hfault]
  obtain ⟨ways, hlast⟩ := touched_of_failing hfailing
  -- the loop comes to the source and no further
  obtain ⟨events, htold, hloop⟩ := hbefore.run_append (Summary.empty (rootOf settings base fs))
    (source :: sources.drop (k + 1))
  rw [hsplit, hlength, Nat.zero_add, convertFrom, run_bind_error hstep] at hloop
  refine ⟨_, _, run_of_convertFrom_error hcheck (isDirectory_of_scan hscan hsource) hscan hloop,
    hbefore.eq_filesAfter, fun loc e he => hlast.entryAt_eq he,
    fun loc e he hfree => ?_, fun loc bytes hfile => ?_, ?_, hbefore.length_eq.trans hlength, ?_⟩
  · obtain ⟨-, ⟨g, hg, hway⟩, hbelow⟩ := new_of_failing htmid hfailing he hfree
    exact ⟨g, hg, hway, hbelow⟩
  · rcases hbefore.file_cases htree (hlast.file_eq hfile) with
      hfs | ⟨i, earlier, g, hi, hg, hb, hloc⟩
    · exact .inl hfs
    · have hik : i < k := by
        have hlt := (List.getElem?_eq_some_iff.1 hi).1
        omega
      rw [List.getElem?_take_of_lt hik] at hi
      rw [Nat.zero_add, List.take_take, Nat.min_eq_left (Nat.le_of_lt hik)] at hg
      exact .inr ⟨i, hik, earlier, g, hi, hg, hb, hlast.keeps.locate hloc⟩
  · rw [List.filterMap_append, List.filterMap_append, htold.requests, hrequests, List.take_add_one,
      hsource, Option.toList_some, List.mapIdx_append, hlength]
    simp only [Nat.zero_add, List.mapIdx_cons, List.mapIdx_nil]
    rfl
  · rw [List.filterMap_append, List.filterMap_append, htold.updates, hupdates]
    simp only [Nat.zero_add]
    exact List.append_nil _

/-! ## A second output that cannot be named -/

/-- Has a file for its first call, and for all others one whose path holds a NUL character. -/
def nulInSecond : Converter := fun _ r =>
  if r.ordinal = 0 then .ok (.tuple [.text "/out", .text "c"])
  else .ok (.tuple [.text "/d/x\x00", .text "c"])

def silent : Listener := fun _ _ => none

theorem silent_heard (ordinal : Nat) (update : Progress) : Heard (some silent) ordinal update := by
  intro hear h
  rw [← Option.some.inj h]
  rfl

theorem run_stops_nulInSecond :
    ∃ after events, (run plainSettings nulInSecond (some silent) none).run twoResources =
        ⟨.error (.text (.file .nulInPath)), after, events⟩ ∧
      after.entryAt ["out"] = some (.file [0x63]) ∧
      events.filterMap Event.request? =
        [request plainSettings 0 (resourceOf "a"), request plainSettings 1 (resourceOf "b")] ∧
      events.filterMap Event.update? =
        [⟨2, 1, some "完成 a/LocalizedText.resx", .running⟩] := by
  have hfirst : (step plainSettings nulInSecond 0 (resourceOf "a")).Returns twoResources
      (finished (resourceOf "a") ⟨.root, ["out"]⟩ true)
      (twoResources.set ["out"] (.file [0x63])) := returns_iff.2 ⟨rfl, rfl⟩
  have hfault : ((step plainSettings nulInSecond 1 (resourceOf "b")).run
      (twoResources.set ["out"] (.file [0x63]))).result = .error (.text (.file .nulInPath)) := rfl
  obtain ⟨after, events, hrun, -, hkept, -, -, hrequests, -, hupdates⟩ :=
    run_stops twoResources_isTree plainSettings_check scan_twoResources rfl
      (.cons hfirst (silent_heard _ _) (.nil 1 _)) hfault
  exact ⟨after, events, hrun, hkept _ _ rfl, hrequests, hupdates⟩

end Run

end ResourceAccessors
