import Mathlib.Data.List.Flatten
import ResourceAccessors.Proofs.Root
import ResourceAccessors.Proofs.FileSystem.Plain
import ResourceAccessors.Proofs.Text.Blank

/-! What becomes of a root that is given again as an input. Roots are absolute and without dots. The
text of such a path loses the blanks at its end and the backslashes in it, and nothing else, when
it is read as an input; it leads back to the path exactly if it has none of these. -/
namespace ResourceAccessors
set_option autoImplicit false

theorem Text.flatten_segments (sep : Char) (cs : List Char) :
    (segments sep cs).flatten = cs.filter (· ≠ sep) := by
  induction cs with
  | nil => rfl
  | cons c cs ih =>
    obtain ⟨s, more, hs⟩ := List.exists_cons_of_ne_nil (segments_ne_nil sep cs)
    by_cases hc : c = sep
    · simp [segments, hc, ih]
    · simp_all [segments]

namespace Path

variable {p q : Path} {names kept : List String} {text : String}

/-! ## Paths without dots -/

theorem Plain.spelled (h : p.Plain) : p.Spelled := by
  refine spelled_iff.2 fun n hn => ?_
  have hentry := h.entryNames n hn
  simp_all [isEntryName, isKept]

theorem Plain.dotdot_not_mem (h : p.Plain) : ".." ∉ p.names :=
  fun hm => (ne_dot_of_isEntryName (h.entryNames _ hm)).2 rfl

theorem plain_of_spelled (h : p.Spelled) (habsolute : p.isAbsolute = true)
    (hdots : ".." ∉ p.names) : p.Plain := by
  refine ⟨habsolute, fun n hn => ?_⟩
  have hkept := spelled_iff.1 h n hn
  have hne : n ≠ ".." := fun heq => hdots (heq ▸ hn)
  simp_all [isEntryName, isKept]

theorem Spelled.join (hp : p.Spelled) (hq : q.Spelled) : (p.join q).Spelled := by
  cases habsolute : q.isAbsolute with
  | true => rwa [join_absolute habsolute]
  | false =>
    rw [join_relative habsolute, spelled_iff]
    intro n hn
    rcases List.mem_append.1 hn with hn | hn
    · exact spelled_iff.1 hp n hn
    · exact spelled_iff.1 hq n hn

theorem foldl_stepLexically_sublist (names kept : List String) :
    (names.foldl stepLexically kept).Sublist (kept ++ names) := by
  induction names generalizing kept with
  | nil => simp
  | cons n names ih =>
    refine (ih _).trans ?_
    unfold stepLexically
    split
    · exact (List.dropLast_sublist kept).append (List.sublist_cons_self n names)
    · simp

theorem lexicalNames_sublist (names : List String) : (lexicalNames names).Sublist names :=
  foldl_stepLexically_sublist names []

theorem foldl_stepLexically (h : ".." ∉ names) : names.foldl stepLexically kept = kept ++ names := by
  induction names generalizing kept with
  | nil => simp
  | cons n names ih =>
    rw [List.mem_cons, not_or] at h
    rw [List.foldl_cons, stepLexically, if_neg (Ne.symm h.1), ih h.2, List.append_assoc,
      List.singleton_append]

theorem lexicallyNormal_eq_self (h : ".." ∉ p.names) : p.lexicallyNormal = p := by
  rw [lexicallyNormal, lexicalNames, foldl_stepLexically h, List.nil_append]

theorem Spelled.plain_lexicallyNormal (h : p.Spelled) (habsolute : p.isAbsolute = true) :
    p.lexicallyNormal.Plain := by
  refine plain_of_spelled (spelled_iff.2 fun n hn => ?_) habsolute
    (dotdot_not_mem_lexicalNames p.names)
  exact spelled_iff.1 h n ((lexicalNames_sublist p.names).subset hn)

theorem startsAtRoot_toString (h : p.isAbsolute = true) : startsAtRoot p.toString = true := by
  obtain ⟨anchor, names⟩ := p
  cases anchor with
  | relative => simp [isAbsolute] at h
  | root => simp [startsAtRoot, Path.toString, Anchor.text]
  | doubleRoot => simp [startsAtRoot, Path.toString, Anchor.text]

/-! ## Letters -/

/-- The characters of a path's names. -/
def letters (p : Path) : List Char :=
  p.names.flatMap String.toList

theorem letters_ofString_sublist (text : String) :
    (ofString text).letters.Sublist (text.toList.filter (· ≠ '/')) := by
  have hsegments : (Text.split '/' text).flatMap String.toList = text.toList.filter (· ≠ '/') := by
    rw [Text.split, List.flatMap_map, ← Text.flatten_segments]
    simp [List.flatMap]
  rw [← hsegments, letters, ofString]
  exact List.filter_sublist.flatMap _

theorem letters_lexicallyNormal_sublist (p : Path) :
    p.lexicallyNormal.letters.Sublist p.letters :=
  (lexicalNames_sublist p.names).flatMap _

/-- Behind its slashes the text of an absolute path has the letters of its names. -/
theorem Plain.filter_toString (h : p.Plain) : p.toString.toList.filter (· ≠ '/') = p.letters := by
  have hinner : ("/".intercalate p.names).toList.filter (· ≠ '/') = p.letters := by
    have hslash : ∀ piece ∈ p.names.map String.toList, '/' ∉ piece := by
      intro piece hpiece
      obtain ⟨n, hn, rfl⟩ := List.mem_map.1 hpiece
      exact (spelled_iff.1 h.spelled n hn).2
    rw [String.toList_intercalate]
    by_cases hempty : p.names = []
    · simp [hempty, letters]
    · refine (Text.flatten_segments '/' _).symm.trans ?_
      have hsegments := Text.segments_intercalate (by simpa using hempty) hslash
      refine (congrArg List.flatten hsegments).trans ?_
      simp [letters, List.flatMap]
  obtain ⟨anchor, names⟩ := p
  cases anchor with
  | relative => exact absurd rfl (of_decide_eq_true h.absolute)
  | root => simpa [Path.toString, Anchor.text] using hinner
  | doubleRoot => simpa [Path.toString, Anchor.text] using hinner

end Path

namespace Root

open ResourceAccessors.Path

variable {text : String}

/-! ## Reading an input that starts at the root -/

theorem startsUnblank (h : startsAtRoot text = true) : Text.StartsUnblank text := by
  have hslash : text.toList.head? = some '/' := of_decide_eq_true h
  rw [Text.StartsUnblank, hslash]
  decide

theorem not_blank (h : startsAtRoot text = true) : Text.isBlankText text = false := by
  have hslash : text.toList.head? = some '/' := of_decide_eq_true h
  obtain ⟨cs, hcs⟩ := List.head?_eq_some_iff.1 hslash
  have hunblank : Text.isBlank '/' = false := by decide
  rw [Text.isBlankText, hcs, List.all_cons, hunblank, Bool.false_and]

theorem startsAtRoot_trim (h : startsAtRoot text = true) : startsAtRoot (Text.trim text) = true := by
  have hslash : text.toList.head? = some '/' := of_decide_eq_true h
  obtain ⟨blanks, htext, hblanks, -⟩ := Text.exists_blanks (startsUnblank h)
  cases htrim : (Text.trim text).toList with
  | nil =>
    rw [htext, htrim, List.nil_append] at hslash
    exact absurd (hblanks '/' (List.mem_of_mem_head? hslash)) (by decide)
  | cons c cs =>
    rw [htext, htrim] at hslash
    rw [startsAtRoot, htrim]
    exact decide_eq_true hslash

theorem startsAtRoot_givenBy (h : startsAtRoot text = true) :
    startsAtRoot (givenBy text) = true := by
  have htrim : (Text.trim text).toList.head? = some '/' := of_decide_eq_true (startsAtRoot_trim h)
  simp [startsAtRoot, givenBy, normalizeSeparators, htrim]

theorem resolve_of_root (h : startsAtRoot text = true) (process : Path) (base : Option Path) :
    resolve process base (some text) = (ofString (givenBy text)).lexicallyNormal :=
  resolve_of_startsAtRoot (not_blank h) (startsAtRoot_givenBy h) process base

/-- Besides slashes an input has the characters of the trimmed text but its backslashes. -/
theorem filter_givenBy (text : String) : (givenBy text).toList.filter (· ≠ '/') =
    ((Text.trim text).toList.filter (· ≠ '/')).filter (· ≠ '\\') := by
  rw [givenBy, normalizeSeparators, String.toList_ofList]
  induction (Text.trim text).toList with
  | nil => rfl
  | cons c cs ih =>
    by_cases hback : c = '\\'
    · simp_all
    · by_cases hslash : c = '/' <;> simp_all

/-! ## Roots -/

/-- A text that trimming and the reading of backslashes as slashes leave as it is. -/
def Verbatim (text : String) : Prop :=
  '\\' ∉ text.toList ∧ Text.EndsUnblank text

instance (text : String) : Decidable (Verbatim text) :=
  inferInstanceAs (Decidable (_ ∧ _))

theorem givenBy_of_verbatim (hroot : startsAtRoot text = true) (h : Verbatim text) :
    givenBy text = text := by
  rw [givenBy, Text.trim_eq_self (startsUnblank hroot) h.2, normalizeSeparators]
  have hmap : text.toList.map (fun c => if c = '\\' then '/' else c) = text.toList.map id := by
    refine List.map_congr_left fun c hc => if_neg ?_
    rintro rfl
    exact h.1 hc
  rw [hmap, List.map_id, String.ofList_toList]

/-- Reading a text that starts at the root makes its letters fewer unless it is verbatim. -/
theorem verbatim_of_sublist (hroot : startsAtRoot text = true)
    (h : (text.toList.filter (· ≠ '/')).Sublist ((givenBy text).toList.filter (· ≠ '/'))) :
    Verbatim text := by
  obtain ⟨blanks, htext, hblanks, hempty⟩ := Text.exists_blanks (startsUnblank hroot)
  have hletters : blanks.filter (· ≠ '/') = blanks := by
    refine List.filter_eq_self.2 fun c hc => decide_eq_true ?_
    rintro rfl
    exact absurd (hblanks _ hc) (by decide)
  rw [filter_givenBy, htext, List.filter_append, hletters] at h
  -- the letters of the trimmed text with the blanks behind them, within what is left without
  -- backslashes
  have hlength := h.length_le
  have hfewer := List.length_filter_le (· ≠ '\\') ((Text.trim text).toList.filter (· ≠ '/'))
  rw [List.length_append] at hlength
  have hnone : blanks = [] := List.length_eq_zero_iff.1 (by omega)
  refine ⟨fun hback => ?_, hempty.1 hnone⟩
  rw [htext, hnone, List.append_nil] at hback
  have hmem := h.subset (List.mem_append_left _ (List.mem_filter.2 ⟨hback, by decide⟩))
  simp at hmem

theorem resolve_toString_iff {directory : Path} (h : directory.Plain) (process : Path)
    (base : Option Path) : resolve process base (some directory.toString) = directory ↔
      Verbatim directory.toString := by
  have hroot := startsAtRoot_toString h.absolute
  rw [resolve_of_root hroot]
  constructor
  · intro hread
    -- reading names and taking back `..` only loses letters, so all of them were still there to
    -- be read
    have hletters : (ofString (givenBy directory.toString)).lexicallyNormal.letters =
        directory.letters := by rw [hread]
    apply verbatim_of_sublist hroot
    rw [h.filter_toString, ← hletters]
    exact (letters_lexicallyNormal_sublist _).trans (letters_ofString_sublist _)
  · intro hverbatim
    rw [givenBy_of_verbatim hroot hverbatim, h.spelled.ofString_toString,
      lexicallyNormal_eq_self h.dotdot_not_mem]

theorem plain_resolve {process : Path} (hprocess : process.Plain) (base input : Option String)
    (hblank : input.all Text.isBlankText = true → ((base.map ofString).getD process).Plain) :
    (resolve process (base.map ofString) input).Plain := by
  cases input with
  | none => exact hblank rfl
  | some text =>
    cases htext : Text.isBlankText text with
    | true =>
      simp only [resolve, htext, if_true]
      exact hblank htext
    | false =>
      have hbase : ((base.map ofString).getD process).Spelled := by
        cases base with
        | none => exact hprocess.spelled
        | some b => exact ⟨b, rfl⟩
      rw [resolve_of_not_blank htext]
      refine (hprocess.spelled.join (hbase.join ⟨_, rfl⟩)).plain_lexicallyNormal ?_
      rw [isAbsolute_join, hprocess.absolute, Bool.true_or]

/-- The root for an input is absolute and holds no dots, and given as an input of its own it is the
root again exactly if its text is verbatim, wherever it is read from. The same holds of every such
path. -/
theorem resolve_stable {process : Path} (hprocess : process.Plain) (base input : Option String)
    (hblank : input.all Text.isBlankText = true → ((base.map ofString).getD process).Plain) :
    let root := resolve process (base.map ofString) input
    root.Plain ∧
      (∀ otherProcess otherBase,
        resolve otherProcess otherBase (some root.toString) = root ↔ Verbatim root.toString) ∧
      ∀ directory : Path, directory.Plain → ∀ otherProcess otherBase,
        resolve otherProcess otherBase (some directory.toString) = directory ↔
          Verbatim directory.toString := by
  intro root
  have hroot : root.Plain := plain_resolve hprocess base input hblank
  exact ⟨hroot, resolve_toString_iff hroot, fun _ => resolve_toString_iff⟩

/-- A backslash in a directory that blanks stand for, and a blank at the end of a root that comes
from the directory it was read from. -/
theorem resolve_stable_blank_directory :
    (ofString "/w").Plain ∧ Text.isBlankText "\t" = true ∧ Text.isBlankText "x\\.." = false ∧
      (∀ process base, resolve process base
        (some (resolve (ofString "/w") (some (ofString "/d\\e")) (some "\t")).toString) ≠
          ofString "/d\\e") ∧
      resolve (ofString "/w") (some (ofString "d ")) (some "x\\..") = ofString "/w/d " ∧
      (∀ process base, resolve process base (some "/w/d ") ≠ ofString "/w/d ") ∧
      ∀ process base, resolve process base (some "/w/d") = ofString "/w/d" := by
  have hprocess : (ofString "/w").Plain := ⟨by decide, by decide⟩
  have hinput : Text.isBlankText "x\\.." = false := by decide
  have hroot : resolve (ofString "/w") (some (ofString "d ")) (some "x\\..") = ofString "/w/d " := by
    decide +kernel
  obtain ⟨-, hagain, hall⟩ := resolve_stable hprocess (some "d ") (some "x\\..")
    fun hblank => absurd hblank (by simp [hinput])
  refine ⟨hprocess, by decide, hinput, fun process base hread => ?_, hroot,
    fun process base hread => ?_, fun process base => ?_⟩
  · obtain ⟨-, hblank, -⟩ := resolve_stable hprocess (some "/d\\e") (some "\t")
      fun _ => ⟨by decide, by decide⟩
    exact absurd ((hblank process base).1 hread) (by decide +kernel)
  · rw [Option.map_some, hroot] at hagain
    exact absurd ((hagain process base).1 hread) (by decide +kernel)
  · exact (hall (ofString "/w/d") ⟨by decide, by decide⟩ process base).2 (by decide +kernel)

/-- A root whose text ends in a blank is another one when it is given as an input. -/
theorem not_resolve_always_stable :
    ¬ ∀ (process : Path) (base input : Option String), process.Plain →
      (∀ text ∈ base, '\x00' ∉ text.toList) → (∀ text ∈ input, '\x00' ∉ text.toList) →
        let root := resolve process (base.map ofString) input
        root.Plain ∧ ∀ otherProcess otherBase,
          resolve otherProcess otherBase (some root.toString) = root := by
  intro h
  obtain ⟨-, hagain⟩ := h (ofString "/") (some "/d ") (some ".") ⟨by decide, by decide⟩
    (by simp) (by simp)
  exact absurd (hagain (ofString "/") none) (by decide +kernel)

end Root

end ResourceAccessors
