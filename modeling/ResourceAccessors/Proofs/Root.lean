import ResourceAccessors.Root
import ResourceAccessors.Proofs.Path

/-! The root that is worked out for an input, as one reading from left to right. The trimming, the
separators of either kind, the joining of up to three directories and the removal of dots come to
the same as taking the components of these texts one behind the other, whatever slashes stand
between them. -/
namespace ResourceAccessors
set_option autoImplicit false

namespace Path

/-! ## Components -/

/-- Reads one component behind those that were kept. Two slashes in a row and `.` lead nowhere, and
`..` takes back the last component, where there is one. -/
def stepAlong (kept : List String) (component : String) : List String :=
  if component = "" ∨ component = "." then kept
  else if component = ".." then kept.dropLast
  else kept ++ [component]

def evaluate (components : List String) : List String :=
  components.foldl stepAlong []

variable {kept components : List String} {component name : String}

theorem lexicalNames_filter (components : List String) :
    lexicalNames (components.filter isKept) = evaluate components := by
  rw [lexicalNames, List.foldl_filter, evaluate]
  congr 1
  funext kept component
  by_cases h : component = "" ∨ component = "."
  · have hkept : isKept component = false := by
      rcases h with rfl | rfl <;> decide
    simp [stepAlong, h, hkept]
  · have hkept : isKept component = true := by
      simpa [isKept] using not_or.1 h
    simp [stepAlong, stepLexically, h, hkept]

theorem isEntryName_stepAlong (hkept : ∀ n ∈ kept, isEntryName n = true)
    (hslash : '/' ∉ component.toList) :
    ∀ n ∈ stepAlong kept component, isEntryName n = true := by
  intro n hn
  unfold stepAlong at hn
  split at hn
  · exact hkept n hn
  · next hplain =>
    split at hn
    · exact hkept n (List.dropLast_subset _ hn)
    · next hdots =>
      rcases List.mem_append.1 hn with hn | hn
      · exact hkept n hn
      · rw [List.mem_singleton.1 hn]
        simp_all [isEntryName]

theorem isEntryName_foldl_stepAlong (hkept : ∀ n ∈ kept, isEntryName n = true)
    (hslash : ∀ component ∈ components, '/' ∉ component.toList) :
    ∀ n ∈ components.foldl stepAlong kept, isEntryName n = true := by
  induction components generalizing kept with
  | nil => exact hkept
  | cons component components ih =>
    rw [List.foldl_cons]
    refine ih ?_ fun c hc => hslash c (List.mem_cons_of_mem _ hc)
    exact isEntryName_stepAlong hkept (hslash component (List.mem_cons_self ..))

theorem isEntryName_of_mem_evaluate
    (hslash : ∀ component ∈ components, '/' ∉ component.toList) (h : name ∈ evaluate components) :
    isEntryName name = true :=
  isEntryName_foldl_stepAlong (by simp) hslash name h

/-! ## Slashes in front -/

def startsAtRoot (text : String) : Bool :=
  text.toList.head? = some '/'

/-- The number of slashes a text starts with. -/
def leadingSlashes (text : String) : Nat :=
  (text.toList.takeWhile (· = '/')).length

/-- Two slashes are kept; one, and any greater number of them, is one. -/
def rootAnchor (text : String) : Anchor :=
  if leadingSlashes text = 2 then .doubleRoot else .root

theorem ofChars_eq (cs : List Char) : Anchor.ofChars cs =
    if cs.head? = some '/' then
      if (cs.takeWhile (· = '/')).length = 2 then .doubleRoot else .root
    else .relative := by
  -- Only the first three characters count.
  by_cases h1 : cs.head? = some '/'
  · obtain ⟨cs, rfl⟩ := List.head?_eq_some_iff.1 h1
    by_cases h2 : cs.head? = some '/'
    · obtain ⟨cs, rfl⟩ := List.head?_eq_some_iff.1 h2
      by_cases h3 : cs.head? = some '/'
      · obtain ⟨cs, rfl⟩ := List.head?_eq_some_iff.1 h3
        simp [Anchor.ofChars]
      · cases cs <;> simp_all [Anchor.ofChars]
    · cases cs <;> simp_all [Anchor.ofChars]
  · cases cs <;> simp_all [Anchor.ofChars]

theorem anchor_ofString (text : String) :
    (ofString text).anchor = if startsAtRoot text then rootAnchor text else .relative := by
  by_cases h : text.toList.head? = some '/'
  · have hroot : startsAtRoot text = true := decide_eq_true h
    rw [hroot]
    exact (ofChars_eq _).trans (if_pos h)
  · have hroot : startsAtRoot text = false := decide_eq_false h
    rw [hroot]
    exact (ofChars_eq _).trans (if_neg h)

theorem isAbsolute_ofString (text : String) : (ofString text).isAbsolute = startsAtRoot text := by
  simp only [isAbsolute, anchor_ofString, rootAnchor]
  cases startsAtRoot text with
  | false => rfl
  | true =>
    simp only [if_true]
    split <;> rfl

theorem toString_rootAnchor (text : String) (names : List String) :
    (Path.mk (rootAnchor text) names).toString =
      (if leadingSlashes text = 2 then "//" else "/") ++ "/".intercalate names := by
  unfold rootAnchor
  split <;> rfl

/-! ## Joined paths -/

theorem join_absolute {p q : Path} (h : q.isAbsolute = true) : p.join q = q := by
  rw [Path.join, if_pos h]

theorem join_relative {p q : Path} (h : q.isAbsolute = false) :
    p.join q = ⟨p.anchor, p.names ++ q.names⟩ := by
  rw [Path.join, h]
  rfl

theorem isAbsolute_join (p q : Path) :
    (p.join q).isAbsolute = (p.isAbsolute || q.isAbsolute) := by
  cases hq : q.isAbsolute with
  | true => rw [join_absolute hq, hq, Bool.or_true]
  | false => rw [join_relative hq, Bool.or_false, isAbsolute, isAbsolute]

end Path

namespace Root

open ResourceAccessors.Path

/-- The texts that are read one behind the other: what is given, behind the directory it is read
from unless it starts at the root, and that behind the working directory of the process unless it
starts at the root itself. -/
def textsRead (process : String) (base : Option String) (given : String) : List String :=
  if startsAtRoot given then [given]
  else
    match base with
    | none => [process, given]
    | some directory =>
      if startsAtRoot directory then [directory, given] else [process, directory, given]

def componentsOf (texts : List String) : List String :=
  texts.flatMap (Text.split '/')

theorem evaluate_componentsOf (texts : List String) :
    evaluate (componentsOf texts) = lexicalNames (texts.flatMap fun t => (ofString t).names) := by
  rw [← lexicalNames_filter, componentsOf, List.filter_flatMap]
  rfl

theorem join_ofString {process : String} (hprocess : startsAtRoot process = true)
    (base : Option String) (given : String) :
    (ofString process).join (((base.map ofString).getD (ofString process)).join (ofString given)) =
      ⟨rootAnchor ((textsRead process base given).headD ""),
        (textsRead process base given).flatMap fun t => (ofString t).names⟩ := by
  have hanchor : ∀ text, startsAtRoot text = true → (ofString text).anchor = rootAnchor text := by
    intro text htext
    rw [anchor_ofString, if_pos htext]
  have hread : ∀ text, (ofString text).isAbsolute = startsAtRoot text := isAbsolute_ofString
  unfold textsRead
  cases hgiven : startsAtRoot given with
  | true =>
    have hg := (hread given).trans hgiven
    rw [join_absolute hg, join_absolute hg, if_pos rfl]
    simp [← hanchor given hgiven]
  | false =>
    have hg := (hread given).trans hgiven
    cases base with
    | none =>
      have hbehind : ((ofString process).join (ofString given)).isAbsolute = true := by
        rw [isAbsolute_join, hread, hprocess, Bool.true_or]
      rw [Option.map_none, Option.getD_none, join_absolute hbehind, join_relative hg]
      simp [← hanchor process hprocess]
    | some directory =>
      cases hdirectory : startsAtRoot directory with
      | true =>
        have hbehind : ((ofString directory).join (ofString given)).isAbsolute = true := by
          rw [isAbsolute_join, hread, hdirectory, Bool.true_or]
        rw [Option.map_some, Option.getD_some, join_absolute hbehind, join_relative hg]
        simp [hdirectory, ← hanchor directory hdirectory]
      | false =>
        have hbehind : ((ofString directory).join (ofString given)).isAbsolute = false := by
          rw [isAbsolute_join, hread, hdirectory, hg, Bool.or_false]
        rw [Option.map_some, Option.getD_some, join_relative hbehind, join_relative hg]
        simp [hdirectory, ← hanchor process hprocess]

theorem isEntryName_of_mem_componentsOf {texts : List String} {name : String}
    (h : name ∈ evaluate (componentsOf texts)) : isEntryName name = true := by
  refine isEntryName_of_mem_evaluate ?_ h
  intro component hcomponent
  obtain ⟨text, -, hcomponent⟩ := List.mem_flatMap.1 hcomponent
  obtain ⟨cs, hcs, rfl⟩ := List.mem_map.1 hcomponent
  rw [String.toList_ofList]
  exact Text.not_mem_of_mem_segments hcs

variable {process input : String}

/-- What an input says once its blanks are gone and its separators are slashes. -/
def givenBy (input : String) : String :=
  normalizeSeparators (Text.trim input)

theorem resolve_of_not_blank (hinput : Text.isBlankText input = false) (process : Path)
    (base : Option Path) : resolve process base (some input) =
      (process.join ((base.getD process).join (ofString (givenBy input)))).lexicallyNormal := by
  simp only [resolve, hinput, Bool.false_eq_true, if_false, givenBy]

theorem resolve_of_startsAtRoot (hinput : Text.isBlankText input = false)
    (hgiven : startsAtRoot (givenBy input) = true) (process : Path) (base : Option Path) :
    resolve process base (some input) = (ofString (givenBy input)).lexicallyNormal := by
  have habsolute := (isAbsolute_ofString (givenBy input)).trans hgiven
  rw [resolve_of_not_blank hinput, join_absolute habsolute, join_absolute habsolute]

theorem resolve_ofString (hprocess : startsAtRoot process = true)
    (hinput : Text.isBlankText input = false) (base : Option String) :
    resolve (.ofString process) (base.map .ofString) (some input) =
      ⟨rootAnchor ((textsRead process base (givenBy input)).headD ""),
        evaluate (componentsOf (textsRead process base (givenBy input)))⟩ := by
  rw [resolve_of_not_blank hinput, join_ofString hprocess, evaluate_componentsOf, lexicallyNormal]

/-- The root is where the texts lead that are read. It holds no dots and no empty component, and
the directories do not matter to an input that starts at the root. -/
theorem resolve_evaluates (hprocess : startsAtRoot process = true)
    (hinput : Text.isBlankText input = false) (base : Option String) :
    let texts := textsRead process base (givenBy input)
    let root := resolve (.ofString process) (base.map .ofString) (some input)
    root.isAbsolute = true ∧ root.names = evaluate (componentsOf texts) ∧
      root.toString = (if leadingSlashes (texts.headD "") = 2 then "//" else "/") ++
        "/".intercalate (evaluate (componentsOf texts)) ∧
      (∀ name ∈ root.names, name ≠ "" ∧ name ≠ "." ∧ name ≠ ".." ∧ '/' ∉ name.toList) ∧
      (startsAtRoot (givenBy input) = true → ∀ otherProcess otherBase,
        resolve otherProcess otherBase (some input) = root) := by
  intro texts root
  have hroot : root = ⟨rootAnchor (texts.headD ""), evaluate (componentsOf texts)⟩ :=
    resolve_ofString hprocess hinput base
  have hnames : root.names = evaluate (componentsOf texts) := by rw [hroot]
  refine ⟨?_, hnames, by rw [hroot, toString_rootAnchor], ?_, ?_⟩
  · rw [hroot, isAbsolute, rootAnchor]
    split <;> rfl
  · intro name hname
    rw [hnames] at hname
    have hentry := isEntryName_of_mem_componentsOf hname
    simpa [isEntryName, and_assoc] using hentry
  · intro hgiven otherProcess otherBase
    change _ = resolve (.ofString process) (base.map .ofString) (some input)
    rw [resolve_of_startsAtRoot hinput hgiven, resolve_of_startsAtRoot hinput hgiven]

/-- Blanks, backslashes, dots and slashes at every turn. -/
theorem resolve_evaluates_upwards :
    startsAtRoot "//srv/./w" = true ∧ Text.isBlankText " ..\\..//c/./d/ " = false ∧
      (resolve (.ofString "//srv/./w") (some (.ofString "a/../b/"))
        (some " ..\\..//c/./d/ ")).toString = "//srv/c/d" ∧
      ∀ process base, (resolve process base (some "\\x/../../y\t")).toString = "/y" := by
  have hprocess : startsAtRoot "//srv/./w" = true := by decide
  have hrelative : Text.isBlankText " ..\\..//c/./d/ " = false := by decide
  have habsolute : Text.isBlankText "\\x/../../y\t" = false := by decide
  refine ⟨hprocess, hrelative, ?_, fun process base => ?_⟩
  · obtain ⟨-, -, htext, -⟩ := resolve_evaluates hprocess hrelative (some "a/../b/")
    refine htext.trans ?_
    decide +kernel
  · obtain ⟨-, -, htext, -, halone⟩ := resolve_evaluates hprocess habsolute none
    rw [halone (by decide) process base, htext]
    decide +kernel

end Root

end ResourceAccessors
