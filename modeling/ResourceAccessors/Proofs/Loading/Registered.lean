import ResourceAccessors.Proofs.Loading.Faults
import ResourceAccessors.Proofs.Scan.Ordered
import ResourceAccessors.Proofs.Text.Blank

/-! Registered converters by their names. The names are listed in the order of their code points, and
a listed name selects what was first registered under it, unless it holds a colon or has a blank at
an end: these are read as the specification of something else. -/
namespace ResourceAccessors
set_option autoImplicit false

theorem Text.codePoints_of_le {s t : String} (h : s ≤ t) :
    s = t ∨ codePoints s < codePoints t := by
  by_cases hlt : s < t
  · exact .inr (codePoints_lt hlt)
  · have hle : t ≤ s := hlt
    exact .inl (String.le_antisymm h hle)

namespace Loading

variable {κ : Type} {host : Host κ} {fs : FileSystem} {imports : Imports κ} {name : String}
  {r : Registration κ}

/-! ## The listing -/

theorem available_perm (host : Host κ) :
    (available host).Perm (host.registrations.map Registration.name) :=
  List.mergeSort_perm _ _

theorem available_ordered (host : Host κ) :
    (available host).Pairwise fun x y => x = y ∨ Text.codePoints x < Text.codePoints y := by
  have hordered : (available host).Pairwise fun x y => decide (x ≤ y) = true := by
    apply List.pairwise_mergeSort
    · intro x y z hxy hyz
      exact decide_eq_true (String.le_trans (of_decide_eq_true hxy) (of_decide_eq_true hyz))
    · intro x y
      simpa using String.le_total x y
  exact hordered.imp fun h => Text.codePoints_of_le (of_decide_eq_true h)

theorem mem_available : name ∈ available host ↔ ∃ r ∈ host.registrations, r.name = name := by
  rw [(available_perm host).mem_iff, List.mem_map]

/-! ## The lookup -/

/-- A name that a specification can be: not empty, without a colon, and with no blank at an end. -/
structure Selectable (name : String) : Prop where
  nonempty : name ≠ ""
  colon : ':' ∉ name.toList
  starts : Text.StartsUnblank name
  ends : Text.EndsUnblank name

theorem splitSpecification_eq_none (h : ':' ∉ name.toList) : splitSpecification name = none := by
  have hsplit : Text.split ':' name = [name] := by
    rw [Text.split, Text.segments_of_not_mem h, List.map_singleton, String.ofList_toList]
  rw [splitSpecification, hsplit]
  rfl

/-- A selectable name is looked up among the registered converters, and nowhere else. -/
theorem load_of_selectable (h : Selectable name) :
    load host fs imports (some name) = ((registered host name).bind (make name), imports) := by
  have htrim : Text.trim name = name := Text.trim_eq_self h.starts h.ends
  -- neither the files nor the modules imported before are looked at on this way
  have hfind : find host fs imports name = (registered host name, imports) := by
    rw [find, if_neg h.nonempty, splitSpecification_eq_none h.colon]
  rw [load, Option.getD_some, htrim, hfind]
  cases registered host name <;> rfl

/-- The first of the registrations under a name. -/
structure First (host : Host κ) (name : String) (r : Registration κ) : Prop where
  named : r.name = name
  first : ∃ before after, host.registrations = before ++ r :: after ∧
    ∀ other ∈ before, other.name ≠ name

theorem first_iff : First host name r ↔
    host.registrations.find? (fun other => other.name = name) = some r := by
  rw [List.find?_eq_some_iff_append]
  simp only [decide_eq_true_eq, Bool.not_eq_true', decide_eq_false_iff_not]
  exact ⟨fun ⟨hname, hfirst⟩ => ⟨hname, hfirst⟩, fun ⟨hname, hfirst⟩ => ⟨hname, hfirst⟩⟩

theorem exists_first (h : name ∈ available host) : ∃ r, First host name r := by
  obtain ⟨r, hr, hname⟩ := mem_available.1 h
  have hfound : (host.registrations.find? fun other => other.name = name).isSome = true :=
    List.find?_isSome.2 ⟨r, hr, decide_eq_true hname⟩
  obtain ⟨first, hfirst⟩ := Option.isSome_iff_exists.1 hfound
  exact ⟨first, first_iff.2 hfirst⟩

/-! ## What is selected -/

/-- The loader's own faults about a registration. -/
inductive Refused (r : Registration κ) : LoadFault → Prop
  | failed {raised : Raised} : r.load = .error raised → ¬ (Fault.raised raised).Interrupts →
      Refused r (.registrationFailed r.name raised.text)
  | notInstantiable {raised : Raised} : r.load = .ok (.factory (.error raised)) →
      raised.family = .typing → Refused r (.notInstantiable r.name raised.text)
  | notCallable : r.load = .ok .value → Refused r (.notCallable r.name)
  | madeNotCallable : r.load = .ok (.factory (.ok none)) → Refused r (.notCallable r.name)

/-- What the load of a registration comes to: what is registered or what it makes, a load fault about
it, or an interruption or load fault that its own code raises. -/
inductive Chosen (r : Registration κ) : Except Fault κ → Prop
  | callable {converter : κ} : r.load = .ok (.callable converter) → Chosen r (.ok converter)
  | made {converter : κ} : r.load = .ok (.factory (.ok (some converter))) →
      Chosen r (.ok converter)
  | refused {fault : LoadFault} : Refused r fault → Chosen r (.error (.load fault))
  | interrupted {raised : Raised} : r.load = .error raised → (Fault.raised raised).Interrupts →
      Chosen r (.error (.raised raised))
  | raised {raised : Raised} : r.load = .ok (.factory (.error raised)) →
      ¬ (Fault.raised raised).Strays → Chosen r (.error (.raised raised))

theorem Chosen.of_callable {converter : κ} {result : Except Fault κ} (h : Chosen r result)
    (hload : r.load = .ok (.callable converter)) : result = .ok converter := by
  cases h with
  | refused hrefused => cases hrefused <;> simp_all
  | _ => simp_all

/-- A class that raises what is neither a load fault nor an interruption, nor taken for a fault of
its arguments. -/
def MakingStrays (r : Registration κ) : Prop :=
  ∃ raised, r.load = .ok (.factory (.error raised)) ∧ (Fault.raised raised).Strays ∧
    raised.family ≠ .typing

theorem chosen_of_make {found : Member κ} (hload : r.load = .ok found) (h : ¬ MakingStrays r) :
    Chosen r (make r.name found) := by
  cases found with
  | callable converter => exact .callable hload
  | value => exact .refused (.notCallable hload)
  | factory made =>
    cases made with
    | ok converter? =>
      cases converter? with
      | none => exact .refused (.madeNotCallable hload)
      | some converter => exact .made hload
    | error raised =>
      by_cases htyping : raised.family = .typing
      · rw [make, if_pos htyping]
        exact .refused (.notInstantiable hload htyping)
      · rw [make, if_neg htyping]
        exact .raised hload fun hstrays => h ⟨raised, hload, hstrays, htyping⟩

theorem chosen_of_first (hfirst : First host name r) (h : ¬ MakingStrays r) :
    Chosen r ((registered host name).bind (make name)) := by
  unfold registered
  simp only [first_iff.1 hfirst]
  rw [← hfirst.named]
  cases hload : r.load with
  | ok found => exact chosen_of_make hload h
  | error raised =>
    by_cases hinterrupts : raised.family.interrupts = true
    · simp only [if_pos hinterrupts]
      exact .interrupted hload hinterrupts
    · simp only [if_neg hinterrupts]
      exact .refused (.failed hload hinterrupts)

/-- The names of the registered converters are listed in order, each as often as it is registered. A
listed name that a specification can be selects what is first registered under it, whatever the
files, the modules imported before and the sources to execute are. -/
theorem load_listed (host : Host κ) :
    (available host).Perm (host.registrations.map Registration.name) ∧
      ((available host).Pairwise fun x y => x = y ∨ Text.codePoints x < Text.codePoints y) ∧
      ∀ name ∈ available host, Selectable name → ∃ r, First host name r ∧
        ∃ result, (∀ execute fs imports,
          load ⟨execute, host.registrations⟩ fs imports (some name) = (result, imports)) ∧
            (¬ MakingStrays r → Chosen r result) := by
  refine ⟨available_perm host, available_ordered host, fun name hname hselectable => ?_⟩
  obtain ⟨r, hfirst⟩ := exists_first hname
  refine ⟨r, hfirst, (registered host name).bind (make name), fun execute fs imports => ?_,
    chosen_of_first hfirst⟩
  exact load_of_selectable hselectable

/-- Names with a blank and a colon in them, and one that is registered twice. -/
def shelf : Host Unit where
  execute := fun _ => .ok []
  registrations := [⟨"x y", .ok (.callable ())⟩, ⟨"a:b", .ok (.callable ())⟩, ⟨"x y", .ok .value⟩]

theorem load_listed_shelf :
    Selectable "x y" ∧ available shelf = ["a:b", "x y", "x y"] ∧
      ∀ execute fs imports,
        load ⟨execute, shelf.registrations⟩ fs imports (some "x y") = (.ok (), imports) := by
  have hselectable : Selectable "x y" := ⟨by decide, by decide, by decide, by decide⟩
  have hlisted : available shelf = ["a:b", "x y", "x y"] := by
    simp [available, shelf, List.mergeSort]
  refine ⟨hselectable, hlisted, fun execute fs imports => ?_⟩
  obtain ⟨-, -, hload⟩ := load_listed shelf
  obtain ⟨r, ⟨hnamed, before, after, hregistered, hbefore⟩, result, hresult, hchosen⟩ :=
    hload "x y" (by simp [hlisted]) hselectable
  have hr : r = ⟨"x y", .ok (.callable ())⟩ := by
    cases before with
    | nil => exact (List.cons.inj hregistered).1.symm
    | cons other before =>
      have hother := (List.cons.inj hregistered).1
      exact absurd (congrArg Registration.name hother).symm (hbefore other (List.mem_cons_self ..))
  subst hr
  rw [hresult]
  rw [(hchosen (by simp [MakingStrays])).of_callable rfl]

/-- What is registered under a name with a colon cannot be selected by it. -/
theorem not_listed_always_selects :
    ¬ ∀ (host : Host Unit) (fs : FileSystem) (imports : Imports Unit) (name : String),
      (∀ r ∈ host.registrations, r.name ≠ "") → name ∈ available host →
        ∃ r, First host name r ∧ Chosen r (load host fs imports (some name)).1 := by
  intro h
  have hload : (load shelf (.empty .usual) [] (some "a:b")).1 =
      .error (.load (.importFailed "a" "No module named 'a'")) := by
    rfl
  obtain ⟨r, -, hchosen⟩ := h shelf (.empty .usual) [] "a:b" (by simp [shelf])
    (mem_available.2 ⟨_, List.mem_cons_of_mem _ (List.mem_cons_self ..), rfl⟩)
  rw [hload] at hchosen
  cases hchosen with
  | refused hrefused => cases hrefused

end Loading

end ResourceAccessors
