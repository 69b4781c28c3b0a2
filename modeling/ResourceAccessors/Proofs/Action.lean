import ResourceAccessors.Action

/-! Actions that return and actions that fail. `Returns` leaves the events of an action aside: it says
which value the action comes to and which file system it leaves, `Fails` says which fault it ends in,
and an action made of others is taken apart along them. `Same` compares two actions but for their
events, `Commutes` an action with itself behind some change of the files, and `Tells` bounds what an
action tells. -/
namespace ResourceAccessors.Action
set_option autoImplicit false

variable {α β : Type}

def Returns (x : Action α) (fs : FileSystem) (a : α) (after : FileSystem) : Prop :=
  ∃ events, x.run fs = ⟨.ok a, after, events⟩

variable {x : Action α} {f : α → Action β} {fs after : FileSystem} {a : α}

theorem returns_iff :
    x.Returns fs a after ↔ (x.run fs).result = .ok a ∧ (x.run fs).files = after := by
  constructor
  · rintro ⟨events, h⟩
    rw [h]
    exact ⟨rfl, rfl⟩
  · rintro ⟨hr, hf⟩
    exact ⟨(x.run fs).events, by rw [← hr, ← hf]⟩

theorem Returns.unique {b : α} {other : FileSystem} (h : x.Returns fs a after)
    (h' : x.Returns fs b other) : a = b ∧ after = other := by
  obtain ⟨hr, hf⟩ := returns_iff.1 h
  obtain ⟨hr', hf'⟩ := returns_iff.1 h'
  rw [hr, Except.ok.injEq] at hr'
  exact ⟨hr', hf.symm.trans hf'⟩

theorem returns_pure : (pure a : Action α).Returns fs a fs := ⟨[], rfl⟩

theorem returns_pure_iff {b : α} :
    (pure a : Action α).Returns fs b after ↔ b = a ∧ after = fs := by
  constructor
  · intro h
    exact h.unique returns_pure
  · rintro ⟨rfl, rfl⟩
    exact returns_pure

theorem returns_bind_iff {b : β} :
    (x >>= f).Returns fs b after ↔ ∃ a mid, x.Returns fs a mid ∧ (f a).Returns mid b after := by
  constructor
  · rintro ⟨events, h⟩
    cases hx : x.run fs with
    | mk result mid first =>
      cases result with
      | error fault =>
        rw [run_bind_error hx] at h
        simp at h
      | ok a =>
        rw [run_bind_ok hx, Trace.mk.injEq] at h
        exact ⟨a, mid, ⟨first, hx⟩, returns_iff.2 ⟨h.1, h.2.1⟩⟩
  · rintro ⟨a, mid, ⟨first, hx⟩, ⟨rest, hf⟩⟩
    exact ⟨first ++ rest, by rw [run_bind_ok hx, hf]⟩

/-- An action that returns one value and changes nothing is stepped over. -/
theorem returns_bind_of_returns {b : β} (hx : x.Returns fs a fs) :
    (x >>= f).Returns fs b after ↔ (f a).Returns fs b after := by
  rw [returns_bind_iff]
  constructor
  · rintro ⟨c, mid, hc, hf⟩
    obtain ⟨rfl, rfl⟩ := hc.unique hx
    exact hf
  · intro hf
    exact ⟨a, fs, hx, hf⟩

theorem not_returns_fail {fault : Fault} : ¬ (fail fault : Action α).Returns fs a after := by
  rintro ⟨events, h⟩
  simp [run, fail] at h

theorem returns_ask (question : FileSystem → α) : (ask question).Returns fs (question fs) fs :=
  ⟨[], rfl⟩

theorem returns_emit (e : Event) : (emit e).Returns fs () fs := ⟨[e], rfl⟩

theorem returns_ofExcept_iff {r : Except Fault α} :
    (ofExcept r).Returns fs a after ↔ r = .ok a ∧ after = fs := by
  constructor
  · rintro ⟨events, h⟩
    simp only [run, ofExcept, Trace.mk.injEq] at h
    exact ⟨h.1, h.2.1.symm⟩
  · rintro ⟨rfl, rfl⟩
    exact ⟨[], rfl⟩

theorem returns_ofExcept_mapError_iff {ε : Type} {r : Except ε α} {wrap : ε → Fault} :
    (ofExcept (r.mapError wrap)).Returns fs a after ↔ r = .ok a ∧ after = fs := by
  rw [returns_ofExcept_iff]
  cases r with
  | ok value =>
    change (Except.ok value = Except.ok a ∧ _) ↔ _
    simp only [Except.ok.injEq]
  | error fault =>
    change (Except.error (wrap fault) = Except.ok a ∧ _) ↔ _
    simp only [reduceCtorEq]

/-! ## Faults -/

def Fails (x : Action α) (fs : FileSystem) (fault : Fault) : Prop :=
  (x.run fs).result = .error fault

variable {fault : Fault} {mid : FileSystem}

theorem Returns.not_fails (h : x.Returns fs a after) : ¬ x.Fails fs fault := by
  intro hfails
  rw [Fails, (returns_iff.1 h).1] at hfails
  simp at hfails

/-- An action that returns is stepped over. -/
theorem fails_bind_of_returns (hx : x.Returns fs a mid) :
    (x >>= f).Fails fs fault ↔ (f a).Fails mid fault := by
  obtain ⟨events, hx⟩ := hx
  unfold Fails
  rw [run_bind_ok hx]

theorem fails_bind_iff :
    (x >>= f).Fails fs fault ↔
      x.Fails fs fault ∨ ∃ a mid, x.Returns fs a mid ∧ (f a).Fails mid fault := by
  cases hx : x.run fs with
  | mk result mid events =>
    cases result with
    | error first =>
      have hno : ∀ a mid, ¬ x.Returns fs a mid := by
        intro a mid ⟨events, h⟩
        simp [hx] at h
      unfold Fails
      rw [run_bind_error hx, hx]
      simp [hno]
    | ok a =>
      have hreturns : x.Returns fs a mid := ⟨events, hx⟩
      rw [fails_bind_of_returns hreturns]
      constructor
      · intro h
        exact .inr ⟨a, mid, hreturns, h⟩
      · rintro (h | ⟨b, other, hb, h⟩)
        · exact absurd h hreturns.not_fails
        · obtain ⟨rfl, rfl⟩ := hb.unique hreturns
          exact h

theorem fails_fail_iff {other : Fault} : (fail other : Action α).Fails fs fault ↔ fault = other := by
  unfold Fails
  exact ⟨fun h => (Except.error.inj h).symm, fun h => congrArg Except.error h.symm⟩

/-! ## Actions in a row -/

theorem bind_assoc {γ : Type} (x : Action α) (f : α → Action β) (g : β → Action γ) :
    x >>= f >>= g = x >>= fun a => f a >>= g := by
  funext fs
  change (x >>= f >>= g).run fs = (x >>= fun a => f a >>= g).run fs
  cases hx : x.run fs with
  | mk result mid events =>
    cases result with
    | error fault => rw [run_bind_error hx, run_bind_error (run_bind_error hx)]
    | ok a =>
      rw [run_bind_ok hx]
      have hxf := run_bind_ok (f := f) hx
      cases hf : (f a).run mid with
      | mk result after more =>
        rw [hf] at hxf
        cases result with
        | error fault => rw [run_bind_error hxf, run_bind_error hf]
        | ok b => rw [run_bind_ok hxf, run_bind_ok hf, List.append_assoc]

/-! ## Actions that differ in what they tell -/

/-- Two actions that come to the same and leave the same files. They may tell different things. -/
def Same (x y : Action α) : Prop :=
  ∀ fs, (x.run fs).result = (y.run fs).result ∧ (x.run fs).files = (y.run fs).files

theorem Same.refl (x : Action α) : x.Same x := fun _ => ⟨rfl, rfl⟩

theorem Same.bind {y : Action α} {g : α → Action β} (h : x.Same y)
    (hfg : ∀ a, (f a).Same (g a)) : (x >>= f).Same (y >>= g) := by
  intro fs
  obtain ⟨hresult, hfiles⟩ := h fs
  cases hx : x.run fs with
  | mk result after events =>
    cases hy : y.run fs with
    | mk result' after' events' =>
      rw [hx, hy] at hresult hfiles
      simp only at hresult hfiles
      subst hresult hfiles
      cases result with
      | error fault =>
        rw [run_bind_error hx, run_bind_error hy]
        exact ⟨rfl, rfl⟩
      | ok a =>
        rw [run_bind_ok hx, run_bind_ok hy]
        exact hfg a after

/-! ## Changes that an action leaves alone -/

/-- Behind a change an action does what it does without it, and leaves the change. -/
def Commutes (x : Action α) (g : FileSystem → FileSystem) (fs : FileSystem) : Prop :=
  x.run (g fs) = ⟨(x.run fs).result, g (x.run fs).files, (x.run fs).events⟩

variable {g : FileSystem → FileSystem}

theorem commutes_pure (a : α) : (pure a : Action α).Commutes g fs := rfl

theorem commutes_emit (e : Event) : (emit e).Commutes g fs := rfl

theorem commutes_fail (fault : Fault) : (fail fault : Action α).Commutes g fs := rfl

theorem commutes_ofExcept (r : Except Fault α) : (ofExcept r).Commutes g fs := rfl

theorem commutes_ask {question : FileSystem → α} (h : question (g fs) = question fs) :
    (ask question).Commutes g fs := by
  change (⟨.ok (question (g fs)), g fs, []⟩ : Trace α) = _
  rw [h]
  rfl

theorem commutes_change {f : FileSystem → Except Fault α × FileSystem}
    (h : f (g fs) = ((f fs).1, g (f fs).2)) : (change f).Commutes g fs := by
  change (⟨(f (g fs)).1, (f (g fs)).2, []⟩ : Trace α) = _
  rw [h]
  rfl

theorem Commutes.bind (hx : x.Commutes g fs)
    (hf : ∀ a mid, x.Returns fs a mid → (f a).Commutes g mid) : (x >>= f).Commutes g fs := by
  unfold Commutes at hx ⊢
  cases hrun : x.run fs with
  | mk result mid events =>
    rw [hrun] at hx
    cases result with
    | error fault => rw [run_bind_error hx, run_bind_error hrun]
    | ok a => rw [run_bind_ok hx, run_bind_ok hrun, hf a mid ⟨events, hrun⟩]

theorem Commutes.contain {contained : Fault → Option β} (hx : x.Commutes g fs) :
    (contain contained x).Commutes g fs := by
  unfold Commutes at hx ⊢
  cases hrun : x.run fs with
  | mk result mid events =>
    rw [hrun] at hx
    cases result with
    | error fault =>
      rw [run_contain_error contained hx, run_contain_error contained hrun]
      cases contained fault <;> rfl
    | ok a => rw [run_contain_ok contained hx, run_contain_ok contained hrun]

/-! ## What an action tells -/

/-- Whatever the files are, all that an action tells is of one kind. -/
def Tells (x : Action α) (kind : Event → Prop) : Prop :=
  ∀ fs, ∀ e ∈ (x.run fs).events, kind e

variable {kind : Event → Prop}

theorem tells_pure (a : α) : (pure a : Action α).Tells kind :=
  fun _ _ he => absurd he List.not_mem_nil

theorem tells_fail (fault : Fault) : (fail fault : Action α).Tells kind :=
  fun _ _ he => absurd he List.not_mem_nil

theorem tells_emit {e : Event} (h : kind e) : (emit e).Tells kind :=
  fun _ _ he => List.mem_singleton.1 he ▸ h

theorem Tells.bind (hx : x.Tells kind) (hf : ∀ a, (f a).Tells kind) : (x >>= f).Tells kind := by
  intro fs e he
  cases hrun : x.run fs with
  | mk result mid events =>
    have hfirst := hx fs
    rw [hrun] at hfirst
    cases result with
    | error fault =>
      rw [run_bind_error hrun] at he
      exact hfirst e he
    | ok a =>
      rw [run_bind_ok hrun] at he
      rcases List.mem_append.1 he with he | he
      · exact hfirst e he
      · exact hf a mid e he

end ResourceAccessors.Action
