import Mathlib.Tactic

/-!
# Methods that mutate and may fail

A method with a mutable receiver and a fallible result runs on a state, and either returns a value
or fails with an error; in both cases it leaves a state behind. A failure does not undo what the
method did before it failed, which is why the state is outside the `Except` and not inside.

Calls are reasoned about through two judgements. `m.Returns s a s'` says that the call returns `a`
and leaves `s'`, and `m.Fails s e s'` that it fails with `e` and leaves `s'`. Every construct has an
equivalence for each of them, so a call of a whole method is taken apart by rewriting, and exactly
one of the two judgements holds of every call.
-/

namespace NervesP2P

/-- A method on receivers of type `σ` with errors in `ε`. -/
abbrev Method (σ ε α : Type) := ExceptT ε (StateM σ) α

namespace Method

variable {σ τ ε α β : Type}
variable {s s' : σ} {e : ε} {a : α} {c : Prop}

/-- Run a method on a receiver. -/
def call (m : Method σ ε α) (s : σ) : Except ε α × σ := (m.run.run s).run

/-- The call returns `a` and leaves the receiver `s'`. -/
def Returns (m : Method σ ε α) (s : σ) (a : α) (s' : σ) : Prop := m.call s = (.ok a, s')

/-- The call fails with `e` and leaves the receiver `s'`. -/
def Fails (m : Method σ ε α) (s : σ) (e : ε) (s' : σ) : Prop := m.call s = (.error e, s')

/-- What the call leaves behind, however it ends. -/
def after (m : Method σ ε α) (s : σ) : σ := (m.call s).2

/-- Fail with `e` when the condition holds. -/
def failIf (c : Prop) [Decidable c] (e : ε) : Method σ ε Unit := if c then throw e else pure ()

/-- Run the method when the condition holds. -/
def runIf (c : Prop) [Decidable c] (m : Method σ ε Unit) : Method σ ε Unit :=
  if c then m else pure ()

/-- Run the method and return how it ended. -/
def attempt (m : Method σ ε α) : Method σ τ (Except ε α) := do
  let s ← get
  set (m.after s)
  pure (m.call s).1

/-- Call a method on a part of the receiver. -/
def zoom (part : σ → τ) (put : τ → σ → σ) (m : Method τ ε α) : Method σ ε α := do
  let s ← get
  let (result, t) := m.call (part s)
  set (put t s)
  liftM result

/-- The method with its errors renamed. -/
def mapError (f : ε → τ) (m : Method σ ε α) : Method σ τ α := do
  let s ← get
  set (m.after s)
  liftM ((m.call s).1.mapError f)

/-! ## Every call returns or fails -/

theorem returns_or_fails (m : Method σ ε α) (s : σ) :
    (∃ a, m.Returns s a (m.after s)) ∨ ∃ e, m.Fails s e (m.after s) := by
  rcases h : m.call s with ⟨a | e, s'⟩
  · exact Or.inr ⟨a, by rw [Fails, after, h]⟩
  · exact Or.inl ⟨e, by rw [Returns, after, h]⟩

theorem Returns.not_fails {m : Method σ ε α} {s₁ s₂ : σ} (h₁ : m.Returns s a s₁) :
    ¬m.Fails s e s₂ := by
  intro h₂
  rw [Returns] at h₁
  rw [Fails, h₁] at h₂
  simp at h₂

theorem Returns.after_eq {m : Method σ ε α} (h : m.Returns s a s') :
    m.after s = s' := by
  rw [after, h]

theorem Fails.after_eq {m : Method σ ε α} (h : m.Fails s e s') :
    m.after s = s' := by
  rw [after, h]

theorem returns_after {m : Method σ ε α} (h : (m.call s).1 = .ok a) :
    m.Returns s a (m.after s) := Prod.ext h rfl

theorem fails_after {m : Method σ ε α} (h : (m.call s).1 = .error e) :
    m.Fails s e (m.after s) := Prod.ext h rfl

/-! ## The rules -/

@[simp] theorem returns_pure {b : α} :
    (pure a : Method σ ε α).Returns s b s' ↔ a = b ∧ s = s' := by
  simp [Returns, call, ExceptT.run_pure]

@[simp] theorem fails_pure :
    ¬(pure a : Method σ ε α).Fails s e s' := by
  simp [Fails, call, ExceptT.run_pure]

@[simp] theorem returns_throw :
    ¬(throw e : Method σ ε α).Returns s a s' := by
  simp [Returns, call, ExceptT.run_throw]

@[simp] theorem fails_throw {e' : ε} :
    (throw e : Method σ ε α).Fails s e' s' ↔ e = e' ∧ s = s' := by
  simp [Fails, call, ExceptT.run_throw]

theorem call_bind (m : Method σ ε α) (f : α → Method σ ε β) (s : σ) :
    (m >>= f).call s = match m.call s with
      | (.ok a, t) => (f a).call t
      | (.error e, t) => (.error e, t) := by
  rcases h : m.call s with ⟨_ | _, _⟩ <;>
    simp_all [call, ExceptT.run_bind, StateT.run_bind]

@[simp] theorem returns_bind {m : Method σ ε α} {f : α → Method σ ε β} {b : β} :
    (m >>= f).Returns s b s' ↔ ∃ a t, m.Returns s a t ∧ (f a).Returns t b s' := by
  rw [Returns, call_bind]
  constructor
  · intro h
    split at h
    · next a t hm => exact ⟨a, t, hm, h⟩
    · simp at h
  · rintro ⟨a, t, hm, hf⟩
    rw [Returns] at hm
    rw [hm]
    exact hf

@[simp] theorem fails_bind {m : Method σ ε α} {f : α → Method σ ε β} :
    (m >>= f).Fails s e s' ↔
      m.Fails s e s' ∨ ∃ a t, m.Returns s a t ∧ (f a).Fails t e s' := by
  rw [Fails, call_bind]
  constructor
  · intro h
    split at h
    · next a t hm => exact Or.inr ⟨a, t, hm, h⟩
    · next hm =>
      refine Or.inl ?_
      rw [Fails, hm]
      simpa using h
  · rintro (hm | ⟨a, t, hm, hf⟩)
    · rw [Fails] at hm
      rw [hm]
    · rw [Returns] at hm
      rw [hm]
      exact hf

/-- What a sequence leaves is what its second part leaves, unless the first part fails. -/
theorem after_bind (m : Method σ ε α) (f : α → Method σ ε β) (s : σ) :
    (∃ a, m.Returns s a (m.after s) ∧ (m >>= f).after s = (f a).after (m.after s))
      ∨ (m >>= f).after s = m.after s := by
  rcases m.returns_or_fails s with ⟨a, hm⟩ | ⟨e, hm⟩
  · rw [Returns] at hm
    exact Or.inl ⟨a, hm, by rw [after, call_bind, hm]; rfl⟩
  · rw [Fails] at hm
    exact Or.inr (by rw [after, call_bind, hm])

@[simp] theorem returns_map {m : Method σ ε α} {f : α → β} {b : β} :
    (f <$> m).Returns s b s' ↔ ∃ a, m.Returns s a s' ∧ f a = b := by
  rw [← bind_pure_comp, returns_bind]
  constructor
  · rintro ⟨a, t, hm, hpure⟩
    obtain ⟨rfl, rfl⟩ := returns_pure.mp hpure
    exact ⟨a, hm, rfl⟩
  · rintro ⟨a, hm, rfl⟩
    exact ⟨a, s', hm, returns_pure.mpr ⟨rfl, rfl⟩⟩

@[simp] theorem returns_get {a : σ} :
    (get : Method σ ε σ).Returns s a s' ↔ s = a ∧ s = s' := by
  have hcall : (get : Method σ ε σ).call s = (.ok s, s) := rfl
  simp [Returns, hcall]

@[simp] theorem fails_get : ¬(get : Method σ ε σ).Fails s e s' := by
  have hcall : (get : Method σ ε σ).call s = (.ok s, s) := rfl
  simp [Fails, hcall]

@[simp] theorem returns_modify {f : σ → σ} {u : Unit} :
    (modify f : Method σ ε Unit).Returns s u s' ↔ s' = f s := by
  have hcall : (modify f : Method σ ε Unit).call s = (.ok (), f s) := rfl
  simp [Returns, hcall, eq_comm]

@[simp] theorem fails_modify {f : σ → σ} :
    ¬(modify f : Method σ ε Unit).Fails s e s' := by
  have hcall : (modify f : Method σ ε Unit).call s = (.ok (), f s) := rfl
  simp [Fails, hcall]

@[simp] theorem returns_set {t : σ} {u : PUnit} :
    (set t : Method σ ε PUnit).Returns s u s' ↔ s' = t := by
  have hcall : (set t : Method σ ε PUnit).call s = (.ok .unit, t) := rfl
  simp [Returns, hcall, eq_comm]

@[simp] theorem fails_set {t : σ} :
    ¬(set t : Method σ ε PUnit).Fails s e s' := by
  have hcall : (set t : Method σ ε PUnit).call s = (.ok .unit, t) := rfl
  simp [Fails, hcall]

@[simp] theorem returns_lift {r : Except ε α} :
    (liftM r : Method σ ε α).Returns s a s' ↔ r = .ok a ∧ s = s' := by
  have hcall : (liftM r : Method σ ε α).call s = (r, s) := rfl
  simp [Returns, hcall]

@[simp] theorem fails_lift {r : Except ε α} :
    (liftM r : Method σ ε α).Fails s e s' ↔ r = .error e ∧ s = s' := by
  have hcall : (liftM r : Method σ ε α).call s = (r, s) := rfl
  simp [Fails, hcall]

@[simp] theorem returns_failIf [Decidable c] {u : Unit} :
    (failIf c e : Method σ ε Unit).Returns s u s' ↔ ¬c ∧ s = s' := by
  by_cases h : c <;> simp [failIf, h]

@[simp] theorem fails_failIf [Decidable c] {e' : ε} :
    (failIf c e : Method σ ε Unit).Fails s e' s' ↔ c ∧ e = e' ∧ s = s' := by
  by_cases h : c <;> simp [failIf, h]

@[simp] theorem returns_runIf [Decidable c] {m : Method σ ε Unit} {u : Unit} :
    (runIf c m).Returns s u s' ↔ c ∧ m.Returns s u s' ∨ ¬c ∧ s = s' := by
  by_cases h : c <;> simp [runIf, h]

@[simp] theorem fails_runIf [Decidable c] {m : Method σ ε Unit} :
    (runIf c m).Fails s e s' ↔ c ∧ m.Fails s e s' := by
  by_cases h : c <;> simp [runIf, h]

@[simp] theorem returns_zoom {part : σ → τ} {put : τ → σ → σ} {m : Method τ ε α} :
    (zoom part put m).Returns s a s' ↔ ∃ t, m.Returns (part s) a t ∧ s' = put t s := by
  have hcall : (zoom part put m).call s = ((m.call (part s)).1, put (m.call (part s)).2 s) := rfl
  rw [Returns, hcall]
  constructor
  · intro h
    rw [Prod.mk.injEq] at h
    exact ⟨_, Prod.ext h.1 rfl, h.2.symm⟩
  · rintro ⟨t, hm, rfl⟩
    rw [Returns] at hm
    rw [hm]

@[simp] theorem fails_zoom {part : σ → τ} {put : τ → σ → σ} {m : Method τ ε α} :
    (zoom part put m).Fails s e s' ↔ ∃ t, m.Fails (part s) e t ∧ s' = put t s := by
  have hcall : (zoom part put m).call s = ((m.call (part s)).1, put (m.call (part s)).2 s) := rfl
  rw [Fails, hcall]
  constructor
  · intro h
    rw [Prod.mk.injEq] at h
    exact ⟨_, Prod.ext h.1 rfl, h.2.symm⟩
  · rintro ⟨t, hm, rfl⟩
    rw [Fails] at hm
    rw [hm]

@[simp] theorem returns_attempt {m : Method σ ε α} {r : Except ε α} :
    (attempt m : Method σ τ (Except ε α)).Returns s r s' ↔ m.call s = (r, s') := by
  have hcall : (attempt m : Method σ τ (Except ε α)).call s = (.ok (m.call s).1, (m.call s).2) :=
    rfl
  rw [Returns, hcall, Prod.mk.injEq, Except.ok.injEq, Prod.ext_iff]

@[simp] theorem fails_attempt {m : Method σ ε α} {e : τ} :
    ¬(attempt m : Method σ τ (Except ε α)).Fails s e s' := by
  have hcall : (attempt m : Method σ τ (Except ε α)).call s = (.ok (m.call s).1, (m.call s).2) :=
    rfl
  simp [Fails, hcall]

@[simp] theorem returns_mapError {f : ε → τ} {m : Method σ ε α} :
    (m.mapError f).Returns s a s' ↔ m.Returns s a s' := by
  have hcall : (m.mapError f).call s = ((m.call s).1.mapError f, (m.call s).2) := rfl
  rw [Returns, hcall, Returns]
  rcases m.call s with ⟨_ | _, _⟩ <;> simp [Except.mapError]

@[simp] theorem fails_mapError {f : ε → τ} {m : Method σ ε α} {e : τ} :
    (m.mapError f).Fails s e s' ↔ ∃ err, m.Fails s err s' ∧ f err = e := by
  have hcall : (m.mapError f).call s = ((m.call s).1.mapError f, (m.call s).2) := rfl
  simp only [Fails, hcall]
  rcases m.call s with ⟨_ | _, _⟩ <;> simp [Except.mapError, and_comm]

/-! ## What a method may change

A preorder on receivers says what may happen to one. A method stays within it if every part of it
does, however the call ends. -/

/-- Every call leaves a receiver that the relation allows. -/
def Within (R : σ → σ → Prop) (m : Method σ ε α) : Prop := ∀ s, R s (m.after s)

section Within

variable {R : σ → σ → Prop} {m : Method σ ε α}

theorem Within.of_returns (h : m.Within R) (hm : m.Returns s a s') : R s s' :=
  hm.after_eq ▸ h s

theorem Within.of_fails (h : m.Within R) (hm : m.Fails s e s') : R s s' :=
  hm.after_eq ▸ h s

theorem within_iff : m.Within R ↔
    (∀ s a s', m.Returns s a s' → R s s') ∧ ∀ s e s', m.Fails s e s' → R s s' := by
  constructor
  · intro h
    exact ⟨fun s a s' hm ↦ h.of_returns hm, fun s e s' hm ↦ h.of_fails hm⟩
  · rintro ⟨hreturns, hfails⟩ s
    rcases m.returns_or_fails s with ⟨a, hm⟩ | ⟨e, hm⟩
    · exact hreturns s a _ hm
    · exact hfails s e _ hm

variable [IsPreorder σ R]

theorem within_pure (a : α) : (pure a : Method σ ε α).Within R := fun s ↦ refl_of R s

theorem within_get : (get : Method σ ε σ).Within R := fun s ↦ refl_of R s

theorem within_throw (e : ε) : (throw e : Method σ ε α).Within R := fun s ↦ refl_of R s

theorem within_lift (r : Except ε α) : (liftM r : Method σ ε α).Within R := fun s ↦ refl_of R s

theorem within_failIf (c : Prop) [Decidable c] (e : ε) :
    (failIf c e : Method σ ε Unit).Within R := by
  rw [within_iff]
  refine ⟨fun s u s' h ↦ ?_, fun s e' s' h ↦ ?_⟩
  · rw [← (returns_failIf.mp h).2]
    exact refl_of R s
  · rw [← (fails_failIf.mp h).2.2]
    exact refl_of R s

theorem Within.bind {f : α → Method σ ε β} (h : m.Within R) (hf : ∀ a, (f a).Within R) :
    (m >>= f).Within R := by
  rw [within_iff]
  refine ⟨fun s b s' hm ↦ ?_, fun s e s' hm ↦ ?_⟩
  · obtain ⟨a, t, hm, hrest⟩ := returns_bind.mp hm
    exact trans_of R (h.of_returns hm) ((hf a).of_returns hrest)
  · rcases fails_bind.mp hm with hm | ⟨a, t, hm, hrest⟩
    · exact h.of_fails hm
    · exact trans_of R (h.of_returns hm) ((hf a).of_fails hrest)

end Within

theorem within_modify {R : σ → σ → Prop} {f : σ → σ} (h : ∀ s, R s (f s)) :
    (modify f : Method σ ε Unit).Within R := h

theorem Within.mapError {R : σ → σ → Prop} {m : Method σ ε α} (h : m.Within R) (f : ε → τ) :
    (m.mapError f).Within R := h

theorem Within.zoom {Q : τ → τ → Prop} {R : σ → σ → Prop} {part : σ → τ} {put : τ → σ → σ}
    {m : Method τ ε α} (h : m.Within Q) (hput : ∀ s t, Q (part s) t → R s (put t s)) :
    (zoom part put m).Within R := fun s ↦ hput s _ (h (part s))

/-! ## Two calls side by side

Two receivers may differ in a part that a method does not depend on. Two methods agree on receivers
in a relation if they end the same way and leave receivers in the relation. -/

/-- On related receivers the two methods end the same way and leave related receivers. -/
def Agrees (R : σ → τ → Prop) (m : Method σ ε α) (m' : Method τ ε α) : Prop :=
  ∀ s t, R s t → (m.call s).1 = (m'.call t).1 ∧ R (m.after s) (m'.after t)

section Agrees

variable {R : σ → τ → Prop}

theorem agrees_pure (a : α) : (pure a : Method σ ε α).Agrees R (pure a : Method τ ε α) :=
  fun _ _ h ↦ ⟨rfl, h⟩

theorem agrees_throw (e : ε) : (throw e : Method σ ε α).Agrees R (throw e : Method τ ε α) :=
  fun _ _ h ↦ ⟨rfl, h⟩

theorem agrees_lift (r : Except ε α) :
    (liftM r : Method σ ε α).Agrees R (liftM r : Method τ ε α) :=
  fun _ _ h ↦ ⟨rfl, h⟩

theorem agrees_failIf (c : Prop) [Decidable c] (e : ε) :
    (failIf c e : Method σ ε Unit).Agrees R (failIf c e : Method τ ε Unit) := by
  unfold failIf
  split
  · exact agrees_throw e
  · exact agrees_pure ()

theorem Agrees.runIf {m : Method σ ε Unit} {m' : Method τ ε Unit} (h : m.Agrees R m') (c : Prop)
    [Decidable c] : (runIf c m).Agrees R (runIf c m') := by
  unfold Method.runIf
  split
  · exact h
  · exact agrees_pure ()

theorem agrees_modify {f : σ → σ} {g : τ → τ} (h : ∀ s t, R s t → R (f s) (g t)) :
    (modify f : Method σ ε Unit).Agrees R (modify g : Method τ ε Unit) :=
  fun s t hst ↦ ⟨rfl, h s t hst⟩

theorem Agrees.bind {m : Method σ ε α} {m' : Method τ ε α} {f : α → Method σ ε β}
    {g : α → Method τ ε β} (h : m.Agrees R m') (hf : ∀ a, (f a).Agrees R (g a)) :
    (m >>= f).Agrees R (m' >>= g) := by
  intro s t hst
  obtain ⟨hresult, hafter⟩ := h s t hst
  rw [after, after] at hafter
  rw [after, after, call_bind, call_bind]
  rcases hm : m.call s with ⟨result, s'⟩
  rcases hm' : m'.call t with ⟨result', t'⟩
  rw [hm, hm'] at hresult hafter
  obtain rfl : result = result' := hresult
  cases result with
  | ok a => exact hf a s' t' hafter
  | error e => exact ⟨rfl, hafter⟩

/-- Reading the receiver gives different values, which the rest may still treat alike. -/
theorem agrees_get_bind {f : σ → Method σ ε β} {g : τ → Method τ ε β}
    (h : ∀ s t, R s t → (f s).Agrees R (g t)) : (get >>= f).Agrees R (get >>= g) := by
  intro s t hst
  exact h s t hst s t hst

theorem agrees_zoom {υ : Type} {part : σ → υ} {part' : τ → υ} {put : υ → σ → σ} {put' : υ → τ → τ}
    (m : Method υ ε α) (hpart : ∀ s t, R s t → part s = part' t)
    (hput : ∀ u s t, R s t → R (put u s) (put' u t)) :
    (zoom part put m).Agrees R (zoom part' put' m) := by
  intro s t hst
  have hcall : ((zoom part put m).call s).1 = (m.call (part s)).1 := rfl
  have hcall' : ((zoom part' put' m).call t).1 = (m.call (part' t)).1 := rfl
  have hafter : (zoom part put m).after s = put (m.after (part s)) s := rfl
  have hafter' : (zoom part' put' m).after t = put' (m.after (part' t)) t := rfl
  rw [hcall, hcall', hafter, hafter', hpart s t hst]
  exact ⟨rfl, hput _ s t hst⟩

end Agrees

end Method

end NervesP2P
