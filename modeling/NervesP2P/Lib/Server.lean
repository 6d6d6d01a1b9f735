import Mathlib.Tactic

/-!
# Servers

A server handles one message after the other: a handler takes a message and the state, and returns
what is done outside, in order, and the next state. It may also raise, and then the server is gone.
What the runtime decides (the time, a reference it makes, the answer of another component) is part
of the message, so that a handler is a function.

A `History` is what a server can have done since its start, turn by turn. The environment may be
restricted: a message is `allowed` depending on everything that was done before it. Properties of
whole histories go by induction on them; a property of one turn in the middle is a property of the
state that the turns before it led to, which is `History.split`.

Many histories use names or references once. What is read off the turns then never repeats, and what
is read off at two places is read off at one: the lemmas on lists without repetition are about this.
-/

namespace NervesP2P

/-- A state and a handler. -/
structure Server (σ μ ω : Type) where
  init : σ
  /-- What is done on a message, and the next state; `none` when the handler raises. -/
  handle : μ → σ → Option (List ω × σ)

namespace Server

variable {σ μ ω : Type} {S : Server σ μ ω} {allowed : List (μ × List ω) → σ → μ → Prop}

/-- A message with what was done on it. -/
abbrev Turn (μ ω : Type) := μ × List ω

/-- What a server can have done since its start, and the state after that. -/
inductive History (S : Server σ μ ω) (allowed : List (Turn μ ω) → σ → μ → Prop) :
    List (Turn μ ω) → σ → Prop
  | init : History S allowed [] S.init
  | step {turns : List (Turn μ ω)} {s s' : σ} {m : μ} {effects : List ω}
      (h : History S allowed turns s) (hallowed : allowed turns s m)
      (hhandle : S.handle m s = some (effects, s')) :
      History S allowed (turns ++ [(m, effects)]) s'

/-- Everything that was done, in order. -/
def effects (turns : List (Turn μ ω)) : List ω := turns.flatMap Prod.snd

@[simp] theorem effects_nil : effects ([] : List (Turn μ ω)) = [] := rfl

@[simp] theorem effects_append (turns turns' : List (Turn μ ω)) :
    effects (turns ++ turns') = effects turns ++ effects turns' := List.flatMap_append

@[simp] theorem effects_cons (turn : Turn μ ω) (turns : List (Turn μ ω)) :
    effects (turn :: turns) = turn.2 ++ effects turns := List.flatMap_cons

/-- The messages that were handled, in order. -/
def messages (turns : List (Turn μ ω)) : List μ := turns.map Prod.fst

@[simp] theorem messages_nil : messages ([] : List (Turn μ ω)) = [] := rfl

@[simp] theorem messages_append (turns turns' : List (Turn μ ω)) :
    messages (turns ++ turns') = messages turns ++ messages turns' := List.map_append

@[simp] theorem messages_cons (turn : Turn μ ω) (turns : List (Turn μ ω)) :
    messages (turn :: turns) = turn.1 :: messages turns := List.map_cons

/-- If what is read off the effects never repeats, it is read off one effect only. -/
theorem eq_of_nodup_filterMap {α β : Type} {f : α → Option β} {l : List α}
    (h : (l.filterMap f).Nodup) {a b : α} {x : β} (ha : a ∈ l) (hb : b ∈ l) (hfa : f a = some x)
    (hfb : f b = some x) : a = b := by
  induction l with
  | nil => cases ha
  | cons c l ih =>
    have hlater : ∀ d, d ∈ l → f d = some x → f c ≠ some x := by
      intro d hd hfd hfc
      rw [List.filterMap_cons_some hfc, List.nodup_cons] at h
      exact h.1 (List.mem_filterMap.mpr ⟨d, hd, hfd⟩)
    have htail : (l.filterMap f).Nodup :=
      h.sublist ((List.sublist_cons_self c l).filterMap f)
    rcases List.mem_cons.mp ha with rfl | hal
    · rcases List.mem_cons.mp hb with rfl | hbl
      · rfl
      · exact absurd hfa (hlater b hbl hfb)
    · rcases List.mem_cons.mp hb with rfl | hbl
      · exact absurd hfb (hlater a hal hfa)
      · exact ih htail hal hbl

theorem index_of_nodup_filterMap {α β : Type} {f : α → Option β} {l : List α}
    (h : (l.filterMap f).Nodup) {i j : ℕ} {a b : α} {x : β} (hi : l[i]? = some a)
    (hj : l[j]? = some b) (ha : f a = some x) (hb : f b = some x) : i = j := by
  induction l generalizing i j with
  | nil => simp at hi
  | cons c l ih =>
    have hlater : ∀ {m : ℕ} {d : α}, l[m]? = some d → f d = some x → f c ≠ some x := by
      intro m d hd hfd hfc
      rw [List.filterMap_cons_some hfc, List.nodup_cons] at h
      exact h.1 (List.mem_filterMap.mpr ⟨d, List.mem_of_getElem? hd, hfd⟩)
    have htail : (l.filterMap f).Nodup := h.sublist ((List.sublist_cons_self c l).filterMap f)
    cases i with
    | zero =>
      obtain rfl := Option.some.inj hi
      cases j with
      | zero => rfl
      | succ j => exact absurd ha (hlater hj hb)
    | succ i =>
      cases j with
      | zero =>
        obtain rfl := Option.some.inj hj
        exact absurd hb (hlater hi ha)
      | succ j => exact congrArg (· + 1) (ih htail hi hj)

theorem nodup_filterMap_concat {α β : Type} {f : α → Option β} {l : List α} {a : α}
    (h : (l.filterMap f).Nodup) (hnew : ∀ x, f a = some x → x ∉ l.filterMap f) :
    ((l ++ [a]).filterMap f).Nodup := by
  rw [List.filterMap_append]
  cases hfa : f a with
  | none => simpa [hfa] using h
  | some x =>
    have hx : [a].filterMap f = [x] := by simp [hfa]
    rw [hx, ← List.concat_eq_append]
    exact h.concat (hnew x hfa)

namespace History

theorem of_snoc {turns : List (Turn μ ω)} {m : μ} {done : List ω} {s' : σ}
    (h : History S allowed (turns ++ [(m, done)]) s') :
    ∃ s, History S allowed turns s ∧ allowed turns s m ∧ S.handle m s = some (done, s') := by
  generalize hturns : turns ++ [(m, done)] = whole at h
  cases h with
  | init => simp at hturns
  | step h hallowed hhandle =>
    obtain ⟨rfl, hturn⟩ := List.append_inj' hturns rfl
    cases hturn
    exact ⟨_, h, hallowed, hhandle⟩

theorem of_append {before after : List (Turn μ ω)} {s : σ}
    (h : History S allowed (before ++ after) s) : ∃ s₁, History S allowed before s₁ := by
  induction after using List.reverseRecOn generalizing s with
  | nil => exact ⟨s, by rwa [List.append_nil] at h⟩
  | append_singleton after turn ih =>
    rw [← List.append_assoc] at h
    obtain ⟨s₁, h, -, -⟩ := h.of_snoc
    exact ih h

/-- A turn is what the handler does on its message, in the state that the turns before it led to. -/
theorem split {before after : List (Turn μ ω)} {m : μ} {done : List ω} {s : σ}
    (h : History S allowed (before ++ (m, done) :: after) s) :
    ∃ s₁ s₂, History S allowed before s₁ ∧ allowed before s₁ m
      ∧ S.handle m s₁ = some (done, s₂)
      ∧ History S allowed (before ++ [(m, done)]) s₂ := by
  have hfirst : before ++ (m, done) :: after = (before ++ [(m, done)]) ++ after := by simp
  rw [hfirst] at h
  obtain ⟨s₂, h⟩ := h.of_append
  obtain ⟨s₁, hbefore, hallowed, hhandle⟩ := h.of_snoc
  exact ⟨s₁, s₂, hbefore, hallowed, hhandle, h⟩

/-- The turns determine the state. -/
theorem unique {turns : List (Turn μ ω)} {s s' : σ} (h : History S allowed turns s)
    (h' : History S allowed turns s') : s = s' := by
  induction h generalizing s' with
  | init =>
    generalize hturns : ([] : List (Turn μ ω)) = turns at h'
    cases h' with
    | init => rfl
    | step => simp at hturns
  | step h hallowed hhandle ih =>
    obtain ⟨s₁, h₁, -, hhandle₁⟩ := h'.of_snoc
    obtain rfl := ih h₁
    rw [hhandle] at hhandle₁
    cases hhandle₁
    rfl

/-- **From one point of a history to a later one**: what every turn in between preserves, is
preserved. -/
theorem preserved {J : σ → Prop} {before middle : List (Turn μ ω)} {s₁ s₂ : σ}
    (h₁ : History S allowed before s₁) (h₂ : History S allowed (before ++ middle) s₂) (hJ : J s₁)
    (hstep : ∀ first m done last s s', middle = first ++ (m, done) :: last →
      History S allowed (before ++ first) s → S.handle m s = some (done, s') → J s → J s') :
    J s₂ := by
  induction middle using List.reverseRecOn generalizing s₂ with
  | nil =>
    rw [List.append_nil] at h₂
    rwa [← h₁.unique h₂]
  | append_singleton middle turn ih =>
    rw [← List.append_assoc] at h₂
    obtain ⟨s, h, -, hhandle⟩ := h₂.of_snoc
    have hJs : J s := ih h fun first m done last s s' hmiddle ↦
      hstep first m done (last ++ [turn]) s s' (by rw [hmiddle]; simp)
    exact hstep middle turn.1 turn.2 [] s s₂ rfl h hhandle hJs

end History

/-! ## Running a server -/

/-- The turns on a list of messages; `none` when a handler raises. -/
def runFrom (S : Server σ μ ω) : List μ → σ → Option (List (Turn μ ω) × σ)
  | [], s => some ([], s)
  | m :: ms, s => (S.handle m s).bind fun turn ↦
    (S.runFrom ms turn.2).map fun later ↦ ((m, turn.1) :: later.1, later.2)

/-- The turns of a server from its start. -/
def run (S : Server σ μ ω) (ms : List μ) : Option (List (Turn μ ω) × σ) := S.runFrom ms S.init

theorem History.runFrom {turns later : List (Turn μ ω)} {s s' : σ} {ms : List μ}
    (h : History S (fun _ _ _ ↦ True) turns s) (hrun : S.runFrom ms s = some (later, s')) :
    History S (fun _ _ _ ↦ True) (turns ++ later) s' := by
  induction ms generalizing turns later s with
  | nil =>
    cases hrun
    rwa [List.append_nil]
  | cons m ms ih =>
    obtain ⟨⟨done, s₁⟩, hhandle, hmap⟩ := Option.bind_eq_some_iff.mp hrun
    obtain ⟨⟨later, s₂⟩, hlater, heq⟩ := Option.map_eq_some_iff.mp hmap
    cases heq
    have hall := ih (h.step trivial hhandle) hlater
    rwa [List.append_assoc] at hall

/-- Running a server makes a history. -/
theorem history_run {turns : List (Turn μ ω)} {s : σ} {ms : List μ}
    (h : S.run ms = some (turns, s)) : History S (fun _ _ _ ↦ True) turns s :=
  History.init.runFrom h

end Server

end NervesP2P
