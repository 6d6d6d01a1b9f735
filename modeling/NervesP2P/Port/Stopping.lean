import NervesP2P.Port.Correlation

/-!
# Who is left waiting when the client stops

The client stops in two ways. When the daemon has exited, everybody who waits is told so first. When
the response to a `shutdown` comes in, its caller is answered and the client stops, and whoever else
waits is not told anything: the call exits with the process. That needs a second request in flight,
written before the response was handled.

As long as the client has its state, nobody is forgotten: a call is answered at once or gets an
entry, and an entry stays unless its caller is answered. So at the end those who were not answered
are those who have an entry, and the two ways to stop can be compared by the entries they leave.
-/

open Std (ExtTreeMap)

namespace NervesP2P

namespace Port

variable {J : Jason}

/-- Every call was answered or has an entry. -/
def Accounted (turns : List (Turn J)) (s : State) : Prop :=
  ∀ caller ∈ calls turns, caller ∈ answered turns ∨ ∃ id, s.Awaits caller id

section Deals

variable {s s' : State} {m : Message J} {callers : List From} {new : List ℤ} {next : Next}

theorem Deals.keeps (h : Deals s m callers new next)
    (hlt : ∀ (id : ℤ) (p : Pending), s.pending[id]? = some p → id < s.nextId)
    (hs' : next.state? = some s') {id : ℤ} {p : Pending} (hp : s.pending[id]? = some p) :
    p.caller ∈ callers ∨ s'.pending[id]? = some p := by
  cases h with
  | leaves | answers =>
    cases hs'
    exact Or.inr hp
  | accepts =>
    cases hs'
    have hid := hlt id p hp
    dsimp only
    rw [getElem?_insert_eq, if_neg (by omega)]
    exact Or.inr hp
  | raises => cases hs'
  | @settles _ id' p' hp' _ hnext =>
    obtain rfl := Option.some.inj (hnext.symm.trans hs')
    dsimp only
    rw [getElem?_erase_eq]
    by_cases heq : id' = id
    · subst heq
      obtain rfl := Option.some.inj (hp'.symm.trans hp)
      exact Or.inl (List.mem_singleton_self _)
    · rw [if_neg heq]
      exact Or.inr hp
  | drains =>
    exact Or.inl (List.mem_map.mpr
      ⟨(id, p), ExtTreeMap.mem_toList_iff_getElem?_eq_some.mpr hp, rfl⟩)

theorem Deals.takes (h : Deals s m callers new next) (hs' : next.state? = some s') {caller : From}
    (hcaller : m.caller? = some caller) : caller ∈ callers ∨ ∃ id, s'.Awaits caller id := by
  cases h with
  | answers hsome =>
    obtain rfl := Option.some.inj (hsome.symm.trans hcaller)
    exact Or.inl (List.mem_singleton_self _)
  | @accepts p hsome =>
    cases hs'
    obtain rfl := Option.some.inj (hsome.symm.trans hcaller)
    refine Or.inr ⟨s.nextId, p, ?_, rfl⟩
    dsimp only
    rw [getElem?_insert_eq, if_pos rfl]
  | raises => cases hs'
  | leaves hnone | settles hnone | drains hnone => cases hnone.symm.trans hcaller

theorem Deals.accounted {turns turns' : List (Turn J)} (h : Deals s m callers new next)
    (hcalls : calls turns' = calls turns ++ m.caller?.toList)
    (hanswered : answered turns' = answered turns ++ callers) (hnum : Numbered turns s)
    (hacc : Accounted turns s) (hs' : next.state? = some s') : Accounted turns' s' := by
  intro caller hcaller
  rw [hanswered, List.mem_append]
  rw [hcalls, List.mem_append, Option.mem_toList] at hcaller
  rcases hcaller with hold | hnew
  · rcases hacc caller hold with hdone | ⟨id, p, hp, rfl⟩
    · exact Or.inl (Or.inl hdone)
    · rcases h.keeps hnum.pending_lt hs' hp with hnow | hp'
      · exact Or.inl (Or.inr hnow)
      · exact Or.inr ⟨id, p, hp', rfl⟩
  · exact (h.takes hs' hnew).imp_left Or.inr

end Deals

/-- **Nobody is forgotten** while the client has its state. -/
theorem History.accounted {turns : List (Turn J)} {next : Next} (h : History turns next)
    {s : State} (hs : next.state? = some s) : Accounted turns s := by
  induction h generalizing s with
  | init => simp [Accounted, calls]
  | @step turns s₀ hrun m ih =>
    exact (deals_handle m s₀).accounted (calls_concat _ _ _) (answered_concat _ _ _)
      (hrun.numbered.2 s₀ rfl) (ih rfl) hs

theorem stop_cases {m : Message J} {s s' : State} {reason : Reason}
    (h : (handle m s).2 = .stop reason s') :
    (∃ status, m = .exitStatus status ∧ s'.pending = ∅)
      ∨ ∃ payload json id answer p, m = .data payload ∧ J.decode payload = some json
        ∧ response? (J := J) json = some (id, answer) ∧ s.pending[id]? = some p
        ∧ p.command = "shutdown" ∧ s'.pending = s.pending.erase id := by
  cases m with
  | request caller command attributes timeout portOpen timer =>
    rw [handle] at h
    cases hencode : J.encode (Request.new s.nextId command attributes) with
    | error error => simp [hencode] at h
    | ok payload => cases portOpen <;> cases timer <;> simp [hencode] at h
  | subscribe caller subscriber monitor =>
    rw [handle] at h
    split at h <;> cases h
  | unsubscribe caller subscriber =>
    rw [handle] at h
    split at h <;> cases h
  | data payload =>
    rw [handle] at h
    cases hdecode : J.decode payload with
    | none => simp [hdecode, handleResponse] at h
    | some json =>
      simp only [hdecode, handleResponse] at h
      split at h
      · cases h
      split at h
      · next id answer hresponse =>
        rw [reply] at h
        cases hp : s.pending[id]? with
        | none => simp [hp] at h
        | some p =>
          simp only [hp] at h
          split at h
          · next hcommand =>
            cases h
            exact Or.inr ⟨payload, json, id, answer, p, rfl, hdecode, hresponse, hp, hcommand, rfl⟩
          · cases h
      · cases h
  | requestTimeout id =>
    rw [handle] at h
    split at h <;> cases h
  | exitStatus status =>
    cases h
    exact Or.inl ⟨status, rfl, rfl⟩
  | down monitor subscriber =>
    rw [handle] at h
    split at h <;> cases h
  | other => cases h

/-- **When the client stops, everybody has been answered, unless a response stopped it while
another request was waiting.** -/
theorem stop_answers_all_iff {before : List (Turn J)} {s₀ : State}
    (h : History before (.noreply s₀)) (m : Message J) {reason : Reason} {s : State}
    (hstop : (handle m s₀).2 = .stop reason s)
    (hcalls : (calls (before ++ [(m, (handle m s₀).1)])).Nodup) :
    (∀ caller ∈ calls (before ++ [(m, (handle m s₀).1)]),
        caller ∈ answered (before ++ [(m, (handle m s₀).1)])) ↔
      ∀ payload json id answer, m = .data payload → J.decode payload = some json →
        response? (J := J) json = some (id, answer) →
          ∀ (id' : ℤ) (p : Pending), s₀.pending[id']? = some p → id' = id := by
  have hrun := h.step m
  have hs : (handle m s₀).2.state? = some s := by
    rw [hstop]
    rfl
  constructor
  · rintro hall payload json id answer rfl hdecode hresponse id' p hp
    by_contra hne
    rcases stop_cases hstop with ⟨status, hexit, -⟩ |
      ⟨payload', json', id₁, answer', p₁, hdata, hdecode', hresponse', -, -, hpending⟩
    · cases hexit
    obtain rfl := Message.data.inj hdata
    obtain rfl := Option.some.inj (hdecode.symm.trans hdecode')
    obtain ⟨rfl, -⟩ := Prod.mk.inj (Option.some.inj (hresponse.symm.trans hresponse'))
    have hstill : s.pending[id']? = some p := by
      rw [hpending, getElem?_erase_eq, if_neg (Ne.symm hne)]
      exact hp
    have hwait := (hrun.once hcalls).2 s hs
    exact hwait.unanswered id' p hstill (hall _ (hwait.called id' p hstill))
  · intro honly caller hcaller
    rcases hrun.accounted hs caller hcaller with hdone | ⟨id', p, hp, -⟩
    · exact hdone
    exfalso
    rcases stop_cases hstop with ⟨status, -, hempty⟩ |
      ⟨payload, json, id, answer, p₁, hdata, hdecode, hresponse, -, -, hpending⟩
    · rw [hempty] at hp
      exact absurd hp (getElem?_empty_ne_some _ _)
    · rw [hpending, getElem?_erase_eq] at hp
      split at hp
      · cases hp
      · next hne =>
        exact hne (honly payload json id answer hdata hdecode hresponse id' p hp).symm

/-! ### A `shutdown` and another request -/

def closing : List (Message flagJason) :=
  [.request ⟨0, 0⟩ "shutdown" [] 5000 true (some 1),
    .request ⟨1, 0⟩ "identity" [] 5000 true (some 2)]

def closingState : State where
  nextId := 3
  pending := ((∅ : ExtTreeMap ℤ Pending).insert 1 ⟨⟨0, 0⟩, 1, "shutdown"⟩).insert 2
    ⟨⟨1, 0⟩, 2, "identity"⟩
  subscribers := ∅

theorem history_closing : History (run closing .init).1 (.noreply closingState) :=
  History.init.run closing

/-- The response to the first stops the client, and the second is not answered. -/
theorem shutdown_leaves_caller :
    (∃ s, (run (closing ++ [.data [1]]) .init).2 = .stop .normal s)
      ∧ ⟨1, 0⟩ ∈ calls (run (closing ++ [.data [1]]) .init).1
      ∧ ⟨1, 0⟩ ∉ answered (run (closing ++ [.data [1]]) .init).1 :=
  ⟨⟨_, rfl⟩, by decide, by decide⟩

/-- When the daemon exits, both are told. -/
theorem exit_answers_all :
    (∃ s, (handle (J := flagJason) (.exitStatus 1) closingState).2 = .stop (.portExit 1) s)
      ∧ ∀ caller ∈ calls ((run closing .init).1
          ++ [(.exitStatus 1, (handle (.exitStatus 1) closingState).1)]),
        caller ∈ answered ((run closing .init).1
          ++ [(.exitStatus 1, (handle (.exitStatus 1) closingState).1)]) := by
  refine ⟨⟨_, rfl⟩, (stop_answers_all_iff history_closing (.exitStatus 1) rfl (by decide)).mpr ?_⟩
  intro payload json id answer hdata
  cases hdata

end Port

end NervesP2P
