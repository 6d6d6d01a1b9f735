import NervesP2P.Port.Basic

/-!
# Every caller gets the answer to its own request

Responses, timers and the exit of the daemon race for the entries of `pending`. Whoever comes first
takes the entry away, and what comes later finds nothing and is dropped. `Deals` says once what a
message can do to the entries; from it come the invariant of the entries (`Waiting`) and of the
numbers (`Numbered`), along every history.

An answer that is neither a timeout nor the exit of the daemon is what a response said under the
number of the caller's request, with one exception: a request that the JSON library cannot encode is
answered at once, with the error of the library, and no number is used up.
-/

open Std (ExtTreeMap)

namespace NervesP2P

namespace Port

variable {J : Jason}
variable {s s' : State} {next : Next} {turns : List (Turn J)} {m : Message J} {caller : From}
  {id : ℤ} {answer : Answer J}

/-- The state in which a message leaves the process, unless its handler raised. -/
def Next.state? : Next → Option State
  | .noreply state => some state
  | .stop _ state => some state
  | .raised => none

/-! ## One message

There are many messages and few things that they can do to the entries: nothing, one entry more, one
entry less, or all of them gone at once. Each comes with the calls that are answered and the numbers
that are used. -/

/-- What a message does to the requests: the calls it answers, the numbers it gives away, and the
state it leaves. -/
inductive Deals (s : State) (message : Message J) : List From → List ℤ → Next → Prop
  /-- No call, and no request is concerned. -/
  | leaves (hcaller : message.caller? = none) (subscribers : ExtTreeMap Pid Ref) :
      Deals s message [] [] (.noreply { s with subscribers })
  /-- A call that is answered at once. -/
  | answers {caller : From} (hcaller : message.caller? = some caller)
      (subscribers : ExtTreeMap Pid Ref) :
      Deals s message [caller] [] (.noreply { s with subscribers })
  | accepts {p : Pending} (hcaller : message.caller? = some p.caller) :
      Deals s message [] [s.nextId]
        (.noreply { s with nextId := s.nextId + 1, pending := s.pending.insert s.nextId p })
  | raises {caller : From} (hcaller : message.caller? = some caller) {ids : List ℤ}
      (hids : ids = [] ∨ ids = [s.nextId]) : Deals s message [] ids .raised
  /-- A response or a timeout for a request that waits. -/
  | settles (hcaller : message.caller? = none) {id : ℤ} {p : Pending}
      (hp : s.pending[id]? = some p) {next : Next}
      (hnext : next.state? = some { s with pending := s.pending.erase id }) :
      Deals s message [p.caller] [] next
  | drains (hcaller : message.caller? = none) (reason : Reason) :
      Deals s message (s.pending.toList.map fun entry ↦ entry.2.caller) []
        (.stop reason { s with pending := ∅ })

theorem deals_reply {message : Message J} (hcaller : message.caller? = none) (id : ℤ)
    (answer : Answer J) (s : State) :
    Deals s message ((reply id answer s).1.filterMap Effect.answered?)
      ((reply id answer s).1.filterMap Effect.id?) (reply id answer s).2 := by
  rw [reply]
  cases hp : s.pending[id]? with
  | none => exact .leaves hcaller s.subscribers
  | some p =>
    refine .settles hcaller hp ?_
    dsimp only
    split <;> rfl

theorem deals_handleResponse {message : Message J} (hcaller : message.caller? = none)
    (decoded : Option Json) (s : State) :
    Deals s message ((handleResponse (J := J) decoded s).1.filterMap Effect.answered?)
      ((handleResponse (J := J) decoded s).1.filterMap Effect.id?)
      (handleResponse (J := J) decoded s).2 := by
  cases decoded with
  | none => exact .leaves hcaller s.subscribers
  | some json =>
    simp only [handleResponse]
    split
    · rw [List.filterMap_eq_nil_iff.mpr (by simp [Effect.answered?]),
        List.filterMap_eq_nil_iff.mpr (by simp [Effect.id?])]
      exact .leaves hcaller s.subscribers
    · split
      · exact deals_reply hcaller _ _ s
      · exact .leaves hcaller s.subscribers

section Drain

variable (entries : List (ℤ × Pending)) (answer)

theorem answered?_drain :
    (entries.flatMap fun entry ↦
        [.cancelTimer entry.2.timer, .reply entry.2.caller answer]).filterMap Effect.answered?
      = entries.map fun entry ↦ entry.2.caller := by
  induction entries with
  | nil => rfl
  | cons entry entries ih =>
    rw [List.flatMap_cons, List.filterMap_append, ih]
    rfl

theorem filterMap_drain {β : Type} {f : Effect J → Option β}
    (hcancel : ∀ timer, f (.cancelTimer timer) = none)
    (hreply : ∀ caller, f (.reply caller answer) = none) :
    (entries.flatMap fun entry ↦
        [.cancelTimer entry.2.timer, .reply entry.2.caller answer]).filterMap f = [] := by
  induction entries with
  | nil => rfl
  | cons entry entries ih =>
    rw [List.flatMap_cons, List.filterMap_append, ih]
    simp [hcancel, hreply]

end Drain

/-- **Every message is dealt with in one of these ways.** -/
theorem deals_handle (message : Message J) (s : State) :
    Deals s message ((handle message s).1.filterMap Effect.answered?)
      ((handle message s).1.filterMap Effect.id?) (handle message s).2 := by
  cases message with
  | request caller command attributes timeout portOpen timer =>
    rw [handle]
    cases J.encode (Request.new s.nextId command attributes) with
    | error error => exact .answers rfl s.subscribers
    | ok payload =>
      cases portOpen with
      | false => exact .raises rfl (Or.inl rfl)
      | true =>
        cases timer with
        | none => exact .raises rfl (Or.inr rfl)
        | some timer => exact .accepts (p := ⟨caller, timer, command⟩) rfl
  | subscribe caller subscriber monitor =>
    rw [handle]
    split
    · exact .answers rfl s.subscribers
    · exact .answers rfl _
  | unsubscribe caller subscriber =>
    rw [handle]
    cases s.subscribers[subscriber]? with
    | none => exact .answers rfl s.subscribers
    | some monitor => exact .answers rfl _
  | data payload => exact deals_handleResponse rfl (J.decode payload) s
  | requestTimeout id =>
    rw [handle]
    cases hp : s.pending[id]? with
    | none => exact .leaves rfl s.subscribers
    | some p => exact .settles rfl hp rfl
  | exitStatus status =>
    rw [handle, answered?_drain, filterMap_drain _ _ (fun _ ↦ rfl) fun _ ↦ rfl]
    exact .drains rfl (.portExit status)
  | down monitor subscriber =>
    rw [handle]
    split
    · exact .leaves rfl _
    · exact .leaves rfl s.subscribers
  | other => exact .leaves rfl s.subscribers

/-! ## The entries

Numbers are given away in order and never twice. The entries are of calls that have not been
answered, each call has at most one, and whoever is answered loses its entry in the same step. So
nobody is answered twice (`Deals.once`). -/

theorem calls_append (turns turns' : List (Turn J)) :
    calls (turns ++ turns') = calls turns ++ calls turns' := List.filterMap_append ..

/-- The numbers are given away in order, and every entry has one of them. -/
structure Numbered (turns : List (Turn J)) (s : State) : Prop where
  ids_lt : ∀ id ∈ ids turns, id < s.nextId
  pending_lt : ∀ (id : ℤ) (p : Pending), s.pending[id]? = some p → id < s.nextId

/-- The entries are of calls that have not been answered, and each call has at most one. -/
structure Waiting (turns : List (Turn J)) (s : State) : Prop where
  called : ∀ (id : ℤ) (p : Pending), s.pending[id]? = some p → p.caller ∈ calls turns
  unanswered : ∀ (id : ℤ) (p : Pending), s.pending[id]? = some p → p.caller ∉ answered turns
  distinct : ∀ (id : ℤ) (p : Pending) (id' : ℤ) (p' : Pending), s.pending[id]? = some p →
    s.pending[id']? = some p' → p.caller = p'.caller → id = id'

/-- The answers went to calls, and to each at most once. -/
structure Once (turns : List (Turn J)) : Prop where
  called : ∀ caller ∈ answered turns, caller ∈ calls turns
  nodup : (answered turns).Nodup

theorem Deals.numbered {turns' : List (Turn J)} {callers : List From} {new : List ℤ}
    (h : Deals s m callers new next) (hids : ids turns' = ids turns ++ new)
    (hnum : Numbered turns s) (hinc : (ids turns).Pairwise (· < ·)) :
    (ids turns').Pairwise (· < ·) ∧ ∀ s', next.state? = some s' → Numbered turns' s' := by
  rw [hids]
  have hnew : new = [] ∨ new = [s.nextId] → (ids turns ++ new).Pairwise (· < ·) := by
    rintro (rfl | rfl)
    · rwa [List.append_nil]
    · refine List.pairwise_append.mpr ⟨hinc, List.pairwise_singleton _ _, ?_⟩
      intro id hid id' hid'
      rw [List.mem_singleton.mp hid']
      exact hnum.ids_lt id hid
  cases h with
  | leaves | answers =>
    refine ⟨hnew (Or.inl rfl), ?_⟩
    rintro _ ⟨⟩
    rw [List.append_nil] at hids
    exact ⟨hids ▸ hnum.ids_lt, hnum.pending_lt⟩
  | @accepts p =>
    refine ⟨hnew (Or.inr rfl), ?_⟩
    rintro _ ⟨⟩
    refine ⟨fun id hid ↦ ?_, fun id p' hp' ↦ ?_⟩
    · dsimp only
      rw [hids, List.mem_append, List.mem_singleton] at hid
      rcases hid with hid | rfl
      · have := hnum.ids_lt id hid
        omega
      · omega
    · dsimp only at hp' ⊢
      rw [getElem?_insert_eq] at hp'
      split at hp'
      · omega
      · have := hnum.pending_lt id p' hp'
        omega
  | raises _ hnone =>
    refine ⟨hnew hnone, ?_⟩
    rintro _ ⟨⟩
  | @settles _ id p hp _ hnext =>
    refine ⟨hnew (Or.inl rfl), fun s' hs' ↦ ?_⟩
    obtain rfl := Option.some.inj (hnext.symm.trans hs')
    rw [List.append_nil] at hids
    refine ⟨hids ▸ hnum.ids_lt, fun id' p' hp' ↦ ?_⟩
    dsimp only at hp'
    rw [getElem?_erase_eq] at hp'
    split at hp'
    · cases hp'
    · exact hnum.pending_lt id' p' hp'
  | drains =>
    refine ⟨hnew (Or.inl rfl), ?_⟩
    rintro _ ⟨⟩
    rw [List.append_nil] at hids
    refine ⟨hids ▸ hnum.ids_lt, fun id' p' hp' ↦ ?_⟩
    exact absurd hp' (getElem?_empty_ne_some id' p')

theorem Waiting.nodup_callers (h : Waiting turns s) :
    (s.pending.toList.map fun entry ↦ entry.2.caller).Nodup := by
  rw [List.Nodup, List.pairwise_map]
  refine List.Pairwise.imp_of_mem ?_ (ExtTreeMap.distinct_keys_toList (t := s.pending))
  rintro ⟨id, p⟩ ⟨id', p'⟩ hp hp' hne hcaller
  refine hne (compare_eq_iff_eq.mpr ?_)
  exact h.distinct id p id' p' (ExtTreeMap.mem_toList_iff_getElem?_eq_some.mp hp)
    (ExtTreeMap.mem_toList_iff_getElem?_eq_some.mp hp') hcaller

section Answers

variable {turns' : List (Turn J)} {callers : List From}

theorem Once.append (h : Once turns) (hkept : ∀ caller ∈ calls turns, caller ∈ calls turns')
    (hanswered : answered turns' = answered turns ++ callers) (hnodup : callers.Nodup)
    (hcallers : ∀ caller ∈ callers, caller ∈ calls turns' ∧ caller ∉ answered turns) :
    Once turns' where
  called caller hcaller := by
    rw [hanswered, List.mem_append] at hcaller
    rcases hcaller with hold | hnew
    · exact hkept caller (h.called caller hold)
    · exact (hcallers caller hnew).1
  nodup := by
    rw [hanswered]
    exact List.nodup_append.mpr ⟨h.nodup, hnodup, fun caller hold caller' hnew heq ↦
      (hcallers caller' hnew).2 (heq ▸ hold)⟩

theorem Waiting.shrink (h : Waiting turns s) (hkept : ∀ caller ∈ calls turns, caller ∈ calls turns')
    (hanswered : answered turns' = answered turns ++ callers)
    (hpending : ∀ (id : ℤ) (p : Pending), s'.pending[id]? = some p →
      s.pending[id]? = some p ∧ p.caller ∉ callers) : Waiting turns' s' where
  called id p hp := hkept _ (h.called id p (hpending id p hp).1)
  unanswered id p hp := by
    rw [hanswered, List.mem_append, not_or]
    exact ⟨h.unanswered id p (hpending id p hp).1, (hpending id p hp).2⟩
  distinct id p id' p' hp hp' :=
    h.distinct id p id' p' (hpending id p hp).1 (hpending id' p' hp').1

theorem Waiting.insert (h : Waiting turns s) (honce : Once turns) {p : Pending}
    (hkept : ∀ caller ∈ calls turns, caller ∈ calls turns') (hmine : p.caller ∈ calls turns')
    (hanswered : answered turns' = answered turns) (hnew : p.caller ∉ calls turns)
    (hpending : s'.pending = s.pending.insert id p) : Waiting turns' s' := by
  have hcases : ∀ (id' : ℤ) (p' : Pending), s'.pending[id']? = some p' →
      (id' = id ∧ p' = p) ∨ s.pending[id']? = some p' := by
    intro id' p' hp'
    rw [hpending, getElem?_insert_eq] at hp'
    split at hp'
    · next hid => exact Or.inl ⟨hid.symm, (Option.some.inj hp').symm⟩
    · exact Or.inr hp'
  refine ⟨fun id₁ p₁ hp₁ ↦ ?_, fun id₁ p₁ hp₁ ↦ ?_, fun id₁ p₁ id₂ p₂ hp₁ hp₂ heq ↦ ?_⟩
  · rcases hcases id₁ p₁ hp₁ with ⟨-, rfl⟩ | hold
    · exact hmine
    · exact hkept _ (h.called id₁ p₁ hold)
  · rw [hanswered]
    rcases hcases id₁ p₁ hp₁ with ⟨-, rfl⟩ | hold
    · exact fun hmem ↦ hnew (honce.called _ hmem)
    · exact h.unanswered id₁ p₁ hold
  · rcases hcases id₁ p₁ hp₁ with ⟨rfl, rfl⟩ | hold₁ <;>
      rcases hcases id₂ p₂ hp₂ with ⟨rfl, rfl⟩ | hold₂
    · rfl
    · exact absurd (heq ▸ h.called id₂ p₂ hold₂) hnew
    · exact absurd (heq ▸ h.called id₁ p₁ hold₁) hnew
    · exact h.distinct id₁ p₁ id₂ p₂ hold₁ hold₂ heq

/-- **Nobody is answered twice.** -/
theorem Deals.once {new : List ℤ} (h : Deals s m callers new next)
    (hcalls : calls turns' = calls turns ++ m.caller?.toList)
    (hanswered : answered turns' = answered turns ++ callers) (hnodup : (calls turns').Nodup)
    (hwait : Waiting turns s) (honce : Once turns) :
    Once turns' ∧ ∀ s', next.state? = some s' → Waiting turns' s' := by
  have hkept : ∀ caller ∈ calls turns, caller ∈ calls turns' := fun caller hmem ↦
    hcalls ▸ List.mem_append_left _ hmem
  have hfresh : ∀ caller, m.caller? = some caller →
      caller ∈ calls turns' ∧ caller ∉ calls turns := by
    intro caller hcaller
    rw [hcaller] at hcalls
    refine ⟨hcalls ▸ List.mem_append_right _ (List.mem_singleton_self _), fun hmem ↦ ?_⟩
    rw [hcalls] at hnodup
    exact (List.nodup_append.mp hnodup).2.2 caller hmem caller (List.mem_singleton_self _) rfl
  cases h with
  | leaves =>
    refine ⟨honce.append hkept hanswered List.nodup_nil (by simp), ?_⟩
    rintro _ ⟨⟩
    exact hwait.shrink hkept hanswered fun id p hp ↦ ⟨hp, List.not_mem_nil⟩
  | @answers caller hcaller =>
    obtain ⟨hmine, hnew⟩ := hfresh caller hcaller
    refine ⟨honce.append hkept hanswered (List.nodup_singleton _) ?_, ?_⟩
    · rintro _ (_ | ⟨_, ⟨⟩⟩)
      exact ⟨hmine, fun hmem ↦ hnew (honce.called _ hmem)⟩
    · rintro _ ⟨⟩
      refine hwait.shrink hkept hanswered fun id p hp ↦ ⟨hp, fun hmem ↦ ?_⟩
      exact hnew (List.mem_singleton.mp hmem ▸ hwait.called id p hp)
  | @accepts p hcaller =>
    obtain ⟨hmine, hnew⟩ := hfresh p.caller hcaller
    refine ⟨honce.append hkept hanswered List.nodup_nil (by simp), ?_⟩
    rintro _ ⟨⟩
    rw [List.append_nil] at hanswered
    exact hwait.insert honce hkept hmine hanswered hnew rfl
  | raises =>
    refine ⟨honce.append hkept hanswered List.nodup_nil (by simp), ?_⟩
    rintro _ ⟨⟩
  | @settles _ id p hp _ hnext =>
    refine ⟨honce.append hkept hanswered (List.nodup_singleton _) ?_, fun s' hs' ↦ ?_⟩
    · rintro _ (_ | ⟨_, ⟨⟩⟩)
      exact ⟨hkept _ (hwait.called id p hp), hwait.unanswered id p hp⟩
    · obtain rfl := Option.some.inj (hnext.symm.trans hs')
      refine hwait.shrink hkept hanswered fun id' p' hp' ↦ ?_
      dsimp only at hp'
      rw [getElem?_erase_eq] at hp'
      split at hp'
      · cases hp'
      · next hne =>
        refine ⟨hp', fun hmem ↦ hne ?_⟩
        exact hwait.distinct id p id' p' hp hp' (List.mem_singleton.mp hmem).symm
  | drains =>
    refine ⟨honce.append hkept hanswered hwait.nodup_callers ?_, ?_⟩
    · intro caller hmem
      obtain ⟨⟨id, p⟩, hentry, rfl⟩ := List.mem_map.mp hmem
      have hp := ExtTreeMap.mem_toList_iff_getElem?_eq_some.mp hentry
      exact ⟨hkept _ (hwait.called id p hp), hwait.unanswered id p hp⟩
    · rintro _ ⟨⟩
      refine hwait.shrink hkept hanswered fun id p hp ↦ ?_
      exact absurd hp (getElem?_empty_ne_some id p)

end Answers

/-! ## Histories

The process may stop or raise, and then the history is at its end. A turn in the middle of a history
is a turn of the process in the state it had by then, which is how statements about all turns are
proved. -/

theorem calls_concat (turns : List (Turn J)) (m : Message J) (effects : List (Effect J)) :
    calls (turns ++ [(m, effects)]) = calls turns ++ m.caller?.toList := by
  rw [calls_append]
  cases hcaller : m.caller? <;> simp [calls, hcaller]

theorem answered_concat (turns : List (Turn J)) (m : Message J) (effects : List (Effect J)) :
    answered (turns ++ [(m, effects)]) = answered turns ++ effects.filterMap Effect.answered? := by
  simp [answered]

theorem ids_concat (turns : List (Turn J)) (m : Message J) (effects : List (Effect J)) :
    ids (turns ++ [(m, effects)]) = ids turns ++ effects.filterMap Effect.id? := by
  simp [ids]

/-- A turn of a history is a turn of the process, in the state it had by then. -/
theorem History.split (h : History turns next) {before after : List (Turn J)}
    {effects : List (Effect J)} (hturns : turns = before ++ (m, effects) :: after) :
    ∃ s, History before (.noreply s) ∧ effects = (handle m s).1 := by
  induction h generalizing after with
  | init => simp at hturns
  | @step turns s hrun m' ih =>
    rcases List.eq_nil_or_concat after with rfl | ⟨after, turn, rfl⟩
    · obtain ⟨rfl, hturn⟩ := List.append_inj' hturns rfl
      obtain ⟨rfl, rfl⟩ := Prod.mk.inj (List.cons.inj hturn).1
      exact ⟨s, hrun, rfl⟩
    · rw [List.concat_eq_append, ← List.cons_append, ← List.append_assoc] at hturns
      exact ih (List.append_inj' hturns rfl).1

theorem History.numbered (h : History turns next) :
    (ids turns).Pairwise (· < ·) ∧ ∀ s, next.state? = some s → Numbered turns s := by
  induction h with
  | init =>
    refine ⟨List.Pairwise.nil, ?_⟩
    rintro _ ⟨⟩
    exact ⟨by simp [ids], by simp [State.init]⟩
  | @step turns s _ m ih =>
    exact (deals_handle m s).numbered (ids_concat _ _ _) (ih.2 s rfl) ih.1

theorem History.once (h : History turns next) (hcalls : (calls turns).Nodup) :
    Once turns ∧ ∀ s, next.state? = some s → Waiting turns s := by
  induction h with
  | init =>
    refine ⟨⟨by simp [answered], by simp [answered]⟩, ?_⟩
    rintro _ ⟨⟩
    exact ⟨by simp [State.init], by simp [State.init], by simp [State.init]⟩
  | @step turns s _ m ih =>
    have hbefore := calls_concat turns m (handle m s).1
    obtain ⟨honce, hwait⟩ := ih (List.Nodup.of_append_left (hbefore ▸ hcalls))
    exact (deals_handle m s).once hbefore (answered_concat _ _ _) hcalls (hwait s rfl) honce

/-! ## Where an answer comes from

An entry was there before, or the message is the request it is for; so every entry is for a request
that was written under its number (`History.wrote`). An answer that needs an entry then has its
ground in the caller's own request. -/

theorem Deals.entry {callers : List From} {new : List ℤ} (h : Deals s m callers new next)
    (hs' : next.state? = some s') {p : Pending} (hp : s'.pending[id]? = some p) :
    s.pending[id]? = some p ∨ (m.caller? = some p.caller ∧ id ∈ new) := by
  cases h with
  | leaves | answers =>
    cases hs'
    exact Or.inl hp
  | accepts hcaller =>
    cases hs'
    dsimp only at hp
    rw [getElem?_insert_eq] at hp
    split at hp
    · next hid =>
      obtain rfl := Option.some.inj hp
      exact Or.inr ⟨hcaller, hid ▸ List.mem_singleton_self _⟩
    · exact Or.inl hp
  | raises => cases hs'
  | settles _ _ hnext =>
    obtain rfl := Option.some.inj (hnext.symm.trans hs')
    dsimp only at hp
    rw [getElem?_erase_eq] at hp
    split at hp
    · cases hp
    · exact Or.inl hp
  | drains =>
    cases hs'
    cases (ExtTreeMap.getElem?_empty).symm.trans hp

/-- Every entry is for a request that was written under its number. -/
theorem History.wrote (h : History turns next) (hs : next.state? = some s) {p : Pending}
    (hp : s.pending[id]? = some p) :
    Wrote turns p.caller id := by
  induction h generalizing s with
  | init =>
    cases hs
    simp [State.init] at hp
  | @step turns s₀ _ m ih =>
    rcases (deals_handle m s₀).entry hs hp with hold | ⟨hcaller, hnew⟩
    · obtain ⟨turn, hturn, hwrote⟩ := ih rfl hold
      exact ⟨turn, List.mem_append_left _ hturn, hwrote⟩
    · obtain ⟨effect, heffect, hid⟩ := List.mem_filterMap.mp hnew
      refine ⟨_, List.mem_append_right _ (List.mem_singleton_self _), hcaller, ?_⟩
      cases effect with
      | command request payload => exact ⟨request, payload, heffect, Option.some.inj hid⟩
      | _ => cases hid

/-- Why a caller is given an answer when a message comes in, where `has` says which calls have which
numbers. -/
def Grounded (has : From → ℤ → Prop) (caller : From) (answer : Answer J) : Message J → Prop
  | .request caller' command attributes _ _ _ => caller' = caller ∧ ∃ id error,
      J.encode (.new id command attributes) = .error error ∧ answer = .error (.encode error)
  | .subscribe caller' _ _ => caller' = caller ∧ answer = .done
  | .unsubscribe caller' _ => caller' = caller ∧ answer = .done
  | .data payload => ∃ json id, J.decode payload = some json ∧ response? json = some (id, answer)
      ∧ has caller id
  | .requestTimeout id => answer = .error .timeout ∧ has caller id
  | .exitStatus status => answer = .error (.portExit status) ∧ ∃ id, has caller id
  | .down _ _ => False
  | .other => False

theorem Grounded.mono {has has' : From → ℤ → Prop} (h : Grounded has caller answer m)
    (himp : ∀ id, has caller id → has' caller id) : Grounded has' caller answer m := by
  cases m with
  | data payload =>
    obtain ⟨json, id, hdecode, hresponse, hhas⟩ := h
    exact ⟨json, id, hdecode, hresponse, himp id hhas⟩
  | requestTimeout id => exact ⟨h.1, himp id h.2⟩
  | exitStatus status =>
    obtain ⟨hanswer, id, hhas⟩ := h
    exact ⟨hanswer, id, himp id hhas⟩
  | _ => exact h

/-- The call has an entry under the number. -/
def State.Awaits (s : State) (caller : From) (id : ℤ) : Prop :=
  ∃ p, s.pending[id]? = some p ∧ p.caller = caller

theorem awaits_of_reply {answer' : Answer J} (h : .reply caller answer' ∈ (reply id answer s).1) :
    answer' = answer ∧ s.Awaits caller id := by
  rw [reply] at h
  cases hp : s.pending[id]? with
  | none => simp [hp] at h
  | some p =>
    simp only [hp, List.mem_cons, reduceCtorEq, Effect.reply.injEq, List.not_mem_nil, or_false,
      false_or] at h
    exact ⟨h.2, p, hp, h.1.symm⟩

/-- **Every answer has its ground.** -/
theorem grounded_handle (h : .reply caller answer ∈ (handle m s).1) :
    Grounded s.Awaits caller answer m := by
  cases m with
  | request caller' command attributes timeout portOpen timer =>
    rw [handle] at h
    cases hencode : J.encode (Request.new s.nextId command attributes) with
    | error error =>
      simp only [hencode, List.mem_singleton, Effect.reply.injEq] at h
      exact ⟨h.1.symm, s.nextId, error, hencode, h.2⟩
    | ok payload => cases portOpen <;> cases timer <;> simp [hencode] at h
  | subscribe caller' subscriber monitor =>
    rw [handle] at h
    split at h
    · simp only [List.mem_singleton, Effect.reply.injEq] at h
      exact ⟨h.1.symm, h.2⟩
    · simp only [List.mem_cons, reduceCtorEq, Effect.reply.injEq, List.not_mem_nil, or_false,
        false_or] at h
      exact ⟨h.1.symm, h.2⟩
  | unsubscribe caller' subscriber =>
    rw [handle] at h
    cases hmonitor : s.subscribers[subscriber]? <;>
      simp only [hmonitor, List.mem_cons, reduceCtorEq, Effect.reply.injEq, List.not_mem_nil,
        or_false, false_or] at h <;> exact ⟨h.1.symm, h.2⟩
  | data payload =>
    rw [handle] at h
    cases hdecode : J.decode payload with
    | none => simp [hdecode, handleResponse] at h
    | some json =>
      simp only [hdecode, handleResponse] at h
      split at h
      · simp at h
      · split at h
        · next id answer' hresponse =>
          obtain ⟨rfl, hawaits⟩ := awaits_of_reply h
          exact ⟨json, id, hdecode, hresponse, hawaits⟩
        · simp at h
  | requestTimeout id =>
    rw [handle] at h
    cases hp : s.pending[id]? with
    | none => simp [hp] at h
    | some p =>
      simp only [hp, List.mem_singleton, Effect.reply.injEq] at h
      exact ⟨h.2, p, hp, h.1.symm⟩
  | exitStatus status =>
    simp only [handle, List.mem_flatMap, List.mem_cons, reduceCtorEq, Effect.reply.injEq,
      List.not_mem_nil, or_false, false_or] at h
    obtain ⟨⟨id, p⟩, hentry, hcaller, hanswer⟩ := h
    exact ⟨hanswer, id, p, ExtTreeMap.mem_toList_iff_getElem?_eq_some.mp hentry, hcaller.symm⟩
  | down monitor subscriber =>
    rw [handle] at h
    split at h <;> simp at h
  | other => simp [handle] at h

/-! ## Events

Subscribers are monitored, and lose their subscription when they ask for it or exit. The table of
subscribers is compared with the subscription of each process, as the messages tell it, one message
at a time. -/

/-- A frame with an event. -/
def Message.event? : Message J → Option Json
  | .data payload => (J.decode payload).filter fun json ↦ (json.get? "event").isSome
  | _ => none

theorem subscribers_handleResponse {decoded : Option Json}
    (h : (handleResponse (J := J) decoded s).2.state? = some s') :
    s'.subscribers = s.subscribers := by
  cases decoded with
  | none =>
    cases h
    rfl
  | some json =>
    simp only [handleResponse] at h
    split at h
    · cases h
      rfl
    · split at h
      · next id answer _ =>
        rw [reply] at h
        cases hp : s.pending[id]? with
        | none =>
          simp only [hp] at h
          cases h
          rfl
        | some p =>
          simp only [hp] at h
          split at h <;> (cases h; rfl)
      · cases h
        rfl

theorem subscribers_subscribe {subscriber : Pid} {monitor : Ref}
    (h : (handle (J := J) (.subscribe caller subscriber monitor) s).2.state? = some s')
    (pid : Pid) :
    s'.subscribers[pid]? = (Message.subscribe (J := J) caller subscriber monitor).subscription pid
      s.subscribers[pid]? := by
  rw [handle] at h
  rw [Message.subscription]
  split at h
  · next hmem =>
    cases h
    obtain ⟨old, hold⟩ := Option.isSome_iff_exists.mp (ExtTreeMap.mem_iff_isSome_getElem?.mp hmem)
    split
    · next heq => rw [← heq, hold, Option.getD_some]
    · rfl
  · next hmem =>
    cases h
    dsimp only
    rw [getElem?_insert_eq]
    split
    · next heq =>
      rw [← heq, ExtTreeMap.getElem?_eq_none hmem, Option.getD_none]
    · rfl

theorem subscribers_unsubscribe {subscriber : Pid}
    (h : (handle (J := J) (.unsubscribe caller subscriber) s).2.state? = some s') (pid : Pid) :
    s'.subscribers[pid]? = (Message.unsubscribe (J := J) caller subscriber).subscription pid
      s.subscribers[pid]? := by
  rw [handle] at h
  rw [Message.subscription]
  cases hmonitor : s.subscribers[subscriber]? with
  | none =>
    rw [hmonitor] at h
    cases h
    split
    · next heq => rw [← heq, hmonitor]
    · rfl
  | some monitor =>
    rw [hmonitor] at h
    cases h
    exact getElem?_erase_eq _ _ _

theorem subscribers_down {monitor : Ref} {subscriber : Pid}
    (h : (handle (J := J) (.down monitor subscriber) s).2.state? = some s') (pid : Pid) :
    s'.subscribers[pid]? = (Message.down (J := J) monitor subscriber).subscription pid
      s.subscribers[pid]? := by
  rw [handle] at h
  rw [Message.subscription]
  split at h
  · next hmonitor =>
    cases h
    dsimp only
    rw [getElem?_erase_eq]
    by_cases heq : subscriber = pid
    · rw [if_pos heq, if_pos ⟨heq, heq ▸ hmonitor⟩]
    · rw [if_neg heq, if_neg fun hboth ↦ heq hboth.1]
  · next hmonitor =>
    cases h
    rw [if_neg]
    rintro ⟨rfl, hsome⟩
    exact hmonitor hsome

/-- A message does to the subscribers what it does to the subscription of each. -/
theorem subscribers_handle (h : (handle m s).2.state? = some s') (pid : Pid) :
    s'.subscribers[pid]? = m.subscription pid s.subscribers[pid]? := by
  cases m with
  | request caller command attributes timeout portOpen timer =>
    rw [handle] at h
    cases hencode : J.encode (Request.new s.nextId command attributes) with
    | error error =>
      rw [hencode] at h
      cases h
      rfl
    | ok payload =>
      rw [hencode] at h
      cases portOpen <;> cases timer <;> cases h
      rfl
  | subscribe caller subscriber monitor => exact subscribers_subscribe h pid
  | unsubscribe caller subscriber => exact subscribers_unsubscribe h pid
  | data payload => exact congrArg (·[pid]?) (subscribers_handleResponse h)
  | requestTimeout id =>
    rw [handle] at h
    cases hp : s.pending[id]? <;> (rw [hp] at h; cases h; rfl)
  | exitStatus status =>
    cases h
    rfl
  | down monitor subscriber => exact subscribers_down h pid
  | other =>
    cases h
    rfl

theorem History.subscribers (h : History turns next) (hs : next.state? = some s) (pid : Pid) :
    s.subscribers[pid]? = subscription turns pid := by
  induction h generalizing s with
  | init =>
    cases hs
    simp [State.init, subscription]
  | @step turns s₀ _ m ih =>
    rw [subscribers_handle hs, ih rfl, subscription, subscription, List.foldl_append]
    rfl

theorem sent?_reply (id : ℤ) (answer : Answer J) (s : State) :
    (reply id answer s).1.filterMap Effect.sent? = [] := by
  rw [reply]
  cases s.pending[id]? <;> rfl

/-- Nothing is sent but events, and those to all subscribers. -/
theorem sent?_handle (m : Message J) (s : State) :
    (handle m s).1.filterMap Effect.sent?
      = m.event?.toList.flatMap fun event ↦ s.subscribers.keys.map fun pid ↦ (pid, event) := by
  cases m with
  | request caller command attributes timeout portOpen timer =>
    rw [handle]
    cases J.encode (Request.new s.nextId command attributes) with
    | error error => rfl
    | ok payload => cases portOpen <;> cases timer <;> rfl
  | subscribe caller subscriber monitor =>
    rw [handle]
    split <;> rfl
  | unsubscribe caller subscriber =>
    rw [handle]
    cases s.subscribers[subscriber]? <;> rfl
  | data payload =>
    rw [handle, Message.event?]
    cases J.decode payload with
    | none => rfl
    | some json =>
      simp only [handleResponse]
      split
      · next hevent =>
        simp [Option.filter, hevent, List.filterMap_map, Effect.sent?, Function.comp_def]
      · next hevent =>
        simp only [Option.filter, hevent]
        split
        · exact sent?_reply _ _ s
        · rfl
  | requestTimeout id =>
    rw [handle]
    cases s.pending[id]? <;> rfl
  | exitStatus status => exact filterMap_drain _ _ (fun _ ↦ rfl) fun _ ↦ rfl
  | down monitor subscriber =>
    rw [handle]
    split <;> rfl
  | other => rfl

/-! ## Correlation -/

/-- The events a process is sent in a turn. -/
def sentTo (pid : Pid) (effects : List (Effect J)) : List Json :=
  (effects.filterMap Effect.sent?).filterMap fun sent ↦ if sent.1 = pid then some sent.2 else none

theorem filterMap_ite_of_nodup {β : Type} {pids : List Pid} (h : pids.Nodup) (pid : Pid) (b : β) :
    pids.filterMap (fun other ↦ if other = pid then some b else none)
      = if pid ∈ pids then [b] else [] := by
  induction pids with
  | nil => rfl
  | cons other pids ih =>
    obtain ⟨hother, hpids⟩ := List.nodup_cons.mp h
    by_cases heq : other = pid
    · subst heq
      simp [ih hpids, hother]
    · simp [heq, ih hpids, Ne.symm heq]

theorem sentTo_handle (m : Message J) (s : State) (pid : Pid) :
    sentTo pid (handle m s).1 = if pid ∈ s.subscribers then m.event?.toList else [] := by
  rw [sentTo, sent?_handle]
  cases m.event? with
  | none => simp
  | some event =>
    rw [Option.toList_some, List.flatMap_singleton, List.filterMap_map]
    simp only [← ExtTreeMap.mem_keys]
    exact filterMap_ite_of_nodup ExtTreeMap.nodup_keys pid event

/-- A request that is answered at once is not written, and the process stays as it is. -/
theorem handle_of_reply {caller' : From} {command : String} {attributes : List (Key × J.Value)}
    {timeout : ℕ} {portOpen : Bool} {timer : Option Ref} (h : .reply caller' answer
      ∈ (handle (.request caller command attributes timeout portOpen timer) s).1) :
    handle (.request caller command attributes timeout portOpen timer) s
      = ([.reply caller' answer], .noreply s) := by
  rw [handle] at h ⊢
  cases hencode : J.encode (Request.new s.nextId command attributes) with
  | error error =>
    simp only [hencode, List.mem_singleton] at h ⊢
    rw [h]
  | ok payload => cases portOpen <;> cases timer <;> simp [hencode] at h

/-- **Every caller gets the answer to its own request.** The `caller` of a call is made for it, so
no two calls have the same. Then nobody is answered twice, and the ground of each answer is its own
call, or the number under which its own request had been written before. The numbers are all
different. An event goes once to each process that is subscribed when it comes in, and to no other;
nothing else is sent. A request that is answered at once is not written, and its number is still the
next one. -/
theorem client_correlation {turns : List (Turn J)} {next : Next} (h : History turns next)
    (hcalls : (calls turns).Nodup) :
    (answered turns).Nodup
      ∧ (∀ before m effects after caller answer, turns = before ++ (m, effects) :: after →
          .reply caller answer ∈ effects → Grounded (Wrote before) caller answer m)
      ∧ (ids turns).Nodup
      ∧ (∀ before m effects after pid, turns = before ++ (m, effects) :: after →
          sentTo pid effects
            = if (subscription before pid).isSome = true then m.event?.toList else [])
      ∧ ∀ before caller command attributes timeout portOpen timer effects after,
          turns = before
            ++ (.request caller command attributes timeout portOpen timer, effects) :: after →
          ∀ caller' answer, .reply caller' answer ∈ effects → effects = [.reply caller' answer]
            ∧ ∃ s, History before (.noreply s)
              ∧ History (before
                ++ [(.request caller command attributes timeout portOpen timer, effects)])
                  (.noreply s) := by
  refine ⟨(h.once hcalls).1.nodup, ?_, ?_, ?_, ?_⟩
  · intro before m effects after caller answer hturns hreply
    obtain ⟨s, hbefore, rfl⟩ := h.split hturns
    refine (grounded_handle hreply).mono ?_
    rintro id ⟨p, hp, rfl⟩
    exact hbefore.wrote rfl hp
  · exact h.numbered.1.imp fun hlt ↦ ne_of_lt hlt
  · intro before m effects after pid hturns
    obtain ⟨s, hbefore, rfl⟩ := h.split hturns
    rw [sentTo_handle, ← hbefore.subscribers rfl pid]
    simp only [ExtTreeMap.mem_iff_isSome_getElem?]
  · intro before caller command attributes timeout portOpen timer effects after hturns caller'
      answer hreply
    obtain ⟨s, hbefore, rfl⟩ := h.split hturns
    have hhandle := handle_of_reply hreply
    have hafter := hbefore.step (.request caller command attributes timeout portOpen timer)
    rw [hhandle] at hafter ⊢
    exact ⟨rfl, s, hbefore, hafter⟩

/-! ### A library for examples

Attributes are flags, of which one has no encoding, and a frame of one byte is the response to the
request with that number. -/

def flagJason : Jason where
  Value := Bool
  EncodeError := Unit
  encode request := if request.attributes.all Prod.snd then .ok [] else .error ()
  decode
    | [id] => some (.object [("id", .integer id.toNat), ("ok", .bool true),
        ("result", .object [])])
    | _ => none

/-- A request without an encoding is answered, and there never was a response. -/
theorem unencodable_request_answered :
    ∃ turns next, History (J := flagJason) turns next ∧ (calls turns).Nodup
      ∧ (∃ turn ∈ turns, .reply ⟨0, 0⟩ (.error (.encode ())) ∈ turn.2)
      ∧ ∀ turn ∈ turns, ∀ payload, turn.1 ≠ .data payload := by
  refine ⟨_, _, History.init.run [.request ⟨0, 0⟩ "publish" [(.binary "load", false)] 5000 true
    (some 1)], by decide, ⟨_, List.mem_singleton_self _, List.mem_singleton_self _⟩, ?_⟩
  intro turn hturn payload hdata
  obtain rfl := List.mem_singleton.mp hturn
  cases hdata

/-- Two requests, of which the second is answered first, and one between them without an
encoding. -/
def crossing : List (Message flagJason) :=
  [.request ⟨0, 0⟩ "identity" [] 5000 true (some 1),
    .request ⟨2, 0⟩ "publish" [(.binary "load", false)] 5000 true (some 3),
    .request ⟨1, 0⟩ "find" [] 5000 true (some 2), .data [2], .data [1]]

theorem client_correlation_sample :
    answered (run crossing .init).1 = [⟨2, 0⟩, ⟨1, 0⟩, ⟨0, 0⟩]
      ∧ (answered (run crossing .init).1).Nodup ∧ ids (run crossing .init).1 = [1, 2]
      ∧ (ids (run crossing .init).1).Nodup := by
  have h := client_correlation (History.init.run crossing) (by decide)
  exact ⟨by decide, h.1, by decide, h.2.2.1⟩

end Port

end NervesP2P
