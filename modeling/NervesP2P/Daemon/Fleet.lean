import NervesP2P.Daemon.Publishing
import NervesP2P.Discovery.Durability

/-!
# A fleet of daemons

Several daemons, each on a machine of its own with its two sequence files, and a network that
delivers to any of them whatever envelopes exist, in any order and as often as it likes. Processes
die, machines lose what was not durable, and daemons start again on what is left. Others than the
members may have keys of their own and sign with them.

## What is assumed

Nothing is assumed of the network but that it cannot forge: an envelope that verifies carries a
message its endpoint has signed (`Genuine`). What members sign, they sign in `publish`.

## The invariant

`Sound` says of each member that its numbers increase with every signature and that neither its
memory nor anything a crash may leave of its outbound file is below them, and of each record of a
running daemon that it was signed by its endpoint. From the first, no member signs two announcements
under one number, so two daemons that hold the same number of a member hold the same announcement.

## Two kinds of memory

A daemon forgets its records when it dies and keeps its files. That it never goes back to an older
announcement is therefore two statements: what a registry has a record of is already durable, since
`receive` writes the watermark before it takes the record in, and no watermark falls, in memory or
in anything that a crash may leave. The first ties a record to the file at one moment and the second
takes the file through any number of restarts.
-/

open Std (ExtTreeMap)

namespace NervesP2P

variable {ι : Type} {I : Iroh}
variable {e : I.EndpointId} {i : ι}

/-! ## Members and their processes -/

/-- The members of a fleet. -/
structure Roster (ι : Type) (I : Iroh) where
  fleetId : FleetId
  secret : ι → I.SecretKey
  nodeName : ι → Text
  /-- No two members have the same key. -/
  distinct : Function.Injective fun i ↦ I.publicKey (secret i)

namespace Roster

def key (R : Roster ι I) (i : ι) : I.EndpointId := I.publicKey (R.secret i)

def announcement (R : Roster ι I) (i : ι) (draft : Draft) (sequence : UInt64) :
    Announcement I where
  fleetId := R.fleetId
  endpointId := R.key i
  nodeName := R.nodeName i
  partisanIp := draft.partisanIp
  partisanPort := draft.partisanPort
  sequence := sequence
  ttlMs := draft.ttlMs
  capabilities := draft.capabilities
  load := draft.load

end Roster

/-- A daemon, or the two disks it has left. -/
inductive Process (I : Iroh) where
  | up (daemon : Daemon I (FileSequenceStore I))
  | down (outbound inbound : Disk)

/-- The processes of the members, and the messages signed so far, newest first. -/
structure Fleet (ι : Type) (I : Iroh) where
  process : ι → Process I
  calls : List (SignCall I)

/-- The environment decides how the next writes fail. -/
def Daemon.plan (outbound inbound : List (Option Fault)) (d : Daemon I (FileSequenceStore I)) :
    Daemon I (FileSequenceStore I) :=
  { d with
    outbound := d.outbound.plan outbound
    registry := { d.registry with store := d.registry.store.plan inbound } }

/-- The signing that a step does. -/
def Daemon.signed (d : Daemon I (FileSequenceStore I)) (taken : Taken I) : List (SignCall I) :=
  (d.signs taken).toList.map fun signing ↦ ⟨.announcement signing.1, d.secret⟩

/-- An envelope that verifies carries a message that its endpoint has signed. -/
def Genuine (calls : List (SignCall I)) (envelope : List UInt8) : Prop :=
  ∀ m signature, Registry.Opens envelope m signature →
    I.verify m.endpointId (domain ++ encodeMessage m) signature = true →
      ∃ call ∈ calls, I.publicKey call.secret = m.endpointId ∧ call.message = m

namespace Fleet

variable [DecidableEq ι]

/-- One member has made a step, and has signed something on its way. -/
def put (f : Fleet ι I) (i : ι) (process : Process I) (signed : List (SignCall I)) : Fleet ι I where
  process := Function.update f.process i process
  calls := signed ++ f.calls

@[simp] theorem process_put_self (f : Fleet ι I) (i : ι) (p : Process I)
    (signed : List (SignCall I)) : (f.put i p signed).process i = p := by
  simp [put]

theorem process_put_of_ne (f : Fleet ι I) {j : ι} (h : j ≠ i) (p : Process I)
    (signed : List (SignCall I)) : (f.put i p signed).process j = f.process j := by
  simp [put, h]

@[simp] theorem calls_put (f : Fleet ι I) (i : ι) (p : Process I) (signed : List (SignCall I)) :
    (f.put i p signed).calls = signed ++ f.calls := rfl

inductive Step (R : Roster ι I) : Fleet ι I → Fleet ι I → Prop
  | starts {f : Fleet ι I} {i : ι} {outbound inbound : Disk} {parent parent' : Option String}
      {readFails readFails' : Bool} {out inn : FileSequenceStore I}
      {d : Daemon I (FileSequenceStore I)} (hdown : f.process i = .down outbound inbound)
      (hout : FileSequenceStore.openFile parent readFails outbound = .ok out)
      (hin : FileSequenceStore.openFile parent' readFails' inbound = .ok inn)
      (hstart : Daemon.start (R.nodeName i) (R.secret i) R.fleetId out inn = .ok d) :
      Step R f (f.put i (.up d) [])
  /-- A daemon makes a step, with any faults on its way. -/
  | acts {f : Fleet ι I} {i : ι} {d d' : Daemon I (FileSequenceStore I)} {taken : Taken I}
      (outbound inbound : List (Option Fault)) (hup : f.process i = .up d)
      (h : (d.plan outbound inbound).Acts taken d')
      (hgenuine : ∀ envelope, taken.envelope? = some envelope → Genuine f.calls envelope) :
      Step R f (f.put i (.up d') ((d.plan outbound inbound).signed taken))
  | dies {f : Fleet ι I} {i : ι} {d : Daemon I (FileSequenceStore I)}
      (hup : f.process i = .up d) :
      Step R f (f.put i (.down d.outbound.disk d.registry.store.disk) [])
  /-- The machine loses what was not durable. -/
  | powerLoss {f : Fleet ι I} {i : ι} {outbound inbound : Disk}
      {survivor survivor' : Option (List UInt8)} (hdown : f.process i = .down outbound inbound)
      (hmem : survivor ∈ outbound.contents) (hmem' : survivor' ∈ inbound.contents) :
      Step R f (f.put i (.down (outbound.lose survivor) (inbound.lose survivor')) [])
  /-- Somebody else signs a message with a key of their own. -/
  | outsider {f : Fleet ι I} (call : SignCall I) {bytes : List UInt8}
      (hresult : call.result = .ok bytes) (hkey : ∀ i, I.publicKey call.secret ≠ R.key i) :
      Step R f { f with calls := call :: f.calls }

abbrev Run (R : Roster ι I) : Fleet ι I → Fleet ι I → Prop := Relation.ReflTransGen (Step R)

/-- A fleet in which nobody has signed anything yet and no daemon runs. Any files may be there. -/
def Initial (f : Fleet ι I) : Prop :=
  f.calls = [] ∧ ∀ i, ∃ outbound inbound, f.process i = .down outbound inbound

def Reachable (R : Roster ι I) (f : Fleet ι I) : Prop := ∃ f₀, f₀.Initial ∧ Run R f₀ f

end Fleet

/-! ## What was signed

The messages signed so far are the only history that the fleet keeps, and the numbers of one
endpoint are read off it. Where they increase, a number belongs to one message
(`message_eq_of_numbers`), which is all that agreement needs.

Records are covered by the same list. A registry takes in nothing but messages of envelopes that it
was given, and as these are genuine, their messages were signed; `SignedBy.run` says so of one call
and `SignedBy.calls` of many. -/

/-- The numbers under which an endpoint has signed, newest first. -/
def numbers (calls : List (SignCall I)) (e : I.EndpointId) : Ledger I.EndpointId :=
  (calls.filter fun call ↦ I.publicKey call.secret = e).map fun call ↦ (e, call.message.sequence)

theorem numbers_append_of_ne {calls new : List (SignCall I)}
    (h : ∀ call ∈ new, I.publicKey call.secret ≠ e) :
    numbers (new ++ calls) e = numbers calls e := by
  have hnone : (new.filter fun call ↦ I.publicKey call.secret = e) = [] :=
    List.filter_eq_nil_iff.mpr fun call hmem ↦ by simpa using h call hmem
  rw [numbers, List.filter_append, hnone, List.nil_append, numbers]

theorem numbers_cons_self (call : SignCall I) (calls : List (SignCall I)) :
    numbers (call :: calls) (I.publicKey call.secret)
      = (I.publicKey call.secret, call.message.sequence)
        :: numbers calls (I.publicKey call.secret) := by
  rw [numbers, List.filter_cons_of_pos (by simp), List.map_cons, numbers]

/-- Where the numbers of an endpoint increase, a number belongs to one message. -/
theorem message_eq_of_numbers {calls : List (SignCall I)} (h : (numbers calls e).Increasing)
    {a b : SignCall I} (ha : a ∈ calls) (hb : b ∈ calls) (hkey : I.publicKey a.secret = e)
    (hkey' : I.publicKey b.secret = e) (hsequence : a.message.sequence = b.message.sequence) :
    a = b := by
  have hfilter : ∀ call ∈ calls, I.publicKey call.secret = e →
      call ∈ calls.filter fun call ↦ I.publicKey call.secret = e := fun call hmem hkey ↦
    List.mem_filter.mpr ⟨hmem, by simpa using hkey⟩
  exact List.inj_on_of_nodup_map h.nodup (hfilter a ha hkey) (hfilter b hb hkey')
    (by rw [hsequence])

namespace Registry

variable {S : Type} [SequenceStore I S]

/-- Every record was signed by its endpoint. -/
def SignedBy (calls : List (SignCall I)) (r : Registry I S) : Prop :=
  ∀ (e : I.EndpointId) (record : ActiveRecord I), r.records[e]? = some record →
    ∃ call ∈ calls, I.publicKey call.secret = e
      ∧ call.message = .announcement record.announcement

omit [SequenceStore I S] in
theorem SignedBy.mono {calls calls' : List (SignCall I)} {r : Registry I S} (h : r.SignedBy calls)
    (hsub : calls ⊆ calls') : r.SignedBy calls' := by
  intro e record hrecord
  obtain ⟨call, hmem, hkey, hmessage⟩ := h e record hrecord
  exact ⟨call, hsub hmem, hkey, hmessage⟩

/-- **The step lemma** for the records. -/
theorem SignedBy.run {calls : List (SignCall I)} {r : Registry I S} {op : Operation I}
    (h : r.SignedBy calls)
    (hgenuine : ∀ envelope now, op = .receive envelope now → Genuine calls envelope) :
    (op.run r).SignedBy calls := by
  intro e record hrecord
  rcases (change_run op r).record hrecord with hold | ⟨envelope, now, hop, hadm, -, he⟩
  · exact h e record hold
  · obtain ⟨signature, henvelope, hverified⟩ := hadm.signed
    obtain ⟨call, hmem, hkey, hmessage⟩ := hgenuine envelope now hop _ signature
      ⟨hadm.length_le, hadm.bounded, henvelope⟩ hverified
    exact ⟨call, hmem, hkey.trans he, hmessage⟩

theorem SignedBy.calls {calls : List (SignCall I)} {allowed : List UInt8 → Prop}
    {r r' : Registry I S} (h : r.SignedBy calls) (hcalls : r.Calls allowed r')
    (hgenuine : ∀ envelope, allowed envelope → Genuine calls envelope) :
    r'.SignedBy calls := by
  induction hcalls with
  | refl => exact h
  | tail _ hop ih =>
    obtain ⟨op, rfl, hallowed⟩ := hop
    exact ih.run fun envelope now heq ↦ hgenuine envelope (hallowed envelope now heq)

end Registry

theorem genuine_of_sign {calls : List (SignCall I)} {a : Announcement I} {secret : I.SecretKey}
    {envelope : List UInt8} (hsign : signAnnouncement a secret = .ok envelope)
    (hmem : ⟨.announcement a, secret⟩ ∈ calls) : Genuine calls envelope := by
  obtain ⟨hvalid, hkey, hbody⟩ := sign_eq_ok_iff.mp hsign
  obtain ⟨rfl, hlength⟩ := signBody_eq_ok_iff.mp hbody
  intro m signature hopens _
  have hbounded : (Message.announcement a).Bounded :=
    bounded_of_validateMessage (m := .announcement a) hvalid
  obtain ⟨rfl, -⟩ := hopens.unique ⟨hlength, hbounded, rfl⟩
  exact ⟨_, hmem, hkey.symm, rfl⟩

/-! ## The invariant

A step of the fleet is a step of one member, and what the others sign makes no difference to what is
known of its process. A step that signs nothing keeps the invariant, since all that it can do to the
outbound store is to use a number up. A step that signs takes the next number, which is above
everything that was in memory or on the disk. A process that is down is known by its files only, and
one that has just started has no records. These are the cases of `Sound.step`, and `Sound.run` is
the induction over them. -/

/-- Neither the memory nor anything a crash may leave of the outbound store is below the numbers. -/
def Process.OutboundAbove (floor : I.EndpointId → UInt64) : Process I → Prop
  | .up d => d.outbound.Above floor
  | .down outbound _ => DiskAbove floor outbound

/-- What is known of the process of a member. -/
structure Process.Sound (R : Roster ι I) (calls : List (SignCall I)) (i : ι) (p : Process I) :
    Prop where
  secret : ∀ d, p = .up d → d.secret = R.secret i
  nodeName : ∀ d, p = .up d → d.nodeName = R.nodeName i
  fleet : ∀ d, p = .up d → d.fleet = R.fleetId
  increasing : (numbers calls (R.key i)).Increasing
  outbound : p.OutboundAbove (numbers calls (R.key i)).last
  records : ∀ d, p = .up d → d.registry.SignedBy calls

theorem Process.Sound.append {R : Roster ι I} {calls new : List (SignCall I)} {p : Process I}
    (h : p.Sound R calls i) (hnew : ∀ call ∈ new, I.publicKey call.secret ≠ R.key i) :
    p.Sound R (new ++ calls) i where
  secret := h.secret
  nodeName := h.nodeName
  fleet := h.fleet
  increasing := by
    rw [numbers_append_of_ne hnew]
    exact h.increasing
  outbound := by
    rw [numbers_append_of_ne hnew]
    exact h.outbound
  records d hup := (h.records d hup).mono (List.subset_append_right new calls)

theorem Process.Sound.plan {R : Roster ι I} {calls : List (SignCall I)}
    {d : Daemon I (FileSequenceStore I)} (h : (Process.up d).Sound R calls i)
    (outbound inbound : List (Option Fault)) :
    (Process.up (d.plan outbound inbound)).Sound R calls i where
  secret := by
    rintro _ ⟨⟩
    exact h.secret d rfl
  nodeName := by
    rintro _ ⟨⟩
    exact h.nodeName d rfl
  fleet := by
    rintro _ ⟨⟩
    exact h.fleet d rfl
  increasing := h.increasing
  outbound := h.outbound.plan outbound
  records := by
    rintro _ ⟨⟩
    exact h.records d rfl

/-- A step that signs nothing keeps what is known of its process. -/
theorem Process.Sound.of_unsigned {R : Roster ι I} {calls : List (SignCall I)}
    {d d' : Daemon I (FileSequenceStore I)} {taken : Taken I} (h : (Process.up d).Sound R calls i)
    (hacts : d.Acts taken d') (hsigns : d.signs taken = none)
    (hgenuine : ∀ envelope, taken.envelope? = some envelope → Genuine calls envelope) :
    (Process.up d').Sound R calls i := by
  obtain ⟨outbound, houtbound, hreads⟩ := hacts.of_unsigned hsigns
  have habove : outbound.Above (numbers calls (R.key i)).last := by
    rcases houtbound with rfl | rfl
    · exact h.outbound
    · exact (FileSequenceStore.Above.of_uses h.increasing h.outbound (uses_reserveNext _ _)).2.2
  refine ⟨?_, ?_, ?_, h.increasing, ?_, ?_⟩
  · rintro _ ⟨⟩
    exact hreads.secret.trans (h.secret d rfl)
  · rintro _ ⟨⟩
    exact hreads.nodeName.trans (h.nodeName d rfl)
  · rintro _ ⟨⟩
    exact hreads.fleet.trans (h.fleet d rfl)
  · rw [Process.OutboundAbove, hreads.outbound]
    exact habove
  · rintro _ ⟨⟩
    exact (h.records d rfl).calls hreads.registry hgenuine

/-- A step that signs uses the next number for it. -/
theorem Process.Sound.of_signs {R : Roster ι I} {calls : List (SignCall I)}
    {d d' : Daemon I (FileSequenceStore I)} {taken : Taken I} {a : Announcement I}
    {envelope : List UInt8} (h : (Process.up d).Sound R calls i) (hacts : d.Acts taken d')
    (hsigns : d.signs taken = some (a, envelope)) :
    (Process.up d').Sound R (⟨.announcement a, d.secret⟩ :: calls) i
      ∧ ∃ draft sequence, a = R.announcement i draft sequence := by
  obtain ⟨draft, sequence, now, outbound, main, rfl, hreserve, hsign, rfl⟩ := hacts.of_signs hsigns
  have hsecret := h.secret d rfl
  have hkey : I.publicKey d.secret = R.key i := by rw [hsecret, Roster.key]
  obtain ⟨-, -, -, -, hadvance⟩ := returns_reserveNext.mp hreserve
  rw [hkey] at hadvance
  have huses : d.outbound.Uses (some (R.key i, sequence)) outbound := hadvance
  obtain ⟨hincreasing, habove, -⟩ :=
    FileSequenceStore.Above.of_uses h.increasing h.outbound huses
  have hnumbers : numbers (⟨.announcement (d.announcement draft sequence), d.secret⟩ :: calls)
      (R.key i) = (numbers calls (R.key i)).record (some (R.key i, sequence)) := by
    rw [← hkey, numbers_cons_self]
    rfl
  refine ⟨⟨?_, ?_, ?_, ?_, ?_, ?_⟩, draft, sequence, ?_⟩
  · rintro _ ⟨⟩
    exact hsecret
  · rintro _ ⟨⟩
    exact h.nodeName d rfl
  · rintro _ ⟨⟩
    exact h.fleet d rfl
  · rw [hnumbers]
    exact hincreasing
  · rw [hnumbers]
    exact habove
  · rintro _ ⟨⟩
    have hmono := (h.records d rfl).mono (List.subset_cons_self
      (⟨.announcement (d.announcement draft sequence), d.secret⟩ : SignCall I) calls)
    refine @Registry.SignedBy.run _ _ _ _ _ (.receive envelope now) hmono ?_
    rintro _ _ ⟨⟩
    exact genuine_of_sign hsign List.mem_cons_self
  · rw [Daemon.announcement, hkey, h.nodeName d rfl, h.fleet d rfl, Roster.announcement]

namespace Fleet

variable [DecidableEq ι] {R : Roster ι I} {f f' : Fleet ι I}

/-- What holds in every state of a fleet. -/
structure Sound (R : Roster ι I) (f : Fleet ι I) : Prop where
  /-- What a member has signed are its announcements. -/
  published : ∀ call ∈ f.calls, ∀ i, I.publicKey call.secret = R.key i →
    call.secret = R.secret i
      ∧ ∃ draft sequence, call.message = .announcement (R.announcement i draft sequence)
  process : ∀ i, (f.process i).Sound R f.calls i

theorem Sound.put {p : Process I} {new : List (SignCall I)} (h : f.Sound R)
    (hnew : ∀ call ∈ new, call.secret = R.secret i
      ∧ ∃ draft sequence, call.message = .announcement (R.announcement i draft sequence))
    (hp : p.Sound R (new ++ f.calls) i) :
    (f.put i p new).Sound R where
  published := by
    intro call hmem j hkey
    rcases List.mem_append.mp hmem with hmem | hmem
    · obtain ⟨hsecret, hmessage⟩ := hnew call hmem
      rw [hsecret] at hkey
      obtain rfl : i = j := R.distinct hkey
      exact ⟨hsecret, hmessage⟩
    · exact h.published call hmem j hkey
  process j := by
    by_cases hij : j = i
    · subst hij
      rw [process_put_self]
      exact hp
    · rw [process_put_of_ne f hij]
      refine (h.process j).append fun call hmem hkey ↦ hij (R.distinct ?_)
      rw [(hnew call hmem).1] at hkey
      exact hkey.symm

theorem Sound.put_of_nil {p : Process I} (h : f.Sound R) (hp : p.Sound R f.calls i) :
    (f.put i p []).Sound R :=
  h.put (by simp) hp

omit [DecidableEq ι] in
theorem sound_down {calls : List (SignCall I)} {outbound inbound : Disk}
    (hincreasing : (numbers calls (R.key i)).Increasing)
    (h : DiskAbove (numbers calls (R.key i)).last outbound) :
    (Process.down outbound inbound).Sound R calls i :=
  ⟨by simp, by simp, by simp, hincreasing, h, by simp⟩

omit [DecidableEq ι] in
theorem sound_start {calls : List (SignCall I)} {out inn : FileSequenceStore I}
    {d : Daemon I (FileSequenceStore I)} (hincreasing : (numbers calls (R.key i)).Increasing)
    (h : out.Above (numbers calls (R.key i)).last)
    (hstart : Daemon.start (R.nodeName i) (R.secret i) R.fleetId out inn = .ok d) :
    (Process.up d).Sound R calls i := by
  obtain ⟨authorization, -, rfl⟩ := Daemon.start_eq hstart
  refine ⟨?_, ?_, ?_, hincreasing, h, ?_⟩
  · rintro _ ⟨⟩
    rfl
  · rintro _ ⟨⟩
    rfl
  · rintro _ ⟨⟩
    rfl
  · rintro _ ⟨⟩ e record hrecord
    simp [Registry.new, Registry.withEnrollmentPolicy] at hrecord

/-- **The step lemma.** -/
theorem Sound.step (h : f.Sound R) (hstep : Step R f f') : f'.Sound R := by
  cases hstep with
  | @starts i outbound inbound _ _ _ _ out inn d hdown hout hin hstart =>
    have hprocess := h.process i
    rw [hdown] at hprocess
    exact h.put_of_nil (sound_start hprocess.increasing
      (FileSequenceStore.above_of_openFile hprocess.outbound hout) hstart)
  | @acts i d d' taken outbound inbound hup hacts hgenuine =>
    have hprocess := h.process i
    rw [hup] at hprocess
    have hplan := hprocess.plan outbound inbound
    cases hsigns : (d.plan outbound inbound).signs taken with
    | none =>
      rw [Daemon.signed, hsigns]
      exact h.put_of_nil (hplan.of_unsigned hacts hsigns hgenuine)
    | some signing =>
      obtain ⟨a, envelope⟩ := signing
      rw [Daemon.signed, hsigns]
      obtain ⟨hsound, draft, sequence, rfl⟩ := hplan.of_signs hacts hsigns
      refine h.put (List.forall_mem_singleton.mpr ⟨hprocess.secret d rfl, draft, sequence, rfl⟩) ?_
      exact hsound
  | @dies i d hup =>
    have hprocess := h.process i
    rw [hup] at hprocess
    exact h.put_of_nil (sound_down hprocess.increasing hprocess.outbound.disk)
  | @powerLoss i outbound inbound survivor survivor' hdown hmem hmem' =>
    have hprocess := h.process i
    rw [hdown] at hprocess
    refine h.put_of_nil (sound_down hprocess.increasing fun contents hcontents ↦ ?_)
    rw [Disk.contents, Disk.lose, List.mem_singleton] at hcontents
    exact hcontents ▸ hprocess.outbound _ hmem
  | outsider call hresult hkey =>
    refine ⟨fun call' hmem i hkey' ↦ ?_, fun i ↦ ?_⟩
    · rcases List.mem_cons.mp hmem with rfl | hmem
      · exact absurd hkey' (hkey i)
      · exact h.published call' hmem i hkey'
    · exact (h.process i).append (List.forall_mem_singleton.mpr (hkey i))

omit [DecidableEq ι] in
theorem Initial.sound (h : f.Initial) : f.Sound R where
  published := by simp [h.1]
  process i := by
    obtain ⟨outbound, inbound, hdown⟩ := h.2 i
    rw [hdown, h.1]
    exact sound_down List.Pairwise.nil fun contents _ sequences _ e ↦ UInt64.zero_le

/-- **The run lemma.** -/
theorem Sound.run (h : f.Sound R) (hrun : Run R f f') : f'.Sound R := by
  induction hrun with
  | refl => exact h
  | tail _ hstep ih => exact ih.step hstep

theorem Reachable.sound (h : f.Reachable R) : f.Sound R := by
  obtain ⟨f₀, hinitial, hrun⟩ := h
  exact hinitial.sound.run hrun

theorem Run.calls_subset (hrun : Run R f f') : f.calls ⊆ f'.calls := by
  induction hrun with
  | refl => exact List.Subset.refl _
  | tail _ hstep ih =>
    refine List.Subset.trans ih ?_
    cases hstep with
    | starts | dies | powerLoss => exact List.Subset.refl _
    | acts => exact List.subset_append_right _ _
    | outsider => exact List.subset_cons_self _ _

omit [DecidableEq ι] in
/-- A record of a member is an announcement of the member. -/
theorem Sound.record (h : f.Sound R) {k : ι} {d : Daemon I (FileSequenceStore I)}
    (hup : f.process i = .up d) {record : ActiveRecord I}
    (hrecord : d.registry.records[R.key k]? = some record) :
    ⟨.announcement record.announcement, R.secret k⟩ ∈ f.calls
      ∧ ∃ draft sequence, record.announcement = R.announcement k draft sequence := by
  obtain ⟨call, hmem, hkey, hmessage⟩ := (h.process i).records d hup _ record hrecord
  obtain ⟨hsecret, draft, sequence, hpublished⟩ := h.published call hmem k hkey
  refine ⟨?_, draft, sequence, ?_⟩
  · rw [← hmessage, ← hsecret]
    exact hmem
  · rw [hmessage] at hpublished
    exact Message.announcement.inj hpublished

/-- **Daemons agree on what a member has announced.** Whatever the network delivers and however
often processes and machines fail, a record of a member at any daemon is an announcement that the
member has signed in a `publish` of its own, and two records of the member under one number, at any
two daemons and times, are the same announcement. -/
theorem fleet_agrees (h : f.Reachable R) (hrun : Run R f f') {i j k : ι}
    {d d' : Daemon I (FileSequenceStore I)} (hi : f.process i = .up d)
    (hj : f'.process j = .up d') {record record' : ActiveRecord I}
    (hrecord : d.registry.records[R.key k]? = some record)
    (hrecord' : d'.registry.records[R.key k]? = some record') :
    (⟨.announcement record.announcement, R.secret k⟩ ∈ f.calls
        ∧ ∃ draft sequence, record.announcement = R.announcement k draft sequence)
      ∧ (record.announcement.sequence = record'.announcement.sequence →
        record.announcement = record'.announcement) := by
  have hsound' := h.sound.run hrun
  have hpublished := h.sound.record hi hrecord
  have hpublished' := hsound'.record hj hrecord'
  refine ⟨hpublished, fun hsequence ↦ ?_⟩
  have hcall := message_eq_of_numbers (hsound'.process k).increasing
    (hrun.calls_subset hpublished.1) hpublished'.1 rfl rfl hsequence
  exact Message.announcement.inj (congrArg SignCall.message hcall)

end Fleet

/-! ## No rollback

The same in terms of one daemon. `Registry.NotBelow` bounds the watermarks, in memory and on the
disk, and the records from below by some numbers, and no call of the interface takes a registry out
of it (`NotBelow.run`). With the numbers that a registry has records of, it holds at the moment at
which they are held; the lemmas `Step.inboundAbove` and `Run.inboundAbove` then carry it along the
runs of the fleet, through kills and restarts. -/

/-- The sequence of the record of each endpoint, zero where there is none. -/
def Registry.sequences (r : Registry I (FileSequenceStore I)) (e : I.EndpointId) : UInt64 :=
  (r.records[e]?.map fun record ↦ record.announcement.sequence).getD 0

/-- Neither the watermarks, in memory and on the disk, nor the records are below the numbers. -/
structure Registry.NotBelow (floor : I.EndpointId → UInt64) (r : Registry I (FileSequenceStore I)) :
    Prop where
  store : r.store.Above floor
  records : ∀ (e : I.EndpointId) (record : ActiveRecord I), r.records[e]? = some record →
    floor e ≤ record.announcement.sequence

namespace Registry

variable {r r' : Registry I (FileSequenceStore I)} {floor : I.EndpointId → UInt64}

theorem sequences_of_record {record : ActiveRecord I} (h : r.records[e]? = some record) :
    r.sequences e = record.announcement.sequence := by
  rw [sequences, h, Option.map_some, Option.getD_some]

theorem sequences_of_none (h : r.records[e]? = none) : r.sequences e = 0 := by
  rw [sequences, h, Option.map_none, Option.getD_none]

theorem sequences_le_of_records {n : UInt64}
    (h : ∀ record, r.records[e]? = some record → record.announcement.sequence ≤ n) :
    r.sequences e ≤ n := by
  cases hrecord : r.records[e]? with
  | none =>
    rw [sequences_of_none hrecord]
    exact UInt64.zero_le
  | some record =>
    rw [sequences_of_record hrecord]
    exact h record hrecord

theorem above_of_uses {s s' : FileSequenceStore I} {used : Option (I.EndpointId × UInt64)}
    (h : s.Above floor) (huses : s.Uses used s') : s'.Above floor := by
  cases used with
  | none =>
    rcases huses with rfl | ⟨e, n, err, hfails⟩
    · exact h
    · exact h.of_fails hfails
  | some entry =>
    obtain ⟨hlt, habove⟩ := h.of_returns huses
    refine habove.mono fun e ↦ ?_
    split
    · next he => exact he ▸ UInt64.le_of_lt hlt
    · exact UInt64.le_refl _

/-- **The step lemma**: a registry never falls below what it has once held. -/
theorem NotBelow.run (h : r.NotBelow floor) (op : Operation I) : (op.run r).NotBelow floor where
  store := above_of_uses h.store (uses_run op r)
  records e record hrecord := by
    rcases (change_run op r).record hrecord with hold | ⟨envelope, now, -, hadm, -, rfl⟩
    · exact h.records e record hold
    · obtain ⟨stored, hload, hlt⟩ := hadm.fresh
      obtain rfl := Except.ok.inj hload
      exact UInt64.le_trans (h.store.memory _) (UInt64.le_of_lt hlt)

/-- What a registry has a record of is durable. -/
theorem above_sequences_run (h : r.store.Above r.sequences) (op : Operation I) :
    (op.run r).store.Above (op.run r).sequences := by
  have hkept : ∀ (e : I.EndpointId) (record : ActiveRecord I), r.records[e]? = some record →
      record.announcement.sequence ≤ r.sequences e := fun e record hrecord ↦ by
    rw [sequences_of_record hrecord]
    exact UInt64.le_refl _
  have hchange := change_run op r
  generalize op.run r = r' at hchange ⊢
  cases hchange with
  | unchanged | authorized => exact h
  | expired op now =>
    refine h.mono fun e ↦ sequences_le_of_records fun record hrecord ↦ ?_
    exact hkept e record (getElem?_expire.mp hrecord).1
  | revoked e' =>
    refine h.mono fun e ↦ sequences_le_of_records fun record hrecord ↦ ?_
    rw [revoke, getElem?_erase_eq] at hrecord
    split at hrecord
    · cases hrecord
    · exact hkept e record hrecord
  | rejected hretained =>
    have hsame : r'.sequences = r.sequences := by
      funext e
      rw [sequences, hretained.records, sequences]
    rw [hsame]
    rcases hretained.store with heq | ⟨n, err, hfails⟩
    · rw [heq]
      exact h
    · exact h.of_fails hfails
  | @accepted envelope now m _ hadm haccepted =>
    refine (h.of_returns haccepted.store).2.mono fun e ↦
      sequences_le_of_records fun record hrecord ↦ ?_
    rw [haccepted.records, getElem?_updateRecords] at hrecord
    split at hrecord
    · next he =>
      rw [if_pos he]
      cases m with
      | announcement a =>
        obtain rfl := Option.some.inj hrecord
        exact UInt64.le_refl _
      | withdrawal w => cases hrecord
    · next he =>
      rw [if_neg he]
      exact hkept e record hrecord

theorem of_runs {P : Registry I (FileSequenceStore I) → Prop}
    (hrun : ∀ r (op : Operation I), P r → P (op.run r))
    (h : Relation.ReflTransGen (fun r r' ↦ ∃ op : Operation I, r' = op.run r) r r') (hr : P r) :
    P r' := by
  induction h with
  | refl => exact hr
  | tail _ hop ih =>
    obtain ⟨op, rfl⟩ := hop
    exact hrun _ op ih

end Registry

/-- What is known of the inbound store and the records of a process. -/
def Process.InboundAbove (floor : I.EndpointId → UInt64) : Process I → Prop
  | .up d => d.registry.NotBelow floor
  | .down _ inbound => DiskAbove floor inbound

/-- A running daemon's records are durable. -/
def Process.Durable (p : Process I) : Prop :=
  ∀ d, p = .up d → d.registry.store.Above d.registry.sequences

theorem Daemon.Acts.registry {d d' : Daemon I (FileSequenceStore I)} {taken : Taken I}
    (h : d.Acts taken d') : Relation.ReflTransGen (fun r r' ↦ ∃ op : Operation I, r' = op.run r)
      d.registry d'.registry := by
  obtain ⟨labels, hstep⟩ := h.step
  exact hstep.registry

namespace Fleet

variable [DecidableEq ι] {R : Roster ι I} {f f' : Fleet ι I}

/-- A property of the process of one member holds after a step if the step of that member keeps it.
-/
theorem Step.process {P : Process I → Prop} (hstep : Step R f f') (h : P (f.process i))
    (hstarts : ∀ outbound inbound parent parent' readFails readFails' out inn d,
      P (.down outbound inbound) → FileSequenceStore.openFile parent readFails outbound = .ok out →
      FileSequenceStore.openFile parent' readFails' inbound = .ok inn →
      Daemon.start (R.nodeName i) (R.secret i) R.fleetId out inn = .ok d → P (.up d))
    (hacts : ∀ d outbound inbound taken d', P (.up d) → (d.plan outbound inbound).Acts taken d' →
      P (.up d')) (hdies : ∀ d, P (.up d) → P (.down d.outbound.disk d.registry.store.disk))
    (hloses : ∀ outbound inbound survivor survivor', P (.down outbound inbound) →
      survivor ∈ outbound.contents → survivor' ∈ inbound.contents →
      P (.down (outbound.lose survivor) (inbound.lose survivor'))) : P (f'.process i) := by
  have hother : ∀ j p signed, (j = i → P p) → P ((f.put j p signed).process i) := by
    intro j p signed hp
    by_cases hij : i = j
    · subst hij
      rw [process_put_self]
      exact hp rfl
    · rw [process_put_of_ne f hij]
      exact h
  cases hstep with
  | starts hdown hout hin hstart =>
    refine hother _ _ _ ?_
    rintro rfl
    rw [hdown] at h
    exact hstarts _ _ _ _ _ _ _ _ _ h hout hin hstart
  | acts outbound inbound hup h' =>
    refine hother _ _ _ ?_
    rintro rfl
    rw [hup] at h
    exact hacts _ _ _ _ _ h h'
  | dies hup =>
    refine hother _ _ _ ?_
    rintro rfl
    rw [hup] at h
    exact hdies _ h
  | powerLoss hdown hmem hmem' =>
    refine hother _ _ _ ?_
    rintro rfl
    rw [hdown] at h
    exact hloses _ _ _ _ h hmem hmem'
  | outsider => exact h

/-- **The step lemma** for the watermarks. -/
theorem Step.inboundAbove {floor : I.EndpointId → UInt64} (hstep : Step R f f')
    (h : (f.process i).InboundAbove floor) : (f'.process i).InboundAbove floor := by
  refine hstep.process h ?_ ?_ ?_ ?_
  · rintro _ _ _ _ _ _ _ _ d hdisk - hin hstart
    obtain ⟨authorization, -, rfl⟩ := Daemon.start_eq hstart
    refine ⟨FileSequenceStore.above_of_openFile hdisk hin, fun e record hrecord ↦ ?_⟩
    simp [Registry.new, Registry.withEnrollmentPolicy] at hrecord
  · intro d outbound inbound taken d' hd hacts
    have hplan : (d.plan outbound inbound).registry.NotBelow floor :=
      ⟨hd.store.plan inbound, hd.records⟩
    exact Registry.of_runs (fun _ op h ↦ Registry.NotBelow.run h op) hacts.registry hplan
  · exact fun d hd ↦ hd.store.disk
  · intro outbound inbound survivor survivor' hdisk _ hmem contents hcontents
    rw [Disk.contents, Disk.lose, List.mem_singleton] at hcontents
    exact hcontents ▸ hdisk _ hmem

/-- **The run lemma** for the watermarks. -/
theorem Run.inboundAbove {floor : I.EndpointId → UInt64} (hrun : Run R f f')
    (h : (f.process i).InboundAbove floor) : (f'.process i).InboundAbove floor := by
  induction hrun with
  | refl => exact h
  | tail _ hstep ih => exact hstep.inboundAbove ih

theorem Step.durable (hstep : Step R f f') (h : (f.process i).Durable) :
    (f'.process i).Durable := by
  refine hstep.process h ?_ ?_ (by simp [Process.Durable]) (by simp [Process.Durable])
  · rintro _ _ _ _ _ _ _ inn d - - - hstart _ ⟨⟩
    obtain ⟨authorization, -, rfl⟩ := Daemon.start_eq hstart
    have hzero : ∀ e, Registry.sequences ((Registry.new R.fleetId authorization
        inn).withEnrollmentPolicy .signedFleet) e = 0 := fun e ↦
      Registry.sequences_of_none (by simp [Registry.new, Registry.withEnrollmentPolicy])
    exact ⟨fun e ↦ hzero e ▸ UInt64.zero_le, fun _ _ _ _ e ↦ hzero e ▸ UInt64.zero_le⟩
  · rintro d outbound inbound taken d' hd hacts _ ⟨⟩
    have hplan : (d.plan outbound inbound).registry.store.Above
        (d.plan outbound inbound).registry.sequences := (hd d rfl).plan inbound
    exact Registry.of_runs (P := fun r ↦ r.store.Above r.sequences)
      (fun _ op h ↦ Registry.above_sequences_run h op) hacts.registry hplan

theorem Reachable.durable (h : f.Reachable R) (i : ι) : (f.process i).Durable := by
  obtain ⟨f₀, hinitial, hrun⟩ := h
  induction hrun with
  | refl =>
    obtain ⟨outbound, inbound, hdown⟩ := hinitial.2 i
    rw [hdown]
    simp [Process.Durable]
  | tail _ hstep ih => exact hstep.durable ih

/-- **A daemon never goes back.** Once a daemon has held an announcement of an endpoint, it never
again holds an older one, and refuses every message that is not newer, whatever was delivered in
between and however often it was killed, lost what was not durable, and was started again. -/
theorem fleet_never_rolls_back (h : f.Reachable R) (hrun : Run R f f') {i : ι} {e : I.EndpointId}
    {d d' : Daemon I (FileSequenceStore I)} (hi : f.process i = .up d)
    (hi' : f'.process i = .up d') {record : ActiveRecord I}
    (hrecord : d.registry.records[e]? = some record) :
    (∀ record', d'.registry.records[e]? = some record' →
        record.announcement.sequence ≤ record'.announcement.sequence)
      ∧ ∀ envelope m signature, Registry.Opens envelope m signature → m.endpointId = e →
        m.sequence ≤ record.announcement.sequence →
          ∀ now r', ¬(Registry.receive envelope now).Returns d'.registry () r' := by
  have hsequence := Registry.sequences_of_record hrecord
  have hstart : (f.process i).InboundAbove d.registry.sequences := by
    rw [hi]
    refine ⟨h.durable i d hi, fun e record hrecord ↦ ?_⟩
    rw [Registry.sequences_of_record hrecord]
    exact UInt64.le_refl _
  have hend := hrun.inboundAbove hstart
  rw [hi'] at hend
  refine ⟨fun record' hrecord' ↦ hsequence ▸ hend.records e record' hrecord', ?_⟩
  rintro envelope m signature hopens rfl hle now r' hreturns
  obtain ⟨m', hadm, -⟩ := Registry.returns_receive_iff.mp hreturns
  obtain ⟨signature', henvelope, -⟩ := hadm.signed
  obtain ⟨rfl, -⟩ := hopens.unique ⟨hadm.length_le, hadm.bounded, henvelope⟩
  obtain ⟨stored, hload, hlt⟩ := hadm.fresh
  obtain rfl := Except.ok.inj hload
  have hnewer := UInt64.lt_of_le_of_lt (hend.store.memory _) hlt
  rw [hsequence] at hnewer
  exact UInt64.lt_irrefl _ (UInt64.lt_of_le_of_lt hle hnewer)

/-! ### Two members

In the world of two keys, `a@b` publishes, and its envelope is given to `c@d` by hand. -/

def pairRoster : Roster Bool Iroh.pair where
  fleetId := Registry.sample.fleetId
  secret := id
  nodeName i := if i then Registry.sample.nodeName else Daemon.homeNode
  distinct _ _ h := h

theorem pairTable_fits (i : Bool) :
    ((∅ : ExtTreeMap Iroh.pair.EndpointId Text).insertMany [(i, pairRoster.nodeName i)]).size
        ≤ maxAuthorized
      ∧ (((∅ : ExtTreeMap Iroh.pair.EndpointId Text).insertMany
        [(i, pairRoster.nodeName i)]).toList.all fun entry ↦ validNodeName entry.2) = true := by
  cases i <;> decide +kernel

def pairTable (i : Bool) : AuthorizationTable Iroh.pair where
  entries := (∅ : ExtTreeMap Iroh.pair.EndpointId Text).insertMany [(i, pairRoster.nodeName i)]
  size_le := (pairTable_fits i).1
  valid e name he := List.all_eq_true.mp (pairTable_fits i).2 (e, name)
    (ExtTreeMap.mem_toList_iff_getElem?_eq_some.mpr he)

/-- A member that has just started on two files. -/
def pairDaemonOn (i : Bool) (outbound inbound : FileSequenceStore Iroh.pair) :
    Daemon Iroh.pair (FileSequenceStore Iroh.pair) where
  nodeName := pairRoster.nodeName i
  secret := i
  fleet := pairRoster.fleetId
  outbound := outbound
  registry :=
    (Registry.new pairRoster.fleetId (pairTable i) inbound).withEnrollmentPolicy .signedFleet
  network := none
  main := .selecting
  events := .empty
  streams := []

/-- A member that has just started on a disk without files. -/
def pairDaemon (i : Bool) : Daemon Iroh.pair (FileSequenceStore Iroh.pair) :=
  pairDaemonOn i ⟨some "d", ∅, Disk.blank⟩ ⟨some "d", ∅, Disk.blank⟩

theorem start_pairDaemonOn (i : Bool) (outbound inbound : FileSequenceStore Iroh.pair) :
    Daemon.start (pairRoster.nodeName i) (pairRoster.secret i) pairRoster.fleetId outbound inbound
      = .ok (pairDaemonOn i outbound inbound) := by
  have htable : AuthorizationTable.new
      [(Iroh.pair.publicKey (pairRoster.secret i), pairRoster.nodeName i)] = .ok (pairTable i) := by
    rw [AuthorizationTable.new]
    exact dif_pos (pairTable_fits i)
  unfold Daemon.start
  rw [htable]
  rfl

/-- After `a@b` has published, and `c@d` has taken its announcement in. -/
def pairPublished : Daemon Iroh.pair (FileSequenceStore Iroh.pair) :=
  (pairDaemon true).afterCommand (.publish (.ok sampleDraft)) 0

def pairIngested : Daemon Iroh.pair (FileSequenceStore Iroh.pair) :=
  (pairDaemon false).afterCommand
    (.ingest (some Daemon.hello) (some true) Registry.sample.nodeName) 0

theorem signs_pairDaemon : (pairDaemon true).signs (.command (.publish (.ok sampleDraft)))
    = some (Registry.twin true, Daemon.hello) := by
  have hreserve : (reserveNext (I := Iroh.pair) true).Returns (pairDaemon true).outbound 1
      ((reserveNext (I := Iroh.pair) true).after (pairDaemon true).outbound) :=
    Method.returns_after (by decide +kernel)
  refine Daemon.signs_eq_some_iff.mpr ⟨sampleDraft, 1, _, rfl, rfl, hreserve, ?_⟩
  exact sign_eq_ok_iff.mpr ⟨by decide, rfl, signBody_eq_ok_iff.mpr ⟨rfl, by decide +kernel⟩⟩

theorem sequence_pairPublished : (pairPublished.registry.records[pairRoster.key true]?.map
    fun record ↦ record.announcement.sequence) = some 1 := by
  decide +kernel

theorem sequence_pairIngested : (pairIngested.registry.records[pairRoster.key true]?.map
    fun record ↦ record.announcement.sequence) = some 1 := by
  decide +kernel

theorem openFile_pair :
    FileSequenceStore.openFile (some "d") false Disk.blank
      = .ok (⟨some "d", ∅, Disk.blank⟩ : FileSequenceStore Iroh.pair) := rfl

/-- The fleet without any file, and with both daemons running. -/
def pairBlank : Fleet Bool Iroh.pair := ⟨fun _ ↦ .down Disk.blank Disk.blank, []⟩

def pairStarted : Fleet Bool Iroh.pair :=
  (pairBlank.put false (.up (pairDaemon false)) []).put true (.up (pairDaemon true)) []

/-- The fleet in which `a@b` has published. -/
def pairFirst : Fleet Bool Iroh.pair :=
  pairStarted.put true (.up pairPublished) [⟨.announcement (Registry.twin true), true⟩]

/-- The fleet in which `c@d` knows of it. -/
def pairSecond : Fleet Bool Iroh.pair := pairFirst.put false (.up pairIngested) []

theorem reachable_pairFirst : pairFirst.Reachable pairRoster := by
  refine ⟨pairBlank, ⟨rfl, fun _ ↦ ⟨_, _, rfl⟩⟩, ?_⟩
  have hstart : Run pairRoster pairBlank pairStarted :=
    (Relation.ReflTransGen.single
      (.starts rfl openFile_pair openFile_pair (start_pairDaemonOn false _ _))).tail
      (.starts rfl openFile_pair openFile_pair (start_pairDaemonOn true _ _))
  have hsigned : ((pairDaemon true).plan [] []).signed (.command (.publish (.ok sampleDraft)))
      = [⟨.announcement (Registry.twin true), true⟩] := by
    rw [Daemon.signed, show (pairDaemon true).plan [] [] = pairDaemon true from rfl,
      signs_pairDaemon]
    rfl
  have hpublish := Step.acts (R := pairRoster) (f := pairStarted) (i := true) [] [] rfl
    (.command (.publish (.ok sampleDraft)) 0 rfl) (by simp [Taken.envelope?])
  rw [hsigned] at hpublish
  exact hstart.tail hpublish

theorem run_pairSecond : Run pairRoster pairFirst pairSecond := by
  obtain ⟨draft, sequence, outbound, -, -, -, hsign⟩ := Daemon.signs_eq_some_iff.mp signs_pairDaemon
  have hgenuine : Genuine pairFirst.calls Daemon.hello := genuine_of_sign hsign List.mem_cons_self
  have hingest := Step.acts (R := pairRoster) (f := pairFirst) (i := false) (d := pairDaemon false)
    [] [] rfl (.command (.ingest (some Daemon.hello) (some true) Registry.sample.nodeName) 0 rfl)
    fun envelope henvelope ↦ Option.some.inj henvelope ▸ hgenuine
  exact .single hingest

theorem fleet_agrees_sample :
    ∃ record record', pairPublished.registry.records[pairRoster.key true]? = some record
      ∧ pairIngested.registry.records[pairRoster.key true]? = some record'
      ∧ record.announcement = record'.announcement := by
  obtain ⟨record, hrecord, hsequence⟩ := Option.map_eq_some_iff.mp sequence_pairPublished
  obtain ⟨record', hrecord', hsequence'⟩ := Option.map_eq_some_iff.mp sequence_pairIngested
  have hagrees := fleet_agrees reachable_pairFirst run_pairSecond (i := true) (j := false)
    (k := true) rfl rfl hrecord hrecord'
  exact ⟨record, record', hrecord, hrecord', hagrees.2 (hsequence.trans hsequence'.symm)⟩

theorem exists_openFile_pairIngested :
    (∃ out : FileSequenceStore Iroh.pair, FileSequenceStore.openFile (some "d") false
        (pairIngested.outbound.disk.lose pairIngested.outbound.disk.file) = .ok out)
      ∧ ∃ inn : FileSequenceStore Iroh.pair, FileSequenceStore.openFile (some "d") false
        (pairIngested.registry.store.disk.lose pairIngested.registry.store.disk.file)
          = .ok inn := by
  have hread : ∀ store : Except Error (FileSequenceStore Iroh.pair), store.isOk = true →
      ∃ opened, store = .ok opened := by
    intro store hok
    cases store with
    | ok opened => exact ⟨opened, rfl⟩
    | error error => cases hok
  exact ⟨hread _ (by decide +kernel), hread _ (by decide +kernel)⟩

/-- `c@d` is killed, its machine loses what was not durable, and it starts again on what is left. -/
theorem run_restarted :
    ∃ f out inn, Run pairRoster pairSecond f
      ∧ f.process false = .up (pairDaemonOn false out inn) := by
  obtain ⟨⟨out, hout⟩, inn, hinn⟩ := exists_openFile_pairIngested
  have hdead : Run pairRoster pairSecond _ := .single (.dies (i := false) (d := pairIngested) rfl)
  have hlost := hdead.tail (.powerLoss (i := false) rfl List.mem_cons_self List.mem_cons_self)
  exact ⟨_, out, inn, hlost.tail (.starts rfl hout hinn (start_pairDaemonOn false out inn)), rfl⟩

theorem fleet_never_rolls_back_sample :
    ∃ record f out inn, pairIngested.registry.records[pairRoster.key true]? = some record
      ∧ Run pairRoster pairSecond f ∧ f.process false = .up (pairDaemonOn false out inn)
      ∧ ∀ now r', ¬(Registry.receive Daemon.hello now).Returns
        (pairDaemonOn false out inn).registry () r' := by
  obtain ⟨record, hrecord, hsequence⟩ := Option.map_eq_some_iff.mp sequence_pairIngested
  obtain ⟨f, out, inn, hrun, hf⟩ := run_restarted
  obtain ⟨f₀, hinitial, hfirst⟩ := reachable_pairFirst
  have hforward := fleet_never_rolls_back ⟨f₀, hinitial, hfirst.trans run_pairSecond⟩ hrun
    (i := false) rfl hf hrecord
  have hopens : Registry.Opens Daemon.hello (.announcement (Registry.twin true)) () :=
    ⟨by decide +kernel, ⟨by decide, by simp [Registry.twin, Registry.sample]⟩, rfl⟩
  refine ⟨record, f, out, inn, hrecord, hrun, hf, hforward.2 _ _ _ hopens rfl ?_⟩
  rw [hsequence]
  decide

end Fleet

end NervesP2P
