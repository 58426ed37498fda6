import Chatterbox.Run
import Chatterbox.Typing.Store

/-!
# Arming and publishing are two steps

`typing_started` and `typing_stopped` first change the typing state, in one
transaction, and then publish their event; `_sweep_typing` claims what has
expired, in one script, and then publishes the claimed events one by one.  Calls
of one user from several sockets, calls on other instances and sweeps interleave
between these steps.

So a start may be published late.  Its entry may have been removed by a stop, or
claimed by a sweep, whose event has been published already: the recipients see
the user typing, and nothing is armed that would tell them otherwise.
`Answered` is the condition that this does not happen, `typing_not_stuck` the
result under it, and `Stuck.step` says that the bad state stays.

Redis does not fail here, so `available` is true and every command is performed.
-/

namespace Chatterbox.Typing

/-- `TypingEventData`. -/
structure TypingEventData where
  conversationId : UUID
  userId : UUID
deriving DecidableEq, Repr

/-- The member of the sorted set that an event is about. -/
def TypingEventData.member (data : TypingEventData) : Member :=
  typingMember data.conversationId data.userId

/-- `TypingStartedEvent` (`typing.start`) and `TypingStoppedEvent` (`typing.stop`). -/
inductive TypingEvent where
  | started (data : TypingEventData)
  | stopped (data : TypingEventData)
deriving DecidableEq, Repr

def TypingEvent.data : TypingEvent → TypingEventData
  | .started data => data
  | .stopped data => data

/-- What is published, and what the hash keeps until the deadline. -/
structure Envelope where
  targets : List UUID
  event : TypingEvent
deriving DecidableEq, Repr

namespace Indicator

/-- The state of Redis, the events it has been given to publish, the last one
first, and what is under way: the event a call has still to publish, and those a
sweep has. -/
structure State where
  store : Store Envelope
  published : List Envelope
  calls : ℕ → Option Envelope
  sweeps : ℕ → List Envelope

def State.initial : State := ⟨.empty, [], fun _ ↦ none, fun _ ↦ []⟩

/-- A step of a call or of a sweep. -/
inductive Action where
  /-- The pipeline of `typing_started`, with the time its instance reads. -/
  | start (k : ℕ) (now : Instant) (data : TypingEventData) (targets : List UUID)
  /-- The pipeline of `typing_stopped`. -/
  | stop (k : ℕ) (data : TypingEventData) (targets : List UUID)
  /-- The `publish_users` at the end of either. -/
  | publish (k : ℕ)
  /-- `TYPING_SWEEP_SCRIPT`. -/
  | sweep (p : ℕ) (now : Instant)
  /-- The `publish_users` for the next of the events a sweep has claimed. -/
  | publishExpired (p : ℕ)
deriving DecidableEq, Repr

/-- One step. -/
def step (ttl : Instant) (s : State) : Action → Option State
  | .start k now data targets =>
      match s.calls k with
      | none =>
          some { s with
            store := startPipeline ttl now data.member ⟨targets, .stopped data⟩ s.store
            calls := Function.update s.calls k (some ⟨targets, .started data⟩) }
      | some _ => none
  | .stop k data targets =>
      match s.calls k with
      | none =>
          some { s with
            store := stopPipeline data.member s.store
            calls := Function.update s.calls k (some ⟨targets, .stopped data⟩) }
      | some _ => none
  | .publish k =>
      match s.calls k with
      | some envelope =>
          some { s with
            published := envelope :: s.published
            calls := Function.update s.calls k none }
      | none => none
  | .sweep p now =>
      match s.sweeps p with
      | [] =>
          some { s with
            store := (sweepScript now s.store).2
            sweeps := Function.update s.sweeps p (sweepScript now s.store).1 }
      | _ :: _ => none
  | .publishExpired p =>
      match s.sweeps p with
      | envelope :: rest =>
          some { s with
            published := envelope :: s.published
            sweeps := Function.update s.sweeps p rest }
      | [] => none

/-- The last event published about a user in a conversation. -/
def State.lastEvent (s : State) (data : TypingEventData) : Option TypingEvent :=
  (s.published.find? fun envelope ↦ envelope.event.data = data).map Envelope.event

/-- No call and no sweep is under way. -/
def State.Quiet (s : State) : Prop := (∀ k, s.calls k = none) ∧ ∀ p, s.sweeps p = []

/-- The expiry is armed, with the event that will end the indicator. -/
def State.Armed (s : State) (data : TypingEventData) : Prop :=
  ∃ deadline targets, s.store.entry data.member = some (deadline, ⟨targets, .stopped data⟩)

/-- One of the calls or sweeps has still to publish that the user has stopped. -/
def StopsIn (calls : ℕ → Option Envelope) (sweeps : ℕ → List Envelope)
    (data : TypingEventData) : Prop :=
  (∃ k targets, calls k = some ⟨targets, .stopped data⟩) ∨
    ∃ p targets, ⟨targets, .stopped data⟩ ∈ sweeps p

/-- It is on its way that the user has stopped. -/
def State.Stopping (s : State) (data : TypingEventData) : Prop := StopsIn s.calls s.sweeps data

/-- A start that is published is followed by a stop, or its expiry is armed. -/
def Answered (s : State) : Action → Prop
  | .publish k =>
      ∀ targets data, s.calls k = some ⟨targets, .started data⟩ → s.Armed data ∨ s.Stopping data
  | _ => True

variable {ttl : Instant} {s t : State} {a : Action} {data : TypingEventData}

/-- What a step can do. -/
inductive Move (ttl : Instant) (s : State) : Action → State → Prop
  | start {k : ℕ} {now : Instant} {data : TypingEventData} {targets : List UUID}
      (idle : s.calls k = none) : Move ttl s (.start k now data targets) { s with
        store := startPipeline ttl now data.member ⟨targets, .stopped data⟩ s.store
        calls := Function.update s.calls k (some ⟨targets, .started data⟩) }
  | stop {k : ℕ} {data : TypingEventData} {targets : List UUID} (idle : s.calls k = none) :
      Move ttl s (.stop k data targets) { s with
        store := stopPipeline data.member s.store
        calls := Function.update s.calls k (some ⟨targets, .stopped data⟩) }
  | publish {k : ℕ} {envelope : Envelope} (call : s.calls k = some envelope) :
      Move ttl s (.publish k) { s with
        published := envelope :: s.published
        calls := Function.update s.calls k none }
  | sweep {p : ℕ} {now : Instant} (idle : s.sweeps p = []) : Move ttl s (.sweep p now) { s with
        store := (sweepScript now s.store).2
        sweeps := Function.update s.sweeps p (sweepScript now s.store).1 }
  | publishExpired {p : ℕ} {envelope : Envelope} {rest : List Envelope}
      (claimed : s.sweeps p = envelope :: rest) : Move ttl s (.publishExpired p) { s with
        published := envelope :: s.published
        sweeps := Function.update s.sweeps p rest }

/-- `Move` leaves nothing out. -/
theorem Move.of_step (ht : step ttl s a = some t) : Move ttl s a t := by
  cases a with
  | start | stop | publish | sweep | publishExpired =>
      simp only [step] at ht
      split at ht
      all_goals cases ht
      all_goals
        constructor
        assumption

theorem member_injective : Function.Injective TypingEventData.member := by
  rintro ⟨c, u⟩ ⟨c', u'⟩ h
  obtain ⟨rfl, rfl⟩ := Prod.mk.inj (toLex_inj.mp h)
  rfl

/-- What is published next is the last event of the one it is about. -/
theorem lastEvent_cons {envelope : Envelope} {published : List Envelope}
    (h : t.published = envelope :: published) (hs : s.published = published) :
    t.lastEvent data =
      if envelope.event.data = data then some envelope.event else s.lastEvent data := by
  unfold State.lastEvent
  rw [h, hs, List.find?_cons]
  by_cases he : envelope.event.data = data
  · simp [he]
  · simp [he]

/-! ## The store -/

/-- Every entry holds the event that stops its own member. -/
structure Sound (s : Store Envelope) : Prop where
  lockStep : s.LockStep
  stops : ∀ m x d, s.entry m = some (x, d) →
    ∃ data, data.member = m ∧ d.event = .stopped data

theorem Sound.initial : Sound .empty where
  lockStep := .empty
  stops m x d h := by simp [Store.entry, Store.empty] at h

theorem Sound.start {store : Store Envelope} (h : Sound store) (ttl now : Instant)
    (data : TypingEventData) (targets : List UUID) :
    Sound (startPipeline ttl now data.member ⟨targets, .stopped data⟩ store) where
  lockStep := h.lockStep.perform ttl (.start now data.member ⟨targets, .stopped data⟩)
  stops m x d hd := by
    rw [entry_startPipeline] at hd
    split at hd
    · cases hd
      exact ⟨data, Eq.symm ‹_›, rfl⟩
    · exact h.stops m x d hd

theorem Sound.stop {store : Store Envelope} (h : Sound store) (m : Member) :
    Sound (stopPipeline m store) where
  lockStep := h.lockStep.perform 0 (.stop m)
  stops i x d hd := by
    rw [entry_stopPipeline] at hd
    split at hd
    · cases hd
    · exact h.stops i x d hd

theorem Sound.sweep {store : Store Envelope} (h : Sound store) (now : Instant) :
    Sound (sweepScript now store).2 where
  lockStep := h.lockStep.perform 0 (.sweep now)
  stops i x d hd := by
    rw [h.lockStep.entry_sweepScript] at hd
    split at hd
    · cases hd
    · exact h.stops i x d hd

/-- An entry of a member is armed with the stop of that member. -/
theorem Sound.armed (h : Sound s.store) {x : Instant} {d : Envelope}
    (hd : s.store.entry data.member = some (x, d)) : s.Armed data := by
  obtain ⟨data', hmember, hevent⟩ := h.stops _ x d hd
  obtain rfl := member_injective hmember
  exact ⟨x, d.targets, hd.trans (by rw [← hevent])⟩

/-- What a sweep returns are events that stop a user. -/
theorem Sound.sweepScript {store : Store Envelope} (h : Sound store) {now : Instant}
    {d : Envelope} (hd : d ∈ (sweepScript now store).1) : ∃ data, d.event = .stopped data := by
  rw [sweepScript_fst, List.mem_filterMap] at hd
  obtain ⟨m, hm, hdata⟩ := hd
  obtain ⟨x, d', hentry, -⟩ := h.lockStep.entry_of_mem_expired hm
  obtain rfl : d' = d := Option.some.inj ((Store.entry_eq_some.mp hentry).2.symm.trans hdata)
  obtain ⟨data, -, hevent⟩ := h.stops m x d' hentry
  exact ⟨data, hevent⟩

/-- What is armed, and what a sweep has claimed, are events that stop a user. -/
structure Inv (s : State) : Prop where
  sound : Sound s.store
  claimed : ∀ p, ∀ d ∈ s.sweeps p, ∃ data, d.event = .stopped data

theorem Inv.initial : Inv .initial where
  sound := .initial
  claimed p d hd := by cases hd

/-- A sweep moves on to other events that stop a user. -/
theorem Inv.update (h : Inv s) {p : ℕ} {todo : List Envelope}
    (htodo : ∀ d ∈ todo, ∃ data, d.event = .stopped data) (p' : ℕ) :
    ∀ d ∈ Function.update s.sweeps p todo p', ∃ data, d.event = .stopped data := by
  by_cases hp : p' = p
  · subst hp
    rwa [Function.update_self]
  · rw [Function.update_of_ne hp]
    exact h.claimed p'

theorem Inv.step (h : Inv s) (ht : step ttl s a = some t) : Inv t := by
  cases Move.of_step ht with
  | @start k now data targets => exact ⟨h.sound.start ttl now data targets, h.claimed⟩
  | @stop k data targets => exact ⟨h.sound.stop data.member, h.claimed⟩
  | publish => exact ⟨h.sound, h.claimed⟩
  | @sweep p now => exact ⟨h.sound.sweep now, h.update fun d hd ↦ h.sound.sweepScript hd⟩
  | @publishExpired p envelope rest claimed =>
      refine ⟨h.sound, h.update fun d hd ↦ h.claimed p d ?_⟩
      exact claimed ▸ List.mem_cons_of_mem envelope hd

/-! ## What is owed -/

/-- If the recipients were last told that the user types, they will be told otherwise. -/
def Owed (s : State) (data : TypingEventData) : Prop :=
  s.lastEvent data = some (.started data) → s.Armed data ∨ s.Stopping data

/-- A call that is not about to publish a stop moves to `x`. -/
theorem stopsIn_update_calls {calls : ℕ → Option Envelope} {sweeps : ℕ → List Envelope} {k : ℕ}
    {x : Option Envelope} (hk : ∀ targets, calls k ≠ some ⟨targets, .stopped data⟩) :
    StopsIn (Function.update calls k x) sweeps data ↔
      (∃ targets, x = some ⟨targets, .stopped data⟩) ∨ StopsIn calls sweeps data := by
  have hmoved := exists_update (f := calls) (i := k) (x := x)
    (P := fun call ↦ ∃ targets, call = some ⟨targets, .stopped data⟩)
    fun ⟨targets, h⟩ ↦ hk targets h
  rw [StopsIn, StopsIn, hmoved, or_assoc]

/-- A sweep moves on, and drops no stop. -/
theorem stopsIn_update_sweeps {calls : ℕ → Option Envelope} {sweeps : ℕ → List Envelope} {p : ℕ}
    {todo : List Envelope} (hp : ∀ targets, ⟨targets, .stopped data⟩ ∈ sweeps p →
      (⟨targets, .stopped data⟩ : Envelope) ∈ todo) :
    StopsIn calls (Function.update sweeps p todo) data ↔
      (∃ targets, ⟨targets, .stopped data⟩ ∈ todo) ∨ StopsIn calls sweeps data := by
  rw [StopsIn, StopsIn, ← or_left_comm]
  refine or_congr_right ⟨?_, ?_⟩
  · rintro ⟨p', targets, hmem⟩
    by_cases he : p' = p
    · subst he
      rw [Function.update_self] at hmem
      exact Or.inl ⟨targets, hmem⟩
    · rw [Function.update_of_ne he] at hmem
      exact Or.inr ⟨p', targets, hmem⟩
  · rintro (⟨targets, hmem⟩ | ⟨p', targets, hmem⟩)
    · exact ⟨p, targets, by rwa [Function.update_self]⟩
    · by_cases he : p' = p
      · subst he
        exact ⟨p', targets, by rw [Function.update_self]; exact hp targets hmem⟩
      · exact ⟨p', targets, by rwa [Function.update_of_ne he]⟩

/-- A sweep that disarms a user has still to publish that the user has stopped. -/
theorem armed_or_stopping_sweep (hsound : Sound s.store) {p : ℕ} {now : Instant}
    (hstore : t.store = (sweepScript now s.store).2)
    (hsweeps : t.sweeps = Function.update s.sweeps p (sweepScript now s.store).1)
    (h : s.Armed data) : t.Armed data ∨ t.Stopping data := by
  obtain ⟨x, targets, hentry⟩ := h
  by_cases hm : data.member ∈ expired now s.store
  · refine Or.inr (Or.inr ⟨p, targets, ?_⟩)
    rw [hsweeps, Function.update_self, sweepScript_fst, List.mem_filterMap]
    exact ⟨data.member, hm, (Store.entry_eq_some.mp hentry).2⟩
  · refine Or.inl ⟨x, targets, ?_⟩
    rw [hstore, hsound.lockStep.entry_sweepScript, if_neg hm, hentry]

/-- **Every step that meets the condition keeps what is owed.** -/
theorem Owed.step (hinv : Inv s) (h : Owed s data) (hok : Answered s a)
    (ht : step ttl s a = some t) : Owed t data := by
  cases Move.of_step ht with
  | @start k now i targets idle =>
      intro hlast
      rcases h hlast with ⟨x, targets', hentry⟩ | hstopping
      · by_cases hi : data = i
        · subst hi
          exact Or.inl ⟨now + ttl, targets, entry_startPipeline.trans (if_pos rfl)⟩
        · have hne := member_injective.ne hi
          exact Or.inl ⟨x, targets', (entry_startPipeline.trans (if_neg hne)).trans hentry⟩
      · exact Or.inr ((stopsIn_update_calls (by simp [idle])).mpr (Or.inr hstopping))
  | @stop k i targets idle =>
      intro hlast
      by_cases hi : data = i
      · subst hi
        exact Or.inr (Or.inl ⟨k, targets, Function.update_self ..⟩)
      · rcases h hlast with ⟨x, targets', hentry⟩ | hstopping
        · have hne := member_injective.ne hi
          exact Or.inl ⟨x, targets', (entry_stopPipeline.trans (if_neg hne)).trans hentry⟩
        · exact Or.inr ((stopsIn_update_calls (by simp [idle])).mpr (Or.inr hstopping))
  | @publish k envelope call =>
      intro hlast
      rw [lastEvent_cons (s := s) rfl rfl] at hlast
      -- The event published is a start, which is answered, or is not about this user.
      have howed : s.Armed data ∨ s.Stopping data := by
        split at hlast
        · exact hok envelope.targets data (call.trans (by rw [← Option.some.inj hlast]))
        · exact h hlast
      have hstart : ∀ targets, s.calls k ≠ some ⟨targets, .stopped data⟩ := by
        intro targets hc
        obtain rfl := Option.some.inj (call.symm.trans hc)
        simp [TypingEvent.data] at hlast
      exact howed.imp id fun h ↦ (stopsIn_update_calls hstart).mpr (Or.inr h)
  | sweep idle =>
      intro hlast
      rcases h hlast with harmed | hstopping
      · exact armed_or_stopping_sweep hinv.sound rfl rfl harmed
      · exact Or.inr ((stopsIn_update_sweeps (by simp [idle])).mpr (Or.inr hstopping))
  | @publishExpired p envelope rest claimed =>
      intro hlast
      rw [lastEvent_cons (s := s) rfl rfl] at hlast
      obtain ⟨i, hi⟩ := hinv.claimed p envelope (claimed ▸ List.mem_cons_self)
      -- The event published is a stop, and not of this user.
      by_cases hdata : envelope.event.data = data
      · rw [if_pos hdata, hi] at hlast
        cases hlast
      · rw [if_neg hdata] at hlast
        have hrest : ∀ targets, ⟨targets, .stopped data⟩ ∈ s.sweeps p →
            (⟨targets, .stopped data⟩ : Envelope) ∈ rest := by
          intro targets hmem
          rw [claimed] at hmem
          refine (List.mem_cons.mp hmem).resolve_left fun he ↦ hdata ?_
          rw [← he]
          rfl
        exact Or.imp id (fun h ↦ (stopsIn_update_sweeps hrest).mpr (Or.inr h)) (h hlast)

/-- **A typing indicator cannot stay stuck**, if every start that is published is
answered.  When nothing is under way and the recipients were last told that the
user types, an expiry with the event that tells them otherwise is armed.  From
its deadline on every sweep takes it, unless it takes as many others as it can. -/
theorem typing_not_stuck {as : List Action} (hrun : exec (step ttl) .initial as = some s)
    (hok : Along (step ttl) Answered .initial as) (hquiet : s.Quiet)
    (hlast : s.lastEvent data = some (.started data)) :
    ∃ deadline targets, s.store.entry data.member = some (deadline, ⟨targets, .stopped data⟩) ∧
      ∀ now, deadline ≤ now →
        ⟨targets, .stopped data⟩ ∈ (sweepScript now s.store).1 ∨
          (sweepScript now s.store).1.length = 100 := by
  have hinv : Inv s ∧ Owed s data := by
    refine exec_induction (P := fun s ↦ Inv s ∧ Owed s data) ?_ ⟨.initial, nofun⟩ hrun hok
    exact fun h hok ht ↦ ⟨h.1.step ht, h.2.step h.1 hok ht⟩
  rcases hinv.2 hlast with ⟨x, targets, hentry⟩ | hstopping
  · refine ⟨x, targets, hentry, fun now hdue ↦ ?_⟩
    obtain ⟨hx, hdata⟩ := Store.entry_eq_some.mp hentry
    rcases mem_expired_or_length hx hdue with hm | hfull
    · rw [sweepScript_fst, List.mem_filterMap]
      exact Or.inl ⟨data.member, hm, hdata⟩
    · exact Or.inr ((hinv.1.sound.lockStep.sweepScript_length now).trans hfull)
  · rcases hstopping with ⟨k, targets, hk⟩ | ⟨p, targets, hp⟩
    · rw [hquiet.1 k] at hk
      cases hk
    · rw [hquiet.2 p] at hp
      cases hp

/-- The user goes on typing while a sweep has claimed the event that ends the first indicator. -/
def swept : List Action :=
  [.start 0 10 ⟨0, 1⟩ [2], .publish 0, .sweep 0 16, .start 1 17 ⟨0, 1⟩ [2], .publishExpired 0,
    .publish 1]

theorem typing_not_stuck_swept :
    ∃ s, exec (step 5) .initial swept = some s ∧ s.Quiet ∧
      ∃ deadline targets,
        s.store.entry (TypingEventData.member ⟨0, 1⟩) =
          some (deadline, ⟨targets, .stopped ⟨0, 1⟩⟩) ∧
        ∀ now, deadline ≤ now →
          ⟨targets, .stopped ⟨0, 1⟩⟩ ∈ (sweepScript now s.store).1 ∨
            (sweepScript now s.store).1.length = 100 := by
  have hrun : exec (step 5) .initial swept = some _ := rfl
  have hok : Along (step 5) Answered .initial swept := by
    refine .cons trivial rfl (.cons (fun targets data h ↦ ?_) rfl (.cons trivial rfl
      (.cons trivial rfl (.cons trivial rfl (.cons (fun targets data h ↦ ?_) rfl trivial)))))
    · cases h
      exact Or.inl ⟨15, [2], rfl⟩
    · cases h
      exact Or.inl ⟨22, [2], rfl⟩
  have hquiet : ∀ {s}, exec (step 5) .initial swept = some s → s.Quiet := by
    rintro s ⟨⟩
    refine ⟨fun k ↦ ?_, fun p ↦ ?_⟩
    · rcases k with _ | _ | k <;> rfl
    · rcases p with _ | p <;> rfl
  exact ⟨_, hrun, hquiet hrun, typing_not_stuck hrun hok (hquiet hrun) rfl⟩

/-! ## A start that is published late -/

/-- The recipients were last told that the user types; nothing is armed, and
nothing on its way, that will tell them otherwise. -/
structure Stuck (s : State) (data : TypingEventData) : Prop where
  told : s.lastEvent data = some (.started data)
  disarmed : s.store.entry data.member = none
  silent : ¬ s.Stopping data

/-- A start that is published without being answered leaves its user stuck. -/
theorem Stuck.of_publish {k : ℕ} {targets : List UUID} (hinv : Inv s)
    (hk : s.calls k = some ⟨targets, .started data⟩) (harmed : ¬ s.Armed data)
    (hstopping : ¬ s.Stopping data) (ht : step ttl s (.publish k) = some t) : Stuck t data := by
  simp only [step, hk, Option.some.injEq] at ht
  subst ht
  refine ⟨(lastEvent_cons (s := s) rfl rfl).trans (if_pos rfl), ?_, ?_⟩
  · rw [Option.eq_none_iff_forall_ne_some]
    rintro ⟨x, d⟩ hd
    exact harmed (hinv.sound.armed hd)
  · rintro (⟨k', targets', hk'⟩ | hp)
    · by_cases hne : k' = k
      · subst hne
        simp at hk'
      · exact hstopping (Or.inl ⟨k', targets', (Function.update_of_ne hne _ _).symm.trans hk'⟩)
    · exact hstopping (Or.inr hp)

/-- The action is the pipeline of a call about the user. -/
def Calls (data : TypingEventData) : Action → Prop
  | .start _ _ i _ => i = data
  | .stop _ i _ => i = data
  | _ => False

/-- **Stuck is stuck**: only a new call about the user changes it. -/
theorem Stuck.step (hinv : Inv s) (h : Stuck s data) (ha : ¬ Calls data a)
    (ht : step ttl s a = some t) : Stuck t data := by
  cases Move.of_step ht with
  | @start k now i targets =>
      have hne : data.member ≠ i.member := fun e ↦ ha (member_injective e).symm
      refine ⟨h.told, (entry_startPipeline.trans (if_neg hne)).trans h.disarmed, ?_⟩
      refine (stopsIn_update_calls fun targets hc ↦ h.silent (Or.inl ⟨k, targets, hc⟩)).not.mpr ?_
      exact not_or.mpr ⟨by simp, h.silent⟩
  | @stop k i targets =>
      have hne : data.member ≠ i.member := fun e ↦ ha (member_injective e).symm
      refine ⟨h.told, (entry_stopPipeline.trans (if_neg hne)).trans h.disarmed, ?_⟩
      refine (stopsIn_update_calls fun targets hc ↦ h.silent (Or.inl ⟨k, targets, hc⟩)).not.mpr ?_
      exact not_or.mpr ⟨fun ⟨_, e⟩ ↦ ha (by cases e; rfl), h.silent⟩
  | @publish k envelope call =>
      have hstart : ∀ targets, s.calls k ≠ some ⟨targets, .stopped data⟩ := fun targets hc ↦
        h.silent (Or.inl ⟨k, targets, hc⟩)
      refine ⟨?_, h.disarmed, fun hstopping ↦ ?_⟩
      swap
      · exact ((stopsIn_update_calls hstart).mp hstopping).elim (fun ⟨_, e⟩ ↦ by cases e) h.silent
      rw [lastEvent_cons (s := s) rfl rfl]
      split
      · rename_i hdata
        -- It is a start of the user: a stop would have been on its way.
        obtain ⟨targets, event⟩ := envelope
        cases event with
        | started i =>
            obtain rfl : i = data := hdata
            rfl
        | stopped i =>
            obtain rfl : i = data := hdata
            exact absurd (Or.inl ⟨k, targets, call⟩) h.silent
      · exact h.told
  | @sweep p now =>
      have hnone : ∀ targets, ⟨targets, .stopped data⟩ ∉ s.sweeps p := fun targets hmem ↦
        h.silent (Or.inr ⟨p, targets, hmem⟩)
      refine ⟨h.told, ?_, fun hstopping ↦ ?_⟩
      · rw [hinv.sound.lockStep.entry_sweepScript, h.disarmed, ite_self]
      · have hnew := (stopsIn_update_sweeps fun _ hmem ↦ absurd hmem (hnone _)).mp hstopping
        obtain ⟨targets, hmem⟩ := hnew.resolve_right h.silent
        rw [sweepScript_fst, List.mem_filterMap] at hmem
        obtain ⟨m, hm, hd⟩ := hmem
        obtain ⟨x, d, hentry, -⟩ := hinv.sound.lockStep.entry_of_mem_expired hm
        obtain rfl := Option.some.inj ((Store.entry_eq_some.mp hentry).2.symm.trans hd)
        obtain ⟨i, rfl, hevent⟩ := hinv.sound.stops m x _ hentry
        obtain rfl : data = i := TypingEvent.stopped.inj hevent
        rw [h.disarmed] at hentry
        cases hentry
  | @publishExpired p envelope rest claimed =>
      have hnot : ∀ targets, envelope ≠ ⟨targets, .stopped data⟩ := fun targets he ↦
        h.silent (Or.inr ⟨p, targets, by rw [claimed, he]; exact List.mem_cons_self⟩)
      have hnone : ∀ targets, ⟨targets, .stopped data⟩ ∉ s.sweeps p := fun targets hmem ↦
        h.silent (Or.inr ⟨p, targets, hmem⟩)
      refine ⟨?_, h.disarmed, fun hstopping ↦ ?_⟩
      · obtain ⟨i, hi⟩ := hinv.claimed p envelope (claimed ▸ List.mem_cons_self)
        rw [lastEvent_cons (s := s) rfl rfl, if_neg fun hdata ↦ ?_]
        · exact h.told
        · rw [hi] at hdata
          obtain rfl : i = data := hdata
          exact hnot envelope.targets (by rw [← hi])
      · have hnew := (stopsIn_update_sweeps fun _ hmem ↦ absurd hmem (hnone _)).mp hstopping
        obtain ⟨targets, hmem⟩ := hnew.resolve_right h.silent
        exact hnone targets (claimed ▸ List.mem_cons_of_mem envelope hmem)

/-- A tab starts typing and another one stops, and the start is published last. -/
def lateStart : List Action :=
  [.start 0 10 ⟨0, 1⟩ [2], .stop 1 ⟨0, 1⟩ [2], .publish 1, .publish 0]

/-- **An indicator can stay stuck.** -/
theorem late_start_sticks :
    ¬ ∀ (ttl : Instant) (as : List Action) (s : State) (data : TypingEventData),
      exec (step ttl) .initial as = some s → s.Quiet →
        s.lastEvent data = some (.started data) → s.Armed data := by
  intro h
  have hrun : exec (step 5) .initial lateStart = some _ := rfl
  have hcalls : ∀ k : ℕ, Function.update (Function.update (Function.update (Function.update
      (fun _ ↦ none) 0 (some (⟨[2], .started ⟨0, 1⟩⟩ : Envelope))) 1
      (some ⟨[2], .stopped ⟨0, 1⟩⟩)) 1 none) 0 none k = none := fun k ↦ by
    simp only [Function.update_apply]
    split_ifs <;> rfl
  obtain ⟨deadline, targets, hentry⟩ := h 5 lateStart _ ⟨0, 1⟩ hrun ⟨hcalls, fun _ ↦ rfl⟩ rfl
  cases hentry

end Indicator

end Chatterbox.Typing
