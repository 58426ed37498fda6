import Chatterbox.Client.ChatStore
import Chatterbox.Conversations
import Chatterbox.Realtime.Registry
import Chatterbox.Run

/-!
# Sessions, and what peers see of them

`websocket_endpoint` on an instance without Redis, from one await to the next.

| phase            | what the session does next                                       |
|------------------|------------------------------------------------------------------|
| `idle`           | registers its socket                                             |
| `registered`     | reads the user's peers                                           |
| `prepared`       | sends `connection.ready`, with the peers that are registered     |
| `announcing`     | delivers `presence.online` to the peers                          |
| `open_`          | ends: unregisters the socket, takes the time of `mark_user_offline` |
| `unregistered`   | writes `last_seen`, and reads the user's peers                   |
| `written`        | delivers `presence.offline` to the peers                         |
| `closed`         | nothing                                                          |

A session announces itself only if its socket was the user's first, and the end
of the user only if it was the last.  A delivery to a peer takes a snapshot of
the sockets that the peer has at that moment, and sends to one after another; the
deliveries to several peers run side by side.  What is sent reaches its socket,
and memberships do not change.

A registration and its announcement are apart, so the `presence.offline` of one
session may be sent after the `presence.online` of the next.  `Orderly` is the
condition that this does not happen, `presence_converges` the result under it,
and `late_offline_misleads` says that there is none without it.
-/

namespace Chatterbox.Realtime.Sessions

open Client

/-- How far a session has got. -/
inductive Phase where
  | idle
  | registered (u : UUID) (becameOnline : Bool)
  | prepared (u : UUID) (becameOnline : Bool) (peers : List UUID)
  /-- The peers to whom no delivery has started, and the sockets still to be sent to. -/
  | announcing (u : UUID) (todo : List UUID) (sending : Finset Socket)
  | open_ (u : UUID)
  | unregistered (u : UUID) (lastSeen : Instant)
  | written (u : UUID) (lastSeen : Instant) (todo : List UUID) (sending : Finset Socket)
  | closed
deriving DecidableEq

/-- The registry, the sessions by their sockets, and what has reached the sockets. -/
structure State where
  registry : Registry
  sessions : Socket → Phase
  received : Socket → List Event
  /-- `users.last_seen`. -/
  lastSeen : UUID → Option Instant

/-- A session moves on. -/
def State.set (s : State) (ws : Socket) (ph : Phase) : State :=
  { s with sessions := Function.update s.sessions ws ph }

/-- `send_json`. -/
def State.sendJson (s : State) (ws : Socket) (event : Event) : State :=
  { s with received := Function.update s.received ws (s.received ws ++ [event]) }

/-- The targets of `send_to_users`. -/
def targets (userIds : List UUID) (excludeUserId : UUID) : List UUID :=
  (userIds.filter (· ≠ excludeUserId)).eraseDups

/-- A session's next step. -/
inductive Action where
  | connect (ws : Socket) (u : UUID)
  | peers (ws : Socket)
  | ready (ws : Socket)
  | leave (ws : Socket) (now : Instant)
  | write (ws : Socket)
  /-- `deliver_to_user_local`, up to its snapshot. -/
  | deliver (ws : Socket) (v : UUID)
  /-- A delivery sends to the socket `y`. -/
  | send (ws y : Socket)
  /-- All deliveries have come to their end. -/
  | delivered (ws : Socket)
deriving DecidableEq, Repr

/-- One step; `rows` are the memberships. -/
def step (rows : List ConversationMember) (s : State) : Action → Option State
  | .connect ws u =>
      match s.sessions ws with
      | .idle =>
          let (becameOnline, registry) := s.registry.connect u ws
          some ({ s with registry }.set ws (.registered u becameOnline))
      | _ => none
  | .peers ws =>
      match s.sessions ws with
      | .registered u becameOnline => some (s.set ws (.prepared u becameOnline (peerIds rows u)))
      | _ => none
  | .ready ws =>
      match s.sessions ws with
      | .prepared u becameOnline peers =>
          let s := s.sendJson ws (.connectionReady (s.registry.onlineUserIds peers))
          some (s.set ws (if becameOnline then .announcing u (targets peers u) ∅ else .open_ u))
      | _ => none
  | .leave ws now =>
      match s.sessions ws with
      | .open_ u =>
          let (becameOffline, registry) := s.registry.disconnect u ws
          some ({ s with registry }.set ws (if becameOffline then .unregistered u now else .closed))
      | _ => none
  | .write ws =>
      match s.sessions ws with
      | .unregistered u lastSeen =>
          let s := { s with lastSeen := Function.update s.lastSeen u (some lastSeen) }
          some (s.set ws (.written u lastSeen (targets (peerIds rows u) u) ∅))
      | _ => none
  | .deliver ws v =>
      match s.sessions ws with
      | .announcing u todo sending =>
          if v ∈ todo then
            some (s.set ws (.announcing u (todo.erase v) (sending ∪ s.registry.sockets v)))
          else none
      | .written u lastSeen todo sending =>
          if v ∈ todo then
            some (s.set ws (.written u lastSeen (todo.erase v) (sending ∪ s.registry.sockets v)))
          else none
      | _ => none
  | .send ws y =>
      match s.sessions ws with
      | .announcing u todo sending =>
          if y ∈ sending then
            some ((s.sendJson y (.presenceOnline u)).set ws (.announcing u todo (sending.erase y)))
          else none
      | .written u lastSeen todo sending =>
          if y ∈ sending then
            some ((s.sendJson y (.presenceOffline u lastSeen)).set ws
              (.written u lastSeen todo (sending.erase y)))
          else none
      | _ => none
  | .delivered ws =>
      match s.sessions ws with
      | .announcing u [] sending => if sending = ∅ then some (s.set ws (.open_ u)) else none
      | .written _ _ [] sending => if sending = ∅ then some (s.set ws .closed) else none
      | _ => none

/-- Nobody has connected yet. -/
def Initial (s : State) : Prop :=
  s.registry = .empty ∧ (∀ ws, s.sessions ws = .idle) ∧ ∀ ws, s.received ws = []

/-! ## What a phase means -/

namespace Phase

/-- The user whose socket is registered. -/
def serving : Phase → Option UUID
  | registered u _ | prepared u _ _ | announcing u _ _ | open_ u => some u
  | _ => none

/-- The user to whom `connection.ready` has been sent. -/
def viewing : Phase → Option UUID
  | announcing u _ _ | open_ u => some u
  | _ => none

/-- The session has still to send to the socket `x` of `v` that `u` is online. -/
def Arriving (u v : UUID) (x : Socket) : Phase → Prop
  | registered w becameOnline | prepared w becameOnline _ => w = u ∧ becameOnline = true
  | announcing w todo sending => w = u ∧ (v ∈ todo ∨ x ∈ sending)
  | _ => False

/-- The session has still to send to the socket `x` of `v` that `u` is offline. -/
def Leaving (u v : UUID) (x : Socket) : Phase → Prop
  | unregistered w _ => w = u
  | written w _ todo sending => w = u ∧ (v ∈ todo ∨ x ∈ sending)
  | _ => False

/-- The session is one of `v`, or over. -/
def Belongs (v : UUID) (ph : Phase) : Prop := ph ≠ .idle ∧ ∀ w, ph.serving = some w → w = v

end Phase

/-- The user has a registered socket. -/
def State.Serves (s : State) (u : UUID) : Prop := s.registry.sockets u ≠ ∅

instance (s : State) : DecidablePred s.Serves :=
  fun u ↦ inferInstanceAs (Decidable (s.registry.sockets u ≠ ∅))

def State.Arriving (s : State) (u v : UUID) (x : Socket) : Prop :=
  ∃ ws, (s.sessions ws).Arriving u v x

def State.Leaving (s : State) (u v : UUID) (x : Socket) : Prop :=
  ∃ ws, (s.sessions ws).Leaving u v x

/-- Folding the events that have reached the socket shows the user as online. -/
def State.Sees (p₀ : Presence) (s : State) (x : Socket) (u : UUID) : Prop :=
  Presence.isOnline ((s.received x).foldl Presence.handleEvent p₀) u = true

/-- When a socket of `v` that shows peers is told that `u` is offline, `u` has no
registered socket, or the socket has still to be told that `u` is online. -/
def Orderly (s : State) : Action → Prop
  | .send ws y => ∀ u lastSeen todo sending v,
      s.sessions ws = .written u lastSeen todo sending → (s.sessions y).viewing = some v →
        s.Serves u → s.Arriving u v y
  | _ => True

/-- No session has a step pending. -/
def Quiet (s : State) : Prop :=
  ∀ ws, s.sessions ws = .idle ∨ (∃ u, s.sessions ws = .open_ u) ∨ s.sessions ws = .closed

variable {rows : List ConversationMember} {s t : State} {a : Action} {ws x : Socket} {ph : Phase}
  {u v w : UUID} {p₀ : Presence}

theorem mem_targets {us : List UUID} : w ∈ targets us u ↔ w ∈ us ∧ w ≠ u := by
  rw [targets, List.mem_eraseDups, List.mem_filter, decide_eq_true_eq]

/-- What a step can do, session by session. -/
inductive Move (rows : List ConversationMember) (s : State) : Action → State → Prop
  | connect {ws : Socket} {u : UUID} (phase : s.sessions ws = .idle) :
      Move rows s (.connect ws u) ({ s with registry := (s.registry.connect u ws).2 }.set ws
        (.registered u (s.registry.connect u ws).1))
  | peers {ws : Socket} {u : UUID} {b : Bool} (phase : s.sessions ws = .registered u b) :
      Move rows s (.peers ws) (s.set ws (.prepared u b (peerIds rows u)))
  | ready {ws : Socket} {u : UUID} {b : Bool} {ps : List UUID}
      (phase : s.sessions ws = .prepared u b ps) :
      Move rows s (.ready ws)
        ((s.sendJson ws (.connectionReady (s.registry.onlineUserIds ps))).set ws
          (if b then .announcing u (targets ps u) ∅ else .open_ u))
  | leave {ws : Socket} {u : UUID} {now : Instant} (phase : s.sessions ws = .open_ u) :
      Move rows s (.leave ws now) ({ s with registry := (s.registry.disconnect u ws).2 }.set ws
        (if (s.registry.disconnect u ws).1 then .unregistered u now else .closed))
  | write {ws : Socket} {u : UUID} {seen : Instant}
      (phase : s.sessions ws = .unregistered u seen) :
      Move rows s (.write ws)
        ({ s with lastSeen := Function.update s.lastSeen u (some seen) }.set ws
          (.written u seen (targets (peerIds rows u) u) ∅))
  | deliverOnline {ws : Socket} {u v : UUID} {todo : List UUID} {sending : Finset Socket}
      (phase : s.sessions ws = .announcing u todo sending) (due : v ∈ todo) :
      Move rows s (.deliver ws v)
        (s.set ws (.announcing u (todo.erase v) (sending ∪ s.registry.sockets v)))
  | deliverOffline {ws : Socket} {u v : UUID} {seen : Instant} {todo : List UUID}
      {sending : Finset Socket} (phase : s.sessions ws = .written u seen todo sending)
      (due : v ∈ todo) : Move rows s (.deliver ws v)
        (s.set ws (.written u seen (todo.erase v) (sending ∪ s.registry.sockets v)))
  | sendOnline {ws y : Socket} {u : UUID} {todo : List UUID} {sending : Finset Socket}
      (phase : s.sessions ws = .announcing u todo sending) (due : y ∈ sending) :
      Move rows s (.send ws y)
        ((s.sendJson y (.presenceOnline u)).set ws (.announcing u todo (sending.erase y)))
  | sendOffline {ws y : Socket} {u : UUID} {seen : Instant} {todo : List UUID}
      {sending : Finset Socket} (phase : s.sessions ws = .written u seen todo sending)
      (due : y ∈ sending) : Move rows s (.send ws y)
        ((s.sendJson y (.presenceOffline u seen)).set ws
          (.written u seen todo (sending.erase y)))
  | announced {ws : Socket} {u : UUID} (phase : s.sessions ws = .announcing u [] ∅) :
      Move rows s (.delivered ws) (s.set ws (.open_ u))
  | ended {ws : Socket} {u : UUID} {seen : Instant}
      (phase : s.sessions ws = .written u seen [] ∅) :
      Move rows s (.delivered ws) (s.set ws .closed)

theorem Move.of_step (ht : step rows s a = some t) : Move rows s a t := by
  cases a with
  | connect ws u | peers ws | leave ws now | write ws =>
      simp only [step] at ht
      split at ht
      · cases ht
        constructor
        assumption
      · cases ht
  | ready ws =>
      simp only [step] at ht
      split at ht
      · cases ht
        exact .ready ‹_›
      · cases ht
  | deliver ws v | send ws y =>
      simp only [step] at ht
      split at ht
      · split at ht
        · cases ht
          constructor <;> assumption
        · cases ht
      · split at ht
        · cases ht
          constructor <;> assumption
        · cases ht
      · cases ht
  | delivered ws =>
      simp only [step] at ht
      split at ht
      · split at ht
        · rename_i hnone
          cases ht
          subst hnone
          exact .announced ‹_›
        · cases ht
      · split at ht
        · rename_i hnone
          cases ht
          subst hnone
          exact .ended ‹_›
        · cases ht
      · cases ht

/-! ## Sockets and sessions -/

/-- The peers are those of the user, or those of them that are left, and the
sockets those of peers. -/
def Phase.Known (rows : List ConversationMember) (s : State) : Phase → Prop
  | .prepared u _ peers => peers = peerIds rows u
  | .announcing u todo sending | .written u _ todo sending =>
      (∀ v ∈ todo, v ∈ peerIds rows u) ∧
        ∀ y ∈ sending, ∃ v ∈ peerIds rows u, (s.sessions y).Belongs v
  | _ => True

/-- What is true after any run: the sockets are those of the sessions. -/
structure Wf (rows : List ConversationMember) (s : State) : Prop where
  registered : ∀ ws u, ws ∈ s.registry.sockets u ↔ (s.sessions ws).serving = some u
  known : ∀ ws, (s.sessions ws).Known rows s

theorem Wf.initial (h : Initial s) : Wf rows s := by
  obtain ⟨hregistry, hsessions, -⟩ := h
  refine ⟨fun ws u ↦ ?_, fun ws ↦ ?_⟩
  · rw [hregistry, hsessions ws]
    exact iff_of_false (Finset.notMem_empty ws) nofun
  · rw [hsessions ws]
    trivial

theorem Wf.known_of (h : Wf rows s) (hphase : s.sessions ws = ph) : ph.Known rows s :=
  hphase ▸ h.known ws

/-- A registered socket's session is its user's. -/
theorem Wf.belongs (h : Wf rows s) (hws : ws ∈ s.registry.sockets v) :
    (s.sessions ws).Belongs v := by
  rw [h.registered] at hws
  refine ⟨fun hidle ↦ ?_, fun w hw ↦ Option.some.inj (hw.symm.trans hws)⟩
  rw [hidle] at hws
  cases hws

theorem Phase.Known.mono (h : ph.Known rows s)
    (hst : ∀ y v, (s.sessions y).Belongs v → (t.sessions y).Belongs v) : ph.Known rows t := by
  cases ph with
  | announcing | written =>
      refine ⟨h.1, fun y hy ↦ ?_⟩
      obtain ⟨v, hv, hown⟩ := h.2 y hy
      exact ⟨v, hv, hst y v hown⟩
  | idle | registered | prepared | open_ | unregistered | closed => exact h

/-- One session moves on, its socket is registered as its new phase says, and it
goes on to belong to its user. -/
theorem Wf.update (h : Wf rows s) (hsessions : t.sessions = Function.update s.sessions ws ph)
    (hws : ∀ u, ws ∈ t.registry.sockets u ↔ ph.serving = some u)
    (hother : ∀ y u, y ≠ ws → (y ∈ t.registry.sockets u ↔ y ∈ s.registry.sockets u))
    (hbelongs : ∀ v, (s.sessions ws).Belongs v → ph.Belongs v) (hknown : ph.Known rows s) :
    Wf rows t := by
  have hst : ∀ y v, (s.sessions y).Belongs v → (t.sessions y).Belongs v := by
    intro y v hown
    rw [hsessions]
    by_cases hy : y = ws
    · rw [hy, Function.update_self]
      exact hbelongs v (hy ▸ hown)
    · rwa [Function.update_of_ne hy]
  refine ⟨fun y u ↦ ?_, fun y ↦ ?_⟩ <;> rw [hsessions] <;> by_cases hy : y = ws
  · rw [hy, Function.update_self]
    exact hws u
  · rw [Function.update_of_ne hy, hother y u hy]
    exact h.registered y u
  · rw [hy, Function.update_self]
    exact hknown.mono hst
  · rw [Function.update_of_ne hy]
    exact (h.known y).mono hst

/-- One session moves on, and its socket stays as it is. -/
theorem Wf.move (h : Wf rows s) (hregistry : t.registry = s.registry)
    (hsessions : t.sessions = Function.update s.sessions ws ph)
    (hserving : ph.serving = (s.sessions ws).serving) (hlive : ph ≠ .idle)
    (hknown : ph.Known rows s) : Wf rows t := by
  refine h.update hsessions (fun u ↦ ?_) (fun y u _ ↦ by rw [hregistry])
    (fun v hown ↦ ⟨hlive, hserving ▸ hown.2⟩) hknown
  rw [hregistry, hserving]
  exact h.registered ws u

/-- A delivery takes its snapshot. -/
theorem Wf.snapshot (h : Wf rows s) {todo : List UUID} {sending : Finset Socket}
    (hknown : (Phase.announcing u todo sending).Known rows s) (hv : v ∈ todo) :
    (Phase.announcing u (todo.erase v) (sending ∪ s.registry.sockets v)).Known rows s := by
  refine ⟨fun w hw ↦ hknown.1 w (List.mem_of_mem_erase hw), fun y hy ↦ ?_⟩
  rcases Finset.mem_union.mp hy with hold | hnew
  · exact hknown.2 y hold
  · exact ⟨v, hknown.1 v hv, h.belongs hnew⟩

theorem Wf.step (h : Wf rows s) (ht : Sessions.step rows s a = some t) : Wf rows t := by
  cases Move.of_step ht with
  | @connect ws u phase =>
      refine h.update rfl (fun w ↦ ?_) (fun y w hy ↦ ?_) (fun v hown ↦ absurd phase hown.1) trivial
      · have hfree : ws ∉ s.registry.sockets w := fun hmem ↦ by
          rw [h.registered, phase] at hmem
          cases hmem
        refine Registry.mem_sockets_connect.trans ((or_iff_left hfree).trans ?_)
        simp [Phase.serving, eq_comm]
      · exact Registry.mem_sockets_connect.trans (or_iff_right fun hown ↦ hy hown.1)
  | @leave ws u now phase =>
      refine h.update rfl (fun w ↦ ?_) (fun y w hy ↦ ?_) (fun v _ ↦ ?_) (by split <;> trivial)
      · have hgone : ¬ ws ∈ (s.registry.disconnect u ws).2.sockets w := fun hmem ↦ by
          obtain ⟨hother, hmem⟩ := Registry.mem_sockets_disconnect.mp hmem
          rw [h.registered, phase] at hmem
          cases hmem
          exact hother ⟨rfl, rfl⟩
        refine iff_of_false hgone ?_
        split <;> nofun
      · exact Registry.mem_sockets_disconnect.trans (and_iff_right fun hown ↦ hy hown.1)
      · split <;> exact ⟨nofun, nofun⟩
  | @ready ws u b ps phase =>
      have hps : ps = peerIds rows u := h.known_of phase
      refine h.move rfl rfl ?_ ?_ ?_
      · rw [phase]
        split <;> rfl
      · split <;> nofun
      · split
        · exact ⟨fun v hv ↦ hps ▸ (mem_targets.mp hv).1,
            fun y hy ↦ absurd hy (Finset.notMem_empty y)⟩
        · trivial
  | peers phase => exact h.move rfl rfl (by rw [phase]; rfl) nofun rfl
  | write phase =>
      exact h.move rfl rfl (by rw [phase]; rfl) nofun
        ⟨fun v hv ↦ (mem_targets.mp hv).1, fun y hy ↦ absurd hy (Finset.notMem_empty y)⟩
  | deliverOnline phase due | deliverOffline phase due =>
      have hknown := h.known_of phase
      exact h.move rfl rfl (by rw [phase]; rfl) nofun (h.snapshot hknown due)
  | sendOnline phase | sendOffline phase =>
      have hknown := h.known_of phase
      exact h.move rfl rfl (by rw [phase]; rfl) nofun
        ⟨hknown.1, fun y hy ↦ hknown.2 y (Finset.mem_of_mem_erase hy)⟩
  | announced phase | ended phase => exact h.move rfl rfl (by rw [phase]; rfl) nofun trivial

/-! ## What a step makes of one user as seen by another -/

theorem Phase.serving_of_viewing (h : ph.viewing = some v) : ph.serving = some v := by
  cases ph <;> first | exact h | cases h

/-- A socket that has been sent `connection.ready` is its user's, and no one else's. -/
theorem Wf.mem_sockets (h : Wf rows s) (hx : (s.sessions x).viewing = some v) :
    x ∈ s.registry.sockets w ↔ w = v := by
  rw [h.registered, Phase.serving_of_viewing hx, Option.some.injEq, eq_comm]

/-- A session moves on, and has still to send what it had. -/
theorem arriving_set {before : Phase} (hws : s.sessions ws = before)
    (h : ph.Arriving u v x ↔ before.Arriving u v x) :
    (s.set ws ph).Arriving u v x ↔ s.Arriving u v x :=
  exists_update_congr (P := Phase.Arriving u v x) hws h

theorem leaving_set {before : Phase} (hws : s.sessions ws = before)
    (h : ph.Leaving u v x ↔ before.Leaving u v x) :
    (s.set ws ph).Leaving u v x ↔ s.Leaving u v x :=
  exists_update_congr (P := Phase.Leaving u v x) hws h

/-- A socket that has been sent `connection.ready` had been sent it before. -/
theorem viewing_of_set (hph : ph.viewing = some v → (s.sessions ws).viewing = some v)
    (hx : ((s.set ws ph).sessions x).viewing = some v) : (s.sessions x).viewing = some v := by
  change (Function.update s.sessions ws ph x).viewing = some v at hx
  by_cases hxw : x = ws
  · rw [hxw, Function.update_self] at hx
    rw [hxw]
    exact hph hx
  · rwa [Function.update_of_ne hxw] at hx

theorem sees_sendJson_self (event : Event) :
    ((s.sendJson x event).set ws ph).Sees p₀ x u ↔ Presence.isOnline (Presence.handleEvent
      ((s.received x).foldl Presence.handleEvent p₀) event) u = true := by
  simp only [State.Sees, State.set, State.sendJson, Function.update_self, List.foldl_append,
    List.foldl_cons, List.foldl_nil]

theorem sees_sendJson_of_ne {y : Socket} (hx : x ≠ y) (event : Event) :
    ((s.sendJson y event).set ws ph).Sees p₀ x u ↔ s.Sees p₀ x u := by
  simp only [State.Sees, State.set, State.sendJson, Function.update_of_ne hx]

/-- An event that goes elsewhere, or is about someone else, changes nothing of what is shown. -/
theorem sees_sendJson_other {y : Socket} {event : Event}
    (hevent : x = y → ∀ p, Presence.isOnline (Presence.handleEvent p event) u =
      Presence.isOnline p u) :
    ((s.sendJson y event).set ws ph).Sees p₀ x u ↔ s.Sees p₀ x u := by
  by_cases hxy : x = y
  · subst hxy
    rw [sees_sendJson_self, hevent rfl]
    exact Iff.rfl
  · exact sees_sendJson_of_ne hxy event

/-- What is due to a socket stays so when a delivery takes its snapshot. -/
theorem due_snapshot (hwf : Wf rows s) (hx : (s.sessions x).viewing = some v) {todo : List UUID}
    {sending : Finset Socket} (hw : w ∈ todo) :
    (v ∈ todo.erase w ∨ x ∈ sending ∪ s.registry.sockets w) ↔ (v ∈ todo ∨ x ∈ sending) := by
  rw [Finset.mem_union, hwf.mem_sockets hx]
  by_cases hwv : w = v
  · subst hwv
    exact iff_of_true (Or.inr (Or.inr rfl)) (Or.inl hw)
  · rw [List.mem_erase_of_ne (Ne.symm hwv), or_iff_left hwv]

/-- What a step makes of `u`, of what is still to be sent to a socket of `v` about
`u`, and of what the socket shows. -/
inductive Effect (p₀ : Presence) (s : State) (a : Action) (t : State) (x : Socket) (v u : UUID) :
    Prop
  | stay (viewer : (s.sessions x).viewing = some v) (sees : t.Sees p₀ x u ↔ s.Sees p₀ x u)
      (serves : t.Serves u ↔ s.Serves u) (arriving : t.Arriving u v x ↔ s.Arriving u v x)
      (leaving : t.Leaving u v x ↔ s.Leaving u v x)
  | come (cause : ∃ ws, a = .connect ws u) (viewer : (s.sessions x).viewing = some v)
      (sees : t.Sees p₀ x u ↔ s.Sees p₀ x u) (serves : t.Serves u)
      (arriving : ¬ s.Serves u ∨ s.Arriving u v x → t.Arriving u v x)
  | go (cause : ∃ ws now, a = .leave ws now) (serves : ¬ t.Serves u) (leaving : t.Leaving u v x)
  | snapshot (fresh : (s.sessions x).viewing = none) (sees : t.Sees p₀ x u ↔ t.Serves u)
  | online (due : s.Arriving u v x) (sees : t.Sees p₀ x u) (serves : t.Serves u)
  | offline (orderly : Orderly s a → s.Serves u → s.Arriving u v x)
      (viewer : (s.sessions x).viewing = some v) (sees : ¬ t.Sees p₀ x u)
      (serves : t.Serves u ↔ s.Serves u) (arriving : t.Arriving u v x ↔ s.Arriving u v x)

theorem connect_effect (p₀ : Presence) (ht : step rows s (.connect ws w) = some t)
    (hx : (t.sessions x).viewing = some v) : Effect p₀ s (.connect ws w) t x v u := by
  cases Move.of_step ht with
  | connect phase =>
      have hviewer := viewing_of_set (by nofun) hx
      by_cases hw : w = u
      · subst hw
        refine .come ⟨ws, rfl⟩ hviewer Iff.rfl ?_ ?_
        · exact Registry.sockets_connect_ne_empty.mpr (Or.inl rfl)
        · rintro (hoffline | harriving)
          · refine ⟨ws, ?_⟩
            show (Function.update s.sessions ws _ ws).Arriving w v x
            rw [Function.update_self]
            exact ⟨rfl, Registry.connect_fst.mpr (not_not.mp hoffline)⟩
          · have hidle : ¬ (s.sessions ws).Arriving w v x := by
              rw [phase]
              exact id
            exact (exists_update (P := Phase.Arriving w v x) hidle).mpr (Or.inr harriving)
      · refine .stay hviewer Iff.rfl ?_ ?_ ?_
        · exact Registry.sockets_connect_ne_empty.trans (or_iff_right (Ne.symm hw))
        · exact arriving_set phase (iff_of_false (fun h ↦ hw h.1) id)
        · exact leaving_set phase Iff.rfl

theorem ready_effect (p₀ : Presence) (hwf : Wf rows s) (ht : step rows s (.ready ws) = some t)
    (hx : (t.sessions x).viewing = some v) (hu : u ∈ peerIds rows v) :
    Effect p₀ s (.ready ws) t x v u := by
  cases Move.of_step ht with
  | @ready _ w b ps phase =>
      have hps : ps = peerIds rows w := hwf.known_of phase
      have hvu : v ∈ peerIds rows u := mem_peerIds_comm.mpr hu
      by_cases hxw : x = ws
      · subst hxw
        have hw : w = v := by
          change (Function.update s.sessions x _ x).viewing = some v at hx
          rw [Function.update_self] at hx
          cases b <;> exact Option.some.inj hx
        subst hw
        refine .snapshot (by rw [phase]; rfl) (sees_sendJson_self _ |>.trans ?_)
        show _ ↔ s.registry.sockets u ≠ ∅
        simp only [Presence.handleEvent, Presence.isOnline_setPresenceSnapshot, decide_eq_true_eq,
          Registry.onlineUserIds, List.mem_filter, hps, hu, true_and]
      · have hviewer : (s.sessions x).viewing = some v := by
          change (Function.update s.sessions ws _ x).viewing = some v at hx
          rwa [Function.update_of_ne hxw] at hx
        refine .stay hviewer (sees_sendJson_of_ne hxw _) Iff.rfl (arriving_set phase ?_)
          (leaving_set phase ?_)
        · cases b with
          | true =>
              refine ⟨fun h ↦ ⟨h.1, rfl⟩, fun h ↦ ⟨h.1, Or.inl (mem_targets.mpr ?_)⟩⟩
              obtain rfl : w = u := h.1
              exact ⟨hps ▸ hvu, (mem_peerIds.mp hvu).1⟩
          | false => exact iff_of_false id fun h ↦ Bool.false_ne_true h.2
        · cases b <;> exact Iff.rfl

theorem leave_effect (p₀ : Presence) {now : Instant} (ht : step rows s (.leave ws now) = some t)
    (hx : (t.sessions x).viewing = some v) : Effect p₀ s (.leave ws now) t x v u := by
  cases Move.of_step ht with
  | @leave _ w _ phase =>
      have hviewer : (s.sessions x).viewing = some v := by
        refine viewing_of_set (fun hph ↦ ?_) hx
        split at hph <;> cases hph
      by_cases hw : w = u ∧ (s.registry.disconnect w ws).1 = true
      · obtain ⟨rfl, hlast⟩ := hw
        refine .go ⟨ws, now, rfl⟩ (not_not.mpr (Registry.disconnect_fst.mp hlast).2) ⟨ws, ?_⟩
        show (Function.update s.sessions ws _ ws).Leaving w v x
        rw [Function.update_self, if_pos hlast]
        rfl
      · refine .stay hviewer Iff.rfl ?_ (arriving_set phase ?_) (leaving_set phase ?_)
        · refine Registry.sockets_disconnect_ne_empty.trans (and_iff_left fun h ↦ hw ?_)
          exact ⟨h.1.symm, h.2⟩
        · split <;> exact Iff.rfl
        · split
          · exact iff_of_false (fun h ↦ hw ⟨h, ‹_›⟩) id
          · exact Iff.rfl

theorem send_effect (p₀ : Presence) (hwf : Wf rows s) {y : Socket}
    (ht : step rows s (.send ws y) = some t) (hx : (t.sessions x).viewing = some v) :
    Effect p₀ s (.send ws y) t x v u := by
  cases Move.of_step ht with
  | @sendOnline _ _ w todo sending phase due =>
      have hviewer : (s.sessions x).viewing = some v := by
        refine viewing_of_set (fun hph ↦ ?_) hx
        rw [phase]
        exact hph
      by_cases hown : w = u ∧ x = y
      · obtain ⟨rfl, rfl⟩ := hown
        refine .online ⟨ws, by rw [phase]; exact ⟨rfl, Or.inr due⟩⟩ ?_ ?_
        · rw [sees_sendJson_self]
          simp only [Presence.handleEvent, Presence.isOnline_setPresence, if_true]
        · refine Finset.ne_empty_of_mem ((hwf.registered ws w).mpr ?_)
          rw [phase]
          rfl
      · refine .stay hviewer (sees_sendJson_other fun hxy p ↦ ?_) Iff.rfl
          (arriving_set phase ?_) (leaving_set phase Iff.rfl)
        · have hne : ¬ u = w := fun h ↦ hown ⟨h.symm, hxy⟩
          simp only [Presence.handleEvent, Presence.isOnline_setPresence, if_neg hne]
        · refine and_congr_right fun h ↦ or_congr Iff.rfl ?_
          exact Finset.mem_erase.trans (and_iff_right fun hxy ↦ hown ⟨h, hxy⟩)
  | @sendOffline _ _ w seen todo sending phase due =>
      have hviewer := viewing_of_set (by nofun) hx
      have harriving : ((s.sendJson y (.presenceOffline w seen)).set ws
          (.written w seen todo (sending.erase y))).Arriving u v x ↔ s.Arriving u v x :=
        arriving_set phase Iff.rfl
      by_cases hown : w = u ∧ x = y
      · obtain ⟨rfl, rfl⟩ := hown
        refine .offline (fun hok ↦ hok w seen todo sending v phase hviewer) hviewer ?_ Iff.rfl
          harriving
        rw [sees_sendJson_self]
        simp only [Presence.handleEvent, Presence.isOnline_setPresence, if_true]
        exact Bool.false_ne_true
      · refine .stay hviewer (sees_sendJson_other fun hxy p ↦ ?_) Iff.rfl harriving
          (leaving_set phase ?_)
        · have hne : ¬ u = w := fun h ↦ hown ⟨h.symm, hxy⟩
          simp only [Presence.handleEvent, Presence.isOnline_setPresence, if_neg hne]
        · refine and_congr_right fun h ↦ or_congr Iff.rfl ?_
          exact Finset.mem_erase.trans (and_iff_right fun hxy ↦ hown ⟨h, hxy⟩)

theorem step_effect (p₀ : Presence) (hwf : Wf rows s) (ht : step rows s a = some t)
    (hx : (t.sessions x).viewing = some v) (hu : u ∈ peerIds rows v) :
    Effect p₀ s a t x v u := by
  cases Move.of_step ht with
  | connect => exact connect_effect p₀ ht hx
  | ready => exact ready_effect p₀ hwf ht hx hu
  | leave => exact leave_effect p₀ ht hx
  | sendOnline | sendOffline => exact send_effect p₀ hwf ht hx
  | peers phase =>
      exact .stay (viewing_of_set (by nofun) hx) Iff.rfl Iff.rfl (arriving_set phase Iff.rfl)
        (leaving_set phase Iff.rfl)
  | deliverOnline phase due =>
      have hviewer := viewing_of_set (fun hph ↦ by rw [phase]; exact hph) hx
      exact .stay hviewer Iff.rfl Iff.rfl
        (arriving_set phase (and_congr_right fun _ ↦ due_snapshot hwf hviewer due))
        (leaving_set phase Iff.rfl)
  | deliverOffline phase due =>
      have hviewer := viewing_of_set (by nofun) hx
      exact .stay hviewer Iff.rfl Iff.rfl (arriving_set phase Iff.rfl)
        (leaving_set phase (and_congr_right fun _ ↦ due_snapshot hwf hviewer due))
  | announced phase =>
      have hviewer := viewing_of_set (fun hph ↦ by rw [phase]; exact hph) hx
      exact .stay hviewer Iff.rfl Iff.rfl (arriving_set phase (by simp [Phase.Arriving]))
        (leaving_set phase Iff.rfl)
  | @write ws w seen phase =>
      refine .stay (viewing_of_set (by nofun) hx) Iff.rfl Iff.rfl (arriving_set phase Iff.rfl)
        (leaving_set phase ⟨And.left, fun hw ↦ ⟨hw, Or.inl (mem_targets.mpr ?_)⟩⟩)
      obtain rfl : w = u := hw
      have hvw : v ∈ peerIds rows w := mem_peerIds_comm.mpr hu
      exact ⟨hvw, (mem_peerIds.mp hvw).1⟩
  | ended phase =>
      exact .stay (viewing_of_set (by nofun) hx) Iff.rfl Iff.rfl (arriving_set phase Iff.rfl)
        (leaving_set phase (by simp [Phase.Leaving]))

/-! ## Runs -/

/-- What sockets show is right but for what has still to be delivered. -/
structure Viewed (rows : List ConversationMember) (p₀ : Presence) (s : State) : Prop where
  wf : Wf rows s
  sees : ∀ x v u, (s.sessions x).viewing = some v → u ∈ peerIds rows v →
    s.Sees p₀ x u → s.Serves u ∨ s.Leaving u v x
  serves : ∀ x v u, (s.sessions x).viewing = some v → u ∈ peerIds rows v →
    s.Serves u → s.Sees p₀ x u ∨ s.Arriving u v x

theorem Viewed.initial (h : Initial s) : Viewed rows p₀ s := by
  have hnone : ∀ x v, (s.sessions x).viewing ≠ some v := fun x v ↦ by
    rw [h.2.1 x]
    exact nofun
  exact ⟨.initial h, fun x v _ hx ↦ absurd hx (hnone x v), fun x v _ hx ↦ absurd hx (hnone x v)⟩

/-- **The invariant survives every orderly step.** -/
theorem Viewed.step (h : Viewed rows p₀ s) (hok : Orderly s a)
    (ht : Sessions.step rows s a = some t) : Viewed rows p₀ t := by
  refine ⟨h.wf.step ht, fun x v u hx hu hsees ↦ ?_, fun x v u hx hu hserves ↦ ?_⟩
  · cases step_effect p₀ h.wf ht hx hu with
    | stay viewer sees serves arriving leaving =>
        rw [serves, leaving]
        exact h.sees x v u viewer hu (sees.mp hsees)
    | come cause viewer sees serves arriving => exact Or.inl serves
    | go cause serves leaving => exact Or.inr leaving
    | snapshot fresh sees => exact Or.inl (sees.mp hsees)
    | online due sees serves => exact Or.inl serves
    | offline orderly viewer sees => exact absurd hsees sees
  · cases step_effect p₀ h.wf ht hx hu with
    | stay viewer sees serves arriving leaving =>
        rw [sees, arriving]
        exact h.serves x v u viewer hu (serves.mp hserves)
    | come cause viewer sees serves arriving =>
        rw [sees]
        by_cases hbefore : s.Serves u
        · exact (h.serves x v u viewer hu hbefore).imp_right fun h ↦ arriving (Or.inr h)
        · exact Or.inr (arriving (Or.inl hbefore))
    | go cause serves leaving => exact absurd hserves serves
    | snapshot fresh sees => exact Or.inl (sees.mpr hserves)
    | online due sees serves => exact Or.inl sees
    | offline orderly viewer sees serves arriving =>
        exact Or.inr (arriving.mpr (orderly hok (serves.mp hserves)))

theorem Quiet.not_arriving (h : Quiet s) : ¬ s.Arriving u v x := by
  rintro ⟨ws, hws⟩
  rcases h ws with hphase | ⟨w, hphase⟩ | hphase <;> rw [hphase] at hws <;> exact hws

theorem Quiet.not_leaving (h : Quiet s) : ¬ s.Leaving u v x := by
  rintro ⟨ws, hws⟩
  rcases h ws with hphase | ⟨w, hphase⟩ | hphase <;> rw [hphase] at hws <;> exact hws

/-- A registered socket of which no step is pending has been sent `connection.ready`. -/
theorem Quiet.viewing (h : Quiet s) (hwf : Wf rows s) (hx : x ∈ s.registry.sockets v) :
    (s.sessions x).viewing = some v := by
  rw [hwf.registered] at hx
  rcases h x with hphase | ⟨w, hphase⟩ | hphase <;> rw [hphase] at hx ⊢
  · cases hx
  · exact hx
  · cases hx

/-- **What peers see converges.**  In a run in which no `presence.offline` is
sent out of order, whenever no session has a step pending, the events that
have reached a user's socket show exactly those peers as online that have a
registered socket, whatever the client showed before. -/
theorem presence_converges (rows : List ConversationMember) (p₀ : Presence) {s₀ s : State}
    (h₀ : Initial s₀) {as : List Action} (hrun : exec (step rows) s₀ as = some s)
    (horder : Along (step rows) Orderly s₀ as) (hquiet : Quiet s)
    (hx : x ∈ s.registry.sockets v) (hu : u ∈ peerIds rows v) : s.Sees p₀ x u ↔ s.Serves u := by
  have h : Viewed rows p₀ s := exec_induction (P := Viewed rows p₀)
    (fun h hok ht ↦ h.step hok ht) (.initial h₀) hrun horder
  have hviewing := hquiet.viewing h.wf hx
  exact ⟨fun hsees ↦ (h.sees x v u hviewing hu hsees).resolve_right hquiet.not_leaving,
    fun hserves ↦ (h.serves x v u hviewing hu hserves).resolve_right hquiet.not_arriving⟩

/-! ## Late announcements -/

/-- The step lets no one come or go. -/
def Finishing : Action → Prop
  | .connect _ _ | .leave _ _ => False
  | _ => True

/-- A socket of `v` shows `u` as offline, who is online, and nothing will change that. -/
def Misled (rows : List ConversationMember) (p₀ : Presence) (s : State) (x : Socket) (v u : UUID) :
    Prop :=
  (s.sessions x).viewing = some v ∧ u ∈ peerIds rows v ∧ s.Serves u ∧ ¬ s.Sees p₀ x u ∧
    ¬ s.Arriving u v x

/-- A session that moves on still shows what it shows. -/
theorem viewing_set_of_imp (hph : (s.sessions ws).viewing = some v → ph.viewing = some v)
    (hx : (s.sessions x).viewing = some v) : ((s.set ws ph).sessions x).viewing = some v := by
  show (Function.update s.sessions ws ph x).viewing = some v
  by_cases hxw : x = ws
  · rw [hxw, Function.update_self]
    exact hph (hxw ▸ hx)
  · rwa [Function.update_of_ne hxw]

theorem viewing_step (ht : step rows s a = some t) (hfin : Finishing a)
    (hx : (s.sessions x).viewing = some v) : (t.sessions x).viewing = some v := by
  cases Move.of_step ht with
  | connect | leave => cases hfin
  | peers phase | ready phase | write phase | deliverOffline phase | sendOffline phase
  | ended phase =>
      refine viewing_set_of_imp (fun h ↦ ?_) hx
      change (s.sessions _).viewing = some v at h
      rw [phase] at h
      cases h
  | deliverOnline phase | sendOnline phase | announced phase =>
      refine viewing_set_of_imp (fun h ↦ ?_) hx
      change (s.sessions _).viewing = some v at h
      rw [phase] at h
      exact h

theorem Misled.step (h : Misled rows p₀ s x v u) (hwf : Wf rows s) (hfin : Finishing a)
    (ht : Sessions.step rows s a = some t) : Misled rows p₀ t x v u := by
  obtain ⟨hviewing, hu, hserves, hsees, harriving⟩ := h
  have hviewing' := viewing_step ht hfin hviewing
  cases step_effect p₀ hwf ht hviewing' hu with
  | stay viewer sees serves arriving =>
      exact ⟨hviewing', hu, serves.mpr hserves, hsees ∘ sees.mp, harriving ∘ arriving.mp⟩
  | come cause =>
      obtain ⟨ws, rfl⟩ := cause
      cases hfin
  | go cause =>
      obtain ⟨ws, now, rfl⟩ := cause
      cases hfin
  | snapshot fresh => cases hviewing.symm.trans fresh
  | online due => exact absurd due harriving
  | offline orderly viewer sees serves arriving =>
      exact ⟨hviewing', hu, serves.mpr hserves, sees, harriving ∘ arriving.mp⟩

/-- A `presence.offline` that is sent out of order misleads a peer. -/
theorem exists_of_not_orderly (p₀ : Presence) (hwf : Wf rows s) (hbad : ¬ Orderly s a)
    (ht : step rows s a = some t) : ∃ x v u, Misled rows p₀ t x v u := by
  cases a with
  | send ws y =>
      simp only [Orderly, not_forall] at hbad
      obtain ⟨u, seen, todo, sending, v, phase, hy, hserves, harriving⟩ := hbad
      have hy' := viewing_step ht trivial hy
      cases Move.of_step ht with
      | sendOnline phase' => cases phase.symm.trans phase'
      | sendOffline phase' due =>
          cases phase.symm.trans phase'
          obtain ⟨w, hw, -, hown⟩ := (hwf.known_of phase).2 y due
          obtain rfl := hown v (Phase.serving_of_viewing hy)
          refine ⟨y, v, u, hy', mem_peerIds_comm.mp hw, hserves, ?_, ?_⟩
          · rw [sees_sendJson_self]
            simp only [Presence.handleEvent, Presence.isOnline_setPresence, if_true]
            exact Bool.false_ne_true
          · refine fun h ↦ harriving ((arriving_set phase ?_).mp h)
            exact Iff.rfl
  | connect | peers | ready | leave | write | deliver | delivered => exact absurd trivial hbad

/-- **The condition is exact**: when a `presence.offline` has been sent out of order
and all sessions finish what is pending, some socket shows a user as
offline who has a registered socket. -/
theorem late_offline_misleads (hwf : Wf rows s) (hbad : ¬ Orderly s a) {as : List Action}
    (ht : exec (step rows) s (a :: as) = some t)
    (hfin : Along (step rows) (fun _ b ↦ Finishing b) s (a :: as)) :
    ∃ x v u, (t.sessions x).viewing = some v ∧ u ∈ peerIds rows v ∧
      ¬ (t.Sees p₀ x u ↔ t.Serves u) := by
  obtain ⟨m, hm, hrest⟩ := exec_cons_eq_some.mp ht
  obtain ⟨x, v, u, hmisled⟩ := exists_of_not_orderly p₀ hwf hbad hm
  have hend : Wf rows t ∧ Misled rows p₀ t x v u := by
    refine exec_induction (P := fun s ↦ Wf rows s ∧ Misled rows p₀ s x v u)
      (fun h hok hstep ↦ ⟨h.1.step hstep, h.2.step h.1 hok hstep⟩) ⟨hwf.step hm, hmisled⟩ hrest
      (hfin.2 m hm)
  obtain ⟨hviewing, hu, hserves, hsees, -⟩ := hend.2
  exact ⟨x, v, u, hviewing, hu, fun hagree ↦ hsees (hagree.mpr hserves)⟩

/-- Nobody has connected yet. -/
def nobody : State := ⟨.empty, fun _ ↦ .idle, fun _ ↦ [], fun _ ↦ none⟩

/-- Users 1 and 2 share a conversation. -/
def sharing : List ConversationMember := [⟨0, 1⟩, ⟨0, 2⟩]

/-- User 2 is connected.  User 1 connects, leaves and connects again, and the
delivery that belongs to the leaving comes last. -/
def reconnecting : List Action :=
  [.connect 2 2, .peers 2, .ready 2, .deliver 2 1, .delivered 2,
    .connect 0 1, .peers 0, .ready 0, .deliver 0 2, .send 0 2, .delivered 0, .leave 0 5,
    .connect 1 1, .peers 1, .ready 1, .deliver 1 2, .send 1 2, .delivered 1,
    .write 0, .deliver 0 2, .send 0 2, .delivered 0]

/-- User 1 has a registered socket, and is shown to user 2 as offline. -/
theorem reconnecting_shown_offline : Initial nobody ∧
    ∃ s, exec (step sharing) nobody reconnecting = some s ∧ Quiet s ∧
      2 ∈ s.registry.sockets 2 ∧ 1 ∈ peerIds sharing 2 ∧
      ¬ (s.Sees (fun _ ↦ none) 2 1 ↔ s.Serves 1) := by
  refine ⟨⟨rfl, fun _ ↦ rfl, fun _ ↦ rfl⟩, ?_⟩
  obtain ⟨s, hrun, hquiet, hviewer, hserves, hreceived⟩ :
      ∃ s, exec (step sharing) nobody reconnecting = some s ∧ Quiet s ∧
        2 ∈ s.registry.sockets 2 ∧ s.Serves 1 ∧
        s.received 2 = [.connectionReady [], .presenceOnline 1, .presenceOnline 1,
          .presenceOffline 1 5] := by
    refine ⟨_, rfl, fun ws ↦ ?_, by decide, by decide, rfl⟩
    match ws with
    | 0 => exact Or.inr (Or.inr rfl)
    | 1 => exact Or.inr (Or.inl ⟨1, rfl⟩)
    | 2 => exact Or.inr (Or.inl ⟨2, rfl⟩)
    | ws + 3 => exact Or.inl rfl
  refine ⟨s, hrun, hquiet, hviewer, by decide, fun hagree ↦ ?_⟩
  have hsees := hagree.mpr hserves
  rw [State.Sees, hreceived] at hsees
  cases hsees

/-- User 1 leaves, and is announced as offline before connecting again. -/
def returning : List Action :=
  [.connect 2 2, .peers 2, .ready 2, .deliver 2 1, .delivered 2,
    .connect 0 1, .peers 0, .ready 0, .deliver 0 2, .send 0 2, .delivered 0, .leave 0 5, .write 0,
    .deliver 0 2, .connect 1 1, .send 0 2, .delivered 0, .peers 1, .ready 1, .deliver 1 2,
    .send 1 2, .delivered 1]

theorem presence_converges_returning :
    ∃ s, exec (step sharing) nobody returning = some s ∧
      (s.Sees (fun _ ↦ none) 2 1 ↔ s.Serves 1) := by
  obtain ⟨s, hrun, hquiet, hviewer⟩ :
      ∃ s, exec (step sharing) nobody returning = some s ∧ Quiet s ∧
        2 ∈ s.registry.sockets 2 := by
    refine ⟨_, rfl, fun ws ↦ ?_, by decide⟩
    match ws with
    | 0 => exact Or.inr (Or.inr rfl)
    | 1 => exact Or.inr (Or.inl ⟨1, rfl⟩)
    | 2 => exact Or.inr (Or.inl ⟨2, rfl⟩)
    | ws + 3 => exact Or.inl rfl
  refine ⟨s, hrun, presence_converges sharing (fun _ ↦ none)
    ⟨rfl, fun _ ↦ rfl, fun _ ↦ rfl⟩ hrun ?_ hquiet hviewer (by decide)⟩
  refine .cons trivial rfl (.cons trivial rfl (.cons trivial rfl (.cons trivial rfl
    (.cons trivial rfl (.cons trivial rfl (.cons trivial rfl (.cons trivial rfl
    (.cons trivial rfl (.cons ?_ rfl (.cons trivial rfl (.cons trivial rfl (.cons trivial rfl
    (.cons trivial rfl (.cons trivial rfl (.cons ?_ rfl (.cons trivial rfl (.cons trivial rfl
    (.cons trivial rfl (.cons trivial rfl (.cons ?_ rfl (.cons trivial rfl trivial)))))))))))))))))))))
  · rintro u lastSeen todo sending v ⟨⟩
  · rintro u lastSeen todo sending v ⟨⟩ ⟨⟩ -
    exact ⟨1, rfl, rfl⟩
  · rintro u lastSeen todo sending v ⟨⟩

end Chatterbox.Realtime.Sessions
