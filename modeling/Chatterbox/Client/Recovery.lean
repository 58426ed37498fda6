import Chatterbox.Conversations.DirectKey
import Chatterbox.Messages.Recovery
import Chatterbox.Run

/-!
# Recovery after a reconnect

While it is connected the client receives every new message; what is persisted
while it is not, it has to ask for.  When the socket reopens,
`recoverLoadedConversations` takes the cursor of the newest message that the client
knows and walks forwards from it, at most 20 pages of 100 messages.

Nothing below that cursor is asked for.  A pass may fail, and messages that arrive
live in the meantime become the newest ones: the next pass starts behind them, and
what the failed one was to fetch is never fetched.  `recovery_gapless` says that
this is the only way to a gap: there is none after runs in which nothing is missing
below the cursor of any pass (`Recoverable`).

| step | source |
|---|---|
| `persist` | a message is committed, and sent if the client is connected |
| `deliver` | `handleEvent` for `message.created` |
| `drop`, `reopen` | the socket closes; `onOpen(true)` |
| `answer`, `receive`, `fail` | a page request of a pass: at the server, answered, failed |

Several passes may be under way, as nothing stops an old one.  The model follows one
conversation, whose history query is loaded and not fetched again.
-/

namespace Chatterbox.Client.Recovery

open Messages (Message MessageTable MessagePage Cursor encodeCursor cursorAt stamp visible)

/-- The texts of an instant and of a UUID, and `String.prototype.localeCompare`. -/
structure Locale where
  iso : Instant → String
  uuid : UUID → String
  localeCompare : String → String → Ordering

/-- The comparison of `newestMessage`. -/
def Locale.compare (l : Locale) (left right : Message) : Ordering :=
  if l.iso left.createdAt = l.iso right.createdAt then
    l.localeCompare (l.uuid left.id) (l.uuid right.id)
  else l.localeCompare (l.iso left.createdAt) (l.iso right.createdAt)

/-- `newestMessage`. -/
def newestMessage (l : Locale) (messages : List Message) : Option Message :=
  (messages.mergeSort fun left right ↦ l.compare left right ≠ .gt).getLast?

/-- `addRealtimeMessage`, on the messages of the conversation. -/
def addRealtimeMessage (existing : List Message) (message : Message) : List Message :=
  if ∃ item ∈ existing, item.id = message.id then existing else existing ++ [message]

/-- How far a pass has got. -/
inductive Pass where
  /-- It asks for a page. -/
  | running (cursor : Cursor) (pageNumber : ℕ)
  /-- The page is on its way. -/
  | answered (page : MessagePage) (pageNumber : ℕ)
  | completed
  | failed
deriving DecidableEq, Repr

/-- What does not change: who may read, the conversation, the user, and how the
client compares texts. -/
structure Setting where
  members : Members
  conversationId : UUID
  userId : UUID
  locale : Locale

/-- The table of messages; the cached pages and `realtimeMessages` of the client;
its connection, with the messages on their way; and the passes in the order in
which they have been started. -/
structure State where
  messages : MessageTable
  cached : List Message
  realtime : List Message
  connected : Bool
  inFlight : List Message
  passes : ℕ → Option Pass
  started : ℕ

namespace State

/-- The cached pages and `realtimeMessages`. -/
def known (s : State) : List Message := s.cached ++ s.realtime

/-- The message comes after the oldest one that is loaded. -/
def Wanted (s : State) (message : Message) : Prop := ∃ first ∈ s.cached, stamp first < stamp message

instance (s : State) : DecidablePred s.Wanted := fun _ ↦ inferInstanceAs (Decidable (∃ _ ∈ _, _))

def setPass (s : State) (p : ℕ) (pass : Pass) : State :=
  { s with passes := Function.update s.passes p (some pass) }

/-- The pass that was started last. -/
def lastPass (s : State) : Option Pass :=
  match s.started with
  | 0 => none
  | p + 1 => s.passes p

end State

/-- A step. -/
inductive Action where
  | persist (message : Message)
  | deliver (message : Message)
  | drop
  | reopen
  | answer (p : ℕ)
  | receive (p : ℕ)
  | fail (p : ℕ)
deriving DecidableEq, Repr

/-- A pass is started: `recoverLoadedConversations`, up to its loop. -/
def startPass (g : Setting) (s : State) : Pass :=
  match newestMessage g.locale s.known with
  | none => .completed
  | some newest => .running (encodeCursor newest) 0

/-- What a pass does next when a page has come. -/
def nextPass (page : MessagePage) (pageNumber : ℕ) : Pass :=
  match page.nextCursor with
  | none => .completed
  | some cursor => if pageNumber + 1 < 20 then .running cursor (pageNumber + 1) else .completed

/-- One step.  Messages are persisted in the order of their keys. -/
def step (g : Setting) (s : State) : Action → Option State
  | .persist message =>
      if message.conversationId = g.conversationId ∧ message.deletedAt = none ∧
          ∀ other ∈ visible s.messages g.conversationId, stamp other < stamp message then
        (s.messages.insert message).map fun messages ↦
          { s with
            messages
            inFlight := if s.connected then message :: s.inFlight else s.inFlight }
      else none
  | .deliver message =>
      if message ∈ s.inFlight then
        some { s with
          realtime := addRealtimeMessage s.realtime message
          inFlight := s.inFlight.erase message }
      else none
  | .drop => if s.connected then some { s with connected := false, inFlight := [] } else none
  | .reopen =>
      if s.connected then none
      else
        some { s.setPass s.started (startPass g s) with
          connected := true
          started := s.started + 1 }
  | .answer p =>
      match s.passes p with
      | some (.running cursor pageNumber) =>
          match Messages.list g.members s.messages g.conversationId g.userId 100 none
            (some cursor) with
          | .ok page => some (s.setPass p (.answered page pageNumber))
          | .error _ => some (s.setPass p .failed)
      | _ => none
  | .receive p =>
      match s.passes p with
      | some (.answered page pageNumber) =>
          some { s.setPass p (nextPass page pageNumber) with
            realtime := page.items.foldl addRealtimeMessage s.realtime }
      | _ => none
  | .fail p =>
      match s.passes p with
      | some (.running ..) | some (.answered ..) => some (s.setPass p .failed)
      | _ => none

/-- The conversation is loaded, and no pass has been started. -/
structure Initial (g : Setting) (s : State) : Prop where
  loaded : s.cached ≠ []
  cached : ∀ message ∈ s.cached, message ∈ visible s.messages g.conversationId
  complete : ∀ message ∈ visible s.messages g.conversationId, s.Wanted message →
    message ∈ s.cached
  realtime : s.realtime = []
  inFlight : s.inFlight = []
  passes : ∀ p, s.passes p = none
  started : s.started = 0

/-- Connected, with the last pass completed and nothing on its way, the client knows
all messages after the oldest loaded one. -/
def Gapless (g : Setting) (s : State) : Prop :=
  s.connected = true → s.lastPass = some .completed → s.inFlight = [] →
    ∀ message ∈ visible s.messages g.conversationId, s.Wanted message → message ∈ s.known

/-- The messages after the oldest loaded one that the client does not know and that
are not on their way. -/
def missed (g : Setting) (s : State) : List Message :=
  (visible s.messages g.conversationId).filter fun message ↦
    s.Wanted message ∧ message ∉ s.known ∧ message ∉ s.inFlight

/-- When the socket reopens, nothing is missing up to the cursor from which the pass
is to start, and no more than the 20 pages hold comes after it. -/
def Recoverable (g : Setting) (s : State) : Action → Prop
  | .reopen => ∀ newest ∈ newestMessage g.locale s.known,
      (∀ message ∈ visible s.messages g.conversationId, s.Wanted message →
        stamp message ≤ stamp newest → message ∈ s.known) ∧
      ((visible s.messages g.conversationId).filter fun message ↦
        stamp newest < stamp message).length ≤ 2000
  | _ => True

variable {g : Setting} {s t : State} {message other : Message} {k : Instant ×ₗ UUID}
  {missing : List Message}

theorem passes_setPass {p q : ℕ} {pass : Pass} :
    (s.setPass p pass).passes q = if q = p then some pass else s.passes q :=
  Function.update_apply ..

/-! ## What the client knows -/

theorem mem_newestMessage {l : Locale} {messages : List Message}
    (h : newestMessage l messages = some message) : message ∈ messages :=
  List.mem_mergeSort.mp (List.mem_of_getLast? h)

theorem newestMessage_ne_none {l : Locale} {messages : List Message} (h : messages ≠ []) :
    newestMessage l messages ≠ none := by
  rw [newestMessage, Ne, List.getLast?_eq_none_iff]
  intro hnil
  exact h (by simpa using congrArg List.length hnil)

/-- A message with the same `id` is the same message, as far as messages come from the
server. -/
theorem mem_addRealtimeMessage {table : MessageTable} {existing : List Message}
    (hexisting : ∀ item ∈ existing, item ∈ table.rows) (hm : message ∈ table.rows) :
    other ∈ addRealtimeMessage existing message ↔ other ∈ existing ∨ other = message := by
  unfold addRealtimeMessage
  split
  · rename_i hdup
    obtain ⟨item, hitem, hid⟩ := hdup
    obtain rfl := table.eq_of_id (hexisting item hitem) hm hid
    exact (or_iff_left_of_imp fun e ↦ e ▸ hitem).symm
  · rw [List.mem_append, List.mem_singleton]

theorem mem_foldl_addRealtimeMessage {table : MessageTable} {items existing : List Message}
    (hexisting : ∀ item ∈ existing, item ∈ table.rows)
    (hitems : ∀ item ∈ items, item ∈ table.rows) :
    other ∈ items.foldl addRealtimeMessage existing ↔ other ∈ existing ∨ other ∈ items := by
  induction items generalizing existing with
  | nil => simp
  | cons item items ih =>
      obtain ⟨hitem, hitems⟩ := List.forall_mem_cons.mp hitems
      have hnext : ∀ x ∈ addRealtimeMessage existing item, x ∈ table.rows := fun x hx ↦
        ((mem_addRealtimeMessage hexisting hitem).mp hx).elim (hexisting x) fun e ↦ e ▸ hitem
      rw [List.foldl_cons, ih hnext hitems, mem_addRealtimeMessage hexisting hitem, List.mem_cons,
        or_assoc]

/-- What the client has, and what is on its way to it, has come from the table. -/
structure Genuine (g : Setting) (s : State) : Prop where
  loaded : s.cached ≠ []
  known : ∀ message ∈ s.known, message ∈ visible s.messages g.conversationId
  inFlight : ∀ message ∈ s.inFlight, message ∈ visible s.messages g.conversationId
  answered : ∀ p page pageNumber, s.passes p = some (.answered page pageNumber) →
    ∀ message ∈ page.items, message ∈ visible s.messages g.conversationId

/-! ## What a pass covers -/

/-- A pass was started behind `k`, when the messages of `missing` were all that came
after it. -/
structure Covers (g : Setting) (s : State) (k : Instant ×ₗ UUID) (missing : List Message) :
    Prop where
  pivot : ∃ newest ∈ visible s.messages g.conversationId, stamp newest = k
  below : ∀ message ∈ visible s.messages g.conversationId, s.Wanted message →
    stamp message ≤ k → message ∈ s.known
  above : ∀ message ∈ visible s.messages g.conversationId, k < stamp message →
    message ∈ missing ∨ message ∈ s.known ∨ message ∈ s.inFlight
  there : ∀ message ∈ missing, message ∈ visible s.messages g.conversationId
  nodup : missing.Nodup
  /-- What has been persisted since comes after all of them. -/
  later : ∀ message ∈ visible s.messages g.conversationId, k < stamp message →
    message ∈ missing ∨ ∀ r ∈ missing, stamp r < stamp message

/-- What a pass that has got so far has fetched, and how much is left. -/
inductive Awaits (k : Instant ×ₗ UUID) (missing known : List Message) : Pass → Prop
  | running {k' : Instant ×ₗ UUID} {n : ℕ} (hn : n < 20) (hk : k ≤ k')
      (got : ∀ message ∈ missing, stamp message ≤ k' → message ∈ known)
      (left : (missing.filter fun message ↦ k' < stamp message).length ≤ 100 * (20 - n)) :
      Awaits k missing known (.running (cursorAt k') n)
  | last {items : List Message} {n : ℕ}
      (got : ∀ message ∈ missing, message ∈ known ∨ message ∈ items) :
      Awaits k missing known (.answered ⟨items, none⟩ n)
  | more {items : List Message} {k' : Instant ×ₗ UUID} {n : ℕ} (hk : k ≤ k')
      (got : ∀ message ∈ missing, stamp message ≤ k' → message ∈ known ∨ message ∈ items)
      (left : (missing.filter fun message ↦ k' < stamp message).length ≤ 100 * (19 - n)) :
      Awaits k missing known (.answered ⟨items, some (cursorAt k')⟩ n)
  | completed (got : ∀ message ∈ missing, message ∈ known) : Awaits k missing known .completed
  | failed : Awaits k missing known .failed

theorem Awaits.mono {known known' : List Message} {pass : Pass} (h : Awaits k missing known pass)
    (hsub : ∀ message ∈ known, message ∈ known') : Awaits k missing known' pass := by
  cases h with
  | running hn hk got left => exact .running hn hk (fun m hm hle ↦ hsub m (got m hm hle)) left
  | last got => exact .last fun m hm ↦ (got m hm).imp_left (hsub m)
  | more hk got left => exact .more hk (fun m hm hle ↦ (got m hm hle).imp_left (hsub m)) left
  | completed got => exact .completed fun m hm ↦ hsub m (got m hm)
  | failed => exact .failed

/-- The page that the server answers with. -/
theorem Awaits.answer (h : Covers g s k missing) {k' : Instant ×ₗ UUID} {n : ℕ} (hk : k ≤ k')
    (got : ∀ message ∈ missing, stamp message ≤ k' → message ∈ s.known)
    (left : (missing.filter fun message ↦ k' < stamp message).length ≤ 100 * (20 - n)) :
    Awaits k missing s.known (.answered (Messages.forwardPage
      (Keyset.slice stamp 100 (some k') (visible s.messages g.conversationId))) n) := by
  have hd := Messages.visible_nodup s.messages g.conversationId stamp fun _ _ ↦ Messages.stamp_id
  set slice := Keyset.slice stamp 100 (some k') (visible s.messages g.conversationId)
  have hfetched : ∀ m ∈ missing, m ∈ s.known ∨ Keyset.Beyond stamp (some k') m := fun m hm ↦
    (le_or_gt (stamp m) k').imp (got m hm) Keyset.beyond_some.mpr
  cases hmore : slice.more with
  | false =>
      rw [Messages.forwardPage, (Keyset.slice_next_eq_none (by decide) hd).mpr hmore]
      exact .last fun m hm ↦ (hfetched m hm).imp_right fun hbeyond ↦
        Keyset.mem_slice_of_last hd hmore (h.there m hm) hbeyond
  | true =>
      obtain ⟨p, hp, hnext, hmax⟩ := Keyset.slice_next (by decide) hd hmore
      have hlt : ∀ q ∈ slice.items, k' < stamp q := fun q hq ↦
        Keyset.beyond_some.mp (Keyset.mem_of_mem_slice hq).2
      rw [Messages.forwardPage, hnext]
      refine .more (hk.trans (hlt p hp).le) (fun m hm hle ↦ (hfetched m hm).imp_right ?_) ?_
      · intro hbeyond
        rcases Keyset.mem_slice_or_rest 100 (h.there m hm) hbeyond with hitem | hrest
        · exact hitem
        · exact absurd (Keyset.slice_lt_rest hd hp hrest) (not_lt.mpr hle)
      · by_cases hdone : ∀ r ∈ missing, stamp r ≤ stamp p
        · rw [List.filter_eq_nil_iff.mpr fun r hr ↦ by simpa using hdone r hr]
          exact Nat.zero_le _
        · -- Something is left, so the page is full of messages that were missing.
          obtain ⟨r, hr, hpr⟩ : ∃ r ∈ missing, stamp p < stamp r := by
            simpa only [not_forall, not_le, exists_prop] using hdone
          have hpage : ∀ q ∈ slice.items, q ∈ missing := fun q hq ↦
            (h.later q (Keyset.mem_of_mem_slice hq).1 (hk.trans_lt (hlt q hq))).resolve_right
              fun hall ↦ absurd (hall r hr) (not_lt.mpr ((hmax q hq).trans hpr.le))
          have hnodup : (slice.items ++ missing.filter fun m ↦ stamp p < stamp m).Nodup := by
            refine List.nodup_append.mpr ⟨?_, h.nodup.filter _, ?_⟩
            · exact (Keyset.slice_strict 100 (some k') hd).imp fun hab e ↦ hab.ne (congrArg stamp e)
            · rintro q hq _ hrest rfl
              exact absurd (of_decide_eq_true (List.mem_filter.mp hrest).2) (not_lt.mpr (hmax q hq))
          have hsub : ∀ m ∈ slice.items ++ missing.filter fun m ↦ stamp p < stamp m,
              m ∈ missing.filter fun m ↦ k' < stamp m := by
            intro m hm
            refine List.mem_filter.mpr ?_
            rcases List.mem_append.mp hm with hm | hm
            · exact ⟨hpage m hm, decide_eq_true (hlt m hm)⟩
            · obtain ⟨hm, hpm⟩ := List.mem_filter.mp hm
              exact ⟨hm, decide_eq_true ((hlt p hp).trans (of_decide_eq_true hpm))⟩
          have hle := (List.subperm_of_subset hnodup hsub).length_le
          rw [List.length_append, Keyset.slice_length_of_more hmore] at hle
          omega

/-- While the client is connected, its last pass covers what is missing. -/
structure Inv (g : Setting) (s : State) : Prop where
  genuine : Genuine g s
  last : s.connected = true → ∀ p, s.started = p + 1 → ∃ k missing pass,
    s.passes p = some pass ∧ Covers g s k missing ∧ Awaits k missing s.known pass

theorem Inv.initial (h : Initial g s) : Inv g s where
  genuine := {
    loaded := h.loaded
    known := fun message hm ↦ h.cached message (by simpa [State.known, h.realtime] using hm)
    inFlight := fun message hm ↦ by simp [h.inFlight] at hm
    answered := fun p page n hp ↦ by simp [h.passes] at hp }
  last _ p hp := by
    rw [h.started] at hp
    cases hp

/-- The client learns of messages, and its passes get on. -/
theorem Inv.advance (h : Inv g s) {realtime inFlight : List Message} {passes : ℕ → Option Pass}
    (hgenuine : Genuine g { s with realtime, inFlight, passes })
    (hrealtime : ∀ message ∈ s.realtime, message ∈ realtime)
    (hflight : ∀ message ∈ s.inFlight, message ∈ realtime ∨ message ∈ inFlight)
    (hpasses : ∀ p pass, s.passes p = some pass → ∃ pass', passes p = some pass' ∧
      ∀ k missing, Covers g s k missing → Awaits k missing s.known pass →
        Awaits k missing (s.cached ++ realtime) pass') :
    Inv g { s with realtime, inFlight, passes } where
  genuine := hgenuine
  last hconnected p hp := by
    obtain ⟨k, missing, pass, hpass, hcovers, hawaits⟩ := h.last hconnected p hp
    obtain ⟨pass', hpass', hadvance⟩ := hpasses p pass hpass
    have hknown : ∀ message ∈ s.known, message ∈ s.cached ++ realtime := fun message hm ↦
      List.mem_append.mpr ((List.mem_append.mp hm).imp_right (hrealtime message))
    refine ⟨k, missing, pass', hpass', ?_, hadvance k missing hcovers hawaits⟩
    exact { hcovers with
      below := fun message hm hwanted hle ↦ hknown message (hcovers.below message hm hwanted hle)
      above := by
        intro message hm hlt
        rcases hcovers.above message hm hlt with hmissing | hold | hold
        · exact .inl hmissing
        · exact .inr (.inl (hknown message hold))
        · exact .inr ((hflight message hold).imp_left (List.mem_append_right _)) }

/-- One pass gets on. -/
theorem Inv.pass (h : Inv g s) {realtime : List Message} {p : ℕ} {pass pass' : Pass}
    (hrealtime : ∀ message ∈ s.realtime, message ∈ realtime)
    (hgenuine : ∀ message ∈ realtime, message ∈ visible s.messages g.conversationId)
    (hp : s.passes p = some pass)
    (hanswered : ∀ page n, pass' = .answered page n →
      ∀ message ∈ page.items, message ∈ visible s.messages g.conversationId)
    (hadvance : ∀ k missing, Covers g s k missing → Awaits k missing s.known pass →
      Awaits k missing (s.cached ++ realtime) pass') :
    Inv g { s.setPass p pass' with realtime } := by
  refine h.advance ?_ hrealtime (fun _ hm ↦ .inr hm) fun q old hq ↦ ?_
  · exact {
      loaded := h.genuine.loaded
      known := fun message hm ↦ (List.mem_append.mp hm).elim
        (fun hcached ↦ h.genuine.known message (List.mem_append_left _ hcached)) (hgenuine message)
      inFlight := h.genuine.inFlight
      answered := by
        intro q page n hq
        change (s.setPass p pass').passes q = _ at hq
        rw [passes_setPass] at hq
        split at hq
        · exact hanswered page n (Option.some.inj hq)
        · exact h.genuine.answered q page n hq }
  · rw [passes_setPass]
    split
    · rename_i e
      rw [e, hp] at hq
      cases hq
      exact ⟨pass', rfl, hadvance⟩
    · exact ⟨old, hq, fun _ _ _ hawaits ↦ hawaits.mono fun message hm ↦
        List.mem_append.mpr ((List.mem_append.mp hm).imp_right (hrealtime message))⟩

theorem Inv.persist (h : Inv g s) {messages : MessageTable}
    (hconv : message.conversationId = g.conversationId) (hdeleted : message.deletedAt = none)
    (hascending : ∀ other ∈ visible s.messages g.conversationId, stamp other < stamp message)
    (hinsert : s.messages.insert message = some messages) :
    Inv g { s with
      messages
      inFlight := if s.connected then message :: s.inFlight else s.inFlight } := by
  have hvisible : ∀ other, other ∈ visible messages g.conversationId ↔
      other = message ∨ other ∈ visible s.messages g.conversationId := by
    intro other
    rw [Messages.mem_visible, Messages.MessageTable.rows_insert hinsert, Messages.mem_visible,
      List.mem_cons]
    constructor
    · rintro ⟨rfl | hrow, hrest⟩
      · exact .inl rfl
      · exact .inr ⟨hrow, hrest⟩
    · rintro (rfl | ⟨hrow, hrest⟩)
      · exact ⟨.inl rfl, hconv, hdeleted⟩
      · exact ⟨.inr hrow, hrest⟩
  have hold : ∀ {other}, other ∈ visible s.messages g.conversationId →
      other ∈ visible messages g.conversationId := fun hm ↦ (hvisible _).mpr (.inr hm)
  refine ⟨⟨h.genuine.loaded, fun m hm ↦ hold (h.genuine.known m hm), fun m hm ↦ ?_,
    fun p page n hp m hm ↦ hold (h.genuine.answered p page n hp m hm)⟩, fun hconnected p hp ↦ ?_⟩
  · dsimp only at hm
    split at hm
    · rcases List.mem_cons.mp hm with rfl | hm
      · exact (hvisible m).mpr (.inl rfl)
      · exact hold (h.genuine.inFlight m hm)
    · exact hold (h.genuine.inFlight m hm)
  · obtain ⟨k, missing, pass, hpass, hcovers, hawaits⟩ := h.last hconnected p hp
    obtain ⟨newest, hnewest, hk⟩ := hcovers.pivot
    have hlt : k < stamp message := hk ▸ hascending newest hnewest
    have hconnected : s.connected = true := hconnected
    refine ⟨k, missing, pass, hpass, ?_, hawaits⟩
    rw [if_pos hconnected]
    exact {
      pivot := ⟨newest, hold hnewest, hk⟩
      below := by
        intro m hm hwanted hle
        rcases (hvisible m).mp hm with rfl | hm
        · exact absurd hlt (not_lt.mpr hle)
        · exact hcovers.below m hm hwanted hle
      above := by
        intro m hm hkm
        rcases (hvisible m).mp hm with rfl | hm
        · exact .inr (.inr List.mem_cons_self)
        · exact (hcovers.above m hm hkm).imp_right (Or.imp_right (List.mem_cons_of_mem _))
      there := fun m hm ↦ hold (hcovers.there m hm)
      nodup := hcovers.nodup
      later := by
        intro m hm hkm
        rcases (hvisible m).mp hm with rfl | hm
        · exact .inr fun r hr ↦ hascending r (hcovers.there r hr)
        · exact hcovers.later m hm hkm }

theorem Inv.reopen (h : Inv g s) (hok : Recoverable g s .reopen) :
    Inv g { s.setPass s.started (startPass g s) with
      connected := true
      started := s.started + 1 } := by
  have hne : s.known ≠ [] := fun e ↦ h.genuine.loaded (List.append_eq_nil_iff.mp e).1
  obtain ⟨newest, hnewest⟩ := Option.ne_none_iff_exists'.mp
    (newestMessage_ne_none (l := g.locale) hne)
  obtain ⟨hbelow, hcount⟩ := hok newest hnewest
  have hstart : startPass g s = .running (encodeCursor newest) 0 := by
    rw [startPass, hnewest]
  rw [hstart]
  have hvisible := h.genuine.known newest (mem_newestMessage hnewest)
  refine ⟨⟨h.genuine.loaded, h.genuine.known, h.genuine.inFlight, ?_⟩, fun _ p hp ↦ ?_⟩
  · intro q page n hq
    change (s.setPass s.started _).passes q = _ at hq
    rw [passes_setPass] at hq
    split at hq
    · cases hq
    · exact h.genuine.answered q page n hq
  · obtain rfl : s.started = p := Nat.succ.inj hp
    refine ⟨stamp newest, (visible s.messages g.conversationId).filter fun message ↦
      stamp newest < stamp message, _, Function.update_self .., ?_, ?_⟩
    · exact {
        pivot := ⟨newest, hvisible, rfl⟩
        below := hbelow
        above := fun m hm hlt ↦ .inl (List.mem_filter.mpr ⟨hm, decide_eq_true hlt⟩)
        there := fun m hm ↦ List.mem_of_mem_filter hm
        nodup := ((List.Nodup.of_map _ s.messages.unique).filter _).filter _
        later := fun m hm hlt ↦ .inl (List.mem_filter.mpr ⟨hm, decide_eq_true hlt⟩) }
    · refine .running (by decide) le_rfl (fun m hm hle ↦ ?_) ?_
      · exact absurd (of_decide_eq_true (List.mem_filter.mp hm).2) (not_lt.mpr hle)
      · rw [List.filter_filter]
        simpa using hcount

/-- Messages that are visible are rows of the table. -/
theorem rows_of_visible {items : List Message}
    (h : ∀ message ∈ items, message ∈ visible s.messages g.conversationId) :
    ∀ message ∈ items, message ∈ s.messages.rows :=
  fun message hm ↦ (Messages.mem_visible.mp (h message hm)).1

theorem Genuine.realtime (h : Genuine g s) :
    ∀ message ∈ s.realtime, message ∈ visible s.messages g.conversationId :=
  fun message hm ↦ h.known message (List.mem_append_right _ hm)

/-- A pass that has received a page. -/
theorem Awaits.next {known known' : List Message} {page : MessagePage} {n : ℕ}
    (h : Awaits k missing known (.answered page n))
    (hknown : ∀ message, message ∈ known ∨ message ∈ page.items → message ∈ known') :
    Awaits k missing known' (nextPass page n) := by
  cases h with
  | last got => exact .completed fun m hm ↦ hknown m (got m hm)
  | @more items k' n hk got left =>
      unfold nextPass
      dsimp only
      split
      · rename_i hn
        exact .running hn hk (fun m hm hle ↦ hknown m (got m hm hle)) (by omega)
      · -- The twentieth page: nothing is left.
        have hnil : (missing.filter fun message ↦ k' < stamp message) = [] :=
          List.length_eq_zero_iff.mp (by omega)
        refine .completed fun m hm ↦ hknown m (got m hm ?_)
        have hm' := List.filter_eq_nil_iff.mp hnil m hm
        simpa using hm'

theorem Inv.deliver (h : Inv g s) (hmem : message ∈ s.inFlight) :
    Inv g { s with
      realtime := addRealtimeMessage s.realtime message
      inFlight := s.inFlight.erase message } := by
  have hmessage := h.genuine.inFlight message hmem
  have hadd : ∀ other, other ∈ addRealtimeMessage s.realtime message ↔
      other ∈ s.realtime ∨ other = message := fun other ↦
    mem_addRealtimeMessage (rows_of_visible h.genuine.realtime)
      (Messages.mem_visible.mp hmessage).1
  have hknown : ∀ other ∈ s.realtime, other ∈ addRealtimeMessage s.realtime message :=
    fun other hother ↦ (hadd other).mpr (.inl hother)
  refine h.advance ?_ hknown (fun other hother ↦ ?_) fun p pass hp ↦ ⟨pass, hp, ?_⟩
  · exact {
      loaded := h.genuine.loaded
      known := by
        intro other hother
        rcases List.mem_append.mp hother with hother | hother
        · exact h.genuine.known other (List.mem_append_left _ hother)
        · rcases (hadd other).mp hother with hother | rfl
          · exact h.genuine.realtime other hother
          · exact hmessage
      inFlight := fun other hother ↦ h.genuine.inFlight other (List.mem_of_mem_erase hother)
      answered := h.genuine.answered }
  · by_cases hsame : other = message
    · exact .inl ((hadd other).mpr (.inr hsame))
    · exact .inr ((List.mem_erase_of_ne hsame).mpr hother)
  · exact fun k missing _ hawaits ↦ hawaits.mono fun other hother ↦
      List.mem_append.mpr ((List.mem_append.mp hother).imp_right (hknown other))

/-- The server answers with the page that comes after the cursor. -/
theorem Inv.answer (h : Inv g s) {p n : ℕ} {cursor : Cursor} {page : MessagePage}
    (hp : s.passes p = some (.running cursor n))
    (hpage : Messages.list g.members s.messages g.conversationId g.userId 100 none (some cursor) =
      .ok page) : Inv g (s.setPass p (.answered page n)) := by
  refine h.pass (fun _ hm ↦ hm) h.genuine.realtime hp ?_ fun k missing hcovers hawaits ↦ ?_
  · rintro _ _ ⟨⟩ message hm
    exact Messages.mem_list hpage hm
  · cases hauth : getAuthorized g.members g.conversationId g.userId with
    | error e =>
        rw [Messages.list_error hauth] at hpage
        cases hpage
    | ok users =>
        cases hawaits with
        | running hn hk got left =>
            rw [Messages.list_after hauth] at hpage
            cases hpage
            exact .answer hcovers hk got left

theorem Inv.receive (h : Inv g s) {p n : ℕ} {page : MessagePage}
    (hp : s.passes p = some (.answered page n)) :
    Inv g { s.setPass p (nextPass page n) with
      realtime := page.items.foldl addRealtimeMessage s.realtime } := by
  have hpage := h.genuine.answered p page n hp
  have hadd : ∀ other, other ∈ page.items.foldl addRealtimeMessage s.realtime ↔
      other ∈ s.realtime ∨ other ∈ page.items := fun other ↦
    mem_foldl_addRealtimeMessage (rows_of_visible h.genuine.realtime) (rows_of_visible hpage)
  refine h.pass (fun m hm ↦ (hadd m).mpr (.inl hm)) (fun m hm ↦ ?_) hp ?_ ?_
  · exact ((hadd m).mp hm).elim (h.genuine.realtime m) (hpage m)
  · intro page' n' e
    unfold nextPass at e
    split at e
    · cases e
    · split at e <;> cases e
  · refine fun k missing _ hawaits ↦ hawaits.next fun m hm ↦ ?_
    rcases hm with hm | hm
    · exact List.mem_append.mpr ((List.mem_append.mp hm).imp_right fun hm ↦
        (hadd m).mpr (.inl hm))
    · exact List.mem_append_right _ ((hadd m).mpr (.inr hm))

theorem Inv.step (h : Inv g s) {a : Action} (hok : Recoverable g s a) (ht : step g s a = some t) :
    Inv g t := by
  cases a with
  | persist message =>
      simp only [Recovery.step] at ht
      split at ht
      · rename_i hmessage
        obtain ⟨messages, hinsert, rfl⟩ := Option.map_eq_some_iff.mp ht
        exact h.persist hmessage.1 hmessage.2.1 hmessage.2.2 hinsert
      · cases ht
  | deliver message =>
      simp only [Recovery.step] at ht
      split at ht
      · rename_i hmem
        cases ht
        exact h.deliver hmem
      · cases ht
  | drop =>
      simp only [Recovery.step] at ht
      split at ht
      · cases ht
        exact ⟨{ h.genuine with inFlight := nofun }, nofun⟩
      · cases ht
  | reopen =>
      simp only [Recovery.step] at ht
      split at ht
      · cases ht
      · cases ht
        exact h.reopen hok
  | answer p =>
      simp only [Recovery.step] at ht
      split at ht
      · rename_i cursor n hp
        split at ht
        · rename_i page hpage
          cases ht
          exact h.answer hp hpage
        · cases ht
          exact h.pass (fun _ hm ↦ hm) h.genuine.realtime hp nofun fun _ _ _ _ ↦ .failed
      · cases ht
  | receive p =>
      simp only [Recovery.step] at ht
      split at ht
      · rename_i page n hp
        cases ht
        exact h.receive hp
      · cases ht
  | fail p =>
      simp only [Recovery.step] at ht
      split at ht
      · cases ht
        exact h.pass (fun _ hm ↦ hm) h.genuine.realtime ‹_› nofun fun _ _ _ _ ↦ .failed
      · cases ht
        exact h.pass (fun _ hm ↦ hm) h.genuine.realtime ‹_› nofun fun _ _ _ _ ↦ .failed
      · cases ht

/-- **No gap without a failed pass behind it.**  After a run in which, whenever the
socket reopened, nothing was missing up to the cursor that the pass started from, the
client knows every message after the oldest loaded one once it is connected, its last
pass has completed, and nothing is on its way. -/
theorem recovery_gapless {s₀ : State} {as : List Action} (h₀ : Initial g s₀)
    (hok : Along (step g) (Recoverable g) s₀ as) (hrun : exec (step g) s₀ as = some s) :
    Gapless g s := by
  have hinv : Inv g s :=
    exec_induction (fun hs hok ht ↦ Inv.step hs hok ht) (Inv.initial h₀) hrun hok
  intro hconnected hcompleted hflight message hm hwanted
  unfold State.lastPass at hcompleted
  split at hcompleted
  · cases hcompleted
  · rename_i p hp
    obtain ⟨k, missing, pass, hpass, hcovers, hawaits⟩ := hinv.last hconnected p hp
    rw [hpass] at hcompleted
    cases hcompleted
    rcases le_or_gt (stamp message) k with hle | hlt
    · exact hcovers.below message hm hwanted hle
    · rcases hcovers.above message hm hlt with hmissing | hknown | hway
      · cases hawaits with
        | completed got => exact got message hmissing
      · exact hknown
      · rw [hflight] at hway
        exact absurd hway List.not_mem_nil

/-! ## Runs -/

theorem newestMessage_of_sorted {l : Locale} {messages : List Message}
    (h : messages.Pairwise fun left right ↦ l.compare left right ≠ .gt) :
    newestMessage l messages = messages.getLast? := by
  rw [newestMessage, List.mergeSort_of_pairwise]
  simpa using h

theorem step_reopen {newest : Message} (hs : s.connected = false)
    (h : newestMessage g.locale s.known = some newest) : step g s .reopen =
      some { s.setPass s.started (.running (encodeCursor newest) 0) with
        connected := true
        started := s.started + 1 } := by
  simp [step, hs, startPass, h]

/-- A pass gets its last page. -/
theorem exec_lastPage {p n : ℕ} {users : List UUID} {items : List Message}
    (hauth : getAuthorized g.members g.conversationId g.userId = .ok users)
    (hp : s.passes p = some (.running (cursorAt k) n))
    (hitems : Keyset.window stamp (some k) (visible s.messages g.conversationId) = items)
    (hlength : items.length ≤ 100) : exec (step g) s [.answer p, .receive p] =
      some { s.setPass p .completed with
        realtime := items.foldl addRealtimeMessage s.realtime } := by
  have hanswer : step g s (.answer p) = some (s.setPass p (.answered ⟨items, none⟩ n)) := by
    simp only [step, hp, Messages.list_last hauth hitems hlength]
  have hreceive : step g (s.setPass p (.answered ⟨items, none⟩ n)) (.receive p) =
      some { s.setPass p .completed with
        realtime := items.foldl addRealtimeMessage s.realtime } := by
    simp only [step, State.setPass, Function.update_self, Function.update_idem, nextPass]
  rw [exec_cons, hanswer, Option.bind_some, exec_cons, hreceive, Option.bind_some, exec_nil]

/-- A step persists one message at most. -/
theorem rows_length_of_step {a : Action} (ht : step g s a = some t) :
    t.messages.rows.length ≤ s.messages.rows.length + 1 := by
  cases a with
  | persist message =>
      simp only [step] at ht
      split at ht
      · obtain ⟨messages, hinsert, rfl⟩ := Option.map_eq_some_iff.mp ht
        rw [Messages.MessageTable.rows_insert hinsert, List.length_cons]
      · cases ht
  | deliver | drop | reopen | receive | fail =>
      simp only [step] at ht
      split at ht
      all_goals
        cases ht
        try exact Nat.le_succ _
  | answer p =>
      simp only [step] at ht
      split at ht
      · split at ht
        · cases ht
          exact Nat.le_succ _
        · cases ht
          exact Nat.le_succ _
      · cases ht

theorem rows_length_le {as : List Action} (hrun : exec (step g) s as = some t) :
    t.messages.rows.length ≤ s.messages.rows.length + as.length := by
  induction as generalizing s with
  | nil =>
      cases hrun
      exact le_rfl
  | cons a as ih =>
      obtain ⟨m, hm, hrest⟩ := exec_cons_eq_some.mp hrun
      have hstep := rows_length_of_step hm
      have hlater := ih hrest
      rw [List.length_cons]
      omega

theorem missed_length_le (g : Setting) (s : State) :
    (missed g s).length ≤ s.messages.rows.length :=
  (List.length_filter_le ..).trans (List.length_filter_le ..)

/-- A browser in English. -/
def english : Locale where
  iso createdAt := "2024-01-01T00:00:0" ++ toString createdAt ++ ".5Z"
  uuid id := String.ofList (Conversations.str id)
  localeCompare a b := compare a b

/-- The second of two members reads the conversation. -/
def reading : Setting := ⟨fun _ ↦ some [1, 2], 7, 2, english⟩

/-- A message of the first member. -/
def numbered (i : UUID) : Message := ⟨i, 7, 1, "", i.val, none⟩

/-- The first message is loaded. -/
def loaded : State := ⟨⟨[numbered 1], by decide⟩, [numbered 1], [], true, [], fun _ ↦ none, 0⟩

theorem loaded_initial : Initial reading loaded where
  loaded := by decide
  cached := by decide
  complete := by decide
  realtime := rfl
  inFlight := rfl
  passes _ := rfl
  started := rfl

/-- The second message is persisted while the client is not connected. -/
def oneDrop : List Action := [.drop, .persist (numbered 2), .reopen] ++ [.answer 0, .receive 0]

theorem oneDrop_recoverable : Along (step reading) (Recoverable reading) loaded oneDrop := by
  have hnewest : newestMessage english [numbered 1] = some (numbered 1) :=
    newestMessage_of_sorted (by decide)
  refine .cons trivial rfl (.cons trivial rfl ⟨fun newest h ↦ ?_, ?_⟩)
  · obtain rfl : numbered 1 = newest := Option.some.inj (hnewest.symm.trans h)
    exact ⟨by decide, by decide⟩
  · exact fun _ _ ↦ ⟨trivial, fun _ _ ↦ ⟨trivial, fun _ _ ↦ trivial⟩⟩

/-- One pass brings the client up to date. -/
theorem recovery_gapless_oneDrop : ∃ s, exec (step reading) loaded oneDrop = some s ∧
    numbered 2 ∈ visible s.messages 7 ∧ numbered 2 ∈ s.known := by
  have hnewest : newestMessage english [numbered 1] = some (numbered 1) :=
    newestMessage_of_sorted (by decide)
  obtain ⟨s, hs, hrows, hpass, hflight, hcached, hconnected, hstarted⟩ :
      ∃ s, exec (step reading) loaded [.drop, .persist (numbered 2), .reopen] = some s ∧
        s.messages.rows = [numbered 2, numbered 1] ∧
        s.passes 0 = some (.running (cursorAt (stamp (numbered 1))) 0) ∧ s.inFlight = [] ∧
        s.cached = [numbered 1] ∧ s.connected = true ∧ s.started = 1 :=
    ⟨_, exec_cons_eq_some.mpr ⟨_, rfl, exec_cons_eq_some.mpr ⟨_, rfl, exec_cons_eq_some.mpr
      ⟨_, step_reopen rfl hnewest, rfl⟩⟩⟩, rfl, rfl, rfl, rfl, rfl, rfl⟩
  have hvisible : visible s.messages 7 = [numbered 2, numbered 1] := by
    rw [visible, hrows]
    decide
  have hmem : numbered 2 ∈ visible s.messages 7 := hvisible ▸ List.mem_cons_self
  have hitems : Keyset.window stamp (some (stamp (numbered 1))) (visible s.messages 7) =
      [numbered 2] := by
    have hfilter : [numbered 2, numbered 1].filter (fun r ↦
        Keyset.Beyond stamp (some (stamp (numbered 1))) r) = [numbered 2] := by decide
    rw [Keyset.window, hvisible, hfilter, List.mergeSort_singleton]
  have hauth : getAuthorized reading.members reading.conversationId reading.userId = .ok [1, 2] :=
    rfl
  have hrun := exec_append_eq_some.mpr ⟨s, hs, exec_lastPage hauth hpass hitems (by decide)⟩
  refine ⟨_, hrun, hmem, ?_⟩
  refine recovery_gapless loaded_initial oneDrop_recoverable hrun hconnected ?_ hflight _ hmem ?_
  · simp only [State.lastPass, State.setPass, hstarted, Function.update_self]
  · exact ⟨numbered 1, hcached ▸ List.mem_cons_self, by decide⟩

/-- The pass fails; the third message arrives live; the next pass starts behind it. -/
def twoDrops : List Action :=
  [.drop, .persist (numbered 2), .reopen, .fail 0, .persist (numbered 3), .deliver (numbered 3),
    .drop, .reopen] ++ [.answer 1, .receive 1]

/-- The second message is not asked for again. -/
theorem failed_pass_leaves_gap : ¬ ∀ g s₀ as s, Initial g s₀ →
    (∀ pre post t, as = pre ++ post → exec (step g) s₀ pre = some t →
      (missed g t).length ≤ 2000) → exec (step g) s₀ as = some s → Gapless g s := by
  intro hall
  have h₁ : newestMessage english [numbered 1] = some (numbered 1) :=
    newestMessage_of_sorted (by decide)
  have h₃ : newestMessage english [numbered 1, numbered 3] = some (numbered 3) :=
    newestMessage_of_sorted (by decide)
  have hmissed : ∀ pre post t, twoDrops = pre ++ post → exec (step reading) loaded pre = some t →
      (missed reading t).length ≤ 2000 := by
    intro pre post t has hrun
    have hlength := congrArg List.length has
    rw [List.length_append] at hlength
    have hrows := (missed_length_le reading t).trans (rows_length_le hrun)
    have hfew : loaded.messages.rows.length + twoDrops.length ≤ 2000 := by decide
    omega
  obtain ⟨s, hs, hrows, hpass, hflight, hcached, hrealtime, hconnected, hstarted⟩ :
      ∃ s, exec (step reading) loaded (twoDrops.take 8) = some s ∧
        s.messages.rows = [numbered 3, numbered 2, numbered 1] ∧
        s.passes 1 = some (.running (cursorAt (stamp (numbered 3))) 0) ∧ s.inFlight = [] ∧
        s.cached = [numbered 1] ∧ s.realtime = [numbered 3] ∧ s.connected = true ∧ s.started = 2 :=
    ⟨_, exec_cons_eq_some.mpr ⟨_, rfl, exec_cons_eq_some.mpr ⟨_, rfl, exec_cons_eq_some.mpr
      ⟨_, step_reopen rfl h₁, exec_cons_eq_some.mpr ⟨_, rfl, exec_cons_eq_some.mpr ⟨_, rfl,
        exec_cons_eq_some.mpr ⟨_, rfl, exec_cons_eq_some.mpr ⟨_, rfl, exec_cons_eq_some.mpr
          ⟨_, step_reopen rfl h₃, rfl⟩⟩⟩⟩⟩⟩⟩⟩, rfl, rfl, rfl, rfl, rfl, rfl, rfl⟩
  have hvisible : visible s.messages 7 = [numbered 3, numbered 2, numbered 1] := by
    rw [visible, hrows]
    decide
  have hnone : Keyset.window stamp (some (stamp (numbered 3))) (visible s.messages 7) = [] := by
    have hfilter : [numbered 3, numbered 2, numbered 1].filter (fun r ↦
        Keyset.Beyond stamp (some (stamp (numbered 3))) r) = [] := by decide
    rw [Keyset.window, hvisible, hfilter, List.mergeSort_nil]
  have hauth : getAuthorized reading.members reading.conversationId reading.userId = .ok [1, 2] :=
    rfl
  have hrun := exec_append_eq_some.mpr
    ⟨s, hs, exec_lastPage hauth hpass hnone (Nat.zero_le 100)⟩
  have hknown : numbered 2 ∈ s.cached ++ s.realtime := by
    refine hall reading loaded twoDrops _ loaded_initial hmissed hrun hconnected ?_ hflight _ ?_ ?_
    · simp only [State.lastPass, State.setPass, hstarted, Function.update_self]
    · exact hvisible ▸ List.mem_cons_of_mem _ List.mem_cons_self
    · exact ⟨numbered 1, hcached ▸ List.mem_cons_self, by decide⟩
  rw [hcached, hrealtime] at hknown
  exact absurd hknown (by decide)

end Chatterbox.Client.Recovery
