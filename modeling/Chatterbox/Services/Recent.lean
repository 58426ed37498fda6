import Chatterbox.Recency
import Chatterbox.Services.Steps

/-!
# The most recent conversation first

`list_for_user` orders conversations by `updated_at`, which `create_direct` sets and
`MessageService.create` sets again.  For the user this is a list in which a conversation moves
to the front when somebody writes in it: `recent` is that list, without any clock, and
`list_is_recent` says that the query finds it, as long as no two changes have the same time
and the clock does not go back.
-/

namespace Chatterbox.Services

open Recency (touch Ranked)

variable {st : Settings} {s t : Store} {order : List UUID} {as : List Action}

/-! ## The list without a clock -/

/-- The conversation that a transaction creates, or adds a message to. -/
def touched (s : Store) : Action → Option UUID
  | .request env u (.createDirect v) => if (s.direct u v).isNone then some (env.draw 0) else none
  | .request _ _ (.createMessage c _ _) => some c
  | _ => none

/-- The list, behind a transaction. -/
def reorder (s : Store) (a : Action) (order : List UUID) : List UUID :=
  match touched s a with
  | none => order
  | some c => touch c order

/-- The list, behind a run. -/
def recent (st : Settings) : Store → List UUID → List Action → List UUID
  | _, order, [] => order
  | s, order, a :: as =>
      match step st s a with
      | none => order
      | some t => recent st t (reorder s a order) as

/-- The clock of a change is later than all changes before. -/
def Later (s : Store) : Action → Prop
  | .request env _ (.createDirect _) | .request env _ (.createMessage ..) =>
      ∀ x ∈ s.conversations, x.updatedAt < env.now
  | _ => True

instance (s : Store) : DecidablePred (Later s)
  | .request _ _ (.createDirect _) | .request _ _ (.createMessage ..) =>
      inferInstanceAs (Decidable (∀ x ∈ _, _))
  | .request _ _ .listConversations | .request _ _ (.getConversation _)
  | .request _ _ (.listMessages ..) | .request _ _ (.reserve ..) | .request _ _ (.complete _)
  | .request _ _ (.authorizeDownload _) | .request _ _ (.markRead ..)
  | .request _ _ .markPendingDelivered | .register _ | .setLastSeen .. | .put .. | .cleanup ..
  | .markDelivered .. => .isTrue trivial

/-! ## The query finds it -/

/-- The list has the conversations, those of the latest changes first. -/
def Store.Ranks (s : Store) (order : List UUID) : Prop :=
  Ranked Conversation.id Conversation.updatedAt s.conversations order

theorem Store.Ranks.opens (h : s.Ranks order) {env : Env} {u v : UUID}
    {response : ConversationResponse}
    (hlater : ∀ x ∈ s.conversations, x.updatedAt < env.now)
    (hok : createDirect env s u v = .ok (response, t)) :
    t.Ranks (reorder s (.request env u (.createDirect v)) order) := by
  obtain ⟨-, -, ⟨x, hx, rfl, -⟩ | ⟨hx, hfresh, rfl, -⟩⟩ := createDirect_eq_ok hok
  · rw [reorder, touched, hx]
    exact h
  · rw [reorder, touched, hx]
    exact h.cons (fun y hy e ↦ hfresh ⟨y, hy, e⟩) hlater

theorem Store.Ranks.creates (h : s.Ranks order) {env : Env} {u c : UUID} {content : String}
    {ids : List UUID} {response : MessageResponse}
    (hlater : ∀ x ∈ s.conversations, x.updatedAt < env.now)
    (hok : createMessage st env s c u content ids = .ok (response, t)) :
    t.Ranks (touch c order) := by
  obtain ⟨memberIds, ordered, messages, hauth, -, -, -, rfl, -⟩ := createMessage_eq_ok hok
  obtain ⟨⟨x, hx, rfl⟩, -⟩ := authorize_eq_ok.mp hauth
  exact Ranked.update (f := fun y ↦ { y with updatedAt := env.now }) h hx (fun _ ↦ rfl) hlater

/-- A transaction keeps the order, or moves the conversation that it touches to the front. -/
theorem Store.Ranks.step (h : s.Ranks order) {a : Action} (hlater : Later s a)
    (ht : step st s a = some t) : t.Ranks (reorder s a order) := by
  rcases step_cases ht with ⟨response, env, u, c, content, ids, rfl, hok⟩ |
    ⟨response, env, u, v, rfl, hok⟩ | ⟨hkept, hneither⟩
  · exact h.creates hlater hok
  · exact h.opens hlater hok
  · have htouched : touched s a = none := by
      unfold touched
      split
      · exact absurd rfl ((hneither _ _).1 _)
      · exact absurd rfl ((hneither _ _).2 _ _ _)
      · rfl
    rw [reorder, htouched, Store.Ranks, hkept.conversations]
    exact h

theorem Store.Ranks.run (h : s.Ranks order) (hlater : Along (Services.step st) Later s as)
    (hrun : exec (Services.step st) s as = some t) : t.Ranks (recent st s order as) := by
  induction as generalizing s order with
  | nil => exact Option.some.inj hrun ▸ h
  | cons a as ih =>
      obtain ⟨m, hm, hrest⟩ := exec_cons_eq_some.mp hrun
      rw [recent, hm]
      exact ih (h.step hlater.1 hm) (hlater.2 m hm) hrest

/-- **The conversation list is the list of recent conversations.**  After any run whose changes
have later and later times, a user's list has the conversations of the user, each once, and in
the order in which they have last been written in, or created. -/
theorem list_is_recent (hrun : exec (step st) .initial as = some s)
    (hlater : Along (step st) Later .initial as) (u : UUID) :
    (listConversations s u).map ConversationResponse.id =
      (recent st .initial [] as).filter fun c ↦ u ∈ s.memberIds c := by
  have hranks : s.Ranks (recent st .initial [] as) :=
    Store.Ranks.run (s := .initial) .nil hlater hrun
  rw [listConversations, List.map_map]
  refine Ranked.map_mergeSort hranks (fun x y hxy ↦ ?_) (fun x y z hxy hyz ↦ ?_) (fun x y ↦ ?_)
    fun c ↦ u ∈ s.memberIds c
  · rcases of_decide_eq_true hxy with hlt | ⟨heq, -⟩
    · exact hlt.le
    · exact heq.le
  · rw [decide_eq_true_eq] at hxy hyz ⊢
    rcases hxy with hxy | ⟨hxy, hid⟩ <;> rcases hyz with hyz | ⟨hyz, hid'⟩
    · exact .inl (hyz.trans hxy)
    · exact .inl (hyz ▸ hxy)
    · exact .inl (hxy ▸ hyz)
    · exact .inr ⟨hyz.trans hxy, hid'.trans hid⟩
  · rw [Bool.or_eq_true, decide_eq_true_eq, decide_eq_true_eq]
    rcases lt_trichotomy x.updatedAt y.updatedAt with hlt | heq | hlt
    · exact .inr (.inl hlt)
    · exact (le_total y.id x.id).imp (fun h ↦ .inr ⟨heq.symm, h⟩) fun h ↦ .inr ⟨heq, h⟩
    · exact .inl (.inl hlt)

/-- A user has two conversations, and writes in the older one. -/
def olderFirst : List Action :=
  let env (now : Instant) (id : UUID) : Env := ⟨now, fun i ↦ id + Fin.ofNat _ i, true⟩
  [.register ⟨1, "one", none⟩, .register ⟨2, "two", none⟩, .register ⟨3, "three", none⟩,
    .request (env 1 10) 1 (.createDirect 2), .request (env 2 20) 1 (.createDirect 3),
    .request (env 3 30) 2 (.createMessage 10 "hi" [])]

/-- The older conversation is the first one, and the other user of the newer one does not see
it. -/
theorem list_is_recent_olderFirst : ∃ s, exec (step plain) .initial olderFirst = some s ∧
    (listConversations s 1).map ConversationResponse.id = [10, 20] ∧
      (listConversations s 3).map ConversationResponse.id = [20] := by
  have hdone : (exec (step plain) .initial olderFirst).map
      (fun s ↦ (s.memberIds 10, s.memberIds 20)) = some ([1, 2], [1, 3]) := by decide +kernel
  obtain ⟨s, hs, hmembers⟩ := Option.map_eq_some_iff.mp hdone
  obtain ⟨hten, htwenty⟩ := Prod.mk.inj hmembers
  have hrecent : recent plain .initial [] olderFirst = [10, 20] := by decide +kernel
  have hlater : Along (step plain) Later .initial olderFirst := by decide +kernel
  refine ⟨s, hs, (list_is_recent hs hlater 1).trans ?_, (list_is_recent hs hlater 3).trans ?_⟩
  · simp [hrecent, hten, htwenty]
  · simp [hrecent, hten, htwenty]

end Chatterbox.Services
