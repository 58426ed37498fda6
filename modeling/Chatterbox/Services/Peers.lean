import Chatterbox.Services.Steps

/-!
# Peers

Who is told that a user comes and goes: those with whom the user shares a conversation
(`peer_ids`).  Every conversation is one of two users, and its key says of which, so peers are
the users with whom there is a conversation of one's own, no matter who of the two has asked
for it (`peers_are_direct`), and `create_direct` is the only way to become one
(`becomes_peer`).
-/

namespace Chatterbox.Services

open Conversations (directKey)

variable {st : Settings} {s t : Store} {env : Env} {c u v : UUID} {x : Conversation}

/-- `ConversationRepository.peer_ids`. -/
def Store.peerIds (s : Store) (userId : UUID) : List UUID :=
  ((s.members.filter fun peer ↦ peer.userId ≠ userId ∧
    ∃ own ∈ s.members, own.conversationId = peer.conversationId ∧ own.userId = userId).map
      Member.userId).dedup

/-! ## Two users -/

/-- Conversations differ in their keys, and each is one of the two users that its key is of. -/
structure Pairs (s : Store) : Prop where
  ids : (s.conversations.map Conversation.id).Nodup
  keys : (s.conversations.map Conversation.directKey).Nodup
  two : ∀ x ∈ s.conversations, ∃ a b, a ≠ b ∧ x.directKey = directKey a b ∧
    (s.memberIds x.id).Perm [a, b]

theorem Pairs.initial : Pairs .initial where
  ids := List.nodup_nil
  keys := List.nodup_nil
  two := nofun

/-- Nothing of a conversation has changed that its members depend on. -/
theorem Pairs.congr (h : Pairs s) (hmembers : t.members = s.members)
    {f : Conversation → Conversation} (hconversations : t.conversations = s.conversations.map f)
    (hid : ∀ x, (f x).id = x.id) (hkey : ∀ x, (f x).directKey = x.directKey) : Pairs t where
  ids := by
    have hsame : Conversation.id ∘ f = Conversation.id := funext hid
    rw [hconversations, List.map_map, hsame]
    exact h.ids
  keys := by
    have hsame : Conversation.directKey ∘ f = Conversation.directKey := funext hkey
    rw [hconversations, List.map_map, hsame]
    exact h.keys
  two := by
    intro x hx
    rw [hconversations] at hx
    obtain ⟨y, hy, rfl⟩ := List.mem_map.mp hx
    rw [hid, hkey, Store.memberIds, hmembers]
    exact h.two y hy

theorem Pairs.addDirect (h : Pairs s) (hinv : Inv s) (hnone : s.direct u v = none)
    (hfresh : ¬ s.Exists (env.draw 0)) (hne : u ≠ v) : Pairs (addDirect env s u v) where
  ids := by
    refine List.nodup_cons.mpr ⟨fun hmem ↦ ?_, h.ids⟩
    obtain ⟨y, hy, hid⟩ := List.mem_map.mp hmem
    exact hfresh ⟨y, hy, hid⟩
  keys := by
    refine List.nodup_cons.mpr ⟨fun hmem ↦ ?_, h.keys⟩
    obtain ⟨y, hy, hkey⟩ := List.mem_map.mp hmem
    exact List.find?_eq_none.mp hnone y hy (decide_eq_true hkey)
  two := by
    have hnobody : s.memberIds (env.draw 0) = [] :=
      List.eq_nil_iff_forall_not_mem.mpr fun w hw ↦ hfresh (hinv.exists_of_mem hw)
    intro y hy
    rcases List.mem_cons.mp hy with rfl | hy
    · refine ⟨u, v, hne, rfl, ?_⟩
      rw [memberIds_addDirect, if_pos rfl, hnobody]
    · rw [memberIds_addDirect, if_neg fun e ↦ hfresh ⟨y, hy, e.symm⟩]
      exact h.two y hy

theorem Pairs.step (h : Pairs s) (hinv : Inv s) {a : Action} (ht : step st s a = some t) :
    Pairs t := by
  rcases step_cases ht with ⟨response, env, u, c, content, ids, rfl, hok⟩ |
    ⟨response, env, u, v, rfl, hok⟩ | ⟨hkept, -⟩
  · obtain ⟨memberIds, ordered, messages, -, -, -, -, rfl, -⟩ := createMessage_eq_ok hok
    refine h.congr rfl rfl (fun x ↦ ?_) fun x ↦ ?_
    · split <;> rfl
    · split <;> rfl
  · obtain ⟨hne, -, ⟨x, -, rfl, -⟩ | ⟨hnone, hfresh, rfl, -⟩⟩ := createDirect_eq_ok hok
    · exact h
    · exact h.addDirect hinv hnone hfresh hne
  · refine h.congr hkept.members ?_ (fun _ ↦ rfl) fun _ ↦ rfl
    exact hkept.conversations.trans (List.map_id _).symm

theorem Reachable.pairs (h : Reachable st s) : Pairs s := by
  obtain ⟨as, hrun⟩ := h
  have hboth : Inv s ∧ Pairs s :=
    exec_invariant (P := fun s ↦ Inv s ∧ Pairs s)
      (fun h ht ↦ ⟨h.1.step ht, h.2.step h.1 ht⟩) ⟨.initial, .initial⟩ hrun
  exact hboth.2

/-- Two users are in a conversation exactly if its key is theirs. -/
theorem Pairs.mem_iff (h : Pairs s) (hx : x ∈ s.conversations) (hne : u ≠ v) :
    u ∈ s.memberIds x.id ∧ v ∈ s.memberIds x.id ↔ x.directKey = directKey u v := by
  obtain ⟨a, b, -, hkey, hperm⟩ := h.two x hx
  rw [hperm.mem_iff, hperm.mem_iff, hkey, Conversations.directKey_eq_iff, Sym2.eq_iff]
  simp only [List.mem_cons, List.not_mem_nil, or_false]
  constructor
  · rintro ⟨rfl | rfl, rfl | rfl⟩
    · exact absurd rfl hne
    · exact .inl ⟨rfl, rfl⟩
    · exact .inr ⟨rfl, rfl⟩
    · exact absurd rfl hne
  · rintro (⟨rfl, rfl⟩ | ⟨rfl, rfl⟩)
    · exact ⟨.inl rfl, .inr rfl⟩
    · exact ⟨.inr rfl, .inl rfl⟩

theorem Pairs.direct_eq_some (h : Pairs s) :
    s.direct u v = some x ↔ x ∈ s.conversations ∧ x.directKey = directKey u v :=
  find?_key h.keys

/-! ## Peers are those with a conversation -/

theorem mem_peerIds : v ∈ s.peerIds u ↔
    v ≠ u ∧ ∃ c, u ∈ s.memberIds c ∧ v ∈ s.memberIds c := by
  simp only [Store.peerIds, List.mem_dedup, List.mem_map, List.mem_filter, decide_eq_true_eq,
    mem_memberIds]
  constructor
  · rintro ⟨peer, ⟨hpeer, hne, own, hown, hc, rfl⟩, rfl⟩
    exact ⟨hne, _, ⟨own, hown, hc, rfl⟩, peer, hpeer, rfl, rfl⟩
  · rintro ⟨hne, c, ⟨own, hown, rfl, rfl⟩, peer, hpeer, hc, rfl⟩
    exact ⟨peer, ⟨hpeer, hne, own, hown, hc.symm, rfl⟩, rfl⟩

theorem Reachable.mem_peerIds_iff (h : Reachable st s) :
    v ∈ s.peerIds u ↔ u ≠ v ∧ ∃ x, s.direct u v = some x := by
  rw [mem_peerIds]
  constructor
  · rintro ⟨hne, c, hu, hv⟩
    obtain ⟨x, hx, rfl⟩ := h.inv.exists_of_mem hu
    exact ⟨hne.symm, x, h.pairs.direct_eq_some.mpr
      ⟨hx, (h.pairs.mem_iff hx hne.symm).mp ⟨hu, hv⟩⟩⟩
  · rintro ⟨hne, x, hx⟩
    obtain ⟨hx, hkey⟩ := h.pairs.direct_eq_some.mp hx
    exact ⟨hne.symm, x.id, (h.pairs.mem_iff hx hne).mpr hkey⟩

theorem direct_comm (s : Store) (u v : UUID) : s.direct u v = s.direct v u := by
  have hkey : directKey u v = directKey v u := Conversations.directKey_eq_iff.mpr Sym2.eq_swap
  rw [Store.direct, Store.direct, hkey]

/-- Who is in a conversation, as the list has it. -/
def ConversationResponse.userIds (response : ConversationResponse) : List UUID :=
  response.members.map ConversationMemberResponse.userId

theorem userIds_toConversationResponse (x : Conversation) (u : UUID) :
    (toConversationResponse s x u).userIds = s.memberIds x.id := by
  rw [ConversationResponse.userIds, toConversationResponse, List.map_map]
  rfl

/-- **Peers are those with a conversation.**  In every reachable store, of two different users
each is a peer of the other or neither is; they are if the list of the one, or of the other,
has a conversation with both, which is one at most; and then `create_direct` answers with
that one, and changes nothing. -/
theorem peers_are_direct (h : Reachable st s) (hne : u ≠ v) :
    (s.peerIds u).Nodup ∧ (v ∈ s.peerIds u ↔ u ∈ s.peerIds v) ∧
      (v ∈ s.peerIds u ↔ ∃ response ∈ listConversations s u, v ∈ response.userIds) ∧
      (∀ r₁ ∈ listConversations s u, ∀ r₂ ∈ listConversations s u,
        v ∈ r₁.userIds → v ∈ r₂.userIds → r₁ = r₂) ∧
      (v ∈ s.peerIds u → (∃ user ∈ s.users, user.id = v) → ∀ env,
        ∃ response ∈ listConversations s u, v ∈ response.userIds ∧
          createDirect env s u v = .ok (response, s)) := by
  have hlist : ∀ response, response ∈ listConversations s u ∧ v ∈ response.userIds ↔
      ∃ x, s.direct u v = some x ∧ toConversationResponse s x u = response := by
    intro response
    simp only [listConversations, List.mem_map, List.mem_mergeSort, List.mem_filter,
      decide_eq_true_eq]
    constructor
    · rintro ⟨⟨x, ⟨hx, hu⟩, rfl⟩, hv⟩
      rw [userIds_toConversationResponse] at hv
      exact ⟨x, h.pairs.direct_eq_some.mpr ⟨hx, (h.pairs.mem_iff hx hne).mp ⟨hu, hv⟩⟩, rfl⟩
    · rintro ⟨x, hx, rfl⟩
      obtain ⟨hx, hkey⟩ := h.pairs.direct_eq_some.mp hx
      obtain ⟨hu, hv⟩ := (h.pairs.mem_iff hx hne).mpr hkey
      rw [userIds_toConversationResponse]
      exact ⟨⟨x, ⟨hx, hu⟩, rfl⟩, hv⟩
  refine ⟨List.nodup_dedup _, ?_, ?_, ?_, ?_⟩
  · rw [h.mem_peerIds_iff, h.mem_peerIds_iff, direct_comm s u v, ne_comm]
  · rw [h.mem_peerIds_iff, and_iff_right hne]
    constructor
    · rintro ⟨x, hx⟩
      exact ⟨_, (hlist _).mpr ⟨x, hx, rfl⟩⟩
    · rintro ⟨response, hresponse⟩
      obtain ⟨x, hx, -⟩ := (hlist response).mp hresponse
      exact ⟨x, hx⟩
  · intro r₁ h₁ r₂ h₂ hv₁ hv₂
    obtain ⟨x₁, hx₁, rfl⟩ := (hlist r₁).mp ⟨h₁, hv₁⟩
    obtain ⟨x₂, hx₂, rfl⟩ := (hlist r₂).mp ⟨h₂, hv₂⟩
    rw [Option.some.inj (hx₁.symm.trans hx₂)]
  · rintro hpeer ⟨user, huser, rfl⟩ env
    obtain ⟨-, x, hx⟩ := h.mem_peerIds_iff.mp hpeer
    obtain ⟨hmem, hv⟩ := (hlist _).mpr ⟨x, hx, rfl⟩
    refine ⟨_, hmem, hv, ?_⟩
    have hregistered : ¬ ∀ other ∈ s.users, other.id ≠ user.id := fun hall ↦ hall user huser rfl
    rw [Store.direct] at hx
    rw [createDirect, if_neg hne, if_neg hregistered, hx]

/-- Two users, one of whom has asked for a conversation. -/
def asked : List Action :=
  [.register ⟨1, "one", none⟩, .register ⟨2, "two", none⟩,
    .request ⟨5, fun i ↦ 10 + Fin.ofNat _ i, true⟩ 1 (.createDirect 2)]

/-- Ids that have not been drawn before. -/
def later : Env := ⟨6, fun i ↦ 20 + Fin.ofNat _ i, true⟩

/-- The other one is told as well, and is answered with the same conversation when asking for it
a second time. -/
theorem peers_are_direct_asked : ∃ s, exec (step plain) .initial asked = some s ∧
    2 ∈ s.peerIds 1 ∧ 1 ∈ s.peerIds 2 ∧ ∃ response ∈ listConversations s 2,
      1 ∈ response.userIds ∧ createDirect later s 2 1 = .ok (response, s) := by
  have hdone : (exec (step plain) .initial asked).map
      (fun s ↦ (s.peerIds 1, s.users.map User.id)) = some ([2], [2, 1]) := by
    decide +kernel
  obtain ⟨s, hs, heq⟩ := Option.map_eq_some_iff.mp hdone
  obtain ⟨hpeers, husers⟩ := Prod.mk.inj heq
  have hreachable : Reachable plain s := ⟨asked, hs⟩
  have hmem : 2 ∈ s.peerIds 1 := hpeers ▸ List.mem_singleton_self _
  have hback : 1 ∈ s.peerIds 2 := (peers_are_direct hreachable (by decide)).2.1.mp hmem
  have huser : 1 ∈ s.users.map User.id := husers ▸ .tail _ (.head _)
  exact ⟨s, hs, hmem, hback, (peers_are_direct hreachable (by decide)).2.2.2.2 hback
    (List.mem_map.mp huser) later⟩

/-- **Nobody becomes a peer otherwise**: peers stay, and a transaction that makes two users peers
is a `create_direct` of one of them for the other. -/
theorem becomes_peer (h : Reachable st s) {a : Action} (ht : step st s a = some t) :
    (v ∈ s.peerIds u → v ∈ t.peerIds u) ∧ (v ∉ s.peerIds u → v ∈ t.peerIds u → ∃ env,
      a = .request env u (.createDirect v) ∨ a = .request env v (.createDirect u)) := by
  have hsame : t.members = s.members →
      (v ∈ s.peerIds u → v ∈ t.peerIds u) ∧ (v ∉ s.peerIds u → v ∈ t.peerIds u → ∃ env,
        a = .request env u (.createDirect v) ∨ a = .request env v (.createDirect u)) := by
    intro hmembers
    rw [Store.peerIds, Store.peerIds, hmembers]
    exact ⟨id, fun hnot hpeer ↦ absurd hpeer hnot⟩
  rcases step_cases ht with ⟨response, env, w, c, content, ids, rfl, hok⟩ |
    ⟨response, env, p, q, rfl, hok⟩ | ⟨hkept, -⟩
  · obtain ⟨memberIds, ordered, messages, -, -, -, -, rfl, -⟩ := createMessage_eq_ok hok
    exact hsame rfl
  · obtain ⟨hpq, -, ⟨x, -, rfl, -⟩ | ⟨hnone, hfresh, rfl, -⟩⟩ := createDirect_eq_ok hok
    · exact hsame rfl
    · have hmem : ∀ c, c ≠ env.draw 0 →
          (addDirect env s p q).memberIds c = s.memberIds c := fun c hc ↦ by
        rw [memberIds_addDirect, if_neg hc.symm]
      have hnobody : s.memberIds (env.draw 0) = [] :=
        List.eq_nil_iff_forall_not_mem.mpr fun w hw ↦ hfresh (h.inv.exists_of_mem hw)
      rw [mem_peerIds, mem_peerIds]
      constructor
      · rintro ⟨hne, c, hu, hv⟩
        have hc : c ≠ env.draw 0 := by
          rintro rfl
          exact hfresh (h.inv.exists_of_mem hu)
        exact ⟨hne, c, by rwa [hmem c hc], by rwa [hmem c hc]⟩
      · rintro hnot ⟨hne, c, hu, hv⟩
        by_cases hc : c = env.draw 0
        · rw [hc, memberIds_addDirect, if_pos rfl, hnobody] at hu hv
          simp only [List.mem_cons, List.not_mem_nil, or_false] at hu hv
          refine ⟨env, ?_⟩
          rcases hu with rfl | rfl <;> rcases hv with rfl | rfl
          · exact absurd rfl hne
          · exact .inl rfl
          · exact .inr rfl
          · exact absurd rfl hne
        · rw [hmem c hc] at hu hv
          exact absurd ⟨hne, c, hu, hv⟩ hnot
  · exact hsame hkept.members

/-- The transaction that makes the two users peers is the last one. -/
theorem becomes_peer_asked : ∃ s t, exec (step plain) .initial (asked.take 2) = some s ∧
    step plain s (.request ⟨5, fun i ↦ 10 + Fin.ofNat _ i, true⟩ 1 (.createDirect 2)) = some t ∧
      2 ∉ s.peerIds 1 ∧ 2 ∈ t.peerIds 1 ∧ ∃ env : Env,
        Action.request ⟨5, fun i ↦ 10 + Fin.ofNat _ i, true⟩ 1 (.createDirect 2) =
          .request env 1 (.createDirect 2) ∨
        Action.request ⟨5, fun i ↦ 10 + Fin.ofNat _ i, true⟩ 1 (.createDirect 2) =
          .request env 2 (.createDirect 1) := by
  have hbefore : (exec (step plain) .initial (asked.take 2)).map (fun s ↦ s.peerIds 1) =
      some [] := rfl
  have hdone : (exec (step plain) .initial (asked.take 2 ++ asked.drop 2)).map
      (fun s ↦ s.peerIds 1) = some [2] := by
    decide +kernel
  obtain ⟨t, hrun, hpeers⟩ := Option.map_eq_some_iff.mp hdone
  obtain ⟨s, hs, hlast⟩ := exec_append_eq_some.mp hrun
  obtain ⟨u, ht, hend⟩ := exec_cons_eq_some.mp hlast
  obtain rfl : u = t := Option.some.inj hend
  have hnobody : s.peerIds 1 = [] := by
    rw [hs] at hbefore
    exact Option.some.inj hbefore
  have hnot : 2 ∉ s.peerIds 1 := hnobody ▸ List.not_mem_nil
  have hmem : 2 ∈ u.peerIds 1 := hpeers ▸ List.mem_singleton_self _
  exact ⟨s, u, hs, ht, hnot, hmem, (becomes_peer ⟨_, hs⟩ ht).2 hnot hmem⟩

end Chatterbox.Services
