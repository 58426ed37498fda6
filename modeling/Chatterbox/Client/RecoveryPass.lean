import Chatterbox.Client.Recovery

/-!
# What one recovery pass brings

`recoverLoadedConversations` goes through the message queries that are in the cache.  For
each it takes the newest message that the client has of the conversation, in the pages of
the query or in `realtimeMessages`, and asks for up to 20 pages of 100 messages behind its
cursor; what comes is added to `realtimeMessages`.  Without a message there is no cursor,
and then nothing is asked for.

Here the messages on the server stay as they are, and every request is answered; what
becomes of passes that fail and of messages that come in the meantime is in `Recovery`.
The loops of the conversations run side by side, but each only adds to its own entry of
`realtimeMessages`, so they may be taken one after another.

`pass_complete_iff` says when a pass brings all messages behind the newest one the client had.
-/

namespace Chatterbox.Client.RecoveryPass

open Messages (Message MessageTable MessagePage Cursor encodeCursor cursorAt stamp visible)
open Recovery (newestMessage)

/-- `realtimeMessages`. -/
abbrev Store := UUID → List Message

/-- `addRealtimeMessage`. -/
def addRealtimeMessage (s : Store) (message : Message) : Store :=
  Function.update s message.conversationId
    (Recovery.addRealtimeMessage (s message.conversationId) message)

/-- The message queries of the cache, by conversation, with the items of their pages.  A query
without data has no pages. -/
structure QueryCache where
  queries : List (UUID × List (List Message))
  unique : (queries.map Prod.fst).Nodup

/-- What the client has of a conversation. -/
def known (s : Store) (query : UUID × List (List Message)) : List Message :=
  query.2.flatten ++ s query.1

/-- The server, and the user who asks. -/
structure Server where
  members : Members
  messages : MessageTable
  userId : UUID

/-- `chatApi.recoverMessages`; `none` if the request fails. -/
def recoverMessages (v : Server) (conversationId : UUID) (cursor : Cursor) : Option MessagePage :=
  match Messages.list v.members v.messages conversationId v.userId 100 none (some cursor) with
  | .ok page => some page
  | .error _ => none

/-- The loop, with the number of pages that are left. -/
def recoverPages (v : Server) (conversationId : UUID) : ℕ → Cursor → Store → Option Store
  | 0, _, s => some s
  | pages + 1, cursor, s =>
      (recoverMessages v conversationId cursor).bind fun page ↦
        let s := page.items.foldl addRealtimeMessage s
        match page.nextCursor with
        | none => some s
        | some cursor => recoverPages v conversationId pages cursor s

/-- One conversation; `had` is what the client had of it when the pass began. -/
def recoverConversation (l : Recovery.Locale) (v : Server) (conversationId : UUID)
    (had : List Message) (s : Store) : Option Store :=
  match newestMessage l had with
  | none => some s
  | some newest => recoverPages v conversationId 20 (encodeCursor newest) s

/-- `recoverLoadedConversations`; `none` if a request fails. -/
def recoverLoadedConversations (l : Recovery.Locale) (v : Server) (cache : QueryCache) (s : Store) :
    Option Store :=
  cache.queries.foldlM (fun t query ↦ recoverConversation l v query.1 (known s query) t) s

/-- The messages that come after all that the client has. -/
def Newer (v : Server) (had : List Message) (conversationId : UUID) (message : Message) : Prop :=
  message ∈ visible v.messages conversationId ∧ ∀ held ∈ had, stamp held < stamp message

/-- All messages after the newest one that the client had are in its cache or its store. -/
def Complete (v : Server) (query : UUID × List (List Message)) (s t : Store) : Prop :=
  ∀ message, Newer v (known s query) query.1 message → message ∈ known t query

/-- The pass has a cursor to start from, and its 20 pages are enough. -/
def Reaches (l : Recovery.Locale) (v : Server) (had : List Message) (conversationId : UUID) :
    Prop :=
  match newestMessage l had with
  | none => visible v.messages conversationId = []
  | some newest =>
      ((visible v.messages conversationId).filter fun message ↦
          stamp newest < stamp message).length ≤ 2000 ∨
        ∀ message, ¬ Newer v had conversationId message

/-- What the client has, and the server too, has the place that it has on the server. -/
def Consistent (v : Server) (had : List Message) : Prop :=
  ∀ held ∈ had, ∀ message ∈ v.messages.rows, held.id = message.id → stamp held = stamp message

variable {l : Recovery.Locale} {v : Server} {c d : UUID} {s t : Store} {k : Instant ×ₗ UUID}
  {users : List UUID} {had : List Message} {message : Message}

/-! ## The loop -/

/-- The messages that `n` pages behind a position hold. -/
def fetched (v : Server) (c : UUID) (n : ℕ) (k : Instant ×ₗ UUID) : List Message :=
  (Keyset.window stamp (some k) (visible v.messages c)).take (n * 100)

theorem recoverMessages_cursorAt (hauth : getAuthorized v.members c v.userId = .ok users) :
    recoverMessages v c (cursorAt k) =
      some (Messages.forwardPage (Keyset.slice stamp 100 (some k) (visible v.messages c))) := by
  rw [recoverMessages, Messages.list_after hauth]

/-- **The loop adds the messages of its pages**, in their order. -/
theorem recoverPages_eq (hauth : getAuthorized v.members c v.userId = .ok users) (n : ℕ)
    (k : Instant ×ₗ UUID) (s : Store) : recoverPages v c n (cursorAt k) s =
      some ((fetched v c n k).foldl addRealtimeMessage s) := by
  have hd := Messages.visible_nodup v.messages c stamp fun _ _ ↦ Messages.stamp_id
  induction n generalizing k s with
  | zero => rw [fetched, Nat.zero_mul, List.take_zero, List.foldl_nil, recoverPages]
  | succ n ih =>
      have hitems : (Keyset.slice stamp 100 (some k) (visible v.messages c)).items =
          (Keyset.window stamp (some k) (visible v.messages c)).take 100 := Keyset.slice_items
      rw [recoverPages, recoverMessages_cursorAt hauth, Option.bind_some]
      dsimp only [Messages.forwardPage]
      cases hmore : (Keyset.slice stamp 100 (some k) (visible v.messages c)).more with
      | false =>
          have hlength : (Keyset.window stamp (some k) (visible v.messages c)).length ≤ 100 :=
            not_lt.mp (mt Keyset.slice_more.mpr (by rw [hmore]; exact Bool.false_ne_true))
          rw [(Keyset.slice_next_eq_none (by decide) hd).mpr hmore, hitems, fetched,
            List.take_of_length_le hlength, List.take_of_length_le (by omega)]
          rfl
      | true =>
          obtain ⟨p, hp, hnext, hle⟩ := Keyset.slice_next (by decide) hd hmore
          rw [hnext, Option.map_some]
          dsimp only
          rw [ih, fetched, Keyset.window_next hd hp hle, hitems, ← List.foldl_append,
            fetched, Nat.succ_mul, Nat.add_comm (n * 100), List.take_add]

/-- A loop that is answered belongs to a member. -/
theorem authorized_of_recoverPages {n : ℕ} {cursor : Cursor}
    (h : recoverPages v c (n + 1) cursor s = some t) :
    ∃ users, getAuthorized v.members c v.userId = .ok users := by
  cases hauth : getAuthorized v.members c v.userId with
  | ok users => exact ⟨users, rfl⟩
  | error e =>
      rw [recoverPages, recoverMessages, Messages.list_error hauth] at h
      cases h

/-! ## The pass -/

/-- What a pass brings of a conversation of which the client had some messages. -/
def brought (l : Recovery.Locale) (v : Server) (had : List Message) (c : UUID) : List Message :=
  match newestMessage l had with
  | none => []
  | some newest => fetched v c 20 (stamp newest)

theorem mem_fetched {n : ℕ} (h : message ∈ fetched v c n k) :
    message ∈ visible v.messages c ∧ k < stamp message := by
  obtain ⟨hmem, hlt⟩ := Keyset.mem_window.mp (List.mem_of_mem_take h)
  exact ⟨hmem, Keyset.beyond_some.mp hlt⟩

theorem visible_of_mem_brought (h : message ∈ brought l v had c) :
    message ∈ visible v.messages c := by
  unfold brought at h
  split at h
  · exact absurd h List.not_mem_nil
  · exact (mem_fetched h).1

theorem recoverConversation_eq (h : recoverConversation l v c had s = some t) :
    t = (brought l v had c).foldl addRealtimeMessage s := by
  unfold recoverConversation at h
  unfold brought
  split at h
  · exact (Option.some.inj h).symm
  · next newest hnewest =>
      obtain ⟨users, hauth⟩ := authorized_of_recoverPages h
      have hpages := recoverPages_eq hauth 20 (stamp newest) s
      exact Option.some.inj (h.symm.trans hpages)

/-- Messages of a conversation are added to its entry. -/
theorem foldl_addRealtimeMessage {items : List Message} (h : ∀ m ∈ items, m.conversationId = c)
    (s : Store) : items.foldl addRealtimeMessage s =
      Function.update s c (items.foldl Recovery.addRealtimeMessage (s c)) := by
  induction items generalizing s with
  | nil => exact (Function.update_eq_self c s).symm
  | cons m items ih =>
      obtain ⟨rfl, hitems⟩ := List.forall_mem_cons.mp h
      rw [List.foldl_cons, List.foldl_cons, ih hitems, addRealtimeMessage, Function.update_self,
        Function.update_idem]

/-- A conversation gets what is brought of it, and no other one does. -/
theorem recoverConversation_apply (h : recoverConversation l v c had s = some t) :
    t = Function.update s c ((brought l v had c).foldl Recovery.addRealtimeMessage (s c)) := by
  rw [recoverConversation_eq h]
  exact foldl_addRealtimeMessage (fun m hm ↦ (Messages.mem_visible.mp
    (visible_of_mem_brought hm)).2.1) s

/-- The queries are gone through: each conversation gets what is brought of it. -/
theorem recoverLoaded_apply {queries : List (UUID × List (List Message))}
    (hunique : (queries.map Prod.fst).Nodup) {s₁ : Store} (h : queries.foldlM
      (fun t query ↦ recoverConversation l v query.1 (known s query) t) s₁ = some t) :
    (∀ d, d ∉ queries.map Prod.fst → t d = s₁ d) ∧ ∀ query ∈ queries, t query.1 =
      (brought l v (known s query) query.1).foldl Recovery.addRealtimeMessage (s₁ query.1) := by
  induction queries generalizing s₁ with
  | nil =>
      cases h
      exact ⟨fun _ _ ↦ rfl, fun _ hq ↦ absurd hq List.not_mem_nil⟩
  | cons first queries ih =>
      rw [List.foldlM_cons] at h
      obtain ⟨s₂, hfirst, hrest⟩ := Option.bind_eq_some_iff.mp h
      rw [List.map_cons, List.nodup_cons] at hunique
      obtain ⟨hothers, heach⟩ := ih hunique.2 hrest
      have hs₂ := recoverConversation_apply hfirst
      refine ⟨fun d hd ↦ ?_, List.forall_mem_cons.mpr ⟨?_, fun query hq ↦ ?_⟩⟩
      · obtain ⟨hne, hd⟩ := not_or.mp (mt List.mem_cons.mpr hd)
        rw [hothers d hd, hs₂, Function.update_of_ne hne]
      · rw [hothers first.1 hunique.1, hs₂, Function.update_self]
      · have hne : query.1 ≠ first.1 := fun e ↦ hunique.1 (e ▸ List.mem_map_of_mem hq)
        rw [heach query hq, hs₂, Function.update_of_ne hne]

/-- Nothing is added but what is brought. -/
theorem mem_of_foldl {items existing : List Message}
    (h : message ∈ items.foldl Recovery.addRealtimeMessage existing) :
    message ∈ existing ∨ message ∈ items := by
  induction items generalizing existing with
  | nil => exact .inl h
  | cons m items ih =>
      rcases ih h with h | h
      · unfold Recovery.addRealtimeMessage at h
        split at h
        · exact .inl h
        · rcases List.mem_append.mp h with h | h
          · exact .inl h
          · exact .inr (List.mem_cons.mpr (.inl (List.mem_singleton.mp h)))
      · exact .inr (List.mem_cons_of_mem m h)

/-- What is brought is added, if nothing else has its `id`. -/
theorem mem_foldl_of_id {items existing : List Message}
    (hexisting : ∀ x ∈ existing, x.id = message.id → x = message)
    (hitems : ∀ x ∈ items, x.id = message.id → x = message)
    (h : message ∈ existing ∨ message ∈ items) :
    message ∈ items.foldl Recovery.addRealtimeMessage existing := by
  induction items generalizing existing with
  | nil => exact h.resolve_right List.not_mem_nil
  | cons m items ih =>
      obtain ⟨hm, hitems⟩ := List.forall_mem_cons.mp hitems
      refine ih (fun x hx hid ↦ ?_) hitems ?_
      · unfold Recovery.addRealtimeMessage at hx
        split at hx
        · exact hexisting x hx hid
        · rcases List.mem_append.mp hx with hx | hx
          · exact hexisting x hx hid
          · obtain rfl := List.mem_singleton.mp hx
            exact hm hid
      · unfold Recovery.addRealtimeMessage
        rcases h with h | h
        · left
          split
          · exact h
          · exact List.mem_append_left _ h
        · rcases List.mem_cons.mp h with rfl | h
          · left
            split
            · next hdup =>
                obtain ⟨x, hx, hid⟩ := hdup
                exact hexisting x hx hid ▸ hx
            · exact List.mem_append_right _ (List.mem_singleton_self _)
          · exact .inr h

/-! ## What is missing -/

/-- The 20 pages hold a newer message if there are no more than 2000 behind the cursor. -/
theorem mem_fetched_of_length (hmessage : message ∈ visible v.messages c) (hlt : k < stamp message)
    (h : ((visible v.messages c).filter fun m ↦ k < stamp m).length ≤ 2000) :
    message ∈ fetched v c 20 k := by
  have hlength : (Keyset.window stamp (some k) (visible v.messages c)).length ≤ 20 * 100 := by
    rw [Keyset.window, List.length_mergeSort]
    simpa only [Keyset.beyond_some] using h
  rw [fetched, List.take_of_length_le hlength]
  exact Keyset.mem_window.mpr ⟨hmessage, Keyset.beyond_some.mpr hlt⟩

/-- If there are more, then one that is newer than all is not on the 20 pages, as soon as there
is one. -/
theorem exists_newer_notMem_fetched {newest : Message} (hnewest : newest ∈ had)
    (hmany : 2000 < ((visible v.messages c).filter fun m ↦ stamp newest < stamp m).length)
    (hnewer : Newer v had c message) :
    ∃ m, Newer v had c m ∧ m ∉ fetched v c 20 (stamp newest) := by
  have hd := Messages.visible_nodup v.messages c stamp fun _ _ ↦ Messages.stamp_id
  have hitems : fetched v c 20 (stamp newest) =
      (Keyset.slice stamp 2000 (some (stamp newest)) (visible v.messages c)).items :=
    Keyset.slice_items.symm
  have hrest :
      (Keyset.window stamp (some (stamp newest)) (visible v.messages c)).drop 2000 ≠ [] := by
    rw [Ne, List.drop_eq_nil_iff, not_le, Keyset.window, List.length_mergeSort]
    simpa only [Keyset.beyond_some] using hmany
  obtain ⟨r, hr⟩ := List.exists_mem_of_ne_nil _ hrest
  have hnot : ∀ m ∈ (Keyset.window stamp (some (stamp newest)) (visible v.messages c)).drop 2000,
      m ∉ fetched v c 20 (stamp newest) := fun m hm hpage ↦
    lt_irrefl _ (Keyset.slice_lt_rest hd (hitems ▸ hpage) hm)
  rcases Keyset.mem_slice_or_rest 2000 hnewer.1 (Keyset.beyond_some.mpr (hnewer.2 newest hnewest))
    with hpage | hlater
  · refine ⟨r, ⟨(Keyset.mem_window.mp (List.mem_of_mem_drop hr)).1, fun held hheld ↦ ?_⟩, hnot r hr⟩
    exact (hnewer.2 held hheld).trans (Keyset.slice_lt_rest hd hpage hr)
  · exact ⟨message, hnewer, hnot message hlater⟩

/-- **A pass is complete exactly if it has a cursor to start from and its pages are enough.** -/
theorem pass_complete_iff {cache : QueryCache}
    (hrun : recoverLoadedConversations l v cache s = some t)
    {query : UUID × List (List Message)} (hquery : query ∈ cache.queries)
    (hconsistent : Consistent v (known s query)) :
    Complete v query s t ↔ Reaches l v (known s query) query.1 := by
  have ht := (recoverLoaded_apply cache.unique hrun).2 query hquery
  have hnew : ∀ m, Newer v (known s query) query.1 m →
      (m ∈ known t query ↔ m ∈ brought l v (known s query) query.1) := by
    intro m hm
    have hnot : ∀ x ∈ known s query, x.id ≠ m.id := fun x hx hid ↦
      (hm.2 x hx).ne (hconsistent x hx m (Messages.mem_visible.mp hm.1).1 hid)
    constructor
    · intro h
      rcases List.mem_append.mp h with h | h
      · exact absurd rfl (hnot m (List.mem_append_left _ h))
      · rw [ht] at h
        refine (mem_of_foldl h).resolve_left fun h ↦ ?_
        exact absurd rfl (hnot m (List.mem_append_right _ h))
    · intro h
      refine List.mem_append_right _ (ht ▸ mem_foldl_of_id (fun x hx hid ↦ ?_) (fun x hx hid ↦ ?_)
        (.inr h))
      · exact absurd hid (hnot x (List.mem_append_right _ hx))
      · exact v.messages.eq_of_id (Messages.mem_visible.mp (visible_of_mem_brought hx)).1
          (Messages.mem_visible.mp hm.1).1 hid
  have hcomplete : Complete v query s t ↔ ∀ m, Newer v (known s query) query.1 m →
      m ∈ brought l v (known s query) query.1 :=
    forall_congr' fun m ↦ ⟨fun h hm ↦ (hnew m hm).mp (h hm), fun h hm ↦ (hnew m hm).mpr (h hm)⟩
  rw [hcomplete]
  unfold Reaches brought
  cases hnewest : newestMessage l (known s query) with
  | none =>
      have hnil : known s query = [] := not_not.mp (mt Recovery.newestMessage_ne_none
        (not_not.mpr hnewest))
      rw [hnil]
      refine ⟨fun h ↦ List.eq_nil_iff_forall_not_mem.mpr fun m hm ↦ ?_, fun h m hm ↦ ?_⟩
      · exact List.not_mem_nil (h m ⟨hm, fun _ hx ↦ absurd hx List.not_mem_nil⟩)
      · exact absurd hm.1 (h ▸ List.not_mem_nil)
  | some newest =>
      have hhad := Recovery.mem_newestMessage hnewest
      dsimp only
      constructor
      · intro h
        by_contra hnot
        obtain ⟨hmany, hsome⟩ := not_or.mp hnot
        obtain ⟨m, hm⟩ := not_forall_not.mp hsome
        obtain ⟨r, hr, hmissing⟩ := exists_newer_notMem_fetched hhad (not_le.mp hmany) hm
        exact hmissing (h r hr)
      · rintro (hfew | hnone) m hm
        · exact mem_fetched_of_length hm.1 (hm.2 newest hhad) hfew
        · exact absurd hm (hnone m)

/-! ## Two passes -/

open Recovery (english numbered)

/-- The second of two members asks for the two messages of the first. -/
def server : Server := ⟨fun _ ↦ some [1, 2], ⟨[numbered 2, numbered 1], by decide⟩, 2⟩

/-- The query has come when there was the first message only. -/
def behind : QueryCache := ⟨[(7, [[numbered 1]])], List.nodup_singleton 7⟩

/-- The pass brings the second message. -/
theorem complete_behind : ∃ t, recoverLoadedConversations english server behind (fun _ ↦ []) =
    some t ∧ numbered 2 ∈ known t (7, [[numbered 1]]) := by
  have hnewest : newestMessage english [numbered 1] = some (numbered 1) :=
    Recovery.newestMessage_of_sorted (by decide)
  have hauth : getAuthorized server.members 7 server.userId = .ok [1, 2] := rfl
  have hone : recoverConversation english server 7 [numbered 1] (fun _ ↦ []) =
      some ((fetched server 7 20 (stamp (numbered 1))).foldl addRealtimeMessage fun _ ↦ []) := by
    rw [recoverConversation, hnewest]
    exact recoverPages_eq hauth 20 (stamp (numbered 1)) _
  obtain ⟨t, hrun⟩ : ∃ t, recoverLoadedConversations english server behind (fun _ ↦ []) =
      some t := ⟨_, (Option.bind_congr fun _ _ ↦ rfl).trans (congrArg (Option.bind · some) hone)⟩
  refine ⟨t, hrun, (pass_complete_iff hrun (List.mem_singleton_self _) ?_).mpr ?_ (numbered 2) ?_⟩
  · change ∀ held ∈ [numbered 1], ∀ message ∈ [numbered 2, numbered 1],
      held.id = message.id → stamp held = stamp message
    decide
  · change Reaches english server [numbered 1] 7
    rw [Reaches, hnewest]
    exact .inl (by decide)
  · exact ⟨by decide, by decide⟩

/-- The query has come when there was no message. -/
def empty : QueryCache := ⟨[(7, [[]])], List.nodup_singleton 7⟩

/-- The pass asks for nothing, and brings nothing. -/
theorem nothing_recovered : ∃ t, recoverLoadedConversations english server empty (fun _ ↦ []) =
    some t ∧ numbered 1 ∈ visible server.messages 7 ∧
      ¬ Complete server (7, [[]]) (fun _ ↦ []) t := by
  have hnone : newestMessage english [] = none := by
    rw [newestMessage, List.mergeSort_nil, List.getLast?_nil]
  have hone : recoverConversation english server 7 [] (fun _ ↦ []) = some fun _ ↦ [] := by
    rw [recoverConversation, hnone]
  have hrun : recoverLoadedConversations english server empty (fun _ ↦ []) =
      some fun _ ↦ [] :=
    (Option.bind_congr fun _ _ ↦ rfl).trans (congrArg (Option.bind · some) hone)
  refine ⟨_, hrun, by decide, fun hcomplete ↦ ?_⟩
  have hnewer : Newer server [] 7 (numbered 1) := ⟨by decide, by decide⟩
  exact absurd (hcomplete (numbered 1) hnewer) (by decide)

end Chatterbox.Client.RecoveryPass
