import Chatterbox.Auth.Tokens

/-!
# One-time rotation

What the row lock gives, and what it does not.  A request that has flushed its
`UPDATE` holds the row of its token until it ends (`Inv.owns`), so two requests
are never both between the `UPDATE` and the commit.  But the lock says nothing
about the `SELECT` before it: a request that read the row as active goes on to
overwrite the revocation of another that has committed meanwhile, and issues a
second pair.

`refresh_succeeds_once` isolates the schedules on which rotation is one-time:
those in which no `UPDATE` of a refresh gets the row lock after another refresh
of the token has committed.  Nothing in the code excludes the others:
`overlapping_refresh_reissues` is such a run, and `Unraced` is exact in that any
step outside it can be continued to a second success.

What does hold on every schedule is that a request reading after a committed
revocation fails, `late_read_fails`.
-/

namespace Chatterbox.Auth

/-! ## What a phase says about a token -/

namespace Phase

/-- The token whose row the request has updated and not yet committed. -/
def flushed : Phase → Option UUID
  | .revoked _ p _ | .issued p _ _ _ => some p.jti
  | _ => none

/-- The token that a refresh has revoked and not yet committed. -/
def rotating : Phase → Option UUID
  | .revoked .refresh p _ | .issued p _ _ _ => some p.jti
  | _ => none

/-- The token for which a refresh has answered with a new pair. -/
def rotated : Phase → Option UUID
  | .succeeded p _ => some p.jti
  | _ => none

theorem flushed_of_rotating {ph : Phase} {j : UUID} (h : ph.rotating = some j) :
    ph.flushed = some j := by
  match ph, h with
  | .revoked .refresh _ _, h => exact h
  | .issued _ _ _ _, h => exact h

theorem rotated_of_rotating {ph : Phase} {j : UUID} (h : ph.rotating = some j) :
    ph.rotated = none := by
  match ph, h with
  | .revoked .refresh _ _, _ => rfl
  | .issued _ _ _ _, _ => rfl

end Phase

/-- At most one refresh of a token has succeeded. -/
def RotatedOnce (s : State) : Prop :=
  ∀ q r j, (s.phase q).rotated = some j → (s.phase r).rotated = some j → q = r

/-- No refresh of the token has committed. -/
def Unrotated (s : State) (j : UUID) : Prop :=
  ∀ q, (s.phase q).rotated ≠ some j

/-- The `UPDATE` of a refresh gets the row lock before any other refresh of the
token has committed. -/
def Unraced (s : State) : Action → Prop
  | .revoke r => ∀ p, s.phase r = .loaded p → Unrotated s p.jti
  | _ => True

/-! ## The invariant -/

/-- What every state of a run without such a race satisfies. -/
structure Inv (s : State) : Prop where
  /-- A flushed `UPDATE` holds the row lock. -/
  owns : ∀ r j, (s.phase r).flushed = some j → s.tokens.owner j = some r
  /-- While a refresh is between its `UPDATE` and its commit, no other has committed. -/
  unrotated : ∀ r j, (s.phase r).rotating = some j → Unrotated s j
  /-- No two refreshes of a token have committed. -/
  once : RotatedOnce s

/-- Two requests never both hold a flushed `UPDATE` of one token. -/
theorem Inv.flushed_unique {s : State} (h : Inv s) {q r : Req} {j : UUID}
    (hq : (s.phase q).flushed = some j) (hr : (s.phase r).flushed = some j) : q = r :=
  Option.some.inj ((h.owns q j hq).symm.trans (h.owns r j hr))

/-- A request moves on.  The other requests keep their locks; the mover has the
lock of what it has flushed, only succeeds with what it was rotating, and starts
to rotate only what nobody has rotated. -/
theorem Inv.move {s t : State} (h : Inv s) {r : Req} {ph : Phase}
    (hph : t.phase = Function.update s.phase r ph)
    (hothers : ∀ q j, q ≠ r → s.tokens.owner j = some q → t.tokens.owner j = some q)
    (hself : ∀ j, ph.flushed = some j → t.tokens.owner j = some r)
    (hdone : ∀ j, ph.rotated = some j → (s.phase r).rotating = some j)
    (hstart : ∀ j, ph.rotating = some j → (s.phase r).rotating = some j ∨ Unrotated s j) :
    Inv t := by
  have hr : t.phase r = ph := by rw [hph, Function.update_self]
  have hne : ∀ q, q ≠ r → t.phase q = s.phase q := fun q hq ↦ by
    rw [hph, Function.update_of_ne hq]
  have hfree : ∀ j, ph.rotating = some j → Unrotated s j := by
    intro j hj
    rcases hstart j hj with hrot | hun
    · exact h.unrotated r j hrot
    · exact hun
  refine ⟨?_, ?_, ?_⟩
  · intro q j hq
    by_cases e : q = r
    · subst e
      exact hself j (hr ▸ hq)
    · rw [hne q e] at hq
      exact hothers q j e (h.owns q j hq)
  · intro q j hq q' hq'
    by_cases e : q = r
    · subst e
      rw [hr] at hq
      by_cases e' : q' = q
      · subst e'
        rw [hr, Phase.rotated_of_rotating hq] at hq'
        cases hq'
      · rw [hne q' e'] at hq'
        exact hfree j hq q' hq'
    · rw [hne q e] at hq
      by_cases e' : q' = r
      · subst e'
        rw [hr] at hq'
        exact e (h.flushed_unique (Phase.flushed_of_rotating hq)
          (Phase.flushed_of_rotating (hdone j hq')))
      · rw [hne q' e'] at hq'
        exact h.unrotated q j hq q' hq'
  · intro q q' j hq hq'
    by_cases e : q = r
    · by_cases e' : q' = r
      · rw [e, e']
      · rw [e, hr] at hq
        rw [hne q' e'] at hq'
        exact absurd hq' (h.unrotated r j (hdone j hq) q')
    · rw [hne q e] at hq
      by_cases e' : q' = r
      · rw [e', hr] at hq'
        exact absurd hq (h.unrotated r j (hdone j hq') q)
      · rw [hne q' e'] at hq'
        exact h.once q q' j hq hq'

/-- A request moves to a phase in which it has nothing flushed and nothing
committed, and no lock changes hands. -/
theorem Inv.move_quiet {s t : State} (h : Inv s) {r : Req} {ph : Phase}
    (hph : t.phase = Function.update s.phase r ph) (htok : t.tokens = s.tokens)
    (hflushed : ph.flushed = none) (hrotated : ph.rotated = none) : Inv t := by
  refine h.move hph (fun q j _ ho ↦ htok ▸ ho) ?_ ?_ ?_
  · intro j hj
    rw [hflushed] at hj
    cases hj
  · intro j hj
    rw [hrotated] at hj
    cases hj
  · intro j hj
    have := Phase.flushed_of_rotating hj
    rw [hflushed] at this
    cases this

/-- The `UPDATE` of a request keeps the invariant, if it starts to rotate only
what nobody has rotated. -/
theorem Inv.flush {s t : State} (h : Inv s) {r : Req} {kind : Kind}
    {p : TokenPayload} (ht : Auth.flush s r kind p = some t)
    (hfree : kind = .refresh → Unrotated s p.jti) : Inv t := by
  obtain ⟨tokens, hlock, ht⟩ := Option.bind_eq_some_iff.mp ht
  obtain ⟨row, -, rfl⟩ := Option.map_eq_some_iff.mp ht
  refine h.move rfl (fun q j _ ho ↦ Table.lock_owner_of_some hlock ho) ?_ ?_ ?_
  · intro j hj
    obtain rfl : p.jti = j := Option.some.inj hj
    exact Table.lock_owner_self hlock
  · intro j hj
    cases hj
  · intro j hj
    cases kind with
    | refresh =>
        obtain rfl : p.jti = j := Option.some.inj hj
        exact Or.inr (hfree rfl)
    | logout => cases hj

/-- A request ends and drops its locks. -/
theorem Inv.finish {s t : State} (h : Inv s) {r : Req} {ph : Phase}
    (hph : t.phase = Function.update s.phase r ph)
    (howner : t.tokens.owner = (s.tokens.release r).owner) (hflushed : ph.flushed = none)
    (hdone : ∀ j, ph.rotated = some j → (s.phase r).rotating = some j) : Inv t := by
  refine h.move hph ?_ ?_ hdone ?_
  · intro q j hq ho
    rw [howner]
    exact Table.release_owner_of_ne hq ho
  · intro j hj
    rw [hflushed] at hj
    cases hj
  · intro j hj
    have := Phase.flushed_of_rotating hj
    rw [hflushed] at this
    cases this

theorem Inv.initial {s : State} (h : Initial s) : Inv s := by
  refine ⟨?_, ?_, ?_⟩ <;> intro r <;> simp [h.2, Phase.flushed, Phase.rotating, Phase.rotated]

/-- The invariant survives every step outside the race. -/
theorem Inv.step {lifetime : Int} {s t : State} {a : Action} (h : Inv s) (hok : Unraced s a)
    (ht : Auth.step lifetime s a = some t) : Inv t := by
  cases Move.of_step ht with
  | tick => exact ⟨h.owns, h.unrotated, h.once⟩
  | decoded | undecoded | active | loaded | unknown => exact h.move_quiet rfl rfl rfl rfl
  | @rejected r kind => cases kind <;> exact h.move_quiet rfl rfl rfl rfl
  | refresh phase flushed => exact h.flush flushed fun _ ↦ hok _ phase
  | logout phase flushed => exact h.flush flushed (fun hk ↦ by cases hk)
  | @issued r p row jti phase =>
      refine h.move rfl (fun q j _ ho ↦ ho) ?_ (fun j hj ↦ by cases hj) ?_
      · intro j hj
        exact h.owns r j (by rw [phase]; exact hj)
      · intro j hj
        exact Or.inl (by rw [phase]; exact hj)
  | succeeded phase => exact h.finish rfl rfl rfl fun j hj ↦ by rw [phase]; exact hj
  | loggedOut | aborted => exact h.finish rfl rfl rfl fun j hj ↦ by cases hj

/-! ## Rotation is one-time on the schedules without a race -/

/-- A step moves at most one request, and none that has been answered. -/
theorem step_phase {lifetime : Int} {s t : State} {a : Action}
    (ht : Auth.step lifetime s a = some t) :
    t.phase = s.phase ∨
      ∃ r ph, t.phase = Function.update s.phase r ph ∧ (s.phase r).final = false := by
  cases Move.of_step ht with
  | tick => exact Or.inl rfl
  | refresh phase flushed | logout phase flushed =>
      obtain ⟨tokens, -, hrow⟩ := Option.bind_eq_some_iff.mp flushed
      obtain ⟨row, -, rfl⟩ := Option.map_eq_some_iff.mp hrow
      exact Or.inr ⟨_, _, rfl, by rw [phase]; rfl⟩
  | aborted unanswered => exact Or.inr ⟨_, _, rfl, unanswered⟩
  | decoded phase | undecoded phase | active phase | rejected phase | loaded phase | unknown phase
  | issued phase | succeeded phase | loggedOut phase =>
      exact Or.inr ⟨_, _, rfl, by rw [phase]; rfl⟩

/-- An answer is never changed. -/
theorem phase_eq_of_final {lifetime : Int} {s t : State} {as : List Action} {r : Req}
    (hr : (s.phase r).final = true) (hrun : exec (Auth.step lifetime) s as = some t) :
    t.phase r = s.phase r := by
  refine exec_invariant (P := fun u ↦ u.phase r = s.phase r) ?_ rfl hrun
  intro t a u hP hstep
  rcases step_phase hstep with h | ⟨q, ph, h, hq⟩
  · rw [h, hP]
  · have hne : r ≠ q := by
      rintro rfl
      rw [hP, hr] at hq
      cases hq
    rw [h, Function.update_of_ne hne, hP]

/-- **A refresh that reads after a committed revocation fails**, on every schedule. -/
theorem late_read_fails {lifetime : Int} {m s : State} {post : List Action} {r : Req}
    {kind : Kind} {p : TokenPayload} {token : RefreshToken} (hr : m.phase r = .decoded kind p)
    (hrow : m.tokens.row p.jti = some token) (hrev : token.revokedAt ≠ none)
    (hrun : exec (Auth.step lifetime) m (.getActive r :: post) = some s) :
    (s.phase r).rotated = none := by
  obtain ⟨t, ht, hpost⟩ := exec_cons_eq_some.mp hrun
  have hnone : getActive m p.jti = none := by simp [getActive, hrow, hrev]
  have hphase : t.phase r = rejected kind := by
    simp only [Auth.step, hr, hnone, Option.some.injEq] at ht
    subst ht
    exact State.set_phase_self ..
  rw [phase_eq_of_final (by rw [hphase]; cases kind <;> rfl) hpost, hphase]
  cases kind <;> rfl

/-- **Refresh rotation is one-time** when no refresh updates the row of a token
for which another refresh has committed since: at most one request succeeds, and
none of those that read after a committed revocation. -/
theorem refresh_succeeds_once (lifetime : Int) {s₀ s : State} {as : List Action}
    (h₀ : Initial s₀) (hrun : exec (Auth.step lifetime) s₀ as = some s)
    (hok : Along (Auth.step lifetime) Unraced s₀ as) :
    RotatedOnce s ∧
      ∀ pre r post m kind p token, as = pre ++ .getActive r :: post →
        exec (Auth.step lifetime) s₀ pre = some m → m.phase r = .decoded kind p →
        m.tokens.row p.jti = some token → token.revokedAt ≠ none →
        (s.phase r).rotated = none := by
  constructor
  · exact (exec_induction (P := Inv) (fun h hok ht ↦ h.step hok ht) (.initial h₀) hrun hok).once
  · rintro pre r post m kind p token rfl hpre hr hrow hrev
    obtain ⟨m', hm', hpost⟩ := exec_append_eq_some.mp hrun
    obtain rfl : m = m' := Option.some.inj (hpre.symm.trans hm')
    exact late_read_fails hr hrow hrev hpost

/-- The condition is exact: a refresh that does update the row after another has
committed goes on to succeed as well, whatever fresh identifier it draws. -/
theorem second_success_of_race {lifetime : Int} {s t : State} {r : Req} {jti : UUID}
    (ht : Auth.step lifetime s (.revoke r) = some t) (hrace : ¬ Unraced s (.revoke r))
    (hfresh : jti ∉ t.drawn ∧ t.tokens.row jti = none) :
    ∃ u, exec (Auth.step lifetime) t [.issue r jti, .commit r] = some u ∧ ¬ RotatedOnce u := by
  simp only [Unraced, Unrotated, not_forall, not_not] at hrace
  obtain ⟨p, hp, q, hq⟩ := hrace
  have hqr : q ≠ r := by
    rintro rfl
    rw [hp] at hq
    cases hq
  simp only [Auth.step, hp, Auth.flush] at ht
  obtain ⟨tokens, -, ht⟩ := Option.bind_eq_some_iff.mp ht
  obtain ⟨row, -, rfl⟩ := Option.map_eq_some_iff.mp ht
  simp only [exec_cons, Auth.step, State.set_phase_self, if_pos hfresh, Option.bind_some,
    exec_nil, Option.some.injEq, exists_eq_left']
  intro honce
  refine hqr (honce q r p.jti ?_ ?_)
  · simpa [State.set, hqr] using hq
  · simp [State.set, Phase.rotated]

/-! ## Two overlapping requests -/

/-- A user, a refresh token of theirs, and nothing in flight. -/
def oneToken : State where
  now := 0
  users := fun _ ↦ true
  tokens := ⟨fun j ↦ if j = 7 then some ⟨1, 100, none⟩ else none, fun _ ↦ none⟩
  drawn := []
  phase := fun _ ↦ .idle

/-- The token as the client presents it. -/
def presented : RawToken := ⟨true, ⟨1, .refresh, 7, 100⟩⟩

/-- Both requests read before either has committed. -/
def overlapping : List Action :=
  [.receive 0 .refresh presented, .receive 1 .refresh presented, .getActive 0, .getActive 1,
    .getUser 0, .getUser 1, .revoke 0, .issue 0 8, .commit 0, .revoke 1, .issue 1 9, .commit 1]

/-- The two requests of `overlapping` both succeed. -/
theorem overlapping_refresh_reissues : Initial oneToken ∧
    ∃ s, exec (Auth.step 10) oneToken overlapping = some s ∧ ¬ RotatedOnce s := by
  refine ⟨⟨fun _ ↦ rfl, fun _ ↦ rfl⟩, _, rfl, fun h ↦ ?_⟩
  exact absurd (h 0 1 7 rfl rfl) (by decide)

/-- The second request reads the row when the first has committed. -/
def refused : List Action :=
  [.receive 0 .refresh presented, .receive 1 .refresh presented, .getActive 0, .getUser 0,
    .revoke 0, .issue 0 8, .commit 0, .getActive 1]

/-- Of two requests with one token the first succeeds and the second is refused. -/
theorem refresh_succeeds_once_refused :
    ∃ s, exec (Auth.step 10) oneToken refused = some s ∧ (s.phase 0).rotated = some 7 ∧
      s.phase 1 = .failed (some invalidRefreshToken) ∧ RotatedOnce s ∧
        (s.phase 1).rotated = none := by
  have hok : Along (Auth.step 10) Unraced oneToken refused := by
    refine .cons trivial rfl (.cons trivial rfl (.cons trivial rfl (.cons trivial rfl (.cons ?_ rfl
      (.cons trivial rfl (.cons trivial rfl (.cons trivial rfl trivial)))))))
    intro p _ q
    by_cases h : q = 0
    · subst h; simp [State.set, Phase.rotated]
    · by_cases h' : q = 1
      · subst h'; simp [State.set, Phase.rotated]
      · simp [State.set, h, h', Phase.rotated, oneToken]
  have h := refresh_succeeds_once 10 (⟨fun _ ↦ rfl, fun _ ↦ rfl⟩ : Initial oneToken) rfl hok
  exact ⟨_, rfl, rfl, rfl, h.1, h.2 (refused.take 7) 1 [] _ .refresh _ _ rfl rfl rfl rfl nofun⟩

end Chatterbox.Auth
