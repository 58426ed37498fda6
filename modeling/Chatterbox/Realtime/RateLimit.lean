import Chatterbox.Conversations.DirectKey
import Chatterbox.FixedWindow
import Mathlib.Algebra.Order.Group.Int
import Mathlib.Logic.Function.Basic

/-!
# Rate limits

`allow_action` counts the calls of a user for an action.  Redis has one counter for every user and
action, under a key that does not name the instance: so it does not matter which instance a call
comes from.

`RATE_LIMIT_SCRIPT` increments the counter, and has it expire if the increment was the first.
That the key has an expiry from then on, and keeps it, is what makes of it the counter of
`FixedWindow` (`rateLimitScript_eq`).  `rate_limit_exact` is what follows for the calls of one
user for one action, among those of others; `dispatchCall_fixed` says that the calls that
`dispatch_event` makes are such.
-/

namespace Chatterbox.Realtime.RateLimit

open FixedWindow (Counter Windows verdicts AllowedIn)

/-! ## Keys -/

/-- `action.replace(":", "_")`. -/
def safeAction (action : List Char) : List Char := action.map fun c ↦ if c = ':' then '_' else c

/-- The key of the counter. -/
def rateKey (keyPrefix action : List Char) (userId : UUID) : List Char :=
  keyPrefix ++ [':', 'r', 'a', 't', 'e', ':'] ++ safeAction action ++
    ':' :: Conversations.str userId

/-- Different users, or actions that differ in more than colons, have different counters. -/
theorem rateKey_inj {keyPrefix action action' : List Char} {u u' : UUID}
    (h : rateKey keyPrefix action u = rateKey keyPrefix action' u') :
    safeAction action = safeAction action' ∧ u = u' := by
  rw [rateKey, rateKey, List.append_assoc, List.append_assoc (_ ++ _)] at h
  have hlength : (':' :: Conversations.str u).length = (':' :: Conversations.str u').length := by
    rw [List.length_cons, List.length_cons, Conversations.length_str, Conversations.length_str]
  obtain ⟨haction, huser⟩ := List.append_inj' (List.append_cancel_left h) hlength
  exact ⟨haction, Conversations.str_injective (List.cons.inj huser).2⟩

/-! ## Redis -/

/-- A counter of Redis; a key need not have an expiry. -/
structure Entry where
  count : ℕ
  expiresAt : Option Instant
deriving DecidableEq, Repr

/-- The counters by their keys. -/
abbrev Redis := List Char → Option Entry

/-- What is under a key.  The key expires when the clock is past its time. -/
def Redis.lookup (r : Redis) (now : Instant) (k : List Char) : Option Entry :=
  (r k).filter fun e ↦ e.expiresAt.all (now ≤ ·)

/-- `INCR`: an expiry stays. -/
def Redis.incr (r : Redis) (now : Instant) (k : List Char) : ℕ × Redis :=
  let entry : Entry := match r.lookup now k with
    | none => ⟨1, none⟩
    | some e => { e with count := e.count + 1 }
  (entry.count, Function.update r k (some entry))

/-- `EXPIRE`: without a time to live, the key is deleted. -/
def Redis.expire (r : Redis) (now : Instant) (seconds : ℕ) (k : List Char) : Redis :=
  Function.update r k <|
    if seconds = 0 then none
    else (r k).map fun e ↦ { e with expiresAt := some (now + seconds) }

/-- `RATE_LIMIT_SCRIPT`. -/
def rateLimitScript (now : Instant) (limit window : ℕ) (k : List Char) (r : Redis) : Bool × Redis :=
  let (count, r) := r.incr now k
  let r := if count = 1 then r.expire now window k else r
  (count ≤ limit, r)

/-- A call of `allow_action`, and when its script is executed. -/
structure Call where
  time : Instant
  userId : UUID
  action : List Char
  limit : ℕ
  windowSeconds : ℕ
deriving DecidableEq, Repr

/-- `allow_action`. -/
def allowAction (keyPrefix : List Char) (call : Call) (r : Redis) : Bool × Redis :=
  rateLimitScript call.time call.limit call.windowSeconds
    (rateKey keyPrefix call.action call.userId) r

/-- Calls, with what they return, and Redis behind them. -/
def run (keyPrefix : List Char) : Redis → List Call → List (Call × Bool) × Redis
  | r, [] => ([], r)
  | r, call :: calls =>
      let (allowed, r) := allowAction keyPrefix call r
      let (answers, r) := run keyPrefix r calls
      ((call, allowed) :: answers, r)

/-- No counters. -/
def Redis.empty : Redis := fun _ ↦ none

/-! ## The script is a fixed-window counter -/

/-- A counter as Redis has it. -/
def entry (c : Counter Instant) : Option Entry :=
  c.map fun (count, deadline) ↦ ⟨count, some deadline⟩

/-- A counter is there because it has been incremented. -/
def Positive (c : Counter Instant) : Prop :=
  ∀ count deadline, c = some (count, deadline) → 1 ≤ count

variable {keyPrefix action k : List Char} {r : Redis} {c : Counter Instant} {now : Instant}
  {limit window : ℕ} {call : Call} {calls : List Call} {u : UUID}

theorem positive_none : Positive none := by
  rintro count deadline hc
  cases hc

theorem Positive.hit (h : Positive c) (limit : ℕ) (duration now : Instant) :
    Positive (c.hit limit duration now).2 := by
  have hnew : Positive (some (1, now + duration)) := by
    rintro count deadline hc
    cases hc
    exact le_rfl
  match c, h with
  | none, _ => exact hnew
  | some (n, d), h =>
      rcases le_or_gt now d with hlive | hover
      · rw [Counter.hit, if_pos hlive]
        rintro count deadline hc
        cases hc
        exact Nat.le_add_left 1 n
      · rw [FixedWindow.hit_of_lt hover]
        exact hnew

/-- **The script is one hit of the counter.** -/
theorem rateLimitScript_eq (hwindow : 1 ≤ window) (hk : r k = entry c) (hc : Positive c) :
    rateLimitScript now limit window k r =
      ((c.hit limit (window : Instant) now).1,
        Function.update r k (entry (c.hit limit (window : Instant) now).2)) := by
  have hopen : r.lookup now k = none → rateLimitScript now limit window k r =
      (decide (1 ≤ limit), Function.update r k (some ⟨1, some (now + window)⟩)) := by
    intro hnone
    have hne : window ≠ 0 := by omega
    simp [rateLimitScript, Redis.incr, hnone, Redis.expire, hne]
  match c, hc with
  | none, _ =>
      refine hopen ?_
      rw [Redis.lookup, hk]
      rfl
  | some (n, deadline), hc =>
      have hn : 1 ≤ n := hc n deadline rfl
      rcases le_or_gt now deadline with hlive | hover
      · have hlookup : r.lookup now k = some ⟨n, some deadline⟩ := by
          rw [Redis.lookup, hk]
          exact if_pos (decide_eq_true hlive)
        have hcount : n ≠ 0 := by omega
        simp [rateLimitScript, Redis.incr, hlookup, hcount, Counter.hit, hlive, entry]
      · rw [FixedWindow.hit_of_lt hover]
        refine hopen ?_
        rw [Redis.lookup, hk]
        exact if_neg fun h ↦ absurd (of_decide_eq_true h) (not_le.mpr hover)

/-! ## The calls of one user for one action -/

/-- The call is one of the user's for the action. -/
def Call.isOf (u : UUID) (action : List Char) (call : Call) : Bool :=
  call.userId = u && safeAction call.action = safeAction action

/-- The times of these calls, and what they returned. -/
def answersOf (u : UUID) (action : List Char) (answers : List (Call × Bool)) :
    List (Instant × Bool) :=
  (answers.filter (·.1.isOf u action)).map fun (call, allowed) ↦ (call.time, allowed)

/-- The user's calls for the action are made with one limit and one window. -/
def Fixed (u : UUID) (action : List Char) (limit window : ℕ) (calls : List Call) : Prop :=
  ∀ call ∈ calls, call.isOf u action = true → call.limit = limit ∧ call.windowSeconds = window

/-- The key that a call is about. -/
def Call.key (keyPrefix : List Char) (call : Call) : List Char :=
  rateKey keyPrefix call.action call.userId

theorem Call.isOf_iff : call.isOf u action = true ↔
    call.userId = u ∧ safeAction call.action = safeAction action := by
  simp [Call.isOf]

/-- They are the calls that are about the one key. -/
theorem Call.key_eq_iff : call.key keyPrefix = rateKey keyPrefix action u ↔
    call.isOf u action = true := by
  rw [Call.isOf_iff]
  constructor
  · intro h
    exact (rateKey_inj h).symm
  · rintro ⟨rfl, haction⟩
    rw [Call.key, rateKey, rateKey, haction]

theorem run_cons (keyPrefix : List Char) (r : Redis) (call : Call) (calls : List Call) :
    run keyPrefix r (call :: calls) =
      ((call, (allowAction keyPrefix call r).1) ::
          (run keyPrefix (allowAction keyPrefix call r).2 calls).1,
        (run keyPrefix (allowAction keyPrefix call r).2 calls).2) :=
  rfl

/-- Every call is answered, in the order in which they are made. -/
theorem run_fst (keyPrefix : List Char) (r : Redis) (calls : List Call) :
    (run keyPrefix r calls).1.map Prod.fst = calls := by
  induction calls generalizing r with
  | nil => rfl
  | cons call calls ih => rw [run_cons, List.map_cons, ih]

/-- A call changes its own counter.  If there is one then, it expires when the window is over, or
when it did before. -/
theorem allowAction_snd (keyPrefix : List Char) (call : Call) (r : Redis) :
    ∃ e, (allowAction keyPrefix call r).2 = Function.update r (call.key keyPrefix) e ∧
      ∀ new, e = some new → new.expiresAt = some (call.time + call.windowSeconds) ∨
        ∃ old, r (call.key keyPrefix) = some old ∧ new.expiresAt = old.expiresAt := by
  have hfirst : ∀ new : Entry,
      (if call.windowSeconds = 0 then none
        else some (⟨1, some (call.time + call.windowSeconds)⟩ : Entry)) = some new →
      new.expiresAt = some (call.time + call.windowSeconds) := by
    intro new hnew
    split_ifs at hnew
    cases hnew
    rfl
  cases hlookup : r.lookup call.time (call.key keyPrefix) with
  | none =>
      refine ⟨_, ?_, fun new hnew ↦ .inl (hfirst new hnew)⟩
      rw [Call.key] at hlookup ⊢
      simp [allowAction, rateLimitScript, Redis.incr, hlookup, Redis.expire]
  | some old =>
      have hold : r (call.key keyPrefix) = some old := (Option.filter_eq_some_iff.mp hlookup).1
      rw [Call.key] at hlookup hold ⊢
      by_cases hcount : old.count = 0
      · refine ⟨_, ?_, fun new hnew ↦ .inl (hfirst new hnew)⟩
        simp [allowAction, rateLimitScript, Redis.incr, hlookup, hcount, Redis.expire]
      · refine ⟨some ⟨old.count + 1, old.expiresAt⟩, ?_, ?_⟩
        · simp [allowAction, rateLimitScript, Redis.incr, hlookup, hcount]
        · intro new hnew
          cases hnew
          exact .inr ⟨old, hold, rfl⟩

/-- **What the calls return is what the hits of their counter do**, whatever other calls are made
among them. -/
theorem answersOf_run (hwindow : 1 ≤ window) (hfixed : Fixed u action limit window calls)
    (hk : r (rateKey keyPrefix action u) = entry c) (hc : Positive c) :
    answersOf u action (run keyPrefix r calls).1 =
      Counter.hits limit (window : Instant) c
        ((calls.filter (Call.isOf u action)).map Call.time) := by
  induction calls generalizing r c with
  | nil => rfl
  | cons call calls ih =>
      obtain ⟨hcall, hcalls⟩ := List.forall_mem_cons.mp hfixed
      rw [run_cons, answersOf]
      cases hmine : call.isOf u action with
      | true =>
          obtain ⟨hlimit, hseconds⟩ := hcall hmine
          have hkey : rateKey keyPrefix call.action call.userId = rateKey keyPrefix action u :=
            Call.key_eq_iff.mpr hmine
          have hscript : allowAction keyPrefix call r =
              ((c.hit limit (window : Instant) call.time).1,
                Function.update r (rateKey keyPrefix action u)
                  (entry (c.hit limit (window : Instant) call.time).2)) := by
            rw [allowAction, hlimit, hseconds, hkey]
            exact rateLimitScript_eq hwindow hk hc
          rw [List.filter_cons_of_pos (by exact hmine), List.filter_cons_of_pos hmine,
            List.map_cons, List.map_cons, Counter.hits, ← answersOf, hscript,
            ih hcalls (Function.update_self ..) (hc.hit _ _ _)]
      | false =>
          have hother : rateKey keyPrefix action u ≠ call.key keyPrefix := by
            intro h
            exact Bool.false_ne_true (hmine.symm.trans (Call.key_eq_iff.mp h.symm))
          have hsame : (allowAction keyPrefix call r).2 (rateKey keyPrefix action u) = entry c := by
            obtain ⟨e, he, -⟩ := allowAction_snd keyPrefix call r
            rw [he, Function.update_of_ne hother, hk]
          rw [List.filter_cons_of_neg (by simp [hmine]), List.filter_cons_of_neg (by simp [hmine]),
            ← answersOf, ih hcalls hsame hc]

/-! ## No counter stays -/

/-- Every counter expires before a time. -/
def ExpiresBy (bound : Instant) (r : Redis) : Prop :=
  ∀ k e, r k = some e → ∃ deadline, e.expiresAt = some deadline ∧ deadline < bound

/-- A call counts on a counter that expires, or has the one that it makes expire. -/
theorem ExpiresBy.allowAction {bound : Instant} (h : ExpiresBy bound r) (keyPrefix : List Char)
    (hcall : call.time + call.windowSeconds < bound) :
    ExpiresBy bound (allowAction keyPrefix call r).2 := by
  obtain ⟨e, he, hexpires⟩ := allowAction_snd keyPrefix call r
  intro k e' hk
  rw [he] at hk
  by_cases hkey : k = call.key keyPrefix
  · subst hkey
    rw [Function.update_self] at hk
    rcases hexpires e' hk with hexpires | ⟨old, hold, hexpires⟩
    · exact ⟨_, hexpires, hcall⟩
    · rw [hexpires]
      exact h _ old hold
  · rw [Function.update_of_ne hkey] at hk
    exact h k e' hk

theorem ExpiresBy.run {bound : Instant} (h : ExpiresBy bound r) (keyPrefix : List Char)
    (hcalls : ∀ call ∈ calls, call.time + call.windowSeconds < bound) :
    ExpiresBy bound (run keyPrefix r calls).2 := by
  induction calls generalizing r with
  | nil => exact h
  | cons call calls ih =>
      obtain ⟨hcall, hcalls⟩ := List.forall_mem_cons.mp hcalls
      exact ih (h.allowAction keyPrefix hcall) hcalls

theorem ExpiresBy.lookup (h : ExpiresBy now r) (k : List Char) : r.lookup now k = none := by
  rw [Redis.lookup, Option.filter_eq_none_iff]
  intro e he
  obtain ⟨deadline, hdeadline, hlt⟩ := h k e he
  simp [hdeadline, hlt]

/-! ## The calls of `dispatch_event` -/

/-- What `dispatch_event` asks for. -/
inductive RateAction where
  | messageSend
  | messageRead
  | typing
deriving DecidableEq, Repr

def RateAction.text : RateAction → List Char
  | .messageSend => ['m', 'e', 's', 's', 'a', 'g', 'e', '.', 's', 'e', 'n', 'd']
  | .messageRead => ['m', 'e', 's', 's', 'a', 'g', 'e', '.', 'r', 'e', 'a', 'd']
  | .typing => ['t', 'y', 'p', 'i', 'n', 'g']

/-- The settings that it passes. -/
structure Settings where
  messageSendRateLimit : ℕ
  receiptRateLimit : ℕ
  typingRateLimit : ℕ
  realtimeRateLimitWindowSeconds : ℕ
  window_ge : 1 ≤ realtimeRateLimitWindowSeconds

def Settings.rateLimit (st : Settings) : RateAction → ℕ
  | .messageSend => st.messageSendRateLimit
  | .messageRead => st.receiptRateLimit
  | .typing => st.typingRateLimit

/-- A call that it makes. -/
def dispatchCall (st : Settings) (time : Instant) (userId : UUID) (action : RateAction) : Call :=
  ⟨time, userId, action.text, st.rateLimit action, st.realtimeRateLimitWindowSeconds⟩

/-- The actions have counters of their own. -/
theorem safeAction_text_injective : Function.Injective fun a : RateAction ↦ safeAction a.text := by
  intro a b h
  cases a <;> cases b <;> first | rfl | exact absurd h (by decide)

/-- All instances that have the same settings pass the same limit for an action. -/
theorem dispatchCall_fixed (st : Settings) (u : UUID) (action : RateAction)
    (h : ∀ call ∈ calls, ∃ time u' action', call = dispatchCall st time u' action') :
    Fixed u action.text (st.rateLimit action) st.realtimeRateLimitWindowSeconds calls := by
  intro call hcall hmine
  obtain ⟨time, u', action', rfl⟩ := h call hcall
  obtain rfl : action' = action := safeAction_text_injective (Call.isOf_iff.mp hmine).2
  exact ⟨rfl, rfl⟩

/-! ## The limit -/

/-- **Rate limits are exact**: the calls of one user for one action fall into windows, each of
which is opened by the first call after the one before is over, and of each the first calls are
allowed, as many as the limit says.  In no interval that is as long as a window more than twice as
many are allowed, and once all windows are over, no counter is left. -/
theorem rate_limit_exact (keyPrefix : List Char)
    (hsorted : (calls.map Call.time).Pairwise (· ≤ ·)) (hwindow : 1 ≤ window)
    (hfixed : Fixed u action limit window calls) :
    (run keyPrefix Redis.empty calls).1.map Prod.fst = calls ∧
      (∃ ws, Windows (window : Instant) ws ∧
        answersOf u action (run keyPrefix Redis.empty calls).1 = ws.flatMap (verdicts limit)) ∧
      (∀ a, ((answersOf u action (run keyPrefix Redis.empty calls).1).filter
        (AllowedIn a (window : Instant))).length ≤ 2 * limit) ∧
      ∀ now, (∀ call ∈ calls, call.time + call.windowSeconds < now) →
        ∀ k, (run keyPrefix Redis.empty calls).2.lookup now k = none := by
  have hduration : ∀ t : Instant, t ≤ t + window :=
    fun t ↦ Int.le_add_of_nonneg_right (Int.natCast_nonneg window)
  have hmine : ((calls.filter (Call.isOf u action)).map Call.time).Pairwise (· ≤ ·) :=
    hsorted.sublist (List.filter_sublist.map _)
  obtain ⟨ws, hws, hhits⟩ : ∃ ws, Windows (window : Instant) ws ∧ _ :=
    FixedWindow.hits_eq hduration hmine
  have hanswers : answersOf u action (run keyPrefix Redis.empty calls).1 =
      ws.flatMap (verdicts limit) := by
    rw [answersOf_run hwindow hfixed rfl positive_none, hhits]
  refine ⟨run_fst .., ⟨ws, hws, hanswers⟩, fun a ↦ ?_, fun now hnow k ↦ ?_⟩
  · rw [hanswers]
    exact FixedWindow.allowed_le hws limit a
  · have hempty : ExpiresBy now Redis.empty := by
      rintro k e hk
      cases hk
    exact (hempty.run keyPrefix hnow).lookup k

/-- One typing event a minute. -/
def strict : Settings := ⟨30, 120, 1, 60, by decide⟩

/-- Two users type, the first of them from two instances and, when the minute is over, once more. -/
def typed : List Call :=
  [dispatchCall strict 0 1 .typing, dispatchCall strict 0 2 .typing,
    dispatchCall strict 7 1 .typing, dispatchCall strict 61 1 .typing]

/-- The third call is refused, and the fourth opens a window.  When that is over, too, the counter
is gone. -/
theorem typed_forgotten :
    (run [] Redis.empty typed).1.map Prod.snd = [true, true, false, true] ∧
      ((answersOf 1 RateAction.typing.text (run [] Redis.empty typed).1).filter
        (AllowedIn 2 60)).length ≤ 2 ∧
      (run [] Redis.empty typed).2.lookup 122 (rateKey [] RateAction.typing.text 1) = none := by
  have hfixed : Fixed 1 RateAction.typing.text 1 60 typed := by
    refine dispatchCall_fixed strict 1 .typing fun call hcall ↦ ?_
    simp only [typed, List.mem_cons, List.not_mem_nil, or_false] at hcall
    rcases hcall with rfl | rfl | rfl | rfl
    exacts [⟨_, _, _, rfl⟩, ⟨_, _, _, rfl⟩, ⟨_, _, _, rfl⟩, ⟨_, _, _, rfl⟩]
  have h := rate_limit_exact [] (by decide) (by decide) hfixed
  exact ⟨by decide +kernel, h.2.2.1 2, h.2.2.2 122 (by decide) _⟩

end Chatterbox.Realtime.RateLimit
