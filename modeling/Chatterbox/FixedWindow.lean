import Mathlib.Algebra.Order.Monoid.Unbundled.Basic
import Mathlib.Data.List.Basic
import Mathlib.Order.Defs.LinearOrder

/-!
# Fixed-window counters

A counter is opened by a hit, lasts for a fixed time, and is then forgotten; the next hit
opens another one.  While it lasts it counts the hits, and allows them as long as the count
does not exceed a limit.

`Counter.hit` is one hit and `Counter.hits` a list of them, at times that do not decrease.
Two results say what this amounts to:

* `hits_eq`: the hits fall into windows (`Windows`), and of every window the first ones are
  allowed, as many as the limit says (`verdicts`);
* `allowed_le`: of the hits of any half-open interval that is as long as a window, at most
  twice as many are allowed.
-/

namespace Chatterbox.FixedWindow

variable {T : Type*} [LinearOrder T] [Add T]

/-- A counter, if there is one: how many hits it has counted, and until when it lasts. -/
abbrev Counter (T : Type*) := Option (ℕ × T)

/-- One hit: whether it is allowed, and the counter behind it. -/
def Counter.hit (limit : ℕ) (duration now : T) : Counter T → Bool × Counter T
  | some (count, deadline) =>
      if now ≤ deadline then (count + 1 ≤ limit, some (count + 1, deadline))
      else (1 ≤ limit, some (1, now + duration))
  | none => (1 ≤ limit, some (1, now + duration))

/-- Hits at some times, and which of them are allowed. -/
def Counter.hits (limit : ℕ) (duration : T) : Counter T → List T → List (T × Bool)
  | _, [] => []
  | c, now :: later =>
      let (allowed, c) := c.hit limit duration now
      (now, allowed) :: c.hits limit duration later

/-- The hits of a window, the first of which opens it. -/
def IsWindow (duration : T) (w : List T) : Prop :=
  ∃ opening, w.head? = some opening ∧ ∀ t ∈ w, opening ≤ t ∧ t ≤ opening + duration

/-- Windows, each of which is opened when the one before is over. -/
structure Windows (duration : T) (ws : List (List T)) : Prop where
  each : ∀ w ∈ ws, IsWindow duration w
  disjoint : ws.Pairwise fun v w ↦ ∀ a ∈ v.head?, ∀ b ∈ w.head?, a + duration < b

/-- The verdicts on hits of which some are still allowed. -/
def verdicts (left : ℕ) (w : List T) : List (T × Bool) :=
  (w.take left).map (·, true) ++ (w.drop left).map (·, false)

variable {limit left : ℕ} {duration now a t : T} {c : Counter T} {w ts : List T}
  {ws : List (List T)}

omit [LinearOrder T] [Add T] in
theorem verdicts_cons (left : ℕ) (t : T) (w : List T) :
    verdicts left (t :: w) = (t, decide (1 ≤ left)) :: verdicts (left - 1) w := by
  cases left with
  | zero => simp [verdicts]
  | succ left => simp [verdicts]

omit [LinearOrder T] [Add T] in
@[simp] theorem verdicts_nil (left : ℕ) : verdicts left ([] : List T) = [] := by simp [verdicts]

/-! ## Hits fall into windows -/

/-- A counter that has been forgotten is as good as none. -/
theorem hit_of_lt {count : ℕ} {deadline : T} (h : deadline < now) :
    Counter.hit limit duration now (some (count, deadline)) =
      Counter.hit limit duration now none :=
  if_neg (not_le.mpr h)

/-- What is left of a window, and the windows behind it. -/
structure Split (limit : ℕ) (duration : T) (count : ℕ) (opening : T) (ts : List T) (w : List T)
    (ws : List (List T)) : Prop where
  windows : Windows duration ws
  within : ∀ t ∈ w, opening ≤ t ∧ t ≤ opening + duration
  later : ∀ v ∈ ws, ∀ b ∈ v.head?, opening + duration < b
  hits : Counter.hits limit duration (some (count, opening + duration)) ts =
    verdicts (limit - count) w ++ ws.flatMap (verdicts limit)

/-- A window that is opened by a hit. -/
theorem Split.cons {opening : T} (h : Split limit duration 1 opening ts w ws)
    (hopening : opening ≤ opening + duration) :
    Windows duration ((opening :: w) :: ws) ∧
      Counter.hits limit duration none (opening :: ts) =
        ((opening :: w) :: ws).flatMap (verdicts limit) := by
  refine ⟨⟨?_, ?_⟩, ?_⟩
  · refine List.forall_mem_cons.mpr ⟨⟨opening, rfl, ?_⟩, h.windows.each⟩
    exact List.forall_mem_cons.mpr ⟨⟨le_rfl, hopening⟩, h.within⟩
  · refine List.pairwise_cons.mpr ⟨fun v hv a ha b hb ↦ ?_, h.windows.disjoint⟩
    obtain rfl : opening = a := Option.some.inj ha
    exact h.later v hv b hb
  · rw [Counter.hits, List.flatMap_cons, verdicts_cons, List.cons_append, ← h.hits]
    rfl

/-- The hits behind the one that has opened a window. -/
theorem exists_split (hduration : ∀ t : T, t ≤ t + duration) (hsorted : ts.Pairwise (· ≤ ·))
    {count : ℕ} {opening : T} (hafter : ∀ t ∈ ts, opening ≤ t) :
    ∃ w ws, Split limit duration count opening ts w ws := by
  induction ts generalizing count opening with
  | nil =>
      refine ⟨[], [], ⟨⟨?_, .nil⟩, ?_, ?_, by simp [Counter.hits]⟩⟩
      · exact fun _ h ↦ absurd h List.not_mem_nil
      · exact fun _ h ↦ absurd h List.not_mem_nil
      · exact fun _ h ↦ absurd h List.not_mem_nil
  | cons t ts ih =>
      obtain ⟨hle, hsorted⟩ := List.pairwise_cons.mp hsorted
      obtain ⟨ht, hts⟩ := List.forall_mem_cons.mp hafter
      rcases le_or_gt t (opening + duration) with hlive | hover
      · -- The window lasts.
        obtain ⟨w, ws, h⟩ : ∃ w ws, Split limit duration (count + 1) opening ts w ws :=
          ih hsorted hts
        refine ⟨t :: w, ws, h.windows, ?_, h.later, ?_⟩
        · exact List.forall_mem_cons.mpr ⟨⟨ht, hlive⟩, h.within⟩
        · have hone : (1 ≤ limit - count) = (count + 1 ≤ limit) := by
            rw [eq_iff_iff]
            omega
          rw [Counter.hits, Counter.hit, if_pos hlive, verdicts_cons, List.cons_append,
            Nat.sub_sub, ← h.hits]
          simp only [hone]
      · -- It is over, and another one is opened.
        obtain ⟨w, ws, h⟩ : ∃ w ws, Split limit duration 1 t ts w ws := ih hsorted hle
        obtain ⟨hwindows, hhits⟩ := h.cons (hduration t)
        refine ⟨[], (t :: w) :: ws, hwindows, fun _ h ↦ absurd h List.not_mem_nil, ?_, ?_⟩
        · refine List.forall_mem_cons.mpr ⟨fun b hb ↦ ?_, fun v hv b hb ↦ ?_⟩
          · exact Option.some.inj hb ▸ hover
          · exact (hover.trans_le (hduration t)).trans (h.later v hv b hb)
        · rw [Counter.hits, hit_of_lt hover, verdicts_nil, List.nil_append]
          exact hhits

/-- **Hits fall into windows, and of each window the first ones are allowed.** -/
theorem hits_eq (hduration : ∀ t : T, t ≤ t + duration) (hsorted : ts.Pairwise (· ≤ ·)) :
    ∃ ws, Windows duration ws ∧
      Counter.hits limit duration none ts = ws.flatMap (verdicts limit) := by
  cases ts with
  | nil => exact ⟨[], ⟨fun _ h ↦ absurd h List.not_mem_nil, .nil⟩, rfl⟩
  | cons t ts =>
      obtain ⟨hle, hsorted⟩ := List.pairwise_cons.mp hsorted
      obtain ⟨w, ws, h⟩ : ∃ w ws, Split limit duration 1 t ts w ws :=
        exists_split hduration hsorted hle
      exact ⟨_, h.cons (hduration t)⟩

/-! ## Hits in an interval -/

/-- The verdict is on a hit of the interval, and allows it. -/
def AllowedIn (a duration : T) (x : T × Bool) : Bool := x.2 && (a ≤ x.1 && x.1 < a + duration)

theorem allowedIn_eq_true {x : T × Bool} :
    AllowedIn a duration x = true ↔ x.2 = true ∧ a ≤ x.1 ∧ x.1 < a + duration := by
  simp [AllowedIn]

/-- Of a window no more are allowed than the limit says. -/
theorem allowedIn_verdicts_le (limit : ℕ) (w : List T) :
    ((verdicts limit w).filter (AllowedIn a duration)).length ≤ limit := by
  have hrefused : ((w.drop limit).map (·, false)).filter (AllowedIn a duration) = [] := by
    refine List.filter_eq_nil_iff.mpr fun x hx ↦ ?_
    obtain ⟨t, -, rfl⟩ := List.mem_map.mp hx
    exact fun h ↦ Bool.false_ne_true (allowedIn_eq_true.mp h).1
  rw [verdicts, List.filter_append, hrefused, List.append_nil]
  calc
    _ ≤ ((w.take limit).map (·, true)).length := List.length_filter_le ..
    _ = (w.take limit).length := List.length_map _
    _ ≤ limit := List.length_take_le ..

omit [LinearOrder T] [Add T] in
theorem mem_of_mem_verdicts {left : ℕ} {x : T × Bool} (h : x ∈ verdicts left w) : x.1 ∈ w := by
  rcases List.mem_append.mp h with h | h
  · obtain ⟨t, ht, rfl⟩ := List.mem_map.mp h
    exact List.mem_of_mem_take ht
  · obtain ⟨t, ht, rfl⟩ := List.mem_map.mp h
    exact List.mem_of_mem_drop ht

/-- Windows with no hit in the interval. -/
theorem allowedIn_eq_nil (h : ∀ w ∈ ws, ∀ t ∈ w, ¬ (a ≤ t ∧ t < a + duration)) :
    (ws.flatMap (verdicts limit)).filter (AllowedIn a duration) = [] := by
  refine List.filter_eq_nil_iff.mpr fun x hx hallowed ↦ ?_
  obtain ⟨w, hw, hx⟩ := List.mem_flatMap.mp hx
  exact h w hw x.1 (mem_of_mem_verdicts hx) (allowedIn_eq_true.mp hallowed).2

theorem Windows.of_cons (h : Windows duration (w :: ws)) : Windows duration ws :=
  ⟨(List.forall_mem_cons.mp h.each).2, (List.pairwise_cons.mp h.disjoint).2⟩

variable [AddRightMono T]

/-- If the first window is opened in the interval, then it is the only one with hits there. -/
theorem allowedIn_le_of_opening (h : Windows duration (w :: ws)) {opening : T}
    (hopening : w.head? = some opening) (ha : a ≤ opening) :
    (((w :: ws).flatMap (verdicts limit)).filter (AllowedIn a duration)).length ≤ limit := by
  have hrest : (ws.flatMap (verdicts limit)).filter (AllowedIn a duration) = [] := by
    refine allowedIn_eq_nil fun v hv t ht hin ↦ ?_
    obtain ⟨b, hb, hwithin⟩ := h.of_cons.each v hv
    have hspaced := (List.pairwise_cons.mp h.disjoint).1 v hv opening hopening b hb
    have hlt : a + duration < t :=
      (add_le_add_left ha duration).trans_lt (hspaced.trans_le (hwithin t ht).1)
    exact absurd hin.2 hlt.not_gt
  rw [List.flatMap_cons, List.filter_append, hrest, List.append_nil]
  exact allowedIn_verdicts_le limit w

/-- **Of the hits of an interval as long as a window, at most twice the limit are allowed**: there
may be hits of the window that is open when the interval begins, and of one more. -/
theorem allowed_le (h : Windows duration ws) (limit : ℕ) (a : T) :
    ((ws.flatMap (verdicts limit)).filter (AllowedIn a duration)).length ≤ 2 * limit := by
  induction ws with
  | nil => exact Nat.zero_le _
  | cons w ws ih =>
      obtain ⟨opening, hopening, hwithin⟩ := h.each w List.mem_cons_self
      rcases le_or_gt a opening with ha | ha
      · exact (allowedIn_le_of_opening h hopening ha).trans (by omega)
      cases ws with
      | nil =>
          rw [List.flatMap_singleton]
          exact (allowedIn_verdicts_le limit w).trans (by omega)
      | cons v vs =>
          obtain ⟨next, hnext, -⟩ := h.each v (List.mem_cons_of_mem w List.mem_cons_self)
          rw [List.flatMap_cons, List.filter_append, List.length_append]
          rcases le_or_gt a next with hnext' | hnext'
          · have hrest : (((v :: vs).flatMap (verdicts limit)).filter
                (AllowedIn a duration)).length ≤ limit :=
              allowedIn_le_of_opening h.of_cons hnext hnext'
            have hfirst : ((verdicts limit w).filter (AllowedIn a duration)).length ≤ limit :=
              allowedIn_verdicts_le limit w
            omega
          · -- The first window is over when the interval begins.
            have hspaced := (List.pairwise_cons.mp h.disjoint).1 v List.mem_cons_self opening
              hopening next hnext
            have hnone : (verdicts limit w).filter (AllowedIn a duration) = [] := by
              refine List.filter_eq_nil_iff.mpr fun x hx hallowed ↦ ?_
              have hlt := (hwithin x.1 (mem_of_mem_verdicts hx)).2.trans_lt hspaced
              exact absurd (allowedIn_eq_true.mp hallowed).2.1 (not_le.mpr (hlt.trans hnext'))
            rw [hnone, List.length_nil, Nat.zero_add]
            exact ih h.of_cons

end Chatterbox.FixedWindow
