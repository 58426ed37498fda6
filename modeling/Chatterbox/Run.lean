import Mathlib.Data.Option.Basic
import Mathlib.Data.List.Induction
import Mathlib.Logic.Function.Basic

/-!
# Runs of a labelled machine

A concurrent component is modelled by one function `step : σ → α → Option σ`: a
label says which party moves and what the environment chooses for it (a fresh
identifier, the outcome of a call that may fail), and `none` says that the move
is not enabled.  Every interleaving of the parties is then one list of labels,
so "for every interleaving" is a quantifier over lists and a concrete schedule
is a term that evaluates.

`exec` performs a list of labels.  `Along` says that every step of a run meets a
condition on the label and the state *before* the step; it is how a result that
only holds on some schedules names those schedules.  The induction over runs is
packaged here once, as `exec_induction`.
-/

universe u v

namespace Chatterbox

variable {σ : Type u} {α : Type v}

/-- Perform the labels in order; `none` as soon as one of them is not enabled. -/
def exec (step : σ → α → Option σ) : σ → List α → Option σ
  | s, [] => some s
  | s, a :: as => (step s a).bind fun t ↦ exec step t as

/-- Every step performed from `s` along the labels meets the condition `ok` in
the state in which it is taken. -/
def Along (step : σ → α → Option σ) (ok : σ → α → Prop) : σ → List α → Prop
  | _, [] => True
  | s, a :: as => ok s a ∧ ∀ t, step s a = some t → Along step ok t as

variable {step : σ → α → Option σ} {ok : σ → α → Prop}

@[simp] theorem exec_nil (s : σ) : exec step s [] = some s := rfl

@[simp] theorem exec_cons (s : σ) (a : α) (as : List α) :
    exec step s (a :: as) = (step s a).bind fun t ↦ exec step t as := rfl

/-- The first step of a run that gets to its end. -/
theorem exec_cons_eq_some {s t : σ} {a : α} {as : List α} :
    exec step s (a :: as) = some t ↔ ∃ m, step s a = some m ∧ exec step m as = some t := by
  rw [exec_cons, Option.bind_eq_some_iff]

/-- A run of a concatenation passes through the state where the parts meet. -/
theorem exec_append_eq_some {s t : σ} {as bs : List α} :
    exec step s (as ++ bs) = some t ↔ ∃ m, exec step s as = some m ∧ exec step m bs = some t := by
  induction as generalizing s with
  | nil => simp
  | cons a as ih =>
      rw [List.cons_append, exec_cons_eq_some]
      constructor
      · rintro ⟨m, hm, hrest⟩
        obtain ⟨n, hn, ht⟩ := ih.mp hrest
        exact ⟨n, exec_cons_eq_some.mpr ⟨m, hm, hn⟩, ht⟩
      · rintro ⟨n, hn, ht⟩
        obtain ⟨m, hm, hrest⟩ := exec_cons_eq_some.mp hn
        exact ⟨m, hm, ih.mpr ⟨n, hrest, ht⟩⟩

/-- A condition that can be decided in every state can be decided along a run. -/
instance Along.decidable [∀ s a, Decidable (ok s a)] :
    ∀ (s : σ) (as : List α), Decidable (Along step ok s as)
  | _, [] => .isTrue trivial
  | s, a :: as =>
      have : Decidable (∀ t, step s a = some t → Along step ok t as) :=
        match step s a with
        | none => .isTrue nofun
        | some t =>
            have := Along.decidable t as
            decidable_of_iff (Along step ok t as) (by simp)
      inferInstanceAs (Decidable (_ ∧ _))

/-- The condition along a run, one step at a time. -/
theorem Along.cons {s m : σ} {a : α} {as : List α} (ha : ok s a) (hm : step s a = some m)
    (has : Along step ok m as) : Along step ok s (a :: as) :=
  ⟨ha, fun _ ht ↦ Option.some.inj (hm.symm.trans ht) ▸ has⟩

theorem along_cons_iff {s m : σ} {a : α} {as : List α} (hm : step s a = some m) :
    Along step ok s (a :: as) ↔ ok s a ∧ Along step ok m as :=
  ⟨fun h ↦ ⟨h.1, h.2 m hm⟩, fun h ↦ .cons h.1 hm h.2⟩

/-- A condition met along a concatenation is met along both parts. -/
theorem Along.of_append {s m : σ} {as bs : List α} (h : Along step ok s (as ++ bs))
    (hm : exec step s as = some m) : Along step ok s as ∧ Along step ok m bs := by
  induction as generalizing s with
  | nil =>
      rw [exec_nil, Option.some.injEq] at hm
      exact ⟨trivial, hm ▸ h⟩
  | cons a as ih =>
      obtain ⟨n, hn, hrest⟩ := exec_cons_eq_some.mp hm
      obtain ⟨h₁, h₂⟩ := ih (h.2 n hn) hrest
      refine ⟨⟨h.1, fun t ht ↦ ?_⟩, h₂⟩
      obtain rfl : n = t := Option.some.inj (hn.symm.trans ht)
      exact h₁

/-- A condition met along both parts is met along the concatenation. -/
theorem Along.append {s m : σ} {as bs : List α} (hm : exec step s as = some m)
    (h₁ : Along step ok s as) (h₂ : Along step ok m bs) : Along step ok s (as ++ bs) := by
  induction as generalizing s with
  | nil =>
      rw [exec_nil, Option.some.injEq] at hm
      exact hm ▸ h₂
  | cons a as ih =>
      obtain ⟨n, hn, hrest⟩ := exec_cons_eq_some.mp hm
      refine ⟨h₁.1, fun t ht ↦ ?_⟩
      obtain rfl : n = t := Option.some.inj (hn.symm.trans ht)
      exact ih hrest (h₁.2 n hn)

/-- Two conditions met along a run are met together. -/
theorem Along.and {ok' : σ → α → Prop} {s : σ} {as : List α} (h : Along step ok s as)
    (h' : Along step ok' s as) : Along step (fun t a ↦ ok t a ∧ ok' t a) s as := by
  induction as generalizing s with
  | nil => trivial
  | cons a as ih => exact ⟨⟨h.1, h'.1⟩, fun t ht ↦ ih (h.2 t ht) (h'.2 t ht)⟩

/-- A condition that always holds is met along every run. -/
theorem along_of_forall (h : ∀ s a, ok s a) (s : σ) (as : List α) : Along step ok s as := by
  induction as generalizing s with
  | nil => trivial
  | cons a as ih => exact ⟨h s a, fun t _ ↦ ih t⟩

/-- A condition is met along a run when it is met in every state that a beginning
of the run leads to. -/
theorem along_iff_forall {s : σ} {as : List α} : Along step ok s as ↔
    ∀ pre a post m, as = pre ++ a :: post → exec step s pre = some m → ok m a := by
  constructor
  · rintro h pre a post m rfl hpre
    exact (h.of_append hpre).2.1
  · intro h
    induction as generalizing s with
    | nil => trivial
    | cons a as ih =>
        refine ⟨h [] a as s rfl rfl, fun t ht ↦ ih fun pre b post m hpre hm ↦ ?_⟩
        exact h (a :: pre) b post m (by rw [hpre, List.cons_append])
          (exec_cons_eq_some.mpr ⟨t, ht, hm⟩)

/-- **Induction over runs.**  What holds at the start and is preserved by every
step that meets the condition holds at the end of every run whose steps meet it. -/
theorem exec_induction {P : σ → Prop}
    (hstep : ∀ {t a u}, P t → ok t a → step t a = some u → P u)
    {s t : σ} {as : List α} (hs : P s) (hrun : exec step s as = some t)
    (hok : Along step ok s as) : P t := by
  induction as generalizing s with
  | nil => exact Option.some.inj hrun ▸ hs
  | cons a as ih =>
      obtain ⟨m, hm, hrest⟩ := exec_cons_eq_some.mp hrun
      exact ih (hstep hs hok.1 hm) hrest (hok.2 m hm)

/-- Induction over runs with no condition on the steps. -/
theorem exec_invariant {P : σ → Prop} (hstep : ∀ {t a u}, P t → step t a = some u → P u)
    {s t : σ} {as : List α} (hs : P s) (hrun : exec step s as = some t) : P t := by
  have hfree : Along step (fun _ _ ↦ True) s as := along_of_forall (fun _ _ ↦ trivial) s as
  exact exec_induction (fun hP _ h ↦ hstep hP h) hs hrun hfree

/-- Two conditions that agree where an invariant holds are met along the same
runs, if the first preserves the invariant. -/
theorem along_congr {P : σ → Prop} {ok' : σ → α → Prop}
    (hP : ∀ {t a u}, P t → ok t a → step t a = some u → P u)
    (h : ∀ s a, P s → (ok s a ↔ ok' s a)) {s : σ} (hs : P s) (as : List α) :
    Along step ok s as ↔ Along step ok' s as := by
  induction as generalizing s with
  | nil => exact Iff.rfl
  | cons a as ih =>
      constructor
      · rintro ⟨ha, hrest⟩
        exact ⟨(h s a hs).mp ha, fun t ht ↦ (ih (hP hs ha ht)).mp (hrest t ht)⟩
      · rintro ⟨ha, hrest⟩
        have ha' := (h s a hs).mpr ha
        exact ⟨ha', fun t ht ↦ (ih (hP hs ha' ht)).mpr (hrest t ht)⟩

/-! ## What has happened in a run -/

/-- Some step of the run was taken in a state and with a label that make the event. -/
def Once (step : σ → α → Option σ) (event : σ → α → Prop) (s : σ) (as : List α) : Prop :=
  ∃ pre a post m, as = pre ++ a :: post ∧ exec step s pre = some m ∧ event m a

theorem once_nil {event : σ → α → Prop} {s : σ} : ¬ Once step event s [] := by
  rintro ⟨pre, a, post, m, h, -⟩
  exact List.cons_ne_nil _ _ (List.append_eq_nil_iff.mp h.symm).2

/-- An event of a run is an event of its last step, or an earlier one. -/
theorem once_concat {event : σ → α → Prop} {s t : σ} {as : List α} {a : α}
    (hrun : exec step s as = some t) :
    Once step event s (as ++ [a]) ↔ Once step event s as ∨ event t a := by
  constructor
  · rintro ⟨pre, b, post, m, h, hpre, hevent⟩
    rcases List.eq_nil_or_concat post with rfl | ⟨post, c, rfl⟩
    · obtain ⟨rfl, hab⟩ := List.append_inj' h rfl
      cases hab
      obtain rfl : m = t := Option.some.inj (hpre.symm.trans hrun)
      exact .inr hevent
    · rw [List.concat_eq_append, ← List.cons_append, ← List.append_assoc] at h
      exact .inl ⟨pre, b, post, m, (List.append_inj' h rfl).1, hpre, hevent⟩
  · rintro (⟨pre, b, post, m, rfl, hpre, hevent⟩ | hevent)
    · exact ⟨pre, b, post ++ [a], m, by rw [List.append_assoc, List.cons_append], hpre, hevent⟩
    · exact ⟨as, a, [], t, rfl, hrun, hevent⟩

/-- Induction over runs by their last step, with all that came before it. -/
theorem exec_history {P : List α → σ → Prop} {s : σ} (hnil : P [] s)
    (hconcat : ∀ {as t a u}, exec step s as = some t → P as t → step t a = some u →
      P (as ++ [a]) u) {t : σ} {as : List α} (hrun : exec step s as = some t) : P as t := by
  induction as using List.reverseRecOn generalizing t with
  | nil => exact Option.some.inj hrun ▸ hnil
  | append_singleton as a ih =>
      obtain ⟨m, hm, hlast⟩ := exec_append_eq_some.mp hrun
      obtain ⟨u, hu, hnil⟩ := exec_cons_eq_some.mp hlast
      obtain rfl : u = t := Option.some.inj hnil
      exact hconcat hm (ih hm) hu

/-! ## What a run adds up to -/

/-- The sum of what the steps of a run count for. -/
def tally (step : σ → α → Option σ) (count : σ → α → ℕ) : σ → List α → ℕ
  | _, [] => 0
  | s, a :: as =>
      match step s a with
      | none => 0
      | some t => count s a + tally step count t as

/-- **A balance**: what every step that starts in a good state gains and loses is what a whole
run does. -/
theorem tally_balance {P : σ → Prop} (hP : ∀ {t a u}, P t → step t a = some u → P u)
    {f : σ → ℕ} {gain loss : σ → α → ℕ}
    (hstep : ∀ {t a u}, P t → step t a = some u → f u + loss t a = f t + gain t a)
    {s t : σ} {as : List α} (hs : P s) (hrun : exec step s as = some t) :
    f t + tally step loss s as = f s + tally step gain s as := by
  induction as generalizing s with
  | nil =>
      obtain rfl : s = t := Option.some.inj hrun
      rfl
  | cons a as ih =>
      obtain ⟨m, hm, hrest⟩ := exec_cons_eq_some.mp hrun
      have hfirst := hstep hs hm
      have hlast := ih (hP hs hm) hrest
      simp only [tally, hm]
      omega

/-! ## What a run sends -/

/-- Perform the labels in order, with all that the steps send. -/
def emits {β : Type*} (perform : σ → α → Option (σ × List β)) : σ → List α → Option (σ × List β)
  | s, [] => some (s, [])
  | s, a :: as =>
      (perform s a).bind fun p ↦ (emits perform p.1 as).map fun q ↦ (q.1, p.2 ++ q.2)

section Emits

variable {β : Type*} {perform : σ → α → Option (σ × List β)} {s t : σ} {as : List α}
  {sent : List β}

theorem emits_cons_eq_some {a : α} : emits perform s (a :: as) = some (t, sent) ↔
    ∃ m out rest, perform s a = some (m, out) ∧ emits perform m as = some (t, rest) ∧
      sent = out ++ rest := by
  rw [emits, Option.bind_eq_some_iff]
  constructor
  · rintro ⟨⟨m, out⟩, hm, hrest⟩
    obtain ⟨⟨u, rest⟩, hu, hpair⟩ := Option.map_eq_some_iff.mp hrest
    obtain ⟨rfl, rfl⟩ := Prod.mk.inj hpair
    exact ⟨m, out, rest, hm, hu, rfl⟩
  · rintro ⟨m, out, rest, hm, hrest, rfl⟩
    exact ⟨(m, out), hm, by rw [hrest]; rfl⟩

/-- The run, without what it sends. -/
theorem exec_of_emits (h : emits perform s as = some (t, sent)) :
    exec (fun s a ↦ (perform s a).map Prod.fst) s as = some t := by
  induction as generalizing s sent with
  | nil =>
      obtain ⟨rfl, -⟩ := Prod.mk.inj (Option.some.inj h)
      rfl
  | cons a as ih =>
      obtain ⟨m, out, rest, hm, hrest, rfl⟩ := emits_cons_eq_some.mp h
      exact exec_cons_eq_some.mpr ⟨m, by rw [hm]; rfl, ih hrest⟩

/-- **What is sent stays true**, if it is true when it is sent, and steps keep what is true. -/
theorem emits_holds {P : σ → Prop} {T : σ → β → Prop}
    (hstep : ∀ {s a t out}, P s → perform s a = some (t, out) →
      P t ∧ (∀ b, T s b → T t b) ∧ ∀ b ∈ out, T t b)
    (hs : P s) (hrun : emits perform s as = some (t, sent)) :
    P t ∧ (∀ b, T s b → T t b) ∧ ∀ b ∈ sent, T t b := by
  induction as generalizing s sent with
  | nil =>
      obtain ⟨rfl, rfl⟩ := Prod.mk.inj (Option.some.inj hrun)
      exact ⟨hs, fun _ h ↦ h, fun _ h ↦ absurd h List.not_mem_nil⟩
  | cons a as ih =>
      obtain ⟨m, out, rest, hm, hrest, rfl⟩ := emits_cons_eq_some.mp hrun
      obtain ⟨hP, hkeep, hout⟩ := hstep hs hm
      obtain ⟨hP', hkeep', hrest⟩ := ih hP hrest
      refine ⟨hP', fun b hb ↦ hkeep' b (hkeep b hb), fun b hb ↦ ?_⟩
      exact (List.mem_append.mp hb).elim (fun hb ↦ hkeep' b (hout b hb)) (hrest b)

/-- **A view keeps up**: what it has to do with the state is kept by every step, once it has been
told what the step sends. -/
theorem emits_simulation {γ : Type*} {view : γ → β → γ} {R : σ → γ → Prop}
    (hstep : ∀ {s a t out v}, a ∈ as → R s v → perform s a = some (t, out) →
      R t (out.foldl view v))
    {v : γ} (hs : R s v) (hrun : emits perform s as = some (t, sent)) :
    R t (sent.foldl view v) := by
  induction as generalizing s sent v with
  | nil =>
      obtain ⟨rfl, rfl⟩ := Prod.mk.inj (Option.some.inj hrun)
      exact hs
  | cons a as ih =>
      obtain ⟨m, out, rest, hm, hrest, rfl⟩ := emits_cons_eq_some.mp hrun
      rw [List.foldl_append]
      exact ih (fun ha ↦ hstep (List.mem_cons_of_mem _ ha)) (hstep List.mem_cons_self hs hm) hrest

end Emits

/-! ## One party of many moves -/

section Parties

variable {ι κ : Type*} [DecidableEq ι] {f : ι → κ} {i : ι} {x : κ} {P : κ → Prop}

/-- A party of which `P` was not true moves to `x`. -/
theorem exists_update (hi : ¬ P (f i)) :
    (∃ j, P (Function.update f i x j)) ↔ P x ∨ ∃ j, P (f j) := by
  rw [Function.exists_update_iff (p := fun _ ↦ P)]
  exact or_congr_right ⟨fun ⟨j, _, hj⟩ ↦ ⟨j, hj⟩, fun ⟨j, hj⟩ ↦ ⟨j, fun h ↦ hi (h ▸ hj), hj⟩⟩

/-- A party moves to `x`, which does not matter to `P`. -/
theorem exists_update_congr {y : κ} (hi : f i = y) (h : P x ↔ P y) :
    (∃ j, P (Function.update f i x j)) ↔ ∃ j, P (f j) := by
  by_cases hy : P y
  · exact iff_of_true ⟨i, by rwa [Function.update_self, h]⟩ ⟨i, hi ▸ hy⟩
  · rw [exists_update (hi ▸ hy), h]
    exact or_iff_right hy

end Parties

end Chatterbox
