/-
Labelled transitions given by a partial step function: runs with the list of
the transitions taken, and the rules that lift what one step preserves to
what a whole run preserves.
-/
import Mathlib.Algebra.GroupWithZero.Nat
import Mathlib.Data.List.Basic

namespace Transition

variable {σ ℓ : Type}

/-- One transition taken: the state before, its label, the state after. -/
structure Trans (σ ℓ : Type) where
  pre : σ
  label : ℓ
  post : σ

/-- A run from `s₀` to a state. The list holds the transitions taken, the
newest first. -/
inductive Run (step : σ → ℓ → Option σ) (s₀ : σ) : List (Trans σ ℓ) → σ → Prop
  | refl : Run step s₀ [] s₀
  | step {tr s l s'} : Run step s₀ tr s → step s l = some s' → Run step s₀ (⟨s, l, s'⟩ :: tr) s'

variable {step : σ → ℓ → Option σ} {s₀ s s' : σ} {tr tr' : List (Trans σ ℓ)}

/-- Every transition of a run is one step of the system, taken after a run and
before a run. -/
theorem Run.split {t : Trans σ ℓ} (h : Run step s₀ tr s) (ht : t ∈ tr) :
    ∃ newer older, tr = newer ++ t :: older ∧ Run step s₀ older t.pre ∧
      step t.pre t.label = some t.post ∧ Run step t.post newer s := by
  induction h with
  | refl => simp at ht
  | step hr hs ih =>
    rcases List.mem_cons.mp ht with rfl | ht
    · exact ⟨[], _, rfl, hr, hs, .refl⟩
    · obtain ⟨newer, older, rfl, h1, h2, h3⟩ := ih ht
      exact ⟨_ :: newer, older, rfl, h1, h2, .step h3 hs⟩

/-- A run that took `t` is one up to `t`, the step, and one from there. -/
theorem Run.parts {newer older : List (Trans σ ℓ)} {t : Trans σ ℓ} (h : Run step s₀ (newer ++ t :: older) s) :
    Run step s₀ older t.pre ∧ step t.pre t.label = some t.post ∧ Run step t.post newer s := by
  induction newer generalizing s with
  | nil =>
    cases h with
    | step hr hs => exact ⟨hr, hs, .refl⟩
  | cons x newer ih =>
    cases h with
    | step hr hs =>
      obtain ⟨h1, h2, h3⟩ := ih hr
      exact ⟨h1, h2, .step h3 hs⟩

/-- **Invariant rule.** What holds at the start and is preserved by every step
of the kind `P` holds after every run made of such steps. -/
theorem Run.invariant {I : σ → Prop} {P : Trans σ ℓ → Prop} (h : Run step s₀ tr s)
    (hP : ∀ t ∈ tr, P t) (h₀ : I s₀)
    (hstep : ∀ {s l s'}, I s → step s l = some s' → P ⟨s, l, s'⟩ → I s') : I s := by
  induction h with
  | refl => exact h₀
  | step _ hs ih =>
    exact hstep (ih fun t ht => hP t (List.mem_cons_of_mem _ ht)) hs (hP _ (List.mem_cons_self ..))

/-- **Invariant rule with the history**: the invariant may speak about the
transitions taken so far. -/
theorem Run.invariant_history {I : List (Trans σ ℓ) → σ → Prop} {P : Trans σ ℓ → Prop}
    (h : Run step s₀ tr s) (hP : ∀ t ∈ tr, P t) (h₀ : I [] s₀)
    (hstep : ∀ {tr s l s'}, Run step s₀ tr s → (∀ t ∈ tr, P t) → I tr s →
      step s l = some s' → P ⟨s, l, s'⟩ → I (⟨s, l, s'⟩ :: tr) s') : I tr s := by
  induction h with
  | refl => exact h₀
  | step hr hs ih =>
    have hP' := fun t ht => hP t (List.mem_cons_of_mem _ ht)
    exact hstep hr hP' (ih hP') hs (hP _ (List.mem_cons_self ..))

/-- **Invariant rule with the past**: the condition on a transition may speak about
the transitions taken before it, too. -/
theorem Run.invariant_past {I : List (Trans σ ℓ) → σ → Prop} {P : List (Trans σ ℓ) → Trans σ ℓ → Prop}
    (h : Run step s₀ tr s) (hP : ∀ t older, t :: older <:+ tr → P older t) (h₀ : I [] s₀)
    (hstep : ∀ {tr s l s'}, Run step s₀ tr s → (∀ t older, t :: older <:+ tr → P older t) → I tr s →
      step s l = some s' → P tr ⟨s, l, s'⟩ → I (⟨s, l, s'⟩ :: tr) s') : I tr s := by
  induction h with
  | refl => exact h₀
  | step hr hs ih =>
    have hP' := fun t older ht => hP t older (List.suffix_cons_iff.mpr (.inr ht))
    exact hstep hr hP' (ih hP') hs (hP _ _ (List.suffix_refl _))

/-- A cost of `n` for each element that `f` accepts. -/
theorem sum_map_countP {τ : Type} (f : τ → Bool) (n : ℕ) (ts : List τ) :
    (ts.map fun t => if f t then n else 0).sum = n * ts.countP f := by
  induction ts with
  | nil => rfl
  | cons t ts ih =>
    simp only [List.map_cons, List.sum_cons, List.countP_cons, ih, Nat.mul_add]
    split <;> omega

/-- **Amortized rule.** Where each step pays its cost from a potential and from what it is credited, the
costs of a run are at most the potential at its start and its credits. -/
theorem Run.amortized {I : σ → Prop} (Φ : σ → ℕ) (cost credit : Trans σ ℓ → ℕ) (h : Run step s₀ tr s) (h₀ : I s₀)
    (hI : ∀ {s l s'}, I s → step s l = some s' → I s')
    (hΦ : ∀ {s l s'}, I s → step s l = some s' → Φ s' + cost ⟨s, l, s'⟩ ≤ Φ s + credit ⟨s, l, s'⟩) :
    I s ∧ Φ s + (tr.map cost).sum ≤ Φ s₀ + (tr.map credit).sum := by
  induction h with
  | refl => exact ⟨h₀, Nat.le_refl _⟩
  | step _ hs ih =>
    have hpay := hΦ ih.1 hs
    refine ⟨hI ih.1 hs, ?_⟩
    simp only [List.map_cons, List.sum_cons]
    omega

/-- A run that made the transitions `tr` and is in `s` has been in `s₁`. -/
def Visited (tr : List (Trans σ ℓ)) (s s₁ : σ) : Prop := s₁ = s ∨ ∃ t ∈ tr, s₁ = t.pre

theorem visited_step {l : ℓ} {s₁ : σ} : Visited (⟨s, l, s'⟩ :: tr) s' s₁ ↔ s₁ = s' ∨ Visited tr s s₁ := by
  simp [Visited]

theorem Run.visited_post {t : Trans σ ℓ} (h : Run step s₀ tr s) (ht : t ∈ tr) : Visited tr s t.post := by
  induction h with
  | refl => cases ht
  | step _ _ ih =>
    rcases List.mem_cons.mp ht with rfl | ht
    · exact .inl rfl
    · exact visited_step.mpr (.inr (ih ht))

/-! ## What steps of a kind lead to -/

/-- Every run of steps with labels in `A` comes to a state in `Q`: such a step is possible
until then, and the steps end. -/
inductive Leads (step : σ → ℓ → Option σ) (A : ℓ → Prop) (Q : σ → Prop) : σ → Prop
  | now {s : σ} : Q s → Leads step A Q s
  | step {s : σ} : (∃ l s', A l ∧ step s l = some s') → (∀ l s', A l → step s l = some s' → Leads step A Q s') →
      Leads step A Q s

section Leads

variable {A : ℓ → Prop} {P Q : σ → Prop}

/-- **Sequence rule.** -/
theorem Leads.bind (h : Leads step A P s) (hq : ∀ s, P s → Leads step A Q s) : Leads step A Q s := by
  induction h with
  | now hp => exact hq _ hp
  | step hex _ ih => exact .step hex ih

/-- **Consequence rule.** -/
theorem Leads.mono (h : Leads step A P s) (hq : ∀ s, P s → Q s) : Leads step A Q s :=
  h.bind fun s hs => .now (hq s hs)

/-- **Measure rule.** Where an invariant holds, a step is possible outside `Q`, and each step
makes less of a measure, the steps end in `Q`. -/
theorem Leads.of_measure {I : σ → Prop} (μ : σ → ℕ) (hI : ∀ {s l s'}, I s → A l → step s l = some s' → I s')
    (hμ : ∀ {s l s'}, I s → A l → step s l = some s' → μ s' < μ s)
    (hex : ∀ {s}, I s → ¬ Q s → ∃ l s', A l ∧ step s l = some s') (hs : I s) : Leads step A (fun s => I s ∧ Q s) s := by
  induction hn : μ s using Nat.strongRecOn generalizing s with
  | ind n ih =>
    by_cases hq : Q s
    · exact .now ⟨hs, hq⟩
    · refine .step (hex hs hq) fun l s' hl hstep => ?_
      exact ih (μ s') (hn ▸ hμ hs hl hstep) (hI hs hl hstep) rfl

theorem Leads.after {l : ℓ} (h : Leads step A Q s) (hq : ¬ Q s) (hl : A l) (hs : step s l = some s') :
    Leads step A Q s' := by
  cases h with
  | now h => exact absurd h hq
  | step _ h => exact h l s' hl hs

theorem Leads.stuck (h : Leads step A Q s) (hs : ∀ l s', A l → step s l ≠ some s') : Q s := by
  cases h with
  | now h => exact h
  | step hex _ =>
    obtain ⟨l, s', hl, he⟩ := hex
    exact absurd he (hs l s' hl)

/-- Where two conditions are inevitable that both end the run, the one for fewer kinds of steps,
a state meets both. -/
theorem Leads.meet {B : ℓ → Prop} (h : Leads step A P s) (h' : Leads step B Q s) (hb : ∀ l, B l → A l)
    (hp : ∀ s, P s → ∀ l s', A l → step s l ≠ some s') (hq : ∀ s, Q s → ∀ l s', A l → step s l ≠ some s') :
    ∃ s, P s ∧ Q s := by
  induction h' with
  | @now s hQ => exact ⟨s, h.stuck (hq s hQ), hQ⟩
  | step hex _ ih =>
    obtain ⟨l, s', hl, hs⟩ := hex
    exact ih l s' hl hs (h.after (fun hP => hp _ hP l s' (hb l hl) hs) (hb l hl) hs)

end Leads

/-! ## What a run recorded -/

/-- The value last recorded for a key, where each transition records at most
one. -/
def latest {τ κ ν : Type} [DecidableEq κ] (f : τ → Option (κ × ν)) : List τ → κ → Option ν
  | [], _ => none
  | t :: tr, k =>
    match f t with
    | some (k', v) => if k' = k then some v else latest f tr k
    | none => latest f tr k

section Latest

variable {τ κ ν : Type} [DecidableEq κ] {f : τ → Option (κ × ν)} {t : τ} {ts : List τ}

theorem latest_none (h : f t = none) : latest f (t :: ts) = latest f ts := by
  funext k
  simp only [latest, h]

theorem latest_some {k : κ} {v : ν} (h : f t = some (k, v)) (k' : κ) :
    latest f (t :: ts) k' = if k = k' then some v else latest f ts k' := by
  simp only [latest, h]

/-- An entry was made by one of the steps. -/
theorem latest_mem {k : κ} {v : ν} (h : latest f ts k = some v) : ∃ t ∈ ts, f t = some (k, v) := by
  induction ts with
  | nil => cases h
  | cons t ts ih =>
    cases hf : f t with
    | none =>
      rw [latest_none hf] at h
      obtain ⟨t', ht, he⟩ := ih h
      exact ⟨t', List.mem_cons_of_mem _ ht, he⟩
    | some x =>
      rw [latest_some hf] at h
      split at h
      · next he =>
        cases h
        exact ⟨t, List.mem_cons_self .., by rw [hf, ← he]⟩
      · obtain ⟨t', ht, he⟩ := ih h
        exact ⟨t', List.mem_cons_of_mem _ ht, he⟩

end Latest

/-! ## Step relations -/

/-- A run of a step relation. The list holds the labels, the newest first. -/
inductive Steps {τ : Type} (R : τ → ℓ → τ → Prop) (t₀ : τ) : List ℓ → τ → Prop
  | refl : Steps R t₀ [] t₀
  | step {ls t l t'} : Steps R t₀ ls t → R t l t' → Steps R t₀ (l :: ls) t'

section Simulation

variable {τ : Type} {R : τ → ℓ → τ → Prop} {M : τ → σ → Prop} {t₀ t : τ} {ls : List ℓ}

/-- **Simulation rule.** When every step of the relation is matched by one of the function with
the same label, so is every run. -/
theorem Steps.simulated (hstep : ∀ {t s l t'}, M t s → R t l t' → ∃ s', step s l = some s' ∧ M t' s') (h₀ : M t₀ s₀)
    (h : Steps R t₀ ls t) : ∃ tr s, Run step s₀ tr s ∧ tr.map Trans.label = ls ∧ M t s := by
  induction h with
  | refl => exact ⟨[], s₀, .refl, rfl, h₀⟩
  | @step ls t l t' _ hl ih =>
    obtain ⟨tr, s, hr, htr, hm⟩ := ih
    obtain ⟨s', hs, hm'⟩ := hstep hm hl
    exact ⟨⟨s, l, s'⟩ :: tr, s', .step hr hs, by rw [List.map_cons, htr], hm'⟩

/-- The other way round. -/
theorem Run.simulated (hstep : ∀ {t s l s'}, M t s → step s l = some s' → ∃ t', R t l t' ∧ M t' s') (h₀ : M t₀ s₀)
    (h : Run step s₀ tr s) : ∃ t, Steps R t₀ (tr.map Trans.label) t ∧ M t s := by
  induction h with
  | refl => exact ⟨t₀, .refl, h₀⟩
  | step _ hs ih =>
    obtain ⟨t, ht, hm⟩ := ih
    obtain ⟨t', hl, hm'⟩ := hstep hm hs
    exact ⟨t', .step ht hl, hm'⟩

end Simulation

/-! ## Playing a schedule -/

/-- Takes the labels of a schedule one after the other, the oldest first. -/
def play (step : σ → ℓ → Option σ) : σ → List (Trans σ ℓ) → List ℓ → Option (List (Trans σ ℓ) × σ)
  | s, tr, [] => some (tr, s)
  | s, tr, l :: ls =>
    match step s l with
    | some s' => play step s' (⟨s, l, s'⟩ :: tr) ls
    | none => none

theorem Run.of_play {ls : List ℓ} (h : Run step s₀ tr s) (hp : play step s tr ls = some (tr', s')) :
    Run step s₀ tr' s' := by
  induction ls generalizing s tr with
  | nil =>
    simp only [play, Option.some.injEq, Prod.mk.injEq] at hp
    obtain ⟨rfl, rfl⟩ := hp
    exact h
  | cons l ls ih =>
    simp only [play] at hp
    split at hp
    · next s₁ hs => exact ih (.step h hs) hp
    · cases hp

/-- A schedule that can be played and leads to what `P` accepts is a run that
does. -/
theorem Run.exists_of_play {ls : List ℓ} {P : List (Trans σ ℓ) → σ → Bool}
    (h : (play step s [] ls).any (fun x => P x.1 x.2) = true) : ∃ tr s', Run step s tr s' ∧ P tr s' = true := by
  cases hp : play step s [] ls with
  | none => rw [hp] at h; cases h
  | some x => rw [hp] at h; exact ⟨x.1, x.2, .of_play .refl hp, h⟩

theorem labels_of_play {ls : List ℓ} (hp : play step s tr ls = some (tr', s')) :
    tr'.map Trans.label = ls.reverse ++ tr.map Trans.label := by
  induction ls generalizing s tr with
  | nil =>
    simp only [play, Option.some.injEq, Prod.mk.injEq] at hp
    obtain ⟨rfl, rfl⟩ := hp
    rfl
  | cons l ls ih =>
    simp only [play] at hp
    split at hp
    · rw [ih hp]
      simp
    · cases hp

/-- Such a run takes the labels of its schedule. -/
theorem Run.exists_of_play_labels {ls : List ℓ} {P : List (Trans σ ℓ) → σ → Bool}
    (h : (play step s [] ls).any (fun x => P x.1 x.2) = true) :
    ∃ tr s', Run step s tr s' ∧ P tr s' = true ∧ ∀ l ∈ ls, ∃ t ∈ tr, t.label = l := by
  cases hp : play step s [] ls with
  | none => rw [hp] at h; cases h
  | some x =>
    rw [hp] at h
    refine ⟨x.1, x.2, .of_play .refl hp, h, fun l hl => ?_⟩
    have hm : l ∈ x.1.map Trans.label := by
      rw [labels_of_play hp]
      simpa using hl
    exact List.mem_map.mp hm

end Transition
