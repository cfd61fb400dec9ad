/-
The tokens of the load locks. A loader draws a token to take the lock with, and
only once it has the lock holds it to the release; so who releases a lock has no
request left that could take it again.
-/
import GenerationBalance.Records

namespace GenerationBalance

open Transition

/-- The token of a loader that wants the lock or took it. -/
def LoaderPc.token : LoaderPc → Option Token
  | .tryLock t => some t
  | l => l.locked

theorem LoaderPc.token_of_locked {l : LoaderPc} {t : Token} (h : l.locked = some t) : l.token = some t := by
  cases l <;> cases h <;> rfl

section Resume

variable {fresh t : Token} {l l' : LoaderPc} {i : Input}

theorem LoaderPc.resume_tryLock (h : l.resume fresh i = .run (.tryLock t)) : l = .tryLock t ∨ t = fresh := by
  have hm := loaderMove fresh l i
  rw [h] at hm
  generalize hn : Next.run (α := Balance) (LoaderPc.tryLock t) = n at hm
  cases hm with
  | stay => cases hn; exact .inl rfl
  | absent => cases hn; exact .inr rfl
  | @released t exit f => cases exit <;> cases hn
  | _ => cases hn

/-- A loader that has the lock had it, or just got it. -/
theorem LoaderPc.resume_locked (h : l.resume fresh i = .run l') (ht : l'.locked = some t) :
    l.locked = some t ∨ l = .tryLock t ∧ i = .reply (.flag true) := by
  have hm := loaderMove fresh l i
  rw [h] at hm
  generalize hn : Next.run (α := Balance) l' = n at hm
  cases hm with
  | stay => cases hn; exact .inl ht
  | acquired => cases hn; cases ht; exact .inr ⟨rfl, rfl⟩
  | recheckRead | recheckAbsent | selected | seeded => cases hn; exact .inl ht
  | failed hl he => cases hn; cases ht; exact .inl hl
  | @released t exit f =>
    cases exit <;> cases hn
    cases ht
  | _ => cases hn <;> cases ht

end Resume

/-! ## The invariant -/

/-- Tokens are their loaders' own, and nobody who wants a lock with a token is
there while someone has it. -/
structure System.Locks (s : System) : Prop where
  drawn : ∀ p st u l t, s.Holds p st → st.loader = some (u, l) → l.token = some t →
    t.owner = p ∧ t.draw < s.draws
  apart : ∀ p st u t q st' u' l, s.Holds p st → st.loader = some (u, .tryLock t) → s.Holds q st' →
    st'.loader = some (u', l) → l.locked ≠ some t
  gone : ∀ p st u t u', (p, st) ∈ s.pool → st.loader = some (u, .tryLock t) →
    (s.procs p).loader ≠ some (u', .tryLock t)

section Step

variable {cfg : Config} {s s' : System} {l : Label} {p : ℕ} {st : Proc} {u : UserId} {pc : LoaderPc} {t : Token}

/-- Where a held loader that wants a lock comes from. -/
theorem StepCase.wants (h : StepCase cfg s l s') (hh : s'.Holds p st) (hl : st.loader = some (u, .tryLock t)) :
    (∃ st₀ u₀, s.Holds p st₀ ∧ st₀.loader = some (u₀, .tryLock t)) ∨
      t = ⟨p, s.draws⟩ ∧ s'.draws = s.draws + 1 := by
  cases h.origin hh with
  | kept hk => exact .inl ⟨st, u, hk, hl⟩
  | @started job => cases (job.start_blank cfg).loader _ _ hl
  | crashed => cases hl
  | leftover ho hm =>
    rcases Proc.leftovers_cases hm with rfl | hb
    · exact .inl ⟨_, u, .inl rfl, hl⟩
    · cases hb.1.loader _ _ hl
  | resumed hg hd he =>
    rcases Proc.resume_loader hl with hn | ⟨l₀, hl₀, rfl | hr⟩
    · cases hn
    · exact .inl ⟨_, u, .inl rfl, hl₀⟩
    · rcases LoaderPc.resume_tryLock hr with rfl | ht
      · exact .inl ⟨_, u, .inl rfl, hl₀⟩
      · exact .inr ⟨ht, hd⟩

/-- Where a held loader that has a lock comes from: it had it, or its call just
took it. -/
theorem StepCase.has (h : StepCase cfg s l s') (hh : s'.Holds p st) (hl : st.loader = some (u, pc))
    (ht : pc.locked = some t) :
    (∃ st₀ u₀ pc₀, s.Holds p st₀ ∧ st₀.loader = some (u₀, pc₀) ∧ pc₀.locked = some t) ∨
      ∃ pick now, l = .exec p pick now ∧ (s.procs p).loader = some (u, .tryLock t) ∧
        (s'.procs p).loader = some (u, pc) := by
  cases h.origin hh with
  | kept hk => exact .inl ⟨st, u, pc, hk, hl, ht⟩
  | @started job => cases (job.start_blank cfg).loader _ _ hl; cases ht
  | crashed => cases hl
  | leftover ho hm =>
    rcases Proc.leftovers_cases hm with rfl | hb
    · exact .inl ⟨_, u, pc, .inl rfl, hl, ht⟩
    · cases hb.1.loader _ _ hl; cases ht
  | resumed hg hd he =>
    rcases Proc.resume_loader hl with rfl | ⟨l₀, hl₀, rfl | hr⟩
    · cases ht
    · exact .inl ⟨_, u, pc, .inl rfl, hl₀, ht⟩
    · rcases LoaderPc.resume_locked hr ht with ht₀ | ⟨rfl, rfl⟩
      · exact .inl ⟨_, u, l₀, .inl rfl, hl₀, ht₀⟩
      · cases hg with
        | reply hc hx hp => exact .inr ⟨_, _, rfl, hl₀, by rw [he]; exact hl⟩
        | feed hf => cases hf

theorem LoaderPc.token_cases (h : pc.token = some t) : pc = .tryLock t ∨ pc.locked = some t := by
  cases pc <;> cases h <;> first | exact .inl rfl | exact .inr rfl

theorem StepCase.locks (h : StepCase cfg s l s') (hs : s.Locks) : s'.Locks := by
  have hle := h.draws_le
  refine ⟨fun p st u pc t hh hl ht => ?_, fun p st u t q st' u' pc hh hl hh' hl' ht => ?_,
    fun p st u t u' hp hl hl' => ?_⟩
  · rcases LoaderPc.token_cases ht with rfl | hlock
    · rcases h.wants hh hl with ⟨st₀, u₀, hh₀, hl₀⟩ | ⟨ht, hd⟩
      · obtain ⟨h1, h2⟩ := hs.drawn p st₀ u₀ _ t hh₀ hl₀ rfl
        exact ⟨h1, by omega⟩
      · rw [ht]
        exact ⟨rfl, by simp only; omega⟩
    · rcases h.has hh hl hlock with ⟨st₀, u₀, pc₀, hh₀, hl₀, ht₀⟩ | ⟨_, _, -, hl₀, -⟩
      · obtain ⟨h1, h2⟩ := hs.drawn p st₀ u₀ pc₀ t hh₀ hl₀ (LoaderPc.token_of_locked ht₀)
        exact ⟨h1, by omega⟩
      · obtain ⟨h1, h2⟩ := hs.drawn p _ u _ t (.inl rfl) hl₀ rfl
        exact ⟨h1, by omega⟩
  · -- Before the step, who has the lock now had it or wanted it.
    have before : ∃ st₀ u₀ pc₀, s.Holds q st₀ ∧ st₀.loader = some (u₀, pc₀) ∧ pc₀.token = some t := by
      rcases h.has hh' hl' ht with ⟨st₀, u₀, pc₀, hh₀, hl₀, ht₀⟩ | ⟨_, _, -, hl₀, -⟩
      · exact ⟨st₀, u₀, pc₀, hh₀, hl₀, LoaderPc.token_of_locked ht₀⟩
      · exact ⟨_, u', _, .inl rfl, hl₀, rfl⟩
    obtain ⟨st₀, u₀, pc₀, hh₀, hl₀, ht₀⟩ := before
    obtain ⟨hq, hdraw⟩ := hs.drawn q st₀ u₀ pc₀ t hh₀ hl₀ ht₀
    rcases h.wants hh hl with ⟨st₁, u₁, hh₁, hl₁⟩ | ⟨hfresh, -⟩
    · rcases h.has hh' hl' ht with ⟨st₂, u₂, pc₂, hh₂, hl₂, ht₂⟩ | ⟨pick, now, hexec, hl₂, hl₃⟩
      · exact hs.apart p st₁ u₁ t q st₂ u₂ pc₂ hh₁ hl₁ hh₂ hl₂ ht₂
      · have hpq : p = q := by rw [← (hs.drawn p st₁ u₁ _ t hh₁ hl₁ rfl).1, hq]
        subst hpq
        rcases hh with rfl | hp
        · rw [hl₃] at hl
          cases hl
          cases ht
        · rcases h.pooled hp with hp | ⟨ho, -⟩
          · exact hs.gone p st u t u' hp hl hl₂
          · rcases ho with ho | ho <;> rw [hexec] at ho <;> cases ho
    · rw [hfresh] at hdraw
      exact absurd hdraw (lt_irrefl _)
  · rcases h.pooled hp with hp | ⟨ho, hm⟩
    · have hdraw := (hs.drawn p st u _ t (.inr hp) hl rfl).2
      have hh : s'.Holds p (s'.procs p) := .inl rfl
      cases h.goes p with
      | same he => rw [he] at hl'; exact hs.gone p st u t u' hp hl hl'
      | @started job _ _ he => rw [he] at hl'; cases (job.start_blank cfg).loader _ _ hl'
      | crashed _ he => rw [he] at hl'; cases hl'
      | resumed hg hd he =>
        rw [he] at hl'
        rcases Proc.resume_loader hl' with hn | ⟨l₀, hl₀, rfl | hr⟩
        · cases hn
        · exact hs.gone p st u t u' hp hl hl₀
        · rcases LoaderPc.resume_tryLock hr with rfl | hfresh
          · exact hs.gone p st u t u' hp hl hl₀
          · rw [hfresh] at hdraw
            exact absurd hdraw (lt_irrefl _)
    · rcases Proc.leftovers_cases hm with rfl | hb
      · rcases ho with rfl | rfl
        · rw [h.abandoned, Proc.resume_loading hl] at hl'; cases hl'
        · rw [h.died] at hl'; cases hl'
      · cases hb.1.loader _ _ hl

end Step

theorem System.start_locks (pg : Rows) : (System.start pg).Locks where
  drawn p st u l t h hl := by rw [System.start_holds h] at hl; cases hl
  apart p st u t q st' u' l h hl := by rw [System.start_holds h] at hl; cases hl
  gone p st u t u' hp := by cases hp

end GenerationBalance
