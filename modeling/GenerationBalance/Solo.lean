/-
A call that runs on its own: all its requests are answered, its transactions
commit, and nobody else takes a step in between.

`Solo` is the total correctness of such a run, as a postcondition of the point
where the call awaits and of the two stores. Its rules follow what a call can
await; a pipeline or a loop of a call is then an induction over these rules.
-/
import GenerationBalance.System

namespace GenerationBalance

open Transition

/-- The steps of `p` that are answered. -/
def Own (p : ℕ) : Label → Prop
  | .exec q _ _ => q = p
  | .select q ok => q = p ∧ ok = true
  | .commit q fate => q = p ∧ fate = .committed
  | _ => False

/-- The call `p` awaits at `st`, the stores hold `ρ` and `pg`, and the rest of the system is as
in `s₀`. -/
structure At (s₀ : System) (p : ℕ) (st : Proc) (ρ : Redis) (pg : Rows) (s : System) : Prop where
  proc : s.procs p = st
  redis : s.redis = ρ
  pg : s.pg = pg
  others : ∀ q, q ≠ p → s.procs q = s₀.procs q
  pool : s.pool = s₀.pool

/-- A call that awaits at `st` comes, on its own, to a point and to stores in `Q`. -/
def Solo (cfg : Config) (Q : Proc → Redis → Rows → Prop) (st : Proc) (ρ : Redis) (pg : Rows) : Prop :=
  ∀ p s₀ s, At s₀ p st ρ pg s →
    Leads (step cfg) (Own p) (fun s' => ∃ st' ρ' pg', At s₀ p st' ρ' pg' s' ∧ Q st' ρ' pg') s

section Rules

variable {cfg : Config} {P Q : Proc → Redis → Rows → Prop} {st : Proc} {ρ : Redis} {pg : Rows}

theorem Solo.now (h : Q st ρ pg) : Solo cfg Q st ρ pg :=
  fun _ _ _ hat => .now ⟨st, ρ, pg, hat, h⟩

theorem Solo.bind (h : Solo cfg P st ρ pg) (hq : ∀ st ρ pg, P st ρ pg → Solo cfg Q st ρ pg) : Solo cfg Q st ρ pg := by
  intro p s₀ s hat
  refine (h p s₀ s hat).bind fun s' hs' => ?_
  obtain ⟨st', ρ', pg', hat', hp⟩ := hs'
  exact hq st' ρ' pg' hp p s₀ s' hat'

theorem Solo.mono (h : Solo cfg P st ρ pg) (hq : ∀ st ρ pg, P st ρ pg → Q st ρ pg) : Solo cfg Q st ρ pg :=
  h.bind fun st ρ pg hp => .now (hq st ρ pg hp)

theorem At.deliver (cfg : Config) {s₀ s : System} {p : ℕ} (h : At s₀ p st ρ pg s) (ρ' : Redis) (pg' : Rows) (now : ℚ) (i : Input) :
    At s₀ p (st.resume cfg ⟨p, s.draws⟩ now i) ρ' pg' ({ s with redis := ρ', pg := pg' }.deliver cfg p now i) where
  proc := by
    show Function.update s.procs p _ p = _
    rw [Function.update_self, h.proc]
  redis := rfl
  pg := rfl
  others q hq := by
    show Function.update s.procs p _ q = _
    rw [Function.update_of_ne hq, h.others q hq]
  pool := h.pool

/-- **A round trip to Redis.** -/
theorem Solo.call {c : Call} (ha : st.action cfg = .call c) (hex : ∃ pick, (exec pick ρ c).isSome)
    (h : ∀ pick now fresh r ρ', exec pick ρ c = some (r, ρ') → Solo cfg Q (st.resume cfg fresh now (.reply r)) ρ' pg) :
    Solo cfg Q st ρ pg := by
  intro p s₀ s hat
  have hproc := hat.proc
  refine .step ?_ ?_
  · obtain ⟨pick, hp⟩ := hex
    obtain ⟨⟨r, ρ'⟩, he⟩ := Option.isSome_iff_exists.mp hp
    refine ⟨.exec p pick 0, ({ s with redis := ρ' }.deliver cfg p 0 (.reply r)), rfl, ?_⟩
    simp only [step, hproc, ha, hat.redis, he, Option.map_some]
  · intro l s' hl hs
    cases step_cases hs with
    | @exec q pick now c' r ρ' hc he =>
      cases hl
      rw [hproc, ha] at hc
      cases hc
      rw [hat.redis] at he
      have hat' := hat.deliver cfg ρ' pg now (.reply r)
      have hsame : ({ s with redis := ρ', pg := pg } : System) = { s with redis := ρ' } := by rw [← hat.pg]
      rw [hsame] at hat'
      exact h pick now _ r ρ' he p s₀ _ hat'
    | spawn | abandon | late | crash => cases hl
    | expire he => cases he <;> cases hl
    | feed hf =>
      cases hf with
      | row hb | noRow hb | committed hb | lostCommit hb | noCommit hb =>
        obtain ⟨rfl, -⟩ := hl
        rw [hproc, ha] at hb
        cases hb
      | called | provided | timeout | wake => cases hl

/-- **A transaction.** -/
theorem Solo.commit {rows : List (UserId × Balance)} {answer : List UserId × List Rejected} {pg' : Rows}
    (ha : st.action cfg = .commit rows) (hw : writeRows rows pg = some (answer, pg'))
    (h : ∀ now fresh, Solo cfg Q (st.resume cfg fresh now (.committed (some answer))) ρ pg') : Solo cfg Q st ρ pg := by
  intro p s₀ s hat
  have hproc := hat.proc
  have hw' : writeRows rows s.pg = some (answer, pg') := by rw [hat.pg, hw]
  refine .step ?_ ?_
  · refine ⟨.commit p .committed, ({ s with pg := pg' }.deliver cfg p 0 (.committed (some answer))), ⟨rfl, rfl⟩, ?_⟩
    simp only [step, hproc, ha, hw']
  · intro l s' hl hs
    cases l with
    | commit q fate =>
      obtain ⟨rfl, rfl⟩ := hl
      simp only [step, hproc, ha, hw', Option.some.injEq] at hs
      subst hs
      have hat' := hat.deliver cfg ρ pg' 0 (.committed (some answer))
      have hsame : ({ s with redis := ρ, pg := pg' } : System) = { s with pg := pg' } := by rw [← hat.redis]
      rw [hsame] at hat'
      exact h 0 _ q s₀ _ hat'
    | exec q pick now =>
      cases hl
      simp only [step, hproc, ha] at hs
      cases hs
    | select q ok =>
      obtain ⟨rfl, -⟩ := hl
      simp only [step, hproc, ha] at hs
      cases hs
    | _ => cases hl

/-- **A statement that fails.** -/
theorem Solo.refused {rows : List (UserId × Balance)} (ha : st.action cfg = .commit rows)
    (hw : writeRows rows pg = none)
    (h : ∀ now fresh, Solo cfg Q (st.resume cfg fresh now (.committed none)) ρ pg) : Solo cfg Q st ρ pg := by
  intro p s₀ s hat
  have hproc := hat.proc
  have hw' : writeRows rows s.pg = none := by rw [hat.pg, hw]
  refine .step ?_ ?_
  · refine ⟨.commit p .committed, s.deliver cfg p 0 (.committed none), ⟨rfl, rfl⟩, ?_⟩
    simp only [step, hproc, ha, hw']
  · intro l s' hl hs
    cases l with
    | commit q fate =>
      obtain ⟨rfl, rfl⟩ := hl
      simp only [step, hproc, ha, hw', Option.some.injEq] at hs
      subst hs
      have hat' := hat.deliver cfg ρ pg 0 (.committed none)
      have hsame : ({ s with redis := ρ, pg := pg } : System) = s := by rw [← hat.redis, ← hat.pg]
      rw [hsame] at hat'
      exact h 0 _ q s₀ _ hat'
    | exec q pick now =>
      cases hl
      simp only [step, hproc, ha] at hs
      cases hs
    | select q ok =>
      obtain ⟨rfl, -⟩ := hl
      simp only [step, hproc, ha] at hs
      cases hs
    | _ => cases hl

/-- A call that awaits nothing takes no step. -/
theorem Own.stuck {p : ℕ} {s s' : System} {l : Label} (ha : (s.procs p).action cfg = .none) (hl : Own p l) :
    step cfg s l ≠ some s' := by
  intro hs
  cases l with
  | exec q pick now =>
    cases hl
    simp only [step, ha] at hs
    cases hs
  | select q ok =>
    obtain ⟨rfl, -⟩ := hl
    simp only [step, ha] at hs
    cases hs
  | commit q fate =>
    obtain ⟨rfl, -⟩ := hl
    simp only [step, ha] at hs
    cases hs
  | _ => cases hl

/-- Two descriptions of how a call ends describe one ending. -/
theorem Solo.meet (h : Solo cfg P st ρ pg) (h' : Solo cfg Q st ρ pg)
    (hp : ∀ st ρ pg, P st ρ pg → st.action cfg = .none) (hq : ∀ st ρ pg, Q st ρ pg → st.action cfg = .none) :
    ∃ st ρ pg, P st ρ pg ∧ Q st ρ pg := by
  let s : System := { System.start pg with redis := ρ, procs := fun _ => st }
  have hat : At s 0 st ρ pg s := ⟨rfl, rfl, rfl, fun _ _ => rfl, rfl⟩
  have hmeet := (h 0 s s hat).meet (h' 0 s s hat) (fun _ hl => hl)
    (by
      rintro s' ⟨_, _, _, hat, h⟩ l s'' hl
      exact Own.stuck (by rw [hat.proc]; exact hp _ _ _ h) hl)
    (by
      rintro s' ⟨_, _, _, hat, h⟩ l s'' hl
      exact Own.stuck (by rw [hat.proc]; exact hq _ _ _ h) hl)
  obtain ⟨s', ⟨st₁, ρ₁, pg₁, h₁, hP⟩, st₂, ρ₂, pg₂, h₂, hQ⟩ := hmeet
  cases h₁.proc.symm.trans h₂.proc
  cases h₁.redis.symm.trans h₂.redis
  cases h₁.pg.symm.trans h₂.pg
  exact ⟨st₁, ρ₁, pg₁, hP, hQ⟩

end Rules

/-! ## Calls in turn -/

/-- The call has returned. -/
def Proc.Finished : Proc → Prop
  | .gen _ (.ended (.ok _)) | .topUp _ (.ended (.ok _)) | .balance _ (.ended (.ok _)) | .reap (.ended (.ok _))
  | .flush (.ended (.ok _)) => True
  | _ => False

/-- Jobs that are called one after the other, each on its own until it returns, lead to stores
in `Q`. -/
def InTurn (cfg : Config) (Q : Redis → Rows → Prop) : List Job → Redis → Rows → Prop
  | [], ρ, pg => Q ρ pg
  | job :: jobs, ρ, pg => Solo cfg (fun st ρ' pg' => st.Finished ∧ InTurn cfg Q jobs ρ' pg') (job.start cfg) ρ pg

theorem InTurn.mono {cfg : Config} {P Q : Redis → Rows → Prop} (hq : ∀ ρ pg, P ρ pg → Q ρ pg) :
    ∀ {jobs : List Job} {ρ : Redis} {pg : Rows}, InTurn cfg P jobs ρ pg → InTurn cfg Q jobs ρ pg
  | [], ρ, pg, h => hq ρ pg h
  | job :: jobs, ρ, pg, h => by
    have hsolo : Solo cfg (fun st ρ' pg' => st.Finished ∧ InTurn cfg P jobs ρ' pg') (job.start cfg) ρ pg := h
    exact hsolo.mono fun _ _ _ hrest => ⟨hrest.1, InTurn.mono hq hrest.2⟩

end GenerationBalance
