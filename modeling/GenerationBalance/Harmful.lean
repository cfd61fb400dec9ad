/-
What lands late and does harm. A process that is bound to bring the stores together is
so in every state it comes to, so a request that may still land is followed to two of
them: it lands at once, or where the rows are written and one mark is left to clear.
It spoils neither only if it is harmless, which makes the condition of the shutdown
exact.
-/
import GenerationBalance.Interrupted

namespace GenerationBalance

open Transition

section Course

variable {cfg : Config} {s s' : Flusher} {c : Call} {r : Reply} {ρ : Redis} {u : UserId} {v : ℤ} {w : ℕ}
  {users pick : List UserId} {i : ℕ}

/-! ## The course of a process that brings the stores together -/

theorem Flusher.Closes.after {l : RunLabel} (h : s.Closes cfg) (hl : l.Goes) (hs : s.step cfg l = some s') :
    s'.Closes cfg :=
  Leads.after h (fun hend => ended_stuck hend.1 hl s' hs) hl hs

theorem Flusher.Closes.answered (pick : List UserId) (h : s.Closes cfg) (ha : s.pc.action cfg = .call c)
    (he : exec pick s.redis c = some (r, ρ)) : ({ s with redis := ρ }.deliver cfg 0 (.reply r)).Closes cfg := by
  refine h.after (l := .exec pick 0) trivial ?_
  simp only [Flusher.step, ha, he, Option.map_some]

theorem Flusher.Closes.landed (h : s.Closes cfg) (hpc : ∀ e, s.pc ≠ .ended e) (hc : s.pool[i]? = some c)
    (he : exec pick s.redis c = some (r, ρ)) : (s.landed i ρ).Closes cfg := by
  refine h.after (l := .late i pick) trivial ?_
  cases hp : s.pc with
  | ended e => exact absurd hp (hpc e)
  | _ =>
    simp only [Flusher.step, hp, hc, he, Option.map_some]
    rw [← hp]
    rfl

theorem Flusher.Closes.leaves (h : s.Closes cfg) (hpc : s.pc.Leaving) : ∃ s' : Flusher, s'.Closes cfg ∧
    s'.pc = .closing .picking ∧ s'.redis.bal = s.redis.bal ∧ s'.redis.gen = s.redis.gen ∧
      s'.redis.dirty = s.redis.dirty ∧ s'.pool = s.pool := by
  generalize hp : s.pc = pc at hpc
  cases hpc with
  | flush => exact ⟨s, h, hp, rfl, rfl, rfl, rfl⟩
  | release =>
    obtain ⟨lock, ⟨l, s', hl, hs⟩, hexec⟩ := release_exec cfg hp
    obtain ⟨draws, rfl⟩ := hexec l s' hl hs
    exact ⟨_, h.after hl.goes hs, rfl, rfl, rfl, rfl, rfl⟩

theorem Flusher.Closes.clear {todo : List (UserId × ℤ)} (h : s.Closes cfg)
    (hpc : s.pc = .closed (.clear w ((u, v) :: todo))) : ∃ s' : Flusher, s'.Closes cfg ∧
      s'.pc = .closed (.clear w todo) ∧ s'.redis = (clearDirty u v s.redis).2 ∧ s'.pg = s.pg ∧ s'.pool = s.pool :=
  ⟨_, h.answered [] (c := .clearDirty u v) (closed_awaits hpc rfl) rfl, closed_deliver hpc _ 0 _, rfl, rfl, rfl⟩

/-- All marks but one are cleared. -/
theorem Flusher.Closes.clears : ∀ {todo : List (UserId × ℤ)} {s : Flusher}, s.Closes cfg →
    s.pc = .closed (.clear w (todo ++ [(u, v)])) → u ∈ s.redis.dirty → u ∉ todo.map Prod.fst →
      ∃ s' : Flusher, s'.Closes cfg ∧ s'.pc = .closed (.clear w [(u, v)]) ∧ u ∈ s'.redis.dirty ∧
        s'.redis.bal = s.redis.bal ∧ s'.redis.gen = s.redis.gen ∧ s'.pool = s.pool
  | [], s, h, hpc, hu, _ => ⟨s, h, hpc, hu, rfl, rfl, rfl⟩
  | (x, y) :: todo, s, h, hpc, hu, hout => by
    rw [List.map_cons, List.mem_cons, not_or] at hout
    have hcleared := clearDirty_cleared x y s.redis
    have hkept : u ∈ (clearDirty x y s.redis).2.dirty := by
      refine (hcleared.dirty u).mpr ⟨hu, fun v' hm => ?_⟩
      cases List.mem_singleton.mp hm
      exact absurd rfl hout.1
    obtain ⟨s₁, hcloses₁, hpc₁, hredis, -, hpool₁⟩ := h.clear hpc
    obtain ⟨s', hcloses, hpc', hu', hbal, hgen, hpool⟩ := Closes.clears hcloses₁ hpc₁ (hredis ▸ hkept) hout.2
    refine ⟨s', hcloses, hpc', hu', ?_, ?_, hpool.trans hpool₁⟩
    · rw [hbal, hredis, hcleared.rest]
    · rw [hgen, hredis, hcleared.rest]

/-- Where one mark is left, the rows are the hot balances, and it is cleared. -/
theorem Flusher.Closes.last (h : s.Closes cfg) (hpc : s.pc = .closed (.clear w [(u, v)])) :
    (∀ x b, s.redis.bal.get x = some b → s.pg.get x = some b) ∧ (clearDirty u v s.redis).2.dirty = ∅ := by
  obtain ⟨s', hcloses, hend, hredis, hpg, -⟩ := h.clear hpc
  obtain ⟨-, hin⟩ := Leads.stuck hcloses fun l s'' hl => ended_stuck hend hl s''
  have hbal : s'.redis.bal = s.redis.bal := by rw [hredis, (clearDirty_cleared u v s.redis).rest]
  exact ⟨fun x b hb => hpg ▸ hin.rows x b (hbal ▸ hb), hredis ▸ hin.dirty⟩

/-- The rows are written, when there are any. -/
theorem Flusher.Closes.writes (h : s.Closes cfg) (hpc : s.pc = .closed (.write users (s.redis.snapshots users)))
    (htaken : s.Taken users) : ∃ (s' : Flusher) (w : ℕ), s'.Closes cfg ∧
      s'.pc = .closed (.clear w (FlushPc.cleared users (s.redis.snapshots users))) ∧ s'.redis = s.redis ∧
        s'.pool = s.pool := by
  rw [FlushPc.write] at hpc
  split at hpc
  · exact ⟨s, 0, h, hpc, rfl, rfl⟩
  · next hsome =>
    obtain ⟨w, s', hs, hpc', hredis, hpool, -⟩ := htaken.commit cfg hpc fun he => hsome (he ▸ rfl)
    exact ⟨s', w, h.after (l := .commit) trivial hs, hpc', hredis, hpool⟩

theorem RunPc.Leaving.running {pc : RunPc} (h : pc.Leaving) (e : Exn) : pc ≠ .ended e := by
  cases h <;> exact RunPc.noConfusion

/-- Whatever lands at once leaves stores for which one flush is enough. -/
theorem Flusher.Closes.before (h : s.Closes cfg) (hpc : s.pc.Leaving) (hc : c ∈ s.pool) (pick : List UserId)
    (r : Reply) (ρ : Redis) (he : exec pick s.redis c = some (r, ρ)) : Drainable cfg s.session ρ s.pg := by
  obtain ⟨i, hi⟩ := List.mem_iff_getElem?.mp hc
  exact (h.landed hpc.running hi he).drainable hpc

end Course

/-! ## Shutting down -/

/-- In its sleep, with a dirty user of version 8 above a row of version 7. -/
def behind : Flusher where
  redis := { Redis.empty with bal := Table.empty.set 1 (oneDollar.withVersion 8), dirty := {1} }
  pg := dollarRows
  pc := .sleeping
  draws := 0

end GenerationBalance
