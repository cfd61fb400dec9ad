/-
The shutdown with requests that land late. A cancellation leaves a request that Redis
may execute at any moment, or never. As long as it is quiet (it changes no balance
and marks nobody), the flush of the handler brings the stores together whenever one
flush is enough.

The flush has three phases: its batch is to be taken (`Flusher.Ready`), its balances
are read and written (`Flusher.Taken`), its marks are cleared (`Flusher.Clearing`). A
request that lands late keeps the phase, and a step of the process leads to the next.
-/
import GenerationBalance.Shutdown
import GenerationBalance.Additive

namespace GenerationBalance

open Transition

/-! ## Requests that land late -/

def Call.isClear : Call → Bool
  | .clearDirty _ _ => true
  | _ => false

/-- `REFUND` changes nothing: it finds no balance, or nothing reserved, or a command of it fails and
those before it add nothing. -/
def Idle (ρ : Redis) (a : RefundArgs) : Prop :=
  ∀ g b, ρ.gen.get a.clientRequestId = some g → g.status = .running → ρ.bal.get a.userId = some b →
    ∀ e ∈ a.increments.takeWhile b.takes, e.2 = 0

/-- The request changes no balance, marks nobody, and takes no mark off a balance that is not in
its row. It may load the row of a user that is not `busy`. -/
def Call.Quiet (busy : UserId → Prop) (ρ : Redis) (pg : Rows) : Call → Prop
  | .load _ | .tryAcquireLoadLock _ _ | .releaseLoadLock _ _ | .getGeneration _ | .staleInflight _ _
  | .forgetInflight _ | .dirtyUsers _ => True
  | .seedIfAbsent u b => (ρ.bal.get u).isSome ∨ ¬ busy u ∧ pg.get u = some b
  | .advanceVersion u expected _ => (ρ.bal.get u).map Balance.version ≠ some expected
  | .clearDirty u version => ∀ b, ρ.bal.get u = some b → b.version = version → pg.get u = some b
  | .refund a => Idle ρ a
  -- The process sends none of these.
  | .reserve _ | .settle _ | .topUp _ => False

/-- What a quiet request does to the store. -/
inductive Landing (busy : UserId → Prop) (ρ : Redis) (pg : Rows) (ρ' : Redis) : Prop
  | same : ρ'.bal = ρ.bal → ρ'.gen = ρ.gen → ρ'.dirty = ρ.dirty → Landing busy ρ pg ρ'
  | cleared (u) : (∀ b, ρ.bal.get u = some b → pg.get u = some b) → ρ'.bal = ρ.bal → ρ'.gen = ρ.gen →
      ρ'.dirty = ρ.dirty.erase u → Landing busy ρ pg ρ'
  | seeded (u b) : ¬ busy u → pg.get u = some b → ρ'.bal = ρ.bal.set u b → ρ'.dirty = ρ.dirty → Landing busy ρ pg ρ'

namespace Landing

variable {busy : UserId → Prop} {ρ ρ' : Redis} {pg : Rows} {u : UserId} {b : Balance}

/-- A balance that is hot then was hot, or is the row. -/
theorem hot (h : Landing busy ρ pg ρ') (hb : ρ'.bal.get u = some b) :
    ρ.bal.get u = some b ∨ ¬ busy u ∧ pg.get u = some b := by
  cases h with
  | same hbal | cleared _ _ hbal => exact .inl (hbal ▸ hb)
  | seeded w d hfree hrow hbal =>
    rw [hbal, Table.get_set] at hb
    split at hb
    · next huw =>
      cases hb
      rw [huw]
      exact .inr ⟨hfree, hrow⟩
    · exact .inl hb

theorem kept (h : Landing busy ρ pg ρ') (hu : busy u) : ρ'.bal.get u = ρ.bal.get u := by
  cases h with
  | same hbal | cleared _ _ hbal => rw [hbal]
  | seeded w d hfree _ hbal =>
    have huw : u ≠ w := fun huw => hfree (huw ▸ hu)
    rw [hbal, Table.get_set, if_neg huw]

theorem marked (h : Landing busy ρ pg ρ') (hu : u ∈ ρ'.dirty) : u ∈ ρ.dirty := by
  cases h with
  | same _ _ hdirty | seeded _ _ _ _ _ hdirty => exact hdirty ▸ hu
  | cleared w _ _ _ hdirty =>
    rw [hdirty] at hu
    exact Finset.mem_of_mem_erase hu

/-- Who is not marked any more has the row for the hot balance. -/
theorem unmarked (h : Landing busy ρ pg ρ') (hu : u ∈ ρ.dirty) (hu' : u ∉ ρ'.dirty) (b : Balance)
    (hb : ρ.bal.get u = some b) : pg.get u = some b := by
  cases h with
  | same _ _ hdirty | seeded _ _ _ _ _ hdirty => exact absurd (hdirty ▸ hu) hu'
  | cleared w hrow _ _ hdirty =>
    rw [hdirty, Finset.mem_erase] at hu'
    by_cases huw : u = w
    · rw [huw] at hb ⊢
      exact hrow b hb
    · exact absurd ⟨huw, hu⟩ hu'

end Landing

section Quiet

variable {busy busy' : UserId → Prop} {ρ ρ' : Redis} {pg pg' : Rows} {c : Call}

theorem RefundArgs.increments_nodup (a : RefundArgs) : (a.increments.map Prod.fst).Nodup := by
  simp [RefundArgs.increments]

theorem refund_idle {a : RefundArgs} (h : Idle ρ a) : (refund a ρ).2 = ρ := by
  cases hg : ρ.gen.get a.clientRequestId with
  | none =>
    simp only [refund, Script.store_bind, hg]
    rfl
  | some g =>
    by_cases hr : g.status = .running
    · cases hb : ρ.bal.get a.userId with
      | none =>
        simp only [refund, Script.store_bind, hg, hr, hb, ne_eq, not_true_eq_false, if_false, Option.isNone_none, if_true]
        rfl
      | some b =>
        have hadd := h g b hg hr hb
        have hsame : (b.incrs a.increments).1 = b := (Balance.incrs_eq_self a.increments_nodup).mpr hadd
        have hfails : (b.incrs a.increments).2 = false := by
          rw [(Balance.made a.increments_nodup fun _ _ => rfl : Balance.Made b b a.increments _).all]
          by_contra hall
          -- The last command counts the version, which is not by zero.
          rw [Bool.not_eq_false, List.all_eq_true] at hall
          have hone := hadd (.version, 1) (by rw [List.takeWhile_eq_self_iff.mpr hall]; simp [RefundArgs.increments])
          cases hone
        rw [refund_hot hg hr hb, hfails, hsame]
        exact Redis.putBalance_self hb
    · simp only [refund, Script.store_bind, hg, hr, ne_eq, not_false_eq_true, if_true]
      rfl

theorem Call.Quiet.lands (h : c.Quiet busy ρ pg) {pick : List UserId} {r : Reply}
    (he : exec pick ρ c = some (r, ρ')) : Landing busy ρ pg ρ' := by
  cases c with
  | load | getGeneration | staleInflight | forgetInflight =>
    cases he
    exact .same rfl rfl rfl
  | tryAcquireLoadLock u token =>
    simp only [exec] at he
    split at he <;> cases he <;> exact .same rfl rfl rfl
  | releaseLoadLock u token =>
    simp only [exec, GenerationBalance.releaseLoadLock] at he
    split at he <;> cases he <;> exact .same rfl rfl rfl
  | dirtyUsers limit =>
    simp only [exec] at he
    split at he <;> cases he
    exact .same rfl rfl rfl
  | seedIfAbsent u b =>
    simp only [exec, GenerationBalance.seedIfAbsent] at he
    split at he
    · cases he
      exact .same rfl rfl rfl
    · next hcold =>
      cases he
      rcases h with hhot | ⟨hfree, hrow⟩
      · exact absurd hhot hcold
      · exact .seeded u b hfree hrow rfl rfl
  | advanceVersion u expected newVersion =>
    simp only [exec, GenerationBalance.advanceVersion] at he
    split at he
    · cases he
      exact .same rfl rfl rfl
    · next b hb =>
      rw [Call.Quiet, hb] at h
      have hv : b.version ≠ expected := fun hv => h (congrArg some hv)
      rw [if_pos hv] at he
      cases he
      exact .same rfl rfl rfl
  | clearDirty u version =>
    simp only [exec, GenerationBalance.clearDirty] at he
    split at he
    · next hc =>
      cases he
      refine .cleared u (fun b hb => ?_) rfl rfl rfl
      rw [hb] at hc
      rcases hc with hn | hv
      · cases hn
      · exact h b hb (Option.some.inj hv)
    · cases he
      exact .same rfl rfl rfl
  | refund a =>
    have hidle := refund_idle h
    simp only [exec, scriptReply, Option.some.injEq] at he
    have hρ : ρ' = ρ := by
      rw [← hidle]
      generalize GenerationBalance.refund a ρ = x at he
      rcases x with ⟨e | a, ρ₁⟩ <;> cases he <;> rfl
    rw [hρ]
    exact .same rfl rfl rfl
  | reserve | settle | topUp => exact h.elim

theorem Call.Quiet.keep (h : c.Quiet busy ρ pg) (hbal : ρ'.bal = ρ.bal) (hgen : ρ'.gen = ρ.gen)
    (hbusy : ∀ u, busy' u → busy u)
    (hpg : ∀ u b, pg.get u = some b → ρ.bal.get u = some b ∨ ¬ busy u → pg'.get u = some b) :
    c.Quiet busy' ρ' pg' := by
  cases c with
  | seedIfAbsent u b =>
    rcases h with hhot | ⟨hfree, hrow⟩
    · exact .inl (hbal ▸ hhot)
    · exact .inr ⟨fun hb => hfree (hbusy u hb), hpg u b hrow (.inr hfree)⟩
  | advanceVersion =>
    rw [Call.Quiet, hbal]
    exact h
  | clearDirty u version => exact fun b hb hv => hpg u b (h b (hbal ▸ hb) hv) (.inl (hbal ▸ hb))
  | refund =>
    rw [Call.Quiet, Idle, hbal, hgen]
    exact h
  | reserve | settle | topUp => exact h.elim
  | _ => trivial

end Quiet

/-- What has still to land is quiet, and there is one such request or only the rest of a pipeline. -/
structure Flusher.Pending (s : Flusher) (busy : UserId → Prop) : Prop where
  quiet : ∀ c ∈ s.pool, c.Quiet busy s.redis s.pg
  kind : (∀ c ∈ s.pool, c.isClear = true) ∨ s.pool.length ≤ 1

section Late

variable {cfg : Config} {s s' : Flusher} {P Q : Flusher → Prop} {busy busy' : UserId → Prop}

theorem RunLabel.Goes.cases {l : RunLabel} (h : l.Goes) : l.OnTime ∨ ∃ i pick, l = .late i pick := by
  cases l with
  | cancel => exact h.elim
  | late i pick => exact .inr ⟨i, pick, rfl⟩
  | _ => exact .inl trivial

/-- A request of the pool has been executed. -/
def Flusher.landed (s : Flusher) (i : ℕ) (ρ : Redis) : Flusher := { s with redis := ρ, pool := s.pool.eraseIdx i }

theorem Flusher.late_cases {i : ℕ} {pick : List UserId} (h : s.step cfg (.late i pick) = some s') :
    ∃ c r ρ, s.pool[i]? = some c ∧ exec pick s.redis c = some (r, ρ) ∧ s' = s.landed i ρ := by
  simp only [Flusher.step] at h
  split at h
  · cases h
  · cases hc : s.pool[i]? with
    | none =>
      rw [hc] at h
      cases h
    | some c =>
      rw [hc] at h
      obtain ⟨⟨r, ρ⟩, he, rfl⟩ := Option.map_eq_some_iff.mp h
      exact ⟨c, r, ρ, rfl, he, rfl⟩

/-- **Requests that land late only delay the process**: what keeps up while they land, and leads
to `Q` by each step of the process, leads there. -/
theorem Flusher.awaits_leads (hgo : ∀ s, P s → ∃ l s', RunLabel.OnTime l ∧ step cfg s l = some s')
    (hown : ∀ s l s', P s → RunLabel.OnTime l → step cfg s l = some s' → Leads (step cfg) RunLabel.Goes Q s')
    (hlate : ∀ s i c pick r ρ, P s → s.pool[i]? = some c → exec pick s.redis c = some (r, ρ) → P (s.landed i ρ))
    (h : P s) : Leads (step cfg) RunLabel.Goes Q s := by
  induction hn : s.pool.length using Nat.strong_induction_on generalizing s with
  | _ n ih =>
  refine .step ?_ fun l s' hl hs => ?_
  · obtain ⟨l, s', hl, hs⟩ := hgo s h
    exact ⟨l, s', hl.goes, hs⟩
  · rcases hl.cases with hl | ⟨i, pick, rfl⟩
    · exact hown s l s' h hl hs
    · obtain ⟨c, r, ρ, hc, he, rfl⟩ := late_cases hs
      obtain ⟨hi, -⟩ := List.getElem?_eq_some_iff.mp hc
      refine ih _ ?_ (hlate s i c pick r ρ h hc he) rfl
      rw [Flusher.landed, List.length_eraseIdx_of_lt hi]
      omega

theorem Flusher.Pending.mono (h : s.Pending busy) (hpool : s'.pool = s.pool) (hbal : s'.redis.bal = s.redis.bal)
    (hgen : s'.redis.gen = s.redis.gen) (hbusy : ∀ u, busy' u → busy u)
    (hpg : ∀ u b, s.pg.get u = some b → s.redis.bal.get u = some b ∨ ¬ busy u → s'.pg.get u = some b) :
    s'.Pending busy' where
  quiet c hc := (h.quiet c (hpool ▸ hc)).keep hbal hgen hbusy hpg
  kind := hpool ▸ h.kind

/-- A request that lands late leaves the others quiet. -/
theorem Flusher.Pending.late (h : s.Pending busy) {i : ℕ} {c : Call} {pick : List UserId} {r : Reply} {ρ : Redis}
    (hc : s.pool[i]? = some c) (he : exec pick s.redis c = some (r, ρ)) :
    Landing busy s.redis s.pg ρ ∧ (s.landed i ρ).Pending busy := by
  have hmem : c ∈ s.pool := List.mem_of_getElem? hc
  have hrest : ∀ {d}, d ∈ s.pool.eraseIdx i → d ∈ s.pool := fun hd => List.mem_of_mem_eraseIdx hd
  have hlands := (h.quiet c hmem).lands he
  have hkind : (∀ d ∈ s.pool.eraseIdx i, d.isClear = true) ∨ (s.pool.eraseIdx i).length ≤ 1 :=
    h.kind.imp (fun hclear d hd => hclear d (hrest hd)) fun hlen =>
      le_trans (List.length_eraseIdx_le _ _) hlen
  refine ⟨hlands, ?_, hkind⟩
  intro d hd
  have hq := h.quiet d (hrest hd)
  cases hlands with
  | same hbal hgen | cleared u _ hbal hgen => exact hq.keep hbal hgen (fun _ hb => hb) fun _ _ hrow _ => hrow
  | seeded u b hfree hrow hbal =>
    -- The request was no clear of the pipeline, so nothing else has still to land.
    rcases h.kind with hclear | hlen
    · have hdc := hclear d (hrest hd)
      cases d with
      | clearDirty w v =>
        intro e hw hv
        change ρ.bal.get w = some e at hw
        rw [hbal, Table.get_set] at hw
        split at hw
        · next hwu =>
          cases hw
          rw [hwu]
          exact hrow
        · exact hq e hw hv
      | _ => cases hdc
    · obtain ⟨hi, -⟩ := List.getElem?_eq_some_iff.mp hc
      have hlen' : (s.pool.eraseIdx i).length = 0 := by
        rw [List.length_eraseIdx_of_lt hi]
        omega
      change d ∈ s.pool.eraseIdx i at hd
      rw [List.eq_nil_of_length_eq_zero hlen'] at hd
      cases hd

end Late

/-! ## The flush of the handler, whatever lands late -/

/-- Every row is the hot balance, and what is still marked is to be cleared at its version. -/
structure Flusher.Clearing (s : Flusher) (todo : List (UserId × ℤ)) : Prop where
  rows : ∀ u b, s.redis.bal.get u = some b → s.pg.get u = some b
  covers : ∀ u ∈ s.redis.dirty, u ∈ todo.map Prod.fst
  version : ∀ u v, (u, v) ∈ todo → ∀ b, s.redis.bal.get u = some b → b.version = v
  pending : s.Pending (· ∈ todo.map Prod.fst)

/-- A batch of `users` is taken: it covers all that are marked, their balances can be written, and
everybody else's row is the hot balance. -/
structure Flusher.Taken (s : Flusher) (users : List UserId) : Prop where
  nodup : users.Nodup
  covers : ∀ u ∈ s.redis.dirty, u ∈ users
  marked : ∀ u ∈ users, ∀ b, s.redis.bal.get u = some b →
    s.session = true ∧ b.Storable ∧ ∀ r, s.pg.get u = some r → r.version < b.version ∨ r = b
  unmarked : ∀ u, u ∉ users → ∀ b, s.redis.bal.get u = some b → s.pg.get u = some b

/-- One flush is enough for what the process finds. -/
def Flusher.Ready (cfg : Config) (s : Flusher) : Prop := Drainable cfg s.session s.redis s.pg

theorem Redis.snapshots_congr {ρ ρ' : Redis} {users : List UserId} (h : ∀ u ∈ users, ρ'.bal.get u = ρ.bal.get u) :
    ρ'.snapshots users = ρ.snapshots users :=
  List.filterMap_congr fun u hu => by rw [h u hu]

section Phases

variable {cfg : Config} {s s' : Flusher} {todo : List (UserId × ℤ)} {users : List UserId} {i : ℕ} {c : Call}
  {pick : List UserId} {r : Reply} {ρ : Redis} {rows snapshots : List (UserId × Balance)}

theorem Flusher.Clearing.late (h : s.Clearing todo) (hc : s.pool[i]? = some c)
    (he : exec pick s.redis c = some (r, ρ)) : (s.landed i ρ).Clearing todo := by
  obtain ⟨hlands, hpending⟩ := h.pending.late hc he
  refine ⟨fun u b hb => ?_, fun u hu => h.covers u (hlands.marked hu), fun u v hm b hb => ?_, hpending⟩
  · rcases hlands.hot hb with hb | ⟨-, hrow⟩
    · exact h.rows u b hb
    · exact hrow
  · rw [Flusher.landed, hlands.kept (List.mem_map.mpr ⟨_, hm, rfl⟩)] at hb
    exact h.version u v hm b hb

theorem Flusher.Taken.congr (h : s.Taken users) (hredis : s'.redis = s.redis) (hpg : s'.pg = s.pg)
    (hsession : s'.session = s.session) : s'.Taken users where
  nodup := h.nodup
  covers := hredis ▸ h.covers
  marked := by
    rw [hredis, hpg, hsession]
    exact h.marked
  unmarked := by
    rw [hredis, hpg]
    exact h.unmarked

theorem Flusher.Taken.late (h : s.Taken users) (hpending : s.Pending (· ∈ users)) (hc : s.pool[i]? = some c)
    (he : exec pick s.redis c = some (r, ρ)) : (s.landed i ρ).Taken users ∧ (s.landed i ρ).Pending (· ∈ users) ∧
      ∀ u ∈ users, ρ.bal.get u = s.redis.bal.get u := by
  obtain ⟨hlands, hlate⟩ := hpending.late hc he
  have hhot : ∀ u ∈ users, ρ.bal.get u = s.redis.bal.get u := fun u hu => hlands.kept hu
  refine ⟨⟨h.nodup, fun u hu => h.covers u (hlands.marked hu), fun u hu b hb => ?_, fun u hu b hb => ?_⟩, hlate, hhot⟩
  · rw [Flusher.landed, hhot u hu] at hb
    exact h.marked u hu b hb
  · rcases hlands.hot hb with hb | ⟨-, hrow⟩
    · exact h.unmarked u hu b hb
    · exact hrow

theorem Flusher.Ready.late (h : s.Ready cfg) (hpending : s.Pending (· ∈ s.redis.dirty)) (hc : s.pool[i]? = some c)
    (he : exec pick s.redis c = some (r, ρ)) :
    (s.landed i ρ).Ready cfg ∧ (s.landed i ρ).Pending (· ∈ ρ.dirty) := by
  obtain ⟨hlands, hlate⟩ := hpending.late hc he
  have hold : ∀ u ∈ ρ.dirty, u ∈ s.redis.dirty := fun u hu => hlands.marked hu
  have hhot : ∀ u ∈ ρ.dirty, ρ.bal.get u = s.redis.bal.get u := fun u hu => hlands.kept (hold u hu)
  refine ⟨⟨?_, fun u hu b hb => ?_, fun u hu b hb => ?_⟩, ?_⟩
  · exact le_trans (Finset.card_le_card hold) h.size
  · rw [Flusher.landed, hhot u hu] at hb
    exact h.marked u (hold u hu) b hb
  · rcases hlands.hot hb with hb | ⟨-, hrow⟩
    · by_cases hm : u ∈ s.redis.dirty
      · exact hlands.unmarked hm hu b hb
      · exact h.unmarked u hm b hb
    · exact hrow
  · exact hlate.mono rfl rfl rfl hold fun _ _ hrow _ => hrow

theorem Flusher.Clearing.cleared {u : UserId} {v : ℤ} (h : s.Clearing ((u, v) :: todo)) :
    clearDirty u v s.redis = (true, { s.redis with dirty := s.redis.dirty.erase u }) := by
  refine if_pos ?_
  cases hb : s.redis.bal.get u with
  | none => exact .inl rfl
  | some b => exact .inr (congrArg some (h.version u v (List.mem_cons_self ..) b hb))

/-- **The marks are cleared** one after the other. -/
theorem Flusher.Clearing.leads {w : ℕ} : ∀ {todo : List (UserId × ℤ)} {s : Flusher}, s.pc = .closed (.clear w todo) →
    s.Clearing todo → s.Closes cfg
  | [], s, hpc, h => .now ⟨hpc, h.rows, Finset.eq_empty_of_forall_notMem fun u hu => List.not_mem_nil (h.covers u hu)⟩
  | (u, v) :: todo, s, hpc, h => by
    refine awaits_leads (P := fun s => s.pc = .closed (.clear w ((u, v) :: todo)) ∧ s.Clearing ((u, v) :: todo))
      (fun s h => call_goes (c := .clearDirty u v) [] (closed_awaits h.1 rfl) rfl) ?_ (fun s i c pick r ρ h hc he => ⟨h.1, h.2.late hc he⟩) ⟨hpc, h⟩
    rintro s l s' ⟨hpc, h⟩ hl hs
    obtain ⟨pick, now, r, ρ, he, rfl⟩ := own_cases (c := .clearDirty u v) (closed_awaits hpc rfl) hl hs
    rw [exec, h.cleared] at he
    cases he
    refine Clearing.leads (closed_deliver hpc _ now _) ⟨h.rows, fun x hx => ?_, fun x y hm => ?_, ?_⟩
    · obtain ⟨hne, hx⟩ := Finset.mem_erase.mp hx
      rcases List.mem_cons.mp (h.covers x hx) with rfl | hx
      · exact absurd rfl hne
      · exact hx
    · exact h.version x y (List.mem_cons_of_mem _ hm)
    · exact h.pending.mono rfl rfl rfl (fun x hx => List.mem_cons_of_mem _ hx) fun _ _ hrow _ => hrow

theorem FlushPc.repair_same {rows : List (UserId × Balance)} {written : ℕ} :
    ∀ {rejected : List Rejected}, (∀ x ∈ rejected, x.2.2 = some x.1) →
      repair users rows written rejected = clear written (cleared users rows)
  | [], _ => rfl
  | (b, u, stored) :: rejected, h => by
    have hsame : stored = some b := h _ (List.mem_cons_self ..)
    rw [hsame, repair, if_pos ((sameState_iff b b).mpr rfl)]
    exact repair_same fun x hx => h x (List.mem_cons_of_mem _ hx)

/-- Once every row of the batch is the hot balance, its marks can be cleared. -/
theorem Flusher.Taken.clearing (h : s.Taken users) (hpending : s.Pending (· ∈ users)) (hredis : s'.redis = s.redis) (hpool : s'.pool = s.pool)
    (hrow : ∀ u ∈ users, ∀ b, s.redis.bal.get u = some b → s'.pg.get u = some b)
    (hother : ∀ u, (u ∈ users → s.redis.bal.get u = none) → s'.pg.get u = s.pg.get u) :
    s'.Clearing (FlushPc.cleared users (s.redis.snapshots users)) := by
  have husers : (FlushPc.cleared users (s.redis.snapshots users)).map Prod.fst = users := by
    rw [FlushPc.cleared, List.map_map]
    exact List.map_id users
  have hrows : ∀ u b, s.redis.bal.get u = some b → s'.pg.get u = some b := by
    intro u b hb
    by_cases hu : u ∈ users
    · exact hrow u hu b hb
    · rw [hother u fun hm => absurd hm hu]
      exact h.unmarked u hu b hb
  refine ⟨hredis ▸ hrows, fun u hu => ?_, fun u v hm b hb => ?_, ?_⟩
  · rw [husers]
    exact h.covers u (hredis ▸ hu)
  · obtain ⟨w, hw, he⟩ := List.mem_map.mp hm
    cases he
    rw [hredis] at hb
    rw [Redis.lookup_snapshots h.nodup hw, hb]
    rfl
  · rw [husers]
    refine hpending.mono hpool (by rw [hredis]) (by rw [hredis]) (fun _ hu => hu) fun u b hpg hfree => ?_
    rcases hfree with hb | hu
    · exact hrows u b hb
    · rw [hother u fun hm => absurd hm hu, hpg]

/-- The transaction makes each row the hot balance: a row that it rejects is that already. -/
theorem Flusher.Taken.written (h : s.Taken users) : ∃ written rejected pg,
    writeRows (s.redis.snapshots users) s.pg = some ((written, rejected), pg) ∧
      (∀ x ∈ rejected, x.2.2 = some x.1) ∧
      (∀ u ∈ users, ∀ b, s.redis.bal.get u = some b → pg.get u = some b) ∧
      ∀ u, (u ∈ users → s.redis.bal.get u = none) → pg.get u = s.pg.get u := by
  have hmem : ∀ {u b}, (u, b) ∈ s.redis.snapshots users ↔ u ∈ users ∧ s.redis.bal.get u = some b :=
    Redis.mem_snapshots
  have hstorable : ∀ x ∈ s.redis.snapshots users, x.2.Storable := fun x hx =>
    (h.marked x.1 (hmem.mp hx).1 x.2 (hmem.mp hx).2).2.1
  obtain ⟨written, pg, hmerged, hw⟩ := writeRows_merged (Redis.snapshots_nodup h.nodup) hstorable s.pg
  have hrow : ∀ u ∈ users, ∀ b, s.redis.bal.get u = some b → pg.get u = some b := by
    intro u hu b hb
    rw [hmerged.row u b (hmem.mpr ⟨hu, hb⟩)]
    by_contra hkept
    obtain ⟨r, hr, hle, hrb⟩ := Balance.over_ne_iff.mp fun he => hkept (congrArg some he)
    rcases (h.marked u hu b hb).2.2 r hr with hlt | heq
    · exact absurd hlt (not_lt.mpr hle)
    · exact hrb heq
  refine ⟨_, _, pg, hw, fun x hx => ?_, hrow, fun u hu => hmerged.other u fun hm => ?_⟩
  · obtain ⟨⟨u, b⟩, hm, rfl⟩ := List.mem_map.mp hx
    obtain ⟨hu, hb⟩ := hmem.mp (List.mem_filter.mp hm).1
    exact hrow u hu b hb
  · obtain ⟨hm, b, hb⟩ := Redis.mem_snapshots_users.mp hm
    rw [hu hm] at hb
    cases hb

/-- The transaction leaves only marks to clear. -/
theorem Flusher.Taken.commit (cfg : Config) (h : s.Taken users) (hpc : s.pc = .closed (.committing users (s.redis.snapshots users)))
    (hne : s.redis.snapshots users ≠ []) : ∃ w s', s.step cfg .commit = some s' ∧
      s'.pc = .closed (.clear w (FlushPc.cleared users (s.redis.snapshots users))) ∧ s'.redis = s.redis ∧
      s'.pool = s.pool ∧ (∀ u ∈ users, ∀ b, s.redis.bal.get u = some b → s'.pg.get u = some b) ∧
      ∀ u, (u ∈ users → s.redis.bal.get u = none) → s'.pg.get u = s.pg.get u := by
  have hact : s.pc.action cfg = .commit (s.redis.snapshots users) := closed_awaits hpc rfl
  have hsession : s.session = true := by
    obtain ⟨⟨u, b⟩, hm⟩ := List.exists_mem_of_ne_nil _ hne
    obtain ⟨hu, hb⟩ := Redis.mem_snapshots.mp hm
    exact (h.marked u hu b hb).1
  obtain ⟨written, rejected, pg, hw, hsame, hrow, hother⟩ := h.written
  refine ⟨written.length, { s with pg }.deliver cfg 0 (.committed (some (written, rejected))), ?_, ?_, rfl, rfl, hrow,
    hother⟩
  · simp only [Flusher.step, hact, hsession, if_true, hw]
  · rw [← FlushPc.repair_same hsame]
    exact closed_deliver (s := { s with pg }) hpc s.redis 0 _

/-- **The rows are written.** -/
theorem Flusher.Taken.commits (hpc : s.pc = .closed (.committing users rows)) (hrows : rows = s.redis.snapshots users)
    (hne : rows ≠ []) (h : s.Taken users) (hpending : s.Pending (· ∈ users)) : s.Closes cfg := by
  refine awaits_leads (P := fun s => s.pc = .closed (.committing users rows) ∧ rows = s.redis.snapshots users ∧
    s.Taken users ∧ s.Pending (· ∈ users)) ?_ ?_ ?_ ⟨hpc, hrows, h, hpending⟩
  · rintro s ⟨hpc, hrows, h, -⟩
    obtain ⟨w, s', hs, -⟩ := h.commit cfg (hrows ▸ hpc) (hrows ▸ hne)
    exact ⟨.commit, s', trivial, hs⟩
  · rintro s l s' ⟨hpc, hrows, h, hpending⟩ hl hs
    obtain rfl := own_commit (closed_awaits hpc rfl) hl hs
    obtain ⟨w, s'', hs'', hpc'', hredis, hpool, hrow, hother⟩ := h.commit cfg (hrows ▸ hpc) (hrows ▸ hne)
    cases hs''.symm.trans hs
    exact Clearing.leads hpc'' (h.clearing hpending hredis hpool hrow hother)
  · rintro s i c pick r ρ ⟨hpc, hrows, h, hpending⟩ hc he
    obtain ⟨hlate, hlater, hhot⟩ := h.late hpending hc he
    exact ⟨hpc, hrows.trans (Redis.snapshots_congr hhot).symm, hlate, hlater⟩

/-- **The balances of the batch are read**, the ones after the others. -/
theorem Flusher.Taken.leads : ∀ {todo : List UserId} {snapshots : List (UserId × Balance)} {s : Flusher},
    s.pc = .closed (.load users snapshots todo) → (∀ u ∈ todo, u ∈ users) →
      snapshots ++ s.redis.snapshots todo = s.redis.snapshots users → s.Taken users → s.Pending (· ∈ users) →
        s.Closes cfg
  | [], snapshots, s, hpc, _, hread, h, hpending => by
    rw [Redis.snapshots, List.filterMap_nil, List.append_nil] at hread
    rw [FlushPc.load, FlushPc.write] at hpc
    split at hpc
    · next hempty =>
      have hcold : ∀ u ∈ users, ∀ b, s.redis.bal.get u ≠ some b := by
        intro u hu b hb
        have hm : (u, b) ∈ snapshots := hread ▸ Redis.mem_snapshots.mpr ⟨hu, hb⟩
        rw [List.isEmpty_iff.mp hempty] at hm
        cases hm
      rw [hread] at hpc
      exact Clearing.leads hpc (h.clearing hpending rfl rfl (fun u hu b hb => absurd hb (hcold u hu b)) fun _ _ => rfl)
    · next hne => exact Taken.commits hpc hread (fun he => hne (List.isEmpty_iff.mpr he)) h hpending
  | u :: todo, snapshots, s, hpc, hsub, hread, h, hpending => by
    refine awaits_leads (P := fun s => s.pc = .closed (.load users snapshots (u :: todo)) ∧
      snapshots ++ s.redis.snapshots (u :: todo) = s.redis.snapshots users ∧ s.Taken users ∧ s.Pending (· ∈ users))
      (fun s h => call_goes (c := .load u) [] (closed_awaits h.1 rfl) rfl) ?_ ?_ ⟨hpc, hread, h, hpending⟩
    · rintro s l s' ⟨hpc, hread, h, hpending⟩ hl hs
      obtain ⟨pick, now, r, ρ, he, rfl⟩ := own_cases (c := .load u) (closed_awaits hpc rfl) hl hs
      cases he
      refine Taken.leads (closed_deliver hpc _ now _) (fun x hx => hsub x (List.mem_cons_of_mem _ hx)) ?_
        (h.congr rfl rfl rfl) (hpending.mono rfl rfl rfl (fun _ hx => hx) fun _ _ hrow _ => hrow)
      rw [Redis.snapshots_cons, ← List.append_assoc] at hread
      exact hread
    · rintro s i c pick r ρ ⟨hpc, hread, h, hpending⟩ hc he
      obtain ⟨hlate, hlater, hhot⟩ := h.late hpending hc he
      refine ⟨hpc, ?_, hlate, hlater⟩
      rw [Flusher.landed, Redis.snapshots_congr hhot, Redis.snapshots_congr fun x hx => hhot x (hsub x hx)]
      exact hread

/-- A batch of all that are marked is taken. -/
theorem Flusher.Ready.taken (h : s.Ready cfg) (hpicks : Picks cfg s.redis users) : s.Taken users where
  nodup := hpicks.nodup
  covers u hu := (hpicks.all h.size u).mpr hu
  marked u hu b hb := h.marked u ((hpicks.all h.size u).mp hu) b hb
  unmarked u hu b hb := h.unmarked u (fun hm => hu ((hpicks.all h.size u).mpr hm)) b hb

/-- Nobody is marked, so the request lands before the batch is taken or never. One flush is enough
for what it leaves. -/
def Call.Before (cfg : Config) (s : Flusher) (c : Call) : Prop :=
  s.redis.dirty = ∅ ∧ ∀ pick r ρ, exec pick s.redis c = some (r, ρ) → Drainable cfg s.session ρ s.pg

/-- What may land while the flush of the handler is to take its batch. -/
inductive Flusher.Opens (cfg : Config) (s : Flusher) : Prop
  | quiet : s.Pending (· ∈ s.redis.dirty) → Opens cfg s
  | before (d : Call) : s.pool = [d] → d.Before cfg s → Opens cfg s

theorem Flusher.closing_awaits (h : s.pc = .closing .picking) :
    s.pc.action cfg = .call (.dirtyUsers cfg.flushBatchSize) := by
  rw [h]
  rfl

theorem Flusher.closing_deliver (cfg : Config) (h : s.pc = .closing .picking) (now : ℚ) (users : List UserId) :
    ({ s with redis := s.redis }.deliver cfg now (.reply (.users users))).pc =
      .closed (if users.isEmpty then .ended (.ok 0) else .load users [] users) :=
  closed_deliver (show s.pc = .closed .picking from h) s.redis now _

/-- **The batch is taken.** -/
theorem Flusher.Ready.leads (hpc : s.pc = .closing .picking) (h : s.Ready cfg) (hopens : s.Opens cfg) :
    s.Closes cfg := by
  refine awaits_leads (P := fun s => s.pc = .closing .picking ∧ s.Ready cfg ∧ s.Opens cfg) ?_ ?_ ?_ ⟨hpc, h, hopens⟩
  · rintro s ⟨hpc, _, _⟩
    obtain ⟨users, hpicks⟩ := Picks.exists cfg s.redis
    exact call_goes users (closing_awaits hpc) (by rw [hpicks.exec]; rfl)
  · rintro s l s' ⟨hpc, h, hopens⟩ hl hs
    obtain ⟨pick, now, r, ρ, he, rfl⟩ := own_cases (closing_awaits hpc) hl hs
    obtain ⟨hpicks, rfl, rfl⟩ := Picks.of_exec he
    have hall := hpicks.all h.size
    have hpc' := closing_deliver cfg hpc now pick
    split at hpc'
    · next hempty =>
      rw [List.isEmpty_iff] at hempty
      have hnobody : s.redis.dirty = ∅ := by
        refine Finset.eq_empty_of_forall_notMem fun u hu => ?_
        have hm := (hall u).mpr hu
        rw [hempty] at hm
        cases hm
      exact .now ⟨hpc', fun u b hb => h.unmarked u (hnobody ▸ Finset.notMem_empty u) b hb, hnobody⟩
    · next hsome =>
      cases hopens with
      | quiet hpending =>
        exact Taken.leads hpc' (fun _ hu => hu) rfl ((h.taken hpicks).congr rfl rfl rfl)
          (hpending.mono rfl rfl rfl (fun u hu => (hall u).mp hu) fun _ _ hrow _ => hrow)
      | before d _ hbefore =>
        have hnone : pick = [] := List.eq_nil_iff_forall_not_mem.mpr fun u hu => by
          have hm := (hall u).mp hu
          rw [hbefore.1] at hm
          cases hm
        rw [hnone] at hsome
        exact absurd rfl hsome
  · rintro s i c pick r ρ ⟨hpc, h, hopens⟩ hc he
    cases hopens with
    | quiet hpending =>
      obtain ⟨hready, hlate⟩ := h.late hpending hc he
      exact ⟨hpc, hready, .quiet hlate⟩
    | before d hpool hbefore =>
      have hi : i = 0 := by
        obtain ⟨hi, -⟩ := List.getElem?_eq_some_iff.mp hc
        rw [hpool, List.length_singleton] at hi
        omega
      subst hi
      rw [hpool] at hc
      cases hc
      have hready : (s.landed 0 ρ).Ready cfg := hbefore.2 pick r ρ he
      have hnothing : (s.landed 0 ρ).pool = [] := by
        rw [Flusher.landed, hpool]
        rfl
      exact ⟨hpc, hready, .quiet ⟨by simp [hnothing], .inl (by simp [hnothing])⟩⟩

/-- The lock of the loader is released first. -/
theorem Flusher.Ready.release {n : ℕ} {a : RefundArgs} {rounds : ℕ} {token : Token} {ids : List RequestId} {reaped : ℕ}
    (hpc : s.pc = .reaping n (.refunding a (.loading rounds (.release token (.raise cancelledError))) ids reaped))
    (h : s.Ready cfg) (hpending : s.Pending (· ∈ s.redis.dirty)) : s.Closes cfg := by
  refine awaits_leads (P := fun s =>
    s.pc = .reaping n (.refunding a (.loading rounds (.release token (.raise cancelledError))) ids reaped) ∧
      s.Ready cfg ∧ s.Pending (· ∈ s.redis.dirty)) ?_ ?_ ?_ ⟨hpc, h, hpending⟩
  · rintro s ⟨hpc, _, _⟩
    obtain ⟨lock, hgo, -⟩ := Flusher.release_exec cfg hpc
    exact hgo
  · rintro s l s' ⟨hpc, h, hpending⟩ hl hs
    obtain ⟨lock, -, hexec⟩ := Flusher.release_exec cfg hpc
    obtain ⟨draws, rfl⟩ := hexec l s' hl hs
    exact Ready.leads rfl ⟨h.size, h.marked, h.unmarked⟩
      (.quiet (hpending.mono rfl rfl rfl (fun _ hu => hu) fun _ _ hrow _ => hrow))
  · rintro s i c pick r ρ ⟨hpc, h, hpending⟩ hc he
    obtain ⟨hready, hlate⟩ := h.late hpending hc he
    exact ⟨hpc, hready, hlate⟩

end Phases

/-! ## Shutting down -/

section Cancel

variable {cfg : Config} {s s₁ : Flusher} {cut : Cut} {c : Call}

/-- A seed that would be in step if it landed now is quiet. -/
theorem Call.Before.seed {u : UserId} {b : Balance} (h : (Call.seedIfAbsent u b).Before cfg s) :
    (Call.seedIfAbsent u b).Quiet (· ∈ s.redis.dirty) s.redis s.pg := by
  by_cases hhot : (s.redis.bal.get u).isSome = true
  · exact .inl hhot
  · have hfree : u ∉ s.redis.dirty := by
      rw [h.1]
      exact Finset.notMem_empty u
    have hready := h.2 [] (.flag true) (s.redis.putBalance u b)
      (by rw [exec, GenerationBalance.seedIfAbsent, if_neg hhot]; rfl)
    exact .inr ⟨hfree, hready.unmarked u hfree b (Table.get_set_self ..)⟩

/-- A clear that finds nobody marked is quiet. -/
theorem Call.Before.clear (h : c.Before cfg s) (hdrain : Drainable cfg s.session s.redis s.pg) (hc : c.isClear = true) :
    c.Quiet (· ∈ s.redis.dirty) s.redis s.pg := by
  cases c with
  | clearDirty u v =>
    intro b hb _
    refine hdrain.unmarked u ?_ b hb
    rw [h.1]
    exact Finset.notMem_empty u
  | _ => cases hc

end Cancel

end GenerationBalance
