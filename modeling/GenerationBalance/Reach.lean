/-
What a user's amount can become again without a top-up or a load: the hot balance
with the plans that running generations hold. A reservation, a settlement or a
refund only moves between the two, or keeps something.
-/
import GenerationBalance.Ledger

namespace GenerationBalance

open Transition

/-- What a running record holds of a user's amount. -/
def reserved (u : UserId) (f : Field) (_ : RequestId) (g : GenerationHash) : ℤ :=
  if g.userId = u ∧ g.status = .running then g.plan.field f else 0

/-- What the user's running generations hold. -/
def Redis.pending (ρ : Redis) (u : UserId) (f : Field) : ℤ := ρ.gen.sum (reserved u f)

/-- The hot amount of a user, with what running generations hold. -/
def Redis.reach (ρ : Redis) (u : UserId) (f : Field) : ℤ := ρ.hot u f + ρ.pending u f

/-- What the request added to a user's amount by a top-up. -/
def Ran.topped (x : Ran) (u : UserId) (f : Field) : ℤ :=
  match x.toppedUp with
  | some (_, a) => if a.userId = u then a.amount f else 0
  | none => 0

section Records

variable {u : UserId} {f : Field} {id : RequestId} {g : GenerationHash}

theorem reserved_running (h : g.status = .running) : reserved u f id g = if g.userId = u then g.plan.field f else 0 := by
  simp [reserved, h]

theorem reserved_resolved (h : g.status ≠ .running) : reserved u f id g = 0 := by
  simp [reserved, h]

end Records

section Step

variable {ρ ρ' : Redis} {u : UserId} {f : Field}

theorem Redis.reach_same (hhot : ρ'.hot u f = ρ.hot u f) (hgen : ρ'.gen = ρ.gen) : ρ'.reach u f = ρ.reach u f := by
  unfold Redis.reach Redis.pending
  rw [hhot, hgen]

/-- A record is resolved, and the balance gets no more than its plan. -/
theorem Redis.reach_resolved {id : RequestId} {r r' : GenerationHash} {a : ℤ} (hr : ρ.gen.get id = some r)
    (hrun : r.status = .running) (hdone : r'.status ≠ .running) (hgen : ρ'.gen = ρ.gen.set id r')
    (hhot : ρ'.hot u f = ρ.hot u f + if r.userId = u then a else 0) (hle : a ≤ r.plan.field f) :
    ρ'.reach u f ≤ ρ.reach u f := by
  have hsum : reserved u f id r + (ρ.gen.set id r').sum (reserved u f) =
      reserved u f id r' + ρ.gen.sum (reserved u f) := Table.sum_set_old _ hr fun _ _ _ _ => rfl
  rw [reserved_running hrun, reserved_resolved hdone] at hsum
  unfold Redis.reach Redis.pending
  rw [hgen, hhot]
  split at hsum
  · next hu => rw [if_pos hu]; omega
  · next hu => rw [if_neg hu]; omega

theorem ReserveOk.reach {a : ReserveArgs} {r : ReserveReply} (h : ReserveOk a ρ r ρ') (hf : f.IsAmount) :
    ρ'.reach u f = ρ.reach u f := by
  cases h with
  | dup | missing | conflict => rfl
  | @applied c b hn hb hv hp hdebit =>
    have hhot : (ρ.debited a b).hot u f = ρ.hot u f + if a.userId = u then -a.plan.field f else 0 :=
      Redis.hot_moved (δ := fun f => -a.plan.field f) hb rfl (fun f => by rw [hdebit, sub_eq_add_neg]) u hf
    have hsum : (ρ.gen.set a.clientRequestId a.record).sum (reserved u f) =
        reserved u f a.clientRequestId a.record + ρ.gen.sum (reserved u f) :=
      Table.sum_set_new _ hn fun _ _ _ _ => rfl
    rw [reserved_running rfl] at hsum
    have hu : a.record.userId = a.userId := rfl
    have hp : a.record.plan = a.plan := rfl
    rw [hu, hp] at hsum
    unfold Redis.reach Redis.pending
    rw [hhot]
    show _ + (ρ.gen.set a.clientRequestId a.record).sum _ = _
    rw [hsum]
    split <;> omega

theorem SettleOk.reach {S : Settlement} {r : SettleReply} (h : SettleOk S.args ρ r ρ') (hf : f.IsAmount)
    (hrec : ∃ g, ρ.gen.get S.reservation.id = some g ∧ g.Of S.reservation) : ρ'.reach u f ≤ ρ.reach u f := by
  obtain ⟨g, hg, hof⟩ := hrec
  obtain ⟨n, hs⟩ := S.sound
  have hid : S.args.clientRequestId = S.reservation.id := hs.clientRequestId
  have hu : S.args.userId = g.userId := hs.userId.trans hof.userId.symm
  have hle : ∀ f, S.args.refund f ≤ g.plan.field f := fun f => hof.plan ▸ hs.refund_le f
  rw [← hid] at hg
  cases h with
  | absent | done | failed | missing => exact le_refl _
  | «exact» hg' hrun hzero =>
    rw [hg] at hg'
    cases hg'
    refine Redis.reach_resolved (a := S.args.refund f) hg hrun (fun h => by cases h) rfl ?_ (hle f)
    rw [hzero, ite_self, add_zero]
    rfl
  | surplus hg' hrun hsur hb hadd =>
    rw [hg] at hg'
    cases hg'
    refine Redis.reach_resolved (a := S.args.refund f) hg hrun (fun h => by cases h) rfl ?_ (hle f)
    rw [← hu]
    exact Redis.hot_moved hb rfl hadd u hf

theorem RefundOk.reach {a : RefundArgs} {r : RefundReply} (h : RefundOk a ρ r ρ') (hf : f.IsAmount)
    (hrec : ∃ g, ρ.gen.get a.clientRequestId = some g ∧ a.plan = g.plan ∧ a.userId = g.userId) :
    ρ'.reach u f ≤ ρ.reach u f := by
  obtain ⟨g, hg, hp, hu⟩ := hrec
  cases h with
  | stale | missing => exact le_refl _
  | applied hg' hrun hb hadd =>
    rw [hg] at hg'
    cases hg'
    refine Redis.reach_resolved (a := a.plan.field f) hg hrun (fun h => by cases h) rfl ?_ (by rw [hp])
    rw [← hu]
    exact Redis.hot_moved hb rfl hadd u hf

/-- **One request adds nothing to what a user with a balance can reach**, unless it
is a top-up. -/
theorem CallOk.reach {s : System} {x : Ran} (hs : s.Kept fun _ => True) (hheld : s.Holds x.owner x.st)
    (hsend : Sends x.st x.call) (hok : CallOk s.redis x.call x.reply ρ') {b : Balance}
    (hb : s.redis.bal.get u = some b) (hf : f.IsAmount) : ρ'.reach u f ≤ s.redis.reach u f + x.topped u f := by
  obtain ⟨owner, st, c, r⟩ := x
  simp only at hheld hsend hok
  have free : ∀ {ρ' : Redis}, (Ran.mk owner st c r).topped u f = 0 → ρ'.reach u f ≤ s.redis.reach u f →
      ρ'.reach u f ≤ s.redis.reach u f + (Ran.mk owner st c r).topped u f := fun hz hle => by rw [hz, add_zero]; exact hle
  cases hok with
  | load | getGeneration | staleInflight | dirtyUsers | acquired | notAcquired | released | notReleased
  | notSeeded | notAdvanced | cleared | notCleared | forgot => exact free rfl (le_refl _)
  | @advanced w n c hc =>
    refine free rfl (le_of_eq (Redis.reach_same (ρ := s.redis) ?_ rfl))
    rw [Redis.hot_set (ρ := s.redis) (w := w) (b := c.withVersion n) rfl]
    split
    · next hw =>
      rw [hw, Redis.hot_of_get hc]
      cases f <;> first | rfl | exact absurd rfl hf
    · rfl
  | @seeded w c hn =>
    refine free rfl (le_of_eq (Redis.reach_same (ρ := s.redis) ?_ rfl))
    rw [Redis.hot_set (ρ := s.redis) (w := w) (b := c) rfl, if_neg]
    rintro rfl
    rw [hn] at hb
    cases hb
  | reserve hr => exact free rfl (hr.reach hf).le
  | @settle a r ρ' hr =>
    obtain ⟨S, hS, rfl⟩ := hsend.of_settle
    exact free rfl (hr.reach hf (hs.owned _ st _ hheld (Proc.settlement_owned hS) trivial))
  | @refund a r ρ' hr =>
    exact free rfl (hr.reach hf (hs.refund _ st _ hheld hsend.of_refund trivial))
  | @topUp a r ρ' hr =>
    cases hr with
    | dup | missing => exact free rfl (le_refl _)
    | @applied c b' hm hc hadd =>
      have hhot : ((s.redis.credited a.userId b').marked a.operationId a.userId).hot u f = _ :=
        Redis.hot_moved hc rfl hadd u hf
      unfold Redis.reach Redis.pending
      rw [hhot]
      show _ + s.redis.gen.sum _ ≤ _ + if a.userId = u then a.amount f else 0
      omega

end Step

section Step

variable {cfg : Config} {s s' : System} {l : Label}

/-- What a transition added to a user's amount by a top-up. -/
def topped (cfg : Config) (t : Trans System Label) (u : UserId) (f : Field) : ℤ :=
  (ran cfg t).elim 0 (·.topped u f)

theorem StepCase.reach (h : StepCase cfg s l s') (hs : s.Kept fun _ => True)
    (ht : Recording cfg (fun _ => True) ⟨s, l, s'⟩) {u : UserId} {b b' : Balance} (hb : s.redis.bal.get u = some b)
    (hb' : s'.redis.bal.get u = some b') {f : Field} (hf : f.IsAmount) :
    s'.redis.reach u f ≤ s.redis.reach u f + topped cfg ⟨s, l, s'⟩ u f := by
  cases h.store with
  | same hn he =>
    simp only [topped, hn, Option.elim, add_zero, he]
    exact le_refl _
  | expired hn he =>
    simp only [topped, hn, Option.elim, add_zero]
    refine (Redis.reach_same ?_ ?_).le
    · -- The balance is there before and after, so it was not the key that expired.
      generalize s'.redis = ρ' at he hb'
      cases he with
      | balance w =>
        show ((s.redis.bal.del w).get u).elim 0 _ = (s.redis.bal.get u).elim 0 _
        have hw : u ≠ w := by
          rintro rfl
          have hb' : (s.redis.bal.del u).get u = some b' := hb'
          rw [Table.get_del_self] at hb'
          cases hb'
        rw [Table.get_del_of_ne _ hw]
      | _ => rfl
    · exact Table.ext fun id => he.gen_get (ht.keeps id trivial)
  | ran hx hheld ha he =>
    simp only [topped, hx, Option.elim]
    exact CallOk.reach hs hheld (Proc.sends ha) (callOk_of_ran hx ht.inRange he) hb hf

end Step

/-- Plans are not negative, so the hot amount is within reach. -/
theorem System.Kept.hot_le_reach {s : System} {K : RequestId → Prop} (hs : s.Kept K) (u : UserId) (f : Field) :
    s.redis.hot u f ≤ s.redis.reach u f := by
  have hpending : 0 ≤ s.redis.pending u f := by
    refine Table.sum_nonneg fun id g hg => ?_
    obtain ⟨v, -, hof, -⟩ := hs.record id g hg
    unfold reserved
    split
    · rw [hof.plan]
      exact v.sound.nonneg f
    · exact le_refl _
  unfold Redis.reach
  omega

/-- A user of no record has nothing reserved. -/
theorem Redis.pending_absent {ρ : Redis} {u : UserId} (h : ∀ id g, ρ.gen.get id = some g → g.userId ≠ u) (f : Field) :
    ρ.pending u f = 0 := by
  refine Table.sum_eq_zero fun id g hg => ?_
  unfold reserved
  rw [if_neg fun hu => h id g hg hu.1]

end GenerationBalance
