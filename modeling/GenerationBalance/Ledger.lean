/-
The ledger. For every user and every amount: what is in the hot balance, with
what running generations hold and done ones have kept, is what was loaded with
what was topped up. Every script keeps this equation, because whoever resolves
a record sends the plan the record holds, and only the first one is heard.
-/
import GenerationBalance.Holders

namespace GenerationBalance

open Transition

/-! ## What a request did -/

def Ran.settled : Ran → Option (RequestId × SettleArgs)
  | ⟨_, _, .settle a, .settle .ok⟩ => some (a.clientRequestId, a)
  | _ => none

def Ran.toppedUp : Ran → Option (OperationId × TopUpArgs)
  | ⟨_, _, .topUp a, .topUp .ok⟩ => some (a.operationId, a)
  | _ => none

def Ran.seeded : Ran → Option (UserId × Balance)
  | ⟨_, _, .seedIfAbsent u b, .flag true⟩ => some (u, b)
  | _ => none

/-- The settlement of a record, among the transitions taken. -/
def settleOf (cfg : Config) (tr : List (Trans System Label)) : RequestId → Option SettleArgs :=
  latest (fun t => (ran cfg t).bind Ran.settled) tr

/-- The top-up that set a marker. -/
def topUpOf (cfg : Config) (tr : List (Trans System Label)) : OperationId → Option TopUpArgs :=
  latest (fun t => (ran cfg t).bind Ran.toppedUp) tr

/-- The balance that was loaded for a user. -/
def seedOf (cfg : Config) (tr : List (Trans System Label)) : UserId → Option Balance :=
  latest (fun t => (ran cfg t).bind Ran.seeded) tr

section Histories

variable {cfg : Config} {tr : List (Trans System Label)} {t : Trans System Label}

theorem settleOf_none (h : (ran cfg t).bind Ran.settled = none) : settleOf cfg (t :: tr) = settleOf cfg tr :=
  latest_none h

theorem topUpOf_none (h : (ran cfg t).bind Ran.toppedUp = none) : topUpOf cfg (t :: tr) = topUpOf cfg tr :=
  latest_none h

theorem seedOf_none (h : (ran cfg t).bind Ran.seeded = none) : seedOf cfg (t :: tr) = seedOf cfg tr :=
  latest_none h

theorem settleOf_some {a : SettleArgs} (h : (ran cfg t).bind Ran.settled = some (a.clientRequestId, a))
    (id : RequestId) :
    settleOf cfg (t :: tr) id = if a.clientRequestId = id then some a else settleOf cfg tr id :=
  latest_some (f := fun t => (ran cfg t).bind Ran.settled) h id

theorem topUpOf_some {a : TopUpArgs} (h : (ran cfg t).bind Ran.toppedUp = some (a.operationId, a)) (o : OperationId) :
    topUpOf cfg (t :: tr) o = if a.operationId = o then some a else topUpOf cfg tr o :=
  latest_some (f := fun t => (ran cfg t).bind Ran.toppedUp) h o

theorem seedOf_some {w : UserId} {b : Balance} (h : (ran cfg t).bind Ran.seeded = some (w, b)) (u : UserId) :
    seedOf cfg (t :: tr) u = if w = u then some b else seedOf cfg tr u :=
  latest_some (f := fun t => (ran cfg t).bind Ran.seeded) h u

end Histories

/-! ## The equation -/

/-- An amount of a user in the hot store. -/
def Redis.hot (ρ : Redis) (u : UserId) (f : Field) : ℤ := (ρ.bal.get u).elim 0 (·.get f)

theorem Redis.hot_of_get {ρ : Redis} {u : UserId} {b : Balance} (h : ρ.bal.get u = some b) (f : Field) :
    ρ.hot u f = b.get f := by
  simp [Redis.hot, h]

theorem Redis.hot_set {ρ ρ' : Redis} {w : UserId} {b : Balance} (h : ρ'.bal = ρ.bal.set w b) (u : UserId) (f : Field) :
    ρ'.hot u f = if u = w then b.get f else ρ.hot u f := by
  unfold Redis.hot
  rw [h, Table.get_set]
  split <;> rfl

/-- A balance that moved by `δ`. -/
theorem Redis.hot_moved {ρ ρ' : Redis} {w : UserId} {old new : Balance} {δ : Field → ℤ}
    (hold : ρ.bal.get w = some old) (h : ρ'.bal = ρ.bal.set w new)
    (hf : ∀ f, new.get f = old.get f + δ f + if f = .version then 1 else 0) (u : UserId) {f : Field}
    (ha : f.IsAmount) : ρ'.hot u f = ρ.hot u f + if w = u then δ f else 0 := by
  rw [Redis.hot_set h]
  by_cases hu : u = w
  · subst hu
    rw [if_pos rfl, if_pos rfl, hf, if_neg ha, Redis.hot_of_get hold, add_zero]
  · rw [if_neg hu, if_neg (Ne.symm hu), add_zero]

/-- What a record has of a user's amount: a running one its whole plan, a done
one the plan without the refunded surplus, a failed one nothing. -/
def taken (settlements : RequestId → Option SettleArgs) (u : UserId) (f : Field) (id : RequestId)
    (g : GenerationHash) : ℤ :=
  if g.userId = u then
    match g.status with
    | .running => g.plan.field f
    | .done => g.plan.field f - (settlements id).elim 0 (·.refund f)
    | .failed => 0
  else 0

theorem taken_running {σ : RequestId → Option SettleArgs} {u : UserId} {f : Field} {id : RequestId}
    {g : GenerationHash} (h : g.status = .running) : taken σ u f id g = if g.userId = u then g.plan.field f else 0 := by
  simp only [taken, h]

theorem taken_failed {σ : RequestId → Option SettleArgs} {u : UserId} {f : Field} {id : RequestId}
    {g : GenerationHash} (h : g.status = .failed) : taken σ u f id g = 0 := by
  simp only [taken, h, ite_self]

theorem taken_done {σ : RequestId → Option SettleArgs} {u : UserId} {f : Field} {id : RequestId} {g : GenerationHash}
    {a : SettleArgs} (h : g.status = .done) (ha : σ id = some a) :
    taken σ u f id g = if g.userId = u then g.plan.field f - a.refund f else 0 := by
  simp only [taken, h, ha, Option.elim]

/-- What a marker stands for of a user's amount. -/
def credited (topUps : OperationId → Option TopUpArgs) (u : UserId) (f : Field) (o : OperationId) (w : UserId) : ℤ :=
  if w = u then (topUps o).elim 0 (·.amount f) else 0

/-- **The ledger** of an amount of a user. -/
def Balanced (cfg : Config) (tr : List (Trans System Label)) (ρ : Redis) (u : UserId) (f : Field) : Prop :=
  ρ.hot u f + ρ.gen.sum (taken (settleOf cfg tr) u f) =
    (seedOf cfg tr u).elim 0 (·.get f) + ρ.topup.sum (credited (topUpOf cfg tr) u f)

/-- The ledger of every amount; the balances are the loaded ones, the markers
those of the top-ups; and every done record was left by a settlement. -/
structure Ledger (cfg : Config) (tr : List (Trans System Label)) (ρ : Redis) : Prop where
  balanced : ∀ u f, f.IsAmount → Balanced cfg tr ρ u f
  seeded : ∀ u, (ρ.bal.get u).isSome = (seedOf cfg tr u).isSome
  marked : ∀ o, ρ.topup.get o = (topUpOf cfg tr o).map TopUpArgs.userId
  done : ∀ id g, ρ.gen.get id = some g → g.status = .done →
    ∃ S : Settlement, settleOf cfg tr id = some S.args ∧ Settles S id g

/-! ## One step -/

section Step

variable {cfg : Config} {tr : List (Trans System Label)} {t : Trans System Label} {ρ ρ' : Redis}

/-- A transition that runs no settlement, top-up or load, and moves no amount. -/
theorem Ledger.quiet (h : Ledger cfg tr ρ) (h1 : (ran cfg t).bind Ran.settled = none)
    (h2 : (ran cfg t).bind Ran.toppedUp = none) (h3 : (ran cfg t).bind Ran.seeded = none)
    (hg : ρ'.gen = ρ.gen) (ht : ρ'.topup = ρ.topup) (hb : ∀ u f, f.IsAmount → ρ'.hot u f = ρ.hot u f)
    (hk : ∀ u, (ρ'.bal.get u).isSome = (ρ.bal.get u).isSome) : Ledger cfg (t :: tr) ρ' where
  balanced u f hf := by
    have := h.balanced u f hf
    unfold Balanced at this ⊢
    rw [settleOf_none h1, topUpOf_none h2, seedOf_none h3, hg, ht, hb u f hf]
    exact this
  seeded u := by rw [seedOf_none h3, hk, h.seeded]
  marked o := by rw [topUpOf_none h2, ht, h.marked]
  done id g hget hd := by
    rw [settleOf_none h1]
    exact h.done id g (hg ▸ hget) hd

theorem isSome_set {m : Table UserId Balance} {w : UserId} {b c : Balance} (h : m.get w = some c) (u : UserId) :
    ((m.set w b).get u).isSome = (m.get u).isSome := by
  rw [Table.get_set]
  split
  · next hu => rw [hu, h]; rfl
  · rfl

/-- A transition that moves an amount and resolves or makes a record. -/
theorem Ledger.recorded (h : Ledger cfg tr ρ) (h2 : (ran cfg t).bind Ran.toppedUp = none)
    (h3 : (ran cfg t).bind Ran.seeded = none) (ht : ρ'.topup = ρ.topup)
    (hk : ∀ u, (ρ'.bal.get u).isSome = (ρ.bal.get u).isSome)
    (hb : ∀ u f, f.IsAmount → ρ'.hot u f + ρ'.gen.sum (taken (settleOf cfg (t :: tr)) u f) =
      ρ.hot u f + ρ.gen.sum (taken (settleOf cfg tr) u f))
    (hd : ∀ id g, ρ'.gen.get id = some g → g.status = .done →
      ∃ S : Settlement, settleOf cfg (t :: tr) id = some S.args ∧ Settles S id g) : Ledger cfg (t :: tr) ρ' where
  balanced u f hf := by
    have := h.balanced u f hf
    unfold Balanced at this ⊢
    rw [hb u f hf, this, ht, seedOf_none h3, topUpOf_none h2]
  seeded u := by rw [seedOf_none h3, hk, h.seeded]
  marked o := by rw [topUpOf_none h2, ht, h.marked]
  done := hd

theorem Ledger.reserve {a : ReserveArgs} {r : ReserveReply} {x : Ran} (h : Ledger cfg tr ρ) (hx : ran cfg t = some x)
    (hc : x.call = .reserve a) (hr : x.reply = .reserve r) (hok : ReserveOk a ρ r ρ') : Ledger cfg (t :: tr) ρ' := by
  obtain ⟨owner, st, c, r⟩ := x
  cases hc
  cases hr
  have h1 : (ran cfg t).bind Ran.settled = none := by rw [hx]; rfl
  have h2 : (ran cfg t).bind Ran.toppedUp = none := by rw [hx]; rfl
  have h3 : (ran cfg t).bind Ran.seeded = none := by rw [hx]; rfl
  cases hok with
  | dup | missing | conflict => exact h.quiet h1 h2 h3 rfl rfl (fun _ _ _ => rfl) fun _ => rfl
  | @applied c b hn hb hv hp hf =>
    refine h.recorded h2 h3 rfl (isSome_set hb) (fun u f hfa => ?_) fun id g hg hd => ?_
    · have hhot : (ρ.debited a b).hot u f = ρ.hot u f + if a.userId = u then -a.plan.field f else 0 :=
        Redis.hot_moved (δ := fun f => -a.plan.field f) hb rfl
          (fun f => by rw [hf, sub_eq_add_neg]) u hfa
      have hsum : (ρ.gen.set a.clientRequestId a.record).sum (taken (settleOf cfg tr) u f) =
          taken (settleOf cfg tr) u f a.clientRequestId a.record + ρ.gen.sum (taken (settleOf cfg tr) u f) :=
        Table.sum_set_new _ hn fun _ _ _ _ => rfl
      rw [taken_running rfl] at hsum
      rw [settleOf_none h1, hhot]
      show _ + (ρ.gen.set a.clientRequestId a.record).sum _ = _
      have he : a.record.plan = a.plan := rfl
      have hu : a.record.userId = a.userId := rfl
      rw [hsum, he, hu]
      split <;> omega
    · rw [settleOf_none h1]
      have hg : (ρ.gen.set a.clientRequestId a.record).get id = some g := hg
      rw [Table.get_set] at hg
      split at hg
      · cases hg; cases hd
      · exact h.done id g hg hd

/-- A resolution: the record `r` becomes `r'`, which has of the user's amounts
what the balance did not get. -/
theorem Ledger.resolve {id : RequestId} {r r' : GenerationHash} {a : Field → ℤ} (h : Ledger cfg tr ρ)
    (h2 : (ran cfg t).bind Ran.toppedUp = none) (h3 : (ran cfg t).bind Ran.seeded = none) (ht : ρ'.topup = ρ.topup)
    (hk : ∀ u, (ρ'.bal.get u).isSome = (ρ.bal.get u).isSome)
    (hr : ρ.gen.get id = some r) (hrun : r.status = .running) (hg : ρ'.gen = ρ.gen.set id r')
    (hother : ∀ k, k ≠ id → settleOf cfg (t :: tr) k = settleOf cfg tr k)
    (hhot : ∀ u f, f.IsAmount → ρ'.hot u f = ρ.hot u f + if r.userId = u then a f else 0)
    (htaken : ∀ u f, f.IsAmount →
      taken (settleOf cfg (t :: tr)) u f id r' = if r.userId = u then r.plan.field f - a f else 0)
    (hd : r'.status = .done → ∃ S : Settlement, settleOf cfg (t :: tr) id = some S.args ∧ Settles S id r') :
    Ledger cfg (t :: tr) ρ' := by
  refine h.recorded h2 h3 ht hk (fun u f hf => ?_) fun k g hget hdone => ?_
  · have hsum : taken (settleOf cfg tr) u f id r + (ρ.gen.set id r').sum (taken (settleOf cfg (t :: tr)) u f) =
        taken (settleOf cfg (t :: tr)) u f id r' + ρ.gen.sum (taken (settleOf cfg tr) u f) :=
      Table.sum_set_old _ hr fun k w hne hw => by simp only [taken, hother k hne]
    rw [taken_running hrun, htaken u f hf] at hsum
    rw [hg, hhot u f hf]
    split at hsum
    · next hu => rw [if_pos hu]; omega
    · next hu => rw [if_neg hu]; omega
  · rw [hg, Table.get_set] at hget
    split at hget
    · next hki => cases hget; rw [hki]; exact hd hdone
    · next hne => rw [hother k hne]; exact h.done k g hget hdone

theorem Ledger.settle {S : Settlement} {r : SettleReply} {x : Ran} (h : Ledger cfg tr ρ) (hx : ran cfg t = some x)
    (hc : x.call = .settle S.args) (hr : x.reply = .settle r)
    (hrec : ∃ g, ρ.gen.get S.reservation.id = some g ∧ g.Of S.reservation) (hok : SettleOk S.args ρ r ρ') :
    Ledger cfg (t :: tr) ρ' := by
  obtain ⟨owner, st, c, r⟩ := x
  cases hc
  cases hr
  have h2 : (ran cfg t).bind Ran.toppedUp = none := by rw [hx]; rfl
  have h3 : (ran cfg t).bind Ran.seeded = none := by rw [hx]; rfl
  obtain ⟨n, hs⟩ := S.sound
  have hid : S.args.clientRequestId = S.reservation.id := hs.clientRequestId
  have applied : ∀ g, r = .ok → ρ.gen.get S.args.clientRequestId = some g → g.status = .running →
      ρ'.gen = ρ.gen.set S.args.clientRequestId (S.args.record g) → ρ'.topup = ρ.topup →
      (∀ u f, f.IsAmount → ρ'.hot u f = ρ.hot u f + if S.args.userId = u then S.args.refund f else 0) →
      (∀ u, (ρ'.bal.get u).isSome = (ρ.bal.get u).isSome) → Ledger cfg (t :: tr) ρ' := by
    rintro g rfl hg hrun hgen ht hhot hk
    have h1 : (ran cfg t).bind Ran.settled = some (S.args.clientRequestId, S.args) := by rw [hx]; rfl
    obtain ⟨g', hg', hof⟩ := hrec
    rw [hid, hg'] at hg
    obtain rfl := Option.some.inj hg
    have hu : S.args.userId = g'.userId := hs.userId.trans hof.userId.symm
    have hnew : settleOf cfg (t :: tr) S.args.clientRequestId = some S.args := by
      rw [settleOf_some h1, if_pos rfl]
    refine h.resolve (a := S.args.refund) h2 h3 ht hk (hid ▸ hg') hrun hgen (fun k hne => ?_) (fun u f hf => ?_) (fun u f hf => ?_)
      fun _ => ⟨S, hnew, hid.symm, hof, rfl⟩
    · rw [settleOf_some h1, if_neg (Ne.symm hne)]
    · rw [hhot u f hf, hu]
    · exact taken_done rfl hnew
  cases hok with
  | absent | done | failed | missing =>
    exact h.quiet (by rw [hx]; rfl) h2 h3 rfl rfl (fun _ _ _ => rfl) fun _ => rfl
  | «exact» hg hrun hf =>
    exact applied _ rfl hg hrun rfl rfl (fun u f _ => by rw [hf, ite_self, add_zero]; rfl) fun _ => rfl
  | surplus hg hrun hsur hb hf =>
    exact applied _ rfl hg hrun rfl rfl (fun u f hfa => Redis.hot_moved hb rfl hf u hfa) (isSome_set hb)

theorem Ledger.refund {a : RefundArgs} {r : RefundReply} {x : Ran} (h : Ledger cfg tr ρ) (hx : ran cfg t = some x)
    (hc : x.call = .refund a) (hr : x.reply = .refund r)
    (hrec : ∃ g, ρ.gen.get a.clientRequestId = some g ∧ a.plan = g.plan ∧ a.userId = g.userId)
    (hok : RefundOk a ρ r ρ') : Ledger cfg (t :: tr) ρ' := by
  obtain ⟨owner, st, c, r⟩ := x
  cases hc
  cases hr
  have h1 : (ran cfg t).bind Ran.settled = none := by rw [hx]; rfl
  have h2 : (ran cfg t).bind Ran.toppedUp = none := by rw [hx]; rfl
  have h3 : (ran cfg t).bind Ran.seeded = none := by rw [hx]; rfl
  cases hok with
  | stale | missing => exact h.quiet h1 h2 h3 rfl rfl (fun _ _ _ => rfl) fun _ => rfl
  | applied hg hrun hb hf =>
    obtain ⟨g, hg', hp, hu⟩ := hrec
    rw [hg'] at hg
    cases hg
    refine h.resolve (a := a.plan.field) h2 h3 rfl (isSome_set hb) hg' hrun rfl
      (fun k _ => by rw [settleOf_none h1]) (fun u f hfa => ?_) (fun u f _ => ?_) fun hd => by cases hd
    · rw [← hu]
      exact Redis.hot_moved hb rfl hf u hfa
    · rw [taken_failed rfl, hp, sub_self, ite_self]

theorem Ledger.topUp {a : TopUpArgs} {r : TopUpReply} {x : Ran} (h : Ledger cfg tr ρ) (hx : ran cfg t = some x)
    (hc : x.call = .topUp a) (hr : x.reply = .topUp r) (hok : TopUpOk a ρ r ρ') : Ledger cfg (t :: tr) ρ' := by
  obtain ⟨owner, st, c, r⟩ := x
  cases hc
  cases hr
  have h1 : (ran cfg t).bind Ran.settled = none := by rw [hx]; rfl
  have h3 : (ran cfg t).bind Ran.seeded = none := by rw [hx]; rfl
  cases hok with
  | dup | missing => exact h.quiet h1 (by rw [hx]; rfl) h3 rfl rfl (fun _ _ _ => rfl) fun _ => rfl
  | @applied c b hm hb hf =>
    have h2 : (ran cfg t).bind Ran.toppedUp = some (a.operationId, a) := by rw [hx]; rfl
    refine ⟨fun u f hfa => ?_, fun u => ?_, fun o => ?_, fun id g hg hd => ?_⟩
    · have hbal := h.balanced u f hfa
      have hhot : ((ρ.credited a.userId b).marked a.operationId a.userId).hot u f = _ :=
        Redis.hot_moved hb rfl hf u hfa
      have hsum : (ρ.topup.set a.operationId a.userId).sum (credited (topUpOf cfg (t :: tr)) u f) =
          credited (topUpOf cfg (t :: tr)) u f a.operationId a.userId +
            ρ.topup.sum (credited (topUpOf cfg tr) u f) :=
        Table.sum_set_new _ hm fun k w hne hw => by
          rw [credited, credited, topUpOf_some h2, if_neg (Ne.symm hne)]
      have hnew : credited (topUpOf cfg (t :: tr)) u f a.operationId a.userId =
          if a.userId = u then a.amount f else 0 := by
        rw [credited, topUpOf_some h2, if_pos rfl]
        rfl
      unfold Balanced at hbal ⊢
      rw [settleOf_none h1, seedOf_none h3, hhot]
      show _ + ρ.gen.sum _ = _ + (ρ.topup.set a.operationId a.userId).sum _
      rw [hsum, hnew]
      omega
    · rw [seedOf_none h3, ← h.seeded]
      exact isSome_set hb u
    · rw [topUpOf_some h2]
      show (ρ.topup.set a.operationId a.userId).get o = _
      rw [Table.get_set]
      by_cases ho : o = a.operationId
      · rw [if_pos ho, if_pos ho.symm]; rfl
      · rw [if_neg ho, if_neg (Ne.symm ho), h.marked]
    · rw [settleOf_none h1]
      exact h.done id g hg hd

theorem Ledger.seed {w : UserId} {b : Balance} {x : Ran} (h : Ledger cfg tr ρ) (hx : ran cfg t = some x)
    (hc : x.call = .seedIfAbsent w b) (hr : x.reply = .flag true) (hn : ρ.bal.get w = none) :
    Ledger cfg (t :: tr) (ρ.putBalance w b) := by
  obtain ⟨owner, st, c, r⟩ := x
  cases hc
  cases hr
  have h1 : (ran cfg t).bind Ran.settled = none := by rw [hx]; rfl
  have h2 : (ran cfg t).bind Ran.toppedUp = none := by rw [hx]; rfl
  have h3 : (ran cfg t).bind Ran.seeded = some (w, b) := by rw [hx]; rfl
  have hseed : ∀ u, seedOf cfg (t :: tr) u = if w = u then some b else seedOf cfg tr u := seedOf_some h3
  refine ⟨fun u f hfa => ?_, fun u => ?_, fun o => ?_, fun id g hg hd => ?_⟩
  · have hbal := h.balanced u f hfa
    unfold Balanced at hbal ⊢
    rw [settleOf_none h1, topUpOf_none h2, hseed, Redis.hot_set (ρ := ρ) (w := w) (b := b) rfl]
    show _ + ρ.gen.sum _ = _ + ρ.topup.sum _
    by_cases hu : w = u
    · subst hu
      -- Nothing was loaded for the user before.
      have hnone : seedOf cfg tr w = none := by
        have := h.seeded w
        rw [hn] at this
        simpa using this.symm
      have hzero : ρ.hot w f = 0 := by simp [Redis.hot, hn]
      rw [hnone, hzero] at hbal
      rw [if_pos rfl, if_pos rfl]
      simp only [Option.elim] at hbal ⊢
      omega
    · rw [if_neg (Ne.symm hu), if_neg hu]
      exact hbal
  · show ((ρ.bal.set w b).get u).isSome = _
    rw [hseed, Table.get_set]
    by_cases hu : u = w
    · simp only [if_pos hu, if_pos hu.symm, Option.isSome_some]
    · rw [if_neg hu, if_neg (Ne.symm hu), h.seeded]
  · rw [topUpOf_none h2]
    exact h.marked o
  · rw [settleOf_none h1]
    exact h.done id g hg hd

/-- **One request keeps the ledger.** -/
theorem Ledger.call {s : System} {x : Ran} (h : Ledger cfg tr s.redis) (hs : s.Kept fun _ => True) (hx : ran cfg t = some x)
    (hheld : s.Holds x.owner x.st) (hsend : Sends x.st x.call) (hok : CallOk s.redis x.call x.reply ρ') :
    Ledger cfg (t :: tr) ρ' := by
  obtain ⟨owner, st, c, r⟩ := x
  simp only at hheld hsend hok
  have quiet : ((Ran.mk owner st c r).settled = none) → ((Ran.mk owner st c r).toppedUp = none) →
      ((Ran.mk owner st c r).seeded = none) → ρ'.gen = s.redis.gen → ρ'.topup = s.redis.topup →
      (∀ u f, f.IsAmount → ρ'.hot u f = s.redis.hot u f) →
      (∀ u, (ρ'.bal.get u).isSome = (s.redis.bal.get u).isSome) → Ledger cfg (t :: tr) ρ' :=
    fun h1 h2 h3 => h.quiet (by rw [hx]; exact h1) (by rw [hx]; exact h2) (by rw [hx]; exact h3)
  cases hok with
  | load | getGeneration | staleInflight | dirtyUsers | acquired | notAcquired | released | notReleased
  | notSeeded | notAdvanced | cleared | notCleared | forgot =>
    exact quiet rfl rfl rfl rfl rfl (fun _ _ _ => rfl) fun _ => rfl
  | @advanced u n b hb =>
    refine quiet rfl rfl rfl rfl rfl (fun w f hf => ?_) (isSome_set hb)
    have hhot : (s.redis.credited u (b.withVersion n)).hot w f = _ := Redis.hot_set rfl w f
    rw [hhot]
    split
    · next hw =>
      rw [hw, Redis.hot_of_get hb]
      cases f <;> first | rfl | exact absurd rfl hf
    · rfl
  | seeded hb => exact h.seed hx rfl rfl hb
  | reserve hr => exact h.reserve hx rfl rfl hr
  | @settle a r ρ' hr =>
    obtain ⟨S, hS, rfl⟩ := hsend.of_settle
    exact h.settle hx rfl rfl (hs.owned _ st _ hheld (Proc.settlement_owned hS) trivial) hr
  | @refund a r ρ' hr =>
    exact h.refund hx rfl rfl (hs.refund _ st _ hheld hsend.of_refund trivial) hr
  | topUp hr => exact h.topUp hx rfl rfl hr

/-- **One step keeps the ledger.** -/
theorem StepCase.ledger {s s' : System} {l : Label} (h : StepCase cfg s l s') (hs : s.Kept fun _ => True)
    (hL : Ledger cfg tr s.redis) (hl : lasting cfg ⟨s, l, s'⟩ = true) :
    Ledger cfg (⟨s, l, s'⟩ :: tr) s'.redis := by
  simp only [lasting, Bool.and_eq_true] at hl
  obtain ⟨hk, hi⟩ := healthy_keeps hl.1
  have quiet : ran cfg ⟨s, l, s'⟩ = none → s'.redis.gen = s.redis.gen → s'.redis.topup = s.redis.topup →
      s'.redis.bal = s.redis.bal → Ledger cfg (⟨s, l, s'⟩ :: tr) s'.redis := fun hn hg ht hb =>
    hL.quiet (by rw [hn]; rfl) (by rw [hn]; rfl) (by rw [hn]; rfl) hg ht
      (fun u f _ => by unfold Redis.hot; rw [hb]) fun u => by rw [hb]
  cases h.store with
  | same hn he => exact quiet hn (by rw [he]) (by rw [he]) (by rw [he])
  | expired hn he => exact quiet hn (he.gen_eq hl.2).1 (he.gen_eq hl.2).2 (he.bal hk)
  | ran hx hheld ha he => exact hL.call hs hx hheld (Proc.sends ha) (callOk_of_ran hx hi he)

end Step

theorem Runs.ledger {pg : Rows} {cfg : Config} {tr : List (Trans System Label)} {s : System}
    (hr : Runs cfg (.start pg) tr s) (hl : ∀ t ∈ tr, lasting cfg t = true) : Ledger cfg tr s.redis := by
  refine hr.invariant_history (I := fun tr s => Ledger cfg tr s.redis) hl ?_ fun hr hl hL hstep ht => ?_
  · refine ⟨fun u f _ => ?_, fun u => rfl, fun o => rfl, fun id g hg => (by cases hg)⟩
    simp [Balanced, Redis.hot, System.start, Redis.empty, seedOf, latest]
  · exact (step_cases hstep).ledger (Runs.kept hr fun t ht => Recording.of_lasting (hl t ht)) hL ht

/-! ## Every run -/

/-- **Conservation.** As long as nothing that is kept is lost and all sums are in
range: for every user and amount, the hot balance, with the plans of running
records and what done records kept of theirs, is the loaded balance with the
top-ups whose markers are set; and what a done record kept of its plan is what
its settlement did not give back. -/
theorem conservation {cfg : Config} {pg : Rows} {tr : List (Trans System Label)} {s : System}
    (hr : Runs cfg (.start pg) tr s) (hl : ∀ t ∈ tr, lasting cfg t = true) :
    (∀ u f, f.IsAmount →
      s.redis.hot u f + s.redis.gen.sum (taken (settleOf cfg tr) u f) =
        (seedOf cfg tr u).elim 0 (·.get f) + s.redis.topup.sum (credited (topUpOf cfg tr) u f)) ∧
    (∀ u, (s.redis.bal.get u).isSome = (seedOf cfg tr u).isSome) ∧
    (∀ o, s.redis.topup.get o = (topUpOf cfg tr o).map TopUpArgs.userId) ∧
    ∀ id g, s.redis.gen.get id = some g → g.status = .done →
      ∃ a, settleOf cfg tr id = some a ∧ a.userId = g.userId ∧ a.refund .freeRequests = 0 ∧
        g.refundedSurplusUsd = some (a.refund .freeUsd + a.refund .bonusUsd + a.refund .paidUsd) := by
  have h := Runs.ledger hr hl
  refine ⟨h.balanced, h.seeded, h.marked, fun id g hg hd => ?_⟩
  obtain ⟨S, hS, -, hof, hrec⟩ := h.done id g hg hd
  obtain ⟨n, hs⟩ := S.sound
  refine ⟨S.args, hS, hs.userId.trans hof.userId.symm, rfl, ?_⟩
  rw [← hrec]
  exact congrArg some hs.surplus

/-- A generation that costs five cents of the twenty reserved, and a top-up of
half a dollar: the balance is what the two leave. -/
theorem conservation_premium :
    ∃ tr s, Runs {} (.start dollarRows) tr s ∧ s.redis.hot 1 .paidUsd = 1450000 ∧
      s.redis.hot 1 .paidUsd + s.redis.gen.sum (taken (settleOf {} tr) 1 .paidUsd) =
        (seedOf {} tr 1).elim 0 (·.get .paidUsd) + s.redis.topup.sum (credited (topUpOf {} tr) 1 .paidUsd) := by
  obtain ⟨tr, s, hr, h⟩ := Runs.of_schedule {} (.start dollarRows)
    (.spawn 0 (.gen (premium 1 5)) :: coldLoad 0 ++
      [.exec 0 [] 0, .provider 0, .provided 0 (.result "ok" (.finite ⟨5, -2⟩)), .exec 0 [] 0,
        .spawn 1 (.topUp ⟨9, 1, ⟨5, -1⟩, 0, 0⟩), .exec 1 [] 0])
    (fun tr s => tr.all (lasting {}) && s.redis.hot 1 .paidUsd == 1450000) (by decide +kernel)
  simp only [Bool.and_eq_true, List.all_eq_true, beq_iff_eq] at h
  exact ⟨tr, s, hr, h.2, (conservation hr h.1).1 1 .paidUsd (fun h => by cases h)⟩

end GenerationBalance
