/-
The hot store is an escrow bank. A reservation holds its plan on the user's account,
a settlement captures it and gives the surplus back, a refund releases it, and a
top-up is a deposit under its operation.

Every request that a run makes is one request of the bank, and its reply is the
bank's answer: so what the bank never does, no run of the service does.
-/
import GenerationBalance.Escrow
import GenerationBalance.Ledger
import Mathlib.Algebra.Order.Pi

namespace GenerationBalance

open Transition Escrow

/-! ## Amounts -/

abbrev Amounts := Field → ℤ

abbrev HotBank := Bank UserId RequestId OperationId Amounts

/-- A balance without its version. -/
def Balance.amounts (b : Balance) : Amounts := fun f => if f = .version then 0 else b.get f

theorem Balance.amounts_withVersion (b : Balance) (v : ℤ) : (b.withVersion v).amounts = b.amounts := by
  funext f
  cases f <;> rfl

theorem Balance.amounts_moved {b c : Balance} {δ : Amounts} (hδ : δ .version = 0)
    (h : ∀ f, c.get f = b.get f + δ f + if f = .version then 1 else 0) : c.amounts = b.amounts + δ := by
  funext f
  simp only [Balance.amounts, Pi.add_apply]
  split
  · next hf => rw [hf, hδ, add_zero]
  · next hf => rw [h f, if_neg hf, add_zero]

theorem Balance.Nonneg.amounts {b : Balance} (h : b.Nonneg) : 0 ≤ b.amounts := by
  intro f
  simp only [Balance.amounts, Pi.zero_apply]
  split
  · exact le_refl 0
  · next hf => exact h f hf

/-- The dollars of some amounts. -/
def usd : Amounts →+ ℤ where
  toFun a := a .freeUsd + a .bonusUsd + a .paidUsd
  map_zero' := rfl
  map_add' a b := by
    simp only [Pi.add_apply]
    omega

theorem usd_apply (a : Amounts) : usd a = a .freeUsd + a .bonusUsd + a .paidUsd := rfl

theorem usd_mono {a b : Amounts} (h : a ≤ b) : usd a ≤ usd b := by
  have h1 : a .freeUsd ≤ b .freeUsd := h .freeUsd
  have h2 : a .bonusUsd ≤ b .bonusUsd := h .bonusUsd
  have h3 : a .paidUsd ≤ b .paidUsd := h .paidUsd
  rw [usd_apply, usd_apply]
  omega

theorem usd_plan (p : DebitPlan ℤ) : usd p.field = p.totalUsd := rfl

/-! ## Requests and answers -/

/-- The hold a record stands for. -/
inductive HoldOf (g : GenerationHash) : Hold UserId Amounts → Prop
  | held : g.status = .running → HoldOf g (.held g.userId g.plan.field)
  | captured {back : Amounts} : g.status = .done → g.refundedSurplusUsd = some (usd back) →
      g.billedCostUsd = some (usd g.plan.field - usd back) → HoldOf g (.captured g.userId g.plan.field back)
  | released : g.status = .failed → HoldOf g (.released g.userId g.plan.field)

/-- What a request to the store asks of the bank. -/
def Call.asks : Call → Option (Request UserId RequestId OperationId Amounts)
  | .load u => some (.funds u)
  | .seedIfAbsent u b => some (.create u b.amounts)
  | .reserve a => some (.hold a.clientRequestId a.userId a.plan.field)
  | .getGeneration id => some (.lookup id)
  | .settle a => some (.capture a.clientRequestId a.refund)
  | .refund a => some (.release a.clientRequestId)
  | .topUp a => some (.deposit a.operationId a.userId a.amount)
  | _ => none

/-- The reply tells the answer. -/
inductive Reply.Tells : Reply → Answer UserId Amounts → Prop
  | balance {b : Option Balance} : Tells (.balance b) (.funds (b.map Balance.amounts))
  | record {g : Option GenerationHash} {h} : Option.Rel HoldOf g h → Tells (.record g) (.hold h)
  | seeded : Tells (.flag true) .done
  | notSeeded : Tells (.flag false) .known
  | reserved {v} : Tells (.reserve (.ok v)) .done
  | duplicate {g h} : HoldOf g h → Tells (.reserve (.dup g)) (.taken h)
  | conflict {b : Balance} : Tells (.reserve (.conflict b)) (.contended b.amounts)
  | reserveMissing : Tells (.reserve .missing) .noAccount
  | settled : Tells (.settle .ok) .done
  | settledBefore : Tells (.settle .done) .captured
  | settleStale : Tells (.settle .stale) .notHeld
  | settleMissing : Tells (.settle .missing) .noAccount
  | refunded : Tells (.refund .ok) .done
  | refundStale : Tells (.refund .stale) .notHeld
  | refundMissing : Tells (.refund .missing) .noAccount
  | toppedUp : Tells (.topUp .ok) .done
  | toppedUpBefore : Tells (.topUp .dup) .known
  | topUpMissing : Tells (.topUp .missing) .noAccount

/-- What a transition asks of the bank, and the reply it gets. -/
def bankCall (cfg : Config) (t : Trans System Label) : Option (Request UserId RequestId OperationId Amounts × Reply) :=
  (ran cfg t).bind fun x => x.call.asks.map fun q => (q, x.reply)

/-- The request is the same, and the reply tells the answer. -/
def Tells (x : Request UserId RequestId OperationId Amounts × Reply)
    (y : Request UserId RequestId OperationId Amounts × Answer UserId Amounts) : Prop :=
  x.1 = y.1 ∧ x.2.Tells y.2

/-! ## The store as the bank -/

/-- The bank shows what the store has: its accounts are the balances, its holds the
records, and its deposits the top-ups whose markers are set. -/
structure Shows (cfg : Config) (tr : List (Trans System Label)) (ρ : Redis) (b : HotBank) : Prop where
  funds : ∀ u, b.funds.get u = (ρ.bal.get u).map Balance.amounts
  holds : ∀ id, Option.Rel HoldOf (ρ.gen.get id) (b.holds.get id)
  deposits : ∀ o, b.deposits.get o = (topUpOf cfg tr o).map fun a => (a.userId, a.amount)
  marked : ∀ o, ρ.topup.get o = (topUpOf cfg tr o).map TopUpArgs.userId
  opened : ∀ u, b.opened.get u = (seedOf cfg tr u).map Balance.amounts

section Step

variable {cfg : Config} {tr : List (Trans System Label)} {t : Trans System Label} {ρ ρ' : Redis} {b b' : HotBank}

theorem Shows.funds_some (h : Shows cfg tr ρ b) {u : UserId} {c : Balance} (hc : ρ.bal.get u = some c) :
    b.funds.get u = some c.amounts := by
  rw [h.funds, hc, Option.map_some]

theorem Shows.funds_none (h : Shows cfg tr ρ b) {u : UserId} (hc : ρ.bal.get u = none) : b.funds.get u = none := by
  rw [h.funds, hc, Option.map_none]

theorem Shows.hold_some (h : Shows cfg tr ρ b) {id : RequestId} {g : GenerationHash} (hg : ρ.gen.get id = some g) :
    ∃ x, b.holds.get id = some x ∧ HoldOf g x := by
  have hrel := h.holds id
  rw [hg] at hrel
  generalize b.holds.get id = y at hrel
  cases hrel with
  | some hx => exact ⟨_, rfl, hx⟩

theorem Shows.hold_none (h : Shows cfg tr ρ b) {id : RequestId} (hg : ρ.gen.get id = none) :
    b.holds.get id = none := by
  have hrel := h.holds id
  rw [hg] at hrel
  generalize b.holds.get id = y at hrel
  cases hrel
  rfl

theorem HoldOf.running {g : GenerationHash} {x : Hold UserId Amounts} (h : HoldOf g x) (hr : g.status = .running) :
    x = .held g.userId g.plan.field := by
  cases h with
  | held => rfl
  | captured hd => rw [hr] at hd; cases hd
  | released hf => rw [hr] at hf; cases hf

theorem Shows.running (h : Shows cfg tr ρ b) {id : RequestId} {g : GenerationHash} (hg : ρ.gen.get id = some g)
    (hr : g.status = .running) : b.holds.get id = some (.held g.userId g.plan.field) := by
  obtain ⟨x, hx, hof⟩ := h.hold_some hg
  rw [hx, hof.running hr]

theorem Shows.funds_set (h : Shows cfg tr ρ b) {u : UserId} {c : Balance} {x : Amounts} (hx : x = c.amounts)
    (w : UserId) : (b.funds.set u x).get w = ((ρ.bal.set u c).get w).map Balance.amounts := by
  simp only [Table.get_set]
  split
  · rw [hx, Option.map_some]
  · exact h.funds w

theorem Shows.holds_set (h : Shows cfg tr ρ b) {id : RequestId} {g : GenerationHash} {x : Hold UserId Amounts}
    (hx : HoldOf g x) (j : RequestId) : Option.Rel HoldOf ((ρ.gen.set id g).get j) ((b.holds.set id x).get j) := by
  simp only [Table.get_set]
  split
  · exact .some hx
  · exact h.holds j

/-- A transition that makes no deposit and opens no account. -/
theorem Shows.next (h : Shows cfg tr ρ b) (h1 : (ran cfg t).bind Ran.toppedUp = none)
    (h2 : (ran cfg t).bind Ran.seeded = none) (ht : ρ'.topup = ρ.topup)
    (hd : b'.deposits = b.deposits) (ho : b'.opened = b.opened)
    (hf : ∀ u, b'.funds.get u = (ρ'.bal.get u).map Balance.amounts)
    (hh : ∀ id, Option.Rel HoldOf (ρ'.gen.get id) (b'.holds.get id)) : Shows cfg (t :: tr) ρ' b' where
  funds := hf
  holds := hh
  deposits o := by rw [topUpOf_none h1, hd, h.deposits]
  marked o := by rw [topUpOf_none h1, ht, h.marked]
  opened u := by rw [seedOf_none h2, ho, h.opened]

/-- The bank answers the request as the reply tells, and shows the store after it. -/
def Answers (cfg : Config) (tr : List (Trans System Label)) (b : HotBank) (c : Call) (r : Reply) (ρ : Redis) : Prop :=
  match c.asks with
  | none => Shows cfg tr ρ b
  | some q => ∃ a b', Serves b q a b' ∧ r.Tells a ∧ Shows cfg tr ρ b'

theorem Shows.reserve {a : ReserveArgs} {r : ReserveReply} (h : Shows cfg tr ρ b) (hok : ReserveOk a ρ r ρ')
    (h1 : (ran cfg t).bind Ran.toppedUp = none) (h2 : (ran cfg t).bind Ran.seeded = none)
    (hle : ∀ v c, r = .ok v → ρ.bal.get a.userId = some c → a.plan.field ≤ c.amounts) :
    Answers cfg (t :: tr) b (.reserve a) (.reserve r) ρ' := by
  have same : Shows cfg (t :: tr) ρ b := h.next h1 h2 rfl rfl rfl h.funds h.holds
  cases hok with
  | dup hg =>
    obtain ⟨x, hx, hof⟩ := h.hold_some hg
    exact ⟨_, _, .taken hx, .duplicate hof, same⟩
  | missing hg hb => exact ⟨_, _, .holdNowhere (h.hold_none hg) (h.funds_none hb), .reserveMissing, same⟩
  | conflict hg hb => exact ⟨_, _, .contended (h.hold_none hg) (h.funds_some hb), .conflict, same⟩
  | @applied c b₁ hg hb hv hp hf =>
    have hmoved : b₁.amounts = c.amounts + -a.plan.field :=
      Balance.amounts_moved rfl fun f => by rw [hf f, sub_eq_add_neg, Pi.neg_apply]
    rw [← sub_eq_add_neg] at hmoved
    refine ⟨_, _, .held (h.hold_none hg) (h.funds_some hb) hp (hle _ _ rfl hb), .reserved, ?_⟩
    exact h.next h1 h2 rfl rfl rfl (h.funds_set hmoved.symm) (h.holds_set (.held rfl))

theorem Shows.settle {S : Settlement} {r : SettleReply} (h : Shows cfg tr ρ b) (hok : SettleOk S.args ρ r ρ')
    (h1 : (ran cfg t).bind Ran.toppedUp = none) (h2 : (ran cfg t).bind Ran.seeded = none)
    (hrec : ∃ g, ρ.gen.get S.reservation.id = some g ∧ g.Of S.reservation) :
    Answers cfg (t :: tr) b (.settle S.args) (.settle r) ρ' := by
  have same : Shows cfg (t :: tr) ρ b := h.next h1 h2 rfl rfl rfl h.funds h.holds
  obtain ⟨n, hs⟩ := S.sound
  have hid : S.args.clientRequestId = S.reservation.id := hs.clientRequestId
  have hsame : ∀ {g}, ρ.gen.get S.args.clientRequestId = some g → g.Of S.reservation ∧ S.args.userId = g.userId := by
    intro g hg
    obtain ⟨g', hg', hof⟩ := hrec
    rw [hid, hg'] at hg
    cases hg
    exact ⟨hof, hs.userId.trans hof.userId.symm⟩
  have hle : ∀ {g : GenerationHash}, g.Of S.reservation → S.args.refund ≤ g.plan.field := by
    intro g hof f
    rw [hof.plan]
    exact hs.refund_le f
  have hcaptured : ∀ {g : GenerationHash}, g.Of S.reservation →
      HoldOf (S.args.record g) (.captured g.userId g.plan.field S.args.refund) := by
    intro g hof
    refine .captured (g := S.args.record g) rfl (congrArg some hs.surplus) (congrArg some ?_)
    have htotal := hs.total
    show S.args.billedCostUsd = usd g.plan.field - usd S.args.refund
    rw [hof.plan, usd_plan, hs.billed, usd_apply]
    show n = _ - (S.args.refundFree + S.args.refundBonus + S.args.refundPaid)
    omega
  cases hok with
  | absent hg =>
    refine ⟨_, _, .captureTooLate fun x hx => ?_, .settleStale, same⟩
    rw [h.hold_none hg] at hx
    cases hx
  | done hg hd =>
    obtain ⟨x, hx, hof⟩ := h.hold_some hg
    cases hof with
    | captured => exact ⟨_, _, .recaptured hx, .settledBefore, same⟩
    | held hr => rw [hr] at hd; cases hd
    | released hf => rw [hf] at hd; cases hd
  | failed hg hf =>
    obtain ⟨x, hx, hof⟩ := h.hold_some hg
    cases hof with
    | released => exact ⟨_, _, .captureTooLate fun y hy => by rw [hx] at hy; cases hy; exact ⟨_, _, rfl⟩, .settleStale, same⟩
    | held hr => rw [hr] at hf; cases hf
    | captured hd => rw [hd] at hf; cases hf
  | missing hg hr hsur hb =>
    rw [(hsame hg).2] at hb
    refine ⟨_, _, .captureNowhere (h.running hg hr) (fun hzero => ?_) (h.funds_none hb), .settleMissing, same⟩
    have h1 := congrFun hzero .freeUsd
    have h2 := congrFun hzero .bonusUsd
    have h3 := congrFun hzero .paidUsd
    simp only [SettleArgs.refund, Pi.zero_apply] at h1 h2 h3
    simp [SettleArgs.hasSurplus, h1, h2, h3] at hsur
  | @«exact» g hg hr hzero =>
    have hback : S.args.refund = 0 := funext hzero
    have hof := (hsame hg).1
    have hnonneg : 0 ≤ g.plan.field := hback ▸ hle hof
    have hserves := Serves.kept (h.running hg hr) hnonneg
    rw [← hback] at hserves
    exact ⟨_, _, hserves, .settled, h.next h1 h2 rfl rfl rfl h.funds (h.holds_set (hcaptured hof))⟩
  | @surplus g c b₁ hg hr hsur hb hf =>
    have hof := (hsame hg).1
    rw [(hsame hg).2] at hb
    refine ⟨_, _, .captured (h.running hg hr) (h.funds_some hb) hs.refund_nonneg (hle hof), .settled, ?_⟩
    refine h.next h1 h2 rfl rfl rfl ?_ (h.holds_set (hcaptured hof))
    rw [← (hsame hg).2]
    exact h.funds_set (Balance.amounts_moved rfl hf).symm

theorem Shows.refund {a : RefundArgs} {r : RefundReply} (h : Shows cfg tr ρ b) (hok : RefundOk a ρ r ρ')
    (h1 : (ran cfg t).bind Ran.toppedUp = none) (h2 : (ran cfg t).bind Ran.seeded = none)
    (hrec : ∃ g, ρ.gen.get a.clientRequestId = some g ∧ a.plan = g.plan ∧ a.userId = g.userId) :
    Answers cfg (t :: tr) b (.refund a) (.refund r) ρ' := by
  have same : Shows cfg (t :: tr) ρ b := h.next h1 h2 rfl rfl rfl h.funds h.holds
  obtain ⟨g, hg, hplan, huser⟩ := hrec
  cases hok with
  | stale hn =>
    refine ⟨_, _, .releaseTooLate fun w x hx => ?_, .refundStale, same⟩
    obtain ⟨y, hy, hof⟩ := h.hold_some hg
    rw [hx] at hy
    cases hy
    cases hof with
    | held hr => exact hn g hg hr
  | missing hg' hr hb =>
    rw [hg] at hg'
    cases hg'
    rw [huser] at hb
    exact ⟨_, _, .releaseNowhere (h.running hg hr) (h.funds_none hb), .refundMissing, same⟩
  | applied hg' hr hb hf =>
    rw [hg] at hg'
    cases hg'
    rw [huser] at hb
    refine ⟨_, _, .released (h.running hg hr) (h.funds_some hb), .refunded, ?_⟩
    refine h.next h1 h2 rfl rfl rfl ?_ (h.holds_set (.released rfl))
    rw [← huser, ← hplan]
    exact h.funds_set (Balance.amounts_moved rfl hf).symm

theorem Shows.topUp {a : TopUpArgs} {r : TopUpReply} {x : Ran} (h : Shows cfg tr ρ b) (hok : TopUpOk a ρ r ρ')
    (hx : ran cfg t = some x) (hc : x.call = .topUp a) (hr : x.reply = .topUp r) (hn : 0 ≤ a.amount) :
    Answers cfg (t :: tr) b (.topUp a) (.topUp r) ρ' := by
  obtain ⟨owner, st, c, r⟩ := x
  cases hc
  cases hr
  have h2 : (ran cfg t).bind Ran.seeded = none := by rw [hx]; rfl
  have hdeposit : ∀ {o}, ρ.topup.get o = none → b.deposits.get o = none := by
    intro o ho
    have := h.marked o
    rw [ho] at this
    rw [h.deposits, Option.map_eq_none_iff.mp this.symm, Option.map_none]
  cases hok with
  | dup hm =>
    have h1 : (ran cfg t).bind Ran.toppedUp = none := by rw [hx]; rfl
    have := h.marked a.operationId
    rw [hm] at this
    obtain ⟨a', ha', -⟩ := Option.map_eq_some_iff.mp this.symm
    refine ⟨_, _, .repeated (y := (a'.userId, a'.amount)) ?_, .toppedUpBefore, ?_⟩
    · rw [h.deposits, ha', Option.map_some]
    · exact h.next h1 h2 rfl rfl rfl h.funds h.holds
  | missing hm hb =>
    have h1 : (ran cfg t).bind Ran.toppedUp = none := by rw [hx]; rfl
    exact ⟨_, _, .depositNowhere (hdeposit hm) (h.funds_none hb), .topUpMissing,
      h.next h1 h2 rfl rfl rfl h.funds h.holds⟩
  | @applied c b₁ hm hb hf =>
    have h1 : (ran cfg t).bind Ran.toppedUp = some (a.operationId, a) := by rw [hx]; rfl
    refine ⟨_, _, .deposited (hdeposit hm) (h.funds_some hb) hn, .toppedUp, ?_⟩
    refine ⟨h.funds_set (Balance.amounts_moved rfl hf).symm, h.holds, fun o => ?_, fun o => ?_, fun u => ?_⟩
    · show (b.deposits.set a.operationId (a.userId, a.amount)).get o = _
      rw [topUpOf_some h1, Table.get_set, h.deposits]
      by_cases ho : o = a.operationId
      · rw [if_pos ho, if_pos ho.symm, Option.map_some]
      · rw [if_neg ho, if_neg (Ne.symm ho)]
    · show (ρ.topup.set a.operationId a.userId).get o = _
      rw [topUpOf_some h1, Table.get_set, h.marked]
      by_cases ho : o = a.operationId
      · rw [if_pos ho, if_pos ho.symm, Option.map_some]
      · rw [if_neg ho, if_neg (Ne.symm ho)]
    · rw [seedOf_none h2]
      exact h.opened u

theorem Shows.seed {u : UserId} {c : Balance} {x : Ran} (h : Shows cfg tr ρ b) (hx : ran cfg t = some x)
    (hc : x.call = .seedIfAbsent u c) (hr : x.reply = .flag true) (hb : ρ.bal.get u = none) (hn : 0 ≤ c.amounts) :
    Answers cfg (t :: tr) b (.seedIfAbsent u c) (.flag true) (ρ.putBalance u c) := by
  obtain ⟨owner, st, c, r⟩ := x
  cases hc
  cases hr
  have h1 : (ran cfg t).bind Ran.toppedUp = none := by rw [hx]; rfl
  have h2 : (ran cfg t).bind Ran.seeded = some (u, c) := by rw [hx]; rfl
  refine ⟨_, _, .created (h.funds_none hb) hn, .seeded, ?_⟩
  refine ⟨h.funds_set rfl, h.holds, fun o => ?_, fun o => ?_, fun w => ?_⟩
  · rw [topUpOf_none h1]
    exact h.deposits o
  · rw [topUpOf_none h1]
    exact h.marked o
  · show (b.opened.set u c.amounts).get w = _
    rw [seedOf_some h2, Table.get_set, h.opened]
    by_cases hw : w = u
    · rw [if_pos hw, if_pos hw.symm, Option.map_some]
    · rw [if_neg hw, if_neg (Ne.symm hw)]

/-- **A request is the bank's.** -/
theorem StepCase.answers {s s' : System} {l : Label} {x : Ran} (hstep : StepCase cfg s l s') (hk : s.Kept fun _ => True)
    (hn : s.Above fun _ => 0) (hc : s.Current) (h : Shows cfg tr s.redis b) (hx : ran cfg ⟨s, l, s'⟩ = some x)
    (hheld : s.Holds x.owner x.st) (hsend : Sends x.st x.call) (hok : CallOk s.redis x.call x.reply s'.redis) :
    Answers cfg (⟨s, l, s'⟩ :: tr) b x.call x.reply s'.redis := by
  have hsnap := fun n hr => hc.snapshot (n := n) hstep hx hr
  obtain ⟨owner, st, c, r⟩ := x
  simp only at hheld hsend hok hsnap ⊢
  have quiet : (Ran.mk owner st c r).toppedUp = none → (Ran.mk owner st c r).seeded = none →
      s'.redis.topup = s.redis.topup → (∀ u, b.funds.get u = (s'.redis.bal.get u).map Balance.amounts) →
      s'.redis.gen = s.redis.gen → Shows cfg (⟨s, l, s'⟩ :: tr) s'.redis b := by
    intro h1 h2 ht hf hg
    refine h.next (by rw [hx]; exact h1) (by rw [hx]; exact h2) ht rfl rfl hf fun id => ?_
    rw [hg]
    exact h.holds id
  generalize hρ : s'.redis = ρ' at hok quiet ⊢
  cases hok with
  | load u =>
    refine ⟨_, b, .funds, ?_, quiet rfl rfl rfl h.funds rfl⟩
    rw [h.funds]
    exact .balance
  | getGeneration id => exact ⟨_, b, .lookup, .record (h.holds id), quiet rfl rfl rfl h.funds rfl⟩
  | seeded hb =>
    have hnn := (hn.held _ _ hheld).seed _ _ _ hsend.of_seed.choose_spec
    exact h.seed hx rfl rfl hb (Balance.Nonneg.amounts hnn)
  | notSeeded hb => exact ⟨_, b, .open (h.funds_some hb), .notSeeded, quiet rfl rfl rfl h.funds rfl⟩
  | @advanced u n c hb =>
    refine quiet rfl rfl rfl (fun w => ?_) rfl
    show _ = ((s.redis.bal.set u (c.withVersion n)).get w).map Balance.amounts
    rw [Table.get_set, h.funds]
    split
    · next hw => rw [hw, hb, Option.map_some, Option.map_some, Balance.amounts_withVersion]
    · rfl
  | @reserve a r ρ' hr =>
    refine h.reserve hr (by rw [hx]; rfl) (by rw [hx]; rfl) fun n c hrn hb => ?_
    cases hrn
    obtain ⟨v, -, -, hcall, hget, -, -⟩ := hsnap n rfl
    cases hcall
    cases hget.symm.trans hb
    intro f
    by_cases hf : f = .version
    · subst hf
      exact le_refl 0
    · simp only [Balance.amounts, if_neg hf]
      exact v.sound.within f hf
  | @settle a r ρ' hr =>
    obtain ⟨S, hS, rfl⟩ := hsend.of_settle
    exact h.settle hr (by rw [hx]; cases r <;> rfl) (by rw [hx]; cases r <;> rfl)
      (hk.owned _ st _ hheld (Proc.settlement_owned hS) trivial)
  | @refund a r ρ' hr =>
    exact h.refund hr (by rw [hx]; cases r <;> rfl) (by rw [hx]; cases r <;> rfl)
      (hk.refund _ st _ hheld hsend.of_refund trivial)
  | topUp hr =>
    obtain ⟨T, -, rfl⟩ := hsend.of_topUp
    exact h.topUp hr hx rfl rfl T.of.nonneg
  | staleInflight | dirtyUsers | acquired | notAcquired | released | notReleased | notAdvanced | cleared | notCleared
  | forgot =>
    exact quiet rfl rfl rfl h.funds rfl

/-- **One step** is a request of the bank, or leaves it as it is. -/
theorem StepCase.shows {s s' : System} {l : Label} (hstep : StepCase cfg s l s') (hk : s.Kept fun _ => True)
    (hn : s.Above fun _ => 0) (hc : s.Current) (hl : lasting cfg ⟨s, l, s'⟩ = true) (h : Shows cfg tr s.redis b) :
    bankCall cfg ⟨s, l, s'⟩ = none ∧ Shows cfg (⟨s, l, s'⟩ :: tr) s'.redis b ∨
      ∃ q r a b', bankCall cfg ⟨s, l, s'⟩ = some (q, r) ∧ Serves b q a b' ∧ r.Tells a ∧
        Shows cfg (⟨s, l, s'⟩ :: tr) s'.redis b' := by
  simp only [lasting, Bool.and_eq_true] at hl
  obtain ⟨hkeeps, hi⟩ := healthy_keeps hl.1
  have quiet : ran cfg ⟨s, l, s'⟩ = none → s'.redis.bal = s.redis.bal → s'.redis.gen = s.redis.gen →
      s'.redis.topup = s.redis.topup → bankCall cfg ⟨s, l, s'⟩ = none ∧ Shows cfg (⟨s, l, s'⟩ :: tr) s'.redis b := by
    intro hr hb hg ht
    refine ⟨by rw [bankCall, hr]; rfl, h.next (by rw [hr]; rfl) (by rw [hr]; rfl) ht rfl rfl (fun u => ?_) fun id => ?_⟩
    · rw [hb]
      exact h.funds u
    · rw [hg]
      exact h.holds id
  cases hstep.store with
  | same hr he => exact .inl (quiet hr (by rw [he]) (by rw [he]) (by rw [he]))
  | expired hr he => exact .inl (quiet hr (he.bal hkeeps) (he.gen_eq hl.2).1 (he.gen_eq hl.2).2)
  | @ran x pick hx hheld ha he =>
    have hans := hstep.answers hk hn hc h hx hheld (Proc.sends ha) (callOk_of_ran hx hi he)
    have hasked : bankCall cfg ⟨s, l, s'⟩ = x.call.asks.map fun q => (q, x.reply) := by rw [bankCall, hx]; rfl
    unfold Answers at hans
    cases hq : x.call.asks with
    | none =>
      rw [hq] at hans hasked
      exact .inl ⟨hasked, hans⟩
    | some q =>
      rw [hq] at hans hasked
      obtain ⟨a, b', hs, ht, hb'⟩ := hans
      exact .inr ⟨q, x.reply, a, b', hasked, hs, ht, hb'⟩

end Step

/-! ## Every run -/

theorem shows_start (cfg : Config) : Shows cfg [] .empty .empty where
  funds _ := rfl
  holds _ := .none
  deposits _ := rfl
  marked _ := rfl
  opened _ := rfl

/-- **The hot store is the bank.** From rows that are not negative, as long as nothing
that is kept is lost and all sums are in range: the requests of a run, in the order
Redis executed them, are a history of the bank that answers each as its reply tells,
and the store is what that bank shows. -/
theorem bank_refined {cfg : Config} {pg : Rows} {tr : List (Trans System Label)} {s : System}
    (hr : Runs cfg (.start pg) tr s) (hl : ∀ t ∈ tr, lasting cfg t = true)
    (hpg : ∀ u b, pg.get u = some b → b.Nonneg) :
    ∃ h b, Escrow.History h b ∧ List.Forall₂ Tells (tr.filterMap (bankCall cfg)) h ∧ Shows cfg tr s.redis b := by
  refine hr.invariant_history (I := fun tr s => ∃ h b, Escrow.History h b ∧ List.Forall₂ Tells (tr.filterMap (bankCall cfg)) h ∧
    Shows cfg tr s.redis b) hl ⟨[], .empty, .nil, .nil, shows_start cfg⟩ ?_
  intro tr s l s' hr hl ⟨h, b, hh, htells, hshows⟩ hstep ht
  have hhealthy : ∀ t ∈ tr, healthy cfg t = true := by
    intro t ht
    have := hl t ht
    simp only [lasting, Bool.and_eq_true] at this
    exact this.1
  have hk : s.Kept fun _ => True := Runs.kept hr fun t ht => Recording.of_lasting (hl t ht)
  have hn : s.Above fun _ => 0 := Runs.above hr hhealthy (fun _ => le_refl 0) hpg
  rcases (step_cases hstep).shows hk hn (Runs.current hr hhealthy) ht hshows with
    ⟨hnone, hb⟩ | ⟨q, r, a, b', hsome, hserves, htell, hb⟩
  · refine ⟨h, b, hh, ?_, hb⟩
    rw [List.filterMap_cons_none hnone]
    exact htells
  · refine ⟨(q, a) :: h, b', .serve hh hserves, ?_, hb⟩
    rw [List.filterMap_cons_some hsome]
    exact .cons ⟨rfl, htell⟩ htells

/-- A premium generation that costs five cents of the twenty reserved, and a top-up of half
a dollar. -/
def fiveCentSale : List Label :=
  .spawn 0 (.gen (premium 1 5)) :: coldLoad 0 ++
    [.exec 0 [] 0, .provider 0, .provided 0 (.result "ok" (.finite ⟨5, -2⟩)), .exec 0 [] 0,
      .spawn 1 (.topUp ⟨9, 1, ⟨5, -1⟩, 0, 0⟩), .exec 1 [] 0]

theorem dollarRows_nonneg {u : UserId} {b : Balance} (h : dollarRows.get u = some b) : b.Nonneg :=
  dollarRows_get h ▸ oneDollar_nonneg

/-- The bank is asked seven times: for the funds before the load, after the lock and after
the load, for the account, the hold, its capture and the deposit. -/
theorem bank_refined_premium :
    ∃ tr s h b, Runs {} (.start dollarRows) tr s ∧ Escrow.History h b ∧ List.Forall₂ Tells (tr.filterMap (bankCall {})) h ∧
      h.length = 7 ∧ (b.funds.get 1).map usd = some 1450000 := by
  obtain ⟨tr, s, hr, h⟩ := Runs.of_schedule {} (.start dollarRows) fiveCentSale
    (fun tr s => tr.all (lasting {}) && (tr.filterMap (bankCall {})).length == 7 &&
      (s.redis.bal.get 1).map Balance.totalUsd == some 1450000) (by decide +kernel)
  simp only [Bool.and_eq_true, List.all_eq_true, beq_iff_eq] at h
  obtain ⟨⟨hl, hlen⟩, htotal⟩ := h
  obtain ⟨h, b, hh, htells, hb⟩ := bank_refined hr hl fun u b hb => dollarRows_nonneg hb
  refine ⟨tr, s, h, b, hr, hh, htells, htells.length_eq ▸ hlen, ?_⟩
  rw [hb.funds, Option.map_map]
  exact htotal

/-! ## What users are charged -/

/-- The dollars that a record has and has not given back. -/
def GenerationHash.chargedUsd (g : GenerationHash) : ℤ :=
  match g.status with
  | .running => g.plan.totalUsd
  | .done => g.billedCostUsd.getD 0
  | .failed => 0

theorem HoldOf.usd_kept {g : GenerationHash} {x : Hold UserId Amounts} (h : HoldOf g x) (u : UserId) :
    usd (x.kept u) = if g.userId = u then g.chargedUsd else 0 := by
  cases h with
  | held hr =>
    simp only [Hold.kept, GenerationHash.chargedUsd, hr]
    split
    · exact usd_plan _
    · exact map_zero usd
  | captured hd _ hb =>
    simp only [Hold.kept, GenerationHash.chargedUsd, hd, hb, Option.getD_some]
    split
    · exact map_sub usd _ _
    · exact map_zero usd
  | released hf =>
    simp only [Hold.kept, GenerationHash.chargedUsd, hf, ite_self]
    exact map_zero usd

/-- The dollars of the top-ups that are marked. -/
def creditedUsd (topUps : OperationId → Option TopUpArgs) (u : UserId) (o : OperationId) (w : UserId) : ℤ :=
  if w = u then (topUps o).elim 0 fun a => a.bonusUsd + a.paidUsd else 0

/-- **Nobody is charged more than they were given**: what the running generations of a
user hold and the done ones were charged is at most what was loaded for the user and
topped up. -/
theorem charges_covered {cfg : Config} {pg : Rows} {tr : List (Trans System Label)} {s : System}
    (hr : Runs cfg (.start pg) tr s) (hl : ∀ t ∈ tr, lasting cfg t = true)
    (hpg : ∀ u b, pg.get u = some b → b.Nonneg) (u : UserId) :
    s.redis.gen.sum (fun _ g => if g.userId = u then g.chargedUsd else 0) ≤
      (seedOf cfg tr u).elim 0 Balance.totalUsd + s.redis.topup.sum (creditedUsd (topUpOf cfg tr) u) := by
  obtain ⟨h, b, hh, -, hb⟩ := bank_refined hr hl hpg
  have hcovered := usd_mono (hh.sound.covered u)
  rw [map_add, Table.apply_sum, Table.apply_sum] at hcovered
  have hcharged : s.redis.gen.sum (fun _ g => if g.userId = u then g.chargedUsd else 0) =
      b.holds.sum fun _ x => usd (x.kept u) :=
    Table.sum_rel (R := fun _ => HoldOf) hb.holds fun _ g x hx => (hx.usd_kept u).symm
  have hopened : usd ((b.opened.get u).getD 0) = (seedOf cfg tr u).elim 0 Balance.totalUsd := by
    rw [hb.opened]
    cases seedOf cfg tr u with
    | none => exact map_zero usd
    | some c => rfl
  have hpaid : s.redis.topup.sum (creditedUsd (topUpOf cfg tr) u) = b.deposits.sum fun _ x => usd (paidIn u x) := by
    refine Table.sum_rel (R := fun o w x => ∃ a, topUpOf cfg tr o = some a ∧ w = a.userId ∧ x = (a.userId, a.amount))
      (fun o => ?_) fun o w x hx => ?_
    · rw [hb.marked, hb.deposits]
      cases ho : topUpOf cfg tr o with
      | none => exact .none
      | some a => exact .some ⟨a, rfl, rfl, rfl⟩
    · obtain ⟨a, ha, rfl, rfl⟩ := hx
      simp only [creditedUsd, ha, paidIn, Option.elim]
      split
      · rw [usd_apply]
        show _ = 0 + a.bonusUsd + a.paidUsd
        omega
      · exact (map_zero usd).symm
  rw [hcharged, hpaid, ← hopened]
  exact hcovered

theorem charges_covered_premium :
    ∃ tr s, Runs {} (.start dollarRows) tr s ∧ (s.redis.gen.get 5).map GenerationHash.chargedUsd = some 50000 ∧
      s.redis.gen.sum (fun _ g => if g.userId = 1 then g.chargedUsd else 0) ≤
        (seedOf {} tr 1).elim 0 Balance.totalUsd + s.redis.topup.sum (creditedUsd (topUpOf {} tr) 1) := by
  obtain ⟨tr, s, hr, h⟩ := Runs.of_schedule {} (.start dollarRows) fiveCentSale
    (fun tr s => tr.all (lasting {}) && (s.redis.gen.get 5).map GenerationHash.chargedUsd == some 50000)
    (by decide +kernel)
  simp only [Bool.and_eq_true, List.all_eq_true, beq_iff_eq] at h
  exact ⟨tr, s, hr, h.2, charges_covered hr h.1 (fun u b hb => dollarRows_nonneg hb) 1⟩

end GenerationBalance
