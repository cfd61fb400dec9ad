/-
Records over whole runs of the store: what `reserve`, `settle` and `refund` were
called with is what both readers of a record give back.

The one number that need not come back is an amount `money_to_micros` has rounded:
the authorized cost or the charge, which no sum of the scripts checks.
-/
import GenerationBalance.Decoding
import GenerationBalance.Exactness
import GenerationBalance.Stopped
import Mathlib.Data.Rat.Encodable

namespace GenerationBalance

/-! ## Calls -/

/-- A call of `reserve`, and the token it drew. -/
structure ReserveCall where
  request : GenerationRequest
  expectedVersion : ℤ
  plan : DebitPlan Decimal
  authorizedCostUsd : Decimal
  startedAt : ℚ
  token : Token

structure SettleCall where
  userId : UserId
  clientRequestId : RequestId
  content : String
  billedCostUsd : Decimal
  providerBilledCostUsd : Number
  refund : DebitPlan Decimal

structure RefundCall where
  userId : UserId
  clientRequestId : RequestId
  plan : DebitPlan Decimal
  error : String

def ReserveCall.args (c : ReserveCall) : Except Exn ReserveArgs := do
  let plan ← planArgs c.plan
  let authorizedCostUsd ← moneyToMicros c.authorizedCostUsd
  return {
    expectedVersion := c.expectedVersion
    userId := c.request.userId
    dialogId := c.request.dialogId
    modelName := c.request.modelName
    plan, authorizedCostUsd
    startedAt := c.startedAt
    clientRequestId := c.request.clientRequestId
    reservationToken := c.token }

def SettleCall.args (d : SettleCall) : Except Exn SettleArgs := do
  let billedCostUsd ← moneyToMicros d.billedCostUsd
  let refundFree ← moneyToMicros d.refund.freeUsd
  let refundBonus ← moneyToMicros d.refund.bonusUsd
  let refundPaid ← moneyToMicros d.refund.paidUsd
  let refundedSurplus ← moneyToMicros d.refund.totalUsd
  return {
    content := d.content
    billedCostUsd
    providerBilledCostUsd := d.providerBilledCostUsd
    clientRequestId := d.clientRequestId
    userId := d.userId
    refundFree, refundBonus, refundPaid, refundedSurplus }

def RefundCall.args (e : RefundCall) : Except Exn RefundArgs := do
  let plan ← planArgs e.plan
  return { userId := e.userId, error := e.error, clientRequestId := e.clientRequestId, plan }

/-! ## Runs -/

/-- What a record was written by: the call that reserved it, and the one that ended it. -/
inductive Writers where
  | running (c : ReserveCall)
  | done (c : ReserveCall) (d : SettleCall)
  | failed (c : ReserveCall) (e : RefundCall)

namespace Writers

def status : Writers → GenerationStatus
  | running _ => .running
  | done _ _ => .done
  | failed _ _ => .failed

def reserve : Writers → ReserveCall
  | running c | done c _ | failed c _ => c

def settled : Writers → Option SettleCall
  | done _ d => some d
  | _ => none

def refunded : Writers → Option RefundCall
  | failed _ e => some e
  | _ => none

def settle (d : SettleCall) (x : Writers) : Writers := .done x.reserve d

def refund (e : RefundCall) (x : Writers) : Writers := .failed x.reserve e

end Writers

/-- What happens to the store: calls, and what others do to a balance, and the end of
a record's time to live. -/
inductive Event where
  | reserve (c : ReserveCall)
  | settle (d : SettleCall)
  | refund (e : RefundCall)
  | balance (u : UserId) (b : Balance)
  | expire (id : RequestId)

/-- The store, and what its records were written by. -/
structure RawRun where
  store : RawRedis
  written : Table RequestId Writers

def RawRun.empty : RawRun where
  store := ⟨.empty, ∅, .empty⟩
  written := .empty

/-- The script wrote the record. -/
def answersOk : Except ScriptError (List String) → Bool
  | .ok reply => reply.head? == some "OK"
  | .error _ => false

def Balance.fields (b : Balance) : Fields :=
  Table.empty.setAll [("free_usd", b.freeUsd.repr), ("bonus_usd", b.bonusUsd.repr), ("paid_usd", b.paidUsd.repr),
    ("free_requests", b.freeRequests.repr), ("version", b.version.repr)]

/-- The record `id` is ended by a call. -/
def RawRun.ended (w : RawRun) (id : RequestId) (f : Writers → Writers) : Table RequestId Writers :=
  match w.written.get id with
  | some x => w.written.set id (f x)
  | none => w.written

/-- A call whose amounts are refused sends nothing. -/
def Adapter.step (A : Adapter) (w : RawRun) : Event → RawRun
  | .reserve c =>
    match c.args with
    | .ok a =>
      { store := (A.RESERVE a w.store).2
        written :=
          if answersOk (A.RESERVE a w.store).1 then w.written.set a.clientRequestId (.running c) else w.written }
    | .error _ => w
  | .settle d =>
    match d.args with
    | .ok a =>
      { store := (A.SETTLE a w.store).2
        written := if answersOk (A.SETTLE a w.store).1 then w.ended a.clientRequestId (.settle d) else w.written }
    | .error _ => w
  | .refund e =>
    match e.args with
    | .ok a =>
      { store := (A.REFUND a w.store).2
        written := if answersOk (A.REFUND a w.store).1 then w.ended a.clientRequestId (.refund e) else w.written }
    | .error _ => w
  | .balance u b => { w with store := { w.store with hashes := w.store.hashes.set (A.balanceKey u) b.fields } }
  | .expire id =>
    { store := { w.store with hashes := w.store.hashes.del (A.generationKey id) }
      written := w.written.del id }

def Adapter.run (A : Adapter) (events : List Event) : RawRun := events.foldl A.step .empty

/-! ## What is given back -/

/-- The record tells the reservation. -/
structure ReserveCall.GivenBack (c : ReserveCall) (g : GenerationRecord) : Prop where
  userId : g.userId = c.request.userId
  dialogId : g.dialogId = c.request.dialogId
  modelName : g.modelName = c.request.modelName
  plan : ∀ k, (g.plan.bucket k).toRat = (c.plan.bucket k).toRat
  freeRequests : g.plan.freeRequests = c.plan.freeRequests
  authorizedCostUsd : g.authorizedCostUsd.toRat = c.authorizedCostUsd.toRat
  startedAt : g.startedAt = c.startedAt

/-- Every value is the one written, an amount that was not written is absent, and so is
an empty text. -/
structure Writers.GivenBack (x : Writers) (g : GenerationRecord) : Prop where
  status : g.status = x.status
  reserve : x.reserve.GivenBack g
  content : g.content = textOrNone (x.settled.map fun d => d.content)
  billedCostUsd : g.billedCostUsd.map Decimal.toRat = x.settled.map fun d => d.billedCostUsd.toRat
  providerBilledCostUsd :
    g.providerBilledCostUsd.map Number.toRat? = x.settled.map fun d => d.providerBilledCostUsd.toRat?
  refundedSurplusUsd : g.refundedSurplusUsd.map Decimal.toRat =
    x.settled.map fun d => d.refund.freeUsd.toRat + d.refund.bonusUsd.toRat + d.refund.paidUsd.toRat
  error : g.error = textOrNone (x.refunded.map fun e => e.error)

/-- The amounts of a plan are whole micro-dollars. -/
def DebitPlan.InMicros (p : DebitPlan Decimal) : Prop := ∀ k, ∃ n, IsMicros (p.bucket k) n

def Event.InMicros : Event → Prop
  | .reserve c => c.plan.InMicros ∧ ∃ n, IsMicros c.authorizedCostUsd n
  | .settle d => d.refund.InMicros ∧ ∃ n, IsMicros d.billedCostUsd n
  | .refund e => e.plan.InMicros
  | .balance _ _ | .expire _ => True

/-- Neither the authorized cost nor the charge is rounded. -/
def Writers.Kept (x : Writers) : Prop :=
  ¬ NearMiss x.reserve.authorizedCostUsd ∧ ∀ d, x.settled = some d → ¬ NearMiss d.billedCostUsd

/-! ## What the calls write

`HINCRBY` takes the amounts of a plan and of a refund, so they are far below the
context's precision. -/

theorem Balance.get_inRange (b : Balance) {f : Field} (hf : f ≠ .version) : InRange (b.get f) := by
  obtain ⟨h1, h2, h3, h4⟩ := b.inRange
  cases f
  · exact h1
  · exact h2
  · exact h3
  · exact h4
  · exact absurd rfl hf

theorem ReserveOk.plan_le {a : ReserveArgs} {ρ ρ' : Redis} {v : ℤ} (h : ReserveOk a ρ (.ok v) ρ') (k : Bucket) :
    |a.plan.bucket k| ≤ 2 ^ 64 := by
  obtain ⟨c, b, -, -, -, hf, -⟩ := h.of_ok
  have key : ∀ f : Field, f ≠ .version → |a.plan.field f| ≤ 2 ^ 64 := by
    intro f hamount
    have hb := b.get_inRange hamount
    have hc := c.get_inRange hamount
    have hsum := hf f
    rw [if_neg hamount] at hsum
    unfold InRange at hb hc
    rw [abs_le]
    omega
  cases k
  · exact key .freeUsd (by decide)
  · exact key .bonusUsd (by decide)
  · exact key .paidUsd (by decide)

theorem SettleOk.refund_le {a : SettleArgs} {ρ ρ' : Redis} (h : SettleOk a ρ .ok ρ') {f : Field} (hf : f ≠ .version) :
    |a.refund f| ≤ 2 ^ 64 := by
  cases h with
  | «exact» hg hr hz => simp [hz f]
  | @surplus r c b hg hr hs hb hsum hv =>
    have hb := b.get_inRange hf
    have hc := c.get_inRange hf
    have hsum := hsum f
    rw [if_neg hf] at hsum
    unfold InRange at hb hc
    rw [abs_le]
    omega

/-- The record has what a call of `reserve` wrote. -/
structure ReserveCall.In (c : ReserveCall) (r : GenerationHash) : Prop where
  userId : r.userId = c.request.userId
  dialogId : r.dialogId = c.request.dialogId
  modelName : r.modelName = c.request.modelName
  plan : ∀ k, moneyToMicros (c.plan.bucket k) = .ok (r.plan.bucket k) ∧ |r.plan.bucket k| ≤ 2 ^ 64
  freeRequests : r.plan.freeRequests = c.plan.freeRequests
  authorizedCostUsd : moneyToMicros c.authorizedCostUsd = .ok r.authorizedCostUsd
  startedAt : r.startedAt = c.startedAt
  token : r.reservationToken = c.token

/-- The record has what a call of `settle` wrote. -/
structure SettleCall.In (d : SettleCall) (r : GenerationHash) : Prop where
  content : r.content = some d.content
  billedCostUsd : ∃ n, moneyToMicros d.billedCostUsd = .ok n ∧ r.billedCostUsd = some n
  providerBilledCostUsd : r.providerBilledCostUsd = some d.providerBilledCostUsd
  refund : ∀ k, ∃ n, moneyToMicros (d.refund.bucket k) = .ok n ∧ |n| ≤ 2 ^ 64
  refundedSurplusUsd : ∃ n, moneyToMicros d.refund.totalUsd = .ok n ∧ r.refundedSurplusUsd = some n

/-- No call of `settle` has written the record. -/
structure GenerationHash.Unsettled (r : GenerationHash) : Prop where
  content : r.content = none
  billedCostUsd : r.billedCostUsd = none
  providerBilledCostUsd : r.providerBilledCostUsd = none
  refundedSurplusUsd : r.refundedSurplusUsd = none

/-- The record is what its writers wrote. -/
structure Writers.Of (x : Writers) (r : GenerationHash) : Prop where
  status : r.status = x.status
  reserve : x.reserve.In r
  settled : ∀ d, x.settled = some d → d.In r
  unsettled : x.settled = none → r.Unsettled
  error : r.error = x.refunded.map fun e => e.error

theorem planArgs_ok {p : DebitPlan Decimal} {q : DebitPlan ℤ} (h : planArgs p = .ok q) :
    (∀ k, moneyToMicros (p.bucket k) = .ok (q.bucket k)) ∧ q.freeRequests = p.freeRequests := by
  simp only [planArgs, bind_eq_ok] at h
  obtain ⟨a, ha, b, hb, c, hc, hq⟩ := h
  cases hq
  refine ⟨fun k => ?_, rfl⟩
  cases k
  · exact ha
  · exact hb
  · exact hc

theorem ReserveCall.args_ok {c : ReserveCall} {a : ReserveArgs} (h : c.args = .ok a) :
    a.clientRequestId = c.request.clientRequestId ∧ a.reservationToken = c.token ∧
      ((∀ k, |a.plan.bucket k| ≤ 2 ^ 64) → (Writers.running c).Of a.record) := by
  simp only [ReserveCall.args, bind_eq_ok] at h
  obtain ⟨plan, hplan, n, hn, ha⟩ := h
  obtain ⟨hbucket, hfree⟩ := planArgs_ok hplan
  cases ha
  refine ⟨rfl, rfl, fun hle => ⟨rfl, ?_, ?_, ?_, rfl⟩⟩
  · exact ⟨rfl, rfl, rfl, fun k => ⟨hbucket k, hle k⟩, hfree, hn, rfl, rfl⟩
  · rintro d ⟨⟩
  · exact fun _ => ⟨rfl, rfl, rfl, rfl⟩

theorem SettleCall.args_ok {d : SettleCall} {a : SettleArgs} {x : Writers} {r : GenerationHash} (h : d.args = .ok a)
    (hx : x.Of r) (hrun : r.status = .running) (hle : ∀ f : Field, f ≠ .version → |a.refund f| ≤ 2 ^ 64) :
    (x.settle d).Of (a.record r) := by
  simp only [SettleCall.args, bind_eq_ok] at h
  obtain ⟨n, hn, n1, h1, n2, h2, n3, h3, n4, h4, ha⟩ := h
  cases ha
  obtain ⟨hstatus, hreserve, -, -, herror⟩ := hx
  refine ⟨rfl, ?_, ?_, ?_, ?_⟩
  · exact { hreserve with }
  · rintro e ⟨⟩
    refine ⟨rfl, ⟨n, hn, rfl⟩, rfl, fun k => ?_, ⟨n4, h4, rfl⟩⟩
    cases k
    · exact ⟨n1, h1, hle .freeUsd (by decide)⟩
    · exact ⟨n2, h2, hle .bonusUsd (by decide)⟩
    · exact ⟨n3, h3, hle .paidUsd (by decide)⟩
  · rintro ⟨⟩
  · cases x with
    | running c => exact herror
    | done c d => exact herror
    | failed c e => rw [hrun] at hstatus; cases hstatus

theorem RefundCall.args_ok {e : RefundCall} {a : RefundArgs} {x : Writers} {r : GenerationHash} (h : e.args = .ok a)
    (hx : x.Of r) (hrun : r.status = .running) : (x.refund e).Of (a.record r) := by
  simp only [RefundCall.args, bind_eq_ok] at h
  obtain ⟨plan, hplan, ha⟩ := h
  cases ha
  obtain ⟨hstatus, hreserve, -, hunsettled, -⟩ := hx
  have hnone : x.settled = none := by
    cases x with
    | done c d => rw [hrun] at hstatus; cases hstatus
    | _ => rfl
  refine ⟨rfl, { hreserve with }, ?_, fun _ => { hunsettled hnone with }, rfl⟩
  rintro d ⟨⟩

/-! ## What is read back -/

/-- Micro-dollars that Redis has added are given back as they were. -/
theorem isMicros_of_added {d : Decimal} {n : ℤ} (h : moneyToMicros d = .ok n) (hm : ∃ m, IsMicros d m)
    (hn : |n| ≤ 2 ^ 64) : IsMicros d n ∧ Fits n := by
  obtain ⟨m, hm⟩ := hm
  rw [moneyToMicros_unique hm h hn]
  refine ⟨hm, ?_⟩
  rw [← moneyToMicros_unique hm h hn]
  unfold Fits Decimal.prec
  rw [Int.abs_eq_natAbs] at hn
  omega

theorem ReserveCall.In.givenBack_iff {c : ReserveCall} {r : GenerationHash} (h : c.In r) (hm : c.plan.InMicros) :
    c.GivenBack (recordFromFields r.plain) ↔ ¬ NearMiss c.authorizedCostUsd := by
  have hcost := toRat_microsToMoney_iff h.authorizedCostUsd
  have hplan : ∀ k, ((planFromMicros r.plan).bucket k).toRat = (c.plan.bucket k).toRat := by
    intro k
    obtain ⟨hok, hle⟩ := h.plan k
    obtain ⟨hmicros, hfits⟩ := isMicros_of_added hok (hm k) hle
    rw [hmicros, ← isMicros_microsToMoney hfits]
    cases k <;> rfl
  constructor
  · intro hg
    exact hcost.mp hg.authorizedCostUsd
  · intro hk
    exact ⟨h.userId, h.dialogId, h.modelName, hplan, h.freeRequests, hcost.mpr hk, h.startedAt⟩

theorem SettleCall.In.refundedSurplusUsd_eq {d : SettleCall} {r : GenerationHash} (h : d.In r)
    (hm : d.refund.InMicros) :
    r.refundedSurplusUsd.map (fun n => (microsToMoney n).toRat) =
      some (d.refund.freeUsd.toRat + d.refund.bonusUsd.toRat + d.refund.paidUsd.toRat) := by
  obtain ⟨a, ha, hla⟩ := h.refund .free
  obtain ⟨b, hb, hlb⟩ := h.refund .bonus
  obtain ⟨c, hc, hlc⟩ := h.refund .paid
  obtain ⟨n, hn, hr⟩ := h.refundedSurplusUsd
  have hfree := (isMicros_of_added ha (hm .free) hla).1
  have hbonus := (isMicros_of_added hb (hm .bonus) hlb).1
  have hpaid := (isMicros_of_added hc (hm .paid) hlc).1
  simp only [DebitPlan.bucket] at hfree hbonus hpaid
  rw [abs_le] at hla hlb hlc
  have hfits : Fits (a + b + c) := by
    unfold Fits Decimal.prec
    omega
  have hfits' : Fits (a + b) := by
    unfold Fits Decimal.prec
    omega
  have htotal : IsMicros d.refund.totalUsd (a + b + c) := (hfree.add hbonus hfits').add hpaid hfits
  rw [moneyToMicros_of_isMicros htotal hfits] at hn
  cases hn
  rw [hr, Option.map_some, isMicros_microsToMoney hfits, hfree, hbonus, hpaid]
  push_cast
  ring_nf

/-- The amounts of a record's writers are whole micro-dollars. -/
def Writers.InMicros (x : Writers) : Prop :=
  x.reserve.plan.InMicros ∧ ∀ d, x.settled = some d → d.refund.InMicros

/-- **A record gives back what was written**, when no amount was rounded. -/
theorem Writers.Of.givenBack_iff {x : Writers} {r : GenerationHash} (h : x.Of r) (hm : x.InMicros) :
    x.GivenBack (recordFromFields r.plain) ↔ x.Kept := by
  have hreserve := h.reserve.givenBack_iff hm.1
  cases hs : x.settled with
  | none =>
    have hu := h.unsettled hs
    constructor
    · intro hg
      exact ⟨hreserve.mp hg.reserve, fun d hd => by rw [hs] at hd; cases hd⟩
    · intro hk
      refine ⟨h.status, hreserve.mpr hk.1, ?_, ?_, ?_, ?_, ?_⟩
      all_goals simp only [recordFromFields, GenerationHash.plain, hs, hu.content, hu.billedCostUsd,
        hu.providerBilledCostUsd, hu.refundedSurplusUsd, h.error, Option.map_none]
  | some d =>
    have hd := h.settled d hs
    obtain ⟨n, hn, hbilled⟩ := hd.billedCostUsd
    have hcharge := toRat_microsToMoney_iff hn
    have hsurplus := hd.refundedSurplusUsd_eq (hm.2 d hs)
    constructor
    · intro hg
      refine ⟨hreserve.mp hg.reserve, fun d' hd' => ?_⟩
      rw [hs] at hd'
      cases hd'
      have := hg.billedCostUsd
      simp only [recordFromFields, GenerationHash.plain, hs, hbilled, Option.map_some, Option.some.injEq] at this
      exact hcharge.mp this
    · intro hk
      refine ⟨h.status, hreserve.mpr hk.1, ?_, ?_, ?_, ?_, ?_⟩
      · simp only [recordFromFields, GenerationHash.plain, hs, hd.content, Option.map_some]
      · simp only [recordFromFields, GenerationHash.plain, hs, hbilled, Option.map_some, hcharge.mpr (hk.2 d hs)]
      · simp only [recordFromFields, GenerationHash.plain, hs, hd.providerBilledCostUsd, Option.map_some,
          Number.toRat?_plain]
      · simp only [recordFromFields, GenerationHash.plain, hs, Option.map_map, Option.map_some]
        exact hsurplus
      · simp only [recordFromFields, GenerationHash.plain, h.error]

/-! ## Every run -/

/-- The typed store after an event. -/
def Redis.after (ρ : Redis) : Event → Redis
  | .reserve c =>
    match c.args with
    | .ok a => (GenerationBalance.reserve a ρ).2
    | .error _ => ρ
  | .settle d =>
    match d.args with
    | .ok a => (GenerationBalance.settle a ρ).2
    | .error _ => ρ
  | .refund e =>
    match e.args with
    | .ok a => (GenerationBalance.refund a ρ).2
    | .error _ => ρ
  | .balance u b => ρ.putBalance u b
  | .expire id => { ρ with gen := ρ.gen.del id }

/-- The store is the text of a typed one, whose records are what their writers wrote. -/
structure RawRun.Tracks (A : Adapter) (w : RawRun) (ρ : Redis) : Prop where
  encodes : A.Encodes w.store ρ
  written : ∀ id, Option.Rel Writers.Of (w.written.get id) (ρ.gen.get id)

namespace RawRun.Tracks

variable {A : Adapter} {w : RawRun} {ρ : Redis}

theorem empty : RawRun.empty.Tracks A .empty where
  encodes :=
    { bal := fun _ => .none
      gen := fun _ => .none
      dirty := fun _ => by simp [RawRun.empty, Redis.empty]
      inflight := fun _ => rfl }
  written _ := .none

/-- What writes no record keeps all of them. -/
theorem same (h : w.Tracks A ρ) {s : RawRedis} {ρ' : Redis} (henc : A.Encodes s ρ') (hgen : ρ'.gen = ρ.gen) :
    RawRun.Tracks A { store := s, written := w.written } ρ' where
  encodes := henc
  written id := by
    rw [hgen]
    exact h.written id

/-- A new record, or a record that is ended. -/
theorem set (h : w.Tracks A ρ) {id : RequestId} {x : Writers} {r : GenerationHash} (hx : x.Of r) (j : RequestId) :
    Option.Rel Writers.Of ((w.written.set id x).get j) ((ρ.gen.set id r).get j) := by
  simp only [Table.get_set]
  split
  · exact .some hx
  · exact h.written j

theorem ended (h : w.Tracks A ρ) {id : RequestId} {f : Writers → Writers} {r r' : GenerationHash}
    (hr : ρ.gen.get id = some r) (hf : ∀ x : Writers, x.Of r → (f x).Of r') (j : RequestId) :
    Option.Rel Writers.Of ((w.ended id f).get j) ((ρ.gen.set id r').get j) := by
  have hrel := h.written id
  rw [hr] at hrel
  obtain ⟨x, hx, hof⟩ := rel_eq_some hrel
  simp only [RawRun.ended, hx]
  exact h.set (hf x hof) j

theorem reserve (h : w.Tracks A ρ) (c : ReserveCall) : (A.step w (.reserve c)).Tracks A (ρ.after (.reserve c)) := by
  cases hc : c.args with
  | error e =>
    simp only [Adapter.step, Redis.after, hc]
    exact h
  | ok a =>
  simp only [Adapter.step, Redis.after, hc]
  have halike := h.encodes.reserve a
  rcases hrun : GenerationBalance.reserve a ρ with ⟨e | r, ρ'⟩
  · rw [hrun] at halike
    obtain ⟨hraw, henc⟩ := halike.error
    obtain ⟨b, b', -, -, rfl⟩ := reserve_stopped hrun
    rw [hraw]
    exact h.same henc rfl
  · rw [hrun] at halike
    obtain ⟨hraw, henc⟩ := halike.ok
    have hok := reserve_ok hrun
    rw [hraw]
    cases r with
    | ok v =>
      obtain ⟨-, -, hof⟩ := ReserveCall.args_ok hc
      obtain ⟨b, b', -, -, -, -, rfl⟩ := hok.of_ok
      exact ⟨henc, h.set (hof hok.plan_le)⟩
    | dup r =>
      obtain ⟨-, rfl⟩ := hok.of_dup
      exact h.same henc rfl
    | conflict b =>
      obtain ⟨-, -, -, rfl⟩ := hok.of_conflict
      exact h.same henc rfl
    | missing =>
      cases hok
      exact h.same henc rfl

theorem settle (h : w.Tracks A ρ) (d : SettleCall) : (A.step w (.settle d)).Tracks A (ρ.after (.settle d)) := by
  cases hc : d.args with
  | error e =>
    simp only [Adapter.step, Redis.after, hc]
    exact h
  | ok a =>
  simp only [Adapter.step, Redis.after, hc]
  have halike := h.encodes.settle a
  rcases hrun : GenerationBalance.settle a ρ with ⟨e | r, ρ'⟩
  · rw [hrun] at halike
    obtain ⟨hraw, henc⟩ := halike.error
    obtain ⟨b, b', -, -, rfl⟩ := settle_stopped hrun
    rw [hraw]
    exact h.same henc rfl
  · rw [hrun] at halike
    obtain ⟨hraw, henc⟩ := halike.ok
    have hok := settle_ok hrun
    rw [hraw]
    cases r with
    | ok =>
      obtain ⟨r, hr, hrunning, hgen⟩ := hok.of_ok
      refine ⟨henc, ?_⟩
      rw [hgen]
      exact h.ended hr fun x hx => SettleCall.args_ok hc hx hrunning fun f hf => hok.refund_le hf
    | done =>
      obtain ⟨r, -, -, rfl⟩ := hok.of_done
      exact h.same henc rfl
    | stale =>
      obtain ⟨-, rfl⟩ := hok.of_stale
      exact h.same henc rfl
    | missing =>
      cases hok
      exact h.same henc rfl

theorem refund (h : w.Tracks A ρ) (e : RefundCall) : (A.step w (.refund e)).Tracks A (ρ.after (.refund e)) := by
  cases hc : e.args with
  | error e =>
    simp only [Adapter.step, Redis.after, hc]
    exact h
  | ok a =>
  simp only [Adapter.step, Redis.after, hc]
  have halike := h.encodes.refund a
  rcases hrun : GenerationBalance.refund a ρ with ⟨e | r, ρ'⟩
  · rw [hrun] at halike
    obtain ⟨hraw, henc⟩ := halike.error
    obtain ⟨b, b', -, -, rfl⟩ := refund_stopped hrun
    rw [hraw]
    exact h.same henc rfl
  · rw [hrun] at halike
    obtain ⟨hraw, henc⟩ := halike.ok
    have hok := refund_ok hrun
    rw [hraw]
    cases r with
    | ok =>
      obtain ⟨r, hr, hrunning, hgen⟩ := hok.of_ok
      refine ⟨henc, ?_⟩
      rw [hgen]
      exact h.ended hr fun x hx => RefundCall.args_ok hc hx hrunning
    | stale =>
      obtain ⟨-, rfl⟩ := hok.of_stale
      exact h.same henc rfl
    | missing =>
      cases hok
      exact h.same henc rfl

/-- **One step** leaves the texts of a typed store. -/
theorem step (h : w.Tracks A ρ) (e : Event) : (A.step w e).Tracks A (ρ.after e) := by
  cases e with
  | reserve c => exact h.reserve c
  | settle d => exact h.settle d
  | refund e => exact h.refund e
  | balance u b =>
    have hholds : b.Holds b.fields := fun f => by cases f <;> rfl
    exact ⟨h.encodes.putBalance hholds, h.written⟩
  | expire id =>
    refine ⟨h.encodes.delRecord id, fun j => ?_⟩
    simp only [Adapter.step, Redis.after, Table.get_del]
    split
    · exact .none
    · exact h.written j

theorem steps : ∀ (events : List Event) {w : RawRun} {ρ : Redis}, w.Tracks A ρ →
    (events.foldl A.step w).Tracks A (events.foldl Redis.after ρ)
  | [], _, _, h => h
  | e :: events, _, _, h => steps events (h.step e)

/-- What a record's two readers make of it. -/
theorem read (h : w.Tracks A ρ) {id : RequestId} {x : Writers} (hx : w.written.get id = some x) :
    ∃ r, x.Of r ∧ A.getGeneration id w.store = some (some (recordFromFields r.plain)) ∧
      ∀ a : ReserveArgs, a.clientRequestId = id → ∃ reply, (A.RESERVE a w.store).1 = .ok reply ∧
        A.reserveOutcome a.reservationToken reply =
          some (if x.reserve.token = a.reservationToken then .reserved
            else .duplicate (recordFromFields r.plain)) := by
  have hrel := h.written id
  rw [hx] at hrel
  cases hr : ρ.gen.get id with
  | none =>
    rw [hr] at hrel
    cases hrel
  | some r =>
  rw [hr] at hrel
  cases hrel with
  | some hof =>
  refine ⟨r, hof, ?_, ?_⟩
  · rw [h.encodes.getGeneration, hr, Option.map_some]
  · rintro a rfl
    have hdup : GenerationBalance.reserve a ρ = (.ok (.dup r), ρ) := by
      simp only [GenerationBalance.reserve, Script.store_bind, hr]
      rfl
    have halike := h.encodes.reserve a
    rw [hdup] at halike
    refine ⟨_, halike.ok.1, ?_⟩
    rw [Adapter.reserveOutcome_reply, GenerationBalance.reserveOutcome, hof.reserve.token]
    split <;> rfl

theorem read_none (h : w.Tracks A ρ) {id : RequestId} (hx : w.written.get id = none) :
    A.getGeneration id w.store = some none := by
  have hrel := h.written id
  rw [hx] at hrel
  cases hr : ρ.gen.get id with
  | some r =>
    rw [hr] at hrel
    cases hrel
  | none => rw [h.encodes.getGeneration, hr, Option.map_none]

theorem written_reserve (h : w.Tracks A ρ) {c : ReserveCall} {a : ReserveArgs} {v : ℤ} (hc : c.args = .ok a)
    (hok : (GenerationBalance.reserve a ρ).1 = .ok (.ok v)) :
    (A.step w (.reserve c)).written.get a.clientRequestId = some (.running c) := by
  have halike := h.encodes.reserve a
  rw [← Prod.eta (GenerationBalance.reserve a ρ), hok] at halike
  simp only [Adapter.step, hc, halike.ok.1]
  exact Table.get_set_self ..

theorem written_settle (h : w.Tracks A ρ) {d : SettleCall} {a : SettleArgs} {x : Writers} (hd : d.args = .ok a)
    (hok : (GenerationBalance.settle a ρ).1 = .ok .ok) (hx : w.written.get a.clientRequestId = some x) :
    (A.step w (.settle d)).written.get a.clientRequestId = some (x.settle d) := by
  have halike := h.encodes.settle a
  rw [← Prod.eta (GenerationBalance.settle a ρ), hok] at halike
  simp only [Adapter.step, hd, halike.ok.1, RawRun.ended, hx]
  exact Table.get_set_self ..

end RawRun.Tracks

/-! ## Whole micro-dollars -/

/-- All records were written with whole micro-dollars. -/
def RawRun.InMicros (w : RawRun) : Prop := ∀ id x, w.written.get id = some x → x.InMicros

namespace RawRun.InMicros

variable {w : RawRun}

theorem set (h : w.InMicros) {id : RequestId} {x : Writers} (hx : x.InMicros) {s : RawRedis} :
    RawRun.InMicros { store := s, written := w.written.set id x } := by
  intro j y hy
  rw [Table.get_set] at hy
  split at hy
  · cases hy
    exact hx
  · exact h j y hy

theorem ended (h : w.InMicros) (id : RequestId) {f : Writers → Writers}
    (hf : ∀ x : Writers, x.InMicros → (f x).InMicros) {s : RawRedis} :
    RawRun.InMicros { store := s, written := w.ended id f } := by
  unfold RawRun.ended
  split
  · next x hx => exact h.set (hf x (h id x hx))
  · exact h

theorem step (h : w.InMicros) (A : Adapter) {e : Event} (he : e.InMicros) : (A.step w e).InMicros := by
  cases e with
  | reserve c =>
    simp only [Adapter.step]
    split
    · split
      · refine h.set (x := .running c) ⟨he.1, fun d hd => ?_⟩
        cases hd
      · exact h
    · exact h
  | settle d =>
    simp only [Adapter.step]
    split
    · split
      · refine h.ended _ (f := Writers.settle d) fun x hx => ⟨hx.1, fun d' hd => ?_⟩
        cases hd
        exact he.1
      · exact h
    · exact h
  | refund e =>
    simp only [Adapter.step]
    split
    · split
      · refine h.ended _ (f := Writers.refund e) fun x hx => ⟨hx.1, fun d hd => ?_⟩
        cases hd
      · exact h
    · exact h
  | balance u b => exact h
  | expire id =>
    intro j y hy
    simp only [Adapter.step, Table.get_del] at hy
    split at hy
    · cases hy
    · exact h j y hy

theorem steps (A : Adapter) : ∀ (events : List Event) {w : RawRun}, w.InMicros → (∀ e ∈ events, e.InMicros) →
    (events.foldl A.step w).InMicros
  | [], _, h, _ => h
  | e :: events, _, h, he =>
    steps A events (h.step A (he e (List.mem_cons_self ..))) fun e' hm => he e' (List.mem_cons_of_mem _ hm)

end RawRun.InMicros

theorem Adapter.run_tracks (A : Adapter) (events : List Event) :
    (A.run events).Tracks A (events.foldl Redis.after .empty) := RawRun.Tracks.empty.steps events

theorem Adapter.run_inMicros (A : Adapter) {events : List Event} (h : ∀ e ∈ events, e.InMicros) :
    (A.run events).InMicros :=
  RawRun.InMicros.steps A events (fun _ _ hx => by cases hx) h

/-! ## The codec -/

/-- **Both readers of a record give it back as it was written**, exactly when
`money_to_micros` rounded neither its authorized cost nor its charge. -/
theorem records_given_back (A : Adapter) (events : List Event) (id : RequestId) (h : ∀ e ∈ events, e.InMicros) :
    ((A.run events).written.get id = none → A.getGeneration id (A.run events).store = some none) ∧
      ∀ x, (A.run events).written.get id = some x → ∃ g,
        A.getGeneration id (A.run events).store = some (some g) ∧
        (∀ a : ReserveArgs, a.clientRequestId = id → ∃ reply, (A.RESERVE a (A.run events).store).1 = .ok reply ∧
          A.reserveOutcome a.reservationToken reply =
            some (if x.reserve.token = a.reservationToken then .reserved else .duplicate g)) ∧
        (x.GivenBack g ↔ x.Kept) := by
  have htracks := A.run_tracks events
  refine ⟨fun hx => htracks.read_none hx, fun x hx => ?_⟩
  obtain ⟨r, hof, hhash, hdup⟩ := htracks.read hx
  exact ⟨_, hhash, hdup, hof.givenBack_iff (A.run_inMicros h id x hx)⟩

/-! ### Two runs -/

/-- A number by its digits behind a prefix, in the order of the numbers. -/
def digitsText (k : ℕ) (before : String) : Text ℕ where
  str n := before ++ String.ofList (Numeral.marked k n)
  read raw := some (Nat.ofDigitChars 10 ((raw.toList.drop before.toList.length).dropWhile (· == ':')) 0)
  read_str n := by
    rw [String.toList_append, String.toList_ofList, List.drop_left, Numeral.dropWhile_marked,
      Numeral.ofDigitChars_padded_zero]

def tokenText : Text Token where
  str t := (digitsText 32 "").str (Nat.pair t.owner t.draw)
  read raw := ((digitsText 32 "").read raw).map fun n => ⟨n.unpair.1, n.unpair.2⟩
  read_str t := by simp [Text.read_str]

/-- Whole numbers as Python writes floats, and the others by their place in a list. -/
def floatText : Text ℚ where
  str q := if q.den = 1 then q.num.repr ++ ".0" else String.ofList (Nat.toDigits 10 (Encodable.encode q))
  read raw :=
    if '.' ∈ raw.toList then (String.ofList (raw.toList.take (raw.toList.length - 2))).toInt?.map fun n => n
    else Encodable.decode (Nat.ofDigitChars 10 raw.toList 0)
  read_str q := by
    by_cases h : q.den = 1
    · have hq : (q.num : ℚ) = q := Rat.den_eq_one_iff q |>.mp h
      simp [h, hq]
    · have hno : '.' ∉ Nat.toDigits 10 (Encodable.encode q) := fun hm =>
        absurd (Numeral.ne_point (Numeral.isDigit_toDigits _) _ hm) (by decide)
      simp [h, hno]

def plainAdapter : Adapter where
  uuid := digitsText 12 "00000000-0000-0000-0000-"
  float := floatText
  hex := tokenText
  tostring := Int.repr
  ttl := "86400"

def twentyCentPlan : DebitPlan Decimal := ⟨0, 0, ⟨20, -2⟩, 0⟩

/-- A reservation of twenty cents that is authorized to cost `cost`. -/
def reserving (cost : Decimal) : ReserveCall where
  request := { userId := 1, dialogId := 2, clientRequestId := 7, modelName := "premium" }
  expectedVersion := 7
  plan := twentyCentPlan
  authorizedCostUsd := cost
  startedAt := 100
  token := ⟨0, 0⟩

def settling : SettleCall where
  userId := 1
  clientRequestId := 7
  content := "once upon a time"
  billedCostUsd := ⟨20, -2⟩
  providerBilledCostUsd := .finite ⟨25, -2⟩
  refund := ⟨0, 0, 0, 0⟩

def soldEvents : List Event := [.balance 1 oneDollar, .reserve (reserving ⟨20, -2⟩), .settle settling]

theorem isMicros_coeffAt {d : Decimal} (h : -6 ≤ d.exp) : ∃ n, IsMicros d n :=
  ⟨d.coeffAt (-6), (Decimal.coeffAt_toRat d h).symm⟩

theorem reserving_inMicros {cost : Decimal} (h : -6 ≤ cost.exp) : (Event.reserve (reserving cost)).InMicros := by
  refine ⟨fun k => ?_, isMicros_coeffAt h⟩
  show ∃ n, IsMicros (twentyCentPlan.bucket k) n
  cases k <;> exact isMicros_coeffAt (by decide)

theorem reserving_args {cost : Decimal} {n : ℤ} (h : moneyToMicros cost = .ok n) :
    (reserving cost).args = .ok
      { expectedVersion := 7, userId := 1, dialogId := 2, modelName := "premium", plan := ⟨0, 0, 200000, 0⟩,
        authorizedCostUsd := n, startedAt := 100, clientRequestId := 7, reservationToken := ⟨0, 0⟩ } := by
  have hplan : planArgs twentyCentPlan = .ok ⟨0, 0, 200000, 0⟩ := by decide
  simp only [ReserveCall.args, reserving, hplan, h]
  rfl

theorem settling_args :
    settling.args = .ok
      { content := "once upon a time", billedCostUsd := 200000, providerBilledCostUsd := .finite ⟨25, -2⟩,
        clientRequestId := 7, userId := 1, refundFree := 0, refundBonus := 0, refundPaid := 0,
        refundedSurplus := 0 } := by
  have hbilled : moneyToMicros ⟨20, -2⟩ = .ok 200000 := by decide
  have hzero : moneyToMicros 0 = .ok 0 := by decide
  have htotal : moneyToMicros (DebitPlan.totalUsd ⟨0, 0, 0, 0⟩) = .ok 0 := by decide
  simp only [SettleCall.args, settling, hbilled, hzero, htotal]
  rfl

/-- The reservation is made, whatever it is authorized to cost. -/
theorem reserving_written {cost : Decimal} {n : ℤ} (h : moneyToMicros cost = .ok n) :
    (plainAdapter.run [.balance 1 oneDollar, .reserve (reserving cost)]).written.get 7 =
      some (.running (reserving cost)) := by
  have htracks := RawRun.Tracks.empty.step (A := plainAdapter) (.balance 1 oneDollar)
  exact htracks.written_reserve (v := 8) (reserving_args h) rfl

/-- A record of twenty cents that was settled at its price gives back no refund, as a zero. -/
theorem records_given_back_settled : ∃ g,
    plainAdapter.getGeneration 7 (plainAdapter.run soldEvents).store = some (some g) ∧
      (Writers.done (reserving ⟨20, -2⟩) settling).GivenBack g := by
  have hcost : moneyToMicros ⟨20, -2⟩ = .ok 200000 := by decide
  have htracks := RawRun.Tracks.empty.steps (A := plainAdapter) [.balance 1 oneDollar, .reserve (reserving ⟨20, -2⟩)]
  have hwritten : (plainAdapter.run soldEvents).written.get 7 = some (.done (reserving ⟨20, -2⟩) settling) :=
    htracks.written_settle settling_args (by decide) (reserving_written hcost)
  have hmicros : ∀ e ∈ soldEvents, e.InMicros := by
    intro e he
    simp only [soldEvents, List.mem_cons, List.not_mem_nil, or_false] at he
    rcases he with rfl | rfl | rfl
    · exact trivial
    · exact reserving_inMicros (by decide)
    · refine ⟨fun k => ?_, isMicros_coeffAt (by decide)⟩
      cases k <;> exact isMicros_coeffAt (by decide)
  obtain ⟨g, hg, -, hiff⟩ := (records_given_back plainAdapter soldEvents 7 hmicros).2 _ hwritten
  refine ⟨g, hg, hiff.mpr ⟨not_nearMiss (by decide), ?_⟩⟩
  rintro d ⟨⟩
  exact not_nearMiss (by decide)

/-- An authorized cost of `10 ^ 22` dollars and a micro-dollar comes back without the micro-dollar. -/
theorem records_given_back_rounded :
    (∀ e ∈ [Event.balance 1 oneDollar, .reserve (reserving ⟨10 ^ 28 + 1, -6⟩)], e.InMicros) ∧
      ∃ x g, (plainAdapter.run [.balance 1 oneDollar, .reserve (reserving ⟨10 ^ 28 + 1, -6⟩)]).written.get 7 = some x ∧
        plainAdapter.getGeneration 7
          (plainAdapter.run [.balance 1 oneDollar, .reserve (reserving ⟨10 ^ 28 + 1, -6⟩)]).store = some (some g) ∧
        ¬ x.GivenBack g := by
  have hcost : moneyToMicros ⟨10 ^ 28 + 1, -6⟩ = .ok (10 ^ 28) := by decide
  have hmicros : ∀ e ∈ [Event.balance 1 oneDollar, .reserve (reserving ⟨10 ^ 28 + 1, -6⟩)], e.InMicros := by
    intro e he
    simp only [List.mem_cons, List.not_mem_nil, or_false] at he
    rcases he with rfl | rfl
    · exact trivial
    · exact reserving_inMicros (by decide)
  have hwritten := reserving_written hcost
  obtain ⟨r, hof, hg, -⟩ := (plainAdapter.run_tracks _).read hwritten
  refine ⟨hmicros, _, _, hwritten, hg, fun hback => ?_⟩
  have hkept := ((hof.givenBack_iff (plainAdapter.run_inMicros hmicros 7 _ hwritten)).mp hback).1
  have hexact : ExactOrRefused ⟨10 ^ 28 + 1, -6⟩ := exactOrRefused_iff.mpr hkept
  simp only [ExactOrRefused, hcost, IsMicros, Decimal.toRat] at hexact
  norm_num at hexact

end GenerationBalance
