/-
The generation service (`backend/app/billing/generation.py`): one call of
`execute_generation`, from the first load to its result.
-/
import GenerationBalance.Loader

namespace GenerationBalance

structure GenerationResult where
  clientRequestId : RequestId
  content : String
  billedCostUsd : Decimal
deriving DecidableEq

/-! ## Reserving -/

/-- What one round of `_reserve` sends: the plan `authorize` made on the
snapshot, and both as the integers of the script. -/
structure Reservation where
  request : GenerationRequest
  snapshot : Balance
  authorization : Authorization Decimal
  plan : DebitPlan ℤ
  authorizedCostUsd : ℤ
  token : Token
  startedAt : ℚ
  authorized : authorize MODELS request (snapshotFromHash snapshot).toBalanceView = .ok authorization
  planned : planArgs authorization.debitPlan = .ok plan
  costed : moneyToMicros authorization.estimatedCostUsd = .ok authorizedCostUsd

namespace Reservation

def id (v : Reservation) : RequestId := v.request.clientRequestId

def args (v : Reservation) : ReserveArgs where
  expectedVersion := v.snapshot.version
  userId := v.request.userId
  dialogId := v.request.dialogId
  modelName := v.request.modelName
  plan := v.plan
  authorizedCostUsd := v.authorizedCostUsd
  startedAt := v.startedAt
  clientRequestId := v.request.clientRequestId
  reservationToken := v.token

/-- What `refund` sends when the provider failed. -/
def refundArgs (v : Reservation) (error : String) : RefundArgs where
  userId := v.request.userId
  error := error
  clientRequestId := v.request.clientRequestId
  plan := v.plan

end Reservation

/-- Authorizes on a snapshot and encodes the plan. -/
def makeReservation (request : GenerationRequest) (snapshot : Balance) (token : Token) (now : ℚ) :
    Except Exn Reservation :=
  match h : authorize MODELS request (snapshotFromHash snapshot).toBalanceView with
  | .error e => .error e
  | .ok authorization =>
  match hp : planArgs authorization.debitPlan with
  | .error e => .error e
  | .ok plan =>
  match hc : moneyToMicros authorization.estimatedCostUsd with
  | .error e => .error e
  | .ok cost => .ok ⟨request, snapshot, authorization, plan, cost, token, now, h, hp, hc⟩

theorem makeReservation_ok {request : GenerationRequest} {snapshot : Balance} {token : Token} {now : ℚ}
    {v : Reservation} (h : makeReservation request snapshot token now = .ok v) :
    v.request = request ∧ v.snapshot = snapshot ∧ v.token = token := by
  unfold makeReservation at h
  split at h
  · cases h
  split at h
  · cases h
  split at h
  · cases h
  cases h
  exact ⟨rfl, rfl, rfl⟩

theorem moneyToMicros_error {d : Decimal} {e : Exn} (h : moneyToMicros d = .error e) : e.isMoney = true := by
  simp only [moneyToMicros] at h
  split at h
  · cases h; rfl
  · cases h

theorem authorize_error {models : String → Option (GenerationModel Decimal)} {request : GenerationRequest}
    {b : BalanceView Decimal} {e : Exn} (h : authorize models request b = .error e) : e.isFailed = false := by
  unfold authorize at h
  split at h
  · cases h; rfl
  next model hm =>
  rcases bind_eq_error.mp h with h | ⟨_, -, h⟩
  · unfold validateBalance at h
    split at h <;> cases h
    rfl
  rcases bind_eq_error.mp h with h | ⟨_, -, h⟩
  · simp only [debitTerms] at h
    split at h
    · cases h
    · split at h
      · cases h
      split at h <;> cases h
      rfl
    · split at h <;> cases h
  simp only at h
  split at h
  · cases h; rfl
  rcases bind_eq_error.mp h with h | ⟨_, -, h⟩
  · simp only [buildPlan] at h
    split at h <;> cases h
    rfl
  · cases h

theorem planArgs_error {plan : DebitPlan Decimal} {e : Exn} (h : planArgs plan = .error e) : e.isMoney = true := by
  rcases bind_eq_error.mp h with h | ⟨_, -, h⟩
  · exact moneyToMicros_error h
  rcases bind_eq_error.mp h with h | ⟨_, -, h⟩
  · exact moneyToMicros_error h
  rcases bind_eq_error.mp h with h | ⟨_, -, h⟩
  · exact moneyToMicros_error h
  · cases h

/-- What a round fails with: the policy, or an amount. -/
theorem makeReservation_error_cases {request : GenerationRequest} {snapshot : Balance} {token : Token} {now : ℚ}
    {e : Exn} (h : makeReservation request snapshot token now = .error e) :
    authorize MODELS request (snapshotFromHash snapshot).toBalanceView = .error e ∨ e.isMoney = true := by
  unfold makeReservation at h
  split at h
  · next ha => cases h; exact .inl ha
  split at h
  · next hp => cases h; exact .inr (planArgs_error hp)
  split at h
  · next hc => cases h; exact .inr (moneyToMicros_error hc)
  · cases h

theorem makeReservation_error {request : GenerationRequest} {snapshot : Balance} {token : Token} {now : ℚ}
    {e : Exn} (h : makeReservation request snapshot token now = .error e) : e.isFailed = false := by
  rcases makeReservation_error_cases h with ha | hm
  · exact authorize_error ha
  · exact (Exn.isMoney_only hm).1

/-! ## Settling -/

def minNumber (a b : Number) : Except Exn Number :=
  match b.lt? a with
  | some less => .ok (if less then b else a)
  | none => .error .invalidOperation

def maxNumber (a b : Number) : Except Exn Number :=
  match a.lt? b with
  | some less => .ok (if less then b else a)
  | none => .error .invalidOperation

/-- `quantize_money(max(Decimal(0), min(bill, total)))`. -/
def clampBill (bill : Number) (totalUsd : Decimal) : Except Exn Decimal := do
  let clamped ← maxNumber (.finite (.ofInt 0)) (← minNumber bill (.finite totalUsd))
  match clamped with
  | .finite d => quantizeMoney d
  | _ => throw .invalidOperation

/-- `_settle` up to its loop: the charge, and what `settle` sends. -/
def settleCall (request : GenerationRequest) (authorization : Authorization Decimal) (content : String)
    (bill : Number) : Except Exn (Decimal × SettleArgs) := do
  let plan := authorization.debitPlan
  let charged ← clampBill bill plan.totalUsd
  let refund := surplusRefund plan authorization.debitPolicy charged
  let billedCostUsd ← moneyToMicros charged
  let refundFree ← moneyToMicros refund.freeUsd
  let refundBonus ← moneyToMicros refund.bonusUsd
  let refundPaid ← moneyToMicros refund.paidUsd
  let refundedSurplus ← moneyToMicros refund.totalUsd
  return (charged,
    { content, billedCostUsd
      providerBilledCostUsd := bill
      clientRequestId := request.clientRequestId
      userId := request.userId
      refundFree, refundBonus, refundPaid, refundedSurplus })

def settleArgs (v : Reservation) (content : String) (bill : Number) : Except Exn (Decimal × SettleArgs) :=
  settleCall v.request v.authorization content bill

/-- A reservation with the provider's result, as `_settle` sends it. -/
structure Settlement where
  reservation : Reservation
  content : String
  bill : Number
  charged : Decimal
  args : SettleArgs
  computed : settleArgs reservation content bill = .ok (charged, args)

def makeSettlement (v : Reservation) (content : String) (bill : Number) : Except Exn Settlement :=
  match h : settleArgs v content bill with
  | .error e => .error e
  | .ok (charged, args) => .ok ⟨v, content, bill, charged, args, h⟩

theorem makeSettlement_ok {v : Reservation} {content : String} {bill : Number} {s : Settlement}
    (h : makeSettlement v content bill = .ok s) : s.reservation = v ∧ s.content = content ∧ s.bill = bill := by
  unfold makeSettlement at h
  split at h
  · cases h
  cases h
  exact ⟨rfl, rfl, rfl⟩

theorem clampBill_error {bill : Number} {total : Decimal} {e : Exn} (h : clampBill bill total = .error e) :
    e.isMoney = true := by
  rcases bind_eq_error.mp h with h | ⟨_, -, h⟩
  · unfold minNumber at h
    split at h <;> cases h
    rfl
  rcases bind_eq_error.mp h with h | ⟨_, -, h⟩
  · unfold maxNumber at h
    split at h <;> cases h
    rfl
  split at h
  · unfold quantizeMoney at h
    split at h <;> cases h
    rfl
  · cases h; rfl

theorem settleArgs_error {v : Reservation} {content : String} {bill : Number} {e : Exn}
    (h : settleArgs v content bill = .error e) : e.isMoney = true := by
  rcases bind_eq_error.mp h with h | ⟨d, -, h⟩
  · exact clampBill_error h
  iterate 5
    rcases bind_eq_error.mp h with h | ⟨_, -, h⟩
    · exact moneyToMicros_error h
  cases h

theorem makeSettlement_error {v : Reservation} {content : String} {bill : Number} {e : Exn}
    (h : makeSettlement v content bill = .error e) : e.isMoney = true := by
  unfold makeSettlement at h
  split at h
  · next hs => cases h; exact settleArgs_error hs
  · cases h

def Settlement.result (s : Settlement) : GenerationResult where
  clientRequestId := s.reservation.request.clientRequestId
  content := s.content
  billedCostUsd := s.charged

/-! ## The call -/

/-- The points of `execute_generation` that await. `rounds` counts the rounds of
a loop that are left after this one, `attempt` the attempts of `_retrying`. -/
inductive GenPc where
  | loading (rounds : ℕ) (l : LoaderPc)
  | reserving (v : Reservation) (attempt rounds : ℕ)
  /-- `_denied_or_duplicate` looks the record up. -/
  | denied (e : Exn) (rounds : ℕ)
  /-- `_resolve_duplicate` sleeps, or reads the record again. -/
  | waiting (rounds : ℕ)
  | polling (rounds : ℕ)
  /-- Reserved: the provider is about to be called, or runs. -/
  | calling (v : Reservation)
  | generating (v : Reservation)
  | settling (s : Settlement) (attempt rounds : ℕ)
  | settleLoading (s : Settlement) (rounds : ℕ) (l : LoaderPc)
  /-- The provider raised `after`: the plan is refunded first. -/
  | refunding (v : Reservation) (reason : String) (pc : RefundPc) (after : Exn)
  | ended (r : Except Exn GenerationResult)

/-- A round of `_reserve` on a snapshot. -/
def attemptReserve (request : GenerationRequest) (fresh : Token) (now : ℚ) : ℕ → Balance → GenPc
  | 0, _ => .ended (.error (.balanceContention "reservation retries exhausted"))
  | rounds + 1, snapshot =>
    match makeReservation request snapshot fresh now with
    | .ok v => .reserving v 1 rounds
    | .error e => if e.isAccess then .denied e rounds else .ended (.error e)

/-- Python's `or` between an optional amount and an amount: zero is false. -/
def orMoney (a : Option Decimal) (b : Decimal) : Decimal :=
  match a with
  | some d => if d == .ofInt 0 then b else d
  | none => b

/-- The loop of `_resolve_duplicate` at a record it has read. -/
def pollRecord (id : RequestId) (rounds : ℕ) (record : GenerationRecord) : GenPc :=
  match record.status with
  | .done =>
    .ended (.ok
      { clientRequestId := id
        content := record.content.getD ""
        billedCostUsd := orMoney record.billedCostUsd record.authorizedCostUsd })
  | .failed => .ended (.error (.generationFailed (record.error.getD "generation failed")))
  | .running => .waiting rounds

def resolveDuplicate (request : GenerationRequest) (rounds : ℕ) (record : GenerationRecord) : GenPc :=
  if (record.userId, record.dialogId, record.modelName) ≠ (request.userId, request.dialogId, request.modelName) then
    .ended (.error (.invalidInput "client_request_id reused with a different payload"))
  else pollRecord request.clientRequestId rounds record

/-- The loop of `_settle`. -/
def settleLoop (s : Settlement) : ℕ → GenPc
  | 0 => .ended (.error (.balanceContention "settle retries exhausted"))
  | rounds + 1 => .settling s 1 rounds

/-- The content as `settle` sends it, once the bill is written out. -/
def settleText (cfg : Config) (content : PyStr) (bill : Number) : Except Exn String := do
  let _ ← moneyToStr cfg.textRoom bill
  content.encode.elim (.error .unicodeEncode) .ok

theorem settleText_ok {cfg : Config} {content : PyStr} {bill : Number} {text : String}
    (h : settleText cfg content bill = .ok text) : content = text := by
  obtain ⟨_, -, h⟩ := bind_eq_ok.mp h
  cases he : content.encode with
  | none => rw [he] at h; cases h
  | some t =>
    rw [he] at h
    cases h
    exact PyStr.encode_eq_some.mp he

theorem settleText_error {cfg : Config} {content : PyStr} {bill : Number} {e : Exn}
    (h : settleText cfg content bill = .error e) : e.isUnsendable = true := by
  rcases bind_eq_error.mp h with h | ⟨_, -, h⟩
  · unfold moneyToStr at h
    split at h <;> cases h
    rfl
  · cases he : content.encode <;> rw [he] at h <;> cases h
    rfl

/-- `_settle`: the charge, then its loop, whose first round makes what is sent. -/
def startSettle (cfg : Config) (v : Reservation) (content : PyStr) (bill : Number) : GenPc :=
  match clampBill bill v.authorization.debitPlan.totalUsd, cfg.reserveMaxAttempts with
  | .error e, _ => .ended (.error e)
  | .ok _, 0 => .ended (.error (.balanceContention "settle retries exhausted"))
  | .ok _, rounds + 1 =>
    match settleText cfg content bill with
    | .error e => .ended (.error e)
    | .ok text =>
      match makeSettlement v text bill with
      | .error e => .ended (.error e)
      | .ok s => .settling s 1 rounds

/-- The refund before an exception of the provider is raised. Its reason is encoded in
the first round of the loop. -/
def startRefund (cfg : Config) (v : Reservation) (message : Option PyStr) (typeName : String) (isException : Bool) :
    GenPc :=
  match message, cfg.reserveMaxAttempts with
  | none, _ => .ended (.error .unprintable)
  | some _, 0 => .ended (.error (.balanceContention "refund retries exhausted"))
  | some message, rounds + 1 =>
    match (message.or typeName).encode with
    | none => .ended (.error .unicodeEncode)
    | some reason =>
      .refunding v reason (.calling 1 rounds) (if isException then .generationFailed reason else .cancelled reason)

section Provided

variable (cfg : Config) (v : Reservation)

/-- `_settle` raises before it sends anything, or sends the content it was given. -/
theorem startSettle_cases (content : PyStr) (bill : Number) :
    (∃ e, startSettle cfg v content bill = .ended (.error e) ∧
        (e.isMoney = true ∨ e.isUnsendable = true ∨ e = .balanceContention "settle retries exhausted")) ∨
      ∃ (text : String) (s : Settlement) (k : ℕ), content = text ∧ makeSettlement v text bill = .ok s ∧
        cfg.reserveMaxAttempts = k + 1 ∧ startSettle cfg v content bill = .settling s 1 k := by
  unfold startSettle
  split
  · next e he => exact .inl ⟨e, rfl, .inl (clampBill_error he)⟩
  · exact .inl ⟨_, rfl, .inr (.inr rfl)⟩
  next k _ hk =>
  split
  · next e he => exact .inl ⟨e, rfl, .inr (.inl (settleText_error he))⟩
  next text ht =>
  split
  · next e he => exact .inl ⟨e, rfl, .inl (makeSettlement_error he)⟩
  next s hs => exact .inr ⟨text, s, k, settleText_ok ht, hs, hk, rfl⟩

/-- The refund raises before it sends anything, or its reason is sent, and raised in
the end. -/
theorem startRefund_cases (message : Option PyStr) (typeName : String) (isException : Bool) :
    (∃ e, startRefund cfg v message typeName isException = .ended (.error e) ∧
        (e.isUnsendable = true ∨ e = .balanceContention "refund retries exhausted")) ∨
      ∃ reason k, cfg.reserveMaxAttempts = k + 1 ∧
        startRefund cfg v message typeName isException = .refunding v reason (.calling 1 k)
          (if isException then .generationFailed reason else .cancelled reason) := by
  unfold startRefund
  split
  · exact .inl ⟨_, rfl, .inl rfl⟩
  · exact .inl ⟨_, rfl, .inr rfl⟩
  next k hk =>
  split
  · exact .inl ⟨_, rfl, .inl rfl⟩
  · exact .inr ⟨_, k, hk, rfl⟩

end Provided

namespace GenPc

/-- The call raises. -/
def raised (e : Exn) : GenPc := .ended (.error e)

def start (cfg : Config) (request : GenerationRequest) : GenPc :=
  match MODELS request.modelName with
  | none => .ended (.error (.invalidInput ("unknown model " ++ pyRepr cfg.printable request.modelName)))
  | some _ => .loading cfg.reserveMaxAttempts .load

def action (request : GenerationRequest) : GenPc → Action
  | .loading _ l => l.action request.userId
  | .reserving v _ _ => .call (.reserve v.args)
  | .denied _ _ | .polling _ => .call (.getGeneration request.clientRequestId)
  | .waiting _ => .wait
  | .calling _ => .provider request
  | .generating _ => .answer
  | .settling s _ _ => .call (.settle s.args)
  | .settleLoading _ _ l => l.action request.userId
  | .refunding v reason pc _ => pc.action (v.refundArgs reason)
  | .ended _ => .none

def resume (cfg : Config) (request : GenerationRequest) (fresh : Token) (now : ℚ) : GenPc → Input → GenPc
  | .loading rounds l, i =>
    (l.resume fresh i).elim (.loading rounds) (attemptReserve request fresh now rounds) raised
  | .reserving v _ rounds, .reply (.reserve r) =>
    match reserveOutcome v.token r with
    | .reserved => .calling v
    | .conflict current => attemptReserve request fresh now rounds current
    | .missing => .loading rounds .load
    | .duplicate record => resolveDuplicate request rounds (recordFromFields record)
  | .reserving _ _ _, .reply (.error _) => .ended (.error .response)
  | .reserving v attempt rounds, .lost =>
    cfg.retrying attempt (.reserving v · rounds) raised
  | .denied e _, .reply (.record none) => .ended (.error e)
  | .denied _ rounds, .reply (.record (some record)) =>
    resolveDuplicate request rounds (recordFromFields record)
  | .denied _ _, .lost | .polling _, .lost => .ended (.error .connection)
  | .waiting rounds, .wake => .polling rounds
  | .waiting _, .timeout => .ended (.error (.generationInProgress "generation still running"))
  | .polling rounds, .reply (.record none) => .loading rounds .load
  | .polling rounds, .reply (.record (some record)) =>
    pollRecord request.clientRequestId rounds (recordFromFields record)
  | .calling v, .called => .generating v
  | .generating v, .provided (.result content bill) => startSettle cfg v content bill
  | .generating v, .provided (.raised message typeName isException) =>
    startRefund cfg v message typeName isException
  | .generating v, .timeout => startRefund cfg v (some "") "TimeoutError" true
  | .settling s _ rounds, .reply (.settle r) =>
    match settleOutcome r with
    | .applied | .alreadyApplied => .ended (.ok s.result)
    | .stale => .ended (.error (.generationFailed "reservation was reaped before settle"))
    | .missing => .settleLoading s rounds .load
  | .settling _ _ _, .reply (.error _) => .ended (.error .response)
  | .settling s attempt rounds, .lost =>
    cfg.retrying attempt (.settling s · rounds) raised
  | .settleLoading s rounds l, i =>
    (l.resume fresh i).elim (.settleLoading s rounds) (fun _ => settleLoop s rounds) raised
  | .refunding v reason pc after, i =>
    (pc.resume cfg fresh i).elim (.refunding v reason · after) (fun _ => raised after) raised
  | pc, _ => pc

end GenPc

end GenerationBalance
