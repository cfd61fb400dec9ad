/-
The other calls on the balances: top-ups and reads
(`backend/app/billing/balance.py`), the reaper (`backend/app/billing/reaper.py`)
and one flush (`backend/app/billing/flusher.py`); and `Proc`, any one call.
-/
import GenerationBalance.Generation

namespace GenerationBalance

/-! ## Top-ups -/

structure BalanceTopUp where
  operationId : OperationId
  userId : UserId
  paidUsd : Decimal := .ofInt 0
  bonusUsd : Decimal := .ofInt 0
  freeRequests : ℤ := 0
deriving DecidableEq

/-- The checks of `_validate` on one amount. `quantize` rounds half to even, and
fails when the result has too many digits. -/
def validateAmount (name : String) (amount : Decimal) : Except Exn Unit :=
  if amount < .ofInt 0 then .error (.invalidInput (name ++ " must be non-negative"))
  else
    match amount.quantize (-6) Decimal.roundHalfEven with
    | none => .error .invalidOperation
    | some quantized =>
      if amount != quantized then .error (.invalidInput (name ++ " must have at most 6 decimal places")) else .ok ()

/-- `_validate`. -/
def validateTopUp (command : BalanceTopUp) : Except Exn Unit := do
  validateAmount "paid_usd" command.paidUsd
  validateAmount "bonus_usd" command.bonusUsd
  if command.freeRequests < 0 then throw (.invalidInput "free_requests must be non-negative")

/-- What `top_up` sends. -/
def topUpArgs (command : BalanceTopUp) : Except Exn TopUpArgs := do
  let paidUsd ← moneyToMicros command.paidUsd
  let bonusUsd ← moneyToMicros command.bonusUsd
  if tooManyDigits command.freeRequests then throw .tooManyDigits
  return ⟨command.operationId, command.userId, paidUsd, bonusUsd, command.freeRequests⟩

/-- A command that passed the checks, as it is sent. -/
structure TopUp where
  command : BalanceTopUp
  args : TopUpArgs
  valid : validateTopUp command = .ok ()
  encoded : topUpArgs command = .ok args

def makeTopUp (command : BalanceTopUp) (valid : validateTopUp command = .ok ()) : Except Exn TopUp :=
  match h : topUpArgs command with
  | .error e => .error e
  | .ok args => .ok ⟨command, args, valid, h⟩

/-- An amount that passes its check is a whole number of micro-dollars, and not
negative. -/
theorem validateAmount_ok {name : String} {d : Decimal} (h : validateAmount name d = .ok ()) :
    ∃ n, 0 ≤ n ∧ Fits n ∧ d.toRat = n * (10 : ℚ) ^ (-6 : ℤ) := by
  unfold validateAmount at h
  split at h
  · cases h
  next hneg =>
  split at h
  · cases h
  next quantized hq =>
  split at h
  · cases h
  next heq =>
  simp only [bne, Bool.not_eq_true', Bool.not_eq_false] at heq
  rw [Decimal.beq_iff] at heq
  obtain ⟨n, hfits, rfl⟩ := Decimal.quantize_some hq
  refine ⟨n, ?_, hfits, heq⟩
  rw [Decimal.lt_iff, heq] at hneg
  have h0 : (Decimal.ofInt 0).toRat = 0 := by simp [Decimal.ofInt, Decimal.toRat]
  rw [h0, not_lt] at hneg
  exact_mod_cast nonneg_of_mul_nonneg_left hneg (Decimal.unit_pos (-6))

/-- What is sent is what the command says, in micro-dollars. -/
structure TopUpArgs.Of (a : TopUpArgs) (command : BalanceTopUp) : Prop where
  operationId : a.operationId = command.operationId
  userId : a.userId = command.userId
  paidUsd : command.paidUsd.toRat = a.paidUsd * (10 : ℚ) ^ (-6 : ℤ)
  bonusUsd : command.bonusUsd.toRat = a.bonusUsd * (10 : ℚ) ^ (-6 : ℤ)
  freeRequests : a.freeRequests = command.freeRequests
  nonneg : ∀ f, 0 ≤ a.amount f

/-- Of a command that passed the checks only the number of requests can be too long. -/
theorem topUpArgs_of {command : BalanceTopUp} (h : validateTopUp command = .ok ()) :
    ∃ a, TopUpArgs.Of a command ∧
      topUpArgs command = if tooManyDigits command.freeRequests then .error .tooManyDigits else .ok a := by
  obtain ⟨_, hp, h⟩ := bind_eq_ok.mp h
  obtain ⟨_, hb, h⟩ := bind_eq_ok.mp h
  obtain ⟨p, p0, hpf, hpr⟩ := validateAmount_ok hp
  obtain ⟨b, b0, hbf, hbr⟩ := validateAmount_ok hb
  have hf : 0 ≤ command.freeRequests := by
    by_contra hn
    rw [if_pos (not_le.mp hn)] at h
    cases h
  refine ⟨⟨command.operationId, command.userId, p, b, command.freeRequests⟩,
    ⟨rfl, rfl, hpr, hbr, rfl, fun f => ?_⟩, ?_⟩
  · cases f <;> first | assumption | exact le_refl _
  · simp only [topUpArgs, moneyToMicros_of_isMicros hpr hpf, moneyToMicros_of_isMicros hbr hbf]
    cases tooManyDigits command.freeRequests <;> rfl

theorem TopUp.of (t : TopUp) : t.args.Of t.command := by
  obtain ⟨a, hof, ha⟩ := topUpArgs_of t.valid
  rw [t.encoded] at ha
  split at ha <;> cases ha
  exact hof

theorem makeTopUp_ok {command : BalanceTopUp} {valid : validateTopUp command = .ok ()} {t : TopUp}
    (h : makeTopUp command valid = .ok t) : t.command = command := by
  unfold makeTopUp at h
  split at h <;> cases h
  rfl

theorem makeTopUp_cases {command : BalanceTopUp} (valid : validateTopUp command = .ok ()) :
    (tooManyDigits command.freeRequests = true ∧ makeTopUp command valid = .error .tooManyDigits) ∨
      tooManyDigits command.freeRequests = false ∧ ∃ t, makeTopUp command valid = .ok t := by
  obtain ⟨a, -, ha⟩ := topUpArgs_of valid
  cases hd : tooManyDigits command.freeRequests with
  | true =>
    rw [hd, if_pos rfl] at ha
    refine .inl ⟨rfl, ?_⟩
    unfold makeTopUp
    split
    · next he => cases ha.symm.trans he; rfl
    · next he => cases ha.symm.trans he
  | false =>
    rw [hd, if_neg Bool.false_ne_true] at ha
    refine .inr ⟨rfl, ?_⟩
    unfold makeTopUp
    split
    · next he => cases ha.symm.trans he
    · exact ⟨_, rfl⟩

/-- The points of `apply_top_up` that await. -/
inductive TopUpPc where
  | calling (t : TopUp) (attempt rounds : ℕ)
  | loading (t : TopUp) (rounds : ℕ) (l : LoaderPc)
  | ended (r : Except Exn Unit)

namespace TopUpPc

def raised (e : Exn) : TopUpPc := .ended (.error e)

def loop (t : TopUp) : ℕ → TopUpPc
  | 0 => raised (.balanceContention "top-up retries exhausted")
  | rounds + 1 => .calling t 1 rounds

/-- The checks, then the loop, whose first round makes what is sent. -/
def start (cfg : Config) (command : BalanceTopUp) : TopUpPc :=
  match h : validateTopUp command, cfg.reserveMaxAttempts with
  | .error e, _ => raised e
  | .ok (), 0 => raised (.balanceContention "top-up retries exhausted")
  | .ok (), rounds + 1 =>
    match makeTopUp command h with
    | .error e => raised e
    | .ok t => .calling t 1 rounds

/-- A top-up begins by raising, or by sending its command. -/
theorem start_cases (cfg : Config) (command : BalanceTopUp) :
    (∃ e, start cfg command = raised e) ∨
      ∃ t k, t.command = command ∧ cfg.reserveMaxAttempts = k + 1 ∧ start cfg command = .calling t 1 k := by
  unfold start
  split
  · exact .inl ⟨_, rfl⟩
  · exact .inl ⟨_, rfl⟩
  next k _ hk =>
  split
  · exact .inl ⟨_, rfl⟩
  next t ht => exact .inr ⟨t, k, makeTopUp_ok ht, hk, rfl⟩

def action : TopUpPc → Action
  | .calling t _ _ => .call (.topUp t.args)
  | .loading t _ l => l.action t.args.userId
  | .ended _ => .none

def resume (cfg : Config) (fresh : Token) : TopUpPc → Input → TopUpPc
  | .calling t _ rounds, .reply (.topUp r) =>
    match topUpOutcome r with
    | .applied | .alreadyApplied => .ended (.ok ())
    | .missing => .loading t rounds .load
  | .calling _ _ _, .reply (.error _) => raised .response
  | .calling t attempt rounds, .lost => cfg.retrying attempt (.calling t · rounds) raised
  | .loading t rounds l, i => (l.resume fresh i).elim (.loading t rounds) (fun _ => loop t rounds) raised
  | pc, _ => pc

end TopUpPc

/-- `get_balance`. -/
inductive BalancePc where
  | loading (l : LoaderPc)
  | ended (r : Except Exn Balance)

def BalancePc.action (u : UserId) : BalancePc → Action
  | .loading l => l.action u
  | .ended _ => .none

def BalancePc.resume (fresh : Token) : BalancePc → Input → BalancePc
  | .loading l, i => (l.resume fresh i).elim .loading (fun b => .ended (.ok b)) fun e => .ended (.error e)
  | pc, _ => pc

/-! ## The reaper -/

def REAPED_ERROR : String := "reaped: reservation exceeded REAP_AFTER_SECONDS"

/-- The points of `reap_once` that await: an id in hand, the ids after it, and
the number reaped so far. -/
inductive ReapPc where
  | listing (cutoff : ℚ)
  | reading (id : RequestId) (todo : List RequestId) (reaped : ℕ)
  | forgetting (id : RequestId) (todo : List RequestId) (reaped attempt : ℕ)
  | refunding (a : RefundArgs) (pc : RefundPc) (todo : List RequestId) (reaped : ℕ)
  | ended (r : Except Exn ℕ)

namespace ReapPc

def raised (e : Exn) : ReapPc := .ended (.error e)

/-- The loop over the stale ids. -/
def next : List RequestId → ℕ → ReapPc
  | [], reaped => .ended (.ok reaped)
  | id :: todo, reaped => .reading id todo reaped

/-- What `refund` sends for a record. -/
def refundArgs (id : RequestId) (record : GenerationRecord) : Except Exn RefundArgs := do
  let plan ← planArgs record.plan
  return ⟨record.userId, REAPED_ERROR, id, plan⟩

/-- Refunds a record that was read as running. -/
def startRefund (cfg : Config) (id : RequestId) (record : GenerationRecord) (todo : List RequestId) (reaped : ℕ) :
    ReapPc :=
  match refundArgs id record with
  | .error e => raised e
  | .ok a => (refundLoop cfg.reserveMaxAttempts).elim (.refunding a · todo reaped) (fun _ => next todo (reaped + 1)) raised

def start (cfg : Config) (now : ℚ) : ReapPc := .listing (cfg.cutoff now)

def action (cfg : Config) : ReapPc → Action
  | .listing cutoff => .call (.staleInflight cutoff cfg.reapBatchSize)
  | .reading id _ _ => .call (.getGeneration id)
  | .forgetting id _ _ _ => .call (.forgetInflight id)
  | .refunding a pc _ _ => pc.action a
  | .ended _ => .none

def resume (cfg : Config) (fresh : Token) : ReapPc → Input → ReapPc
  | .listing _, .reply (.ids stale) => next stale 0
  | .listing _, .lost | .reading _ _ _, .lost => raised .connection
  | .reading id todo reaped, .reply (.record none) => .forgetting id todo reaped 1
  | .reading id todo reaped, .reply (.record (some record)) =>
    if record.status ≠ .running then .forgetting id todo reaped 1
    else startRefund cfg id (recordFromFields record) todo reaped
  | .forgetting _ todo reaped _, .reply (.flag _) => next todo reaped
  | .forgetting id todo reaped attempt, .lost => cfg.retrying attempt (.forgetting id todo reaped ·) raised
  | .refunding a pc todo reaped, i =>
    (pc.resume cfg fresh i).elim (.refunding a · todo reaped) (fun _ => next todo (reaped + 1)) raised
  | pc, _ => pc

end ReapPc

/-! ## One flush -/

/-- A row that was rejected: the balance that was to be written, and the row
that was read again. -/
abbrev Rejected := Balance × UserId × Option Balance

/-- The points of `flush_once` that await. The pipelines of `load_many` and
`clear_dirty` are taken one command at a time. -/
inductive FlushPc where
  | picking
  | loading (users todo : List UserId) (snapshots : List (UserId × Balance))
  | committing (users : List UserId) (rows : List (UserId × Balance))
  | repairing (users : List UserId) (rows : List (UserId × Balance)) (row : UserId × ℤ × ℤ) (todo : List Rejected)
      (written attempt : ℕ)
  | clearing (user : UserId × ℤ) (todo : List (UserId × ℤ)) (written : ℕ)
  | ended (r : Except Exn ℕ)

namespace FlushPc

def raised (e : Exn) : FlushPc := .ended (.error e)

/-- `clear_dirty`, a user without a snapshot being cleared at version `-1`. -/
def clear (written : ℕ) : List (UserId × ℤ) → FlushPc
  | [] => .ended (.ok written)
  | user :: todo => .clearing user todo written

def cleared (users : List UserId) (rows : List (UserId × Balance)) : List (UserId × ℤ) :=
  users.map fun u => (u, ((rows.lookup u).map Balance.version).getD (-1))

/-- `_repair_regressed` over the rejected rows: a row is repaired when the one
that was read again is another. -/
def repair (users : List UserId) (rows : List (UserId × Balance)) (written : ℕ) : List Rejected → FlushPc
  | [] => clear written (cleared users rows)
  | (row, u, stored) :: todo =>
    match stored with
    | none => repair users rows written todo
    | some stored =>
      if sameState (snapshotFromHash stored) (snapshotFromHash row) then repair users rows written todo
      else .repairing users rows (u, row.version, stored.version + 1) todo written 1

/-- The snapshots are read: their rows are written, when there are any. -/
def write (users : List UserId) (rows : List (UserId × Balance)) : FlushPc :=
  if rows.isEmpty then clear 0 (cleared users rows) else .committing users rows

def load (users : List UserId) (snapshots : List (UserId × Balance)) : List UserId → FlushPc
  | [] => write users snapshots
  | u :: todo => .loading users (u :: todo) snapshots

def action (cfg : Config) : FlushPc → Action
  | .picking => .call (.dirtyUsers cfg.flushBatchSize)
  | .loading _ [] _ => .none
  | .loading _ (u :: _) _ => .call (.load u)
  | .committing _ rows => .commit rows
  | .repairing _ _ (u, expected, newVersion) _ _ _ => .call (.advanceVersion u expected newVersion)
  | .clearing (u, version) _ _ => .call (.clearDirty u version)
  | .ended _ => .none

def resume (cfg : Config) : FlushPc → Input → FlushPc
  | .picking, .reply (.users users) => if users.isEmpty then .ended (.ok 0) else load users [] users
  | .loading users (u :: todo) snapshots, .reply (.balance b) =>
    load users (snapshots ++ (b.map (u, ·)).toList) todo
  | .committing users rows, .committed (some (written, rejected)) => repair users rows written.length rejected
  | .committing _ _, .committed none => raised .database
  | .repairing users rows _ todo written _, .reply (.flag _) => repair users rows written todo
  | .repairing users rows row todo written attempt, .lost =>
    cfg.retrying attempt (.repairing users rows row todo written ·) raised
  | .clearing _ todo written, .reply (.flag _) => clear written todo
  | .picking, .lost | .loading _ _ _, .lost | .clearing _ _ _, .lost => raised .connection
  | pc, _ => pc

end FlushPc

/-! ## Calls -/

/-- What a call is asked for. -/
inductive Job where
  | gen (request : GenerationRequest)
  | topUp (command : BalanceTopUp)
  | balance (u : UserId)
  | reap (now : ℚ)
  | flush

/-- A call, at the point where it awaits. -/
inductive Proc where
  | idle
  | gen (request : GenerationRequest) (pc : GenPc)
  | topUp (command : BalanceTopUp) (pc : TopUpPc)
  | balance (u : UserId) (pc : BalancePc)
  | reap (pc : ReapPc)
  | flush (pc : FlushPc)
  /-- Its process died, or it was cancelled. -/
  | crashed

def Job.start (cfg : Config) : Job → Proc
  | .gen request => .gen request (.start cfg request)
  | .topUp command => .topUp command (.start cfg command)
  | .balance u => .balance u (.loading .load)
  | .reap now => .reap (.start cfg now)
  | .flush => .flush .picking

namespace Proc

def action (cfg : Config) : Proc → Action
  | .idle | .crashed => .none
  | .gen request pc => pc.action request
  | .topUp _ pc => pc.action
  | .balance u pc => pc.action u
  | .reap pc => pc.action cfg
  | .flush pc => pc.action cfg

/-- The call goes on with what it awaited. `fresh` is the token it draws if it
draws one, `now` the time it reads if it reads the clock. -/
def resume (cfg : Config) (fresh : Token) (now : ℚ) : Proc → Input → Proc
  | .gen request pc, i => .gen request (pc.resume cfg request fresh now i)
  | .topUp command pc, i => .topUp command (pc.resume cfg fresh i)
  | .balance u pc, i => .balance u (pc.resume fresh i)
  | .reap pc, i => .reap (pc.resume cfg fresh i)
  | .flush pc, i => .flush (pc.resume cfg i)
  | .idle, _ => .idle
  | .crashed, _ => .crashed

end Proc

end GenerationBalance
