/-
A call of a service as a state machine: it runs to its next `await`, and is
resumed with what that `await` gives. Here the parts the services share: the
loader (`backend/app/billing/balance_loader.py`), the refunder
(`backend/app/billing/refund.py`) and the retries of the store adapter.

Time is not modelled: a deadline that is compared with the clock may have
passed or not whenever it is compared.
-/
import GenerationBalance.Doubles
import GenerationBalance.Store
import GenerationBalance.Texts

namespace GenerationBalance

structure Config where
  /-- `RESERVE_MAX_ATTEMPTS`. -/
  reserveMaxAttempts : ℕ := 100
  /-- `FLUSH_BATCH_SIZE`. -/
  flushBatchSize : ℕ := 500
  /-- `REAP_AFTER_SECONDS`. -/
  reapAfterSeconds : ℚ := 300
  /-- `REAP_BATCH_SIZE`. -/
  reapBatchSize : ℕ := 100
  /-- `RETRY_ATTEMPTS` of the store adapter. -/
  retryAttempts : ℕ := 3
  /- Of the interpreter: the longest text of an amount there is room for, and
  `str.isprintable` of the characters beyond ASCII. -/
  textRoom : ℕ := 2 ^ 32
  printable : Char → Bool := fun _ => true

/-- The latest start of a reservation that is stale: a difference of floats. -/
def Config.cutoff (cfg : Config) (now : ℚ) : ℚ := Double.round (now - cfg.reapAfterSeconds)

theorem Config.cutoff_mono (cfg : Config) : Monotone cfg.cutoff :=
  fun _ _ h => Double.round_mono (sub_le_sub_right h _)

/-- What is stale is `REAP_AFTER_SECONDS` old, but for the rounding of the difference. -/
theorem Config.old_of_cutoff {cfg : Config} {now startedAt : ℚ} (h : startedAt ≤ cfg.cutoff now) :
    startedAt + cfg.reapAfterSeconds ≤ now + 2 ^ Double.exponent (now - cfg.reapAfterSeconds) / 2 := by
  obtain ⟨hnear, -⟩ := abs_le.mp (Double.round_near (now - cfg.reapAfterSeconds))
  unfold Config.cutoff at h
  linarith

/-- How the provider's call ends: with a result, or raising an exception with a
message (`none` when its `__str__` raises) and a type, which is an `Exception` or (a
cancellation) is not. -/
inductive ProviderOutcome where
  | result (content : PyStr) (billedCostUsd : Number)
  | raised (message : Option PyStr) (typeName : String) (isException : Bool)

/-- What an `await` gives. -/
inductive Input where
  | reply (r : Reply)
  /-- A connection error or timeout of a Redis call. -/
  | lost
  /-- The row of a user; `none` when the transaction failed. -/
  | row (r : Option (Option Balance))
  /-- The users whose rows were written, and the rows read again of the others;
  `none` when the transaction failed. -/
  | committed (r : Option (List UserId × List (Balance × UserId × Option Balance)))
  /-- The provider was called. -/
  | called
  | provided (o : ProviderOutcome)
  | timeout
  | wake

/-- What a call awaits. -/
inductive Action where
  | call (c : Call)
  | select (u : UserId)
  | commit (rows : List (UserId × Balance))
  | provider (request : GenerationRequest)
  | answer
  | wait
  | none

/-- How a part of a call goes on: it awaits again, returns, or raises. -/
inductive Next (σ α : Type) where
  | run (s : σ)
  | ret (a : α)
  | raise (e : Exn)

def Next.elim {σ α τ : Type} (n : Next σ α) (run : σ → τ) (ret : α → τ) (raise : Exn → τ) : τ :=
  match n with
  | .run s => run s
  | .ret a => ret a
  | .raise e => raise e

/-- `_retrying`: a lost call is made again until the attempts are used up. -/
def Config.retrying {τ : Type} (cfg : Config) (attempt : ℕ) (again : ℕ → τ) (raise : Exn → τ) : τ :=
  if cfg.retryAttempts ≤ attempt then raise .connection else again (attempt + 1)

/-! ## The loader -/

/-- How `ensure_loaded` goes on after its `finally`. -/
inductive Exit where
  | ret (b : Balance)
  | again
  | raise (e : Exn)

/-- The points of `ensure_loaded` that await. -/
inductive LoaderPc where
  | load
  | tryLock (token : Token)
  | recheck (token : Token)
  | select (token : Token)
  | seed (token : Token) (b : Balance)
  | release (token : Token) (exit : Exit)
  | poll

def Exit.next : Exit → Next LoaderPc Balance
  | .ret b => .ret b
  | .again => .run .load
  | .raise e => .raise e

/-- `_load_from_db`: an absent row is the zero balance. -/
def loadedSnapshot : Option Balance → BalanceSnapshot
  | none => .zero
  | some row => snapshotFromHash row

@[simp] theorem snapshotArgs_loaded (row : Option Balance) :
    snapshotArgs (loadedSnapshot row) = .ok (row.getD .zero) := by
  cases row with
  | none => exact snapshotArgs_zero
  | some b => exact snapshotArgs_snapshotFromHash b

def LoaderPc.action (u : UserId) : LoaderPc → Action
  | .load | .recheck _ => .call (.load u)
  | .tryLock token => .call (.tryAcquireLoadLock u token)
  | .select _ => .select u
  | .seed _ b => .call (.seedIfAbsent u b)
  | .release token _ => .call (.releaseLoadLock u token)
  | .poll => .wait

/-- `ensure_loaded`; `fresh` is the token the next lock attempt draws. An input
that the point does not await leaves it where it is. -/
def LoaderPc.resume (fresh : Token) : LoaderPc → Input → Next LoaderPc Balance
  | .load, .reply (.balance (some b)) => .ret b
  | .load, .reply (.balance none) => .run (.tryLock fresh)
  | .load, .lost => .raise .connection
  | .tryLock token, .reply (.flag true) => .run (.recheck token)
  | .tryLock _, .reply (.flag false) => .run .poll
  | .tryLock _, .lost => .raise .connection
  -- From here to the release, whatever is raised is raised after it.
  | .recheck token, .reply (.balance (some b)) => .run (.release token (.ret b))
  | .recheck token, .reply (.balance none) => .run (.select token)
  | .recheck token, .lost => .run (.release token (.raise .connection))
  | .select token, .row (some row) =>
    match snapshotArgs (loadedSnapshot row) with
    | .ok b => .run (.seed token b)
    | .error e => .run (.release token (.raise e))
  | .select token, .row none => .run (.release token (.raise .database))
  | .seed token _, .reply (.flag _) => .run (.release token .again)
  | .seed token _, .lost => .run (.release token (.raise .connection))
  | .release _ exit, .reply (.flag _) => exit.next
  | .release _ _, .lost => .raise .connection
  | .poll, .wake => .run .load
  | .poll, .timeout => .raise (.balanceContention "balance load timed out")
  | pc, _ => .run pc

/-! ## The refunder -/

/-- The points of `ReservationRefunder.refund` that await: the call, its attempt
and the rounds left after it; or the loader. -/
inductive RefundPc where
  | calling (attempt rounds : ℕ)
  | loading (rounds : ℕ) (l : LoaderPc)

/-- The loop, with the rounds it has left. -/
def refundLoop : ℕ → Next RefundPc Unit
  | 0 => .raise (.balanceContention "refund retries exhausted")
  | rounds + 1 => .run (.calling 1 rounds)

def RefundPc.action (a : RefundArgs) : RefundPc → Action
  | .calling _ _ => .call (.refund a)
  | .loading _ l => l.action a.userId

def RefundPc.resume (cfg : Config) (fresh : Token) : RefundPc → Input → Next RefundPc Unit
  | .calling _ rounds, .reply (.refund r) =>
    match refundOutcome r with
    | .applied | .stale => .ret ()
    | .missing => .run (.loading rounds .load)
  | .calling _ _, .reply (.error _) => .raise .response
  | .calling attempt rounds, .lost => cfg.retrying attempt (fun n => .run (.calling n rounds)) .raise
  | .loading rounds l, i =>
    (l.resume fresh i).elim (fun l => .run (.loading rounds l)) (fun _ => refundLoop rounds) .raise
  | pc, _ => .run pc

end GenerationBalance
