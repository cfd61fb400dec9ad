/-
The rest of the store on strings: the keys that hold a string, the scripts that were
left (`backend/infra/database/redis/scripts.py`), and every request of the adapter, as
it is sent and as its reply is read
(`backend/infra/database/redis/adapters/balance_store.py`).
-/
import GenerationBalance.Decoding
import Mathlib.Data.String.Basic

namespace GenerationBalance

/-! ## Keys that hold a string -/

/-- The hashes and the two sets, and the keys that hold a string. -/
structure RawStore where
  raw : RawRedis
  strings : Table String String

def RawStore.empty : RawStore where
  raw := ⟨.empty, ∅, .empty⟩
  strings := .empty

/-- A script on all of the store. -/
def RawScript (α : Type) : Type := RawStore → Except ScriptError α × RawStore

instance : Monad RawScript where
  pure a s := (.ok a, s)
  bind x f s :=
    match x s with
    | (.ok a, s') => f a s'
    | (.error e, s') => (.error e, s')

instance : MonadLift Lua RawScript where
  monadLift x s := Prod.map id ({ s with raw := · }) (x s.raw)

namespace RawScript

variable {α β : Type}

theorem bind_apply (x : RawScript α) (f : α → RawScript β) (s : RawStore) :
    (x >>= f) s = match x s with | (.ok a, s') => f a s' | (.error e, s') => (.error e, s') := rfl

theorem lift_apply (x : Lua α) (s : RawStore) :
    (liftM x : RawScript α) s = Prod.map id ({ s with raw := · }) (x s.raw) := rfl

/-- A key exists when it holds anything. -/
def EXISTS (key : String) : RawScript Bool := fun s =>
  (.ok ((s.raw.hashes.get key).isSome || (s.strings.get key).isSome), s)

def GET (key : String) : RawScript (Option String) := fun s => (.ok (s.strings.get key), s)

/-- `SET`, its time to live is not kept. -/
def SET (key value : String) : RawScript Unit := fun s => (.ok (), { s with strings := s.strings.set key value })

/-- `SET` with `NX`: whether the key was free, and is set now. -/
def SETNX (key value : String) : RawScript Bool := fun s =>
  if (s.raw.hashes.get key).isSome || (s.strings.get key).isSome then (.ok false, s)
  else (.ok true, { s with strings := s.strings.set key value })

/-- Answers how many keys were deleted. -/
def DEL (key : String) : RawScript ℤ := fun s =>
  (.ok (if (s.raw.hashes.get key).isSome || (s.strings.get key).isSome then 1 else 0),
    { raw := { s.raw with hashes := s.raw.hashes.del key }, strings := s.strings.del key })

theorem EXISTS_bind (key : String) (f : Bool → RawScript β) (s : RawStore) :
    (EXISTS key >>= f) s = f ((s.raw.hashes.get key).isSome || (s.strings.get key).isSome) s := rfl

theorem GET_bind (key : String) (f : Option String → RawScript β) (s : RawStore) :
    (GET key >>= f) s = f (s.strings.get key) s := rfl

theorem HGET_bind (key field : String) (f : Option String → RawScript β) (s : RawStore) :
    (liftM (Lua.HGET key field) >>= f : RawScript β) s = f ((s.raw.hashes.get key).bind (·.get field)) s := rfl

end RawScript

namespace Lua

def SREM (member : String) : Lua Unit := fun s => (.ok (), { s with dirty := s.dirty.erase member })

/-- `ZREM` from outside of a script: how many members were removed. -/
def ZREM' (member : String) : Lua ℤ := fun s =>
  (.ok (if (s.inflight.get member).isSome then 1 else 0), { s with inflight := s.inflight.del member })

/-- A key that is missing is an empty hash. -/
def HGETALL (key : String) : Lua Fields := fun s => (.ok ((s.hashes.get key).getD .empty), s)

/-- `ZRANGEBYSCORE key -inf max LIMIT 0 num`: by score, ties by member. -/
def ZRANGEBYSCORE (score : String → Option ℚ) (max : ℚ) (num : ℕ) : Lua (List String) := fun s =>
  let entries : Finset (ℚ ×ₗ String) :=
    s.inflight.keys.image fun m => toLex (((s.inflight.get m).bind score).getD 0, m)
  (.ok ((((entries.filter fun e => (ofLex e).1 ≤ max).sort (· ≤ ·)).map fun e => (ofLex e).2).take num), s)

end Lua

/-! ## The scripts -/

section Scripts

open RawScript

variable (KEYS ARGV : List String)

def TOP_UP : RawScript (List String) := do
  let KEYS := arg KEYS
  let ARGV := arg ARGV
  if ← EXISTS (KEYS 2) then return ["DUP"]
  if !(← EXISTS (KEYS 1)) then return ["MISSING"]
  let _ ← Lua.HINCRBY (KEYS 1) "paid_usd" (ARGV 3)
  let _ ← Lua.HINCRBY (KEYS 1) "bonus_usd" (ARGV 4)
  let _ ← Lua.HINCRBY (KEYS 1) "free_requests" (ARGV 5)
  let _ ← Lua.HINCRBY (KEYS 1) "version" "1"
  SET (KEYS 2) (ARGV 1)
  Lua.SADD (ARGV 1)
  return ["OK"]

def SEED_IF_ABSENT : RawScript ℤ := do
  let KEYS := arg KEYS
  let ARGV := arg ARGV
  if ← EXISTS (KEYS 1) then return 0
  Lua.HSET (KEYS 1) [("free_usd", ARGV 1), ("bonus_usd", ARGV 2), ("paid_usd", ARGV 3), ("free_requests", ARGV 4),
    ("version", ARGV 5)]
  return 1

def ADVANCE_VERSION : RawScript ℤ := do
  let KEYS := arg KEYS
  let ARGV := arg ARGV
  if (← Lua.HGET (KEYS 1) "version") ≠ some (ARGV 1) then return 0
  Lua.HSET (KEYS 1) [("version", ARGV 2)]
  Lua.SADD (ARGV 3)
  return 1

def RELEASE_LOAD_LOCK : RawScript ℤ := do
  let KEYS := arg KEYS
  let ARGV := arg ARGV
  if (← GET (KEYS 1)) = some (ARGV 1) then return (← DEL (KEYS 1))
  return 0

def CLEAR_DIRTY : RawScript ℤ := do
  let KEYS := arg KEYS
  let ARGV := arg ARGV
  if !(← EXISTS (KEYS 1)) || (← Lua.HGET (KEYS 1) "version") == some (ARGV 1) then
    Lua.SREM (ARGV 2)
    return 1
  return 0

end Scripts

/-! ## Requests -/

/-- What Redis sends back. -/
inductive RawReply where
  | strings (reply : List String)
  | integer (n : ℤ)
  | hash (fields : Fields)
  /-- `OK` of a `SET`, or nil. -/
  | set (done : Bool)
  | error (e : ScriptError)

/-- The reply of a script, or its error. -/
def rawReply {α : Type} (f : α → RawReply) : Except ScriptError α × RawStore → RawReply × RawStore
  | (.ok a, s) => (f a, s)
  | (.error e, s) => (.error e, s)

namespace Adapter

variable (A : Adapter)

def loadLockKey (u : UserId) : String := "bal:load:" ++ A.uuid.str u

def topUpKey (o : OperationId) : String := "topup:" ++ A.uuid.str o

/-- `_snapshot_args`, and the version. -/
def seedArgs (b : Balance) : List String :=
  [b.freeUsd.repr, b.bonusUsd.repr, b.paidUsd.repr, b.freeRequests.repr, b.version.repr]

def topUpArgs (a : TopUpArgs) : List String :=
  [A.uuid.str a.userId, A.ttl, a.paidUsd.repr, a.bonusUsd.repr, a.freeRequests.repr]

/-- What Redis makes of a request. `SRANDMEMBER` answers `pick`, when that is an answer. -/
def perform (pick : List UserId) (s : RawStore) : Call → Option (RawReply × RawStore)
  | .load u => some (rawReply .hash ((liftM (Lua.HGETALL (A.balanceKey u)) : RawScript Fields) s))
  | .tryAcquireLoadLock u token => some (rawReply .set (RawScript.SETNX (A.loadLockKey u) (A.hex.str token) s))
  | .releaseLoadLock u token => some (rawReply .integer (RELEASE_LOAD_LOCK [A.loadLockKey u] [A.hex.str token] s))
  | .seedIfAbsent u b => some (rawReply .integer (SEED_IF_ABSENT [A.balanceKey u] (seedArgs b) s))
  | .advanceVersion u expected newVersion =>
    some (rawReply .integer
      (ADVANCE_VERSION [A.balanceKey u, "bal:dirty"] [expected.repr, newVersion.repr, A.uuid.str u] s))
  | .reserve a => some (rawReply .strings ((liftM (A.RESERVE a) : RawScript (List String)) s))
  | .getGeneration id => some (rawReply .hash ((liftM (Lua.HGETALL (A.generationKey id)) : RawScript Fields) s))
  | .settle a => some (rawReply .strings ((liftM (A.SETTLE a) : RawScript (List String)) s))
  | .refund a => some (rawReply .strings ((liftM (A.REFUND a) : RawScript (List String)) s))
  | .topUp a =>
    some (rawReply .strings (TOP_UP [A.balanceKey a.userId, A.topUpKey a.operationId, "bal:dirty"] (A.topUpArgs a) s))
  | .staleInflight olderThan limit =>
    some (rawReply .strings ((liftM (Lua.ZRANGEBYSCORE A.float.read olderThan limit) : RawScript (List String)) s))
  | .forgetInflight id => some (rawReply .integer ((liftM (Lua.ZREM' (A.uuid.str id)) : RawScript ℤ) s))
  | .dirtyUsers limit =>
    let members := pick.map A.uuid.str
    if members.Nodup ∧ (∀ m ∈ members, m ∈ s.raw.dirty) ∧ members.length = min limit s.raw.dirty.card then
      some (.strings members, s)
    else none
  | .clearDirty u version =>
    some (rawReply .integer (CLEAR_DIRTY [A.balanceKey u, "bal:dirty"] [version.repr, A.uuid.str u] s))

/-! ## Replies -/

/-- What a method of the adapter returns. -/
inductive Heard where
  | balance (b : Option BalanceSnapshot)
  | record (g : Option GenerationRecord)
  | ids (l : List RequestId)
  | users (l : List UserId)
  /-- Whether it was done, or `None`. -/
  | flag (done : Option Bool)
  | reserve (o : Outcome)
  | settle (o : SettleOutcome)
  | refund (o : RefundOutcome)
  | topUp (o : TopUpOutcome)
  /-- The `ResponseError` of a script that failed. -/
  | raised (e : ScriptError)

/-- `_snapshot_from_hash`; `none` when it raises. -/
def snapshotFromHash (fields : Fields) : Option BalanceSnapshot := do
  let freeUsd ← readMicros (← fields.get "free_usd")
  let bonusUsd ← readMicros (← fields.get "bonus_usd")
  let paidUsd ← readMicros (← fields.get "paid_usd")
  let freeRequests ← (← fields.get "free_requests").toInt?
  let version ← (← fields.get "version").toInt?
  return { freeUsd, bonusUsd, paidUsd, freeRequests, version }

/-- `Option(read(fields) if fields else None)`. -/
def orNone {α : Type} (read : Fields → Option α) (fields : Fields) : Option (Option α) :=
  if fields.keys = ∅ then some none else (read fields).map some

/-- `match reply[0]` of `settle`. -/
def settleOutcome (reply : List String) : Option SettleOutcome :=
  reply[0]?.map fun
    | "OK" => .applied
    | "DONE" => .alreadyApplied
    | "MISSING" => .missing
    | _ => .stale

/-- `match reply[0]` of `refund`. -/
def refundOutcome (reply : List String) : Option RefundOutcome :=
  reply[0]?.map fun
    | "OK" => .applied
    | "MISSING" => .missing
    | _ => .stale

/-- `match reply[0]` of `top_up`. -/
def topUpOutcome (reply : List String) : Option TopUpOutcome :=
  reply[0]?.map fun
    | "OK" => .applied
    | "MISSING" => .missing
    | _ => .alreadyApplied

/-- What a method returns of a reply; `none` when it raises. -/
def hears : Call → RawReply → Option Heard
  | _, .error e => some (.raised e)
  | .load _, .hash fields => (orNone snapshotFromHash fields).map .balance
  | .getGeneration _, .hash fields => (orNone A.recordFromFields fields).map .record
  | .tryAcquireLoadLock _ _, .set done => some (.flag (some done))
  | .seedIfAbsent _ _, .integer n | .advanceVersion _ _ _, .integer n => some (.flag (some (n ≠ 0)))
  | .releaseLoadLock _ _, .integer _ | .forgetInflight _, .integer _ | .clearDirty _ _, .integer _ =>
    some (.flag none)
  | .reserve a, .strings reply => (A.reserveOutcome a.reservationToken reply).map .reserve
  | .settle _, .strings reply => (settleOutcome reply).map .settle
  | .refund _, .strings reply => (refundOutcome reply).map .refund
  | .topUp _, .strings reply => (topUpOutcome reply).map .topUp
  | .staleInflight _ _, .strings reply => (reply.mapM A.uuid.read).map .ids
  | .dirtyUsers _, .strings reply => (reply.mapM A.uuid.read).map .users
  | _, _ => none

/-- The method returns `None`. -/
def isSilent : Call → Bool
  | .releaseLoadLock _ _ | .forgetInflight _ | .clearDirty _ _ => true
  | _ => false

/-- The token a reply of `RESERVE` is compared with. -/
def tokenOf : Call → Token
  | .reserve a => a.reservationToken
  | _ => ⟨0, 0⟩

/-- What a method returns when it was answered with typed values. -/
def heard (c : Call) : Reply → Heard
  | .balance b => .balance (b.map GenerationBalance.snapshotFromHash)
  | .record r => .record (r.map fun r => GenerationBalance.recordFromFields r.plain)
  | .ids l => .ids l
  | .users l => .users l
  | .flag done => .flag (if isSilent c then none else some done)
  | .reserve r => .reserve (outcome (GenerationBalance.reserveOutcome (tokenOf c) r))
  | .settle r => .settle (GenerationBalance.settleOutcome r)
  | .refund r => .refund (GenerationBalance.refundOutcome r)
  | .topUp r => .topUp (GenerationBalance.topUpOutcome r)
  | .error e => .raised e

end Adapter

end GenerationBalance
