/-
The Lua sources of RESERVE, SETTLE and REFUND as they are
(`backend/infra/database/redis/scripts.py`): on keys, fields, arguments and
replies that are strings.
-/
import GenerationBalance.Numerals
import GenerationBalance.Redis

namespace GenerationBalance

/-! ## Hashes of strings -/

/-- A hash, or a Python dict of strings. -/
abbrev Fields := Table String String

/-- The keys the scripts use. -/
structure RawRedis where
  hashes : Table String Fields
  dirty : Finset String
  inflight : Table String String

/-- A script on strings: it may be stopped by one of its commands, and the writes before stay. -/
def Lua (α : Type) : Type := RawRedis → Except ScriptError α × RawRedis

instance : Monad Lua where
  pure a s := (.ok a, s)
  bind x f s :=
    match x s with
    | (.ok a, s') => f a s'
    | (.error e, s') => (.error e, s')

/-- A signed 64-bit integer as Redis reads it: only in the notation it prints. -/
def integer (raw : String) : Option ℤ := raw.toInt?.filter fun n => n.repr = raw ∧ InRange n

namespace Lua

theorem bind_apply {α β : Type} (x : Lua α) (f : α → Lua β) (s : RawRedis) :
    (x >>= f) s = match x s with | (.ok a, s') => f a s' | (.error e, s') => (.error e, s') := rfl

def EXISTS (key : String) : Lua Bool := fun s => (.ok (s.hashes.get key).isSome, s)

def HGET (key field : String) : Lua (Option String) := fun s => (.ok ((s.hashes.get key).bind (·.get field)), s)

def HMGET (key : String) (fields : List String) : Lua (List (Option String)) := fun s =>
  (.ok (fields.map fun field => (s.hashes.get key).bind (·.get field)), s)

def HSET (key : String) (pairs : List (String × String)) : Lua Unit := fun s =>
  (.ok (), { s with hashes := s.hashes.set key (((s.hashes.get key).getD .empty).setAll pairs) })

def HINCRBY (key field increment : String) : Lua ℤ := fun s =>
  let h := (s.hashes.get key).getD .empty
  match integer ((h.get field).getD "0"), integer increment with
  | some n, some d =>
    if InRange (n + d) then (.ok (n + d), { s with hashes := s.hashes.set key (h.set field (n + d).repr) })
    else (.error .notAnInteger, s)
  | _, _ => (.error .notAnInteger, s)

/-- The record gets a time to live, which is not kept. -/
def EXPIRE (_key _seconds : String) : Lua Unit := fun s => (.ok (), s)

/- The sets `bal:dirty` and `gen:inflight` are the only ones of their kind. -/

def ZADD (score member : String) : Lua Unit := fun s => (.ok (), { s with inflight := s.inflight.set member score })

def ZREM (member : String) : Lua Unit := fun s => (.ok (), { s with inflight := s.inflight.del member })

def SADD (member : String) : Lua Unit := fun s => (.ok (), { s with dirty := insert member s.dirty })

section Reads

variable {β : Type} (s : RawRedis) (key field : String)

theorem EXISTS_bind (f : Bool → Lua β) : (EXISTS key >>= f) s = f (s.hashes.get key).isSome s := rfl

theorem HGET_bind (f : Option String → Lua β) :
    (HGET key field >>= f) s = f ((s.hashes.get key).bind (·.get field)) s := rfl

theorem HMGET_bind (fields : List String) (f : List (Option String) → Lua β) :
    (HMGET key fields >>= f) s = f (fields.map fun field => (s.hashes.get key).bind (·.get field)) s := rfl

end Reads

end Lua

/-! ## The scripts -/

/-- `KEYS` and `ARGV` are counted from one. -/
def arg (args : List String) (i : ℕ) : String := args.getD (i - 1) ""

/-- The fields `RESERVE` answers a duplicate with. -/
def recordFields : List String :=
  ["status", "user_id", "dialog_id", "model_name", "plan_free_usd", "plan_bonus_usd", "plan_paid_usd",
    "plan_free_requests", "authorized_cost_usd", "started_at", "content", "billed_cost_usd",
    "provider_billed_cost_usd", "refunded_surplus_usd", "error", "reservation_token"]

/-- The local function of `RESERVE`. -/
def neg (s : String) : String := if s = "0" then s else "-" ++ s

section Scripts

/- How Lua prints a number, which nothing reads. -/
variable (tostring : ℤ → String) (KEYS ARGV : List String)

def RESERVE : Lua (List String) := do
  let KEYS := arg KEYS
  let ARGV := arg ARGV
  if ← Lua.EXISTS (KEYS 2) then
    let r ← Lua.HMGET (KEYS 2) recordFields
    return "DUP" :: r.map (·.getD "")
  if !(← Lua.EXISTS (KEYS 1)) then return ["MISSING"]
  let c ← Lua.HMGET (KEYS 1) ["version", "free_usd", "bonus_usd", "paid_usd", "free_requests"]
  let c := fun i => c.getD (i - 1) none
  if c 1 ≠ some (ARGV 1) then
    -- A balance has all five fields.
    return ["CONFLICT", (c 2).getD "", (c 3).getD "", (c 4).getD "", (c 5).getD "", (c 1).getD ""]
  let _ ← Lua.HINCRBY (KEYS 1) "free_usd" (neg (ARGV 5))
  let _ ← Lua.HINCRBY (KEYS 1) "bonus_usd" (neg (ARGV 6))
  let _ ← Lua.HINCRBY (KEYS 1) "paid_usd" (neg (ARGV 7))
  let _ ← Lua.HINCRBY (KEYS 1) "free_requests" (neg (ARGV 8))
  let v ← Lua.HINCRBY (KEYS 1) "version" "1"
  Lua.HSET (KEYS 2) [("status", "running"), ("user_id", ARGV 2), ("dialog_id", ARGV 3), ("model_name", ARGV 4),
    ("plan_free_usd", ARGV 5), ("plan_bonus_usd", ARGV 6), ("plan_paid_usd", ARGV 7),
    ("plan_free_requests", ARGV 8), ("authorized_cost_usd", ARGV 9), ("started_at", ARGV 10),
    ("reservation_token", ARGV 13)]
  Lua.EXPIRE (KEYS 2) (ARGV 11)
  Lua.ZADD (ARGV 10) (ARGV 12)
  Lua.SADD (ARGV 2)
  return ["OK", tostring v]

def SETTLE : Lua (List String) := do
  let KEYS := arg KEYS
  let ARGV := arg ARGV
  let status ← Lua.HGET (KEYS 1) "status"
  if status = some "done" then return ["DONE"]
  if status ≠ some "running" then return ["STALE"]
  if ARGV 7 ≠ "0" ∨ ARGV 8 ≠ "0" ∨ ARGV 9 ≠ "0" then
    if !(← Lua.EXISTS (KEYS 2)) then return ["MISSING"]
    let _ ← Lua.HINCRBY (KEYS 2) "free_usd" (ARGV 7)
    let _ ← Lua.HINCRBY (KEYS 2) "bonus_usd" (ARGV 8)
    let _ ← Lua.HINCRBY (KEYS 2) "paid_usd" (ARGV 9)
    let _ ← Lua.HINCRBY (KEYS 2) "version" "1"
    Lua.SADD (ARGV 6)
  Lua.HSET (KEYS 1) [("status", "done"), ("content", ARGV 1), ("billed_cost_usd", ARGV 2),
    ("provider_billed_cost_usd", ARGV 3), ("refunded_surplus_usd", ARGV 10)]
  Lua.EXPIRE (KEYS 1) (ARGV 4)
  Lua.ZREM (ARGV 5)
  return ["OK"]

def REFUND : Lua (List String) := do
  let KEYS := arg KEYS
  let ARGV := arg ARGV
  if (← Lua.HGET (KEYS 2) "status") ≠ some "running" then return ["STALE"]
  if !(← Lua.EXISTS (KEYS 1)) then return ["MISSING"]
  let _ ← Lua.HINCRBY (KEYS 1) "free_usd" (ARGV 5)
  let _ ← Lua.HINCRBY (KEYS 1) "bonus_usd" (ARGV 6)
  let _ ← Lua.HINCRBY (KEYS 1) "paid_usd" (ARGV 7)
  let _ ← Lua.HINCRBY (KEYS 1) "free_requests" (ARGV 8)
  let _ ← Lua.HINCRBY (KEYS 1) "version" "1"
  Lua.HSET (KEYS 2) [("status", "failed"), ("error", ARGV 2)]
  Lua.EXPIRE (KEYS 2) (ARGV 3)
  Lua.ZREM (ARGV 4)
  Lua.SADD (ARGV 1)
  return ["OK"]

end Scripts

end GenerationBalance
