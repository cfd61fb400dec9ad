/-
The hot store: the Redis keys the service uses, and its Lua scripts
(`backend/infra/database/redis/scripts.py`).

A script is a state transformer that may be stopped by an error of one of its
commands; the writes before the error stay. What each script does when no
command fails is said once, by its `_ok` lemma.

Keys are typed: `bal:{user}` is a hash of five integers, `gen:{id}` a
generation hash, `topup:{op}` and `bal:load:{user}` strings, `bal:dirty` a set
and `gen:inflight` a sorted set. A time to live is not kept: a key that has
one may expire in any later step of the system.
-/
import GenerationBalance.Money
import GenerationBalance.Table

namespace GenerationBalance

/-! ## Keys -/

/-- A `uuid4` token, named by the process that drew it and the number of the
draw, so that no two draws agree. -/
structure Token where
  owner : ℕ
  draw : ℕ
deriving DecidableEq, Repr

/-- The integers `HINCRBY` works on. -/
def InRange (n : ℤ) : Prop := -2 ^ 63 ≤ n ∧ n < 2 ^ 63

instance (n : ℤ) : Decidable (InRange n) := inferInstanceAs (Decidable (_ ∧ _))

theorem InRange.fits {n : ℤ} (h : InRange n) : Fits n := by
  unfold InRange at h
  unfold Fits Decimal.prec
  omega

inductive Field where
  | freeUsd | bonusUsd | paidUsd | freeRequests | version
deriving DecidableEq, Repr

/-- Whether a field holds an amount (and not the version). -/
def Field.IsAmount (f : Field) : Prop := f ≠ .version

/-- The hash `bal:{user}`: amounts in micro-dollars, and the version. A row of
the PostgreSQL table `balance` holds the same five numbers. -/
@[ext] structure Balance where
  freeUsd : ℤ
  bonusUsd : ℤ
  paidUsd : ℤ
  freeRequests : ℤ
  version : ℤ
  inRange : InRange freeUsd ∧ InRange bonusUsd ∧ InRange paidUsd ∧ InRange freeRequests
deriving DecidableEq

namespace Balance

def get (b : Balance) : Field → ℤ
  | .freeUsd => b.freeUsd
  | .bonusUsd => b.bonusUsd
  | .paidUsd => b.paidUsd
  | .freeRequests => b.freeRequests
  | .version => b.version

theorem ext_get {b c : Balance} (h : ∀ f, b.get f = c.get f) : b = c :=
  Balance.ext (h .freeUsd) (h .bonusUsd) (h .paidUsd) (h .freeRequests) (h .version)

def put (b : Balance) (f : Field) (n : ℤ) (h : InRange n) : Balance :=
  match f with
  | .freeUsd => { b with freeUsd := n, inRange := ⟨h, b.inRange.2⟩ }
  | .bonusUsd => { b with bonusUsd := n, inRange := ⟨b.inRange.1, h, b.inRange.2.2⟩ }
  | .paidUsd => { b with paidUsd := n, inRange := ⟨b.inRange.1, b.inRange.2.1, h, b.inRange.2.2.2⟩ }
  | .freeRequests => { b with freeRequests := n, inRange := ⟨b.inRange.1, b.inRange.2.1, b.inRange.2.2.1, h⟩ }
  | .version => { b with version := n }

theorem get_put (b : Balance) (f g : Field) (n : ℤ) (h : InRange n) :
    (b.put f n h).get g = if g = f then n else b.get g := by
  cases f <;> cases g <;> rfl

def zero : Balance where
  freeUsd := 0
  bonusUsd := 0
  paidUsd := 0
  freeRequests := 0
  version := 0
  inRange := by decide

/-- `HINCRBY`: fails when the field, the increment or the sum is no signed
64-bit integer. -/
def incr (b : Balance) (f : Field) (d : ℤ) : Option Balance :=
  if h : InRange (b.get f) ∧ InRange d ∧ InRange (b.get f + d) then some (b.put f (b.get f + d) h.2.2)
  else none

theorem incr_get {b c : Balance} {f : Field} {d : ℤ} (h : b.incr f d = some c) (g : Field) :
    c.get g = b.get g + if g = f then d else 0 := by
  unfold incr at h
  split at h
  · simp only [Option.some.injEq] at h
    rw [← h, get_put]
    split
    · next hg => rw [hg]
    · simp
  · cases h

/-- No amount is below its floor. -/
def Above (lo : Field → ℤ) (b : Balance) : Prop := ∀ f, Field.IsAmount f → lo f ≤ b.get f

def Nonneg (b : Balance) : Prop := b.Above fun _ => 0

def totalUsd (b : Balance) : ℤ := b.freeUsd + b.bonusUsd + b.paidUsd

end Balance

/-- The amount of a plan in each field of a balance. -/
def DebitPlan.field (p : DebitPlan ℤ) : Field → ℤ
  | .freeUsd => p.freeUsd
  | .bonusUsd => p.bonusUsd
  | .paidUsd => p.paidUsd
  | .freeRequests => p.freeRequests
  | .version => 0

inductive GenerationStatus where
  | running | done | failed
deriving DecidableEq, Repr

/-- The hash `gen:{client_request_id}`. The last five fields are absent until a
script writes them. -/
structure GenerationHash where
  status : GenerationStatus
  userId : UserId
  dialogId : DialogId
  modelName : String
  plan : DebitPlan ℤ
  authorizedCostUsd : ℤ
  startedAt : ℚ
  reservationToken : Token
  content : Option String := none
  billedCostUsd : Option ℤ := none
  providerBilledCostUsd : Option Number := none
  refundedSurplusUsd : Option ℤ := none
  error : Option String := none
deriving DecidableEq

structure Redis where
  bal : Table UserId Balance
  gen : Table RequestId GenerationHash
  topup : Table OperationId UserId
  loadLock : Table UserId Token
  dirty : Finset UserId
  inflight : Table RequestId ℚ

def Redis.empty : Redis where
  bal := .empty
  gen := .empty
  topup := .empty
  loadLock := .empty
  dirty := ∅
  inflight := .empty

def Redis.putBalance (ρ : Redis) (u : UserId) (b : Balance) : Redis := { ρ with bal := ρ.bal.set u b }

@[simp] theorem Redis.putBalance_putBalance (ρ : Redis) (u : UserId) (b c : Balance) :
    (ρ.putBalance u b).putBalance u c = ρ.putBalance u c := by
  simp [Redis.putBalance, Table.set_set]

@[simp] theorem Redis.putBalance_get (ρ : Redis) (u : UserId) (b : Balance) :
    (ρ.putBalance u b).bal.get u = some b := by
  simp [Redis.putBalance]

theorem Redis.putBalance_self {ρ : Redis} {u : UserId} {b : Balance} (h : ρ.bal.get u = some b) :
    ρ.putBalance u b = ρ := by
  have hset : ρ.bal.set u b = ρ.bal := by
    apply Table.ext
    intro k
    rw [Table.get_set]
    split
    · next hk => rw [hk, h]
    · rfl
  unfold Redis.putBalance
  rw [hset]

/-! ## Scripts -/

/-- The error a command stops a script with. -/
inductive ScriptError where
  | notAnInteger
deriving DecidableEq, Repr

def Script (α : Type) : Type := Redis → Except ScriptError α × Redis

instance : Monad Script where
  pure a ρ := (.ok a, ρ)
  bind x f ρ :=
    match x ρ with
    | (.ok a, ρ') => f a ρ'
    | (.error e, ρ') => (.error e, ρ')

namespace Script

variable {α β : Type}

theorem bind_apply (x : Script α) (f : α → Script β) (ρ : Redis) :
    (x >>= f) ρ = match x ρ with | (.ok a, ρ') => f a ρ' | (.error e, ρ') => (.error e, ρ') := rfl

theorem bind_eq_ok {x : Script α} {f : α → Script β} {ρ ρ' : Redis} {b : β} :
    (x >>= f) ρ = (.ok b, ρ') ↔ ∃ a ρ₁, x ρ = (.ok a, ρ₁) ∧ f a ρ₁ = (.ok b, ρ') := by
  rw [bind_apply]
  rcases x ρ with ⟨e | a, ρ₁⟩
  · simp
  · simp

theorem pure_eq_ok {a b : α} {ρ ρ' : Redis} : (pure a : Script α) ρ = (.ok b, ρ') ↔ a = b ∧ ρ = ρ' := by
  show (Except.ok a, ρ) = (.ok b, ρ') ↔ _
  simp

/-- Reads the store. -/
def store : Script Redis := fun ρ => (.ok ρ, ρ)

/-- Writes that cannot fail. -/
def write (f : Redis → Redis) : Script Unit := fun ρ => (.ok (), f ρ)

theorem store_bind (f : Redis → Script β) (ρ : Redis) : (store >>= f) ρ = f ρ ρ := rfl

theorem pure_ok {a b : α} {ρ ρ' : Redis} (h : (pure a : Script α) ρ = (.ok b, ρ')) : a = b ∧ ρ' = ρ :=
  (pure_eq_ok.mp h).imp id Eq.symm

theorem write_eq_ok {f : Redis → Redis} {ρ ρ' : Redis} {u : Unit} :
    write f ρ = (.ok u, ρ') ↔ ρ' = f ρ := by
  simp [write, eq_comm]

def hincrby (u : UserId) (f : Field) (d : ℤ) : Script ℤ := fun ρ =>
  match ((ρ.bal.get u).getD .zero).incr f d with
  | some b => (.ok (b.get f), ρ.putBalance u b)
  | none => (.error .notAnInteger, ρ)

theorem hincrby_inRange {u : UserId} {f : Field} {d v : ℤ} {ρ ρ' : Redis} (h : hincrby u f d ρ = (.ok v, ρ')) :
    InRange v := by
  simp only [hincrby] at h
  split at h
  · next c hc =>
    simp only [Prod.mk.injEq, Except.ok.injEq] at h
    rw [← h.1, Balance.incr_get hc f, if_pos rfl]
    unfold Balance.incr at hc
    split at hc
    · next hr => exact hr.2.2
    · cases hc
  · cases h

theorem hincrby_ok {u : UserId} {f : Field} {d v : ℤ} {ρ ρ' : Redis} {b : Balance}
    (h : hincrby u f d ρ = (.ok v, ρ')) (hb : ρ.bal.get u = some b) :
    ∃ c, (∀ g, c.get g = b.get g + if g = f then d else 0) ∧ v = c.get f ∧ ρ' = ρ.putBalance u c := by
  simp only [hincrby, hb, Option.getD_some] at h
  split at h
  · next c hc =>
    simp only [Prod.mk.injEq, Except.ok.injEq] at h
    exact ⟨c, fun g => Balance.incr_get hc g, h.1.symm, h.2.symm⟩
  · cases h

/-- The local function `neg` of `RESERVE`: a minus sign before the argument.
Before a negative number that is no integer any more, and `HINCRBY` fails. -/
def neg (n : ℤ) : Script ℤ := fun ρ => if n < 0 then (.error .notAnInteger, ρ) else (.ok (-n), ρ)

theorem neg_ok {n m : ℤ} {ρ ρ' : Redis} (h : neg n ρ = (.ok m, ρ')) : 0 ≤ n ∧ m = -n ∧ ρ' = ρ := by
  unfold neg at h
  split at h
  · cases h
  · simp only [Prod.mk.injEq, Except.ok.injEq] at h
    exact ⟨by omega, h.1.symm, h.2.symm⟩

end Script

/-! ### RESERVE -/

structure ReserveArgs where
  expectedVersion : ℤ
  userId : UserId
  dialogId : DialogId
  modelName : String
  plan : DebitPlan ℤ
  authorizedCostUsd : ℤ
  startedAt : ℚ
  clientRequestId : RequestId
  reservationToken : Token

inductive ReserveReply where
  | dup (record : GenerationHash)
  | missing
  | conflict (current : Balance)
  | ok (version : ℤ)
deriving DecidableEq

/-- The record `RESERVE` writes. -/
def ReserveArgs.record (a : ReserveArgs) : GenerationHash where
  status := .running
  userId := a.userId
  dialogId := a.dialogId
  modelName := a.modelName
  plan := a.plan
  authorizedCostUsd := a.authorizedCostUsd
  startedAt := a.startedAt
  reservationToken := a.reservationToken

def reserve (a : ReserveArgs) : Script ReserveReply := do
  let ρ ← Script.store
  match ρ.gen.get a.clientRequestId with
  | some r => return .dup r
  | none =>
  match ρ.bal.get a.userId with
  | none => return .missing
  | some c =>
  if c.version ≠ a.expectedVersion then return .conflict c
  let _ ← Script.hincrby a.userId .freeUsd (← Script.neg a.plan.freeUsd)
  let _ ← Script.hincrby a.userId .bonusUsd (← Script.neg a.plan.bonusUsd)
  let _ ← Script.hincrby a.userId .paidUsd (← Script.neg a.plan.paidUsd)
  let _ ← Script.hincrby a.userId .freeRequests (← Script.neg a.plan.freeRequests)
  let v ← Script.hincrby a.userId .version 1
  Script.write fun ρ => { ρ with gen := ρ.gen.set a.clientRequestId a.record }
  Script.write fun ρ => { ρ with inflight := ρ.inflight.set a.clientRequestId a.startedAt }
  Script.write fun ρ => { ρ with dirty := insert a.userId ρ.dirty }
  return .ok v

/-- The store after a plan was debited. -/
def Redis.debited (ρ : Redis) (a : ReserveArgs) (b : Balance) : Redis :=
  { ρ with
    bal := ρ.bal.set a.userId b
    gen := ρ.gen.set a.clientRequestId a.record
    inflight := ρ.inflight.set a.clientRequestId a.startedAt
    dirty := insert a.userId ρ.dirty }

/-- What `RESERVE` answers and leaves when no command fails. -/
inductive ReserveOk (a : ReserveArgs) (ρ : Redis) : ReserveReply → Redis → Prop
  | dup {r} : ρ.gen.get a.clientRequestId = some r → ReserveOk a ρ (.dup r) ρ
  | missing : ρ.gen.get a.clientRequestId = none → ρ.bal.get a.userId = none → ReserveOk a ρ .missing ρ
  | conflict {c} : ρ.gen.get a.clientRequestId = none → ρ.bal.get a.userId = some c →
      c.version ≠ a.expectedVersion → ReserveOk a ρ (.conflict c) ρ
  | applied {c b} : ρ.gen.get a.clientRequestId = none → ρ.bal.get a.userId = some c →
      c.version = a.expectedVersion → (∀ f, 0 ≤ a.plan.field f) →
      (∀ f, b.get f = c.get f - a.plan.field f + if f = .version then 1 else 0) → InRange b.version →
      ReserveOk a ρ (.ok b.version) (ρ.debited a b)

theorem reserve_ok {a : ReserveArgs} {ρ ρ' : Redis} {r : ReserveReply} (h : reserve a ρ = (.ok r, ρ')) :
    ReserveOk a ρ r ρ' := by
  simp only [reserve, Script.store_bind] at h
  cases hg : ρ.gen.get a.clientRequestId with
  | some r' =>
    simp only [hg] at h
    obtain ⟨rfl, rfl⟩ := Script.pure_ok h
    exact .dup hg
  | none =>
  cases hb : ρ.bal.get a.userId with
  | none =>
    simp only [hg, hb] at h
    obtain ⟨rfl, rfl⟩ := Script.pure_ok h
    exact .missing hg hb
  | some c =>
  simp only [hg, hb] at h
  split at h
  · next hv =>
    obtain ⟨rfl, rfl⟩ := Script.pure_ok h
    exact .conflict hg hb hv
  next hv =>
  simp only [Script.bind_eq_ok, Script.write_eq_ok, Script.pure_eq_ok] at h
  obtain ⟨_, _, n1, _, _, i1, _, _, n2, _, _, i2, _, _, n3, _, _, i3, _, _, n4, _, _, i4, v, _, i5,
    _, _, rfl, _, _, rfl, _, _, rfl, rfl, rfl⟩ := h
  obtain ⟨p1, rfl, rfl⟩ := Script.neg_ok n1
  obtain ⟨b1, e1, -, rfl⟩ := Script.hincrby_ok i1 hb
  obtain ⟨p2, rfl, rfl⟩ := Script.neg_ok n2
  obtain ⟨b2, e2, -, rfl⟩ := Script.hincrby_ok i2 (Redis.putBalance_get ..)
  obtain ⟨p3, rfl, rfl⟩ := Script.neg_ok n3
  obtain ⟨b3, e3, -, rfl⟩ := Script.hincrby_ok i3 (Redis.putBalance_get ..)
  obtain ⟨p4, rfl, rfl⟩ := Script.neg_ok n4
  obtain ⟨b4, e4, -, rfl⟩ := Script.hincrby_ok i4 (Redis.putBalance_get ..)
  have hrange := Script.hincrby_inRange i5
  obtain ⟨b5, e5, rfl, rfl⟩ := Script.hincrby_ok i5 (Redis.putBalance_get ..)
  simp only [Redis.putBalance_putBalance]
  refine .applied hg hb (not_not.mp hv) (fun f => ?_) (fun f => ?_) hrange
  · cases f <;> simp [DebitPlan.field, p1, p2, p3, p4]
  · rw [e5, e4, e3, e2, e1]
    cases f <;> simp [DebitPlan.field, sub_eq_add_neg]

theorem ReserveOk.of_conflict {a : ReserveArgs} {ρ ρ' : Redis} {c : Balance} (h : ReserveOk a ρ (.conflict c) ρ') :
    ρ.gen.get a.clientRequestId = none ∧ ρ.bal.get a.userId = some c ∧ c.version ≠ a.expectedVersion ∧ ρ' = ρ := by
  cases h with
  | conflict hn hb hv => exact ⟨hn, hb, hv, rfl⟩

theorem ReserveOk.of_dup {a : ReserveArgs} {ρ ρ' : Redis} {r : GenerationHash} (h : ReserveOk a ρ (.dup r) ρ') :
    ρ.gen.get a.clientRequestId = some r ∧ ρ' = ρ := by
  cases h with
  | dup hr => exact ⟨hr, rfl⟩

theorem ReserveOk.of_ok {a : ReserveArgs} {ρ ρ' : Redis} {v : ℤ} (h : ReserveOk a ρ (.ok v) ρ') :
    ∃ c b, ρ.gen.get a.clientRequestId = none ∧ ρ.bal.get a.userId = some c ∧ c.version = a.expectedVersion ∧
      (∀ f, b.get f = c.get f - a.plan.field f + if f = .version then 1 else 0) ∧ ρ' = ρ.debited a b := by
  cases h with
  | applied hn hb hv hp hf => exact ⟨_, _, hn, hb, hv, hf, rfl⟩

/-! ### SETTLE -/

structure SettleArgs where
  content : String
  billedCostUsd : ℤ
  providerBilledCostUsd : Number
  clientRequestId : RequestId
  userId : UserId
  refundFree : ℤ
  refundBonus : ℤ
  refundPaid : ℤ
  refundedSurplus : ℤ

inductive SettleReply where
  | done | stale | missing | ok
deriving DecidableEq, Repr

/-- The amount `SETTLE` adds back to each field. -/
def SettleArgs.refund (a : SettleArgs) : Field → ℤ
  | .freeUsd => a.refundFree
  | .bonusUsd => a.refundBonus
  | .paidUsd => a.refundPaid
  | .freeRequests | .version => 0

def SettleArgs.hasSurplus (a : SettleArgs) : Bool := a.refundFree ≠ 0 || a.refundBonus ≠ 0 || a.refundPaid ≠ 0

/-- The record `SETTLE` leaves. -/
def SettleArgs.record (a : SettleArgs) (r : GenerationHash) : GenerationHash :=
  { r with
    status := .done
    content := some a.content
    billedCostUsd := some a.billedCostUsd
    providerBilledCostUsd := some a.providerBilledCostUsd
    refundedSurplusUsd := some a.refundedSurplus }

def settle (a : SettleArgs) : Script SettleReply := do
  let ρ ← Script.store
  match ρ.gen.get a.clientRequestId with
  | none => return .stale
  | some r =>
  if r.status = .done then return .done
  if r.status ≠ .running then return .stale
  if a.hasSurplus then
    if (ρ.bal.get a.userId).isNone then return .missing
    let _ ← Script.hincrby a.userId .freeUsd a.refundFree
    let _ ← Script.hincrby a.userId .bonusUsd a.refundBonus
    let _ ← Script.hincrby a.userId .paidUsd a.refundPaid
    let _ ← Script.hincrby a.userId .version 1
    Script.write fun ρ => { ρ with dirty := insert a.userId ρ.dirty }
  Script.write fun ρ => { ρ with gen := ρ.gen.set a.clientRequestId (a.record r) }
  Script.write fun ρ => { ρ with inflight := ρ.inflight.del a.clientRequestId }
  return .ok

/-- The store after a record was resolved, its user's balance being `b` and
marked dirty when that changed. -/
def Redis.resolved (ρ : Redis) (id : RequestId) (r : GenerationHash) : Redis :=
  { ρ with gen := ρ.gen.set id r, inflight := ρ.inflight.del id }

def Redis.credited (ρ : Redis) (u : UserId) (b : Balance) : Redis :=
  { ρ with bal := ρ.bal.set u b, dirty := insert u ρ.dirty }

/-- What `SETTLE` answers and leaves when no command fails. -/
inductive SettleOk (a : SettleArgs) (ρ : Redis) : SettleReply → Redis → Prop
  | absent : ρ.gen.get a.clientRequestId = none → SettleOk a ρ .stale ρ
  | done {r} : ρ.gen.get a.clientRequestId = some r → r.status = .done → SettleOk a ρ .done ρ
  | failed {r} : ρ.gen.get a.clientRequestId = some r → r.status = .failed → SettleOk a ρ .stale ρ
  | missing {r} : ρ.gen.get a.clientRequestId = some r → r.status = .running → a.hasSurplus = true →
      ρ.bal.get a.userId = none → SettleOk a ρ .missing ρ
  | exact {r} : ρ.gen.get a.clientRequestId = some r → r.status = .running → (∀ f, a.refund f = 0) →
      SettleOk a ρ .ok (ρ.resolved a.clientRequestId (a.record r))
  | surplus {r c b} : ρ.gen.get a.clientRequestId = some r → r.status = .running → a.hasSurplus = true →
      ρ.bal.get a.userId = some c →
      (∀ f, b.get f = c.get f + a.refund f + if f = .version then 1 else 0) → InRange b.version →
      SettleOk a ρ .ok ((ρ.credited a.userId b).resolved a.clientRequestId (a.record r))

theorem settle_ok {a : SettleArgs} {ρ ρ' : Redis} {r : SettleReply} (h : settle a ρ = (.ok r, ρ')) :
    SettleOk a ρ r ρ' := by
  simp only [settle, Script.store_bind] at h
  cases hg : ρ.gen.get a.clientRequestId with
  | none =>
    simp only [hg] at h
    obtain ⟨rfl, rfl⟩ := Script.pure_ok h
    exact .absent hg
  | some r' =>
  simp only [hg] at h
  split at h
  · next hd =>
    obtain ⟨rfl, rfl⟩ := Script.pure_ok h
    exact .done hg hd
  next hd =>
  split at h
  · next hr =>
    obtain ⟨rfl, rfl⟩ := Script.pure_ok h
    refine .failed hg ?_
    cases hst : r'.status <;> simp_all
  next hr =>
  have hr := not_not.mp hr
  split at h
  · next hsur =>
    split at h
    · next hb =>
      obtain ⟨rfl, rfl⟩ := Script.pure_ok h
      exact .missing hg hr hsur (by simpa using hb)
    next hb =>
    obtain ⟨c, hb⟩ := Option.ne_none_iff_exists'.mp (by simpa using hb)
    simp only [Script.bind_eq_ok, Script.write_eq_ok, Script.pure_eq_ok] at h
    obtain ⟨_, _, i1, _, _, i2, _, _, i3, _, _, i4, _, _, rfl, _, _, rfl, _, _, rfl, rfl, rfl⟩ := h
    obtain ⟨b1, e1, -, rfl⟩ := Script.hincrby_ok i1 hb
    obtain ⟨b2, e2, -, rfl⟩ := Script.hincrby_ok i2 (Redis.putBalance_get ..)
    obtain ⟨b3, e3, -, rfl⟩ := Script.hincrby_ok i3 (Redis.putBalance_get ..)
    have hrange := Script.hincrby_inRange i4
    obtain ⟨b4, e4, rfl, rfl⟩ := Script.hincrby_ok i4 (Redis.putBalance_get ..)
    simp only [Redis.putBalance_putBalance]
    refine .surplus hg hr hsur hb (fun f => ?_) hrange
    rw [e4, e3, e2, e1]
    cases f <;> simp [SettleArgs.refund]
  · next hsur =>
    simp only [Script.bind_eq_ok, Script.write_eq_ok, Script.pure_eq_ok] at h
    obtain ⟨_, _, rfl, _, _, rfl, rfl, rfl⟩ := h
    refine .exact hg hr fun f => ?_
    simp only [SettleArgs.hasSurplus, Bool.or_eq_true, decide_eq_true_eq, not_or, not_not] at hsur
    cases f <;> simp [SettleArgs.refund, hsur]

theorem SettleOk.of_ok {a : SettleArgs} {ρ ρ' : Redis} (h : SettleOk a ρ .ok ρ') :
    ∃ r, ρ.gen.get a.clientRequestId = some r ∧ r.status = .running ∧
      ρ'.gen = ρ.gen.set a.clientRequestId (a.record r) := by
  cases h with
  | «exact» hg hr hf => exact ⟨_, hg, hr, rfl⟩
  | surplus hg hr hs hb hf => exact ⟨_, hg, hr, rfl⟩

theorem SettleOk.of_done {a : SettleArgs} {ρ ρ' : Redis} (h : SettleOk a ρ .done ρ') :
    ∃ r, ρ.gen.get a.clientRequestId = some r ∧ r.status = .done ∧ ρ' = ρ := by
  cases h with
  | done hg hd => exact ⟨_, hg, hd, rfl⟩

theorem SettleOk.of_stale {a : SettleArgs} {ρ ρ' : Redis} (h : SettleOk a ρ .stale ρ') :
    (∀ r, ρ.gen.get a.clientRequestId = some r → r.status = .failed) ∧ ρ' = ρ := by
  cases h with
  | absent hg => exact ⟨fun r hr => (by rw [hg] at hr; cases hr), rfl⟩
  | failed hg hf => exact ⟨fun r hr => (by rw [hg] at hr; cases hr; exact hf), rfl⟩

/-! ### REFUND -/

structure RefundArgs where
  userId : UserId
  error : String
  clientRequestId : RequestId
  plan : DebitPlan ℤ

inductive RefundReply where
  | stale | missing | ok
deriving DecidableEq, Repr

/-- The record `REFUND` leaves. -/
def RefundArgs.record (a : RefundArgs) (r : GenerationHash) : GenerationHash :=
  { r with status := .failed, error := some a.error }

def refund (a : RefundArgs) : Script RefundReply := do
  let ρ ← Script.store
  match ρ.gen.get a.clientRequestId with
  | none => return .stale
  | some r =>
  if r.status ≠ .running then return .stale
  if (ρ.bal.get a.userId).isNone then return .missing
  let _ ← Script.hincrby a.userId .freeUsd a.plan.freeUsd
  let _ ← Script.hincrby a.userId .bonusUsd a.plan.bonusUsd
  let _ ← Script.hincrby a.userId .paidUsd a.plan.paidUsd
  let _ ← Script.hincrby a.userId .freeRequests a.plan.freeRequests
  let _ ← Script.hincrby a.userId .version 1
  Script.write fun ρ => { ρ with gen := ρ.gen.set a.clientRequestId (a.record r) }
  Script.write fun ρ => { ρ with inflight := ρ.inflight.del a.clientRequestId }
  Script.write fun ρ => { ρ with dirty := insert a.userId ρ.dirty }
  return .ok

/-- What `REFUND` answers and leaves when no command fails. -/
inductive RefundOk (a : RefundArgs) (ρ : Redis) : RefundReply → Redis → Prop
  | stale : (∀ r, ρ.gen.get a.clientRequestId = some r → r.status ≠ .running) → RefundOk a ρ .stale ρ
  | missing {r} : ρ.gen.get a.clientRequestId = some r → r.status = .running → ρ.bal.get a.userId = none →
      RefundOk a ρ .missing ρ
  | applied {r c b} : ρ.gen.get a.clientRequestId = some r → r.status = .running → ρ.bal.get a.userId = some c →
      (∀ f, b.get f = c.get f + a.plan.field f + if f = .version then 1 else 0) → InRange b.version →
      RefundOk a ρ .ok ((ρ.credited a.userId b).resolved a.clientRequestId (a.record r))

theorem refund_ok {a : RefundArgs} {ρ ρ' : Redis} {r : RefundReply} (h : refund a ρ = (.ok r, ρ')) :
    RefundOk a ρ r ρ' := by
  simp only [refund, Script.store_bind] at h
  cases hg : ρ.gen.get a.clientRequestId with
  | none =>
    simp only [hg] at h
    obtain ⟨rfl, rfl⟩ := Script.pure_ok h
    exact .stale fun r hr => by rw [hg] at hr; cases hr
  | some r' =>
  simp only [hg] at h
  split at h
  · next hr =>
    obtain ⟨rfl, rfl⟩ := Script.pure_ok h
    refine .stale fun r hr' => ?_
    rw [hg] at hr'
    cases hr'
    exact hr
  next hr =>
  have hr := not_not.mp hr
  split at h
  · next hb =>
    obtain ⟨rfl, rfl⟩ := Script.pure_ok h
    exact .missing hg hr (by simpa using hb)
  next hb =>
  obtain ⟨c, hb⟩ := Option.ne_none_iff_exists'.mp (by simpa using hb)
  simp only [Script.bind_eq_ok, Script.write_eq_ok, Script.pure_eq_ok] at h
  obtain ⟨_, _, i1, _, _, i2, _, _, i3, _, _, i4, _, _, i5, _, _, rfl, _, _, rfl, _, _, rfl, rfl, rfl⟩ := h
  obtain ⟨b1, e1, -, rfl⟩ := Script.hincrby_ok i1 hb
  obtain ⟨b2, e2, -, rfl⟩ := Script.hincrby_ok i2 (Redis.putBalance_get ..)
  obtain ⟨b3, e3, -, rfl⟩ := Script.hincrby_ok i3 (Redis.putBalance_get ..)
  obtain ⟨b4, e4, -, rfl⟩ := Script.hincrby_ok i4 (Redis.putBalance_get ..)
  have hrange := Script.hincrby_inRange i5
  obtain ⟨b5, e5, rfl, rfl⟩ := Script.hincrby_ok i5 (Redis.putBalance_get ..)
  simp only [Redis.putBalance_putBalance]
  refine .applied hg hr hb (fun f => ?_) hrange
  rw [e5, e4, e3, e2, e1]
  cases f <;> simp [DebitPlan.field]

theorem RefundOk.of_ok {a : RefundArgs} {ρ ρ' : Redis} (h : RefundOk a ρ .ok ρ') :
    ∃ r, ρ.gen.get a.clientRequestId = some r ∧ r.status = .running ∧
      ρ'.gen = ρ.gen.set a.clientRequestId (a.record r) := by
  cases h with
  | applied hg hr hb hf => exact ⟨_, hg, hr, rfl⟩

theorem RefundOk.of_stale {a : RefundArgs} {ρ ρ' : Redis} (h : RefundOk a ρ .stale ρ') :
    (∀ r, ρ.gen.get a.clientRequestId = some r → r.status ≠ .running) ∧ ρ' = ρ := by
  cases h with
  | stale hg => exact ⟨hg, rfl⟩

/-! ### TOP_UP -/

structure TopUpArgs where
  operationId : OperationId
  userId : UserId
  paidUsd : ℤ
  bonusUsd : ℤ
  freeRequests : ℤ
deriving DecidableEq, Repr

inductive TopUpReply where
  | dup | missing | ok
deriving DecidableEq, Repr

/-- The amount `TOP_UP` adds to each field. -/
def TopUpArgs.amount (a : TopUpArgs) : Field → ℤ
  | .paidUsd => a.paidUsd
  | .bonusUsd => a.bonusUsd
  | .freeRequests => a.freeRequests
  | .freeUsd | .version => 0

def topUp (a : TopUpArgs) : Script TopUpReply := do
  let ρ ← Script.store
  if (ρ.topup.get a.operationId).isSome then return .dup
  if (ρ.bal.get a.userId).isNone then return .missing
  let _ ← Script.hincrby a.userId .paidUsd a.paidUsd
  let _ ← Script.hincrby a.userId .bonusUsd a.bonusUsd
  let _ ← Script.hincrby a.userId .freeRequests a.freeRequests
  let _ ← Script.hincrby a.userId .version 1
  Script.write fun ρ => { ρ with topup := ρ.topup.set a.operationId a.userId }
  Script.write fun ρ => { ρ with dirty := insert a.userId ρ.dirty }
  return .ok

def Redis.marked (ρ : Redis) (o : OperationId) (u : UserId) : Redis := { ρ with topup := ρ.topup.set o u }

/-- What `TOP_UP` answers and leaves when no command fails. -/
inductive TopUpOk (a : TopUpArgs) (ρ : Redis) : TopUpReply → Redis → Prop
  | dup {u} : ρ.topup.get a.operationId = some u → TopUpOk a ρ .dup ρ
  | missing : ρ.topup.get a.operationId = none → ρ.bal.get a.userId = none → TopUpOk a ρ .missing ρ
  | applied {c b} : ρ.topup.get a.operationId = none → ρ.bal.get a.userId = some c →
      (∀ f, b.get f = c.get f + a.amount f + if f = .version then 1 else 0) → InRange b.version →
      TopUpOk a ρ .ok ((ρ.credited a.userId b).marked a.operationId a.userId)

theorem topUp_ok {a : TopUpArgs} {ρ ρ' : Redis} {r : TopUpReply} (h : topUp a ρ = (.ok r, ρ')) :
    TopUpOk a ρ r ρ' := by
  simp only [topUp, Script.store_bind] at h
  split at h
  · next hm =>
    obtain ⟨rfl, rfl⟩ := Script.pure_ok h
    obtain ⟨u, hu⟩ := Option.isSome_iff_exists.mp hm
    exact .dup hu
  next hm =>
  have hm : ρ.topup.get a.operationId = none := by simpa using hm
  split at h
  · next hb =>
    obtain ⟨rfl, rfl⟩ := Script.pure_ok h
    exact .missing hm (by simpa using hb)
  next hb =>
  obtain ⟨c, hb⟩ := Option.ne_none_iff_exists'.mp (by simpa using hb)
  simp only [Script.bind_eq_ok, Script.write_eq_ok, Script.pure_eq_ok] at h
  obtain ⟨_, _, i1, _, _, i2, _, _, i3, _, _, i4, _, _, rfl, _, _, rfl, rfl, rfl⟩ := h
  obtain ⟨b1, e1, -, rfl⟩ := Script.hincrby_ok i1 hb
  obtain ⟨b2, e2, -, rfl⟩ := Script.hincrby_ok i2 (Redis.putBalance_get ..)
  obtain ⟨b3, e3, -, rfl⟩ := Script.hincrby_ok i3 (Redis.putBalance_get ..)
  have hrange := Script.hincrby_inRange i4
  obtain ⟨b4, e4, rfl, rfl⟩ := Script.hincrby_ok i4 (Redis.putBalance_get ..)
  simp only [Redis.putBalance_putBalance]
  refine .applied hm hb (fun f => ?_) hrange
  rw [e4, e3, e2, e1]
  cases f <;> simp [TopUpArgs.amount]

/-! ### The scripts without `HINCRBY`

They cannot fail: each answers whether it took effect. -/

def seedIfAbsent (u : UserId) (b : Balance) (ρ : Redis) : Bool × Redis :=
  if (ρ.bal.get u).isSome then (false, ρ) else (true, ρ.putBalance u b)

def Balance.withVersion (b : Balance) (v : ℤ) : Balance := { b with version := v }

def advanceVersion (u : UserId) (expected newVersion : ℤ) (ρ : Redis) : Bool × Redis :=
  match ρ.bal.get u with
  | none => (false, ρ)
  | some b => if b.version ≠ expected then (false, ρ) else (true, ρ.credited u (b.withVersion newVersion))

def releaseLoadLock (u : UserId) (token : Token) (ρ : Redis) : Bool × Redis :=
  if ρ.loadLock.get u = some token then (true, { ρ with loadLock := ρ.loadLock.del u }) else (false, ρ)

def clearDirty (u : UserId) (version : ℤ) (ρ : Redis) : Bool × Redis :=
  if (ρ.bal.get u).isNone ∨ (ρ.bal.get u).map Balance.version = some version then
    (true, { ρ with dirty := ρ.dirty.erase u })
  else (false, ρ)

end GenerationBalance
