/-
The scripts on strings are the scripts on typed values: run on the texts of a
store and of their arguments, they answer the text of the reply and leave the
texts of the store.

How a UUID, a float and a token are written is not said here, only that what is
written is read back.
-/
import GenerationBalance.AllOrNothing
import GenerationBalance.Scripts

namespace GenerationBalance

/-! ## Texts -/

/-- Values written as text and read back. -/
structure Text (α : Type) where
  str : α → String
  read : String → Option α
  read_str : ∀ a, read (str a) = some a

theorem Text.str_inj {α : Type} (t : Text α) {a b : α} : t.str a = t.str b ↔ a = b := by
  refine ⟨fun h => ?_, congrArg t.str⟩
  have := t.read_str a
  rw [h, t.read_str b] at this
  exact (Option.some.inj this).symm

/-- What the adapter and Lua write in ways of their own: `str(uuid)`, `repr(float)`,
`uuid4().hex` and `tostring`; and the records' time to live. -/
structure Adapter where
  uuid : Text ℕ
  float : Text ℚ
  hex : Text Token
  tostring : ℤ → String
  ttl : String

namespace Adapter

variable (A : Adapter)

def balanceKey (u : UserId) : String := "bal:" ++ A.uuid.str u

def generationKey (id : RequestId) : String := "gen:" ++ A.uuid.str id

theorem balanceKey_inj {u v : UserId} : A.balanceKey u = A.balanceKey v ↔ u = v := by
  rw [balanceKey, balanceKey, String.append_right_inj, A.uuid.str_inj]

theorem generationKey_inj {i j : RequestId} : A.generationKey i = A.generationKey j ↔ i = j := by
  rw [generationKey, generationKey, String.append_right_inj, A.uuid.str_inj]

theorem balanceKey_ne (u : UserId) (id : RequestId) : A.balanceKey u ≠ A.generationKey id := by
  intro h
  have := congrArg (fun s => s.toList.head?) h
  simp [balanceKey, generationKey] at this

end Adapter

def GenerationStatus.text : GenerationStatus → String
  | .running => "running"
  | .done => "done"
  | .failed => "failed"

theorem GenerationStatus.text_done {s : GenerationStatus} : s.text = "done" ↔ s = .done := by
  cases s <;> simp [text]

theorem GenerationStatus.text_running {s : GenerationStatus} : s.text = "running" ↔ s = .running := by
  cases s <;> simp [text]

/-! ## Hashes -/

/-- The name of a field of a balance. -/
def Field.name : Field → String
  | .freeUsd => "free_usd"
  | .bonusUsd => "bonus_usd"
  | .paidUsd => "paid_usd"
  | .freeRequests => "free_requests"
  | .version => "version"

theorem Field.name_inj {f g : Field} : f.name = g.name ↔ f = g := by
  cases f <;> cases g <;> simp [name]

/-- The fields of a record, in the order of `_DUP_FIELDS`. -/
inductive RecordField where
  | status | userId | dialogId | modelName | planFreeUsd | planBonusUsd | planPaidUsd | planFreeRequests
  | authorizedCostUsd | startedAt | content | billedCostUsd | providerBilledCostUsd | refundedSurplusUsd | error
  | reservationToken
deriving DecidableEq

namespace RecordField

def all : List RecordField :=
  [status, userId, dialogId, modelName, planFreeUsd, planBonusUsd, planPaidUsd, planFreeRequests,
    authorizedCostUsd, startedAt, content, billedCostUsd, providerBilledCostUsd, refundedSurplusUsd, error,
    reservationToken]

theorem mem_all (f : RecordField) : f ∈ all := by cases f <;> decide

def name : RecordField → String
  | status => "status"
  | userId => "user_id"
  | dialogId => "dialog_id"
  | modelName => "model_name"
  | planFreeUsd => "plan_free_usd"
  | planBonusUsd => "plan_bonus_usd"
  | planPaidUsd => "plan_paid_usd"
  | planFreeRequests => "plan_free_requests"
  | authorizedCostUsd => "authorized_cost_usd"
  | startedAt => "started_at"
  | content => "content"
  | billedCostUsd => "billed_cost_usd"
  | providerBilledCostUsd => "provider_billed_cost_usd"
  | refundedSurplusUsd => "refunded_surplus_usd"
  | error => "error"
  | reservationToken => "reservation_token"

theorem find_name (f : RecordField) : all.find? (fun g => g.name = f.name) = some f := by cases f <;> rfl

theorem name_inj {f g : RecordField} : f.name = g.name ↔ f = g := by
  refine ⟨fun h => ?_, congrArg name⟩
  have hf := find_name f
  rw [h, find_name g] at hf
  exact (Option.some.inj hf).symm

/-- The order of the reply is the order of the fields. -/
theorem map_name_all : all.map name = recordFields := rfl

end RecordField

/-- The text of each field of a record; a field that no script has written is missing. -/
def GenerationHash.text (A : Adapter) (r : GenerationHash) : RecordField → Option String
  | .status => some r.status.text
  | .userId => some (A.uuid.str r.userId)
  | .dialogId => some (A.uuid.str r.dialogId)
  | .modelName => some r.modelName
  | .planFreeUsd => some r.plan.freeUsd.repr
  | .planBonusUsd => some r.plan.bonusUsd.repr
  | .planPaidUsd => some r.plan.paidUsd.repr
  | .planFreeRequests => some r.plan.freeRequests.repr
  | .authorizedCostUsd => some r.authorizedCostUsd.repr
  | .startedAt => some (A.float.str r.startedAt)
  | .content => r.content
  | .billedCostUsd => r.billedCostUsd.map Int.repr
  | .providerBilledCostUsd => r.providerBilledCostUsd.map Number.format
  | .refundedSurplusUsd => r.refundedSurplusUsd.map Int.repr
  | .error => r.error
  | .reservationToken => some (A.hex.str r.reservationToken)

def Balance.Holds (h : Fields) (b : Balance) : Prop := ∀ f : Field, h.get f.name = some (b.get f).repr

def GenerationHash.Holds (A : Adapter) (h : Fields) (r : GenerationHash) : Prop :=
  ∀ f : RecordField, h.get f.name = r.text A f

namespace Adapter

variable (A : Adapter)

/-! ## Arguments and replies -/

/-- `_plan_args`. -/
def planArgs (p : DebitPlan ℤ) : List String :=
  [p.freeUsd.repr, p.bonusUsd.repr, p.paidUsd.repr, p.freeRequests.repr]

def reserveArgs (a : ReserveArgs) : List String :=
  [a.expectedVersion.repr, A.uuid.str a.userId, A.uuid.str a.dialogId, a.modelName] ++ planArgs a.plan ++
    [a.authorizedCostUsd.repr, A.float.str a.startedAt, A.ttl, A.uuid.str a.clientRequestId,
      A.hex.str a.reservationToken]

def settleArgs (a : SettleArgs) : List String :=
  [a.content, a.billedCostUsd.repr, a.providerBilledCostUsd.format, A.ttl, A.uuid.str a.clientRequestId,
    A.uuid.str a.userId, a.refundFree.repr, a.refundBonus.repr, a.refundPaid.repr, a.refundedSurplus.repr]

def refundArgs (a : RefundArgs) : List String :=
  [A.uuid.str a.userId, a.error, A.ttl, A.uuid.str a.clientRequestId] ++ planArgs a.plan

/-- The scripts as the adapter calls them. -/
def RESERVE (a : ReserveArgs) : Lua (List String) :=
  GenerationBalance.RESERVE A.tostring
    [A.balanceKey a.userId, A.generationKey a.clientRequestId, "bal:dirty", "gen:inflight"] (A.reserveArgs a)

def SETTLE (a : SettleArgs) : Lua (List String) :=
  GenerationBalance.SETTLE
    [A.generationKey a.clientRequestId, A.balanceKey a.userId, "bal:dirty", "gen:inflight"] (A.settleArgs a)

def REFUND (a : RefundArgs) : Lua (List String) :=
  GenerationBalance.REFUND
    [A.balanceKey a.userId, A.generationKey a.clientRequestId, "bal:dirty", "gen:inflight"] (A.refundArgs a)

def reserveReply : ReserveReply → List String
  | .dup r => "DUP" :: RecordField.all.map fun f => (r.text A f).getD ""
  | .missing => ["MISSING"]
  | .conflict c =>
    ["CONFLICT", c.freeUsd.repr, c.bonusUsd.repr, c.paidUsd.repr, c.freeRequests.repr, c.version.repr]
  | .ok v => ["OK", A.tostring v]

def settleReply : SettleReply → List String
  | .done => ["DONE"]
  | .stale => ["STALE"]
  | .missing => ["MISSING"]
  | .ok => ["OK"]

def refundReply : RefundReply → List String
  | .stale => ["STALE"]
  | .missing => ["MISSING"]
  | .ok => ["OK"]

/-! ## The texts of a store -/

/-- The strings of the store are the texts of the typed one. -/
structure Encodes (s : RawRedis) (ρ : Redis) : Prop where
  bal : ∀ u, Option.Rel Balance.Holds (s.hashes.get (A.balanceKey u)) (ρ.bal.get u)
  gen : ∀ id, Option.Rel (GenerationHash.Holds A) (s.hashes.get (A.generationKey id)) (ρ.gen.get id)
  dirty : ∀ u, A.uuid.str u ∈ s.dirty ↔ u ∈ ρ.dirty
  inflight : ∀ id, s.inflight.get (A.uuid.str id) = (ρ.inflight.get id).map A.float.str

/-- Two runs that went alike: stopped by the same error or with related results,
the strings left the texts of the typed store. -/
def Alike {α β : Type} (R : α → β → Prop) (x : Except ScriptError α × RawRedis) (y : Except ScriptError β × Redis) :
    Prop :=
  ExceptRel R x.1 y.1 ∧ A.Encodes x.2 y.2

end Adapter

/-! ## Integers -/

theorem integer_repr (n : ℤ) : integer n.repr = if InRange n then some n else none := by
  unfold integer
  rw [Int.toInt?_repr]
  simp [Option.filter]

theorem repr_eq_zero {n : ℤ} : n.repr = "0" ↔ n = 0 := ⟨fun h => Int.repr_inj.mp h, fun h => by rw [h]; rfl⟩

theorem repr_ne_empty (n : ℤ) : n.repr ≠ "" := by
  rw [Int.repr_eq_if]
  split
  · exact Nat.repr_ne_empty
  · intro h
    exact absurd (congrArg String.toList h) (by simp)

theorem repr_of_neg {n : ℤ} (h : n < 0) : n.repr = "-" ++ (-n).toNat.repr := by
  rw [Int.repr_eq_if, if_neg (not_le.mpr h)]

/-- A minus sign before a number that is not negative. -/
theorem neg_repr {n : ℤ} (h : 0 ≤ n) : neg n.repr = (-n).repr := by
  unfold neg
  split
  · next h0 =>
    rw [repr_eq_zero.mp h0]
    rfl
  · next h0 =>
    rw [repr_eq_zero] at h0
    rw [repr_of_neg (n := -n) (by omega), neg_neg, Int.repr_eq_if, if_pos h]

theorem repr_ne_minus (n : ℕ) (s : String) : n.repr ≠ "-" ++ s := by
  intro h
  have hchars := congrArg String.toList h
  rw [Nat.repr_eq_ofList_toDigits, String.toList_ofList, String.toList_append] at hchars
  exact Numeral.ne_sign (Numeral.isDigit_toDigits n) Nat.toDigits_ne_nil [] s.toList (by simpa using hchars)

/-- Two minus signs make no integer. -/
theorem integer_neg_repr {n : ℤ} (h : n < 0) : integer (neg n.repr) = none := by
  rw [neg, if_neg (repr_eq_zero.not.mpr h.ne), integer]
  refine Option.filter_eq_none_iff.mpr fun m _ hm => ?_
  obtain ⟨hm, -⟩ := of_decide_eq_true hm
  rw [repr_of_neg h] at hm
  by_cases h0 : 0 ≤ m
  · rw [Int.repr_eq_if, if_pos h0] at hm
    exact repr_ne_minus _ _ hm
  · rw [repr_of_neg (not_le.mp h0), String.append_right_inj] at hm
    exact repr_ne_minus _ _ hm

/-! ## Commands -/

theorem Lua.HINCRBY_eq {s : RawRedis} {key field : String} {h : Fields} {n d : ℤ} (hh : s.hashes.get key = some h)
    (hn : h.get field = some n.repr) :
    Lua.HINCRBY key field d.repr s =
      if InRange n ∧ InRange d ∧ InRange (n + d) then
        (.ok (n + d), { s with hashes := s.hashes.set key (h.set field (n + d).repr) })
      else (.error .notAnInteger, s) := by
  simp only [HINCRBY, hh, hn, Option.getD_some, integer_repr]
  by_cases h1 : InRange n
  · by_cases h2 : InRange d
    · simp only [h1, h2, if_true, true_and]
    · simp only [h1, h2, if_true, if_false, false_and, and_false]
  · simp only [h1, if_false, false_and]

theorem Lua.HINCRBY_refuses {s : RawRedis} {key field raw : String} (h : integer raw = none) :
    Lua.HINCRBY key field raw s = (.error .notAnInteger, s) := by
  simp only [HINCRBY, h]
  split
  · next hn => cases hn
  · rfl

theorem Balance.Holds.put {h : Fields} {b : Balance} (hb : b.Holds h) (f : Field) (n : ℤ) (hr : InRange n) :
    (b.put f n hr).Holds (h.set f.name n.repr) := by
  intro g
  rw [Table.get_set, Balance.get_put]
  by_cases hg : g = f
  · rw [if_pos hg, if_pos (by rw [hg])]
  · rw [if_neg hg, if_neg fun hn => hg (Field.name_inj.mp hn), hb g]

section Rel

variable {α β : Type} {R : α → β → Prop} {x : Option α}

theorem rel_eq_none (h : Option.Rel R x none) : x = none := by
  cases h
  rfl

theorem rel_eq_some {b : β} (h : Option.Rel R x (some b)) : ∃ a, x = some a ∧ R a b := by
  cases h with
  | some hr => exact ⟨_, rfl, hr⟩

end Rel

namespace Adapter

variable {A : Adapter} {α β : Type} {R : α → β → Prop} {s : RawRedis} {ρ : Redis}

theorem Alike.ok {f : β → α} {x : Except ScriptError α × RawRedis} {b : β}
    (h : A.Alike (fun a b => a = f b) x (.ok b, ρ)) : x.1 = .ok (f b) ∧ A.Encodes x.2 ρ := by
  obtain ⟨x, s⟩ := x
  obtain ⟨hrel, henc⟩ := h
  cases hrel with
  | ok ha => exact ⟨congrArg Except.ok ha, henc⟩

theorem Alike.error {x : Except ScriptError α × RawRedis} {e : ScriptError} (h : A.Alike R x (.error e, ρ)) :
    x.1 = .error e ∧ A.Encodes x.2 ρ := by
  obtain ⟨x, s⟩ := x
  obtain ⟨hrel, henc⟩ := h
  cases hrel with
  | error => exact ⟨rfl, henc⟩

/-! ### Reads -/

theorem Encodes.balance (h : A.Encodes s ρ) {u : UserId} {b : Balance} (hb : ρ.bal.get u = some b) :
    ∃ f, s.hashes.get (A.balanceKey u) = some f ∧ b.Holds f := by
  have hrel := h.bal u
  rw [hb] at hrel
  exact rel_eq_some hrel

theorem Encodes.record (h : A.Encodes s ρ) {id : RequestId} {r : GenerationHash} (hr : ρ.gen.get id = some r) :
    ∃ f, s.hashes.get (A.generationKey id) = some f ∧ r.Holds A f := by
  have hrel := h.gen id
  rw [hr] at hrel
  exact rel_eq_some hrel

theorem Encodes.no_record (h : A.Encodes s ρ) {id : RequestId} (hr : ρ.gen.get id = none) :
    s.hashes.get (A.generationKey id) = none := by
  have hrel := h.gen id
  rw [hr] at hrel
  exact rel_eq_none hrel

theorem Encodes.no_balance (h : A.Encodes s ρ) {u : UserId} (hb : ρ.bal.get u = none) :
    s.hashes.get (A.balanceKey u) = none := by
  have hrel := h.bal u
  rw [hb] at hrel
  exact rel_eq_none hrel

/-! ### Writes -/

theorem Encodes.putBalance (h : A.Encodes s ρ) {u : UserId} {b : Balance} {f : Fields} (hf : b.Holds f) :
    A.Encodes { s with hashes := s.hashes.set (A.balanceKey u) f } (ρ.putBalance u b) := by
  refine { h with bal := fun v => ?_, gen := fun id => ?_ }
  · simp only [Table.get_set, A.balanceKey_inj, Redis.putBalance]
    split
    · exact .some hf
    · exact h.bal v
  · rw [Table.get_set_of_ne _ _ (A.balanceKey_ne u id).symm]
    exact h.gen id

theorem Encodes.putRecord (h : A.Encodes s ρ) {id : RequestId} {r : GenerationHash} {f : Fields}
    (hf : r.Holds A f) :
    A.Encodes { s with hashes := s.hashes.set (A.generationKey id) f } { ρ with gen := ρ.gen.set id r } := by
  refine { h with bal := fun v => ?_, gen := fun j => ?_ }
  · rw [Table.get_set_of_ne _ _ (A.balanceKey_ne v id)]
    exact h.bal v
  · simp only [Table.get_set, A.generationKey_inj]
    split
    · exact .some hf
    · exact h.gen j

theorem Encodes.delRecord (h : A.Encodes s ρ) (id : RequestId) :
    A.Encodes { s with hashes := s.hashes.del (A.generationKey id) } { ρ with gen := ρ.gen.del id } := by
  refine { h with bal := fun v => ?_, gen := fun j => ?_ }
  · rw [Table.get_del_of_ne _ (A.balanceKey_ne v id)]
    exact h.bal v
  · simp only [Table.get_del, A.generationKey_inj]
    split
    · exact .none
    · exact h.gen j

theorem Encodes.zadd (h : A.Encodes s ρ) (id : RequestId) (q : ℚ) :
    A.Encodes { s with inflight := s.inflight.set (A.uuid.str id) (A.float.str q) }
      { ρ with inflight := ρ.inflight.set id q } := by
  refine { h with inflight := fun j => ?_ }
  simp only [Table.get_set, A.uuid.str_inj]
  split
  · rfl
  · exact h.inflight j

theorem Encodes.zrem (h : A.Encodes s ρ) (id : RequestId) :
    A.Encodes { s with inflight := s.inflight.del (A.uuid.str id) } { ρ with inflight := ρ.inflight.del id } := by
  refine { h with inflight := fun j => ?_ }
  simp only [Table.get_del, A.uuid.str_inj]
  split
  · rfl
  · exact h.inflight j

theorem Encodes.sadd (h : A.Encodes s ρ) (u : UserId) :
    A.Encodes { s with dirty := insert (A.uuid.str u) s.dirty } { ρ with dirty := insert u ρ.dirty } := by
  refine { h with dirty := fun v => ?_ }
  simp only [Finset.mem_insert, A.uuid.str_inj, h.dirty v]

/-- An increment, and what follows it when it is made. -/
theorem Encodes.hincrby (h : A.Encodes s ρ) {u : UserId} {b : Balance} (hb : ρ.bal.get u = some b) (f : Field) (d : ℤ)
    {k : ℤ → Lua α} {k' : ℤ → Script β}
    (hk : ∀ n c s', A.Encodes s' (ρ.putBalance u c) → A.Alike R (k n s') (k' n (ρ.putBalance u c))) :
    A.Alike R ((Lua.HINCRBY (A.balanceKey u) f.name d.repr >>= k : Lua α) s)
      ((Script.hincrby u f d >>= k' : Script β) ρ) := by
  obtain ⟨e, he, hf⟩ := h.balance hb
  rw [Lua.bind_apply, Script.bind_apply, Lua.HINCRBY_eq he (hf f), Script.hincrby_eq hb, Balance.incr]
  by_cases hr : InRange (b.get f) ∧ InRange d ∧ InRange (b.get f + d)
  · rw [if_pos hr, dif_pos hr]
    have hn : (b.put f (b.get f + d) hr.2.2).get f = b.get f + d := by rw [Balance.get_put, if_pos rfl]
    simp only [Option.elim_some, hn]
    exact hk _ _ _ (h.putBalance (hf.put f _ hr.2.2))
  · rw [if_neg hr, dif_neg hr]
    exact ⟨.error, h⟩

/-- A debit: the amount with a minus sign before it. -/
theorem Encodes.debit (h : A.Encodes s ρ) {u : UserId} {b : Balance} (hb : ρ.bal.get u = some b) (f : Field) (d : ℤ)
    {k : ℤ → Lua α} {k' : ℤ → Script β}
    (hk : ∀ n c s', A.Encodes s' (ρ.putBalance u c) → A.Alike R (k n s') (k' n (ρ.putBalance u c))) :
    A.Alike R ((Lua.HINCRBY (A.balanceKey u) f.name (neg d.repr) >>= k : Lua α) s)
      ((Script.neg d >>= fun m => Script.hincrby u f m >>= k' : Script β) ρ) := by
  rw [Script.bind_apply, Script.neg]
  by_cases hd : d < 0
  · rw [if_pos hd, Lua.bind_apply, Lua.HINCRBY_refuses (integer_neg_repr hd)]
    exact ⟨.error, h⟩
  · rw [if_neg hd, neg_repr (not_lt.mp hd)]
    exact h.hincrby hb f (-d) hk

/-! ## Scripts -/

theorem record_holds (a : ReserveArgs) :
    a.record.Holds A (Table.empty.setAll [("status", "running"), ("user_id", A.uuid.str a.userId),
      ("dialog_id", A.uuid.str a.dialogId), ("model_name", a.modelName), ("plan_free_usd", a.plan.freeUsd.repr),
      ("plan_bonus_usd", a.plan.bonusUsd.repr), ("plan_paid_usd", a.plan.paidUsd.repr),
      ("plan_free_requests", a.plan.freeRequests.repr), ("authorized_cost_usd", a.authorizedCostUsd.repr),
      ("started_at", A.float.str a.startedAt), ("reservation_token", A.hex.str a.reservationToken)]) := by
  intro f
  cases f <;> simp [Table.get_set, RecordField.name, GenerationHash.text, ReserveArgs.record, GenerationStatus.text]

theorem settled_holds {h : Fields} {r : GenerationHash} (hr : r.Holds A h) (a : SettleArgs) :
    (a.record r).Holds A (h.setAll [("status", "done"), ("content", a.content),
      ("billed_cost_usd", a.billedCostUsd.repr), ("provider_billed_cost_usd", a.providerBilledCostUsd.format),
      ("refunded_surplus_usd", a.refundedSurplus.repr)]) := by
  intro f
  have := hr f
  cases f <;>
    simp_all [Table.get_set, RecordField.name, GenerationHash.text, SettleArgs.record, GenerationStatus.text]

theorem refunded_holds {h : Fields} {r : GenerationHash} (hr : r.Holds A h) (a : RefundArgs) :
    (a.record r).Holds A (h.setAll [("status", "failed"), ("error", a.error)]) := by
  intro f
  have := hr f
  cases f <;>
    simp_all [Table.get_set, RecordField.name, GenerationHash.text, RefundArgs.record, GenerationStatus.text]

theorem dup_reply {h : Fields} {r : GenerationHash} (hr : r.Holds A h) :
    (recordFields.map fun field => h.get field).map (·.getD "") =
      RecordField.all.map fun f => (r.text A f).getD "" := by
  rw [← RecordField.map_name_all, List.map_map, List.map_map]
  refine List.map_congr_left fun f _ => ?_
  rw [← hr f]
  rfl

/-- **RESERVE on strings is RESERVE.** -/
theorem Encodes.reserve (h : A.Encodes s ρ) (a : ReserveArgs) :
    A.Alike (fun raw r => raw = A.reserveReply r) (A.RESERVE a s) (GenerationBalance.reserve a ρ) := by
  simp only [Adapter.RESERVE, GenerationBalance.RESERVE, GenerationBalance.reserve, Script.store_bind, Lua.EXISTS_bind,
    arg, reserveArgs, planArgs, List.cons_append, List.nil_append, Nat.reduceSub, List.getD_cons_zero,
    List.getD_cons_succ]
  cases hg : ρ.gen.get a.clientRequestId with
  | some r =>
    obtain ⟨f, hf, hr⟩ := h.record hg
    simp only [hf, Option.isSome_some, if_true, Lua.HMGET_bind]
    exact ⟨.ok (congrArg ("DUP" :: ·) (dup_reply hr)), h⟩
  | none =>
  simp only [h.no_record hg, Option.isSome_none, Bool.false_eq_true, if_false, Lua.EXISTS_bind]
  cases hb : ρ.bal.get a.userId with
  | none =>
    simp only [h.no_balance hb, Option.isSome_none, Bool.not_false, if_true]
    exact ⟨.ok rfl, h⟩
  | some c =>
  obtain ⟨f, hf, hc⟩ := h.balance hb
  simp only [hf, Option.isSome_some, Bool.not_true, Bool.false_eq_true, if_false, Lua.HMGET_bind]
  have h1 := hc .version
  have h2 := hc .freeUsd
  have h3 := hc .bonusUsd
  have h4 := hc .paidUsd
  have h5 := hc .freeRequests
  simp only [Field.name, Balance.get] at h1 h2 h3 h4 h5
  simp only [List.map_cons, List.map_nil, Option.bind_some, h1, h2, h3, h4, h5, List.getD_cons_zero,
    List.getD_cons_succ, Option.getD_some, ne_eq, Option.some.injEq, Int.repr_inj]
  by_cases hv : c.version = a.expectedVersion
  · rw [if_neg (not_not.mpr hv), if_neg (not_not.mpr hv)]
    refine h.debit hb .freeUsd _ fun _ c₁ s₁ h₁ => ?_
    refine h₁.debit (Redis.putBalance_get ..) .bonusUsd _ fun _ c₂ s₂ h₂ => ?_
    refine h₂.debit (Redis.putBalance_get ..) .paidUsd _ fun _ c₃ s₃ h₃ => ?_
    refine h₃.debit (Redis.putBalance_get ..) .freeRequests _ fun _ c₄ s₄ h₄ => ?_
    refine h₄.hincrby (Redis.putBalance_get ..) .version 1 fun v c₅ s₅ h₅ => ?_
    rw [Lua.bind_apply, Lua.HSET, h₅.no_record hg]
    exact ⟨.ok rfl, ((h₅.putRecord (record_holds a)).zadd a.clientRequestId a.startedAt).sadd a.userId⟩
  · rw [if_pos hv, if_pos hv]
    exact ⟨.ok rfl, h⟩

/-- The end of SETTLE: the record is done. -/
theorem Encodes.done (h : A.Encodes s ρ) {a : SettleArgs} {r : GenerationHash}
    (hg : ρ.gen.get a.clientRequestId = some r) :
    A.Alike (fun raw r => raw = settleReply r)
      ((do
        Lua.HSET (A.generationKey a.clientRequestId) [("status", "done"), ("content", a.content),
          ("billed_cost_usd", a.billedCostUsd.repr), ("provider_billed_cost_usd", a.providerBilledCostUsd.format),
          ("refunded_surplus_usd", a.refundedSurplus.repr)]
        Lua.EXPIRE (A.generationKey a.clientRequestId) A.ttl
        Lua.ZREM (A.uuid.str a.clientRequestId)
        return ["OK"] : Lua (List String)) s)
      ((do
        Script.write fun ρ => { ρ with gen := ρ.gen.set a.clientRequestId (a.record r) }
        Script.write fun ρ => { ρ with inflight := ρ.inflight.del a.clientRequestId }
        return .ok : Script SettleReply) ρ) := by
  obtain ⟨f, hf, hr⟩ := h.record hg
  rw [Lua.bind_apply, Lua.HSET, hf]
  exact ⟨.ok rfl, (h.putRecord (settled_holds hr a)).zrem a.clientRequestId⟩

/-- **SETTLE on strings is SETTLE.** -/
theorem Encodes.settle (h : A.Encodes s ρ) (a : SettleArgs) :
    A.Alike (fun raw r => raw = settleReply r) (A.SETTLE a s) (GenerationBalance.settle a ρ) := by
  simp only [Adapter.SETTLE, GenerationBalance.SETTLE, GenerationBalance.settle, Script.store_bind, Lua.HGET_bind,
    arg, settleArgs, Nat.reduceSub, List.getD_cons_zero, List.getD_cons_succ]
  cases hg : ρ.gen.get a.clientRequestId with
  | none =>
    simp only [h.no_record hg, Option.bind_none]
    exact ⟨.ok rfl, h⟩
  | some r =>
  obtain ⟨f, hf, hr⟩ := h.record hg
  have hstatus := hr .status
  simp only [RecordField.name, GenerationHash.text] at hstatus
  have hsurplus : (a.refundFree.repr ≠ "0" ∨ a.refundBonus.repr ≠ "0" ∨ a.refundPaid.repr ≠ "0") =
      (a.hasSurplus = true) := by
    simp only [SettleArgs.hasSurplus, Bool.or_eq_true, decide_eq_true_eq, or_assoc, ne_eq, repr_eq_zero]
  simp only [hf, Option.bind_some, hstatus, Option.some.injEq, GenerationStatus.text_done,
    GenerationStatus.text_running, ne_eq, hsurplus]
  by_cases hd : r.status = .done
  · simp only [if_pos hd]
    exact ⟨.ok rfl, h⟩
  simp only [if_neg hd]
  by_cases hrun : r.status = .running
  · simp only [hrun, not_true_eq_false, if_false]
    by_cases hs : a.hasSurplus = true
    · simp only [if_pos hs, Lua.EXISTS_bind]
      cases hb : ρ.bal.get a.userId with
      | none =>
        simp only [h.no_balance hb, Option.isSome_none, Bool.not_false, Option.isNone_none, if_true]
        exact ⟨.ok rfl, h⟩
      | some c =>
      obtain ⟨f', hf', -⟩ := h.balance hb
      simp only [hf', Option.isSome_some, Bool.not_true, Option.isNone_some, Bool.false_eq_true, if_false]
      refine h.hincrby hb .freeUsd _ fun _ c₁ s₁ h₁ => ?_
      refine h₁.hincrby (Redis.putBalance_get ..) .bonusUsd _ fun _ c₂ s₂ h₂ => ?_
      refine h₂.hincrby (Redis.putBalance_get ..) .paidUsd _ fun _ c₃ s₃ h₃ => ?_
      refine h₃.hincrby (Redis.putBalance_get ..) .version 1 fun _ c₄ s₄ h₄ => ?_
      exact (h₄.sadd a.userId).done hg
    · simp only [if_neg hs]
      exact h.done hg
  · simp only [if_pos hrun]
    exact ⟨.ok rfl, h⟩

/-- **REFUND on strings is REFUND.** -/
theorem Encodes.refund (h : A.Encodes s ρ) (a : RefundArgs) :
    A.Alike (fun raw r => raw = refundReply r) (A.REFUND a s) (GenerationBalance.refund a ρ) := by
  simp only [Adapter.REFUND, GenerationBalance.REFUND, GenerationBalance.refund, Script.store_bind, Lua.HGET_bind,
    arg, refundArgs, planArgs, List.cons_append, List.nil_append, Nat.reduceSub, List.getD_cons_zero,
    List.getD_cons_succ]
  cases hg : ρ.gen.get a.clientRequestId with
  | none =>
    simp only [h.no_record hg, Option.bind_none]
    exact ⟨.ok rfl, h⟩
  | some r =>
  obtain ⟨f, hf, hr⟩ := h.record hg
  have hstatus := hr .status
  simp only [RecordField.name, GenerationHash.text] at hstatus
  simp only [hf, Option.bind_some, hstatus, Option.some.injEq, GenerationStatus.text_running, ne_eq]
  by_cases hrun : r.status = .running
  · simp only [hrun, not_true_eq_false, if_false, Lua.EXISTS_bind]
    cases hb : ρ.bal.get a.userId with
    | none =>
      simp only [h.no_balance hb, Option.isSome_none, Bool.not_false, Option.isNone_none, if_true]
      exact ⟨.ok rfl, h⟩
    | some c =>
    obtain ⟨f', hf', -⟩ := h.balance hb
    simp only [hf', Option.isSome_some, Bool.not_true, Option.isNone_some, Bool.false_eq_true, if_false]
    refine h.hincrby hb .freeUsd _ fun _ c₁ s₁ h₁ => ?_
    refine h₁.hincrby (Redis.putBalance_get ..) .bonusUsd _ fun _ c₂ s₂ h₂ => ?_
    refine h₂.hincrby (Redis.putBalance_get ..) .paidUsd _ fun _ c₃ s₃ h₃ => ?_
    refine h₃.hincrby (Redis.putBalance_get ..) .freeRequests _ fun _ c₄ s₄ h₄ => ?_
    refine h₄.hincrby (Redis.putBalance_get ..) .version 1 fun _ c₅ s₅ h₅ => ?_
    -- The record is still the one that was found running.
    obtain ⟨f₅, hf₅, hr₅⟩ := h₅.record hg
    rw [Lua.bind_apply, Lua.HSET, hf₅]
    exact ⟨.ok rfl, ((h₅.putRecord (refunded_holds hr₅ a)).zrem a.clientRequestId).sadd a.userId⟩
  · simp only [if_pos hrun]
    exact ⟨.ok rfl, h⟩

end Adapter

end GenerationBalance
