/-
Reading the strings back (`_record_from_fields`, `_snapshot_from_conflict` and the
end of `reserve` in `backend/infra/database/redis/adapters/balance_store.py`).

A record's hash lacks the fields no script has written, and the reply of a
duplicate `RESERVE` has them blank. Both are read alike.
-/
import GenerationBalance.Encoding
import GenerationBalance.Store

namespace GenerationBalance

/-! ## Numbers -/

def strToMoney (raw : String) : Option Number := Number.parse raw

theorem strToMoney_format (n : Number) : strToMoney n.format = some n.plain := Number.parse_format n

/-- `read(raw) if raw else None`, of a field that may be missing. -/
def optional {α : Type} (read : String → Option α) (raw : Option String) : Option (Option α) :=
  match textOrNone raw with
  | some raw => (read raw).map some
  | none => some none

/-- `micros_to_money(int(raw))`. -/
def readMicros (raw : String) : Option Decimal := raw.toInt?.map microsToMoney

theorem readMicros_repr (n : ℤ) : readMicros n.repr = some (microsToMoney n) := by
  rw [readMicros, Int.toInt?_repr, Option.map_some]

/-- What is written with a text that is not empty is read back when it is there. -/
theorem optional_map {α β : Type} {read : String → Option α} {str : β → String} {g : β → α}
    (hread : ∀ b, read (str b) = some (g b)) (hempty : ∀ b, str b ≠ "") (x : Option β) :
    optional read (x.map str) = some (x.map g) := by
  cases x with
  | none => rfl
  | some b => simp [optional, textOrNone, Option.filter, hempty, hread]

/-! ## Records -/

def GenerationStatus.ofText : String → Option GenerationStatus
  | "running" => some .running
  | "done" => some .done
  | "failed" => some .failed
  | _ => none

theorem GenerationStatus.ofText_text (s : GenerationStatus) : ofText s.text = some s := by cases s <;> rfl

def optionalMicros (fields : Fields) (name : String) : Option (Option Decimal) :=
  optional readMicros (fields.get name)

/-- The record as it is read back. -/
def GenerationHash.plain (r : GenerationHash) : GenerationHash :=
  { r with providerBilledCostUsd := r.providerBilledCostUsd.map Number.plain }

namespace Adapter

variable (A : Adapter)

/-- `_record_from_fields`; `none` when it raises. -/
def recordFromFields (fields : Fields) : Option GenerationRecord := do
  let status ← GenerationStatus.ofText (← fields.get "status")
  let userId ← A.uuid.read (← fields.get "user_id")
  let dialogId ← A.uuid.read (← fields.get "dialog_id")
  let modelName ← fields.get "model_name"
  let freeUsd ← readMicros (← fields.get "plan_free_usd")
  let bonusUsd ← readMicros (← fields.get "plan_bonus_usd")
  let paidUsd ← readMicros (← fields.get "plan_paid_usd")
  let freeRequests ← (← fields.get "plan_free_requests").toInt?
  let authorizedCostUsd ← readMicros (← fields.get "authorized_cost_usd")
  let startedAt ← A.float.read (← fields.get "started_at")
  let billedCostUsd ← optionalMicros fields "billed_cost_usd"
  let providerBilledCostUsd ← optional strToMoney (fields.get "provider_billed_cost_usd")
  let refundedSurplusUsd ← optionalMicros fields "refunded_surplus_usd"
  return {
    status, userId, dialogId, modelName
    plan := { freeUsd, bonusUsd, paidUsd, freeRequests }
    authorizedCostUsd, startedAt
    content := textOrNone (fields.get "content")
    billedCostUsd, providerBilledCostUsd, refundedSurplusUsd
    error := textOrNone (fields.get "error") }

/-- The fields are the record's, the missing ones missing or blank. -/
def Reads (fields : Fields) (r : GenerationHash) : Prop :=
  ∀ f : RecordField, fields.get f.name = r.text A f ∨ fields.get f.name = some ((r.text A f).getD "")

variable {A}

theorem Reads.present {fields : Fields} {r : GenerationHash} (h : A.Reads fields r) {f : RecordField} {x : String}
    (hx : r.text A f = some x) : fields.get f.name = some x := by
  rcases h f with h | h
  · rw [h, hx]
  · rw [h, hx, Option.getD_some]

theorem Reads.maybe {fields : Fields} {r : GenerationHash} (h : A.Reads fields r) (f : RecordField) :
    textOrNone (fields.get f.name) = textOrNone (r.text A f) := by
  rcases h f with h | h
  · rw [h]
  · rw [h]
    cases r.text A f <;> rfl

theorem Reads.optional {α : Type} {fields : Fields} {r : GenerationHash} (h : A.Reads fields r) (f : RecordField)
    (read : String → Option α) :
    GenerationBalance.optional read (fields.get f.name) = GenerationBalance.optional read (r.text A f) := by
  unfold GenerationBalance.optional
  rw [h.maybe f]

/-- **A record is read back**, from its hash or from a reply. -/
theorem Reads.recordFromFields {fields : Fields} {r : GenerationHash} (h : A.Reads fields r) :
    A.recordFromFields fields = some (GenerationBalance.recordFromFields r.plain) := by
  have h1 : fields.get "status" = _ := h.present (f := .status) rfl
  have h2 : fields.get "user_id" = _ := h.present (f := .userId) rfl
  have h3 : fields.get "dialog_id" = _ := h.present (f := .dialogId) rfl
  have h4 : fields.get "model_name" = _ := h.present (f := .modelName) rfl
  have h5 : fields.get "plan_free_usd" = _ := h.present (f := .planFreeUsd) rfl
  have h6 : fields.get "plan_bonus_usd" = _ := h.present (f := .planBonusUsd) rfl
  have h7 : fields.get "plan_paid_usd" = _ := h.present (f := .planPaidUsd) rfl
  have h8 : fields.get "plan_free_requests" = _ := h.present (f := .planFreeRequests) rfl
  have h9 : fields.get "authorized_cost_usd" = _ := h.present (f := .authorizedCostUsd) rfl
  have h10 : fields.get "started_at" = _ := h.present (f := .startedAt) rfl
  have h11 : textOrNone (fields.get "content") = _ := h.maybe .content
  have h12 : optionalMicros fields "billed_cost_usd" = _ := h.optional .billedCostUsd readMicros
  have h13 : GenerationBalance.optional strToMoney (fields.get "provider_billed_cost_usd") = _ :=
    h.optional .providerBilledCostUsd strToMoney
  have h14 : optionalMicros fields "refunded_surplus_usd" = _ := h.optional .refundedSurplusUsd readMicros
  have h15 : textOrNone (fields.get "error") = _ := h.maybe .error
  simp only [GenerationHash.text, optional_map readMicros_repr repr_ne_empty,
    optional_map strToMoney_format Number.format_ne_empty] at h11 h12 h13 h14 h15
  simp only [Adapter.recordFromFields, h1, h2, h3, h4, h5, h6, h7, h8, h9, h10, h11, h12, h13, h14, h15,
    GenerationStatus.ofText_text, A.uuid.read_str, A.float.read_str, readMicros_repr, Int.toInt?_repr,
    Option.bind_eq_bind, Option.bind_some, Option.pure_def]
  rfl

variable (A)

/-- `get_generation`; the outer `none` when it raises. -/
def getGeneration (id : RequestId) (s : RawRedis) : Option (Option GenerationRecord) :=
  match s.hashes.get (A.generationKey id) with
  | some fields => (A.recordFromFields fields).map some
  | none => some none

/-! ## Replies -/

/-- `_snapshot_from_conflict`. -/
def snapshotFromConflict (reply : List String) : Option BalanceSnapshot := do
  let freeUsd ← readMicros (← reply[1]?)
  let bonusUsd ← readMicros (← reply[2]?)
  let paidUsd ← readMicros (← reply[3]?)
  let freeRequests ← (← reply[4]?).toInt?
  let version ← (← reply[5]?).toInt?
  return { freeUsd, bonusUsd, paidUsd, freeRequests, version }

def DUP_FIELDS : List String :=
  ["status", "user_id", "dialog_id", "model_name", "plan_free_usd", "plan_bonus_usd", "plan_paid_usd",
    "plan_free_requests", "authorized_cost_usd", "started_at", "content", "billed_cost_usd",
    "provider_billed_cost_usd", "refunded_surplus_usd", "error", "reservation_token"]

/-- `dict(zip(names, values, strict=True))`. -/
def dictZip (names values : List String) : Option Fields :=
  if names.length = values.length then some (Table.empty.setAll (names.zip values)) else none

/-- The outcome of `reserve`, as the service gets it. -/
inductive Outcome where
  | reserved
  | conflict (current : BalanceSnapshot)
  | missing
  | duplicate (record : GenerationRecord)

/-- The end of `reserve`; `none` when it raises. -/
def reserveOutcome (token : Token) (reply : List String) : Option Outcome := do
  match ← reply[0]? with
  | "OK" => return .reserved
  | "CONFLICT" => return .conflict (← snapshotFromConflict reply)
  | "MISSING" => return .missing
  | _ =>
    let fields ← dictZip DUP_FIELDS (reply.drop 1)
    if (← fields.get "reservation_token") = A.hex.str token then return .reserved
    return .duplicate (← A.recordFromFields fields)

/-- A typed outcome as it is read. -/
def outcome : ReserveOutcome → Outcome
  | .reserved => .reserved
  | .conflict c => .conflict (snapshotFromHash c)
  | .missing => .missing
  | .duplicate r => .duplicate (GenerationBalance.recordFromFields r.plain)

variable {A}

theorem Encodes.getGeneration {s : RawRedis} {ρ : Redis} (h : A.Encodes s ρ) (id : RequestId) :
    A.getGeneration id s =
      some ((ρ.gen.get id).map fun r => GenerationBalance.recordFromFields r.plain) := by
  cases hr : ρ.gen.get id with
  | none => simp only [Adapter.getGeneration, h.no_record hr, Option.map_none]
  | some r =>
    obtain ⟨f, hf, hholds⟩ := h.record hr
    have hreads : A.Reads f r := fun g => .inl (hholds g)
    simp only [Adapter.getGeneration, hf, hreads.recordFromFields, Option.map_some]

/-- The dict of a duplicate's reply has the record's fields, the missing ones blank. -/
theorem dictZip_dup (r : GenerationHash) :
    ∃ fields, dictZip DUP_FIELDS (RecordField.all.map fun f => (r.text A f).getD "") = some fields ∧
      ∀ f : RecordField, fields.get f.name = some ((r.text A f).getD "") := by
  have hnames : DUP_FIELDS = RecordField.all.map RecordField.name := rfl
  refine ⟨_, if_pos rfl, fun f => ?_⟩
  rw [hnames, List.zip_map']
  refine Table.get_setAll (fun w hw => ?_) (.inr ?_)
  · obtain ⟨g, -, hg⟩ := List.mem_map.mp hw
    rw [Prod.mk.injEq, RecordField.name_inj] at hg
    obtain ⟨rfl, rfl⟩ := hg
    rfl
  · exact List.mem_map.mpr ⟨f, f.mem_all, rfl⟩

/-- **What `reserve` makes of a reply** is what the reply says. -/
theorem reserveOutcome_reply (token : Token) (r : ReserveReply) :
    A.reserveOutcome token (A.reserveReply r) = some (outcome (GenerationBalance.reserveOutcome token r)) := by
  cases r with
  | ok v => rfl
  | missing => rfl
  | conflict c =>
    have hsnapshot : snapshotFromConflict (A.reserveReply (.conflict c)) = some (snapshotFromHash c) := by
      simp only [snapshotFromConflict, reserveReply, List.getElem?_cons_succ, List.getElem?_cons_zero, readMicros_repr,
        Int.toInt?_repr, Option.bind_eq_bind, Option.bind_some, Option.pure_def]
      rfl
    show (snapshotFromConflict _).bind (fun current => some (Outcome.conflict current)) = _
    rw [hsnapshot]
    rfl
  | dup r =>
    obtain ⟨fields, hdict, hfields⟩ := dictZip_dup (A := A) r
    have hreads : A.Reads fields r := fun f => .inr (hfields f)
    have htoken : fields.get "reservation_token" = some (A.hex.str r.reservationToken) := hfields .reservationToken
    simp only [Adapter.reserveOutcome, reserveReply, List.getElem?_cons_zero, List.drop_succ_cons, List.drop_zero,
      hdict, Option.bind_eq_bind, Option.bind_some]
    show (fields.get "reservation_token").bind (fun raw => if raw = A.hex.str token then some Outcome.reserved
      else (A.recordFromFields fields).bind fun record => some (Outcome.duplicate record)) = _
    simp only [htoken, Option.bind_some, hreads.recordFromFields, A.hex.str_inj, GenerationBalance.reserveOutcome]
    split <;> rfl

end Adapter

end GenerationBalance
