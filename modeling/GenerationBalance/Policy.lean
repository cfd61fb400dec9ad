/-
The debit policy (`backend/domain/generation.py`): who may generate, at what
cost, and from which buckets the cost is taken.

The definitions are over any type of amounts with the operations Python's
`Decimal` has. They run on `Decimal`; over an ordered group they are the
exact policy, which is where their laws are proved; and on whole
micro-dollars the two agree (`authorize_micros`), so what is proved of the
exact policy holds of the one that runs.
-/
import GenerationBalance.Errors
import Mathlib.Algebra.Order.Group.Defs
import Mathlib.Algebra.Order.Group.Int
import Mathlib.Logic.Function.Basic
import Mathlib.Order.Lattice
import Mathlib.Tactic.Abel

namespace GenerationBalance

abbrev UserId := ℕ
abbrev DialogId := ℕ
abbrev RequestId := ℕ
abbrev OperationId := ℕ

inductive AccessType where
  | free | paidOnly | conditionalFree
deriving DecidableEq, Repr

inductive DebitPolicy where
  | default | paidOnly | paidThenFreeThenBonus
deriving DecidableEq, Repr

inductive Bucket where
  | free | bonus | paid
deriving DecidableEq, Repr

/-- The part of a balance the policy reads. -/
structure BalanceView (α : Type) where
  freeUsd : α
  bonusUsd : α
  paidUsd : α
  freeRequests : ℤ

structure GenerationModel (α : Type) where
  name : String
  accessType : AccessType
  freeCostUsd : α
  paidCostUsd : α

structure GenerationRequest where
  userId : UserId
  dialogId : DialogId
  clientRequestId : RequestId
  modelName : String
  conditionalFreeEligible : Bool := false
deriving DecidableEq, Repr

structure DebitPlan (α : Type) where
  freeUsd : α
  bonusUsd : α
  paidUsd : α
  freeRequests : ℤ
deriving DecidableEq, Repr

structure Authorization (α : Type) where
  model : GenerationModel α
  debitPolicy : DebitPolicy
  estimatedCostUsd : α
  debitPlan : DebitPlan α

def MODELS : String → Option (GenerationModel Decimal)
  | "basic" => some ⟨"basic", .free, ⟨5, -2⟩, ⟨8, -2⟩⟩
  | "premium" => some ⟨"premium", .paidOnly, ⟨20, -2⟩, ⟨20, -2⟩⟩
  | "conditional" => some ⟨"conditional", .conditionalFree, ⟨7, -2⟩, ⟨12, -2⟩⟩
  | _ => none

/-! ## The policy -/

section Policy

variable {α : Type} [Zero α] [Add α] [Sub α] [LT α] [DecidableLT α] [BEq α]

/-- Python's `min(a, b)`: the first of the least. -/
def pyMin (a b : α) : α := if b < a then b else a

/-- Python's `max(a, b)`: the first of the greatest. -/
def pyMax (a b : α) : α := if a < b then b else a

def DebitPlan.totalUsd (p : DebitPlan α) : α := p.freeUsd + p.bonusUsd + p.paidUsd

def DebitPlan.bucket (p : DebitPlan α) : Bucket → α
  | .free => p.freeUsd
  | .bonus => p.bonusUsd
  | .paid => p.paidUsd

def BalanceView.available (b : BalanceView α) : Bucket → α
  | .free => b.freeUsd
  | .bonus => b.bonusUsd
  | .paid => b.paidUsd

/-- The loop over buckets: takes from each in turn until nothing remains.
Answers what was used of each bucket and what still remains. -/
def drain (available : Bucket → α) : List Bucket → α → (Bucket → α) → (Bucket → α) × α
  | [], remaining, used => (used, remaining)
  | b :: order, remaining, used =>
    let taken := pyMin (available b) remaining
    let used := Function.update used b taken
    let remaining := remaining - taken
    if remaining == 0 then (used, remaining) else drain available order remaining used

/-- The order in which `_build_plan` takes from the buckets. -/
def DebitPolicy.order : DebitPolicy → List Bucket
  | .paidOnly => [.paid]
  | .paidThenFreeThenBonus => [.paid, .free, .bonus]
  | .default => [.free, .bonus, .paid]

def validateBalance (b : BalanceView α) : Except Exn Unit :=
  if b.freeUsd < 0 ∨ b.bonusUsd < 0 ∨ b.paidUsd < 0 ∨ b.freeRequests < 0 then .error .negativeBalance
  else .ok ()

def buildPlan (balance : BalanceView α) (amount : α) (policy : DebitPolicy) (consumesFreeRequest : Bool) :
    Except Exn (DebitPlan α) :=
  let (used, remaining) := drain balance.available policy.order amount fun _ => 0
  if 0 < remaining then .error .insufficientBalance
  else .ok ⟨used .free, used .bonus, used .paid, if consumesFreeRequest then 1 else 0⟩

/-- The branches of `authorize` over the access type: the policy, the cost, and
whether a free request is consumed. -/
def debitTerms (model : GenerationModel α) (request : GenerationRequest) (balance : BalanceView α) :
    Except Exn (DebitPolicy × α × Bool) :=
  let hasPaidBalance := decide (0 < balance.paidUsd)
  match model.accessType with
  | .paidOnly => .ok (.paidOnly, model.paidCostUsd, false)
  | .conditionalFree =>
    if hasPaidBalance && !decide (balance.paidUsd < model.paidCostUsd) then
      .ok (.paidOnly, model.paidCostUsd, false)
    else if request.conditionalFreeEligible then
      .ok (if hasPaidBalance then .paidThenFreeThenBonus else .default, model.freeCostUsd, true)
    else .error .conditionalFreeAccessDenied
  | .free =>
    if hasPaidBalance then .ok (.default, model.paidCostUsd, false)
    else .ok (.default, model.freeCostUsd, !hasPaidBalance)

def authorize (models : String → Option (GenerationModel α)) (request : GenerationRequest)
    (balance : BalanceView α) : Except Exn (Authorization α) :=
  match models request.modelName with
  | none => .error (.keyError request.modelName)
  | some model => do
    validateBalance balance
    let (debitPolicy, estimatedCostUsd, consumesFreeRequest) ← debitTerms model request balance
    if consumesFreeRequest ∧ balance.freeRequests ≤ 0 then throw .freeRequestsExhausted
    let debitPlan ← buildPlan balance estimatedCostUsd debitPolicy consumesFreeRequest
    return ⟨model, debitPolicy, estimatedCostUsd, debitPlan⟩

/-- The order in which a plan was charged, as `surplus_refund` keeps it. -/
def chargeOrder : DebitPolicy → List Bucket
  | .paidOnly => [.paid]
  | .paidThenFreeThenBonus => [.paid, .free, .bonus]
  | .default => [.free, .bonus, .paid]

/-- The unbilled part of a plan, returned last in first out along the charge
order; free requests stay. -/
def surplusRefund (plan : DebitPlan α) (policy : DebitPolicy) (billedCostUsd : α) : DebitPlan α :=
  let remaining := plan.totalUsd - pyMax 0 (pyMin billedCostUsd plan.totalUsd)
  let (refund, _) := drain plan.bucket (chargeOrder policy).reverse remaining fun _ => 0
  ⟨refund .free, refund .bonus, refund .paid, 0⟩

end Policy

section Ok

variable {α : Type} [Zero α] [Add α] [Sub α] [LT α] [DecidableLT α] [BEq α]

/-- What `authorize` decided on, when it did not deny. -/
structure Authorized (models : String → Option (GenerationModel α)) (request : GenerationRequest)
    (balance : BalanceView α) (a : Authorization α) : Prop where
  model : models request.modelName = some a.model
  valid : validateBalance balance = .ok ()
  plan : ∃ consumesFreeRequest : Bool,
    debitTerms a.model request balance = .ok (a.debitPolicy, a.estimatedCostUsd, consumesFreeRequest) ∧
      (consumesFreeRequest = true → 0 < balance.freeRequests) ∧
      buildPlan balance a.estimatedCostUsd a.debitPolicy consumesFreeRequest = .ok a.debitPlan

end Ok

theorem bind_eq_ok {ε α β : Type} {x : Except ε α} {f : α → Except ε β} {b : β} :
    (x >>= f) = .ok b ↔ ∃ a, x = .ok a ∧ f a = .ok b := by
  cases x with
  | error e =>
    refine ⟨fun h => ?_, fun ⟨_, h, _⟩ => ?_⟩ <;> cases h
  | ok a =>
    refine ⟨fun h => ⟨a, rfl, h⟩, fun ⟨_, h, h'⟩ => ?_⟩
    cases h
    exact h'

theorem authorize_ok {α : Type} [Zero α] [Add α] [Sub α] [LT α] [DecidableLT α] [BEq α]
    {models : String → Option (GenerationModel α)} {request : GenerationRequest} {balance : BalanceView α}
    {a : Authorization α} (h : authorize models request balance = .ok a) : Authorized models request balance a := by
  unfold authorize at h
  split at h
  · cases h
  next model hm =>
  obtain ⟨_, hv, h⟩ := bind_eq_ok.mp h
  obtain ⟨⟨policy, cost, consumes⟩, ht, h⟩ := bind_eq_ok.mp h
  simp only at h
  split at h
  · cases h
  next hf =>
  obtain ⟨plan, hp, h⟩ := bind_eq_ok.mp h
  cases h
  refine ⟨hm, hv, consumes, ht, fun hc => ?_, hp⟩
  by_contra hn
  exact hf ⟨hc, not_lt.mp hn⟩

theorem bind_eq_error {ε α β : Type} {x : Except ε α} {f : α → Except ε β} {e : ε} :
    (x >>= f) = .error e ↔ x = .error e ∨ ∃ a, x = .ok a ∧ f a = .error e := by
  cases x with
  | error e' =>
    refine ⟨fun h => .inl (by cases h; rfl), fun h => ?_⟩
    rcases h with h | ⟨_, h, _⟩ <;> cases h
    rfl
  | ok a =>
    refine ⟨fun h => .inr ⟨a, rfl, h⟩, fun h => ?_⟩
    rcases h with h | ⟨_, h, h'⟩
    · cases h
    · cases h
      exact h'

/-! ## The exact policy

Over an ordered group. -/

section Exact

variable {α : Type}

theorem pyMin_eq [LinearOrder α] (a b : α) : pyMin a b = min a b := by
  unfold pyMin
  split
  · next h => rw [min_eq_right h.le]
  · next h => rw [min_eq_left (not_lt.mp h)]

theorem pyMax_eq [LinearOrder α] (a b : α) : pyMax a b = max a b := by
  unfold pyMax
  split
  · next h => rw [max_eq_right h.le]
  · next h => rw [max_eq_left (not_lt.mp h)]

variable [AddCommGroup α]

/-- What is used of the three buckets together. -/
def total (f : Bucket → α) : α := f .free + f .bonus + f .paid

theorem total_update {f : Bucket → α} {b : Bucket} (h : f b = 0) (t : α) :
    total (Function.update f b t) = total f + t := by
  cases b <;> simp [total, h] <;> abel

theorem total_bucket (plan : DebitPlan α) : total plan.bucket = plan.totalUsd := rfl

variable [LinearOrder α] [IsOrderedAddMonoid α]

/-- What the loop does: it takes no more than is available, only from the
buckets of its order, and either nothing remains or all of them are used up. -/
structure Drained (available : Bucket → α) (order : List Bucket) (remaining : α) (used : Bucket → α)
    (r : (Bucket → α) × α) : Prop where
  within : ∀ b ∈ order, 0 ≤ r.1 b ∧ r.1 b ≤ available b
  others : ∀ b, b ∉ order → r.1 b = used b
  balanced : total r.1 + r.2 = total used + remaining
  nonneg : 0 ≤ r.2
  exhausted : r.2 = 0 ∨ ∀ b ∈ order, r.1 b = available b

theorem drain_spec {available : Bucket → α} (ha : ∀ b, 0 ≤ available b) :
    ∀ {order : List Bucket} {remaining : α} (used : Bucket → α), order.Nodup → (∀ b ∈ order, used b = 0) →
      0 ≤ remaining → Drained available order remaining used (drain available order remaining used)
  | [], remaining, used, _, _, hr => ⟨by simp, by simp [drain], by simp [drain], hr, .inr (by simp)⟩
  | b :: order, remaining, used, hn, hu, hr => by
    rw [List.nodup_cons] at hn
    have hb : used b = 0 := hu b (by simp)
    simp only [drain, pyMin_eq]
    set taken := min (available b) remaining with ht
    have h0 : 0 ≤ taken := le_min (ha b) hr
    have hta : taken ≤ available b := min_le_left _ _
    have hr' : 0 ≤ remaining - taken := sub_nonneg.mpr (min_le_right _ _)
    have htot : total (Function.update used b taken) + (remaining - taken) = total used + remaining := by
      rw [total_update hb]; abel
    split
    · -- Nothing remains: the rest of the order stays unused.
      next hz =>
      have hz : remaining - taken = 0 := by simpa using hz
      refine ⟨fun c hc => ?_, fun c hc => ?_, htot, hr', .inl hz⟩
      · by_cases hcb : c = b
        · subst hcb; simpa using ⟨h0, hta⟩
        · have hc0 : used c = 0 := hu c hc
          simpa [Function.update_of_ne hcb, hc0] using ha c
      · have : c ≠ b := fun h => hc (by simp [h])
        simp [Function.update_of_ne this]
    · next hz =>
      have hz : remaining - taken ≠ 0 := by simpa using hz
      have hmin : taken = available b := by
        rcases le_total (available b) remaining with h | h
        · rw [ht, min_eq_left h]
        · exact absurd (by rw [ht, min_eq_right h, sub_self]) hz
      have hu' : ∀ c ∈ order, Function.update used b taken c = 0 := fun c hc => by
        have : c ≠ b := fun h => hn.1 (h ▸ hc)
        rw [Function.update_of_ne this]
        exact hu c (List.mem_cons_of_mem _ hc)
      have ih := drain_spec ha _ hn.2 hu' hr'
      have hrb : (drain available order (remaining - taken) (Function.update used b taken)).1 b = taken := by
        rw [ih.others b hn.1, Function.update_self]
      refine ⟨fun c hc => ?_, fun c hc => ?_, ih.balanced.trans htot, ih.nonneg, ?_⟩
      · rcases List.mem_cons.mp hc with rfl | hc
        · rw [hrb]; exact ⟨h0, hta⟩
        · exact ih.within c hc
      · simp only [List.mem_cons, not_or] at hc
        rw [ih.others c hc.2, Function.update_of_ne hc.1]
      · refine ih.exhausted.imp_right fun hall c hc => ?_
        rcases List.mem_cons.mp hc with rfl | hc
        · rw [hrb, hmin]
        · exact hall c hc

theorem order_nodup (policy : DebitPolicy) : policy.order.Nodup := by
  cases policy <;> decide

/-- The two order tables agree. -/
theorem chargeOrder_eq (policy : DebitPolicy) : chargeOrder policy = policy.order := by
  cases policy <;> rfl

/-- A plan that the policy may charge: within the buckets of its order. -/
structure DebitPlan.Charged (plan : DebitPlan α) (policy : DebitPolicy) (cost : α) : Prop where
  nonneg : ∀ b, 0 ≤ plan.bucket b
  others : ∀ b, b ∉ policy.order → plan.bucket b = 0
  total : plan.totalUsd = cost

/-- **A built plan** takes exactly the amount, from the policy's buckets, and
no more than the balance has. -/
theorem buildPlan_spec {balance : BalanceView α} {amount : α} {policy : DebitPolicy} {c : Bool}
    {plan : DebitPlan α} (hb : ∀ b, 0 ≤ balance.available b) (ha : 0 ≤ amount)
    (h : buildPlan balance amount policy c = .ok plan) :
    plan.Charged policy amount ∧ (∀ b, plan.bucket b ≤ balance.available b) ∧
      plan.freeRequests = if c then 1 else 0 := by
  have hd := drain_spec hb (fun _ => 0) (order_nodup policy) (fun _ _ => rfl) ha
  simp only [buildPlan] at h
  split at h
  · cases h
  next hrem =>
  simp only [Except.ok.injEq] at h
  subst h
  have hz : (drain balance.available policy.order amount fun _ => 0).2 = 0 :=
    le_antisymm (not_lt.mp hrem) hd.nonneg
  have hbk : ∀ b, DebitPlan.bucket (α := α) ⟨(drain balance.available policy.order amount fun _ => 0).1 .free,
      (drain balance.available policy.order amount fun _ => 0).1 .bonus,
      (drain balance.available policy.order amount fun _ => 0).1 .paid, if c then 1 else 0⟩ b =
      (drain balance.available policy.order amount fun _ => 0).1 b := by
    intro b; cases b <;> rfl
  refine ⟨⟨fun b => ?_, fun b hbo => ?_, ?_⟩, fun b => ?_, rfl⟩
  · rw [hbk]
    by_cases hm : b ∈ policy.order
    · exact (hd.within b hm).1
    · rw [hd.others b hm]
  · rw [hbk, hd.others b hbo]
  · have := hd.balanced
    rw [hz, add_zero] at this
    simpa [total, DebitPlan.totalUsd] using this
  · rw [hbk]
    by_cases hm : b ∈ policy.order
    · exact (hd.within b hm).2
    · rw [hd.others b hm]; exact hb b

/-- **The refunded surplus** lies within the plan and is exactly the part of
it that the clamped bill leaves. -/
theorem surplusRefund_spec {plan : DebitPlan α} {policy : DebitPolicy} {cost : α} (hp : plan.Charged policy cost)
    (hc : 0 ≤ cost) (billed : α) :
    (∀ b, 0 ≤ (surplusRefund plan policy billed).bucket b ∧
      (surplusRefund plan policy billed).bucket b ≤ plan.bucket b) ∧
    (surplusRefund plan policy billed).totalUsd = cost - max 0 (min billed cost) ∧
    (surplusRefund plan policy billed).freeRequests = 0 := by
  have hn : (chargeOrder policy).reverse.Nodup := by
    rw [List.nodup_reverse, chargeOrder_eq]; exact order_nodup policy
  have hrem : 0 ≤ plan.totalUsd - pyMax 0 (pyMin billed plan.totalUsd) := by
    rw [pyMax_eq, pyMin_eq, sub_nonneg, hp.total]
    exact max_le hc (min_le_right _ _)
  have hd := drain_spec hp.nonneg (fun _ => 0) hn (fun _ _ => rfl) hrem
  set r := drain plan.bucket (chargeOrder policy).reverse
    (plan.totalUsd - pyMax 0 (pyMin billed plan.totalUsd)) fun _ => 0 with hr
  have hmem : ∀ b, b ∈ (chargeOrder policy).reverse ↔ b ∈ policy.order := by
    intro b; rw [List.mem_reverse, chargeOrder_eq]
  have hdef : surplusRefund plan policy billed = ⟨r.1 .free, r.1 .bonus, r.1 .paid, 0⟩ := by
    simp only [surplusRefund, hr]
  have hbk : ∀ b, (surplusRefund plan policy billed).bucket b = r.1 b := by
    intro b; rw [hdef]; cases b <;> rfl
  have hin : ∀ b, 0 ≤ r.1 b ∧ r.1 b ≤ plan.bucket b := by
    intro b
    by_cases hb : b ∈ policy.order
    · exact hd.within b ((hmem b).mpr hb)
    · rw [hd.others b (fun h => hb ((hmem b).mp h))]
      exact ⟨le_refl _, hp.nonneg b⟩
  refine ⟨fun b => by rw [hbk]; exact hin b, ?_, by rw [hdef]⟩
  have hbal : total r.1 + r.2 = plan.totalUsd - pyMax 0 (pyMin billed plan.totalUsd) := by
    simpa [total] using hd.balanced
  have hz : r.2 = 0 := by
    rcases hd.exhausted with h | h
    · exact h
    · -- The whole plan was returned, so no more than it can remain.
      have hall : r.1 = plan.bucket := by
        funext b
        by_cases hb : b ∈ policy.order
        · exact h b ((hmem b).mpr hb)
        · rw [hd.others b (fun h => hb ((hmem b).mp h)), hp.others b hb]
      rw [hall, total_bucket, pyMax_eq, pyMin_eq] at hbal
      have : r.2 = - max 0 (min billed plan.totalUsd) := by
        rw [eq_sub_iff_add_eq] at hbal
        rw [eq_neg_iff_add_eq_zero]
        have := hbal
        rw [add_assoc] at this
        exact left_eq_add.mp this.symm
      exact le_antisymm (by rw [this]; exact neg_nonpos.mpr (le_max_left _ _)) hd.nonneg
  have htot : (surplusRefund plan policy billed).totalUsd = total r.1 := by rw [hdef]; rfl
  rw [htot, ← hp.total, ← pyMin_eq, ← pyMax_eq, ← hbal, hz, add_zero]

end Exact

end GenerationBalance
