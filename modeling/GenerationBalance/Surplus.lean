/-
The refund of a surplus undoes the tail of the debit. A plan takes greedily along
the policy's order, and a refund gives back greedily along the reverse of the
charge order; so what a plan keeps is what would have been taken for the charge.
-/
import GenerationBalance.Greedy
import GenerationBalance.Policy

namespace GenerationBalance

open Greedy

section Exact

variable {α : Type} [AddCommGroup α]

/-- What a policy takes in all is the sum along its order. -/
theorem order_sum {f : Bucket → α} {policy : DebitPolicy} (h : ∀ b, b ∉ policy.order → f b = 0) :
    (policy.order.map f).sum = total f := by
  cases policy with
  | default => simp [DebitPolicy.order, total, add_assoc]
  | paidOnly => simp [DebitPolicy.order, total, h .free (by decide), h .bonus (by decide)]
  | paidThenFreeThenBonus =>
    simp only [DebitPolicy.order, total, List.map_cons, List.map_nil, List.sum_cons, List.sum_nil]
    abel

variable [LinearOrder α] [IsOrderedAddMonoid α]

/-! ## The loop is greedy -/

theorem drain_greedy {available : Bucket → α} (ha : ∀ b, 0 ≤ available b) :
    ∀ {order : List Bucket} {remaining : α} (used : Bucket → α), order.Nodup → (∀ b ∈ order, used b = 0) →
      0 ≤ remaining →
      order.Pairwise fun b c => (drain available order remaining used).1 c ≠ 0 →
        (drain available order remaining used).1 b = available b
  | [], _, _, _, _, _ => .nil
  | b :: order, remaining, used, hn, hu, hr => by
    have hd := drain_spec ha used hn hu hr
    rw [List.nodup_cons] at hn
    have hu' : ∀ c ∈ order, Function.update used b (pyMin (available b) remaining) c = 0 := fun c hc => by
      have hcb : c ≠ b := fun h => hn.1 (h ▸ hc)
      rw [Function.update_of_ne hcb]
      exact hu c (List.mem_cons_of_mem _ hc)
    have hle : pyMin (available b) remaining ≤ remaining := by rw [pyMin_eq]; exact min_le_right _ _
    simp only [drain] at hd ⊢
    split
    · -- Nothing is taken of the rest.
      have hrest : ∀ c ∈ order, Function.update used b (pyMin (available b) remaining) c = 0 := hu'
      refine List.pairwise_cons.mpr ⟨fun c hc hne => absurd (hrest c hc) hne, ?_⟩
      exact List.pairwise_of_forall_mem_list fun c _ e he hne => absurd (hrest e he) hne
    · next hz =>
      have hz : remaining - pyMin (available b) remaining ≠ 0 := by simpa using hz
      have hfull : pyMin (available b) remaining = available b := by
        rw [pyMin_eq] at hz ⊢
        refine min_eq_left ?_
        by_contra hlt
        exact hz (by rw [min_eq_right (not_le.mp hlt).le, sub_self])
      have ih := drain_greedy ha _ hn.2 hu' (sub_nonneg.mpr hle)
      refine List.pairwise_cons.mpr ⟨fun c hc _ => ?_, ih⟩
      have hb := (drain_spec ha _ hn.2 hu' (sub_nonneg.mpr hle)).others b hn.1
      rw [hb, Function.update_self, hfull]

theorem drain_fill {available : Bucket → α} {order : List Bucket} {remaining : α} (ha : ∀ b, 0 ≤ available b)
    (hn : order.Nodup) (hr : 0 ≤ remaining) : Fill available order (drain available order remaining fun _ => 0).1 := by
  have hd := drain_spec ha (fun _ => 0) hn (fun _ _ => rfl) hr
  exact ⟨fun b hb => (hd.within b hb).1, fun b hb => (hd.within b hb).2, drain_greedy ha _ hn (fun _ _ => rfl) hr⟩

/-- **A plan takes greedily** from the balance. -/
theorem buildPlan_fill {balance : BalanceView α} {amount : α} {policy : DebitPolicy} {c : Bool} {plan : DebitPlan α}
    (hb : ∀ b, 0 ≤ balance.available b) (ha : 0 ≤ amount) (h : buildPlan balance amount policy c = .ok plan) :
    Fill balance.available policy.order plan.bucket := by
  have hfill := drain_fill hb (order_nodup policy) ha
  simp only [buildPlan] at h
  split at h
  · cases h
  cases h
  have hbucket : DebitPlan.bucket (α := α) ⟨(drain balance.available policy.order amount fun _ => 0).1 .free,
      (drain balance.available policy.order amount fun _ => 0).1 .bonus,
      (drain balance.available policy.order amount fun _ => 0).1 .paid, if c then 1 else 0⟩ =
      (drain balance.available policy.order amount fun _ => 0).1 := by
    funext b
    cases b <;> rfl
  rwa [hbucket]

/-- Whatever the policy's buckets together have can be taken from them. -/
theorem buildPlan_enough {balance : BalanceView α} {amount : α} {policy : DebitPolicy} (c : Bool)
    (hb : ∀ b, 0 ≤ balance.available b) (ha : 0 ≤ amount) (h : amount ≤ (policy.order.map balance.available).sum) :
    ∃ plan, buildPlan balance amount policy c = .ok plan := by
  have hd := drain_spec hb (fun _ => 0) (order_nodup policy) (fun _ _ => rfl) ha
  simp only [buildPlan]
  split
  · next hlt =>
    exfalso
    rcases hd.exhausted with hz | hall
    · exact absurd hlt (by rw [hz]; exact lt_irrefl _)
    · have hsum : (policy.order.map (drain balance.available policy.order amount fun _ => 0).1).sum =
          (policy.order.map balance.available).sum := by
        rw [List.map_congr_left hall]
      rw [order_sum fun b hbo => hd.others b hbo] at hsum
      have hbal := hd.balanced
      rw [hsum, show total (fun _ : Bucket => (0 : α)) = 0 by simp [total], zero_add] at hbal
      rw [← hbal] at h
      exact absurd hlt (not_lt.mpr (by simpa using h))
  · exact ⟨_, rfl⟩

/-- And no more than they have. -/
theorem buildPlan_le {balance : BalanceView α} {amount : α} {policy : DebitPolicy} {c : Bool} {plan : DebitPlan α}
    (hb : ∀ b, 0 ≤ balance.available b) (ha : 0 ≤ amount) (h : buildPlan balance amount policy c = .ok plan) :
    amount ≤ (policy.order.map balance.available).sum := by
  obtain ⟨hcharged, hle, -⟩ := buildPlan_spec hb ha h
  rw [← hcharged.total, ← total_bucket, ← order_sum hcharged.others]
  exact List.sum_le_sum fun b _ => hle b

/-! ## The surplus -/

/-- **A refund gives back greedily** from the end of a plan. -/
theorem surplusRefund_fill {plan : DebitPlan α} {policy : DebitPolicy} {cost : α} (hp : plan.Charged policy cost)
    (hc : 0 ≤ cost) (billed : α) :
    Fill plan.bucket policy.order.reverse (surplusRefund plan policy billed).bucket := by
  have hrem : 0 ≤ plan.totalUsd - pyMax 0 (pyMin billed plan.totalUsd) := by
    rw [pyMax_eq, pyMin_eq, sub_nonneg, hp.total]
    exact max_le hc (min_le_right _ _)
  have hfill := drain_fill hp.nonneg (List.nodup_reverse.mpr (order_nodup policy)) hrem
  have hbucket : (drain plan.bucket policy.order.reverse (plan.totalUsd - pyMax 0 (pyMin billed plan.totalUsd))
      fun _ => 0).1 = (surplusRefund plan policy billed).bucket := by
    funext b
    simp only [surplusRefund, chargeOrder_eq]
    cases b <;> rfl
  rwa [hbucket] at hfill

theorem surplusRefund_others {plan : DebitPlan α} {policy : DebitPolicy} {cost : α} (hp : plan.Charged policy cost)
    (hc : 0 ≤ cost) (billed : α) {b : Bucket} (hb : b ∉ policy.order) :
    (surplusRefund plan policy billed).bucket b = 0 := by
  obtain ⟨h0, hle⟩ := (surplusRefund_spec hp hc billed).1 b
  rw [hp.others b hb] at hle
  exact le_antisymm hle h0

/-- **The refund is the inverse of the tail of the debit.** Of a plan that was built
for an amount, every bucket gives back a part of what it gave, no free request comes
back, and what is left is, bucket by bucket, the plan for the clamped bill. -/
theorem surplus_inverse {balance : BalanceView α} {amount : α} {policy : DebitPolicy} {consumes : Bool}
    {plan : DebitPlan α} (hb : ∀ b, 0 ≤ balance.available b) (ha : 0 ≤ amount)
    (h : buildPlan balance amount policy consumes = .ok plan) (billed : α) :
    (∀ b, 0 ≤ (surplusRefund plan policy billed).bucket b ∧
      (surplusRefund plan policy billed).bucket b ≤ plan.bucket b) ∧
    (surplusRefund plan policy billed).freeRequests = 0 ∧
    ∃ kept, buildPlan balance (max 0 (min billed amount)) policy consumes = .ok kept ∧
      (∀ b, plan.bucket b - (surplusRefund plan policy billed).bucket b = kept.bucket b) ∧
      plan.freeRequests - (surplusRefund plan policy billed).freeRequests = kept.freeRequests := by
  obtain ⟨hcharged, -, hfree⟩ := buildPlan_spec hb ha h
  obtain ⟨hwithin, htotal, hzero⟩ := surplusRefund_spec hcharged ha billed
  have hc0 : 0 ≤ max 0 (min billed amount) := le_max_left _ _
  have hca : max 0 (min billed amount) ≤ amount := max_le ha (min_le_right _ _)
  obtain ⟨kept, hkept⟩ := buildPlan_enough consumes hb hc0 (hca.trans (buildPlan_le hb ha h))
  obtain ⟨hkcharged, -, hkfree⟩ := buildPlan_spec hb hc0 hkept
  refine ⟨hwithin, hzero, kept, hkept, fun b => ?_, by rw [hzero, sub_zero, hfree, hkfree]⟩
  by_cases hbo : b ∈ policy.order
  · -- Both are greedy, and their totals are the clamped bill.
    have hleft := (buildPlan_fill hb ha h).give_back (surplusRefund_fill hcharged ha billed)
    refine hleft.unique (buildPlan_fill hb hc0 hkept) ?_ b hbo
    rw [order_sum hkcharged.others, total_bucket, hkcharged.total, order_sum fun c hc => by
      rw [hcharged.others c hc, surplusRefund_others hcharged ha billed hc, sub_self]]
    have hsplit : total (fun b => plan.bucket b - (surplusRefund plan policy billed).bucket b) =
        plan.totalUsd - (surplusRefund plan policy billed).totalUsd := by
      simp only [total, DebitPlan.totalUsd, DebitPlan.bucket]
      abel
    rw [hsplit, htotal, hcharged.total, sub_sub_cancel]
  · rw [hcharged.others b hbo, surplusRefund_others hcharged ha billed hbo, hkcharged.others b hbo, sub_self]

/-- Twenty cents taken of three buckets, of which twelve are billed. -/
theorem surplus_inverse_three_buckets :
    ∃ kept, buildPlan (α := ℤ) ⟨100000, 200000, 50000, 3⟩ 120000 .paidThenFreeThenBonus true = .ok kept ∧
      ∀ b, DebitPlan.bucket (α := ℤ) ⟨100000, 50000, 50000, 1⟩ b -
        (surplusRefund (α := ℤ) ⟨100000, 50000, 50000, 1⟩ .paidThenFreeThenBonus 120000).bucket b =
          kept.bucket b := by
  obtain ⟨-, -, kept, hkept, hleft, -⟩ :=
    surplus_inverse (fun b => by cases b <;> decide) (by decide)
      (show buildPlan (⟨100000, 200000, 50000, 3⟩ : BalanceView ℤ) 200000 .paidThenFreeThenBonus true =
        .ok ⟨100000, 50000, 50000, 1⟩ by decide) 120000
  exact ⟨kept, hkept, hleft⟩

end Exact

/-! ## Amounts in other units

Amounts read in other units, by a homomorphism that keeps their order, are drained alike. -/

section Units

variable {α β : Type}

def DebitPlan.map (φ : α → β) (plan : DebitPlan α) : DebitPlan β :=
  ⟨φ plan.freeUsd, φ plan.bonusUsd, φ plan.paidUsd, plan.freeRequests⟩

theorem DebitPlan.map_bucket (φ : α → β) (plan : DebitPlan α) (b : Bucket) :
    (plan.map φ).bucket b = φ (plan.bucket b) := by
  cases b <;> rfl

variable [AddCommGroup α] [AddCommGroup β]

theorem DebitPlan.map_totalUsd (φ : α →+ β) (plan : DebitPlan α) : (plan.map φ).totalUsd = φ plan.totalUsd := by
  simp only [DebitPlan.totalUsd, DebitPlan.map, map_add]

variable [LinearOrder α] [LinearOrder β] {φ : α →+ β} (hφ : StrictMono φ)

include hφ

theorem pyMin_map (a b : α) : pyMin (φ a) (φ b) = φ (pyMin a b) := by
  rw [pyMin_eq, pyMin_eq, hφ.monotone.map_min]

theorem pyMax_map (a b : α) : pyMax (φ a) (φ b) = φ (pyMax a b) := by
  rw [pyMax_eq, pyMax_eq, hφ.monotone.map_max]

theorem drain_map (available : Bucket → α) : ∀ (order : List Bucket) (remaining : α) (used : Bucket → α),
    drain (φ ∘ available) order (φ remaining) (φ ∘ used) =
      (φ ∘ (drain available order remaining used).1, φ (drain available order remaining used).2)
  | [], _, _ => rfl
  | b :: order, remaining, used => by
    have htaken : pyMin ((φ ∘ available) b) (φ remaining) = φ (pyMin (available b) remaining) := pyMin_map hφ _ _
    have hzero : (φ (remaining - pyMin (available b) remaining) == 0) =
        (remaining - pyMin (available b) remaining == 0) := by
      rw [Bool.eq_iff_iff, beq_iff_eq, beq_iff_eq, map_eq_zero_iff φ hφ.injective]
    simp only [drain, htaken, ← map_sub, hzero, ← Function.comp_update]
    split
    · rfl
    · exact drain_map available order _ _

theorem surplusRefund_map (plan : DebitPlan α) (policy : DebitPolicy) (billed : α) :
    surplusRefund (plan.map φ) policy (φ billed) = (surplusRefund plan policy billed).map φ := by
  have hbucket : (plan.map φ).bucket = φ ∘ plan.bucket := funext (plan.map_bucket φ)
  have hused : (fun _ : Bucket => (0 : β)) = φ ∘ fun _ => 0 := funext fun _ => (map_zero φ).symm
  have hzero : pyMax 0 (pyMin (φ billed) (φ plan.totalUsd)) = φ (pyMax 0 (pyMin billed plan.totalUsd)) := by
    rw [pyMin_map hφ, ← pyMax_map hφ, map_zero]
  simp only [surplusRefund, DebitPlan.map_totalUsd, hzero, ← map_sub, hbucket, hused, drain_map hφ]
  rfl

end Units

end GenerationBalance
