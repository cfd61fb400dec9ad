/-
What `authorize` decides: an authorization is charged within the balance and greedily
along its policy's order, and each denial is raised exactly on its condition.
-/
import GenerationBalance.Settling

namespace GenerationBalance

/-! ## Its outcomes -/

section Outcomes

variable {α : Type} [Zero α] [Sub α] [LT α] [DecidableLT α] [BEq α]

theorem buildPlan_error {balance : BalanceView α} {amount : α} {policy : DebitPolicy} {consumes : Bool} {e : Exn}
    (h : buildPlan balance amount policy consumes = .error e) : e = .insufficientBalance := by
  simp only [buildPlan] at h
  split at h <;> cases h
  rfl

/-- The ways `authorize` ends for a known model and a valid balance. -/
inductive AuthorizeCase (model : GenerationModel α) (request : GenerationRequest) (balance : BalanceView α) :
    Except Exn (Authorization α) → Prop
  | denied {e} (terms : debitTerms model request balance = .error e) : AuthorizeCase model request balance (.error e)
  | exhausted {policy cost} (terms : debitTerms model request balance = .ok (policy, cost, true))
      (none : balance.freeRequests ≤ 0) : AuthorizeCase model request balance (.error .freeRequestsExhausted)
  | insufficient {policy cost consumes} (terms : debitTerms model request balance = .ok (policy, cost, consumes))
      (some : consumes = true → 0 < balance.freeRequests)
      (built : buildPlan balance cost policy consumes = .error .insufficientBalance) :
      AuthorizeCase model request balance (.error .insufficientBalance)
  | ok {policy cost consumes plan} (terms : debitTerms model request balance = .ok (policy, cost, consumes))
      (some : consumes = true → 0 < balance.freeRequests) (built : buildPlan balance cost policy consumes = .ok plan) :
      AuthorizeCase model request balance (.ok ⟨model, policy, cost, plan⟩)

theorem authorize_case {models : String → Option (GenerationModel α)} {request : GenerationRequest}
    {balance : BalanceView α} {model : GenerationModel α} (hm : models request.modelName = some model)
    (hv : validateBalance balance = .ok ()) :
    AuthorizeCase model request balance (authorize models request balance) := by
  simp only [authorize, hm, hv, bind, Except.bind]
  cases ht : debitTerms model request balance with
  | error e => exact .denied ht
  | ok t =>
    obtain ⟨policy, cost, consumes⟩ := t
    by_cases hf : consumes = true ∧ balance.freeRequests ≤ 0
    · obtain ⟨rfl, hf⟩ := hf
      simp only [hf, and_self, if_true]
      exact .exhausted ht hf
    · have hsome : consumes = true → 0 < balance.freeRequests := fun hc => not_le.mp fun hle => hf ⟨hc, hle⟩
      simp only [if_neg hf]
      cases hp : buildPlan balance cost policy consumes with
      | error e =>
        obtain rfl := buildPlan_error hp
        exact .insufficient ht hsome hp
      | ok plan => exact .ok ht hsome hp

end Outcomes

/-! ## The exact policy -/

section Exact

variable {α : Type} [AddCommGroup α] [LinearOrder α] {model : GenerationModel α} {request : GenerationRequest}
  {balance : BalanceView α}

theorem validateBalance_nonneg (hb : ∀ b, 0 ≤ balance.available b) (hf : 0 ≤ balance.freeRequests) :
    validateBalance balance = .ok () := by
  unfold validateBalance
  rw [if_neg]
  have h1 : 0 ≤ balance.freeUsd := hb .free
  have h2 : 0 ≤ balance.bonusUsd := hb .bonus
  have h3 : 0 ≤ balance.paidUsd := hb .paid
  simp only [not_or, not_lt]
  exact ⟨h1, h2, h3, hf⟩

theorem debitTerms_error (hpaid : 0 < model.paidCostUsd) {e : Exn} :
    debitTerms model request balance = .error e ↔ e = .conditionalFreeAccessDenied ∧
      model.accessType = .conditionalFree ∧ balance.paidUsd < model.paidCostUsd ∧
      request.conditionalFreeEligible = false := by
  simp only [debitTerms]
  cases model.accessType with
  | free => by_cases hpos : 0 < balance.paidUsd <;> simp [hpos]
  | paidOnly => simp
  | conditionalFree =>
    by_cases hlt : balance.paidUsd < model.paidCostUsd
    · cases request.conditionalFreeEligible <;> simp [hlt, eq_comm]
    · have hpos : 0 < balance.paidUsd := hpaid.trans_le (not_lt.mp hlt)
      simp [hlt, hpos]

theorem debitTerms_consumes (hb : 0 ≤ balance.paidUsd) (hpaid : 0 < model.paidCostUsd) :
    (∃ policy cost, debitTerms model request balance = .ok (policy, cost, true)) ↔
      model.accessType = .free ∧ balance.paidUsd = 0 ∨
        model.accessType = .conditionalFree ∧ balance.paidUsd < model.paidCostUsd ∧
          request.conditionalFreeEligible = true := by
  simp only [debitTerms]
  cases model.accessType with
  | free =>
    by_cases hpos : 0 < balance.paidUsd
    · simp [hpos, hpos.ne']
    · simp [le_antisymm (not_lt.mp hpos) hb]
  | paidOnly => simp
  | conditionalFree =>
    by_cases hlt : balance.paidUsd < model.paidCostUsd
    · cases request.conditionalFreeEligible <;> simp [hlt]
    · have hpos : 0 < balance.paidUsd := hpaid.trans_le (not_lt.mp hlt)
      simp [hlt, hpos]

/-- The cost is one of the model's two. -/
theorem debitTerms_cost {policy : DebitPolicy} {cost : α} {consumes : Bool}
    (h : debitTerms model request balance = .ok (policy, cost, consumes)) :
    cost = model.freeCostUsd ∨ cost = model.paidCostUsd := by
  simp only [debitTerms] at h
  split at h
  · cases h
    exact .inr rfl
  · split at h
    · cases h
      exact .inr rfl
    · split at h <;> cases h
      exact .inl rfl
  · split at h <;> cases h
    · exact .inr rfl
    · exact .inl rfl

/-- With terms no access is denied for. -/
theorem debitTerms_granted (hpaid : 0 < model.paidCostUsd) {t : DebitPolicy × α × Bool}
    (h : debitTerms model request balance = .ok t) :
    ¬ (model.accessType = .conditionalFree ∧ balance.paidUsd < model.paidCostUsd ∧
      request.conditionalFreeEligible = false) := by
  intro hdenied
  have := debitTerms_error hpaid |>.mpr ⟨rfl, hdenied⟩
  rw [h] at this
  cases this

/-- With terms that no free request is missing for. -/
theorem debitTerms_affords (hb : 0 ≤ balance.paidUsd) (hpaid : 0 < model.paidCostUsd) {policy : DebitPolicy} {cost : α}
    {consumes : Bool} (h : debitTerms model request balance = .ok (policy, cost, consumes))
    (hsome : consumes = true → 0 < balance.freeRequests) :
    ¬ (balance.freeRequests = 0 ∧
      (model.accessType = .free ∧ balance.paidUsd = 0 ∨
        model.accessType = .conditionalFree ∧ balance.paidUsd < model.paidCostUsd ∧
          request.conditionalFreeEligible = true)) := by
  rintro ⟨hzero, hor⟩
  obtain ⟨policy', cost', h'⟩ := (debitTerms_consumes hb hpaid).mpr hor
  rw [h] at h'
  cases h'
  exact absurd hzero (hsome rfl).ne'

end Exact

/-! ## The laws -/

section Laws

variable {α β : Type} [AddCommGroup β] [LinearOrder β]

/-- An authorization that is charged within the balance, greedily along its policy's
order, by the amounts' values. -/
structure SoundAuthorization (value : α → β) (balance : BalanceView α) (a : Authorization α) : Prop where
  nonneg : ∀ b, 0 ≤ value (a.debitPlan.bucket b)
  le : ∀ b, value (a.debitPlan.bucket b) ≤ value (balance.available b)
  total : value a.debitPlan.freeUsd + value a.debitPlan.bonusUsd + value a.debitPlan.paidUsd = value a.estimatedCostUsd
  freeRequests : a.debitPlan.freeRequests = 0 ∨ a.debitPlan.freeRequests = 1
  freeRequests_le : a.debitPlan.freeRequests ≤ balance.freeRequests
  paidOnly : a.debitPolicy = .paidOnly → value a.debitPlan.freeUsd = 0 ∧ value a.debitPlan.bonusUsd = 0
  greedy : a.debitPolicy.order.Pairwise fun b c =>
    value (a.debitPlan.bucket c) ≠ 0 → value (a.debitPlan.bucket b) = value (balance.available b)

variable [Zero α] [Add α] [Sub α] [LT α] [DecidableLT α] [BEq α]

/-- What `authorize` answers for a known model and a non-negative balance. -/
structure AuthorizeLaws (value : α → β) (models : String → Option (GenerationModel α)) (request : GenerationRequest)
    (model : GenerationModel α) (balance : BalanceView α) : Prop where
  sound : ∀ a, authorize models request balance = .ok a → SoundAuthorization value balance a
  insufficient : authorize models request balance = .error .insufficientBalance →
    ∃ policy cost consumes, debitTerms model request balance = .ok (policy, cost, consumes) ∧
      (policy.order.map fun b => value (balance.available b)).sum < value cost
  conditional : authorize models request balance = .error .conditionalFreeAccessDenied ↔
    model.accessType = .conditionalFree ∧ value balance.paidUsd < value model.paidCostUsd ∧
      request.conditionalFreeEligible = false
  exhausted : authorize models request balance = .error .freeRequestsExhausted ↔
    balance.freeRequests = 0 ∧
      (model.accessType = .free ∧ value balance.paidUsd = 0 ∨
        model.accessType = .conditionalFree ∧ value balance.paidUsd < value model.paidCostUsd ∧
          request.conditionalFreeEligible = true)
  /-- Nothing else is raised. -/
  denied : ∀ e, authorize models request balance = .error e →
    e = .insufficientBalance ∨ e = .conditionalFreeAccessDenied ∨ e = .freeRequestsExhausted

end Laws

section Exact

variable {α : Type} [AddCommGroup α] [LinearOrder α] [IsOrderedAddMonoid α]
  {models : String → Option (GenerationModel α)} {request : GenerationRequest} {model : GenerationModel α}
  {balance : BalanceView α}

theorem SoundAuthorization.of_plan {a : Authorization α} {consumes : Bool} (hb : ∀ b, 0 ≤ balance.available b)
    (hf : 0 ≤ balance.freeRequests) (hc : 0 ≤ a.estimatedCostUsd) (hsome : consumes = true → 0 < balance.freeRequests)
    (hp : buildPlan balance a.estimatedCostUsd a.debitPolicy consumes = .ok a.debitPlan) :
    SoundAuthorization id balance a := by
  obtain ⟨hch, hle, hfree⟩ := buildPlan_spec hb hc hp
  refine ⟨hch.nonneg, hle, hch.total, ?_, ?_, fun hpol => ?_, (buildPlan_fill hb hc hp).greedy⟩
  · rw [hfree]
    cases consumes <;> simp
  · rw [hfree]
    split
    · next h => exact hsome h
    · exact hf
  · have hothers := hch.others
    rw [hpol] at hothers
    exact ⟨hothers .free (by decide), hothers .bonus (by decide)⟩

/-- **`authorize` obeys its laws** over exact amounts. -/
theorem authorizeLaws_exact (hm : models request.modelName = some model) (hfree : 0 < model.freeCostUsd)
    (hpaid : 0 < model.paidCostUsd) (hb : ∀ b, 0 ≤ balance.available b) (hf : 0 ≤ balance.freeRequests) :
    AuthorizeLaws id models request model balance := by
  have hcase := authorize_case hm (validateBalance_nonneg hb hf)
  have hcost : ∀ {policy cost consumes}, debitTerms model request balance = .ok (policy, cost, consumes) → 0 ≤ cost := by
    intro policy cost consumes ht
    rcases debitTerms_cost ht with rfl | rfl
    · exact hfree.le
    · exact hpaid.le
  have hpaid0 : 0 ≤ balance.paidUsd := hb .paid
  generalize hr : authorize models request balance = r at hcase
  cases hcase with
  | denied ht =>
    obtain ⟨rfl, haccess, hshort, hineligible⟩ := (debitTerms_error hpaid).mp ht
    have hneither : ¬ (balance.freeRequests = 0 ∧
        (model.accessType = .free ∧ balance.paidUsd = 0 ∨
          model.accessType = .conditionalFree ∧ balance.paidUsd < model.paidCostUsd ∧
            request.conditionalFreeEligible = true)) := by
      intro hexh
      rcases hexh.2 with ⟨hother, -⟩ | ⟨-, -, heligible⟩
      · cases haccess.symm.trans hother
      · cases hineligible.symm.trans heligible
    exact
      { sound := fun a h => by cases hr.symm.trans h
        insufficient := fun h => by cases hr.symm.trans h
        conditional := ⟨fun _ => ⟨haccess, hshort, hineligible⟩, fun _ => hr⟩
        exhausted := ⟨fun h => (by cases hr.symm.trans h), fun hexh => absurd hexh hneither⟩
        denied := fun e h => by cases hr.symm.trans h; exact .inr (.inl rfl) }
  | exhausted ht hnone =>
    have hzero : balance.freeRequests = 0 := le_antisymm hnone hf
    exact
      { sound := fun a h => by cases hr.symm.trans h
        insufficient := fun h => by cases hr.symm.trans h
        conditional := ⟨fun h => (by cases hr.symm.trans h), fun hcond => absurd hcond (debitTerms_granted hpaid ht)⟩
        exhausted := ⟨fun _ => ⟨hzero, (debitTerms_consumes hpaid0 hpaid).mp ⟨_, _, ht⟩⟩, fun _ => hr⟩
        denied := fun e h => by cases hr.symm.trans h; exact .inr (.inr rfl) }
  | @insufficient policy cost consumes ht hsome hp =>
    have hshort : (policy.order.map balance.available).sum < cost := by
      by_contra hle
      obtain ⟨plan, hp'⟩ : ∃ plan, buildPlan balance cost policy consumes = .ok plan :=
        buildPlan_enough consumes hb (hcost ht) (not_lt.mp hle)
      rw [hp] at hp'
      cases hp'
    exact
      { sound := fun a h => by cases hr.symm.trans h
        insufficient := fun _ => ⟨policy, cost, consumes, ht, hshort⟩
        conditional := ⟨fun h => (by cases hr.symm.trans h), fun hcond => absurd hcond (debitTerms_granted hpaid ht)⟩
        exhausted := ⟨fun h => (by cases hr.symm.trans h),
          fun hexh => absurd hexh (debitTerms_affords hpaid0 hpaid ht hsome)⟩
        denied := fun e h => by cases hr.symm.trans h; exact .inl rfl }
  | ok ht hsome hp =>
    exact
      { sound := fun a h => by cases hr.symm.trans h; exact .of_plan hb hf (hcost ht) hsome hp
        insufficient := fun h => by cases hr.symm.trans h
        conditional := ⟨fun h => (by cases hr.symm.trans h), fun hcond => absurd hcond (debitTerms_granted hpaid ht)⟩
        exhausted := ⟨fun h => (by cases hr.symm.trans h),
          fun hexh => absurd hexh (debitTerms_affords hpaid0 hpaid ht hsome)⟩
        denied := fun e h => by cases hr.symm.trans h }

end Exact

/-! ## On decimals -/

section Micros

variable {models : String → Option (GenerationModel Decimal)} {micro : String → Option (GenerationModel ℤ)}
  {request : GenerationRequest} {model : GenerationModel Decimal} {n : GenerationModel ℤ} {v : BalanceView Decimal}
  {b : BalanceView ℤ}

theorem MicroAuthorization.sound {a : Authorization Decimal} {m : Authorization ℤ} (hm : MicroAuthorization a m)
    (hv : MicroView v b) (h : SoundAuthorization id b m) : SoundAuthorization Decimal.toRat v a := by
  have hplan : ∀ k, (a.debitPlan.bucket k).toRat = dollars (m.debitPlan.bucket k) := fun k =>
    (hm.plan.bucket k).dollars.symm
  have hhas : ∀ k, (v.available k).toRat = dollars (b.available k) := fun k => (hv.available k).dollars.symm
  have hmono := dollars_strictMono.monotone
  have hzero : ∀ k, (a.debitPlan.bucket k).toRat = 0 ↔ m.debitPlan.bucket k = 0 := fun k => by
    rw [hplan, map_eq_zero_iff _ dollars_strictMono.injective]
  refine ⟨fun k => ?_, fun k => ?_, ?_, ?_, ?_, fun hpol => ?_, ?_⟩
  · rw [hplan, ← map_zero dollars]
    exact hmono (h.nonneg k)
  · rw [hplan, hhas]
    exact hmono (h.le k)
  · have htotal : m.debitPlan.bucket .free + m.debitPlan.bucket .bonus + m.debitPlan.bucket .paid =
        m.estimatedCostUsd := h.total
    rw [← hm.cost.micros.dollars, ← htotal, map_add, map_add, ← hplan, ← hplan, ← hplan]
    rfl
  · rw [hm.plan.freeRequests]
    exact h.freeRequests
  · rw [hm.plan.freeRequests, hv.freeRequests]
    exact h.freeRequests_le
  · obtain ⟨h1, h2⟩ := h.paidOnly (hm.debitPolicy ▸ hpol)
    exact ⟨(hzero .free).mpr h1, (hzero .bonus).mpr h2⟩
  · rw [hm.debitPolicy]
    refine h.greedy.imp fun {j k} hjk hne => ?_
    rw [hplan, hhas]
    exact congrArg dollars (hjk fun hz => hne ((hzero k).mpr hz))

/-- The laws carry over from micro-dollars to the decimals they are read as. -/
theorem AuthorizeLaws.decimal (hmn : MicroModel model n) (hv : MicroView v b)
    (hrel : ExceptRel MicroAuthorization (authorize models request v) (authorize micro request b))
    (h : AuthorizeLaws id micro request n b) : AuthorizeLaws Decimal.toRat models request model v := by
  have herror : ∀ e, authorize models request v = .error e ↔ authorize micro request b = .error e := by
    intro e
    generalize authorize models request v = r at hrel
    generalize authorize micro request b = r' at hrel
    cases hrel <;> simp
  have hpaid : v.paidUsd.toRat = dollars b.paidUsd := (hv.available .paid).dollars.symm
  have hlt : v.paidUsd.toRat < model.paidCostUsd.toRat ↔ b.paidUsd < n.paidCostUsd := by
    rw [hpaid, ← hmn.paid.micros.dollars, dollars_strictMono.lt_iff_lt]
  have hzero : v.paidUsd.toRat = 0 ↔ b.paidUsd = 0 := by
    rw [hpaid, map_eq_zero_iff _ dollars_strictMono.injective]
  refine ⟨fun a ha => ?_, fun he => ?_, ?_, ?_, fun e he => h.denied e ((herror e).mp he)⟩
  · rw [ha] at hrel
    generalize hr : authorize micro request b = r at hrel
    cases hrel with
    | ok hm => exact hm.sound hv (h.sound _ hr)
  · obtain ⟨policy, cost, consumes, ht, hsum⟩ := h.insufficient ((herror _).mp he)
    have hterms := debitTerms_micros hv hmn request
    rw [ht] at hterms
    generalize hd : debitTerms model request v = t at hterms
    cases hterms with
    | @ok t _ hrel =>
    obtain ⟨rfl, hc, rfl⟩ := hrel
    refine ⟨_, _, _, rfl, ?_⟩
    have hmap : (t.1.order.map fun k => (v.available k).toRat) = (t.1.order.map b.available).map dollars := by
      rw [List.map_map]
      exact List.map_congr_left fun k _ => (hv.available k).dollars.symm
    rw [hmap, ← map_list_sum, ← hc.micros.dollars]
    exact dollars_strictMono hsum
  · rw [herror, h.conditional, hmn.accessType, hlt]
    rfl
  · rw [herror, h.exhausted, hv.freeRequests, hmn.accessType, hlt, hzero]
    rfl

end Micros

/-- **`authorize` is sound and complete**, for any table of positive costs: over exact
amounts, and on decimals of whole micro-dollars. -/
theorem authorize_laws :
    (∀ {α : Type} [AddCommGroup α] [LinearOrder α] [IsOrderedAddMonoid α]
      {models : String → Option (GenerationModel α)} {request : GenerationRequest} {model : GenerationModel α}
      {balance : BalanceView α}, models request.modelName = some model →
      0 < model.freeCostUsd → 0 < model.paidCostUsd → (∀ b, 0 ≤ balance.available b) → 0 ≤ balance.freeRequests →
      AuthorizeLaws id models request model balance) ∧
    ∀ {models : String → Option (GenerationModel Decimal)} {micro : String → Option (GenerationModel ℤ)}
      {request : GenerationRequest} {model : GenerationModel Decimal} {v : BalanceView Decimal}
      {micros : BalanceView ℤ}, MicroTable models micro → models request.modelName = some model → MicroView v micros →
      (∀ k, 0 ≤ (v.available k).toRat) → 0 ≤ v.freeRequests →
      AuthorizeLaws Decimal.toRat models request model v := by
  refine ⟨authorizeLaws_exact, fun {models micro request model v micros} ht hm hv hb hf => ?_⟩
  have hname := ht request.modelName
  rw [hm] at hname
  generalize hn : micro request.modelName = n at hname
  cases hname with
  | @some _ n hmn =>
  have hb' : ∀ k, 0 ≤ micros.available k := fun k => by
    rw [← dollars_strictMono.le_iff_le, map_zero, (hv.available k).dollars]
    exact hb k
  exact (authorizeLaws_exact hn hmn.free.pos hmn.paid.pos hb' (hv.freeRequests ▸ hf)).decimal hmn hv
    (authorize_micros ht hv request)

/-- A cent of a free and a paid bucket, exactly and in decimals. -/
theorem authorize_laws_cents :
    AuthorizeLaws id (fun _ => some ⟨"basic", .free, (5 / 100 : ℚ), 8 / 100⟩) ⟨1, 2, 3, "basic", false⟩
      ⟨"basic", .free, 5 / 100, 8 / 100⟩ ⟨7 / 100, 0, 1 / 100, 0⟩ ∧
    AuthorizeLaws Decimal.toRat MODELS ⟨1, 2, 3, "basic", false⟩ ⟨"basic", .free, ⟨5, -2⟩, ⟨8, -2⟩⟩
      ⟨⟨7, -2⟩, 0, ⟨1, -2⟩, 0⟩ := by
  refine ⟨authorize_laws.1 rfl (by norm_num) (by norm_num) (fun b => ?_) (by decide),
    authorize_laws.2 models_micros rfl (show MicroView _ ⟨70000, 0, 10000, 0⟩ from ⟨fun k => ?_, rfl⟩) (fun k => ?_)
      (by decide)⟩
  · cases b <;> norm_num [BalanceView.available]
  · cases k
    · norm_num [BalanceView.available, IsMicros, Decimal.toRat]
    · exact isMicros_zero
    · norm_num [BalanceView.available, IsMicros, Decimal.toRat]
  · cases k
    · norm_num [BalanceView.available, Decimal.toRat]
    · exact Decimal.toRat_zero.ge
    · norm_num [BalanceView.available, Decimal.toRat]

end GenerationBalance
