/-
More balance and less access. What a model costs depends on the paid balance: the
first paid money raises the price of a free model, and until all buckets together
pay it the model is denied. This is the one way in which more balance denies what
less allowed.
-/
import GenerationBalance.Authorization

namespace GenerationBalance

/-! ## What is allowed -/

section Exact

variable {α : Type} [AddCommGroup α]

theorem available_sum {policy : DebitPolicy} (h : policy ≠ .paidOnly) (f : Bucket → α) :
    (policy.order.map f).sum = total f :=
  order_sum fun b hb => by cases policy <;> cases b <;> simp_all [DebitPolicy.order]

variable [LinearOrder α]

/-- What a balance must have for `authorize` to succeed. -/
def Allowed (model : GenerationModel α) (request : GenerationRequest) (balance : BalanceView α) : Prop :=
  match model.accessType with
  | .paidOnly => model.paidCostUsd ≤ balance.paidUsd
  | .conditionalFree =>
    model.paidCostUsd ≤ balance.paidUsd ∨
      request.conditionalFreeEligible = true ∧ 0 < balance.freeRequests ∧ model.freeCostUsd ≤ total balance.available
  | .free =>
    if 0 < balance.paidUsd then model.paidCostUsd ≤ total balance.available
    else 0 < balance.freeRequests ∧ model.freeCostUsd ≤ total balance.available

variable {models : String → Option (GenerationModel α)} {request : GenerationRequest} {model : GenerationModel α}
  {balance : BalanceView α}

/-- A known model with positive costs, and a balance that is not negative. -/
structure Known (models : String → Option (GenerationModel α)) (request : GenerationRequest)
    (model : GenerationModel α) (balance : BalanceView α) : Prop where
  known : models request.modelName = some model
  free : 0 < model.freeCostUsd
  paid : 0 < model.paidCostUsd
  nonneg : ∀ b, 0 ≤ balance.available b
  requests : 0 ≤ balance.freeRequests

theorem Known.not_ok_of_error (h : Known models request model balance) {e : Exn}
    (ht : debitTerms model request balance = .error e) : ¬ ∃ a, authorize models request balance = .ok a := by
  have hcase := authorize_case h.known (validateBalance_nonneg h.nonneg h.requests)
  generalize authorize models request balance = r at hcase
  cases hcase with
  | denied => simp
  | exhausted ht' | insufficient ht' => simp
  | ok ht' => cases ht.symm.trans ht'

variable [IsOrderedAddMonoid α]

theorem Known.isOk_of_terms (h : Known models request model balance) {policy : DebitPolicy} {cost : α}
    {consumes : Bool} (ht : debitTerms model request balance = .ok (policy, cost, consumes)) :
    (∃ a, authorize models request balance = .ok a) ↔
      (consumes = true → 0 < balance.freeRequests) ∧ cost ≤ (policy.order.map balance.available).sum := by
  have hcost : 0 ≤ cost := by
    rcases debitTerms_cost ht with rfl | rfl
    · exact h.free.le
    · exact h.paid.le
  have hcase := authorize_case h.known (validateBalance_nonneg h.nonneg h.requests)
  generalize authorize models request balance = r at hcase
  cases hcase with
  | denied ht' => cases ht.symm.trans ht'
  | exhausted ht' hnone =>
    cases ht.symm.trans ht'
    simp [hnone]
  | insufficient ht' hsome hp =>
    cases ht.symm.trans ht'
    simp only [reduceCtorEq, exists_false, false_iff, not_and]
    intro _ hle
    obtain ⟨plan, hp'⟩ := buildPlan_enough consumes h.nonneg hcost hle
    cases hp.symm.trans hp'
  | ok ht' hsome hp =>
    cases ht.symm.trans ht'
    simp only [Except.ok.injEq, exists_eq', true_iff]
    exact ⟨hsome, buildPlan_le h.nonneg hcost hp⟩

/-- **`authorize` succeeds exactly on what is allowed.** -/
theorem Known.isOk_iff (h : Known models request model balance) :
    (∃ a, authorize models request balance = .ok a) ↔ Allowed model request balance := by
  have hall : ∀ {policy : DebitPolicy}, policy ≠ .paidOnly →
      (policy.order.map balance.available).sum = total balance.available := fun hp => available_sum hp _
  cases haccess : model.accessType with
  | paidOnly =>
    have ht : debitTerms model request balance = .ok (.paidOnly, model.paidCostUsd, false) := by
      simp [debitTerms, haccess]
    rw [h.isOk_of_terms ht]
    simp [Allowed, haccess, DebitPolicy.order, BalanceView.available]
  | free =>
    by_cases hpos : 0 < balance.paidUsd
    · have ht : debitTerms model request balance = .ok (.default, model.paidCostUsd, false) := by
        simp [debitTerms, haccess, hpos]
      rw [h.isOk_of_terms ht, hall (by decide)]
      simp [Allowed, haccess, hpos]
    · have ht : debitTerms model request balance = .ok (.default, model.freeCostUsd, true) := by
        simp [debitTerms, haccess, hpos]
      rw [h.isOk_of_terms ht, hall (by decide)]
      simp [Allowed, haccess, hpos]
  | conditionalFree =>
    by_cases hlt : balance.paidUsd < model.paidCostUsd
    · cases helig : request.conditionalFreeEligible with
      | false =>
        have ht := (debitTerms_error h.paid).mpr ⟨rfl, haccess, hlt, helig⟩
        refine iff_of_false (h.not_ok_of_error ht) ?_
        simp [Allowed, haccess, helig, hlt]
      | true =>
        have ht : debitTerms model request balance =
            .ok (if 0 < balance.paidUsd then .paidThenFreeThenBonus else .default, model.freeCostUsd, true) := by
          simp [debitTerms, haccess, hlt, helig]
        rw [h.isOk_of_terms ht, hall (by split <;> decide)]
        simp [Allowed, haccess, helig, not_le.mpr hlt]
    · have hpos : 0 < balance.paidUsd := h.paid.trans_le (not_lt.mp hlt)
      have ht : debitTerms model request balance = .ok (.paidOnly, model.paidCostUsd, false) := by
        simp [debitTerms, haccess, hlt, hpos]
      rw [h.isOk_of_terms ht]
      simp [Allowed, haccess, DebitPolicy.order, BalanceView.available, not_lt.mp hlt]

end Exact

/-! ## More balance -/

/-- No field of `b` is above the field of `b'`. -/
structure BalanceView.Within {α : Type} [LE α] (b b' : BalanceView α) : Prop where
  available : ∀ k, b.available k ≤ b'.available k
  freeRequests : b.freeRequests ≤ b'.freeRequests

/-- The first paid money raises the price of a free model above the whole balance. -/
structure PricedOut {α β : Type} [AddCommGroup β] [LinearOrder β] (value : α → β) (model : GenerationModel α)
    (b b' : BalanceView α) : Prop where
  free : model.accessType = .free
  unpaid : value b.paidUsd = 0
  paid : 0 < value b'.paidUsd
  short : value b'.freeUsd + value b'.bonusUsd + value b'.paidUsd < value model.paidCostUsd

section Exact

variable {α : Type} [AddCommGroup α] [LinearOrder α] {models : String → Option (GenerationModel α)}
  {request : GenerationRequest} {model : GenerationModel α} {b b' : BalanceView α}

theorem Known.mono (h : Known models request model b) (hle : b.Within b') : Known models request model b' where
  known := h.known
  free := h.free
  paid := h.paid
  nonneg k := (h.nonneg k).trans (hle.available k)
  requests := h.requests.trans hle.freeRequests

variable [IsOrderedAddMonoid α]

theorem BalanceView.Within.total (h : b.Within b') : total b.available ≤ total b'.available :=
  add_le_add (add_le_add (h.available .free) (h.available .bonus)) (h.available .paid)

/-- **More balance denies only what the first paid money prices out.** -/
theorem allowed_mono (hb : 0 ≤ b.paidUsd) (hle : b.Within b') (h : Allowed model request b) :
    Allowed model request b' ↔ ¬ PricedOut id model b b' := by
  have htotal := hle.total
  have hpaid : b.paidUsd ≤ b'.paidUsd := hle.available .paid
  have hreq := hle.freeRequests
  cases haccess : model.accessType with
  | paidOnly =>
    have hnot : ¬ PricedOut id model b b' := fun hp => by cases haccess.symm.trans hp.free
    simp only [Allowed, haccess] at h ⊢
    exact ⟨fun _ => hnot, fun _ => h.trans hpaid⟩
  | conditionalFree =>
    have hnot : ¬ PricedOut id model b b' := fun hp => by cases haccess.symm.trans hp.free
    simp only [Allowed, haccess] at h ⊢
    refine ⟨fun _ => hnot, fun _ => ?_⟩
    rcases h with h | ⟨helig, hsome, h⟩
    · exact .inl (h.trans hpaid)
    · exact .inr ⟨helig, hsome.trans_le hreq, h.trans htotal⟩
  | free =>
    simp only [Allowed, haccess] at h ⊢
    by_cases hpos : 0 < b.paidUsd
    · have hnot : ¬ PricedOut id model b b' := fun hp => hpos.ne' hp.unpaid
      rw [if_pos hpos] at h
      rw [if_pos (hpos.trans_le hpaid)]
      exact ⟨fun _ => hnot, fun _ => h.trans htotal⟩
    · rw [if_neg hpos] at h
      by_cases hpos' : 0 < b'.paidUsd
      · -- The price changes.
        rw [if_pos hpos']
        constructor
        · intro hle' hp
          exact absurd hp.short (not_lt.mpr hle')
        · intro hnot
          by_contra hlt
          exact hnot ⟨haccess, le_antisymm (not_lt.mp hpos) hb, hpos', not_le.mp hlt⟩
      · have hnot : ¬ PricedOut id model b b' := fun hp => hpos' hp.paid
        rw [if_neg hpos']
        exact ⟨fun _ => hnot, fun _ => ⟨h.1.trans_le hreq, h.2.trans htotal⟩⟩

theorem authorize_mono {a : Authorization α} (h : Known models request model b) (hle : b.Within b')
    (ha : authorize models request b = .ok a) :
    (∃ a', authorize models request b' = .ok a') ↔ ¬ PricedOut id model b b' := by
  rw [(h.mono hle).isOk_iff]
  exact allowed_mono (h.nonneg .paid) hle (h.isOk_iff.mp ⟨a, ha⟩)

end Exact

section Micros

variable {models : String → Option (GenerationModel Decimal)} {micro : String → Option (GenerationModel ℤ)}
  {request : GenerationRequest} {model : GenerationModel Decimal} {n : GenerationModel ℤ}
  {v v' : BalanceView Decimal} {b b' : BalanceView ℤ} {a : Authorization Decimal}

theorem authorize_micros_isOk (ht : MicroTable models micro) (hv : MicroView v b) :
    (∃ a, authorize models request v = .ok a) ↔ ∃ m, authorize micro request b = .ok m := by
  have hrel := authorize_micros ht hv request
  generalize authorize models request v = r at hrel
  generalize authorize micro request b = r' at hrel
  cases hrel <;> simp

theorem PricedOut.micros (hmn : MicroModel model n) (hv : MicroView v b) (hv' : MicroView v' b') :
    PricedOut Decimal.toRat model v v' ↔ PricedOut id n b b' := by
  have hdollars : ∀ {w : BalanceView Decimal} {c : BalanceView ℤ}, MicroView w c →
      w.freeUsd.toRat = dollars c.freeUsd ∧ w.bonusUsd.toRat = dollars c.bonusUsd ∧
        w.paidUsd.toRat = dollars c.paidUsd := fun hw =>
    ⟨(hw.available .free).dollars.symm, (hw.available .bonus).dollars.symm, (hw.available .paid).dollars.symm⟩
  obtain ⟨-, -, hp⟩ := hdollars hv
  obtain ⟨hf', hb', hp'⟩ := hdollars hv'
  have hunpaid : v.paidUsd.toRat = 0 ↔ b.paidUsd = 0 := by
    rw [hp, map_eq_zero_iff _ dollars_strictMono.injective]
  have hpaid : 0 < v'.paidUsd.toRat ↔ 0 < b'.paidUsd := by
    rw [hp', ← map_zero dollars, dollars_strictMono.lt_iff_lt]
  have hshort : v'.freeUsd.toRat + v'.bonusUsd.toRat + v'.paidUsd.toRat < model.paidCostUsd.toRat ↔
      b'.freeUsd + b'.bonusUsd + b'.paidUsd < n.paidCostUsd := by
    rw [← hmn.paid.micros.dollars, hf', hb', hp', ← map_add, ← map_add, dollars_strictMono.lt_iff_lt]
  constructor
  · intro h
    exact ⟨hmn.accessType ▸ h.free, hunpaid.mp h.unpaid, hpaid.mp h.paid, hshort.mp h.short⟩
  · intro h
    exact ⟨hmn.accessType ▸ h.free, hunpaid.mpr h.unpaid, hpaid.mpr h.paid, hshort.mpr h.short⟩

theorem authorize_mono_decimal (ht : MicroTable models micro) (hm : models request.modelName = some model)
    (hv : MicroView v b) (hv' : MicroView v' b') (hle : b.Within b')
    (ha : authorize models request v = .ok a) :
    (∃ a', authorize models request v' = .ok a') ↔ ¬ PricedOut Decimal.toRat model v v' := by
  have hname := ht request.modelName
  rw [hm] at hname
  generalize hn : micro request.modelName = n at hname
  cases hname with
  | @some _ n hmn =>
  obtain ⟨m, hm'⟩ := (authorize_micros_isOk ht hv).mp ⟨a, ha⟩
  obtain ⟨hpos, hreq⟩ := validateBalance_ok (authorize_ok hm').valid
  have hknown : Known micro request n b := ⟨hn, hmn.free.pos, hmn.paid.pos, hpos, hreq⟩
  rw [authorize_micros_isOk ht hv', PricedOut.micros hmn hv hv']
  exact authorize_mono hknown hle hm'

end Micros

/-! ## The next round -/

theorem makeReservation_isOk {request : GenerationRequest} {snapshot : Balance} (token : Token) (now : ℚ) :
    (∃ v, makeReservation request snapshot token now = .ok v) ↔
      ∃ a, authorize MODELS request (snapshotFromHash snapshot).toBalanceView = .ok a := by
  constructor
  · rintro ⟨v, h⟩
    obtain ⟨rfl, rfl, -⟩ := makeReservation_ok h
    exact ⟨_, v.authorized⟩
  · rintro ⟨a, ha⟩
    obtain ⟨m, -, hm, hch, -⟩ := authorize_sound models_micros (microView_snapshot snapshot) ha
    have hplan := hm.plan.planArgs (hch.fits hm.cost.fits)
    have hcost := moneyToMicros_of_isMicros hm.cost.micros hm.cost.fits
    unfold makeReservation
    split
    · next he => cases ha.symm.trans he
    next a' ha' =>
    cases ha.symm.trans ha'
    split
    · next he => cases hplan.symm.trans he
    split
    · next he => cases hcost.symm.trans he
    exact ⟨_, rfl⟩

/-- **A conflict with more balance** is followed by another RESERVE, unless the first
paid money prices the model out. -/
theorem conflict_reserves (cfg : Config) (v : Reservation) (attempt rounds : ℕ) (fresh : Token) (now : ℚ)
    {current : Balance} (hle : v.snapshot.view.Within current.view) {model : GenerationModel Decimal}
    (hm : MODELS v.request.modelName = some model) :
    (∃ w, w.snapshot = current ∧
      GenPc.resume cfg v.request fresh now (.reserving v attempt (rounds + 1)) (.reply (.reserve (.conflict current))) =
        .reserving w 1 rounds) ↔
    ¬ PricedOut Decimal.toRat model (snapshotFromHash v.snapshot).toBalanceView
      (snapshotFromHash current).toBalanceView := by
  rw [← authorize_mono_decimal models_micros hm (microView_snapshot v.snapshot) (microView_snapshot current) hle
    v.authorized, ← makeReservation_isOk fresh now]
  simp only [GenPc.resume, reserveOutcome, attemptReserve]
  generalize hr : makeReservation v.request current fresh now = r
  cases r with
  | error e => cases hacc : e.isAccess <;> simp [hacc]
  | ok w =>
    obtain ⟨-, hsnap, -⟩ := makeReservation_ok hr
    simp [hsnap]

/-! ## Access is not monotone in the balance -/

/-- With five free cents and one free request the free model is allowed; with a paid
cent more it is denied, for its price is eight cents then. -/
theorem cent_denies :
    ¬ ∀ (request : GenerationRequest) (v v' : BalanceView Decimal), (MODELS request.modelName).isSome →
      (∀ k, ¬ v.available k < 0) → 0 ≤ v.freeRequests → (∀ k, ¬ v'.available k < v.available k) →
      v.freeRequests ≤ v'.freeRequests → (∃ a, authorize MODELS request v = .ok a) →
      ∃ a, authorize MODELS request v' = .ok a := by
  intro h
  obtain ⟨a, ha⟩ := h ⟨1, 2, 3, "basic", false⟩ ⟨⟨5, -2⟩, 0, 0, 1⟩ ⟨⟨5, -2⟩, 0, ⟨1, -2⟩, 1⟩ rfl
    (fun k => by cases k <;> decide) (by decide) (fun k => by cases k <;> decide) (by decide) ⟨_, rfl⟩
  have hdenied : authorize MODELS ⟨1, 2, 3, "basic", false⟩ ⟨⟨5, -2⟩, 0, ⟨1, -2⟩, 1⟩ = .error .insufficientBalance := rfl
  cases hdenied.symm.trans ha

/-- **Authorization is monotone but for the first paid money**: on more balance it
succeeds again, and `_reserve` goes on, unless a free model is priced out. -/
theorem authorization_monotone :
    (∀ {α : Type} [AddCommGroup α] [LinearOrder α] [IsOrderedAddMonoid α]
      {models : String → Option (GenerationModel α)} {request : GenerationRequest} {model : GenerationModel α}
      {b b' : BalanceView α} {a : Authorization α}, Known models request model b → b.Within b' →
      authorize models request b = .ok a →
      ((∃ a', authorize models request b' = .ok a') ↔ ¬ PricedOut id model b b')) ∧
    (∀ {models : String → Option (GenerationModel Decimal)} {micro : String → Option (GenerationModel ℤ)}
      {request : GenerationRequest} {model : GenerationModel Decimal} {v v' : BalanceView Decimal}
      {micros micros' : BalanceView ℤ} {a : Authorization Decimal}, MicroTable models micro →
      models request.modelName = some model → MicroView v micros → MicroView v' micros' → micros.Within micros' →
      authorize models request v = .ok a →
      ((∃ a', authorize models request v' = .ok a') ↔ ¬ PricedOut Decimal.toRat model v v')) ∧
    ∀ (cfg : Config) (v : Reservation) (attempt rounds : ℕ) (fresh : Token) (now : ℚ) {current : Balance}
      {model : GenerationModel Decimal}, v.snapshot.view.Within current.view →
      MODELS v.request.modelName = some model →
      ((∃ w, w.snapshot = current ∧
        GenPc.resume cfg v.request fresh now (.reserving v attempt (rounds + 1))
          (.reply (.reserve (.conflict current))) = .reserving w 1 rounds) ↔
      ¬ PricedOut Decimal.toRat model (snapshotFromHash v.snapshot).toBalanceView
        (snapshotFromHash current).toBalanceView) :=
  ⟨authorize_mono, authorize_mono_decimal, fun cfg v attempt rounds fresh now _ _ hle hm =>
    conflict_reserves cfg v attempt rounds fresh now hle hm⟩

/-- Twenty paid cents, reserved for the paid model. -/
def twentyCents : Reservation where
  request := ⟨1, 2, 3, "premium", false⟩
  snapshot := ⟨0, 0, 200000, 0, 1, by decide⟩
  authorization :=
    ⟨⟨"premium", .paidOnly, ⟨20, -2⟩, ⟨20, -2⟩⟩, .paidOnly, ⟨20, -2⟩, ⟨0, 0, ⟨200000, -6⟩, 0⟩⟩
  plan := ⟨0, 0, 200000, 0⟩
  authorizedCostUsd := 200000
  token := ⟨1, 0⟩
  startedAt := 0
  authorized := by
    show authorize MODELS ⟨1, 2, 3, "premium", false⟩ _ = _
    rfl
  planned := by decide
  costed := by decide

/-- Two free cents and a paid one more pay the higher price, and a paid model's price
is always the same. -/
theorem authorization_monotone_cents :
    (∃ a, authorize (fun _ => some ⟨"basic", .free, 5, 8⟩) ⟨1, 2, 3, "basic", false⟩ ⟨(7 : ℤ), 0, 1, 1⟩ = .ok a) ∧
    (∃ a, authorize MODELS ⟨1, 2, 3, "premium", false⟩ ⟨0, 0, ⟨30, -2⟩, 0⟩ = .ok a) ∧
    ∃ w : Reservation, w.snapshot = ⟨0, 0, 300000, 0, 2, by decide⟩ ∧
      GenPc.resume {} twentyCents.request ⟨1, 1⟩ 0 (.reserving twentyCents 1 2)
        (.reply (.reserve (.conflict ⟨0, 0, 300000, 0, 2, by decide⟩))) = .reserving w 1 1 := by
  obtain ⟨hexact, hdecimal, hreserve⟩ := authorization_monotone
  refine ⟨?_, ?_, ?_⟩
  · have hknown : Known (fun _ => some ⟨"basic", .free, 5, 8⟩) ⟨1, 2, 3, "basic", false⟩ ⟨"basic", .free, 5, 8⟩
        (⟨5, 0, 0, 1⟩ : BalanceView ℤ) :=
      ⟨rfl, by decide, by decide, fun k => by cases k <;> decide, by decide⟩
    refine (hexact hknown ⟨fun k => by cases k <;> decide, by decide⟩ rfl).mpr fun hp => ?_
    exact absurd hp.short (by decide)
  · refine (hdecimal models_micros (show MODELS "premium" = some ⟨"premium", .paidOnly, ⟨20, -2⟩, ⟨20, -2⟩⟩ from rfl)
      (show MicroView ⟨0, 0, ⟨20, -2⟩, 0⟩ ⟨0, 0, 200000, 0⟩ from ⟨fun k => ?_, rfl⟩)
      (show MicroView _ ⟨0, 0, 300000, 0⟩ from ⟨fun k => ?_, rfl⟩) ⟨fun k => ?_, by decide⟩ rfl).mpr
      fun hp => by cases hp.free
    · cases k <;> first | exact isMicros_zero | norm_num [BalanceView.available, IsMicros, Decimal.toRat]
    · cases k <;> first | exact isMicros_zero | norm_num [BalanceView.available, IsMicros, Decimal.toRat]
    · cases k <;> decide
  · refine (hreserve {} twentyCents 1 1 ⟨1, 1⟩ 0 ⟨fun k => by cases k <;> decide, by decide⟩
      (show MODELS "premium" = some ⟨"premium", .paidOnly, ⟨20, -2⟩, ⟨20, -2⟩⟩ from rfl)).mpr
      fun hp => by cases hp.free

end GenerationBalance
