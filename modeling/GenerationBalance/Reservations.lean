/-
What reservations and settlements are worth in whole micro-dollars: a plan is
charged exactly and within its snapshot, a charge lies within the plan, and the
surplus returns exactly the rest.
-/
import GenerationBalance.Generation

namespace GenerationBalance

/-! ## Reservations -/

/-- The plan of a reservation, as the script receives it. -/
structure Reservation.Sound (v : Reservation) : Prop where
  charged : v.plan.Charged v.authorization.debitPolicy v.authorizedCostUsd
  plan : MicroPlan v.authorization.debitPlan v.plan
  cost : MicroCost v.authorization.estimatedCostUsd v.authorizedCostUsd
  nonneg : ∀ f, 0 ≤ v.plan.field f
  within : ∀ f, f.IsAmount → v.plan.field f ≤ v.snapshot.get f
  snapshot : v.snapshot.Nonneg

theorem DebitPlan.field_nonneg {p : DebitPlan ℤ} (h : ∀ k, 0 ≤ p.bucket k) (hf : 0 ≤ p.freeRequests) (f : Field) :
    0 ≤ p.field f := by
  cases f with
  | freeUsd => exact h .free
  | bonusUsd => exact h .bonus
  | paidUsd => exact h .paid
  | freeRequests => exact hf
  | version => exact le_refl _

/-- **An authorization on whole micro-dollars** is the exact one: its plan is its cost
exactly, taken from the buckets of its policy, and within the balance. -/
theorem authorize_sound {models : String → Option (GenerationModel Decimal)}
    {micro : String → Option (GenerationModel ℤ)} (ht : MicroTable models micro) {v : BalanceView Decimal}
    {b : BalanceView ℤ} (hv : MicroView v b) {request : GenerationRequest} {a : Authorization Decimal}
    (h : authorize models request v = .ok a) :
    ∃ m, authorize micro request b = .ok m ∧ MicroAuthorization a m ∧
      m.debitPlan.Charged a.debitPolicy m.estimatedCostUsd ∧ (∀ k, m.debitPlan.bucket k ≤ b.available k) ∧
      0 ≤ m.debitPlan.freeRequests ∧ m.debitPlan.freeRequests ≤ b.freeRequests ∧ ∀ k, 0 ≤ b.available k := by
  have hm := authorize_micros ht hv request
  rw [h] at hm
  generalize hb : authorize micro request b = r at hm
  cases hm with
  | @ok _ m hm =>
  obtain ⟨-, hval, consumes, -, hfree, hplan⟩ := authorize_ok hb
  obtain ⟨hpos, hreq⟩ := validateBalance_ok hval
  obtain ⟨hch, hle, hfr⟩ := buildPlan_spec hpos hm.cost.pos.le hplan
  refine ⟨m, rfl, hm, by rw [hm.debitPolicy]; exact hch, hle, ?_, ?_, hpos⟩
  · rw [hfr]
    split <;> omega
  · rw [hfr]
    split
    · next hc => have := hfree hc; omega
    · exact hreq

/-- **A reservation's plan** is its cost exactly, taken from the buckets of its
policy, and no field takes more than the snapshot has. -/
theorem Reservation.sound (v : Reservation) : v.Sound := by
  obtain ⟨m, -, hm, hch, hle, hfr0, hfr, hpos⟩ :=
    authorize_sound models_micros (microView_snapshot v.snapshot) v.authorized
  have hargs : planArgs v.authorization.debitPlan = .ok m.debitPlan := hm.plan.planArgs (hch.fits hm.cost.fits)
  have hp : v.plan = m.debitPlan := Except.ok.inj (v.planned.symm.trans hargs)
  have hcost : v.authorizedCostUsd = m.estimatedCostUsd :=
    Except.ok.inj (v.costed.symm.trans (moneyToMicros_of_isMicros hm.cost.micros hm.cost.fits))
  refine ⟨?_, hp ▸ hm.plan, hcost ▸ hm.cost, DebitPlan.field_nonneg (hp ▸ hch.nonneg) (hp ▸ hfr0), fun f hf => ?_,
    fun f hf => ?_⟩
  · rw [hp, hcost]
    exact hch
  · rw [hp]
    cases f with
    | freeUsd => exact hle .free
    | bonusUsd => exact hle .bonus
    | paidUsd => exact hle .paid
    | freeRequests => exact hfr
    | version => exact absurd rfl hf
  · cases f with
    | freeUsd => exact hpos .free
    | bonusUsd => exact hpos .bonus
    | paidUsd => exact hpos .paid
    | freeRequests => exact hfr0.trans hfr
    | version => exact absurd rfl hf

/-- The decimal plan of a reservation's record is read back as it was sent. -/
theorem Reservation.planArgs_planFromMicros (v : Reservation) : planArgs (planFromMicros v.plan) = .ok v.plan :=
  GenerationBalance.planArgs_planFromMicros (v.sound.charged.fits v.sound.cost.fits)

/-! ## The charge -/

/-- The clamped bill, before it is rounded down. -/
def clamped (bill totalUsd : Decimal) : Decimal := pyMax 0 (pyMin bill totalUsd)

section Clamp

variable {d t : Decimal} {n : ℤ}

theorem clamped_bounds (ht : IsMicros t n) (h0 : 0 ≤ n) : 0 ≤ (clamped d t).coeff ∧ ¬ t < clamped d t := by
  have hcoeff : ∀ {a : Decimal}, ¬ a < 0 → 0 ≤ a.coeff := fun h => not_lt.mp fun hc => h (Decimal.lt_zero_iff.mpr hc)
  have irrefl : ∀ a : Decimal, ¬ a < a := fun a h => lt_irrefl _ ((Decimal.lt_iff _ _).mp h)
  have ht0 : ¬ t < 0 := fun h => absurd ((lt_zero_micros ht).mp h) (not_lt.mpr h0)
  have hmin : ¬ t < pyMin d t := by
    unfold pyMin
    split
    · exact irrefl t
    · next h => exact h
  unfold clamped pyMax
  split
  · next h =>
    refine ⟨hcoeff fun h' => ?_, hmin⟩
    rw [Decimal.lt_iff] at h h'
    exact absurd (h.trans h') (lt_irrefl _)
  · exact ⟨hcoeff (irrefl 0), ht0⟩

/-- The charge is the whole micro-dollars of the clamped bill, between zero and
the total. -/
theorem clamped_units (ht : IsMicros t n) (h0 : 0 ≤ n) :
    0 ≤ (clamped d t).units (-6) ∧ (clamped d t).units (-6) ≤ n := by
  obtain ⟨hc, hle⟩ := clamped_bounds (d := d) ht h0
  refine ⟨?_, ?_⟩
  · have hu : (0 : Decimal).units (-6) = 0 := isMicros_zero.units
    rw [← hu]
    refine Decimal.units_mono _ fun h => ?_
    exact absurd (Decimal.lt_zero_iff.mp h) (not_lt.mpr hc)
  · rw [← ht.units]
    exact Decimal.units_mono _ hle

theorem quantizeMoney_clamped (ht : IsMicros t n) (h0 : 0 ≤ n) (hf : Fits n) :
    quantizeMoney (clamped d t) = .ok (microsToMoney ((clamped d t).units (-6))) := by
  obtain ⟨hc, -⟩ := clamped_bounds (d := d) ht h0
  obtain ⟨h1, h2⟩ := clamped_units (d := d) ht h0
  have hfit := fits_of_le h1 h2 hf
  unfold quantizeMoney microsToMoney
  rw [Decimal.quantize_down hc hfit, Decimal.isUnits_scaleb_ofInt hfit]

theorem clampBill_finite (ht : IsMicros t n) (h0 : 0 ≤ n) (hf : Fits n) :
    clampBill (.finite d) t = .ok (microsToMoney ((clamped d t).units (-6))) := by
  rw [← quantizeMoney_clamped ht h0 hf]
  have hmin : minNumber (.finite d) (.finite t) = .ok (.finite (pyMin d t)) := by
    simp only [minNumber, Number.lt?, pyMin]
    by_cases h : t < d <;> simp [h]
  have hmax : maxNumber (.finite (.ofInt 0)) (.finite (pyMin d t)) = .ok (.finite (clamped d t)) := by
    show maxNumber (.finite 0) _ = _
    simp only [maxNumber, Number.lt?, clamped, pyMax]
    by_cases h : 0 < pyMin d t <;> simp [h]
  simp only [clampBill, hmin, hmax, bind, Except.bind]

/-- A bill that is no finite number is charged nothing or the whole. -/
theorem clampBill_ok {bill : Number} {q : Decimal} (ht : IsMicros t n) (hn : 0 < n) (hf : Fits n)
    (h : clampBill bill t = .ok q) : ∃ m, 0 ≤ m ∧ m ≤ n ∧ q = microsToMoney m := by
  have whole : ∀ {d : Decimal}, clampBill (.finite d) t = .ok q → ∃ m, 0 ≤ m ∧ m ≤ n ∧ q = microsToMoney m := by
    intro d h
    rw [clampBill_finite ht hn.le hf] at h
    obtain ⟨h1, h2⟩ := clamped_units (d := d) ht hn.le
    exact ⟨_, h1, h2, (Except.ok.inj h).symm⟩
  cases bill with
  | finite d => exact whole h
  | nan => cases h
  | infinity negative =>
    cases negative with
    | true =>
      have h : quantizeMoney (.ofInt 0) = .ok q := h
      cases h
      exact ⟨0, le_refl 0, hn.le, by decide⟩
    | false =>
      refine whole (d := t) ?_
      rw [← h]
      simp [clampBill, minNumber, Number.lt?]

end Clamp

/-! ## Settlements -/

/-- What a settlement sends, in micro-dollars: the charge `n` lies within the
plan, the refund within its buckets, and together they are the whole plan. -/
structure Settlement.Sound (s : Settlement) (n : ℤ) : Prop where
  nonneg : 0 ≤ n
  le : n ≤ s.reservation.authorizedCostUsd
  charged : s.charged = microsToMoney n
  billed : s.args.billedCostUsd = n
  refund_nonneg : ∀ f, 0 ≤ s.args.refund f
  refund_le : ∀ f, s.args.refund f ≤ s.reservation.plan.field f
  total : s.args.refundFree + s.args.refundBonus + s.args.refundPaid = s.reservation.plan.totalUsd - n
  surplus : s.args.refundedSurplus = s.args.refundFree + s.args.refundBonus + s.args.refundPaid
  clientRequestId : s.args.clientRequestId = s.reservation.request.clientRequestId
  userId : s.args.userId = s.reservation.request.userId
  content : s.args.content = s.content

theorem Reservation.total_micros (v : Reservation) :
    IsMicros v.authorization.debitPlan.totalUsd v.authorizedCostUsd := by
  have h := totalUsd_micros v.sound.plan v.sound.charged v.sound.cost.fits
  rwa [v.sound.charged.total] at h

theorem settleArgs_ok {v : Reservation} {content : String} {bill : Number} {charged : Decimal} {args : SettleArgs}
    (h : settleArgs v content bill = .ok (charged, args)) :
    clampBill bill v.authorization.debitPlan.totalUsd = .ok charged := by
  obtain ⟨d, hd, h⟩ := bind_eq_ok.mp h
  iterate 5 obtain ⟨_, -, h⟩ := bind_eq_ok.mp h
  cases h
  exact hd

/-- **What settling sends** for a charge of `n` micro-dollars: the surplus of the exact plan. -/
theorem settleCall_micros (request : GenerationRequest) (content : String) {a : Authorization Decimal} {plan : DebitPlan ℤ}
    {cost n : ℤ} {bill : Number} {charged : Decimal} (hp : MicroPlan a.debitPlan plan)
    (hch : plan.Charged a.debitPolicy cost) (hfit : Fits cost) (hcl : clampBill bill a.debitPlan.totalUsd = .ok charged)
    (hm : IsMicros charged n) (h0 : 0 ≤ n) (hn : n ≤ cost) :
    MicroPlan (surplusRefund a.debitPlan a.debitPolicy charged) (surplusRefund plan a.debitPolicy n) ∧
    IsMicros (surplusRefund a.debitPlan a.debitPolicy charged).totalUsd
      (surplusRefund plan a.debitPolicy n).totalUsd ∧
    settleCall request a content bill = .ok (charged,
      { content := content
        billedCostUsd := n
        providerBilledCostUsd := bill
        clientRequestId := request.clientRequestId
        userId := request.userId
        refundFree := (surplusRefund plan a.debitPolicy n).freeUsd
        refundBonus := (surplusRefund plan a.debitPolicy n).bonusUsd
        refundPaid := (surplusRefund plan a.debitPolicy n).paidUsd
        refundedSurplus := (surplusRefund plan a.debitPolicy n).totalUsd }) := by
  have hr := surplusRefund_micros hp hch (h0.trans hn) hfit hm
  obtain ⟨hin, -⟩ := surplusRefund_spec hch (h0.trans hn) n
  set r := surplusRefund plan a.debitPolicy n with hrdef
  have hle : ∀ k, r.bucket k ≤ plan.bucket k := fun k => (hin k).2
  have hfits : ∀ k, Fits (r.bucket k) := fun k => fits_of_le (hin k).1 (hle k) (hch.fits hfit k)
  have htot : IsMicros (surplusRefund a.debitPlan a.debitPolicy charged).totalUsd r.totalUsd ∧ Fits r.totalUsd := by
    have hsum : plan.bucket .free + plan.bucket .bonus + plan.bucket .paid = cost := hch.total
    have h1 := hin .free
    have h2 := hin .bonus
    have h3 := hin .paid
    have hfit1 : Fits (r.bucket .free + r.bucket .bonus) := fits_of_le (by omega) (by omega) hfit
    have hfit2 : Fits (r.bucket .free + r.bucket .bonus + r.bucket .paid) := fits_of_le (by omega) (by omega) hfit
    exact ⟨((hr.bucket .free).add (hr.bucket .bonus) hfit1).add (hr.bucket .paid) hfit2, hfit2⟩
  refine ⟨hr, htot.1, ?_⟩
  have e0 := moneyToMicros_of_isMicros hm (fits_of_le h0 hn hfit)
  have e1 := moneyToMicros_of_isMicros (hr.bucket .free) (hfits .free)
  have e2 := moneyToMicros_of_isMicros (hr.bucket .bonus) (hfits .bonus)
  have e3 := moneyToMicros_of_isMicros (hr.bucket .paid) (hfits .paid)
  have e4 := moneyToMicros_of_isMicros htot.1 htot.2
  simp only [DebitPlan.bucket] at e1 e2 e3
  simp only [settleCall, hcl, e0, e1, e2, e3, e4, bind, Except.bind, pure, Except.pure]

/-- **A settlement charges and refunds exactly the plan.** -/
theorem Settlement.sound (s : Settlement) : ∃ n, s.Sound n := by
  have hv := s.reservation.sound
  have hcl := settleArgs_ok s.computed
  obtain ⟨n, h0, hn, hq⟩ := clampBill_ok s.reservation.total_micros hv.cost.pos hv.cost.fits hcl
  have hmicro : IsMicros s.charged n := hq ▸ isMicros_microsToMoney (fits_of_le h0 hn hv.cost.fits)
  obtain ⟨-, -, hcall⟩ := settleCall_micros s.reservation.request s.content hv.plan hv.charged
    hv.cost.fits hcl hmicro h0 hn
  obtain ⟨hin, htot, -⟩ := surplusRefund_spec hv.charged hv.cost.pos.le n
  rw [min_eq_left hn, max_eq_right h0] at htot
  have hargs := (Prod.mk.inj (Except.ok.inj (hcall.symm.trans s.computed))).2
  refine ⟨n, h0, hn, hq, ?_, fun f => ?_, fun f => ?_, ?_, ?_, ?_, ?_, ?_⟩
  all_goals rw [← hargs]
  · cases f with
    | freeUsd => exact (hin .free).1
    | bonusUsd => exact (hin .bonus).1
    | paidUsd => exact (hin .paid).1
    | freeRequests | version => exact le_refl _
  · cases f with
    | freeUsd => exact (hin .free).2
    | bonusUsd => exact (hin .bonus).2
    | paidUsd => exact (hin .paid).2
    | freeRequests => exact hv.nonneg .freeRequests
    | version => exact le_refl _
  · rw [hv.charged.total]
    exact htot
  · rfl

end GenerationBalance
