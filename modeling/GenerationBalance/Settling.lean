/-
Settling in decimals (`_settle`). Whatever finite bill the provider returns, what is
charged and sent back is computed as over the rational numbers: the one thing that is
rounded is the clamped bill.
-/
import GenerationBalance.Reservations
import GenerationBalance.Surplus

namespace GenerationBalance

/-! ## Amounts as rational numbers -/

/-- A plan's amounts as rational numbers. -/
def DebitPlan.exact (p : DebitPlan Decimal) : DebitPlan ℚ := p.map Decimal.toRat

/-- Micro-dollars in dollars. -/
def dollars : ℤ →+ ℚ := (AddMonoidHom.mulRight ((10 : ℚ) ^ (-6 : ℤ))).comp (Int.castAddHom ℚ)

theorem dollars_apply (n : ℤ) : dollars n = n * (10 : ℚ) ^ (-6 : ℤ) := rfl

theorem dollars_strictMono : StrictMono dollars := by
  intro m n h
  rw [dollars_apply, dollars_apply, mul_lt_mul_iff_left₀ (Decimal.unit_pos _), Int.cast_lt]
  exact h

theorem IsMicros.dollars {d : Decimal} {n : ℤ} (h : IsMicros d n) : dollars n = d.toRat := h.symm

theorem MicroPlan.exact {p : DebitPlan Decimal} {m : DebitPlan ℤ} (h : MicroPlan p m) :
    p.exact = m.map dollars := by
  have h1 := h.bucket .free
  have h2 := h.bucket .bonus
  have h3 := h.bucket .paid
  simp only [DebitPlan.bucket] at h1 h2 h3
  simp only [DebitPlan.exact, DebitPlan.map, h1.dollars, h2.dollars, h3.dollars, h.freeRequests]

/-- A clamped bill in whole micro-dollars. -/
theorem clamped_floor {d t : Decimal} :
    (clamped d t).units (-6) = ⌊max 0 (min d.toRat t.toRat) * 10 ^ 6⌋ := by
  have hunit : (10 : ℚ) ^ (-6 : ℤ) = (10 ^ 6)⁻¹ := by norm_num
  rw [Decimal.units, clamped, pyMax_toRat, pyMin_toRat, Decimal.toRat_zero, hunit, div_inv_eq_mul]

/-! ## What is charged and sent -/

/-- The refund a settlement sends, as a plan. -/
def SettleArgs.refunded (args : SettleArgs) : DebitPlan ℤ := ⟨args.refundFree, args.refundBonus, args.refundPaid, 0⟩

/-- The charge and what `settle` sends, against exact arithmetic. -/
structure SettledExactly (a : Authorization Decimal) (bill charged : Decimal) (args : SettleArgs) : Prop where
  charge : charged.toRat = ⌊max 0 (min bill.toRat a.debitPlan.exact.totalUsd) * 10 ^ 6⌋ / 10 ^ 6
  authorized : a.debitPlan.exact.totalUsd = a.estimatedCostUsd.toRat
  /-- No operation of the decimal context rounds. -/
  total : a.debitPlan.totalUsd.toRat = a.debitPlan.exact.totalUsd
  refund : (surplusRefund a.debitPlan a.debitPolicy charged).exact =
    surplusRefund a.debitPlan.exact a.debitPolicy charged.toRat
  refundTotal : (surplusRefund a.debitPlan a.debitPolicy charged).totalUsd.toRat =
    (surplusRefund a.debitPlan a.debitPolicy charged).exact.totalUsd
  /-- What is sent is these amounts in micro-dollars. -/
  billed : dollars args.billedCostUsd = charged.toRat
  refunded : ∀ b : Bucket, dollars (args.refunded.bucket b) =
    ((surplusRefund a.debitPlan a.debitPolicy charged).bucket b).toRat
  refundedSurplus : dollars args.refundedSurplus = (surplusRefund a.debitPlan a.debitPolicy charged).totalUsd.toRat
  nonneg : 0 ≤ args.billedCostUsd ∧ (∀ b : Bucket, 0 ≤ args.refunded.bucket b) ∧ 0 ≤ args.refundedSurplus
  providerBilledCostUsd : args.providerBilledCostUsd = .finite bill
  /-- The plan is charged or returned, and the record says what was returned. -/
  whole : (surplusRefund a.debitPlan a.debitPolicy charged).exact.totalUsd + charged.toRat = a.debitPlan.exact.totalUsd
  surplus : args.refundedSurplus = args.refundFree + args.refundBonus + args.refundPaid

/-- **Settling is exact.** On a balance of whole micro-dollars, whatever finite bill a
request ends with, the charge is the clamped bill rounded down, every amount can be
sent, and nothing else is rounded. -/
theorem settle_exact {v : BalanceView Decimal} {b : BalanceView ℤ} (hv : MicroView v b) {request : GenerationRequest}
    {a : Authorization Decimal} (h : authorize MODELS request v = .ok a) (content : String) (bill : Decimal) :
    ∃ charged args, settleCall request a content (.finite bill) = .ok (charged, args) ∧
      SettledExactly a bill charged args := by
  obtain ⟨m, -, hm, hch, -⟩ := authorize_sound models_micros hv h
  have hcost := hm.cost
  have htotal := totalUsd_micros hm.plan hch hcost.fits
  rw [hch.total] at htotal
  -- The charge.
  obtain ⟨h0, hn⟩ := clamped_units (d := bill) htotal hcost.pos.le
  have hcl := clampBill_finite (d := bill) htotal hcost.pos.le hcost.fits
  have hcharged := isMicros_microsToMoney (fits_of_le h0 hn hcost.fits)
  have hfloor := clamped_floor (d := bill) (t := a.debitPlan.totalUsd)
  generalize (clamped bill a.debitPlan.totalUsd).units (-6) = n at h0 hn hcl hcharged hfloor
  generalize microsToMoney n = charged at hcl hcharged
  obtain ⟨hr, hrt, hcall⟩ := settleCall_micros request content hm.plan hch hcost.fits hcl
    hcharged h0 hn
  obtain ⟨hin, htot, -⟩ := surplusRefund_spec hch hcost.pos.le n
  rw [min_eq_left hn, max_eq_right h0] at htot
  have hsent : 0 ≤ (surplusRefund m.debitPlan a.debitPolicy n).totalUsd := by
    rw [htot]
    omega
  refine ⟨charged, _, hcall, ?_⟩
  have hexact : a.debitPlan.exact.totalUsd = dollars m.estimatedCostUsd := by
    rw [hm.plan.exact, DebitPlan.map_totalUsd, hch.total]
  have hback : (surplusRefund a.debitPlan a.debitPolicy charged).exact.totalUsd =
      dollars (surplusRefund m.debitPlan a.debitPolicy n).totalUsd := by
    rw [hr.exact, DebitPlan.map_totalUsd]
  exact
    { charge := by
        rw [← hcharged.dollars, dollars_apply, hfloor, htotal.dollars.symm, hexact, zpow_neg, div_eq_mul_inv]
        norm_cast
      authorized := by rw [hexact, hcost.micros.dollars]
      total := by rw [hexact, htotal.dollars]
      refund := by rw [hr.exact, hm.plan.exact, ← hcharged.dollars, surplusRefund_map dollars_strictMono]
      refundTotal := by rw [hback, hrt.dollars]
      billed := hcharged.dollars
      refunded := fun b => by cases b <;> exact (hr.bucket _).dollars
      refundedSurplus := hrt.dollars
      nonneg := ⟨h0, fun b => by cases b <;> exact (hin _).1, hsent⟩
      providerBilledCostUsd := rfl
      whole := by rw [hback, htot, hexact, ← hcharged.dollars, ← map_add, sub_add_cancel]
      surplus := rfl }

/-- Five free cents are taken, and a bill of thirteen decimals is charged. -/
theorem settle_exact_thirteen_decimals :
    ∃ charged args,
      settleCall ⟨1, 2, 3, "basic", false⟩
        ⟨⟨"basic", .free, ⟨5, -2⟩, ⟨8, -2⟩⟩, .default, ⟨5, -2⟩, ⟨⟨5, -2⟩, 0, 0, 1⟩⟩ "answer"
        (.finite ⟨312345678901, -13⟩) = .ok (charged, args) ∧
      SettledExactly ⟨⟨"basic", .free, ⟨5, -2⟩, ⟨8, -2⟩⟩, .default, ⟨5, -2⟩, ⟨⟨5, -2⟩, 0, 0, 1⟩⟩
        ⟨312345678901, -13⟩ charged args :=
  settle_exact (show MicroView ⟨⟨5, -2⟩, 0, 0, 1⟩ ⟨50000, 0, 0, 1⟩ from
    ⟨fun k => by cases k; exacts [by norm_num [BalanceView.available, IsMicros, Decimal.toRat], isMicros_zero,
      isMicros_zero], rfl⟩) rfl "answer"
    ⟨312345678901, -13⟩

end GenerationBalance
