/-
Money as whole micro-dollars (`backend/app/shared/ports/billing/balance_store.py`):
the conversions between `Decimal` dollars and the integers Redis keeps.

On amounts of whole micro-dollars the decimal context rounds nothing, so the
policy run on `Decimal` is the exact policy on micro-dollars:
`authorize_micros` and `surplusRefund_micros`.
-/
import GenerationBalance.Policy
import GenerationBalance.Texts

namespace GenerationBalance

open Decimal (IsUnits)

def quantizeMoney (amount : Decimal) : Except Exn Decimal :=
  match amount.quantize (-6) Decimal.roundDown with
  | some d => .ok d
  | none => .error .invalidOperation

def moneyToMicros (amount : Decimal) : Except Exn ℤ :=
  let scaled := amount.scaleb 6
  if scaled != scaled.toIntegralValue then .error (.finerThanQuantum amount) else .ok scaled.toInt

def microsToMoney (micros : ℤ) : Decimal := (Decimal.ofInt micros).scaleb (-6)

/-- `money_to_str`: the amount in plain notation, which there must be room for. -/
def moneyToStr (room : ℕ) (amount : Number) : Except Exn String :=
  if amount.format.length ≤ room then .ok amount.format else .error .memory

/-- `_plan_args`: the plan as the integers a script receives. -/
def planArgs (plan : DebitPlan Decimal) : Except Exn (DebitPlan ℤ) := do
  let freeUsd ← moneyToMicros plan.freeUsd
  let bonusUsd ← moneyToMicros plan.bonusUsd
  let paidUsd ← moneyToMicros plan.paidUsd
  return ⟨freeUsd, bonusUsd, paidUsd, plan.freeRequests⟩

/-- The plan a stored record gives back. -/
def planFromMicros (plan : DebitPlan ℤ) : DebitPlan Decimal :=
  ⟨microsToMoney plan.freeUsd, microsToMoney plan.bonusUsd, microsToMoney plan.paidUsd, plan.freeRequests⟩

/-- An integer of at most 28 digits: the context keeps it exactly. -/
def Fits (n : ℤ) : Prop := n.natAbs < 10 ^ Decimal.prec

instance (n : ℤ) : Decidable (Fits n) := inferInstanceAs (Decidable (_ < _))

theorem fits_of_le {n m : ℤ} (h0 : 0 ≤ n) (h : n ≤ m) (hm : Fits m) : Fits n := by
  unfold Fits at *
  omega

/-- `d` is `n` whole micro-dollars, however many digits it is written with. -/
def IsMicros (d : Decimal) (n : ℤ) : Prop := d.toRat = n * (10 : ℚ) ^ (-6 : ℤ)

section IsMicros

variable {d e : Decimal} {m n : ℤ}

theorem IsMicros.unique (h : IsMicros d m) (h' : IsMicros d n) : m = n := by
  have := h.symm.trans h'
  rwa [mul_left_inj' (Decimal.unit_pos _).ne', Int.cast_inj] at this

theorem IsMicros.lt_iff (hd : IsMicros d m) (he : IsMicros e n) : d < e ↔ m < n := by
  rw [Decimal.lt_iff, hd, he, mul_lt_mul_iff_left₀ (Decimal.unit_pos _), Int.cast_lt]

theorem IsMicros.beq_iff (hd : IsMicros d m) (he : IsMicros e n) : (d == e) = true ↔ m = n := by
  rw [Decimal.beq_iff, hd, he, mul_left_inj' (Decimal.unit_pos _).ne', Int.cast_inj]

theorem IsMicros.units (h : IsMicros d n) : d.units (-6) = n := by
  unfold Decimal.units
  rw [h, mul_div_cancel_right₀ _ (Decimal.unit_pos _).ne', Int.floor_intCast]

theorem isMicros_zero : IsMicros 0 0 := by simp [IsMicros]

theorem IsMicros.add (hd : IsMicros d m) (he : IsMicros e n) (h : Fits (m + n)) : IsMicros (d + e) (m + n) := by
  have hsum : d.toRat + e.toRat = ((m + n : ℤ) : ℚ) * (10 : ℚ) ^ (-6 : ℤ) := by
    rw [hd, he]
    push_cast
    ring
  exact (Decimal.toRat_add hsum h).trans hsum

theorem IsMicros.sub (hd : IsMicros d m) (he : IsMicros e n) (h : Fits (m - n)) : IsMicros (d - e) (m - n) := by
  have hdiff : d.toRat - e.toRat = ((m - n : ℤ) : ℚ) * (10 : ℚ) ^ (-6 : ℤ) := by
    rw [hd, he]
    push_cast
    ring
  exact (Decimal.toRat_sub hdiff h).trans hdiff

theorem isMicros_microsToMoney (h : Fits n) : IsMicros (microsToMoney n) n := by
  unfold microsToMoney
  rw [Decimal.isUnits_scaleb_ofInt h]
  exact (Decimal.isUnits_mk _ _).toRat

/-- **An amount of whole micro-dollars is sent exactly**, however many digits it is
written with. -/
theorem moneyToMicros_of_isMicros (h : IsMicros d n) (hn : Fits n) : moneyToMicros d = .ok n := by
  by_cases hexp : -6 ≤ d.exp
  · have hunits : IsUnits (-6) d n := by
      refine ⟨hexp, ?_⟩
      unfold IsMicros at h
      rw [← Decimal.coeffAt_toRat d hexp, mul_left_inj' (Decimal.unit_pos _).ne'] at h
      exact_mod_cast h
    have hs : IsUnits 0 (d.scaleb 6) n := hunits.scaleb hn
    have heq : (d.scaleb 6 == d.scaleb 6) = true := (Decimal.beq_iff _ _).mpr rfl
    simp only [moneyToMicros, bne, hs.toIntegralValue, heq, hs.toInt, Bool.not_true, Bool.false_eq_true, if_false]
  · have hcoeff := Decimal.coeff_of_toRat h (by omega)
    obtain ⟨j, hj, hfix⟩ := Decimal.fix_mul hn (-6 - d.exp).toNat (d.exp + 6)
    have hscaled : d.scaleb 6 = ⟨n * 10 ^ ((-6 - d.exp).toNat - j), -(((-6 - d.exp).toNat - j : ℕ) : ℤ)⟩ := by
      unfold Decimal.scaleb
      rw [hcoeff, hfix]
      congr 1
      omega
    obtain ⟨hwhole, hint⟩ := Decimal.whole_toIntegralValue n ((-6 - d.exp).toNat - j)
    simp only [moneyToMicros, hscaled, bne, hwhole, hint, Bool.not_true, Bool.false_eq_true, if_false]

end IsMicros

/-- **Round trip.** Micro-dollars that fit the context come back unchanged. -/
theorem moneyToMicros_microsToMoney {n : ℤ} (h : Fits n) : moneyToMicros (microsToMoney n) = .ok n :=
  moneyToMicros_of_isMicros (isMicros_microsToMoney h) h

/-! ## Two computations that agree up to a relation -/

inductive ExceptRel {ε α β : Type} (R : α → β → Prop) : Except ε α → Except ε β → Prop
  | ok {a b} : R a b → ExceptRel R (.ok a) (.ok b)
  | error {e} : ExceptRel R (.error e) (.error e)

theorem ExceptRel.bind {ε α β γ δ : Type} {R : α → β → Prop} {S : γ → δ → Prop} {x : Except ε α}
    {y : Except ε β} {f : α → Except ε γ} {g : β → Except ε δ} (h : ExceptRel R x y)
    (hf : ∀ a b, R a b → ExceptRel S (f a) (g b)) : ExceptRel S (x >>= f) (y >>= g) := by
  cases h with
  | ok hr => exact hf _ _ hr
  | error => exact .error

/-! ## The policy on micro-dollars -/

structure MicroView (v : BalanceView Decimal) (b : BalanceView ℤ) : Prop where
  available : ∀ k, IsMicros (v.available k) (b.available k)
  freeRequests : v.freeRequests = b.freeRequests

structure MicroPlan (p : DebitPlan Decimal) (m : DebitPlan ℤ) : Prop where
  bucket : ∀ k, IsMicros (p.bucket k) (m.bucket k)
  freeRequests : p.freeRequests = m.freeRequests

/-- A cost that is a positive number of micro-dollars. -/
structure MicroCost (d : Decimal) (n : ℤ) : Prop where
  micros : IsMicros d n
  pos : 0 < n
  fits : Fits n

structure MicroModel (m : GenerationModel Decimal) (n : GenerationModel ℤ) : Prop where
  accessType : m.accessType = n.accessType
  free : MicroCost m.freeCostUsd n.freeCostUsd
  paid : MicroCost m.paidCostUsd n.paidCostUsd

structure MicroAuthorization (a : Authorization Decimal) (b : Authorization ℤ) : Prop where
  debitPolicy : a.debitPolicy = b.debitPolicy
  cost : MicroCost a.estimatedCostUsd b.estimatedCostUsd
  plan : MicroPlan a.debitPlan b.debitPlan

/-- Two tables of models, the second with the costs in micro-dollars. -/
def MicroTable (models : String → Option (GenerationModel Decimal)) (micro : String → Option (GenerationModel ℤ)) :
    Prop :=
  ∀ name, Option.Rel MicroModel (models name) (micro name)

/-- The models with their costs in micro-dollars. -/
def microModels (name : String) : Option (GenerationModel ℤ) :=
  (MODELS name).map fun m =>
    ⟨m.name, m.accessType, m.freeCostUsd.coeffAt (-6), m.paidCostUsd.coeffAt (-6)⟩

theorem microCost_coeffAt {d : Decimal} (h : -6 ≤ d.exp) (hpos : 0 < d.coeffAt (-6)) (hf : Fits (d.coeffAt (-6))) :
    MicroCost d (d.coeffAt (-6)) :=
  ⟨(Decimal.coeffAt_toRat d h).symm, hpos, hf⟩

theorem models_micros : MicroTable MODELS microModels := by
  intro name
  unfold microModels MODELS
  split
  case h_4 => exact .none
  all_goals
    exact .some ⟨rfl, microCost_coeffAt (by decide) (by decide) (by decide),
      microCost_coeffAt (by decide) (by decide) (by decide)⟩

section Micros

variable {d e : Decimal} {m n : ℤ}

theorem pyMin_toRat (a b : Decimal) : (pyMin a b).toRat = min a.toRat b.toRat := by
  unfold pyMin
  split
  · next h => exact (min_eq_right ((Decimal.lt_iff _ _).mp h).le).symm
  · next h => exact (min_eq_left (not_lt.mp ((Decimal.lt_iff _ _).not.mp h))).symm

theorem pyMax_toRat (a b : Decimal) : (pyMax a b).toRat = max a.toRat b.toRat := by
  unfold pyMax
  split
  · next h => exact (max_eq_right ((Decimal.lt_iff _ _).mp h).le).symm
  · next h => exact (max_eq_left (not_lt.mp ((Decimal.lt_iff _ _).not.mp h))).symm

theorem pyMin_micros (hd : IsMicros d m) (he : IsMicros e n) : IsMicros (pyMin d e) (pyMin m n) := by
  unfold pyMin
  rw [if_congr (he.lt_iff hd) rfl rfl]
  split
  · exact he
  · exact hd

theorem pyMax_micros (hd : IsMicros d m) (he : IsMicros e n) : IsMicros (pyMax d e) (pyMax m n) := by
  unfold pyMax
  rw [if_congr (hd.lt_iff he) rfl rfl]
  split
  · exact he
  · exact hd

theorem lt_zero_micros (hd : IsMicros d m) : d < 0 ↔ m < 0 := hd.lt_iff isMicros_zero

theorem zero_lt_micros (hd : IsMicros d m) : 0 < d ↔ 0 < m := isMicros_zero.lt_iff hd

theorem update_micros {f : Bucket → Decimal} {g : Bucket → ℤ} (h : ∀ k, IsMicros (f k) (g k)) (b : Bucket)
    (hd : IsMicros d m) : ∀ k, IsMicros (Function.update f b d k) (Function.update g b m k) := by
  intro k
  by_cases hk : k = b
  · subst hk; simpa using hd
  · simpa [Function.update_of_ne hk] using h k

theorem drain_micros {available : Bucket → Decimal} {have' : Bucket → ℤ}
    (ha : ∀ k, IsMicros (available k) (have' k)) (h0 : ∀ k, 0 ≤ have' k) :
    ∀ (order : List Bucket) {remaining : Decimal} {left : ℤ} {used : Bucket → Decimal} {spent : Bucket → ℤ},
      IsMicros remaining left → 0 ≤ left → Fits left → (∀ k, IsMicros (used k) (spent k)) →
      (∀ k, IsMicros ((drain available order remaining used).1 k) ((drain have' order left spent).1 k)) ∧
        IsMicros (drain available order remaining used).2 (drain have' order left spent).2
  | [], _, _, _, _, hr, _, _, hu => ⟨hu, hr⟩
  | b :: order, remaining, left, used, spent, hr, hl, hf, hu => by
    have ht := pyMin_micros (ha b) hr
    have hle : pyMin (have' b) left ≤ left := by rw [pyMin_eq]; exact min_le_right _ _
    have hge : 0 ≤ pyMin (have' b) left := by rw [pyMin_eq]; exact le_min (h0 b) hl
    have hf' : Fits (left - pyMin (have' b) left) := fits_of_le (by omega) (by omega) hf
    have hs := hr.sub ht hf'
    have hu' := update_micros hu b ht
    have hz : (remaining - pyMin (available b) remaining == 0) = (left - pyMin (have' b) left == 0) := by
      rw [Bool.eq_iff_iff, hs.beq_iff isMicros_zero, beq_iff_eq]
    simp only [drain, hz]
    split
    · exact ⟨hu', hs⟩
    · exact drain_micros ha h0 order hs (by omega) hf' hu'

theorem buildPlan_micros {v : BalanceView Decimal} {b : BalanceView ℤ} (hv : MicroView v b)
    (h0 : ∀ k, 0 ≤ b.available k) (hc : MicroCost d m) (policy : DebitPolicy) (consumes : Bool) :
    ExceptRel MicroPlan (buildPlan v d policy consumes) (buildPlan b m policy consumes) := by
  obtain ⟨hu, hr⟩ := drain_micros hv.available h0 policy.order hc.micros hc.pos.le hc.fits
    fun _ : Bucket => isMicros_zero
  simp only [buildPlan]
  rw [if_congr (zero_lt_micros hr) rfl rfl]
  split
  · exact .error
  · refine .ok ⟨fun k => ?_, rfl⟩
    cases k
    · exact hu .free
    · exact hu .bonus
    · exact hu .paid

theorem validateBalance_micros {v : BalanceView Decimal} {b : BalanceView ℤ} (hv : MicroView v b) :
    validateBalance v = validateBalance b := by
  unfold validateBalance
  refine if_congr ?_ rfl rfl
  have h1 := lt_zero_micros (hv.available .free)
  have h2 := lt_zero_micros (hv.available .bonus)
  have h3 := lt_zero_micros (hv.available .paid)
  simp only [BalanceView.available] at h1 h2 h3
  rw [h1, h2, h3, hv.freeRequests]

theorem validateBalance_ok {b : BalanceView ℤ} {u : Unit} (h : validateBalance b = .ok u) :
    (∀ k, 0 ≤ b.available k) ∧ 0 ≤ b.freeRequests := by
  unfold validateBalance at h
  split at h
  · cases h
  next hn =>
  simp only [not_or, not_lt] at hn
  refine ⟨fun k => ?_, hn.2.2.2⟩
  cases k
  · exact hn.1
  · exact hn.2.1
  · exact hn.2.2.1

theorem debitTerms_micros {v : BalanceView Decimal} {b : BalanceView ℤ} (hv : MicroView v b)
    {model : GenerationModel Decimal} {micro : GenerationModel ℤ} (hm : MicroModel model micro)
    (request : GenerationRequest) :
    ExceptRel (fun x y => x.1 = y.1 ∧ MicroCost x.2.1 y.2.1 ∧ x.2.2 = y.2.2)
      (debitTerms model request v) (debitTerms micro request b) := by
  have hp : decide (0 < v.paidUsd) = decide (0 < b.paidUsd) :=
    decide_eq_decide.mpr (zero_lt_micros (hv.available .paid))
  have hl : decide (v.paidUsd < model.paidCostUsd) = decide (b.paidUsd < micro.paidCostUsd) :=
    decide_eq_decide.mpr ((hv.available .paid).lt_iff hm.paid.micros)
  simp only [debitTerms, hm.accessType, hp, hl]
  cases micro.accessType with
  | free =>
    simp only
    split
    · exact .ok ⟨rfl, hm.paid, rfl⟩
    · exact .ok ⟨rfl, hm.free, rfl⟩
  | paidOnly => exact .ok ⟨rfl, hm.paid, rfl⟩
  | conditionalFree =>
    simp only
    split
    · exact .ok ⟨rfl, hm.paid, rfl⟩
    · split
      · exact .ok ⟨rfl, hm.free, rfl⟩
      · exact .error

/-- **The policy that runs is the exact policy on micro-dollars.** -/
theorem authorize_micros {models : String → Option (GenerationModel Decimal)}
    {microModels : String → Option (GenerationModel ℤ)} (ht : MicroTable models microModels)
    {v : BalanceView Decimal} {b : BalanceView ℤ} (hv : MicroView v b) (request : GenerationRequest) :
    ExceptRel MicroAuthorization (authorize models request v) (authorize microModels request b) := by
  unfold authorize
  have hname := ht request.modelName
  generalize models request.modelName = model at hname
  generalize microModels request.modelName = micro at hname
  cases hname with
  | none => exact .error
  | @some model micro hmm =>
    simp only [validateBalance_micros hv]
    cases hval : validateBalance b with
    | error e => exact .error
    | ok u =>
    obtain ⟨h0, -⟩ := validateBalance_ok hval
    show ExceptRel _ (debitTerms model request v >>= _) (debitTerms micro request b >>= _)
    refine ExceptRel.bind (debitTerms_micros hv hmm request) ?_
    rintro ⟨p, c, f⟩ ⟨p', c', f'⟩ ⟨hpp, hc, hff⟩
    simp only at hpp hc hff
    subst hpp hff
    simp only [hv.freeRequests]
    split
    · exact .error
    · refine ExceptRel.bind (buildPlan_micros hv h0 hc p f) ?_
      intro plan plan' hplan
      exact .ok ⟨rfl, hc, hplan⟩

theorem MicroPlan.planArgs {p : DebitPlan Decimal} {q : DebitPlan ℤ} (h : MicroPlan p q)
    (hf : ∀ k, Fits (q.bucket k)) : planArgs p = .ok q := by
  have h1 := moneyToMicros_of_isMicros (h.bucket .free) (hf .free)
  have h2 := moneyToMicros_of_isMicros (h.bucket .bonus) (hf .bonus)
  have h3 := moneyToMicros_of_isMicros (h.bucket .paid) (hf .paid)
  simp only [DebitPlan.bucket] at h1 h2 h3
  unfold GenerationBalance.planArgs
  rw [h1, h2, h3, h.freeRequests]
  rfl

theorem microPlan_planFromMicros {q : DebitPlan ℤ} (hf : ∀ k, Fits (q.bucket k)) :
    MicroPlan (planFromMicros q) q := by
  refine ⟨fun k => ?_, rfl⟩
  cases k
  · exact isMicros_microsToMoney (hf .free)
  · exact isMicros_microsToMoney (hf .bonus)
  · exact isMicros_microsToMoney (hf .paid)

/-- **Round trip of a stored plan.** -/
theorem planArgs_planFromMicros {q : DebitPlan ℤ} (hf : ∀ k, Fits (q.bucket k)) :
    planArgs (planFromMicros q) = .ok q :=
  (microPlan_planFromMicros hf).planArgs hf

variable {p : DebitPlan Decimal} {q : DebitPlan ℤ} {policy : DebitPolicy} {cost : ℤ}

/-- A charged plan's buckets are parts of its cost, so they fit when it does. -/
theorem DebitPlan.Charged.bucket_le (hq : q.Charged policy cost) (k : Bucket) : q.bucket k ≤ cost := by
  have h1 := hq.nonneg .free
  have h2 := hq.nonneg .bonus
  have h3 := hq.nonneg .paid
  have := hq.total
  simp only [DebitPlan.totalUsd, DebitPlan.bucket] at *
  cases k <;> simp only <;> omega

theorem DebitPlan.Charged.fits (hq : q.Charged policy cost) (hf : Fits cost) (k : Bucket) : Fits (q.bucket k) :=
  fits_of_le (hq.nonneg k) (hq.bucket_le k) hf

theorem totalUsd_micros (hp : MicroPlan p q) (hq : q.Charged policy cost) (hf : Fits cost) :
    IsMicros p.totalUsd q.totalUsd := by
  have h1 := hq.nonneg .free
  have h2 := hq.nonneg .bonus
  have h3 := hq.nonneg .paid
  have ht := hq.total
  have hb1 := hp.bucket .free
  have hb2 := hp.bucket .bonus
  have hb3 := hp.bucket .paid
  simp only [DebitPlan.totalUsd, DebitPlan.bucket] at *
  exact (hb1.add hb2 (fits_of_le (by omega) (by omega) hf)).add hb3 (by rw [ht]; exact hf)

theorem surplusRefund_micros (hp : MicroPlan p q) (hq : q.Charged policy cost) (h0 : 0 ≤ cost) (hf : Fits cost)
    (hd : IsMicros d n) : MicroPlan (surplusRefund p policy d) (surplusRefund q policy n) := by
  have ht := totalUsd_micros hp hq hf
  have hc := pyMax_micros isMicros_zero (pyMin_micros hd ht)
  have hle : pyMax 0 (pyMin n q.totalUsd) ≤ q.totalUsd := by
    rw [pyMax_eq, pyMin_eq, hq.total]
    exact max_le h0 (min_le_right _ _)
  have hge : 0 ≤ pyMax 0 (pyMin n q.totalUsd) := by rw [pyMax_eq]; exact le_max_left _ _
  have htot := hq.total
  have hfr : Fits (q.totalUsd - pyMax 0 (pyMin n q.totalUsd)) := fits_of_le (by omega) (by omega) hf
  obtain ⟨hu, -⟩ := drain_micros hp.bucket hq.nonneg (chargeOrder policy).reverse
    (ht.sub hc hfr) (by omega) hfr fun _ : Bucket => isMicros_zero
  refine ⟨fun k => ?_, rfl⟩
  cases k
  · exact hu .free
  · exact hu .bonus
  · exact hu .paid

end Micros

end GenerationBalance
