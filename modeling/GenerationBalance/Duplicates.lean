/-
What deliveries of one generation return. The call that called the provider
returns what its settlement charged; every other one reads the charge back from
the record, where `_resolve_duplicate` takes a charge of zero for none and
returns the authorized cost instead. So the two agree exactly when something
was charged, which is when the bill is a whole micro-dollar at least.
-/
import GenerationBalance.Outcomes

namespace GenerationBalance

open Transition

/-- `MONEY_QUANTUM`. -/
def MONEY_QUANTUM : Decimal := ⟨1, -6⟩

/-! ## The charge of a bill -/

/-- A clamped bill is below the quantum exactly when the bill is. -/
theorem clamped_quantum {d t : Decimal} (ht : ¬ t < MONEY_QUANTUM) :
    clamped d t < MONEY_QUANTUM ↔ d < MONEY_QUANTUM := by
  have h0 : (0 : Decimal).toRat < MONEY_QUANTUM.toRat := (Decimal.lt_iff _ _).mp (by decide)
  rw [Decimal.lt_iff, not_lt] at ht
  rw [Decimal.lt_iff, Decimal.lt_iff, clamped, pyMax_toRat, pyMin_toRat, max_lt_iff, min_lt_iff]
  constructor
  · rintro ⟨-, h | h⟩
    · exact h
    · exact absurd h (not_lt.mpr ht)
  · exact fun h => ⟨h0, .inl h⟩

/-- What a settlement charges for a finite bill. -/
theorem Settlement.charge {S : Settlement} {n : ℤ} {d : Decimal} (hs : S.Sound n) (hd : S.bill = .finite d) :
    n = 0 ↔ d < MONEY_QUANTUM := by
  have hv := S.reservation.sound
  have ht := S.reservation.total_micros
  have hcl := settleArgs_ok S.computed
  rw [hd, clampBill_finite ht hv.cost.pos.le hv.cost.fits] at hcl
  have hn : (clamped d S.reservation.authorization.debitPlan.totalUsd).units (-6) = n := by
    obtain ⟨h1, h2⟩ := clamped_units (d := d) ht hv.cost.pos.le
    have hm := isMicros_microsToMoney (fits_of_le h1 h2 hv.cost.fits)
    rw [Except.ok.inj hcl, hs.charged] at hm
    exact hm.unique (isMicros_microsToMoney (fits_of_le hs.nonneg hs.le hv.cost.fits))
  have htotal : ¬ S.reservation.authorization.debitPlan.totalUsd < MONEY_QUANTUM := by
    refine Decimal.one_le_units.mp ?_
    rw [ht.units]
    exact hv.cost.pos
  have hone : 1 ≤ n ↔ ¬ d < MONEY_QUANTUM := by
    rw [← hn, ← not_congr (clamped_quantum (d := d) htotal)]
    exact Decimal.one_le_units
  have := hs.nonneg
  constructor
  · intro h
    by_contra hlt
    have := hone.mpr hlt
    omega
  · intro h
    by_contra hne
    exact hone.mp (by omega) h

/-! ## The two results -/

/-- What was taken for a generation: its plan without the refunded surplus. -/
def GenerationHash.net (g : GenerationHash) : ℤ := g.plan.totalUsd - g.refundedSurplusUsd.getD 0

/-- What the record says of the settlement that left it. -/
structure Charged (S : Settlement) (g : GenerationHash) (n : ℤ) : Prop where
  sound : S.Sound n
  content : g.content = some S.content
  billed : g.billedCostUsd = some n
  bill : g.providerBilledCostUsd = some S.bill
  cost : g.authorizedCostUsd = S.reservation.authorizedCostUsd
  net : g.net = n

theorem settleArgs_bill {v : Reservation} {content : String} {bill : Number} {charged : Decimal} {args : SettleArgs}
    (h : settleArgs v content bill = .ok (charged, args)) : args.providerBilledCostUsd = bill := by
  obtain ⟨d, hd, h⟩ := bind_eq_ok.mp h
  obtain ⟨b, hb, h⟩ := bind_eq_ok.mp h
  obtain ⟨r1, h1, h⟩ := bind_eq_ok.mp h
  obtain ⟨r2, h2, h⟩ := bind_eq_ok.mp h
  obtain ⟨r3, h3, h⟩ := bind_eq_ok.mp h
  obtain ⟨r4, h4, h⟩ := bind_eq_ok.mp h
  cases h
  rfl

theorem Settles.charged {S : Settlement} {id : RequestId} {g : GenerationHash} (h : Settles S id g) :
    ∃ n, Charged S g n := by
  obtain ⟨-, hof, hrec⟩ := h
  obtain ⟨n, hs⟩ := S.sound
  have hplan := hof.plan
  have hcost : g.authorizedCostUsd = S.reservation.authorizedCostUsd := hof.2.2.2.2.1
  refine ⟨n, hs, ?_, ?_, ?_, hcost, ?_⟩
  · rw [← hrec]; exact congrArg some hs.content
  · rw [← hrec]; exact congrArg some hs.billed
  · rw [← hrec]; exact congrArg some (settleArgs_bill S.computed)
  · have hsur : g.refundedSurplusUsd = some S.args.refundedSurplus := by rw [← hrec]; rfl
    unfold GenerationHash.net
    rw [hsur, hplan, Option.getD_some, hs.surplus, hs.total]
    omega

theorem Charged.result {S : Settlement} {g : GenerationHash} {n : ℤ} (h : Charged S g n) :
    S.result = ⟨S.reservation.request.clientRequestId, S.content, microsToMoney n⟩ := by
  rw [← h.sound.charged]
  rfl

/-- What a duplicate returns: a charge of zero gives the authorized cost. -/
theorem Charged.duplicate {S : Settlement} {g : GenerationHash} {n : ℤ} (h : Charged S g n)
    (request : GenerationRequest) :
    duplicateResult request g = ⟨request.clientRequestId, S.content,
      microsToMoney (if n = 0 then S.reservation.authorizedCostUsd else n)⟩ := by
  have hzero : (microsToMoney n == Decimal.ofInt 0) = true ↔ n = 0 :=
    (isMicros_microsToMoney (fits_of_le h.sound.nonneg h.sound.le S.reservation.sound.cost.fits)).beq_iff isMicros_zero
  simp only [duplicateResult, recordFromFields, h.content, h.billed, h.cost, textOrNone_getD, Option.map_some, orMoney]
  by_cases hn : n = 0
  · rw [if_pos (hzero.mpr hn), if_pos hn]
  · rw [if_neg fun he => hn (hzero.mp he), if_neg hn]

/-- Results are equal as Python compares them. -/
structure GenerationResult.Equals (r r' : GenerationResult) : Prop where
  clientRequestId : r.clientRequestId = r'.clientRequestId
  content : r.content = r'.content
  billed : (r.billedCostUsd == r'.billedCostUsd) = true

/-- A delivery's result, by whether it called the provider. -/
theorem Charged.returned {S : Settlement} {g : GenerationHash} {n : ℤ} (h : Charged S g n) {asked : Bool}
    {request : GenerationRequest} {r : GenerationResult} (hr : Returned asked request g r) :
    r = ⟨request.clientRequestId, S.content,
      microsToMoney (if asked = false ∧ n = 0 then S.reservation.authorizedCostUsd else n)⟩ := by
  cases asked with
  | false =>
    have hr : r = duplicateResult request g := hr
    rw [hr, h.duplicate]
    simp
  | true =>
    obtain ⟨S', hset, rfl⟩ := hr
    obtain ⟨n', h'⟩ := hset.charged
    have hn : n' = n := by rw [← h'.net, h.net]
    have hc : S'.content = S.content := Option.some.inj (h'.content.symm.trans h.content)
    have hid : S'.reservation.request.clientRequestId = request.clientRequestId := hset.1
    rw [h'.result, hn, hc, hid]
    simp

/-! ## Where the bill comes from -/

/-- The provider gave the call `p` what the settlement charges. -/
def Provided (tr : List (Trans System Label)) (p : ℕ) (S : Settlement) : Prop :=
  (∃ t ∈ tr, t.label = .provided p (.result S.content S.bill)) ∧ asked tr p = true

theorem Provided.cons {tr : List (Trans System Label)} {p : ℕ} {S : Settlement} (h : Provided tr p S)
    (t : Trans System Label) : Provided (t :: tr) p S := by
  obtain ⟨⟨t', ht', hl⟩, ha⟩ := h
  refine ⟨⟨t', List.mem_cons_of_mem _ ht', hl⟩, ?_⟩
  unfold asked at *
  rw [List.any_cons, ha, Bool.or_true]

/-- Every settlement, and so every done record, is of what the provider gave. -/
structure Billed (K : RequestId → Prop) (tr : List (Trans System Label)) (s : System) : Prop where
  held : ∀ p st S, s.Holds p st → st.settlement = some S → Provided tr p S
  done : ∀ id g, K id → s.redis.gen.get id = some g → g.status = .done → ∃ p S, Settles S id g ∧ Provided tr p S

section Step

variable {cfg : Config} {tr : List (Trans System Label)} {s s' : System} {l : Label} {K : RequestId → Prop}

theorem StepCase.billed (h : StepCase cfg s l s') (hb : Billed K tr s) (hs : Settled K tr s)
    (hr : Recording cfg K ⟨s, l, s'⟩) : Billed K (⟨s, l, s'⟩ :: tr) s' := by
  refine ⟨fun p st S hh hS => ?_, fun id g hK hg hd => ?_⟩
  · cases h.origin hh with
    | kept hk => exact (hb.held p st S hk hS).cons _
    | @started job => rw [(job.start_blank cfg).settlement] at hS; cases hS
    | crashed => cases hS
    | leftover hl hm =>
      rcases Proc.leftovers_cases hm with rfl | hbl
      · exact (hb.held p _ S (.inl rfl) hS).cons _
      · rw [hbl.1.settlement] at hS; cases hS
    | resumed hg hd he =>
      rcases Proc.resume_settlement hS with hS | ⟨request, v, content, bill, hst, rfl, hm⟩
      · exact (hb.held p _ S (.inl rfl) hS).cons _
      · obtain ⟨-, hc, hbill⟩ := makeSettlement_ok hm
        have hl := hg.provided_label
        refine ⟨⟨_, List.mem_cons_self .., by rw [hc, hbill]; exact hl⟩, ?_⟩
        rw [asked_cons (t := ⟨s, l, s'⟩) tr (by rw [hl]; exact fun h => by cases h)]
        exact hs.asks p true (by rw [hst]; rfl)
  · rcases h.gen_origin hr.inRange hg with ⟨g₀, hg₀, hstep⟩ | ⟨q, st, w, -, -, -, rfl⟩
    · by_cases hd₀ : g₀.status = .done
      · rw [hstep.resolved (by rw [hd₀]; decide)] at hd ⊢
        obtain ⟨p, S, hset, hp⟩ := hb.done id g₀ hK hg₀ hd₀
        exact ⟨p, S, hset, hp.cons _⟩
      · obtain ⟨q, st, S, hh, hS, hset⟩ := h.settles hs.kept hr hK hg₀ hg hd₀ hd
        exact ⟨q, S, hset, (hb.held q st S hh hS).cons _⟩
    · cases hd

end Step

theorem Runs.billed {cfg : Config} {pg : Rows} {tr : List (Trans System Label)} {s : System} {K : RequestId → Prop}
    (hr : Runs cfg (.start pg) tr s) (hh : ∀ t ∈ tr, Recording cfg K t) : Billed K tr s := by
  refine hr.invariant_history hh ⟨fun p st S h hS => ?_, fun id g _ hg => by cases hg⟩
    fun hr hh hb hstep ht => (step_cases hstep).billed hb (Runs.settled hr hh) ht
  rw [System.start_holds h] at hS
  cases hS

/-! ## Every run -/

/-- All deliveries of a request that returned have returned the same, and the
billed cost was what was taken. -/
structure SameResults (tr : List (Trans System Label)) (id : RequestId) (g : GenerationHash) : Prop where
  equal : ∀ p q request request' r r', request.clientRequestId = id → request'.clientRequestId = id →
    Ended tr p request (.ok r) → Ended tr q request' (.ok r') → r.Equals r'
  net : ∀ p request r, request.clientRequestId = id → Ended tr p request (.ok r) →
    (r.billedCostUsd == microsToMoney g.net) = true

/-- **What deliveries return.** As long as the record of a request is kept and all
sums are in range: a done record holds the bill that the provider gave the call
that called it; and if that is a finite number, the deliveries agree, and on the
amount taken, exactly when the bill is a whole micro-dollar at least or nobody
but that call has returned. -/
theorem same_results_iff {cfg : Config} {pg : Rows} {tr : List (Trans System Label)} {s : System} {id : RequestId}
    {g : GenerationHash} (hr : Runs cfg (.start pg) tr s) (hl : ∀ t ∈ tr, recording cfg id t = true)
    (hg : s.redis.gen.get id = some g) (hd : g.status = .done) :
    ∃ (p : ℕ) (content : String) (bill : Number),
      (∃ t ∈ tr, t.label = .provided p (.result content bill)) ∧ asked tr p = true ∧
      g.content = some content ∧ g.providerBilledCostUsd = some bill ∧
      ∀ d, bill = .finite d →
        (SameResults tr id g ↔ ¬ d < MONEY_QUANTUM ∨
          ∀ q request r, request.clientRequestId = id → Ended tr q request (.ok r) → asked tr q = true) := by
  have hh : ∀ t ∈ tr, Recording cfg (· = id) t := fun t ht => .of_recording (hl t ht)
  obtain ⟨p, S, hset, hp, hasked⟩ := (Runs.billed hr hh).done id g rfl hg hd
  obtain ⟨n, hc⟩ := hset.charged
  refine ⟨p, S.content, S.bill, hp, hasked, hc.content, hc.bill, fun d hbill => ?_⟩
  have hv := S.reservation.sound
  have hcharge : n = 0 ↔ d < MONEY_QUANTUM := S.charge hc.sound hbill
  have hfit : Fits n := fits_of_le hc.sound.nonneg hc.sound.le hv.cost.fits
  -- Every result, by who returned it.
  have result : ∀ q request r, request.clientRequestId = id → Ended tr q request (.ok r) →
      r = ⟨id, S.content, microsToMoney (if asked tr q = false ∧ n = 0 then S.reservation.authorizedCostUsd else n)⟩ := by
    intro q request r hid hq
    obtain ⟨g', hg', -, hret⟩ := (Runs.ended hr hh hid).1 r hq
    rw [hid, hg] at hg'
    cases hg'
    rw [hc.returned hret, hid]
  constructor
  · intro hsame
    by_contra hnot
    simp only [not_or, not_not, not_forall] at hnot
    obtain ⟨hlt, q, request, r, hid, hq, hno⟩ := hnot
    have hn := hcharge.mpr hlt
    have hno : asked tr q = false := by simpa using hno
    have hbilled := hsame.net q request r hid hq
    rw [result q request r hid hq, hc.net, hn, if_pos ⟨hno, rfl⟩] at hbilled
    have := (isMicros_microsToMoney hv.cost.fits).beq_iff (isMicros_microsToMoney (n := 0) (by decide)) |>.mp hbilled
    have := hv.cost.pos
    omega
  · intro hcond
    have charge : ∀ q request r, request.clientRequestId = id → Ended tr q request (.ok r) →
        r = ⟨id, S.content, microsToMoney n⟩ := by
      intro q request r hid hq
      rw [result q request r hid hq, if_neg]
      rintro ⟨hno, hn⟩
      rcases hcond with hlt | hall
      · exact hlt (hcharge.mp hn)
      · rw [hall q request r hid hq] at hno
        cases hno
    have same : (microsToMoney n == microsToMoney n) = true := (Decimal.beq_iff _ _).mpr rfl
    refine ⟨fun p q request request' r r' hid hid' hp hq => ?_, fun p request r hid hp => ?_⟩
    · rw [charge p request r hid hp, charge q request' r' hid' hq]
      exact ⟨rfl, rfl, same⟩
    · rw [charge p request r hid hp, hc.net]
      exact same

/-- The schedule of a premium generation that the provider bills, and of a
redelivery of it. -/
def billedTwice (bill : Decimal) : List Label :=
  .spawn 0 (.gen (premium 1 5)) :: coldLoad 0 ++
    [.exec 0 [] 0, .provider 0, .provided 0 (.result "ok" (.finite bill)), .exec 0 [] 0,
      .spawn 1 (.gen (premium 1 5)), .exec 1 [] 0, .exec 1 [] 0]

/-- The bill of a generation in the record it left. -/
def Redis.billOf (ρ : Redis) (id : RequestId) : Option Decimal :=
  match ρ.gen.get id with
  | some g =>
    match g.status, g.providerBilledCostUsd with
    | .done, some (.finite d) => some d
    | _, _ => none
  | none => none

theorem Redis.billOf_some {ρ : Redis} {id : RequestId} {d : Decimal} (h : ρ.billOf id = some d) :
    ∃ g, ρ.gen.get id = some g ∧ g.status = .done ∧ g.providerBilledCostUsd = some (.finite d) := by
  unfold Redis.billOf at h
  split at h
  · next g hg =>
    split at h
    · next d' hd hb => cases h; exact ⟨g, hg, hd, hb⟩
    · cases h
  · cases h

/-- A bill of five cents: original and redelivery return it. -/
theorem same_results_five_cents :
    ∃ tr s g, Runs {} (.start dollarRows) tr s ∧ s.redis.gen.get 5 = some g ∧
      g.providerBilledCostUsd = some (.finite ⟨5, -2⟩) ∧ SameResults tr 5 g := by
  obtain ⟨tr, s, hr, h⟩ := Runs.of_schedule {} (.start dollarRows) (billedTwice ⟨5, -2⟩)
    (fun tr s => tr.all (recording {} 5) && decide (s.redis.billOf 5 = some ⟨5, -2⟩)) (by decide +kernel)
  simp only [Bool.and_eq_true, List.all_eq_true, decide_eq_true_eq] at h
  obtain ⟨hl, hb⟩ := h
  obtain ⟨g, hg, hd, hbill⟩ := Redis.billOf_some hb
  obtain ⟨p, content, bill, -, -, -, hbill', hiff⟩ := same_results_iff hr hl hg hd
  have he : bill = .finite ⟨5, -2⟩ := Option.some.inj (hbill'.symm.trans hbill)
  exact ⟨tr, s, g, hr, hg, hbill, (hiff _ he).mpr (.inl (by decide))⟩

/-- A bill of zero: the original returns zero, the redelivery the twenty cents
that were authorized. -/
theorem same_results_zero_bill :
    ∃ tr s g, Runs {} (.start dollarRows) tr s ∧ (∀ t ∈ tr, recording {} 5 t = true) ∧
      s.redis.gen.get 5 = some g ∧ g.status = .done ∧ g.providerBilledCostUsd = some (.finite ⟨0, 0⟩) ∧
      ¬ SameResults tr 5 g := by
  obtain ⟨tr, s, hr, h⟩ := Runs.of_schedule {} (.start dollarRows) (billedTwice ⟨0, 0⟩)
    (fun tr s => tr.all (recording {} 5) && decide (s.redis.billOf 5 = some ⟨0, 0⟩) &&
      decide ((s.procs 0).answered = some (premium 1 5, .ok ⟨5, "ok", ⟨0, -6⟩⟩)) &&
      decide ((s.procs 1).answered = some (premium 1 5, .ok ⟨5, "ok", ⟨200000, -6⟩⟩))) (by decide +kernel)
  simp only [Bool.and_eq_true, List.all_eq_true, decide_eq_true_eq] at h
  obtain ⟨⟨⟨hl, hb⟩, h0⟩, h1⟩ := h
  obtain ⟨g, hg, hd, hbill⟩ := Redis.billOf_some hb
  refine ⟨tr, s, g, hr, hl, hg, hd, hbill, fun hsame => ?_⟩
  have hequal := hsame.equal 0 1 _ _ _ _ rfl rfl (.of_end hr (Proc.answered_some h0)) (.of_end hr (Proc.answered_some h1))
  exact absurd hequal.billed (by decide)

end GenerationBalance
