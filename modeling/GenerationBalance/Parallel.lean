/-
Many calls on one balance. While a user is given nothing, the balance only falls; so a
denial is final, but for a free model that the last paid money had priced out. And
where every reservation takes the same of one amount, the calls that are not denied are
as many as the amount pays for, in every interleaving.
-/
import GenerationBalance.Denials
import GenerationBalance.Durable
import GenerationBalance.Monotonicity
import Mathlib.Algebra.BigOperators.Group.Finset.Piecewise

namespace GenerationBalance

open Transition

/-! ## A balance that only falls -/

/-- What a request gives back of an amount of a user. -/
def Ran.gives (u : UserId) (f : Field) : Ran → ℤ
  | ⟨_, _, .topUp a, .topUp .ok⟩ => if a.userId = u then a.amount f else 0
  | ⟨_, _, .refund a, .refund .ok⟩ => if a.userId = u then a.plan.field f else 0
  | ⟨_, _, .settle a, .settle .ok⟩ => if a.userId = u then a.refund f else 0
  | _ => 0

/-- In a transition the user is given nothing of an amount. -/
def frugal (cfg : Config) (u : UserId) (f : Field) (t : Trans System Label) : Bool :=
  (ran cfg t).all fun x => x.gives u f = 0

theorem frugal_gives {cfg : Config} {u : UserId} {f : Field} {t : Trans System Label} {x : Ran}
    (h : frugal cfg u f t = true) (hx : ran cfg t = some x) : x.gives u f = 0 := by
  unfold frugal at h
  rw [hx] at h
  simpa using h

/-- Only a reservation moves what is given nothing. -/
theorem Moves.falls {x : Ran} {u : UserId} {δ : Field → ℤ} {f : Field} (h : Moves x.call x.reply u δ)
    (hx : x.gives u f = 0) :
    (∃ a n, x.call = .reserve a ∧ x.reply = .reserve (.ok n) ∧ a.userId = u ∧ ∀ f, δ f = -a.plan.field f) ∨
      δ f = 0 := by
  obtain ⟨p, st, c, r⟩ := x
  cases h with
  | reserve => exact .inl ⟨_, _, rfl, rfl, rfl, fun _ => rfl⟩
  | settle | refund | topUp => exact .inr (by simpa [Ran.gives] using hx)

section Step

variable {cfg : Config} {s s' : System} {l : Label} {u : UserId} {f : Field}

/-- **The balance falls** in a step that gives nothing. -/
theorem StepCase.falls (h : StepCase cfg s l s') (hh : healthy cfg ⟨s, l, s'⟩ = true) (hf : f.IsAmount)
    (hg : frugal cfg u f ⟨s, l, s'⟩ = true) {b : Balance} (hb : s.redis.bal.get u = some b) :
    ∃ c, s'.redis.bal.get u = some c ∧ c.get f ≤ b.get f := by
  obtain ⟨hk, hi⟩ := healthy_keeps hh
  cases h.store with
  | same _ he => exact ⟨b, by rw [he, hb], le_refl _⟩
  | expired _ he => exact ⟨b, by rw [he.bal hk, hb], le_refl _⟩
  | @ran x pick hx hheld ha he =>
    have other : ∀ {w : UserId} {new : Balance}, s'.redis.bal = s.redis.bal.set w new → u ≠ w →
        ∃ c, s'.redis.bal.get u = some c ∧ c.get f ≤ b.get f := by
      intro w new hset hne
      exact ⟨b, by rw [hset, Table.get_set_of_ne _ _ hne, hb], le_refl _⟩
    cases (callOk_of_ran hx hi he).balChange with
    | same hbal => exact ⟨b, by rw [hbal, hb], le_refl _⟩
    | seeded hc hn hset =>
      refine other hset ?_
      intro hu
      rw [← hu, hb] at hn
      cases hn
    | @advanced w c n hc hr ho hset =>
      by_cases hu : u = w
      · subst hu
        rw [hb] at ho
        cases ho
        refine ⟨b.withVersion n, by rw [hset, Table.get_set_self], ?_⟩
        cases f <;> first | exact le_refl _ | exact absurd rfl hf
      · exact other hset hu
    | @moved w old new δ hm ho hsum hset =>
      by_cases hu : u = w
      · subst hu
        rw [hb] at ho
        cases ho
        refine ⟨new, by rw [hset, Table.get_set_self], ?_⟩
        rw [hsum, if_neg hf]
        rcases hm.falls (frugal_gives hg hx) with ⟨a, n, hcall, -, -, hδ⟩ | hδ
        · rw [hδ f]
          have hsend := Proc.sends ha
          rw [hcall] at hsend
          obtain ⟨v, -, rfl⟩ := hsend.of_reserve
          have hv : 0 ≤ v.args.plan.field f := v.sound.nonneg f
          omega
        · omega
      · exact other hset hu

end Step

section Run

variable {cfg : Config} {pg : Rows} {tr : List (Trans System Label)} {s : System} {u : UserId} {f : Field}

/-- **The balance falls** along a run that gives nothing. -/
theorem Runs.fallen {s₀ : System} (hr : Runs cfg s₀ tr s) (hh : ∀ t ∈ tr, healthy cfg t = true) (hf : f.IsAmount)
    (hg : ∀ t ∈ tr, frugal cfg u f t = true) {t : Trans System Label} (ht : t ∈ tr) {b : Balance}
    (hb : t.pre.redis.bal.get u = some b) : ∃ c, s.redis.bal.get u = some c ∧ c.get f ≤ b.get f := by
  refine hr.invariant_history (I := fun tr s => ∀ t ∈ tr, ∀ b, t.pre.redis.bal.get u = some b →
      ∃ c, s.redis.bal.get u = some c ∧ c.get f ≤ b.get f)
    (P := fun t => healthy cfg t = true ∧ frugal cfg u f t = true) (fun t ht => ⟨hh t ht, hg t ht⟩) ?_ ?_ t ht b hb
  · intro t ht
    cases ht
  · intro tr s l s' _ _ hs hstep hp t ht b hb
    have hcase := step_cases hstep
    rcases List.mem_cons.mp ht with rfl | ht
    · exact hcase.falls hp.1 hf hp.2 hb
    · obtain ⟨c, hc, hle⟩ := hs t ht b hb
      obtain ⟨d, hd, hle'⟩ := hcase.falls hp.1 hf hp.2 hc
      exact ⟨d, hd, hle'.trans hle⟩

/-- What a denied call saw was not less than what is left. -/
theorem Runs.denied_saw (hr : Runs cfg (.start pg) tr s) (hh : ∀ t ∈ tr, healthy cfg t = true) {p : ℕ}
    {request : GenerationRequest} {e : Exn} (hend : s.procs p = .gen request (.ended (.error e)))
    (he : e.isAccess = true) :
    ∃ b, authorize MODELS request (snapshotFromHash b).toBalanceView = .error e ∧
      ∀ f : Field, f.IsAmount → (∀ t ∈ tr, frugal cfg request.userId f t = true) →
        ∃ c, s.redis.bal.get request.userId = some c ∧ c.get f ≤ b.get f := by
  obtain ⟨newer, t, older, rfl, -, -, b, ⟨t', ht', -, hb⟩, hauth⟩ := (Runs.watched hr p).ended request e hend he
  exact ⟨b, hauth, fun f hf hg =>
    Runs.fallen hr hh hf hg (List.mem_append_right _ (List.mem_cons_of_mem _ ht')) hb⟩

end Run

/-! ## A denial is final -/

/-- A denial of the policy comes after the check of the balance. -/
theorem authorize_access {request : GenerationRequest} {b : Balance} {e : Exn}
    (h : authorize MODELS request (snapshotFromHash b).toBalanceView = .error e) (he : e.isAccess = true) :
    ∃ n, microModels request.modelName = some n ∧ Known microModels request n b.view ∧
      authorize microModels request b.view = .error e := by
  have hrel := authorize_micros models_micros (microView_snapshot b) request
  rw [h] at hrel
  generalize hm : authorize microModels request b.view = r at hrel
  cases hrel with
  | error =>
    have hname := models_micros request.modelName
    unfold authorize at hm
    cases hn : microModels request.modelName with
    | none =>
      rw [hn] at hm
      cases hm
      cases he
    | some n =>
      rw [hn] at hm hname
      generalize MODELS request.modelName = model at hname
      cases hname with
      | some hmn =>
        cases hval : validateBalance b.view with
        | error e' =>
          rw [hval] at hm
          cases hm
          unfold validateBalance at hval
          split at hval
          · cases hval
            cases he
          · cases hval
        | ok _ =>
          obtain ⟨hpos, hreq⟩ := validateBalance_ok hval
          exact ⟨n, rfl, ⟨hn, hmn.free.pos, hmn.paid.pos, hpos, hreq⟩, rfl⟩

/-- The plan of a reservation is what the policy takes of the snapshot in micro-dollars. -/
theorem Reservation.micros (v : Reservation) :
    ∃ m, authorize microModels v.request v.snapshot.view = .ok m ∧ v.plan = m.debitPlan := by
  obtain ⟨m, hauth, hm, hch, -⟩ := authorize_sound models_micros (microView_snapshot v.snapshot) v.authorized
  have hargs : planArgs v.authorization.debitPlan = .ok m.debitPlan := hm.plan.planArgs (hch.fits hm.cost.fits)
  exact ⟨m, hauth, Except.ok.inj (v.planned.symm.trans hargs)⟩

theorem microModels_cases {name : String} {n : GenerationModel ℤ} (h : microModels name = some n) :
    n = ⟨"basic", .free, 50000, 80000⟩ ∨ n = ⟨"premium", .paidOnly, 200000, 200000⟩ ∨
      n = ⟨"conditional", .conditionalFree, 70000, 120000⟩ := by
  unfold microModels MODELS at h
  split at h
  · cases h; exact .inl rfl
  · cases h; exact .inr (.inl rfl)
  · cases h; exact .inr (.inr rfl)
  · cases h

/-- A reservation on a balance with little paid money that is too small for the free model's higher
price leaves less than its lower price. -/
theorem Reservation.leaves_little (v : Reservation) (hpaid : 0 < v.snapshot.paidUsd)
    (hshort : v.snapshot.freeUsd + v.snapshot.bonusUsd + v.snapshot.paidUsd < 80000) :
    v.snapshot.freeUsd + v.snapshot.bonusUsd + v.snapshot.paidUsd < v.plan.totalUsd + 50000 := by
  obtain ⟨m, hauth, hplan⟩ := v.micros
  have hok := authorize_ok hauth
  obtain ⟨consumes, hterms, -, hbuilt⟩ := hok.plan
  obtain ⟨hpos, -⟩ := validateBalance_ok hok.valid
  have hcost : 0 < m.estimatedCostUsd ∧ 70000 ≤ m.estimatedCostUsd := by
    have hp : 0 < v.snapshot.view.paidUsd := hpaid
    rcases microModels_cases hok.model with hn | hn | hn <;> rw [hn] at hterms
    · simp only [debitTerms, hp, decide_true, if_true, Except.ok.injEq, Prod.mk.injEq] at hterms
      omega
    · simp only [debitTerms, Except.ok.injEq, Prod.mk.injEq] at hterms
      omega
    · simp only [debitTerms] at hterms
      split at hterms
      · simp only [Except.ok.injEq, Prod.mk.injEq] at hterms
        omega
      · split at hterms
        · simp only [Except.ok.injEq, Prod.mk.injEq] at hterms
          omega
        · cases hterms
  have htotal := (buildPlan_spec hpos hcost.1.le hbuilt).1.total
  rw [hplan, htotal]
  omega

/-- **A reservation does not allow what was not allowed.** -/
theorem reservation_denies (v : Reservation) {request : GenerationRequest} {n : GenerationModel ℤ} {d : Balance}
    (hn : microModels request.modelName = some n)
    (hd : ∀ f : Field, f.IsAmount → d.get f = v.snapshot.get f - v.plan.field f)
    (hno : ¬ Allowed n request v.snapshot.view) : ¬ Allowed n request d.view := by
  intro hyes
  have hsound := v.sound
  have hle : ∀ f : Field, f.IsAmount → 0 ≤ d.get f ∧ d.get f ≤ v.snapshot.get f := by
    intro f hf
    have h1 := hd f hf
    have h2 := hsound.nonneg f
    have h3 := hsound.within f hf
    omega
  have hfree := hle .freeUsd fun h => by cases h
  have hbonus := hle .bonusUsd fun h => by cases h
  have hpaid := hle .paidUsd fun h => by cases h
  have hreq := hle .freeRequests fun h => by cases h
  have hwithin : d.view.Within v.snapshot.view := by
    refine ⟨fun k => ?_, hreq.2⟩
    cases k with
    | free => exact hfree.2
    | bonus => exact hbonus.2
    | paid => exact hpaid.2
  have hpriced : PricedOut id n d.view v.snapshot.view := by
    by_contra hnot
    exact hno ((allowed_mono hpaid.1 hwithin hyes).mpr hnot)
  rcases microModels_cases hn with rfl | rfl | rfl
  · have hlittle := v.leaves_little hpriced.paid hpriced.short
    have hzero : ¬ 0 < d.view.paidUsd := by rw [show d.view.paidUsd = 0 from hpriced.unpaid]; exact lt_irrefl _
    simp only [Allowed, if_neg hzero] at hyes
    have htotal : 50000 ≤ d.freeUsd + d.bonusUsd + d.paidUsd := hyes.2
    have h1 : d.freeUsd = v.snapshot.freeUsd - v.plan.freeUsd := hd .freeUsd fun h => by cases h
    have h2 : d.bonusUsd = v.snapshot.bonusUsd - v.plan.bonusUsd := hd .bonusUsd fun h => by cases h
    have h3 : d.paidUsd = v.snapshot.paidUsd - v.plan.paidUsd := hd .paidUsd fun h => by cases h
    unfold DebitPlan.totalUsd at hlittle
    omega
  · cases hpriced.free
  · cases hpriced.free

/-- What the policy denies of the balance that is stored. -/
def Redis.Denies (ρ : Redis) (request : GenerationRequest) (n : GenerationModel ℤ) : Prop :=
  ∃ d, ρ.bal.get request.userId = some d ∧ ¬ Allowed n request d.view

section Final

variable {cfg : Config} {pg : Rows} {tr : List (Trans System Label)} {s s' : System} {l : Label}
  {request : GenerationRequest} {n : GenerationModel ℤ}

theorem StepCase.denies (h : StepCase cfg s l s') (hc : s.Current) (hh : healthy cfg ⟨s, l, s'⟩ = true)
    (hg : ∀ f : Field, f.IsAmount → frugal cfg request.userId f ⟨s, l, s'⟩ = true)
    (hn : microModels request.modelName = some n) (hs : s.redis.Denies request n) : s'.redis.Denies request n := by
  obtain ⟨d, hd, hno⟩ := hs
  obtain ⟨hk, hi⟩ := healthy_keeps hh
  have alike : ∀ {d' : Balance}, (∀ f : Field, f.IsAmount → d'.get f = d.get f) → ¬ Allowed n request d'.view := by
    intro d' he
    have hview : d'.view = d.view := by
      have h1 : d'.freeUsd = d.freeUsd := he .freeUsd fun h => by cases h
      have h2 : d'.bonusUsd = d.bonusUsd := he .bonusUsd fun h => by cases h
      have h3 : d'.paidUsd = d.paidUsd := he .paidUsd fun h => by cases h
      have h4 : d'.freeRequests = d.freeRequests := he .freeRequests fun h => by cases h
      simp only [Balance.view, h1, h2, h3, h4]
    rw [hview]
    exact hno
  cases h.store with
  | same _ he => exact ⟨d, by rw [he, hd], hno⟩
  | expired _ he => exact ⟨d, by rw [he.bal hk, hd], hno⟩
  | @ran x pick hx hheld ha he =>
    have other : ∀ {w : UserId} {new : Balance}, s'.redis.bal = s.redis.bal.set w new → request.userId ≠ w →
        s'.redis.Denies request n := by
      intro w new hset hne
      exact ⟨d, by rw [hset, Table.get_set_of_ne _ _ hne, hd], hno⟩
    cases (callOk_of_ran hx hi he).balChange with
    | same hbal => exact ⟨d, by rw [hbal, hd], hno⟩
    | seeded hc hnone hset =>
      refine other hset ?_
      intro hu
      rw [← hu, hd] at hnone
      cases hnone
    | @advanced w c v hc hr ho hset =>
      by_cases hu : request.userId = w
      · subst hu
        rw [hd] at ho
        cases ho
        refine ⟨d.withVersion v, by rw [hset, Table.get_set_self], alike fun f hf => ?_⟩
        cases f <;> first | rfl | exact absurd rfl hf
      · exact other hset hu
    | @moved w old new δ hm ho hsum hset =>
      by_cases hu : request.userId = w
      · subst hu
        rw [hd] at ho
        cases ho
        refine ⟨new, by rw [hset, Table.get_set_self], ?_⟩
        by_cases hall : ∀ f : Field, f.IsAmount → δ f = 0
        · exact alike fun f hf => by rw [hsum, hall f hf, if_neg hf, add_zero, add_zero]
        · -- Then it is a reservation, made on this very balance.
          obtain ⟨f, hf⟩ := not_forall.mp hall
          obtain ⟨hf, hne⟩ := Classical.not_imp.mp hf
          obtain ⟨a, m, hcall, hreply, huser, hδ⟩ := (hm.falls (frugal_gives (hg f hf) hx)).resolve_right hne
          obtain ⟨v, b, -, hsent, hsnap, -, -⟩ := hc.snapshot h hx hreply
          rw [hcall] at hsent
          cases hsent
          rw [show v.request.userId = request.userId from huser, hd] at hsnap
          cases hsnap
          refine reservation_denies v hn (fun f hf => ?_) hno
          have hp : v.args.plan.field f = v.plan.field f := rfl
          have hnew := hsum f
          rw [if_neg hf, hδ f, hp] at hnew
          omega
      · exact other hset hu

/-- What the policy denies it denies ever after, along a run that gives nothing. -/
theorem Runs.denies {s₀ : System} (hr : Runs cfg s₀ tr s) (hc : s₀.Current) (hh : ∀ t ∈ tr, healthy cfg t = true)
    (hg : ∀ t ∈ tr, ∀ f : Field, f.IsAmount → frugal cfg request.userId f t = true)
    (hn : microModels request.modelName = some n) (hs : s₀.redis.Denies request n) :
    s.Current ∧ s.redis.Denies request n := by
  refine hr.invariant (I := fun s => s.Current ∧ s.redis.Denies request n)
    (P := fun t => healthy cfg t = true ∧ ∀ f : Field, f.IsAmount → frugal cfg request.userId f t = true)
    (fun t ht => ⟨hh t ht, hg t ht⟩) ⟨hc, hs⟩ fun h hstep hp => ?_
  have hcase := step_cases hstep
  exact ⟨hcase.current h.1 hp.1, hcase.denies h.1 hp.1 hp.2 hn h.2⟩

/-- **A denial is final.** A call that the policy denied was denied on a balance that Redis held
while the call was reserving. As long as the user has been given nothing since, `authorize` denies
the request on the user's balance, whatever the others reserve. No balance key is ever dropped and
all sums are in range: `RESERVE` tells a balance by its version. -/
theorem denial_final (hr : Runs cfg (.start pg) tr s) (hh : ∀ t ∈ tr, healthy cfg t = true) {p k : ℕ} {e : Exn}
    (hden : s.procs p = .gen request (.denied e k)) :
    ∃ newer t older b, tr = newer ++ t :: older ∧ (t.pre.procs p).inReserve = true ∧
      t.pre.redis.bal.get request.userId = some b ∧
      authorize MODELS request (snapshotFromHash b).toBalanceView = .error e ∧
      ∀ later s', Runs cfg s later s' → (∀ t' ∈ later, healthy cfg t' = true) →
        (∀ t' ∈ later ++ newer ++ [t], ∀ f : Field, f.IsAmount → frugal cfg request.userId f t' = true) →
        ∃ d, s'.redis.bal.get request.userId = some d ∧
          ¬ ∃ a, authorize MODELS request (snapshotFromHash d).toBalanceView = .ok a := by
  obtain ⟨b, ⟨t, ht, hin, hb⟩, hauth⟩ := (Runs.watched hr p).denied request e k hden
  have he : e.isAccess = true := ((Runs.plain hr).1 p _ (.inl rfl)).denial e (by rw [hden]; rfl)
  obtain ⟨n, hn, hknown, hm⟩ := authorize_access hauth he
  have hno : ¬ Allowed n request b.view := by
    intro hyes
    obtain ⟨a, ha⟩ := hknown.isOk_iff.mpr hyes
    cases hm.symm.trans ha
  obtain ⟨newer, older, rfl, hpre, hstep, hpost⟩ := hr.split ht
  refine ⟨newer, t, older, b, rfl, hin, hb, hauth, fun later s' hlater hhealthy hgiven => ?_⟩
  have hcur : t.pre.Current := Runs.current hpre fun t' ht' => hh t' (by simp [ht'])
  have hcase := step_cases hstep
  have hfirst : t.post.redis.Denies request n := hcase.denies hcur (hh t ht) (hgiven t (by simp)) hn ⟨b, hb, hno⟩
  obtain ⟨hcur', hnow⟩ := Runs.denies hpost (hcase.current hcur (hh t ht)) (fun t' ht' => hh t' (by simp [ht']))
    (fun t' ht' => hgiven t' (by simp [ht'])) hn hfirst
  obtain ⟨-, d, hd, hno⟩ := Runs.denies hlater hcur' hhealthy (fun t' ht' => hgiven t' (by simp [ht'])) hn hnow
  refine ⟨d, hd, fun hok => hno ?_⟩
  obtain ⟨m, hm⟩ := (authorize_micros_isOk models_micros (microView_snapshot d)).mp hok
  obtain ⟨hpos, hreq⟩ := validateBalance_ok (authorize_ok hm).valid
  have hd : Known microModels request n d.view := ⟨hn, hknown.free, hknown.paid, hpos, hreq⟩
  exact hd.isOk_iff.mp ⟨m, hm⟩

end Final

/-- User 1 has half a dollar. -/
def halfDollarRows : Rows := Table.empty.set 1 { oneDollar with paidUsd := 500000, inRange := by decide }

/-- Three calls see the half dollar; two of them reserve, the third is denied. -/
def threeCalls : List Label :=
  [.spawn 0 (.gen (premium 1 5)), .spawn 1 (.gen (premium 1 6)), .spawn 2 (.gen (premium 1 7))] ++ coldLoad 0 ++
    [.exec 1 [] 0, .exec 2 [] 0, .exec 0 [] 0, .exec 1 [] 0, .exec 1 [] 0, .exec 2 [] 0, .exec 2 [] 0]

theorem halfDollarRows_nonneg {u : UserId} {b : Balance} (h : halfDollarRows.get u = some b) : b.Nonneg := by
  unfold halfDollarRows at h
  rw [Table.get_set] at h
  split at h
  · cases h
    intro f hf
    cases f <;> decide
  · cases h

theorem Proc.denial_some {st : Proc} {e : Exn} (h : st.denial = some e) : ∃ request k, st = .gen request (.denied e k) := by
  unfold Proc.denial at h
  split at h
  · cases h
    exact ⟨_, _, rfl⟩
  · cases h

/-- The third call is denied, and would be denied again when it ends. -/
theorem denial_final_three : ∃ tr s k, Runs {} (.start halfDollarRows) tr s ∧
    s.procs 2 = .gen (premium 1 7) (.denied .insufficientBalance k) ∧
    ∃ later s' d, Runs {} s later s' ∧ s'.procs 2 = .gen (premium 1 7) (.ended (.error .insufficientBalance)) ∧
      s'.redis.bal.get 1 = some d ∧
      ¬ ∃ a, authorize MODELS (premium 1 7) (snapshotFromHash d).toBalanceView = .ok a := by
  obtain ⟨tr, s', hr, hp⟩ := Runs.of_schedule {} (.start halfDollarRows) threeCalls
    (fun tr s => tr.all (healthy {}) && ((s.procs 2).refusal = some .insufficientBalance : Bool) &&
      ((s.procs 2).request = some (premium 1 7) : Bool) &&
      (tr.head?.any fun t => ((t.pre.procs 2).denial = some .insufficientBalance : Bool)) &&
      (tr.head?.any fun t => ((t.pre.procs 2).request = some (premium 1 7) : Bool)) &&
      tr.all fun t => frugal {} 1 .freeUsd t && frugal {} 1 .bonusUsd t && frugal {} 1 .paidUsd t &&
        frugal {} 1 .freeRequests t) (by decide +kernel)
  simp only [Bool.and_eq_true, List.all_eq_true, decide_eq_true_eq] at hp
  obtain ⟨⟨⟨⟨⟨hh, href⟩, hreq'⟩, hden⟩, hreq⟩, hg⟩ := hp
  obtain ⟨request, hend, -⟩ := Proc.refusal_some href
  rw [hend] at hreq'
  cases hreq'
  cases hr with
  | refl => cases hden
  | @step tr s l s' hr hstep =>
    rw [List.head?_cons, Option.any_some, decide_eq_true_eq] at hden hreq
    obtain ⟨request, k, hst⟩ := Proc.denial_some hden
    rw [hst] at hreq
    cases hreq
    have hgiven : ∀ t ∈ ⟨s, l, s'⟩ :: tr, ∀ f : Field, f.IsAmount → frugal {} 1 f t = true := by
      intro t ht f hf
      obtain ⟨⟨⟨h1, h2⟩, h3⟩, h4⟩ := hg t ht
      cases f with
      | version => exact absurd rfl hf
      | _ => assumption
    obtain ⟨newer, t, older, b, rfl, -, -, -, hfinal⟩ := denial_final hr (fun t ht => hh t (List.mem_cons_of_mem _ ht)) hst
    obtain ⟨d, hd, hno⟩ := hfinal [⟨s, l, s'⟩] s' (.step .refl hstep)
      (fun t ht => hh t (List.mem_cons.mpr (.inl (List.mem_singleton.mp ht)))) fun t ht => hgiven t (by
        simp only [List.mem_append, List.mem_cons, List.not_mem_nil, or_false] at ht ⊢
        tauto)
    exact ⟨_, s, k, hr, hst, _, s', d, .step .refl hstep, hend, hd, hno⟩

/-! ## As many as the amount pays for -/

/-- The records of a user. -/
def Redis.records (ρ : Redis) (u : UserId) : Finset RequestId :=
  ρ.gen.keys.filter fun id => (ρ.gen.get id).any (·.userId = u)

/-- The denial says that less than `c` of the amount is left. -/
inductive Scarce (request : GenerationRequest) : Exn → Field → ℤ → Prop
  | premium {e} : request.modelName = "premium" → e.isAccess = true → Scarce request e .paidUsd 200000
  | free : Scarce request .freeRequestsExhausted .freeRequests 1

theorem Scarce.isAccess {request : GenerationRequest} {e : Exn} {f : Field} {c : ℤ} (h : Scarce request e f c) :
    e.isAccess = true := by
  cases h with
  | premium _ he => exact he
  | free => rfl

theorem Scarce.short {request : GenerationRequest} {e : Exn} {f : Field} {c : ℤ} (h : Scarce request e f c)
    {b : Balance} (ha : authorize MODELS request (snapshotFromHash b).toBalanceView = .error e) : b.get f < c := by
  obtain ⟨n, hn, hknown, hm⟩ := authorize_access ha h.isAccess
  cases h with
  | premium hname _ =>
    rw [hname] at hn
    cases hn
    by_contra hle
    have hallowed : Allowed ⟨"premium", .paidOnly, 200000, 200000⟩ request b.view := not_lt.mp hle
    obtain ⟨a, ha'⟩ := hknown.isOk_iff.mpr hallowed
    cases hm.symm.trans ha'
  | free =>
    have hcase := authorize_case hn (validateBalance_nonneg hknown.nonneg hknown.requests)
    rw [hm] at hcase
    generalize hexn : (Except.error Exn.freeRequestsExhausted : Except Exn (Authorization ℤ)) = r at hcase
    cases hcase with
    | exhausted _ hnone => exact Int.lt_add_one_of_le hnone
    | denied ht =>
      cases hexn
      cases ((debitTerms_error hknown.paid).mp ht).1
    | insufficient => cases hexn
    | ok => cases hexn

section Count

variable {cfg : Config} {pg : Rows} {tr : List (Trans System Label)} {s : System} {u : UserId} {f : Field} {c : ℤ}

theorem frugal_of_settled {id : RequestId} {a : SettleArgs} (hg : ∀ t ∈ tr, frugal cfg u f t = true)
    (h : settleOf cfg tr id = some a) (hu : a.userId = u) : a.refund f = 0 := by
  obtain ⟨t, ht, hx⟩ := latest_mem h
  obtain ⟨x, hran, hset⟩ := Option.bind_eq_some_iff.mp hx
  have hgive := frugal_gives (hg t ht) hran
  unfold Ran.settled at hset
  split at hset
  · cases hset
    simpa [Ran.gives, hu] using hgive
  · cases hset

theorem frugal_of_toppedUp {o : OperationId} {a : TopUpArgs} (hg : ∀ t ∈ tr, frugal cfg u f t = true)
    (h : topUpOf cfg tr o = some a) (hu : a.userId = u) : a.amount f = 0 := by
  obtain ⟨t, ht, hx⟩ := latest_mem h
  obtain ⟨x, hran, htop⟩ := Option.bind_eq_some_iff.mp hx
  have hgive := frugal_gives (hg t ht) hran
  unfold Ran.toppedUp at htop
  split at htop
  · cases htop
    simpa [Ran.gives, hu] using hgive
  · cases htop

/-- No record of a user who is given nothing has failed with a plan that took something. -/
theorem Runs.unfailed (hr : Runs cfg (.start pg) tr s) (hl : ∀ t ∈ tr, lasting cfg t = true)
    (hg : ∀ t ∈ tr, frugal cfg u f t = true) {id : RequestId} {g : GenerationHash}
    (hget : s.redis.gen.get id = some g) (hu : g.userId = u) (hf : g.plan.field f ≠ 0) : g.status ≠ .failed := by
  refine hr.invariant_history (I := fun _ s => ∀ id g, s.redis.gen.get id = some g → g.userId = u →
      g.plan.field f ≠ 0 → g.status ≠ .failed) (P := fun t => lasting cfg t = true ∧ frugal cfg u f t = true)
    (fun t ht => ⟨hl t ht, hg t ht⟩) ?_ ?_ id g hget hu hf
  · intro id g hget
    cases hget
  · intro tr s l s' hrun hall hs hstep hp id g hget hu hf hfail
    have hcase := step_cases hstep
    have hkept := Runs.kept hrun fun t ht => Recording.of_lasting (hall t ht).1
    have hrec := Recording.of_lasting hp.1
    rcases hcase.gen_origin hrec.inRange hget with ⟨g₀, hg₀, hgs⟩ | ⟨q, st, w, -, -, -, rfl⟩
    · have hsame := hgs.sameReservation
      by_cases hrun₀ : g₀.status = .running
      · cases hcase.store with
        | same _ he =>
          rw [he, hg₀] at hget
          cases hget
          cases hrun₀.symm.trans hfail
        | expired _ he =>
          rw [he.gen_get (hrec.keeps id trivial), hg₀] at hget
          cases hget
          cases hrun₀.symm.trans hfail
        | @ran x pick hx hheld ha he =>
          have stays : s'.redis.gen.get id = s.redis.gen.get id → False := fun heq => by
            rw [heq, hg₀] at hget
            cases hget
            cases hrun₀.symm.trans hfail
          cases (callOk_of_ran hx hrec.inRange he).genChange with
          | same hgen => exact stays (by rw [hgen])
          | created hc hrep hn hset =>
            refine stays ?_
            rw [hset, Table.get_set_of_ne]
            intro he
            rw [← he, hg₀] at hn
            cases hn
          | settled hc hrep hn hr' hset =>
            rw [hset, Table.get_set] at hget
            split at hget
            · cases hget
              cases hfail
            · exact stays (by rw [hset, Table.get_set_of_ne _ _ ‹_›])
          | @refunded a r hc hrep hn hr' hset =>
            by_cases hid : id = a.clientRequestId
            · have hsend := Proc.sends ha
              rw [hc] at hsend
              obtain ⟨g₁, hg₁, hplan, huser⟩ := hkept.refund _ _ a hheld hsend.of_refund trivial
              rw [← hid, hg₀] at hg₁
              cases hg₁
              have hgive := frugal_gives hp.2 hx
              obtain ⟨q, st, call, reply⟩ := x
              cases hc
              cases hrep
              refine hf ?_
              rw [← hsame.2.2.2.1, ← hplan]
              simpa [Ran.gives, huser, hsame.1, hu] using hgive
            · exact stays (by rw [hset, Table.get_set_of_ne _ _ hid])
      · obtain rfl := hgs.resolved hrun₀
        exact hs id g hg₀ hu hf hfail
    · cases hfail

/-- **The ledger of equal plans**: what is left, and so much for each record. -/
theorem Runs.counted (hr : Runs cfg (.start pg) tr s) (hl : ∀ t ∈ tr, lasting cfg t = true) (hf : f.IsAmount)
    (hg : ∀ t ∈ tr, frugal cfg u f t = true) (hc : 0 < c)
    (hplan : ∀ id g, s.redis.gen.get id = some g → g.userId = u → g.plan.field f = c) :
    s.redis.hot u f + (s.redis.records u).card * c = (seedOf cfg tr u).elim 0 (·.get f) := by
  have hledger := Runs.ledger hr hl
  have hbal := hledger.balanced u f hf
  unfold Balanced at hbal
  have htops : s.redis.topup.sum (credited (topUpOf cfg tr) u f) = 0 := by
    refine Table.sum_eq_zero fun o w ho => ?_
    unfold credited
    split
    · next hw =>
      have hmark := hledger.marked o
      rw [ho] at hmark
      obtain ⟨a, ha, hu⟩ := Option.map_eq_some_iff.mp hmark.symm
      rw [ha]
      exact frugal_of_toppedUp hg ha (hu.trans hw)
    · rfl
  have htaken : s.redis.gen.sum (taken (settleOf cfg tr) u f) = (s.redis.records u).card * c := by
    rw [Redis.records, ← nsmul_eq_mul, ← Finset.sum_const, Finset.sum_filter, Table.sum]
    refine Finset.sum_congr rfl fun id _ => ?_
    cases hget : s.redis.gen.get id with
    | none => simp
    | some g =>
      by_cases hu : g.userId = u
      · have hpl := hplan id g hget hu
        have hfail := Runs.unfailed hr hl hg hget hu (by rw [hpl]; exact hc.ne')
        simp only [Option.elim_some, Option.any_some, hu, decide_true, if_true]
        cases hs : g.status with
        | failed => exact absurd hs hfail
        | running => rw [taken_running hs, if_pos hu, hpl]
        | done =>
          obtain ⟨S, hS, -, hof, -⟩ := hledger.done id g hget hs
          obtain ⟨n, hsound⟩ := S.sound
          have hz := frugal_of_settled hg hS ((hsound.userId.trans hof.userId.symm).trans hu)
          rw [taken_done hs hS, if_pos hu, hpl, hz, sub_zero]
      · simp [taken, hu]
  rw [htops, htaken, add_zero] at hbal
  exact hbal

/-- **Exactly as many as the amount pays for.** From rows that are not negative, as long as no record
and no balance key is lost and all sums are in range: where a user is given nothing of an amount and
every reservation takes `c` of it, the reservations are never more than the user's row paid for; and
when a call has been denied for want of it, they are exactly as many. -/
theorem exactly_k (hr : Runs cfg (.start pg) tr s) (hl : ∀ t ∈ tr, lasting cfg t = true)
    (hpg : ∀ u b, pg.get u = some b → b.Nonneg) (hf : f.IsAmount) (hg : ∀ t ∈ tr, frugal cfg u f t = true) (hc : 0 < c)
    (hplan : ∀ id g, s.redis.gen.get id = some g → g.userId = u → g.plan.field f = c) :
    (s.redis.records u).card * c ≤ (pg.copy u).get f ∧
      ∀ p request e, s.procs p = .gen request (.ended (.error e)) → request.userId = u → Scarce request e f c →
        (s.redis.records u).card = (pg.copy u).get f / c := by
  have hh : ∀ t ∈ tr, healthy cfg t = true := fun t ht => healthy_of_lasting (hl t ht)
  have hcount := Runs.counted hr hl hf hg hc hplan
  have hnonneg : 0 ≤ (pg.copy u).get f := by
    unfold Rows.copy
    cases hb : pg.get u with
    | none => cases f <;> exact le_refl _
    | some b => exact hpg u b hb f hf
  have hseed : (seedOf cfg tr u).elim 0 (·.get f) ≤ (pg.copy u).get f := by
    cases hb : seedOf cfg tr u with
    | none => exact hnonneg
    | some b => exact le_of_eq (by rw [(Runs.loaded hr hh).seeded u b hb]; rfl)
  have hhot : 0 ≤ s.redis.hot u f := by
    cases hb : s.redis.bal.get u with
    | none => simp [Redis.hot, hb]
    | some b =>
      rw [Redis.hot_of_get hb]
      exact (Runs.above hr hh (fun _ => le_refl 0) hpg).bal u b hb f hf
  refine ⟨by omega, fun p request e hend hu hscarce => ?_⟩
  obtain ⟨b, hauth, hfall⟩ := Runs.denied_saw hr hh hend hscarce.isAccess
  obtain ⟨d, hd, hle⟩ := hfall f hf (hu ▸ hg)
  rw [hu] at hd
  have hshort := hscarce.short hauth
  have hloaded : (seedOf cfg tr u).isSome := by
    rw [← (Runs.ledger hr hl).seeded u, hd]
    rfl
  obtain ⟨b', hb'⟩ := Option.isSome_iff_exists.mp hloaded
  rw [hb', Option.elim_some, (Runs.loaded hr hh).seeded u b' hb', Redis.hot_of_get hd] at hcount
  rw [Redis.hot_of_get hd] at hhot
  rw [← hcount]
  have hlt : d.get f < c := by omega
  rw [Int.add_mul_ediv_right _ _ hc.ne', Int.ediv_eq_zero_of_lt hhot hlt, zero_add]

end Count

/-- Half a dollar pays for two premium generations. -/
theorem exactly_k_three : ∃ tr s request, Runs {} (.start halfDollarRows) tr s ∧
    s.procs 2 = .gen request (.ended (.error .insufficientBalance)) ∧
    ((s.redis.records 1).card : ℤ) = 500000 / 200000 := by
  obtain ⟨tr, s, hr, hp⟩ := Runs.of_schedule {} (.start halfDollarRows) threeCalls
    (fun tr s => tr.all (lasting {}) && ((s.procs 2).refusal = some .insufficientBalance : Bool) &&
      ((s.procs 2).request = some (premium 1 7) : Bool) && tr.all (frugal {} 1 .paidUsd) &&
      decide (∀ id ∈ s.redis.gen.keys, (s.redis.gen.get id).all fun g : GenerationHash =>
        decide (g.plan.paidUsd = 200000))) (by decide +kernel)
  simp only [Bool.and_eq_true, List.all_eq_true, decide_eq_true_eq] at hp
  obtain ⟨⟨⟨⟨hl, href⟩, hreq⟩, hg⟩, hplan⟩ := hp
  obtain ⟨request, hend, -⟩ := Proc.refusal_some href
  rw [hend] at hreq
  cases hreq
  have hk := (exactly_k (f := .paidUsd) (c := 200000) hr hl (fun _ _ => halfDollarRows_nonneg) (fun h => by cases h) hg
    (by decide) fun id g hget _ => by simpa [hget, DebitPlan.field] using hplan id (Table.mem_keys_of_get hget)).2
    2 _ _ hend rfl (.premium rfl rfl)
  exact ⟨tr, s, _, hr, hend, hk⟩

end GenerationBalance
