/-
Why `_reserve` gives up (`backend/app/billing/generation.py`): each of its rounds
ends in a conflict, a missing balance or a record that vanished, and so is charged
to a step of somebody else that fell into it. A call that used its rounds up was
disturbed at least that often.
-/
import GenerationBalance.Denials

namespace GenerationBalance

open Transition

def exhausted : Exn := .balanceContention "reservation retries exhausted"

/-- A request of the call `p` is executed for it. -/
def Label.runs (p : ℕ) : Label → Bool
  | .exec q _ _ => q = p
  | _ => false

/-- A step that is none of the call's own requests changed or took away the user's balance, or took
away the record of the request. -/
def disturbs (p : ℕ) (request : GenerationRequest) (t : Trans System Label) : Bool :=
  !t.label.runs p &&
    ((t.pre.redis.bal.get request.userId).isSome &&
        t.post.redis.bal.get request.userId ≠ t.pre.redis.bal.get request.userId ||
      (t.pre.redis.gen.get request.clientRequestId).isSome && (t.post.redis.gen.get request.clientRequestId).isNone)

/-- How often the call `p` was disturbed since it was spawned. -/
def disturbances (p : ℕ) (request : GenerationRequest) : List (Trans System Label) → ℕ
  | [] => 0
  | t :: tr =>
    match t.label with
    | .spawn q _ => if q = p then 0 else disturbances p request tr + (disturbs p request t).toNat
    | _ => disturbances p request tr + (disturbs p request t).toNat

/-! ## What the rounds are charged to -/

/-- A loader does not raise the exhaustion of the loop it is for. -/
def LoaderPc.Sober (l : LoaderPc) : Prop := ∀ t, l ≠ .release t (.raise exhausted)

/-- Of `N` rounds those that are over are charged to `n` disturbances, and the one that goes on is so too once what it
relies on is gone: the balance it made its plan on, or the record it waits for. -/
def Accounted (N n : ℕ) (request : GenerationRequest) (ρ : Redis) : GenPc → Prop
  | .loading k l =>
    N ≤ n + k ∧ (∀ b, l.held = some b → ρ.bal.get request.userId = some b ∨ N + 1 ≤ n + k) ∧ l.Sober
  | .reserving v _ k =>
    v.request = request ∧ N ≤ n + k + 1 ∧ (ρ.bal.get request.userId = some v.snapshot ∨ N ≤ n + k)
  | .denied e k => e ≠ exhausted ∧ N ≤ n + k + 1
  | .waiting k | .polling k => N ≤ n + k + 1 ∧ ((ρ.gen.get request.clientRequestId).isSome ∨ N ≤ n + k)
  | .settleLoading _ _ l => l.Sober
  | .refunding _ _ pc after => after ≠ exhausted ∧ ∀ l, pc.loader = some l → l.Sober
  | .ended r => r = .error exhausted → N ≤ n
  | .calling _ | .generating _ | .settling _ _ _ => True

section Loader

variable {fresh : Token} {l l' : LoaderPc} {i : Input}

theorem LoaderPc.Sober.run (h : l.Sober) (hr : l.resume fresh i = .run l') : l'.Sober := by
  intro t he
  subst he
  rcases LoaderPc.resume_exit hr with rfl | he | he
  · exact h t rfl
  · cases he
  · cases he

theorem LoaderPc.Sober.raise {e : Exn} (h : l.Sober) (hr : l.resume fresh i = .raise e) : e ≠ exhausted := by
  intro he
  subst he
  unfold LoaderPc.resume at hr
  split at hr
  any_goals cases hr
  · split at hr <;> cases hr
  · next t exit f =>
    cases exit <;> cases hr
    exact h t rfl
  · exact absurd (Next.raise.inj hr) (by decide)

theorem RefundPc.raise_sober {cfg : Config} {pc : RefundPc} {e : Exn} (h : ∀ l, pc.loader = some l → l.Sober)
    (hr : pc.resume cfg fresh i = .raise e) : e ≠ exhausted := by
  unfold RefundPc.resume at hr
  split at hr
  · split at hr <;> cases hr
  · cases hr
    nofun
  · unfold Config.retrying at hr
    split at hr <;> cases hr
    nofun
  · next _ k l =>
    cases hl : l.resume fresh i with
    | run l' =>
      rw [hl] at hr
      cases hr
    | ret b =>
      rw [hl] at hr
      cases k with
      | zero =>
        cases hr
        decide
      | succ k => cases hr
    | raise e' =>
      rw [hl] at hr
      cases hr
      exact (h l rfl).raise hl
  · cases hr

theorem LoaderPc.sober_load : LoaderPc.Sober .load := by simp [LoaderPc.Sober]

end Loader

section Rounds

variable {N n : ℕ} {request : GenerationRequest} {ρ ρ' : Redis} {fresh : Token} {now : ℚ}

/-- What others do is a disturbance, or leaves what the round relies on. -/
theorem Accounted.mono {n' : ℕ} {pc : GenPc} (h : Accounted N n request ρ pc) (hn : n ≤ n')
    (hbal : ∀ b, ρ.bal.get request.userId = some b → ρ'.bal.get request.userId = some b ∨ n + 1 ≤ n')
    (hgen : (ρ.gen.get request.clientRequestId).isSome →
      (ρ'.gen.get request.clientRequestId).isSome ∨ n + 1 ≤ n') : Accounted N n' request ρ' pc := by
  cases pc with
  | loading k l =>
    obtain ⟨hN, hheld, hl⟩ := h
    refine ⟨by omega, fun b hb => ?_, hl⟩
    rcases hheld b hb with h | h
    · rcases hbal b h with h | h
      · exact .inl h
      · exact .inr (by omega)
    · exact .inr (by omega)
  | reserving v a k =>
    obtain ⟨hv, hN, h⟩ := h
    refine ⟨hv, by omega, ?_⟩
    rcases h with h | h
    · rcases hbal _ h with h | h
      · exact .inl h
      · exact .inr (by omega)
    · exact .inr (by omega)
  | denied e k => exact ⟨h.1, by have := h.2; omega⟩
  | waiting k | polling k =>
    obtain ⟨hN, h⟩ := h
    refine ⟨by omega, ?_⟩
    rcases h with h | h
    · rcases hgen h with h | h
      · exact .inl h
      · exact .inr (by omega)
    · exact .inr (by omega)
  | ended r => exact fun hr => (h hr).trans hn
  | _ => exact h

/-- What the policy denies with is no contention. -/
theorem authorize_no_contention {models : String → Option (GenerationModel Decimal)} {b : BalanceView Decimal} {e : Exn}
    (h : authorize models request b = .error e) : e.isContention = false := by
  unfold authorize at h
  split at h
  · cases h; rfl
  next model hm =>
  rcases bind_eq_error.mp h with h | ⟨_, -, h⟩
  · unfold validateBalance at h
    split at h <;> cases h
    rfl
  rcases bind_eq_error.mp h with h | ⟨_, -, h⟩
  · simp only [debitTerms] at h
    split at h
    · cases h
    · split at h
      · cases h
      split at h <;> cases h
      rfl
    · split at h <;> cases h
  simp only at h
  split at h
  · cases h; rfl
  rcases bind_eq_error.mp h with h | ⟨_, -, h⟩
  · simp only [buildPlan] at h
    split at h <;> cases h
    rfl
  · cases h

theorem makeReservation_sober {b : Balance} {e : Exn} (h : makeReservation request b fresh now = .error e) :
    e ≠ exhausted := by
  intro he
  subst he
  rcases makeReservation_error_cases h with h | h
  · have hn := authorize_no_contention h
    cases hn
  · cases h

/-- Any other end charges nothing. -/
theorem accounted_ended {r : Except Exn GenerationResult} (hr : r ≠ .error exhausted) :
    Accounted N n request ρ (.ended r) := by
  intro he
  exact absurd he hr

theorem accounted_load {k : ℕ} (hN : N ≤ n + k) : Accounted N n request ρ (.loading k .load) := by
  refine ⟨hN, fun b hb => ?_, LoaderPc.sober_load⟩
  cases hb

/-- A round begins on a balance that is the present one, or has been changed since. -/
theorem accounted_attempt {k : ℕ} {b : Balance} (hN : N ≤ n + k)
    (hb : ρ.bal.get request.userId = some b ∨ N + 1 ≤ n + k) :
    Accounted N n request ρ (attemptReserve request fresh now k b) := by
  cases k with
  | zero => exact fun _ => hN
  | succ k =>
    simp only [attemptReserve]
    split
    · next v hv =>
      obtain ⟨hreq, hsnap, -⟩ := makeReservation_ok hv
      refine ⟨hreq, by omega, ?_⟩
      rw [hsnap]
      exact hb.imp_right fun h => by omega
    · next e he =>
      have hne := makeReservation_sober he
      split
      · exact ⟨hne, by omega⟩
      · exact fun h => absurd (Except.error.inj h) hne

theorem accounted_poll {k : ℕ} {record : GenerationRecord} (hN : N ≤ n + k + 1)
    (hg : (ρ.gen.get request.clientRequestId).isSome) :
    Accounted N n request ρ (pollRecord request.clientRequestId k record) := by
  unfold pollRecord
  split
  · exact accounted_ended (by simp)
  · exact accounted_ended (by simp [exhausted])
  · exact ⟨hN, .inl hg⟩

theorem accounted_duplicate {k : ℕ} {record : GenerationRecord} (hN : N ≤ n + k + 1)
    (hg : (ρ.gen.get request.clientRequestId).isSome) :
    Accounted N n request ρ (resolveDuplicate request k record) := by
  unfold resolveDuplicate
  split
  · exact accounted_ended (by simp [exhausted])
  · exact accounted_poll hN hg

theorem accounted_settle {S : Settlement} {k : ℕ} : Accounted N n request ρ (settleLoop S k) := by
  cases k with
  | zero => exact accounted_ended (by simp [exhausted])
  | succ k => trivial

theorem accounted_start_settle {cfg : Config} {v : Reservation} {content : PyStr} {bill : Number} :
    Accounted N n request ρ (startSettle cfg v content bill) := by
  rcases startSettle_cases cfg v content bill with ⟨e, h, he⟩ | ⟨_, s, k, -, -, -, h⟩
  · rw [h]
    refine accounted_ended fun hx => ?_
    obtain rfl := Except.error.inj hx
    rcases he with he | he | he
    · cases he
    · cases he
    · simp [exhausted] at he
  · rw [h]
    trivial

theorem accounted_refund {cfg : Config} {v : Reservation} {message : Option PyStr} {typeName : String}
    {isException : Bool} : Accounted N n request ρ (startRefund cfg v message typeName isException) := by
  rcases startRefund_cases cfg v message typeName isException with ⟨e, h, he⟩ | ⟨reason, k, -, h⟩
  · rw [h]
    refine accounted_ended fun hx => ?_
    obtain rfl := Except.error.inj hx
    rcases he with he | he
    · cases he
    · simp [exhausted] at he
  · rw [h]
    refine ⟨?_, fun l hl => ?_⟩
    · split <;> simp [exhausted]
    · cases hl

end Rounds

/-! ## One step -/

section Step

variable {cfg : Config} {s s' : System} {lab : Label} {p N n : ℕ} {i : Input} {request : GenerationRequest} {pc : GenPc}

/-- What a call is given while it does not reserve leaves the present balances and the records as they are. -/
theorem Given.leaves (hg : Given cfg s s' lab p i) (hin : (s.procs p).inReserve = true)
    (hv : (s.procs p).reserving = none) :
    (∀ u b, s.redis.bal.get u = some b → s'.redis.bal.get u = some b) ∧ s'.redis.gen = s.redis.gen := by
  cases hg with
  | @reply _ pick now c r ha he =>
    rcases Proc.inReserve_call hin ha with ⟨v, hv', -⟩ | hleaves
    · rw [hv] at hv'
      cases hv'
    · have hleft := hleaves he
      refine ⟨fun u b hb => ?_, hleft.gen⟩
      rcases hleft.bal with hbal | ⟨w, c, -, hn, hbal⟩
      · rw [hbal, hb]
      · rw [hbal, Table.get_set_of_ne, hb]
        rintro rfl
        rw [hn] at hb
        cases hb
  | lost _ hr => exact ⟨fun u b hb => by rw [hr, hb], by rw [hr]⟩
  | feed _ hr => exact ⟨fun u b hb => by rw [hr, hb], by rw [hr]⟩

theorem exec_reserve {pick : List UserId} {ρ ρ' : Redis} {a : ReserveArgs} {r : Reply}
    (h : exec pick ρ (.reserve a) = some (r, ρ')) : (∃ x, r = .reserve x) ∨ ∃ e, r = .error e := by
  simp only [exec, Option.some.injEq, scriptReply] at h
  split at h
  · cases h
    exact .inl ⟨_, rfl⟩
  · cases h
    exact .inr ⟨_, rfl⟩

/-- A call that waits sends nothing. -/
theorem Given.waiting (hg : Given cfg s s' lab p i) (ha : (s.procs p).action cfg = .wait) : s'.redis = s.redis := by
  cases hg with
  | reply hc =>
    rw [ha] at hc
    cases hc
  | lost _ hr => exact hr
  | feed _ hr => exact hr

/-- A loading call reads the present balance, and its own requests leave it. -/
theorem accounted_loading {k : ℕ} {l : LoaderPc} {fresh : Token} {now : ℚ} (hg : Given cfg s s' lab p i)
    (hst : s.procs p = .gen request (.loading k l)) (h : Accounted N n request s.redis (.loading k l)) :
    Accounted N n request s'.redis (GenPc.resume cfg request fresh now (.loading k l) i) := by
  have hact : (s.procs p).action cfg = l.action request.userId := by rw [hst]; rfl
  obtain ⟨hN, hheld, hl⟩ := h
  obtain ⟨hbal, -⟩ := hg.leaves (by rw [hst]; rfl) (by rw [hst]; rfl)
  simp only [GenPc.resume]
  refine elim_cases (fun l' hr => ⟨hN, fun b hb => ?_, hl.run hr⟩) (fun b hr => accounted_attempt hN ?_) fun e hr => ?_
  · rcases LoaderPc.resume_held hr hb with hb | ⟨rfl, t, rfl⟩
    · exact (hheld b hb).imp_left (hbal _ b)
    · exact .inl (hbal _ b (hg.balance hact).1)
  · rcases LoaderPc.resume_ret hr with ⟨rfl, rfl⟩ | hb
    · exact .inl (hbal _ b (hg.balance hact).1)
    · exact (hheld b hb).imp_left (hbal _ b)
  · exact fun he => absurd (Except.error.inj he) (hl.raise hr)

/-- A conflict and a missing balance are no longer the balance the plan was made on. -/
theorem accounted_reserving {v : Reservation} {a k : ℕ} {fresh : Token} {now : ℚ} (hg : Given cfg s s' lab p i)
    (hst : s.procs p = .gen request (.reserving v a k)) (h : Accounted N n request s.redis (.reserving v a k)) :
    Accounted N n request s'.redis (GenPc.resume cfg request fresh now (.reserving v a k) i) := by
  have hact : (s.procs p).action cfg = .call (.reserve v.args) := by rw [hst]; rfl
  rcases hg.called hact with ⟨pick, r, rfl, -, he⟩ | ⟨rfl, -, hr⟩
  · rcases exec_reserve he with ⟨r, rfl⟩ | ⟨e, rfl⟩
    · obtain ⟨rfl, hN, hsnap⟩ := h
      have hok := hg.reserve (v := v) (by rw [hst]; rfl)
      generalize s'.redis = ρ' at hok ⊢
      simp only [GenPc.resume]
      cases hok with
      | @dup g hgen =>
        by_cases htok : g.reservationToken = v.token
        · simp only [reserveOutcome, if_pos htok]
          trivial
        · simp only [reserveOutcome, if_neg htok]
          exact accounted_duplicate hN (Option.isSome_iff_exists.mpr ⟨g, hgen⟩)
      | missing _ hbal =>
        refine accounted_load (hsnap.resolve_left fun h => ?_)
        rw [show s.redis.bal.get v.request.userId = none from hbal] at h
        cases h
      | @conflict c _ hbal hver =>
        refine accounted_attempt (hsnap.resolve_left fun h => hver ?_) (.inl hbal)
        rw [show s.redis.bal.get v.request.userId = some c from hbal] at h
        cases h
        rfl
      | applied => trivial
    · exact accounted_ended (by simp [exhausted])
  · rw [hr]
    simp only [GenPc.resume, Config.retrying]
    split
    · exact accounted_ended (by simp [exhausted])
    · exact h

theorem accounted_denied {e : Exn} {k : ℕ} {fresh : Token} {now : ℚ} (hg : Given cfg s s' lab p i)
    (hst : s.procs p = .gen request (.denied e k)) (h : Accounted N n request s.redis (.denied e k)) :
    Accounted N n request s'.redis (GenPc.resume cfg request fresh now (.denied e k) i) := by
  have hact : (s.procs p).action cfg = .call (.getGeneration request.clientRequestId) := by rw [hst]; rfl
  rcases hg.called hact with ⟨pick, r, rfl, -, he⟩ | ⟨rfl, -, hr⟩
  · simp only [exec, Option.some.injEq, Prod.mk.injEq] at he
    obtain ⟨rfl, he⟩ := he
    rw [← he]
    cases hgen : s.redis.gen.get request.clientRequestId with
    | none => exact fun hx => absurd (Except.error.inj hx) h.1
    | some g => exact accounted_duplicate h.2 (Option.isSome_iff_exists.mpr ⟨g, hgen⟩)
  · exact accounted_ended (by simp [exhausted])

theorem accounted_polling {k : ℕ} {fresh : Token} {now : ℚ} (hg : Given cfg s s' lab p i)
    (hst : s.procs p = .gen request (.polling k)) (h : Accounted N n request s.redis (.polling k)) :
    Accounted N n request s'.redis (GenPc.resume cfg request fresh now (.polling k) i) := by
  have hact : (s.procs p).action cfg = .call (.getGeneration request.clientRequestId) := by rw [hst]; rfl
  rcases hg.called hact with ⟨pick, r, rfl, -, he⟩ | ⟨rfl, -, hr⟩
  · simp only [exec, Option.some.injEq, Prod.mk.injEq] at he
    obtain ⟨rfl, he⟩ := he
    rw [← he]
    cases hgen : s.redis.gen.get request.clientRequestId with
    | none =>
      refine accounted_load (h.2.resolve_left fun hx => ?_)
      rw [hgen] at hx
      cases hx
    | some g => exact accounted_poll h.1 (Option.isSome_iff_exists.mpr ⟨g, hgen⟩)
  · exact accounted_ended (by simp [exhausted])

theorem accounted_waiting {k : ℕ} {fresh : Token} {now : ℚ} (hr : s'.redis = s.redis)
    (h : Accounted N n request s.redis (.waiting k)) :
    Accounted N n request s'.redis (GenPc.resume cfg request fresh now (.waiting k) i) := by
  rw [hr]
  cases i with
  | wake => exact h
  | timeout => exact fun he => absurd (Except.error.inj he) (by decide)
  | _ => exact h

/-- Past `_reserve` no round is counted any more. -/
theorem accounted_settling {S : Settlement} {a k : ℕ} {fresh : Token} {now : ℚ} {ρ : Redis} :
    Accounted N n request ρ (GenPc.resume cfg request fresh now (.settling S a k) i) := by
  cases i with
  | reply r =>
    cases r with
    | settle r =>
      cases r with
      | missing => exact LoaderPc.sober_load
      | _ => exact accounted_ended (by simp [exhausted])
    | error => exact accounted_ended (by simp [exhausted])
    | _ => trivial
  | lost =>
    simp only [GenPc.resume, Config.retrying]
    split
    · exact accounted_ended (by simp [exhausted])
    · trivial
  | _ => trivial

theorem accounted_generating {v : Reservation} {fresh : Token} {now : ℚ} {ρ : Redis} :
    Accounted N n request ρ (GenPc.resume cfg request fresh now (.generating v) i) := by
  cases i with
  | provided o =>
    cases o with
    | result content bill => exact accounted_start_settle
    | raised => exact accounted_refund
  | timeout => exact accounted_refund
  | _ => trivial

/-- **A call's own step uses no round up that was not disturbed.** -/
theorem Accounted.resume {fresh : Token} {now : ℚ} (hg : Given cfg s s' lab p i) (hst : s.procs p = .gen request pc)
    (h : Accounted N n request s.redis pc) : Accounted N n request s'.redis (pc.resume cfg request fresh now i) := by
  cases pc with
  | loading => exact accounted_loading hg hst h
  | reserving => exact accounted_reserving hg hst h
  | denied => exact accounted_denied hg hst h
  | polling => exact accounted_polling hg hst h
  | waiting => exact accounted_waiting (hg.waiting (by rw [hst]; rfl)) h
  | calling => cases i <;> trivial
  | generating => exact accounted_generating
  | settling => exact accounted_settling
  | settleLoading S k l =>
    refine elim_cases (P := Accounted N n request s'.redis) (fun l' hr => h.run hr) (fun b hr => accounted_settle) ?_
    intro e hr he
    exact absurd (Except.error.inj he) (h.raise hr)
  | refunding v reason pc after =>
    obtain ⟨hafter, hl⟩ := h
    refine elim_cases (P := Accounted N n request s'.redis) (fun pc' hr => ⟨hafter, fun l' hl' => ?_⟩)
      (fun _ _ he => absurd (Except.error.inj he) hafter)
      fun e hr he => absurd (Except.error.inj he) (RefundPc.raise_sober hl hr)
    rcases RefundPc.resume_loader hr hl' with rfl | ⟨l, hl₀, rfl | hr'⟩
    · exact LoaderPc.sober_load
    · exact hl _ hl₀
    · exact (hl l hl₀).run hr'
  | ended => exact h

end Step

/-! ## Runs -/

theorem disturbances_cons {p : ℕ} {request : GenerationRequest} {t : Trans System Label}
    (tr : List (Trans System Label)) (h : ∀ job, t.label ≠ .spawn p job) :
    disturbances p request (t :: tr) = disturbances p request tr + (disturbs p request t).toNat := by
  simp only [disturbances]
  split
  · next q job hl =>
    rw [if_neg]
    intro hq
    exact h job (hq ▸ hl)
  · rfl

theorem disturbances_spawn {p : ℕ} {request : GenerationRequest} {t : Trans System Label}
    (tr : List (Trans System Label)) {job : Job} (h : t.label = .spawn p job) :
    disturbances p request (t :: tr) = 0 := by
  simp only [disturbances, h, if_pos]

theorem accounted_start {cfg : Config} {request : GenerationRequest} {ρ : Redis} :
    Accounted cfg.reserveMaxAttempts 0 request ρ (.start cfg request) := by
  unfold GenPc.start
  split
  · exact accounted_ended (by simp [exhausted])
  · exact accounted_load (Nat.zero_add _).ge

/-- A step that is not the call's own is a disturbance, or leaves what its round relies on. -/
theorem disturbs_or_leaves (s s' : System) (request : GenerationRequest) {l : Label} {p : ℕ} (hl : l.runs p = false) :
    (∀ b, s.redis.bal.get request.userId = some b → s'.redis.bal.get request.userId = some b ∨
        disturbs p request ⟨s, l, s'⟩ = true) ∧
      ((s.redis.gen.get request.clientRequestId).isSome → (s'.redis.gen.get request.clientRequestId).isSome ∨
        disturbs p request ⟨s, l, s'⟩ = true) := by
  refine ⟨fun b hb => ?_, fun hg => ?_⟩
  · by_cases he : s'.redis.bal.get request.userId = some b
    · exact .inl he
    · exact .inr (by simp [disturbs, hl, hb, he])
  · cases hg' : s'.redis.gen.get request.clientRequestId with
    | none => exact .inr (by simp [disturbs, hl, hg, hg'])
    | some g => exact .inl rfl

/-- A call that is in `_reserve` was disturbed as often as its rounds say. -/
theorem Runs.accounted {cfg : Config} {pg : Rows} {tr : List (Trans System Label)} {s : System}
    (hr : Runs cfg (.start pg) tr s) {p : ℕ} {request : GenerationRequest} {pc : GenPc}
    (hst : s.procs p = .gen request pc) :
    Accounted cfg.reserveMaxAttempts (disturbances p request tr) request s.redis pc := by
  refine hr.invariant_history (P := fun _ => True) (fun _ _ => trivial)
    (I := fun tr s => ∀ pc, s.procs p = .gen request pc →
      Accounted cfg.reserveMaxAttempts (disturbances p request tr) request s.redis pc)
    (fun pc hst => nomatch hst) ?_ pc hst
  intro tr s l s' _ _ ih hstep _ pc hst
  have h := step_cases hstep
  have moved : ∀ {i : Input} {now : ℚ}, Given cfg s s' l p i →
      s'.procs p = (s.procs p).resume cfg ⟨p, s.draws⟩ now i → (∀ job, l ≠ .spawn p job) →
      Accounted cfg.reserveMaxAttempts (disturbances p request (⟨s, l, s'⟩ :: tr)) request s'.redis pc := by
    intro i now hg he hns
    rw [he] at hst
    cases hproc : s.procs p with
    | gen request' pc₀ =>
      rw [hproc] at hst
      cases hst
      have hc : Accounted cfg.reserveMaxAttempts (disturbances p request tr) request s'.redis
          (pc₀.resume cfg request ⟨p, s.draws⟩ now i) := Accounted.resume hg hproc (ih pc₀ hproc)
      rw [disturbances_cons tr hns]
      exact hc.mono (Nat.le_add_right ..) (fun b hb => .inl hb) fun hx => .inl hx
    | _ =>
      rw [hproc] at hst
      cases hst
  by_cases hl : l.runs p = true
  · -- the call's own request
    cases l with
    | exec q pick now =>
      have hq : q = p := by simpa [Label.runs] using hl
      subst hq
      cases h with
      | exec hc he => exact moved (.reply hc he rfl) (Function.update_self ..) (by simp)
      | feed hf => cases hf
      | expire hx => cases hx
    | _ => cases hl
  · have hl : l.runs p = false := by simpa using hl
    cases h.goes p with
    | same he =>
      obtain ⟨hbal, hgen⟩ := disturbs_or_leaves s s' request hl
      have hns : ∀ job, l ≠ .spawn p job := by
        intro job hlab
        subst hlab
        cases h with
        | spawn hi =>
          rw [he, hi] at hst
          cases hst
        | feed hf => cases hf
        | expire hx => cases hx
      rw [he] at hst
      rw [disturbances_cons tr hns]
      refine (ih pc hst).mono (Nat.le_add_right ..) (fun b hb => (hbal b hb).imp_right ?_) fun hx => (hgen hx).imp_right ?_
      all_goals
        intro hd
        rw [hd]
        rfl
    | @started job hlab hi he =>
      rw [disturbances_spawn tr hlab]
      rw [he] at hst
      cases job <;> cases hst
      exact accounted_start
    | crashed _ he =>
      rw [he] at hst
      cases hst
    | @resumed i now hg _ he =>
      refine moved hg he ?_
      intro job hlab
      subst hlab
      cases hg with
      | feed hf => cases hf

/-- **A reservation gives up to contention only.** A call of `execute_generation` that raises that its reservation
retries are exhausted was disturbed at least `RESERVE_MAX_ATTEMPTS` times while it ran: so often a step that was not
its own changed or took away the user's balance, or took away the request's record. -/
theorem exhausted_disturbed {cfg : Config} {pg : Rows} {tr : List (Trans System Label)} {s : System}
    (hr : Runs cfg (.start pg) tr s) {p : ℕ} {request : GenerationRequest}
    (hst : s.procs p = .gen request (.ended (.error (.balanceContention "reservation retries exhausted")))) :
    cfg.reserveMaxAttempts ≤ disturbances p request tr :=
  hr.accounted hst rfl

/-- One cent is topped up before each of the two attempts. -/
theorem exhausted_disturbed_two :
    ∃ tr s, Runs { reserveMaxAttempts := 2 } (.start dollarRows) tr s ∧
      s.procs 0 = .gen (premium 1 5) (.ended (.error (.balanceContention "reservation retries exhausted"))) ∧
      2 ≤ disturbances 0 (premium 1 5) tr := by
  obtain ⟨tr, s, hr, h⟩ := Runs.of_schedule { reserveMaxAttempts := 2 } (.start dollarRows)
    (.spawn 0 (.gen (premium 1 5)) :: coldLoad 0 ++
      [.spawn 1 (.topUp ⟨8, 1, ⟨1, -2⟩, 0, 0⟩), .exec 1 [] 0, .exec 0 [] 0,
        .spawn 2 (.topUp ⟨9, 1, ⟨1, -2⟩, 0, 0⟩), .exec 2 [] 0, .exec 0 [] 0])
    (fun _ s => (s.procs 0).answered ==
      some (premium 1 5, .error (.balanceContention "reservation retries exhausted"))) (by decide +kernel)
  have hst := Proc.answered_some (eq_of_beq h)
  exact ⟨tr, s, hr, hst, exhausted_disturbed hr hst⟩

end GenerationBalance
