/-
No reservation is stranded: when a call that was debited returns or raises, its record
was settled or refunded, whatever the provider did. The exceptions are what cannot be
sent to Redis: a bill that is no number or too long to be written out, and a content or
a reason without an encoding. `_settle` and the refund fail on these after the
provider's call, where nothing is refunded any more.
-/
import GenerationBalance.Agreement
import GenerationBalance.Refusals

namespace GenerationBalance

open Transition

/-! ## Bills -/

/-- A bill that is a number is clamped, an infinite one too. -/
theorem clampBill_defined {bill : Number} {t : Decimal} {n : ℤ} (ht : IsMicros t n) (hn : 0 < n) (hf : Fits n)
    (hb : bill ≠ .nan) : ∃ q, clampBill bill t = .ok q := by
  cases bill with
  | finite d => exact ⟨_, clampBill_finite ht hn.le hf⟩
  | nan => exact absurd rfl hb
  | infinity negative =>
    cases negative with
    | true => exact ⟨⟨0, -6⟩, by simp [clampBill, minNumber, maxNumber, Number.lt?]; rfl⟩
    | false =>
      refine ⟨_, Eq.trans ?_ (clampBill_finite (d := t) ht hn.le hf)⟩
      simp [clampBill, minNumber, Number.lt?]

/-- **Every bill that is a number is settled.** -/
theorem makeSettlement_defined (v : Reservation) (content : String) {bill : Number} (hb : bill ≠ .nan) :
    ∃ S, makeSettlement v content bill = .ok S := by
  have hv := v.sound
  obtain ⟨q, hcl⟩ := clampBill_defined v.total_micros hv.cost.pos hv.cost.fits hb
  obtain ⟨n, h0, hn, hq⟩ := clampBill_ok v.total_micros hv.cost.pos hv.cost.fits hcl
  have hmicro : IsMicros q n := hq ▸ isMicros_microsToMoney (fits_of_le h0 hn hv.cost.fits)
  obtain ⟨-, -, hcall⟩ := settleCall_micros v.request content hv.plan hv.charged hv.cost.fits
    hcl hmicro h0 hn
  unfold makeSettlement
  split
  · next e he => cases he.symm.trans hcall
  · exact ⟨_, rfl⟩

/-- What can be settled or refunded: a bill that is a number and can be written out, a
content and a reason that can be encoded. -/
def ProviderOutcome.sendable (cfg : Config) : ProviderOutcome → Bool
  | .result content bill => bill ≠ .nan && bill.format.length ≤ cfg.textRoom && content.encode.isSome
  | .raised message typeName _ => message.any fun m => (m.or typeName).encode.isSome

theorem settleText_defined {cfg : Config} {content : PyStr} {bill : Number}
    (hroom : bill.format.length ≤ cfg.textRoom) {text : String} (henc : content.encode = some text) :
    settleText cfg content bill = .ok text := by
  simp only [settleText, moneyToStr, if_pos hroom, henc]
  rfl

theorem startSettle_sends {cfg : Config} (v : Reservation) {content : PyStr} {bill : Number} {k : ℕ}
    (hk : cfg.reserveMaxAttempts = k + 1) (h : (ProviderOutcome.result content bill).sendable cfg = true) :
    ∃ S, startSettle cfg v content bill = .settling S 1 k ∧ S.reservation = v := by
  simp only [ProviderOutcome.sendable, Bool.and_eq_true, decide_eq_true_eq, Option.isSome_iff_exists] at h
  obtain ⟨⟨hb, hroom⟩, text, henc⟩ := h
  have hv := v.sound
  obtain ⟨q, hcl⟩ := clampBill_defined v.total_micros hv.cost.pos hv.cost.fits hb
  obtain ⟨S, hS⟩ := makeSettlement_defined v text hb
  refine ⟨S, ?_, (makeSettlement_ok hS).1⟩
  simp only [startSettle, hcl, hk, settleText_defined hroom henc, hS]

theorem startRefund_sends {cfg : Config} (v : Reservation) (message : Option PyStr) (typeName : String)
    (isException : Bool) {k : ℕ} (hk : cfg.reserveMaxAttempts = k + 1)
    (h : (ProviderOutcome.raised message typeName isException).sendable cfg = true) :
    ∃ reason after, startRefund cfg v message typeName isException = .refunding v reason (.calling 1 k) after := by
  simp only [ProviderOutcome.sendable, Option.any_eq_true, Option.isSome_iff_exists] at h
  obtain ⟨m, rfl, reason, henc⟩ := h
  exact ⟨reason, if isException then .generationFailed reason else .cancelled reason, by
    simp only [startRefund, hk, henc]⟩

theorem SettleOk.resolves {a : SettleArgs} {ρ ρ' : Redis} {r : SettleReply} (h : SettleOk a ρ r ρ')
    (hr : r ≠ .missing) {g : GenerationHash} (hg : ρ'.gen.get a.clientRequestId = some g) : g.status ≠ .running := by
  cases r with
  | missing => exact absurd rfl hr
  | ok =>
    obtain ⟨r, -, -, hset⟩ := h.of_ok
    rw [hset, Table.get_set_self] at hg
    cases hg
    nofun
  | done =>
    obtain ⟨r, hget, hd, rfl⟩ := h.of_done
    cases hget.symm.trans hg
    rw [hd]
    nofun
  | stale =>
    obtain ⟨hf, rfl⟩ := h.of_stale
    rw [hf g hg]
    nofun

theorem RefundOk.resolves {a : RefundArgs} {ρ ρ' : Redis} {r : RefundReply} (h : RefundOk a ρ r ρ')
    (hr : r ≠ .missing) {g : GenerationHash} (hg : ρ'.gen.get a.clientRequestId = some g) : g.status ≠ .running := by
  cases r with
  | missing => exact absurd rfl hr
  | ok =>
    obtain ⟨r, -, -, hset⟩ := h.of_ok
    rw [hset, Table.get_set_self] at hg
    cases hg
    nofun
  | stale =>
    obtain ⟨hn, rfl⟩ := h.of_stale
    exact hn g hg

/-! ## A call that is served -/

/-- Redis answers the call, no sum is out of range, and the balance is there while the
call owns a reservation. -/
def served (cfg : Config) (p : ℕ) (t : Trans System Label) : Bool :=
  (match t.label with
    | .abandon q => q ≠ p
    | _ => true) &&
  inRange cfg t && (t.pre.procs p).owned.all fun v => (t.pre.redis.bal.get v.request.userId).isSome

/-- What the provider gives the call can be sent. -/
def sendable (cfg : Config) (p : ℕ) (t : Trans System Label) : Bool :=
  match t.label with
  | .provided q o => q ≠ p || o.sendable cfg
  | _ => true

theorem served_keeps {cfg : Config} {s s' : System} {l : Label} {p : ℕ} (h : served cfg p ⟨s, l, s'⟩ = true) :
    l ≠ .abandon p ∧ inRange cfg ⟨s, l, s'⟩ = true ∧
      ∀ v, (s.procs p).owned = some v → ∃ b, s.redis.bal.get v.request.userId = some b := by
  simp only [served, Bool.and_eq_true] at h
  obtain ⟨⟨hl, hi⟩, hb⟩ := h
  refine ⟨?_, hi, fun v hv => ?_⟩
  · rintro rfl
    simp at hl
  · rw [hv, Option.all_some, Option.isSome_iff_exists] at hb
    exact hb

theorem sendable_provided {cfg : Config} {s s' : System} {p : ℕ} {o : ProviderOutcome}
    (h : sendable cfg p ⟨s, .provided p o, s'⟩ = true) : o.sendable cfg = true := by
  simpa [sendable] using h

def Reply.isReserved : Reply → Bool
  | .reserve (.ok _) => true
  | _ => false

/-- The reservation that a request of the call was debited for. -/
def took (cfg : Config) (p : ℕ) (t : Trans System Label) : Option Reservation :=
  (ran cfg t).bind fun x => if x.owner = p ∧ x.reply.isReserved = true then x.st.reserving else none

theorem took_some {cfg : Config} {p : ℕ} {t : Trans System Label} {v : Reservation} (h : took cfg p t = some v) :
    ∃ x n, ran cfg t = some x ∧ x.owner = p ∧ x.st.reserving = some v ∧ x.reply = .reserve (.ok n) := by
  obtain ⟨x, hx, ht⟩ := Option.bind_eq_some_iff.mp h
  split at ht
  · next hc =>
    obtain ⟨ho, hr⟩ := hc
    unfold Reply.isReserved at hr
    split at hr
    · next n hrep => exact ⟨x, n, hx, ho, ht, hrep⟩
    · cases hr
  · cases ht

/-! ## The rounds of a call -/

/-- A call that can reserve nothing: it has no round left before it begins. -/
def Proc.barren : Proc → Bool
  | .gen _ (.loading 0 _) | .gen _ (.ended _) => true
  | .gen _ _ => false
  | _ => true

theorem Proc.barren.resume {cfg : Config} {fresh : Token} {now : ℚ} {st : Proc} {i : Input} (h : st.barren = true) :
    (st.resume cfg fresh now i).barren = true := by
  cases st with
  | gen request pc =>
    cases pc with
    | loading k l =>
      cases k with
      | zero =>
        simp only [Proc.resume, GenPc.resume]
        cases l.resume fresh i <;> rfl
      | succ k => cases h
    | ended r => rfl
    | _ => cases h
  | _ => rfl

theorem StepCase.barren {cfg : Config} {s s' : System} {l : Label} {p : ℕ} (h : StepCase cfg s l s')
    (hk : cfg.reserveMaxAttempts = 0) (hs : (s.procs p).barren = true) : (s'.procs p).barren = true := by
  cases h.goes p with
  | same he => rw [he]; exact hs
  | crashed _ he => rw [he]; rfl
  | resumed _ _ he => rw [he]; exact Proc.barren.resume hs
  | @started job _ _ he =>
    rw [he]
    cases job with
    | gen request =>
      simp only [Job.start, GenPc.start, hk]
      split <;> rfl
    | _ => rfl

theorem Runs.barren {cfg : Config} {pg : Rows} {tr : List (Trans System Label)} {s : System}
    (hr : Runs cfg (System.start pg) tr s) (p : ℕ) (hk : cfg.reserveMaxAttempts = 0) : (s.procs p).barren = true :=
  Run.invariant (I := fun s => (s.procs p).barren = true) (P := fun _ => True) hr (fun _ _ => trivial) rfl
    fun hs h _ => (step_cases h).barren hk hs

/-! ## What a call owes -/

/-- The call has given no request up. -/
def Alone (s : System) (p : ℕ) : Prop := s.procs p ≠ .crashed → ∀ st, (p, st) ∉ s.pool

/-- How a call stands to the reservation it was debited for. -/
inductive Owes (cfg : Config) (p : ℕ) (tr : List (Trans System Label)) (s : System) : Prop
  | crashed : s.procs p = .crashed → Owes cfg p tr s
  | before : (s.procs p).owned = none → (∀ t ∈ tr, took cfg p t = none) → Owes cfg p tr s
  /-- The provider's call, a settlement or a refund is still to come. -/
  | owes {v} : (s.procs p).owned = some v → (s.procs p).loader = none →
      (∀ t ∈ tr, ∀ w, took cfg p t = some w → w = v) → Owes cfg p tr s
  | met {v request r} : s.procs p = .gen request (.ended r) → v.token.owner = p →
      (∀ t ∈ tr, ∀ w, took cfg p t = some w → w = v) →
      (∀ g, s.redis.gen.get v.id = some g → g.reservationToken = v.token → g.status ≠ .running) → Owes cfg p tr s

section Step

variable {cfg : Config} {tr : List (Trans System Label)} {s s' : System} {l : Label} {p : ℕ} {v : Reservation}

theorem StepCase.crashed_stays (h : StepCase cfg s l s') (hc : s.procs p = .crashed) : s'.procs p = .crashed := by
  cases h.goes p with
  | same he => rw [he, hc]
  | crashed _ he => exact he
  | started _ hi => rw [hc] at hi; cases hi
  | resumed hg => exact absurd (by rw [hc]; rfl) hg.awaits

theorem StepCase.alone (h : StepCase cfg s l s') (hl : l ≠ .abandon p) (hs : Alone s p) : Alone s' p := by
  intro hlive st hst
  have hbefore : s.procs p ≠ .crashed := fun hc => hlive (h.crashed_stays hc)
  rcases h.pooled hst with hold | ⟨ho, -⟩
  · exact hs hbefore st hold
  · rcases ho with ho | rfl
    · exact hl ho
    · exact hlive h.died

/-- A call that is debited is told so. -/
theorem StepCase.debited (h : StepCase cfg s l s') (hs : Alone s p) (hlive : s.procs p ≠ .crashed)
    (ht : took cfg p ⟨s, l, s'⟩ = some v) :
    (s.procs p).reserving = some v ∧ ∃ request, s'.procs p = .gen request (.calling v) := by
  obtain ⟨x, n, hx, rfl, hv, hrep⟩ := took_some ht
  rcases h.runner hx with ⟨pick, now, -, hst, hres⟩ | ⟨i, pick, -, hi, -⟩
  · rw [hst] at hv
    obtain ⟨request, m, k, hproc⟩ := Proc.reserving_gen hv
    refine ⟨hv, request, ?_⟩
    rw [hres, hproc, hrep]
    rfl
  · exact absurd (List.mem_of_getElem? hi) (hs hlive _)

theorem StepCase.not_debited (h : StepCase cfg s l s') (hs : Alone s p) (hlive : s.procs p ≠ .crashed)
    (hno : (s.procs p).reserving = none) : took cfg p ⟨s, l, s'⟩ = none := by
  cases ht : took cfg p ⟨s, l, s'⟩ with
  | none => rfl
  | some w => cases hno.symm.trans (h.debited hs hlive ht).1

theorem took_cons (hno : took cfg p ⟨s, l, s'⟩ = none) (ht : ∀ t ∈ tr, ∀ w, took cfg p t = some w → w = v) :
    ∀ t ∈ ⟨s, l, s'⟩ :: tr, ∀ w, took cfg p t = some w → w = v := by
  refine List.forall_mem_cons.mpr ⟨fun w hw => ?_, ht⟩
  rw [hno] at hw
  cases hw

/-- A step of a call that owns a reservation. -/
theorem Given.owes {i : Input} (fresh : Token) (now : ℚ) (hg : Given cfg s s' l p i)
    (hs : served cfg p ⟨s, l, s'⟩ = true) (hb : sendable cfg p ⟨s, l, s'⟩ = true) (hk : cfg.reserveMaxAttempts ≠ 0)
    (hv : (s.procs p).owned = some v) (hl : (s.procs p).loader = none) :
    ((s.procs p).resume cfg fresh now i).owned = some v ∧ ((s.procs p).resume cfg fresh now i).loader = none ∨
      (∃ request r, (s.procs p).resume cfg fresh now i = .gen request (.ended r)) ∧
        ∀ g, s'.redis.gen.get v.id = some g → g.status ≠ .running := by
  obtain ⟨hlab, hi, hbal⟩ := served_keeps hs
  obtain ⟨b, hbal⟩ := hbal v hv
  obtain ⟨k, hk⟩ := Nat.exists_eq_succ_of_ne_zero hk
  cases hst : s.procs p with
  | gen request pc =>
    rw [hst] at hv hl
    cases pc with
    | calling w =>
      cases hv
      cases hg.calling (show (s.procs p).action cfg = .provider request by rw [hst]; rfl)
      exact .inl ⟨rfl, rfl⟩
    | generating w =>
      cases hv
      rcases hg.answered (by rw [hst]; rfl) with ⟨o, rfl, rfl⟩ | rfl
      · cases o with
        | result content bill =>
          obtain ⟨S, hS, rfl⟩ := startSettle_sends v hk (sendable_provided hb)
          simp only [Proc.resume, GenPc.resume, hS]
          exact .inl ⟨rfl, rfl⟩
        | raised message typeName isException =>
          obtain ⟨reason, after, hR⟩ := startRefund_sends v _ _ _ hk (sendable_provided hb)
          simp only [Proc.resume, GenPc.resume, hR]
          exact .inl ⟨rfl, rfl⟩
      · obtain ⟨reason, after, hR⟩ := startRefund_sends v (some "") "TimeoutError" true hk rfl
        simp only [Proc.resume, GenPc.resume, hR]
        exact .inl ⟨rfl, rfl⟩
    | settling S n m =>
      cases hv
      obtain ⟨c, hsound⟩ := S.sound
      rcases hg.called (c := .settle S.args) (by rw [hst]; rfl) with ⟨pick, r, rfl, hx, he⟩ | ⟨-, hgave, -⟩
      · have hok := callOk_of_ran hx hi he
        generalize s'.redis = ρ' at hok ⊢
        cases hok with
        | @settle _ r _ hset =>
          have hres : r ≠ .missing → ∀ g, ρ'.gen.get S.reservation.id = some g → g.status ≠ .running :=
            fun hr g hg => hset.resolves hr (by rw [hsound.clientRequestId]; exact hg)
          cases r with
          | missing =>
            cases hset with
            | missing _ _ _ hn =>
              rw [hsound.userId] at hn
              cases hn.symm.trans hbal
          | ok | done | stale => exact .inr ⟨⟨request, _, rfl⟩, hres (by simp)⟩
      · exact absurd hgave hlab
    | refunding w reason pc after =>
      cases hv
      cases pc with
      | loading => cases hl
      | calling n m =>
        rcases hg.called (c := .refund (v.refundArgs reason)) (by rw [hst]; rfl) with
          ⟨pick, r, rfl, hx, he⟩ | ⟨-, hgave, -⟩
        · have hok := callOk_of_ran hx hi he
          generalize s'.redis = ρ' at hok ⊢
          cases hok with
          | @refund _ r _ hset =>
            have hres : r ≠ .missing → ∀ g, ρ'.gen.get v.id = some g → g.status ≠ .running :=
              fun hr g hg => hset.resolves hr hg
            cases r with
            | missing =>
              cases hset with
              | missing _ _ hn => cases hn.symm.trans hbal
            | ok | stale => exact .inr ⟨⟨request, _, rfl⟩, hres (by simp)⟩
        · exact absurd hgave hlab
    | settleLoading S k l => cases hl
    | _ => cases hv
  | _ => rw [hst] at hv; cases hv

theorem Proc.owned_not_barren {st : Proc} (h : st.owned = some v) : st.barren = false ∧ st.reserving = none := by
  cases st with
  | gen request pc => cases pc <;> first | exact ⟨rfl, rfl⟩ | cases h
  | _ => cases h

/-- A call that comes to own a reservation has no loader. -/
theorem StepCase.owned_loader (h : StepCase cfg s l s') (ho : (s.procs p).owned = none)
    (hv : (s'.procs p).owned = some v) : (s'.procs p).loader = none := by
  cases h.goes p with
  | same he => rw [he, ho] at hv; cases hv
  | crashed _ he => rw [he]; rfl
  | @started job _ _ he =>
    rw [he, (job.start_blank cfg).owned] at hv
    cases hv
  | @resumed i now hg _ he =>
    rw [he] at hv
    rcases Proc.resume_owned hv with hold | ⟨r, hres, rfl, hr⟩
    · rw [ho] at hold
      cases hold
    · obtain ⟨request, n, k, hproc⟩ := Proc.reserving_gen hres
      rw [he, hproc]
      simp only [Proc.resume, GenPc.resume, hr]
      rfl

theorem StepCase.owes_before (h : StepCase cfg s l s') (halone : Alone s p) (hc : s.procs p ≠ .crashed)
    (ho : (s.procs p).owned = none) (ht : ∀ t ∈ tr, took cfg p t = none) : Owes cfg p (⟨s, l, s'⟩ :: tr) s' := by
  have hnone : ∀ v, ∀ t ∈ tr, ∀ w, took cfg p t = some w → w = v := by
    intro v t hmem w hw
    rw [ht t hmem] at hw
    cases hw
  cases hw : took cfg p ⟨s, l, s'⟩ with
  | some v =>
    obtain ⟨-, request, hp⟩ := h.debited halone hc hw
    refine .owes (v := v) (by rw [hp]; rfl) (by rw [hp]; rfl) (List.forall_mem_cons.mpr ⟨fun w hw' => ?_, hnone v⟩)
    exact Option.some.inj (hw'.symm.trans hw)
  | none =>
    cases ho' : (s'.procs p).owned with
    | none => exact .before ho' (List.forall_mem_cons.mpr ⟨hw, ht⟩)
    | some v => exact .owes ho' (h.owned_loader ho ho') (took_cons hw (hnone v))

theorem StepCase.owes_owned (h : StepCase cfg s l s') (hs : served cfg p ⟨s, l, s'⟩ = true)
    (hb : sendable cfg p ⟨s, l, s'⟩ = true) (hkept : s.Kept fun _ => False) (halone : Alone s p)
    (hc : s.procs p ≠ .crashed) (hbarren : cfg.reserveMaxAttempts = 0 → (s.procs p).barren = true)
    (hv : (s.procs p).owned = some v) (hl : (s.procs p).loader = none)
    (ht : ∀ t ∈ tr, ∀ w, took cfg p t = some w → w = v) : Owes cfg p (⟨s, l, s'⟩ :: tr) s' := by
  have ht' := took_cons (h.not_debited halone hc (Proc.owned_not_barren hv).2) ht
  cases h.goes p with
  | same he => exact .owes (he ▸ hv) (he ▸ hl) ht'
  | started _ hi => rw [hi] at hv; cases hv
  | crashed _ he => exact .crashed he
  | @resumed i now hg _ he =>
    have hk : cfg.reserveMaxAttempts ≠ 0 := fun hk => by
      have hno := hbarren hk
      rw [(Proc.owned_not_barren hv).1] at hno
      cases hno
    rcases hg.owes ⟨p, s.draws⟩ now hs hb hk hv hl with ⟨hv', hl'⟩ | ⟨⟨request, r, hend⟩, hres⟩
    · exact .owes (he ▸ hv') (he ▸ hl') ht'
    · exact .met (v := v) (he.trans hend) (hkept.drawn p _ v (.inl rfl) (.inr hv)).1 ht' fun g hg' _ => hres g hg'

/-- A record that a call has resolved is not written again under its token. -/
theorem StepCase.met_stays {request : GenerationRequest} {r : Except Exn GenerationResult} (h : StepCase cfg s l s')
    (hi : inRange cfg ⟨s, l, s'⟩ = true) (hkept : s.Kept fun _ => False) (halone : Alone s p)
    (hend : s.procs p = .gen request (.ended r)) (howner : v.token.owner = p)
    (hrec : ∀ g, s.redis.gen.get v.id = some g → g.reservationToken = v.token → g.status ≠ .running) :
    ∀ g, s'.redis.gen.get v.id = some g → g.reservationToken = v.token → g.status ≠ .running := by
  intro g hg htoken
  rcases h.gen_origin hi hg with ⟨g₀, hg₀, hstep⟩ | ⟨q, st, w, hheld, hw, -, rfl⟩
  · have hsame := hstep.sameReservation.2.2.2.2.2.2
    have hn := hrec g₀ hg₀ (hsame.trans htoken)
    rw [hstep.resolved hn]
    exact hn
  · -- The call makes no more attempt, and no other one has its token.
    have hq := (hkept.drawn q st w hheld (.inl hw)).1
    have htoken' : w.token = v.token := htoken
    rw [htoken', howner] at hq
    subst hq
    rcases hheld with hlive | hpool
    · rw [hend] at hlive
      rw [← hlive] at hw
      cases hw
    · exact absurd hpool (halone (by rw [hend]; simp) st)

theorem StepCase.owes (h : StepCase cfg s l s') (hs : served cfg p ⟨s, l, s'⟩ = true)
    (hb : sendable cfg p ⟨s, l, s'⟩ = true) (hkept : s.Kept fun _ => False) (halone : Alone s p)
    (hbarren : cfg.reserveMaxAttempts = 0 → (s.procs p).barren = true) (hI : Owes cfg p tr s) :
    Owes cfg p (⟨s, l, s'⟩ :: tr) s' := by
  by_cases hc : s.procs p = .crashed
  · exact .crashed (h.crashed_stays hc)
  cases hI with
  | crashed hc' => exact absurd hc' hc
  | before ho ht => exact h.owes_before halone hc ho ht
  | owes hv hl ht => exact h.owes_owned hs hb hkept halone hc hbarren hv hl ht
  | @met v request r hend howner ht hrec =>
    have ht' := took_cons (h.not_debited halone hc (by rw [hend]; rfl)) ht
    cases h.goes p with
    | same he => exact .met (he.trans hend) howner ht' (h.met_stays (served_keeps hs).2.1 hkept halone hend howner hrec)
    | started _ hi => rw [hend] at hi; cases hi
    | crashed _ he => exact .crashed he
    | resumed hg => exact absurd (by rw [hend]; rfl) hg.awaits

end Step

/-! ## Runs -/

section Runs

variable {cfg : Config} {pg : Rows} {tr : List (Trans System Label)} {s : System} {p : ℕ} {v : Reservation}

theorem Runs.owes (hr : Runs cfg (System.start pg) tr s) (hs : ∀ t ∈ tr, served cfg p t = true)
    (hb : ∀ t ∈ tr, sendable cfg p t = true) : Alone s p ∧ Owes cfg p tr s := by
  have hall : ∀ t ∈ tr, served cfg p t = true ∧ sendable cfg p t = true := fun t ht => ⟨hs t ht, hb t ht⟩
  refine hr.invariant_history (I := fun tr s => Alone s p ∧ Owes cfg p tr s) hall
    ⟨fun _ _ hst => (by cases hst), .before rfl fun _ ht => (by cases ht)⟩ fun hr htr hI hstep hp => ?_
  have hrec : ∀ t ∈ _, Recording cfg (fun _ => False) t := fun t ht => ⟨(served_keeps (htr t ht).1).2.1, nofun⟩
  have h := step_cases hstep
  exact ⟨h.alone (served_keeps hp.1).1 hI.1, h.owes hp.1 hp.2 (Runs.kept hr hrec) hI.1 (Runs.barren hr p) hI.2⟩

/-- A record that is kept is there from its reservation on. -/
theorem Runs.took_record (hr : Runs cfg (System.start pg) tr s) (hh : ∀ t ∈ tr, Recording cfg (· = v.id) t)
    (ht : ∃ t ∈ tr, took cfg p t = some v) : ∃ g, s.redis.gen.get v.id = some g ∧ g.Of v := by
  refine Run.invariant_history
    (I := fun tr s => (∃ t ∈ tr, took cfg p t = some v) → ∃ g, s.redis.gen.get v.id = some g ∧ g.Of v) hr hh
    (fun ⟨_, ht, _⟩ => by cases ht) ?_ ht
  rintro tr s l s' - - hI hstep hp ⟨t, hmem, htook⟩
  have h := step_cases hstep
  rcases List.mem_cons.mp hmem with rfl | hmem
  · obtain ⟨x, n, hx, -, hv, hrep⟩ := took_some htook
    obtain ⟨pick, -, ha, he⟩ := h.executed hx
    have hcall : x.call = .reserve v.args := Action.call.inj (ha.symm.trans (Proc.reserving_action hv))
    rw [hcall, hrep] at he
    have hok := exec_ok he rfl
    generalize s'.redis = ρ' at hok ⊢
    cases hok with
    | reserve hres =>
      obtain ⟨c, b, -, -, -, -, rfl⟩ := hres.of_ok
      exact ⟨v.args.record, Table.get_set_self .., .refl _⟩
  · obtain ⟨g, hg, hof⟩ := hI ⟨t, hmem, htook⟩
    obtain ⟨g', hg', hs⟩ := h.genStep (hp.keeps v.id rfl) hp.inRange hg
    exact ⟨g', hg', hs.of hof⟩

/-- **No reservation is stranded.** When a call that was debited has returned or
raised, its record is not running, in every run in which Redis serves the call and what
the provider gives it can be sent. While the record is kept, it was settled, or refunded
with its whole plan. -/
theorem no_reservation_stranded {request : GenerationRequest} {r : Except Exn GenerationResult}
    (hr : Runs cfg (System.start pg) tr s) (hs : ∀ t ∈ tr, served cfg p t = true)
    (hb : ∀ t ∈ tr, sendable cfg p t = true) (ht : ∃ t ∈ tr, took cfg p t = some v)
    (hend : s.procs p = .gen request (.ended r)) :
    (∀ g, s.redis.gen.get v.id = some g → g.reservationToken = v.token → g.status ≠ .running) ∧
      ((∀ t ∈ tr, t.label.keepsRecord v.id = true) →
        ∃ g, s.redis.gen.get v.id = some g ∧ g.Of v ∧ tr.countP (resolves cfg v.id) = 1 ∧
          (g.status = .done ∨ g.status = .failed ∧ ∃ t ∈ tr, GivesBack cfg v.id g t)) := by
  obtain ⟨-, howes⟩ := Runs.owes hr hs hb
  have hmet : ∀ g, s.redis.gen.get v.id = some g → g.reservationToken = v.token → g.status ≠ .running := by
    obtain ⟨t, hmem, htook⟩ := ht
    cases howes with
    | crashed hc => rw [hend] at hc; cases hc
    | before _ hno => rw [hno t hmem] at htook; cases htook
    | owes hv => rw [hend] at hv; cases hv
    | met _ _ hall hres =>
      cases hall t hmem v htook
      exact hres
  refine ⟨hmet, fun hkeeps => ?_⟩
  have hh : ∀ t ∈ tr, Recording cfg (· = v.id) t := fun t ht =>
    ⟨(served_keeps (hs t ht)).2.1, fun id hid => by rw [hid]; exact hkeeps t ht⟩
  obtain ⟨g, hg, hof⟩ := Runs.took_record hr hh ht
  have hn := hmet g hg hof.token
  obtain ⟨-, hresolved⟩ := Runs.called hr hh
  have hcount := hresolved.count v.id rfl
  rw [hg, Option.elim_some, if_neg hn] at hcount
  refine ⟨g, hg, hof, hcount, ?_⟩
  cases hst : g.status with
  | running => exact absurd hst hn
  | done => exact .inl rfl
  | failed => exact .inr ⟨rfl, hresolved.refunded v.id g rfl hg hst⟩

end Runs

/-- The provider sends an infinite bill while the reaper is about to refund. -/
def infiniteSchedule : List Label :=
  .spawn 0 (.gen (premium 1 5)) :: coldLoad 0 ++
    [.exec 0 [] 0, .provider 0, .spawn 1 (.reap 1000), .exec 1 [] 0, .exec 1 [] 0,
      .provided 0 (.result "text" (.infinity false)), .exec 0 [] 0, .exec 1 [] 0]

def nanSchedule : List Label :=
  .spawn 0 (.gen (premium 1 5)) :: coldLoad 0 ++
    [.exec 0 [] 0, .provider 0, .provided 0 (.result "text" .nan)]

/-- A generation that ended, returning or raising. -/
def Proc.isEnded : Proc → Bool
  | .gen _ (.ended _) => true
  | _ => false

theorem Proc.isEnded_true {st : Proc} (h : st.isEnded = true) : ∃ request r, st = .gen request (.ended r) := by
  unfold Proc.isEnded at h
  split at h
  · exact ⟨_, _, rfl⟩
  · cases h

/-- A call is charged an infinite bill as far as it was authorized. -/
theorem no_reservation_stranded_infinite : ∃ tr s v g, Runs {} (System.start dollarRows) tr s ∧
    (∃ t ∈ tr, took {} 0 t = some v) ∧ (s.procs 0).isEnded = true ∧ s.redis.gen.get v.id = some g ∧ g.Of v ∧
    g.status ≠ .running := by
  obtain ⟨tr, s, hr, hp⟩ := Runs.of_schedule {} (System.start dollarRows) infiniteSchedule
    (fun tr s => tr.all (fun t => served {} 0 t && sendable {} 0 t && t.label.keepsRecords) &&
      tr.any (fun t => (took {} 0 t).isSome) && (s.procs 0).isEnded) (by decide +kernel)
  simp only [Bool.and_eq_true, List.all_eq_true, List.any_eq_true, Option.isSome_iff_exists] at hp
  obtain ⟨⟨hall, t, ht, v, hv⟩, hended⟩ := hp
  obtain ⟨request, r, hend⟩ := Proc.isEnded_true hended
  obtain ⟨hmet, hkept⟩ := no_reservation_stranded hr (fun t ht => (hall t ht).1.1) (fun t ht => (hall t ht).1.2)
    ⟨t, ht, hv⟩ hend
  obtain ⟨g, hg, hof, -⟩ := hkept fun t ht => Label.keepsRecord_of_keepsRecords (hall t ht).2 v.id
  exact ⟨tr, s, v, g, hr, ⟨t, ht, hv⟩, hended, hg, hof, hmet g hg hof.token⟩

/-- A call that is sent a bill that is not a number leaves its record running. -/
theorem reservation_stranded : ¬ ∀ (cfg : Config) (pg : Rows) (tr : List (Trans System Label)) (s : System),
    Runs cfg (System.start pg) tr s → ∀ (p : ℕ) (v : Reservation) (request : GenerationRequest)
    (r : Except Exn GenerationResult), (∀ t ∈ tr, served cfg p t = true) → (∃ t ∈ tr, took cfg p t = some v) →
    s.procs p = .gen request (.ended r) →
    ∀ g, s.redis.gen.get v.id = some g → g.reservationToken = v.token → g.status ≠ .running := by
  intro h
  obtain ⟨tr, s, hr, hp⟩ := Runs.of_schedule {} (System.start dollarRows) nanSchedule
    (fun tr s => tr.all (served {} 0) && tr.any (fun t => (took {} 0 t).any fun v =>
      (s.redis.gen.get v.id).any fun g => g.reservationToken = v.token && g.status = .running) && (s.procs 0).isEnded)
    (by decide +kernel)
  simp only [Bool.and_eq_true, List.all_eq_true, List.any_eq_true, Option.any_eq_true, decide_eq_true_eq] at hp
  obtain ⟨⟨hall, t, ht, v, hv, g, hg, htoken, hrun⟩, hended⟩ := hp
  obtain ⟨request, r, hend⟩ := Proc.isEnded_true hended
  exact h {} dollarRows tr s hr 0 v request r hall ⟨t, ht, hv⟩ hend g hg htoken hrun

end GenerationBalance
