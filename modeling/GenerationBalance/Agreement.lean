/-
Deliveries of one `client_request_id`: the provider is called at most once, the
record is resolved at most once, and all deliveries that end agree. The counts
are of the transitions taken; the invariants tie them to the record.
-/
import GenerationBalance.Ledger
import GenerationBalance.Outcomes

namespace GenerationBalance

open Transition

/-! ## Calls of the provider -/

/-- The transition calls the provider for a request. -/
def callsProvider (id : RequestId) (t : Trans System Label) : Bool :=
  match t.label with
  | .provider p => (t.pre.procs p).request.any (·.clientRequestId == id)
  | _ => false

/-- The reservation a call tries, or has and has not called the provider for. -/
def Proc.uncalled : Proc → Option Reservation
  | .gen _ (.reserving v _ _) | .gen _ (.calling v) => some v
  | _ => none

theorem Proc.uncalled_around {st : Proc} {v : Reservation} (h : st.uncalled = some v) : st.Around v := by
  cases st with
  | gen request pc => cases pc <;> cases h <;> first | exact .inl rfl | exact .inr rfl
  | _ => cases h

theorem Proc.Blank.uncalled {st : Proc} (h : st.Blank) : st.uncalled = none := by
  cases hu : st.uncalled with
  | none => rfl
  | some v => exact absurd (Proc.uncalled_around hu) (h.not_around v)

theorem Proc.resume_uncalled {cfg : Config} {fresh : Token} {now : ℚ} {st : Proc} {i : Input} {v : Reservation}
    (h : (st.resume cfg fresh now i).uncalled = some v) : st.uncalled = some v ∨ v.token = fresh := by
  cases st with
  | gen request pc =>
    have hm : GenMove request fresh now pc i (pc.resume cfg request fresh now i) := genMove cfg
    simp only [Proc.resume] at h
    generalize pc.resume cfg request fresh now i = pc' at hm h
    cases hm with
    | stay | reserveAgain => exact .inl h
    | reserve hb hmk => cases h; exact .inr (makeReservation_ok hmk).2.2
    | reserved hr => cases h; exact .inl rfl
    | _ => cases h
  | _ => cases h

theorem Goes.uncalled {cfg : Config} {s s' : System} {l : Label} {p : ℕ} {v : Reservation} (h : Goes cfg s s' l p)
    (hv : (s'.procs p).uncalled = some v) : (s.procs p).uncalled = some v ∨ v.token = ⟨p, s.draws⟩ := by
  cases h with
  | same he => rw [he] at hv; exact .inl hv
  | @started job hl hi he => rw [he, (job.start_blank cfg).uncalled] at hv; cases hv
  | resumed hg hd he => rw [he] at hv; exact Proc.resume_uncalled hv
  | crashed hl he => rw [he] at hv; cases hv

/-- The provider was called at most once for a request; if it was, the record is
there, and no call that has not called the provider can have it. -/
structure Called (K : RequestId → Prop) (tr : List (Trans System Label)) (s : System) : Prop where
  once : ∀ id, K id → tr.countP (callsProvider id) ≤ 1
  spent : ∀ id, K id → tr.countP (callsProvider id) ≠ 0 → ∃ g, s.redis.gen.get id = some g ∧
    ∀ p v, (s.procs p).uncalled = some v → v.token ≠ g.reservationToken

section Step

variable {cfg : Config} {tr : List (Trans System Label)} {s s' : System} {l : Label} {K : RequestId → Prop}

theorem StepCase.spent_keep (h : StepCase cfg s l s') (hk : s.Kept K) (hr : Recording cfg K ⟨s, l, s'⟩)
    {id : RequestId} (hK : K id)
    (hs : ∃ g, s.redis.gen.get id = some g ∧ ∀ p v, (s.procs p).uncalled = some v → v.token ≠ g.reservationToken) :
    ∃ g, s'.redis.gen.get id = some g ∧ ∀ p v, (s'.procs p).uncalled = some v → v.token ≠ g.reservationToken := by
  obtain ⟨g, hg, hn⟩ := hs
  obtain ⟨g', hg', hstep⟩ := h.genStep (hr.keeps id hK) hr.inRange hg
  have ht : g.reservationToken = g'.reservationToken := hstep.sameReservation.2.2.2.2.2.2
  refine ⟨g', hg', fun p v hv he => ?_⟩
  rcases (h.goes p).uncalled hv with hv | hnew
  · exact hn p v hv (he.trans ht.symm)
  · obtain ⟨w, -, hof, hw⟩ := hk.record id g hg
    rw [← hof.token, ht, ← he, hnew] at hw
    exact absurd hw (lt_irrefl _)

/-- A call that calls the provider is the one whose token the record carries. -/
theorem System.Kept.calling {p : ℕ} {request : GenerationRequest} {v : Reservation} (hk : s.Kept K)
    (hp : s.procs p = .gen request (.calling v)) (hK : K request.clientRequestId) :
    ∃ g, s.redis.gen.get request.clientRequestId = some g ∧ g.reservationToken = v.token := by
  obtain ⟨-, g, hg, hof⟩ := hk.own hp (v := v) rfl hK
  exact ⟨g, hg, hof.token⟩

theorem callsProvider_label {t : Trans System Label} {id : RequestId} (h : callsProvider id t = true) :
    ∃ p, t.label = .provider p ∧ (t.pre.procs p).request.any (·.clientRequestId == id) = true := by
  unfold callsProvider at h
  split at h
  · next p hl => exact ⟨p, hl, h⟩
  · cases h

theorem StepCase.called (h : StepCase cfg s l s') (hc : Called K tr s) (hk : s.Kept K)
    (hr : Recording cfg K ⟨s, l, s'⟩) : Called K (⟨s, l, s'⟩ :: tr) s' := by
  -- The first call of the provider for a request.
  have first : ∀ {id}, K id → callsProvider id ⟨s, l, s'⟩ = true → tr.countP (callsProvider id) = 0 ∧
      ∃ g, s'.redis.gen.get id = some g ∧ ∀ p v, (s'.procs p).uncalled = some v → v.token ≠ g.reservationToken := by
    intro id hK hcall
    obtain ⟨p, hl, hreq⟩ := callsProvider_label hcall
    simp only at hl hreq
    subst hl
    obtain ⟨request, v, hp, hp', hre, hother⟩ := h.provider
    rw [hp] at hreq
    obtain rfl : request.clientRequestId = id := by simpa [Proc.request] using hreq
    obtain ⟨g, hg, ht⟩ := hk.calling hp hK
    refine ⟨?_, g, by rw [hre]; exact hg, fun q w hw he => ?_⟩
    · by_contra hne
      obtain ⟨g', hg', hn⟩ := hc.spent _ hK hne
      rw [hg] at hg'
      cases hg'
      exact hn p v (by rw [hp]; rfl) ht.symm
    · by_cases hq : q = p
      · rw [hq, hp'] at hw
        cases hw
      · rw [hother q hq] at hw
        have h1 := (hk.drawn q _ w (.inl rfl) (Proc.uncalled_around hw)).1
        have h2 := (hk.drawn p _ v (.inl hp) (.inr rfl)).1
        rw [he, ht, h2] at h1
        exact hq h1.symm
  refine ⟨fun id hK => ?_, fun id hK hne => ?_⟩
  · rw [List.countP_cons]
    split
    · next hcall => rw [(first hK hcall).1]
    · exact hc.once id hK
  · rw [List.countP_cons] at hne
    by_cases hcall : callsProvider id ⟨s, l, s'⟩ = true
    · exact (first hK hcall).2
    · rw [if_neg hcall, Nat.add_zero] at hne
      exact h.spent_keep hk hr hK (hc.spent id hK hne)

end Step

theorem System.start_called (K : RequestId → Prop) (pg : Rows) : Called K [] (System.start pg) where
  once id _ := by simp
  spent id _ h := absurd rfl h

/-! ## Resolutions -/

/-- The request resolved the record `id`. -/
def Ran.resolves (id : RequestId) : Ran → Bool
  | ⟨_, _, .settle a, .settle .ok⟩ => a.clientRequestId == id
  | ⟨_, _, .refund a, .refund .ok⟩ => a.clientRequestId == id
  | _ => false

def resolves (cfg : Config) (id : RequestId) (t : Trans System Label) : Bool := (ran cfg t).any (Ran.resolves id)

/-- The transition refunded a record: its whole plan was added back to its user's
balance, every amount of it. -/
def GivesBack (cfg : Config) (id : RequestId) (g : GenerationHash) (t : Trans System Label) : Prop :=
  ∃ x a, ran cfg t = some x ∧ x.call = .refund a ∧ x.reply = .refund .ok ∧ a.clientRequestId = id ∧
    ∀ f, f.IsAmount → t.post.redis.hot g.userId f = t.pre.redis.hot g.userId f + g.plan.field f

/-- What a transition does to one record. -/
inductive RecordStep (cfg : Config) (id : RequestId) (t : Trans System Label) :
    Option GenerationHash → Option GenerationHash → Prop
  | same {o} : resolves cfg id t = false → RecordStep cfg id t o o
  | created (a : ReserveArgs) : resolves cfg id t = false → RecordStep cfg id t none (some a.record)
  | settled {g} (a : SettleArgs) : resolves cfg id t = true → g.status = .running →
      RecordStep cfg id t (some g) (some (a.record g))
  | refunded {g} (a : RefundArgs) : resolves cfg id t = true → g.status = .running → GivesBack cfg id g t →
      RecordStep cfg id t (some g) (some (a.record g))

section Step

variable {cfg : Config} {tr : List (Trans System Label)} {s s' : System} {l : Label} {K : RequestId → Prop}

/-- A request that writes the record `k`, whatever that is to `id`. -/
theorem RecordStep.write {t : Trans System Label} {ρ ρ' : Redis} {id k : RequestId} {r : GenerationHash}
    (hset : ρ'.gen = ρ.gen.set k r) (hother : k ≠ id → resolves cfg id t = false)
    (hid : k = id → RecordStep cfg id t (ρ.gen.get k) (some r)) :
    RecordStep cfg id t (ρ.gen.get id) (ρ'.gen.get id) := by
  by_cases hki : k = id
  · subst hki
    rw [hset, Table.get_set_self]
    exact hid rfl
  · rw [hset, Table.get_set_of_ne _ _ (Ne.symm hki)]
    exact .same (hother hki)

theorem RecordStep.call {t : Trans System Label} {x : Ran} {id : RequestId} (hx : ran cfg t = some x)
    (hok : CallOk t.pre.redis x.call x.reply t.post.redis)
    (hrefund : ∀ a, x.call = .refund a → a.clientRequestId = id →
      ∃ g, t.pre.redis.gen.get id = some g ∧ a.plan = g.plan ∧ a.userId = g.userId) :
    RecordStep cfg id t (t.pre.redis.gen.get id) (t.post.redis.gen.get id) := by
  have hres : resolves cfg id t = x.resolves id := by unfold resolves; rw [hx]; rfl
  have hgives : ∀ {a g}, x.call = .refund a → x.reply = .refund .ok → a.clientRequestId = id →
      (∀ f, f.IsAmount → t.post.redis.hot g.userId f = t.pre.redis.hot g.userId f + g.plan.field f) →
      GivesBack cfg id g t := fun hc hr hid hf => ⟨x, _, hx, hc, hr, hid, hf⟩
  obtain ⟨owner, st, c, r⟩ := x
  simp only at hok hrefund hgives
  generalize t.pre.redis = ρ at hok hrefund hgives ⊢
  generalize t.post.redis = ρ' at hok hgives ⊢
  cases hok with
  | @reserve a r ρ' hok =>
    cases hok with
    | applied hn hb hv hp hf =>
      refine .write (ρ := ρ) rfl (fun _ => hres) fun _ => ?_
      rw [hn]
      exact .created a hres
    | _ => exact .same hres
  | @settle a r ρ' hok =>
    cases hok with
    | «exact» hg hrun hf =>
      refine .write (ρ := ρ) rfl (fun hne => hres.trans (beq_eq_false_iff_ne.mpr hne)) fun hki => ?_
      rw [hg]
      exact .settled a (hres.trans (beq_iff_eq.mpr hki)) hrun
    | surplus hg hrun hsur hb hf =>
      refine .write (ρ := ρ) rfl (fun hne => hres.trans (beq_eq_false_iff_ne.mpr hne)) fun hki => ?_
      rw [hg]
      exact .settled a (hres.trans (beq_iff_eq.mpr hki)) hrun
    | _ => exact .same hres
  | @refund a r ρ' hok =>
    cases hok with
    | applied hg hrun hb hf =>
      refine .write (ρ := ρ) rfl (fun hne => hres.trans (beq_eq_false_iff_ne.mpr hne)) fun hki => ?_
      obtain ⟨g, hg', hp, hu⟩ := hrefund a rfl hki
      rw [← hki, hg] at hg'
      cases hg'
      rw [hg]
      refine .refunded a (hres.trans (beq_iff_eq.mpr hki)) hrun (hgives rfl rfl hki fun f hfa => ?_)
      rw [← hu, ← hp, Redis.hot_moved hb rfl hf a.userId hfa, if_pos rfl]
    | _ => exact .same hres
  | topUp hok => cases hok <;> exact .same hres
  | _ => exact .same hres

theorem StepCase.recordStep (h : StepCase cfg s l s') (hk : s.Kept K) (hr : Recording cfg K ⟨s, l, s'⟩)
    {id : RequestId} (hK : K id) :
    RecordStep cfg id ⟨s, l, s'⟩ (s.redis.gen.get id) (s'.redis.gen.get id) := by
  have same : ran cfg ⟨s, l, s'⟩ = none → s'.redis.gen.get id = s.redis.gen.get id →
      RecordStep cfg id ⟨s, l, s'⟩ (s.redis.gen.get id) (s'.redis.gen.get id) := fun hn he => by
    rw [he]
    exact .same (by unfold resolves; rw [hn]; rfl)
  cases h.store with
  | same hn he => exact same hn (by rw [he])
  | expired hn he => exact same hn (he.gen_get (hr.keeps id hK))
  | @ran x pick hx hheld ha he =>
    refine .call hx (callOk_of_ran hx hr.inRange he) fun a hc hid => ?_
    have hsend := Proc.sends ha
    rw [hc] at hsend
    subst hid
    exact hk.refund _ _ _ hheld hsend.of_refund hK

/-- A record was resolved once when it is resolved, and not at all when it is
not; and a failed one was refunded. -/
structure Resolved (cfg : Config) (K : RequestId → Prop) (tr : List (Trans System Label)) (s : System) : Prop where
  count : ∀ id, K id → tr.countP (resolves cfg id) =
    (s.redis.gen.get id).elim 0 fun g => if g.status = .running then 0 else 1
  refunded : ∀ id g, K id → s.redis.gen.get id = some g → g.status = .failed → ∃ t ∈ tr, GivesBack cfg id g t

theorem StepCase.resolvedOnce (h : StepCase cfg s l s') (hc : Resolved cfg K tr s) (hk : s.Kept K)
    (hr : Recording cfg K ⟨s, l, s'⟩) : Resolved cfg K (⟨s, l, s'⟩ :: tr) s' := by
  refine ⟨fun id hK => ?_, fun id g hK hg hf => ?_⟩
  · have hcount := hc.count id hK
    have hstep := h.recordStep hk hr hK
    rw [List.countP_cons, hcount]
    generalize s.redis.gen.get id = o at hstep ⊢
    generalize s'.redis.gen.get id = o' at hstep ⊢
    cases hstep with
    | same hn => simp [hn]
    | created a hn => simp [hn, ReserveArgs.record]
    | settled a hy hrun => simp [hy, hrun, SettleArgs.record]
    | refunded a hy hrun => simp [hy, hrun, RefundArgs.record]
  · have hstep := h.recordStep hk hr hK
    have hold := fun g hg => hc.refunded id g hK hg
    rw [hg] at hstep
    generalize s.redis.gen.get id = o at hstep hold
    generalize ho' : some g = o' at hstep
    cases hstep with
    | same hn =>
      obtain ⟨t, ht, hgive⟩ := hold g ho'.symm hf
      exact ⟨t, List.mem_cons_of_mem _ ht, hgive⟩
    | created a hn => cases ho'; cases hf
    | settled a hy hrun => cases ho'; cases hf
    | refunded a hy hrun hgive =>
      cases ho'
      exact ⟨_, List.mem_cons_self .., hgive⟩

end Step

theorem System.start_resolved (cfg : Config) (K : RequestId → Prop) (pg : Rows) :
    Resolved cfg K [] (System.start pg) where
  count id _ := rfl
  refunded id g _ hg := by cases hg

/-! ## Every run -/

section Runs

variable {cfg : Config} {pg : Rows} {tr : List (Trans System Label)} {s : System} {K : RequestId → Prop}

theorem Runs.called (hr : Runs cfg (.start pg) tr s) (hh : ∀ t ∈ tr, Recording cfg K t) :
    Called K tr s ∧ Resolved cfg K tr s := by
  refine hr.invariant_history (I := fun tr s => Called K tr s ∧ Resolved cfg K tr s) hh
    ⟨System.start_called K pg, System.start_resolved cfg K pg⟩ fun hr hh hI hstep ht => ?_
  have hk := Runs.kept hr hh
  exact ⟨(step_cases hstep).called hI.1 hk ht, (step_cases hstep).resolvedOnce hI.2 hk ht⟩

end Runs

/-- **Deliveries agree.** As long as the record of a request is kept and all sums
are in range, whatever deliveries of it there are: the provider is called at
most once; the record is created running and resolved at most once; no delivery
returns a result when another raises `GenerationFailedError`; and when one does,
the record was refunded, its whole plan, and resolved in no other way. -/
theorem deliveries_agree {cfg : Config} {pg : Rows} {tr : List (Trans System Label)} {s : System} {id : RequestId}
    (hr : Runs cfg (.start pg) tr s) (hl : ∀ t ∈ tr, recording cfg id t = true) :
    tr.countP (callsProvider id) ≤ 1 ∧
    (∀ t ∈ tr, (∀ g, t.pre.redis.gen.get id = some g →
        ∃ g', t.post.redis.gen.get id = some g' ∧ (g.status ≠ .running → g' = g)) ∧
      (t.pre.redis.gen.get id = none → ∀ g', t.post.redis.gen.get id = some g' → g'.status = .running)) ∧
    (∀ p q request request' r m, request.clientRequestId = id → request'.clientRequestId = id →
      Ended tr p request (.ok r) → ¬ Ended tr q request' (.error (.generationFailed m))) ∧
    ∀ p request m, request.clientRequestId = id → Ended tr p request (.error (.generationFailed m)) →
      ∃ g, s.redis.gen.get id = some g ∧ g.status = .failed ∧ tr.countP (resolves cfg id) = 1 ∧
        ∃ t ∈ tr, GivesBack cfg id g t := by
  have hh : ∀ t ∈ tr, Recording cfg (· = id) t := fun t ht => .of_recording (hl t ht)
  obtain ⟨hcalled, hresolved⟩ := Runs.called hr hh
  refine ⟨hcalled.once id rfl, fun t ht => ?_, fun p q request request' r m hid hid' hp hq => ?_,
    fun p request m hid hp => ?_⟩
  · obtain ⟨newer, older, he, hpre, hstep, -⟩ := hr.split ht
    refine ⟨fun g hg => ?_, fun hn g' hg' => ?_⟩
    · obtain ⟨g', hg', hs⟩ := (step_cases hstep).genStep ((hh t ht).keeps id rfl) (hh t ht).inRange hg
      exact ⟨g', hg', hs.resolved⟩
    · rcases (step_cases hstep).gen_origin (hh t ht).inRange hg' with ⟨g₀, hg₀, -⟩ | ⟨q, st, v, -, -, -, rfl⟩
      · rw [hn] at hg₀; cases hg₀
      · rfl
  · obtain ⟨g, hg, hd, -⟩ := (Runs.ended hr hh hid).1 r hp
    obtain ⟨g', hg', hf⟩ := (Runs.ended hr hh hid').2 m hq
    rw [hid] at hg
    rw [hid', hg] at hg'
    cases hg'
    rw [hd] at hf
    cases hf
  · obtain ⟨g, hg, hf⟩ := (Runs.ended hr hh hid).2 m hp
    rw [hid] at hg
    have hcount := hresolved.count id rfl
    rw [hg] at hcount
    refine ⟨g, hg, hf, by rw [hcount]; simp [hf], hresolved.refunded id g rfl hg hf⟩

/-- The provider fails, and a redelivery hears of it: one call of the provider,
one refund. -/
theorem deliveries_agree_failed :
    ∃ tr s, Runs {} (.start dollarRows) tr s ∧ Ended tr 1 (premium 1 5) (.error (.generationFailed "boom")) ∧
      tr.countP (callsProvider 5) ≤ 1 ∧ tr.countP (resolves {} 5) = 1 := by
  obtain ⟨tr, s, hr, h⟩ := Runs.of_schedule {} (.start dollarRows)
    (.spawn 0 (.gen (premium 1 5)) :: coldLoad 0 ++
      [.exec 0 [] 0, .provider 0, .provided 0 (.raised "boom" "RuntimeError" true), .exec 0 [] 0,
        .spawn 1 (.gen (premium 1 5)), .exec 1 [] 0, .exec 1 [] 0])
    (fun tr s => tr.all (recording {} 5) &&
      decide ((s.procs 1).answered = some (premium 1 5, .error (.generationFailed "boom")))) (by decide +kernel)
  simp only [Bool.and_eq_true, List.all_eq_true, decide_eq_true_eq] at h
  obtain ⟨hl, hp⟩ := h
  have hend : Ended tr 1 (premium 1 5) (.error (.generationFailed "boom")) := .of_end hr (Proc.answered_some hp)
  obtain ⟨h1, -, -, h4⟩ := deliveries_agree hr hl
  obtain ⟨g, -, -, hcount, -⟩ := h4 1 (premium 1 5) "boom" rfl hend
  exact ⟨tr, s, hr, hend, h1, hcount⟩

end GenerationBalance
