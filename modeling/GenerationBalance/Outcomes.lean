/-
What the deliveries of a generation end with. A result is returned only when
the record is done, a failure raised only when it is failed, and a resolved
record never changes again: so all deliveries agree.
-/
import GenerationBalance.Holders

namespace GenerationBalance

open Transition

/-! ## How a generation ends -/

theorem Proc.resume_gen {cfg : Config} {fresh : Token} {now : ℚ} {st : Proc} {i : Input} {request : GenerationRequest}
    {pc' : GenPc} (h : st.resume cfg fresh now i = .gen request pc') :
    ∃ pc, st = .gen request pc ∧ GenMove request fresh now pc i pc' := by
  cases st with
  | gen request' pc =>
    simp only [Proc.resume, Proc.gen.injEq] at h
    obtain ⟨rfl, hp⟩ := h
    exact ⟨pc, rfl, hp ▸ genMove cfg⟩
  | _ => cases h

section Given

variable {cfg : Config} {s s' : System} {l : Label} {p : ℕ} {i : Input} {request : GenerationRequest} {pc : GenPc}

/-- The record that a duplicate looks at is the stored one. -/
theorem Given.looks {g : GenerationHash} (h : Given cfg s s' l p i) (hs : s.Formed)
    (hst : s.procs p = .gen request pc) (hl : Looks pc i g) :
    s.redis.gen.get request.clientRequestId = some g ∧ s'.redis = s.redis := by
  cases hl with
  | denied => exact h.record (by rw [hst]; rfl)
  | polled => exact h.record (by rw [hst]; rfl)
  | @duplicate v n k g ht =>
    have hv : (s.procs p).reserving = some v := by rw [hst]; rfl
    have hreq := (hs p _ (.inl rfl)).reserving v hv
    rw [hst] at hreq
    cases hreq
    exact (h.reserve hv).of_dup

end Given

/-- Where a returned result comes from. -/
inductive Returns (request : GenerationRequest) : GenPc → Input → GenerationResult → Prop
  | ended {i r} : Returns request (.ended (.ok r)) i r
  | duplicate {pc i g} : Looks pc i g → g.status = .done → Returns request pc i (duplicateResult request g)
  | settled {S n k r} : r = .ok ∨ r = .done → Returns request (.settling S n k) (.reply (.settle r)) S.result

theorem GenMove.returns {request : GenerationRequest} {fresh : Token} {now : ℚ} {pc : GenPc} {i : Input}
    {r : GenerationResult} (h : GenMove request fresh now pc i (.ended (.ok r))) : Returns request pc i r := by
  generalize hp : GenPc.ended (.ok r) = pc' at h
  cases h with
  | stay => cases hp; exact .ended
  | done hl hd => cases hp; exact .duplicate hl hd
  | settled hr => cases hp; exact .settled hr
  | _ => cases hp

/-- Where a raised `GenerationFailedError` comes from. -/
inductive Fails (request : GenerationRequest) : GenPc → Input → Prop
  | ended {i m} : Fails request (.ended (.error (.generationFailed m))) i
  | duplicate {pc i g} : Looks pc i g → g.status = .failed → Fails request pc i
  | reaped {S n k} : Fails request (.settling S n k) (.reply (.settle .stale))
  | refunded {v reason n k after r} : r = .ok ∨ r = .stale →
      Fails request (.refunding v reason (.calling n k) after) (.reply (.refund r))

theorem Exn.isAccess_not_failed {e : Exn} (h : e.isAccess = true) : e.isFailed = false := by
  cases e <;> first | rfl | cases h

theorem GenMove.fails {request : GenerationRequest} {fresh : Token} {now : ℚ} {pc : GenPc} {i : Input} {m : String}
    (h : GenMove request fresh now pc i (.ended (.error (.generationFailed m)))) (hf : (Proc.gen request pc).Formed) :
    Fails request pc i := by
  have loader : ∀ {l : LoaderPc}, (Proc.gen request pc).loader = some (request.userId, l) →
      l.resume fresh i = .raise (.generationFailed m) → False := by
    intro l hl hr
    rcases LoaderPc.resume_raise hr with he | ⟨t, rfl⟩
    · cases he
    · cases hf.exit _ _ _ hl
  generalize hp : GenPc.ended (.error (.generationFailed m)) = pc' at h
  cases h with
  | stay => cases hp; exact .ended
  | raised he => cases hp; cases he
  | denial => cases hp; cases Exn.isAccess_not_failed (hf.denial _ rfl)
  | loadRaised hr => cases hp; exact (loader rfl hr).elim
  | settleLoadRaised hr => cases hp; exact (loader rfl hr).elim
  | refundRaised hr =>
    cases hp
    rcases LoaderPc.resume_raise hr with he | ⟨t, rfl⟩
    · cases he
    · cases hf.exit _ _ _ rfl
  | failed hl hd => exact .duplicate hl hd
  | settleStale => exact .reaped
  | refunded hr => exact .refunded hr
  | _ => cases hp

/-! ## Who asked the provider -/

/-- The call `p` has called the provider. -/
def asked (tr : List (Trans System Label)) (p : ℕ) : Bool :=
  tr.any fun t =>
    match t.label with
    | .provider q => q == p
    | _ => false

/-- Whether a call that has not ended has called the provider. -/
def Proc.hasAsked : Proc → Option Bool
  | .idle => some false
  | .gen _ (.loading ..) | .gen _ (.reserving ..) | .gen _ (.denied ..) | .gen _ (.waiting _) | .gen _ (.polling _)
  | .gen _ (.calling _) => some false
  | .gen _ (.generating _) | .gen _ (.settling ..) | .gen _ (.settleLoading ..) | .gen _ (.refunding ..) => some true
  | _ => none

theorem asked_cons {t : Trans System Label} (tr : List (Trans System Label)) {p : ℕ} (h : t.label ≠ .provider p) :
    asked (t :: tr) p = asked tr p := by
  unfold asked
  rw [List.any_cons]
  split
  · next q hl =>
    have hq : (q == p) = false := beq_eq_false_iff_ne.mpr fun hq => h (by rw [hl, hq])
    rw [hq, Bool.false_or]
  · exact Bool.false_or _

theorem asked_provider {t : Trans System Label} (tr : List (Trans System Label)) {p : ℕ} (h : t.label = .provider p) :
    asked (t :: tr) p = true := by
  unfold asked
  rw [List.any_cons, h]
  simp

theorem Proc.resume_hasAsked {cfg : Config} {fresh : Token} {now : ℚ} {st : Proc} {i : Input} {b : Bool}
    (h : (st.resume cfg fresh now i).hasAsked = some b) : st.hasAsked = some b ∨ i = .called := by
  cases st with
  | gen request pc =>
    have hm : GenMove request fresh now pc i (pc.resume cfg request fresh now i) := genMove cfg
    simp only [Proc.resume] at h
    generalize pc.resume cfg request fresh now i = pc' at hm h
    cases hm with
    | called => exact .inr rfl
    | reserve hb => cases hb <;> exact .inl h
    | denied hb => cases hb <;> exact .inl h
    | wait hl => cases hl <;> exact .inl h
    | raised | denial | loadRaised | done | failed | settled | settleStale | settleLoadRaised | refunded
    | refundRaised => cases h
    | _ => exact .inl h
  | idle => exact .inl h
  | _ => cases h

theorem Given.called_label {cfg : Config} {s s' : System} {l : Label} {p : ℕ} (h : Given cfg s s' l p .called) :
    l = .provider p := by
  cases h with
  | feed hf =>
    generalize s'.pg = pg at hf
    cases hf with
    | called => rfl

/-- A call that has not ended knows whether it called the provider. -/
def Asks (tr : List (Trans System Label)) (s : System) : Prop :=
  ∀ p b, (s.procs p).hasAsked = some b → asked tr p = b

theorem StepCase.asks {cfg : Config} {tr : List (Trans System Label)} {s s' : System} {l : Label}
    (h : StepCase cfg s l s') (hs : Asks tr s) : Asks (⟨s, l, s'⟩ :: tr) s' := by
  intro p b hb
  by_cases hl : l = .provider p
  · subst hl
    obtain ⟨request, v, -, hp', -, -⟩ := h.provider
    rw [hp'] at hb
    cases hb
    exact asked_provider tr rfl
  · rw [asked_cons (t := ⟨s, l, s'⟩) tr hl]
    cases h.goes p with
    | same he => exact hs p b (he ▸ hb)
    | @started job hl hi he =>
      have hidle := hs p false (by rw [hi]; rfl)
      rw [he] at hb
      cases job with
      | gen request =>
        simp only [Job.start, GenPc.start] at hb
        split at hb <;> cases hb
        exact hidle
      | _ => cases hb
    | crashed hl he => rw [he] at hb; cases hb
    | resumed hg hd he =>
      rw [he] at hb
      rcases Proc.resume_hasAsked hb with hb | rfl
      · exact hs p b hb
      · exact absurd hg.called_label hl

/-! ## The invariant -/

/-- What a delivery returns at a done record: the result of its settlement when it
called the provider, and else what the record holds. -/
def Returned (asked : Bool) (request : GenerationRequest) (g : GenerationHash) (r : GenerationResult) : Prop :=
  if asked then ∃ S, Settles S request.clientRequestId g ∧ r = S.result else r = duplicateResult request g

/-- What a call returned or raised is what the record says. -/
structure Agreed (K : RequestId → Prop) (tr : List (Trans System Label)) (s : System) : Prop where
  returned : ∀ p request r, s.procs p = .gen request (.ended (.ok r)) → K request.clientRequestId →
    ∃ g, s.redis.gen.get request.clientRequestId = some g ∧ g.status = .done ∧ Returned (asked tr p) request g r
  failed : ∀ p request m, s.procs p = .gen request (.ended (.error (.generationFailed m))) →
    K request.clientRequestId → ∃ g, s.redis.gen.get request.clientRequestId = some g ∧ g.status = .failed

section Step

variable {cfg : Config} {tr : List (Trans System Label)} {s s' : System} {l : Label} {K : RequestId → Prop}

/-- A resolved record stays. -/
theorem StepCase.resolved {id : RequestId} {g : GenerationHash} (h : StepCase cfg s l s')
    (hr : Recording cfg K ⟨s, l, s'⟩) (hK : K id) (hg : s.redis.gen.get id = some g) (hn : g.status ≠ .running) :
    s'.redis.gen.get id = some g := by
  obtain ⟨g', hg', hstep⟩ := h.genStep (hr.keeps id hK) hr.inRange hg
  rw [hg', hstep.resolved hn]

/-- The reservation of a call is for its own request, and has its record. -/
theorem System.Kept.own {p : ℕ} {request : GenerationRequest} {pc : GenPc} {v : Reservation} (hs : s.Kept K)
    (hst : s.procs p = .gen request pc) (hv : (Proc.gen request pc).owned = some v) (hK : K request.clientRequestId) :
    v.request = request ∧ ∃ g, s.redis.gen.get request.clientRequestId = some g ∧ g.Of v := by
  have hreq : (Proc.gen request pc).request = some v.request :=
    (hs.formed p _ (.inl hst)).owned v hv
  cases hreq
  obtain ⟨g, hg, hof⟩ := hs.owned p _ v (.inl hst) hv hK
  exact ⟨rfl, g, hg, hof⟩

theorem StepCase.returned (h : StepCase cfg s l s') (ha : Agreed K tr s) (hs : s.Kept K) (ht : s.Tied K)
    (has : Asks tr s) (hr : Recording cfg K ⟨s, l, s'⟩) {p : ℕ} {request : GenerationRequest} {r : GenerationResult}
    (hp : s'.procs p = .gen request (.ended (.ok r))) (hK : K request.clientRequestId) :
    ∃ g, s'.redis.gen.get request.clientRequestId = some g ∧ g.status = .done ∧
      Returned (asked (⟨s, l, s'⟩ :: tr) p) request g r := by
  have hl : l ≠ .provider p := by
    rintro rfl
    obtain ⟨_, _, -, hp', -⟩ := h.provider
    rw [hp'] at hp
    cases hp
  rw [asked_cons (t := ⟨s, l, s'⟩) tr hl]
  have before : s.procs p = .gen request (.ended (.ok r)) →
      ∃ g, s'.redis.gen.get request.clientRequestId = some g ∧ g.status = .done ∧
        Returned (asked tr p) request g r := fun hp => by
    obtain ⟨g, hg, hd, ho⟩ := ha.returned p request r hp hK
    exact ⟨g, h.resolved hr hK hg (by rw [hd]; decide), hd, ho⟩
  cases h.goes p with
  | same he => rw [he] at hp; exact before hp
  | @started job hl hi he =>
    rw [he] at hp
    cases job with
    | gen request =>
      simp only [Job.start, GenPc.start] at hp
      split at hp <;> cases hp
    | _ => cases hp
  | crashed hl he => rw [he] at hp; cases hp
  | resumed hg hd he =>
    rw [he] at hp
    obtain ⟨pc, hst, hm⟩ := Proc.resume_gen hp
    cases hm.returns with
    | ended => exact before hst
    | duplicate hl hdone =>
      obtain ⟨hget, hre⟩ := hg.looks hs.formed hst hl
      refine ⟨_, by rw [hre]; exact hget, hdone, ?_⟩
      have hno : asked tr p = false := has p false (by rw [hst]; cases hl <;> rfl)
      rw [hno]
      exact rfl
    | @settled S n k reply hrep =>
      rw [has p true (by rw [hst]; rfl)]
      obtain ⟨hreq, g, hget, hof⟩ := hs.own hst (v := S.reservation) rfl hK
      obtain ⟨m, hsound⟩ := S.sound
      have hrid : S.reservation.id = request.clientRequestId := by rw [← hreq]; rfl
      have hid : S.args.clientRequestId = request.clientRequestId := hsound.clientRequestId.trans hrid
      have hok : SettleOk S.args s.redis reply s'.redis := hg.settle (by rw [hst]; rfl)
      rcases hrep with rfl | rfl
      · obtain ⟨g', hget', -, hgen⟩ := hok.of_ok
        rw [hid] at hget' hgen
        rw [hget] at hget'
        cases hget'
        exact ⟨S.args.record g, by rw [hgen, Table.get_set_self], rfl, S, ⟨hrid, hof, rfl⟩, rfl⟩
      · obtain ⟨g', hget', hdone, hre⟩ := hok.of_done
        rw [hid, hget] at hget'
        cases hget'
        have haround : (s.procs p).Around S.reservation := by rw [hst]; exact .inr rfl
        obtain ⟨S', hS', hset⟩ := ht.done p S.reservation g haround (hrid ▸ hK) (hrid ▸ hget) hof.token hdone
        rw [hst] at hS'
        cases hS'
        exact ⟨g, by rw [hre]; exact hget, hdone, S, hrid ▸ hset, rfl⟩

theorem StepCase.failed (h : StepCase cfg s l s') (ha : Agreed K tr s) (hs : s.Kept K) (ht : s.Tied K)
    (hr : Recording cfg K ⟨s, l, s'⟩) {p : ℕ} {request : GenerationRequest} {m : String}
    (hp : s'.procs p = .gen request (.ended (.error (.generationFailed m)))) (hK : K request.clientRequestId) :
    ∃ g, s'.redis.gen.get request.clientRequestId = some g ∧ g.status = .failed := by
  have before : ∀ {m : String}, s.procs p = .gen request (.ended (.error (.generationFailed m))) →
      ∃ g, s'.redis.gen.get request.clientRequestId = some g ∧ g.status = .failed := fun {m} hp => by
    obtain ⟨g, hg, hf⟩ := ha.failed p request m hp hK
    exact ⟨g, h.resolved hr hK hg (by rw [hf]; decide), hf⟩
  cases h.goes p with
  | same he => rw [he] at hp; exact before hp
  | @started job hl hi he =>
    rw [he] at hp
    cases job with
    | gen request =>
      simp only [Job.start, GenPc.start] at hp
      split at hp <;> cases hp
    | _ => cases hp
  | crashed hl he => rw [he] at hp; cases hp
  | resumed hg hd he =>
    rw [he] at hp
    obtain ⟨pc, hst, hm⟩ := Proc.resume_gen hp
    cases hm.fails (hst ▸ hs.formed p _ (.inl rfl)) with
    | ended => exact before hst
    | duplicate hl hf =>
      obtain ⟨hget, hre⟩ := hg.looks hs.formed hst hl
      exact ⟨_, by rw [hre]; exact hget, hf⟩
    | @reaped S =>
      obtain ⟨hreq, g, hget, hof⟩ := hs.own hst (v := S.reservation) rfl hK
      obtain ⟨m, hsound⟩ := S.sound
      have hid : S.args.clientRequestId = request.clientRequestId := hsound.clientRequestId.trans (by rw [hreq])
      have hok : SettleOk S.args s.redis .stale s'.redis := hg.settle (by rw [hst]; rfl)
      obtain ⟨hf, hre⟩ := hok.of_stale
      exact ⟨g, by rw [hre]; exact hget, hf g (by rw [hid]; exact hget)⟩
    | @refunded v reason n k after reply hrep =>
      obtain ⟨hreq, g, hget, hof⟩ := hs.own hst (v := v) rfl hK
      have hid : (v.refundArgs reason).clientRequestId = request.clientRequestId := by rw [← hreq]; rfl
      have hok : RefundOk (v.refundArgs reason) s.redis reply s'.redis := hg.refund (by rw [hst]; rfl)
      rcases hrep with rfl | rfl
      · obtain ⟨g', hget', -, hgen⟩ := hok.of_ok
        exact ⟨_, by rw [hgen, hid, Table.get_set_self], rfl⟩
      · obtain ⟨hn, hre⟩ := hok.of_stale
        have hn : g.status ≠ .running := hn g (by rw [hid]; exact hget)
        refine ⟨g, by rw [hre]; exact hget, ?_⟩
        cases hs : g.status with
        | running => exact absurd hs hn
        | failed => rfl
        | done =>
          -- The call has made no settlement, so its record is not done.
          have haround : (s.procs p).Around v := by rw [hst]; exact .inr rfl
          have hrid : v.id = request.clientRequestId := by rw [← hreq]; rfl
          obtain ⟨S, hS, -⟩ := ht.done p v g haround (hrid ▸ hK) (hrid ▸ hget) hof.token hs
          rw [hst] at hS
          cases hS

end Step

/-- Who owns what, who settles, who asked, and what was returned. -/
structure Settled (K : RequestId → Prop) (tr : List (Trans System Label)) (s : System) : Prop where
  kept : s.Kept K
  tied : s.Tied K
  asks : Asks tr s
  agreed : Agreed K tr s

theorem StepCase.settled {cfg : Config} {tr : List (Trans System Label)} {s s' : System} {l : Label}
    {K : RequestId → Prop} (h : StepCase cfg s l s') (hs : Settled K tr s) (hr : Recording cfg K ⟨s, l, s'⟩) :
    Settled K (⟨s, l, s'⟩ :: tr) s' where
  kept := h.kept hs.kept hr.inRange hr.keeps
  tied := h.tied hs.tied hs.kept hr
  asks := h.asks hs.asks
  agreed :=
    { returned := fun _ _ _ hp hK => h.returned hs.agreed hs.kept hs.tied hs.asks hr hp hK
      failed := fun _ _ _ hp hK => h.failed hs.agreed hs.kept hs.tied hr hp hK }

theorem System.start_settled (K : RequestId → Prop) (pg : Rows) : Settled K [] (System.start pg) where
  kept := System.start_kept K pg
  tied := System.start_tied K pg
  asks p b hb := by cases hb; rfl
  agreed :=
    { returned := fun p request r hp => by cases hp
      failed := fun p request m hp => by cases hp }

theorem Runs.settled {cfg : Config} {pg : Rows} {tr : List (Trans System Label)} {s : System} {K : RequestId → Prop}
    (hr : Runs cfg (.start pg) tr s) (hh : ∀ t ∈ tr, Recording cfg K t) : Settled K tr s :=
  hr.invariant_history hh (System.start_settled K pg) fun _ _ hs h ht => (step_cases h).settled hs ht

/-! ## Calls that ended -/

/-- The call `p` ended with `r`. -/
def Ended (tr : List (Trans System Label)) (p : ℕ) (request : GenerationRequest) (r : Except Exn GenerationResult) :
    Prop :=
  ∃ t ∈ tr, t.post.procs p = .gen request (.ended r)

section Runs

variable {cfg : Config} {pg : Rows} {tr : List (Trans System Label)} {s : System} {K : RequestId → Prop}

theorem Ended.of_end {p : ℕ} {request : GenerationRequest} {r : Except Exn GenerationResult}
    (hr : Runs cfg (.start pg) tr s) (hp : s.procs p = .gen request (.ended r)) : Ended tr p request r := by
  cases hr with
  | refl => cases hp
  | step _ _ => exact ⟨_, List.mem_cons_self .., hp⟩

/-- A resolved record is there to the end of the run. -/
theorem Runs.resolved_end {s₀ : System} {id : RequestId} {g : GenerationHash} (hr : Runs cfg s₀ tr s)
    (hh : ∀ t ∈ tr, Recording cfg K t) (hK : K id) (hg : s₀.redis.gen.get id = some g) (hn : g.status ≠ .running) :
    s.redis.gen.get id = some g :=
  hr.invariant hh hg fun hg h ht => (step_cases h).resolved ht hK hg hn

/-- A call that is over does not call the provider any more. -/
theorem Runs.asked_over {s₀ : System} {p : ℕ} (hr : Runs cfg s₀ tr s) (ho : (s₀.procs p).Over) :
    ∀ older, asked (tr ++ older) p = asked older p := by
  have := hr.invariant_history (P := fun _ => True)
    (I := fun tr s => (s.procs p).Over ∧ ∀ older, asked (tr ++ older) p = asked older p) (fun _ _ => trivial)
    ⟨ho, fun _ => rfl⟩ fun {tr s l s'} _ _ hI hstep _ => by
      have h := step_cases hstep
      refine ⟨(h.goes p).over hI.1, fun older => ?_⟩
      rw [List.cons_append, asked_cons (t := ⟨s, l, s'⟩), hI.2]
      rintro (hl : l = _)
      subst hl
      obtain ⟨request, v, hp, -⟩ := h.provider
      have := hI.1.not_around v
      rw [hp] at this
      exact this (.inr rfl)
  exact this.2

/-- What the record says when a call ended is what it says at the end. -/
theorem Runs.ended (hr : Runs cfg (.start pg) tr s) (hh : ∀ t ∈ tr, Recording cfg K t) {p : ℕ}
    {request : GenerationRequest} (hK : K request.clientRequestId) :
    (∀ r, Ended tr p request (.ok r) → ∃ g, s.redis.gen.get request.clientRequestId = some g ∧ g.status = .done ∧
      Returned (asked tr p) request g r) ∧
    ∀ m, Ended tr p request (.error (.generationFailed m)) →
      ∃ g, s.redis.gen.get request.clientRequestId = some g ∧ g.status = .failed := by
  -- The invariant where the call ended, and the rest of the run.
  have at_end : ∀ t ∈ tr, ∃ newer older, tr = newer ++ older ∧ Agreed K older t.post ∧
      (∀ t ∈ newer, Recording cfg K t) ∧ Runs cfg t.post newer s := by
    intro t ht
    obtain ⟨newer, older, he, hpre, hstep, hpost⟩ := hr.split ht
    have hpre' : ∀ t' ∈ t :: older, Recording cfg K t' := fun t' ht' => hh t' (by rw [he]; simp_all)
    exact ⟨newer, t :: older, he, (Runs.settled (.step hpre hstep) hpre').agreed,
      fun t' ht' => hh t' (by rw [he]; simp [ht']), hpost⟩
  refine ⟨fun r ⟨t, ht, hp⟩ => ?_, fun m ⟨t, ht, hp⟩ => ?_⟩
  · obtain ⟨newer, older, he, ha, hh', hr'⟩ := at_end t ht
    obtain ⟨g, hg, hd, ho⟩ := ha.returned p request r hp hK
    refine ⟨g, Runs.resolved_end hr' hh' hK hg (by rw [hd]; decide), hd, ?_⟩
    rwa [he, Runs.asked_over hr' (.inr ⟨_, _, hp⟩)]
  · obtain ⟨newer, older, he, ha, hh', hr'⟩ := at_end t ht
    obtain ⟨g, hg, hf⟩ := ha.failed p request m hp hK
    exact ⟨g, Runs.resolved_end hr' hh' hK hg (by rw [hf]; decide), hf⟩

end Runs

end GenerationBalance
