/-
The reaper and the clock. The index lists a reservation under the time it was
started at, so what a reaper refunds was `REAP_AFTER_SECONDS` old when the reaper
looked at the clock, but for the rounding of its cutoff: as long as the record is
kept. If the clock never goes back, a call that settles sooner is never told that its
reservation was reaped underneath it.
-/
import GenerationBalance.Holders
import GenerationBalance.Reaping

namespace GenerationBalance

open Transition

/-! ## The clock -/

/-- What the clock says in a step, if it is read. -/
def Label.clock : Label → Option ℚ
  | .exec _ _ now | .spawn _ (.reap now) => some now
  | _ => none

/-- The clock never goes back. The newest transition comes first. -/
def Clocked (tr : List (Trans System Label)) : Prop := (tr.filterMap fun t => t.label.clock).Pairwise (· ≥ ·)

instance (tr : List (Trans System Label)) : Decidable (Clocked tr) :=
  inferInstanceAs (Decidable ((tr.filterMap fun t => t.label.clock).Pairwise (· ≥ ·)))

theorem Clocked.le {t t' : Trans System Label} {newer older : List (Trans System Label)} {now now' : ℚ}
    (h : Clocked (newer ++ t :: older)) (ht : t.label.clock = some now) (hm : t' ∈ older)
    (ht' : t'.label.clock = some now') : now' ≤ now := by
  simp only [Clocked, List.filterMap_append, List.filterMap_cons, ht, List.pairwise_append, List.pairwise_cons] at h
  exact h.2.1.1 now' (List.mem_filterMap.mpr ⟨t', hm, ht'⟩)

/-- The reaper `p` was started when the clock said `now`. -/
def Begun (tr : List (Trans System Label)) (p : ℕ) (now : ℚ) : Prop := ∃ t ∈ tr, t.label = .spawn p (.reap now)

/-- A reaper was started when a reservation of that time was due. -/
def Due (cfg : Config) (tr : List (Trans System Label)) (startedAt : ℚ) : Prop :=
  ∃ p now, Begun tr p now ∧ startedAt ≤ cfg.cutoff now

theorem Begun.cons {tr : List (Trans System Label)} {p : ℕ} {now : ℚ} (h : Begun tr p now) (t : Trans System Label) :
    Begun (t :: tr) p now := by
  obtain ⟨t', ht, hl⟩ := h
  exact ⟨t', List.mem_cons_of_mem _ ht, hl⟩

theorem Due.cons {cfg : Config} {tr : List (Trans System Label)} {startedAt : ℚ} (h : Due cfg tr startedAt)
    (t : Trans System Label) : Due cfg (t :: tr) startedAt := by
  obtain ⟨p, now, hb, hle⟩ := h
  exact ⟨p, now, hb.cons t, hle⟩

/-! ## Who refunds -/

/-- The reservation that its own call returns. -/
def Proc.undoing : Proc → Option Reservation
  | .gen _ (.refunding v _ _ _) => some v
  | _ => none

theorem Proc.undoing_owned {st : Proc} {v : Reservation} (h : st.undoing = some v) : st.owned = some v := by
  cases st with
  | gen request pc =>
    cases pc with
    | refunding => cases h; rfl
    | _ => cases h
  | _ => cases h

/-- A refund is of the call's own reservation, or a reaper's. -/
theorem Proc.refund_cases {st : Proc} {a : RefundArgs} (h : st.refund = some a) :
    (∃ v reason, st.undoing = some v ∧ a = v.refundArgs reason) ∨
      ∃ rpc todo k, st = .reap (.refunding a rpc todo k) := by
  cases st with
  | gen request pc =>
    cases pc with
    | refunding v reason rpc after => cases h; exact .inl ⟨v, reason, rfl, rfl⟩
    | _ => cases h
  | reap pc =>
    cases pc with
    | refunding b rpc todo k => cases h; exact .inr ⟨rpc, todo, k, rfl⟩
    | _ => cases h
  | _ => cases h

/-- A call that returns its reservation does nothing else any more. -/
theorem Proc.undoing_keep {cfg : Config} {fresh : Token} {now : ℚ} {st : Proc} {i : Input} {v : Reservation}
    (h : st.undoing = some v) :
    (st.resume cfg fresh now i).undoing = some v ∨ (st.resume cfg fresh now i).Over := by
  cases st with
  | gen request pc =>
    have hm : GenMove request fresh now pc i (pc.resume cfg request fresh now i) := genMove cfg
    simp only [Proc.resume]
    generalize pc.resume cfg request fresh now i = pc' at hm ⊢
    cases hm with
    | stay => exact .inl h
    | raised | loadRaised | settled | settleStale | settleLoadRaised | refunded | refundRaised | denial | done
    | failed =>
      exact .inr (.inr ⟨_, _, rfl⟩)
    | refund => cases h
    | refunds => cases h; exact .inl rfl
    | reserve hb => cases hb <;> cases h
    | denied hb => cases hb <;> cases h
    | wait hb => cases hb <;> cases h
    | _ => cases h
  | _ => cases h

section Step

variable {cfg : Config} {s s' : System} {l : Label} {p : ℕ}

theorem Goes.undoing {v : Reservation} (h : Goes cfg s s' l p) (hv : (s.procs p).undoing = some v) :
    (s'.procs p).undoing = some v ∨ (s'.procs p).Over := by
  cases h with
  | same he => rw [he]; exact .inl hv
  | started hl hi he => rw [hi] at hv; cases hv
  | resumed hg hd he => rw [he]; exact Proc.undoing_keep hv
  | crashed hl he => exact .inr (.inl he)

theorem Proc.leftovers_reap {st : Proc} {pc : ReapPc} (h : Proc.reap pc ∈ st.leftovers cfg) : st = .reap pc := by
  unfold Proc.leftovers at h
  split at h
  · obtain ⟨x, -, hx⟩ := List.mem_map.mp h
    cases hx
  · split at h
    · exact (List.mem_singleton.mp h).symm
    · cases h

end Step

/-! ## The index and the ids in a reaper's hands -/

/-- The index has the record under the time it was started at, if it has it. -/
def Redis.Scores (ρ : Redis) (id : RequestId) : Prop :=
  ∀ score, ρ.inflight.get id = some score → ∃ g, ρ.gen.get id = some g ∧ g.startedAt = score

theorem Redis.Scores.same {ρ ρ' : Redis} {id : RequestId} (h : ρ.Scores id) (hg : ρ'.gen.get id = ρ.gen.get id)
    (hi : ρ'.inflight = ρ.inflight) : ρ'.Scores id := by
  intro score hs
  rw [hi] at hs
  rw [hg]
  exact h score hs

theorem Redis.Scores.resolved {ρ ρ' : Redis} {id k : RequestId} {g : GenerationHash} (h : ρ.Scores id)
    (hg : ρ'.gen = ρ.gen.set k g) (hi : ρ'.inflight = ρ.inflight.del k) : ρ'.Scores id := by
  intro score hs
  rw [hi, Table.get_del] at hs
  split at hs
  · cases hs
  · next hne =>
    rw [hg, Table.get_set_of_ne _ _ hne]
    exact h score hs

theorem CallOk.scores {ρ ρ' : Redis} {c : Call} {r : Reply} {id : RequestId} (h : CallOk ρ c r ρ')
    (hs : ρ.Scores id) : ρ'.Scores id := by
  cases h with
  | forgot k =>
    intro score hscore
    replace hscore : (ρ.inflight.del k).get id = some score := hscore
    rw [Table.get_del] at hscore
    split at hscore
    · cases hscore
    · exact hs score hscore
  | @reserve a r ρ' h =>
    cases h with
    | applied =>
      intro score hscore
      replace hscore : (ρ.inflight.set a.clientRequestId a.startedAt).get id = some score := hscore
      show ∃ g, (ρ.gen.set a.clientRequestId a.record).get id = some g ∧ g.startedAt = score
      rw [Table.get_set] at hscore ⊢
      split at hscore
      · next he =>
        rw [if_pos he]
        exact ⟨a.record, rfl, Option.some.inj hscore⟩
      · next hne =>
        rw [if_neg hne]
        exact hs score hscore
    | _ => exact hs
  | settle h =>
    cases h with
    | «exact» => exact hs.resolved rfl rfl
    | surplus => exact hs.resolved rfl rfl
    | _ => exact hs
  | refund h =>
    cases h with
    | applied => exact hs.resolved rfl rfl
    | _ => exact hs
  | topUp h => cases h <;> exact hs.same rfl rfl
  | _ => exact hs.same rfl rfl

/-- What a reaper looks for, and has found: it was due when the clock said `now`. -/
structure ReapPc.Seeks (cfg : Config) (ρ : Redis) (id : RequestId) (now : ℚ) (pc : ReapPc) : Prop where
  cutoff : ∀ cutoff, pc = .listing cutoff → cutoff = cfg.cutoff now
  ids : id ∈ pc.ids → ∃ g, ρ.gen.get id = some g ∧ g.startedAt ≤ cfg.cutoff now

/-- Every reaper was started at a time of the clock, and all it has in hand was due then. -/
structure Punctual (cfg : Config) (id : RequestId) (tr : List (Trans System Label)) (s : System) : Prop where
  scores : s.redis.Scores id
  reapers : ∀ p pc, s.Holds p (.reap pc) → ∃ now, Begun tr p now ∧ pc.Seeks cfg s.redis id now

section Step

variable {cfg : Config} {s s' : System} {l : Label} {p : ℕ} {id : RequestId} {tr : List (Trans System Label)}

theorem StepCase.scores (h : StepCase cfg s l s') (hr : Recording cfg (· = id) ⟨s, l, s'⟩) (hs : s.redis.Scores id) :
    s'.redis.Scores id := by
  cases h.store with
  | same _ he => exact hs.same (by rw [he]) (by rw [he])
  | expired _ he =>
    refine hs.same (he.gen_get (hr.keeps id rfl)) ?_
    generalize s'.redis = ρ' at he ⊢
    cases he <;> rfl
  | ran hx _ _ he => exact (callOk_of_ran hx hr.inRange he).scores hs

/-- A record keeps the time it was started at. -/
theorem StepCase.started (h : StepCase cfg s l s') (hr : Recording cfg (· = id) ⟨s, l, s'⟩) {cutoff : ℚ}
    (hg : ∃ g, s.redis.gen.get id = some g ∧ g.startedAt ≤ cutoff) :
    ∃ g, s'.redis.gen.get id = some g ∧ g.startedAt ≤ cutoff := by
  obtain ⟨g, hg, hp⟩ := hg
  obtain ⟨g', hg', hstep⟩ := h.genStep (hr.keeps id rfl) hr.inRange hg
  exact ⟨g', hg', hstep.sameReservation.2.2.2.2.2.1 ▸ hp⟩

theorem StepCase.seeks (h : StepCase cfg s l s') (hr : Recording cfg (· = id) ⟨s, l, s'⟩) {now : ℚ} {pc : ReapPc}
    (hs : pc.Seeks cfg s.redis id now) : pc.Seeks cfg s'.redis id now where
  cutoff := hs.cutoff
  ids hid := h.started hr (hs.ids hid)

/-- A reaper goes on with what it found, or lists what is due. -/
theorem StepCase.reaper (h : StepCase cfg s l s') (hr : Recording cfg (· = id) ⟨s, l, s'⟩) (hs : s.redis.Scores id)
    {now : ℚ} {pc : ReapPc} {i : Input} (hp : s.procs p = .reap pc) (hg : Given cfg s s' l p i) {fresh : Token}
    (hseeks : pc.Seeks cfg s.redis id now) : (pc.resume cfg fresh i).Seeks cfg s'.redis id now := by
  refine ⟨fun cutoff hc => ?_, fun hid => ?_⟩
  · have hm := reapMove cfg fresh pc i
    rw [hc] at hm
    generalize hpc : ReapPc.listing cutoff = pc' at hm
    cases hm with
    | stay => exact hseeks.cutoff cutoff hpc.symm
    | @next _ _ todo => cases todo <;> cases hpc
    | raised | forget | refund | refunds => cases hpc
  · have hstep := reapStep cfg fresh pc i
    generalize pc.resume cfg fresh i = pc' at hid hstep
    cases hstep with
    | keeps _ hsub => exact h.started hr (hseeks.ids (hsub.subset hid))
    | @lists cutoff stale =>
      obtain ⟨pick, c, ha, he, -⟩ := hg.answer
      rw [hp] at ha
      cases ha
      simp only [GenerationBalance.exec, Option.some.injEq, Prod.mk.injEq, Reply.ids.injEq] at he
      rw [ReapPc.next_ids, ← he.1, Redis.staleInflight_eq] at hid
      obtain ⟨score, hscore, hle⟩ := ((s.redis.staleOrder_spec cutoff).mem id).mp (List.mem_of_mem_take hid)
      obtain ⟨g, hget, hstart⟩ := hs score hscore
      have hcut := hseeks.cutoff cutoff rfl
      refine h.started hr ⟨g, hget, ?_⟩
      rw [hstart, ← hcut]
      exact hle
    | counts =>
      rw [ReapPc.next_ids] at hid
      exact h.started hr (hseeks.ids (List.mem_cons_of_mem _ hid))

theorem StepCase.punctual (h : StepCase cfg s l s') (hr : Recording cfg (· = id) ⟨s, l, s'⟩)
    (hs : Punctual cfg id tr s) : Punctual cfg id (⟨s, l, s'⟩ :: tr) s' := by
  refine ⟨h.scores hr hs.scores, fun p pc hh => ?_⟩
  have kept : ∀ {pc}, s.Holds p (.reap pc) → ∃ now, Begun (⟨s, l, s'⟩ :: tr) p now ∧ pc.Seeks cfg s'.redis id now := by
    intro pc hh
    obtain ⟨now, hb, hseeks⟩ := hs.reapers p pc hh
    exact ⟨now, hb.cons _, h.seeks hr hseeks⟩
  generalize hst : Proc.reap pc = st at hh
  cases h.origin hh with
  | kept hk => subst hst; exact kept hk
  | @started job hl hi hj =>
    cases job with
    | reap now =>
      cases hst
      refine ⟨now, ⟨_, List.mem_cons_self .., hl⟩, fun cutoff hc => ?_, fun hid => ?_⟩
      · cases hc
        rfl
      · cases hid
    | gen | topUp | balance | flush => cases hst
  | @resumed i t hg hd he =>
    cases hp : s.procs p with
    | reap pc₀ =>
      rw [hp] at hst
      cases hst
      obtain ⟨now, hb, hseeks⟩ := hs.reapers p pc₀ (.inl hp)
      exact ⟨now, hb.cons _, h.reaper hr hs.scores hp hg hseeks⟩
    | idle | gen | topUp | balance | flush | crashed => rw [hp] at hst; cases hst
  | crashed => cases hst
  | leftover hl hm =>
    subst hst
    exact kept (.inl (Proc.leftovers_reap hm))

theorem Runs.punctual {pg : Rows} (hr : Runs cfg (.start pg) tr s) (hh : ∀ t ∈ tr, recording cfg id t = true) :
    Punctual cfg id tr s := by
  refine hr.invariant_history (I := Punctual cfg id) (fun t ht => Recording.of_recording (hh t ht)) ?_ ?_
  · refine ⟨fun score hs => (by cases hs), fun p pc hh => ?_⟩
    cases System.start_holds hh
  · intro tr s l s' _ _ hs hstep ht
    exact (step_cases hstep).punctual ht hs

end Step

/-! ## Why a record has failed -/

/-- The reservation with the token was given up: whoever still has it is returning it. -/
def GivenUp (s : System) (t : Token) : Prop :=
  ∀ p v, (s.procs p).Around v → v.token = t → (s.procs p).undoing = some v

/-- A record has failed because it was due, or because its call gave it up. -/
structure Excused (cfg : Config) (id : RequestId) (tr : List (Trans System Label)) (s : System) : Prop where
  failed : ∀ g, s.redis.gen.get id = some g → g.status = .failed → Due cfg tr g.startedAt ∨ GivenUp s g.reservationToken
  pooled : ∀ p st v, (p, st) ∈ s.pool → st.undoing = some v → (s.procs p).undoing = some v ∨ (s.procs p).Over

section Step

variable {cfg : Config} {s s' : System} {l : Label} {p : ℕ} {id : RequestId} {tr : List (Trans System Label)}

theorem StepCase.excused_pooled (h : StepCase cfg s l s') (hs : Excused cfg id tr s) {st : Proc} {v : Reservation}
    (hp : (p, st) ∈ s'.pool) (hv : st.undoing = some v) : (s'.procs p).undoing = some v ∨ (s'.procs p).Over := by
  have hg := h.goes p
  rcases h.pooled hp with hp | ⟨-, hm⟩
  · rcases hs.pooled p st v hp hv with hl | ho
    · exact hg.undoing hl
    · exact .inr (hg.over ho)
  · rcases Proc.leftovers_cases hm with rfl | hb
    · exact hg.undoing hv
    · have ho := Proc.undoing_owned hv
      rw [hb.1.owned] at ho
      cases ho

/-- What was given up stays given up. -/
theorem StepCase.givenUp (h : StepCase cfg s l s') {t : Token} (hd : t.draw < s.draws) (hu : GivenUp s t) :
    GivenUp s' t := by
  intro p v hv ht
  rcases (h.goes p).around hv with hv₀ | hnew
  · rcases (h.goes p).undoing (hu p v hv₀ ht) with hl | ho
    · exact hl
    · exact absurd hv (ho.not_around v)
  · rw [← ht, hnew] at hd
    exact absurd hd (lt_irrefl _)

/-- A refund that a call made of its own reservation: the call has given it up. -/
theorem Excused.givenUp (hs : Excused cfg id tr s) (hk : s.Kept (· = id)) {st : Proc} {v : Reservation}
    (hh : s.Holds p st) (hv : st.undoing = some v) : GivenUp s v.token := by
  intro q w hw ht
  have hv' : st.Around v := .inr (Proc.undoing_owned hv)
  obtain rfl := hk.unique q _ w p st v (.inl rfl) hw hh hv' ht
  obtain rfl : p = q := by rw [← (hk.drawn p st w hh hv').1, (hk.drawn q _ w (.inl rfl) hw).1]
  rcases hh with rfl | hp
  · exact hv
  · rcases hs.pooled p st w hp hv with hl | ho
    · exact hl
    · exact absurd hw (ho.not_around w)

/-- Who makes a running record fail: a reaper that has it in hand, or its own call. -/
theorem StepCase.fails (h : StepCase cfg s l s') (hk : s.Kept (· = id)) (hr : Recording cfg (· = id) ⟨s, l, s'⟩)
    {g g' : GenerationHash} (hg : s.redis.gen.get id = some g) (hg' : s'.redis.gen.get id = some g')
    (hrun : g.status = .running) (hf : g'.status = .failed) :
    (∃ q pc, s.Holds q (.reap pc) ∧ id ∈ pc.ids) ∨
      ∃ q st v, s.Holds q st ∧ st.undoing = some v ∧ v.token = g.reservationToken := by
  have absurd_eq : s'.redis.gen.get id = s.redis.gen.get id → False := fun he => by
    rw [he, hg] at hg'
    cases hg'
    cases hrun.symm.trans hf
  cases h.store with
  | same _ he => exact (absurd_eq (by rw [he])).elim
  | expired _ he => exact (absurd_eq (he.gen_get (hr.keeps id rfl))).elim
  | @ran x pick hx hheld ha he =>
    have set : ∀ {k : RequestId} {r' : GenerationHash}, s'.redis.gen = s.redis.gen.set k r' → id = k ∧ g' = r' := by
      intro k r' hset
      by_cases hid : id = k
      · rw [hset, Table.get_set, if_pos hid] at hg'
        exact ⟨hid, (Option.some.inj hg').symm⟩
      · exact (absurd_eq (by rw [hset, Table.get_set_of_ne _ _ hid])).elim
    have hsend := Proc.sends ha
    cases (callOk_of_ran hx hr.inRange he).genChange with
    | same hgen => exact (absurd_eq (by rw [hgen])).elim
    | created hc hrep hn hset =>
      obtain ⟨rfl, -⟩ := set hset
      rw [hn] at hg
      cases hg
    | settled hc hrep hn hrun hset =>
      obtain ⟨-, rfl⟩ := set hset
      cases hf
    | @refunded a r hc hrep hn hrun hset =>
      obtain ⟨rfl, -⟩ := set hset
      rw [hc] at hsend
      rcases Proc.refund_cases hsend.of_refund with ⟨v, reason, hv, rfl⟩ | ⟨rpc, todo, k, hst⟩
      · obtain ⟨g₁, hg₁, hof⟩ := hk.owned _ _ v hheld (Proc.undoing_owned hv) rfl
        rw [show v.id = (v.refundArgs reason).clientRequestId from rfl, hg] at hg₁
        cases hg₁
        exact .inr ⟨_, _, v, hheld, hv, hof.token.symm⟩
      · exact .inl ⟨_, _, hst ▸ hheld, List.mem_cons_self ..⟩

theorem StepCase.excused (h : StepCase cfg s l s') (hs : Excused cfg id tr s) (hk : s.Kept (· = id))
    (hp : Punctual cfg id tr s) (hr : Recording cfg (· = id) ⟨s, l, s'⟩) : Excused cfg id (⟨s, l, s'⟩ :: tr) s' := by
  refine ⟨fun g' hg' hf => ?_, fun q st v hq hv => h.excused_pooled hs hq hv⟩
  rcases h.gen_origin hr.inRange hg' with ⟨g, hg, hstep⟩ | ⟨q, st, w, -, -, -, rfl⟩
  · have hsame := hstep.sameReservation
    rw [← hsame.2.2.2.2.2.1, ← hsame.2.2.2.2.2.2]
    have hdraw : g.reservationToken.draw < s.draws := by
      obtain ⟨w, -, hof, hw⟩ := hk.record id g hg
      rw [hof.token]
      exact hw
    by_cases hrun : g.status = .running
    · rcases h.fails hk hr hg hg' hrun hf with ⟨q, pc, hh, hid⟩ | ⟨q, st, v, hh, hv, ht⟩
      · obtain ⟨now, hb, hseeks⟩ := hp.reapers q pc hh
        obtain ⟨g₁, hg₁, hle⟩ := hseeks.ids hid
        rw [hg] at hg₁
        cases hg₁
        exact .inl ⟨q, now, hb.cons _, hle⟩
      · rw [← ht] at hdraw ⊢
        exact .inr (h.givenUp hdraw (hs.givenUp hk hh hv))
    · obtain rfl := hstep.resolved hrun
      rcases hs.failed g' hg hf with hd | hu
      · exact .inl (hd.cons _)
      · exact .inr (h.givenUp hdraw hu)
  · cases hf

theorem Runs.excused {pg : Rows} (hr : Runs cfg (.start pg) tr s) (hh : ∀ t ∈ tr, recording cfg id t = true) :
    Excused cfg id tr s := by
  refine hr.invariant_history (I := Excused cfg id) (P := fun t => recording cfg id t = true) hh ?_ ?_
  · refine ⟨fun g hg => (by cases hg), fun p st v hp => (by cases hp)⟩
  · intro tr s l s' hrun hall hs hstep ht
    have hkept := Runs.kept hrun fun t ht => Recording.of_recording (hall t ht)
    exact (step_cases hstep).excused hs hkept (Runs.punctual hrun hall) (Recording.of_recording ht)

end Step

/-! ## In time -/

/-- The reaper whose `REFUND` a transition runs, and the reservation. -/
def reaperRefund (cfg : Config) (t : Trans System Label) : Option (ℕ × RequestId) :=
  match ran cfg t with
  | some ⟨p, .reap _, .refund a, _⟩ => some (p, a.clientRequestId)
  | _ => none

/-- The reservation whose call hears in a transition that it was reaped before it settled, and
the time. -/
def reapedUnder (cfg : Config) (t : Trans System Label) : Option (RequestId × ℚ) :=
  match t.label, ran cfg t with
  | .exec _ _ now, some ⟨_, _, .settle a, .settle .stale⟩ => some (a.clientRequestId, now)
  | _, _ => none

theorem reaperRefund_some {cfg : Config} {t : Trans System Label} {p : ℕ} {id : RequestId}
    (h : reaperRefund cfg t = some (p, id)) :
    ∃ pc a r, ran cfg t = some ⟨p, .reap pc, .refund a, r⟩ ∧ a.clientRequestId = id := by
  unfold reaperRefund at h
  split at h
  · next hx => cases h; exact ⟨_, _, _, hx, rfl⟩
  · cases h

theorem reapedUnder_some {cfg : Config} {t : Trans System Label} {id : RequestId} {now : ℚ}
    (h : reapedUnder cfg t = some (id, now)) :
    ∃ q pick x a, t.label = .exec q pick now ∧ ran cfg t = some x ∧ x.call = .settle a ∧
      x.reply = .settle .stale ∧ a.clientRequestId = id := by
  unfold reapedUnder at h
  split at h
  · next hl hx => cases h; exact ⟨_, _, _, _, hl, hx, rfl, rfl, rfl⟩
  · cases h

section Time

variable {cfg : Config} {pg : Rows} {tr : List (Trans System Label)} {s : System} {id : RequestId}

/-- **What a reaper refunds was due**: whenever a reaper's `REFUND` runs, the reservation had started
by the cutoff of that reaper, if its record is kept. It was `REAP_AFTER_SECONDS` old then, up to half
a unit of the last digit of the cutoff. -/
theorem reaped_old (hr : Runs cfg (.start pg) tr s) (hh : ∀ t ∈ tr, recording cfg id t = true)
    {t : Trans System Label} (ht : t ∈ tr) {p : ℕ} (hx : reaperRefund cfg t = some (p, id)) :
    ∃ now g, Begun tr p now ∧ t.pre.redis.gen.get id = some g ∧ g.startedAt ≤ cfg.cutoff now ∧
      g.startedAt + cfg.reapAfterSeconds ≤ now + 2 ^ Double.exponent (now - cfg.reapAfterSeconds) / 2 := by
  obtain ⟨newer, older, rfl, hbefore, hstep, -⟩ := hr.split ht
  have hp := Runs.punctual hbefore fun t ht => hh t (List.mem_append_right _ (List.mem_cons_of_mem _ ht))
  obtain ⟨pc, a, r, hx, hid⟩ := reaperRefund_some hx
  obtain ⟨pick, hheld, ha, -⟩ := (step_cases hstep).executed hx
  obtain ⟨now, ⟨t', ht', hl⟩, hseeks⟩ := hp.reapers p pc hheld
  have hids : id ∈ pc.ids := by
    obtain ⟨attempt, rounds, todo, k, rfl⟩ := ReapPc.action_refund ha
    rw [← hid]
    exact List.mem_cons_self ..
  obtain ⟨g, hg, hle⟩ := hseeks.ids hids
  exact ⟨now, g, ⟨t', List.mem_append_right _ (List.mem_cons_of_mem _ ht'), hl⟩, hg, hle, Config.old_of_cutoff hle⟩

/-- **A call that settles in time is not reaped underneath**: if the clock never goes back, a call
hears that its reservation was reaped only when that is stale by then: `REAP_AFTER_SECONDS` have
passed, up to half a unit of the last digit of the cutoff. -/
theorem settled_in_time (hr : Runs cfg (.start pg) tr s) (hh : ∀ t ∈ tr, recording cfg id t = true)
    (hc : Clocked tr) {t : Trans System Label} (ht : t ∈ tr) {now : ℚ} (hx : reapedUnder cfg t = some (id, now)) :
    ∃ p S, (t.pre.procs p).settlement = some S ∧ S.reservation.id = id ∧
      S.reservation.startedAt ≤ cfg.cutoff now ∧
      S.reservation.startedAt + cfg.reapAfterSeconds ≤
        now + 2 ^ Double.exponent (now - cfg.reapAfterSeconds) / 2 := by
  obtain ⟨newer, older, rfl, hbefore, hstep, -⟩ := hr.split ht
  have hold : ∀ t ∈ older, recording cfg id t = true := fun t ht =>
    hh t (List.mem_append_right _ (List.mem_cons_of_mem _ ht))
  have hkept := Runs.kept hbefore fun t ht => Recording.of_recording (hold t ht)
  obtain ⟨q, pick, x, a, hl, hx, hcall, hreply, hid⟩ := reapedUnder_some hx
  obtain ⟨pick', -, ha, he⟩ := (step_cases hstep).executed hx
  have hlive : x.st = t.pre.procs x.owner := by
    rcases (step_cases hstep).runner hx with ⟨_, _, -, hst, -⟩ | ⟨_, _, hlate, -⟩
    · exact hst
    · rw [hl] at hlate
      cases hlate
  rw [hcall] at ha he
  rw [hreply] at he
  obtain ⟨S, hS, rfl⟩ := (Proc.sends ha).of_settle
  obtain ⟨n, hsound⟩ := S.sound
  have hid : S.reservation.id = id := hsound.clientRequestId.symm.trans hid
  rw [hlive] at hS
  suffices hstale : S.reservation.startedAt ≤ cfg.cutoff now from
    ⟨x.owner, S, hS, hid, hstale, Config.old_of_cutoff hstale⟩
  -- The record is there, and has failed.
  obtain ⟨g, hg, hof⟩ := hkept.owned x.owner _ S.reservation (.inl rfl) (Proc.settlement_owned hS) hid
  have hfailed : g.status = .failed := by
    cases exec_ok he rfl with
    | settle hok =>
      refine (SettleOk.of_stale hok).1 g ?_
      rw [hsound.clientRequestId]
      exact hg
  rw [hid] at hg
  have hstart : g.startedAt = S.reservation.startedAt := hof.2.2.2.2.2.1
  rcases (Runs.excused hbefore hold).failed g hg hfailed with ⟨p, begun, ⟨t', ht', hl'⟩, hle⟩ | hu
  · have hclock : begun ≤ now := hc.le (by rw [hl]; rfl) ht' (by rw [hl']; rfl)
    rw [← hstart]
    exact hle.trans (cfg.cutoff_mono hclock)
  · -- The call is settling, so it has not given its reservation up.
    have hv := hu x.owner S.reservation (.inr (Proc.settlement_owned hS)) hof.token.symm
    cases hst : t.pre.procs x.owner with
    | gen request pc =>
      rw [hst] at hS hv
      cases pc with
      | settling | settleLoading => cases hv
      | _ => cases hS
    | _ => rw [hst] at hS; cases hS

end Time

/-- The provider answers after the reaper has refunded the reservation. -/
def lateAnswerSchedule : List Label :=
  .spawn 0 (.gen (premium 1 5)) :: coldLoad 0 ++
    [.exec 0 [] 0, .provider 0, .spawn 1 (.reap 400), .exec 1 [] 400, .exec 1 [] 400, .exec 1 [] 400,
      .provided 0 (.result "late" (.finite ⟨4, -1⟩)), .exec 0 [] 401]

/-- A reservation of time 0 is refunded by a reaper that was started at 400. -/
theorem reaped_old_late : ∃ tr s t p, Runs {} (.start dollarRows) tr s ∧ t ∈ tr ∧ reaperRefund {} t = some (p, 5) ∧
    ∃ now g, Begun tr p now ∧ t.pre.redis.gen.get 5 = some g ∧ g.startedAt ≤ Config.cutoff {} now ∧
      g.startedAt + 300 ≤ now + 2 ^ Double.exponent (now - 300) / 2 := by
  obtain ⟨tr, s, hr, hp⟩ := Runs.of_schedule {} (System.start dollarRows) lateAnswerSchedule
    (fun tr _ => tr.all (recording {} 5) && tr.any fun t => reaperRefund {} t = some (1, 5)) (by decide +kernel)
  simp only [Bool.and_eq_true, List.all_eq_true, List.any_eq_true, decide_eq_true_eq] at hp
  obtain ⟨hrec, t, ht, hx⟩ := hp
  exact ⟨tr, s, t, 1, hr, ht, hx, reaped_old hr hrec ht hx⟩

/-- The call that settles at 401 is told that its reservation of time 0 was reaped. -/
theorem settled_in_time_late : ∃ tr s t, Runs {} (.start dollarRows) tr s ∧ t ∈ tr ∧ reapedUnder {} t = some (5, 401) ∧
    ∃ p S, (t.pre.procs p).settlement = some S ∧ S.reservation.id = 5 ∧
      S.reservation.startedAt ≤ Config.cutoff {} 401 ∧
      S.reservation.startedAt + 300 ≤ 401 + 2 ^ Double.exponent (401 - 300) / 2 := by
  obtain ⟨tr, s, hr, hp⟩ := Runs.of_schedule {} (System.start dollarRows) lateAnswerSchedule
    (fun tr _ => tr.all (recording {} 5) && decide (Clocked tr) &&
      tr.any fun t => reapedUnder {} t = some (5, 401)) (by decide +kernel)
  simp only [Bool.and_eq_true, List.all_eq_true, List.any_eq_true, decide_eq_true_eq] at hp
  obtain ⟨⟨hrec, hclock⟩, t, ht, hx⟩ := hp
  exact ⟨tr, s, t, hr, ht, hx, settled_in_time hr hrec hclock ht hx⟩

end GenerationBalance
