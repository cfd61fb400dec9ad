/-
The one call that holds a reservation. Only it ever settles the record, with
the one settlement it made; so as long as it has made none, or has made one
that was not heard yet, the record is not done.
-/
import GenerationBalance.Records

namespace GenerationBalance

open Transition

/-! ## A call that is over -/

/-- The call has ended, or its process died: it asks for nothing any more. -/
def Proc.Over (st : Proc) : Prop := st = .crashed ∨ ∃ request r, st = .gen request (.ended r)

theorem Proc.Over.not_around {st : Proc} (h : st.Over) (v : Reservation) : ¬ st.Around v := by
  rcases h with rfl | ⟨request, r, rfl⟩
  · exact Proc.blank_crashed.not_around v
  · rintro (hv | hv) <;> cases hv

theorem Proc.Over.settlement {st : Proc} (h : st.Over) : st.settlement = none := by
  rcases h with rfl | ⟨request, r, rfl⟩ <;> rfl

theorem Proc.Over.resume {cfg : Config} {fresh : Token} {now : ℚ} {st : Proc} {i : Input} (h : st.Over) :
    (st.resume cfg fresh now i).Over := by
  rcases h with rfl | ⟨request, r, rfl⟩
  · exact .inl rfl
  · exact .inr ⟨request, r, rfl⟩

theorem Proc.settlement_owned {st : Proc} {S : Settlement} (h : st.settlement = some S) :
    st.owned = some S.reservation := by
  cases st with
  | gen request pc => cases pc <;> cases h <;> rfl
  | _ => cases h

/-- A call keeps its settlement to its end. -/
theorem Proc.settlement_keep {cfg : Config} {fresh : Token} {now : ℚ} {st : Proc} {i : Input} {S : Settlement}
    (h : st.settlement = some S) :
    (st.resume cfg fresh now i).settlement = some S ∨ (st.resume cfg fresh now i).Over := by
  cases st with
  | gen request pc =>
    have hm : GenMove request fresh now pc i (pc.resume cfg request fresh now i) := genMove cfg
    simp only [Proc.resume]
    generalize pc.resume cfg request fresh now i = pc' at hm ⊢
    cases hm with
    | stay => exact .inl h
    | raised | loadRaised | settled | settleStale | settleLoadRaised | refunded | refundRaised | denial | done | failed =>
      exact .inr (.inr ⟨_, _, rfl⟩)
    | settleMissing | settleAgain | settleLoad | settleRetry => exact .inl h
    | reserve hb => cases hb <;> cases h
    | denied hb => cases hb <;> cases h
    | wait hb => cases hb <;> cases h
    | _ => cases h
  | _ => cases h

theorem Goes.over {cfg : Config} {s s' : System} {l : Label} {p : ℕ} (h : Goes cfg s s' l p)
    (ho : (s.procs p).Over) : (s'.procs p).Over := by
  cases h with
  | same he => rw [he]; exact ho
  | started hl hi he =>
    rw [hi] at ho
    rcases ho with ho | ⟨_, _, ho⟩ <;> cases ho
  | resumed hg hd he => rw [he]; exact ho.resume
  | crashed hl he => exact .inl he

theorem Goes.settlement {cfg : Config} {s s' : System} {l : Label} {p : ℕ} {S : Settlement} (h : Goes cfg s s' l p)
    (hS : (s.procs p).settlement = some S) : (s'.procs p).settlement = some S ∨ (s'.procs p).Over := by
  cases h with
  | same he => rw [he]; exact .inl hS
  | started hl hi he => rw [hi] at hS; cases hS
  | resumed hg hd he => rw [he]; exact Proc.settlement_keep hS
  | crashed hl he => exact .inr (.inl he)

/-! ## Who settles -/

/-- The record is the one its settlement left. -/
def Settles (S : Settlement) (id : RequestId) (g : GenerationHash) : Prop :=
  S.reservation.id = id ∧ g.Of S.reservation ∧ S.args.record g = g

theorem StepCase.settles {cfg : Config} {s s' : System} {l : Label} {K : RequestId → Prop} {id : RequestId}
    {g g' : GenerationHash} (h : StepCase cfg s l s') (hs : s.Kept K) (hr : Recording cfg K ⟨s, l, s'⟩) (hK : K id)
    (hg : s.redis.gen.get id = some g) (hg' : s'.redis.gen.get id = some g') (hn : g.status ≠ .done)
    (hd : g'.status = .done) :
    ∃ q st S, s.Holds q st ∧ st.settlement = some S ∧ Settles S id g' := by
  have absurd_eq : s'.redis.gen.get id = s.redis.gen.get id → False := fun he => by
    rw [he, hg] at hg'
    cases hg'
    exact hn hd
  cases h.store with
  | same _ he => exact (absurd_eq (by rw [he])).elim
  | expired _ he => exact (absurd_eq (he.gen_get (hr.keeps id hK))).elim
  | @ran x pick hx hheld ha he =>
    have set : ∀ {k : RequestId} {r r' : GenerationHash}, s'.redis.gen = s.redis.gen.set k r' →
        s.redis.gen.get k = some r → id = k ∧ g' = r' := by
      intro k r r' hset hk
      by_cases hid : id = k
      · rw [hset, Table.get_set, if_pos hid] at hg'
        exact ⟨hid, (Option.some.inj hg').symm⟩
      · exact (absurd_eq (by rw [hset, Table.get_set_of_ne _ _ hid])).elim
    cases (callOk_of_ran hx hr.inRange he).genChange with
    | same hgen => exact (absurd_eq (by rw [hgen])).elim
    | created hc hrep hk hset =>
      refine (absurd_eq ?_).elim
      rw [hset, Table.get_set_of_ne]
      rintro rfl
      rw [hk] at hg
      cases hg
    | @settled a r hc hrep hk hrun hset =>
      obtain ⟨rfl, rfl⟩ := set hset hk
      have hsend := Proc.sends ha
      rw [hc] at hsend
      obtain ⟨S, hS, rfl⟩ := hsend.of_settle
      obtain ⟨n, hsound⟩ := S.sound
      have hid : S.args.clientRequestId = S.reservation.id := hsound.clientRequestId
      obtain ⟨g₁, hg₁, hof⟩ := hs.owned _ _ _ hheld (Proc.settlement_owned hS) (hid ▸ hK)
      rw [hid, hg₁] at hk
      cases hk
      exact ⟨_, _, S, hheld, hS, hid.symm, hof, rfl⟩
    | @refunded a r hc hrep hk hrun hset =>
      obtain ⟨rfl, rfl⟩ := set hset hk
      cases hd

/-! ## The invariant -/

/-- A settlement that was given up is the one its call still makes; and a record
of a reservation that its call still has is not done, unless the call's own
settlement did it. -/
structure System.Tied (K : RequestId → Prop) (s : System) : Prop where
  pooled : ∀ p st S, (p, st) ∈ s.pool → st.settlement = some S →
    (s.procs p).settlement = some S ∨ (s.procs p).Over
  done : ∀ p v g, (s.procs p).Around v → K v.id → s.redis.gen.get v.id = some g → g.reservationToken = v.token →
    g.status = .done → ∃ S, (s.procs p).settlement = some S ∧ Settles S v.id g

section Step

variable {cfg : Config} {s s' : System} {l : Label} {K : RequestId → Prop}

/-- Who holds a settlement of a call's reservation holds the call's own. -/
theorem System.Tied.same (h : s.Tied K) (hs : s.Kept K) {p q : ℕ} {st : Proc} {v : Reservation} {S : Settlement}
    (hv : (s.procs p).Around v) (hh : s.Holds q st) (hS : st.settlement = some S)
    (ht : S.reservation.token = v.token) : (s.procs p).settlement = some S := by
  have hw : st.Around S.reservation := .inr (Proc.settlement_owned hS)
  have hq : q = p := by
    rw [← (hs.drawn q st _ hh hw).1, ← (hs.drawn p _ v (.inl rfl) hv).1, ht]
  subst hq
  rcases hh with rfl | hp
  · exact hS
  · rcases h.pooled q st S hp hS with hl | ho
    · exact hl
    · exact absurd hv (ho.not_around v)

theorem StepCase.tied_pooled (h : StepCase cfg s l s') (hs : s.Tied K) {p : ℕ} {st : Proc} {S : Settlement}
    (hp : (p, st) ∈ s'.pool) (hS : st.settlement = some S) :
    (s'.procs p).settlement = some S ∨ (s'.procs p).Over := by
  have hg := h.goes p
  rcases h.pooled hp with hp | ⟨-, hm⟩
  · rcases hs.pooled p st S hp hS with hl | ho
    · exact hg.settlement hl
    · exact .inr (hg.over ho)
  · rcases Proc.leftovers_cases hm with rfl | hb
    · exact hg.settlement hS
    · rw [hb.1.settlement] at hS; cases hS

/-- A call that has a reservation after a step had it before, or it is new. -/
theorem Goes.around {p : ℕ} {v : Reservation} (h : Goes cfg s s' l p) (hv : (s'.procs p).Around v) :
    (s.procs p).Around v ∨ v.token = ⟨p, s.draws⟩ := by
  cases h with
  | same he => rw [he] at hv; exact .inl hv
  | @started job hl hi he => rw [he] at hv; exact absurd hv ((job.start_blank cfg).not_around v)
  | resumed hg hd he =>
    rw [he] at hv
    exact (Proc.resume_around hv).imp_right And.left
  | crashed hl he => rw [he] at hv; exact absurd hv (Proc.blank_crashed.not_around v)

theorem StepCase.tied_done (h : StepCase cfg s l s') (hs : s.Tied K) (hk : s.Kept K)
    (hr : Recording cfg K ⟨s, l, s'⟩) {p : ℕ} {v : Reservation} {g : GenerationHash} (hv : (s'.procs p).Around v)
    (hK : K v.id) (hg : s'.redis.gen.get v.id = some g) (ht : g.reservationToken = v.token) (hd : g.status = .done) :
    ∃ S, (s'.procs p).settlement = some S ∧ Settles S v.id g := by
  -- The call's settlement before the step is its settlement after it, for it is not over.
  have keep : ∀ {S : Settlement}, (s.procs p).settlement = some S → (s'.procs p).settlement = some S := by
    intro S hS
    rcases (h.goes p).settlement hS with hS | ho
    · exact hS
    · exact absurd hv (ho.not_around v)
  rcases h.gen_origin hr.inRange hg with ⟨g₀, hg₀, hstep⟩ | ⟨q, st, w, -, -, -, rfl⟩
  · have ht₀ : g₀.reservationToken = v.token := by rw [← ht]; exact hstep.sameReservation.2.2.2.2.2.2
    rcases (h.goes p).around hv with hv₀ | hnew
    · by_cases hd₀ : g₀.status = .done
      · have he : g = g₀ := hstep.resolved (by rw [hd₀]; decide)
        obtain ⟨S, hS, hset⟩ := hs.done p v g₀ hv₀ hK hg₀ ht₀ hd₀
        exact ⟨S, keep hS, he ▸ hset⟩
      · obtain ⟨q, st, S, hh, hS, hset⟩ := h.settles hk hr hK hg₀ hg hd₀ hd
        exact ⟨S, keep (hs.same hk hv₀ hh hS (hset.2.1.token.symm.trans ht)), hset⟩
    · -- The token is new, so no record of before carries it.
      obtain ⟨w, -, hof, hw⟩ := hk.record v.id g₀ hg₀
      rw [← hof.token, ht₀, hnew] at hw
      exact absurd hw (lt_irrefl _)
  · cases hd

theorem StepCase.tied (h : StepCase cfg s l s') (hs : s.Tied K) (hk : s.Kept K)
    (hr : Recording cfg K ⟨s, l, s'⟩) : s'.Tied K where
  pooled _ _ _ hp hS := h.tied_pooled hs hp hS
  done _ _ _ hv hK hg ht hd := h.tied_done hs hk hr hv hK hg ht hd

end Step

theorem System.start_tied (K : RequestId → Prop) (pg : Rows) : (System.start pg).Tied K where
  pooled _ _ _ hp := by cases hp
  done _ v _ hv := absurd hv (Proc.blank_idle.not_around v)

end GenerationBalance
