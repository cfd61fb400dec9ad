/-
Who a generation record belongs to. A token names the reservation it was drawn
for; the record that carries it was made from that reservation, and stays; and
whoever settles or refunds a record sends the very plan that it holds.
-/
import GenerationBalance.Nonneg

namespace GenerationBalance

open Transition Versioned

/-! ## Tokens -/

/-- The call tries or owns the reservation. -/
def Proc.Around (st : Proc) (v : Reservation) : Prop := st.reserving = some v ∨ st.owned = some v

theorem Proc.Blank.not_around {st : Proc} (h : st.Blank) (v : Reservation) : ¬ st.Around v := by
  rintro (hv | hv)
  · rw [h.reserving] at hv; cases hv
  · rw [h.owned] at hv; cases hv

/-- A reservation that a call is about was there before the step, or it is new
and carries the token the step drew. -/
theorem Proc.resume_around {cfg : Config} {fresh : Token} {now : ℚ} {st : Proc} {i : Input} {v : Reservation}
    (h : (st.resume cfg fresh now i).Around v) :
    st.Around v ∨ v.token = fresh ∧ (st.resume cfg fresh now i).reserving = some v := by
  rcases h with h | h
  · rcases Proc.resume_reserving h with hv | ⟨request, pc, b, -, -, hm⟩
    · exact .inl (.inl hv)
    · exact .inr ⟨(makeReservation_ok hm).2.2, h⟩
  · rcases Proc.resume_owned h with hv | ⟨r, hv, -, -⟩
    · exact .inl (.inr hv)
    · exact .inl (.inl hv)

theorem StepCase.around {cfg : Config} {s s' : System} {l : Label} {p : ℕ} {st : Proc} {v : Reservation}
    (h : StepCase cfg s l s') (hh : s'.Holds p st) (hv : st.Around v) :
    (∃ st₀, s.Holds p st₀ ∧ st₀.Around v) ∨
      v.token = ⟨p, s.draws⟩ ∧ s'.draws = s.draws + 1 ∧ (s'.procs p).reserving = some v := by
  cases h.origin hh with
  | kept hk => exact .inl ⟨st, hk, hv⟩
  | @started job => exact absurd hv ((job.start_blank cfg).not_around v)
  | crashed => exact absurd hv (Proc.blank_crashed.not_around v)
  | leftover hl hm =>
    rcases Proc.leftovers_cases hm with rfl | hb
    · exact .inl ⟨_, .inl rfl, hv⟩
    · exact absurd hv (hb.1.not_around v)
  | resumed hg hd he =>
    rcases Proc.resume_around hv with hv | ⟨ht, hr⟩
    · exact .inl ⟨_, .inl rfl, hv⟩
    · exact .inr ⟨ht, hd, by rw [he]; exact hr⟩

theorem StepCase.owned {cfg : Config} {s s' : System} {l : Label} {p : ℕ} {st : Proc} {v : Reservation}
    (h : StepCase cfg s l s') (hh : s'.Holds p st) (hv : st.owned = some v) :
    (∃ st₀, s.Holds p st₀ ∧ st₀.owned = some v) ∨
      ∃ r, Given cfg s s' l p (.reply (.reserve r)) ∧ (s.procs p).reserving = some v ∧
        reserveOutcome v.token r = .reserved := by
  cases h.origin hh with
  | kept hk => exact .inl ⟨st, hk, hv⟩
  | @started job => rw [(job.start_blank cfg).owned] at hv; cases hv
  | crashed => cases hv
  | leftover hl hm =>
    rcases Proc.leftovers_cases hm with rfl | hb
    · exact .inl ⟨_, .inl rfl, hv⟩
    · rw [hb.1.owned] at hv; cases hv
  | resumed hg hd he =>
    rcases Proc.resume_owned hv with hv | ⟨r, hres, rfl, hr⟩
    · exact .inl ⟨_, .inl rfl, hv⟩
    · exact .inr ⟨r, hg, hres, hr⟩

/-! ## The invariant -/

/-- The record was made from the reservation. -/
def GenerationHash.Of (g : GenerationHash) (v : Reservation) : Prop := g.SameReservation v.args.record

theorem GenerationHash.Of.plan {g : GenerationHash} {v : Reservation} (h : g.Of v) : g.plan = v.plan := h.2.2.2.1

theorem GenerationHash.Of.userId {g : GenerationHash} {v : Reservation} (h : g.Of v) :
    g.userId = v.request.userId := h.1

theorem GenerationHash.Of.token {g : GenerationHash} {v : Reservation} (h : g.Of v) :
    g.reservationToken = v.token := h.2.2.2.2.2.2

theorem GenStep.of {g g' : GenerationHash} {v : Reservation} (h : GenStep g g') (hv : g.Of v) : g'.Of v := by
  cases h <;> exact hv

/-- Records belong to reservations, and calls know whose. The records of `K`
are there as long as someone means them. -/
structure System.Kept (K : RequestId → Prop) (s : System) : Prop where
  formed : s.Formed
  /-- A reservation's token was drawn by the call that holds it. -/
  drawn : ∀ p st v, s.Holds p st → st.Around v → v.token.owner = p ∧ v.token.draw < s.draws
  /-- A token names one reservation. -/
  unique : ∀ p st v q st' w, s.Holds p st → st.Around v → s.Holds q st' → st'.Around w → v.token = w.token → v = w
  record : ∀ id g, s.redis.gen.get id = some g → ∃ v : Reservation, v.id = id ∧ g.Of v ∧ v.token.draw < s.draws
  /-- The record that carries a reservation's token was made from it. -/
  carried : ∀ p st v id g, s.Holds p st → st.Around v → s.redis.gen.get id = some g →
    g.reservationToken = v.token → v.id = id ∧ g.Of v
  owned : ∀ p st v, s.Holds p st → st.owned = some v → K v.id → ∃ g, s.redis.gen.get v.id = some g ∧ g.Of v
  refund : ∀ p st a, s.Holds p st → st.refund = some a → K a.clientRequestId →
    ∃ g, s.redis.gen.get a.clientRequestId = some g ∧ a.plan = g.plan ∧ a.userId = g.userId

theorem Expires.gen_eq {ρ ρ' : Redis} {l : Label} (h : Expires ρ l ρ') (hk : l.keepsRecords = true) :
    ρ'.gen = ρ.gen ∧ ρ'.topup = ρ.topup := by
  cases h with
  | generation id => cases hk
  | topUp o => cases hk
  | _ => exact ⟨rfl, rfl⟩

theorem Expires.gen_get {ρ ρ' : Redis} {l : Label} {id : RequestId} (h : Expires ρ l ρ')
    (hk : l.keepsRecord id = true) : ρ'.gen.get id = ρ.gen.get id := by
  cases h with
  | generation k =>
    simp only [Label.keepsRecord, decide_eq_true_eq] at hk
    exact Table.get_del_of_ne _ (Ne.symm hk)
  | _ => rfl

/-- **Records last**, and only go on as `GenStep` says. -/
theorem StepCase.genStep {cfg : Config} {s s' : System} {l : Label} {id : RequestId} (h : StepCase cfg s l s')
    (hk : l.keepsRecord id = true) (hi : inRange cfg ⟨s, l, s'⟩ = true) {g : GenerationHash}
    (hg : s.redis.gen.get id = some g) : ∃ g', s'.redis.gen.get id = some g' ∧ GenStep g g' := by
  cases h.store with
  | same hn he => exact ⟨g, by rw [he, hg], .same g⟩
  | expired hn he => exact ⟨g, by rw [he.gen_get hk, hg], .same g⟩
  | ran hx hheld ha he => exact (callOk_of_ran hx hi he).genStep hg

/-- Where a record comes from. -/
theorem StepCase.gen_origin {cfg : Config} {s s' : System} {l : Label} (h : StepCase cfg s l s')
    (hi : inRange cfg ⟨s, l, s'⟩ = true) {id : RequestId} {g : GenerationHash}
    (hg : s'.redis.gen.get id = some g) :
    (∃ g₀, s.redis.gen.get id = some g₀ ∧ GenStep g₀ g) ∨
      ∃ p st v, s.Holds p st ∧ st.reserving = some v ∧ v.id = id ∧ g = v.args.record := by
  cases h.store with
  | same hn he => exact .inl ⟨g, by rw [← he, hg], .same g⟩
  | expired hn he => exact .inl ⟨g, he.gen hg, .same g⟩
  | ran hx hheld ha he =>
    rcases (callOk_of_ran hx hi he).gen_origin hg with ho | ⟨a, n, hcall, -, hid, rfl⟩
    · exact .inl ho
    · have hsend := Proc.sends ha
      rw [hcall] at hsend
      obtain ⟨v, hv, rfl⟩ := hsend.of_reserve
      exact .inr ⟨_, _, v, hheld, hv, hid, rfl⟩

section Step

variable {cfg : Config} {s s' : System} {l : Label} {K : RequestId → Prop}

theorem System.Kept.carried_step (hs : s.Kept K) (h : StepCase cfg s l s') (hi : inRange cfg ⟨s, l, s'⟩ = true)
    {p : ℕ} {st : Proc} {v : Reservation} {id : RequestId} {g : GenerationHash} (hh : s'.Holds p st)
    (hv : st.Around v) (hg : s'.redis.gen.get id = some g) (ht : g.reservationToken = v.token) :
    v.id = id ∧ g.Of v := by
  rcases h.gen_origin hi hg with ⟨g₀, hg₀, hstep⟩ | ⟨q, st₁, w, hh₁, hw, hid, rfl⟩
  · have ht₀ : g₀.reservationToken = v.token := by
      rw [← ht]; exact hstep.sameReservation.2.2.2.2.2.2
    rcases h.around hh hv with ⟨st₀, hh₀, hv₀⟩ | ⟨hn, -, -⟩
    · obtain ⟨hid, hof⟩ := hs.carried p st₀ v id g₀ hh₀ hv₀ hg₀ ht₀
      exact ⟨hid, hstep.of hof⟩
    · -- The token is new, so no record of before carries it.
      obtain ⟨w, -, hof, hw⟩ := hs.record id g₀ hg₀
      rw [← hof.token, ht₀, hn] at hw
      exact absurd hw (lt_irrefl _)
  · have ht : w.token = v.token := ht
    rcases h.around hh hv with ⟨st₀, hh₀, hv₀⟩ | ⟨hn, -, -⟩
    · cases hs.unique q st₁ w p st₀ v hh₁ (.inl hw) hh₀ hv₀ ht
      exact ⟨hid, .refl _⟩
    · have := (hs.drawn q st₁ w hh₁ (.inl hw)).2
      rw [ht, hn] at this
      exact absurd this (lt_irrefl _)

theorem System.Kept.owned_step (hs : s.Kept K) (h : StepCase cfg s l s') (hi : inRange cfg ⟨s, l, s'⟩ = true)
    (hk : ∀ id, K id → l.keepsRecord id = true) {p : ℕ} {st : Proc} {v : Reservation} (hh : s'.Holds p st)
    (hv : st.owned = some v) (hK : K v.id) :
    ∃ g, s'.redis.gen.get v.id = some g ∧ g.Of v := by
  rcases h.owned hh hv with ⟨st₀, hh₀, hv₀⟩ | ⟨r, hg, hres, ho⟩
  · obtain ⟨g, hg, hof⟩ := hs.owned p st₀ v hh₀ hv₀ hK
    obtain ⟨g', hg', hstep⟩ := h.genStep (hk _ hK) hi hg
    exact ⟨g', hg', hstep.of hof⟩
  · have hok := hg.reserve hres
    cases r with
    | ok n =>
      obtain ⟨c, b, -, -, -, -, he⟩ := hok.of_ok
      refine ⟨v.args.record, ?_, .refl _⟩
      rw [he]
      exact Table.get_set_self ..
    | dup g =>
      obtain ⟨hget, he⟩ := hok.of_dup
      have ht : g.reservationToken = v.token := by
        by_contra hne
        simp [reserveOutcome, hne] at ho
      exact ⟨g, by rw [he]; exact hget, (hs.carried p _ v _ g (.inl rfl) (.inl hres) hget ht).2⟩
    | missing => cases ho
    | conflict c => cases ho

theorem System.Kept.refund_step (hs : s.Kept K) (h : StepCase cfg s l s') (hi : inRange cfg ⟨s, l, s'⟩ = true)
    (hk : ∀ id, K id → l.keepsRecord id = true) :
    ∀ p st, s'.Holds p st → ∀ a, st.refund = some a → K a.clientRequestId →
      ∃ g, s'.redis.gen.get a.clientRequestId = some g ∧ a.plan = g.plan ∧ a.userId = g.userId := by
  have stable : ∀ {a : RefundArgs}, K a.clientRequestId →
      (∃ g, s.redis.gen.get a.clientRequestId = some g ∧ a.plan = g.plan ∧ a.userId = g.userId) →
        ∃ g, s'.redis.gen.get a.clientRequestId = some g ∧ a.plan = g.plan ∧ a.userId = g.userId := by
    rintro a hK ⟨g, hg, hp, hu⟩
    obtain ⟨g', hg', hstep⟩ := h.genStep (hk _ hK) hi hg
    exact ⟨g', hg', hp.trans hstep.sameReservation.2.2.2.1, hu.trans hstep.sameReservation.1⟩
  refine h.held (Q := fun s st => ∀ a, st.refund = some a → K a.clientRequestId →
      ∃ g, s.redis.gen.get a.clientRequestId = some g ∧ a.plan = g.plan ∧ a.userId = g.userId)
    (fun p st hh a ha => hs.refund p st a hh ha) (fun st hq a ha hK => stable hK (hq a ha hK))
    (fun st hb a ha => ?_) fun p i now hg hd hq a ha hK => ?_
  · rw [hb.refund] at ha; cases ha
  · rcases Proc.resume_refund ha with ha | ⟨request, v, reason, hst, rfl⟩ | ⟨id, todo, k, g, hst, rfl, hr, ha⟩
    · exact stable hK (hq a ha hK)
    · obtain ⟨g, hg, hof⟩ := hs.owned p _ v (.inl rfl) (by rw [hst]; rfl) hK
      exact stable hK ⟨g, hg, hof.plan.symm, hof.userId.symm⟩
    · obtain ⟨hget, -⟩ := hg.record (by rw [hst]; rfl)
      obtain ⟨v, -, hof, -⟩ := hs.record id g hget
      rw [ReapPc.refundArgs_ok ha hof.plan] at hK ⊢
      exact stable hK ⟨g, hget, rfl, rfl⟩

/-- **One step keeps who owns what.** -/
theorem StepCase.kept (h : StepCase cfg s l s') (hs : s.Kept K) (hi : inRange cfg ⟨s, l, s'⟩ = true)
    (hk : ∀ id, K id → l.keepsRecord id = true) : s'.Kept K := by
  have hle := h.draws_le
  refine
    { formed := h.formed hs.formed
      drawn := fun p st v hh hv => ?_
      unique := fun p st v q st' w hh hv hh' hw ht => ?_
      record := fun id g hg => ?_
      carried := fun p st v id g hh hv hg ht => hs.carried_step h hi hh hv hg ht
      owned := fun p st v hh hv => hs.owned_step h hi hk hh hv
      refund := fun p st a hh ha => hs.refund_step h hi hk p st hh a ha }
  · rcases h.around hh hv with ⟨st₀, hh₀, hv₀⟩ | ⟨hn, hd, -⟩
    · obtain ⟨h1, h2⟩ := hs.drawn p st₀ v hh₀ hv₀
      exact ⟨h1, by omega⟩
    · rw [hn]
      exact ⟨rfl, by simp only; omega⟩
  · rcases h.around hh hv with ⟨st₀, hh₀, hv₀⟩ | ⟨hn, -, hrv⟩
    · rcases h.around hh' hw with ⟨st₁, hh₁, hw₁⟩ | ⟨hn, -, -⟩
      · exact hs.unique p st₀ v q st₁ w hh₀ hv₀ hh₁ hw₁ ht
      · have := (hs.drawn p st₀ v hh₀ hv₀).2
        rw [ht, hn] at this
        exact absurd this (lt_irrefl _)
    · rcases h.around hh' hw with ⟨st₁, hh₁, hw₁⟩ | ⟨hn', -, hrw⟩
      · have := (hs.drawn q st₁ w hh₁ hw₁).2
        rw [← ht, hn] at this
        exact absurd this (lt_irrefl _)
      · rw [hn, hn'] at ht
        cases ht
        rw [hrv] at hrw
        cases hrw
        rfl
  · rcases h.gen_origin hi hg with ⟨g₀, hg₀, hstep⟩ | ⟨q, st₁, w, hh₁, hw, hid, rfl⟩
    · obtain ⟨v, hid, hof, hd⟩ := hs.record id g₀ hg₀
      exact ⟨v, hid, hstep.of hof, by omega⟩
    · have := (hs.drawn q st₁ w hh₁ (.inl hw)).2
      exact ⟨w, hid, .refl _, by omega⟩

end Step

theorem System.start_kept (K : RequestId → Prop) (pg : Rows) : (System.start pg).Kept K where
  formed := System.start_formed pg
  drawn p st v h hv := by rw [System.start_holds h] at hv; exact absurd hv (Proc.blank_idle.not_around v)
  unique p st v q st' w h hv := by rw [System.start_holds h] at hv; exact absurd hv (Proc.blank_idle.not_around v)
  record id g hg := by cases hg
  carried p st v id g h hv := by rw [System.start_holds h] at hv; exact absurd hv (Proc.blank_idle.not_around v)
  owned p st v h hv := by rw [System.start_holds h] at hv; cases hv
  refund p st a h ha := by rw [System.start_holds h] at ha; cases ha

/-- All sums are in range, and the records of `K` are kept. -/
structure Recording (cfg : Config) (K : RequestId → Prop) (t : Trans System Label) : Prop where
  inRange : inRange cfg t = true
  keeps : ∀ id, K id → t.label.keepsRecord id = true

theorem Recording.of_lasting {cfg : Config} {t : Trans System Label} (h : lasting cfg t = true) :
    Recording cfg (fun _ => True) t := by
  simp only [lasting, healthy, Bool.and_eq_true] at h
  exact ⟨h.1.2, fun id _ => Label.keepsRecord_of_keepsRecords h.2 id⟩

/-- The record `id` is kept, and all sums are in range. -/
def recording (cfg : Config) (id : RequestId) (t : Trans System Label) : Bool :=
  t.label.keepsRecord id && inRange cfg t

theorem Recording.of_recording {cfg : Config} {id : RequestId} {t : Trans System Label}
    (h : recording cfg id t = true) : Recording cfg (· = id) t := by
  simp only [recording, Bool.and_eq_true] at h
  exact ⟨h.2, fun k hk => by rw [hk]; exact h.1⟩

theorem Runs.kept {cfg : Config} {pg : Rows} {tr : List (Trans System Label)} {s : System} {K : RequestId → Prop}
    (hr : Runs cfg (.start pg) tr s) (hh : ∀ t ∈ tr, Recording cfg K t) : s.Kept K :=
  hr.invariant hh (System.start_kept K pg) fun hs h ht => (step_cases h).kept hs ht.inRange ht.keeps

end GenerationBalance
