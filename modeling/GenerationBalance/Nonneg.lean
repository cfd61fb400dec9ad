/-
No balance is ever negative, and where a row was negative from the start, none
falls below it. `RESERVE` checks no amount: that it never takes more than is there
rests on the version it compares, which determines the balance its plan was made
for. Every other script adds.
-/
import GenerationBalance.Reservations
import GenerationBalance.Versions

namespace GenerationBalance

open Transition Versioned

/-! ## What calls hold -/

variable {lo : Field → ℤ}

/-- The balances that a call would seed or write are above the floor, and its
refund is of a reservation's plan. -/
structure Proc.Above (lo : Field → ℤ) (st : Proc) : Prop where
  seed : ∀ u t b, st.loader = some (u, .seed t b) → b.Above lo
  rows : ∀ u b, (u, b) ∈ st.rows → b.Above lo
  refund : ∀ a, st.refund = some a → ∃ v : Reservation, a.plan = v.plan

theorem Proc.Blank.above {st : Proc} (h : st.Blank) : st.Above lo where
  seed u t b hl := by cases h.loader _ _ hl
  rows u b hb := by rw [h.rows] at hb; cases hb
  refund a ha := by rw [h.refund] at ha; cases ha

/-- Every balance and every row is above the floor, and every record's plan is
that of a reservation. -/
structure System.Above (lo : Field → ℤ) (s : System) : Prop where
  floor : ∀ f, lo f ≤ 0
  bal : ∀ u b, s.redis.bal.get u = some b → b.Above lo
  pg : ∀ u b, s.pg.get u = some b → b.Above lo
  gen : ∀ id g, s.redis.gen.get id = some g → ∃ v : Reservation, g.plan = v.plan
  held : ∀ p st, s.Holds p st → st.Above lo

theorem Balance.above_getD {row : Option Balance} (hlo : ∀ f, lo f ≤ 0) (h : ∀ b, row = some b → b.Above lo) :
    (row.getD .zero).Above lo := by
  cases row with
  | none => exact fun f _ => by cases f <;> exact hlo _
  | some b => exact h b rfl

/-- What the reaper sends for a record is the record's plan. -/
theorem ReapPc.refundArgs_ok {id : RequestId} {g : GenerationHash} {a : RefundArgs} {v : Reservation}
    (h : ReapPc.refundArgs id (recordFromFields g) = .ok a) (hg : g.plan = v.plan) :
    a = ⟨g.userId, REAPED_ERROR, id, g.plan⟩ := by
  obtain ⟨plan, hp, h⟩ := bind_eq_ok.mp h
  cases h
  have hr : (recordFromFields g).plan = planFromMicros v.plan := by rw [← hg]; rfl
  rw [hr, v.planArgs_planFromMicros] at hp
  cases hp
  rw [hg]
  rfl

theorem Proc.Above.resume {cfg : Config} {s s' : System} {l : Label} {p : ℕ} {i : Input} {now : ℚ} {fresh : Token}
    (h : (s.procs p).Above lo) (hs : s.Above lo) (hg : Given cfg s s' l p i) :
    ((s.procs p).resume cfg fresh now i).Above lo := by
  refine ⟨fun u t b hl => ?_, fun u b hb => ?_, fun a ha => ?_⟩
  · rcases hg.seed hl with hl | rfl
    · exact h.seed u t b hl
    · exact Balance.above_getD hs.floor fun b hb => hs.pg _ _ hb
  · rcases Proc.resume_rows hb with hb | ⟨rfl, ha⟩
    · exact h.rows u b hb
    · exact hs.bal u b (hg.balance ha).1
  · rcases Proc.resume_refund ha with ha | ⟨request, v, reason, hst, rfl⟩ | ⟨id, todo, k, g, hst, rfl, hr, ha⟩
    · exact h.refund a ha
    · exact ⟨v, rfl⟩
    · obtain ⟨v, hv⟩ := hs.gen id g (hg.record (by rw [hst]; rfl)).1
      rw [ReapPc.refundArgs_ok ha hv]
      exact ⟨v, hv⟩

/-! ## The invariant -/

/-- What a call adds to a balance is not negative, unless it debits a plan. -/
theorem Moves.nonneg {st : Proc} {c : Call} {r : Reply} {u : UserId} {δ : Field → ℤ} (hm : Moves c r u δ)
    (hs : Sends st c) (hn : st.Above lo) : (∃ n, r = .reserve (.ok n)) ∨ ∀ f, 0 ≤ δ f := by
  cases hm with
  | reserve => exact .inl ⟨_, rfl⟩
  | settle =>
    obtain ⟨S, -, rfl⟩ := hs.of_settle
    obtain ⟨n, hsound⟩ := S.sound
    exact .inr hsound.refund_nonneg
  | refund =>
    obtain ⟨v, hv⟩ := hn.refund _ hs.of_refund
    exact .inr (hv ▸ v.sound.nonneg)
  | topUp =>
    obtain ⟨t, -, rfl⟩ := hs.of_topUp
    exact .inr t.of.nonneg

theorem StepCase.bal_above {cfg : Config} {s s' : System} {l : Label} (h : StepCase cfg s l s') (hs : s.Above lo)
    (hc : s.Current) (hh : healthy cfg ⟨s, l, s'⟩ = true) {u : UserId} {b : Balance}
    (hb : s'.redis.bal.get u = some b) : b.Above lo := by
  obtain ⟨hk, hi⟩ := healthy_keeps hh
  have set : ∀ {w : UserId} {c : Balance}, s'.redis.bal = s.redis.bal.set w c → c.Above lo → b.Above lo := by
    intro w c he hcn
    rw [he, Table.get_set] at hb
    split at hb
    · cases hb; exact hcn
    · exact hs.bal u b hb
  cases h.store with
  | same hn he => rw [he] at hb; exact hs.bal u b hb
  | expired hn he => rw [he.bal hk] at hb; exact hs.bal u b hb
  | @ran x pick hx hheld ha he =>
    have hsend := Proc.sends ha
    cases (callOk_of_ran hx hi he).balChange with
    | same hbal hd => rw [hbal] at hb; exact hs.bal u b hb
    | @moved w old new δ hm ho hf hbal hd =>
      rcases hm.nonneg hsend (hs.held _ _ hheld) with ⟨n, hn⟩ | hδ
      · obtain ⟨v, c, -, -, hget, hcf, hr⟩ := hc.snapshot h hx hn
        refine set (w := v.request.userId) (c := c) (by rw [hr]; rfl) fun f hf => ?_
        have := v.sound.within f hf
        have := hs.floor f
        rw [hcf, if_neg hf]
        omega
      · refine set hbal fun f hfa => ?_
        have h0 := hs.bal w old ho f hfa
        have := hδ f
        rw [hf, if_neg hfa]
        omega
    | @seeded w c hcall hn hbal hd =>
      refine set hbal ?_
      rw [hcall] at hsend
      cases hsend with
      | seed hl => exact (hs.held _ _ hheld).seed _ _ _ hl
    | @advanced w c n hcall hr ho hbal hd =>
      refine set hbal fun f hfa => ?_
      have h0 := hs.bal w c ho f hfa
      cases f <;> first | exact h0 | exact absurd rfl hfa

theorem Expires.gen {ρ ρ' : Redis} {l : Label} (h : Expires ρ l ρ') {id : RequestId} {g : GenerationHash}
    (hg : ρ'.gen.get id = some g) : ρ.gen.get id = some g := by
  cases h with
  | generation k =>
    rw [Table.get_del] at hg
    split at hg
    · cases hg
    · exact hg
  | _ => exact hg

theorem StepCase.gen_plan {cfg : Config} {s s' : System} {l : Label} (h : StepCase cfg s l s') (hs : s.Above lo)
    (hi : inRange cfg ⟨s, l, s'⟩ = true) {id : RequestId} {g : GenerationHash}
    (hg : s'.redis.gen.get id = some g) : ∃ v : Reservation, g.plan = v.plan := by
  cases h.store with
  | same hn he => rw [he] at hg; exact hs.gen id g hg
  | expired hn he => exact hs.gen id g (he.gen hg)
  | ran hx hheld ha he =>
    rcases (callOk_of_ran hx hi he).gen_origin hg with ⟨g₀, hg₀, hstep⟩ | ⟨a, v, hcall, -, -, rfl⟩
    · obtain ⟨v, hv⟩ := hs.gen id g₀ hg₀
      exact ⟨v, by rw [← hv]; exact hstep.sameReservation.2.2.2.1.symm⟩
    · have hsend := Proc.sends ha
      rw [hcall] at hsend
      obtain ⟨v, -, rfl⟩ := hsend.of_reserve
      exact ⟨v, rfl⟩

theorem StepCase.above {cfg : Config} {s s' : System} {l : Label} (h : StepCase cfg s l s') (hs : s.Above lo)
    (hc : s.Current) (hh : healthy cfg ⟨s, l, s'⟩ = true) : s'.Above lo where
  floor := hs.floor
  bal u b hb := h.bal_above hs hc hh hb
  pg u b hb := by
    rcases h.row_cases u with he | ⟨c, p, hc, hm, -⟩
    · exact hs.pg u b (he ▸ hb)
    · rw [hb] at hc
      cases hc
      exact (hs.held p _ (.inl rfl)).rows u b hm
  gen id g hg := h.gen_plan hs (healthy_keeps hh).2 hg
  held := h.held (Q := fun _ st => st.Above lo) hs.held (fun _ hn => hn) (fun _ hb => hb.above)
    fun _ _ _ hg _ hn => hn.resume hs hg

theorem System.start_above {pg : Rows} (hlo : ∀ f, lo f ≤ 0) (h : ∀ u b, pg.get u = some b → b.Above lo) :
    (System.start pg).Above lo where
  floor := hlo
  bal u b hb := by cases hb
  pg := h
  gen id g hg := by cases hg
  held p st hh := by
    rw [System.start_holds hh]
    exact Proc.blank_idle.above

theorem Runs.above {cfg : Config} {pg : Rows} {tr : List (Trans System Label)} {s : System}
    (hr : Runs cfg (.start pg) tr s) (hh : ∀ t ∈ tr, healthy cfg t = true) (hlo : ∀ f, lo f ≤ 0)
    (hpg : ∀ u b, pg.get u = some b → b.Above lo) : s.Above lo := by
  have hinv : s.Above lo ∧ s.Current :=
    hr.invariant (I := fun s => s.Above lo ∧ s.Current) hh ⟨System.start_above hlo hpg, System.start_current pg⟩
      fun hi h ht => ⟨(step_cases h).above hi.1 hi.2 ht, (step_cases h).current hi.2 ht⟩
  exact hinv.1

/-- The transition debits a plan. -/
def debits (cfg : Config) (t : Trans System Label) : Bool :=
  match ran cfg t with
  | some ⟨_, _, _, .reserve (.ok _)⟩ => true
  | _ => false

/-- **Safety of `RESERVE`.** From rows that are not negative, as long as no
balance key is deleted and all sums are in range: whenever a plan is debited,
the balance is the snapshot that `authorize` made the plan for; and no amount of
any balance is negative. -/
theorem reserve_safe {cfg : Config} {pg : Rows} {tr : List (Trans System Label)} {s : System}
    (hr : Runs cfg (.start pg) tr s) (hh : ∀ t ∈ tr, healthy cfg t = true)
    (hpg : ∀ u b, pg.get u = some b → b.Nonneg) :
    (∀ t ∈ tr, ∀ x n, ran cfg t = some x → x.reply = .reserve (.ok n) →
      ∃ v : Reservation, x.call = .reserve v.args ∧
        authorize MODELS v.request (snapshotFromHash v.snapshot).toBalanceView = .ok v.authorization ∧
        planArgs v.authorization.debitPlan = .ok v.args.plan ∧
        t.pre.redis.bal.get v.args.userId = some v.snapshot) ∧
    ∀ u b, s.redis.bal.get u = some b → ∀ f : Field, f.IsAmount → 0 ≤ b.get f := by
  refine ⟨fun t ht x n hx hn => ?_, ?_⟩
  · obtain ⟨newer, older, he, hpre, hstep, -⟩ := hr.split ht
    have hcur : t.pre.Current := Runs.current hpre fun t' ht' => hh t' (by rw [he]; simp [ht'])
    obtain ⟨v, b, -, hcall, hget, -, -⟩ := hcur.snapshot (step_cases hstep) hx hn
    exact ⟨v, hcall, v.authorized, v.planned, hget⟩
  · exact (hr.above hh (fun _ => le_refl 0) hpg).bal

theorem oneDollar_nonneg : oneDollar.Nonneg := by
  intro f _
  cases f <;> decide

/-- A premium generation of user 1 is debited: of one dollar, eighty cents are left. -/
theorem reserve_safe_premium :
    ∃ tr s, Runs {} (.start dollarRows) tr s ∧
      (∃ t ∈ tr, ∃ x n, ∃ v : Reservation, ran {} t = some x ∧ x.reply = .reserve (.ok n) ∧ x.call = .reserve v.args ∧
        authorize MODELS v.request (snapshotFromHash v.snapshot).toBalanceView = .ok v.authorization ∧
        t.pre.redis.bal.get v.args.userId = some v.snapshot ∧
        (t.post.redis.bal.get 1).map Balance.totalUsd = some 800000) ∧
      ∀ u b, s.redis.bal.get u = some b → ∀ f : Field, f.IsAmount → 0 ≤ b.get f := by
  obtain ⟨tr, s, hr, h⟩ := Runs.of_schedule {} (.start dollarRows)
    (.spawn 0 (.gen (premium 1 5)) :: coldLoad 0 ++ [.exec 0 [] 0])
    (fun tr _ => tr.all (healthy {}) && tr.any fun t => debits {} t &&
      (t.post.redis.bal.get 1).map Balance.totalUsd == some 800000) (by decide +kernel)
  simp only [Bool.and_eq_true, List.all_eq_true, List.any_eq_true, beq_iff_eq] at h
  obtain ⟨hh, t, ht, hd, hpost⟩ := h
  obtain ⟨h1, h2⟩ := reserve_safe hr hh fun u b hb => dollarRows_get hb ▸ oneDollar_nonneg
  refine ⟨tr, s, hr, ⟨t, ht, ?_⟩, h2⟩
  unfold debits at hd
  split at hd
  · next q st c n hx =>
    obtain ⟨v, hc, ha, -, hg⟩ := h1 t ht _ n hx rfl
    exact ⟨_, n, v, hx, rfl, hc, ha, hg, hpost⟩
  · cases hd

end GenerationBalance
