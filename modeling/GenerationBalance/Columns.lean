/-
What the columns of the table can hold. Nothing on a balance's way there compares
it with a column: it can be stored as long as every top-up that is applied leaves
room for what the user's running generations may give back.
-/
import GenerationBalance.Copies
import GenerationBalance.Reach

namespace GenerationBalance

open Transition

/-! ## The limits -/

/-- The least that a column can hold. -/
def Field.least : Field → ℤ
  | .freeRequests => -2 ^ 31
  | .version => -2 ^ 63
  | _ => -(10 ^ 18 - 1)

/-- The most that a column can hold. -/
def Field.most : Field → ℤ
  | .freeRequests => 2 ^ 31 - 1
  | .version => 2 ^ 63 - 1
  | _ => 10 ^ 18 - 1

theorem Field.least_nonpos (f : Field) : f.least ≤ 0 := by
  cases f <;> decide

theorem Balance.storable_iff {b : Balance} : b.Storable ↔ ∀ f : Field, f.least ≤ b.get f ∧ b.get f ≤ f.most := by
  constructor
  · rintro ⟨h1, h2, h3, h4, h5⟩ f
    unfold NumericRange at h1 h2 h3
    unfold IntegerRange at h4
    unfold InRange at h5
    cases f <;> simp only [Field.least, Field.most, Balance.get] <;> omega
  · intro h
    have h1 := h .freeUsd
    have h2 := h .bonusUsd
    have h3 := h .paidUsd
    have h4 := h .freeRequests
    have h5 := h .version
    simp only [Field.least, Field.most, Balance.get] at h1 h2 h3 h4 h5
    refine ⟨?_, ?_, ?_, ?_, ?_⟩ <;> simp only [NumericRange, IntegerRange, InRange] <;> omega

theorem Balance.zero_storable : Balance.zero.Storable := by decide

theorem Rows.copy_storable {pg : Rows} (h : ∀ u b, pg.get u = some b → b.Storable) (u : UserId) :
    (pg.copy u).Storable := by
  unfold Rows.copy
  cases hb : pg.get u with
  | none => exact Balance.zero_storable
  | some b => exact h u b hb

/-! ## The invariant -/

/-- Every row can be stored; every record is of a user who has a balance; and with
all that running generations may give back, every balance can be stored. -/
structure System.Fits (s : System) : Prop where
  rows : ∀ u b, s.pg.get u = some b → b.Storable
  owners : ∀ id g, s.redis.gen.get id = some g → ∃ b, s.redis.bal.get g.userId = some b
  room : ∀ u b, s.redis.bal.get u = some b → ∀ f : Field, f.IsAmount → s.redis.reach u f ≤ f.most
  version : ∀ u b, s.redis.bal.get u = some b → InRange b.version
  reads : ∀ p st, s.Holds p st → ∀ u b, (u, b) ∈ st.rows → b.Storable

/-- A top-up that the transition applies leaves room for what is reserved. -/
def LeavesRoom (cfg : Config) (t : Trans System Label) : Prop :=
  ∀ x o a, ran cfg t = some x → x.toppedUp = some (o, a) → ∀ f : Field, f.IsAmount →
    t.pre.redis.reach a.userId f + a.amount f ≤ f.most

theorem System.Fits.storable {s : System} {K : RequestId → Prop} (hs : s.Fits) (hk : s.Kept K)
    (ha : s.Above Field.least) {u : UserId} {b : Balance} (hb : s.redis.bal.get u = some b) : b.Storable := by
  refine Balance.storable_iff.mpr fun f => ?_
  by_cases hf : f = .version
  · subst hf
    have hv := hs.version u b hb
    unfold InRange at hv
    simp only [Field.least, Field.most, Balance.get]
    omega
  · have hhot := hk.hot_le_reach u f
    rw [Redis.hot_of_get hb] at hhot
    exact ⟨ha.bal u b hb f hf, hhot.trans (hs.room u b hb f hf)⟩

section Step

variable {cfg : Config} {s s' : System} {l : Label}

/-- What is written can be stored, or the statement would have failed. -/
theorem StepCase.rows_storable (h : StepCase cfg s l s') (hs : ∀ u b, s.pg.get u = some b → b.Storable) {u : UserId}
    {b : Balance} (hb : s'.pg.get u = some b) : b.Storable := by
  rcases h.rows with he | ⟨p, rows, answer, ha, hw⟩
  · exact hs u b (he ▸ hb)
  · have hw := writeRows_spec hw
    rcases hw.source u b hb with hold | hrow
    · exact hs u b hold
    · exact hw.storable _ hrow

/-- A record's user had a balance before the step. -/
theorem StepCase.owner (h : StepCase cfg s l s') (hs : s.Fits) (hi : inRange cfg ⟨s, l, s'⟩ = true) {id : RequestId}
    {g : GenerationHash} (hg : s'.redis.gen.get id = some g) : ∃ b, s.redis.bal.get g.userId = some b := by
  cases h.store with
  | same hn he => exact hs.owners id g (he ▸ hg)
  | expired hn he => exact hs.owners id g (he.gen hg)
  | @ran x pick hx hheld ha he =>
    have hok := callOk_of_ran hx hi he
    rcases hok.gen_origin hg with ⟨g₀, hg₀, hstep⟩ | ⟨a, n, hcall, hreply, -, rfl⟩
    · obtain ⟨b, hb⟩ := hs.owners id g₀ hg₀
      exact ⟨b, hstep.sameReservation.1 ▸ hb⟩
    · rw [hcall, hreply] at hok
      generalize s'.redis = ρ' at hok
      cases hok with
      | reserve hr =>
        obtain ⟨c, -, -, hc, -⟩ := hr.of_ok
        exact ⟨c, hc⟩

/-- A balance that is new to a user can be stored, and nothing is reserved from it. -/
theorem StepCase.seeded_fits (h : StepCase cfg s l s') (hs : s.Fits) (hm : s.Mirrors)
    (hh : healthy cfg ⟨s, l, s'⟩ = true) {u : UserId} {c : Balance} (hn : s.redis.bal.get u = none)
    (hc : s'.redis.bal.get u = some c) : c.Storable ∧ ∀ f, s'.redis.reach u f = c.get f := by
  have hcopy := h.seeded_copy hm hh hn hc
  refine ⟨hcopy ▸ Rows.copy_storable (fun u b hb => h.rows_storable hs.rows hb) u, fun f => ?_⟩
  have hnone : ∀ id g, s'.redis.gen.get id = some g → g.userId ≠ u := by
    rintro id g hg rfl
    obtain ⟨b, hb⟩ := h.owner hs (healthy_keeps hh).2 hg
    rw [hn] at hb
    cases hb
  unfold Redis.reach
  rw [Redis.hot_of_get hc, Redis.pending_absent hnone, add_zero]

theorem StepCase.room (h : StepCase cfg s l s') (hs : s.Fits) (hm : s.Mirrors) (hk : s.Kept fun _ => True)
    (hh : healthy cfg ⟨s, l, s'⟩ = true) (hr : Recording cfg (fun _ => True) ⟨s, l, s'⟩)
    (hroom : LeavesRoom cfg ⟨s, l, s'⟩) {u : UserId} {c : Balance} (hc : s'.redis.bal.get u = some c) {f : Field}
    (hf : f.IsAmount) : s'.redis.reach u f ≤ f.most := by
  cases hb : s.redis.bal.get u with
  | none =>
    obtain ⟨hst, hreach⟩ := h.seeded_fits hs hm hh hb hc
    rw [hreach f]
    exact (Balance.storable_iff.mp hst f).2
  | some b =>
    have hold := hs.room u b hb f hf
    have hle := h.reach hk hr hb hc hf
    unfold topped Ran.topped at hle
    cases hx : ran cfg ⟨s, l, s'⟩ with
    | none =>
      simp only [hx, Option.elim] at hle
      omega
    | some x =>
      simp only [hx, Option.elim] at hle
      split at hle
      · next o a ht =>
        have hfit := hroom x o a hx ht f hf
        split at hle
        · next hu =>
          rw [hu] at hfit
          exact hle.trans hfit
        · omega
      · omega

theorem StepCase.version_inRange (h : StepCase cfg s l s') (hs : s.Fits) (hm : s.Mirrors)
    (hh : healthy cfg ⟨s, l, s'⟩ = true) {u : UserId} {c : Balance} (hc : s'.redis.bal.get u = some c) :
    InRange c.version := by
  obtain ⟨hk, hi⟩ := healthy_keeps hh
  cases hb : s.redis.bal.get u with
  | none => exact (h.seeded_fits hs hm hh hb hc).1.2.2.2.2
  | some b =>
    have hold := hs.version u b hb
    cases h.store with
    | same hn he =>
      rw [he, hb] at hc
      cases hc
      exact hold
    | expired hn he =>
      rw [he.bal hk, hb] at hc
      cases hc
      exact hold
    | @ran x pick hx hheld ha he =>
      have set : ∀ {w : UserId} {new : Balance}, s'.redis.bal = s.redis.bal.set w new → InRange new.version →
          InRange c.version := by
        intro w new hset hv
        rw [hset, Table.get_set] at hc
        split at hc
        · cases hc
          exact hv
        · rw [hb] at hc
          cases hc
          exact hold
      cases (callOk_of_ran hx hi he).balChange with
      | same hbal hd =>
        rw [hbal, hb] at hc
        cases hc
        exact hold
      | moved hmv ho hf hset hd hv => exact set hset hv
      | @seeded w new hcall hn hset hd =>
        have hw : u ≠ w := by
          rintro rfl
          rw [hn] at hb
          cases hb
        rw [hset, Table.get_set_of_ne _ _ hw, hb] at hc
        cases hc
        exact hold
      | advanced hcall hr ho hset hd =>
        have := h.not_advanced hm hi hx hcall
        rw [hr] at this
        cases this

/-- **One step keeps every balance storable**, if a top-up it applies leaves room. -/
theorem StepCase.fits (h : StepCase cfg s l s') (hs : s.Fits) (hm : s.Mirrors) (hk : s.Kept fun _ => True)
    (ha : s.Above Field.least) (hh : healthy cfg ⟨s, l, s'⟩ = true) (hr : Recording cfg (fun _ => True) ⟨s, l, s'⟩)
    (hroom : LeavesRoom cfg ⟨s, l, s'⟩) : s'.Fits where
  rows u b hb := h.rows_storable hs.rows hb
  owners id g hg := by
    obtain ⟨b, hb⟩ := h.owner hs hr.inRange hg
    obtain ⟨c, hc, -⟩ := h.forward hm.flushing.advances hh _ b hb
    exact ⟨c, hc⟩
  room u c hc f hf := h.room hs hm hk hh hr hroom hc hf
  version u c hc := h.version_inRange hs hm hh hc
  reads := by
    refine h.held (Q := fun _ st => ∀ u b, (u, b) ∈ st.rows → b.Storable) hs.reads (fun _ hst => hst)
      (fun st hst u b hb => ?_) fun p i now hg _ hst u b hb => ?_
    · rw [hst.rows] at hb
      cases hb
    · rcases Proc.resume_rows hb with hb | ⟨rfl, hact⟩
      · exact hst u b hb
      · exact hs.storable hk ha (hg.balance hact).1

end Step

theorem System.start_fits {pg : Rows} (hpg : ∀ u b, pg.get u = some b → b.Storable) : (System.start pg).Fits where
  rows := hpg
  owners id g hg := by cases hg
  room u b hb := by cases hb
  version u b hb := by cases hb
  reads p st h u b hb := by
    rw [System.start_holds h] at hb
    cases hb

/-! ## Every run -/

/-- **Balances can be stored.** From rows that can be stored, while balance keys and
records are kept and sums stay in range: as long as every top-up that is applied
leaves room in the columns for what the user's running generations hold, every hot
balance is written as it is, and no batch of a flush fails. -/
theorem balances_storable {cfg : Config} {pg : Rows} {tr : List (Trans System Label)} {s : System}
    (hr : Runs cfg (.start pg) tr s) (hpg : ∀ u b, pg.get u = some b → b.Storable)
    (hl : ∀ t ∈ tr, healthy cfg t = true ∧ ∀ id, t.label.keepsRecord id = true)
    (hroom : ∀ t ∈ tr, LeavesRoom cfg t) :
    (∀ u b, s.redis.bal.get u = some b → columns (snapshotFromHash b) = some b) ∧
      ∀ p rows, (s.procs p).action cfg = .commit rows → (writeRows rows s.pg).isSome := by
  have recording : ∀ {t : Trans System Label}, healthy cfg t = true ∧ (∀ id, t.label.keepsRecord id = true) →
      Recording cfg (fun _ => True) t := fun ht => ⟨(healthy_keeps ht.1).2, fun id _ => ht.2 id⟩
  have hlo : ∀ u b, pg.get u = some b → b.Above Field.least := fun u b hb f _ =>
    (Balance.storable_iff.mp (hpg u b hb) f).1
  have hk := Runs.kept hr fun t ht => recording (hl t ht)
  have ha := hr.above (fun t ht => (hl t ht).1) Field.least_nonpos hlo
  have hfits : s.Fits := by
    refine hr.invariant_history (I := fun _ s => s.Fits)
      (P := fun t => (healthy cfg t = true ∧ ∀ id, t.label.keepsRecord id = true) ∧ LeavesRoom cfg t)
      (fun t ht => ⟨hl t ht, hroom t ht⟩) (System.start_fits hpg) fun hr' hP hs h ht => ?_
    exact (step_cases h).fits hs (Runs.history hr' fun t ht => (hP t ht).1.1).mirrors
      (Runs.kept hr' fun t ht => recording (hP t ht).1)
      (Runs.above hr' (fun t ht => (hP t ht).1.1) Field.least_nonpos hlo) ht.1.1 (recording ht.1) ht.2
  refine ⟨fun u b hb => ?_, fun p rows hrows => ?_⟩
  · rw [columns_snapshotFromHash, if_pos (hfits.storable hk ha hb)]
  · have hst : ∀ x ∈ rows, x.2.Storable := fun x hx =>
      hfits.reads p _ (.inl rfl) x.1 x.2 (by rw [Proc.commit_rows hrows]; exact hx)
    unfold writeRows
    rw [upsertMany_eq, if_pos hst]
    rfl

theorem dollarRows_storable {u : UserId} {b : Balance} (h : dollarRows.get u = some b) : b.Storable := by
  rw [dollarRows_get h]
  decide

/-- A top-up beside a running generation, and a flush that is about to write. -/
theorem balances_storable_half_dollar :
    ∃ tr s p rows, Runs {} (.start dollarRows) tr s ∧ (s.procs p).action {} = .commit rows ∧ rows ≠ [] ∧
      (writeRows rows s.pg).isSome ∧ s.redis.hot 1 .paidUsd = 1300000 ∧
      ∀ u b, s.redis.bal.get u = some b → columns (snapshotFromHash b) = some b := by
  obtain ⟨tr, s, hr, h⟩ := Runs.of_schedule {} (.start dollarRows)
    (.spawn 0 (.gen (premium 1 5)) :: coldLoad 0 ++
      [.exec 0 [] 0, .spawn 1 (.topUp ⟨9, 1, ⟨5, -1⟩, 0, 0⟩), .exec 1 [] 0,
        .spawn 2 .flush, .exec 2 [1] 0, .exec 2 [] 0])
    (fun tr s => (tr.all fun t => lasting {} t && ((ran {} t).bind Ran.toppedUp).all fun x =>
        [Field.freeUsd, .bonusUsd, .paidUsd, .freeRequests].all fun f =>
          decide (t.pre.redis.reach x.2.userId f + x.2.amount f ≤ f.most)) &&
      s.redis.hot 1 .paidUsd == 1300000 && ((s.procs 2).batch {}).any fun rows => !rows.isEmpty) (by decide +kernel)
  simp only [Bool.and_eq_true, List.all_eq_true, Option.all_eq_true, Option.any_eq_true, decide_eq_true_eq,
    beq_iff_eq] at h
  obtain ⟨⟨htr, hhot⟩, rows, hrows, hne⟩ := h
  have hrows := Proc.batch_some hrows
  have hl : ∀ t ∈ tr, healthy {} t = true ∧ ∀ id, t.label.keepsRecord id = true := fun t ht => by
    have := (htr t ht).1
    simp only [lasting, Bool.and_eq_true] at this
    exact ⟨this.1, fun id => Label.keepsRecord_of_keepsRecords this.2 id⟩
  obtain ⟨hcolumns, hwrites⟩ := balances_storable hr (fun u b hb => dollarRows_storable hb) hl
    fun t ht x o a hx hto f hf => (htr t ht).2 (o, a) (by rw [hx]; exact hto) f (by
      cases f <;> first | exact absurd rfl hf | simp)
  refine ⟨tr, s, 2, rows, hr, hrows, ?_, hwrites 2 rows hrows, hhot, hcolumns⟩
  rintro rfl
  cases hne

/-- A user is given 2 ^ 31 free requests: the balance cannot be stored, and the
flush that reads it fails for another user, too. -/
theorem batch_poisoned :
    ∃ tr s p rows, Runs {} (.start dollarRows) tr s ∧ (∀ u b, dollarRows.get u = some b → b.Storable) ∧
      (∀ t ∈ tr, lasting {} t = true) ∧ (s.procs p).action {} = .commit rows ∧ writeRows rows s.pg = none ∧
      (∃ b, s.redis.bal.get 1 = some b ∧ columns (snapshotFromHash b) = none) ∧
      ∃ b, (2, b) ∈ rows ∧ s.redis.bal.get 2 = some b ∧ columns (snapshotFromHash b) = some b := by
  obtain ⟨tr, s, hr, h⟩ := Runs.of_schedule {} (.start dollarRows)
    (.spawn 0 (.topUp ⟨9, 1, 0, 0, 2 ^ 31⟩) :: .exec 0 [] 0 :: coldLoad 0 ++ .exec 0 [] 0 ::
      .spawn 1 (.topUp ⟨10, 2, ⟨5, -1⟩, 0, 0⟩) :: .exec 1 [] 0 :: coldLoad 1 ++
      [.exec 1 [] 0, .spawn 2 .flush, .exec 2 [1, 2] 0, .exec 2 [] 0, .exec 2 [] 0])
    (fun tr s => tr.all (lasting {}) && (s.redis.bal.get 1).any (fun b : Balance => !decide b.Storable) &&
      ((s.procs 2).batch {}).any fun rows => decide ((writeRows rows s.pg).isNone) &&
        (s.redis.bal.get 2).any fun b : Balance => decide b.Storable && decide ((2, b) ∈ rows)) (by decide +kernel)
  simp only [Bool.and_eq_true, List.all_eq_true, Option.any_eq_true, Bool.not_eq_true', decide_eq_false_iff_not,
    decide_eq_true_eq, Option.isNone_iff_eq_none] at h
  obtain ⟨⟨hl, b, hb, hns⟩, rows, hrows, hnone, c, hc, hs, hm⟩ := h
  exact ⟨tr, s, 2, rows, hr, fun u b hb => dollarRows_storable hb, hl, Proc.batch_some hrows, hnone,
    ⟨b, hb, by rw [columns_snapshotFromHash, if_neg hns]⟩, c, hm, hc, by rw [columns_snapshotFromHash, if_pos hs]⟩

end GenerationBalance
