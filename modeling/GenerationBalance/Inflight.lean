/-
The index of running records. The scripts write a record and its entry in
`gen:inflight` together, but `forget_inflight` removes an entry whatever has become
of the record that was read: when the record expired and its id was used again in
between, a running record loses its entry and no reaper finds it any more.
-/
import GenerationBalance.Runs
import GenerationBalance.Stopped

namespace GenerationBalance

open Transition

/-! ## What the index is for -/

/-- Every running record is in the index, and listed by the reaper once it is old
enough and there is room for all. -/
def Redis.Indexed (ρ : Redis) : Prop :=
  ∀ id g, ρ.gen.get id = some g → g.status = .running → (ρ.inflight.get id).isSome ∧
    ∀ olderThan limit, g.startedAt ≤ olderThan → ρ.inflight.keys.card ≤ limit → id ∈ ρ.staleInflight olderThan limit

/-- Every running record is in the index, under the time it was started at. -/
def Redis.Scored (ρ : Redis) : Prop :=
  ∀ id g, ρ.gen.get id = some g → g.status = .running → ρ.inflight.get id = some g.startedAt

theorem Redis.mem_staleInflight {ρ : Redis} {id : RequestId} {score olderThan : ℚ} {limit : ℕ}
    (h : ρ.inflight.get id = some score) (hs : score ≤ olderThan) (hl : ρ.inflight.keys.card ≤ limit) :
    id ∈ ρ.staleInflight olderThan limit := by
  rw [Redis.staleInflight_eq, List.take_of_length_le]
  · exact ((ρ.staleOrder_spec olderThan).mem id).mpr ⟨score, h, hs⟩
  · rw [Redis.staleOrder, List.length_map, Finset.length_sort]
    calc _ ≤ _ := Finset.card_filter_le ..
      _ ≤ _ := Finset.card_image_le
      _ ≤ limit := hl

theorem Redis.Scored.indexed {ρ : Redis} (h : ρ.Scored) : ρ.Indexed := by
  intro id g hg hr
  have hs := h id g hg hr
  exact ⟨by rw [hs]; rfl, fun olderThan limit hle hl => Redis.mem_staleInflight hs hle hl⟩

/-! ## One round trip -/

/-- Records and index are the same, or one record was resolved and left the index. -/
theorem Redis.Scored.resolved {ρ ρ' : Redis} (h : ρ.Scored) {id : RequestId} {g : GenerationHash}
    (hg : ρ'.gen = ρ.gen.set id g) (hi : ρ'.inflight = ρ.inflight.del id) (hs : g.status ≠ .running) : ρ'.Scored := by
  intro k g' hk hr
  rw [hg, Table.get_set] at hk
  split at hk
  · cases hk
    exact absurd hr hs
  · next hne =>
    rw [hi, Table.get_del_of_ne _ hne]
    exact h k g' hk hr

theorem Redis.Scored.same {ρ ρ' : Redis} (h : ρ.Scored) (hg : ρ'.gen = ρ.gen) (hi : ρ'.inflight = ρ.inflight) :
    ρ'.Scored := by
  intro k g hk hr
  rw [hg] at hk
  rw [hi]
  exact h k g hk hr

/-- **A round trip keeps the index**, unless it forgets a running record. -/
theorem CallOk.scored {ρ ρ' : Redis} {c : Call} {r : Reply} (h : CallOk ρ c r ρ') (hs : ρ.Scored)
    (hf : ∀ id, c = .forgetInflight id → ∀ g, ρ.gen.get id = some g → g.status ≠ .running) : ρ'.Scored := by
  cases h with
  | forgot id =>
    intro k g hk hr
    have hne : k ≠ id := by
      rintro rfl
      exact hf _ rfl g hk hr
    show (ρ.inflight.del id).get k = _
    rw [Table.get_del_of_ne _ hne]
    exact hs k g hk hr
  | @reserve a r ρ' h =>
    cases h with
    | applied =>
      intro k g hk hr
      show (ρ.inflight.set a.clientRequestId a.startedAt).get k = _
      rw [Table.get_set]
      replace hk : (ρ.gen.set a.clientRequestId a.record).get k = some g := hk
      rw [Table.get_set] at hk
      split at hk
      · next he =>
        cases hk
        rw [if_pos he]
        rfl
      · next hne =>
        rw [if_neg hne]
        exact hs k g hk hr
    | _ => exact hs
  | settle h =>
    cases h with
    | «exact» => exact hs.resolved rfl rfl nofun
    | surplus => exact hs.resolved rfl rfl nofun
    | _ => exact hs
  | refund h =>
    cases h with
    | applied => exact hs.resolved rfl rfl nofun
    | _ => exact hs
  | topUp h => cases h <;> exact hs.same rfl rfl
  | _ => exact hs.same rfl rfl

/-! ## Runs -/

/-- The id a transition removes from the index. -/
def forgotten (cfg : Config) (t : Trans System Label) : Option RequestId :=
  match ran cfg t with
  | some ⟨_, _, .forgetInflight id, _⟩ => some id
  | _ => none

theorem forgotten_of_ran {cfg : Config} {t : Trans System Label} {x : Ran} {id : RequestId} (h : ran cfg t = some x)
    (hc : x.call = .forgetInflight id) : forgotten cfg t = some id := by
  obtain ⟨p, st, c, r⟩ := x
  cases hc
  simp only [forgotten, h]

theorem ran_of_forgotten {cfg : Config} {t : Trans System Label} {id : RequestId} (h : forgotten cfg t = some id) :
    ∃ x, ran cfg t = some x ∧ x.call = .forgetInflight id := by
  unfold forgotten at h
  split at h
  · next hr => cases h; exact ⟨_, hr, rfl⟩
  · cases h

/-- The entry a transition removes is of no running record. -/
def ForgetsResolved (cfg : Config) (t : Trans System Label) : Prop :=
  ∀ id, forgotten cfg t = some id → ∀ g, t.pre.redis.gen.get id = some g → g.status ≠ .running

theorem step_scored {cfg : Config} {s s' : System} {l : Label} (h : step cfg s l = some s') (hs : s.redis.Scored)
    (hf : ForgetsResolved cfg ⟨s, l, s'⟩) : s'.redis.Scored := by
  cases (step_cases h).store with
  | same _ he => rwa [he]
  | expired _ he =>
    generalize s'.redis = ρ' at he ⊢
    cases he with
    | generation id =>
      intro k g hk hr
      replace hk : (s.redis.gen.del id).get k = some g := hk
      rw [Table.get_del] at hk
      split at hk
      · cases hk
      · exact hs k g hk hr
    | _ => exact hs
  | ran hx _ _ he =>
    rcases exec_cases he with hok | ⟨-, hstop⟩
    · exact hok.scored hs fun id hc => hf id (forgotten_of_ran hx hc)
    · exact hs.same hstop.gen hstop.inflight

/-- An entry that was removed is gone. -/
theorem step_forgotten {cfg : Config} {s s' : System} {l : Label} {id : RequestId} (h : step cfg s l = some s')
    (hf : forgotten cfg ⟨s, l, s'⟩ = some id) : s'.redis.inflight.get id = none ∧ s'.redis.gen = s.redis.gen := by
  obtain ⟨x, hx, hc⟩ := ran_of_forgotten hf
  obtain ⟨_, -, -, he⟩ := (step_cases h).executed hx
  rw [hc] at he
  simp only [exec, Option.some.injEq, Prod.mk.injEq] at he
  rw [← he.2]
  exact ⟨Table.get_del_self .., rfl⟩

/-- **The index holds in every state of a run exactly** when no step removes the
entry of a record that is running at that moment. -/
theorem running_indexed {cfg : Config} {pg : Rows} {tr : List (Trans System Label)} {s : System}
    (hr : Runs cfg (System.start pg) tr s) :
    (∀ s₁, Visited tr s s₁ → s₁.redis.Indexed) ↔ ∀ t ∈ tr, ForgetsResolved cfg t := by
  constructor
  · intro h t ht id hid g hg hrun
    obtain ⟨newer, older, rfl, hbefore, hstep, hafter⟩ := hr.split ht
    obtain ⟨hgone, hsame⟩ := step_forgotten hstep hid
    have hindexed := (h t.post (Run.visited_post hr ht)) id g (by rw [hsame, hg]) hrun
    rw [hgone] at hindexed
    cases hindexed.1
  · intro hf
    have hstart : (System.start pg).redis.Scored := by
      intro id g hg
      cases hg
    have hinv : ∀ s₁, Visited tr s s₁ → s₁.redis.Scored := by
      refine hr.invariant_history (I := fun tr s => ∀ s₁, Visited tr s s₁ → s₁.redis.Scored) hf ?_ ?_
      · rintro s₁ (rfl | ⟨t, ht, -⟩)
        · exact hstart
        · cases ht
      · intro tr s l s' _ _ ih hs hp s₁ hv
        rcases visited_step.mp hv with rfl | hv
        · exact step_scored hs (ih s (.inl rfl)) hp
        · exact ih s₁ hv
    exact fun s₁ hv => (hinv s₁ hv).indexed

/-- A call reserves and dies; the reaper lists the reservation and refunds it. -/
def reapedSchedule : List Label :=
  .spawn 0 (.gen (premium 1 5)) :: coldLoad 0 ++
    [.exec 0 [] 0, .crash 0, .spawn 1 (.reap 400), .exec 1 [] 0, .exec 1 [] 0, .exec 1 [] 0]

/-- The record expires before the reaper reads it, and its id is used again before
the reaper forgets it. -/
def reusedSchedule : List Label :=
  .spawn 0 (.gen (premium 1 5)) :: coldLoad 0 ++
    [.exec 0 [] 0, .crash 0, .spawn 1 (.reap 400), .exec 1 [] 0, .expireGeneration 5, .exec 1 [] 0,
      .spawn 2 (.gen (premium 1 5)), .exec 2 [] 0, .exec 2 [] 0, .exec 1 [] 0]

/-- The reservation of a call that died stays in the index until it is refunded. -/
theorem running_indexed_reaped : ∃ tr s, Runs {} (System.start dollarRows) tr s ∧
    (∀ s₁, Visited tr s s₁ → s₁.redis.Indexed) ∧ (s.redis.gen.get 5).map GenerationHash.status = some .failed := by
  obtain ⟨tr, s, hr, hp⟩ := Runs.of_schedule {} (System.start dollarRows) reapedSchedule
    (fun tr s => tr.all (fun t => (forgotten {} t).isNone) &&
      decide ((s.redis.gen.get 5).map GenerationHash.status = some .failed)) (by decide +kernel)
  simp only [Bool.and_eq_true, List.all_eq_true, decide_eq_true_eq, Option.isNone_iff_eq_none] at hp
  refine ⟨tr, s, hr, (running_indexed hr).mpr fun t ht id hid => ?_, hp.2⟩
  cases (hp.1 t ht).symm.trans hid

/-- A running record has left the index. -/
theorem running_forgotten : ¬ ∀ (cfg : Config) (pg : Rows) (tr : List (Trans System Label)) (s : System),
    Runs cfg (System.start pg) tr s → s.redis.Indexed := by
  intro h
  obtain ⟨tr, s, hr, hp⟩ := Runs.of_schedule {} (System.start dollarRows) reusedSchedule
    (fun _ s => decide ((s.redis.gen.get 5).map GenerationHash.status = some .running) &&
      (s.redis.inflight.get 5).isNone) (by decide +kernel)
  simp only [Bool.and_eq_true, decide_eq_true_eq, Option.map_eq_some_iff] at hp
  obtain ⟨⟨g, hg, hrun⟩, hgone⟩ := hp
  have hindexed := (h {} dollarRows tr s hr 5 g hg hrun).1
  rw [Option.isNone_iff_eq_none] at hgone
  rw [hgone] at hindexed
  cases hindexed

end GenerationBalance
