/-
The flusher on its own (`backend/app/billing/flusher.py`): what one `flush_once`
leaves of every hot balance and every row, and that two of them bring the two
stores together.

A row that was rejected stays, and its user's hot version is set past it; so the
first flush settles which of the two is kept, and the second one writes the hot
balance of the users for whom it was not the row.
-/
import GenerationBalance.Columns
import GenerationBalance.Solo

namespace GenerationBalance

/-! ## One user -/

/-- The balance is written: no row is there, or an older one. -/
def Balance.Ahead (b : Balance) (stored : Option Balance) : Prop := ∀ r, stored = some r → r.version < b.version

/-- The row the upsert of a balance leaves. -/
def Balance.over (b : Balance) : Option Balance → Balance
  | none => b
  | some stored => if stored.version < b.version then b else stored

/-- The hot balance that is left when its row is `stored` after the upsert: another row's version
is passed. -/
def Balance.repaired (b stored : Balance) : Balance :=
  if stored = b then b else b.withVersion (stored.version + 1)

section User

variable {b stored : Balance} {row : Option Balance}

theorem Balance.over_of_ahead (h : b.Ahead row) : b.over row = b := by
  cases row with
  | none => rfl
  | some r => exact if_pos (h r rfl)

theorem Balance.over_of_not_ahead (h : ¬ b.Ahead row) : row = some (b.over row) ∧ b.version ≤ (b.over row).version := by
  cases row with
  | none => exact absurd (fun r hr => by cases hr) h
  | some r =>
    have hle : ¬ r.version < b.version := fun hlt => h fun r' hr => by
      cases hr
      exact hlt
    have hover : b.over (some r) = r := if_neg hle
    rw [hover]
    exact ⟨rfl, not_lt.mp hle⟩

theorem Balance.le_over : b.version ≤ (b.over row).version := by
  by_cases h : b.Ahead row
  · rw [Balance.over_of_ahead h]
  · exact (Balance.over_of_not_ahead h).2

/-- The upsert is rejected in favour of another row. -/
theorem Balance.over_ne_iff : b.over row ≠ b ↔ ∃ r, row = some r ∧ b.version ≤ r.version ∧ r ≠ b := by
  constructor
  · intro h
    obtain ⟨hrow, hle⟩ := Balance.over_of_not_ahead (mt Balance.over_of_ahead h)
    exact ⟨b.over row, hrow, hle, h⟩
  · rintro ⟨r, rfl, hle, hne⟩
    rwa [Balance.over, if_neg (not_lt.mpr hle)]

theorem Balance.repaired_amount {f : Field} (hf : f ≠ .version) : (b.repaired stored).get f = b.get f := by
  unfold Balance.repaired
  split
  · rfl
  · cases f <;> first | rfl | exact absurd rfl hf

theorem Balance.lt_repaired (hle : b.version ≤ stored.version) (hne : stored ≠ b) :
    b.version < (b.repaired stored).version := by
  rw [Balance.repaired, if_neg hne]
  exact Int.lt_add_one_of_le hle

theorem Balance.repaired_ahead (hne : stored ≠ b) : (b.repaired stored).Ahead (some stored) := by
  intro r hr
  cases hr
  rw [Balance.repaired, if_neg hne]
  exact Int.lt_succ stored.version

theorem Balance.repaired_storable (hb : b.Storable) (hr : stored.Storable) (hv : stored ≠ b → stored.version < 2 ^ 63 - 1) :
    (b.repaired stored).Storable := by
  unfold Balance.repaired
  split
  · exact hb
  · next hne =>
    have := hv hne
    obtain ⟨hfree, hbonus, hpaid, hrequests, -⟩ := hb
    have hversion := hr.2.2.2.2
    refine ⟨hfree, hbonus, hpaid, hrequests, ?_⟩
    simp only [InRange, Balance.withVersion] at hversion ⊢
    omega

end User

/-! ## The upsert -/

/-- What the statement leaves of each row, and the users it answers. -/
structure Merged (rows : List (UserId × Balance)) (pg : Rows) (r : List UserId × Rows) : Prop where
  row : ∀ u b, (u, b) ∈ rows → r.2.get u = some (b.over (pg.get u))
  other : ∀ u, u ∉ rows.map Prod.fst → r.2.get u = pg.get u
  written : ∀ u, u ∈ r.1 ↔ ∃ b, (u, b) ∈ rows ∧ b.Ahead (pg.get u)

theorem upsertRows_merged : ∀ {rows : List (UserId × Balance)}, (rows.map Prod.fst).Nodup → ∀ pg : Rows,
    Merged rows pg (upsertRows rows pg)
  | [], _, pg => ⟨by simp, fun u _ => rfl, by simp [upsertRows]⟩
  | (u, b) :: rows, hn, pg => by
    rw [List.map_cons, List.nodup_cons] at hn
    have hne : ∀ {w c}, (w, c) ∈ rows → w ≠ u := fun hm he => hn.1 (he ▸ List.mem_map.mpr ⟨_, hm, rfl⟩)
    by_cases ha : b.Ahead (pg.get u)
    · have ih := upsertRows_merged hn.2 (pg.set u b)
      have hget : ∀ {w}, w ≠ u → (pg.set u b).get w = pg.get w := fun hw => Table.get_set_of_ne _ _ hw
      have hstep : upsertRows ((u, b) :: rows) pg = Prod.map (u :: ·) id (upsertRows rows (pg.set u b)) := by
        simp only [upsertRows]
        cases hu : pg.get u with
        | none => rfl
        | some old => exact if_pos (ha old hu)
      rw [hstep]
      refine ⟨fun w c hm => ?_, fun w hw => ?_, fun w => ?_⟩
      · rcases List.mem_cons.mp hm with he | hm
        · cases he
          rw [Balance.over_of_ahead ha]
          exact (ih.other u hn.1).trans (Table.get_set_self ..)
        · have := ih.row w c hm
          rwa [hget (hne hm)] at this
      · rw [List.map_cons, List.mem_cons, not_or] at hw
        exact (ih.other w hw.2).trans (hget hw.1)
      · show w ∈ u :: (upsertRows rows (pg.set u b)).1 ↔ _
        rw [List.mem_cons, ih.written]
        constructor
        · rintro (rfl | ⟨c, hm, hc⟩)
          · exact ⟨b, List.mem_cons_self .., ha⟩
          · rw [hget (hne hm)] at hc
            exact ⟨c, List.mem_cons_of_mem _ hm, hc⟩
        · rintro ⟨c, hm, hc⟩
          rcases List.mem_cons.mp hm with he | hm
          · cases he
            exact .inl rfl
          · exact .inr ⟨c, hm, by rwa [hget (hne hm)]⟩
    · obtain ⟨hrow, hle⟩ := Balance.over_of_not_ahead ha
      have ih := upsertRows_merged hn.2 pg
      have hstep : upsertRows ((u, b) :: rows) pg = upsertRows rows pg := by
        generalize b.over (pg.get u) = old at hrow hle
        simp only [upsertRows, hrow]
        exact if_neg (not_lt.mpr hle)
      rw [hstep]
      refine ⟨fun w c hm => ?_, fun w hw => ?_, fun w => ?_⟩
      · rcases List.mem_cons.mp hm with he | hm
        · cases he
          exact (ih.other u hn.1).trans hrow
        · exact ih.row w c hm
      · rw [List.map_cons, List.mem_cons, not_or] at hw
        exact ih.other w hw.2
      · rw [ih.written]
        constructor
        · rintro ⟨c, hm, hc⟩
          exact ⟨c, List.mem_cons_of_mem _ hm, hc⟩
        · rintro ⟨c, hm, hc⟩
          rcases List.mem_cons.mp hm with he | hm
          · cases he
            exact absurd hc ha
          · exact ⟨c, hm, hc⟩

theorem Merged.perm {rows rows' : List (UserId × Balance)} {pg : Rows} {r : List UserId × Rows}
    (h : Merged rows pg r) (hp : rows.Perm rows') : Merged rows' pg r where
  row u b hm := h.row u b (hp.mem_iff.mpr hm)
  other u hu := h.other u fun hm => hu ((hp.map Prod.fst).mem_iff.mp hm)
  written u := by
    rw [h.written]
    simp only [hp.mem_iff]

/-- A transaction of distinct users' balances that can be stored. -/
theorem writeRows_merged {rows : List (UserId × Balance)} (hn : (rows.map Prod.fst).Nodup)
    (hs : ∀ x ∈ rows, x.2.Storable) (pg : Rows) : ∃ written pg', Merged rows pg (written, pg') ∧
      writeRows rows pg =
        some ((written, (rows.filter (·.1 ∉ written)).map fun (u, b) => (b, u, pg'.get u)), pg') := by
  have hp := List.perm_insertionSort (fun a b : UserId × Balance => a.1 ≤ b.1) rows
  refine ⟨_, _, (upsertRows_merged ((hp.map Prod.fst).nodup_iff.mpr hn) pg).perm hp, ?_⟩
  rw [writeRows, upsertMany_eq, if_pos hs]
  rfl

theorem writeRows_refused {rows : List (UserId × Balance)} (hs : ¬ ∀ x ∈ rows, x.2.Storable) (pg : Rows) :
    writeRows rows pg = none := by
  rw [writeRows, upsertMany_eq, if_neg hs]
  rfl

/-! ## One flush -/

/-- What `load_many` answers. -/
def Redis.snapshots (ρ : Redis) (users : List UserId) : List (UserId × Balance) :=
  users.filterMap fun u => (ρ.bal.get u).map (u, ·)

/-- What `_repair_regressed` leaves of the hot balances of rejected rows. -/
structure Repaired (rows : List (UserId × Balance)) (pg : Rows) (ρ ρ' : Redis) : Prop where
  row : ∀ u b r, (u, b) ∈ rows → pg.get u = some r → ρ'.bal.get u = some (b.repaired r)
  other : ∀ u, u ∉ rows.map Prod.fst → ρ'.bal.get u = ρ.bal.get u
  rest : ρ' = { ρ with bal := ρ'.bal }

/-- What `clear_dirty` leaves of the marks. -/
structure Cleared (users : List (UserId × ℤ)) (ρ ρ' : Redis) : Prop where
  dirty : ∀ u, u ∈ ρ'.dirty ↔ u ∈ ρ.dirty ∧ ∀ v, (u, v) ∈ users → ∃ b, ρ.bal.get u = some b ∧ b.version ≠ v
  rest : ρ' = { ρ with dirty := ρ'.dirty }

section Snapshots

variable {ρ : Redis} {users : List UserId} {u : UserId} {b : Balance}

theorem Redis.snapshots_cons :
    ρ.snapshots (u :: users) = ((ρ.bal.get u).map (u, ·)).toList ++ ρ.snapshots users := by
  unfold Redis.snapshots
  rw [List.filterMap_cons]
  cases ρ.bal.get u <;> rfl

theorem Redis.mem_snapshots : (u, b) ∈ ρ.snapshots users ↔ u ∈ users ∧ ρ.bal.get u = some b := by
  unfold Redis.snapshots
  rw [List.mem_filterMap]
  constructor
  · rintro ⟨w, hw, he⟩
    obtain ⟨c, hc, he⟩ := Option.map_eq_some_iff.mp he
    cases he
    exact ⟨hw, hc⟩
  · intro ⟨hu, hb⟩
    exact ⟨u, hu, by rw [hb]; rfl⟩

theorem Redis.mem_snapshots_users : u ∈ (ρ.snapshots users).map Prod.fst ↔ u ∈ users ∧ ∃ b, ρ.bal.get u = some b := by
  rw [List.mem_map]
  constructor
  · rintro ⟨⟨w, b⟩, hm, rfl⟩
    obtain ⟨hw, hb⟩ := Redis.mem_snapshots.mp hm
    exact ⟨hw, b, hb⟩
  · rintro ⟨hu, b, hb⟩
    exact ⟨(u, b), Redis.mem_snapshots.mpr ⟨hu, hb⟩, rfl⟩

theorem Redis.snapshots_nodup (hn : users.Nodup) : ((ρ.snapshots users).map Prod.fst).Nodup := by
  induction users with
  | nil => exact List.nodup_nil
  | cons u users ih =>
    rw [List.nodup_cons] at hn
    rw [Redis.snapshots_cons]
    cases ρ.bal.get u with
    | none => exact ih hn.2
    | some b => exact List.nodup_cons.mpr ⟨fun hm => hn.1 (Redis.mem_snapshots_users.mp hm).1, ih hn.2⟩

theorem Redis.lookup_snapshots (hn : users.Nodup) (hu : u ∈ users) : (ρ.snapshots users).lookup u = ρ.bal.get u := by
  cases hb : ρ.bal.get u with
  | some b => exact lookup_of_mem (Redis.snapshots_nodup hn) (Redis.mem_snapshots.mpr ⟨hu, hb⟩)
  | none =>
    rw [List.lookup_eq_none_iff]
    intro x hx
    obtain ⟨-, hx⟩ := Redis.mem_snapshots.mp hx
    rw [bne_iff_ne]
    rintro rfl
    cases hb.symm.trans hx

end Snapshots

section Flush

variable {cfg : Config} {Q : Proc → Redis → Rows → Prop} {ρ : Redis} {pg : Rows} {users : List UserId}
  {rows : List (UserId × Balance)} {written : ℕ}

/-- **The snapshots** of the users still to load. -/
theorem Solo.loadMany : ∀ {todo : List UserId} {snapshots : List (UserId × Balance)},
    Solo cfg Q (.flush (.write users (snapshots ++ ρ.snapshots todo))) ρ pg →
      Solo cfg Q (.flush (.load users snapshots todo)) ρ pg
  | [], snapshots, h => by rwa [Redis.snapshots, List.filterMap_nil, List.append_nil] at h
  | u :: todo, snapshots, h => by
    refine Solo.call (c := .load u) rfl ⟨[], rfl⟩ fun pick now fresh r ρ' he => ?_
    cases he
    refine Solo.loadMany ?_
    rwa [List.append_assoc, ← Redis.snapshots_cons]

/-- **The repair** of rejected rows that are the hot balances. -/
theorem Solo.repair : ∀ {todo : List (UserId × Balance)} {ρ : Redis}, (todo.map Prod.fst).Nodup →
    (∀ u b, (u, b) ∈ todo → ρ.bal.get u = some b ∧ u ∈ ρ.dirty ∧ ∃ r, pg.get u = some r) →
      (∀ ρ', Repaired todo pg ρ ρ' → Solo cfg Q (.flush (.clear written (FlushPc.cleared users rows))) ρ' pg) →
        Solo cfg Q (.flush (.repair users rows written (todo.map fun (u, b) => (b, u, pg.get u)))) ρ pg
  | [], ρ, _, _, hq => hq ρ ⟨by simp, fun _ _ => rfl, rfl⟩
  | (u, b) :: todo, ρ, hn, hrows, hq => by
    rw [List.map_cons, List.nodup_cons] at hn
    obtain ⟨hb, hd, r, hr⟩ := hrows u b (List.mem_cons_self ..)
    have hne : ∀ {w c}, (w, c) ∈ todo → w ≠ u := fun hm he => hn.1 (he ▸ List.mem_map.mpr ⟨_, hm, rfl⟩)
    -- The other rows, from a store where this user's balance is repaired.
    have others : ∀ ρ₁ : Redis, ρ₁ = { ρ with bal := ρ₁.bal } → ρ₁.bal.get u = some (b.repaired r) →
        (∀ w, w ≠ u → ρ₁.bal.get w = ρ.bal.get w) →
          Solo cfg Q (.flush (.repair users rows written (todo.map fun (u, b) => (b, u, pg.get u)))) ρ₁ pg := by
      intro ρ₁ hrest hu hother
      have hdirty : ρ₁.dirty = ρ.dirty := by rw [hrest]
      refine Solo.repair hn.2 (fun w c hm => ?_) fun ρ' h => hq ρ' ⟨fun w c r' hm hr' => ?_, fun w hw => ?_, ?_⟩
      · obtain ⟨hc, hdw, hrow⟩ := hrows w c (List.mem_cons_of_mem _ hm)
        exact ⟨(hother w (hne hm)).trans hc, hdirty ▸ hdw, hrow⟩
      · rcases List.mem_cons.mp hm with he | hm
        · cases he
          cases hr.symm.trans hr'
          exact (h.other u hn.1).trans hu
        · exact h.row w c r' hm hr'
      · rw [List.map_cons, List.mem_cons, not_or] at hw
        exact (h.other w hw.2).trans (hother w hw.1)
      · rw [h.rest, hrest]
    show Solo cfg Q (.flush (.repair users rows written ((b, u, pg.get u) :: todo.map _))) ρ pg
    simp only [hr, FlushPc.repair, sameState_iff]
    split
    · next hsame =>
      refine others ρ rfl ?_ fun _ _ => rfl
      rw [Balance.repaired, if_pos hsame, hb]
    · next hother =>
      have hexec : ∀ pick, exec pick ρ (.advanceVersion u b.version (r.version + 1)) =
          some (.flag true, { ρ with bal := ρ.bal.set u (b.withVersion (r.version + 1)) }) := by
        intro pick
        simp only [exec, advanceVersion, hb, ne_eq, not_true_eq_false, if_false, Redis.credited,
          Finset.insert_eq_of_mem hd]
        rfl
      refine Solo.call (c := .advanceVersion u b.version (r.version + 1)) rfl ⟨[], by rw [hexec]; rfl⟩
        fun pick now fresh reply ρ' he => ?_
      rw [hexec] at he
      cases he
      refine others _ rfl ?_ fun w hw => Table.get_set_of_ne _ _ hw
      rw [Balance.repaired, if_neg hother]
      exact Table.get_set_self ..

theorem clearDirty_cleared (u : UserId) (v : ℤ) (ρ : Redis) : Cleared [(u, v)] ρ (clearDirty u v ρ).2 := by
  have one : ∀ {w : UserId} {P : ℤ → Prop}, (∀ v', (w, v') ∈ [(u, v)] → P v') ↔ (w = u → P v) := by
    intro w P
    simp only [List.mem_singleton, Prod.mk.injEq]
    exact ⟨fun h hw => h v ⟨hw, rfl⟩, fun h v' hm => hm.2 ▸ h hm.1⟩
  unfold clearDirty
  split
  · next hclears =>
    refine ⟨fun w => ?_, rfl⟩
    rw [one, Finset.mem_erase, and_comm, and_congr_right_iff]
    rintro -
    refine ⟨fun hne he => absurd he hne, fun h hw => ?_⟩
    obtain ⟨b, hb, hv⟩ := h hw
    subst hw
    rw [hb] at hclears
    simp [hv] at hclears
  · next hkeeps =>
    refine ⟨fun w => ?_, rfl⟩
    rw [one]
    refine ⟨fun hw => ⟨hw, ?_⟩, And.left⟩
    rintro rfl
    cases hb : ρ.bal.get w with
    | none =>
      rw [hb] at hkeeps
      simp at hkeeps
    | some b =>
      rw [hb] at hkeeps
      exact ⟨b, rfl, by simpa using hkeeps⟩

theorem Cleared.append {xs ys : List (UserId × ℤ)} {ρ ρ₁ ρ₂ : Redis} (h : Cleared xs ρ ρ₁) (h' : Cleared ys ρ₁ ρ₂) :
    Cleared (xs ++ ys) ρ ρ₂ where
  dirty u := by
    have hbal : ρ₁.bal = ρ.bal := by rw [h.rest]
    rw [h'.dirty, h.dirty, hbal, and_assoc, and_congr_right_iff]
    rintro -
    simp only [List.mem_append, or_imp, forall_and]
  rest := by rw [h'.rest, h.rest]

/-- **The marks**: a mark stays on a user whose balance has another version. -/
theorem Solo.clear : ∀ (todo : List (UserId × ℤ)) (ρ : Redis),
    Solo cfg (fun st ρ' pg' => st = .flush (.ended (.ok written)) ∧ Cleared todo ρ ρ' ∧ pg' = pg)
      (.flush (.clear written todo)) ρ pg
  | [], ρ => .now ⟨rfl, ⟨by simp, rfl⟩, rfl⟩
  | (u, v) :: todo, ρ => by
    refine Solo.call (c := .clearDirty u v) rfl ⟨[], rfl⟩ fun pick now fresh r ρ₁ he => ?_
    cases he
    refine (Solo.clear todo (clearDirty u v ρ).2).mono fun st ρ' pg' h => ?_
    exact ⟨h.1, (clearDirty_cleared u v ρ).append h.2.1, h.2.2⟩

/-- The users a flush takes. -/
structure Picks (cfg : Config) (ρ : Redis) (users : List UserId) : Prop where
  nodup : users.Nodup
  marked : ∀ u ∈ users, u ∈ ρ.dirty
  length : users.length = min cfg.flushBatchSize ρ.dirty.card

/-- What a flush of `users` leaves: each row is the hot balance or a row that is not behind it,
each hot balance is past the row that was kept instead of it, and the marks stay on those users. -/
structure Flushed (users : List UserId) (ρ : Redis) (pg : Rows) (ρ' : Redis) (pg' : Rows) : Prop where
  row : ∀ u ∈ users, ∀ b, ρ.bal.get u = some b → pg'.get u = some (b.over (pg.get u))
  otherRow : ∀ u, (u ∈ users → ρ.bal.get u = none) → pg'.get u = pg.get u
  hot : ∀ u ∈ users, ∀ b, ρ.bal.get u = some b → ρ'.bal.get u = some (b.repaired (b.over (pg.get u)))
  otherHot : ∀ u, (u ∈ users → ρ.bal.get u = none) → ρ'.bal.get u = ρ.bal.get u
  dirty : ∀ u, u ∈ ρ'.dirty ↔ u ∈ ρ.dirty ∧ (u ∈ users → ∃ b, ρ.bal.get u = some b ∧ b.over (pg.get u) ≠ b)
  rest : ρ' = { ρ with bal := ρ'.bal, dirty := ρ'.dirty }

theorem Picks.exists (cfg : Config) (ρ : Redis) : ∃ users, Picks cfg ρ users := by
  refine ⟨ρ.dirty.toList.take cfg.flushBatchSize, ?_, fun u hu => ?_, ?_⟩
  · exact ρ.dirty.nodup_toList.sublist (List.take_sublist _ _)
  · exact Finset.mem_toList.mp (List.mem_of_mem_take hu)
  · rw [List.length_take, Finset.length_toList]

theorem Picks.exec (h : Picks cfg ρ users) :
    exec users ρ (.dirtyUsers cfg.flushBatchSize) = some (.users users, ρ) :=
  if_pos ⟨h.nodup, h.marked, h.length⟩

theorem Picks.of_exec {pick : List UserId} {r : Reply} {ρ' : Redis}
    (h : GenerationBalance.exec pick ρ (.dirtyUsers cfg.flushBatchSize) = some (r, ρ')) :
    Picks cfg ρ pick ∧ r = .users pick ∧ ρ = ρ' := by
  simp only [GenerationBalance.exec] at h
  split at h
  · next hp =>
    cases h
    exact ⟨⟨hp.1, hp.2.1, hp.2.2⟩, rfl, rfl⟩
  · cases h

/-- A batch that is large enough takes every dirty user. -/
theorem Picks.all (h : Picks cfg ρ users) (hsize : ρ.dirty.card ≤ cfg.flushBatchSize) (u : UserId) :
    u ∈ users ↔ u ∈ ρ.dirty := by
  have hset : users.toFinset = ρ.dirty := by
    refine Finset.eq_of_subset_of_card_le (fun u hu => h.marked u (List.mem_toFinset.mp hu)) ?_
    rw [List.toFinset_card_of_nodup h.nodup, h.length, Nat.min_eq_right hsize]
  rw [← hset, List.mem_toFinset]

/-- A batch that is too small leaves a dirty user out. -/
theorem Picks.not_all (h : Picks cfg ρ users) (hsize : cfg.flushBatchSize < ρ.dirty.card) :
    ∃ u ∈ ρ.dirty, u ∉ users := by
  have hcard : users.toFinset.card < ρ.dirty.card := by
    rw [List.toFinset_card_of_nodup h.nodup, h.length, Nat.min_eq_left hsize.le]
    exact hsize
  obtain ⟨u, hu, hn⟩ := Finset.exists_mem_notMem_of_card_lt_card hcard
  exact ⟨u, hu, fun hm => hn (List.mem_toFinset.mpr hm)⟩

/-- The upsert, the repair and the clearing together. -/
theorem Merged.flushed {writtenUsers : List UserId} {ρ₁ ρ' : Redis} {pg' : Rows} (hn : users.Nodup)
    (hm : Merged (ρ.snapshots users) pg (writtenUsers, pg'))
    (hr : Repaired ((ρ.snapshots users).filter (·.1 ∉ writtenUsers)) pg' ρ ρ₁)
    (hc : Cleared (FlushPc.cleared users (ρ.snapshots users)) ρ₁ ρ') : Flushed users ρ pg ρ' pg' := by
  have hbal : ρ'.bal = ρ₁.bal := by rw [hc.rest]
  have hdirty : ρ₁.dirty = ρ.dirty := by rw [hr.rest]
  have hrow : ∀ u ∈ users, ∀ b, ρ.bal.get u = some b → pg'.get u = some (b.over (pg.get u)) := fun u hu b hb =>
    hm.row u b (Redis.mem_snapshots.mpr ⟨hu, hb⟩)
  have hhot : ∀ u ∈ users, ∀ b, ρ.bal.get u = some b →
      ρ₁.bal.get u = some (b.repaired (b.over (pg.get u))) := by
    intro u hu b hb
    have hin : (u, b) ∈ ρ.snapshots users := Redis.mem_snapshots.mpr ⟨hu, hb⟩
    by_cases hw : u ∈ writtenUsers
    · obtain ⟨c, hin', hahead⟩ := (hm.written u).mp hw
      cases hb.symm.trans (Redis.mem_snapshots.mp hin').2
      rw [Balance.over_of_ahead hahead, Balance.repaired, if_pos rfl, ← hb]
      refine hr.other u fun hin => ?_
      obtain ⟨x, hx, rfl⟩ := List.mem_map.mp hin
      simp [hw] at hx
    · exact hr.row u b _ (List.mem_filter.mpr ⟨hin, by simpa using hw⟩) (hrow u hu b hb)
  have hcold : ∀ u, (u ∈ users → ρ.bal.get u = none) → u ∉ (ρ.snapshots users).map Prod.fst := by
    intro u hu hin
    obtain ⟨hmem, b, hb⟩ := Redis.mem_snapshots_users.mp hin
    cases (hu hmem).symm.trans hb
  have hother : ∀ u, (u ∈ users → ρ.bal.get u = none) → ρ₁.bal.get u = ρ.bal.get u := fun u hu =>
    hr.other u fun hin => hcold u hu (List.map_subset _ (List.filter_subset_self _) hin)
  have hcleared : ∀ u v, (u, v) ∈ FlushPc.cleared users (ρ.snapshots users) ↔
      u ∈ users ∧ v = ((ρ.bal.get u).map Balance.version).getD (-1) := by
    intro u v
    unfold FlushPc.cleared
    rw [List.mem_map]
    constructor
    · rintro ⟨w, hw, he⟩
      cases he
      exact ⟨hw, by rw [Redis.lookup_snapshots hn hw]⟩
    · rintro ⟨hu, rfl⟩
      exact ⟨u, hu, by rw [Redis.lookup_snapshots hn hu]⟩
  refine ⟨hrow, fun u hu => hm.other u (hcold u hu), fun u hu b hb => hbal ▸ hhot u hu b hb,
    fun u hu => hbal ▸ hother u hu, fun u => ?_, ?_⟩
  · rw [hc.dirty, hdirty, and_congr_right_iff]
    rintro -
    simp only [hcleared]
    constructor
    · intro h hu
      obtain ⟨b', hb', hv⟩ := h _ ⟨hu, rfl⟩
      cases hb : ρ.bal.get u with
      | none =>
        rw [hother u fun _ => hb, hb] at hb'
        cases hb'
      | some b =>
        refine ⟨b, rfl, fun heq => hv ?_⟩
        cases hb'.symm.trans (hhot u hu b hb)
        rw [heq, Balance.repaired, if_pos rfl, hb]
        rfl
    · rintro h v ⟨hu, rfl⟩
      obtain ⟨b, hb, hne⟩ := h hu
      refine ⟨_, hhot u hu b hb, ?_⟩
      rw [hb]
      exact (Balance.lt_repaired Balance.le_over hne).ne'
  · rw [hc.rest, hr.rest]

/-- How a flush of `users` ends: a balance that cannot be stored fails all of it. -/
inductive FlushEnd (users : List UserId) (ρ : Redis) (pg : Rows) : Proc → Redis → Rows → Prop
  | flushed {n ρ' pg'} : (∀ x ∈ ρ.snapshots users, x.2.Storable) → Flushed users ρ pg ρ' pg' →
      FlushEnd users ρ pg (.flush (.ended (.ok n))) ρ' pg'
  | refused : ¬ (∀ x ∈ ρ.snapshots users, x.2.Storable) → FlushEnd users ρ pg (.flush (.raised .database)) ρ pg

/-- **One flush** on its own. -/
theorem Solo.flushOnce (cfg : Config) (ρ : Redis) (pg : Rows) :
    Solo cfg (fun st ρ' pg' => ∃ users, Picks cfg ρ users ∧ FlushEnd users ρ pg st ρ' pg') (Job.flush.start cfg) ρ pg := by
  refine Solo.call (c := .dirtyUsers cfg.flushBatchSize) rfl ?_ fun users now fresh r ρ' he => ?_
  · obtain ⟨users, h⟩ := Picks.exists cfg ρ
    exact ⟨users, by rw [h.exec]; rfl⟩
  obtain ⟨hpicks, rfl, rfl⟩ := Picks.of_exec he
  refine Solo.mono (P := FlushEnd users ρ pg) ?_ fun st ρ' pg' h => ⟨users, hpicks, h⟩
  have hn := hpicks.nodup
  have clear : ∀ written rejected {pg' ρ₁ n}, (∀ x ∈ ρ.snapshots users, x.2.Storable) →
      rejected = (ρ.snapshots users).filter (·.1 ∉ written) → Merged (ρ.snapshots users) pg (written, pg') →
        Repaired rejected pg' ρ ρ₁ →
          Solo cfg (FlushEnd users ρ pg) (.flush (.clear n (FlushPc.cleared users (ρ.snapshots users)))) ρ₁ pg' := by
    rintro written _ pg' ρ₁ n hs rfl hm hr
    refine (Solo.clear _ ρ₁).mono fun st ρ' pg'' h => ?_
    obtain ⟨rfl, hc, rfl⟩ := h
    exact .flushed hs (hm.flushed hn hr hc)
  show Solo cfg _ (.flush (if users.isEmpty then .ended (.ok 0) else .load users [] users)) ρ pg
  split
  · next hempty =>
    rw [List.isEmpty_iff] at hempty
    subst hempty
    exact .now (.flushed (by simp [Redis.snapshots]) ⟨by simp, by simp, by simp, by simp, by simp, rfl⟩)
  · refine Solo.loadMany ?_
    rw [List.nil_append]
    show Solo cfg _ (.flush (FlushPc.write users (ρ.snapshots users))) ρ pg
    unfold FlushPc.write
    split
    · next hempty =>
      rw [List.isEmpty_iff] at hempty
      refine clear [] [] ?_ ?_ ?_ ⟨by simp, by simp, rfl⟩ <;> rw [hempty]
      · simp
      · simp
      · exact ⟨by simp, fun u _ => rfl, by simp⟩
    · by_cases hs : ∀ x ∈ ρ.snapshots users, x.2.Storable
      · obtain ⟨written, pg', hm, hw⟩ := writeRows_merged (Redis.snapshots_nodup hn) hs pg
        refine Solo.commit rfl hw fun now fresh => ?_
        refine Solo.repair ?_ (fun u b hin => ?_) fun ρ₁ hr => clear written _ hs rfl hm hr
        · exact (Redis.snapshots_nodup hn).sublist (List.filter_sublist.map _)
        · obtain ⟨hu, hb⟩ := Redis.mem_snapshots.mp (List.mem_filter.mp hin).1
          exact ⟨hb, hpicks.marked u hu, _, hm.row u b (List.mem_filter.mp hin).1⟩
      · exact Solo.refused rfl (writeRows_refused hs pg) fun now fresh => .now (.refused hs)

end Flush

/-! ## Two flushes -/

/-- The stores agree on the users that were dirty, whose amounts are what they were; nobody is
dirty, and the others are as they were. -/
structure Converged (ρ : Redis) (pg : Rows) (ρ' : Redis) (pg' : Rows) : Prop where
  dirty : ρ'.dirty = ∅
  rows : ∀ u ∈ ρ.dirty, ∃ b b', ρ.bal.get u = some b ∧ ρ'.bal.get u = some b' ∧ pg'.get u = some b' ∧
    ∀ f : Field, f ≠ .version → b'.get f = b.get f
  others : ∀ u, u ∉ ρ.dirty → ρ'.bal.get u = ρ.bal.get u ∧ pg'.get u = pg.get u
  rest : ρ' = { ρ with bal := ρ'.bal, dirty := ∅ }

/-- No version has to be advanced past the greatest one a row can have. -/
def Room (ρ : Redis) (pg : Rows) : Prop :=
  ∀ u ∈ ρ.dirty, ∀ b r, ρ.bal.get u = some b → pg.get u = some r → b.version ≤ r.version → r ≠ b →
    r.version < 2 ^ 63 - 1

section Converge

variable {cfg : Config} {ρ ρ₁ ρ₂ : Redis} {pg pg₁ pg₂ : Rows} {users users₁ : List UserId}

theorem Flushed.all (h : Flushed users ρ pg ρ₁ pg₁) (hpicks : Picks cfg ρ₁ users₁)
    (hsize : ρ.dirty.card ≤ cfg.flushBatchSize) : ρ₁.dirty ⊆ ρ.dirty ∧ ∀ u, u ∈ users₁ ↔ u ∈ ρ₁.dirty := by
  have hsub : ρ₁.dirty ⊆ ρ.dirty := fun u hu => ((h.dirty u).mp hu).1
  exact ⟨hsub, hpicks.all ((Finset.card_le_card hsub).trans hsize)⟩

/-- A flush of everyone leaves as dirty the users whose hot balance was moved past another row,
and that balance is ahead of it. -/
theorem Flushed.settled (h : Flushed users ρ pg ρ₁ pg₁) (hall : ∀ u, u ∈ users ↔ u ∈ ρ.dirty) {u : UserId} {b : Balance}
    (hu : u ∈ ρ.dirty) (hb : ρ.bal.get u = some b) :
    u ∉ ρ₁.dirty ∧ ρ₁.bal.get u = some b ∧ pg₁.get u = some b ∨
      ∃ r, pg.get u = some r ∧ b.version ≤ r.version ∧ r ≠ b ∧ u ∈ ρ₁.dirty ∧ ρ₁.bal.get u = some (b.repaired r) ∧
        pg₁.get u = some r := by
  have hrow := h.row u ((hall u).mpr hu) b hb
  have hhot := h.hot u ((hall u).mpr hu) b hb
  by_cases hover : b.over (pg.get u) = b
  · rw [hover] at hrow hhot
    rw [Balance.repaired, if_pos rfl] at hhot
    refine .inl ⟨fun hd => ?_, hhot, hrow⟩
    obtain ⟨c, hc, hne⟩ := ((h.dirty u).mp hd).2 ((hall u).mpr hu)
    cases hb.symm.trans hc
    exact hne hover
  · obtain ⟨r, hr, hle, hne⟩ := Balance.over_ne_iff.mp hover
    have heq : b.over (pg.get u) = r := by
      rw [hr, Balance.over, if_neg (not_lt.mpr hle)]
    rw [heq] at hrow hhot
    exact .inr ⟨r, hr, hle, hne, (h.dirty u).mpr ⟨hu, fun _ => ⟨b, hb, hover⟩⟩, hhot, hrow⟩

/-- **Two flushes of everyone** bring the stores together. -/
theorem Flushed.converged (h : Flushed users ρ pg ρ₁ pg₁) (hall : ∀ u, u ∈ users ↔ u ∈ ρ.dirty)
    (h' : Flushed users₁ ρ₁ pg₁ ρ₂ pg₂) (hall' : ∀ u, u ∈ users₁ ↔ u ∈ ρ₁.dirty)
    (hhot : ∀ u ∈ ρ.dirty, ∃ b, ρ.bal.get u = some b) : Converged ρ pg ρ₂ pg₂ := by
  have hsub : ∀ u, u ∈ ρ₁.dirty → u ∈ ρ.dirty := fun u hu => ((h.dirty u).mp hu).1
  have kept : ∀ u, u ∉ ρ₁.dirty → ρ₂.bal.get u = ρ₁.bal.get u ∧ pg₂.get u = pg₁.get u := fun u hu =>
    have hn : u ∈ users₁ → ρ₁.bal.get u = none := fun hm => absurd ((hall' u).mp hm) hu
    ⟨h'.otherHot u hn, h'.otherRow u hn⟩
  have moved : ∀ {u c r}, u ∈ ρ₁.dirty → ρ₁.bal.get u = some c → pg₁.get u = some r → c.Ahead (some r) →
      u ∉ ρ₂.dirty ∧ ρ₂.bal.get u = some c ∧ pg₂.get u = some c := by
    intro u c r hu hc hr hahead
    rcases h'.settled hall' hu hc with h | ⟨r', hr', hle, -⟩
    · exact h
    · exact absurd (hahead r' (hr.symm.trans hr')) (not_lt.mpr hle)
  have hempty : ρ₂.dirty = ∅ := by
    rw [Finset.eq_empty_iff_forall_notMem]
    intro u hu
    have hu₁ : u ∈ ρ₁.dirty := ((h'.dirty u).mp hu).1
    obtain ⟨b, hb⟩ := hhot u (hsub u hu₁)
    rcases h.settled hall (hsub u hu₁) hb with ⟨hn, -⟩ | ⟨r, -, -, hne, -, hc, hr⟩
    · exact hn hu₁
    · exact (moved hu₁ hc hr (Balance.repaired_ahead hne)).1 hu
  refine ⟨hempty, fun u hu => ?_, fun u hu => ?_, ?_⟩
  · obtain ⟨b, hb⟩ := hhot u hu
    rcases h.settled hall hu hb with ⟨hn, hb₁, hr₁⟩ | ⟨r, -, -, hne, hd, hc, hr⟩
    · obtain ⟨hbal, hrow⟩ := kept u hn
      exact ⟨b, b, hb, hbal.trans hb₁, hrow.trans hr₁, fun f _ => rfl⟩
    · obtain ⟨-, hbal, hrow⟩ := moved hd hc hr (Balance.repaired_ahead hne)
      exact ⟨b, _, hb, hbal, hrow, fun f hf => Balance.repaired_amount hf⟩
  · have hn : u ∈ users → ρ.bal.get u = none := fun hm => absurd ((hall u).mp hm) hu
    obtain ⟨hbal, hrow⟩ := kept u fun hd => hu (hsub u hd)
    exact ⟨hbal.trans (h.otherHot u hn), hrow.trans (h.otherRow u hn)⟩
  · rw [h'.rest, h.rest, hempty]

theorem FlushEnd.flushed_of_storable {st : Proc} (h : FlushEnd users ρ pg st ρ₁ pg₁)
    (hs : ∀ u ∈ users, ∀ b, ρ.bal.get u = some b → b.Storable) :
    ∃ n, st = .flush (.ended (.ok n)) ∧ Flushed users ρ pg ρ₁ pg₁ := by
  cases h with
  | @flushed n _ _ _ h => exact ⟨n, rfl, h⟩
  | refused hn =>
    refine absurd (fun x hx => ?_) hn
    obtain ⟨hu, hb⟩ := Redis.mem_snapshots.mp hx
    exact hs x.1 hu x.2 hb

theorem FlushEnd.stops {st : Proc} (h : FlushEnd users ρ pg st ρ₁ pg₁) : st.action cfg = .none := by
  cases h <;> rfl

theorem Proc.Finished.stops {st : Proc} (h : st.Finished) : st.action cfg = .none := by
  unfold Proc.Finished at h
  split at h
  all_goals first | rfl | exact h.elim

/-- A flush that returns on its own has flushed. -/
theorem Solo.flush_returned {P : Redis → Rows → Prop}
    (h : Solo cfg (fun st ρ' pg' => st.Finished ∧ P ρ' pg') (Job.flush.start cfg) ρ pg) :
    ∃ users ρ' pg', Picks cfg ρ users ∧ (∀ x ∈ ρ.snapshots users, x.2.Storable) ∧ Flushed users ρ pg ρ' pg' ∧
      P ρ' pg' := by
  obtain ⟨st, ρ', pg', ⟨hst, hP⟩, users, hpicks, hend⟩ := h.meet (Solo.flushOnce cfg ρ pg)
    (fun st ρ' pg' h => h.1.stops) (by
      rintro st ρ' pg' ⟨users, -, hend⟩
      exact hend.stops)
  cases hend with
  | flushed hs hf => exact ⟨users, ρ', pg', hpicks, hs, hf, hP⟩
  | refused hs => exact hst.elim

/-- A flush with nothing to do. -/
theorem Solo.flushNothing (hd : ρ.dirty = ∅) :
    Solo cfg (fun st ρ' pg' => st = .flush (.ended (.ok 0)) ∧ ρ' = ρ ∧ pg' = pg) (Job.flush.start cfg) ρ pg := by
  have hexec : exec [] ρ (.dirtyUsers cfg.flushBatchSize) = some (.users [], ρ) := if_pos ⟨by simp, by simp, by simp [hd]⟩
  refine Solo.call (c := .dirtyUsers cfg.flushBatchSize) rfl ⟨[], by rw [hexec]; rfl⟩ fun users now fresh r ρ' he => ?_
  simp only [exec, hd, Finset.card_empty, Nat.min_zero, List.length_eq_zero_iff] at he
  split at he
  · next h =>
    obtain ⟨-, -, rfl⟩ := h
    cases he
    exact .now ⟨rfl, rfl, rfl⟩
  · cases he

/-- Two flushes that return leave no version that a row cannot have. -/
theorem InTurn.room {P : Redis → Rows → Prop} (hsize : ρ.dirty.card ≤ cfg.flushBatchSize)
    (h : InTurn cfg P [.flush, .flush] ρ pg) : Room ρ pg := by
  intro u hu b r hb hr hle hne
  obtain ⟨users, ρ₁, pg₁, hpicks, -, hflushed, h⟩ := Solo.flush_returned h
  obtain ⟨users₁, ρ₂, pg₂, hpicks₁, hstorable, -, -⟩ := Solo.flush_returned h
  obtain ⟨hsub, hall₁⟩ := hflushed.all hpicks₁ hsize
  rcases hflushed.settled (hpicks.all hsize) hu hb with ⟨-, -, hrow⟩ | ⟨r', hr', -, -, hd, hc, -⟩
  · have hover := hflushed.row u ((hpicks.all hsize u).mpr hu) b hb
    rw [hrow, hr] at hover
    exact absurd (Option.some.inj hover).symm (Balance.over_ne_iff.mpr ⟨r, rfl, hle, hne⟩)
  · cases hr.symm.trans hr'
    have hv := (hstorable (u, _) (Redis.mem_snapshots.mpr ⟨(hall₁ u).mpr hd, hc⟩)).2.2.2.2
    rw [Balance.repaired, if_neg hne] at hv
    simp only [InRange, Balance.withVersion] at hv
    omega

theorem Room.converge (hroom : Room ρ pg) (hsize : ρ.dirty.card ≤ cfg.flushBatchSize)
    (hhot : ∀ u ∈ ρ.dirty, ∃ b, ρ.bal.get u = some b ∧ b.Storable) (hrows : ∀ u r, pg.get u = some r → r.Storable) :
    InTurn cfg (Converged ρ pg) [.flush, .flush] ρ pg := by
  refine (Solo.flushOnce cfg ρ pg).mono fun st ρ₁ pg₁ h => ?_
  obtain ⟨users, hpicks, hend⟩ := h
  have hall := hpicks.all hsize
  obtain ⟨n, rfl, hflushed⟩ := hend.flushed_of_storable fun u hu b hb => by
    obtain ⟨b', hb', hst⟩ := hhot u (hpicks.marked u hu)
    cases hb.symm.trans hb'
    exact hst
  refine ⟨trivial, (Solo.flushOnce cfg ρ₁ pg₁).mono fun st ρ₂ pg₂ h => ?_⟩
  obtain ⟨users₁, hpicks₁, hend⟩ := h
  obtain ⟨hsub, hall₁⟩ := hflushed.all hpicks₁ hsize
  obtain ⟨m, rfl, hflushed₁⟩ := hend.flushed_of_storable fun u hu c hc => by
    have hd := hpicks₁.marked u hu
    obtain ⟨b, hb, hst⟩ := hhot u (hsub hd)
    rcases hflushed.settled hall (hsub hd) hb with ⟨hn, -, -⟩ | ⟨r, hr, hle, hne, -, hc', -⟩
    · exact absurd hd hn
    · cases hc.symm.trans hc'
      exact Balance.repaired_storable hst (hrows _ _ hr) fun _ => hroom _ (hsub hd) b r hb hr hle hne
  refine ⟨trivial, hflushed.converged hall hflushed₁ hall₁ fun u hu => ?_⟩
  obtain ⟨b, hb, -⟩ := hhot u hu
  exact ⟨b, hb⟩

end Converge

/-- **Convergence in two flushes.** When one batch holds all dirty users, whatever their versions
and rows are: two flushes in a row bring the stores together, and a third one changes nothing,
exactly when no hot version has to be set past the greatest version a row can have. -/
theorem flushes_converge {cfg : Config} {ρ : Redis} {pg : Rows} (hsize : ρ.dirty.card ≤ cfg.flushBatchSize)
    (hhot : ∀ u ∈ ρ.dirty, ∃ b, ρ.bal.get u = some b ∧ b.Storable) (hrows : ∀ u r, pg.get u = some r → r.Storable) :
    InTurn cfg (fun ρ' pg' => Converged ρ pg ρ' pg' ∧
        Solo cfg (fun st ρ'' pg'' => st = .flush (.ended (.ok 0)) ∧ ρ'' = ρ' ∧ pg'' = pg') (Job.flush.start cfg) ρ' pg')
      [.flush, .flush] ρ pg ↔ Room ρ pg := by
  refine ⟨InTurn.room hsize, fun hroom => (hroom.converge hsize hhot hrows).mono fun ρ' pg' h => ?_⟩
  exact ⟨h, Solo.flushNothing h.dirty⟩

theorem regressed_storable : ∀ u ∈ regressed.redis.dirty, ∃ b, regressed.redis.bal.get u = some b ∧ b.Storable := by
  intro u hu
  have hone : u = 1 := by simpa [regressed] using hu
  subst hone
  exact ⟨oneDollar.withVersion 5, rfl, by decide⟩

/-- The hot balance of version 5 is moved past the row of version 7. -/
theorem flushes_converge_regressed :
    InTurn {} (fun ρ' pg' => Converged regressed.redis dollarRows ρ' pg' ∧
        Solo {} (fun st ρ'' pg'' => st = .flush (.ended (.ok 0)) ∧ ρ'' = ρ' ∧ pg'' = pg') (Job.flush.start {}) ρ' pg')
      [.flush, .flush] regressed.redis dollarRows ∧ Room regressed.redis dollarRows := by
  have hroom : Room regressed.redis dollarRows := by
    intro u hu b r hb hr hle hne
    rw [dollarRows_get hr]
    decide
  exact ⟨(flushes_converge (by decide) regressed_storable fun u r hr => dollarRows_storable hr).mpr hroom, hroom⟩

/-- The row has the greatest version, and the hot balance is another one. -/
theorem flushes_converge_last_version : ¬ ∀ (cfg : Config) (ρ : Redis) (pg : Rows),
    ρ.dirty.card ≤ cfg.flushBatchSize → (∀ u ∈ ρ.dirty, ∃ b, ρ.bal.get u = some b ∧ b.Storable) →
      (∀ u r, pg.get u = some r → r.Storable) →
        InTurn cfg (fun ρ' pg' => Converged ρ pg ρ' pg' ∧
            Solo cfg (fun st ρ'' pg'' => st = .flush (.ended (.ok 0)) ∧ ρ'' = ρ' ∧ pg'' = pg') (Job.flush.start cfg) ρ' pg')
          [.flush, .flush] ρ pg := by
  intro hall
  let last : Balance := oneDollar.withVersion (2 ^ 63 - 1)
  have hrows : ∀ u r, (Table.empty.set 1 last : Rows).get u = some r → r.Storable := by
    intro u r hr
    rw [Table.get_set] at hr
    split at hr
    · cases hr
      decide
    · cases hr
  have hroom := InTurn.room (by decide) (hall {} regressed.redis (Table.empty.set 1 last) (by decide) regressed_storable hrows)
  have hlt := hroom 1 (by decide) (oneDollar.withVersion 5) last rfl (Table.get_set_self ..) (by decide) (by decide)
  exact absurd hlt (by decide)

end GenerationBalance
