/-
What a round trip does to the store when no script is stopped by an error:
`CallOk` lists the cases of every call, and `BalChange` and `GenChange` say the
same of one user's balance and of one record, which is all most invariants
look at.
-/
import GenerationBalance.Store

namespace GenerationBalance

/-- The reply reports a script that was stopped by one of its commands. -/
def Reply.isError : Reply → Bool
  | .error _ => true
  | _ => false

/-! ## The cases of a call -/

inductive CallOk (ρ : Redis) : Call → Reply → Redis → Prop
  | load (u) : CallOk ρ (.load u) (.balance (ρ.bal.get u)) ρ
  | getGeneration (id) : CallOk ρ (.getGeneration id) (.record (ρ.gen.get id)) ρ
  | staleInflight (olderThan limit) :
      CallOk ρ (.staleInflight olderThan limit) (.ids (ρ.staleInflight olderThan limit)) ρ
  | dirtyUsers {limit pick} : pick.Nodup → (∀ u ∈ pick, u ∈ ρ.dirty) → CallOk ρ (.dirtyUsers limit) (.users pick) ρ
  | acquired {u token} : ρ.loadLock.get u = none →
      CallOk ρ (.tryAcquireLoadLock u token) (.flag true) { ρ with loadLock := ρ.loadLock.set u token }
  | notAcquired {u token holder} : ρ.loadLock.get u = some holder →
      CallOk ρ (.tryAcquireLoadLock u token) (.flag false) ρ
  | released {u token} : ρ.loadLock.get u = some token →
      CallOk ρ (.releaseLoadLock u token) (.flag true) { ρ with loadLock := ρ.loadLock.del u }
  | notReleased {u token} : ρ.loadLock.get u ≠ some token → CallOk ρ (.releaseLoadLock u token) (.flag false) ρ
  | seeded {u b} : ρ.bal.get u = none → CallOk ρ (.seedIfAbsent u b) (.flag true) (ρ.putBalance u b)
  | notSeeded {u b c} : ρ.bal.get u = some c → CallOk ρ (.seedIfAbsent u b) (.flag false) ρ
  | advanced {u n b} : ρ.bal.get u = some b →
      CallOk ρ (.advanceVersion u b.version n) (.flag true) (ρ.credited u (b.withVersion n))
  | notAdvanced {u e n} : (∀ b, ρ.bal.get u = some b → b.version ≠ e) →
      CallOk ρ (.advanceVersion u e n) (.flag false) ρ
  | cleared {u v} : (∀ b, ρ.bal.get u = some b → b.version = v) →
      CallOk ρ (.clearDirty u v) (.flag true) { ρ with dirty := ρ.dirty.erase u }
  | notCleared {u v b} : ρ.bal.get u = some b → b.version ≠ v → CallOk ρ (.clearDirty u v) (.flag false) ρ
  | forgot (id) : CallOk ρ (.forgetInflight id) (.flag (ρ.inflight.get id).isSome)
      { ρ with inflight := ρ.inflight.del id }
  | reserve {a r ρ'} : ReserveOk a ρ r ρ' → CallOk ρ (.reserve a) (.reserve r) ρ'
  | settle {a r ρ'} : SettleOk a ρ r ρ' → CallOk ρ (.settle a) (.settle r) ρ'
  | refund {a r ρ'} : RefundOk a ρ r ρ' → CallOk ρ (.refund a) (.refund r) ρ'
  | topUp {a r ρ'} : TopUpOk a ρ r ρ' → CallOk ρ (.topUp a) (.topUp r) ρ'

theorem scriptReply_ok {α : Type} {f : α → Reply} {x : Except ScriptError α × Redis} {r : Reply} {ρ' : Redis}
    (h : scriptReply f x = (r, ρ')) (hr : r.isError = false) : ∃ a, x = (.ok a, ρ') ∧ r = f a := by
  rcases x with ⟨e | a, ρ₁⟩
  · cases h; cases hr
  · cases h; exact ⟨a, rfl, rfl⟩

theorem exec_ok {pick : List UserId} {ρ ρ' : Redis} {c : Call} {r : Reply} (h : exec pick ρ c = some (r, ρ'))
    (hr : r.isError = false) : CallOk ρ c r ρ' := by
  cases c with
  | load u => cases h; exact .load u
  | getGeneration id => cases h; exact .getGeneration id
  | staleInflight olderThan limit => cases h; exact .staleInflight olderThan limit
  | dirtyUsers limit =>
    simp only [exec] at h
    split at h
    · next hp => cases h; exact .dirtyUsers hp.1 hp.2.1
    · cases h
  | forgetInflight id => cases h; exact .forgot id
  | tryAcquireLoadLock u token =>
    simp only [exec] at h
    cases hl : ρ.loadLock.get u with
    | none => rw [hl] at h; cases h; exact .acquired hl
    | some holder => rw [hl] at h; cases h; exact .notAcquired hl
  | releaseLoadLock u token =>
    simp only [exec, releaseLoadLock] at h
    split at h
    · next hl => cases h; exact .released hl
    · next hl => cases h; exact .notReleased hl
  | seedIfAbsent u b =>
    simp only [exec, seedIfAbsent] at h
    cases hb : ρ.bal.get u with
    | none => rw [hb] at h; cases h; exact .seeded hb
    | some c => rw [hb] at h; cases h; exact .notSeeded hb
  | advanceVersion u e n =>
    simp only [exec, advanceVersion] at h
    cases hb : ρ.bal.get u with
    | none =>
      rw [hb] at h
      cases h
      exact .notAdvanced fun b hb' => by rw [hb] at hb'; cases hb'
    | some b =>
      simp only [hb] at h
      split at h
      · next hv =>
        cases h
        refine .notAdvanced fun b' hb' => ?_
        rw [hb] at hb'
        cases hb'
        exact hv
      · next hv =>
        have hv := not_not.mp hv
        cases h
        subst hv
        exact .advanced hb
  | clearDirty u v =>
    simp only [exec, clearDirty] at h
    cases hb : ρ.bal.get u with
    | none =>
      simp only [hb, Option.isNone_none, true_or, if_true] at h
      cases h
      exact .cleared fun b hb' => by rw [hb] at hb'; cases hb'
    | some b =>
      simp only [hb, Option.isNone_some, Bool.false_eq_true, false_or, Option.map_some, Option.some.injEq] at h
      split at h
      · next hv =>
        cases h
        refine .cleared fun b' hb' => ?_
        rw [hb] at hb'
        cases hb'
        exact hv
      · next hv => cases h; exact .notCleared hb hv
  | reserve a =>
    obtain ⟨r', hx, rfl⟩ := scriptReply_ok (Option.some.inj h) hr
    exact .reserve (reserve_ok hx)
  | settle a =>
    obtain ⟨r', hx, rfl⟩ := scriptReply_ok (Option.some.inj h) hr
    exact .settle (settle_ok hx)
  | refund a =>
    obtain ⟨r', hx, rfl⟩ := scriptReply_ok (Option.some.inj h) hr
    exact .refund (refund_ok hx)
  | topUp a =>
    obtain ⟨r', hx, rfl⟩ := scriptReply_ok (Option.some.inj h) hr
    exact .topUp (topUp_ok hx)

/-! ## Balances -/

/-- The call adds `δ` to the balance of `u`. -/
inductive Moves : Call → Reply → UserId → (Field → ℤ) → Prop
  | reserve {a v} : Moves (.reserve a) (.reserve (.ok v)) a.userId fun f => -a.plan.field f
  | settle {a} : a.hasSurplus = true → Moves (.settle a) (.settle .ok) a.userId a.refund
  | refund {a} : Moves (.refund a) (.refund .ok) a.userId a.plan.field
  | topUp {a} : Moves (.topUp a) (.topUp .ok) a.userId a.amount

theorem Moves.version {c : Call} {r : Reply} {u : UserId} {δ : Field → ℤ} (h : Moves c r u δ) : δ .version = 0 := by
  cases h <;> rfl

/-- What a call does to the balances. -/
inductive BalChange (ρ : Redis) (c : Call) (r : Reply) (ρ' : Redis) : Prop
  | same : ρ'.bal = ρ.bal → (∀ u ∈ ρ'.dirty, u ∈ ρ.dirty) → BalChange ρ c r ρ'
  | moved {u old new δ} : Moves c r u δ → ρ.bal.get u = some old →
      (∀ f, new.get f = old.get f + δ f + if f = .version then 1 else 0) → ρ'.bal = ρ.bal.set u new →
      ρ'.dirty = insert u ρ.dirty → InRange new.version → BalChange ρ c r ρ'
  | seeded {u b} : c = .seedIfAbsent u b → ρ.bal.get u = none → ρ'.bal = ρ.bal.set u b → ρ'.dirty = ρ.dirty →
      BalChange ρ c r ρ'
  | advanced {u b n} : c = .advanceVersion u b.version n → r = .flag true → ρ.bal.get u = some b →
      ρ'.bal = ρ.bal.set u (b.withVersion n) → ρ'.dirty = insert u ρ.dirty → BalChange ρ c r ρ'

theorem CallOk.balChange {ρ ρ' : Redis} {c : Call} {r : Reply} (h : CallOk ρ c r ρ') : BalChange ρ c r ρ' := by
  cases h with
  | reserve h =>
    cases h with
    | applied hg hb hv hp hf hr => exact .moved .reserve hb hf rfl rfl hr
    | _ => exact .same rfl fun _ h => h
  | settle h =>
    cases h with
    | surplus hg hr hs hb hf hv => exact .moved (.settle hs) hb hf rfl rfl hv
    | _ => exact .same rfl fun _ h => h
  | refund h =>
    cases h with
    | applied hg hr hb hf hv => exact .moved .refund hb hf rfl rfl hv
    | _ => exact .same rfl fun _ h => h
  | topUp h =>
    cases h with
    | applied hm hb hf hv => exact .moved .topUp hb hf rfl rfl hv
    | _ => exact .same rfl fun _ h => h
  | cleared hv => exact .same rfl fun _ h => Finset.mem_of_mem_erase h
  | seeded hb => exact .seeded rfl hb rfl rfl
  | advanced hb => exact .advanced rfl rfl hb rfl rfl
  | _ => exact .same rfl fun _ h => h

/-- A user whose balance changed is marked. -/
theorem BalChange.changed {ρ ρ' : Redis} {c : Call} {r : Reply} (h : BalChange ρ c r ρ') {u : UserId} {a b : Balance}
    (ha : ρ.bal.get u = some a) (hb : ρ'.bal.get u = some b) (hne : b ≠ a) : u ∈ ρ'.dirty := by
  have set : ∀ {w : UserId} {new : Balance}, ρ'.bal = ρ.bal.set w new → u = w := by
    intro w new hset
    rw [hset, Table.get_set, ha] at hb
    split at hb
    · assumption
    · cases hb
      exact absurd rfl hne
  cases h with
  | same hbal hd =>
    rw [hbal, ha] at hb
    cases hb
    exact absurd rfl hne
  | moved hm ho hf hset hd => rw [hd, set hset]; exact Finset.mem_insert_self ..
  | seeded hc hn hset hd =>
    rw [set hset, hn] at ha
    cases ha
  | advanced hc hr ho hset hd => rw [hd, set hset]; exact Finset.mem_insert_self ..

/-- Only `CLEAR_DIRTY` takes a mark off. -/
theorem CallOk.unmarked {ρ ρ' : Redis} {c : Call} {r : Reply} (h : CallOk ρ c r ρ') {u : UserId} (hu : u ∈ ρ.dirty)
    (hu' : u ∉ ρ'.dirty) : ∃ v, c = .clearDirty u v := by
  have kept : ∀ w, u ∈ insert w ρ.dirty := fun w => Finset.mem_insert_of_mem hu
  cases h with
  | reserve h =>
    cases h with
    | applied => exact absurd (kept _) hu'
    | _ => exact absurd hu hu'
  | settle h =>
    cases h with
    | surplus => exact absurd (kept _) hu'
    | _ => exact absurd hu hu'
  | refund h =>
    cases h with
    | applied => exact absurd (kept _) hu'
    | _ => exact absurd hu hu'
  | topUp h =>
    cases h with
    | applied => exact absurd (kept _) hu'
    | _ => exact absurd hu hu'
  | advanced => exact absurd (kept _) hu'
  | @cleared w v hv =>
    have hw : u = w := by
      by_contra hw
      exact hu' (Finset.mem_erase.mpr ⟨hw, hu⟩)
    subst hw
    exact ⟨v, rfl⟩
  | _ => exact absurd hu hu'

/-! ## Markers and locks -/

/-- The markers stay, or a top-up sets a new one. -/
theorem CallOk.topup {ρ ρ' : Redis} {c : Call} {r : Reply} (h : CallOk ρ c r ρ') :
    ρ'.topup = ρ.topup ∨ ∃ a, c = .topUp a ∧ r = .topUp .ok ∧ ρ.topup.get a.operationId = none ∧
      ρ'.topup = ρ.topup.set a.operationId a.userId := by
  cases h with
  | reserve h => cases h <;> exact .inl rfl
  | settle h => cases h <;> exact .inl rfl
  | refund h => cases h <;> exact .inl rfl
  | topUp h =>
    cases h with
    | applied hm hb hf => exact .inr ⟨_, rfl, rfl, hm, rfl⟩
    | _ => exact .inl rfl
  | _ => exact .inl rfl

/-- The locks stay, or one is taken or released. -/
theorem CallOk.loadLock {ρ ρ' : Redis} {c : Call} {r : Reply} (h : CallOk ρ c r ρ') :
    ρ'.loadLock = ρ.loadLock ∨ (∃ u t, c = .tryAcquireLoadLock u t ∧ ρ'.loadLock = ρ.loadLock.set u t) ∨
      ∃ u, ρ'.loadLock = ρ.loadLock.del u := by
  cases h with
  | reserve h => cases h <;> exact .inl rfl
  | settle h => cases h <;> exact .inl rfl
  | refund h => cases h <;> exact .inl rfl
  | topUp h => cases h <;> exact .inl rfl
  | acquired => exact .inr (.inl ⟨_, _, rfl, rfl⟩)
  | released => exact .inr (.inr ⟨_, rfl⟩)
  | _ => exact .inl rfl

/-! ## Records -/

/-- What a call does to the records. -/
inductive GenChange (ρ : Redis) (c : Call) (r : Reply) (ρ' : Redis) : Prop
  | same : ρ'.gen = ρ.gen → GenChange ρ c r ρ'
  | created {a v} : c = .reserve a → r = .reserve (.ok v) → ρ.gen.get a.clientRequestId = none →
      ρ'.gen = ρ.gen.set a.clientRequestId a.record → GenChange ρ c r ρ'
  | settled {a g} : c = .settle a → r = .settle .ok → ρ.gen.get a.clientRequestId = some g → g.status = .running →
      ρ'.gen = ρ.gen.set a.clientRequestId (a.record g) → GenChange ρ c r ρ'
  | refunded {a g} : c = .refund a → r = .refund .ok → ρ.gen.get a.clientRequestId = some g → g.status = .running →
      ρ'.gen = ρ.gen.set a.clientRequestId (a.record g) → GenChange ρ c r ρ'

theorem CallOk.genChange {ρ ρ' : Redis} {c : Call} {r : Reply} (h : CallOk ρ c r ρ') : GenChange ρ c r ρ' := by
  cases h with
  | reserve h =>
    cases h with
    | applied hg hb hv hp hf => exact .created rfl rfl hg rfl
    | _ => exact .same rfl
  | settle h =>
    cases h with
    | exact hg hr hf => exact .settled rfl rfl hg hr rfl
    | surplus hg hr hs hb hf => exact .settled rfl rfl hg hr rfl
    | _ => exact .same rfl
  | refund h =>
    cases h with
    | applied hg hr hb hf => exact .refunded rfl rfl hg hr rfl
    | _ => exact .same rfl
  | topUp h => cases h <;> exact .same rfl
  | _ => exact .same rfl

/-- What a record keeps whatever becomes of it: all that `RESERVE` wrote but the
status. -/
def GenerationHash.SameReservation (g h : GenerationHash) : Prop :=
  g.userId = h.userId ∧ g.dialogId = h.dialogId ∧ g.modelName = h.modelName ∧ g.plan = h.plan ∧
    g.authorizedCostUsd = h.authorizedCostUsd ∧ g.startedAt = h.startedAt ∧ g.reservationToken = h.reservationToken

theorem GenerationHash.SameReservation.refl (g : GenerationHash) : g.SameReservation g :=
  ⟨rfl, rfl, rfl, rfl, rfl, rfl, rfl⟩

/-- How a record goes on: it stays as it is, or it was running and is resolved. -/
inductive GenStep : GenerationHash → GenerationHash → Prop
  | same (g) : GenStep g g
  | settled {g} (a : SettleArgs) : g.status = .running → GenStep g (a.record g)
  | refunded {g} (a : RefundArgs) : g.status = .running → GenStep g (a.record g)

theorem GenStep.sameReservation {g g' : GenerationHash} (h : GenStep g g') : g.SameReservation g' := by
  cases h <;> exact .refl _

/-- A resolved record never changes again. -/
theorem GenStep.resolved {g g' : GenerationHash} (h : GenStep g g') (hg : g.status ≠ .running) : g' = g := by
  cases h with
  | same => rfl
  | settled a hr => exact absurd hr hg
  | refunded a hr => exact absurd hr hg

theorem CallOk.genStep {ρ ρ' : Redis} {c : Call} {r : Reply} (h : CallOk ρ c r ρ') {id : RequestId}
    {g : GenerationHash} (hg : ρ.gen.get id = some g) : ∃ g', ρ'.gen.get id = some g' ∧ GenStep g g' := by
  have old : ∀ {k : RequestId} {g₀ g₁ : GenerationHash}, ρ.gen.get k = some g₀ → GenStep g₀ g₁ →
      ρ'.gen = ρ.gen.set k g₁ → ∃ g', ρ'.gen.get id = some g' ∧ GenStep g g' := by
    intro k g₀ g₁ hk hs he
    rw [he, Table.get_set]
    split
    · next hid =>
      rw [hid, hk] at hg
      cases hg
      exact ⟨g₁, rfl, hs⟩
    · exact ⟨g, hg, .same g⟩
  cases h.genChange with
  | same he => exact ⟨g, by rw [he, hg], .same g⟩
  | created hc hr hn he =>
    refine ⟨g, ?_, .same g⟩
    rw [he, Table.get_set, if_neg, hg]
    rintro rfl
    rw [hn] at hg
    cases hg
  | settled hc hr hk hs he => exact old hk (.settled _ hs) he
  | refunded hc hr hk hs he => exact old hk (.refunded _ hs) he

/-- A record that is there was there before, or a `RESERVE` just created it. -/
theorem CallOk.gen_new {ρ ρ' : Redis} {c : Call} {r : Reply} (h : CallOk ρ c r ρ') {id : RequestId}
    {g : GenerationHash} (hg : ρ'.gen.get id = some g) (hn : ρ.gen.get id = none) :
    ∃ a v, c = .reserve a ∧ r = .reserve (.ok v) ∧ a.clientRequestId = id ∧ g = a.record := by
  have no : ∀ {k : RequestId} {g₀ g₁ : GenerationHash}, ρ.gen.get k = some g₀ → ρ'.gen = ρ.gen.set k g₁ → False := by
    intro k g₀ g₁ hk he
    rw [he, Table.get_set] at hg
    split at hg
    · next hid => rw [← hid, hn] at hk; cases hk
    · rw [hn] at hg; cases hg
  cases h.genChange with
  | same he => rw [he, hn] at hg; cases hg
  | @created a v hc hr ha he =>
    rw [he, Table.get_set] at hg
    split at hg
    · next hid => cases hg; exact ⟨a, v, hc, hr, hid.symm, rfl⟩
    · rw [hn] at hg; cases hg
  | settled hc hr hk hs he => exact (no hk he).elim
  | refunded hc hr hk hs he => exact (no hk he).elim

/-- Where a record comes from. -/
theorem CallOk.gen_origin {ρ ρ' : Redis} {c : Call} {r : Reply} (h : CallOk ρ c r ρ') {id : RequestId}
    {g : GenerationHash} (hg : ρ'.gen.get id = some g) :
    (∃ g₀, ρ.gen.get id = some g₀ ∧ GenStep g₀ g) ∨
      ∃ a v, c = .reserve a ∧ r = .reserve (.ok v) ∧ a.clientRequestId = id ∧ g = a.record := by
  cases hn : ρ.gen.get id with
  | none => exact .inr (h.gen_new hg hn)
  | some g₀ =>
    obtain ⟨g', hg', hs⟩ := h.genStep hn
    rw [hg] at hg'
    cases hg'
    exact .inl ⟨g₀, rfl, hs⟩

end GenerationBalance
