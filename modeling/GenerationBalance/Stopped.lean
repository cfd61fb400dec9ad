/-
What a round trip does to the store when its script may be stopped by an error.
Every script makes its increments before its other writes, and counts the version
last: a script that is stopped has changed amounts of one balance, no version, and
nothing else.
-/
import GenerationBalance.Effects

namespace GenerationBalance

/-! ## Scripts that are stopped -/

/-- `ρ'` is `ρ` with other amounts in the balance of `u`. -/
def Redis.AmountsOf (u : UserId) (ρ ρ' : Redis) : Prop :=
  ∃ b c, ρ.bal.get u = some b ∧ c.version = b.version ∧ ρ' = ρ.putBalance u c

theorem Redis.AmountsOf.refl {ρ : Redis} {u : UserId} (h : (ρ.bal.get u).isSome) : ρ.AmountsOf u ρ := by
  obtain ⟨b, hb⟩ := Option.isSome_iff_exists.mp h
  exact ⟨b, b, hb, rfl, (Redis.putBalance_self hb).symm⟩

theorem Redis.AmountsOf.trans {ρ ρ₁ ρ₂ : Redis} {u : UserId} (h : ρ.AmountsOf u ρ₁) (h' : ρ₁.AmountsOf u ρ₂) :
    ρ.AmountsOf u ρ₂ := by
  obtain ⟨b, c, hb, hv, rfl⟩ := h
  obtain ⟨b', c', hb', hv', rfl⟩ := h'
  rw [Redis.putBalance_get] at hb'
  cases hb'
  exact ⟨b, c', hb, hv'.trans hv, Redis.putBalance_putBalance ..⟩

theorem Redis.AmountsOf.isSome {ρ ρ' : Redis} {u : UserId} (h : ρ.AmountsOf u ρ') : (ρ'.bal.get u).isSome := by
  obtain ⟨b, c, hb, hv, rfl⟩ := h
  rw [Redis.putBalance_get]
  rfl

namespace Script

variable {α β : Type} {u : UserId}

/-- The part of a script that changes only amounts of a balance that is there. -/
def Amounts (u : UserId) (x : Script α) : Prop := ∀ ρ : Redis, (ρ.bal.get u).isSome → ρ.AmountsOf u (x ρ).2

/-- A script that has changed only amounts when an error stops it. -/
def Stops (u : UserId) (x : Script α) : Prop :=
  ∀ (ρ : Redis) (e : ScriptError) (ρ' : Redis), (ρ.bal.get u).isSome → x ρ = (.error e, ρ') → ρ.AmountsOf u ρ'

/-- A script that no error stops. -/
def Sure (x : Script α) : Prop := ∀ (ρ : Redis) (e : ScriptError) (ρ' : Redis), x ρ ≠ (.error e, ρ')

theorem sure_pure (a : α) : Sure (pure a : Script α) := by
  intro ρ e ρ' h
  cases h

theorem sure_write (f : Redis → Redis) : Sure (write f) := by
  intro ρ e ρ' h
  cases h

theorem bind_eq_error {x : Script α} {f : α → Script β} {ρ ρ' : Redis} {e : ScriptError} :
    (x >>= f) ρ = (.error e, ρ') ↔ x ρ = (.error e, ρ') ∨ ∃ a ρ₁, x ρ = (.ok a, ρ₁) ∧ f a ρ₁ = (.error e, ρ') := by
  cases hx : x ρ with
  | mk r ρ₁ =>
    cases r with
    | error => simp [bind, hx]
    | ok => simp [bind, hx]

theorem Sure.bind {x : Script α} {f : α → Script β} (hx : Sure x) (hf : ∀ a, Sure (f a)) : Sure (x >>= f) := by
  intro ρ e ρ' h
  rcases bind_eq_error.mp h with h | ⟨a, ρ₁, -, h⟩
  · exact hx ρ e ρ' h
  · exact hf a ρ₁ e ρ' h

/-- Nothing that can fail comes after what is not an amount. -/
theorem Stops.bind_sure {x : Script α} {f : α → Script β} (hx : Stops u x) (hf : ∀ a, Sure (f a)) :
    Stops u (x >>= f) := by
  intro ρ e ρ' hu h
  rcases bind_eq_error.mp h with h | ⟨a, ρ₁, -, h⟩
  · exact hx ρ e ρ' hu h
  · exact absurd h (hf a ρ₁ e ρ')

theorem Amounts.bind {x : Script α} {f : α → Script β} (hx : Amounts u x) (hf : ∀ a, Stops u (f a)) :
    Stops u (x >>= f) := by
  intro ρ e ρ' hu h
  have hfirst := hx ρ hu
  rcases bind_eq_error.mp h with h | ⟨a, ρ₁, ha, h⟩
  · rwa [h] at hfirst
  · rw [ha] at hfirst
    exact hfirst.trans (hf a ρ₁ e ρ' hfirst.isSome h)

theorem amounts_neg (n : ℤ) : Amounts u (neg n) := by
  intro ρ hu
  unfold neg
  split
  · exact .refl hu
  · exact .refl hu

theorem amounts_hincrby {f : Field} (d : ℤ) (hf : f ≠ .version) : Amounts u (hincrby u f d) := by
  intro ρ hu
  obtain ⟨b, hb⟩ := Option.isSome_iff_exists.mp hu
  simp only [hincrby, hb, Option.getD_some]
  cases hc : b.incr f d with
  | none => exact .refl hu
  | some c =>
    have hv : c.get .version = b.get .version := by
      rw [Balance.incr_get hc, if_neg (Ne.symm hf), add_zero]
    exact ⟨b, c, hb, hv, rfl⟩

theorem stops_hincrby (f : Field) (d : ℤ) : Stops u (hincrby u f d) := by
  intro ρ e ρ' hu h
  simp only [hincrby] at h
  split at h
  · cases h
  · cases h
    exact .refl hu

end Script

/-! ## The scripts of the service -/

open Script

theorem reserve_stopped {a : ReserveArgs} {ρ ρ' : Redis} {e : ScriptError} (h : reserve a ρ = (.error e, ρ')) :
    ρ.AmountsOf a.userId ρ' := by
  simp only [reserve, store_bind] at h
  cases hg : ρ.gen.get a.clientRequestId with
  | some r => rw [hg] at h; cases h
  | none =>
  cases hb : ρ.bal.get a.userId with
  | none => simp only [hg, hb] at h; cases h
  | some c =>
  simp only [hg, hb] at h
  split at h
  · cases h
  refine (?_ : Stops a.userId _) ρ e ρ' (by rw [hb]; rfl) h
  refine Amounts.bind (amounts_neg _) fun _ => Amounts.bind (amounts_hincrby _ (by decide)) fun _ => ?_
  refine Amounts.bind (amounts_neg _) fun _ => Amounts.bind (amounts_hincrby _ (by decide)) fun _ => ?_
  refine Amounts.bind (amounts_neg _) fun _ => Amounts.bind (amounts_hincrby _ (by decide)) fun _ => ?_
  refine Amounts.bind (amounts_neg _) fun _ => Amounts.bind (amounts_hincrby _ (by decide)) fun _ => ?_
  refine Stops.bind_sure (stops_hincrby _ _) fun _ => ?_
  exact (sure_write _).bind fun _ => (sure_write _).bind fun _ => (sure_write _).bind fun _ => sure_pure _

theorem settle_stopped {a : SettleArgs} {ρ ρ' : Redis} {e : ScriptError} (h : settle a ρ = (.error e, ρ')) :
    ρ.AmountsOf a.userId ρ' := by
  simp only [settle, store_bind] at h
  cases hg : ρ.gen.get a.clientRequestId with
  | none => rw [hg] at h; cases h
  | some r =>
  simp only [hg] at h
  split at h
  · cases h
  split at h
  · cases h
  split at h
  · split at h
    · cases h
    next hb =>
    have hu : (ρ.bal.get a.userId).isSome := by simpa [Option.isSome_iff_ne_none] using hb
    refine (?_ : Stops a.userId _) ρ e ρ' hu h
    refine Amounts.bind (amounts_hincrby _ (by decide)) fun _ => ?_
    refine Amounts.bind (amounts_hincrby _ (by decide)) fun _ => ?_
    refine Amounts.bind (amounts_hincrby _ (by decide)) fun _ => ?_
    refine Stops.bind_sure (stops_hincrby _ _) fun _ => (sure_write _).bind fun _ => ?_
    exact (sure_write _).bind fun _ => (sure_write _).bind fun _ => sure_pure _
  · exact absurd h (((sure_write _).bind fun _ => (sure_write _).bind fun _ => sure_pure _) ρ e ρ')

theorem refund_stopped {a : RefundArgs} {ρ ρ' : Redis} {e : ScriptError} (h : refund a ρ = (.error e, ρ')) :
    ρ.AmountsOf a.userId ρ' := by
  simp only [refund, store_bind] at h
  cases hg : ρ.gen.get a.clientRequestId with
  | none => rw [hg] at h; cases h
  | some r =>
  simp only [hg] at h
  split at h
  · cases h
  split at h
  · cases h
  next hb =>
  have hu : (ρ.bal.get a.userId).isSome := by simpa [Option.isSome_iff_ne_none] using hb
  refine (?_ : Stops a.userId _) ρ e ρ' hu h
  refine Amounts.bind (amounts_hincrby _ (by decide)) fun _ => ?_
  refine Amounts.bind (amounts_hincrby _ (by decide)) fun _ => ?_
  refine Amounts.bind (amounts_hincrby _ (by decide)) fun _ => ?_
  refine Amounts.bind (amounts_hincrby _ (by decide)) fun _ => ?_
  refine Stops.bind_sure (stops_hincrby _ _) fun _ => ?_
  exact (sure_write _).bind fun _ => (sure_write _).bind fun _ => (sure_write _).bind fun _ => sure_pure _

theorem topUp_stopped {a : TopUpArgs} {ρ ρ' : Redis} {e : ScriptError} (h : topUp a ρ = (.error e, ρ')) :
    ρ.AmountsOf a.userId ρ' := by
  simp only [topUp, store_bind] at h
  split at h
  · cases h
  split at h
  · cases h
  next hb =>
  have hu : (ρ.bal.get a.userId).isSome := by simpa [Option.isSome_iff_ne_none] using hb
  refine (?_ : Stops a.userId _) ρ e ρ' hu h
  refine Amounts.bind (amounts_hincrby _ (by decide)) fun _ => ?_
  refine Amounts.bind (amounts_hincrby _ (by decide)) fun _ => ?_
  refine Amounts.bind (amounts_hincrby _ (by decide)) fun _ => ?_
  refine Stops.bind_sure (stops_hincrby _ _) fun _ => ?_
  exact (sure_write _).bind fun _ => (sure_write _).bind fun _ => sure_pure _

/-! ## Every call -/

/-- What a call that an error stopped has changed. -/
def Stopped (ρ ρ' : Redis) : Prop := ∃ u, ρ.AmountsOf u ρ'

theorem exec_error {pick : List UserId} {ρ ρ' : Redis} {c : Call} {r : Reply} (h : exec pick ρ c = some (r, ρ'))
    (hr : r.isError = true) : Stopped ρ ρ' := by
  have script : ∀ {α : Type} {f : α → Reply} {x : Except ScriptError α × Redis}, (∀ a, (f a).isError = false) →
      scriptReply f x = (r, ρ') → ∃ e, x = (.error e, ρ') := by
    intro α f x hf h
    rcases x with ⟨e | a, ρ₁⟩
    · cases h
      exact ⟨e, rfl⟩
    · cases h
      rw [hf] at hr
      cases hr
  cases c with
  | reserve a =>
    obtain ⟨e, he⟩ := script (fun _ => rfl) (Option.some.inj h)
    exact ⟨_, reserve_stopped he⟩
  | settle a =>
    obtain ⟨e, he⟩ := script (fun _ => rfl) (Option.some.inj h)
    exact ⟨_, settle_stopped he⟩
  | refund a =>
    obtain ⟨e, he⟩ := script (fun _ => rfl) (Option.some.inj h)
    exact ⟨_, refund_stopped he⟩
  | topUp a =>
    obtain ⟨e, he⟩ := script (fun _ => rfl) (Option.some.inj h)
    exact ⟨_, topUp_stopped he⟩
  | tryAcquireLoadLock u token =>
    simp only [exec] at h
    split at h <;> cases h <;> cases hr
  | dirtyUsers limit =>
    simp only [exec] at h
    split at h <;> cases h
    cases hr
  | _ => cases h; cases hr

/-- **The cases of a call**: no command fails, or one does and only amounts changed. -/
theorem exec_cases {pick : List UserId} {ρ ρ' : Redis} {c : Call} {r : Reply} (h : exec pick ρ c = some (r, ρ')) :
    CallOk ρ c r ρ' ∨ r.isError = true ∧ Stopped ρ ρ' := by
  cases hr : r.isError with
  | false => exact .inl (exec_ok h hr)
  | true => exact .inr ⟨rfl, exec_error h hr⟩

section Stopped

variable {ρ ρ' : Redis}

theorem Stopped.gen (h : Stopped ρ ρ') : ρ'.gen = ρ.gen := by
  obtain ⟨u, b, c, hb, hv, rfl⟩ := h
  rfl

theorem Stopped.inflight (h : Stopped ρ ρ') : ρ'.inflight = ρ.inflight := by
  obtain ⟨u, b, c, hb, hv, rfl⟩ := h
  rfl

theorem Stopped.loadLock (h : Stopped ρ ρ') : ρ'.loadLock = ρ.loadLock := by
  obtain ⟨u, b, c, hb, hv, rfl⟩ := h
  rfl

/-- A balance is there after it was there before, and with the same version. -/
theorem Stopped.version (h : Stopped ρ ρ') (u : UserId) :
    (ρ'.bal.get u).map Balance.version = (ρ.bal.get u).map Balance.version := by
  obtain ⟨w, b, c, hb, hv, rfl⟩ := h
  show ((ρ.bal.set w c).get u).map _ = _
  rw [Table.get_set]
  split
  · next hu => rw [hu, hb, Option.map_some, Option.map_some, hv]
  · rfl

end Stopped

end GenerationBalance
