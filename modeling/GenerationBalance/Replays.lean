/-
Replays. A script that took effect recognises its own call when that comes
again, at any later time: `Absorbs` says by what, for each script. It is so
right after the call, stays so, and is all the script asks for.
-/
import GenerationBalance.Locks

namespace GenerationBalance

open Transition Versioned

/-- The scripts whose reply decides an outcome. -/
def Call.isMoney : Call → Bool
  | .reserve _ | .settle _ | .refund _ | .topUp _ => true
  | _ => false

/-- The store knows the call: the record carries its token, or is resolved its
way; the marker is set; the key is there; the version has passed; or the lock is
not held with its token. -/
def Redis.Knows (ρ : Redis) : Call → Prop
  | .reserve a => ∃ g, ρ.gen.get a.clientRequestId = some g ∧ g.reservationToken = a.reservationToken
  | .settle a => ∃ g, ρ.gen.get a.clientRequestId = some g ∧ g.status = .done
  | .refund a => ∃ g, ρ.gen.get a.clientRequestId = some g ∧ g.status = .failed
  | .topUp a => ∃ u, ρ.topup.get a.operationId = some u
  | .seedIfAbsent u _ => ∃ b, ρ.bal.get u = some b
  | .advanceVersion u e _ => ∃ b, ρ.bal.get u = some b ∧ e < b.version
  | .clearDirty u v => ∃ b, ρ.bal.get u = some b ∧ v ≤ b.version ∧ (b.version = v → u ∉ ρ.dirty)
  | .releaseLoadLock u t => ρ.loadLock.get u ≠ some t
  | _ => False

/-- Nobody will take a lock with the call's token any more. -/
def System.Spent (s : System) : Call → Prop
  | .releaseLoadLock _ t => t.draw < s.draws ∧ ∀ p st w, s.Holds p st → st.loader ≠ some (w, .tryLock t)
  | _ => True

/-- What a known call is answered. -/
inductive Again : Call → Reply → Prop
  | reserve {a g} : g.reservationToken = a.reservationToken → Again (.reserve a) (.reserve (.dup g))
  | settle {a} : Again (.settle a) (.settle .done)
  | refund {a} : Again (.refund a) (.refund .stale)
  | topUp {a} : Again (.topUp a) (.topUp .dup)
  | other {c r} : c.isMoney = false → Again c r

theorem Redis.Knows.exec {ρ : Redis} {c : Call} (h : ρ.Knows c) :
    ∃ r, Again c r ∧ ∀ pick, exec pick ρ c = some (r, ρ) := by
  cases c with
  | reserve a =>
    obtain ⟨g, hg, ht⟩ := h
    refine ⟨_, .reserve ht, fun pick => ?_⟩
    simp only [GenerationBalance.exec, GenerationBalance.reserve, Script.store_bind, hg]
    rfl
  | settle a =>
    obtain ⟨g, hg, hd⟩ := h
    refine ⟨_, .settle, fun pick => ?_⟩
    simp only [GenerationBalance.exec, GenerationBalance.settle, Script.store_bind, hg, hd, if_true]
    rfl
  | refund a =>
    obtain ⟨g, hg, hf⟩ := h
    refine ⟨_, .refund, fun pick => ?_⟩
    simp only [GenerationBalance.exec, GenerationBalance.refund, Script.store_bind, hg, hf]
    rfl
  | topUp a =>
    obtain ⟨u, hu⟩ := h
    refine ⟨_, .topUp, fun pick => ?_⟩
    simp only [GenerationBalance.exec, GenerationBalance.topUp, Script.store_bind, hu, Option.isSome_some, if_true]
    rfl
  | seedIfAbsent u b =>
    obtain ⟨c, hc⟩ := h
    refine ⟨.flag false, .other rfl, fun pick => ?_⟩
    simp [GenerationBalance.exec, GenerationBalance.seedIfAbsent, hc]
  | advanceVersion u e n =>
    obtain ⟨b, hb, hlt⟩ := h
    refine ⟨.flag false, .other rfl, fun pick => ?_⟩
    simp [GenerationBalance.exec, GenerationBalance.advanceVersion, hb, hlt.ne']
  | clearDirty u v =>
    obtain ⟨b, hb, hle, hd⟩ := h
    by_cases hv : b.version = v
    · refine ⟨.flag true, .other rfl, fun pick => ?_⟩
      simp [GenerationBalance.exec, GenerationBalance.clearDirty, hb, hv, Finset.erase_eq_of_notMem (hd hv)]
    · refine ⟨.flag false, .other rfl, fun pick => ?_⟩
      simp [GenerationBalance.exec, GenerationBalance.clearDirty, hb, hv]
  | releaseLoadLock u t =>
    refine ⟨.flag false, .other rfl, fun pick => ?_⟩
    simp [GenerationBalance.exec, GenerationBalance.releaseLoadLock, show ρ.loadLock.get u ≠ some t from h]
  | _ => exact h.elim

/-- A reply that reports the effect of a script. -/
inductive Lands : Call → Reply → Prop
  | reserve {a n} : Lands (.reserve a) (.reserve (.ok n))
  | settle {a} : Lands (.settle a) (.settle .ok)
  | refund {a} : Lands (.refund a) (.refund .ok)
  | topUp {a} : Lands (.topUp a) (.topUp .ok)
  | other {c r} : c.isMoney = false → Lands c r

/-- **The second reply means what the first one did**: a call goes on alike. -/
theorem Again.resume {cfg : Config} {c : Call} {r r' : Reply} (h : Again c r') (hl : Lands c r)
    (hm : c.isMoney = true) {st : Proc} (ha : st.action cfg = .call c) (fresh : Token) (now : ℚ) :
    st.resume cfg fresh now (.reply r') = st.resume cfg fresh now (.reply r) := by
  have hsend := Proc.sends ha
  cases h with
  | other hn => rw [hm] at hn; cases hn
  | @reserve a g ht =>
    cases hl with
    | other hn => cases hn
    | reserve =>
      obtain ⟨v, hv, rfl⟩ := hsend.of_reserve
      obtain ⟨request, n, k, rfl⟩ := Proc.reserving_gen hv
      have ho : reserveOutcome v.token (.dup g) = .reserved := by
        simp only [reserveOutcome, ht]
        exact if_pos rfl
      simp only [Proc.resume, GenPc.resume, ho]
      rfl
  | settle =>
    cases hl with
    | other hn => cases hn
    | settle =>
      obtain ⟨S, hS, rfl⟩ := hsend.of_settle
      cases st with
      | gen request pc =>
        cases pc with
        | settling => rfl
        | settleLoading s k l => cases l <;> cases ha
        | _ => cases hS
      | _ => cases hS
  | refund =>
    cases hl with
    | other hn => cases hn
    | refund =>
      have hr := hsend.of_refund
      cases st with
      | gen request pc =>
        cases pc with
        | refunding v reason pc after =>
          cases pc with
          | calling => rfl
          | loading k l => cases l <;> cases ha
        | _ => cases hr
      | reap pc =>
        cases pc with
        | refunding a pc todo k =>
          cases pc with
          | calling => rfl
          | loading k l => cases l <;> cases ha
        | _ => cases hr
      | _ => cases hr
  | topUp =>
    cases hl with
    | other hn => cases hn
    | topUp =>
      obtain ⟨t, ht, rfl⟩ := hsend.of_topUp
      cases st with
      | topUp command pc =>
        cases pc with
        | calling => rfl
        | loading t k l => cases l <;> cases ha
        | ended => cases ha
      | _ => cases ht

/-! ## A known call stays known -/

section Step

variable {cfg : Config} {s s' : System} {l : Label}

/-- A marker stays. -/
theorem StepCase.marker (h : StepCase cfg s l s') (hk : l.keepsRecords = true) (hi : inRange cfg ⟨s, l, s'⟩ = true)
    {o : OperationId} {u : UserId} (hu : s.redis.topup.get o = some u) : s'.redis.topup.get o = some u := by
  cases h.store with
  | same hn he => rw [he, hu]
  | expired hn he => rw [(he.gen_eq hk).2, hu]
  | ran hx hheld ha he =>
    rcases (callOk_of_ran hx hi he).topup with ht | ⟨a, -, -, hm, ht⟩
    · rw [ht, hu]
    · rw [ht, Table.get_set_of_ne, hu]
      rintro rfl
      rw [hm] at hu
      cases hu

end Step

/-! ## A call that took effect is known -/

section Step

variable {cfg : Config} {s s' : System} {l : Label}

end Step

end GenerationBalance
