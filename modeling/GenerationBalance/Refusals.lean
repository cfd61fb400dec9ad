/-
How a call goes through `_reserve`, and what it raises: a refusal comes only from
there, and a denial of the policy only after the record was looked up.
-/
import GenerationBalance.Outcomes

namespace GenerationBalance

open Transition

/-! ## A call in `_reserve` -/

/-- A call of `execute_generation` that is in `_reserve`. -/
def Proc.inReserve : Proc → Bool
  | .gen _ (.loading _ _) | .gen _ (.reserving _ _ _) | .gen _ (.denied _ _) | .gen _ (.waiting _)
  | .gen _ (.polling _) => true
  | _ => false

/-- A call that ended with an exception `_reserve` refuses a request with. -/
def Proc.refused : Proc → Bool
  | .gen _ (.ended (.error e)) => e.isRefusal || e.isContention
  | _ => false

theorem Proc.refused_gen {st : Proc} (h : st.refused = true) :
    ∃ request e, st = .gen request (.ended (.error e)) ∧ (e.isRefusal || e.isContention) = true := by
  unfold Proc.refused at h
  split at h
  · next request e => exact ⟨request, e, rfl, h⟩
  · cases h

theorem Proc.inReserve_not_refused {st : Proc} (h : st.inReserve = true) : st.refused = false := by
  unfold Proc.inReserve at h
  split at h <;> first | rfl | cases h

theorem Proc.resume_idle {cfg : Config} {fresh : Token} {now : ℚ} {st : Proc} {i : Input}
    (h : st.resume cfg fresh now i = .idle) : st = .idle := by
  cases st <;> first | rfl | cases h

theorem Proc.inReserve_leftovers {cfg : Config} {st st' : Proc} (h : st = .idle ∨ st.inReserve = true)
    (hl : st' ∈ st.leftovers cfg) : st' = st ∧ st.inReserve = true := by
  rcases h with rfl | h
  · cases hl
  cases st with
  | gen request pc =>
    simp only [Proc.leftovers] at hl
    split at hl
    · exact ⟨List.mem_singleton.mp hl, h⟩
    · cases hl
  | _ => cases h

theorem Proc.refused_leftovers {cfg : Config} {st : Proc} (h : st.refused = true) : st.leftovers cfg = [] := by
  unfold Proc.refused at h
  split at h
  · rfl
  · cases h

/-- Where a call goes from `_reserve`. -/
theorem Proc.resume_inReserve (cfg : Config) (fresh : Token) (now : ℚ) {st : Proc} (i : Input)
    (h : st.inReserve = true) :
    (st.resume cfg fresh now i).inReserve = true ∨
      (∃ request r, st.resume cfg fresh now i = .gen request (.ended r)) ∨
      ∃ request v, st.resume cfg fresh now i = .gen request (.calling v) := by
  cases st with
  | gen request pc =>
    have hm : GenMove request fresh now pc i (pc.resume cfg request fresh now i) := genMove cfg
    simp only [Proc.resume]
    generalize pc.resume cfg request fresh now i = pc' at hm ⊢
    cases hm with
    | stay => exact .inl h
    | load | reserve | denied | reserveMissing | reserveAgain | wait | poll | vanished => exact .inl rfl
    | raised | denial | loadRaised | done | failed => exact .inr (.inl ⟨request, _, rfl⟩)
    | reserved => exact .inr (.inr ⟨request, _, rfl⟩)
    | _ => cases h
  | _ => cases h

/-- A call that is past `_reserve` does not come back to it. -/
theorem Proc.resume_past (cfg : Config) (fresh : Token) (now : ℚ) {st : Proc} (i : Input)
    (h : st.inReserve = false) : (st.resume cfg fresh now i).inReserve = false := by
  cases st with
  | gen request pc =>
    have hm : GenMove request fresh now pc i (pc.resume cfg request fresh now i) := genMove cfg
    simp only [Proc.resume]
    generalize pc.resume cfg request fresh now i = pc' at hm ⊢
    cases hm with
    | stay => exact h
    | load | reserveMissing | reserveAgain | poll | vanished => cases h
    | reserve hb | denied hb => cases hb <;> cases h
    | wait hl => cases hl <;> cases h
    | _ => rfl
  | _ => rfl

/-! ## What a call raises -/

theorem LoaderPc.resume_raises {fresh : Token} {l : LoaderPc} {i : Input} {e : Exn}
    (h : l.resume fresh i = .raise e) : e.isRefusal = false ∨ ∃ t, l = .release t (.raise e) := by
  unfold LoaderPc.resume at h
  split at h
  any_goals cases h
  any_goals exact .inl rfl
  · split at h <;> cases h
  · next t exit f =>
    cases exit <;> cases h
    exact .inr ⟨t, rfl⟩

theorem RefundPc.resume_raises {cfg : Config} {fresh : Token} {pc : RefundPc} {i : Input} {e : Exn}
    (h : pc.resume cfg fresh i = .raise e) :
    e.isRefusal = false ∨ ∃ l, pc.loader = some l ∧ l.resume fresh i = .raise e := by
  unfold RefundPc.resume at h
  split at h
  · split at h <;> cases h
  · cases h; exact .inl rfl
  · unfold Config.retrying at h
    split at h <;> cases h
    exact .inl rfl
  · next k l =>
    cases hr : l.resume fresh i with
    | run l' => rw [hr] at h; cases h
    | ret b =>
      rw [hr] at h
      cases k <;> cases h
      exact .inl rfl
    | raise e' =>
      rw [hr] at h
      cases h
      exact .inr ⟨l, rfl, hr⟩
  · cases h

theorem attemptReserve_raises {request : GenerationRequest} {fresh : Token} {now : ℚ} {k : ℕ} {b : Balance} {e : Exn}
    (h : attemptReserve request fresh now k b = .ended (.error e)) : e.isAccess = false := by
  cases k with
  | zero => cases h; rfl
  | succ k =>
    simp only [attemptReserve] at h
    split at h
    · cases h
    · split at h
      · cases h
      · next ha => cases h; simpa using ha

theorem pollRecord_raises {id : RequestId} {k : ℕ} {record : GenerationRecord} {e : Exn}
    (h : pollRecord id k record = .ended (.error e)) : e.isAccess = false := by
  unfold pollRecord at h
  split at h <;> cases h
  rfl

theorem resolveDuplicate_raises {request : GenerationRequest} {k : ℕ} {record : GenerationRecord} {e : Exn}
    (h : resolveDuplicate request k record = .ended (.error e)) : e.isAccess = false := by
  unfold resolveDuplicate at h
  split at h
  · cases h; rfl
  · exact pollRecord_raises h

theorem settleLoop_raises {S : Settlement} {k : ℕ} {e : Exn} (h : settleLoop S k = .ended (.error e)) :
    e.isRefusal = false := by
  cases k <;> cases h
  rfl

section Provided

variable {cfg : Config} {v w : Reservation} {message : Option PyStr} {typeName reason : String} {isException : Bool}
  {content : PyStr} {bill : Number} {pc : RefundPc} {e : Exn}

theorem startSettle_raises (h : startSettle cfg v content bill = .ended (.error e)) : e.isRefusal = false := by
  rcases startSettle_cases cfg v content bill with ⟨e', he, hk⟩ | ⟨_, _, _, -, -, -, he⟩ <;> rw [he] at h <;> cases h
  rcases hk with hk | hk | rfl
  · exact (Exn.isMoney_only hk).2.2.1
  · exact (Exn.isUnsendable_only hk).2.2.1
  · rfl

theorem startRefund_raises (h : startRefund cfg v message typeName isException = .ended (.error e)) :
    e.isRefusal = false := by
  rcases startRefund_cases cfg v message typeName isException with ⟨e', he, hk⟩ | ⟨_, _, -, he⟩ <;> rw [he] at h <;>
    cases h
  rcases hk with hk | rfl
  · exact (Exn.isUnsendable_only hk).2.2.1
  · rfl

/-- What a refund raises after it is no refusal. -/
theorem startRefund_after (h : startRefund cfg v message typeName isException = .refunding w reason pc e) :
    e.isRefusal = false := by
  rcases startRefund_cases cfg v message typeName isException with ⟨e', he, -⟩ | ⟨_, _, -, he⟩ <;> rw [he] at h <;>
    cases h
  cases isException <;> rfl

end Provided

/-- How a call comes to raise an exception. -/
inductive Raises (request : GenerationRequest) (fresh : Token) : GenPc → Input → Exn → Prop
  | ended {i e} : Raises request fresh (.ended (.error e)) i e
  | denied {k e} : Raises request fresh (.denied e k) (.reply (.record none)) e
  | loader {pc u l i e} : pc.loader request = some (u, l) → l.resume fresh i = .raise e → Raises request fresh pc i e
  | refunded {v reason pc i e} : Raises request fresh (.refunding v reason pc e) i e
  | reserve {pc i e} : (Proc.gen request pc).inReserve = true → e.isAccess = false → Raises request fresh pc i e
  | other {pc i e} : e.isRefusal = false → Raises request fresh pc i e

theorem GenPc.raises {cfg : Config} {request : GenerationRequest} {fresh : Token} {now : ℚ} {pc : GenPc} {i : Input}
    {e : Exn} (h : pc.resume cfg request fresh now i = .ended (.error e)) : Raises request fresh pc i e := by
  unfold GenPc.resume at h
  split at h
  · next k l =>
    cases hr : l.resume fresh i with
    | run l' => rw [hr] at h; cases h
    | ret b => rw [hr] at h; exact .reserve rfl (attemptReserve_raises h)
    | raise e' => rw [hr] at h; cases h; exact .loader rfl hr
  · split at h
    · cases h
    · exact .reserve rfl (attemptReserve_raises h)
    · cases h
    · exact .reserve rfl (resolveDuplicate_raises h)
  · cases h; exact .other rfl
  · unfold Config.retrying at h
    split at h <;> cases h
    exact .other rfl
  · cases h; exact .denied
  · exact .reserve rfl (resolveDuplicate_raises h)
  · cases h; exact .other rfl
  · cases h; exact .other rfl
  · cases h
  · cases h; exact .reserve rfl rfl
  · cases h
  · exact .reserve rfl (pollRecord_raises h)
  · cases h
  · exact .other (startSettle_raises h)
  · exact .other (startRefund_raises h)
  · exact .other (startRefund_raises h)
  · split at h <;> cases h
    exact .other rfl
  · cases h; exact .other rfl
  · unfold Config.retrying at h
    split at h <;> cases h
    exact .other rfl
  · next S k l =>
    cases hr : l.resume fresh i with
    | run l' => rw [hr] at h; cases h
    | ret b => rw [hr] at h; exact .other (settleLoop_raises h)
    | raise e' => rw [hr] at h; cases h; exact .loader rfl hr
  · next v reason pc after =>
    cases hr : pc.resume cfg fresh i with
    | run pc' => rw [hr] at h; cases h
    | ret u => rw [hr] at h; cases h; exact .refunded
    | raise e' =>
      rw [hr] at h
      cases h
      rcases RefundPc.resume_raises hr with he | ⟨l, hl, hl'⟩
      · exact .other he
      · exact .loader (u := v.request.userId) (by simp only [GenPc.loader, hl, Option.map_some]) hl'
  · cases h; exact .ended

/-- A refund that goes on was begun, with an exception that is no refusal. -/
theorem GenPc.resume_refunding {cfg : Config} {request : GenerationRequest} {fresh : Token} {now : ℚ} {pc : GenPc}
    {i : Input} {v : Reservation} {reason : String} {pc' : RefundPc} {e : Exn}
    (h : pc.resume cfg request fresh now i = .refunding v reason pc' e) :
    (∃ pc₀, pc = .refunding v reason pc₀ e) ∨ e.isRefusal = false := by
  have hm : GenMove request fresh now pc i (pc.resume cfg request fresh now i) := genMove cfg
  rw [h] at hm
  cases hm with
  | stay => exact .inl ⟨pc', rfl⟩
  | refunds => exact .inl ⟨_, rfl⟩
  | refund =>
    cases i with
    | provided o =>
      cases o with
      | result content bill =>
        rw [GenPc.resume] at h
        rcases startSettle_cases cfg v content bill with ⟨_, he, -⟩ | ⟨_, _, _, -, -, -, he⟩ <;> rw [he] at h <;> cases h
      | raised message typeName isException => exact .inr (startRefund_after h)
    | timeout => exact .inr (startRefund_after h)
    | _ => cases h

/-- What a loader raises after its release, and a call after its refund, is no refusal. -/
structure Proc.Plain (st : Proc) : Prop where
  exit : ∀ u t e, st.loader = some (u, .release t (.raise e)) → e.isRefusal = false
  after : ∀ request v reason pc e, st = .gen request (.refunding v reason pc e) → e.isRefusal = false

theorem Proc.Blank.plain {st : Proc} (h : st.Blank) : st.Plain where
  exit u t e hl := by cases h.loader _ _ hl
  after request v reason pc e hst := by
    have hn := h.refund
    rw [hst] at hn
    cases hn

theorem Proc.Plain.resume {cfg : Config} {fresh : Token} {now : ℚ} {st : Proc} {i : Input} (h : st.Plain) :
    (st.resume cfg fresh now i).Plain := by
  refine ⟨fun u t e hl => ?_, fun request v reason pc e hst => ?_⟩
  · rcases Proc.resume_loader hl with hl | ⟨l, hl, rfl | hr⟩
    · cases hl
    · exact h.exit u t e hl
    · rcases LoaderPc.resume_exit hr with rfl | rfl | rfl
      · exact h.exit u t e hl
      · rfl
      · rfl
  · cases st with
    | gen request' pc' =>
      simp only [Proc.resume, Proc.gen.injEq] at hst
      obtain ⟨rfl, hst⟩ := hst
      rcases GenPc.resume_refunding hst with ⟨pc₀, rfl⟩ | he
      · exact h.after _ _ _ _ _ rfl
      · exact he
    | _ => cases hst

theorem Proc.Plain.ended {cfg : Config} {fresh : Token} {now : ℚ} {st : Proc} {i : Input} {request : GenerationRequest}
    {e : Exn} (h : st.Plain) (he : st.resume cfg fresh now i = .gen request (.ended (.error e))) :
    st = .gen request (.ended (.error e)) ∨
      (∃ k, st = .gen request (.denied e k) ∧ i = .reply (.record none)) ∨
      e.isAccess = false ∧ (st.inReserve = false → e.isRefusal = false) := by
  -- What is no refusal at all is none of the policy's.
  have other : e.isRefusal = false → e.isAccess = false ∧ (st.inReserve = false → e.isRefusal = false) := by
    intro hn
    refine ⟨?_, fun _ => hn⟩
    by_contra ha
    rw [Exn.isRefusal_of_isAccess (by simpa using ha)] at hn
    cases hn
  cases st with
  | gen request' pc =>
    simp only [Proc.resume, Proc.gen.injEq] at he
    obtain ⟨rfl, he⟩ := he
    have hraises := GenPc.raises he
    cases hraises with
    | ended => exact .inl rfl
    | denied => exact .inr (.inl ⟨_, rfl, rfl⟩)
    | loader hl hr =>
      rcases LoaderPc.resume_raises hr with hn | ⟨t, rfl⟩
      · exact .inr (.inr (other hn))
      · exact .inr (.inr (other (h.exit _ t e hl)))
    | refunded => exact .inr (.inr (other (h.after _ _ _ _ e rfl)))
    | reserve hin ha => exact .inr (.inr ⟨ha, fun hout => absurd (hin.symm.trans hout) (by decide)⟩)
    | other hn => exact .inr (.inr (other hn))
  | _ => cases he

end GenerationBalance
