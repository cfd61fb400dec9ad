/-
Top-ups that fail half way. `TOP_UP` makes three increments before it counts the
version and sets the marker, and Redis undoes none of them when a later one leaves
the 64-bit range; and `_validate` quantizes an amount before it has looked at all of
them, which raises what no caller expects when the amount is too large. So
`apply_top_up` is all or nothing, and reports its input, only below these sizes.
-/
import GenerationBalance.Runs
import Mathlib.Data.List.TakeWhile

namespace GenerationBalance

/-! ## Increments in turn -/

namespace Balance

/-- `HINCRBY` of a field by an amount succeeds. -/
def takes (b : Balance) (e : Field × ℤ) : Bool :=
  decide (InRange (b.get e.1) ∧ InRange e.2 ∧ InRange (b.get e.1 + e.2))

theorem incr_of_takes {b : Balance} {e : Field × ℤ} (h : b.takes e = true) : ∃ c, b.incr e.1 e.2 = some c := by
  unfold takes at h
  simp only [decide_eq_true_eq] at h
  exact ⟨_, dif_pos h⟩

theorem incr_of_not_takes {b : Balance} {e : Field × ℤ} (h : b.takes e = false) : b.incr e.1 e.2 = none := by
  unfold takes at h
  simp only [decide_eq_false_iff_not] at h
  exact dif_neg h

/-- The balance that increments leave behind, and whether all of them succeed. -/
def incrs (b : Balance) : List (Field × ℤ) → Balance × Bool
  | [] => (b, true)
  | e :: es =>
    match b.incr e.1 e.2 with
    | some c => c.incrs es
    | none => (b, false)

/-- What increments leave behind: the ones before the first that fails are made. -/
structure Made (b₀ b : Balance) (es : List (Field × ℤ)) (r : Balance × Bool) : Prop where
  taken : ∀ e ∈ es.takeWhile b₀.takes, r.1.get e.1 = b₀.get e.1 + e.2
  others : ∀ f, f ∉ (es.takeWhile b₀.takes).map Prod.fst → r.1.get f = b.get f
  all : r.2 = es.all b₀.takes

theorem made {b₀ : Balance} {es : List (Field × ℤ)} : ∀ {b : Balance}, (es.map Prod.fst).Nodup →
    (∀ e ∈ es, b.get e.1 = b₀.get e.1) → Made b₀ b es (b.incrs es) := by
  induction es with
  | nil =>
    intro b _ _
    exact ⟨fun e he => (by cases he), fun _ _ => rfl, rfl⟩
  | cons e es ih =>
    intro b hn hsame
    rw [List.map_cons, List.nodup_cons] at hn
    have htakes : b.takes e = b₀.takes e := by
      unfold takes
      rw [hsame e (List.mem_cons_self ..)]
    cases h : b₀.takes e with
    | false =>
      have hnone := incr_of_not_takes (htakes.trans h)
      refine ⟨fun x hx => ?_, fun f _ => ?_, ?_⟩
      · rw [List.takeWhile_cons, h] at hx
        cases hx
      · simp only [incrs, hnone]
      · simp [incrs, hnone, h]
    | true =>
      obtain ⟨c, hc⟩ := incr_of_takes (htakes.trans h)
      have hget := incr_get hc
      -- The other fields are not the one that was incremented.
      have hrest : ∀ x ∈ es, c.get x.1 = b₀.get x.1 := by
        intro x hx
        have hne : x.1 ≠ e.1 := fun he => hn.1 (List.mem_map.mpr ⟨x, hx, he⟩)
        rw [hget, if_neg hne, add_zero]
        exact hsame x (List.mem_cons_of_mem _ hx)
      have hr := ih hn.2 hrest
      have hincrs : b.incrs (e :: es) = c.incrs es := by simp only [incrs, hc]
      rw [hincrs]
      refine ⟨fun x hx => ?_, fun f hf => ?_, ?_⟩
      · rw [List.takeWhile_cons_of_pos h] at hx
        rcases List.mem_cons.mp hx with rfl | hx
        · have hnot : x.1 ∉ (es.takeWhile b₀.takes).map Prod.fst := fun hm =>
            hn.1 (List.map_subset _ (List.takeWhile_subset _) hm)
          rw [hr.others _ hnot, hget, if_pos rfl, hsame x (List.mem_cons_self ..)]
        · exact hr.taken x hx
      · rw [List.takeWhile_cons_of_pos h, List.map_cons, List.mem_cons, not_or] at hf
        rw [hr.others f hf.2, hget, if_neg hf.1, add_zero]
      · rw [hr.all, List.all_cons, h, Bool.true_and]

/-- Increments leave a balance as it is when the ones that are made add nothing. -/
theorem incrs_eq_self {b : Balance} {es : List (Field × ℤ)} (hn : (es.map Prod.fst).Nodup) :
    (b.incrs es).1 = b ↔ ∀ e ∈ es.takeWhile b.takes, e.2 = 0 := by
  have hm : Made b b es (b.incrs es) := made hn fun _ _ => rfl
  constructor
  · intro h e he
    have := hm.taken e he
    rw [h] at this
    omega
  · intro h
    refine ext_get fun f => ?_
    by_cases hf : f ∈ (es.takeWhile b.takes).map Prod.fst
    · obtain ⟨e, he, rfl⟩ := List.mem_map.mp hf
      rw [hm.taken e he, h e he, add_zero]
    · exact hm.others f hf

end Balance

namespace Script

variable {α β γ : Type}

/-- The increments of a script, one after the other. -/
def hincrbys (u : UserId) : List (Field × ℤ) → Script Unit
  | [] => pure ()
  | e :: es => do
    let _ ← hincrby u e.1 e.2
    hincrbys u es

theorem bind_assoc (x : Script α) (f : α → Script β) (g : β → Script γ) :
    (x >>= f) >>= g = x >>= fun a => f a >>= g := by
  funext ρ
  simp only [bind_apply]
  rcases x ρ with ⟨e | a, ρ₁⟩ <;> rfl

theorem hincrby_eq {u : UserId} {f : Field} {d : ℤ} {ρ : Redis} {b : Balance} (hb : ρ.bal.get u = some b) :
    hincrby u f d ρ = (b.incr f d).elim (.error .notAnInteger, ρ) fun c => (.ok (c.get f), ρ.putBalance u c) := by
  simp only [hincrby, hb, Option.getD_some]
  cases b.incr f d <;> rfl

theorem hincrbys_eq {u : UserId} {es : List (Field × ℤ)} : ∀ {ρ : Redis} {b : Balance}, ρ.bal.get u = some b →
    hincrbys u es ρ =
      (if (b.incrs es).2 then .ok () else .error .notAnInteger, ρ.putBalance u (b.incrs es).1) := by
  induction es with
  | nil =>
    intro ρ b hb
    rw [Balance.incrs, Redis.putBalance_self hb]
    rfl
  | cons e es ih =>
    intro ρ b hb
    rw [hincrbys, bind_apply, hincrby_eq hb]
    cases hc : b.incr e.1 e.2 with
    | none =>
      rw [show b.incrs (e :: es) = (b, false) by simp only [Balance.incrs, hc], Redis.putBalance_self hb]
      rfl
    | some c =>
      rw [show b.incrs (e :: es) = c.incrs es by simp only [Balance.incrs, hc]]
      show hincrbys u es (ρ.putBalance u c) = _
      rw [ih (Redis.putBalance_get ρ u c), Redis.putBalance_putBalance]

end Script

/-! ## TOP_UP on a hot balance -/

/-- The increments of `TOP_UP`. -/
def TopUpArgs.increments (a : TopUpArgs) : List (Field × ℤ) :=
  [(.paidUsd, a.paidUsd), (.bonusUsd, a.bonusUsd), (.freeRequests, a.freeRequests), (.version, 1)]

theorem TopUpArgs.increments_nodup (a : TopUpArgs) : (a.increments.map Prod.fst).Nodup := by
  simp [TopUpArgs.increments]

theorem topUp_hot {a : TopUpArgs} {ρ : Redis} {b : Balance} (hm : ρ.topup.get a.operationId = none)
    (hb : ρ.bal.get a.userId = some b) :
    topUp a ρ = if (b.incrs a.increments).2 then
        (.ok .ok, (ρ.credited a.userId (b.incrs a.increments).1).marked a.operationId a.userId)
      else (.error .notAnInteger, ρ.putBalance a.userId (b.incrs a.increments).1) := by
  have hscript : topUp a ρ = (Script.hincrbys a.userId a.increments >>= fun _ => do
      Script.write fun ρ => { ρ with topup := ρ.topup.set a.operationId a.userId }
      Script.write fun ρ => { ρ with dirty := insert a.userId ρ.dirty }
      return .ok) ρ := by
    simp only [topUp, Script.store_bind, hm, hb, Option.isSome_none, Option.isNone_some, Bool.false_eq_true, if_false,
      TopUpArgs.increments, Script.hincrbys, Script.bind_assoc]
    rfl
  rw [hscript, Script.bind_apply, Script.hincrbys_eq hb]
  cases (b.incrs a.increments).2 <;> rfl

/-! ## The checks -/

/-- An amount that is negative or finer than a micro-dollar. -/
def BadAmount (d : Decimal) : Prop := d < .ofInt 0 ∨ ¬ ∃ n, IsMicros d n

/-- An amount of more than 28 digits at six decimals, which `quantize` fails on. -/
def Oversized (d : Decimal) : Prop := ¬ d < .ofInt 0 ∧ d.quantize (-6) Decimal.roundHalfEven = none

/-- **The check of an amount.** -/
theorem validateAmount_cases (name : String) (d : Decimal) :
    Oversized d ∧ validateAmount name d = .error .invalidOperation ∨
      ¬ Oversized d ∧ BadAmount d ∧ (∃ message, validateAmount name d = .error (.invalidInput message)) ∨
      ¬ Oversized d ∧ ¬ BadAmount d ∧ validateAmount name d = .ok () := by
  unfold validateAmount
  by_cases hneg : d < .ofInt 0
  · rw [if_pos hneg]
    exact .inr (.inl ⟨fun h => h.1 hneg, .inl hneg, _, rfl⟩)
  rw [if_neg hneg]
  cases hq : d.quantize (-6) Decimal.roundHalfEven with
  | none => exact .inl ⟨⟨hneg, hq⟩, rfl⟩
  | some quantized =>
    have hfit : ¬ Oversized d := fun h => by cases hq.symm.trans h.2
    by_cases hm : ∃ n, IsMicros d n
    · obtain ⟨n, hn⟩ := hm
      have heq : quantized = ⟨n, -6⟩ := by
        rw [Decimal.quantize_exact hn] at hq
        split at hq <;> cases hq
        rfl
      have hsame : (d != quantized) = false := by
        rw [bne, Bool.not_eq_false', Decimal.beq_iff, heq]
        exact hn
      refine .inr (.inr ⟨hfit, ?_, ?_⟩)
      · rintro (h | h)
        · exact hneg h
        · exact h ⟨n, hn⟩
      · simp only [hsame, Bool.false_eq_true, if_false]
    · have hfine : (d != quantized) = true := by
        rw [bne, Bool.not_eq_true', Bool.eq_false_iff]
        intro h
        obtain ⟨c, -, rfl⟩ := Decimal.quantize_some hq
        exact hm ⟨c, (Decimal.beq_iff _ _).mp h⟩
      refine .inr (.inl ⟨hfit, .inr hm, name ++ " must have at most 6 decimal places", ?_⟩)
      simp only [hfine, if_true]

/-- A command whose checks end as they should: none of its amounts is too large to be
looked at before a bad one is reported. -/
def BalanceTopUp.Reportable (command : BalanceTopUp) : Prop :=
  BadAmount command.paidUsd ∨ BadAmount command.bonusUsd →
    ¬ Oversized command.paidUsd ∧ (¬ BadAmount command.paidUsd → ¬ Oversized command.bonusUsd)

/-- A command that passes the checks. -/
structure BalanceTopUp.Valid (command : BalanceTopUp) : Prop where
  paidUsd : ¬ Oversized command.paidUsd ∧ ¬ BadAmount command.paidUsd
  bonusUsd : ¬ Oversized command.bonusUsd ∧ ¬ BadAmount command.bonusUsd
  freeRequests : 0 ≤ command.freeRequests

/-- Bad amounts are reported as invalid input. -/
def Reports (command : BalanceTopUp) (r : Except Exn Unit) : Prop :=
  BadAmount command.paidUsd ∨ BadAmount command.bonusUsd → ∃ message, r = .error (.invalidInput message)

/-- **The checks of a command.** -/
theorem validateTopUp_cases (command : BalanceTopUp) :
    (command.Valid ∧ validateTopUp command = .ok ()) ∨
      ¬ command.Valid ∧ ∃ e, validateTopUp command = .error e ∧
        (Reports command (.error e) ↔ command.Reportable) := by
  have bind_error : ∀ {x : Except Exn Unit} {f : Unit → Except Exn Unit} {e : Exn}, x = .error e →
      (x >>= f) = .error e := fun h => by rw [h]; rfl
  have bind_ok : ∀ {x : Except Exn Unit} {f : Unit → Except Exn Unit}, x = .ok () → (x >>= f) = f () := fun h => by
    rw [h]; rfl
  unfold validateTopUp
  rcases validateAmount_cases "paid_usd" command.paidUsd with ⟨ho, he⟩ | ⟨ho, hb, message, he⟩ | ⟨ho, hb, he⟩
  · refine .inr ⟨fun hv => hv.paidUsd.1 ho, _, bind_error he, fun h hbad => ?_, fun h hbad => absurd ho (h hbad).1⟩
    obtain ⟨message, hm⟩ := h hbad
    cases hm
  · exact .inr ⟨fun hv => hv.paidUsd.2 hb, _, bind_error he, fun _ _ => ⟨ho, fun hn => absurd hb hn⟩,
      fun _ _ => ⟨message, rfl⟩⟩
  rw [bind_ok he]
  rcases validateAmount_cases "bonus_usd" command.bonusUsd with ⟨ho', he⟩ | ⟨ho', hb', message, he⟩ | ⟨ho', hb', he⟩
  · refine .inr ⟨fun hv => hv.bonusUsd.1 ho', _, bind_error he, fun h hbad => ?_,
      fun h hbad => absurd ho' ((h hbad).2 hb)⟩
    obtain ⟨message, hm⟩ := h hbad
    cases hm
  · exact .inr ⟨fun hv => hv.bonusUsd.2 hb', _, bind_error he, fun _ _ => ⟨ho, fun _ => ho'⟩, fun _ _ => ⟨message, rfl⟩⟩
  rw [bind_ok he]
  by_cases hf : command.freeRequests < 0
  · rw [if_pos hf]
    refine .inr ⟨fun hv => not_lt.mpr hv.freeRequests hf, _, rfl, fun _ _ => ⟨ho, fun _ => ho'⟩, fun _ _ => ⟨_, rfl⟩⟩
  · rw [if_neg hf]
    exact .inl ⟨⟨⟨ho, hb⟩, ⟨ho', hb'⟩, not_lt.mp hf⟩, rfl⟩

/-! ## The call -/

/-- `apply_top_up` on its own: its request is executed and answered. -/
def applyTopUp (cfg : Config) (fresh : Token) (command : BalanceTopUp) (ρ : Redis) : TopUpPc × Redis :=
  let pc := TopUpPc.start cfg command
  match pc.action with
  | .call c =>
    match exec [] ρ c with
    | some (r, ρ') => (pc.resume cfg fresh (.reply r), ρ')
    | none => (pc, ρ)
  | _ => (pc, ρ)

/-- The command is credited: its amounts and no others are added, the version grows by
one, the marker is set and the user is dirty. -/
structure Credited (command : BalanceTopUp) (ρ ρ' : Redis) : Prop where
  amounts : ∃ b c, ρ.bal.get command.userId = some b ∧ ρ'.bal.get command.userId = some c ∧
    (c.paidUsd : ℚ) * (10 : ℚ) ^ (-6 : ℤ) = b.paidUsd * (10 : ℚ) ^ (-6 : ℤ) + command.paidUsd.toRat ∧
    (c.bonusUsd : ℚ) * (10 : ℚ) ^ (-6 : ℤ) = b.bonusUsd * (10 : ℚ) ^ (-6 : ℤ) + command.bonusUsd.toRat ∧
    c.freeRequests = b.freeRequests + command.freeRequests ∧ c.freeUsd = b.freeUsd ∧ c.version = b.version + 1
  marked : (ρ'.topup.get command.operationId).isSome
  dirty : command.userId ∈ ρ'.dirty

/-- Nothing of the user's is changed. -/
structure Untouched (command : BalanceTopUp) (ρ ρ' : Redis) : Prop where
  balance : ρ'.bal.get command.userId = ρ.bal.get command.userId
  marker : ρ'.topup.get command.operationId = ρ.topup.get command.operationId
  dirty : ρ'.dirty = ρ.dirty

/-- The call returns and the command is credited, or it raises and nothing is
changed; and bad amounts are reported as invalid input. -/
structure AllOrNothing (command : BalanceTopUp) (ρ : Redis) (r : Except Exn Unit) (ρ' : Redis) : Prop where
  credited : r = .ok () → Credited command ρ ρ'
  untouched : ∀ e, r = .error e → Untouched command ρ ρ'
  reports : Reports command r

/-- The increments of a command in micro-dollars. -/
def BalanceTopUp.increments (command : BalanceTopUp) : List (Field × ℤ) :=
  [(.paidUsd, command.paidUsd.units (-6)), (.bonusUsd, command.bonusUsd.units (-6)),
    (.freeRequests, command.freeRequests), (.version, 1)]

/-- All increments can be made, or the ones before the first that cannot add nothing. -/
def BalanceTopUp.Whole (command : BalanceTopUp) (b : Balance) : Prop :=
  (∀ e ∈ command.increments, b.takes e = true) ∨ ∀ e ∈ command.increments.takeWhile b.takes, e.2 = 0

/-- A command that passes the checks is not sent when there is no round, or when its
number of requests is too long for `str`. -/
def BalanceTopUp.Unsent (cfg : Config) (command : BalanceTopUp) : Prop :=
  cfg.reserveMaxAttempts = 0 ∨ tooManyDigits command.freeRequests = true

theorem TopUpPc.start_valid (cfg : Config) {command : BalanceTopUp} (h : validateTopUp command = .ok ()) :
    (command.Unsent cfg ∧ ∃ e, TopUpPc.start cfg command = .raised e) ∨
      ¬ command.Unsent cfg ∧ ∃ t k, t.command = command ∧ TopUpPc.start cfg command = .calling t 1 k := by
  unfold TopUpPc.start
  split
  · next he => cases h.symm.trans he
  · next hk => exact .inl ⟨.inl hk, _, rfl⟩
  next k hok hk =>
  rcases makeTopUp_cases hok with ⟨hd, hm⟩ | ⟨hd, t, hm⟩
  · simp only [hm]
    exact .inl ⟨.inr hd, _, rfl⟩
  · simp only [hm]
    refine .inr ⟨fun hu => ?_, t, k, makeTopUp_ok hm, rfl⟩
    rcases hu with h0 | hd'
    · cases hk.symm.trans h0
    · cases hd.symm.trans hd'

theorem TopUp.increments (t : TopUp) : t.args.increments = t.command.increments := by
  have hp : t.command.paidUsd.units (-6) = t.args.paidUsd := IsMicros.units t.of.paidUsd
  have hb : t.command.bonusUsd.units (-6) = t.args.bonusUsd := IsMicros.units t.of.bonusUsd
  simp only [TopUpArgs.increments, BalanceTopUp.increments, hp, hb, t.of.freeRequests]

/-- What all increments of a command make. -/
theorem TopUp.credited (t : TopUp) {ρ : Redis} {b : Balance} (hb : ρ.bal.get t.args.userId = some b)
    (hall : (b.incrs t.args.increments).2 = true) :
    Credited t.command ρ ((ρ.credited t.args.userId (b.incrs t.args.increments).1).marked t.args.operationId
      t.args.userId) := by
  have hmade : Balance.Made b b t.args.increments (b.incrs t.args.increments) :=
    Balance.made t.args.increments_nodup fun _ _ => rfl
  rw [hmade.all] at hall
  have hwhile : t.args.increments.takeWhile b.takes = t.args.increments :=
    List.takeWhile_eq_self_iff.mpr (List.all_eq_true.mp hall)
  have htaken := hmade.taken
  have hfree := hmade.others .freeUsd
  rw [hwhile] at htaken hfree
  generalize (b.incrs t.args.increments).1 = c at htaken hfree ⊢
  have hp : c.paidUsd = b.paidUsd + t.args.paidUsd :=
    htaken (.paidUsd, t.args.paidUsd) (by simp [TopUpArgs.increments])
  have hbonus : c.bonusUsd = b.bonusUsd + t.args.bonusUsd :=
    htaken (.bonusUsd, t.args.bonusUsd) (by simp [TopUpArgs.increments])
  have hreq : c.freeRequests = b.freeRequests + t.args.freeRequests :=
    htaken (.freeRequests, t.args.freeRequests) (by simp [TopUpArgs.increments])
  have hversion : c.version = b.version + 1 := htaken (.version, 1) (by simp [TopUpArgs.increments])
  have hfree : c.freeUsd = b.freeUsd := hfree (by simp [TopUpArgs.increments])
  have hu := t.of.userId
  refine ⟨⟨b, c, hu ▸ hb, ?_, ?_, ?_, by rw [hreq, t.of.freeRequests], hfree, hversion⟩, ?_, ?_⟩
  · rw [← hu]
    exact Table.get_set_self ..
  · rw [hp, t.of.paidUsd]
    push_cast
    ring
  · rw [hbonus, t.of.bonusUsd]
    push_cast
    ring
  · rw [← t.of.operationId]
    simp [Redis.marked]
  · rw [← hu]
    exact Finset.mem_insert_self ..

section Calls

variable {cfg : Config} {command : BalanceTopUp} {t : TopUp} {ρ : Redis} {b : Balance}

/-- A command that is refused changes nothing. -/
theorem applyTopUp_refused (fresh : Token) {e : Exn} (h : validateTopUp command = .error e) :
    applyTopUp cfg fresh command ρ = (.ended (.error e), ρ) := by
  have hstart : TopUpPc.start cfg command = .ended (.error e) := by
    unfold TopUpPc.start
    split
    · next he => cases h.symm.trans he; rfl
    · next hok _ => cases h.symm.trans hok
    · next hok _ => cases h.symm.trans hok
  simp only [applyTopUp, hstart, TopUpPc.action]

/-- What a command that is sent does to a hot balance. -/
theorem applyTopUp_hot (fresh : Token) {k : ℕ} (ht : TopUpPc.start cfg command = .calling t 1 k)
    (hb : ρ.bal.get t.args.userId = some b) (hm : ρ.topup.get t.args.operationId = none) :
    applyTopUp cfg fresh command ρ =
      if (b.incrs t.args.increments).2 then
        (.ended (.ok ()),
          (ρ.credited t.args.userId (b.incrs t.args.increments).1).marked t.args.operationId t.args.userId)
      else (.ended (.error .response), ρ.putBalance t.args.userId (b.incrs t.args.increments).1) := by
  simp only [applyTopUp, ht, TopUpPc.action, exec, topUp_hot hm hb]
  split <;> rfl

end Calls

/-- **A top-up is all or nothing, and reports its input, exactly** when no amount is
too large to be looked at before a bad one is reported, and a valid command is not sent
at all, or all its increments can be made, or the ones before the first that cannot add
nothing. -/
theorem top_up_all_or_nothing (cfg : Config) (fresh : Token) (command : BalanceTopUp) {ρ : Redis} {b : Balance}
    (hb : ρ.bal.get command.userId = some b) (hm : ρ.topup.get command.operationId = none) :
    ∃ r ρ', applyTopUp cfg fresh command ρ = (.ended r, ρ') ∧
      (AllOrNothing command ρ r ρ' ↔
        command.Reportable ∧ (command.Valid → command.Unsent cfg ∨ command.Whole b)) := by
  rcases validateTopUp_cases command with ⟨hvalid, hok⟩ | ⟨hinvalid, e, he, hrep⟩
  · have hgood : ¬ (BadAmount command.paidUsd ∨ BadAmount command.bonusUsd) := by
      rintro (h | h)
      · exact hvalid.paidUsd.2 h
      · exact hvalid.bonusUsd.2 h
    have hreportable : command.Reportable := fun hbad => absurd hbad hgood
    rcases TopUpPc.start_valid cfg hok with ⟨hunsent, e, hstart⟩ | ⟨hsent, t, k, rfl, hstart⟩
    · have happly : applyTopUp cfg fresh command ρ = (.ended (.error e), ρ) := by
        rw [applyTopUp, hstart]
        rfl
      refine ⟨_, _, happly, fun _ => ⟨hreportable, fun _ => .inl hunsent⟩, fun _ => ?_⟩
      exact ⟨nofun, fun _ _ => ⟨rfl, rfl, rfl⟩, fun hbad => absurd hbad hgood⟩
    rw [← t.of.userId] at hb
    rw [← t.of.operationId] at hm
    have hcall := applyTopUp_hot fresh hstart hb hm
    have hall : (b.incrs t.args.increments).2 = t.args.increments.all b.takes :=
      (Balance.made t.args.increments_nodup fun _ _ => rfl).all
    have hself := Balance.incrs_eq_self (b := b) t.args.increments_nodup
    rw [t.increments] at hcall hall hself
    cases hmade : (b.incrs t.command.increments).2 with
    | true =>
      rw [hmade, if_pos rfl, ← t.increments] at hcall
      rw [hmade] at hall
      refine ⟨_, _, hcall, fun _ => ?_, fun _ => ?_⟩
      · exact ⟨hreportable, fun _ => .inr (.inl (List.all_eq_true.mp hall.symm))⟩
      · rw [← t.increments] at hmade
        exact ⟨fun _ => t.credited hb hmade, nofun, fun hbad => absurd hbad hgood⟩
    | false =>
      rw [hmade, if_neg Bool.false_ne_true] at hcall
      rw [hmade] at hall
      refine ⟨_, _, hcall, fun h => ?_, fun h => ?_⟩
      · have hbal := (h.untouched _ rfl).balance
        rw [← t.of.userId, hb, Redis.putBalance_get, Option.some.injEq] at hbal
        exact ⟨hreportable, fun _ => .inr (.inr (hself.mp hbal))⟩
      · refine ⟨nofun, fun _ _ => ⟨?_, rfl, rfl⟩, fun hbad => absurd hbad hgood⟩
        have hzero : (b.incrs t.command.increments).1 = b := by
          rcases h.2 hvalid with hunsent | hfit | hzero
          · exact absurd hunsent hsent
          · rw [List.all_eq_true.mpr hfit] at hall
            cases hall
          · exact hself.mpr hzero
        rw [← t.of.userId, Redis.putBalance_get, hzero, hb]
  · refine ⟨_, _, applyTopUp_refused fresh he, fun h => ⟨hrep.mp h.reports, fun hv => absurd hv hinvalid⟩, fun h => ?_⟩
    exact ⟨nofun, fun _ _ => ⟨rfl, rfl, rfl⟩, hrep.mpr h.1⟩

/-- A store in which only user 1 has a balance, of one paid dollar. -/
def hotDollar : Redis := { Redis.empty with bal := Table.empty.set 1 oneDollar }

/-- A dollar, and a bonus of more micro-dollars than 64 bits hold. -/
def hugeBonus : BalanceTopUp where
  operationId := 9
  userId := 1
  paidUsd := ⟨1, 0⟩
  bonusUsd := ⟨9223372036855, 0⟩

/-- Half a dollar is credited as a whole. -/
theorem top_up_all_or_nothing_half_dollar :
    ∃ r ρ', applyTopUp {} ⟨1, 0⟩ ⟨9, 1, ⟨5, -1⟩, ⟨0, 0⟩, 0⟩ hotDollar = (.ended r, ρ') ∧
      AllOrNothing ⟨9, 1, ⟨5, -1⟩, ⟨0, 0⟩, 0⟩ hotDollar r ρ' := by
  obtain ⟨r, ρ', happly, hiff⟩ := top_up_all_or_nothing {} ⟨1, 0⟩ ⟨9, 1, ⟨5, -1⟩, ⟨0, 0⟩, 0⟩ (ρ := hotDollar)
    (b := oneDollar) (by decide) (by decide)
  refine ⟨r, ρ', happly, hiff.mpr ⟨fun hbad => absurd hbad ?_, fun _ => .inr (.inl (by decide +kernel))⟩⟩
  rintro (⟨hneg | hfine⟩ | ⟨hneg | hfine⟩)
  · exact absurd hneg (by decide)
  · exact hfine ⟨500000, by norm_num [IsMicros, Decimal.toRat]⟩
  · exact absurd hneg (by decide)
  · exact hfine ⟨0, isMicros_zero⟩

/-- The dollar is credited and the call raises. -/
theorem top_up_half_made :
    ¬ ∀ (cfg : Config) (fresh : Token) (command : BalanceTopUp) (ρ : Redis) (b : Balance),
      ρ.bal.get command.userId = some b → ρ.topup.get command.operationId = none →
      ∃ r ρ', applyTopUp cfg fresh command ρ = (.ended r, ρ') ∧ AllOrNothing command ρ r ρ' := by
  intro h
  obtain ⟨r, ρ', happly, hwhole⟩ := h {} ⟨1, 0⟩ hugeBonus hotDollar oneDollar (by decide) (by decide)
  have hended : (applyTopUp {} ⟨1, 0⟩ hugeBonus hotDollar).1 = .ended (.error .response) := rfl
  have hbal : (applyTopUp {} ⟨1, 0⟩ hugeBonus hotDollar).2.bal.get 1 ≠ hotDollar.bal.get 1 := by decide +kernel
  rw [happly] at hended hbal
  cases hended
  exact hbal (hwhole.untouched _ rfl).balance

end GenerationBalance
