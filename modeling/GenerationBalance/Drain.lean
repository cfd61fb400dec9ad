/-
The reaper on its own (`backend/app/billing/reaper.py`): one `reap_once` takes the
oldest stale entries off the index, fails the running records among them and
returns their plans; so enough calls leave no stale entry.

What reaping a list of ids leaves is said once, in terms of the store before it
(`Reaped`): one id is a refund or a removal, a batch is the ids one after the
other, and so are several batches.
-/
import GenerationBalance.Additive
import GenerationBalance.Reaping
import GenerationBalance.Solo

namespace GenerationBalance

/-! ## What reaping ids leaves -/

/-- The id has a running record. -/
def Redis.running (ρ : Redis) (id : RequestId) : Bool := (ρ.gen.get id).any fun r => r.status = .running

/-- A record after the reaper has looked at it. -/
def GenerationHash.reaped (r : GenerationHash) : GenerationHash :=
  if r.status = .running then { r with status := .failed, error := some REAPED_ERROR } else r

/-- What reaping an id adds to a field of a user's balance: the plan of its record, when that
is the user's and running, and one version. -/
def Redis.refundOf (ρ : Redis) (u : UserId) (f : Field) (id : RequestId) : ℤ :=
  match ρ.gen.get id with
  | some r => if r.status = .running ∧ r.userId = u then r.plan.field f + (if f = .version then 1 else 0) else 0
  | none => 0

/-- What reaping ids adds to a field of a user's balance. -/
def Redis.refundsOf (ρ : Redis) (u : UserId) (f : Field) (ids : List RequestId) : ℤ :=
  (ids.map (ρ.refundOf u f)).sum

/-- The ids have left the index, the running records among them have failed and their plans
are back, and nothing else is changed. -/
structure Reaped (ρ : Redis) (ids : List RequestId) (ρ' : Redis) : Prop where
  inflight : ∀ id, ρ'.inflight.get id = if id ∈ ids then none else ρ.inflight.get id
  gen : ∀ id, ρ'.gen.get id = if id ∈ ids then (ρ.gen.get id).map GenerationHash.reaped else ρ.gen.get id
  cold : ∀ u, ρ.bal.get u = none → ρ'.bal.get u = none
  hot : ∀ u b, ρ.bal.get u = some b → ∃ b', ρ'.bal.get u = some b' ∧ ∀ f, b'.get f = b.get f + ρ.refundsOf u f ids
  dirty : ∀ u, u ∈ ρ'.dirty ↔
    u ∈ ρ.dirty ∨ ∃ id ∈ ids, ∃ r, ρ.gen.get id = some r ∧ r.status = .running ∧ r.userId = u
  topup : ρ'.topup = ρ.topup
  loadLock : ρ'.loadLock = ρ.loadLock

/-- The balances of the running records' users are hot, and take the plans in this order. -/
structure Reapable (ρ : Redis) (ids : List RequestId) : Prop where
  hot : ∀ id ∈ ids, ∀ r, ρ.gen.get id = some r → r.status = .running → (ρ.bal.get r.userId).isSome
  plans : ∀ id ∈ ids, ∀ r, ρ.gen.get id = some r → r.status = .running → ∀ f, InRange (r.plan.field f)
  sums : ∀ id ∈ ids, ∀ r, ρ.gen.get id = some r → r.status = .running → ∀ b, ρ.bal.get r.userId = some b →
    ∀ part, part <+: ids → ∀ f, InRange (b.get f + ρ.refundsOf r.userId f part)

section Reaped

variable {ρ ρ₁ ρ₂ : Redis} {ids rest : List RequestId} {id : RequestId}

theorem Redis.running_iff : ρ.running id = true ↔ ∃ r, ρ.gen.get id = some r ∧ r.status = .running := by
  unfold Redis.running
  cases ρ.gen.get id <;> simp

@[simp] theorem Redis.refundsOf_nil (ρ : Redis) (u : UserId) (f : Field) : ρ.refundsOf u f [] = 0 := rfl

theorem Redis.refundsOf_append (ρ : Redis) (u : UserId) (f : Field) (ids rest : List RequestId) :
    ρ.refundsOf u f (ids ++ rest) = ρ.refundsOf u f ids + ρ.refundsOf u f rest := by
  simp [Redis.refundsOf]

theorem Redis.refundOf_of_not (h : ρ.running id = false) (u : UserId) (f : Field) : ρ.refundOf u f id = 0 := by
  unfold Redis.refundOf
  unfold Redis.running at h
  cases hg : ρ.gen.get id with
  | none => rfl
  | some r =>
    simp only [hg, Option.any_some, decide_eq_false_iff_not] at h
    simp [h]

/-- Reaping ids leaves the records of the others. -/
theorem Reaped.gen_of_not_mem (h : Reaped ρ ids ρ₁) (hid : id ∉ ids) : ρ₁.gen.get id = ρ.gen.get id := by
  rw [h.gen, if_neg hid]

theorem Reaped.refundsOf (h : Reaped ρ ids ρ₁) {part : List RequestId} (hd : ∀ id ∈ part, id ∉ ids) (u : UserId)
    (f : Field) : ρ₁.refundsOf u f part = ρ.refundsOf u f part := by
  unfold Redis.refundsOf
  congr 1
  refine List.map_congr_left fun id hid => ?_
  simp only [Redis.refundOf, h.gen_of_not_mem (hd id hid)]

theorem Reaped.running (h : Reaped ρ ids ρ₁) (hid : id ∉ ids) : ρ₁.running id = ρ.running id := by
  simp only [Redis.running, h.gen_of_not_mem hid]

theorem Reaped.refl (ρ : Redis) : Reaped ρ [] ρ :=
  ⟨fun _ => by simp, fun _ => by simp, fun _ h => h, fun u b h => ⟨b, h, by simp⟩, fun _ => by simp, rfl, rfl⟩

/-- **Batches in turn.** -/
theorem Reaped.append (h₁ : Reaped ρ ids ρ₁) (h₂ : Reaped ρ₁ rest ρ₂) (hd : ∀ id ∈ rest, id ∉ ids) :
    Reaped ρ (ids ++ rest) ρ₂ := by
  refine ⟨fun id => ?_, fun id => ?_, fun u hu => h₂.cold u (h₁.cold u hu), fun u b hu => ?_, fun u => ?_,
    h₂.topup.trans h₁.topup, h₂.loadLock.trans h₁.loadLock⟩
  · rw [h₂.inflight, h₁.inflight]
    by_cases hr : id ∈ rest <;> simp [hr]
  · rw [h₂.gen]
    by_cases hr : id ∈ rest
    · rw [if_pos hr, h₁.gen_of_not_mem (hd id hr), if_pos (List.mem_append_right _ hr)]
    · rw [if_neg hr, h₁.gen]
      simp [hr]
  · obtain ⟨b₁, hb₁, hget₁⟩ := h₁.hot u b hu
    obtain ⟨b₂, hb₂, hget₂⟩ := h₂.hot u b₁ hb₁
    refine ⟨b₂, hb₂, fun f => ?_⟩
    rw [hget₂, hget₁, h₁.refundsOf hd, Redis.refundsOf_append, add_assoc]
  · rw [h₂.dirty, h₁.dirty, or_assoc]
    refine or_congr_right ?_
    constructor
    · rintro (⟨id, hid, h⟩ | ⟨id, hid, r, hg, h⟩)
      · exact ⟨id, List.mem_append_left _ hid, h⟩
      · rw [h₁.gen_of_not_mem (hd id hid)] at hg
        exact ⟨id, List.mem_append_right _ hid, r, hg, h⟩
    · rintro ⟨id, hid, r, hg, h⟩
      rcases List.mem_append.mp hid with hid | hid
      · exact .inl ⟨id, hid, r, hg, h⟩
      · exact .inr ⟨id, hid, r, by rw [h₁.gen_of_not_mem (hd id hid), hg], h⟩

theorem Reapable.prefix (h : Reapable ρ (ids ++ rest)) : Reapable ρ ids :=
  ⟨fun id hid => h.hot id (List.mem_append_left _ hid), fun id hid => h.plans id (List.mem_append_left _ hid),
    fun id hid r hg hr b hb part hp =>
      h.sums id (List.mem_append_left _ hid) r hg hr b hb part (hp.trans (List.prefix_append _ _))⟩

/-- What is left can be reaped after a batch when all could before it. -/
theorem Reapable.suffix (h : Reapable ρ (ids ++ rest)) (h₁ : Reaped ρ ids ρ₁) (hd : ∀ id ∈ rest, id ∉ ids) :
    Reapable ρ₁ rest := by
  have old : ∀ {id r}, id ∈ rest → ρ₁.gen.get id = some r → ρ.gen.get id = some r := by
    intro id r hid hg
    rw [← hg, h₁.gen_of_not_mem (hd id hid)]
  refine ⟨fun id hid r hg hr => ?_, fun id hid r hg hr => ?_, fun id hid r hg hr b₁ hb₁ part hpart f => ?_⟩
  · obtain ⟨b, hb⟩ := Option.isSome_iff_exists.mp (h.hot id (List.mem_append_right _ hid) r (old hid hg) hr)
    obtain ⟨b', hb', -⟩ := h₁.hot _ b hb
    rw [hb']
    rfl
  · exact h.plans id (List.mem_append_right _ hid) r (old hid hg) hr
  · cases hb : ρ.bal.get r.userId with
    | none =>
      have := h₁.cold _ hb
      rw [hb₁] at this
      cases this
    | some b =>
      obtain ⟨b', hb', hget⟩ := h₁.hot _ b hb
      cases hb₁.symm.trans hb'
      have := h.sums id (List.mem_append_right _ hid) r (old hid hg) hr b hb (ids ++ part)
        (by simpa using hpart) f
      rwa [hget, h₁.refundsOf fun id hid => hd id (hpart.subset hid), add_assoc, ← Redis.refundsOf_append]

/-! ## One id -/

/-- An id without a running record is forgotten. -/
theorem reaped_forget (h : ρ.running id = false) : Reaped ρ [id] { ρ with inflight := ρ.inflight.del id } := by
  refine ⟨fun k => ?_, fun k => ?_, fun _ h => h, fun u b hb => ⟨b, hb, fun f => ?_⟩, fun u => ?_, rfl, rfl⟩
  · simp only [Table.get_del, List.mem_singleton]
  · by_cases hk : k = id
    · subst hk
      rw [if_pos (List.mem_singleton_self k)]
      cases hg : ρ.gen.get k with
      | none => rfl
      | some r =>
        have hr : ¬ r.status = .running := fun hr => by
          rw [Redis.running_iff.mpr ⟨r, hg, hr⟩] at h
          cases h
        simp only [Option.map_some, GenerationHash.reaped, if_neg hr]
    · rw [if_neg (by simpa using hk)]
  · simp [Redis.refundsOf, Redis.refundOf_of_not h]
  · refine (or_iff_left ?_).symm
    rintro ⟨k, hk, r, hg, hr, -⟩
    rw [List.mem_singleton] at hk
    rw [← hk, Redis.running_iff.mpr ⟨r, hg, hr⟩] at h
    cases h

/-- What the reaper sends for a running record. -/
def reapArgs (id : RequestId) (r : GenerationHash) : RefundArgs := ⟨r.userId, REAPED_ERROR, id, r.plan⟩

theorem sumAt_increments (a : RefundArgs) (f : Field) :
    sumAt a.increments f = a.plan.field f + if f = .version then 1 else 0 := by
  cases f <;> simp [sumAt, RefundArgs.increments, DebitPlan.field]

theorem refundsOf_one {r : GenerationHash} (hg : ρ.gen.get id = some r) (hr : r.status = .running) (f : Field) :
    ρ.refundsOf r.userId f [id] = sumAt (reapArgs id r).increments f := by
  rw [sumAt_increments]
  simp [Redis.refundsOf, Redis.refundOf, hg, hr, reapArgs]

/-- Redis takes all increments of a refund whose sums are in range. -/
theorem Reapable.taken {r : GenerationHash} (h : Reapable ρ [id]) (hg : ρ.gen.get id = some r)
    (hr : r.status = .running) {b : Balance} (hb : ρ.bal.get r.userId = some b) :
    (b.incrs (reapArgs id r).increments).2 = true := by
  have hmem := List.mem_singleton_self id
  obtain ⟨hn, honce⟩ := Additive.increments_once (.refund (reapArgs id r))
  rw [(Balance.made hn fun _ _ => rfl : Balance.Made b b (reapArgs id r).increments _).all, List.all_eq_true]
  intro e he
  have hone : sumAt (reapArgs id r).increments e.1 = e.2 := honce e he
  have h0 := h.sums id hmem r hg hr b hb [] List.nil_prefix e.1
  have h1 := h.sums id hmem r hg hr b hb [id] (List.prefix_refl _) e.1
  rw [refundsOf_one hg hr, hone] at h1
  rw [Redis.refundsOf_nil, add_zero] at h0
  have h2 : InRange e.2 := by
    rw [← hone, sumAt_increments]
    have hplan := h.plans id hmem r hg hr e.1
    cases hf : e.1 <;> rw [hf] at hplan
    case version => exact (by decide : InRange 1)
    all_goals simpa [reapArgs] using hplan
  simp only [Balance.takes, decide_eq_true_eq]
  exact ⟨h0, h2, h1⟩

/-- A running record is refunded. -/
theorem reaped_refund {r : GenerationHash} (hg : ρ.gen.get id = some r) (hr : r.status = .running)
    (h : Reapable ρ [id]) :
    ∃ ρ', refund (reapArgs id r) ρ = (.ok .ok, ρ') ∧ Reaped ρ [id] ρ' := by
  have hmem := List.mem_singleton_self id
  obtain ⟨b, hb⟩ := Option.isSome_iff_exists.mp (h.hot id hmem r hg hr)
  have hall := h.taken hg hr hb
  refine ⟨_, by rw [refund_hot (a := reapArgs id r) hg hr hb, if_pos hall], ?_⟩
  refine ⟨fun k => ?_, fun k => ?_, fun u hu => ?_, fun u c hu => ?_, fun u => ?_, rfl, rfl⟩
  · show (ρ.inflight.del id).get k = _
    simp only [Table.get_del, List.mem_singleton]
  · show (ρ.gen.set id ((reapArgs id r).record r)).get k = _
    rw [Table.get_set]
    by_cases hk : k = id
    · subst hk
      rw [if_pos rfl, if_pos hmem, hg]
      simp [GenerationHash.reaped, hr, RefundArgs.record, reapArgs]
    · rw [if_neg hk, if_neg (by simpa using hk)]
  · show (ρ.bal.set r.userId _).get u = none
    have hne : u ≠ r.userId := fun he => by rw [he, hb] at hu; cases hu
    rw [Table.get_set_of_ne _ _ hne, hu]
  · show ∃ b', (ρ.bal.set r.userId _).get u = some b' ∧ _
    by_cases he : u = r.userId
    · subst he
      cases hb.symm.trans hu
      refine ⟨_, Table.get_set_self .., fun f => ?_⟩
      rw [Balance.incrs_get hall, refundsOf_one hg hr]
    · refine ⟨c, (Table.get_set_of_ne _ _ he).trans hu, fun f => ?_⟩
      simp [Redis.refundsOf, Redis.refundOf, hg, Ne.symm he]
  · show u ∈ insert r.userId ρ.dirty ↔ _
    rw [Finset.mem_insert]
    constructor
    · rintro (rfl | h)
      · exact .inr ⟨id, hmem, r, hg, hr, rfl⟩
      · exact .inl h
    · rintro (h | ⟨k, hk, r', hg', -, rfl⟩)
      · exact .inr h
      · cases List.mem_singleton.mp hk
        cases hg.symm.trans hg'
        exact .inl rfl

end Reaped

/-! ## One call -/

section Call

variable {cfg : Config} {Q : Proc → Redis → Rows → Prop} {ρ : Redis} {pg : Rows}

/-- The plan that is read back from a record is the one that is sent. -/
theorem refundArgs_record (id : RequestId) {r : GenerationHash} (h : ∀ f, InRange (r.plan.field f)) :
    ReapPc.refundArgs id (recordFromFields r) = .ok (reapArgs id r) := by
  have hfit : ∀ k, Fits (r.plan.bucket k) := fun k => by
    cases k
    · exact (h .freeUsd).fits
    · exact (h .bonusUsd).fits
    · exact (h .paidUsd).fits
  simp only [ReapPc.refundArgs, recordFromFields, planArgs_planFromMicros hfit]
  rfl

/-- **One id**: it is looked at, and refunded or forgotten. -/
theorem Solo.reading {id : RequestId} {todo : List RequestId} {k : ℕ} (hk : cfg.reserveMaxAttempts ≠ 0)
    (h : Reapable ρ [id])
    (hq : ∀ ρ', Reaped ρ [id] ρ' → Solo cfg Q (.reap (.next todo (k + if ρ.running id then 1 else 0))) ρ' pg) :
    Solo cfg Q (.reap (.reading id todo k)) ρ pg := by
  refine Solo.call (c := .getGeneration id) rfl ⟨[], rfl⟩ fun pick now fresh r ρ' he => ?_
  cases he
  have forget : ρ.running id = false → Solo cfg Q (.reap (.forgetting id todo k 1)) ρ pg := by
    intro hn
    refine Solo.call (c := .forgetInflight id) rfl ⟨[], rfl⟩ fun pick now fresh r ρ' he => ?_
    cases he
    have := hq _ (reaped_forget hn)
    rw [hn] at this
    exact this
  cases hg : ρ.gen.get id with
  | none =>
    refine forget ?_
    simp [Redis.running, hg]
  | some g =>
  by_cases hr : g.status = .running
  · have hrun : ρ.running id = true := Redis.running_iff.mpr ⟨g, hg, hr⟩
    obtain ⟨n, hn⟩ := Nat.exists_eq_succ_of_ne_zero hk
    have hargs := refundArgs_record id (h.plans id (List.mem_singleton_self id) g hg hr)
    have hstart : ReapPc.resume cfg fresh (.reading id todo k) (.reply (.record (some g))) =
        .refunding (reapArgs id g) (.calling 1 n) todo k := by
      simp only [ReapPc.resume, hr, ne_eq, not_true_eq_false, if_false, ReapPc.startRefund, hargs, hn, refundLoop,
        Next.elim]
    show Solo cfg Q (.reap (ReapPc.resume cfg fresh _ _)) ρ pg
    rw [hstart]
    obtain ⟨ρ₁, href, hreaped⟩ := reaped_refund hg hr h
    have hexec : ∀ pick, exec pick ρ (.refund (reapArgs id g)) = some (.refund .ok, ρ₁) := by
      intro pick
      simp only [exec, href, scriptReply]
    refine Solo.call (c := .refund (reapArgs id g)) rfl ⟨[], by rw [hexec]; rfl⟩ fun pick now fresh r ρ' he => ?_
    rw [hexec] at he
    cases he
    have := hq _ hreaped
    rw [hrun] at this
    exact this
  · have hstart : ReapPc.resume cfg fresh (.reading id todo k) (.reply (.record (some g))) =
        .forgetting id todo k 1 := by
      simp [ReapPc.resume, hr]
    show Solo cfg Q (.reap (ReapPc.resume cfg fresh _ _)) ρ pg
    rw [hstart]
    refine forget ?_
    simp [Redis.running, hg, hr]

/-- **The loop** over the listed ids. -/
theorem Solo.reapAll (hk : cfg.reserveMaxAttempts ≠ 0) : ∀ {ids : List RequestId} {k : ℕ} {ρ : Redis}, ids.Nodup →
    Reapable ρ ids → Solo cfg (fun st ρ' pg' => st = .reap (.ended (.ok (k + ids.countP ρ.running))) ∧
      Reaped ρ ids ρ' ∧ pg' = pg) (.reap (.next ids k)) ρ pg
  | [], k, ρ, _, _ => .now ⟨rfl, .refl ρ, rfl⟩
  | id :: ids, k, ρ, hn, h => by
    rw [List.nodup_cons] at hn
    have hd : ∀ x ∈ ids, x ∉ [id] := fun x hx he => hn.1 (List.mem_singleton.mp he ▸ hx)
    have h : Reapable ρ ([id] ++ ids) := h
    refine Solo.reading hk h.prefix fun ρ₁ h₁ => ?_
    refine (Solo.reapAll hk hn.2 (h.suffix h₁ hd)).mono fun st ρ₂ pg' h₂ => ?_
    have hcount : ids.countP ρ₁.running = ids.countP ρ.running := by
      refine List.countP_congr fun x hx => ?_
      rw [h₁.running (hd x hx)]
    refine ⟨?_, h₁.append h₂.2.1 hd, h₂.2.2⟩
    rw [h₂.1, hcount, List.countP_cons]
    congr 3
    omega

/-- The stale entries a call of the reaper takes. -/
def batch (cfg : Config) (now : ℚ) (ρ : Redis) : List RequestId :=
  (ρ.staleOrder (cfg.cutoff now)).take cfg.reapBatchSize

theorem Solo.reapOnce (hk : cfg.reserveMaxAttempts ≠ 0) (now : ℚ) (h : Reapable ρ (batch cfg now ρ)) :
    Solo cfg (fun st ρ' pg' => st = .reap (.ended (.ok ((batch cfg now ρ).countP ρ.running))) ∧
      Reaped ρ (batch cfg now ρ) ρ' ∧ pg' = pg) ((Job.reap now).start cfg) ρ pg := by
  refine Solo.call (c := .staleInflight (cfg.cutoff now) cfg.reapBatchSize) rfl ⟨[], rfl⟩
    fun pick t fresh r ρ' he => ?_
  cases he
  show Solo cfg _ (.reap (.next (batch cfg now ρ) 0)) ρ pg
  refine (Solo.reapAll hk ?_ h).mono fun st ρ' pg' h => ⟨?_, h.2⟩
  · exact ρ.staleInflight_nodup _ _
  · rw [h.1, zero_add]

end Call

/-! ## Calls in turn -/

section Calls

variable {cfg : Config} {ρ : Redis}

/-- Once the oldest are reaped, the stale entries are the others. -/
theorem StaleOrder.reaped {cutoff : ℚ} {stale : List RequestId} {m : ℕ} {ρ' : Redis} (hs : StaleOrder ρ cutoff stale)
    (h : Reaped ρ (stale.take m) ρ') : ρ'.staleOrder cutoff = stale.drop m := by
  have hn := hs.nodup
  rw [← List.take_append_drop m stale, List.nodup_append] at hn
  have hkept : ∀ id ∈ stale.drop m, ρ'.inflight.get id = ρ.inflight.get id := by
    intro id hid
    rw [h.inflight, if_neg fun ht => hn.2.2 id ht id hid rfl]
  refine StaleOrder.unique (ρ'.staleOrder_spec cutoff) ⟨fun id => ?_, ?_⟩
  · constructor
    · intro hid
      rw [hkept id hid]
      exact (hs.mem id).mp (List.mem_of_mem_drop hid)
    · rintro ⟨score, hscore, hle⟩
      rw [h.inflight] at hscore
      split at hscore
      · cases hscore
      · next hnot =>
        have hid : id ∈ stale.take m ++ stale.drop m := by
          rw [List.take_append_drop]
          exact (hs.mem id).mpr ⟨score, hscore, hle⟩
        exact (List.mem_append.mp hid).resolve_left hnot
  · refine List.Pairwise.imp_of_mem ?_ (hs.sorted.sublist (List.drop_sublist m stale))
    intro a b ha hb hlt
    rwa [hkept a ha, hkept b hb]

/-- No entry is stale, and no record that was indexed as stale is running. -/
structure NoneStale (cutoff : ℚ) (ρ ρ' : Redis) : Prop where
  index : ∀ id score, ρ'.inflight.get id = some score → cutoff < score
  records : ∀ id score, ρ.inflight.get id = some score → score ≤ cutoff → ρ'.running id = false

theorem Reaped.noneStale {cutoff : ℚ} {ρ' : Redis} (h : Reaped ρ (ρ.staleOrder cutoff) ρ') : NoneStale cutoff ρ ρ' where
  index id score hs := by
    rw [h.inflight] at hs
    split at hs
    · cases hs
    · next hnot =>
      by_contra hle
      exact hnot (((ρ.staleOrder_spec cutoff).mem id).mpr ⟨score, hs, not_lt.mp hle⟩)
  records id score hs hle := by
    have hid := ((ρ.staleOrder_spec cutoff).mem id).mpr ⟨score, hs, hle⟩
    rw [Redis.running, h.gen, if_pos hid]
    cases hg : ρ.gen.get id with
    | none => rfl
    | some r =>
      by_cases hr : r.status = .running <;> simp [GenerationHash.reaped, hr]

/-- **Enough calls**: what is not reaped yet fits into the batches to come. -/
theorem InTurn.reap {stale : List RequestId} {now : ℚ} (hk : cfg.reserveMaxAttempts ≠ 0) (pg : Rows)
    (hs : StaleOrder ρ (cfg.cutoff now) stale) (h : Reapable ρ stale) :
    ∀ {calls m : ℕ} {ρ' : Redis}, Reaped ρ (stale.take m) ρ' → stale.length ≤ m + calls * cfg.reapBatchSize →
      InTurn cfg (fun ρ' pg' => Reaped ρ stale ρ' ∧ pg' = pg) (List.replicate calls (.reap now)) ρ' pg
  | 0, m, ρ', hr, hle => by
    rw [List.take_of_length_le (by omega)] at hr
    exact ⟨hr, rfl⟩
  | calls + 1, m, ρ', hr, hle => by
    have hbatch : batch cfg now ρ' = (stale.drop m).take cfg.reapBatchSize := by
      rw [batch, hs.reaped hr]
    have hd : ∀ x ∈ stale.drop m, x ∉ stale.take m := by
      intro x hx ht
      have hn := hs.nodup
      rw [← List.take_append_drop m stale, List.nodup_append] at hn
      exact hn.2.2 x ht x hx rfl
    have hreapable : Reapable ρ' (batch cfg now ρ') := by
      have hleft : Reapable ρ' (stale.drop m) := Reapable.suffix (by rwa [List.take_append_drop]) hr hd
      rw [← List.take_append_drop cfg.reapBatchSize (stale.drop m)] at hleft
      rw [hbatch]
      exact hleft.prefix
    refine (Solo.reapOnce hk now hreapable).mono fun st ρ'' pg' hone => ?_
    obtain ⟨rfl, hreaped, rfl⟩ := hone
    refine ⟨trivial, InTurn.reap hk pg' hs h (m := m + cfg.reapBatchSize) ?_ ?_⟩
    · rw [List.take_add, ← hbatch]
      refine hr.append hreaped fun x hx => hd x ?_
      rw [hbatch] at hx
      exact List.mem_of_mem_take hx
    · rw [Nat.add_mul, Nat.one_mul] at hle
      omega

end Calls

/-- **The reaper drains the index.** One call reaps the first of the stale entries, in the order
of their scores, as many as a batch holds, and returns how many of them it refunded; and as many
calls as there are batches leave none, and no running record that was indexed as stale. -/
theorem reaper_drains {cfg : Config} (hk : cfg.reserveMaxAttempts ≠ 0) {now : ℚ} {ρ : Redis} {stale : List RequestId}
    (hs : StaleOrder ρ (cfg.cutoff now) stale) (pg : Rows) :
    (Reapable ρ (stale.take cfg.reapBatchSize) →
      Solo cfg (fun st ρ' pg' => st = .reap (.ended (.ok ((stale.take cfg.reapBatchSize).countP ρ.running))) ∧
        Reaped ρ (stale.take cfg.reapBatchSize) ρ' ∧ pg' = pg) ((Job.reap now).start cfg) ρ pg) ∧
      (cfg.reapBatchSize ≠ 0 → Reapable ρ stale →
        InTurn cfg (fun ρ' pg' => (Reaped ρ stale ρ' ∧ pg' = pg) ∧ NoneStale (cfg.cutoff now) ρ ρ')
          (List.replicate ((stale.length + cfg.reapBatchSize - 1) / cfg.reapBatchSize) (.reap now)) ρ pg) := by
  have hstale := (ρ.staleOrder_spec (cfg.cutoff now)).unique hs
  refine ⟨fun h => ?_, fun hB h => ?_⟩
  · have hbatch : batch cfg now ρ = stale.take cfg.reapBatchSize := by rw [batch, hstale]
    rw [← hbatch] at h ⊢
    exact Solo.reapOnce hk now h
  · have hcalls : stale.length ≤ (stale.length + cfg.reapBatchSize - 1) / cfg.reapBatchSize * cfg.reapBatchSize := by
      have := Nat.div_add_mod (stale.length + cfg.reapBatchSize - 1) cfg.reapBatchSize
      have := Nat.mod_lt (stale.length + cfg.reapBatchSize - 1) (Nat.pos_of_ne_zero hB)
      rw [Nat.mul_comm]
      omega
    refine (InTurn.reap hk pg hs h (m := 0) (.refl ρ) (by omega)).mono fun ρ' pg' hr => ⟨hr, ?_⟩
    refine Reaped.noneStale ?_
    rw [hstale]
    exact hr.1

/-- The stored reservation of a dollar is stale at 400, and can be reaped. -/
theorem reservedStore_stale (k : ℕ) :
    StaleOrder reservedStore (Config.cutoff { reserveMaxAttempts := k } 400) [7] ∧ Reapable reservedStore [7] := by
  have hrec : ∀ {id r}, reservedStore.gen.get id = some r → r.userId = 1 ∧ r.plan = ⟨0, 0, 1000000, 0⟩ := by
    intro id r hg
    simp only [reservedStore, Table.get_set, Table.get_empty] at hg
    split at hg
    · cases hg
      exact ⟨rfl, rfl⟩
    · cases hg
  refine ⟨?_, fun id hid r hg hr => ?_, fun id hid r hg hr f => ?_, fun id hid r hg hr b hb part hpart f => ?_⟩
  · have hcutoff : Double.round (400 - 300) = 100 := by decide +kernel
    have horder : reservedStore.staleOrder 100 = [7] := by decide +kernel
    rw [Config.cutoff, hcutoff, ← horder]
    exact reservedStore.staleOrder_spec 100
  · rw [(hrec hg).1]
    rfl
  · rw [(hrec hg).2]
    cases f <;> decide
  · rw [(hrec hg).1] at hb ⊢
    cases hb
    have hpart : part ∈ [7].inits := (List.mem_inits _ _).mpr hpart
    simp only [List.inits, List.map_cons, List.map_nil, List.mem_cons, List.not_mem_nil, or_false] at hpart
    rcases hpart with rfl | rfl <;> cases f <;> decide

/-- The stored reservation is reaped by one call, which returns 1. -/
theorem reaper_drains_reserved :
    Solo {} (fun st ρ' pg' => st = .reap (.ended (.ok 1)) ∧ Reaped reservedStore [7] ρ' ∧ pg' = .empty)
        ((Job.reap 400).start {}) reservedStore .empty ∧
      InTurn {} (fun ρ' pg' => (Reaped reservedStore [7] ρ' ∧ pg' = .empty) ∧ NoneStale (Config.cutoff {} 400) reservedStore ρ')
        [.reap 400] reservedStore .empty := by
  obtain ⟨hstale, hreap⟩ := reservedStore_stale 100
  have h := reaper_drains (show ({} : Config).reserveMaxAttempts ≠ 0 by decide) hstale .empty
  exact ⟨h.1 hreap, h.2 (by decide) hreap⟩

/-- Without an attempt the refunder raises, and the reaper with it. -/
theorem reaper_drains_no_attempt : ¬ ∀ (cfg : Config) (now : ℚ) (ρ : Redis) (stale : List RequestId) (pg : Rows),
    StaleOrder ρ (cfg.cutoff now) stale → Reapable ρ (stale.take cfg.reapBatchSize) →
      Solo cfg (fun st ρ' pg' => st = .reap (.ended (.ok ((stale.take cfg.reapBatchSize).countP ρ.running))) ∧
        Reaped ρ (stale.take cfg.reapBatchSize) ρ' ∧ pg' = pg) ((Job.reap now).start cfg) ρ pg := by
  intro hall
  obtain ⟨hstale, hreap⟩ := reservedStore_stale 0
  have hlisted : reservedStore.staleInflight (Config.cutoff { reserveMaxAttempts := 0 } 400) 100 = [7] := by
    decide +kernel
  obtain ⟨r, hr⟩ : ∃ r, reservedStore.gen.get 7 = some r := ⟨_, rfl⟩
  let cfg : Config := { reserveMaxAttempts := 0 }
  have hids : reservedStore.staleInflight (cfg.cutoff 400) 100 = [7] := hlisted
  let s₀ : System :=
    { System.start .empty with
      redis := reservedStore
      procs := Function.update (fun _ => .idle) 0 ((Job.reap 400).start cfg) }
  let s₁ := s₀.deliver cfg 0 0 (.reply (.ids [7]))
  let s₂ := s₁.deliver cfg 0 0 (.reply (.record (some r)))
  have ha₀ : (s₀.procs 0).action cfg = .call (.staleInflight (cfg.cutoff 400) 100) := rfl
  have hp₁ : s₁.procs 0 = .reap (.reading 7 [] 0) := rfl
  have ha₁ : (s₁.procs 0).action cfg = .call (.getGeneration 7) := rfl
  have h₁ : step cfg s₀ (.exec 0 [] 0) = some s₁ := by
    simp only [step, ha₀, exec, s₀, hids, Option.map_some]
    rfl
  have h₂ : step cfg s₁ (.exec 0 [] 0) = some s₂ := by
    have hg : s₁.redis.gen.get 7 = some r := hr
    simp only [step, ha₁, exec, hg, Option.map_some]
    rfl
  have hp₂ : s₂.procs 0 = .reap (.raised (.balanceContention "refund retries exhausted")) := by
    cases hr
    rfl
  have hlead := hall cfg 400 reservedStore [7] .empty hstale hreap 0 s₀ s₀ ⟨rfl, rfl, rfl, fun _ _ => rfl, rfl⟩
  replace hlead := hlead.after (by
    rintro ⟨st, ρ, pg, hat, rfl, -⟩
    cases hat.proc) (show Own 0 (.exec 0 [] 0) from rfl) h₁
  replace hlead := hlead.after (by
    rintro ⟨st, ρ, pg, hat, rfl, -⟩
    cases hp₁.symm.trans hat.proc) (show Own 0 (.exec 0 [] 0) from rfl) h₂
  obtain ⟨st, ρ, pg, hat, rfl, -⟩ := hlead.stuck fun l s' hl hs => by
    cases l with
    | exec q pick now =>
      cases hl
      simp [step, hp₂, Proc.action, ReapPc.action, ReapPc.raised] at hs
    | select q ok =>
      obtain ⟨rfl, -⟩ := hl
      simp [step, hp₂, Proc.action, ReapPc.action, ReapPc.raised] at hs
    | commit q fate =>
      obtain ⟨rfl, -⟩ := hl
      simp [step, hp₂, Proc.action, ReapPc.action, ReapPc.raised] at hs
    | _ => cases hl
  cases hp₂.symm.trans hat.proc

end GenerationBalance
