/-
What a lost balance key may cost. The reloaded balance is an older one: it may lack
the debit of a generation that is still running, and then a refund adds a plan that
was never taken from it. No more money appears when every row that is loaded, with
what is reserved at that time, is within what the user was ever given.
-/
import GenerationBalance.Copies
import GenerationBalance.Reach

namespace GenerationBalance

open Transition

/-! ## Amounts -/

/-- What may not be minted: dollars of any kind, or free requests. -/
inductive Purse where
  | usd | requests

def Purse.of : Purse → (Field → ℤ) → ℤ
  | .usd, x => x .freeUsd + x .bonusUsd + x .paidUsd
  | .requests, x => x .freeRequests

theorem Purse.of_mono (k : Purse) {x y : Field → ℤ} (h : ∀ f : Field, f.IsAmount → x f ≤ y f) : k.of x ≤ k.of y := by
  have hfree := h .freeUsd (fun h => by cases h)
  have hbonus := h .bonusUsd (fun h => by cases h)
  have hpaid := h .paidUsd (fun h => by cases h)
  have hreq := h .freeRequests (fun h => by cases h)
  cases k with
  | usd =>
    show _ + _ + _ ≤ _ + _ + _
    omega
  | requests => exact hreq

/-- What top-ups have added to a user's amount so far. -/
def toppedUp (cfg : Config) (tr : List (Trans System Label)) (u : UserId) (f : Field) : ℤ :=
  (tr.map fun t => topped cfg t u f).sum

theorem toppedUp_cons (cfg : Config) (t : Trans System Label) (tr : List (Trans System Label)) (u : UserId) (f : Field) :
    toppedUp cfg (t :: tr) u f = topped cfg t u f + toppedUp cfg tr u f := by
  simp [toppedUp]

/-- What a user was given: the initial row, and the top-ups. -/
def given (cfg : Config) (pg : Rows) (tr : List (Trans System Label)) (u : UserId) (f : Field) : ℤ :=
  (pg.copy u).get f + toppedUp cfg tr u f

/-! ## The invariant -/

/-- With all that running generations may give back, every balance is within what
its user was given. -/
def Covered (cfg : Config) (pg : Rows) (tr : List (Trans System Label)) (s : System) : Prop :=
  ∀ u b, s.redis.bal.get u = some b → ∀ k : Purse, k.of (s.redis.reach u) ≤ k.of (given cfg pg tr u)

/-- A row that the transition loads is, with what is reserved, within what its user
was given before. -/
def LoadsCovered (cfg : Config) (pg : Rows) (older : List (Trans System Label)) (t : Trans System Label) : Prop :=
  ∀ x u b, ran cfg t = some x → x.seeded = some (u, b) → ∀ k : Purse,
    k.of (fun f => b.get f + t.pre.redis.pending u f) ≤ k.of (given cfg pg older u)

/-- The check of `LoadsCovered` on a whole run. -/
def loadsCovered (cfg : Config) (pg : Rows) : List (Trans System Label) → Bool
  | [] => true
  | t :: older =>
    loadsCovered cfg pg older && ((ran cfg t).bind Ran.seeded).all fun x => [Purse.usd, .requests].all fun k =>
      decide (k.of (fun f => x.2.get f + t.pre.redis.pending x.1 f) ≤ k.of (given cfg pg older x.1))

theorem LoadsCovered.of_check {cfg : Config} {pg : Rows} {tr older : List (Trans System Label)}
    {t : Trans System Label} (h : loadsCovered cfg pg tr = true) (ht : t :: older <:+ tr) : LoadsCovered cfg pg older t := by
  induction tr with
  | nil => cases List.suffix_nil.mp ht
  | cons t' tr ih =>
    simp only [loadsCovered, Bool.and_eq_true, Option.all_eq_true, List.all_eq_true, decide_eq_true_eq] at h
    rcases List.suffix_cons_iff.mp ht with he | ht
    · cases he
      exact fun x u b hx hs k => h.2 (u, b) (by rw [hx]; exact hs) k (by cases k <;> simp)
    · exact ih h.1 ht

theorem Ran.topped_of_seeded {x : Ran} {y : UserId × Balance} (h : x.seeded = some y) (u : UserId) (f : Field) :
    x.topped u f = 0 := by
  unfold Ran.seeded at h
  split at h
  · rfl
  · cases h

section Step

variable {cfg : Config} {pg : Rows} {tr : List (Trans System Label)} {s s' : System} {l : Label}

/-- A balance that was absent was loaded, and nothing else changed. -/
theorem StepCase.loaded (h : StepCase cfg s l s') (hi : inRange cfg ⟨s, l, s'⟩ = true) {u : UserId} {c : Balance}
    (hn : s.redis.bal.get u = none) (hc : s'.redis.bal.get u = some c) :
    ∃ x, ran cfg ⟨s, l, s'⟩ = some x ∧ x.seeded = some (u, c) ∧ s'.redis.gen = s.redis.gen := by
  have old : ∀ {w : UserId} {b new : Balance}, s.redis.bal.get w = some b → s'.redis.bal = s.redis.bal.set w new →
      False := by
    intro w b new hb hset
    rw [hset, Table.get_set] at hc
    split at hc
    · next hw => rw [← hw, hn] at hb; cases hb
    · rw [hn] at hc; cases hc
  cases h.store with
  | same hnone he =>
    rw [he, hn] at hc
    cases hc
  | expired hnone he =>
    exfalso
    generalize s'.redis = ρ' at he hc
    cases he with
    | balance w =>
      have hc : (s.redis.bal.del w).get u = some c := hc
      rw [Table.get_del, hn, ite_self] at hc
      cases hc
    | _ => rw [hn] at hc; cases hc
  | @ran x pick hx hheld ha he =>
    have hok := callOk_of_ran hx hi he
    cases hok.balChange with
    | same hbal hd => rw [hbal, hn] at hc; cases hc
    | moved hm ho hf hset hd => exact (old ho hset).elim
    | advanced hcall hr ho hset hd => exact (old ho hset).elim
    | @seeded w b hcall hnone hset hd =>
      rw [hset, Table.get_set] at hc
      split at hc
      · next hw =>
        cases hc
        subst hw
        obtain ⟨owner, st, call, reply⟩ := x
        simp only at hcall hok
        subst hcall
        refine ⟨_, hx, ?_⟩
        generalize s'.redis = ρ' at hok
        cases hok with
        | seeded => exact ⟨rfl, rfl⟩
        | notSeeded hb => rw [hn] at hb; cases hb
      · rw [hn] at hc
        cases hc

/-- **One step keeps every balance covered**, if a row it loads is covered. -/
theorem StepCase.covered (h : StepCase cfg s l s') (hs : Covered cfg pg tr s) (hk : s.Kept fun _ => True)
    (hr : Recording cfg (fun _ => True) ⟨s, l, s'⟩) (hload : LoadsCovered cfg pg tr ⟨s, l, s'⟩) :
    Covered cfg pg (⟨s, l, s'⟩ :: tr) s' := by
  intro u c hc k
  cases hb : s.redis.bal.get u with
  | none =>
    obtain ⟨x, hx, hseed, hgen⟩ := h.loaded hr.inRange hb hc
    refine le_trans (k.of_mono fun f _ => ?_) ((hload x u c hx hseed k).trans (k.of_mono fun f _ => ?_))
    · unfold Redis.reach Redis.pending
      rw [Redis.hot_of_get hc, hgen]
    · have hnone : topped cfg ⟨s, l, s'⟩ u f = 0 := by
        unfold topped
        rw [hx]
        exact Ran.topped_of_seeded hseed u f
      unfold given
      rw [toppedUp_cons, hnone, zero_add]
  | some b =>
    have hadd : k.of (fun f => s.redis.reach u f + topped cfg ⟨s, l, s'⟩ u f) ≤
        k.of (given cfg pg (⟨s, l, s'⟩ :: tr) u) := by
      have hold := hs u b hb k
      unfold given at hold ⊢
      cases k <;> simp only [Purse.of, toppedUp_cons] at hold ⊢ <;> omega
    exact (k.of_mono fun f hf => h.reach hk hr hb hc hf).trans hadd

end Step

/-! ## Every run -/

/-- **Nothing is minted by the recovery.** Balance keys may be lost at any moment,
records and markers are kept, and sums stay in range: as long as every row that is
loaded, with the plans of the user's running generations, is within the initial row
and the top-ups so far, so is every hot balance. -/
theorem recovery_mints_nothing {cfg : Config} {pg : Rows} {tr : List (Trans System Label)} {s : System}
    (hr : Runs cfg (.start pg) tr s) (hl : ∀ t ∈ tr, inRange cfg t = true ∧ t.label.keepsRecords = true)
    (hload : ∀ t older, t :: older <:+ tr → LoadsCovered cfg pg older t) {u : UserId} {b : Balance}
    (hb : s.redis.bal.get u = some b) (k : Purse) :
    k.of b.get ≤ k.of (given cfg pg tr u) := by
  have recording : ∀ {t : Trans System Label}, inRange cfg t = true ∧ t.label.keepsRecords = true →
      Recording cfg (fun _ => True) t := fun ht => ⟨ht.1, fun id _ => Label.keepsRecord_of_keepsRecords ht.2 id⟩
  have hk := Runs.kept hr fun t ht => recording (hl t ht)
  have hcovered : Covered cfg pg tr s := by
    refine hr.invariant_past (I := fun tr s => Covered cfg pg tr s)
      (P := fun older t => (inRange cfg t = true ∧ t.label.keepsRecords = true) ∧ LoadsCovered cfg pg older t)
      (fun t older ht => ⟨hl t (ht.subset (List.mem_cons_self ..)), hload t older ht⟩)
      (fun u b hb => by cases hb) fun {tr} {s} {l} {s'} hr' hP hs h ht => ?_
    have hkept : s.Kept fun _ => True := Runs.kept hr' fun t ht => by
      obtain ⟨newer, older, rfl⟩ := List.append_of_mem ht
      exact recording (hP t older (List.suffix_append ..)).1
    exact (step_cases h).covered hs hkept (recording ht.1) ht.2
  refine le_trans (k.of_mono fun f _ => ?_) (hcovered u b hb k)
  rw [← Redis.hot_of_get hb]
  exact hk.hot_le_reach u f

/-- The debit of a generation was written to its row before the key was lost: the
refund makes up the one dollar again. -/
theorem recovery_mints_nothing_flushed :
    ∃ tr s b, Runs {} (.start dollarRows) tr s ∧ (∃ t ∈ tr, t.label.keepsBalances = false) ∧
      s.redis.bal.get 1 = some b ∧ b.totalUsd = 1000000 ∧ Purse.usd.of b.get ≤ Purse.usd.of (given {} dollarRows tr 1) := by
  obtain ⟨tr, s, hr, h⟩ := Runs.of_schedule {} (.start dollarRows)
    (.spawn 0 (.gen (premium 1 5)) :: coldLoad 0 ++
      [.exec 0 [] 0, .provider 0, .spawn 1 .flush, .exec 1 [1] 0, .exec 1 [] 0, .commit 1 .committed, .exec 1 [] 0,
        .dropBalance 1, .provided 0 (.raised "down" "Error" true), .exec 0 [] 0] ++ coldLoad 0 ++ [.exec 0 [] 0])
    (fun tr s => (tr.all fun t => inRange {} t && t.label.keepsRecords) && (tr.any fun t => !t.label.keepsBalances) &&
      loadsCovered {} dollarRows tr && (s.redis.bal.get 1).any fun b => b.totalUsd == 1000000) (by decide +kernel)
  simp only [Bool.and_eq_true, List.all_eq_true, List.any_eq_true, Option.any_eq_true, beq_iff_eq,
    Bool.not_eq_true'] at h
  obtain ⟨⟨⟨hl, hdrop⟩, hload⟩, b, hb, htotal⟩ := h
  exact ⟨tr, s, b, hr, hdrop, hb, htotal,
    recovery_mints_nothing hr hl (fun t older ht => LoadsCovered.of_check hload ht) hb .usd⟩

/-- A dollar of which 20 cents are reserved; the key is lost before a flush, and the
provider fails. The row still has the whole dollar, and the refund makes it 1.20. -/
theorem refund_mints :
    ∃ tr s b, Runs {} (.start dollarRows) tr s ∧ (∀ t ∈ tr, inRange {} t = true ∧ t.label.keepsRecords = true) ∧
      s.redis.bal.get 1 = some b ∧ b.totalUsd = 1200000 ∧ Purse.usd.of (given {} dollarRows tr 1) = 1000000 := by
  obtain ⟨tr, s, hr, h⟩ := Runs.of_schedule {} (.start dollarRows)
    (.spawn 0 (.gen (premium 1 5)) :: coldLoad 0 ++
      [.exec 0 [] 0, .provider 0, .dropBalance 1, .provided 0 (.raised "down" "Error" true), .exec 0 [] 0] ++
      coldLoad 0 ++ [.exec 0 [] 0])
    (fun tr s => (tr.all fun t => inRange {} t && t.label.keepsRecords) &&
      Purse.usd.of (given {} dollarRows tr 1) == 1000000 &&
      (s.redis.bal.get 1).any fun b => b.totalUsd == 1200000) (by decide +kernel)
  simp only [Bool.and_eq_true, List.all_eq_true, Option.any_eq_true, beq_iff_eq] at h
  obtain ⟨⟨hl, hgiven⟩, b, hb, htotal⟩ := h
  exact ⟨tr, s, b, hr, hl, hb, htotal, hgiven⟩

end GenerationBalance
