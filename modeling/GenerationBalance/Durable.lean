/-
The ledger in PostgreSQL. What is loaded for a user is the row the run started with;
and a user without a mark has the hot balance as row. So where no mark is left, the rows
before and after a run differ by the top-ups and by what the generations took.
-/
import GenerationBalance.Copies
import GenerationBalance.Ledger

namespace GenerationBalance

open Transition

theorem Ran.seeded_some {x : Ran} {u : UserId} {b : Balance} (h : x.seeded = some (u, b)) :
    x.call = .seedIfAbsent u b ∧ x.reply = .flag true := by
  unfold Ran.seeded at h
  split at h
  · cases h
    exact ⟨rfl, rfl⟩
  · cases h

/-- What is loaded is the row that the run started with, which stays until then. -/
structure Loaded (cfg : Config) (pg : Rows) (tr : List (Trans System Label)) (s : System) : Prop where
  absent : ∀ u, s.redis.bal.get u = none → s.pg.copy u = pg.copy u
  seeded : ∀ u b, seedOf cfg tr u = some b → b = pg.copy u

section Step

variable {cfg : Config} {pg : Rows} {tr : List (Trans System Label)} {s s' : System} {l : Label}

theorem StepCase.rowLoaded (h : StepCase cfg s l s') (hs : Loaded cfg pg tr s) (hm : s.Mirrors)
    (hh : healthy cfg ⟨s, l, s'⟩ = true) : Loaded cfg pg (⟨s, l, s'⟩ :: tr) s' := by
  refine ⟨fun u hn => ?_, fun u b hb => ?_⟩
  · have hnone : s.redis.bal.get u = none := by
      cases hb : s.redis.bal.get u with
      | none => rfl
      | some b =>
        obtain ⟨c, hc, -⟩ := h.forward hm.flushing.advances hh u b hb
        rw [hn] at hc
        cases hc
    rw [h.copy_absent hm hnone]
    exact hs.absent u hnone
  · cases hx : (ran cfg ⟨s, l, s'⟩).bind Ran.seeded with
    | none =>
      rw [seedOf_none hx] at hb
      exact hs.seeded u b hb
    | some y =>
      rw [seedOf_some hx] at hb
      split at hb
      · next he =>
        cases hb
        obtain ⟨x, hran, hseed⟩ := Option.bind_eq_some_iff.mp hx
        obtain ⟨hcall, hreply⟩ := Ran.seeded_some hseed
        obtain ⟨pick, -, -, hexec⟩ := h.executed hran
        rw [hcall, hreply, he] at hexec
        have hok := exec_ok hexec rfl
        generalize hρ : s'.redis = ρ' at hok
        cases hok with
        | seeded hnone =>
          have hnew : s'.redis.bal.get u = some y.2 := by
            rw [hρ]
            exact Table.get_set_self ..
          rw [h.seeded_copy hm hh hnone hnew, h.copy_absent hm hnone]
          exact hs.absent u hnone
      · exact hs.seeded u b hb

theorem Runs.loaded (hr : Runs cfg (.start pg) tr s) (hh : ∀ t ∈ tr, healthy cfg t = true) : Loaded cfg pg tr s := by
  refine hr.invariant_history (I := Loaded cfg pg) hh ?_ ?_
  · exact ⟨fun u _ => rfl, fun u b hb => (by cases hb)⟩
  · intro tr s l s' hrun hold hs hstep ht
    exact (step_cases hstep).rowLoaded hs (Runs.history hrun hold).mirrors ht

end Step

/-! ## Every run -/

theorem healthy_of_lasting {cfg : Config} {t : Trans System Label} (h : lasting cfg t = true) :
    healthy cfg t = true := by
  simp only [lasting, Bool.and_eq_true] at h
  exact h.1

/-- **Conservation in PostgreSQL.** As long as nothing that is kept is lost and all sums are
in range: for a user without a mark, what the row has with what the generations took is what
the row had with the top-ups, amount by amount. -/
theorem durable_conservation {cfg : Config} {pg : Rows} {tr : List (Trans System Label)} {s : System}
    (hr : Runs cfg (.start pg) tr s) (hl : ∀ t ∈ tr, lasting cfg t = true) {u : UserId} (hu : u ∉ s.redis.dirty)
    {f : Field} (hf : f.IsAmount) :
    (s.pg.copy u).get f + s.redis.gen.sum (taken (settleOf cfg tr) u f) =
      (pg.copy u).get f + s.redis.topup.sum (credited (topUpOf cfg tr) u f) := by
  have hh : ∀ t ∈ tr, healthy cfg t = true := fun t ht => healthy_of_lasting (hl t ht)
  have hledger := Runs.ledger hr hl
  have hloaded := Runs.loaded hr hh
  have hbal := hledger.balanced u f hf
  have hseed := hledger.seeded u
  unfold Balanced at hbal
  cases hb : s.redis.bal.get u with
  | none =>
    rw [hb, Option.isSome_none] at hseed
    have hnone : seedOf cfg tr u = none := Option.isNone_iff_eq_none.mp (by simpa using hseed.symm)
    have hhot : s.redis.hot u f = 0 := by simp [Redis.hot, hb]
    rw [hhot, hnone, Option.elim_none] at hbal
    rw [hloaded.absent u hb]
    omega
  | some b =>
    rw [hb, Option.isSome_some] at hseed
    obtain ⟨c, hc⟩ := Option.isSome_iff_exists.mp hseed.symm
    have hcopy : b = s.pg.copy u := by
      by_contra hne
      exact hu ((Runs.history hr hh).mirrors.marked u b hb hne)
    rw [Redis.hot_of_get hb, hc, Option.elim_some, hloaded.seeded u c hc, hcopy] at hbal
    exact hbal

/-- A generation that is charged five cents of the twenty reserved, and a flush. -/
def flushedSale : List Label :=
  .spawn 0 (.gen (premium 1 5)) :: coldLoad 0 ++
    [.exec 0 [] 0, .provider 0, .provided 0 (.result "ok" (.finite ⟨5, -2⟩)), .exec 0 [] 0,
      .spawn 1 .flush, .exec 1 [1] 0, .exec 1 [] 0, .commit 1 .committed, .exec 1 [] 0]

/-- The row is five cents less than the dollar it was. -/
theorem durable_conservation_premium : ∃ tr s, Runs {} (.start dollarRows) tr s ∧ (s.pg.copy 1).paidUsd = 950000 ∧
    (s.pg.copy 1).paidUsd + s.redis.gen.sum (taken (settleOf {} tr) 1 .paidUsd) =
      (dollarRows.copy 1).paidUsd + s.redis.topup.sum (credited (topUpOf {} tr) 1 .paidUsd) := by
  obtain ⟨tr, s, hr, hp⟩ := Runs.of_schedule {} (.start dollarRows) flushedSale
    (fun tr s => tr.all (lasting {}) && decide (1 ∉ s.redis.dirty) && decide ((s.pg.copy 1).paidUsd = 950000))
    (by decide +kernel)
  simp only [Bool.and_eq_true, List.all_eq_true, decide_eq_true_eq] at hp
  obtain ⟨⟨hl, hu⟩, hpaid⟩ := hp
  exact ⟨tr, s, hr, hpaid, durable_conservation hr hl hu (f := .paidUsd) fun h => by cases h⟩

end GenerationBalance
