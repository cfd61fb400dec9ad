/-
PostgreSQL as the delayed copy of a healthy hot store: every row is a balance the
hot store once had, behind the present one, and marked when it is another. So the
repair of a regressed version never fires.
-/
import GenerationBalance.Flushes

namespace GenerationBalance

open Transition Versioned

/-! ## One state -/

/-- The copy of a user's balance, an absent row being the zero balance. -/
def Rows.copy (pg : Rows) (u : UserId) : Balance := (pg.get u).getD .zero

/-- The hot store has passed the version a flush expects for `u`. -/
def Redis.PastVersion (ρ : Redis) (u : UserId) (e : ℤ) : Prop := ∃ c, ρ.bal.get u = some c ∧ e < c.version

/-- The repairs of a flush come too late. -/
def FlushPc.Outrun (ρ : Redis) : FlushPc → Prop
  | .repairing _ _ (u, e, _) todo _ _ =>
    ρ.PastVersion u e ∧ ∀ b w stored, (b, w, some stored) ∈ todo → stored ≠ b → ρ.PastVersion w b.version
  | _ => True

/-- What makes the rows a copy of the hot balances: they are behind, marked when
they differ, and a balance is seeded with its copy. -/
structure System.Mirrors (s : System) : Prop where
  flushing : s.Flushing
  behind : ∀ u c, s.redis.bal.get u = some c → Behind Balance.version (s.pg.copy u) c
  marked : ∀ u c, s.redis.bal.get u = some c → c ≠ s.pg.copy u → u ∈ s.redis.dirty
  seeds : ∀ u, s.redis.bal.get u = none → ∀ p st, s.Holds p st → ∀ t b, st.loader = some (u, .seed t b) →
    b = s.pg.copy u
  unwritten : ∀ p st, s.Holds p st → ∀ u b, (u, b) ∈ st.rows → s.pg.get u = none → Behind Balance.version .zero b
  outrun : ∀ p pc, s.Holds p (.flush pc) → pc.Outrun s.redis

section Step

variable {cfg : Config} {s s' : System} {l : Label}

/-- What a step does to a user's copy. -/
theorem StepCase.copy_cases (h : StepCase cfg s l s') (hs : s.Mirrors) (u : UserId) :
    s'.pg.get u = s.pg.get u ∨ ∃ b, s'.pg.get u = some b ∧ Passed Balance.version s.redis.bal u b ∧
      Behind Balance.version (s.pg.copy u) b := by
  rcases h.row_cases u with he | ⟨b, p, hb, hm, hf⟩
  · exact .inl he
  · refine .inr ⟨b, hb, hs.flushing.reads p _ (.inl rfl) u b hm, ?_⟩
    unfold Rows.copy
    cases hc : s.pg.get u with
    | none => exact hs.unwritten p _ (.inl rfl) u b hm hc
    | some c => exact hf c hc

/-- The copy of a user without a balance stays. -/
theorem StepCase.copy_absent (h : StepCase cfg s l s') (hs : s.Mirrors) {u : UserId} (hn : s.redis.bal.get u = none) :
    s'.pg.copy u = s.pg.copy u := by
  rcases h.copy_cases hs u with he | ⟨b, -, ⟨c, hc, -⟩, -⟩
  · unfold Rows.copy
    rw [he]
  · rw [hn] at hc
    cases hc

/-- A balance that is new to a user is the user's copy. -/
theorem StepCase.seeded_copy (h : StepCase cfg s l s') (hs : s.Mirrors) (hh : healthy cfg ⟨s, l, s'⟩ = true)
    {u : UserId} {c : Balance} (hn : s.redis.bal.get u = none) (hc : s'.redis.bal.get u = some c) :
    c = s'.pg.copy u := by
  obtain ⟨p, st, t, hheld, hl⟩ := h.balance_new hh hn hc
  rw [h.copy_absent hs hn]
  exact hs.seeds u hn p st hheld t c hl

theorem StepCase.behind (h : StepCase cfg s l s') (hs : s.Mirrors) (hh : healthy cfg ⟨s, l, s'⟩ = true) {u : UserId}
    {c : Balance} (hc : s'.redis.bal.get u = some c) : Behind Balance.version (s'.pg.copy u) c := by
  cases hb : s.redis.bal.get u with
  | none =>
    rw [← h.seeded_copy hs hh hb hc]
    exact .refl c
  | some b =>
    obtain ⟨c', hc', hbc⟩ := h.forward hs.flushing.advances hh u b hb
    rw [hc] at hc'
    cases hc'
    rcases h.copy_cases hs u with he | ⟨d, hd, ⟨b', hb', hdb⟩, -⟩
    · have := hs.behind u b hb
      unfold Rows.copy at this ⊢
      rw [he]
      exact this.trans hbc
    · rw [hb] at hb'
      cases hb'
      unfold Rows.copy
      rw [hd]
      exact hdb.trans hbc

theorem StepCase.marked (h : StepCase cfg s l s') (hs : s.Mirrors) (hh : healthy cfg ⟨s, l, s'⟩ = true) {u : UserId}
    {c : Balance} (hc : s'.redis.bal.get u = some c) (hne : c ≠ s'.pg.copy u) : u ∈ s'.redis.dirty := by
  obtain ⟨hk, hi⟩ := healthy_keeps hh
  cases hb : s.redis.bal.get u with
  | none => exact absurd (h.seeded_copy hs hh hb hc) hne
  | some b =>
    by_contra hu'
    have hcopy : c = b → c ≠ s.pg.copy u := by
      rintro rfl he
      rcases h.copy_cases hs u with hrow | ⟨d, hd, ⟨b', hb', hdb⟩, hcd⟩
      · refine hne ?_
        unfold Rows.copy at he ⊢
        rw [hrow, he]
      · -- The row that was written is neither older nor newer than the balance.
        rw [hb] at hb'
        cases hb'
        rw [← he] at hcd
        refine hne ?_
        unfold Rows.copy
        rw [hd]
        exact hcd.eq hdb.le
    have hmark : c = b → u ∈ s.redis.dirty := fun he => hs.marked u b hb (he ▸ hcopy he)
    cases h.store with
    | same hn he =>
      rw [he] at hc hu'
      rw [hb] at hc
      cases hc
      exact hu' (hmark rfl)
    | expired hn he =>
      rw [he.bal hk, hb] at hc
      cases hc
      rw [he.dirty] at hu'
      exact hu' (hmark rfl)
    | ran hx hheld ha he =>
      have hok := callOk_of_ran hx hi he
      by_cases hcb : c = b
      · subst hcb
        obtain ⟨v, hcall⟩ := hok.unmarked (hmark rfl) hu'
        have hrow := h.unmarked hs.flushing hi hx hcall (hmark rfl) hu' hb
        refine hcopy rfl ?_
        unfold Rows.copy
        rw [hrow]
        rfl
      · exact hu' (hok.balChange.changed hb hc hcb)

theorem Redis.PastVersion.forward {ρ ρ' : Redis} {u : UserId} {e : ℤ} (h : ρ.PastVersion u e)
    (hf : Forward Balance.version ρ.bal ρ'.bal) : ρ'.PastVersion u e := by
  obtain ⟨c, hc, hlt⟩ := h
  obtain ⟨c', hc', hle⟩ := hf u c hc
  exact ⟨c', hc', hlt.trans_le hle.le⟩

theorem FlushPc.Outrun.forward {ρ ρ' : Redis} {pc : FlushPc} (h : pc.Outrun ρ)
    (hf : Forward Balance.version ρ.bal ρ'.bal) : pc.Outrun ρ' := by
  cases pc with
  | repairing users rows row todo written attempt =>
    exact ⟨h.1.forward hf, fun b w stored hm hne => (h.2 b w stored hm hne).forward hf⟩
  | _ => exact trivial

theorem FlushPc.load_outrun {ρ : Redis} (users todo : List UserId) (rows : List (UserId × Balance)) :
    (load users rows todo).Outrun ρ := by
  cases todo with
  | cons u todo => exact trivial
  | nil =>
    simp only [load, write]
    split
    · cases cleared users rows <;> exact trivial
    · exact trivial

theorem FlushPc.repair_outrun {ρ : Redis} {users : List UserId} {rows : List (UserId × Balance)} {written : ℕ} :
    ∀ {rejected : List Rejected},
      (∀ b w stored, (b, w, some stored) ∈ rejected → stored ≠ b → ρ.PastVersion w b.version) →
      (repair users rows written rejected).Outrun ρ
  | [], _ => by
    simp only [repair]
    cases cleared users rows <;> exact trivial
  | (b, w, none) :: rejected, h => by
    simp only [repair]
    exact repair_outrun fun c u stored hm => h c u stored (List.mem_cons_of_mem _ hm)
  | (b, w, some stored) :: rejected, h => by
    simp only [repair, sameState_iff]
    split
    · exact repair_outrun fun c u stored hm => h c u stored (List.mem_cons_of_mem _ hm)
    · next hne =>
      exact ⟨h b w stored (List.mem_cons_self ..) hne, fun c u stored hm => h c u stored (List.mem_cons_of_mem _ hm)⟩

theorem StepCase.flush_outrun {p : ℕ} {i : Input} {pc : FlushPc} (h : StepCase cfg s l s') (hs : s.Mirrors)
    (hh : healthy cfg ⟨s, l, s'⟩ = true) (hg : Given cfg s s' l p i) (hst : s.procs p = .flush pc) :
    (pc.resume cfg i).Outrun s'.redis := by
  have hf := h.forward hs.flushing.advances hh
  have hout := hs.outrun p pc (.inl hst)
  have hact : (s.procs p).action cfg = pc.action cfg := by rw [hst]; rfl
  have hm := flushMove cfg pc i
  generalize pc.resume cfg i = pc' at hm ⊢
  cases hm with
  | stay | again => exact hout.forward hf
  | raised | nothing => exact trivial
  | picked | read => exact FlushPc.load_outrun ..
  | @committed users rows written rejected =>
    obtain ⟨rows', ha, hw⟩ := hg.committed
    rw [hact] at ha
    cases ha
    refine FlushPc.repair_outrun fun b w stored hm hne => ?_
    obtain ⟨stored', he, hrow, hget, hle⟩ := (writeRows_spec hw).rejected _ hm
    cases he
    obtain ⟨c, hc, hbc⟩ := (hs.flushing.reads p _ (.inl hst) w b hrow).forward hf
    have hsc := h.behind hs hh hc
    unfold Rows.copy at hsc
    rw [hget] at hsc
    exact ⟨c, hc, hbc.outrun hsc hle hne⟩
  | repaired => exact FlushPc.repair_outrun fun b w stored hm hne => (hout.2 b w stored hm hne).forward hf
  | @cleared user todo => cases todo <;> exact trivial

/-- **Every step keeps the rows a copy.** -/
theorem StepCase.mirrors (h : StepCase cfg s l s') (hs : s.Mirrors) (hh : healthy cfg ⟨s, l, s'⟩ = true) :
    s'.Mirrors := by
  have hf := h.forward hs.flushing.advances hh
  refine ⟨h.flushing hs.flushing hh, fun u c hc => h.behind hs hh hc, fun u c hc hne => h.marked hs hh hc hne,
    fun u hn => ?_, ?_, fun p pc hheld => ?_⟩
  · have hnone : s.redis.bal.get u = none := by
      cases hb : s.redis.bal.get u with
      | none => rfl
      | some b =>
        obtain ⟨c, hc, -⟩ := hf u b hb
        rw [hn] at hc
        cases hc
    rw [h.copy_absent hs hnone]
    refine h.held (Q := fun _ st => ∀ t b, st.loader = some (u, .seed t b) → b = s.pg.copy u) (hs.seeds u hnone)
      (fun _ hst => hst) (fun st hst t b hl => ?_) fun p i now hg _ hst t b hl => ?_
    · cases hst.loader _ _ hl
    · rcases hg.seed hl with hl | rfl
      · exact hst t b hl
      · rfl
  · have hunwritten : ∀ u, s'.pg.get u = none → s.pg.get u = none := by
      intro u hn
      rcases h.copy_cases hs u with he | ⟨b, hb, -⟩
      · rw [← he, hn]
      · rw [hn] at hb
        cases hb
    refine h.held (Q := fun s st => ∀ u b, (u, b) ∈ st.rows → s.pg.get u = none → Behind Balance.version .zero b)
      hs.unwritten (fun st hst u b hb hn => hst u b hb (hunwritten u hn)) (fun st hst u b hb => ?_)
      fun p i now hg _ hst u b hb hn => ?_
    · rw [hst.rows] at hb
      cases hb
    · rcases Proc.resume_rows hb with hb | ⟨rfl, ha⟩
      · exact hst u b hb (hunwritten u hn)
      · have := hs.behind u b (hg.balance ha).1
        unfold Rows.copy at this
        rwa [hunwritten u hn] at this
  · generalize hst : Proc.flush pc = st at hheld
    cases h.origin hheld with
    | kept hheld =>
      subst hst
      exact (hs.outrun p pc hheld).forward hf
    | @started job =>
      cases job <;> cases hst
      exact trivial
    | resumed hg hd he =>
      cases hproc : s.procs p <;> rw [hproc] at hst <;> cases hst
      exact h.flush_outrun hs hh hg hproc
    | crashed => cases hst
    | leftover hl hm =>
      subst hst
      rcases Proc.leftovers_flush hm with hproc | ⟨user, todo, written, x, hproc, hx, rfl⟩
      · exact (hs.outrun p pc (.inl hproc)).forward hf
      · exact trivial

end Step

theorem System.start_mirrors (pg : Rows) : (System.start pg).Mirrors where
  flushing := .of_none (fun p pc h => by cases System.start_holds h) fun u hu => by cases hu
  behind u c hc := by cases hc
  marked u c hc := by cases hc
  seeds u hn p st h t b hl := by
    rw [System.start_holds h] at hl
    cases hl
  unwritten p st h u b hb := by
    rw [System.start_holds h] at hb
    cases hb
  outrun p pc h := by cases System.start_holds h

/-! ## Where a row comes from -/

/-- `b` was the balance of `u` in some state of the run. -/
def Once (tr : List (Trans System Label)) (s : System) (u : UserId) (b : Balance) : Prop :=
  ∃ s₁, Visited tr s s₁ ∧ s₁.redis.bal.get u = some b

theorem Once.cases {tr : List (Trans System Label)} {s s' : System} {l : Label} {u : UserId} {b : Balance}
    (h : Once (⟨s, l, s'⟩ :: tr) s' u b) : s'.redis.bal.get u = some b ∨ Once tr s u b := by
  obtain ⟨s₁, hv, hb⟩ := h
  rcases visited_step.mp hv with rfl | hv
  · exact .inl hb
  · exact .inr ⟨s₁, hv, hb⟩

theorem Once.step {tr : List (Trans System Label)} {s s' : System} {l : Label} {u : UserId} {b : Balance}
    (h : Once tr s u b) : Once (⟨s, l, s'⟩ :: tr) s' u b := by
  obtain ⟨s₁, hv, hb⟩ := h
  exact ⟨s₁, visited_step.mpr (.inr hv), hb⟩

theorem Once.now {tr : List (Trans System Label)} {s : System} {u : UserId} {b : Balance}
    (h : s.redis.bal.get u = some b) : Once tr s u b := ⟨s, .inl rfl, h⟩

/-- The history of the hot balances: what was once stored has gone forward, of
one version there was one balance, and the rows and what the flushes hold come
from there. -/
structure History (pg : Rows) (tr : List (Trans System Label)) (s : System) : Prop where
  mirrors : s.Mirrors
  initial : Forward Balance.version pg s.pg
  passed : ∀ u b, Once tr s u b → Passed Balance.version s.redis.bal u b
  unique : ∀ u b c, pg.get u = some b ∨ Once tr s u b → Once tr s u c → c.version = b.version → c = b
  rows : ∀ u b, s.pg.get u = some b → pg.get u = some b ∨ Once tr s u b
  held : ∀ p st, s.Holds p st → ∀ u b, (u, b) ∈ st.rows → Once tr s u b

theorem StepCase.history {cfg : Config} {pg : Rows} {tr : List (Trans System Label)} {s s' : System} {l : Label}
    (h : StepCase cfg s l s') (hs : History pg tr s) (hh : healthy cfg ⟨s, l, s'⟩ = true) :
    History pg (⟨s, l, s'⟩ :: tr) s' := by
  have hf := h.forward hs.mirrors.flushing.advances hh
  have hm := h.mirrors hs.mirrors hh
  have hpg : Forward Balance.version s.pg s'.pg := by
    intro u b hb
    rcases h.row_cases u with he | ⟨c, p, hc, -, hbc⟩
    · exact ⟨b, by rw [he, hb], .refl b⟩
    · exact ⟨c, hc, hbc b hb⟩
  have hinitial : Forward Balance.version pg s'.pg := hs.initial.trans hpg
  have hpassed : ∀ u b, Once (⟨s, l, s'⟩ :: tr) s' u b → Passed Balance.version s'.redis.bal u b := by
    intro u b hb
    rcases hb.cases with hb | hb
    · exact .of_get hb
    · exact (hs.passed u b hb).forward hf
  refine ⟨hm, hinitial, hpassed, fun u b c hb hc hv => ?_, fun u b hb => ?_, ?_⟩
  · -- Whatever is compared with the present balance is behind it.
    have hbehind : ∀ c, s'.redis.bal.get u = some c → Behind Balance.version b c := by
      intro c hc
      rcases hb with hb | hb
      · obtain ⟨b', hb', hbb⟩ := hinitial u b hb
        have := hm.behind u c hc
        unfold Rows.copy at this
        rw [hb'] at this
        exact hbb.trans this
      · obtain ⟨c', hc', hbc⟩ := hpassed u b hb
        rw [hc] at hc'
        cases hc'
        exact hbc
    rcases hc.cases with hc' | hold
    · exact ((hbehind c hc').eq hv.le).symm
    · rcases hb with hb | hb
      · exact hs.unique u b c (.inl hb) hold hv
      · rcases hb.cases with hb | hb
        · exact (hpassed u c hold.step).eq hb hv.symm |>.symm
        · exact hs.unique u b c (.inr hb) hold hv
  · rcases h.row_cases u with he | ⟨c, p, hc, hrow, -⟩
    · exact (hs.rows u b (he ▸ hb)).imp_right Once.step
    · rw [hb] at hc
      cases hc
      exact .inr (hs.held p _ (.inl rfl) u b hrow).step
  · refine h.held (Q := fun _ st => ∀ u b, (u, b) ∈ st.rows → Once (⟨s, l, s'⟩ :: tr) s' u b)
      (fun p st hheld u b hb => (hs.held p st hheld u b hb).step) (fun _ hst => hst) (fun st hst u b hb => ?_)
      fun p i now hg _ hst u b hb => ?_
    · rw [hst.rows] at hb
      cases hb
    · rcases Proc.resume_rows hb with hb | ⟨rfl, ha⟩
      · exact hst u b hb
      · exact (Once.now (hg.balance ha).1).step

theorem Runs.history {cfg : Config} {pg : Rows} {tr : List (Trans System Label)} {s : System}
    (hr : Runs cfg (.start pg) tr s) (hh : ∀ t ∈ tr, healthy cfg t = true) : History pg tr s := by
  refine hr.invariant_history (I := fun tr s => History pg tr s) hh ?_ fun _ _ hs h ht => (step_cases h).history hs ht
  have never : ∀ {u : UserId} {b : Balance}, ¬ Once [] (System.start pg) u b := by
    rintro u b ⟨s₁, rfl | ⟨t, ht, -⟩, hb⟩
    · cases hb
    · cases ht
  refine ⟨System.start_mirrors pg, .refl pg, fun u b hb => (never hb).elim, fun u b c _ hc => (never hc).elim,
    fun u b hb => .inl hb, fun p st h u b hb => ?_⟩
  rw [System.start_holds h] at hb
  cases hb

/-! ## Every run -/

/-- `ADVANCE_VERSION` comes too late in a healthy system. -/
theorem StepCase.not_advanced {cfg : Config} {s s' : System} {l : Label} (h : StepCase cfg s l s') (hs : s.Mirrors)
    (hi : inRange cfg ⟨s, l, s'⟩ = true) {x : Ran} (hx : ran cfg ⟨s, l, s'⟩ = some x) {u : UserId} {e n : ℤ}
    (hcall : x.call = .advanceVersion u e n) : x.reply = .flag false := by
  obtain ⟨pick, hheld, ha, he⟩ := h.executed hx
  have hok := callOk_of_ran hx hi he
  have hsend := Proc.sends ha
  rw [hcall] at hok hsend
  have hpast : s.redis.PastVersion u e := by
    have hrow := hsend.of_advance
    cases hst : x.st with
    | flush pc =>
      rw [hst] at hrow hheld
      cases pc <;> cases hrow
      exact (hs.outrun _ _ hheld).1
    | _ => rw [hst] at hrow; cases hrow
  obtain ⟨c, hc, hlt⟩ := hpast
  generalize s'.redis = ρ' at hok
  generalize x.reply = r at hok ⊢
  cases hok with
  | advanced hb =>
    rw [hc] at hb
    cases hb
    exact absurd hlt (lt_irrefl _)
  | notAdvanced => rfl

/-- **PostgreSQL follows the hot store.** From an empty Redis and any rows, while
no balance key is lost and all sums stay in range: every row is the initial one or
a balance the hot store once had, the one of its version, and not ahead of the hot
balance; no row's version decreases; a user whose row differs from the hot balance
is marked; and the repair never fires. -/
theorem copy_follows {cfg : Config} {pg : Rows} {tr : List (Trans System Label)} {s : System}
    (hr : Runs cfg (.start pg) tr s) (hh : ∀ t ∈ tr, healthy cfg t = true) :
    (∀ u b, s.pg.get u = some b →
      (pg.get u = some b ∨ ∃ s₁, Visited tr s s₁ ∧ s₁.redis.bal.get u = some b) ∧
      (∀ s₁, Visited tr s s₁ → ∀ c, s₁.redis.bal.get u = some c → c.version = b.version → c = b) ∧
      ∀ c, s.redis.bal.get u = some c → b.version ≤ c.version) ∧
    (∀ t ∈ tr, ∀ u b, t.pre.pg.get u = some b → ∃ c, t.post.pg.get u = some c ∧ b.version ≤ c.version) ∧
    (∀ u c, s.redis.bal.get u = some c → c ≠ (s.pg.get u).getD .zero → u ∈ s.redis.dirty) ∧
    ∀ t ∈ tr, ∀ x, ran cfg t = some x → ∀ u e n, x.call = .advanceVersion u e n → x.reply = .flag false := by
  have hist := hr.history hh
  refine ⟨fun u b hb => ⟨hist.rows u b hb, fun s₁ hv c hc => hist.unique u b c (hist.rows u b hb) ⟨s₁, hv, hc⟩,
    fun c hc => ?_⟩, fun t ht u b hb => ?_, hist.mirrors.marked, fun t ht x hx u e n hcall => ?_⟩
  · have := hist.mirrors.behind u c hc
    unfold Rows.copy at this
    rw [hb] at this
    exact this.le
  · obtain ⟨newer, older, -, -, hstep, -⟩ := hr.split ht
    rcases (step_cases hstep).row_cases u with he | ⟨c, p, hc, -, hbc⟩
    · exact ⟨b, by rw [he, hb], le_refl _⟩
    · exact ⟨c, hc, (hbc b hb).le⟩
  · obtain ⟨newer, older, he, hpre, hstep, -⟩ := hr.split ht
    have hm := (Runs.history hpre fun t' ht' => hh t' (by rw [he]; simp [ht'])).mirrors
    exact (step_cases hstep).not_advanced hm (healthy_keeps (hh t ht)).2 hx hcall

/-- Two flushes overlap and a top-up comes between their reads: the slow one's row
is rejected, and its repair comes too late. -/
theorem copy_follows_slow_flush :
    ∃ tr s t x, Runs {} (.start dollarRows) tr s ∧ t ∈ tr ∧ ran {} t = some x ∧
      (∃ u e n, x.call = .advanceVersion u e n) ∧ x.reply = .flag false := by
  obtain ⟨tr, s, hr, h⟩ := Runs.of_schedule {} (.start dollarRows)
    (.spawn 0 (.topUp ⟨9, 1, ⟨5, -1⟩, 0, 0⟩) :: .exec 0 [] 0 :: coldLoad 0 ++
      [.exec 0 [] 0, .spawn 1 .flush, .exec 1 [1] 0, .exec 1 [] 0,
        .spawn 2 (.topUp ⟨10, 1, ⟨5, -1⟩, 0, 0⟩), .exec 2 [] 0,
        .spawn 3 .flush, .exec 3 [1] 0, .exec 3 [] 0, .commit 3 .committed, .exec 3 [] 0,
        .commit 1 .committed, .exec 1 [] 0])
    (fun tr _ => tr.all (healthy {}) && tr.any fun t =>
      (ran {} t).any fun x => match x.call with | .advanceVersion _ _ _ => true | _ => false) (by decide +kernel)
  simp only [Bool.and_eq_true, List.all_eq_true, List.any_eq_true, Option.any_eq_true] at h
  obtain ⟨hh, t, ht, x, hx, hmatch⟩ := h
  have hcall : ∃ u e n, x.call = .advanceVersion u e n := by
    split at hmatch
    · next u e n he => exact ⟨u, e, n, he⟩
    · cases hmatch
  obtain ⟨u, e, n, hcall⟩ := hcall
  exact ⟨tr, s, t, x, hr, ht, hx, ⟨u, e, n, hcall⟩, (copy_follows hr hh).2.2.2 t ht x hx u e n hcall⟩

end GenerationBalance
