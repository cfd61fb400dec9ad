/-
A version number determines the balance: while the keys are kept, every balance
of the hot store only goes forward, and every balance a call has read was once
the stored one. So the version that `RESERVE` compares stands for all four
amounts it does not compare.
-/
import GenerationBalance.Runs

namespace GenerationBalance

open Transition Versioned

/-! ## What is well formed about a call by itself -/

/-- A repair advances the version. -/
def Proc.Advances (st : Proc) : Prop := ∀ u e n, (u, e, n) ∈ st.repairs → e < n

theorem Proc.Advances.resume {cfg : Config} {s s' : System} {l : Label} {p : ℕ} {i : Input} {now : ℚ} {fresh : Token}
    (h : (s.procs p).Advances) (hg : Given cfg s s' l p i) : ((s.procs p).resume cfg fresh now i).Advances := by
  intro u e n hr
  rcases Proc.resume_repairs hr with hr | ⟨rows, written, rejected, b, stored, ha, rfl, hm, rfl, rfl⟩
  · exact h u e n hr
  · obtain ⟨rows, -, hw⟩ := hg.committed
    obtain ⟨stored', hs, -, -, hv⟩ := (writeRows_spec hw).rejected _ hm
    cases hs
    simp only at hv
    omega

/-- A call's reservation is for its own request, a denial is the policy's, a
loader raises what a load can raise, and a repair advances the version. -/
structure Proc.Formed (st : Proc) : Prop where
  reserving : ∀ v, st.reserving = some v → st.request = some v.request
  owned : ∀ v, st.owned = some v → st.request = some v.request
  denial : ∀ e, st.denial = some e → e.isAccess = true
  exit : ∀ u t e, st.loader = some (u, .release t (.raise e)) → e.isFailed = false
  repairs : st.Advances

theorem Proc.Blank.formed {st : Proc} (h : st.Blank) : st.Formed where
  reserving v hv := by rw [h.reserving] at hv; cases hv
  owned v hv := by rw [h.owned] at hv; cases hv
  denial e he := by rw [h.denial] at he; cases he
  exit u t e hl := by cases h.loader _ _ hl
  repairs u e n hr := by rw [h.repairs] at hr; cases hr

theorem Proc.Formed.resume {cfg : Config} {s s' : System} {l : Label} {p : ℕ} {i : Input} {now : ℚ} {fresh : Token}
    (h : (s.procs p).Formed) (hg : Given cfg s s' l p i) : ((s.procs p).resume cfg fresh now i).Formed := by
  refine ⟨fun v hv => ?_, fun v hv => ?_, fun e he => ?_, fun u t e hl => ?_, h.repairs.resume hg⟩
  · rw [Proc.resume_request]
    rcases Proc.resume_reserving hv with hv | ⟨request, pc, b, hs, -, hm⟩
    · exact h.reserving v hv
    · rw [hs, (makeReservation_ok hm).1]; rfl
  · rw [Proc.resume_request]
    rcases Proc.resume_owned hv with hv | ⟨r, hv, -, -⟩
    · exact h.owned v hv
    · exact h.reserving v hv
  · rcases Proc.resume_denial he with he | he
    · exact h.denial e he
    · exact he
  · rcases Proc.resume_loader hl with hl | ⟨l, hl, rfl | hs⟩
    · cases hl
    · exact h.exit u t e hl
    · rcases LoaderPc.resume_exit hs with rfl | rfl | rfl
      · exact h.exit u t e hl
      · rfl
      · rfl

/-- Every held call is well formed. -/
def System.Formed (s : System) : Prop := ∀ p st, s.Holds p st → st.Formed

/-- Every held call only advances versions. -/
def System.Advances (s : System) : Prop := ∀ p st, s.Holds p st → st.Advances

theorem System.Formed.advances {s : System} (h : s.Formed) : s.Advances := fun p st hh => (h p st hh).repairs

theorem StepCase.formed {cfg : Config} {s s' : System} {l : Label} (h : StepCase cfg s l s') (hs : s.Formed) :
    s'.Formed :=
  h.held (Q := fun _ st => st.Formed) hs (fun _ h => h) (fun _ h => h.formed) fun _ _ _ hg _ h => h.resume hg

theorem System.start_formed (pg : Rows) : (System.start pg).Formed := fun p st h => by
  rw [System.start_holds h]
  exact Proc.blank_idle.formed

/-! ## The hot store goes forward -/

/-- A balance gives way to one of a newer version, or stays with no new mark. -/
theorem BalChange.balance_mark {ρ ρ' : Redis} {c : Call} {r : Reply} (h : BalChange ρ c r ρ')
    (ha : ∀ u e n, c = .advanceVersion u e n → e < n) {u : UserId} {b : Balance} (hb : ρ.bal.get u = some b) :
    ∃ b', ρ'.bal.get u = some b' ∧ (b.version < b'.version ∨ b' = b ∧ (u ∈ ρ'.dirty → u ∈ ρ.dirty)) := by
  -- The balance of `w` is written: it is another user's, or this one's goes forward.
  have set : ∀ {w : UserId} {old new : Balance}, ρ.bal.get w = some old → old.version < new.version →
      ρ'.bal = ρ.bal.set w new → ρ'.dirty = insert w ρ.dirty →
      ∃ b', ρ'.bal.get u = some b' ∧ (b.version < b'.version ∨ b' = b ∧ (u ∈ ρ'.dirty → u ∈ ρ.dirty)) := by
    intro w old new ho hv hset hd
    by_cases hw : u = w
    · subst hw
      rw [hb] at ho
      cases ho
      exact ⟨new, by rw [hset, Table.get_set_self], .inl hv⟩
    · refine ⟨b, by rw [hset, Table.get_set_of_ne _ _ hw, hb], .inr ⟨rfl, fun hm => ?_⟩⟩
      rw [hd] at hm
      exact (Finset.mem_insert.mp hm).resolve_left hw
  cases h with
  | same hbal hd => exact ⟨b, by rw [hbal, hb], .inr ⟨rfl, hd u⟩⟩
  | moved hm ho hf hset hd =>
    refine set ho ?_ hset hd
    have hv := hf .version
    rw [hm.version, if_pos rfl] at hv
    simp only [Balance.get] at hv
    omega
  | @seeded w c hc hn hset hd =>
    have hw : u ≠ w := by
      rintro rfl
      rw [hn] at hb
      cases hb
    exact ⟨b, by rw [hset, Table.get_set_of_ne _ _ hw, hb], .inr ⟨rfl, fun hm => by rwa [hd] at hm⟩⟩
  | advanced hc hr ho hset hd => exact set ho (ha _ _ _ hc) hset hd

theorem Sends.advance_lt {st : Proc} {c : Call} (h : Sends st c) (ha : st.Advances) :
    ∀ u e n, c = .advanceVersion u e n → e < n := by
  rintro u e n rfl
  cases h with
  | advance hr => exact ha u e n (Proc.advancing_repairs hr)

theorem healthy_keeps {cfg : Config} {s s' : System} {l : Label} (h : healthy cfg ⟨s, l, s'⟩ = true) :
    l.keepsBalances = true ∧ inRange cfg ⟨s, l, s'⟩ = true := by
  simpa [healthy] using h

theorem Expires.bal {ρ ρ' : Redis} {l : Label} (h : Expires ρ l ρ') (hk : l.keepsBalances = true) :
    ρ'.bal = ρ.bal := by
  cases h with
  | balance u => cases hk
  | _ => rfl

theorem Expires.dirty {ρ ρ' : Redis} {l : Label} (h : Expires ρ l ρ') : ρ'.dirty = ρ.dirty := by
  cases h <;> rfl

/-- What a step does to the balance and the mark of a user who has one. -/
theorem StepCase.balance_mark {cfg : Config} {s s' : System} {l : Label} (h : StepCase cfg s l s')
    (hs : s.Advances) (hh : healthy cfg ⟨s, l, s'⟩ = true) {u : UserId} {b : Balance} (hb : s.redis.bal.get u = some b) :
    ∃ b', s'.redis.bal.get u = some b' ∧
      (b.version < b'.version ∨ b' = b ∧ (u ∈ s'.redis.dirty → u ∈ s.redis.dirty)) := by
  obtain ⟨hk, hi⟩ := healthy_keeps hh
  cases h.store with
  | same hn he => exact ⟨b, by rw [he, hb], .inr ⟨rfl, fun hd => by rwa [he] at hd⟩⟩
  | expired hn he => exact ⟨b, by rw [he.bal hk, hb], .inr ⟨rfl, fun hd => by rwa [he.dirty] at hd⟩⟩
  | ran hx hheld ha he =>
    exact (callOk_of_ran hx hi he).balChange.balance_mark ((Proc.sends ha).advance_lt (hs _ _ hheld)) hb

/-- A new mark is put on a user who has a balance. -/
theorem StepCase.mark_new {cfg : Config} {s s' : System} {l : Label} (h : StepCase cfg s l s')
    (hi : inRange cfg ⟨s, l, s'⟩ = true) {u : UserId} (hu : u ∈ s'.redis.dirty) :
    u ∈ s.redis.dirty ∨ ∃ b, s'.redis.bal.get u = some b := by
  have set : ∀ {w : UserId} {new : Balance}, s'.redis.bal = s.redis.bal.set w new →
      s'.redis.dirty = insert w s.redis.dirty → u ∈ s.redis.dirty ∨ ∃ b, s'.redis.bal.get u = some b := by
    intro w new hset hd
    rw [hd] at hu
    rcases Finset.mem_insert.mp hu with rfl | hu
    · exact .inr ⟨new, by rw [hset, Table.get_set_self]⟩
    · exact .inl hu
  cases h.store with
  | same hn he => rw [he] at hu; exact .inl hu
  | expired hn he => rw [he.dirty] at hu; exact .inl hu
  | ran hx hheld ha he =>
    cases (callOk_of_ran hx hi he).balChange with
    | same hbal hd => exact .inl (hd u hu)
    | moved hm ho hf hset hd => exact set hset hd
    | seeded hc hn hset hd => rw [hd] at hu; exact .inl hu
    | advanced hc hr ho hset hd => exact set hset hd

/-- **One step of a healthy system takes every balance forward.** -/
theorem StepCase.forward {cfg : Config} {s s' : System} {l : Label} (h : StepCase cfg s l s') (hs : s.Advances)
    (hh : healthy cfg ⟨s, l, s'⟩ = true) : Forward Balance.version s.redis.bal s'.redis.bal := by
  intro u b hb
  obtain ⟨b', hb', hv | ⟨rfl, -⟩⟩ := h.balance_mark hs hh hb
  · exact ⟨b', hb', .inr hv⟩
  · exact ⟨b', hb', .refl b'⟩

/-- A balance that was absent was seeded by a loader. -/
theorem StepCase.balance_new {cfg : Config} {s s' : System} {l : Label} (h : StepCase cfg s l s')
    (hh : healthy cfg ⟨s, l, s'⟩ = true) {u : UserId} {b : Balance} (hn : s.redis.bal.get u = none)
    (hb : s'.redis.bal.get u = some b) : ∃ p st t, s.Holds p st ∧ st.loader = some (u, .seed t b) := by
  obtain ⟨hk, hi⟩ := healthy_keeps hh
  have old : ∀ {w : UserId} {c new : Balance}, s.redis.bal.get w = some c → s'.redis.bal = s.redis.bal.set w new →
      False := by
    intro w c new hc hset
    rw [hset, Table.get_set] at hb
    split at hb
    · next hw => rw [← hw, hn] at hc; cases hc
    · rw [hn] at hb; cases hb
  cases h.store with
  | same hnone he => rw [he, hn] at hb; cases hb
  | expired hnone he => rw [he.bal hk, hn] at hb; cases hb
  | ran hx hheld ha he =>
    cases (callOk_of_ran hx hi he).balChange with
    | same hbal hd => rw [hbal, hn] at hb; cases hb
    | moved hm ho hf hset hd => exact (old ho hset).elim
    | advanced hc hr ho hset hd => exact (old ho hset).elim
    | @seeded w c hc hnone hset hd =>
      have hsend := Proc.sends ha
      rw [hc] at hsend
      rw [hset, Table.get_set] at hb
      split at hb
      · next hw =>
        cases hb
        subst hw
        obtain ⟨t, hl⟩ := hsend.of_seed
        exact ⟨_, _, _, hheld, hl⟩
      · rw [hn] at hb
        cases hb

/-- What a step does to a user's row: nothing, or it goes forward to a balance
that a flush has read. -/
theorem StepCase.row_cases {cfg : Config} {s s' : System} {l : Label} (h : StepCase cfg s l s') (u : UserId) :
    s'.pg.get u = s.pg.get u ∨ ∃ b p, s'.pg.get u = some b ∧ (u, b) ∈ (s.procs p).rows ∧
      ∀ c, s.pg.get u = some c → Behind Balance.version c b := by
  rcases h.rows with he | ⟨p, rows, answer, ha, hw⟩
  · exact .inl (by rw [he])
  have hw := writeRows_spec hw
  cases hb : s'.pg.get u with
  | none =>
    cases hc : s.pg.get u with
    | none => exact .inl rfl
    | some c =>
      obtain ⟨b, hb', -⟩ := hw.forward u c hc
      rw [hb] at hb'
      cases hb'
  | some b =>
    rcases hw.source u b hb with hold | hrow
    · exact .inl hold.symm
    · refine .inr ⟨b, p, rfl, by rw [Proc.commit_rows ha]; exact hrow, fun c hc => ?_⟩
      obtain ⟨b', hb', hcb⟩ := hw.forward u c hc
      rw [hb] at hb'
      cases hb'
      exact hcb

/-! ## What was read was stored -/

/-- Every balance that a call has read has been the stored one. -/
structure Proc.Carries (bal : Table UserId Balance) (st : Proc) : Prop where
  loader : ∀ u l b, st.loader = some (u, l) → l.held = some b → Passed Balance.version bal u b
  reserving : ∀ v, st.reserving = some v → Passed Balance.version bal v.request.userId v.snapshot
  rows : ∀ u b, (u, b) ∈ st.rows → Passed Balance.version bal u b

theorem Proc.Blank.carries {st : Proc} (h : st.Blank) (bal : Table UserId Balance) : st.Carries bal where
  loader u l b hl hb := by cases h.loader _ _ hl; cases hb
  reserving v hv := by rw [h.reserving] at hv; cases hv
  rows u b hb := by rw [h.rows] at hb; cases hb

theorem Proc.Carries.forward {bal bal' : Table UserId Balance} {st : Proc} (h : st.Carries bal)
    (hf : Forward Balance.version bal bal') : st.Carries bal' where
  loader u l b hl hb := (h.loader u l b hl hb).forward hf
  reserving v hv := (h.reserving v hv).forward hf
  rows u b hb := (h.rows u b hb).forward hf

theorem Given.loaded {cfg : Config} {s s' : System} {l : Label} {p : ℕ} {i : Input} {fresh : Token} {u : UserId}
    {pc : LoaderPc} {b : Balance} (hg : Given cfg s s' l p i) (hl : (s.procs p).loader = some (u, pc))
    (hr : pc.resume fresh i = .ret b) : s.redis.bal.get u = some b ∨ pc.held = some b := by
  rcases LoaderPc.resume_ret hr with ⟨rfl, rfl⟩ | hb
  · exact .inl (hg.balance (Proc.loader_action hl)).1
  · exact .inr hb

theorem Proc.Carries.resume {cfg : Config} {s s' : System} {l : Label} {p : ℕ} {i : Input} {now : ℚ} {fresh : Token}
    (h : (s.procs p).Carries s.redis.bal) (hfm : (s.procs p).Formed) (hg : Given cfg s s' l p i)
    (hf : Forward Balance.version s.redis.bal s'.redis.bal) :
    ((s.procs p).resume cfg fresh now i).Carries s'.redis.bal := by
  refine ⟨fun u l' b hl hb => ?_, fun v hv => ?_, fun u b hb => ?_⟩
  · rcases Proc.resume_loader hl with rfl | ⟨l, hl, rfl | hs⟩
    · cases hb
    · exact (h.loader u l' b hl hb).forward hf
    · rcases LoaderPc.resume_held hs hb with hb | ⟨rfl, t, rfl⟩
      · exact (h.loader u l b hl hb).forward hf
      · exact (Passed.of_get (hg.balance (Proc.loader_action hl)).1).forward hf
  · rcases Proc.resume_reserving hv with hv | ⟨request, pc, b, hs, hr, hm⟩
    · exact (h.reserving v hv).forward hf
    · obtain ⟨h1, h2, -⟩ := makeReservation_ok hm
      rw [h1, h2]
      cases hr with
      | @loaded k pc i b hr =>
        have hl : (s.procs p).loader = some (request.userId, pc) := by rw [hs]; rfl
        rcases hg.loaded hl hr with hb | hb
        · exact (Passed.of_get hb).forward hf
        · exact (h.loader _ _ _ hl hb).forward hf
      | @conflict w n k b =>
        have hw : (s.procs p).reserving = some w := by rw [hs]; rfl
        have hrq := hfm.reserving w hw
        rw [hs] at hrq
        cases hrq
        exact (Passed.of_get (hg.reserve hw).of_conflict.2.1).forward hf
  · rcases Proc.resume_rows hb with hb | ⟨rfl, ha⟩
    · exact (h.rows u b hb).forward hf
    · exact (Passed.of_get (hg.balance ha).1).forward hf

/-- The calls of a system whose balances only go forward: all are well formed,
and what they have read has been stored. -/
structure System.Current (s : System) : Prop where
  formed : s.Formed
  carries : ∀ p st, s.Holds p st → st.Carries s.redis.bal

theorem StepCase.current {cfg : Config} {s s' : System} {l : Label} (h : StepCase cfg s l s') (hs : s.Current)
    (hh : healthy cfg ⟨s, l, s'⟩ = true) : s'.Current := by
  have hf := h.forward hs.formed.advances hh
  exact
    { formed := h.formed hs.formed
      carries := h.held (Q := fun s st => st.Carries s.redis.bal) hs.carries (fun _ hc => hc.forward hf)
        (fun _ hb => hb.carries _) fun p _ _ hg _ hc => hc.resume (hs.formed p _ (.inl rfl)) hg hf }

theorem System.start_current (pg : Rows) : (System.start pg).Current where
  formed := System.start_formed pg
  carries p st h := by
    rw [System.start_holds h]
    exact Proc.blank_idle.carries _

theorem Runs.current {cfg : Config} {pg : Rows} {tr : List (Trans System Label)} {s : System}
    (hr : Runs cfg (.start pg) tr s) (hh : ∀ t ∈ tr, healthy cfg t = true) : s.Current :=
  hr.invariant hh (System.start_current pg) fun hs h ht => (step_cases h).current hs ht

/-- **A plan is debited from the balance it was made for.** -/
theorem System.Current.snapshot {cfg : Config} {s s' : System} {l : Label} {x : Ran} {n : ℤ} (hs : s.Current)
    (h : StepCase cfg s l s') (hx : ran cfg ⟨s, l, s'⟩ = some x) (hn : x.reply = .reserve (.ok n)) :
    ∃ v b, x.st.reserving = some v ∧ x.call = .reserve v.args ∧
      s.redis.bal.get v.request.userId = some v.snapshot ∧
      (∀ f, b.get f = v.snapshot.get f - v.plan.field f + if f = .version then 1 else 0) ∧
      s'.redis = s.redis.debited v.args b := by
  obtain ⟨pick, hheld, hc, he⟩ := h.executed hx
  have hok := exec_ok he (by rw [hn]; rfl)
  rw [hn] at hok
  generalize hcall : x.call = c at hok
  generalize s'.redis = ρ' at hok ⊢
  cases hok with
  | @reserve a _ _ hr =>
    obtain ⟨c, b, hg, hb, hv, hf, rfl⟩ := hr.of_ok
    have hsend := Proc.sends hc
    rw [hcall] at hsend
    obtain ⟨v, hres, rfl⟩ := hsend.of_reserve
    have hsnap := (hs.carries _ _ hheld).reserving v hres
    have hcs : c = v.snapshot := hsnap.eq hb hv
    subst hcs
    exact ⟨v, b, hres, rfl, hb, hf, rfl⟩

end GenerationBalance
