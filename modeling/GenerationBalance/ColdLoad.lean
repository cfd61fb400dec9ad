/-
The cold load. Between taking the lock and releasing it a loader alone may read the
row and seed the balance; so while no lock expires, the row is read once, and all
that is ever hot descends from it. And whatever expires, a lock is removed only by
the call that took it, and a balance that is there is never seeded over.
-/
import GenerationBalance.Locks
import GenerationBalance.Stopped

namespace GenerationBalance

open Transition

/-! ## What a request does to one user's lock and balance -/

/-- What a request does to the lock of `u`. -/
inductive LockChange (ρ : Redis) (c : Call) (r : Reply) (ρ' : Redis) (u : UserId) : Prop
  | same : ρ'.loadLock.get u = ρ.loadLock.get u → LockChange ρ c r ρ' u
  | acquired {t} : c = .tryAcquireLoadLock u t → r = .flag true → ρ.loadLock.get u = none →
      ρ'.loadLock.get u = some t → LockChange ρ c r ρ' u
  | released {t} : c = .releaseLoadLock u t → r = .flag true → ρ.loadLock.get u = some t →
      ρ'.loadLock.get u = none → LockChange ρ c r ρ' u

theorem exec_lock {pick : List UserId} {ρ ρ' : Redis} {c : Call} {r : Reply} (h : exec pick ρ c = some (r, ρ'))
    (u : UserId) : LockChange ρ c r ρ' u := by
  rcases exec_cases h with hok | ⟨-, hstop⟩
  · cases hok with
    | @acquired w t hw =>
      by_cases hu : u = w
      · subst hu
        exact .acquired rfl rfl hw (Table.get_set_self ..)
      · exact .same (Table.get_set_of_ne _ _ hu)
    | @released w t hw =>
      by_cases hu : u = w
      · subst hu
        exact .released rfl rfl hw (Table.get_del_self ..)
      · exact .same (Table.get_del_of_ne _ hu)
    | reserve h => cases h <;> exact .same rfl
    | settle h => cases h <;> exact .same rfl
    | refund h => cases h <;> exact .same rfl
    | topUp h => cases h <;> exact .same rfl
    | _ => exact .same rfl
  · exact .same (by rw [hstop.loadLock])

/-- An absent balance is only seeded. -/
theorem exec_absent {pick : List UserId} {ρ ρ' : Redis} {c : Call} {r : Reply} (h : exec pick ρ c = some (r, ρ'))
    {u : UserId} (hu : ρ.bal.get u = none) :
    ρ'.bal.get u = none ∨ ∃ b, c = .seedIfAbsent u b ∧ ρ'.bal.get u = some b := by
  have other : ∀ {w : UserId} {b : Balance}, (ρ.bal.get w).isSome → ρ'.bal = ρ.bal.set w b → ρ'.bal.get u = none := by
    intro w b hw hset
    rw [hset, Table.get_set_of_ne, hu]
    rintro rfl
    rw [hu] at hw
    cases hw
  rcases exec_cases h with hok | ⟨-, hstop⟩
  · cases hok.balChange with
    | same hb => exact .inl (by rw [hb, hu])
    | moved hm hw hf hset => exact .inl (other (by rw [hw]; rfl) hset)
    | advanced hc hr hw hset => exact .inl (other (by rw [hw]; rfl) hset)
    | @seeded w b hc hw hset =>
      by_cases huw : u = w
      · subst huw
        exact .inr ⟨b, hc, by rw [hset, Table.get_set_self]⟩
      · exact .inl (by rw [hset, Table.get_set_of_ne _ _ huw, hu])
  · have hv := hstop.version u
    rw [hu] at hv
    exact .inl (Option.map_eq_none_iff.mp hv)

/-- A balance that is there stays there. -/
theorem exec_present {pick : List UserId} {ρ ρ' : Redis} {c : Call} {r : Reply} (h : exec pick ρ c = some (r, ρ'))
    {u : UserId} {b : Balance} (hu : ρ.bal.get u = some b) : ∃ b', ρ'.bal.get u = some b' := by
  have set : ∀ {w : UserId} {c : Balance}, ρ'.bal = ρ.bal.set w c → ∃ b', ρ'.bal.get u = some b' := by
    intro w c hset
    rw [hset, Table.get_set]
    split
    · exact ⟨c, rfl⟩
    · exact ⟨b, hu⟩
  rcases exec_cases h with hok | ⟨-, hstop⟩
  · cases hok.balChange with
    | same hb => exact ⟨b, by rw [hb, hu]⟩
    | moved hm hw hf hset => exact set hset
    | advanced hc hr hw hset => exact set hset
    | seeded hc hw hset => exact set hset
  · have hv := hstop.version u
    rw [hu] at hv
    obtain ⟨b', hb', -⟩ := Option.map_eq_some_iff.mp hv
    exact ⟨b', hb'⟩

/-! ## Calm steps -/

/-- No lock of `u` expires, its `SELECT` does not fail, its balance is not deleted, and
the seed is waited for. -/
def calm (cfg : Config) (u : UserId) (t : Trans System Label) : Bool :=
  match t.label with
  | .expireLock w => w ≠ u || (t.pre.redis.loadLock.get u).isNone
  | .dropBalance w => w ≠ u
  | .select p false =>
    match (t.pre.procs p).action cfg with
    | .select w => w ≠ u
    | _ => true
  | .abandon p =>
    match (t.pre.procs p).loader with
    | some (w, .seed _ _) => w ≠ u
    | _ => true
  | _ => true

/-- The step reads the row of `u`. -/
def selects (cfg : Config) (u : UserId) (t : Trans System Label) : Bool :=
  match t.label with
  | .select p _ =>
    match (t.pre.procs p).action cfg with
    | .select w => w = u
    | _ => false
  | _ => false

/-- The row that a step reads. -/
def selected (u : UserId) (t : Trans System Label) : Balance := (t.pre.pg.get u).getD .zero

/-- What a loader returned in a step, and whose balance that is. -/
def loaded (cfg : Config) (t : Trans System Label) : Option (UserId × Balance) :=
  match t.label with
  | .exec p _ _ =>
    match ran cfg t, (t.pre.procs p).loader with
    | some x, some (u, l) =>
      match l.resume ⟨p, t.pre.draws⟩ (.reply x.reply) with
      | .ret b => some (u, b)
      | _ => none
    | _, _ => none
  | _ => none

/-- What becomes of a balance of `u` in the steps of a run, from the row it was
seeded with. -/
inductive Descends (u : UserId) (tr : List (Trans System Label)) (row : Balance) : Balance → Prop
  | seeded {t} : t ∈ tr → t.pre.redis.bal.get u = none → t.post.redis.bal.get u = some row → Descends u tr row row
  | step {t b c} : Descends u tr row b → t ∈ tr → t.pre.redis.bal.get u = some b → t.post.redis.bal.get u = some c →
      Descends u tr row c

/-- A state of the hot balance that descends from a row that was read. -/
def FromRow (cfg : Config) (u : UserId) (tr : List (Trans System Label)) (b : Balance) : Prop :=
  ∃ t ∈ tr, selects cfg u t = true ∧ Descends u tr (selected u t) b

theorem Descends.older {u : UserId} {tr : List (Trans System Label)} {t : Trans System Label} {row b : Balance}
    (h : Descends u tr row b) : Descends u (t :: tr) row b := by
  induction h with
  | seeded ht hn hs => exact .seeded (List.mem_cons_of_mem _ ht) hn hs
  | step _ ht hb hc ih => exact ih.step (List.mem_cons_of_mem _ ht) hb hc

theorem FromRow.older {cfg : Config} {u : UserId} {tr : List (Trans System Label)} {t : Trans System Label}
    {b : Balance} (h : FromRow cfg u tr b) : FromRow cfg u (t :: tr) b := by
  obtain ⟨t', ht, hs, hd⟩ := h
  exact ⟨t', List.mem_cons_of_mem _ ht, hs, hd.older⟩

section Step

variable {cfg : Config} {s s' : System} {l : Label} {u : UserId}

/-- What a calm step does to the lock of `u`. -/
inductive LockStep (cfg : Config) (s : System) (l : Label) (s' : System) (u : UserId) : Prop
  | same : s'.redis.loadLock.get u = s.redis.loadLock.get u → LockStep cfg s l s' u
  | acquired {x t} : ran cfg ⟨s, l, s'⟩ = some x → x.st.loader = some (u, .tryLock t) →
      s.redis.loadLock.get u = none → s'.redis.loadLock.get u = some t → LockStep cfg s l s' u
  | released {x t e} : ran cfg ⟨s, l, s'⟩ = some x → s.Holds x.owner x.st → x.st.loader = some (u, .release t e) →
      x.reply = .flag true → s.redis.loadLock.get u = some t → s'.redis.loadLock.get u = none → LockStep cfg s l s' u

theorem StepCase.lock (h : StepCase cfg s l s') (hc : calm cfg u ⟨s, l, s'⟩ = true) : LockStep cfg s l s' u := by
  cases h.store with
  | same _ he => exact .same (by rw [he])
  | expired _ he =>
    refine .same ?_
    generalize s'.redis = ρ' at he ⊢
    cases he with
    | lock w =>
      show (s.redis.loadLock.del w).get u = _
      rw [Table.get_del]
      split
      · next huw =>
        subst huw
        have hfree : s.redis.loadLock.get u = none := by simpa [calm] using hc
        exact hfree.symm
      · rfl
    | _ => rfl
  | @ran x pick hx hheld ha he =>
    have hsend := Proc.sends ha
    cases exec_lock he u with
    | same hs => exact .same hs
    | @acquired t hcall hr hn hs =>
      rw [hcall] at hsend
      exact .acquired hx hsend.of_acquire hn hs
    | @released t hcall hr hn hs =>
      rw [hcall] at hsend
      obtain ⟨e, hl⟩ := hsend.of_release
      exact .released hx hheld hl hr hn hs

theorem StepCase.absent (h : StepCase cfg s l s') (hu : s.redis.bal.get u = none) :
    s'.redis.bal.get u = none ∨ ∃ x t b, ran cfg ⟨s, l, s'⟩ = some x ∧ s.Holds x.owner x.st ∧
      x.st.loader = some (u, .seed t b) ∧ s'.redis.bal.get u = some b := by
  cases h.store with
  | same _ he => exact .inl (by rw [he, hu])
  | expired _ he =>
    generalize s'.redis = ρ' at he ⊢
    cases he with
    | balance w =>
      refine .inl ?_
      show (s.redis.bal.del w).get u = none
      rw [Table.get_del]
      split
      · rfl
      · exact hu
    | _ => exact .inl hu
  | @ran x pick hx hheld ha he =>
    rcases exec_absent he hu with hn | ⟨b, hcall, hb⟩
    · exact .inl hn
    · have hsend := Proc.sends ha
      rw [hcall] at hsend
      obtain ⟨t, hl⟩ := hsend.of_seed
      exact .inr ⟨x, t, b, hx, hheld, hl, hb⟩

theorem StepCase.present (h : StepCase cfg s l s') (hc : calm cfg u ⟨s, l, s'⟩ = true) {b : Balance}
    (hu : s.redis.bal.get u = some b) : ∃ b', s'.redis.bal.get u = some b' := by
  cases h.store with
  | same _ he => exact ⟨b, by rw [he, hu]⟩
  | expired _ he =>
    generalize s'.redis = ρ' at he ⊢
    cases he with
    | balance w =>
      have hw : w ≠ u := by simpa [calm] using hc
      exact ⟨b, (Table.get_del_of_ne _ (Ne.symm hw)).trans hu⟩
    | _ => exact ⟨b, hu⟩
  | ran hx _ _ he => exact exec_present he hu

end Step

/-! ## Who has the lock -/

/-- The token of a request that seeds under the lock or releases it. -/
def LoaderPc.parting : LoaderPc → Option Token
  | .seed t _ | .release t _ => some t
  | _ => none

theorem LoaderPc.locked_of_parting {l : LoaderPc} {t : Token} (h : l.parting = some t) : l.locked = some t := by
  cases l <;> cases h <;> rfl

/-- Who is between taking the lock of `u` and releasing it has it; and a seed or a
release that was given up is of nobody who has it. -/
structure System.Locked (u : UserId) (s : System) : Prop where
  live : ∀ p l t, (s.procs p).loader = some (u, l) → l.locked = some t → s.redis.loadLock.get u = some t
  late : ∀ p st l t q l', (p, st) ∈ s.pool → st.loader = some (u, l) → l.parting = some t →
    (s.procs q).loader = some (u, l') → l'.locked ≠ some t

section Step

variable {cfg : Config} {s s' : System} {l : Label} {u : UserId} {p : ℕ} {pc : LoaderPc} {t : Token}

/-- How a live loader came to have a lock: it had it and moved on, or it just took it. -/
theorem StepCase.locked_from (h : StepCase cfg s l s') (hl : (s'.procs p).loader = some (u, pc))
    (ht : pc.locked = some t) :
    (∃ pc₀, (s.procs p).loader = some (u, pc₀) ∧ pc₀.locked = some t) ∨
      (∃ pick now, l = .exec p pick now) ∧ (s.procs p).loader = some (u, .tryLock t) ∧
        s'.redis.loadLock.get u = some t := by
  cases h.goes p with
  | same he => rw [he] at hl; exact .inl ⟨pc, hl, ht⟩
  | @started job _ _ he =>
    rw [he] at hl
    cases (job.start_blank cfg).loader _ _ hl
    cases ht
  | crashed _ he => rw [he] at hl; cases hl
  | @resumed i now hg hd he =>
    rw [he] at hl
    rcases Proc.resume_loader hl with rfl | ⟨pc₀, hl₀, rfl | hr⟩
    · cases ht
    · exact .inl ⟨pc, hl₀, ht⟩
    · rcases LoaderPc.resume_locked hr ht with ht₀ | ⟨rfl, rfl⟩
      · exact .inl ⟨pc₀, hl₀, ht₀⟩
      · have hok := hg.callOk ((Proc.loader_action hl₀).trans rfl) rfl
        have hlock : s'.redis.loadLock.get u = some t := by
          generalize s'.redis = ρ' at hok ⊢
          cases hok with
          | acquired => exact Table.get_set_self ..
        cases hg with
        | reply => exact .inr ⟨⟨_, _, rfl⟩, hl₀, hlock⟩
        | feed hf => cases hf

/-- A release that is answered is the end of having the lock. -/
theorem released_not_locked {st : Proc} {fresh : Token} {now : ℚ} {e : Exit} {f : Bool}
    (h : st.loader = some (u, .release t e)) (hl : (st.resume cfg fresh now (.reply (.flag f))).loader = some (u, pc)) :
    pc.locked = none := by
  rw [Proc.resume_loading h] at hl
  cases e with
  | again => cases hl; rfl
  | _ => cases hl

theorem StepCase.locked (h : StepCase cfg s l s') (hlocks : s.Locks) (hs : s.Locked u)
    (hc : calm cfg u ⟨s, l, s'⟩ = true) : s'.Locked u := by
  refine ⟨fun p pc t hl ht => ?_, fun p st pc t q pc' hp hl hpart hl' ht' => ?_⟩
  · rcases h.locked_from hl ht with ⟨pc₀, hl₀, ht₀⟩ | ⟨-, -, hlock⟩
    · have hhas := hs.live p pc₀ t hl₀ ht₀
      cases h.lock hc with
      | same he => rw [he, hhas]
      | acquired _ _ hn => rw [hhas] at hn; cases hn
      | @released x t' e hx hheld hrel hrep hn hgone =>
        rw [hhas] at hn
        cases hn
        -- Only the call that has the lock can have released it.
        have hp := (hlocks.drawn p _ u pc₀ t (.inl rfl) hl₀ (LoaderPc.token_of_locked ht₀)).1
        have hx' := (hlocks.drawn x.owner x.st u _ t hheld hrel rfl).1
        rcases h.runner hx with ⟨pick, now, -, hst, hres⟩ | ⟨i, pick, -, hi, -⟩
        · rw [hst] at hrel
          rw [← hp, hx', hres, hrep] at hl
          rw [released_not_locked hrel hl] at ht
          cases ht
        · exact absurd ht₀ (hs.late _ _ _ t p pc₀ (List.mem_of_getElem? hi) hrel rfl hl₀)
    · exact hlock
  · rcases h.pooled hp with hp | ⟨ho, hm⟩
    · rcases h.locked_from hl' ht' with ⟨pc₀, hl₀, ht₀⟩ | ⟨-, hl₀, -⟩
      · exact hs.late p st pc t q pc₀ hp hl hpart hl₀ ht₀
      · exact hlocks.apart q _ u t p st u pc (.inl rfl) hl₀ (.inr hp) hl (LoaderPc.locked_of_parting hpart)
    · rcases Proc.leftovers_cases hm with rfl | hb
      · have hp := (hlocks.drawn p _ u pc t (.inl rfl) hl (LoaderPc.token_of_locked (LoaderPc.locked_of_parting hpart))).1
        rcases h.locked_from hl' ht' with ⟨pc₀, hl₀, ht₀⟩ | ⟨⟨pick, now, rfl⟩, -, -⟩
        · have hq := (hlocks.drawn q _ u pc₀ t (.inl rfl) hl₀ (LoaderPc.token_of_locked ht₀)).1
          obtain rfl : p = q := by rw [← hp, hq]
          rcases ho with rfl | rfl
          · rw [h.abandoned, Proc.resume_loading hl] at hl'
            cases pc with
            | release t e => cases hl'
            | seed t b => simp [calm, hl] at hc
            | _ => cases hpart
          · rw [h.died] at hl'
            cases hl'
        · rcases ho with ho | ho <;> cases ho
      · cases hb.1.loader _ _ hl
        cases hpart

end Step

/-! ## The phases of a load -/

/-- How often a run read the row of `u`. -/
def selections (cfg : Config) (u : UserId) (tr : List (Trans System Label)) : ℕ := (tr.filter (selects cfg u)).length

/-- The row was read by the loader that has the lock, and is on its way to Redis. -/
structure Seeding (cfg : Config) (u : UserId) (tr : List (Trans System Label)) (s : System) (p : ℕ) (t : Token)
    (b : Balance) : Prop where
  held : ∃ st, s.Holds p st ∧ st.loader = some (u, .seed t b)
  lock : s.redis.loadLock.get u = some t
  only : ∀ q st t' b', s.Holds q st → st.loader = some (u, .seed t' b') → b' = b
  unreleased : ∀ q st e, (q, st) ∈ s.pool → st.loader ≠ some (u, .release t e)
  row : ∃ sel ∈ tr, selects cfg u sel = true ∧ b = selected u sel

/-- Nobody has read the row; one has, and nobody else will; or the balance is hot. -/
inductive Phase (cfg : Config) (u : UserId) (tr : List (Trans System Label)) (s : System) : Prop
  | cold : selections cfg u tr = 0 → s.redis.bal.get u = none →
      (∀ p st t b, s.Holds p st → st.loader ≠ some (u, .seed t b)) → Phase cfg u tr s
  | seeding {p t b} : selections cfg u tr = 1 → s.redis.bal.get u = none → Seeding cfg u tr s p t b → Phase cfg u tr s
  | hot {b} : selections cfg u tr = 1 → s.redis.bal.get u = some b → FromRow cfg u tr b →
      (∀ p t, (s.procs p).loader ≠ some (u, .select t)) → Phase cfg u tr s

section Step

variable {cfg : Config} {tr : List (Trans System Label)} {s s' : System} {l : Label} {u : UserId}

theorem selections_skip (h : selects cfg u ⟨s, l, s'⟩ = false) :
    selections cfg u (⟨s, l, s'⟩ :: tr) = selections cfg u tr := by
  simp [selections, h]

theorem selections_more (h : selects cfg u ⟨s, l, s'⟩ = true) :
    selections cfg u (⟨s, l, s'⟩ :: tr) = selections cfg u tr + 1 := by
  simp [selections, h]

theorem selects_action (h : selects cfg u ⟨s, l, s'⟩ = true) :
    ∃ p ok, l = .select p ok ∧ (s.procs p).action cfg = .select u := by
  cases l with
  | select p ok =>
    refine ⟨p, ok, rfl, ?_⟩
    simp only [selects] at h
    split at h
    · next w ha => rw [ha, of_decide_eq_true h]
    · cases h
  | _ => cases h

/-- What a step does that reads the row: its call goes on to seed it. -/
theorem StepCase.selecting (h : StepCase cfg s l s') (hsel : selects cfg u ⟨s, l, s'⟩ = true)
    (hc : calm cfg u ⟨s, l, s'⟩ = true) :
    ∃ p t, (s.procs p).loader = some (u, .select t) ∧ s'.redis = s.redis ∧ s'.pool = s.pool ∧
      (s'.procs p).loader = some (u, .seed t ((s.pg.get u).getD .zero)) ∧ ∀ q, q ≠ p → s'.procs q = s.procs q := by
  obtain ⟨p, ok, rfl, ha⟩ := selects_action hsel
  obtain ⟨t, ht⟩ := Proc.select_action ha
  cases h with
  | feed hf =>
    cases hf with
    | @row _ w ha' =>
      cases ha.symm.trans ha'
      refine ⟨p, t, ht, rfl, rfl, ?_, fun q hq => Function.update_of_ne hq ..⟩
      show (Function.update s.procs p _ p).loader = _
      rw [Function.update_self, Proc.resume_loading ht]
      simp only [LoaderPc.resume, snapshotArgs_loaded]
      rfl
    | noRow ha' => simp [calm, ha] at hc
  | expire he => cases he

/-- A seed that is held was held before, or the step read the row. -/
theorem StepCase.seed_from (h : StepCase cfg s l s') {p : ℕ} {st : Proc} {t : Token} {b : Balance}
    (hh : s'.Holds p st) (hl : st.loader = some (u, .seed t b)) :
    (∃ st₀, s.Holds p st₀ ∧ st₀.loader = some (u, .seed t b)) ∨ selects cfg u ⟨s, l, s'⟩ = true := by
  cases h.origin hh with
  | kept hk => exact .inl ⟨st, hk, hl⟩
  | @started job => cases (job.start_blank cfg).loader _ _ hl
  | crashed => cases hl
  | leftover ho hm =>
    rcases Proc.leftovers_cases hm with rfl | hb
    · exact .inl ⟨_, .inl rfl, hl⟩
    · cases hb.1.loader _ _ hl
  | resumed hg hd he =>
    rcases Proc.resume_loader hl with hn | ⟨l₀, hl₀, rfl | hr⟩
    · cases hn
    · exact .inl ⟨_, .inl rfl, hl₀⟩
    · rcases LoaderPc.resume_seed hr with rfl | ⟨rfl, row, rfl, rfl⟩
      · exact .inl ⟨_, .inl rfl, hl₀⟩
      · have ha : (s.procs p).action cfg = _ := Proc.loader_action hl₀
        cases hg with
        | feed hf =>
          generalize s'.pg = pg at hf
          cases hf with
          | row ha' => exact .inr (by simp [selects, ha, LoaderPc.action])

/-- A loader that is about to read the row was so before, or found no balance. -/
theorem StepCase.select_from (h : StepCase cfg s l s') {p : ℕ} {t : Token}
    (hl : (s'.procs p).loader = some (u, .select t)) :
    (s.procs p).loader = some (u, .select t) ∨
      (s.procs p).loader = some (u, .recheck t) ∧ s.redis.bal.get u = none := by
  cases h.goes p with
  | same he => rw [he] at hl; exact .inl hl
  | @started job _ _ he => rw [he] at hl; cases (job.start_blank cfg).loader _ _ hl
  | crashed _ he => rw [he] at hl; cases hl
  | @resumed i now hg hd he =>
    rw [he] at hl
    rcases Proc.resume_loader hl with hn | ⟨l₀, hl₀, rfl | hr⟩
    · cases hn
    · exact .inl hl₀
    · rcases LoaderPc.resume_select hr with rfl | ⟨rfl, rfl⟩
      · exact .inl hl₀
      · exact .inr ⟨hl₀, (hg.balance ((Proc.loader_action hl₀).trans rfl)).1⟩

end Step

section Phase

variable {cfg : Config} {tr : List (Trans System Label)} {s s' : System} {l : Label} {u : UserId} {p : ℕ} {t : Token}
  {b : Balance}

/-- While a seed is on its way, only its own call can be between taking the lock and
releasing it. -/
theorem Seeding.alone (h : Seeding cfg u tr s p t b) (hlocks : s.Locks) (hs : s.Locked u) {q : ℕ} {pc : LoaderPc}
    {t' : Token} (hl : (s.procs q).loader = some (u, pc)) (ht : pc.locked = some t') : pc = .seed t b := by
  obtain ⟨st, hheld, hst⟩ := h.held
  have heq : t' = t := Option.some.inj ((hs.live q pc t' hl ht).symm.trans h.lock)
  subst heq
  rcases hheld with rfl | hpool
  · have hp := (hlocks.drawn p _ u _ t' (.inl rfl) hst rfl).1
    have hq := (hlocks.drawn q _ u pc t' (.inl rfl) hl (LoaderPc.token_of_locked ht)).1
    obtain rfl : p = q := by rw [← hp, hq]
    rw [hst] at hl
    cases hl
    rfl
  · exact absurd ht (hs.late p st _ t' q pc hpool hst rfl hl)

theorem Seeding.not_selecting (h : Seeding cfg u tr s p t b) (hlocks : s.Locks) (hs : s.Locked u)
    (hstep : StepCase cfg s l s') (hc : calm cfg u ⟨s, l, s'⟩ = true) : selects cfg u ⟨s, l, s'⟩ = false := by
  cases hsel : selects cfg u ⟨s, l, s'⟩ with
  | false => rfl
  | true =>
    obtain ⟨q, t', hl, -⟩ := hstep.selecting hsel hc
    cases h.alone hlocks hs hl rfl

/-- A request that runs while a seed is on its way does not release the lock. -/
theorem Seeding.not_released (h : Seeding cfg u tr s p t b) (hlocks : s.Locks) (hs : s.Locked u)
    (hstep : StepCase cfg s l s') {x : Ran} {e : Exit} {t' : Token} (hx : ran cfg ⟨s, l, s'⟩ = some x)
    (hl : x.st.loader = some (u, .release t' e)) (hlock : s.redis.loadLock.get u = some t') : False := by
  rcases hstep.runner hx with ⟨pick, now, -, hst, -⟩ | ⟨i, pick, -, hi, -⟩
  · rw [hst] at hl
    cases h.alone hlocks hs hl rfl
  · cases h.lock.symm.trans hlock
    exact h.unreleased _ _ e (List.mem_of_getElem? hi) hl

/-- The seed stays on its way until it runs. -/
theorem Seeding.kept (h : Seeding cfg u tr s p t b) (hstep : StepCase cfg s l s')
    (hc : calm cfg u ⟨s, l, s'⟩ = true) (hn : s.redis.bal.get u = none) (hn' : s'.redis.bal.get u = none) :
    ∃ st, s'.Holds p st ∧ st.loader = some (u, .seed t b) := by
  obtain ⟨st, hheld, hst⟩ := h.held
  -- A seed that runs finds no balance, and leaves one.
  have hseeds : ∀ {pick : List UserId} {r : Reply}, exec pick s.redis (.seedIfAbsent u b) = some (r, s'.redis) →
      False := by
    intro pick r he
    simp only [exec, seedIfAbsent, hn, Option.isSome_none, Bool.false_eq_true, if_false, Option.some.injEq] at he
    rw [← (Prod.mk.inj he).2] at hn'
    simp at hn'
  have hact : st.action cfg = .call (.seedIfAbsent u b) := Proc.loader_action hst
  rcases hheld with rfl | hpool
  · cases hstep.goes p with
    | same he => exact ⟨_, .inl he, hst⟩
    | started _ hi => rw [hi] at hst; cases hst
    | crashed hl =>
      subst hl
      cases hstep with
      | crash =>
        refine ⟨_, .inr (List.mem_append_left _ (List.mem_map.mpr ⟨s.procs p, ?_, rfl⟩)), hst⟩
        exact Proc.leftovers_self hact (by rw [hst]; rfl)
      | feed hf => cases hf
      | expire he => cases he
    | resumed hg =>
      cases hg with
      | reply ha he =>
        cases hact.symm.trans ha
        exact (hseeds he).elim
      | lost => simp [calm, hst] at hc
      | feed hf =>
        generalize s'.pg = pg at hf
        cases hf with
        | timeout ha => rcases ha with ha | ha <;> cases hact.symm.trans ha
        | row ha | noRow ha | committed ha | lostCommit ha | noCommit ha | called ha | provided ha | wake ha =>
          cases hact.symm.trans ha
  · rcases hstep.pool_kept hpool with hkept | ⟨x, hx, hown, hxst⟩
    · exact ⟨st, .inr hkept, hst⟩
    · obtain ⟨_, -, ha, he⟩ := hstep.executed hx
      rw [hxst] at ha
      have hcall := Action.call.inj (hact.symm.trans ha)
      rw [← hcall] at he
      exact (hseeds he).elim

theorem StepCase.phase_seeding (h : StepCase cfg s l s') (hlocks : s.Locks) (hs : s.Locked u)
    (hc : calm cfg u ⟨s, l, s'⟩ = true) (hcount : selections cfg u tr = 1) (hn : s.redis.bal.get u = none)
    (hS : Seeding cfg u tr s p t b) : Phase cfg u (⟨s, l, s'⟩ :: tr) s' := by
  have hsel := hS.not_selecting hlocks hs h hc
  have hcount' : selections cfg u (⟨s, l, s'⟩ :: tr) = 1 := by rw [selections_skip hsel, hcount]
  obtain ⟨sel, hmem, hselects, hrow⟩ := hS.row
  rcases h.absent hn with hn' | ⟨x, t', b', hx, hheld, hl, hb'⟩
  · refine .seeding hcount' hn' ⟨hS.kept h hc hn hn', ?_, fun q st t' b' hh hl => ?_, fun q st e hp hl => ?_,
      ⟨sel, List.mem_cons_of_mem _ hmem, hselects, hrow⟩⟩
    · cases h.lock hc with
      | same he => rw [he, hS.lock]
      | acquired _ _ hfree => rw [hS.lock] at hfree; cases hfree
      | released hx _ hl _ hlock => exact (hS.not_released hlocks hs h hx hl hlock).elim
    · rcases h.seed_from hh hl with ⟨st₀, hh₀, hl₀⟩ | hsel'
      · exact hS.only q st₀ t' b' hh₀ hl₀
      · rw [hsel] at hsel'; cases hsel'
    · rcases h.pooled hp with hp | ⟨-, hm⟩
      · exact hS.unreleased q st e hp hl
      · rcases Proc.leftovers_cases hm with rfl | hb
        · cases hS.alone hlocks hs hl rfl
        · cases hb.1.loader _ _ hl
  · obtain rfl := hS.only x.owner x.st t' b' hheld hl
    refine .hot hcount' hb' ⟨sel, List.mem_cons_of_mem _ hmem, hselects, ?_⟩ fun q t'' hl'' => ?_
    · rw [← hrow]
      exact .seeded (List.mem_cons_self ..) hn hb'
    · rcases h.select_from hl'' with hl₀ | ⟨hl₀, -⟩
      · cases hS.alone hlocks hs hl₀ rfl
      · cases hS.alone hlocks hs hl₀ rfl

theorem StepCase.phase_cold (h : StepCase cfg s l s') (hs : s.Locked u)
    (hc : calm cfg u ⟨s, l, s'⟩ = true) (hcount : selections cfg u tr = 0) (hn : s.redis.bal.get u = none)
    (hno : ∀ p st t b, s.Holds p st → st.loader ≠ some (u, .seed t b)) : Phase cfg u (⟨s, l, s'⟩ :: tr) s' := by
  cases hsel : selects cfg u ⟨s, l, s'⟩ with
  | false =>
    refine .cold (by rw [selections_skip hsel, hcount]) ?_ fun p st t b hh hl => ?_
    · rcases h.absent hn with hn' | ⟨x, t, b, -, hheld, hl, -⟩
      · exact hn'
      · exact absurd hl (hno _ _ t b hheld)
    · rcases h.seed_from hh hl with ⟨st₀, hh₀, hl₀⟩ | hsel'
      · exact hno p st₀ t b hh₀ hl₀
      · rw [hsel] at hsel'; cases hsel'
  | true =>
    obtain ⟨p, t, hl, hredis, hpool, hseed, hothers⟩ := h.selecting hsel hc
    refine .seeding (p := p) (t := t) (b := (s.pg.get u).getD .zero) (by rw [selections_more hsel, hcount])
      (by rw [hredis, hn]) ⟨⟨_, .inl rfl, hseed⟩, ?_, fun q st t' b' hh hl' => ?_, fun q st e hp hl' => ?_,
      ⟨_, List.mem_cons_self .., hsel, rfl⟩⟩
    · rw [hredis]
      exact hs.live p _ t hl rfl
    · rcases hh with rfl | hp
      · by_cases hq : q = p
        · subst hq
          rw [hseed] at hl'
          cases hl'
          rfl
        · rw [hothers q hq] at hl'
          exact absurd hl' (hno q _ t' b' (.inl rfl))
      · rw [hpool] at hp
        exact absurd hl' (hno q st t' b' (.inr hp))
    · rw [hpool] at hp
      exact hs.late q st _ t p _ hp hl' rfl hl rfl

theorem StepCase.phase_hot (h : StepCase cfg s l s') (hc : calm cfg u ⟨s, l, s'⟩ = true)
    (hcount : selections cfg u tr = 1) (hb : s.redis.bal.get u = some b) (hrow : FromRow cfg u tr b)
    (hno : ∀ p t, (s.procs p).loader ≠ some (u, .select t)) : Phase cfg u (⟨s, l, s'⟩ :: tr) s' := by
  have hsel : selects cfg u ⟨s, l, s'⟩ = false := by
    cases hsel : selects cfg u ⟨s, l, s'⟩ with
    | false => rfl
    | true =>
      obtain ⟨q, t', hl, -⟩ := h.selecting hsel hc
      exact absurd hl (hno q t')
  obtain ⟨b', hb'⟩ := h.present hc hb
  refine .hot (by rw [selections_skip hsel, hcount]) hb' ?_ fun q t' hl => ?_
  · obtain ⟨sel, hmem, hselects, hd⟩ := hrow
    exact ⟨sel, List.mem_cons_of_mem _ hmem, hselects, hd.older.step (List.mem_cons_self ..) hb hb'⟩
  · rcases h.select_from hl with hl₀ | ⟨-, hn⟩
    · exact hno q t' hl₀
    · rw [hb] at hn; cases hn

theorem StepCase.phase (h : StepCase cfg s l s') (hlocks : s.Locks) (hs : s.Locked u)
    (hc : calm cfg u ⟨s, l, s'⟩ = true) (hp : Phase cfg u tr s) : Phase cfg u (⟨s, l, s'⟩ :: tr) s' := by
  cases hp with
  | cold hcount hn hno => exact h.phase_cold hs hc hcount hn hno
  | seeding hcount hn hS => exact h.phase_seeding hlocks hs hc hcount hn hS
  | hot hcount hb hrow hno => exact h.phase_hot hc hcount hb hrow hno

/-- What is hot descends from the row. -/
theorem Phase.fromRow (h : Phase cfg u tr s) (hb : s.redis.bal.get u = some b) : FromRow cfg u tr b := by
  cases h with
  | cold _ hn => rw [hb] at hn; cases hn
  | seeding _ hn => rw [hb] at hn; cases hn
  | hot _ hb' hrow => cases hb.symm.trans hb'; exact hrow

theorem Phase.once (h : Phase cfg u tr s) : selections cfg u tr ≤ 1 := by
  cases h with
  | cold hcount | seeding hcount | hot hcount => omega

end Phase

/-! ## Runs -/

/-- The balance of `u` is not there, and nobody is loading it. -/
structure System.Cold (u : UserId) (s : System) : Prop where
  absent : s.redis.bal.get u = none
  unlocked : ∀ p st l, s.Holds p st → st.loader = some (u, l) → l.locked = none

/-- The row of `u` is read at most once, and every load that returns returns a state of
the hot balance that descends from it. -/
structure LoadsOnce (cfg : Config) (u : UserId) (tr : List (Trans System Label)) : Prop where
  once : selections cfg u tr ≤ 1
  descends : ∀ t ∈ tr, ∀ b, loaded cfg t = some (u, b) → FromRow cfg u tr b

/-- What holds in every state of a calm run. -/
structure Loading (cfg : Config) (u : UserId) (tr : List (Trans System Label)) (s : System) : Prop where
  locks : s.Locks
  locked : s.Locked u
  phase : Phase cfg u tr s
  returning : ∀ p l b, (s.procs p).loader = some (u, l) → l.held = some b → FromRow cfg u tr b
  returned : ∀ t ∈ tr, ∀ b, loaded cfg t = some (u, b) → FromRow cfg u tr b

section Run

variable {cfg : Config} {tr : List (Trans System Label)} {s s' : System} {l : Label} {u : UserId}

theorem System.Cold.loading (h : s.Cold u) (hlocks : s.Locks) : Loading cfg u [] s where
  locks := hlocks
  locked := by
    refine ⟨fun p l t hl ht => ?_, fun p st l t q l' _ _ _ hl' ht => ?_⟩
    · rw [h.unlocked p _ l (.inl rfl) hl] at ht
      cases ht
    · rw [h.unlocked q _ l' (.inl rfl) hl'] at ht
      cases ht
  phase := by
    refine .cold rfl h.absent fun p st t b hh hl => ?_
    cases h.unlocked p st _ hh hl
  returning p l b hl hb := by
    have hn := h.unlocked p _ l (.inl rfl) hl
    cases l with
    | release => cases hn
    | _ => cases hb
  returned t ht := by cases ht

/-- What a loader returns it held, or has just read. -/
theorem StepCase.loaded_from (h : StepCase cfg s l s') {b : Balance} (hb : loaded cfg ⟨s, l, s'⟩ = some (u, b)) :
    (∃ p pc, (s.procs p).loader = some (u, pc) ∧ pc.held = some b) ∨ s.redis.bal.get u = some b := by
  cases l with
  | exec p pick now =>
    cases h with
    | @exec _ _ _ c r ρ hc he =>
      simp only [loaded, ran, hc, he, Option.map_some] at hb
      split at hb
      · next w pc hx hl =>
        cases hx
        split at hb
        · next c hr =>
          cases hb
          rcases LoaderPc.resume_ret hr with ⟨hrep, rfl⟩ | hheld
          · rw [Proc.loader_action hl] at hc
            cases hc
            cases hrep
            simp only [GenerationBalance.exec, Option.some.injEq, Prod.mk.injEq, Reply.balance.injEq] at he
            exact .inr he.1
          · exact .inl ⟨p, pc, hl, hheld⟩
        · cases hb
      · cases hb
    | feed hf => cases hf
    | expire he => cases he
  | _ => cases hb

theorem StepCase.loading (h : StepCase cfg s l s') (hs : Loading cfg u tr s) (hc : calm cfg u ⟨s, l, s'⟩ = true) :
    Loading cfg u (⟨s, l, s'⟩ :: tr) s' where
  locks := h.locks hs.locks
  locked := h.locked hs.locks hs.locked hc
  phase := h.phase hs.locks hs.locked hc hs.phase
  returning p pc b hl hb := by
    rcases h.held_from hl hb with ⟨pc₀, hl₀, hb₀⟩ | hhot
    · exact (hs.returning p pc₀ b hl₀ hb₀).older
    · exact (hs.phase.fromRow hhot).older
  returned t ht b hb := by
    rcases List.mem_cons.mp ht with rfl | ht
    · rcases h.loaded_from hb with ⟨p, pc, hl, hheld⟩ | hhot
      · exact (hs.returning p pc b hl hheld).older
      · exact (hs.phase.fromRow hhot).older
    · exact (hs.returned t ht b hb).older

end Run

theorem Runs.locks {cfg : Config} {pg : Rows} {tr : List (Trans System Label)} {s : System}
    (hr : Runs cfg (System.start pg) tr s) : s.Locks :=
  hr.invariant (P := fun _ => True) (fun _ _ => trivial) (System.start_locks pg) fun hs hstep _ => (step_cases hstep).locks hs

/-- **A cold balance is loaded once.** -/
theorem System.Cold.loadsOnce {cfg : Config} {pg : Rows} {tr₀ tr : List (Trans System Label)} {s₀ s : System}
    {u : UserId} (hr₀ : Runs cfg (System.start pg) tr₀ s₀) (hcold : s₀.Cold u) (hr : Runs cfg s₀ tr s)
    (hc : ∀ t ∈ tr, calm cfg u t = true) : LoadsOnce cfg u tr := by
  have hinv : Loading cfg u tr s := hr.invariant_history (I := Loading cfg u) hc (hcold.loading (Runs.locks hr₀))
    fun _ _ ih hs hp => (step_cases hs).loading ih hp
  exact ⟨hinv.phase.once, hinv.returned⟩

/-! ## Whatever expires -/

/-- A transition of a run took the lock of `u` for the call `p`. -/
def Acquired (cfg : Config) (tr : List (Trans System Label)) (u : UserId) (token : Token) (p : ℕ) : Prop :=
  ∃ t ∈ tr, ∃ x, ran cfg t = some x ∧ x.owner = p ∧ x.call = .tryAcquireLoadLock u token ∧ x.reply = .flag true

/-- A lock that a request removes was taken by the call that sent it. -/
def ReleasesOwn (cfg : Config) (tr : List (Trans System Label)) (t : Trans System Label) : Prop :=
  ∀ x u token, ran cfg t = some x → t.pre.redis.loadLock.get u = some token →
    t.post.redis.loadLock.get u ≠ some token → Acquired cfg tr u token x.owner

/-- A seed that finds a balance leaves everything as it is. -/
def SeedsAbsent (cfg : Config) (t : Trans System Label) : Prop :=
  ∀ x u b c, ran cfg t = some x → x.call = .seedIfAbsent u b → t.pre.redis.bal.get u = some c →
    t.post.redis = t.pre.redis

/-- Locks are of the calls that took them, and so far no step has done otherwise. -/
structure Orderly (cfg : Config) (tr : List (Trans System Label)) (s : System) : Prop where
  locks : s.Locks
  acquired : ∀ u token, s.redis.loadLock.get u = some token → Acquired cfg tr u token token.owner
  releases : ∀ t ∈ tr, ReleasesOwn cfg tr t
  seeds : ∀ t ∈ tr, SeedsAbsent cfg t

section Step

variable {cfg : Config} {tr : List (Trans System Label)} {t : Trans System Label} {s s' : System} {l : Label} {u : UserId}

theorem Acquired.older {token : Token} {p : ℕ} (h : Acquired cfg tr u token p) : Acquired cfg (t :: tr) u token p := by
  obtain ⟨t', ht, hx⟩ := h
  exact ⟨t', List.mem_cons_of_mem _ ht, hx⟩

theorem ReleasesOwn.older {t' : Trans System Label} (h : ReleasesOwn cfg tr t') : ReleasesOwn cfg (t :: tr) t' :=
  fun x u token hx hlock hgone => (h x u token hx hlock hgone).older

theorem StepCase.acquired (h : StepCase cfg s l s') (hs : Orderly cfg tr s) {token : Token}
    (hlock : s'.redis.loadLock.get u = some token) : Acquired cfg (⟨s, l, s'⟩ :: tr) u token token.owner := by
  cases h.store with
  | same _ he => rw [he] at hlock; exact (hs.acquired u token hlock).older
  | expired _ he =>
    generalize s'.redis = ρ' at he hlock
    cases he with
    | lock w =>
      replace hlock : (s.redis.loadLock.del w).get u = some token := hlock
      rw [Table.get_del] at hlock
      split at hlock
      · cases hlock
      · exact (hs.acquired u token hlock).older
    | _ => exact (hs.acquired u token hlock).older
  | @ran x pick hx hheld ha he =>
    cases exec_lock he u with
    | same hsame => rw [hsame] at hlock; exact (hs.acquired u token hlock).older
    | @acquired t' hcall hr hn hset =>
      rw [hset] at hlock
      cases hlock
      have hsend := Proc.sends ha
      rw [hcall] at hsend
      have hown := (hs.locks.drawn x.owner x.st u _ token hheld hsend.of_acquire rfl).1
      exact ⟨_, List.mem_cons_self .., x, hx, hown.symm, hcall, hr⟩
    | released _ _ _ hgone => rw [hgone] at hlock; cases hlock

theorem StepCase.releasesOwn (h : StepCase cfg s l s') (hs : Orderly cfg tr s) :
    ReleasesOwn cfg (⟨s, l, s'⟩ :: tr) ⟨s, l, s'⟩ := by
  intro x w token hx hlock hgone
  obtain ⟨_, hheld, ha, he⟩ := h.executed hx
  cases exec_lock he w with
  | same hsame => exact absurd (hsame.trans hlock) hgone
  | acquired _ _ hn => cases hn.symm.trans hlock
  | released hcall _ hn =>
    cases hn.symm.trans hlock
    have hsend := Proc.sends ha
    rw [hcall] at hsend
    obtain ⟨e, hl⟩ := hsend.of_release
    have hown := (hs.locks.drawn x.owner x.st w _ token hheld hl rfl).1
    exact hown ▸ (hs.acquired w token hlock).older

theorem StepCase.seedsAbsent (h : StepCase cfg s l s') : SeedsAbsent cfg ⟨s, l, s'⟩ := by
  intro x w b c hx hcall hb
  obtain ⟨_, -, -, he⟩ := h.executed hx
  rw [hcall] at he
  simp only at hb
  simp only [GenerationBalance.exec, seedIfAbsent, hb, Option.isSome_some, if_true, Option.some.injEq] at he
  exact ((Prod.mk.inj he).2).symm

theorem StepCase.orderly (h : StepCase cfg s l s') (hs : Orderly cfg tr s) : Orderly cfg (⟨s, l, s'⟩ :: tr) s' where
  locks := h.locks hs.locks
  acquired _ _ hlock := h.acquired hs hlock
  releases t ht := by
    rcases List.mem_cons.mp ht with rfl | ht
    · exact h.releasesOwn hs
    · exact (hs.releases t ht).older
  seeds t ht := by
    rcases List.mem_cons.mp ht with rfl | ht
    · exact h.seedsAbsent
    · exact hs.seeds t ht

end Step

theorem Runs.orderly {cfg : Config} {pg : Rows} {tr : List (Trans System Label)} {s : System}
    (hr : Runs cfg (System.start pg) tr s) : Orderly cfg tr s := by
  refine hr.invariant_history (I := Orderly cfg) (P := fun _ => True) (fun _ _ => trivial) ?_
    fun _ _ ih hs _ => (step_cases hs).orderly ih
  exact ⟨System.start_locks pg, fun u token h => (by cases h), fun t ht => (by cases ht), fun t ht => (by cases ht)⟩

/-- **The cold load**: in calm runs the row is read once and all that is returned
descends from it; in every run a release removes only its call's own lock, and a seed
never overwrites. -/
theorem cold_load (cfg : Config) (pg : Rows) :
    (∀ {tr₀ tr : List (Trans System Label)} {s₀ s : System} {u : UserId}, Runs cfg (System.start pg) tr₀ s₀ →
      s₀.Cold u → Runs cfg s₀ tr s → (∀ t ∈ tr, calm cfg u t = true) → LoadsOnce cfg u tr) ∧
    ∀ {tr : List (Trans System Label)} {s : System}, Runs cfg (System.start pg) tr s →
      ∀ t ∈ tr, ReleasesOwn cfg tr t ∧ SeedsAbsent cfg t :=
  ⟨fun hr₀ hcold hr hc => hcold.loadsOnce hr₀ hr hc,
    fun hr t ht => ⟨(Runs.orderly hr).releases t ht, (Runs.orderly hr).seeds t ht⟩⟩

/-- Two calls load one user, the second of them while the first has the lock. -/
def racedSchedule : List Label :=
  [.spawn 0 (.balance 1), .spawn 1 (.balance 1), .exec 0 [] 0, .exec 1 [] 0, .exec 0 [] 0, .exec 1 [] 0, .exec 0 [] 0,
    .select 0 true, .exec 0 [] 0, .exec 0 [] 0, .exec 0 [] 0, .wake 1, .exec 1 [] 0]

/-- Both get the row, which was read once. -/
theorem cold_load_raced : ∃ tr s, Runs {} (System.start dollarRows) tr s ∧ selections {} 1 tr = 1 ∧
    LoadsOnce {} 1 tr ∧ (tr.filter fun t => (loaded {} t).isSome).length = 2 := by
  obtain ⟨tr, s, hr, hp⟩ := Runs.of_schedule {} (System.start dollarRows) racedSchedule
    (fun tr _ => tr.all (calm {} 1) && decide (selections {} 1 tr = 1) &&
      decide ((tr.filter fun t => (loaded {} t).isSome).length = 2)) (by decide +kernel)
  simp only [Bool.and_eq_true, List.all_eq_true, decide_eq_true_eq] at hp
  have hcold : (System.start dollarRows).Cold 1 := by
    refine ⟨rfl, fun p st l hh hl => ?_⟩
    rw [System.start_holds hh] at hl
    cases hl
  exact ⟨tr, s, hr, hp.1.2, (cold_load {} dollarRows).1 .refl hcold hr hp.1.1, hp.2⟩

end GenerationBalance
