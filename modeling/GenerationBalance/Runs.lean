/-
Runs of the system: which calls are held in a state and where a step takes them
from, which request a step runs, and what befalls the stores. The invariants
are proved from these cases, never from `step` itself.
-/
import GenerationBalance.System
import GenerationBalance.Views

namespace GenerationBalance

open Transition

/-! ## Held calls -/

/-- A call is held: it is live, or it gave a request up that may still run. -/
def System.Holds (s : System) (p : ℕ) (st : Proc) : Prop := s.procs p = st ∨ (p, st) ∈ s.pool

theorem Proc.leftovers_cases {cfg : Config} {st st' : Proc} (h : st' ∈ st.leftovers cfg) :
    st' = st ∨ st'.Blank ∧ st'.command = none ∧ ∀ x ∈ st'.clears, x ∈ st.clears := by
  unfold Proc.leftovers at h
  split at h
  · next user todo written =>
    obtain ⟨x, hx, rfl⟩ := List.mem_map.mp h
    refine .inr ⟨⟨fun _ _ h => (by cases h), rfl, rfl, rfl, rfl, rfl, rfl, rfl⟩, rfl, fun y hy => ?_⟩
    cases List.mem_singleton.mp hy
    exact hx
  · split at h
    · exact .inl (List.mem_singleton.mp h)
    · cases h

/-- A loader that gives its request up leaves it as it is. -/
theorem Proc.leftovers_self {cfg : Config} {st : Proc} {c : Call} (h : st.action cfg = .call c)
    (hl : st.loader.isSome) : st ∈ st.leftovers cfg := by
  cases st with
  | flush pc => cases hl
  | idle | crashed => cases h
  | _ => simp only [Proc.leftovers, h, List.mem_singleton]

/-- What a step gives the call `p`. -/
inductive Given (cfg : Config) (s s' : System) : Label → ℕ → Input → Prop
  | reply {p pick now c r} : (s.procs p).action cfg = .call c → exec pick s.redis c = some (r, s'.redis) →
      s'.pg = s.pg → Given cfg s s' (.exec p pick now) p (.reply r)
  | lost {p c} : (s.procs p).action cfg = .call c → s'.redis = s.redis → s'.pg = s.pg →
      Given cfg s s' (.abandon p) p .lost
  | feed {l p i} : Feeds cfg s l p i s'.pg → s'.redis = s.redis → Given cfg s s' l p i

section Given

variable {cfg : Config} {s s' : System} {l : Label} {p : ℕ}

/-- A call that is answered sent a request, and the answer is Redis's. -/
theorem Given.answer {r : Reply} (h : Given cfg s s' l p (.reply r)) :
    ∃ pick c, (s.procs p).action cfg = .call c ∧ exec pick s.redis c = some (r, s'.redis) ∧ s'.pg = s.pg := by
  cases h with
  | reply hc he hp => exact ⟨_, _, hc, he, hp⟩
  | feed hf => cases hf

/-- A balance that a call is answered is the stored one. -/
theorem Given.balance {u : UserId} {b : Option Balance} (h : Given cfg s s' l p (.reply (.balance b)))
    (ha : (s.procs p).action cfg = .call (.load u)) : s.redis.bal.get u = b ∧ s'.redis = s.redis := by
  obtain ⟨pick, c, hc, he, -⟩ := h.answer
  rw [ha] at hc
  cases hc
  simp only [exec, Option.some.injEq, Prod.mk.injEq, Reply.balance.injEq] at he
  exact ⟨he.1, he.2.symm⟩

/-- A record that a call is answered is the stored one. -/
theorem Given.record {id : RequestId} {g : Option GenerationHash} (h : Given cfg s s' l p (.reply (.record g)))
    (ha : (s.procs p).action cfg = .call (.getGeneration id)) : s.redis.gen.get id = g ∧ s'.redis = s.redis := by
  obtain ⟨pick, c, hc, he, -⟩ := h.answer
  rw [ha] at hc
  cases hc
  simp only [exec, Option.some.injEq, Prod.mk.injEq, Reply.record.injEq] at he
  exact ⟨he.1, he.2.symm⟩

/-- What a script answers a call when no command stops it. -/
theorem Given.callOk {c : Call} {r : Reply} (h : Given cfg s s' l p (.reply r))
    (ha : (s.procs p).action cfg = .call c) (hr : r.isError = false) : CallOk s.redis c r s'.redis := by
  obtain ⟨pick, c', hc, he, -⟩ := h.answer
  rw [ha] at hc
  cases hc
  exact exec_ok he hr

theorem Given.reserve {v : Reservation} {r : ReserveReply} (h : Given cfg s s' l p (.reply (.reserve r)))
    (hv : (s.procs p).reserving = some v) : ReserveOk v.args s.redis r s'.redis := by
  have hok := h.callOk (Proc.reserving_action hv) rfl
  generalize s'.redis = ρ' at hok ⊢
  cases hok with
  | reserve hr => exact hr

theorem Given.settle {a : SettleArgs} {r : SettleReply} (h : Given cfg s s' l p (.reply (.settle r)))
    (ha : (s.procs p).action cfg = .call (.settle a)) : SettleOk a s.redis r s'.redis := by
  have hok := h.callOk ha rfl
  generalize s'.redis = ρ' at hok ⊢
  cases hok with
  | settle hr => exact hr

theorem Given.refund {a : RefundArgs} {r : RefundReply} (h : Given cfg s s' l p (.reply (.refund r)))
    (ha : (s.procs p).action cfg = .call (.refund a)) : RefundOk a s.redis r s'.redis := by
  have hok := h.callOk ha rfl
  generalize s'.redis = ρ' at hok ⊢
  cases hok with
  | refund hr => exact hr

theorem Given.row {row : Option Balance} (h : Given cfg s s' l p (.row (some row))) :
    ∃ u, (s.procs p).action cfg = .select u ∧ row = s.pg.get u := by
  cases h with
  | feed hf =>
    generalize s'.pg = pg at hf
    cases hf with
    | row ha => exact ⟨_, ha, rfl⟩

/-- What a loader is about to seed it was about to seed before, or is the row of
its user. -/
theorem Given.seed {i : Input} {fresh t : Token} {now : ℚ} {u : UserId} {b : Balance} (h : Given cfg s s' l p i)
    (hl : ((s.procs p).resume cfg fresh now i).loader = some (u, .seed t b)) :
    (s.procs p).loader = some (u, .seed t b) ∨ b = (s.pg.get u).getD .zero := by
  rcases Proc.resume_loader hl with hload | ⟨l, hbefore, rfl | hr⟩
  · cases hload
  · exact .inl hbefore
  · rcases LoaderPc.resume_seed hr with rfl | ⟨rfl, row, rfl, rfl⟩
    · exact .inl hbefore
    · obtain ⟨w, ha, rfl⟩ := h.row
      rw [Proc.loader_action hbefore] at ha
      cases ha
      exact .inr rfl

theorem Given.committed {answer : List UserId × List Rejected} (h : Given cfg s s' l p (.committed (some answer))) :
    ∃ rows, (s.procs p).action cfg = .commit rows ∧ writeRows rows s.pg = some (answer, s'.pg) := by
  cases h with
  | feed hf =>
    cases hf with
    | committed hr hw => exact ⟨_, hr, hw⟩

theorem Given.provided_label {o : ProviderOutcome} (h : Given cfg s s' l p (.provided o)) :
    l = .provided p o := by
  cases h with
  | feed hf =>
    generalize s'.pg = pg at hf
    cases hf with
    | provided => rfl

end Given

/-- How a call goes on in a step. -/
inductive Goes (cfg : Config) (s s' : System) (l : Label) (p : ℕ) : Prop
  | same : s'.procs p = s.procs p → Goes cfg s s' l p
  | started {job} : l = .spawn p job → s.procs p = .idle → s'.procs p = job.start cfg → Goes cfg s s' l p
  | resumed {i now} : Given cfg s s' l p i → s'.draws = s.draws + 1 →
      s'.procs p = (s.procs p).resume cfg ⟨p, s.draws⟩ now i → Goes cfg s s' l p
  | crashed : l = .crash p → s'.procs p = .crashed → Goes cfg s s' l p

theorem StepCase.goes {cfg : Config} {s s' : System} {l : Label} (h : StepCase cfg s l s') (p : ℕ) :
    Goes cfg s s' l p := by
  have live : ∀ {q : ℕ} {st : Proc}, s'.procs = Function.update s.procs q st →
      (q = p → s'.procs p = st → Goes cfg s s' l p) → Goes cfg s s' l p := by
    intro q st he ho
    by_cases hq : q = p
    · exact ho hq (by rw [he, ← hq, Function.update_self])
    · exact .same (by rw [he, Function.update_of_ne (Ne.symm hq)])
  cases h with
  | spawn hi => exact live rfl fun hq hp => by subst hq; exact .started rfl hi hp
  | exec hc he => exact live rfl fun hq hp => by subst hq; exact .resumed (.reply hc he rfl) rfl hp
  | abandon hc => exact live rfl fun hq hp => by subst hq; exact .resumed (.lost hc rfl rfl) rfl hp
  | late => exact .same rfl
  | feed hf => exact live rfl fun hq hp => by subst hq; exact .resumed (.feed hf rfl) rfl hp
  | crash => exact live rfl fun hq hp => by subst hq; exact .crashed rfl hp
  | expire => exact .same rfl

/-- What a loader is about to return it held before, or has just read. -/
theorem StepCase.held_from {cfg : Config} {s s' : System} {l : Label} (h : StepCase cfg s l s') {p : ℕ} {u : UserId}
    {pc : LoaderPc} {b : Balance}
    (hl : (s'.procs p).loader = some (u, pc)) (hb : pc.held = some b) :
    (∃ pc₀, (s.procs p).loader = some (u, pc₀) ∧ pc₀.held = some b) ∨ s.redis.bal.get u = some b := by
  cases h.goes p with
  | same he => rw [he] at hl; exact .inl ⟨pc, hl, hb⟩
  | @started job _ _ he =>
    rw [he] at hl
    cases (job.start_blank cfg).loader _ _ hl
    cases hb
  | crashed _ he => rw [he] at hl; cases hl
  | @resumed i now hg hd he =>
    rw [he] at hl
    rcases Proc.resume_loader hl with rfl | ⟨pc₀, hl₀, rfl | hr⟩
    · cases hb
    · exact .inl ⟨pc, hl₀, hb⟩
    · rcases LoaderPc.resume_held hr hb with hb₀ | ⟨rfl, t, rfl⟩
      · exact .inl ⟨pc₀, hl₀, hb₀⟩
      · exact .inr (hg.balance ((Proc.loader_action hl₀).trans rfl)).1

/-- A request that was given up was so before, or the step gave it up. -/
theorem StepCase.pooled {cfg : Config} {s s' : System} {l : Label} {p : ℕ} {st : Proc} (h : StepCase cfg s l s')
    (hp : (p, st) ∈ s'.pool) :
    (p, st) ∈ s.pool ∨ (l = .abandon p ∨ l = .crash p) ∧ st ∈ (s.procs p).leftovers cfg := by
  have spill : ∀ {q : ℕ}, s'.pool = ((s.procs q).leftovers cfg).map (q, ·) ++ s.pool →
      l = .abandon q ∨ l = .crash q →
      (p, st) ∈ s.pool ∨ (l = .abandon p ∨ l = .crash p) ∧ st ∈ (s.procs p).leftovers cfg := by
    intro q he hl
    rw [he] at hp
    rcases List.mem_append.mp hp with hp | hp
    · obtain ⟨x, hx, he⟩ := List.mem_map.mp hp
      cases he
      exact .inr ⟨hl, hx⟩
    · exact .inl hp
  cases h with
  | spawn | exec | feed | expire => exact .inl hp
  | abandon => exact spill rfl (.inl rfl)
  | late => exact .inl (List.mem_of_mem_eraseIdx hp)
  | crash => exact spill rfl (.inr rfl)

/-- Where a held call comes from. -/
inductive Origin (cfg : Config) (s s' : System) (l : Label) (p : ℕ) : Proc → Prop
  | kept {st} : s.Holds p st → Origin cfg s s' l p st
  | started {job} : l = .spawn p job → s.procs p = .idle → s'.procs p = job.start cfg →
      Origin cfg s s' l p (job.start cfg)
  | resumed {i now} : Given cfg s s' l p i → s'.draws = s.draws + 1 →
      s'.procs p = (s.procs p).resume cfg ⟨p, s.draws⟩ now i →
      Origin cfg s s' l p ((s.procs p).resume cfg ⟨p, s.draws⟩ now i)
  | crashed : l = .crash p → s'.procs p = .crashed → Origin cfg s s' l p .crashed
  | leftover {st} : l = .abandon p ∨ l = .crash p → st ∈ (s.procs p).leftovers cfg → Origin cfg s s' l p st

theorem StepCase.origin {cfg : Config} {s s' : System} {l : Label} {p : ℕ} {st : Proc} (h : StepCase cfg s l s')
    (hh : s'.Holds p st) : Origin cfg s s' l p st := by
  rcases hh with rfl | hp
  · cases h.goes p with
    | same he => exact .kept (.inl he.symm)
    | started hl hi he => rw [he]; exact .started hl hi he
    | resumed hg hd he => rw [he]; exact .resumed hg hd he
    | crashed hl he => rw [he]; exact .crashed hl he
  · rcases h.pooled hp with hp | ⟨hl, hm⟩
    · exact .kept (.inr hp)
    · exact .leftover hl hm

theorem StepCase.draws_le {cfg : Config} {s s' : System} {l : Label} (h : StepCase cfg s l s') :
    s.draws ≤ s'.draws := by
  cases h with
  | exec | abandon | feed => exact Nat.le_succ _
  | _ => exact le_refl _

/-- **Rule for held calls.** What holds of every held call keeps holding, when a
step of the stores keeps it, a call that goes on keeps it, and it asks nothing of a
call that holds nothing. -/
theorem StepCase.held {cfg : Config} {s s' : System} {l : Label} {Q : System → Proc → Prop}
    (h : StepCase cfg s l s') (hQ : ∀ p st, s.Holds p st → Q s st)
    (stable : ∀ st, Q s st → Q s' st) (blank : ∀ st, st.Blank → Q s' st)
    (resume : ∀ p i now, Given cfg s s' l p i → s'.draws = s.draws + 1 → Q s (s.procs p) →
      Q s' ((s.procs p).resume cfg ⟨p, s.draws⟩ now i)) :
    ∀ p st, s'.Holds p st → Q s' st := by
  intro p st hh
  cases h.origin hh with
  | kept hk => exact stable st (hQ p st hk)
  | @started job => exact blank _ (job.start_blank cfg)
  | resumed hg hd he => exact resume p _ _ hg hd (hQ p _ (.inl rfl))
  | crashed => exact blank _ Proc.blank_crashed
  | leftover hl hm =>
    rcases Proc.leftovers_cases hm with rfl | hb
    · exact stable _ (hQ p _ (.inl rfl))
    · exact blank st hb.1

theorem System.start_holds {pg : Rows} {p : ℕ} {st : Proc} (h : (System.start pg).Holds p st) : st = .idle := by
  rcases h with rfl | h
  · rfl
  · cases h

/-- A call of the provider. -/
theorem StepCase.provider {cfg : Config} {s s' : System} {p : ℕ} (h : StepCase cfg s (.provider p) s') :
    ∃ request v, s.procs p = .gen request (.calling v) ∧ s'.procs p = .gen request (.generating v) ∧
      s'.redis = s.redis ∧ ∀ q, q ≠ p → s'.procs q = s.procs q := by
  cases h with
  | feed hf =>
    cases hf with
    | called ha =>
      obtain ⟨v, hst⟩ := Proc.provider_action ha
      refine ⟨_, v, hst, ?_, rfl, fun q hq => ?_⟩
      · show Function.update s.procs p _ p = _
        rw [Function.update_self, hst]
        rfl
      · show Function.update s.procs p _ q = _
        rw [Function.update_of_ne hq]
  | expire he => cases he

theorem StepCase.abandoned {cfg : Config} {s s' : System} {p : ℕ} (h : StepCase cfg s (.abandon p) s') :
    s'.procs p = (s.procs p).resume cfg ⟨p, s.draws⟩ 0 .lost := by
  cases h with
  | abandon hc => exact Function.update_self ..
  | feed hf => cases hf
  | expire he => cases he

theorem StepCase.died {cfg : Config} {s s' : System} {p : ℕ} (h : StepCase cfg s (.crash p) s') :
    s'.procs p = .crashed := by
  cases h with
  | crash => exact Function.update_self ..
  | feed hf => cases hf
  | expire he => cases he

/-! ## Requests that run -/

/-- A request that ran: the call that sent it, the request, and the answer. -/
structure Ran where
  owner : ℕ
  st : Proc
  call : Call
  reply : Reply

/-- The request a transition runs. -/
def ran (cfg : Config) (t : Trans System Label) : Option Ran :=
  match t.label with
  | .exec p pick _ =>
    match (t.pre.procs p).action cfg with
    | .call c => (exec pick t.pre.redis c).map fun x => ⟨p, t.pre.procs p, c, x.1⟩
    | _ => none
  | .late i pick =>
    match t.pre.pool[i]? with
    | some (p, st) =>
      match st.action cfg with
      | .call c => (exec pick t.pre.redis c).map fun x => ⟨p, st, c, x.1⟩
      | _ => none
    | none => none
  | _ => none

/-- What a transition does to Redis. -/
inductive StoreStep (cfg : Config) (s : System) (l : Label) (s' : System) : Prop
  | same : ran cfg ⟨s, l, s'⟩ = none → s'.redis = s.redis → StoreStep cfg s l s'
  | ran {x pick} : ran cfg ⟨s, l, s'⟩ = some x → s.Holds x.owner x.st → x.st.action cfg = .call x.call →
      exec pick s.redis x.call = some (x.reply, s'.redis) → s'.pg = s.pg → StoreStep cfg s l s'
  | expired : ran cfg ⟨s, l, s'⟩ = none → Expires s.redis l s'.redis → s'.pg = s.pg → StoreStep cfg s l s'

theorem StepCase.store {cfg : Config} {s s' : System} {l : Label} (h : StepCase cfg s l s') :
    StoreStep cfg s l s' := by
  cases h with
  | spawn | abandon | crash => exact .same rfl rfl
  | feed hf => cases hf <;> exact .same rfl rfl
  | expire he => cases he <;> exact .expired rfl (by constructor) rfl
  | @exec p pick now c r ρ hc he =>
    refine @StoreStep.ran _ _ _ _ ⟨p, s.procs p, c, r⟩ pick ?_ (.inl rfl) hc he rfl
    simp only [GenerationBalance.ran, hc, he, Option.map_some]
  | @late i pick p st c r ρ hi hc he =>
    refine @StoreStep.ran _ _ _ _ ⟨p, st, c, r⟩ pick ?_ (.inr (List.mem_of_getElem? hi)) hc he rfl
    simp only [GenerationBalance.ran, hi, hc, he, Option.map_some]

/-- What a request that runs does. -/
theorem StepCase.executed {cfg : Config} {s s' : System} {l : Label} {x : Ran} (h : StepCase cfg s l s')
    (hx : ran cfg ⟨s, l, s'⟩ = some x) :
    ∃ pick, s.Holds x.owner x.st ∧ x.st.action cfg = .call x.call ∧
      GenerationBalance.exec pick s.redis x.call = some (x.reply, s'.redis) := by
  cases h.store with
  | same hn => cases hx.symm.trans hn
  | expired hn => cases hx.symm.trans hn
  | ran hy hheld ha he =>
    cases hx.symm.trans hy
    exact ⟨_, hheld, ha, he⟩

/-- Who runs a request: the call itself, which goes on with the answer, or nobody any
more. -/
theorem StepCase.runner {cfg : Config} {s s' : System} {l : Label} {x : Ran} (h : StepCase cfg s l s')
    (hx : ran cfg ⟨s, l, s'⟩ = some x) :
    (∃ pick now, l = .exec x.owner pick now ∧ x.st = s.procs x.owner ∧
      s'.procs x.owner = (s.procs x.owner).resume cfg ⟨x.owner, s.draws⟩ now (.reply x.reply)) ∨
      ∃ i pick, l = .late i pick ∧ s.pool[i]? = some (x.owner, x.st) ∧ s'.procs = s.procs := by
  cases h with
  | spawn | abandon | crash => cases hx
  | feed hf => cases hf <;> cases hx
  | expire he => cases he <;> cases hx
  | @exec p pick now c r ρ hc he =>
    simp only [ran, hc, he, Option.map_some, Option.some.injEq] at hx
    subst hx
    exact .inl ⟨pick, now, rfl, rfl, Function.update_self ..⟩
  | @late i pick p st c r ρ hi hc he =>
    simp only [ran, hi, hc, he, Option.map_some, Option.some.injEq] at hx
    subst hx
    exact .inr ⟨i, pick, rfl, hi, rfl⟩

/-- A request that was given up is kept until it runs. -/
theorem StepCase.pool_kept {cfg : Config} {s s' : System} {l : Label} {p : ℕ} {st : Proc} (h : StepCase cfg s l s')
    (hp : (p, st) ∈ s.pool) : (p, st) ∈ s'.pool ∨ ∃ x, ran cfg ⟨s, l, s'⟩ = some x ∧ x.owner = p ∧ x.st = st := by
  cases h with
  | spawn | exec | feed | expire => exact .inl hp
  | abandon | crash => exact .inl (List.mem_append_right _ hp)
  | @late i pick q st' c r ρ hi hc he =>
    obtain ⟨j, hj⟩ := List.mem_iff_getElem?.mp hp
    by_cases hij : j = i
    · subst hij
      rw [hi] at hj
      cases hj
      exact .inr ⟨⟨p, st, c, r⟩, by simp only [ran, hi, hc, he, Option.map_some], rfl, rfl⟩
    · exact .inl (List.mem_eraseIdx_iff_getElem?.mpr ⟨j, hij, hj⟩)

/-- What a transition does to the rows. -/
theorem StepCase.rows {cfg : Config} {s s' : System} {l : Label} (h : StepCase cfg s l s') :
    s'.pg = s.pg ∨ ∃ p rows answer, (s.procs p).action cfg = .commit rows ∧
      writeRows rows s.pg = some (answer, s'.pg) := by
  cases h with
  | feed hf =>
    cases hf with
    | committed hr hw => exact .inr ⟨_, _, _, hr, hw⟩
    | lostCommit hr hw => exact .inr ⟨_, _, _, hr, hw⟩
    | _ => exact .inl rfl
  | _ => exact .inl rfl

/-! ## What a call is given, by what it awaits -/

section Given

variable {cfg : Config} {s s' : System} {l : Label} {p : ℕ} {i : Input}

theorem Feeds.action_ne {pg : Rows} (h : Feeds cfg s l p i pg) :
    (s.procs p).action cfg ≠ .none ∧ ∀ c, (s.procs p).action cfg ≠ .call c := by
  cases h with
  | timeout ha => rcases ha with ha | ha <;> simp [ha]
  | row ha | noRow ha | committed ha | lostCommit ha | noCommit ha | called ha | provided ha | wake ha =>
    simp [ha]

theorem Given.awaits (h : Given cfg s s' l p i) : (s.procs p).action cfg ≠ .none := by
  cases h with
  | reply hc => simp [hc]
  | lost hc => simp [hc]
  | feed hf => exact hf.action_ne.1

/-- A call that sent a request is answered, or gives it up. -/
theorem Given.called {c : Call} (h : Given cfg s s' l p i) (ha : (s.procs p).action cfg = .call c) :
    (∃ pick r, i = .reply r ∧ ran cfg ⟨s, l, s'⟩ = some ⟨p, s.procs p, c, r⟩ ∧
      exec pick s.redis c = some (r, s'.redis)) ∨ i = .lost ∧ l = .abandon p ∧ s'.redis = s.redis := by
  cases h with
  | @reply _ pick now c' r hc he =>
    rw [ha] at hc
    cases hc
    exact .inl ⟨pick, r, rfl, by simp only [ran, ha, he, Option.map_some], he⟩
  | lost hc hre => exact .inr ⟨rfl, rfl, hre⟩
  | feed hf => exact absurd ha (hf.action_ne.2 c)

/-- A call that waits for the provider hears of it, or of the time. -/
theorem Given.answered (h : Given cfg s s' l p i) (ha : (s.procs p).action cfg = .answer) :
    (∃ o, i = .provided o ∧ l = .provided p o) ∨ i = .timeout := by
  cases h with
  | reply hc => rw [ha] at hc; cases hc
  | lost hc => rw [ha] at hc; cases hc
  | feed hf =>
    generalize s'.pg = pg at hf
    cases hf with
    | provided => exact .inl ⟨_, rfl, rfl⟩
    | timeout => exact .inr rfl
    | row hb | noRow hb | committed hb | lostCommit hb | noCommit hb | called hb | wake hb => rw [ha] at hb; cases hb

theorem Given.calling {request : GenerationRequest} (h : Given cfg s s' l p i)
    (ha : (s.procs p).action cfg = .provider request) : i = .called := by
  cases h with
  | reply hc => rw [ha] at hc; cases hc
  | lost hc => rw [ha] at hc; cases hc
  | feed hf =>
    generalize s'.pg = pg at hf
    cases hf with
    | called => rfl
    | timeout hb => rw [ha] at hb; rcases hb with hb | hb <;> cases hb
    | row hb | noRow hb | committed hb | lostCommit hb | noCommit hb | provided hb | wake hb => rw [ha] at hb; cases hb

end Given

/-! ## Conditions on runs -/

/-- The balance keys are kept. -/
def Label.keepsBalances : Label → Bool
  | .dropBalance _ => false
  | _ => true

/-- Generation records and top-up markers are kept. -/
def Label.keepsRecords : Label → Bool
  | .expireGeneration _ | .expireTopUp _ => false
  | _ => true

/-- The markers of top-ups are kept. -/
def Label.keepsMarkers : Label → Bool
  | .expireTopUp _ => false
  | _ => true

/-- The record `id` is kept. -/
def Label.keepsRecord (id : RequestId) : Label → Bool
  | .expireGeneration k => k ≠ id
  | _ => true

theorem Label.keepsRecord_of_keepsRecords {l : Label} (h : l.keepsRecords = true) (id : RequestId) :
    l.keepsRecord id = true := by
  cases l <;> first | rfl | cases h

/-- No script is stopped by an error: all sums are signed 64-bit integers. -/
def inRange (cfg : Config) (t : Trans System Label) : Bool :=
  match ran cfg t with
  | some x => !x.reply.isError
  | none => true

/-- The balance keys are kept and all sums are in range. -/
def healthy (cfg : Config) (t : Trans System Label) : Bool := t.label.keepsBalances && inRange cfg t

/-- And so are the records. -/
def lasting (cfg : Config) (t : Trans System Label) : Bool := healthy cfg t && t.label.keepsRecords

theorem callOk_of_ran {cfg : Config} {s s' : System} {l : Label} {x : Ran} {pick : List UserId}
    (hr : ran cfg ⟨s, l, s'⟩ = some x) (hi : inRange cfg ⟨s, l, s'⟩ = true)
    (he : exec pick s.redis x.call = some (x.reply, s'.redis)) : CallOk s.redis x.call x.reply s'.redis := by
  refine exec_ok he ?_
  unfold inRange at hi
  rw [hr] at hi
  simpa using hi

/-! ## Schedules -/

/-- A schedule that can be played and leads to what `P` accepts is a run that does. -/
theorem Runs.of_schedule (cfg : Config) (s : System) (schedule : List Label)
    (P : List (Trans System Label) → System → Bool)
    (h : (play (step cfg) s [] schedule).any (fun x => P x.1 x.2) = true) : ∃ tr s', Runs cfg s tr s' ∧ P tr s' = true :=
  Run.exists_of_play h

/-- The run takes the labels of its schedule. -/
theorem Runs.of_labels (cfg : Config) (s : System) (schedule : List Label)
    (P : List (Trans System Label) → System → Bool)
    (h : (play (step cfg) s [] schedule).any (fun x => P x.1 x.2) = true) :
    ∃ tr s', Runs cfg s tr s' ∧ P tr s' = true ∧ ∀ l ∈ schedule, ∃ t ∈ tr, t.label = l :=
  Run.exists_of_play_labels h

/-- How a call of `execute_generation` ended. -/
def Proc.answered : Proc → Option (GenerationRequest × Except Exn GenerationResult)
  | .gen request (.ended r) => some (request, r)
  | _ => none

theorem Proc.answered_some {st : Proc} {request : GenerationRequest} {r : Except Exn GenerationResult}
    (h : st.answered = some (request, r)) : st = .gen request (.ended r) := by
  unfold Proc.answered at h
  split at h
  · cases h
    rfl
  · cases h

/-- A call for the request returned. -/
def Proc.returned (request : GenerationRequest) : Proc → Bool
  | .gen request' (.ended (.ok _)) => request' = request
  | _ => false

theorem Proc.returned_true {request : GenerationRequest} {st : Proc} (h : st.returned request = true) :
    ∃ r, st = .gen request (.ended (.ok r)) := by
  unfold Proc.returned at h
  split at h
  · next r => exact ⟨r, by rw [of_decide_eq_true h]⟩
  · cases h

/-- The rows a flush is about to write. -/
def Proc.batch (cfg : Config) (st : Proc) : Option (List (UserId × Balance)) :=
  match st.action cfg with
  | .commit rows => some rows
  | _ => none

theorem Proc.batch_some {cfg : Config} {st : Proc} {rows : List (UserId × Balance)} (h : st.batch cfg = some rows) :
    st.action cfg = .commit rows := by
  unfold Proc.batch at h
  split at h
  · next hc => rw [hc, Option.some.inj h]
  · cases h

/-- A call that finds its balance key absent loads it from PostgreSQL. -/
def coldLoad (p : ℕ) : List Label :=
  [.exec p [] 0, .exec p [] 0, .exec p [] 0, .select p true, .exec p [] 0, .exec p [] 0, .exec p [] 0]

def premium (u : UserId) (id : RequestId) : GenerationRequest where
  userId := u
  dialogId := 0
  clientRequestId := id
  modelName := "premium"

/-- A balance of one paid dollar. -/
def oneDollar : Balance where
  freeUsd := 0
  bonusUsd := 0
  paidUsd := 1000000
  freeRequests := 0
  version := 7
  inRange := by decide

/-- User 1 has one paid dollar. -/
def dollarRows : Rows := Table.empty.set 1 oneDollar

theorem dollarRows_get {u : UserId} {b : Balance} (h : dollarRows.get u = some b) : b = oneDollar := by
  unfold dollarRows at h
  rw [Table.get_set] at h
  split at h <;> cases h
  rfl

end GenerationBalance
