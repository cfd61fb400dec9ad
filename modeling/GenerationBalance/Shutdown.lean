/-
The flusher's process (`BalanceFlusher.run`, `backend/app/billing/flusher.py`): it
flushes, reaps and sleeps until it is cancelled, flushes once more and ends.

The request that was interrupted may still reach Redis, now or later, and a
transaction that was interrupted in `COMMIT` leaves a session that begins no other.
What the last flush leaves when nothing lands late is what any flush on its own
leaves; so the stores agree at the end only when one flush is enough for what it finds.
-/
import GenerationBalance.Convergence

namespace GenerationBalance

open Transition

/-! ## A cancellation -/

def cancelledError : Exn := .cancelled ""

/-- `CancelledError` is raised where the loader awaits: while it holds the lock, the lock is
released first. -/
def LoaderPc.cancel : LoaderPc → Next LoaderPc Balance
  | .recheck token | .select token | .seed token _ => .run (.release token (.raise cancelledError))
  | .load | .tryLock _ | .release _ _ | .poll => .raise cancelledError

def RefundPc.cancel : RefundPc → Next RefundPc Unit
  | .calling _ _ => .raise cancelledError
  | .loading rounds l => l.cancel.elim (fun l => .run (.loading rounds l)) (fun _ => refundLoop rounds) .raise

def ReapPc.cancel : ReapPc → ReapPc
  | .refunding a pc todo reaped =>
    pc.cancel.elim (.refunding a · todo reaped) (fun _ => next todo (reaped + 1)) raised
  | _ => raised cancelledError

/-- The points of `run` that await. -/
inductive RunPc where
  | flushing (pc : FlushPc)
  | reaping (flushed : ℕ) (pc : ReapPc)
  | sleeping
  /-- The flush of the handler. -/
  | closing (pc : FlushPc)
  | ended (e : Exn)

namespace RunPc

/-- `except asyncio.CancelledError`. -/
def except : Exn → RunPc
  | .cancelled _ => .closing .picking
  | e => .ended e

/-- How the loop goes on when its flush has come to `pc`. -/
def flushed (cfg : Config) (now : ℚ) : FlushPc → RunPc
  | .ended (.ok flushed) => .reaping flushed (.start cfg now)
  | .ended (.error e) => except e
  | pc => .flushing pc

def reaped (cfg : Config) (flushed : ℕ) : ReapPc → RunPc
  | .ended (.ok _) => if flushed < cfg.flushBatchSize then .sleeping else .flushing .picking
  | .ended (.error e) => except e
  | pc => .reaping flushed pc

/-- The handler raises again what it caught. -/
def closed : FlushPc → RunPc
  | .ended (.ok _) => .ended cancelledError
  | .ended (.error e) => .ended e
  | pc => .closing pc

def action (cfg : Config) : RunPc → Action
  | .flushing pc | .closing pc => pc.action cfg
  | .reaping _ pc => pc.action cfg
  | .sleeping => .wait
  | .ended _ => .none

def resume (cfg : Config) (fresh : Token) (now : ℚ) : RunPc → Input → RunPc
  | .flushing pc, i => flushed cfg now (pc.resume cfg i)
  | .reaping n pc, i => reaped cfg n (pc.resume cfg fresh i)
  | .sleeping, .wake => .flushing .picking
  | .closing pc, i => closed (pc.resume cfg i)
  | pc, _ => pc

def cancel (cfg : Config) : RunPc → RunPc
  | .flushing _ | .sleeping => except cancelledError
  | .reaping n pc => reaped cfg n pc.cancel
  | .closing _ => .ended cancelledError
  | .ended e => .ended e

end RunPc

/-- The requests that are sent and not answered: of the pipeline of `clear_dirty` all that are left. -/
def RunPc.requests (cfg : Config) : RunPc → List Call
  | .flushing (.clearing user todo _) | .closing (.clearing user todo _) =>
    (user :: todo).map fun x => .clearDirty x.1 x.2
  | pc =>
    match pc.action cfg with
    | .call c => [c]
    | _ => []

/-- The process and the two stores. -/
structure Flusher where
  redis : Redis
  pg : Rows
  pc : RunPc
  /-- Requests that were given up and may still be executed. -/
  pool : List Call := []
  /-- The database session can begin a transaction. -/
  session : Bool := true
  /-- The number of the next draw of a token. -/
  draws : ℕ

/-- Where a cancellation meets the process: in `COMMIT`, which PostgreSQL has made or has not, or
at another await, in a transaction before its `COMMIT` too. -/
inductive Cut where
  | elsewhere
  | commit (made : Bool)
deriving DecidableEq

/-- What the process awaited: an answered request, a time, or a cancellation; or a request that
it has given up is executed. -/
inductive RunLabel where
  | exec (pick : List UserId) (now : ℚ)
  | select
  | commit
  | wake
  | timeout
  | cancel (cut : Cut)
  | late (i : ℕ) (pick : List UserId)
deriving DecidableEq

namespace RunLabel

/-- No cancellation. -/
def Goes : RunLabel → Prop
  | .cancel _ => False
  | _ => True

/-- No cancellation, and nothing late. -/
def OnTime : RunLabel → Prop
  | .cancel _ | .late _ _ => False
  | _ => True

theorem OnTime.goes {l : RunLabel} (h : l.OnTime) : l.Goes := by
  cases l <;> first | exact h | trivial

end RunLabel

namespace Flusher

def deliver (cfg : Config) (s : Flusher) (now : ℚ) (i : Input) : Flusher :=
  { s with pc := s.pc.resume cfg ⟨0, s.draws⟩ now i, draws := s.draws + 1 }

/-- The process is cancelled. Its request is given up. -/
def cancelled (cfg : Config) (s : Flusher) : Flusher :=
  { s with pc := s.pc.cancel cfg, pool := s.pc.requests cfg ++ s.pool }

/-- One step of the process, all its requests being answered that are not cancelled. -/
def step (cfg : Config) (s : Flusher) : RunLabel → Option Flusher
  | .exec pick now =>
    match s.pc.action cfg with
    | .call c => (GenerationBalance.exec pick s.redis c).map fun (r, ρ) => { s with redis := ρ }.deliver cfg now (.reply r)
    | _ => none
  | .select =>
    match s.pc.action cfg with
    | .select u => some (s.deliver cfg 0 (.row (if s.session then some (s.pg.get u) else none)))
    | _ => none
  | .commit =>
    match s.pc.action cfg with
    | .commit rows =>
      match if s.session then writeRows rows s.pg else none with
      | some (answer, pg) => some ({ s with pg }.deliver cfg 0 (.committed (some answer)))
      | none => some (s.deliver cfg 0 (.committed none))
    | _ => none
  | .wake =>
    match s.pc.action cfg with
    | .wait => some (s.deliver cfg 0 .wake)
    | _ => none
  | .timeout =>
    match s.pc.action cfg with
    | .wait => some (s.deliver cfg 0 .timeout)
    | _ => none
  | .cancel .elsewhere =>
    match s.pc.action cfg with
    | .none => none
    | _ => some (s.cancelled cfg)
  -- `__aexit__` rolls back no transaction that is not active: this one keeps the session.
  | .cancel (.commit made) =>
    if s.session then
      match s.pc.action cfg with
      | .select _ => some { s.cancelled cfg with session := false }
      | .commit rows =>
        (writeRows rows s.pg).map fun (_, pg) =>
          { s.cancelled cfg with session := false, pg := if made then pg else s.pg }
      | _ => none
    else none
  | .late i pick =>
    match s.pc with
    | .ended _ => none
    | _ =>
      match s.pool[i]? with
      | some c => (GenerationBalance.exec pick s.redis c).map fun (_, ρ) =>
        { s with redis := ρ, pool := s.pool.eraseIdx i }
      | none => none

/-- Every hot balance is the user's row, and nobody is dirty. -/
structure InStep (s : Flusher) : Prop where
  rows : ∀ u b, s.redis.bal.get u = some b → s.pg.get u = some b
  dirty : s.redis.dirty = ∅

/-- The process that was cancelled comes to the end of `run`, whatever lands late meanwhile, and
the stores agree. -/
def Closes (cfg : Config) (s : Flusher) : Prop :=
  Leads (step cfg) RunLabel.Goes (fun s' => s'.pc = .ended cancelledError ∧ s'.InStep) s

end Flusher

/-- One flush is enough: a batch holds all dirty users, their balances can be written and none of
their rows is kept against them, and everybody else's row is the hot balance already. -/
structure Drainable (cfg : Config) (session : Bool) (ρ : Redis) (pg : Rows) : Prop where
  size : ρ.dirty.card ≤ cfg.flushBatchSize
  marked : ∀ u ∈ ρ.dirty, ∀ b, ρ.bal.get u = some b →
    session = true ∧ b.Storable ∧ ∀ r, pg.get u = some r → r.version < b.version ∨ r = b
  unmarked : ∀ u, u ∉ ρ.dirty → ∀ b, ρ.bal.get u = some b → pg.get u = some b

/-! ## The flush of the handler -/

section Closing

variable {cfg : Config} {s s' : Flusher} {t t' : System} {P : Flusher → Prop}

/-- The handler's flush, as a call of the system. -/
structure Mimics (s : Flusher) (t : System) : Prop where
  pc : ∃ pc, t.procs 0 = .flush pc ∧ s.pc = .closed pc
  redis : t.redis = s.redis
  pg : t.pg = s.pg
  session : s.session = true

theorem RunPc.closed_action (cfg : Config) (pc : FlushPc) : (closed pc).action cfg = pc.action cfg := by
  unfold closed
  split <;> rfl

theorem RunPc.closed_resume (cfg : Config) (fresh : Token) (now : ℚ) (pc : FlushPc) (i : Input) :
    (closed pc).resume cfg fresh now i = closed (pc.resume cfg i) := by
  unfold closed
  split
  · rfl
  · rfl
  · rfl

theorem Mimics.deliver (h : Mimics s t) (now : ℚ) (i : Input) :
    Mimics (s.deliver cfg now i) (t.deliver cfg 0 now i) where
  pc := by
    obtain ⟨pc, ht, hs⟩ := h.pc
    refine ⟨pc.resume cfg i, ?_, ?_⟩
    · show Function.update t.procs 0 ((t.procs 0).resume cfg _ now i) 0 = _
      rw [Function.update_self, ht]
      rfl
    · show s.pc.resume cfg _ now i = _
      rw [hs, RunPc.closed_resume]
  redis := h.redis
  pg := h.pg
  session := h.session

theorem Mimics.redis_step (h : Mimics s t) (ρ : Redis) : Mimics { s with redis := ρ } { t with redis := ρ } :=
  ⟨h.pc, rfl, h.pg, h.session⟩

theorem Mimics.pg_step (h : Mimics s t) (pg : Rows) : Mimics { s with pg } { t with pg } :=
  ⟨h.pc, h.redis, rfl, h.session⟩

theorem Mimics.action (cfg : Config) (h : Mimics s t) : (t.procs 0).action cfg = s.pc.action cfg := by
  obtain ⟨pc, ht, hs⟩ := h.pc
  rw [ht, hs, RunPc.closed_action]
  rfl

/-- The step of the system that a step of the process is, where the process runs a flush. -/
def RunLabel.label : RunLabel → Option Label
  | .exec pick now => some (.exec 0 pick now)
  | .select => some (.select 0 true)
  | .commit => some (.commit 0 .committed)
  | .wake | .timeout | .cancel _ | .late _ _ => none

theorem RunLabel.of_own {l : Label} (h : Own 0 l) : ∃ l' : RunLabel, l'.OnTime ∧ l'.label = some l := by
  cases l with
  | exec q pick now =>
    cases h
    exact ⟨.exec pick now, trivial, rfl⟩
  | select q ok =>
    obtain ⟨rfl, rfl⟩ := h
    exact ⟨.select, trivial, rfl⟩
  | commit q fate =>
    obtain ⟨rfl, rfl⟩ := h
    exact ⟨.commit, trivial, rfl⟩
  | _ => cases h

theorem RunLabel.own {l : RunLabel} {l' : Label} (h : l.label = some l') : Own 0 l' := by
  cases l with
  | exec pick now => cases h; exact rfl
  | select | commit => cases h; exact ⟨rfl, rfl⟩
  | _ => cases h

theorem FlushPc.action_ne_wait (cfg : Config) (pc : FlushPc) : pc.action cfg ≠ .wait := by
  unfold FlushPc.action
  split <;> simp

/-- **A flush in the handler is a flush**: the process and the system take the same steps. -/
theorem Mimics.step (cfg : Config) (h : Mimics s t) {l : RunLabel} {l' : Label} (hl : l.label = some l') :
    Option.Rel Mimics (s.step cfg l) (GenerationBalance.step cfg t l') := by
  have ha := h.action cfg
  cases l with
  | exec pick now =>
    cases hl
    simp only [Flusher.step, GenerationBalance.step, ha, h.redis]
    cases s.pc.action cfg with
    | call c =>
      cases he : exec pick s.redis c with
      | none => simpa only [he] using .none
      | some x => simpa only [he] using .some ((h.redis_step x.2).deliver now (.reply x.1))
    | _ => exact .none
  | select =>
    cases hl
    simp only [Flusher.step, GenerationBalance.step, ha, h.pg, h.session, if_true]
    cases s.pc.action cfg with
    | select u => exact .some (h.deliver 0 _)
    | _ => exact .none
  | commit =>
    cases hl
    simp only [Flusher.step, GenerationBalance.step, ha, h.pg]
    cases s.pc.action cfg with
    | commit rows =>
      have hopen : (if s.session = true then writeRows rows s.pg else none) = writeRows rows s.pg := if_pos h.session
      simp only [hopen]
      cases hw : writeRows rows s.pg with
      | none => simpa only [hw] using .some (h.deliver 0 _)
      | some x => simpa only [hw] using .some ((h.pg_step x.2).deliver 0 _)
    | _ => exact .none
  | _ => cases hl

/-- What is inevitable for the flush is for the handler. -/
theorem Mimics.leads {R : System → Prop} (hlead : Leads (GenerationBalance.step cfg) (Own 0) R t)
    (hq : ∀ s t, Mimics s t → R t → P s) : ∀ {s}, Mimics s t → Leads (Flusher.step cfg) RunLabel.OnTime P s := by
  induction hlead with
  | now hr =>
    intro s h
    exact .now (hq _ _ h hr)
  | @step t hex _ ih =>
    intro s h
    refine .step ?_ fun l s' hl hs => ?_
    · obtain ⟨l, t', hl, ht⟩ := hex
      obtain ⟨l', hl', hlabel⟩ := RunLabel.of_own hl
      have hrel := h.step cfg hlabel
      rw [ht] at hrel
      cases hrel' : s.step cfg l' with
      | none => rw [hrel'] at hrel; cases hrel
      | some s' => exact ⟨l', s', hl', hrel'⟩
    · cases hlabel : l.label with
      | none =>
        obtain ⟨pc, -, hpc⟩ := h.pc
        have hwait : s.pc.action cfg ≠ .wait := by
          rw [hpc, RunPc.closed_action]
          exact FlushPc.action_ne_wait cfg pc
        exfalso
        cases l with
        | wake | timeout =>
          simp only [Flusher.step] at hs
          cases hs
        | cancel | late => exact hl
        | _ => cases hlabel
      | some l' =>
        have hrel := h.step cfg hlabel
        rw [hs] at hrel
        cases ht : GenerationBalance.step cfg t l' with
        | none => rw [ht] at hrel; cases hrel
        | some t' =>
          rw [ht] at hrel
          cases hrel with
          | some hm => exact ih l' t' (RunLabel.own hlabel) ht hm

/-- **The flush of the handler** on its own. -/
theorem Flusher.closing_leads (cfg : Config) (h : s.pc = .closing .picking) (hsession : s.session = true) :
    Leads (step cfg) RunLabel.OnTime (fun s' => ∃ users, Picks cfg s.redis users ∧
      ∃ pc, s'.pc = .closed pc ∧ FlushEnd users s.redis s.pg (.flush pc) s'.redis s'.pg) s := by
  let t : System := { System.start s.pg with redis := s.redis, procs := fun _ => .flush .picking }
  have hm : Mimics s t := ⟨⟨.picking, rfl, h⟩, rfl, rfl, hsession⟩
  refine Mimics.leads (Solo.flushOnce cfg s.redis s.pg 0 t t ⟨rfl, rfl, rfl, fun _ _ => rfl, rfl⟩) ?_ hm
  rintro s' t' hm' ⟨st, ρ', pg', hat, users, hpicks, hend⟩
  obtain ⟨pc, ht, hpc⟩ := hm'.pc
  have hst : st = .flush pc := hat.proc.symm.trans ht
  have hredis : s'.redis = ρ' := hm'.redis.symm.trans hat.redis
  have hpg : s'.pg = pg' := hm'.pg.symm.trans hat.pg
  subst hst hredis hpg
  exact ⟨users, hpicks, pc, hpc, hend⟩

end Closing

/-! ## The flush on a session that begins no transaction -/

section Own

variable {cfg : Config} {s s' : Flusher} {c : Call}

/-- The process awaits the answer of a request. -/
theorem Flusher.call_goes (pick : List UserId) (ha : s.pc.action cfg = .call c) (he : (exec pick s.redis c).isSome) :
    ∃ l s', RunLabel.OnTime l ∧ s.step cfg l = some s' := by
  obtain ⟨⟨r, ρ⟩, he⟩ := Option.isSome_iff_exists.mp he
  refine ⟨.exec pick 0, { s with redis := ρ }.deliver cfg 0 (.reply r), trivial, ?_⟩
  simp only [Flusher.step, ha, he, Option.map_some]

theorem Flusher.own_cases {l : RunLabel} (ha : s.pc.action cfg = .call c) (hl : l.OnTime)
    (h : s.step cfg l = some s') : ∃ pick now r ρ, exec pick s.redis c = some (r, ρ) ∧
      s' = { s with redis := ρ }.deliver cfg now (.reply r) := by
  cases l with
  | exec pick now =>
    simp only [Flusher.step, ha] at h
    obtain ⟨⟨r, ρ⟩, he, rfl⟩ := Option.map_eq_some_iff.mp h
    exact ⟨pick, now, r, ρ, he, rfl⟩
  | cancel | late => exact hl.elim
  | _ =>
    simp only [Flusher.step, ha] at h
    cases h

/-- The process awaits a transaction. -/
theorem Flusher.own_commit {l : RunLabel} {rows : List (UserId × Balance)} (ha : s.pc.action cfg = .commit rows)
    (hl : l.OnTime) (h : s.step cfg l = some s') : l = .commit := by
  cases l with
  | commit => rfl
  | cancel | late => exact hl.elim
  | _ =>
    simp only [Flusher.step, ha] at h
    cases h

theorem Flusher.closed_awaits {pc : FlushPc} {a : Action} (h : s.pc = .closed pc) (ha : pc.action cfg = a) :
    s.pc.action cfg = a := by
  rw [h, RunPc.closed_action, ha]

theorem Flusher.closed_deliver {pc : FlushPc} (h : s.pc = .closed pc) (ρ : Redis) (now : ℚ) (i : Input) :
    ({ s with redis := ρ }.deliver cfg now i).pc = .closed (pc.resume cfg i) := by
  show s.pc.resume cfg _ now i = _
  rw [h, RunPc.closed_resume]

end Own

/-- The handler's flush awaits at `pc`, and no transaction can begin. -/
structure Stuck (pc : FlushPc) (ρ : Redis) (pg : Rows) (s : Flusher) : Prop where
  pc : s.pc = .closed pc
  redis : s.redis = ρ
  pg : s.pg = pg
  session : s.session = false

section Stuck

variable {cfg : Config} {Q : Flusher → Prop} {pc : FlushPc} {ρ : Redis} {pg : Rows} {s : Flusher} {users : List UserId}

theorem Stuck.call {c : Call} (hs : Stuck pc ρ pg s) (ha : pc.action cfg = .call c)
    (hex : ∃ pick, (exec pick ρ c).isSome)
    (h : ∀ pick r ρ' s', exec pick ρ c = some (r, ρ') → Stuck (pc.resume cfg (.reply r)) ρ' pg s' →
      Leads (Flusher.step cfg) RunLabel.OnTime Q s') : Leads (Flusher.step cfg) RunLabel.OnTime Q s := by
  have hact : s.pc.action cfg = .call c := Flusher.closed_awaits hs.pc ha
  refine .step ?_ fun l s' hl hstep => ?_
  · obtain ⟨pick, hp⟩ := hex
    exact Flusher.call_goes pick hact (hs.redis ▸ hp)
  · obtain ⟨pick, now, r, ρ', he, rfl⟩ := Flusher.own_cases hact hl hstep
    exact h pick r ρ' _ (hs.redis ▸ he) ⟨Flusher.closed_deliver hs.pc ρ' now _, rfl, hs.pg, hs.session⟩

theorem Stuck.commit {rows : List (UserId × Balance)} (hs : Stuck pc ρ pg s) (ha : pc.action cfg = .commit rows)
    (h : ∀ s', Stuck (pc.resume cfg (.committed none)) ρ pg s' → Leads (Flusher.step cfg) RunLabel.OnTime Q s') :
    Leads (Flusher.step cfg) RunLabel.OnTime Q s := by
  have hact : s.pc.action cfg = .commit rows := Flusher.closed_awaits hs.pc ha
  have hstep : s.step cfg .commit = some (s.deliver cfg 0 (.committed none)) := by
    simp only [Flusher.step, hact, hs.session, Bool.false_eq_true, if_false]
  refine .step ⟨.commit, _, trivial, hstep⟩ fun l s' hl hl' => ?_
  obtain rfl := Flusher.own_commit hact hl hl'
  cases hstep.symm.trans hl'
  obtain rfl := hs.redis
  exact h _ ⟨Flusher.closed_deliver hs.pc s.redis 0 _, rfl, hs.pg, hs.session⟩

theorem Stuck.load : ∀ {todo : List UserId} {snapshots : List (UserId × Balance)} {s : Flusher},
    Stuck (.load users snapshots todo) ρ pg s →
      (∀ s', Stuck (.write users (snapshots ++ ρ.snapshots todo)) ρ pg s' →
        Leads (Flusher.step cfg) RunLabel.OnTime Q s') → Leads (Flusher.step cfg) RunLabel.OnTime Q s
  | [], snapshots, s, hs, h => h s (by rwa [Redis.snapshots, List.filterMap_nil, List.append_nil])
  | u :: todo, snapshots, s, hs, h => by
    refine hs.call (c := .load u) rfl ⟨[], rfl⟩ fun pick r ρ' s' he hs' => ?_
    cases he
    refine Stuck.load hs' fun s'' hs'' => h s'' ?_
    rwa [Redis.snapshots_cons, ← List.append_assoc]

theorem Stuck.clear {n : ℕ} : ∀ {todo : List (UserId × ℤ)} {ρ : Redis} {s : Flusher}, Stuck (.clear n todo) ρ pg s →
    Leads (Flusher.step cfg) RunLabel.OnTime
      (fun s' => s'.pc = .ended cancelledError ∧ Cleared todo ρ s'.redis ∧ s'.pg = pg) s
  | [], ρ, s, hs => .now ⟨hs.pc, by rw [hs.redis]; exact ⟨by simp, rfl⟩, hs.pg⟩
  | (u, v) :: todo, ρ, s, hs => by
    refine hs.call (c := .clearDirty u v) rfl ⟨[], rfl⟩ fun pick r ρ' s' he hs' => ?_
    cases he
    refine (Stuck.clear hs').mono fun s'' h => ?_
    exact ⟨h.1, (clearDirty_cleared u v ρ).append h.2.1, h.2.2⟩

/-- **A flush without a transaction** fails on the first user whose balance is hot, and clears the
marks when there is none. -/
theorem Stuck.flush (hs : Stuck .picking ρ pg s) : Leads (Flusher.step cfg) RunLabel.OnTime
    (fun s' => ∃ users, Picks cfg ρ users ∧ (s'.pc = .ended .database ∨
      s'.pc = .ended cancelledError ∧ ρ.snapshots users = [] ∧ Cleared (FlushPc.cleared users []) ρ s'.redis ∧
        s'.pg = pg)) s := by
  refine hs.call (c := .dirtyUsers cfg.flushBatchSize) rfl ?_ fun users r ρ' s₁ he hs₁ => ?_
  · obtain ⟨users, h⟩ := Picks.exists cfg ρ
    exact ⟨users, by rw [h.exec]; rfl⟩
  obtain ⟨hpicks, rfl, rfl⟩ := Picks.of_exec he
  refine Leads.mono (P := fun s' => s'.pc = .ended .database ∨ s'.pc = .ended cancelledError ∧
    ρ.snapshots users = [] ∧ Cleared (FlushPc.cleared users []) ρ s'.redis ∧ s'.pg = pg) ?_
    fun s' h => ⟨users, hpicks, h⟩
  change Stuck (if users.isEmpty then .ended (.ok 0) else .load users [] users) ρ pg s₁ at hs₁
  split at hs₁
  · next hempty =>
    rw [List.isEmpty_iff] at hempty
    subst hempty
    exact .now (.inr ⟨hs₁.pc, rfl, by rw [hs₁.redis]; exact ⟨by simp [FlushPc.cleared], rfl⟩, hs₁.pg⟩)
  · refine hs₁.load fun s₂ hs₂ => ?_
    rw [List.nil_append, FlushPc.write] at hs₂
    split at hs₂
    · next hempty =>
      rw [List.isEmpty_iff] at hempty
      rw [hempty] at hs₂
      exact hs₂.clear.mono fun s' h => .inr ⟨h.1, hempty, h.2⟩
    · exact hs₂.commit rfl fun s₃ hs₃ => .now (.inl hs₃.pc)

end Stuck

/-! ## What the flush leaves -/

section Drain

variable {cfg : Config} {session : Bool} {ρ : Redis} {pg : Rows} {users : List UserId} {ρ' : Redis} {pg' : Rows}

theorem Drainable.of_same (hbal : ρ.bal = ρ'.bal) (hdirty : ρ.dirty = ρ'.dirty) (h : Drainable cfg session ρ pg) :
    Drainable cfg session ρ' pg where
  size := hdirty ▸ h.size
  marked u hu b hb := h.marked u (hdirty ▸ hu) b (hbal ▸ hb)
  unmarked u hu b hb := h.unmarked u (hdirty ▸ hu) b (hbal ▸ hb)

/-- Stores that a flush has brought together were such that one is enough. -/
theorem Flushed.drainable (h : Flushed users ρ pg ρ' pg') (hpicks : Picks cfg ρ users)
    (hstorable : ∀ x ∈ ρ.snapshots users, x.2.Storable) (hdirty : ρ'.dirty = ∅)
    (hrows : ∀ u b, ρ'.bal.get u = some b → pg'.get u = some b) : Drainable cfg true ρ pg := by
  have hgone : ∀ u ∈ ρ.dirty, u ∈ users ∧ ∀ b, ρ.bal.get u = some b → b.over (pg.get u) = b := by
    intro u hu
    have hn : ¬ (u ∈ users → ∃ b, ρ.bal.get u = some b ∧ b.over (pg.get u) ≠ b) := by
      intro hkept
      have := (h.dirty u).mpr ⟨hu, hkept⟩
      rw [hdirty] at this
      exact absurd this (Finset.notMem_empty u)
    rw [Classical.not_imp] at hn
    refine ⟨hn.1, fun b hb => ?_⟩
    by_contra hne
    exact hn.2 ⟨b, hb, hne⟩
  refine ⟨?_, fun u hu b hb => ⟨rfl, ?_, fun r hr => ?_⟩, fun u hu b hb => ?_⟩
  · by_contra hlt
    obtain ⟨u, hu, hout⟩ := hpicks.not_all (not_le.mp hlt)
    exact hout (hgone u hu).1
  · exact hstorable (u, b) (Redis.mem_snapshots.mpr ⟨(hgone u hu).1, hb⟩)
  · by_contra hkept
    rw [not_or, not_lt] at hkept
    exact Balance.over_ne_iff.mpr ⟨r, hr, hkept⟩ ((hgone u hu).2 b hb)
  · have hout : u ∈ users → ρ.bal.get u = none := fun hm => absurd (hpicks.marked u hm) hu
    rw [← h.otherRow u hout]
    exact hrows u b (by rw [h.otherHot u hout, hb])

/-- The same of a flush that found nothing to write. -/
theorem Cleared.drainable (h : Cleared (FlushPc.cleared users []) ρ ρ') (hpicks : Picks cfg ρ users)
    (hcold : ρ.snapshots users = []) (hdirty : ρ'.dirty = ∅)
    (hrows : ∀ u b, ρ'.bal.get u = some b → pg.get u = some b) : Drainable cfg false ρ pg := by
  have hgone : ∀ u ∈ ρ.dirty, u ∈ users := by
    intro u hu
    by_contra hout
    have hkept : u ∈ ρ'.dirty := (h.dirty u).mpr ⟨hu, fun v hv => by
      obtain ⟨w, hw, he⟩ := List.mem_map.mp hv
      cases he
      exact absurd hw hout⟩
    rw [hdirty] at hkept
    exact absurd hkept (Finset.notMem_empty u)
  refine ⟨?_, fun u hu b hb => ?_, fun u _ b hb => hrows u b (by rw [h.rest]; exact hb)⟩
  · by_contra hlt
    obtain ⟨u, hu, hout⟩ := hpicks.not_all (not_le.mp hlt)
    exact hout (hgone u hu)
  · have hmem : (u, b) ∈ ρ.snapshots users := Redis.mem_snapshots.mpr ⟨hgone u hu, hb⟩
    rw [hcold] at hmem
    cases hmem

end Drain

/-! ## Shutting down -/

/-- Where a cancellation leads: to the flush of the handler, or first to the release of the lock
that the loader holds. -/
inductive RunPc.Leaving : RunPc → Prop
  | flush : Leaving (.closing .picking)
  | release {n a rounds token todo reaped} :
      Leaving (.reaping n (.refunding a (.loading rounds (.release token (.raise cancelledError))) todo reaped))

section Shutdown

variable {cfg : Config} {s : Flusher}

/-- The release of the lock, as the process awaits it. -/
theorem Flusher.release_exec (cfg : Config) {n : ℕ} {a : RefundArgs} {rounds : ℕ} {token : Token}
    {todo : List RequestId} {reaped : ℕ}
    (h : s.pc = .reaping n (.refunding a (.loading rounds (.release token (.raise cancelledError))) todo reaped)) :
    ∃ lock, (∃ l s', RunLabel.OnTime l ∧ s.step cfg l = some s') ∧ ∀ l s', RunLabel.OnTime l → s.step cfg l = some s' →
      ∃ draws, s' = { s with redis := { s.redis with loadLock := lock }, pc := .closing .picking, draws } := by
  have ha : s.pc.action cfg = .call (.releaseLoadLock a.userId token) := by rw [h]; rfl
  have hexec : ∃ lock flag, ∀ pick, exec pick s.redis (.releaseLoadLock a.userId token) =
      some (.flag flag, { s.redis with loadLock := lock }) := by
    simp only [exec, releaseLoadLock]
    split
    · exact ⟨_, true, fun _ => rfl⟩
    · exact ⟨s.redis.loadLock, false, fun _ => rfl⟩
  obtain ⟨lock, flag, hexec⟩ := hexec
  refine ⟨lock, Flusher.call_goes [] ha (by rw [hexec]; rfl), fun l s' hl hs => ?_⟩
  obtain ⟨pick, now, r, ρ, he, rfl⟩ := Flusher.own_cases ha hl hs
  rw [hexec] at he
  cases he
  refine ⟨s.draws + 1, ?_⟩
  simp only [Flusher.deliver, h]
  rfl

/-- The process that was cancelled comes to the flush of the handler, with the same balances. -/
theorem Flusher.leaving_leads (hpc : s.pc.Leaving) : Leads (step cfg) RunLabel.OnTime (fun s' =>
    s'.pc = .closing .picking ∧ s'.redis.bal = s.redis.bal ∧ s'.redis.dirty = s.redis.dirty ∧ s'.pg = s.pg ∧
      s'.session = s.session) s := by
  generalize hp : s.pc = pc at hpc
  cases hpc with
  | flush => exact .now ⟨hp, rfl, rfl, rfl, rfl⟩
  | release =>
    obtain ⟨lock, hgo, hexec⟩ := Flusher.release_exec cfg hp
    refine .step hgo fun l s' hl hs => ?_
    obtain ⟨draws, rfl⟩ := hexec l s' hl hs
    exact .now ⟨rfl, rfl, rfl, rfl, rfl⟩

theorem Flusher.ended_stuck {e : Exn} (h : s.pc = .ended e) {l : RunLabel} (hl : l.Goes) (s' : Flusher) :
    s.step cfg l ≠ some s' := by
  intro hs
  have ha : s.pc.action cfg = .none := by rw [h]; rfl
  cases l with
  | cancel => exact hl
  | late =>
    simp only [Flusher.step, h] at hs
    cases hs
  | _ =>
    simp only [Flusher.step, ha] at hs
    cases hs

/-- What the process ends with, unless it raises something else: when nothing lands late, the
stores agree only where one flush was enough. -/
theorem Flusher.shutdown_leads (cfg : Config) (hpc : s.pc.Leaving) : Leads (step cfg) RunLabel.OnTime (fun s' =>
    (∃ e, s'.pc = .ended e) ∧ (s'.pc = .ended cancelledError → s'.InStep →
      Drainable cfg s.session s.redis s.pg)) s := by
  refine (Flusher.leaving_leads hpc).bind fun s₁ h => ?_
  obtain ⟨hpc₁, hbal, hdirty, hpg, hsession⟩ := h
  cases hopen : s.session with
  | true =>
    rw [hopen] at hsession
    refine (Flusher.closing_leads cfg hpc₁ hsession).mono fun s' h => ?_
    obtain ⟨users, hpicks, pc, hpc', hend⟩ := h
    generalize hρ : s'.redis = ρ', hrows : s'.pg = pg' at hend
    cases hend with
    | flushed hstorable hf =>
      refine ⟨⟨_, hpc'⟩, fun _ hin => ?_⟩
      have hd := hf.drainable hpicks hstorable (hρ ▸ hin.dirty) (hρ ▸ hrows ▸ hin.rows)
      rw [hpg] at hd
      exact hd.of_same hbal hdirty
    | refused =>
      refine ⟨⟨_, hpc'⟩, fun hp => ?_⟩
      rw [hpc'] at hp
      cases hp
  | false =>
    rw [hopen] at hsession
    have hstuck : Stuck .picking s₁.redis s₁.pg s₁ := ⟨hpc₁, rfl, rfl, hsession⟩
    refine hstuck.flush.mono fun s' h => ?_
    obtain ⟨users, hpicks, hp | ⟨hp, hcold, hc, hpg'⟩⟩ := h
    · refine ⟨⟨_, hp⟩, fun hp' => ?_⟩
      rw [hp] at hp'
      cases hp'
    · refine ⟨⟨_, hp⟩, fun _ hin => ?_⟩
      have hd := hc.drainable hpicks hcold hin.dirty hin.rows
      rw [hpg', hpg] at hd
      exact hd.of_same hbal hdirty

/-- Where the process closes the stores down, one flush was enough. -/
theorem Flusher.Closes.drainable (h : s.Closes cfg) (hpc : s.pc.Leaving) :
    Drainable cfg s.session s.redis s.pg := by
  obtain ⟨s', ⟨hend, hin⟩, -, hdrain⟩ := h.meet (Flusher.shutdown_leads cfg hpc) (fun l hl => hl.goes)
    (fun s' h l s'' hl => Flusher.ended_stuck h.1 hl s'') fun s' h l s'' hl => by
      obtain ⟨⟨e, he⟩, -⟩ := h
      exact Flusher.ended_stuck he hl s''
  exact hdrain hend hin

end Shutdown

end GenerationBalance
