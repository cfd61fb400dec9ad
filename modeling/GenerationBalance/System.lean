/-
The system: Redis, PostgreSQL and any number of calls, one step at a time.

A step is one round trip to a store, one event of the provider or of the
clock, or something that befalls the system: a request or reply is lost, a
process dies, a key expires. A request that was given up may still reach Redis
later, or never: it waits in `pool`.
-/
import GenerationBalance.Transition
import GenerationBalance.Workers

namespace GenerationBalance

open Transition

structure System where
  redis : Redis
  pg : Rows
  procs : ℕ → Proc
  /-- Requests that were given up, by the call that sent them. -/
  pool : List (ℕ × Proc)
  /-- The number of the next draw of a token. -/
  draws : ℕ

/-- How a transaction that writes ends: committed; committed, but the answer is
lost; or rolled back. -/
inductive Fate where
  | committed | lost | failed
deriving DecidableEq, Repr

inductive Label where
  | spawn (p : ℕ) (job : Job)
  /-- `p`'s request is executed and answered. -/
  | exec (p : ℕ) (pick : List UserId) (now : ℚ)
  /-- `p` gives its request up. -/
  | abandon (p : ℕ)
  /-- A request that was given up is executed after all. -/
  | late (i : ℕ) (pick : List UserId)
  | select (p : ℕ) (ok : Bool)
  | commit (p : ℕ) (fate : Fate)
  | provider (p : ℕ)
  | provided (p : ℕ) (o : ProviderOutcome)
  | timeout (p : ℕ)
  | wake (p : ℕ)
  | crash (p : ℕ)
  | expireGeneration (id : RequestId)
  | expireTopUp (o : OperationId)
  | expireLock (u : UserId)
  | dropBalance (u : UserId)

/-- The requests a call has sent that may be executed without it: its own one,
and of a pipeline the ones behind it. -/
def Proc.leftovers (cfg : Config) : Proc → List Proc
  | .flush (.clearing user todo written) => (user :: todo).map fun x => .flush (.clearing x [] written)
  | st =>
    match st.action cfg with
    | .call _ => [st]
    | _ => []

/-- The transaction of a flush: the rows written, the others read again. -/
def writeRows (rows : List (UserId × Balance)) (pg : Rows) : Option ((List UserId × List Rejected) × Rows) :=
  (upsertMany (rows.map (Prod.map id snapshotFromHash)) pg).map fun (written, pg') =>
    ((written, (rows.filter (·.1 ∉ written)).map fun (u, b) => (b, u, pg'.get u)), pg')

/-- What a transaction that committed did. -/
structure Written (rows : List (UserId × Balance)) (pg : Rows) (answer : List UserId × List Rejected) (pg' : Rows) :
    Prop where
  forward : Versioned.Forward Balance.version pg pg'
  source : ∀ u b, pg'.get u = some b → pg.get u = some b ∨ (u, b) ∈ rows
  storable : ∀ x ∈ rows, x.2.Storable
  written : ∀ u ∈ answer.1, ∃ b, (u, b) ∈ rows ∧ pg'.get u = some b
  rejected : ∀ x ∈ answer.2, ∃ stored, x.2.2 = some stored ∧ (x.2.1, x.1) ∈ rows ∧ pg'.get x.2.1 = some stored ∧
    x.1.version ≤ stored.version
  complete : ∀ u b, (u, b) ∈ rows → u ∈ answer.1 ∨ (b, u, pg'.get u) ∈ answer.2

theorem writeRows_spec {rows : List (UserId × Balance)} {pg pg' : Rows} {answer : List UserId × List Rejected}
    (h : writeRows rows pg = some (answer, pg')) : Written rows pg answer pg' := by
  obtain ⟨⟨written, pg''⟩, hu, he⟩ := Option.map_eq_some_iff.mp h
  cases he
  rw [upsertMany_eq] at hu
  split at hu
  · next hs =>
    have hr := upsertRows_spec (rows.insertionSort fun a b => a.1 ≤ b.1) pg
    rw [Option.some.inj hu] at hr
    have hm : ∀ x : UserId × Balance, x ∈ rows.insertionSort (fun a b => a.1 ≤ b.1) ↔ x ∈ rows :=
      fun x => List.mem_insertionSort _
    refine ⟨hr.forward, fun u b hb => (hr.source u b hb).imp_right (hm _).mp, hs, fun u hw => ?_, fun x hx => ?_,
      fun u b hb => ?_⟩
    · obtain ⟨b, hb, hg⟩ := hr.written u hw
      exact ⟨b, (hm _).mp hb, hg⟩
    · obtain ⟨⟨u, b⟩, hf, rfl⟩ := List.mem_map.mp hx
      obtain ⟨hmem, hn⟩ := List.mem_filter.mp hf
      obtain ⟨stored, hs, hv⟩ := hr.rejected u b ((hm _).mpr hmem) (by simpa using hn)
      exact ⟨stored, hs, hmem, hs, hv⟩
    · by_cases hw : u ∈ written
      · exact .inl hw
      · exact .inr (List.mem_map.mpr ⟨(u, b), List.mem_filter.mpr ⟨hb, by simpa using hw⟩, rfl⟩)
  · cases hu

namespace System

/-- `p` goes on with what it awaited. -/
def deliver (cfg : Config) (s : System) (p : ℕ) (now : ℚ) (i : Input) : System :=
  { s with
    procs := Function.update s.procs p ((s.procs p).resume cfg ⟨p, s.draws⟩ now i)
    draws := s.draws + 1 }

def start (pg : Rows) : System where
  redis := .empty
  pg := pg
  procs _ := .idle
  pool := []
  draws := 0

end System

def step (cfg : Config) (s : System) : Label → Option System
  | .spawn p job =>
    match s.procs p with
    | .idle => some { s with procs := Function.update s.procs p (job.start cfg) }
    | _ => none
  | .exec p pick now =>
    match (s.procs p).action cfg with
    | .call c => (exec pick s.redis c).map fun (r, ρ) => { s with redis := ρ }.deliver cfg p now (.reply r)
    | _ => none
  | .abandon p =>
    match (s.procs p).action cfg with
    | .call _ =>
      some { s.deliver cfg p 0 .lost with pool := ((s.procs p).leftovers cfg).map (p, ·) ++ s.pool }
    | _ => none
  | .late i pick =>
    match s.pool[i]? with
    | some (_, st) =>
      match st.action cfg with
      | .call c => (exec pick s.redis c).map fun (_, ρ) => { s with redis := ρ, pool := s.pool.eraseIdx i }
      | _ => none
    | none => none
  | .select p ok =>
    match (s.procs p).action cfg with
    | .select u => some (s.deliver cfg p 0 (.row (if ok then some (s.pg.get u) else none)))
    | _ => none
  | .commit p fate =>
    match (s.procs p).action cfg with
    | .commit rows =>
      match fate, writeRows rows s.pg with
      | .committed, some (answer, pg) => some ({ s with pg }.deliver cfg p 0 (.committed (some answer)))
      | .lost, some (_, pg) => some ({ s with pg }.deliver cfg p 0 (.committed none))
      -- A value out of its column's range fails the statement.
      | _, _ => some (s.deliver cfg p 0 (.committed none))
    | _ => none
  | .provider p =>
    match (s.procs p).action cfg with
    | .provider _ => some (s.deliver cfg p 0 .called)
    | _ => none
  | .provided p o =>
    match (s.procs p).action cfg with
    | .answer => some (s.deliver cfg p 0 (.provided o))
    | _ => none
  | .timeout p =>
    match (s.procs p).action cfg with
    | .answer | .wait => some (s.deliver cfg p 0 .timeout)
    | _ => none
  | .wake p =>
    match (s.procs p).action cfg with
    | .wait => some (s.deliver cfg p 0 .wake)
    | _ => none
  | .crash p =>
    some
      { s with
        procs := Function.update s.procs p .crashed
        pool := ((s.procs p).leftovers cfg).map (p, ·) ++ s.pool }
  | .expireGeneration id => some { s with redis.gen := s.redis.gen.del id }
  | .expireTopUp o => some { s with redis.topup := s.redis.topup.del o }
  | .expireLock u => some { s with redis.loadLock := s.redis.loadLock.del u }
  | .dropBalance u => some { s with redis.bal := s.redis.bal.del u }

/-- A run of the system, and the transitions it took. -/
abbrev Runs (cfg : Config) : System → List (Trans System Label) → System → Prop := Run (step cfg)

/-! ## What a step does -/

/-- What a label that is no round trip to Redis gives a call, and the rows after
it. -/
inductive Feeds (cfg : Config) (s : System) : Label → ℕ → Input → Rows → Prop
  | row {p u} : (s.procs p).action cfg = .select u → Feeds cfg s (.select p true) p (.row (some (s.pg.get u))) s.pg
  | noRow {p u} : (s.procs p).action cfg = .select u → Feeds cfg s (.select p false) p (.row none) s.pg
  | committed {p rows answer pg} : (s.procs p).action cfg = .commit rows → writeRows rows s.pg = some (answer, pg) →
      Feeds cfg s (.commit p .committed) p (.committed (some answer)) pg
  | lostCommit {p rows answer pg} : (s.procs p).action cfg = .commit rows → writeRows rows s.pg = some (answer, pg) →
      Feeds cfg s (.commit p .lost) p (.committed none) pg
  | noCommit {p rows fate} : (s.procs p).action cfg = .commit rows →
      Feeds cfg s (.commit p fate) p (.committed none) s.pg
  | called {p request} : (s.procs p).action cfg = .provider request → Feeds cfg s (.provider p) p .called s.pg
  | provided {p o} : (s.procs p).action cfg = .answer → Feeds cfg s (.provided p o) p (.provided o) s.pg
  | timeout {p} : (s.procs p).action cfg = .answer ∨ (s.procs p).action cfg = .wait →
      Feeds cfg s (.timeout p) p .timeout s.pg
  | wake {p} : (s.procs p).action cfg = .wait → Feeds cfg s (.wake p) p .wake s.pg

/-- The keys a label deletes. -/
inductive Expires (ρ : Redis) : Label → Redis → Prop
  | generation (id) : Expires ρ (.expireGeneration id) { ρ with gen := ρ.gen.del id }
  | topUp (o) : Expires ρ (.expireTopUp o) { ρ with topup := ρ.topup.del o }
  | lock (u) : Expires ρ (.expireLock u) { ρ with loadLock := ρ.loadLock.del u }
  | balance (u) : Expires ρ (.dropBalance u) { ρ with bal := ρ.bal.del u }

/-- **The cases of a step.** -/
inductive StepCase (cfg : Config) (s : System) : Label → System → Prop
  | spawn {p job} : s.procs p = .idle →
      StepCase cfg s (.spawn p job) { s with procs := Function.update s.procs p (job.start cfg) }
  | exec {p pick now c r ρ} : (s.procs p).action cfg = .call c → exec pick s.redis c = some (r, ρ) →
      StepCase cfg s (.exec p pick now) ({ s with redis := ρ }.deliver cfg p now (.reply r))
  | abandon {p c} : (s.procs p).action cfg = .call c →
      StepCase cfg s (.abandon p)
        { s.deliver cfg p 0 .lost with pool := ((s.procs p).leftovers cfg).map (p, ·) ++ s.pool }
  | late {i pick p st c r ρ} : s.pool[i]? = some (p, st) → st.action cfg = .call c →
      exec pick s.redis c = some (r, ρ) →
      StepCase cfg s (.late i pick) { s with redis := ρ, pool := s.pool.eraseIdx i }
  | feed {l p i pg} : Feeds cfg s l p i pg → StepCase cfg s l ({ s with pg }.deliver cfg p 0 i)
  | crash {p} : StepCase cfg s (.crash p)
      { s with
        procs := Function.update s.procs p .crashed
        pool := ((s.procs p).leftovers cfg).map (p, ·) ++ s.pool }
  | expire {l ρ} : Expires s.redis l ρ → StepCase cfg s l { s with redis := ρ }

theorem step_cases {cfg : Config} {s s' : System} {l : Label} (h : step cfg s l = some s') : StepCase cfg s l s' := by
  cases l with
  | spawn p job =>
    simp only [step] at h
    split at h
    · next hi => cases h; exact .spawn hi
    · cases h
  | exec p pick now =>
    simp only [step] at h
    split at h
    · next c hc =>
      obtain ⟨⟨r, ρ⟩, he, rfl⟩ := Option.map_eq_some_iff.mp h
      exact .exec hc he
    · cases h
  | abandon p =>
    simp only [step] at h
    split at h
    · next c hc => cases h; exact .abandon hc
    · cases h
  | late i pick =>
    simp only [step] at h
    split at h
    · next p st hi =>
      split at h
      · next c hc =>
        obtain ⟨⟨r, ρ⟩, he, rfl⟩ := Option.map_eq_some_iff.mp h
        exact .late hi hc he
      · cases h
    · cases h
  | select p ok =>
    simp only [step] at h
    split at h
    · next u hu =>
      cases h
      cases ok
      · exact .feed (.noRow hu)
      · exact .feed (.row hu)
    · cases h
  | commit p fate =>
    simp only [step] at h
    split at h
    · next rows hr =>
      split at h
      · next answer pg hw => cases h; exact .feed (.committed hr hw)
      · next answer pg hw => cases h; exact .feed (.lostCommit hr hw)
      · cases h; exact .feed (.noCommit hr)
    · cases h
  | provider p =>
    simp only [step] at h
    split at h
    · next hr => cases h; exact .feed (.called hr)
    · cases h
  | provided p o =>
    simp only [step] at h
    split at h
    · next ha => cases h; exact .feed (.provided ha)
    · cases h
  | timeout p =>
    simp only [step] at h
    split at h
    · next ha => cases h; exact .feed (.timeout (.inl ha))
    · next hw => cases h; exact .feed (.timeout (.inr hw))
    · cases h
  | wake p =>
    simp only [step] at h
    split at h
    · next hw => cases h; exact .feed (.wake hw)
    · cases h
  | crash p => cases h; exact .crash
  | expireGeneration id => cases h; exact .expire (.generation id)
  | expireTopUp o => cases h; exact .expire (.topUp o)
  | expireLock u => cases h; exact .expire (.lock u)
  | dropBalance u => cases h; exact .expire (.balance u)

end GenerationBalance
