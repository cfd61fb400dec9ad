/-
The system with the transaction of a flush taken row by row: `upsert_many`
(`backend/infra/database/psql/repos/balance.py`) locks and writes one row after
the other, `flush_once` (`backend/app/billing/flusher.py`) then reads the rejected
ones again and commits, while other flushes do the same.

`System` takes the whole transaction as one step. Here every run with the rows
interleaved is shown to be a run of `System`, with the commits as its steps; and
the flushes, which sort their rows by the primary key, never deadlock.
-/
import GenerationBalance.Locking
import GenerationBalance.Runs

namespace GenerationBalance

open Transition

/-! ## The statement, row by row -/

/-- One row of the statement. -/
def upsertRow (s : BalanceSnapshot) (stored : Option Balance) : Locking.RowResult Balance :=
  match columns s, stored with
  | some b, none => .write b
  | some b, some old => if old.version < b.version then .write b else .skip
  | none, _ => .fail

/-- The rows of the statement, sorted by primary key. -/
def insertOrder (rows : List (UserId × Balance)) : List (UserId × BalanceSnapshot) :=
  (rows.map (Prod.map id snapshotFromHash)).insertionSort fun a b => a.1 ≤ b.1

theorem apply_upsertRow (rows : List (UserId × BalanceSnapshot)) (pg : Rows) :
    Locking.apply upsertRow rows pg =
      (rows.mapM fun x => (columns x.2).map (x.1, ·)).map fun rows => upsertRows rows pg := by
  induction rows generalizing pg with
  | nil => rfl
  | cons x rows ih =>
    obtain ⟨u, s⟩ := x
    rw [List.mapM_cons]
    cases hs : columns s with
    | none => simp [Locking.apply, upsertRow, hs]
    | some b =>
      have wrote : upsertRow s (pg.get u) = .write b →
          (∀ rows', upsertRows ((u, b) :: rows') pg = Prod.map (u :: ·) id (upsertRows rows' (pg.set u b))) →
          Locking.apply upsertRow ((u, s) :: rows) pg =
            (rows.mapM fun x => (columns x.2).map (x.1, ·)).map fun rows => upsertRows ((u, b) :: rows) pg := by
        intro hrow hrows
        rw [Locking.apply_cons_write hrow, ih, Option.map_map]
        exact congrArg (Option.map · _) (funext fun rows' => (hrows rows').symm)
      have skipped : upsertRow s (pg.get u) = .skip →
          (∀ rows', upsertRows ((u, b) :: rows') pg = upsertRows rows' pg) →
          Locking.apply upsertRow ((u, s) :: rows) pg =
            (rows.mapM fun x => (columns x.2).map (x.1, ·)).map fun rows => upsertRows ((u, b) :: rows) pg := by
        intro hrow hrows
        rw [Locking.apply_cons_skip hrow, ih]
        exact congrArg (Option.map · _) (funext fun rows' => (hrows rows').symm)
      have heq : Locking.apply upsertRow ((u, s) :: rows) pg =
          (rows.mapM fun x => (columns x.2).map (x.1, ·)).map fun rows => upsertRows ((u, b) :: rows) pg := by
        cases hu : pg.get u with
        | none => exact wrote (by simp [upsertRow, hs, hu]) fun rows' => by simp [upsertRows, hu]
        | some old =>
          by_cases hv : old.version < b.version
          · exact wrote (by simp [upsertRow, hs, hu, hv]) fun rows' => by simp [upsertRows, hu, hv]
          · exact skipped (by simp [upsertRow, hs, hu, hv]) fun rows' => by simp [upsertRows, hu, hv]
      rw [heq]
      cases rows.mapM fun x => (columns x.2).map (x.1, ·) <;> rfl

/-- **The statement is its rows in turn.** -/
theorem upsertMany_apply (rows : List (UserId × Balance)) (pg : Rows) :
    upsertMany (rows.map (Prod.map id snapshotFromHash)) pg = Locking.apply upsertRow (insertOrder rows) pg := by
  rw [apply_upsertRow]
  unfold upsertMany insertOrder
  split
  · next h =>
    simp only [h]
    rfl
  · next h =>
    simp only [h]
    rfl

theorem insertOrder_keys {rows : List (UserId × Balance)} {u : UserId} :
    u ∈ (insertOrder rows).map Prod.fst ↔ u ∈ rows.map Prod.fst := by
  have hp := (List.perm_insertionSort (fun a b : UserId × BalanceSnapshot => a.1 ≤ b.1)
    (rows.map (Prod.map id snapshotFromHash))).map Prod.fst
  have hm : (rows.map (Prod.map id snapshotFromHash)).map Prod.fst = rows.map Prod.fst := by
    simp [Function.comp_def]
  rw [insertOrder, hp.mem_iff, hm]

theorem insertOrder_ascending {rows : List (UserId × Balance)} (hn : (rows.map Prod.fst).Nodup) :
    ((insertOrder rows).map Prod.fst).Pairwise (· < ·) := by
  have hp := (List.perm_insertionSort (fun a b : UserId × BalanceSnapshot => a.1 ≤ b.1)
    (rows.map (Prod.map id snapshotFromHash))).map Prod.fst
  have hm : (rows.map (Prod.map id snapshotFromHash)).map Prod.fst = rows.map Prod.fst := by
    simp [Function.comp_def]
  have hs : ((insertOrder rows).map Prod.fst).Pairwise (· ≤ ·) :=
    List.pairwise_map.mpr (List.pairwise_insertionSort (fun a b : UserId × BalanceSnapshot => a.1 ≤ b.1) _)
  rw [hm] at hp
  exact hs.imp₂ (fun _ _ hle hne => lt_of_le_of_ne hle hne) (hp.nodup_iff.mpr hn)

/-! ## The system -/

structure RowSystem where
  sys : System
  txns : Table ℕ (Locking.Txn UserId BalanceSnapshot Balance)

inductive RowLabel where
  /-- A step of the system that is no transaction of a flush. -/
  | sys (l : Label)
  | begin (p : ℕ)
  | lock (p : ℕ)
  | read (p : ℕ)
  | commit (p : ℕ) (lost : Bool)
  /-- The transaction of `p` fails, or could not begin. -/
  | rollback (p : ℕ)

def RowSystem.start (pg : Rows) : RowSystem := ⟨.start pg, .empty⟩

def RowSystem.db (s : RowSystem) : Locking.State ℕ UserId BalanceSnapshot Balance := ⟨s.sys.pg, s.txns⟩

/-- The rows that `flush_once` reads again. -/
def rejectedRows (rows : List (UserId × Balance)) (t : Locking.Txn UserId BalanceSnapshot Balance) : List Rejected :=
  ((rows.filter (·.1 ∉ t.written)).zip t.read).map fun x => (x.1.2, x.1.1, x.2)

def rowStep (cfg : Config) (s : RowSystem) : RowLabel → Option RowSystem
  | .sys l =>
    match l with
    | .commit _ _ => none
    | .crash p => (step cfg s.sys l).map fun sys => ⟨sys, s.txns.del p⟩
    | _ => (step cfg s.sys l).map fun sys => ⟨sys, s.txns⟩
  | .begin p =>
    match (s.sys.procs p).action cfg with
    | .commit rows =>
      (Locking.step upsertRow s.db (.begin p (insertOrder rows) (rows.map Prod.fst))).map fun db => ⟨s.sys, db.txns⟩
    | _ => none
  | .lock p =>
    (Locking.step upsertRow s.db (.lock p)).map fun db =>
      match db.txns.get p with
      | some _ => ⟨s.sys, db.txns⟩
      -- A row that fails fails the statement.
      | none => ⟨s.sys.deliver cfg p 0 (.committed none), db.txns⟩
  | .read p => (Locking.step upsertRow s.db (.read p)).map fun db => ⟨s.sys, db.txns⟩
  | .commit p lost =>
    match (s.sys.procs p).action cfg, s.txns.get p with
    | .commit rows, some t =>
      (Locking.step upsertRow s.db (.commit p)).map fun db =>
        ⟨{ s.sys with pg := db.committed }.deliver cfg p 0
          (.committed (if lost then none else some (t.written, rejectedRows rows t))), db.txns⟩
    | _, _ => none
  | .rollback p =>
    match (s.sys.procs p).action cfg with
    | .commit _ => some ⟨s.sys.deliver cfg p 0 (.committed none), s.txns.del p⟩
    | _ => none

theorem rowRun_of_schedule (cfg : Config) (s₀ : RowSystem) (ls : List RowLabel)
    (P : List (Trans RowSystem RowLabel) → RowSystem → Bool)
    (h : (play (rowStep cfg) s₀ [] ls).any (fun x => P x.1 x.2) = true) :
    ∃ tr s, Run (rowStep cfg) s₀ tr s ∧ P tr s = true :=
  Run.exists_of_play h

/-- The step of `System` that a step is, if it is one. -/
def RowLabel.coarse (post : RowSystem) : RowLabel → Option Label
  | .sys l => some l
  | .begin _ | .read _ => none
  | .lock p => if (post.txns.get p).isSome then none else some (.commit p .failed)
  | .commit p lost => some (.commit p (if lost then .lost else .committed))
  | .rollback p => some (.commit p .failed)

def coarse (t : Trans RowSystem RowLabel) : Option (Trans System Label) :=
  (t.label.coarse t.post).map fun l => ⟨t.pre.sys, l, t.post.sys⟩

/-! ## What a step does -/

section Step

variable {cfg : Config} {s s' : RowSystem} {l : RowLabel}

inductive RowCase (cfg : Config) (s : RowSystem) : RowLabel → RowSystem → Prop
  | sys {l sys} : (∀ p fate, l ≠ .commit p fate) → (∀ p, l ≠ .crash p) → step cfg s.sys l = some sys →
      RowCase cfg s (.sys l) ⟨sys, s.txns⟩
  | crash {p sys} : step cfg s.sys (.crash p) = some sys → RowCase cfg s (.sys (.crash p)) ⟨sys, s.txns.del p⟩
  | begun {p rows db} : (s.sys.procs p).action cfg = .commit rows →
      Locking.StepCase upsertRow s.db (.begin p (insertOrder rows) (rows.map Prod.fst)) db →
      RowCase cfg s (.begin p) ⟨s.sys, db.txns⟩
  | took {p t db} : Locking.StepCase upsertRow s.db (.lock p) db → db.txns.get p = some t →
      RowCase cfg s (.lock p) ⟨s.sys, db.txns⟩
  | failed {p db} : Locking.StepCase upsertRow s.db (.lock p) db → db.txns.get p = none →
      RowCase cfg s (.lock p) ⟨s.sys.deliver cfg p 0 (.committed none), db.txns⟩
  | answered {p db} : Locking.StepCase upsertRow s.db (.read p) db → RowCase cfg s (.read p) ⟨s.sys, db.txns⟩
  | committed {p lost rows t db} : (s.sys.procs p).action cfg = .commit rows → s.txns.get p = some t →
      Locking.StepCase upsertRow s.db (.commit p) db →
      RowCase cfg s (.commit p lost) ⟨{ s.sys with pg := db.committed }.deliver cfg p 0
        (.committed (if lost then none else some (t.written, rejectedRows rows t))), db.txns⟩
  | rolledBack {p rows} : (s.sys.procs p).action cfg = .commit rows →
      RowCase cfg s (.rollback p) ⟨s.sys.deliver cfg p 0 (.committed none), s.txns.del p⟩

theorem rowStep_cases (h : rowStep cfg s l = some s') : RowCase cfg s l s' := by
  cases l with
  | sys l =>
    simp only [rowStep] at h
    split at h
    · cases h
    · next p =>
      obtain ⟨sys, hs, rfl⟩ := Option.map_eq_some_iff.mp h
      exact .crash hs
    · next hc hk =>
      obtain ⟨sys, hs, rfl⟩ := Option.map_eq_some_iff.mp h
      exact .sys hc hk hs
  | «begin» p =>
    simp only [rowStep] at h
    split at h
    · next rows ha =>
      obtain ⟨db, hdb, rfl⟩ := Option.map_eq_some_iff.mp h
      exact .begun ha (Locking.step_cases hdb)
    · cases h
  | lock p =>
    simp only [rowStep] at h
    obtain ⟨db, hdb, rfl⟩ := Option.map_eq_some_iff.mp h
    split
    · next t ht => exact .took (Locking.step_cases hdb) ht
    · next ht => exact .failed (Locking.step_cases hdb) ht
  | read p =>
    simp only [rowStep] at h
    obtain ⟨db, hdb, rfl⟩ := Option.map_eq_some_iff.mp h
    exact .answered (Locking.step_cases hdb)
  | commit p lost =>
    simp only [rowStep] at h
    split at h
    · next rows t ha ht =>
      obtain ⟨db, hdb, rfl⟩ := Option.map_eq_some_iff.mp h
      exact .committed ha ht (Locking.step_cases hdb)
    · cases h
  | rollback p =>
    simp only [rowStep] at h
    split at h
    · next rows ha =>
      cases h
      exact .rolledBack ha
    · cases h

end Step

/-! ## The rows of a flush -/

/-- The users of a flush are distinct, as the keys of a dict are. -/
def FlushPc.Distinct : FlushPc → Prop
  | .loading _ todo rows => (rows.map Prod.fst ++ todo).Nodup
  | .committing _ rows => (rows.map Prod.fst).Nodup
  | _ => True

def System.Distinct (s : System) : Prop := ∀ p pc, s.procs p = .flush pc → pc.Distinct

theorem FlushPc.load_distinct {users todo : List UserId} {rows : List (UserId × Balance)}
    (hn : (rows.map Prod.fst ++ todo).Nodup) : (load users rows todo).Distinct := by
  cases todo with
  | cons u todo => exact hn
  | nil =>
    rw [List.append_nil] at hn
    simp only [load, write]
    split
    · unfold clear
      split <;> trivial
    · exact hn

theorem FlushPc.clear_distinct (written : ℕ) (cleared : List (UserId × ℤ)) : (clear written cleared).Distinct := by
  cases cleared <;> trivial

theorem FlushPc.repair_distinct (users : List UserId) (rows : List (UserId × Balance)) (written : ℕ) :
    ∀ rejected : List Rejected, (repair users rows written rejected).Distinct
  | [] => clear_distinct ..
  | (b, u, none) :: rejected => repair_distinct users rows written rejected
  | (b, u, some stored) :: rejected => by
    simp only [repair]
    split
    · exact repair_distinct users rows written rejected
    · trivial

theorem FlushPc.resume_distinct {cfg : Config} {s s' : System} {l : Label} {p : ℕ} {i : Input} {pc : FlushPc}
    (hg : Given cfg s s' l p i) (hst : s.procs p = .flush pc) (hd : pc.Distinct) : (pc.resume cfg i).Distinct := by
  have hact : (s.procs p).action cfg = pc.action cfg := by rw [hst]; rfl
  have hm := flushMove cfg pc i
  generalize pc.resume cfg i = pc' at hm ⊢
  cases hm with
  | stay => exact hd
  | raised => trivial
  | nothing => trivial
  | @picked users =>
    have hok := hg.callOk hact rfl
    generalize s'.redis = ρ' at hok
    cases hok with
    | dirtyUsers hn => exact load_distinct (by simpa using hn)
  | @read users u todo rows b =>
    refine load_distinct ?_
    cases b with
    | none =>
      simp only [Option.map_none, Option.toList_none, List.append_nil]
      exact hd.sublist ((List.sublist_cons_self u todo).append_left _)
    | some b =>
      have hd : (rows.map Prod.fst ++ u :: todo).Nodup := hd
      simpa using hd
  | committed => exact repair_distinct ..
  | repaired => exact repair_distinct ..
  | again => trivial
  | cleared => exact clear_distinct ..

theorem StepCase.flush_distinct {cfg : Config} {s s' : System} {l : Label} (h : StepCase cfg s l s') {p : ℕ}
    (hs : ∀ pc, s.procs p = .flush pc → pc.Distinct) (pc : FlushPc) (hp : s'.procs p = .flush pc) : pc.Distinct := by
  cases h.goes p with
  | same he => exact hs pc (he ▸ hp)
  | @started job _ _ he =>
    rw [he] at hp
    cases job <;> cases hp
    trivial
  | crashed _ he =>
    rw [he] at hp
    cases hp
  | @resumed i now hg _ he =>
    rw [he] at hp
    cases hproc : s.procs p <;> rw [hproc] at hp <;> cases hp
    exact FlushPc.resume_distinct hg hproc (hs _ hproc)

theorem StepCase.distinct {cfg : Config} {s s' : System} {l : Label} (h : StepCase cfg s l s') (hs : s.Distinct) :
    s'.Distinct :=
  fun p => h.flush_distinct (hs p)

theorem Proc.distinct_rows {cfg : Config} {st : Proc} (hs : ∀ pc, st = .flush pc → pc.Distinct)
    {rows : List (UserId × Balance)} (ha : st.action cfg = .commit rows) : (rows.map Prod.fst).Nodup := by
  have hrows := Proc.commit_rows ha
  cases st with
  | flush pc =>
    have hd := hs pc rfl
    cases pc with
    | committing =>
      cases ha
      exact hd
    | loading users todo =>
      cases todo <;> cases ha
    | _ => cases ha
  | _ =>
    cases hrows
    exact List.nodup_nil

theorem System.Distinct.rows {cfg : Config} {s : System} (hs : s.Distinct) {p : ℕ} {rows : List (UserId × Balance)}
    (ha : (s.procs p).action cfg = .commit rows) : (rows.map Prod.fst).Nodup :=
  Proc.distinct_rows (hs p) ha

/-! ## Transactions and their flushes -/

/-- A transaction is of a flush that awaits it, and of that flush's rows. -/
structure RowSystem.Tied (cfg : Config) (s : RowSystem) : Prop where
  good : s.db.Good upsertRow
  flush : ∀ p t, s.txns.get p = some t → ∃ rows, (s.sys.procs p).action cfg = .commit rows ∧
    t.done ++ t.todo = insertOrder rows ∧ t.order = rows.map Prod.fst

/-- A flush that awaits its transaction is moved by its own commit and crash only, and so are the rows. -/
theorem StepCase.awaiting {cfg : Config} {s s' : System} {l : Label} (h : StepCase cfg s l s')
    (hl : ∀ p fate, l ≠ .commit p fate) :
    s'.pg = s.pg ∧ ∀ p rows, (s.procs p).action cfg = .commit rows → l ≠ .crash p → s'.procs p = s.procs p := by
  constructor
  · cases h with
    | feed hf =>
      cases hf with
      | committed | lostCommit | noCommit => exact absurd rfl (hl _ _)
      | _ => rfl
    | _ => rfl
  · intro p rows ha hc
    cases h.goes p with
    | same he => exact he
    | started _ hi _ =>
      rw [hi] at ha
      cases ha
    | crashed he => exact absurd he hc
    | resumed hg =>
      cases hg with
      | reply hcall =>
        rw [ha] at hcall
        cases hcall
      | lost hcall =>
        rw [ha] at hcall
        cases hcall
      | feed hf =>
        generalize s'.pg = pg' at hf
        cases hf with
        | committed | lostCommit | noCommit => exact absurd rfl (hl _ _)
        | row hsel | noRow hsel | called hsel | provided hsel | wake hsel =>
          rw [ha] at hsel
          cases hsel
        | timeout hsel =>
          rw [ha] at hsel
          rcases hsel with hsel | hsel <;> cases hsel

section Tied

variable {cfg : Config} {s s' : RowSystem} {l : RowLabel}

theorem deliver_other {cfg : Config} {s : System} {p q : ℕ} {now : ℚ} {i : Input} (h : q ≠ p) :
    (s.deliver cfg p now i).procs q = s.procs q := by
  simp only [System.deliver, Function.update_of_ne h]

/-- After a step of the database, the transactions are of the flushes they were of. -/
theorem RowSystem.Tied.step (hs : s.Tied cfg) {l : Locking.Label ℕ UserId BalanceSnapshot}
    {db : Locking.State ℕ UserId BalanceSnapshot Balance} (h : Locking.StepCase upsertRow s.db l db)
    (hl : l.Ordered) {sys : System} (hpg : sys.pg = db.committed)
    (hprocs : ∀ q t, db.txns.get q = some t → sys.procs q = s.sys.procs q)
    (hbegin : ∀ q rows order, l = .begin q rows order → ∃ rows', (s.sys.procs q).action cfg = .commit rows' ∧
      rows = insertOrder rows' ∧ order = rows'.map Prod.fst) : RowSystem.Tied cfg ⟨sys, db.txns⟩ := by
  refine ⟨?_, fun q u hu => ?_⟩
  · have hgood := h.good hs.good hl
    show Locking.State.Good upsertRow ⟨sys.pg, db.txns⟩
    rw [hpg]
    exact hgood
  · rw [hprocs q u hu]
    rcases h.entry hu with ⟨t, ht, hrows, horder⟩ | ⟨rows, order, hlabel, rfl⟩
    · obtain ⟨rows, ha, hdone, hord⟩ := hs.flush q t ht
      exact ⟨rows, ha, hrows.trans hdone, horder.trans hord⟩
    · obtain ⟨rows', ha, rfl, rfl⟩ := hbegin q rows order hlabel
      exact ⟨rows', ha, rfl, rfl⟩

/-- A transaction is taken out, and its flush with it. -/
theorem RowSystem.Tied.out (hs : s.Tied cfg) {p : ℕ} {sys : System} (hpg : sys.pg = s.sys.pg)
    (hprocs : ∀ q rows, q ≠ p → (s.sys.procs q).action cfg = .commit rows → sys.procs q = s.sys.procs q) :
    RowSystem.Tied cfg ⟨sys, s.txns.del p⟩ := by
  refine ⟨?_, fun q t ht => ?_⟩
  · show Locking.State.Good upsertRow ⟨sys.pg, s.txns.del p⟩
    rw [hpg]
    exact hs.good.out fun _ _ _ _ _ _ => rfl
  · rw [Table.get_del] at ht
    split at ht
    · cases ht
    · next hq =>
      obtain ⟨rows, ha, hrest⟩ := hs.flush q t ht
      exact ⟨rows, by rw [hprocs q rows hq ha]; exact ha, hrest⟩

theorem RowCase.tied (h : RowCase cfg s l s') (hs : s.Tied cfg) (hd : s.sys.Distinct) : s'.Tied cfg := by
  cases h with
  | @sys l sys hl hc h =>
    obtain ⟨hpg, hprocs⟩ := (step_cases h).awaiting hl
    refine ⟨?_, fun q t ht => ?_⟩
    · show Locking.State.Good upsertRow ⟨sys.pg, s.txns⟩
      rw [hpg]
      exact hs.good
    · obtain ⟨rows, ha, hrest⟩ := hs.flush q t ht
      exact ⟨rows, by rw [hprocs q rows ha (hc q)]; exact ha, hrest⟩
  | @crash p sys h =>
    obtain ⟨hpg, hprocs⟩ := (step_cases h).awaiting (by simp)
    exact hs.out hpg fun q rows hq ha => hprocs q rows ha fun he => hq (Label.crash.inj he).symm
  | begun ha h =>
    exact hs.step h ⟨insertOrder_ascending (hd.rows ha), fun u => insertOrder_keys.mpr⟩ (by cases h; rfl) (fun _ _ _ => rfl)
      fun q rows order he => by cases he; exact ⟨_, ha, rfl, rfl⟩
  | took h ht => exact hs.step h trivial (by cases h <;> rfl) (fun _ _ _ => rfl) (by simp)
  | @failed p db h hn =>
    refine hs.step h trivial (by cases h <;> rfl) (fun q t ht => deliver_other ?_) (by simp)
    intro hq
    rw [hq, hn] at ht
    cases ht
  | answered h => exact hs.step h trivial (by cases h; rfl) (fun _ _ _ => rfl) (by simp)
  | @committed p lost rows t db ha ht h =>
    refine hs.step h trivial rfl (fun q u hu => deliver_other ?_) (by simp)
    intro hq
    cases h
    rw [hq, Table.get_del_self] at hu
    cases hu
  | rolledBack ha => exact hs.out rfl fun q rows hq _ => deliver_other hq

/-- A transaction that did its statement at once is the one of `System`. -/
theorem writeRows_of_atOnce {rows : List (UserId × Balance)} {pg pg' : Rows}
    {t : Locking.Txn UserId BalanceSnapshot Balance}
    (h : Locking.AtOnce upsertRow (insertOrder rows) (rows.map Prod.fst) pg pg' t) :
    writeRows rows pg = some ((t.written, rejectedRows rows t), pg') := by
  have hread : t.read = (rows.filter (·.1 ∉ t.written)).map fun x => pg'.get x.1 := by
    rw [h.reads, List.filter_map, List.map_map]
    rfl
  have hzip : (rows.filter (·.1 ∉ t.written)).zip t.read =
      (rows.filter (·.1 ∉ t.written)).map fun x => (x, pg'.get x.1) := by
    have h := List.zip_map' (f := id) (g := fun x => pg'.get x.1) (l := rows.filter (·.1 ∉ t.written))
    rw [List.map_id] at h
    rw [hread, h]
    rfl
  rw [writeRows, upsertMany_apply, h.applied, Option.map_some, rejectedRows, hzip, List.map_map]
  rfl

/-- **What a step is to the system**: nothing, or one step. -/
theorem RowCase.coarse (h : RowCase cfg s l s') (hs : s.Tied cfg) :
    (GenerationBalance.coarse ⟨s, l, s'⟩ = none ∧ s'.sys = s.sys) ∨
      ∃ l', GenerationBalance.coarse ⟨s, l, s'⟩ = some ⟨s.sys, l', s'.sys⟩ ∧ step cfg s.sys l' = some s'.sys := by
  cases h with
  | @sys l sys hl hc h => exact .inr ⟨l, rfl, h⟩
  | @crash p sys h => exact .inr ⟨.crash p, rfl, h⟩
  | begun => exact .inl ⟨rfl, rfl⟩
  | took h ht =>
    refine .inl ⟨?_, rfl⟩
    simp [GenerationBalance.coarse, RowLabel.coarse, ht]
  | @failed p db h hn =>
    obtain ⟨t, ht⟩ : ∃ t, s.txns.get p = some t := by cases h <;> exact ⟨_, ‹_›⟩
    obtain ⟨rows, ha, -⟩ := hs.flush p t ht
    refine .inr ⟨.commit p .failed, ?_, ?_⟩
    · simp [GenerationBalance.coarse, RowLabel.coarse, hn]
    · simp only [step, ha]
  | answered => exact .inl ⟨rfl, rfl⟩
  | @committed p lost rows t db ha ht h =>
    refine .inr ⟨.commit p (if lost then .lost else .committed), rfl, ?_⟩
    cases h with
    | @committed _ t' ht' htodo hunread =>
      rw [show s.db.txns.get p = s.txns.get p from rfl, ht] at ht'
      cases ht'
      obtain ⟨rows', ha', hrows, horder⟩ := hs.flush p t ht
      rw [ha] at ha'
      cases ha'
      have honce := (hs.good.txn p t ht).atOnce htodo hunread
      rw [hrows, horder] at honce
      have hw : writeRows rows s.sys.pg = some ((t.written, rejectedRows rows t), t.own.overlay s.db.committed) :=
        writeRows_of_atOnce honce
      cases lost with
      | false => simp only [step, ha, hw, Bool.false_eq_true, if_false]
      | true => simp only [step, ha, hw, if_true]
  | @rolledBack p rows ha =>
    refine .inr ⟨.commit p .failed, rfl, ?_⟩
    simp only [step, ha]

end Tied

/-- What holds of the rows, their transactions and the flushes in a run. -/
theorem rows_follow {cfg : Config} {pg : Rows} {tr : List (Trans RowSystem RowLabel)} {s : RowSystem}
    (hr : Run (rowStep cfg) (.start pg) tr s) :
    Runs cfg (.start pg) (tr.filterMap coarse) s.sys ∧ s.Tied cfg ∧ s.sys.Distinct := by
  refine hr.invariant_history (P := fun _ => True) (fun _ _ => trivial)
    (I := fun tr s => Runs cfg (.start pg) (tr.filterMap coarse) s.sys ∧ s.Tied cfg ∧ s.sys.Distinct)
    ⟨.refl, ⟨Locking.State.start_good pg, fun p t ht => nomatch ht⟩, fun p pc hp => nomatch hp⟩ ?_
  intro tr s l s' _ _ ⟨hruns, hs, hd⟩ hstep _
  have h := rowStep_cases hstep
  rcases h.coarse hs with ⟨hn, he⟩ | ⟨l', hl, hl'⟩
  · rw [List.filterMap_cons_none hn]
    exact ⟨he ▸ hruns, h.tied hs hd, he ▸ hd⟩
  · rw [List.filterMap_cons_some hl]
    exact ⟨.step hruns hl', h.tied hs hd, (step_cases hl').distinct hd⟩

/-- **Row by row is at once.** A run of the system with the rows of concurrent flushes interleaved is a run of the
system whose transactions are one step each, with the same stores and calls. -/
theorem interleaved_upserts {cfg : Config} {pg : Rows} {tr : List (Trans RowSystem RowLabel)} {s : RowSystem}
    (hr : Run (rowStep cfg) (.start pg) tr s) : Runs cfg (.start pg) (tr.filterMap coarse) s.sys :=
  (rows_follow hr).1

/-- Two flushes of one balance, after a reservation: the second begins first, and then waits for
the row of the first. -/
def twoFlushes : List RowLabel :=
  (Label.spawn 0 (.gen (premium 1 5)) :: coldLoad 0 ++
    [Label.exec 0 [] 0, .spawn 2 .flush, .exec 2 [1] 0, .exec 2 [] 0, .spawn 3 .flush, .exec 3 [1] 0, .exec 3 [] 0]).map
      RowLabel.sys ++ [.begin 3, .begin 2, .lock 2]

/-- The second finds the row of the first, and reads it. -/
theorem interleaved_upserts_two :
    ∃ tr s, Run (rowStep {}) (.start dollarRows) tr s ∧ Runs {} (.start dollarRows) (tr.filterMap coarse) s.sys ∧
      tr.length = 22 ∧ (tr.filterMap coarse).length = 17 ∧ (s.sys.pg.get 1).map Balance.version = some 8 := by
  obtain ⟨tr, s, hr, h⟩ := rowRun_of_schedule {} (.start dollarRows)
    (twoFlushes ++ [.commit 2 false, .lock 3, .read 3, .commit 3 false])
    (fun tr s => tr.length == 22 && (tr.filterMap coarse).length == 17 &&
      (s.sys.pg.get 1).map Balance.version == some 8) (by decide +kernel)
  simp only [Bool.and_eq_true, beq_iff_eq] at h
  exact ⟨tr, s, hr, interleaved_upserts hr, h.1.1, h.1.2, h.2⟩

/-! ## No deadlock -/

/-- A step of a transaction that is open. -/
inductive RowLabel.Goes : RowLabel → Prop
  | lock (p : ℕ) : (RowLabel.lock p).Goes
  | read (p : ℕ) : (RowLabel.read p).Goes
  | commit (p : ℕ) (lost : Bool) : (RowLabel.commit p lost).Goes

section Goes

variable {cfg : Config} {s s' : RowSystem} {l : RowLabel}

theorem RowCase.work (h : RowCase cfg s l s') (hl : l.Goes) : s'.db.work < s.db.work := by
  cases hl with
  | lock p =>
    cases h with
    | took h => exact h.work (.lock p)
    | failed h => exact h.work (.lock p)
  | read p =>
    cases h with
    | answered h => exact h.work (.read p)
  | commit p lost =>
    cases h with
    | committed _ _ h => exact h.work (.commit p)

/-- An open transaction can go on, whatever else waits. -/
theorem RowSystem.Tied.goes (hs : s.Tied cfg) (hne : s.txns.keys.Nonempty) :
    ∃ l s', RowLabel.Goes l ∧ rowStep cfg s l = some s' := by
  obtain ⟨l, db, hl, hdb⟩ := hs.good.goes hne
  cases hl with
  | lock p =>
    exact ⟨.lock p, _, .lock p, congrArg (Option.map _) hdb⟩
  | read p =>
    exact ⟨.read p, _, .read p, congrArg (Option.map _) hdb⟩
  | commit p =>
    obtain ⟨t, ht⟩ : ∃ t, s.txns.get p = some t := by cases Locking.step_cases hdb; exact ⟨_, ‹_›⟩
    obtain ⟨rows, ha, -⟩ := hs.flush p t ht
    have hstep := congrArg (Option.map fun db : Locking.State ℕ UserId BalanceSnapshot Balance =>
      (⟨{ s.sys with pg := db.committed }.deliver cfg p 0 (.committed (some (t.written, rejectedRows rows t))),
        db.txns⟩ : RowSystem)) hdb
    exact ⟨.commit p false, _, .commit p false, by simp only [rowStep, ha, ht]; exact hstep⟩

end Goes

/-- **Flushes never deadlock.** After any run, as long as a transaction is open one of the open ones can take its next
row, read its next answer or commit; and the steps they can take come to an end with none open. -/
theorem flushes_never_deadlock {cfg : Config} {pg : Rows} {tr : List (Trans RowSystem RowLabel)} {s : RowSystem}
    (hr : Run (rowStep cfg) (.start pg) tr s) :
    Leads (rowStep cfg) RowLabel.Goes (fun s => s.txns.keys = ∅) s := by
  have hends : Leads (rowStep cfg) RowLabel.Goes
      (fun s => (∃ tr, Run (rowStep cfg) (.start pg) tr s) ∧ s.txns.keys = ∅) s := by
    refine Leads.of_measure (fun s => s.db.work) ?_ ?_ ?_ ⟨tr, hr⟩
    · intro s l s' h _ hstep
      obtain ⟨tr, hr⟩ := h
      exact ⟨_, hr.step hstep⟩
    · intro s l s' _ hl hstep
      exact (rowStep_cases hstep).work hl
    · intro s h hne
      obtain ⟨tr, hr⟩ := h
      exact (rows_follow hr).2.1.goes (Finset.nonempty_iff_ne_empty.mpr hne)
  exact hends.mono fun s hs => hs.2

theorem flushes_never_deadlock_two :
    ∃ tr s, Run (rowStep {}) (.start dollarRows) tr s ∧ 2 ∈ s.txns.keys ∧ 3 ∈ s.txns.keys ∧
      (rowStep {} s (.lock 3)).isNone ∧ Leads (rowStep {}) RowLabel.Goes (fun s => s.txns.keys = ∅) s := by
  obtain ⟨tr, s, hr, h⟩ := rowRun_of_schedule {} (.start dollarRows) twoFlushes
    (fun _ s => decide (2 ∈ s.txns.keys) && decide (3 ∈ s.txns.keys) && (rowStep {} s (.lock 3)).isNone)
    (by decide +kernel)
  simp only [Bool.and_eq_true, decide_eq_true_eq] at h
  exact ⟨tr, s, hr, h.1.1, h.1.2, h.2, flushes_never_deadlock hr⟩

end GenerationBalance
