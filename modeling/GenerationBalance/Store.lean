/-
The store adapter (`backend/infra/database/redis/adapters/balance_store.py`)
and the `balance` table (`backend/infra/database/psql/repos/balance.py`).

`Call` is one round trip to Redis, `exec` what Redis answers and leaves;
the outcome functions are how the adapter reads a script's reply.
-/
import GenerationBalance.Redis
import GenerationBalance.Versioned
import Mathlib.Data.Finset.Sort
import Mathlib.Data.List.Sort
import Mathlib.Data.Prod.Lex

namespace GenerationBalance

/-! ## Snapshots and records -/

structure BalanceSnapshot extends BalanceView Decimal where
  version : ℤ

/-- `_snapshot_from_hash`, `_snapshot_from_conflict`, and the entity of a row. -/
def snapshotFromHash (b : Balance) : BalanceSnapshot where
  freeUsd := microsToMoney b.freeUsd
  bonusUsd := microsToMoney b.bonusUsd
  paidUsd := microsToMoney b.paidUsd
  freeRequests := b.freeRequests
  version := b.version

def BalanceSnapshot.zero : BalanceSnapshot where
  freeUsd := .ofInt 0
  bonusUsd := .ofInt 0
  paidUsd := .ofInt 0
  freeRequests := 0
  version := 0

/-- The balance the policy reads, in micro-dollars. -/
def Balance.view (b : Balance) : BalanceView ℤ := ⟨b.freeUsd, b.bonusUsd, b.paidUsd, b.freeRequests⟩

theorem microView_snapshot (b : Balance) : MicroView (snapshotFromHash b).toBalanceView b.view := by
  refine ⟨fun k => ?_, rfl⟩
  cases k
  · exact isMicros_microsToMoney b.inRange.1.fits
  · exact isMicros_microsToMoney b.inRange.2.1.fits
  · exact isMicros_microsToMoney b.inRange.2.2.1.fits

/-- `_snapshot_args`, as the hash `SEED_IF_ABSENT` writes. A row's numbers are
in range, so the last branch is never taken for one. -/
def snapshotArgs (s : BalanceSnapshot) : Except Exn Balance := do
  let freeUsd ← moneyToMicros s.freeUsd
  let bonusUsd ← moneyToMicros s.bonusUsd
  let paidUsd ← moneyToMicros s.paidUsd
  if h : InRange freeUsd ∧ InRange bonusUsd ∧ InRange paidUsd ∧ InRange s.freeRequests then
    return ⟨freeUsd, bonusUsd, paidUsd, s.freeRequests, s.version, h⟩
  else throw .response

theorem snapshotArgs_snapshotFromHash (b : Balance) : snapshotArgs (snapshotFromHash b) = .ok b := by
  have h1 := moneyToMicros_microsToMoney b.inRange.1.fits
  have h2 := moneyToMicros_microsToMoney b.inRange.2.1.fits
  have h3 := moneyToMicros_microsToMoney b.inRange.2.2.1.fits
  simp only [snapshotArgs, snapshotFromHash, h1, h2, h3]
  exact dif_pos b.inRange

theorem snapshotArgs_zero : snapshotArgs .zero = .ok .zero := by decide

/-- `_state(a) == _state(b)`. -/
def sameState (a b : BalanceSnapshot) : Bool :=
  a.freeUsd == b.freeUsd && a.bonusUsd == b.bonusUsd && a.paidUsd == b.paidUsd &&
    a.freeRequests == b.freeRequests && a.version == b.version

theorem sameState_iff (b c : Balance) : sameState (snapshotFromHash b) (snapshotFromHash c) = true ↔ b = c := by
  have hb := microView_snapshot b
  have hc := microView_snapshot c
  have h1 := (hb.available .free).beq_iff (hc.available .free)
  have h2 := (hb.available .bonus).beq_iff (hc.available .bonus)
  have h3 := (hb.available .paid).beq_iff (hc.available .paid)
  simp only [BalanceView.available, Balance.view] at h1 h2 h3
  simp only [sameState, Bool.and_eq_true, h1, h2, h3, beq_iff_eq, Balance.ext_iff, and_assoc]
  rfl

structure GenerationRecord where
  status : GenerationStatus
  userId : UserId
  dialogId : DialogId
  modelName : String
  plan : DebitPlan Decimal
  authorizedCostUsd : Decimal
  startedAt : ℚ
  content : Option String
  billedCostUsd : Option Decimal
  providerBilledCostUsd : Option Number
  refundedSurplusUsd : Option Decimal
  error : Option String

/-- `fields.get(name) or None` for a text field. -/
def textOrNone (s : Option String) : Option String := s.filter (· ≠ "")

theorem textOrNone_getD (c : String) : (textOrNone (some c)).getD "" = c := by
  unfold textOrNone Option.filter
  by_cases h : c = ""
  · simp [h]
  · simp [h]

/-- `_record_from_fields`. -/
def recordFromFields (r : GenerationHash) : GenerationRecord where
  status := r.status
  userId := r.userId
  dialogId := r.dialogId
  modelName := r.modelName
  plan := planFromMicros r.plan
  authorizedCostUsd := microsToMoney r.authorizedCostUsd
  startedAt := r.startedAt
  content := textOrNone r.content
  billedCostUsd := r.billedCostUsd.map microsToMoney
  providerBilledCostUsd := r.providerBilledCostUsd
  refundedSurplusUsd := r.refundedSurplusUsd.map microsToMoney
  error := textOrNone r.error

/-! ## Round trips -/

inductive Call where
  | load (u : UserId)
  | tryAcquireLoadLock (u : UserId) (token : Token)
  | releaseLoadLock (u : UserId) (token : Token)
  | seedIfAbsent (u : UserId) (b : Balance)
  | advanceVersion (u : UserId) (expected newVersion : ℤ)
  | reserve (a : ReserveArgs)
  | getGeneration (id : RequestId)
  | settle (a : SettleArgs)
  | refund (a : RefundArgs)
  | topUp (a : TopUpArgs)
  | staleInflight (olderThan : ℚ) (limit : ℕ)
  | forgetInflight (id : RequestId)
  | dirtyUsers (limit : ℕ)
  | clearDirty (u : UserId) (version : ℤ)

inductive Reply where
  | balance (b : Option Balance)
  | record (r : Option GenerationHash)
  | ids (l : List RequestId)
  | users (l : List UserId)
  | flag (done : Bool)
  | reserve (r : ReserveReply)
  | settle (r : SettleReply)
  | refund (r : RefundReply)
  | topUp (r : TopUpReply)
  | error (e : ScriptError)

/-- `ZRANGEBYSCORE gen:inflight -inf older_than LIMIT 0 limit`: by score, ties
by member. -/
def Redis.staleInflight (ρ : Redis) (olderThan : ℚ) (limit : ℕ) : List RequestId :=
  let entries := ρ.inflight.keys.image fun id => toLex ((ρ.inflight.get id).getD 0, id)
  (((entries.filter fun e => (ofLex e).1 ≤ olderThan).sort (· ≤ ·)).map fun e => (ofLex e).2).take limit

/-- The ids of the stale entries, by score, ties by id. -/
def Redis.staleOrder (ρ : Redis) (cutoff : ℚ) : List RequestId :=
  let entries := ρ.inflight.keys.image fun id => toLex ((ρ.inflight.get id).getD 0, id)
  ((entries.filter fun e => (ofLex e).1 ≤ cutoff).sort (· ≤ ·)).map fun e => (ofLex e).2

theorem Redis.staleInflight_eq (ρ : Redis) (cutoff : ℚ) (limit : ℕ) :
    ρ.staleInflight cutoff limit = (ρ.staleOrder cutoff).take limit := rfl

/-- The ids are those of the entries with a score of at most the cutoff, by score, ties by id. -/
structure StaleOrder (ρ : Redis) (cutoff : ℚ) (ids : List RequestId) : Prop where
  mem : ∀ id, id ∈ ids ↔ ∃ score, ρ.inflight.get id = some score ∧ score ≤ cutoff
  sorted : ids.Pairwise fun a b => toLex ((ρ.inflight.get a).getD 0, a) < toLex ((ρ.inflight.get b).getD 0, b)

theorem Redis.staleOrder_spec (ρ : Redis) (cutoff : ℚ) : StaleOrder ρ cutoff (ρ.staleOrder cutoff) := by
  have hentry : ∀ e, e ∈ ((ρ.inflight.keys.image fun id => toLex ((ρ.inflight.get id).getD 0, id)).filter
      fun e => (ofLex e).1 ≤ cutoff).sort (· ≤ ·) ↔
      ∃ id score, ρ.inflight.get id = some score ∧ score ≤ cutoff ∧ e = toLex (score, id) := by
    intro e
    rw [Finset.mem_sort, Finset.mem_filter, Finset.mem_image]
    constructor
    · rintro ⟨⟨id, hid, rfl⟩, hle⟩
      obtain ⟨score, hs⟩ := Option.isSome_iff_exists.mp ((ρ.inflight.mem_keys id).mp hid)
      rw [hs] at hle ⊢
      exact ⟨id, score, hs, hle, rfl⟩
    · rintro ⟨id, score, hs, hle, rfl⟩
      exact ⟨⟨id, Table.mem_keys_of_get hs, by rw [hs]; rfl⟩, hle⟩
  refine ⟨fun id => ?_, ?_⟩
  · unfold Redis.staleOrder
    rw [List.mem_map]
    constructor
    · rintro ⟨e, he, rfl⟩
      obtain ⟨id, score, hs, hle, rfl⟩ := (hentry e).mp he
      exact ⟨score, hs, hle⟩
    · intro ⟨score, hs, hle⟩
      exact ⟨toLex (score, id), (hentry _).mpr ⟨id, score, hs, hle, rfl⟩, rfl⟩
  · unfold Redis.staleOrder
    rw [List.pairwise_map]
    refine List.Pairwise.imp_of_mem ?_ (Finset.sortedLT_sort _).pairwise
    intro a b ha hb hlt
    obtain ⟨i, s, hs, -, rfl⟩ := (hentry a).mp ha
    obtain ⟨j, t, ht, -, rfl⟩ := (hentry b).mp hb
    simp only [ofLex_toLex, hs, ht, Option.getD_some]
    exact hlt

theorem StaleOrder.nodup {ρ : Redis} {cutoff : ℚ} {ids : List RequestId} (h : StaleOrder ρ cutoff ids) : ids.Nodup :=
  h.sorted.imp fun hlt he => by
    rw [he] at hlt
    exact lt_irrefl _ hlt

theorem StaleOrder.unique {ρ : Redis} {cutoff : ℚ} {ids ids' : List RequestId} (h : StaleOrder ρ cutoff ids)
    (h' : StaleOrder ρ cutoff ids') : ids = ids' := by
  refine List.Perm.eq_of_pairwise ?_ h.sorted h'.sorted ?_
  · intro a b _ _ hab hba
    exact absurd hab (lt_asymm hba)
  · rw [List.perm_ext_iff_of_nodup h.nodup h'.nodup]
    intro id
    rw [h.mem, h'.mem]

theorem Redis.staleInflight_nodup (ρ : Redis) (olderThan : ℚ) (limit : ℕ) :
    (ρ.staleInflight olderThan limit).Nodup := by
  rw [Redis.staleInflight_eq]
  exact (ρ.staleOrder_spec olderThan).nodup.sublist (List.take_sublist _ _)

/-- A script's reply, or its error. -/
def scriptReply {α : Type} (f : α → Reply) : Except ScriptError α × Redis → Reply × Redis
  | (.ok a, ρ) => (f a, ρ)
  | (.error e, ρ) => (.error e, ρ)

/-- What Redis answers and leaves. `SRANDMEMBER` may answer any `limit` members
of the dirty set: `pick` is the answer, refused when it is not one. -/
def exec (pick : List UserId) (ρ : Redis) : Call → Option (Reply × Redis)
  | .load u => some (.balance (ρ.bal.get u), ρ)
  | .tryAcquireLoadLock u token =>
    if (ρ.loadLock.get u).isSome then some (.flag false, ρ)
    else some (.flag true, { ρ with loadLock := ρ.loadLock.set u token })
  | .releaseLoadLock u token => some (Prod.map .flag id (releaseLoadLock u token ρ))
  | .seedIfAbsent u b => some (Prod.map .flag id (seedIfAbsent u b ρ))
  | .advanceVersion u expected newVersion => some (Prod.map .flag id (advanceVersion u expected newVersion ρ))
  | .reserve a => some (scriptReply .reserve (reserve a ρ))
  | .getGeneration id => some (.record (ρ.gen.get id), ρ)
  | .settle a => some (scriptReply .settle (settle a ρ))
  | .refund a => some (scriptReply .refund (refund a ρ))
  | .topUp a => some (scriptReply .topUp (topUp a ρ))
  | .staleInflight olderThan limit => some (.ids (ρ.staleInflight olderThan limit), ρ)
  | .forgetInflight id =>
    some (.flag (ρ.inflight.get id).isSome, { ρ with inflight := ρ.inflight.del id })
  | .dirtyUsers limit =>
    if pick.Nodup ∧ (∀ u ∈ pick, u ∈ ρ.dirty) ∧ pick.length = min limit ρ.dirty.card then some (.users pick, ρ)
    else none
  | .clearDirty u version => some (Prod.map .flag id (clearDirty u version ρ))

/-! ## Outcomes -/

inductive ReserveOutcome where
  | reserved
  | conflict (current : Balance)
  | missing
  | duplicate (record : GenerationHash)

/-- A reply `DUP` that carries the call's own token is the call's own record,
whose first reply was lost. -/
def reserveOutcome (token : Token) : ReserveReply → ReserveOutcome
  | .ok _ => .reserved
  | .conflict c => .conflict c
  | .missing => .missing
  | .dup r => if r.reservationToken = token then .reserved else .duplicate r

inductive SettleOutcome where
  | applied | alreadyApplied | missing | stale
deriving DecidableEq, Repr

def settleOutcome : SettleReply → SettleOutcome
  | .ok => .applied
  | .done => .alreadyApplied
  | .missing => .missing
  | .stale => .stale

inductive RefundOutcome where
  | applied | missing | stale
deriving DecidableEq, Repr

def refundOutcome : RefundReply → RefundOutcome
  | .ok => .applied
  | .missing => .missing
  | .stale => .stale

inductive TopUpOutcome where
  | applied | missing | alreadyApplied
deriving DecidableEq, Repr

def topUpOutcome : TopUpReply → TopUpOutcome
  | .ok => .applied
  | .missing => .missing
  | .dup => .alreadyApplied

/-! ## PostgreSQL -/

/-- The table `balance`, its money columns in micro-dollars. -/
abbrev Rows := Table UserId Balance

/-- `NUMERIC(18, 6)`: below `10 ^ 12` in absolute value. -/
def NumericRange (n : ℤ) : Prop := -10 ^ 18 < n ∧ n < 10 ^ 18

instance (n : ℤ) : Decidable (NumericRange n) := inferInstanceAs (Decidable (_ ∧ _))

/-- `INTEGER`. -/
def IntegerRange (n : ℤ) : Prop := -2 ^ 31 ≤ n ∧ n < 2 ^ 31

instance (n : ℤ) : Decidable (IntegerRange n) := inferInstanceAs (Decidable (_ ∧ _))

/-- The columns can hold the balance. -/
def Balance.Storable (b : Balance) : Prop :=
  NumericRange b.freeUsd ∧ NumericRange b.bonusUsd ∧ NumericRange b.paidUsd ∧ IntegerRange b.freeRequests ∧
    InRange b.version

instance (b : Balance) : Decidable b.Storable := inferInstanceAs (Decidable (_ ∧ _))

/-- A number in a column of scale 6: rounded half away from zero. -/
def toNumeric (d : Decimal) : ℤ :=
  if -6 ≤ d.exp then d.coeffAt (-6)
  else
    let unit := 10 ^ (-6 - d.exp).toNat
    (2 * d.coeff + d.coeff.sign * unit).tdiv (2 * unit)

theorem toNumeric_microsToMoney {n : ℤ} (h : Fits n) : toNumeric (microsToMoney n) = n := by
  unfold microsToMoney
  rw [Decimal.isUnits_scaleb_ofInt h]
  exact (Decimal.isUnits_mk _ _).2

/-- The columns a row is written with; `none` when one is out of range. -/
def columns (s : BalanceSnapshot) : Option Balance :=
  let freeUsd := toNumeric s.freeUsd
  let bonusUsd := toNumeric s.bonusUsd
  let paidUsd := toNumeric s.paidUsd
  if h : NumericRange freeUsd ∧ NumericRange bonusUsd ∧ NumericRange paidUsd ∧ IntegerRange s.freeRequests ∧
      InRange s.version then
    some
      { freeUsd, bonusUsd, paidUsd
        freeRequests := s.freeRequests
        version := s.version
        inRange := by
          simp only [NumericRange, IntegerRange, InRange] at *
          omega }
  else none

/-- A balance is written as it is, when the columns can hold it. -/
theorem columns_snapshotFromHash (b : Balance) :
    columns (snapshotFromHash b) = if b.Storable then some b else none := by
  have h1 : toNumeric (snapshotFromHash b).freeUsd = b.freeUsd := toNumeric_microsToMoney b.inRange.1.fits
  have h2 : toNumeric (snapshotFromHash b).bonusUsd = b.bonusUsd := toNumeric_microsToMoney b.inRange.2.1.fits
  have h3 : toNumeric (snapshotFromHash b).paidUsd = b.paidUsd := toNumeric_microsToMoney b.inRange.2.2.1.fits
  simp only [columns, h1, h2, h3]
  by_cases hs : b.Storable
  · rw [if_pos hs]
    exact dif_pos hs
  · rw [if_neg hs]
    exact dif_neg hs

/-- The statement's rows in turn: a new user's row is inserted, a known one's
replaced when the version is ahead. Answers the users whose rows it wrote. -/
def upsertRows : List (UserId × Balance) → Rows → List UserId × Rows
  | [], pg => ([], pg)
  | (u, b) :: rows, pg =>
    match pg.get u with
    | none => Prod.map (u :: ·) id (upsertRows rows (pg.set u b))
    | some old =>
      if old.version < b.version then Prod.map (u :: ·) id (upsertRows rows (pg.set u b))
      else upsertRows rows pg

/-- `upsert_many`, in the order of the primary key; `none` when a value is out
of its column's range, which fails the whole statement. -/
def upsertMany (balances : List (UserId × BalanceSnapshot)) (pg : Rows) : Option (List UserId × Rows) :=
  match (balances.insertionSort fun a b => a.1 ≤ b.1).mapM fun (u, s) => (columns s).map (u, ·) with
  | some rows => some (upsertRows rows pg)
  | none => none

/-- What the statement leaves: every row goes forward, every row it wrote is one
of its own, and the rows it rejected are not ahead of what is stored. -/
structure Upserted (rows : List (UserId × Balance)) (pg : Rows) (r : List UserId × Rows) : Prop where
  forward : Versioned.Forward Balance.version pg r.2
  source : ∀ u b, r.2.get u = some b → pg.get u = some b ∨ (u, b) ∈ rows
  written : ∀ u ∈ r.1, ∃ b, (u, b) ∈ rows ∧ r.2.get u = some b
  rejected : ∀ u b, (u, b) ∈ rows → u ∉ r.1 → ∃ stored, r.2.get u = some stored ∧ b.version ≤ stored.version

theorem upsertRows_spec : ∀ (rows : List (UserId × Balance)) (pg : Rows), Upserted rows pg (upsertRows rows pg)
  | [], pg => ⟨.refl pg, fun _ _ h => .inl h, by simp [upsertRows], by simp⟩
  | (u, b) :: rows, pg => by
    have wrote : ∀ {pg' : Rows}, pg' = pg.set u b → Versioned.Forward Balance.version pg pg' →
        Upserted ((u, b) :: rows) pg (Prod.map (u :: ·) id (upsertRows rows pg')) := by
      rintro pg' rfl hf
      have ih := upsertRows_spec rows (pg.set u b)
      refine ⟨hf.trans ih.forward, fun w c hc => ?_, fun w hw => ?_, fun w c hc hn => ?_⟩
      · rcases ih.source w c hc with h | h
        · rw [Table.get_set] at h
          split at h
          · next hwu => cases h; exact .inr (hwu ▸ List.mem_cons_self ..)
          · exact .inl h
        · exact .inr (List.mem_cons_of_mem _ h)
      · by_cases hr : w ∈ (upsertRows rows (pg.set u b)).1
        · obtain ⟨c, hc, hg⟩ := ih.written w hr
          exact ⟨c, List.mem_cons_of_mem _ hc, hg⟩
        · have hwu : w = u := by
            rcases List.mem_cons.mp hw with h | h
            · exact h
            · exact absurd h hr
          subst hwu
          obtain ⟨c, hc, -⟩ := ih.forward w b (Table.get_set_self ..)
          refine ⟨c, ?_, hc⟩
          rcases ih.source w c hc with h | h
          · rw [Table.get_set_self] at h; cases h; exact List.mem_cons_self ..
          · exact List.mem_cons_of_mem _ h
      · simp only [Prod.map_fst, List.mem_cons, not_or] at hn
        rcases List.mem_cons.mp hc with h | h
        · cases h; exact absurd rfl hn.1
        · exact ih.rejected w c h hn.2
    simp only [upsertRows]
    cases hu : pg.get u with
    | none => exact wrote rfl (.set_new b hu)
    | some old =>
      simp only
      split
      · next hv => exact wrote rfl (.set_old hu (.inr hv))
      · next hv =>
        have ih := upsertRows_spec rows pg
        refine ⟨ih.forward, fun w c hc => (ih.source w c hc).imp_right (List.mem_cons_of_mem _), fun w hw => ?_,
          fun w c hc hn => ?_⟩
        · obtain ⟨c, hc, hg⟩ := ih.written w hw
          exact ⟨c, List.mem_cons_of_mem _ hc, hg⟩
        · rcases List.mem_cons.mp hc with h | h
          · cases h
            obtain ⟨new, hnew, hb⟩ := ih.forward _ old hu
            exact ⟨new, hnew, (not_lt.mp hv).trans hb.le⟩
          · exact ih.rejected w c h hn

theorem mapM_columns : ∀ (rows : List (UserId × Balance)),
    ((rows.map (Prod.map id snapshotFromHash)).mapM fun (u, s) => (columns s).map (u, ·)) =
      if ∀ x ∈ rows, x.2.Storable then some rows else none
  | [] => by simp
  | (u, b) :: rows => by
    simp only [List.map_cons, List.mapM_cons, mapM_columns rows, Prod.map_apply, columns_snapshotFromHash, id_eq,
      List.forall_mem_cons]
    by_cases hb : b.Storable
    · by_cases hr : ∀ x ∈ rows, x.2.Storable
      · simp only [if_pos hb, if_pos hr, if_pos (And.intro hb hr)]; rfl
      · simp only [if_pos hb, if_neg hr, if_neg fun h : b.Storable ∧ _ => hr h.2]; rfl
    · simp only [if_neg hb, if_neg fun h : b.Storable ∧ _ => hb h.1]; rfl

/-- **The statement fails exactly when a balance cannot be stored**, and else
does what its rows do in turn. -/
theorem upsertMany_eq (rows : List (UserId × Balance)) (pg : Rows) :
    upsertMany (rows.map (Prod.map id snapshotFromHash)) pg =
      if ∀ x ∈ rows, x.2.Storable then some (upsertRows (rows.insertionSort fun a b => a.1 ≤ b.1) pg) else none := by
  have hs : (rows.map (Prod.map id snapshotFromHash)).insertionSort (fun a b => a.1 ≤ b.1) =
      (rows.insertionSort fun a b => a.1 ≤ b.1).map (Prod.map id snapshotFromHash) :=
    (List.map_insertionSort (fun a b : UserId × Balance => a.1 ≤ b.1)
      (fun a b : UserId × BalanceSnapshot => a.1 ≤ b.1) _ rows fun a _ b _ => Iff.rfl).symm
  simp only [upsertMany, hs, mapM_columns, List.mem_insertionSort]
  by_cases h : ∀ x ∈ rows, x.2.Storable
  · simp only [if_pos h]
  · simp only [if_neg h]

end GenerationBalance
