/-
The additive scripts commute (`backend/infra/database/redis/scripts.py`):
`SETTLE`, `REFUND` and `TOP_UP` read no version, so calls that resolve
different keys can be made in any order.

A call looks at its own record or marker and at whether the balance is hot, and
none of these is touched by a call for another key. So what each call answers
and adds is settled by the store before the first of them, and a run of calls
leaves that store with the sums added: `Additive.Ran`, which no reordering of
the calls changes.
-/
import GenerationBalance.AllOrNothing

namespace GenerationBalance

/-! ## What increments add -/

/-- What increments add to a field. -/
def sumAt (es : List (Field × ℤ)) (f : Field) : ℤ := ((es.filter fun e => e.1 = f).map Prod.snd).sum

theorem Balance.incrs_get {es : List (Field × ℤ)} : ∀ {b : Balance}, (b.incrs es).2 = true →
    ∀ f, (b.incrs es).1.get f = b.get f + sumAt es f := by
  induction es with
  | nil => simp [incrs, sumAt]
  | cons e es ih =>
    intro b h f
    cases hc : b.incr e.1 e.2 with
    | none => simp [incrs, hc] at h
    | some c =>
      simp only [incrs, hc] at h ⊢
      rw [ih h, incr_get hc]
      by_cases hf : e.1 = f
      · simp only [sumAt, List.filter_cons, hf, decide_true, if_true, List.map_cons, List.sum_cons]
        ring
      · simp [sumAt, hf, Ne.symm hf]

/-! ## SETTLE and REFUND on a hot balance -/

/-- The increments of `SETTLE`. -/
def SettleArgs.increments (a : SettleArgs) : List (Field × ℤ) :=
  [(.freeUsd, a.refundFree), (.bonusUsd, a.refundBonus), (.paidUsd, a.refundPaid), (.version, 1)]

/-- The increments of `REFUND`. -/
def RefundArgs.increments (a : RefundArgs) : List (Field × ℤ) :=
  [(.freeUsd, a.plan.freeUsd), (.bonusUsd, a.plan.bonusUsd), (.paidUsd, a.plan.paidUsd),
    (.freeRequests, a.plan.freeRequests), (.version, 1)]

theorem settle_hot {a : SettleArgs} {ρ : Redis} {r : GenerationHash} {b : Balance}
    (hg : ρ.gen.get a.clientRequestId = some r) (hr : r.status = .running) (hs : a.hasSurplus = true)
    (hb : ρ.bal.get a.userId = some b) :
    settle a ρ = if (b.incrs a.increments).2 then
        (.ok .ok, (ρ.credited a.userId (b.incrs a.increments).1).resolved a.clientRequestId (a.record r))
      else (.error .notAnInteger, ρ.putBalance a.userId (b.incrs a.increments).1) := by
  have hscript : settle a ρ = (Script.hincrbys a.userId a.increments >>= fun _ => do
      Script.write fun ρ => { ρ with dirty := insert a.userId ρ.dirty }
      Script.write fun ρ => { ρ with gen := ρ.gen.set a.clientRequestId (a.record r) }
      Script.write fun ρ => { ρ with inflight := ρ.inflight.del a.clientRequestId }
      return .ok) ρ := by
    have h1 : ¬ r.status = .done := by rw [hr]; decide
    have h2 : ¬ r.status ≠ .running := not_not.mpr hr
    simp only [settle, Script.store_bind, hg, if_neg h1, if_neg h2, hs, if_true, hb, Option.isNone_some,
      Bool.false_eq_true, if_false, SettleArgs.increments, Script.hincrbys, Script.bind_assoc]
    rfl
  rw [hscript, Script.bind_apply, Script.hincrbys_eq hb]
  cases (b.incrs a.increments).2 <;> rfl

theorem refund_hot {a : RefundArgs} {ρ : Redis} {r : GenerationHash} {b : Balance}
    (hg : ρ.gen.get a.clientRequestId = some r) (hr : r.status = .running)
    (hb : ρ.bal.get a.userId = some b) :
    refund a ρ = if (b.incrs a.increments).2 then
        (.ok .ok, (ρ.credited a.userId (b.incrs a.increments).1).resolved a.clientRequestId (a.record r))
      else (.error .notAnInteger, ρ.putBalance a.userId (b.incrs a.increments).1) := by
  have hscript : refund a ρ = (Script.hincrbys a.userId a.increments >>= fun _ => do
      Script.write fun ρ => { ρ with gen := ρ.gen.set a.clientRequestId (a.record r) }
      Script.write fun ρ => { ρ with inflight := ρ.inflight.del a.clientRequestId }
      Script.write fun ρ => { ρ with dirty := insert a.userId ρ.dirty }
      return .ok) ρ := by
    have h2 : ¬ r.status ≠ .running := not_not.mpr hr
    simp only [refund, Script.store_bind, hg, if_neg h2, hb, Option.isNone_some,
      Bool.false_eq_true, if_false, RefundArgs.increments, Script.hincrbys, Script.bind_assoc]
    rfl
  rw [hscript, Script.bind_apply, Script.hincrbys_eq hb]
  cases (b.incrs a.increments).2 <;> rfl

/-! ## The calls -/

/-- A call of one of the scripts that read no version. -/
inductive Additive where
  | settle (a : SettleArgs)
  | refund (a : RefundArgs)
  | topUp (a : TopUpArgs)

/-- What a call resolves: a generation's record or a top-up's marker. -/
inductive Key where
  | record (id : RequestId)
  | marker (o : OperationId)
deriving DecidableEq

/-- What the store holds under a key, a record with its place in the index. -/
inductive Entry where
  | record (r : Option GenerationHash) (score : Option ℚ)
  | marker (u : Option UserId)

def Redis.entry (ρ : Redis) : Key → Entry
  | .record id => .record (ρ.gen.get id) (ρ.inflight.get id)
  | .marker o => .marker (ρ.topup.get o)

theorem Redis.entry_resolved (ρ : Redis) (id : RequestId) (r : GenerationHash) (k : Key) :
    (ρ.resolved id r).entry k = if k = .record id then .record (some r) none else ρ.entry k := by
  cases k with
  | marker o => simp [entry, resolved]
  | record id' =>
    by_cases h : id' = id
    · subst h
      simp [entry, resolved]
    · simp [entry, resolved, h, Table.get_set_of_ne _ _ h, Table.get_del_of_ne _ h]

theorem Redis.entry_marked (ρ : Redis) (o : OperationId) (u : UserId) (k : Key) :
    (ρ.marked o u).entry k = if k = .marker o then .marker (some u) else ρ.entry k := by
  cases k with
  | record id => simp [entry, marked]
  | marker o' =>
    by_cases h : o' = o
    · subst h
      simp [entry, marked]
    · simp [entry, marked, h, Table.get_set_of_ne _ _ h]

/-- The store with a generation's record resolved, when there is one. -/
def Redis.resolve (ρ : Redis) (id : RequestId) (f : GenerationHash → GenerationHash) : Redis :=
  (ρ.gen.get id).elim ρ fun r => ρ.resolved id (f r)

namespace Additive

def call : Additive → Call
  | .settle a => .settle a
  | .refund a => .refund a
  | .topUp a => .topUp a

def key : Additive → Key
  | .settle a => .record a.clientRequestId
  | .refund a => .record a.clientRequestId
  | .topUp a => .marker a.operationId

def userId : Additive → UserId
  | .settle a => a.userId
  | .refund a => a.userId
  | .topUp a => a.userId

/-- What Redis answers to the call and leaves. -/
def run : Additive → Redis → Reply × Redis
  | .settle a, ρ => scriptReply .settle (GenerationBalance.settle a ρ)
  | .refund a, ρ => scriptReply .refund (GenerationBalance.refund a ρ)
  | .topUp a, ρ => scriptReply .topUp (GenerationBalance.topUp a ρ)

theorem exec_call (pick : List UserId) (c : Additive) (ρ : Redis) : exec pick ρ c.call = some (c.run ρ) := by
  cases c <;> rfl

/-- The calls one after the other: their replies, and the store they leave. -/
def runs : List Additive → Redis → List Reply × Redis
  | [], ρ => ([], ρ)
  | c :: calls, ρ =>
    let (reply, ρ₁) := c.run ρ
    let (replies, ρ₂) := runs calls ρ₁
    (reply :: replies, ρ₂)

/-! ## What a call does, seen from the store it finds -/

/-- The reply, unless a command fails. -/
def reply (ρ : Redis) : Additive → Reply
  | .settle a => .settle <|
    match ρ.gen.get a.clientRequestId with
    | none => .stale
    | some r =>
      match r.status with
      | .done => .done
      | .failed => .stale
      | .running => if a.hasSurplus ∧ (ρ.bal.get a.userId).isNone then .missing else .ok
  | .refund a => .refund <|
    match ρ.gen.get a.clientRequestId with
    | none => .stale
    | some r =>
      if r.status ≠ .running then .stale else if (ρ.bal.get a.userId).isNone then .missing else .ok
  | .topUp a => .topUp <|
    if (ρ.topup.get a.operationId).isSome then .dup
    else if (ρ.bal.get a.userId).isNone then .missing else .ok

/-- The increments the call makes where it takes effect. -/
def increments : Additive → List (Field × ℤ)
  | .settle a => if a.hasSurplus then a.increments else []
  | .refund a => a.increments
  | .topUp a => a.increments

/-- The call takes effect. -/
def applies (ρ : Redis) (c : Additive) : Bool :=
  match c.reply ρ with
  | .settle .ok | .refund .ok | .topUp .ok => true
  | _ => false

/-- The increments the call makes in a store. -/
def adds (ρ : Redis) (c : Additive) : List (Field × ℤ) := if c.applies ρ then c.increments else []

/-- What its key holds where the call takes effect. -/
def written (ρ : Redis) : Additive → Entry
  | .settle a => .record ((ρ.gen.get a.clientRequestId).map a.record) none
  | .refund a => .record ((ρ.gen.get a.clientRequestId).map a.record) none
  | .topUp a => .marker (some a.userId)

/-- What its key holds after the call. -/
def after (ρ : Redis) (c : Additive) : Entry := if c.applies ρ then c.written ρ else ρ.entry c.key

/-- Two stores in which a call finds the same: its key's entry, and whether its user's
balance is hot. -/
structure Alike (c : Additive) (ρ σ : Redis) : Prop where
  entry : ρ.entry c.key = σ.entry c.key
  cold : ρ.bal.get c.userId = none ↔ σ.bal.get c.userId = none

section Alike

variable {c : Additive} {ρ σ : Redis}

theorem Alike.isNone (h : c.Alike ρ σ) : (ρ.bal.get c.userId).isNone = (σ.bal.get c.userId).isNone := by
  rw [Bool.eq_iff_iff, Option.isNone_iff_eq_none, Option.isNone_iff_eq_none]
  exact h.cold

theorem Alike.reply (h : c.Alike ρ σ) : c.reply ρ = c.reply σ := by
  have hn := h.isNone
  have he := h.entry
  cases c with
  | settle a =>
    simp only [key, Redis.entry, Entry.record.injEq, userId] at he hn
    simp only [Additive.reply, he.1, hn]
  | refund a =>
    simp only [key, Redis.entry, Entry.record.injEq, userId] at he hn
    simp only [Additive.reply, he.1, hn]
  | topUp a =>
    simp only [key, Redis.entry, Entry.marker.injEq, userId] at he hn
    simp only [Additive.reply, he, hn]

theorem Alike.applies (h : c.Alike ρ σ) : c.applies ρ = c.applies σ := by
  simp only [Additive.applies, h.reply]

theorem Alike.adds (h : c.Alike ρ σ) : c.adds ρ = c.adds σ := by
  simp only [Additive.adds, h.applies]

theorem Alike.written (h : c.Alike ρ σ) : c.written ρ = c.written σ := by
  have he := h.entry
  cases c with
  | settle a =>
    simp only [key, Redis.entry, Entry.record.injEq] at he
    simp only [Additive.written, he.1]
  | refund a =>
    simp only [key, Redis.entry, Entry.record.injEq] at he
    simp only [Additive.written, he.1]
  | topUp a => rfl

theorem Alike.after (h : c.Alike ρ σ) : c.after ρ = c.after σ := by
  simp only [Additive.after, h.applies, h.written, h.entry]

end Alike

/-- The store with the call's key written. -/
def write : Additive → Redis → Redis
  | .settle a, ρ => ρ.resolve a.clientRequestId a.record
  | .refund a, ρ => ρ.resolve a.clientRequestId a.record
  | .topUp a, ρ => ρ.marked a.operationId a.userId

section Write

variable (ρ : Redis)

/-- Resolving a record leaves the balances, the dirty set and the locks. -/
theorem resolve_frame (id : RequestId) (f : GenerationHash → GenerationHash) :
    (ρ.resolve id f).bal = ρ.bal ∧ (ρ.resolve id f).dirty = ρ.dirty ∧ (ρ.resolve id f).loadLock = ρ.loadLock := by
  cases h : ρ.gen.get id <;> simp [Redis.resolve, h, Redis.resolved]

theorem write_frame (c : Additive) :
    (c.write ρ).bal = ρ.bal ∧ (c.write ρ).dirty = ρ.dirty ∧ (c.write ρ).loadLock = ρ.loadLock := by
  cases c with
  | settle a => exact resolve_frame ρ a.clientRequestId a.record
  | refund a => exact resolve_frame ρ a.clientRequestId a.record
  | topUp a => exact ⟨rfl, rfl, rfl⟩

theorem resolve_entry_of_ne {id : RequestId} (f : GenerationHash → GenerationHash) {k : Key} (hk : k ≠ .record id) :
    (ρ.resolve id f).entry k = ρ.entry k := by
  cases h : ρ.gen.get id with
  | none => simp [Redis.resolve, h]
  | some r => simp only [Redis.resolve, h, Option.elim_some, Redis.entry_resolved, if_neg hk]

/-- Only the call's own key is written. -/
theorem write_entry_of_ne {c : Additive} {k : Key} (hk : k ≠ c.key) : (c.write ρ).entry k = ρ.entry k := by
  cases c with
  | settle a => exact resolve_entry_of_ne ρ a.record hk
  | refund a => exact resolve_entry_of_ne ρ a.record hk
  | topUp a => exact (Redis.entry_marked ρ a.operationId a.userId k).trans (if_neg hk)

theorem write_entry {c : Additive} (h : c.applies ρ = true) : (c.write ρ).entry c.key = c.written ρ := by
  cases c with
  | settle a =>
    cases hg : ρ.gen.get a.clientRequestId with
    | none => simp [applies, reply, hg] at h
    | some r => simp [write, written, hg, key, Redis.resolve, Redis.entry_resolved]
  | refund a =>
    cases hg : ρ.gen.get a.clientRequestId with
    | none => simp [applies, reply, hg] at h
    | some r => simp [write, written, hg, key, Redis.resolve, Redis.entry_resolved]
  | topUp a => simp [write, written, key, Redis.entry_marked]

end Write

/-- What a call answers and leaves when no command of it fails. -/
inductive Ends (c : Additive) (ρ : Redis) : Reply × Redis → Prop
  | stays : c.applies ρ = false → Ends c ρ (c.reply ρ, ρ)
  | writes : c.applies ρ = true → c.increments = [] → Ends c ρ (c.reply ρ, c.write ρ)
  | credits {b} : c.applies ρ = true → c.increments ≠ [] → ρ.bal.get c.userId = some b →
      (b.incrs c.increments).2 = true →
      Ends c ρ (c.reply ρ, c.write (ρ.credited c.userId (b.incrs c.increments).1))

/-- The call's increments succeed on the balance it finds. -/
def Fits (c : Additive) (ρ : Redis) : Prop :=
  ∀ b, ρ.bal.get c.userId = some b → (b.incrs (c.adds ρ)).2 = true

theorem Ends.of_stay {c : Additive} {ρ : Redis} (ha : c.applies ρ = false) (hrun : c.run ρ = (c.reply ρ, ρ)) :
    c.Ends ρ (c.run ρ) := by
  rw [hrun]
  exact .stays ha

theorem Ends.of_credit {c : Additive} {ρ : Redis} {b : Balance} (ha : c.applies ρ = true) (hi : c.increments ≠ [])
    (hb : ρ.bal.get c.userId = some b) (hfit : c.Fits ρ)
    (hrun : (b.incrs c.increments).2 = true →
      c.run ρ = (c.reply ρ, c.write (ρ.credited c.userId (b.incrs c.increments).1))) : c.Ends ρ (c.run ρ) := by
  have hall := hfit b hb
  rw [adds, if_pos ha] at hall
  rw [hrun hall]
  exact .credits ha hi hb hall

theorem settle_ends {a : SettleArgs} {ρ : Redis} (h : (Additive.settle a).Fits ρ) :
    (Additive.settle a).Ends ρ ((Additive.settle a).run ρ) := by
  cases hg : ρ.gen.get a.clientRequestId with
  | none =>
    refine .of_stay (by simp [applies, reply, hg]) ?_
    simp [run, reply, GenerationBalance.settle, Script.store_bind, hg]
    rfl
  | some r =>
  cases hr : r.status with
  | done =>
    refine .of_stay (by simp [applies, reply, hg, hr]) ?_
    simp [run, reply, GenerationBalance.settle, Script.store_bind, hg, hr]
    rfl
  | failed =>
    refine .of_stay (by simp [applies, reply, hg, hr]) ?_
    simp [run, reply, GenerationBalance.settle, Script.store_bind, hg, hr]
    rfl
  | running =>
  by_cases hs : a.hasSurplus = true
  · cases hb : ρ.bal.get a.userId with
    | none =>
      refine .of_stay (by simp [applies, reply, hg, hr, hs, hb]) ?_
      simp [run, reply, GenerationBalance.settle, Script.store_bind, hg, hr, hs, hb]
      rfl
    | some b =>
      have hincr : (Additive.settle a).increments = a.increments := by simp [increments, hs]
      refine .of_credit (by simp [applies, reply, hg, hr, hb]) (by rw [hincr]; simp [SettleArgs.increments]) hb h ?_
      rw [hincr]
      intro hall
      simp only [run, settle_hot hg hr hs hb, hall, if_true, scriptReply, write, Redis.resolve, reply, hg, hr, hb]
      simp [Redis.credited, hg, userId]
  · have happ : (Additive.settle a).applies ρ = true := by simp [applies, reply, hg, hr, hs]
    have hrun : (Additive.settle a).run ρ = ((Additive.settle a).reply ρ, (Additive.settle a).write ρ) := by
      simp [run, reply, GenerationBalance.settle, Script.store_bind, hg, hr, hs, write, Redis.resolve]
      rfl
    rw [hrun]
    exact .writes happ (by simp [increments, hs])

theorem refund_ends {a : RefundArgs} {ρ : Redis} (h : (Additive.refund a).Fits ρ) :
    (Additive.refund a).Ends ρ ((Additive.refund a).run ρ) := by
  cases hg : ρ.gen.get a.clientRequestId with
  | none =>
    refine .of_stay (by simp [applies, reply, hg]) ?_
    simp [run, reply, GenerationBalance.refund, Script.store_bind, hg]
    rfl
  | some r =>
  by_cases hr : r.status = .running
  · cases hb : ρ.bal.get a.userId with
    | none =>
      refine .of_stay (by simp [applies, reply, hg, hr, hb]) ?_
      simp [run, reply, GenerationBalance.refund, Script.store_bind, hg, hr, hb]
      rfl
    | some b =>
      refine .of_credit (by simp [applies, reply, hg, hr, hb]) (by simp [increments, RefundArgs.increments]) hb h ?_
      intro hall
      have hall : (b.incrs a.increments).2 = true := hall
      simp only [run, refund_hot hg hr hb, hall, if_true, scriptReply, write, Redis.resolve, reply, hg, hr, hb]
      simp [Redis.credited, hg, userId, increments]
  · refine .of_stay (by simp [applies, reply, hg, hr]) ?_
    simp [run, reply, GenerationBalance.refund, Script.store_bind, hg, hr]
    rfl

theorem topUp_ends {a : TopUpArgs} {ρ : Redis} (h : (Additive.topUp a).Fits ρ) :
    (Additive.topUp a).Ends ρ ((Additive.topUp a).run ρ) := by
  cases hm : ρ.topup.get a.operationId with
  | some u =>
    refine .of_stay (by simp [applies, reply, hm]) ?_
    simp [run, reply, GenerationBalance.topUp, Script.store_bind, hm]
    rfl
  | none =>
  cases hb : ρ.bal.get a.userId with
  | none =>
    refine .of_stay (by simp [applies, reply, hm, hb]) ?_
    simp [run, reply, GenerationBalance.topUp, Script.store_bind, hm, hb]
    rfl
  | some b =>
    refine .of_credit (by simp [applies, reply, hm, hb]) (by simp [increments, TopUpArgs.increments]) hb h ?_
    intro hall
    have hall : (b.incrs a.increments).2 = true := hall
    simp only [run, topUp_hot hm hb, hall, if_true, scriptReply, write, reply, hm, hb]
    simp [userId, increments]

/-- **One call.** -/
theorem run_ends {c : Additive} {ρ : Redis} (h : c.Fits ρ) : c.Ends ρ (c.run ρ) := by
  cases c with
  | settle a => exact settle_ends h
  | refund a => exact refund_ends h
  | topUp a => exact topUp_ends h

/-! ## What a run of calls does, seen from the store it finds -/

/-- What calls add to a field of a user's balance. -/
def total (ρ : Redis) (calls : List Additive) (u : UserId) (f : Field) : ℤ :=
  (calls.map fun c => if c.userId = u then sumAt (c.adds ρ) f else 0).sum

/-- The store after calls for different keys: the sums are added, the keys are written, the
users of the calls that add are dirty, and nothing else is changed. -/
structure Ran (calls : List Additive) (ρ ρ' : Redis) : Prop where
  cold : ∀ u, ρ.bal.get u = none → ρ'.bal.get u = none
  hot : ∀ u b, ρ.bal.get u = some b → ∃ b', ρ'.bal.get u = some b' ∧ ∀ f, b'.get f = b.get f + total ρ calls u f
  resolved : ∀ c ∈ calls, ρ'.entry c.key = c.after ρ
  kept : ∀ k, k ∉ calls.map key → ρ'.entry k = ρ.entry k
  dirty : ∀ u, u ∈ ρ'.dirty ↔ u ∈ ρ.dirty ∨ ∃ c ∈ calls, c.userId = u ∧ c.adds ρ ≠ []
  loadLock : ρ'.loadLock = ρ.loadLock

section Ran

variable {c : Additive} {calls calls' : List Additive} {ρ ρ₁ σ : Redis}

@[simp] theorem total_nil (ρ : Redis) (u : UserId) (f : Field) : total ρ [] u f = 0 := rfl

@[simp] theorem total_cons (ρ : Redis) (c : Additive) (calls : List Additive) (u : UserId) (f : Field) :
    total ρ (c :: calls) u f = (if c.userId = u then sumAt (c.adds ρ) f else 0) + total ρ calls u f := by
  simp [total]

theorem total_of_nil (h : c.adds ρ = []) (u : UserId) (f : Field) : total ρ [c] u f = 0 := by
  simp [h, sumAt]

theorem entry_credited (ρ : Redis) (u : UserId) (b : Balance) (k : Key) : (ρ.credited u b).entry k = ρ.entry k := by
  cases k <;> rfl

theorem alike_credited {u : UserId} {b b' : Balance} (hb : ρ.bal.get c.userId = some b) :
    c.Alike (ρ.credited u b') ρ := by
  refine ⟨entry_credited ρ u b' c.key, ?_⟩
  show (ρ.bal.set u b').get c.userId = none ↔ _
  rw [Table.get_set, hb]
  split <;> simp

theorem ran_of_frame {ρ' : Redis} (hn : c.adds ρ = []) (hb : ρ'.bal = ρ.bal) (hd : ρ'.dirty = ρ.dirty)
    (hl : ρ'.loadLock = ρ.loadLock) (hs : ρ'.entry c.key = c.after ρ)
    (hk : ∀ k, k ≠ c.key → ρ'.entry k = ρ.entry k) : Ran [c] ρ ρ' where
  cold u h := by rw [hb, h]
  hot u b h := ⟨b, by rw [hb, h], fun f => by rw [total_of_nil hn, add_zero]⟩
  resolved d hd := by
    cases List.mem_singleton.mp hd
    exact hs
  kept k h := hk k (by simpa using h)
  dirty u := by simp [hd, hn]
  loadLock := hl

/-- A call that does not fail answers as foreseen, and what it leaves is foreseen. -/
theorem Ends.ran {x : Reply × Redis} (h : c.Ends ρ x) : x.1 = c.reply ρ ∧ Ran [c] ρ x.2 := by
  cases h with
  | stays ha =>
    refine ⟨rfl, ran_of_frame (by simp [adds, ha]) rfl rfl rfl ?_ fun _ _ => rfl⟩
    simp [after, ha]
  | writes ha hi =>
    obtain ⟨hb, hd, hl⟩ := write_frame ρ c
    refine ⟨rfl, ran_of_frame (by simp [adds, ha, hi]) hb hd hl ?_ fun k hk => write_entry_of_ne ρ hk⟩
    rw [after, if_pos ha]
    exact write_entry ρ ha
  | @credits b ha hi hb hall =>
    have hadds : c.adds ρ = c.increments := by simp [adds, ha]
    have halike : c.Alike (ρ.credited c.userId (b.incrs c.increments).1) ρ := alike_credited hb
    obtain ⟨hbal, hdirty, hlock⟩ := write_frame (ρ.credited c.userId (b.incrs c.increments).1) c
    refine ⟨rfl, ?_, ?_, ?_, ?_, ?_, ?_⟩
    · intro u hu
      have hne : u ≠ c.userId := fun he => by rw [he, hb] at hu; cases hu
      rw [hbal]
      exact (Table.get_set_of_ne _ _ hne).trans hu
    · intro u b₁ hu
      simp only [total_cons, total_nil, add_zero, hadds]
      rw [hbal]
      by_cases he : c.userId = u
      · subst he
        cases hb.symm.trans hu
        exact ⟨_, Table.get_set_self .., fun f => by rw [if_pos rfl]; exact Balance.incrs_get hall f⟩
      · refine ⟨b₁, (Table.get_set_of_ne _ _ (Ne.symm he)).trans hu, fun f => by rw [if_neg he, add_zero]⟩
    · intro d hd
      cases List.mem_singleton.mp hd
      rw [write_entry _ (halike.applies.trans ha), halike.written, after, if_pos ha]
    · intro k hk
      rw [write_entry_of_ne _ (by simpa using hk), entry_credited]
    · intro u
      rw [hdirty]
      show u ∈ insert c.userId ρ.dirty ↔ _
      rw [Finset.mem_insert]
      constructor
      · rintro (rfl | h)
        · exact .inr ⟨c, List.mem_singleton_self c, rfl, by rw [hadds]; exact hi⟩
        · exact .inl h
      · rintro (h | ⟨d, hd, rfl, -⟩)
        · exact .inr h
        · cases List.mem_singleton.mp hd
          exact .inl rfl
    · rw [hlock]
      rfl

/-- A call finds after calls for other keys what it found before. -/
theorem Ran.alike (h : Ran calls ρ ρ₁) (hk : c.key ∉ calls.map key) : c.Alike ρ₁ ρ := by
  refine ⟨h.kept c.key hk, fun hn => ?_, h.cold c.userId⟩
  cases hb : ρ.bal.get c.userId with
  | none => rfl
  | some b =>
    obtain ⟨b', hb', -⟩ := h.hot c.userId b hb
    rw [hn] at hb'
    cases hb'

/-- Each of the calls after a call finds what it found before it. -/
theorem Ran.alike_tail (hkey : c.key ∉ calls.map key) (h : Ran [c] ρ ρ₁) : ∀ d ∈ calls, d.Alike ρ₁ ρ := by
  intro d hd
  refine h.alike ?_
  rw [List.map_singleton, List.mem_singleton]
  intro he
  exact hkey (he ▸ List.mem_map_of_mem hd)

theorem total_congr (h : ∀ d ∈ calls, d.Alike ρ₁ ρ) (u : UserId) (f : Field) : total ρ₁ calls u f = total ρ calls u f := by
  unfold total
  congr 1
  refine List.map_congr_left fun d hd => ?_
  rw [(h d hd).adds]

/-- **Calls after a call.** -/
theorem Ran.cons (hkey : c.key ∉ calls.map key) (h₁ : Ran [c] ρ ρ₁) (h : Ran calls ρ₁ σ) : Ran (c :: calls) ρ σ := by
  have halike := h₁.alike_tail hkey
  refine ⟨?_, ?_, ?_, ?_, ?_, ?_⟩
  · intro u hu
    exact h.cold u (h₁.cold u hu)
  · intro u b hu
    obtain ⟨b₁, hb₁, hget₁⟩ := h₁.hot u b hu
    obtain ⟨b₂, hb₂, hget₂⟩ := h.hot u b₁ hb₁
    refine ⟨b₂, hb₂, fun f => ?_⟩
    rw [hget₂, hget₁, total_congr halike]
    simp only [total_cons, total_nil]
    ring
  · intro d hd
    rcases List.mem_cons.mp hd with rfl | hd
    · rw [h.kept d.key hkey]
      exact h₁.resolved d (List.mem_singleton_self d)
    · rw [h.resolved d hd, (halike d hd).after]
  · intro k hk
    rw [List.map_cons, List.mem_cons, not_or] at hk
    rw [h.kept k hk.2, h₁.kept k (by simpa using hk.1)]
  · intro u
    have hmore : (∃ d ∈ calls, d.userId = u ∧ d.adds ρ₁ ≠ []) ↔ ∃ d ∈ calls, d.userId = u ∧ d.adds ρ ≠ [] := by
      constructor
      · intro ⟨d, hd, hu, hadds⟩
        exact ⟨d, hd, hu, (halike d hd).adds ▸ hadds⟩
      · intro ⟨d, hd, hu, hadds⟩
        exact ⟨d, hd, hu, (halike d hd).adds.symm ▸ hadds⟩
    rw [h.dirty, hmore, h₁.dirty]
    simp [or_assoc]
  · rw [h.loadLock, h₁.loadLock]

/-- What calls leave does not depend on their order. -/
theorem Ran.unique (hp : calls.Perm calls') (h : Ran calls ρ ρ₁) (h' : Ran calls' ρ σ) : ρ₁ = σ := by
  have hmem : ∀ d, d ∈ calls ↔ d ∈ calls' := fun d => hp.mem_iff
  have htotal : ∀ u f, total ρ calls u f = total ρ calls' u f := fun u f => (hp.map _).sum_eq
  have hentry : ∀ k, ρ₁.entry k = σ.entry k := by
    intro k
    by_cases hk : k ∈ calls.map key
    · obtain ⟨d, hd, rfl⟩ := List.mem_map.mp hk
      rw [h.resolved d hd, h'.resolved d ((hmem d).mp hd)]
    · rw [h.kept k hk, h'.kept k fun hk' => hk ((hp.map key).mem_iff.mpr hk')]
  have hbal : ρ₁.bal = σ.bal := by
    refine Table.ext fun u => ?_
    cases hu : ρ.bal.get u with
    | none => rw [h.cold u hu, h'.cold u hu]
    | some b =>
      obtain ⟨b₁, hb₁, hget⟩ := h.hot u b hu
      obtain ⟨b₂, hb₂, hget'⟩ := h'.hot u b hu
      have hsame : b₁ = b₂ := Balance.ext_get fun f => by rw [hget f, hget' f, htotal]
      rw [hb₁, hb₂, hsame]
  have hgen : ρ₁.gen = σ.gen := Table.ext fun id => by
    have := hentry (.record id)
    simp only [Redis.entry, Entry.record.injEq] at this
    exact this.1
  have hinflight : ρ₁.inflight = σ.inflight := Table.ext fun id => by
    have := hentry (.record id)
    simp only [Redis.entry, Entry.record.injEq] at this
    exact this.2
  have htopup : ρ₁.topup = σ.topup := Table.ext fun o => by
    have := hentry (.marker o)
    simpa only [Redis.entry, Entry.marker.injEq] using this
  have hdirty : ρ₁.dirty = σ.dirty := by
    ext u
    rw [h.dirty, h'.dirty]
    simp only [hmem]
  have hlock : ρ₁.loadLock = σ.loadLock := h.loadLock.trans h'.loadLock.symm
  cases ρ₁
  cases σ
  simp only at hbal hgen hinflight htopup hdirty hlock
  subst hbal hgen hinflight htopup hdirty hlock
  rfl

/-! ## The order does not matter -/

/-- The calls' amounts, and the sums they make in this order, are 64-bit integers. -/
structure Room (ρ : Redis) (calls : List Additive) : Prop where
  amounts : ∀ c ∈ calls, ∀ f, InRange (sumAt (c.adds ρ) f)
  sums : ∀ part, part <+: calls → ∀ u b, ρ.bal.get u = some b → u ∈ calls.map userId →
    ∀ f, InRange (b.get f + total ρ part u f)

/-- A field is incremented once. -/
theorem increments_once (c : Additive) :
    (c.increments.map Prod.fst).Nodup ∧ ∀ e ∈ c.increments, sumAt c.increments e.1 = e.2 := by
  cases c with
  | settle a =>
    by_cases hs : a.hasSurplus = true
    · simp [increments, hs, SettleArgs.increments, sumAt]
    · simp [increments, hs]
  | refund a => simp [increments, RefundArgs.increments, sumAt]
  | topUp a => simp [increments, TopUpArgs.increments, sumAt]

theorem Room.fits (h : Room ρ (c :: calls)) : c.Fits ρ := by
  intro b hb
  cases ha : c.applies ρ with
  | false => simp [adds, ha, Balance.incrs]
  | true =>
    have hadds : c.adds ρ = c.increments := by simp [adds, ha]
    obtain ⟨hn, honce⟩ := c.increments_once
    have hmade : Balance.Made b b c.increments (b.incrs c.increments) := Balance.made hn fun _ _ => rfl
    rw [hadds, hmade.all, List.all_eq_true]
    intro e he
    have hmem : c.userId ∈ (c :: calls).map userId := List.mem_cons_self ..
    have h0 := h.sums [] (List.nil_prefix) c.userId b hb hmem e.1
    have h1 := h.sums [c] (by simp) c.userId b hb hmem e.1
    have h2 := h.amounts c (List.mem_cons_self ..) e.1
    simp only [total_nil, add_zero] at h0
    simp only [total_cons, total_nil, add_zero, if_pos, hadds, honce e he] at h1
    rw [hadds, honce e he] at h2
    simp only [Balance.takes, decide_eq_true_eq]
    exact ⟨h0, h2, h1⟩

theorem Room.tail (hkey : c.key ∉ calls.map key) (h : Room ρ (c :: calls)) (h₁ : Ran [c] ρ ρ₁) : Room ρ₁ calls := by
  have halike := h₁.alike_tail hkey
  refine ⟨fun d hd f => ?_, fun part hpart u b₁ hb₁ hu f => ?_⟩
  · rw [(halike d hd).adds]
    exact h.amounts d (List.mem_cons_of_mem _ hd) f
  · cases hb : ρ.bal.get u with
    | none =>
      have := h₁.cold u hb
      rw [hb₁] at this
      cases this
    | some b =>
      obtain ⟨b', hb', hget⟩ := h₁.hot u b hb
      cases hb₁.symm.trans hb'
      have hsum := h.sums (c :: part) (by simpa using hpart) u b hb (List.mem_cons_of_mem _ hu) f
      have hpart' : ∀ d ∈ part, d.Alike ρ₁ ρ := fun d hd => halike d (hpart.subset hd)
      rw [hget, total_congr hpart', total_cons, total_nil, add_zero, add_assoc, ← total_cons]
      exact hsum

/-- **A run of calls for different keys** answers as foreseen, and what it leaves is foreseen. -/
theorem runs_ran : ∀ {calls : List Additive} {ρ : Redis}, (calls.map key).Nodup → Room ρ calls →
    (runs calls ρ).1 = calls.map (reply ρ) ∧ Ran calls ρ (runs calls ρ).2
  | [], ρ, _, _ => by
    refine ⟨rfl, fun _ h => h, fun u b h => ⟨b, h, fun f => by simp⟩, by simp, fun _ _ => rfl, by simp [runs], rfl⟩
  | c :: calls, ρ, hn, hroom => by
    rw [List.map_cons, List.nodup_cons] at hn
    obtain ⟨hreply, hran⟩ := (run_ends hroom.fits).ran
    obtain ⟨hreplies, hrest⟩ := runs_ran hn.2 (hroom.tail hn.1 hran)
    have halike := hran.alike_tail hn.1
    refine ⟨?_, hran.cons hn.1 hrest⟩
    simp only [runs, List.map_cons, hreply, hreplies]
    congr 1
    exact List.map_congr_left fun d hd => (halike d hd).reply

end Ran

end Additive

/-- **Additive operations commute.** Calls that resolve different keys leave the same store in
any two orders, and every call gets the same reply in both. -/
theorem additive_commute {ρ : Redis} {calls calls' : List Additive} (hp : calls.Perm calls')
    (hkeys : (calls.map Additive.key).Nodup) (hroom : Additive.Room ρ calls) (hroom' : Additive.Room ρ calls') :
    (Additive.runs calls ρ).2 = (Additive.runs calls' ρ).2 ∧
      ∃ reply : Additive → Reply, (∀ c e, reply c ≠ .error e) ∧
        (Additive.runs calls ρ).1 = calls.map reply ∧ (Additive.runs calls' ρ).1 = calls'.map reply := by
  have hkeys' : (calls'.map Additive.key).Nodup := (hp.map _).nodup_iff.mp hkeys
  obtain ⟨hreplies, hran⟩ := Additive.runs_ran hkeys hroom
  obtain ⟨hreplies', hran'⟩ := Additive.runs_ran hkeys' hroom'
  refine ⟨hran.unique hp hran', Additive.reply ρ, fun c e => ?_, hreplies, hreplies'⟩
  cases c <;> simp [Additive.reply]

/-- A user with a running reservation of a dollar. -/
def reservedStore : Redis :=
  { Redis.empty with
    bal := Table.empty.set 1 .zero
    gen := Table.empty.set 7
      { status := .running, userId := 1, dialogId := 0, modelName := "gpt", plan := ⟨0, 0, 1000000, 0⟩
        authorizedCostUsd := 1000000, startedAt := 0, reservationToken := ⟨0, 0⟩ }
    inflight := Table.empty.set 7 0 }

/-- The reservation's refund, and a top-up of two dollars. -/
def refundAndTopUp : List Additive :=
  [.refund ⟨1, "timed out", 7, ⟨0, 0, 1000000, 0⟩⟩, .topUp ⟨3, 1, 2000000, 0, 0⟩]

theorem additive_commute_reserved :
    (Additive.runs refundAndTopUp reservedStore).2 = (Additive.runs refundAndTopUp.reverse reservedStore).2 ∧
      ∃ reply : Additive → Reply, (∀ c e, reply c ≠ .error e) ∧
        (Additive.runs refundAndTopUp reservedStore).1 = refundAndTopUp.map reply ∧
        (Additive.runs refundAndTopUp.reverse reservedStore).1 = refundAndTopUp.reverse.map reply := by
  refine additive_commute (List.reverse_perm _).symm (by decide) ⟨?_, ?_⟩ ⟨?_, ?_⟩
  · intro c hc f
    simp only [refundAndTopUp, List.mem_cons, List.not_mem_nil, or_false] at hc
    rcases hc with rfl | rfl <;> cases f <;> decide
  · intro part hpart u b hb hu f
    have hpart : part ∈ refundAndTopUp.inits := (List.mem_inits _ _).mpr hpart
    simp only [refundAndTopUp, List.inits, List.map_cons, List.map_nil, List.mem_cons, List.not_mem_nil, or_false] at hpart
    simp only [refundAndTopUp, List.map_cons, List.map_nil, Additive.userId, List.mem_cons, List.not_mem_nil, or_false,
      or_self] at hu
    subst hu
    cases hb
    rcases hpart with rfl | rfl | rfl <;> cases f <;> decide
  · intro c hc f
    simp only [refundAndTopUp, List.mem_reverse, List.mem_cons, List.not_mem_nil, or_false] at hc
    rcases hc with rfl | rfl <;> cases f <;> decide
  · intro part hpart u b hb hu f
    have hpart : part ∈ refundAndTopUp.reverse.inits := (List.mem_inits _ _).mpr hpart
    simp only [refundAndTopUp, List.reverse_cons, List.reverse_nil, List.nil_append, List.singleton_append, List.inits,
      List.map_cons, List.map_nil, List.mem_cons, List.not_mem_nil, or_false] at hpart
    simp only [refundAndTopUp, List.reverse_cons, List.reverse_nil, List.nil_append, List.singleton_append,
      List.map_cons, List.map_nil, Additive.userId, List.mem_cons, List.not_mem_nil, or_false, or_self] at hu
    subst hu
    cases hb
    rcases hpart with rfl | rfl | rfl <;> cases f <;> decide

end GenerationBalance
