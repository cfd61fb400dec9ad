/-
Every request on strings is the request on typed values: run on the texts of a store,
it leaves the texts of the typed store, and what the adapter returns of its reply is
what the typed reply says.

Two things about `str(uuid)` are used: no text of one begins with `load:`, so that a
balance and a load lock never share a key, and the texts are ordered as the UUIDs.
-/
import GenerationBalance.Commands
import GenerationBalance.Preserves

namespace GenerationBalance

/-! ## What scripts leave alone -/

/-- The markers of top-ups and the load locks are the same. -/
def Redis.SameStrings (ρ ρ' : Redis) : Prop := ρ'.topup = ρ.topup ∧ ρ'.loadLock = ρ.loadLock

section Frame

variable {α β : Type} {ρ : Redis}

theorem bind_same {x : Script α} {f : α → Script β} (hx : Preserves ρ.SameStrings x)
    (hf : ∀ a, Preserves ρ.SameStrings (f a)) : Preserves ρ.SameStrings (x >>= f : Script β) :=
  .bind (fun s a s' h => by rw [Script.bind_apply, h]) (fun s e s' h => by rw [Script.bind_apply, h]) hx hf

theorem pure_same (a : α) : Preserves ρ.SameStrings (pure a : Script α) := .read fun _ => .ok a

theorem hincrby_same (u : UserId) (f : Field) (d : ℤ) : Preserves ρ.SameStrings (Script.hincrby u f d) := by
  intro σ hσ
  simp only [Script.hincrby]
  split
  · exact hσ
  · exact hσ

theorem neg_same (n : ℤ) : Preserves ρ.SameStrings (Script.neg n) := by
  intro σ hσ
  simp only [Script.neg]
  split
  · exact hσ
  · exact hσ

theorem reserve_same (a : ReserveArgs) : Preserves ρ.SameStrings (reserve a) := by
  refine bind_same (.read _) fun σ => ?_
  cases σ.gen.get a.clientRequestId with
  | some r => exact pure_same _
  | none =>
  cases σ.bal.get a.userId with
  | none => exact pure_same _
  | some c =>
  refine .ite (fun _ => pure_same _) fun _ => ?_
  refine bind_same (neg_same _) fun _ => bind_same (hincrby_same _ _ _) fun _ => ?_
  refine bind_same (neg_same _) fun _ => bind_same (hincrby_same _ _ _) fun _ => ?_
  refine bind_same (neg_same _) fun _ => bind_same (hincrby_same _ _ _) fun _ => ?_
  refine bind_same (neg_same _) fun _ => bind_same (hincrby_same _ _ _) fun _ => ?_
  refine bind_same (hincrby_same _ _ _) fun _ => ?_
  exact fun _ h => h

theorem settle_same (a : SettleArgs) : Preserves ρ.SameStrings (settle a) := by
  refine bind_same (.read _) fun σ => ?_
  cases σ.gen.get a.clientRequestId with
  | none => exact pure_same _
  | some r =>
  refine .ite (fun _ => pure_same _) fun _ => ?_
  refine .ite (fun _ => pure_same _) fun _ => ?_
  refine .ite (fun _ => ?_) fun _ => fun _ h => h
  refine .ite (fun _ => pure_same _) fun _ => ?_
  refine bind_same (hincrby_same _ _ _) fun _ => bind_same (hincrby_same _ _ _) fun _ => ?_
  refine bind_same (hincrby_same _ _ _) fun _ => bind_same (hincrby_same _ _ _) fun _ => ?_
  exact fun _ h => h

theorem refund_same (a : RefundArgs) : Preserves ρ.SameStrings (refund a) := by
  refine bind_same (.read _) fun σ => ?_
  cases σ.gen.get a.clientRequestId with
  | none => exact pure_same _
  | some r =>
  refine .ite (fun _ => pure_same _) fun _ => ?_
  refine .ite (fun _ => pure_same _) fun _ => ?_
  refine bind_same (hincrby_same _ _ _) fun _ => bind_same (hincrby_same _ _ _) fun _ => ?_
  refine bind_same (hincrby_same _ _ _) fun _ => bind_same (hincrby_same _ _ _) fun _ => ?_
  refine bind_same (hincrby_same _ _ _) fun _ => ?_
  exact fun _ h => h

end Frame

/-! ## Keys -/

/-- What is used of the texts of UUIDs. -/
structure Adapter.Uuids (A : Adapter) : Prop where
  apart : ∀ u v, A.uuid.str u ≠ "load:" ++ A.uuid.str v
  ordered : ∀ i j, A.uuid.str i < A.uuid.str j ↔ i < j

namespace Adapter

variable {A : Adapter}

theorem topUpKey_inj {o o' : OperationId} : A.topUpKey o = A.topUpKey o' ↔ o = o' := by
  rw [topUpKey, topUpKey, String.append_right_inj, A.uuid.str_inj]

theorem loadLockKey_inj {u v : UserId} : A.loadLockKey u = A.loadLockKey v ↔ u = v := by
  rw [loadLockKey, loadLockKey, String.append_right_inj, A.uuid.str_inj]

/-- Keys of different families begin with different letters. -/
theorem ne_of_head {s t : String} (h : s.toList.head? ≠ t.toList.head?) : s ≠ t := fun he => h (by rw [he])

theorem balanceKey_ne_topUpKey (u : UserId) (o : OperationId) : A.balanceKey u ≠ A.topUpKey o :=
  ne_of_head (by simp [balanceKey, topUpKey])

theorem generationKey_ne_topUpKey (id : RequestId) (o : OperationId) : A.generationKey id ≠ A.topUpKey o :=
  ne_of_head (by simp [generationKey, topUpKey])

theorem loadLockKey_ne_topUpKey (u : UserId) (o : OperationId) : A.loadLockKey u ≠ A.topUpKey o :=
  ne_of_head (by simp [loadLockKey, topUpKey])

theorem generationKey_ne_loadLockKey (id : RequestId) (u : UserId) : A.generationKey id ≠ A.loadLockKey u :=
  ne_of_head (by simp [generationKey, loadLockKey])

theorem Uuids.balanceKey_ne (hA : A.Uuids) (u v : UserId) : A.balanceKey u ≠ A.loadLockKey v := by
  intro h
  have hkey : A.loadLockKey v = "bal:" ++ ("load:" ++ A.uuid.str v) := by
    rw [loadLockKey, ← String.append_assoc]
    rfl
  rw [hkey, balanceKey, String.append_right_inj] at h
  exact hA.apart u v h

/-! ## The texts of a store -/

/-- Nothing else is kept: no hash at the key of a top-up or a lock, and only UUIDs in the sets. -/
structure Tidy (A : Adapter) (s : RawRedis) : Prop where
  topup : ∀ o, s.hashes.get (A.topUpKey o) = none
  loadLock : ∀ u, s.hashes.get (A.loadLockKey u) = none
  dirty : ∀ m ∈ s.dirty, ∃ u, m = A.uuid.str u
  inflight : ∀ m score, s.inflight.get m = some score → ∃ id, m = A.uuid.str id

/-- The strings of all of the store are the texts of the typed one. -/
structure Stores (A : Adapter) (s : RawStore) (ρ : Redis) : Prop where
  raw : A.Encodes s.raw ρ
  tidy : A.Tidy s.raw
  topup : ∀ o, s.strings.get (A.topUpKey o) = (ρ.topup.get o).map A.uuid.str
  loadLock : ∀ u, s.strings.get (A.loadLockKey u) = (ρ.loadLock.get u).map A.hex.str
  balance : ∀ u, s.strings.get (A.balanceKey u) = none

/-- Two runs that went alike, on all of the store. -/
def Agree (A : Adapter) {α β : Type} (R : α → β → Prop) (x : Except ScriptError α × RawStore)
    (y : Except ScriptError β × Redis) : Prop :=
  ExceptRel R x.1 y.1 ∧ A.Stores x.2 y.2

theorem Stores.empty : A.Stores .empty .empty where
  raw := ⟨fun _ => .none, fun _ => .none, fun _ => by simp [RawStore.empty, Redis.empty], fun _ => rfl⟩
  tidy := ⟨fun _ => rfl, fun _ => rfl, fun _ h => by simp [RawStore.empty] at h, fun _ _ h => by cases h⟩
  topup _ := rfl
  loadLock _ := rfl
  balance _ := rfl

/-! ## What the scripts on hashes leave alone -/

section Frame

open Lua

variable {α β : Type} {s : RawRedis}

theorem bind_tidy {x : Lua α} {f : α → Lua β} (hx : Preserves A.Tidy x) (hf : ∀ a, Preserves A.Tidy (f a)) :
    Preserves A.Tidy (x >>= f : Lua β) :=
  .bind (fun s a s' h => by rw [Lua.bind_apply, h]) (fun s e s' h => by rw [Lua.bind_apply, h]) hx hf

theorem pure_tidy (a : α) : Preserves A.Tidy (pure a : Lua α) := .read fun _ => .ok a

/-- The hash of a balance or a record is written. -/
theorem Tidy.set (h : A.Tidy s) {key : String} (hkey : (∃ u, key = A.balanceKey u) ∨ ∃ id, key = A.generationKey id)
    (hA : A.Uuids) (fields : Fields) : A.Tidy { s with hashes := s.hashes.set key fields } := by
  have hne : (∀ o, A.topUpKey o ≠ key) ∧ ∀ u, A.loadLockKey u ≠ key := by
    rcases hkey with ⟨u, rfl⟩ | ⟨id, rfl⟩
    · exact ⟨fun o => (balanceKey_ne_topUpKey u o).symm, fun v => (hA.balanceKey_ne u v).symm⟩
    · exact ⟨fun o => (generationKey_ne_topUpKey id o).symm, fun v => (generationKey_ne_loadLockKey id v).symm⟩
  refine { h with topup := fun o => ?_, loadLock := fun u => ?_ }
  · rw [Table.get_set_of_ne _ _ (hne.1 o)]
    exact h.topup o
  · rw [Table.get_set_of_ne _ _ (hne.2 u)]
    exact h.loadLock u

theorem hincrby_tidy (hA : A.Uuids) (u : UserId) (field increment : String) :
    Preserves A.Tidy (HINCRBY (A.balanceKey u) field increment) := by
  intro s hs
  simp only [HINCRBY]
  split
  · split
    · exact hs.set (.inl ⟨u, rfl⟩) hA _
    · exact hs
  · exact hs

theorem hset_tidy (hA : A.Uuids) {key : String} (hkey : (∃ u, key = A.balanceKey u) ∨ ∃ id, key = A.generationKey id)
    (pairs : List (String × String)) : Preserves A.Tidy (HSET key pairs) :=
  fun _ hs => hs.set hkey hA _

theorem zadd_tidy (score : String) (id : RequestId) : Preserves A.Tidy (ZADD score (A.uuid.str id)) := by
  intro s hs
  refine { hs with inflight := fun m q hm => ?_ }
  simp only [ZADD, Table.get_set] at hm
  split at hm
  · next he => exact ⟨id, he⟩
  · exact hs.inflight m q hm

theorem zrem_tidy (m : String) : Preserves A.Tidy (ZREM m) := by
  intro s hs
  refine { hs with inflight := fun m' q hm => ?_ }
  simp only [ZREM, Table.get_del] at hm
  split at hm
  · cases hm
  · exact hs.inflight m' q hm

theorem sadd_tidy (u : UserId) : Preserves A.Tidy (SADD (A.uuid.str u)) := by
  intro s hs
  refine { hs with dirty := fun m hm => ?_ }
  rcases Finset.mem_insert.mp hm with rfl | hm
  · exact ⟨u, rfl⟩
  · exact hs.dirty m hm

theorem srem_tidy (m : String) : Preserves A.Tidy (SREM m) := by
  intro s hs
  exact { hs with dirty := fun m' hm => hs.dirty m' (Finset.mem_of_mem_erase hm) }

theorem reserve_tidy (hA : A.Uuids) (a : ReserveArgs) : Preserves A.Tidy (A.RESERVE a) := by
  simp only [Adapter.RESERVE, GenerationBalance.RESERVE, arg, reserveArgs, planArgs, List.cons_append, List.nil_append,
    Nat.reduceSub, List.getD_cons_zero, List.getD_cons_succ]
  refine bind_tidy (.read _) fun b => .ite (fun _ => ?_) fun _ => ?_
  · exact bind_tidy (.read _) fun _ => pure_tidy _
  refine bind_tidy (.read _) fun b => .ite (fun _ => pure_tidy _) fun _ => ?_
  refine bind_tidy (.read _) fun c => .ite (fun _ => pure_tidy _) fun _ => ?_
  refine bind_tidy (hincrby_tidy hA _ _ _) fun _ => bind_tidy (hincrby_tidy hA _ _ _) fun _ => ?_
  refine bind_tidy (hincrby_tidy hA _ _ _) fun _ => bind_tidy (hincrby_tidy hA _ _ _) fun _ => ?_
  refine bind_tidy (hincrby_tidy hA _ _ _) fun _ => bind_tidy (hset_tidy hA (.inr ⟨_, rfl⟩) _) fun _ => ?_
  exact bind_tidy (.read _) fun _ => bind_tidy (zadd_tidy _ _) fun _ => bind_tidy (sadd_tidy _) fun _ => pure_tidy _

theorem settle_tidy (hA : A.Uuids) (a : SettleArgs) : Preserves A.Tidy (A.SETTLE a) := by
  simp only [Adapter.SETTLE, GenerationBalance.SETTLE, arg, settleArgs, Nat.reduceSub, List.getD_cons_zero,
    List.getD_cons_succ]
  refine bind_tidy (.read _) fun _ => .ite (fun _ => pure_tidy _) fun _ => .ite (fun _ => pure_tidy _) fun _ => ?_
  have hend : Preserves A.Tidy (do
        HSET (A.generationKey a.clientRequestId) [("status", "done"), ("content", a.content),
          ("billed_cost_usd", a.billedCostUsd.repr), ("provider_billed_cost_usd", a.providerBilledCostUsd.format),
          ("refunded_surplus_usd", a.refundedSurplus.repr)]
        EXPIRE (A.generationKey a.clientRequestId) A.ttl
        ZREM (A.uuid.str a.clientRequestId)
        return ["OK"] : Lua (List String)) :=
    bind_tidy (hset_tidy hA (.inr ⟨_, rfl⟩) _) fun _ => bind_tidy (.read _) fun _ => bind_tidy (zrem_tidy _) fun _ =>
      pure_tidy _
  refine .ite (fun _ => ?_) fun _ => hend
  refine bind_tidy (.read _) fun _ => .ite (fun _ => pure_tidy _) fun _ => ?_
  refine bind_tidy (hincrby_tidy hA _ _ _) fun _ => bind_tidy (hincrby_tidy hA _ _ _) fun _ => ?_
  refine bind_tidy (hincrby_tidy hA _ _ _) fun _ => bind_tidy (hincrby_tidy hA _ _ _) fun _ => ?_
  exact bind_tidy (sadd_tidy _) fun _ => hend

theorem refund_tidy (hA : A.Uuids) (a : RefundArgs) : Preserves A.Tidy (A.REFUND a) := by
  simp only [Adapter.REFUND, GenerationBalance.REFUND, arg, refundArgs, planArgs, List.cons_append, List.nil_append,
    Nat.reduceSub, List.getD_cons_zero, List.getD_cons_succ]
  refine bind_tidy (.read _) fun _ => .ite (fun _ => pure_tidy _) fun _ => ?_
  refine bind_tidy (.read _) fun _ => .ite (fun _ => pure_tidy _) fun _ => ?_
  refine bind_tidy (hincrby_tidy hA _ _ _) fun _ => bind_tidy (hincrby_tidy hA _ _ _) fun _ => ?_
  refine bind_tidy (hincrby_tidy hA _ _ _) fun _ => bind_tidy (hincrby_tidy hA _ _ _) fun _ => ?_
  refine bind_tidy (hincrby_tidy hA _ _ _) fun _ => bind_tidy (hset_tidy hA (.inr ⟨_, rfl⟩) _) fun _ => ?_
  exact bind_tidy (.read _) fun _ => bind_tidy (zrem_tidy _) fun _ => bind_tidy (sadd_tidy _) fun _ => pure_tidy _

end Frame

/-! ## Scripts and commands -/

variable {α β : Type} {R : α → β → Prop} {s : RawStore} {ρ : Redis}

/-- A script on the hashes and sets does on all of the store what it does on them. -/
theorem Stores.lift (h : A.Stores s ρ) {x : Lua α} {y : Script β} (ha : A.Alike R (x s.raw) (y ρ))
    (hx : Preserves A.Tidy x) (hy : Preserves ρ.SameStrings y) : A.Agree R ((liftM x : RawScript α) s) (y ρ) := by
  have hsame := hy ρ ⟨rfl, rfl⟩
  refine ⟨ha.1, { raw := ha.2, tidy := hx _ h.tidy, balance := h.balance, topup := fun o => ?_, loadLock := fun u => ?_ }⟩
  · rw [hsame.1]
    exact h.topup o
  · rw [hsame.2]
    exact h.loadLock u

theorem Stores.putBalance (h : A.Stores s ρ) (hA : A.Uuids) {u : UserId} {b : Balance} {f : Fields} (hf : b.Holds f) :
    A.Stores { s with raw := { s.raw with hashes := s.raw.hashes.set (A.balanceKey u) f } } (ρ.putBalance u b) :=
  { h with raw := h.raw.putBalance hf, tidy := h.tidy.set (.inl ⟨u, rfl⟩) hA f }

theorem Stores.sadd (h : A.Stores s ρ) (u : UserId) :
    A.Stores { s with raw := { s.raw with dirty := insert (A.uuid.str u) s.raw.dirty } }
      { ρ with dirty := insert u ρ.dirty } :=
  { h with raw := h.raw.sadd u, tidy := sadd_tidy u _ h.tidy }

theorem Stores.srem (h : A.Stores s ρ) (u : UserId) :
    A.Stores { s with raw := { s.raw with dirty := s.raw.dirty.erase (A.uuid.str u) } }
      { ρ with dirty := ρ.dirty.erase u } := by
  refine { h with raw := { h.raw with dirty := fun v => ?_ }, tidy := srem_tidy _ _ h.tidy }
  simp only [Finset.mem_erase, ne_eq, A.uuid.str_inj, h.raw.dirty v]

theorem Stores.zrem (h : A.Stores s ρ) (id : RequestId) :
    A.Stores { s with raw := { s.raw with inflight := s.raw.inflight.del (A.uuid.str id) } }
      { ρ with inflight := ρ.inflight.del id } :=
  { h with raw := h.raw.zrem id, tidy := zrem_tidy _ _ h.tidy }

theorem Stores.marked (h : A.Stores s ρ) (o : OperationId) (u : UserId) :
    A.Stores { s with strings := s.strings.set (A.topUpKey o) (A.uuid.str u) } (ρ.marked o u) := by
  have raw : A.Encodes s.raw (ρ.marked o u) := ⟨h.raw.bal, h.raw.gen, h.raw.dirty, h.raw.inflight⟩
  refine { h with raw, topup := fun o' => ?_, loadLock := fun v => ?_, balance := fun v => ?_ }
  · simp only [Table.get_set, topUpKey_inj, Redis.marked]
    split
    · rfl
    · exact h.topup o'
  · rw [Table.get_set_of_ne _ _ (loadLockKey_ne_topUpKey v o)]
    exact h.loadLock v
  · rw [Table.get_set_of_ne _ _ (balanceKey_ne_topUpKey v o)]
    exact h.balance v

theorem Stores.locked (h : A.Stores s ρ) (hA : A.Uuids) (u : UserId) (token : Token) :
    A.Stores { s with strings := s.strings.set (A.loadLockKey u) (A.hex.str token) }
      { ρ with loadLock := ρ.loadLock.set u token } := by
  have raw : A.Encodes s.raw { ρ with loadLock := ρ.loadLock.set u token } :=
    ⟨h.raw.bal, h.raw.gen, h.raw.dirty, h.raw.inflight⟩
  refine { h with raw, topup := fun o => ?_, loadLock := fun v => ?_, balance := fun v => ?_ }
  · rw [Table.get_set_of_ne _ _ (loadLockKey_ne_topUpKey u o).symm]
    exact h.topup o
  · simp only [Table.get_set, loadLockKey_inj]
    split
    · rfl
    · exact h.loadLock v
  · rw [Table.get_set_of_ne _ _ (hA.balanceKey_ne v u)]
    exact h.balance v

/-! ### A key is deleted, or expires -/

theorem Tidy.del {s : RawRedis} (h : A.Tidy s) (key : String) : A.Tidy { s with hashes := s.hashes.del key } := by
  refine { h with topup := fun o => ?_, loadLock := fun u => ?_ }
  · rw [Table.get_del]
    split
    · rfl
    · exact h.topup o
  · rw [Table.get_del]
    split
    · rfl
    · exact h.loadLock u

theorem Stores.delBalance (h : A.Stores s ρ) (hA : A.Uuids) (u : UserId) :
    A.Stores (RawScript.DEL (A.balanceKey u) s).2 { ρ with bal := ρ.bal.del u } := by
  have raw : A.Encodes { s.raw with hashes := s.raw.hashes.del (A.balanceKey u) } { ρ with bal := ρ.bal.del u } := by
    refine { h.raw with bal := fun v => ?_, gen := fun id => ?_ }
    · simp only [Table.get_del, A.balanceKey_inj]
      split
      · exact .none
      · exact h.raw.bal v
    · rw [Table.get_del_of_ne _ (A.balanceKey_ne u id).symm]
      exact h.raw.gen id
  refine ⟨raw, h.tidy.del _, fun o => ?_, fun v => ?_, fun v => ?_⟩
  · exact (Table.get_del_of_ne _ (balanceKey_ne_topUpKey u o).symm).trans (h.topup o)
  · exact (Table.get_del_of_ne _ (hA.balanceKey_ne u v).symm).trans (h.loadLock v)
  · refine (Table.get_del ..).trans ?_
    split
    · rfl
    · exact h.balance v

theorem Stores.delRecord (h : A.Stores s ρ) (id : RequestId) :
    A.Stores (RawScript.DEL (A.generationKey id) s).2 { ρ with gen := ρ.gen.del id } := by
  refine ⟨h.raw.delRecord id, h.tidy.del _, fun o => ?_, fun v => ?_, fun v => ?_⟩
  · exact (Table.get_del_of_ne _ (generationKey_ne_topUpKey id o).symm).trans (h.topup o)
  · exact (Table.get_del_of_ne _ (generationKey_ne_loadLockKey id v).symm).trans (h.loadLock v)
  · exact (Table.get_del_of_ne _ (A.balanceKey_ne v id)).trans (h.balance v)

/-- No hash has the key of a string. -/
theorem Stores.no_hash (h : A.Stores s ρ) {key : String}
    (hkey : (∃ o, key = A.topUpKey o) ∨ ∃ u, key = A.loadLockKey u) : s.raw.hashes.get key = none := by
  rcases hkey with ⟨o, rfl⟩ | ⟨u, rfl⟩
  · exact h.tidy.topup o
  · exact h.tidy.loadLock u

theorem Stores.delTopUp (h : A.Stores s ρ) (o : OperationId) :
    A.Stores (RawScript.DEL (A.topUpKey o) s).2 { ρ with topup := ρ.topup.del o } := by
  have hhashes := Table.del_of_get_none (h.no_hash (.inl ⟨o, rfl⟩))
  refine ⟨?_, h.tidy.del _, fun o' => ?_, fun v => ?_, fun v => ?_⟩
  · simp only [RawScript.DEL, hhashes]
    exact ⟨h.raw.bal, h.raw.gen, h.raw.dirty, h.raw.inflight⟩
  · simp only [RawScript.DEL, Table.get_del, topUpKey_inj]
    split
    · rfl
    · exact h.topup o'
  · exact (Table.get_del_of_ne _ (loadLockKey_ne_topUpKey v o)).trans (h.loadLock v)
  · exact (Table.get_del_of_ne _ (balanceKey_ne_topUpKey v o)).trans (h.balance v)

theorem Stores.delLock (h : A.Stores s ρ) (hA : A.Uuids) (u : UserId) :
    A.Stores (RawScript.DEL (A.loadLockKey u) s).2 { ρ with loadLock := ρ.loadLock.del u } := by
  have hhashes := Table.del_of_get_none (h.no_hash (.inr ⟨u, rfl⟩))
  refine ⟨?_, h.tidy.del _, fun o => ?_, fun v => ?_, fun v => ?_⟩
  · simp only [RawScript.DEL, hhashes]
    exact ⟨h.raw.bal, h.raw.gen, h.raw.dirty, h.raw.inflight⟩
  · exact (Table.get_del_of_ne _ (loadLockKey_ne_topUpKey u o).symm).trans (h.topup o)
  · simp only [RawScript.DEL, Table.get_del, loadLockKey_inj]
    split
    · rfl
    · exact h.loadLock v
  · exact (Table.get_del_of_ne _ (hA.balanceKey_ne v u)).trans (h.balance v)

/-! ### The other scripts -/

theorem Stores.exists_balance (h : A.Stores s ρ) (u : UserId) :
    ((s.raw.hashes.get (A.balanceKey u)).isSome || (s.strings.get (A.balanceKey u)).isSome) = (ρ.bal.get u).isSome := by
  rw [h.balance u, Option.isSome_none, Bool.or_false]
  cases hb : ρ.bal.get u with
  | none => rw [h.raw.no_balance hb]; rfl
  | some b =>
    obtain ⟨f, hf, -⟩ := h.raw.balance hb
    rw [hf]
    rfl

theorem Stores.exists_topUp (h : A.Stores s ρ) (o : OperationId) :
    ((s.raw.hashes.get (A.topUpKey o)).isSome || (s.strings.get (A.topUpKey o)).isSome) = (ρ.topup.get o).isSome := by
  rw [h.no_hash (.inl ⟨o, rfl⟩), h.topup o, Option.isSome_none, Bool.false_or, Option.isSome_map]

theorem Stores.exists_lock (h : A.Stores s ρ) (u : UserId) :
    ((s.raw.hashes.get (A.loadLockKey u)).isSome || (s.strings.get (A.loadLockKey u)).isSome) =
      (ρ.loadLock.get u).isSome := by
  rw [h.no_hash (.inr ⟨u, rfl⟩), h.loadLock u, Option.isSome_none, Bool.false_or, Option.isSome_map]

/-- An increment, and what follows it when it is made. -/
theorem Stores.hincrby (h : A.Stores s ρ) (hA : A.Uuids) {u : UserId} {b : Balance} (hb : ρ.bal.get u = some b)
    (f : Field) (d : ℤ) {k : ℤ → RawScript α} {k' : ℤ → Script β}
    (hk : ∀ n c s', A.Stores s' (ρ.putBalance u c) → A.Agree R (k n s') (k' n (ρ.putBalance u c))) :
    A.Agree R ((liftM (Lua.HINCRBY (A.balanceKey u) f.name d.repr) >>= k : RawScript α) s)
      ((Script.hincrby u f d >>= k' : Script β) ρ) := by
  obtain ⟨e, he, hf⟩ := h.raw.balance hb
  rw [RawScript.bind_apply, RawScript.lift_apply, Script.bind_apply, Lua.HINCRBY_eq he (hf f), Script.hincrby_eq hb,
    Balance.incr]
  by_cases hr : InRange (b.get f) ∧ InRange d ∧ InRange (b.get f + d)
  · rw [if_pos hr, dif_pos hr]
    have hn : (b.put f (b.get f + d) hr.2.2).get f = b.get f + d := by rw [Balance.get_put, if_pos rfl]
    simp only [Option.elim_some, hn]
    exact hk _ _ _ (h.putBalance hA (hf.put f _ hr.2.2))
  · rw [if_neg hr, dif_neg hr]
    exact ⟨.error, h⟩

def topUpReply : TopUpReply → List String
  | .dup => ["DUP"]
  | .missing => ["MISSING"]
  | .ok => ["OK"]

/-- **TOP_UP on strings is TOP_UP.** -/
theorem Stores.topUp (h : A.Stores s ρ) (hA : A.Uuids) (a : TopUpArgs) :
    A.Agree (fun raw r => raw = topUpReply r)
      (TOP_UP [A.balanceKey a.userId, A.topUpKey a.operationId, "bal:dirty"] (A.topUpArgs a) s)
      (GenerationBalance.topUp a ρ) := by
  simp only [TOP_UP, GenerationBalance.topUp, Script.store_bind, RawScript.EXISTS_bind, arg, topUpArgs, Nat.reduceSub,
    List.getD_cons_zero, List.getD_cons_succ, h.exists_topUp]
  cases ht : ρ.topup.get a.operationId with
  | some u =>
    simp only [Option.isSome_some, if_true]
    exact ⟨.ok rfl, h⟩
  | none =>
  simp only [Option.isSome_none, Bool.false_eq_true, if_false, RawScript.EXISTS_bind, h.exists_balance]
  cases hb : ρ.bal.get a.userId with
  | none =>
    simp only [Option.isSome_none, Option.isNone_none, Bool.not_false, if_true]
    exact ⟨.ok rfl, h⟩
  | some b =>
  simp only [Option.isSome_some, Option.isNone_some, Bool.not_true, Bool.false_eq_true, if_false]
  refine h.hincrby hA hb .paidUsd _ fun _ c₁ s₁ h₁ => ?_
  refine h₁.hincrby hA (Redis.putBalance_get ..) .bonusUsd _ fun _ c₂ s₂ h₂ => ?_
  refine h₂.hincrby hA (Redis.putBalance_get ..) .freeRequests _ fun _ c₃ s₃ h₃ => ?_
  refine h₃.hincrby hA (Redis.putBalance_get ..) .version 1 fun _ c₄ s₄ h₄ => ?_
  exact ⟨.ok rfl, (h₄.marked a.operationId a.userId).sadd a.userId⟩

/-- The outcome of a script that cannot be stopped. -/
def Answers (A : Adapter) (x : Except ScriptError ℤ × RawStore) (y : Bool × Redis) : Prop :=
  x.1 = .ok (if y.1 then 1 else 0) ∧ A.Stores x.2 y.2

theorem fields_hold (b : Balance) :
    b.Holds (Table.empty.setAll [("free_usd", b.freeUsd.repr), ("bonus_usd", b.bonusUsd.repr),
      ("paid_usd", b.paidUsd.repr), ("free_requests", b.freeRequests.repr), ("version", b.version.repr)]) := by
  intro f
  cases f <;> simp [Table.get_set, Field.name, Balance.get]

/-- **SEED_IF_ABSENT on strings is SEED_IF_ABSENT.** -/
theorem Stores.seedIfAbsent (h : A.Stores s ρ) (hA : A.Uuids) (u : UserId) (b : Balance) :
    A.Answers (SEED_IF_ABSENT [A.balanceKey u] (seedArgs b) s) (GenerationBalance.seedIfAbsent u b ρ) := by
  simp only [SEED_IF_ABSENT, GenerationBalance.seedIfAbsent, RawScript.EXISTS_bind, arg, seedArgs, Nat.reduceSub,
    List.getD_cons_zero, List.getD_cons_succ, h.exists_balance]
  cases hb : ρ.bal.get u with
  | some c =>
    simp only [Option.isSome_some, if_true]
    exact ⟨rfl, h⟩
  | none =>
    simp only [Option.isSome_none, Bool.false_eq_true, if_false]
    rw [RawScript.bind_apply, RawScript.lift_apply, Lua.HSET, h.raw.no_balance hb]
    exact ⟨rfl, h.putBalance hA (fields_hold b)⟩

theorem withVersion_holds {b : Balance} {f : Fields} (hf : b.Holds f) (v : ℤ) :
    (b.withVersion v).Holds (f.setAll [("version", v.repr)]) := by
  intro g
  have := hf g
  cases g <;> simp_all [Table.get_set, Field.name, Balance.withVersion, Balance.get]

/-- **ADVANCE_VERSION on strings is ADVANCE_VERSION.** -/
theorem Stores.advanceVersion (h : A.Stores s ρ) (hA : A.Uuids) (u : UserId) (expected newVersion : ℤ) :
    A.Answers
      (ADVANCE_VERSION [A.balanceKey u, "bal:dirty"] [expected.repr, newVersion.repr, A.uuid.str u] s)
      (GenerationBalance.advanceVersion u expected newVersion ρ) := by
  simp only [ADVANCE_VERSION, GenerationBalance.advanceVersion, RawScript.HGET_bind, arg, Nat.reduceSub,
    List.getD_cons_zero, List.getD_cons_succ]
  cases hb : ρ.bal.get u with
  | none =>
    simp only [h.raw.no_balance hb, Option.bind_none, ne_eq, reduceCtorEq, not_false_eq_true, if_true]
    exact ⟨rfl, h⟩
  | some b =>
    obtain ⟨f, hf, hholds⟩ := h.raw.balance hb
    have hversion := hholds .version
    simp only [Field.name, Balance.get] at hversion
    simp only [hf, Option.bind_some, hversion, ne_eq, Option.some.injEq, Int.repr_inj]
    by_cases hv : b.version = expected
    · simp only [hv, not_true_eq_false, if_false]
      rw [RawScript.bind_apply, RawScript.lift_apply, Lua.HSET, hf]
      exact ⟨rfl, (h.putBalance hA (withVersion_holds hholds newVersion)).sadd u⟩
    · simp only [hv, not_false_eq_true, if_true]
      exact ⟨rfl, h⟩

/-- **RELEASE_LOAD_LOCK on strings is RELEASE_LOAD_LOCK.** -/
theorem Stores.releaseLoadLock (h : A.Stores s ρ) (hA : A.Uuids) (u : UserId) (token : Token) :
    A.Answers (RELEASE_LOAD_LOCK [A.loadLockKey u] [A.hex.str token] s)
      (GenerationBalance.releaseLoadLock u token ρ) := by
  simp only [RELEASE_LOAD_LOCK, GenerationBalance.releaseLoadLock, RawScript.GET_bind, arg, Nat.reduceSub,
    List.getD_cons_zero, h.loadLock u]
  have htoken : ((ρ.loadLock.get u).map A.hex.str = some (A.hex.str token)) = (ρ.loadLock.get u = some token) := by
    cases ρ.loadLock.get u <;> simp [A.hex.str_inj]
  simp only [htoken]
  by_cases hl : ρ.loadLock.get u = some token
  · simp only [hl, if_true]
    have hone : (RawScript.DEL (A.loadLockKey u) s).1 = .ok 1 := by
      simp only [RawScript.DEL, h.exists_lock, hl, Option.isSome_some, if_true]
    exact ⟨hone, h.delLock hA u⟩
  · simp only [hl, if_false]
    exact ⟨rfl, h⟩

/-- **CLEAR_DIRTY on strings is CLEAR_DIRTY.** -/
theorem Stores.clearDirty (h : A.Stores s ρ) (u : UserId) (version : ℤ) :
    A.Answers (CLEAR_DIRTY [A.balanceKey u, "bal:dirty"] [version.repr, A.uuid.str u] s)
      (GenerationBalance.clearDirty u version ρ) := by
  simp only [CLEAR_DIRTY, GenerationBalance.clearDirty, RawScript.EXISTS_bind, RawScript.HGET_bind, arg, Nat.reduceSub,
    List.getD_cons_zero, List.getD_cons_succ, h.exists_balance]
  have hcond : (!(ρ.bal.get u).isSome || ((s.raw.hashes.get (A.balanceKey u)).bind (·.get "version")) ==
      some version.repr) = decide ((ρ.bal.get u).isNone ∨ (ρ.bal.get u).map Balance.version = some version) := by
    cases hb : ρ.bal.get u with
    | none => simp
    | some b =>
      obtain ⟨f, hf, hholds⟩ := h.raw.balance hb
      have hversion := hholds .version
      simp only [Field.name, Balance.get] at hversion
      rw [hf, Option.bind_some, hversion]
      by_cases hv : b.version = version
      · simp [hv]
      · simp [hv, beq_eq_false_iff_ne.mpr (mt Int.repr_inj.mp hv)]
  simp only [hcond, decide_eq_true_eq]
  by_cases hc : (ρ.bal.get u).isNone ∨ (ρ.bal.get u).map Balance.version = some version
  · simp only [hc, if_true]
    exact ⟨rfl, h.srem u⟩
  · simp only [hc, if_false]
    exact ⟨rfl, h⟩

/-! ### Reads -/

/-- An entry of the sorted set, with its member as text. -/
def entryText (A : Adapter) (e : ℚ ×ₗ RequestId) : ℚ ×ₗ String := toLex ((ofLex e).1, A.uuid.str (ofLex e).2)

theorem entryText_strictMono (hA : A.Uuids) : StrictMono A.entryText := by
  intro d e h
  rw [Prod.Lex.lt_iff] at h
  refine Prod.Lex.lt_iff.mpr ?_
  rcases h with h | ⟨h1, h2⟩
  · exact .inl h
  · exact .inr ⟨h1, (hA.ordered _ _).mpr h2⟩

theorem Stores.entries (h : A.Stores s ρ) :
    (s.raw.inflight.keys.image fun m => (toLex (((s.raw.inflight.get m).bind A.float.read).getD 0, m) : ℚ ×ₗ String)) =
      (ρ.inflight.keys.image fun id => (toLex ((ρ.inflight.get id).getD 0, id) : ℚ ×ₗ RequestId)).image A.entryText := by
  have hscore : ∀ id, ((s.raw.inflight.get (A.uuid.str id)).bind A.float.read).getD 0 = (ρ.inflight.get id).getD 0 := by
    intro id
    rw [h.raw.inflight]
    cases ρ.inflight.get id with
    | none => rfl
    | some q => simp [A.float.read_str]
  have hkey : ∀ id, A.uuid.str id ∈ s.raw.inflight.keys ↔ id ∈ ρ.inflight.keys := by
    intro id
    rw [Table.mem_keys, Table.mem_keys, h.raw.inflight, Option.isSome_map]
  ext e
  simp only [Finset.mem_image, exists_exists_and_eq_and]
  constructor
  · intro ⟨m, hm, he⟩
    obtain ⟨score, hs⟩ := Option.isSome_iff_exists.mp ((s.raw.inflight.mem_keys m).mp hm)
    obtain ⟨id, rfl⟩ := h.tidy.inflight m score hs
    exact ⟨id, (hkey id).mp hm, by rw [← he, hscore]; rfl⟩
  · intro ⟨id, hid, he⟩
    exact ⟨A.uuid.str id, (hkey id).mpr hid, by rw [← he, hscore]; rfl⟩

theorem Stores.zrangebyscore (h : A.Stores s ρ) (hA : A.Uuids) (max : ℚ) (num : ℕ) :
    Lua.ZRANGEBYSCORE A.float.read max num s.raw = (.ok ((ρ.staleInflight max num).map A.uuid.str), s.raw) := by
  have hmono := entryText_strictMono hA
  let stale : Finset (ℚ ×ₗ RequestId) :=
    (ρ.inflight.keys.image fun id => toLex ((ρ.inflight.get id).getD 0, id)).filter fun e => (ofLex e).1 ≤ max
  have hsort : (stale.image A.entryText).sort = stale.sort.map A.entryText := by
    have hmap := Finset.map_sort ⟨A.entryText, hmono.injective⟩ stale (· ≤ ·) (· ≤ ·) fun a _ b _ =>
      hmono.le_iff_le.symm
    rw [Finset.map_eq_image] at hmap
    exact hmap.symm
  have hids : ((stale.image A.entryText).sort.map fun e => (ofLex e).2) =
      (stale.sort.map fun e => (ofLex e).2).map A.uuid.str := by
    rw [hsort, List.map_map, List.map_map]
    rfl
  simp only [Lua.ZRANGEBYSCORE, h.entries, Redis.staleInflight, List.map_take]
  rw [Finset.filter_image]
  exact congrArg (fun l => (Except.ok (l.take num), s.raw)) hids

theorem Stores.srandmember (h : A.Stores s ρ) (pick : List UserId) (limit : ℕ) :
    ((pick.map A.uuid.str).Nodup ∧ (∀ m ∈ pick.map A.uuid.str, m ∈ s.raw.dirty) ∧
      (pick.map A.uuid.str).length = min limit s.raw.dirty.card) ↔
      pick.Nodup ∧ (∀ u ∈ pick, u ∈ ρ.dirty) ∧ pick.length = min limit ρ.dirty.card := by
  have hinj : Function.Injective A.uuid.str := fun u v => A.uuid.str_inj.mp
  have hdirty : s.raw.dirty = ρ.dirty.image A.uuid.str := by
    ext m
    rw [Finset.mem_image]
    constructor
    · intro hm
      obtain ⟨u, rfl⟩ := h.tidy.dirty m hm
      exact ⟨u, (h.raw.dirty u).mp hm, rfl⟩
    · intro ⟨u, hu, he⟩
      exact he ▸ (h.raw.dirty u).mpr hu
  rw [List.nodup_map_iff hinj, List.forall_mem_map, List.length_map, hdirty, Finset.card_image_of_injective _ hinj]
  simp only [Finset.mem_image, A.uuid.str_inj, exists_eq_right]

theorem snapshotFromHash_holds {b : Balance} {f : Fields} (hf : b.Holds f) :
    snapshotFromHash f = some (GenerationBalance.snapshotFromHash b) := by
  have h1 : f.get "free_usd" = some b.freeUsd.repr := hf .freeUsd
  have h2 : f.get "bonus_usd" = some b.bonusUsd.repr := hf .bonusUsd
  have h3 : f.get "paid_usd" = some b.paidUsd.repr := hf .paidUsd
  have h4 : f.get "free_requests" = some b.freeRequests.repr := hf .freeRequests
  have h5 : f.get "version" = some b.version.repr := hf .version
  simp only [snapshotFromHash, h1, h2, h3, h4, h5, readMicros_repr, Int.toInt?_repr, Option.bind_eq_bind,
    Option.bind_some, Option.pure_def]
  rfl

/-- A hash is read as what it holds, and no hash as nothing. -/
theorem orNone_getD {γ δ : Type} {read : Fields → Option δ} {f : Option Fields} {x : Option γ} {g : γ → δ}
    {Holds : Fields → γ → Prop} (h : Option.Rel Holds f x) (hread : ∀ f a, Holds f a → read f = some (g a))
    (hkeys : ∀ f a, Holds f a → f.keys.Nonempty) : orNone read (f.getD .empty) = some (x.map g) := by
  cases h with
  | none => exact if_pos rfl
  | @some f a hf =>
    rw [Option.getD_some, orNone, if_neg (hkeys f a hf).ne_empty, hread f a hf]
    rfl

theorem mapM_read (l : List ℕ) : (l.map A.uuid.str).mapM A.uuid.read = some l := by
  induction l with
  | nil => rfl
  | cons n l ih =>
    rw [List.map_cons, List.mapM_cons, A.uuid.read_str, ih]
    rfl

/-! ## Requests -/

/-- What the adapter returns of the reply, and what is left. -/
def Same (A : Adapter) (c : Call) (x : RawReply × RawStore) (y : Reply × Redis) : Prop :=
  A.hears c x.1 = some (heard c y.1) ∧ A.Stores x.2 y.2

theorem Agree.same {c : Call} {x : Except ScriptError α × RawStore} {y : Except ScriptError β × Redis}
    {g : α → RawReply} {f : β → Reply} (h : A.Agree R x y)
    (hf : ∀ a b, R a b → A.hears c (g a) = some (heard c (f b))) : A.Same c (rawReply g x) (scriptReply f y) := by
  obtain ⟨x, s⟩ := x
  obtain ⟨y, ρ⟩ := y
  obtain ⟨hrel, hs⟩ := h
  cases hrel with
  | ok hab => exact ⟨hf _ _ hab, hs⟩
  | error => exact ⟨by cases c <;> rfl, hs⟩

theorem Answers.same {c : Call} {x : Except ScriptError ℤ × RawStore} {y : Bool × Redis} (h : A.Answers x y)
    (hc : ∀ done : Bool, A.hears c (.integer (if done then 1 else 0)) = some (heard c (.flag done))) :
    A.Same c (rawReply .integer x) (Prod.map .flag id y) := by
  obtain ⟨x, s⟩ := x
  obtain ⟨hx, hs⟩ := h
  simp only at hx
  subst hx
  exact ⟨hc y.1, hs⟩

/-- **A request on strings is the request on typed values.** -/
theorem Stores.perform (h : A.Stores s ρ) (hA : A.Uuids) (pick : List UserId) (c : Call) :
    Option.Rel (A.Same c) (A.perform pick s c) (exec pick ρ c) := by
  cases c with
  | load u =>
    have hload := orNone_getD (h.raw.bal u) (fun f b hf => snapshotFromHash_holds hf)
      fun f b hf => ⟨_, Table.mem_keys_of_get (hf .version)⟩
    refine .some ⟨?_, h⟩
    exact congrArg (Option.map Heard.balance) hload
  | getGeneration id =>
    have hget := orNone_getD (h.raw.gen id) (fun f r hf => Reads.recordFromFields fun g => .inl (hf g))
      fun f r hf => ⟨_, Table.mem_keys_of_get (hf .status)⟩
    refine .some ⟨?_, h⟩
    exact congrArg (Option.map Heard.record) hget
  | tryAcquireLoadLock u token =>
    simp only [Adapter.perform, exec, RawScript.SETNX, h.exists_lock]
    split
    · exact .some ⟨rfl, h⟩
    · exact .some ⟨rfl, h.locked hA u token⟩
  | releaseLoadLock u token => exact .some ((h.releaseLoadLock hA u token).same fun _ => rfl)
  | seedIfAbsent u b => exact .some ((h.seedIfAbsent hA u b).same fun done => by cases done <;> rfl)
  | advanceVersion u expected newVersion =>
    exact .some ((h.advanceVersion hA u expected newVersion).same fun done => by cases done <;> rfl)
  | clearDirty u version => exact .some ((h.clearDirty u version).same fun _ => rfl)
  | reserve a =>
    refine .some ((h.lift (h.raw.reserve a) (reserve_tidy hA a) (reserve_same a)).same fun raw r hr => ?_)
    rw [hr]
    exact congrArg (Option.map Heard.reserve) (reserveOutcome_reply a.reservationToken r)
  | settle a =>
    refine .some ((h.lift (h.raw.settle a) (settle_tidy hA a) (settle_same a)).same fun raw r hr => ?_)
    rw [hr]
    cases r <;> rfl
  | refund a =>
    refine .some ((h.lift (h.raw.refund a) (refund_tidy hA a) (refund_same a)).same fun raw r hr => ?_)
    rw [hr]
    cases r <;> rfl
  | topUp a =>
    refine .some ((h.topUp hA a).same fun raw r hr => ?_)
    rw [hr]
    cases r <;> rfl
  | staleInflight olderThan limit =>
    simp only [Adapter.perform, exec, RawScript.lift_apply, h.zrangebyscore hA]
    exact .some ⟨congrArg (Option.map Heard.ids) (mapM_read _), h⟩
  | forgetInflight id => exact .some ⟨rfl, h.zrem id⟩
  | dirtyUsers limit =>
    simp only [Adapter.perform, exec, h.srandmember]
    split
    · exact .some ⟨congrArg (Option.map Heard.users) (mapM_read _), h⟩
    · exact .none

end Adapter

end GenerationBalance
