/-
How a call goes on: the cases of one resumption, said once for the loader, the
refunder and the generation, and what a call holds at any point (a loader, a
reservation, a refund), with where it got it from.
-/
import GenerationBalance.Effects
import GenerationBalance.Workers

namespace GenerationBalance

theorem retrying_cases {τ : Type} {P : τ → Prop} {cfg : Config} {attempt : ℕ} {again : ℕ → τ} {raise : Exn → τ}
    (hagain : P (again (attempt + 1))) (hraise : P (raise .connection)) : P (cfg.retrying attempt again raise) := by
  unfold Config.retrying
  split
  · exact hraise
  · exact hagain

theorem elim_cases {σ α τ : Type} {P : τ → Prop} {n : Next σ α} {run : σ → τ} {ret : α → τ} {raise : Exn → τ}
    (hrun : ∀ s, n = .run s → P (run s)) (hret : ∀ a, n = .ret a → P (ret a))
    (hraise : ∀ e, n = .raise e → P (raise e)) : P (n.elim run ret raise) := by
  cases n with
  | run s => exact hrun s rfl
  | ret a => exact hret a rfl
  | raise e => exact hraise e rfl

/-! ## The loader -/

/-- The balance a loader has read and is about to return. -/
def LoaderPc.held : LoaderPc → Option Balance
  | .release _ (.ret b) => some b
  | _ => none

/-- The token of a loader that took the lock. -/
def LoaderPc.locked : LoaderPc → Option Token
  | .recheck t | .select t | .seed t _ | .release t _ => some t
  | _ => none

/-- The cases of a loader's resumption. -/
inductive LoaderMove (fresh : Token) : LoaderPc → Input → Next LoaderPc Balance → Prop
  | stay (l i) : LoaderMove fresh l i (.run l)
  | read {b} : LoaderMove fresh .load (.reply (.balance (some b))) (.ret b)
  | absent : LoaderMove fresh .load (.reply (.balance none)) (.run (.tryLock fresh))
  | acquired {t} : LoaderMove fresh (.tryLock t) (.reply (.flag true)) (.run (.recheck t))
  | notAcquired {t} : LoaderMove fresh (.tryLock t) (.reply (.flag false)) (.run .poll)
  | recheckRead {t b} : LoaderMove fresh (.recheck t) (.reply (.balance (some b))) (.run (.release t (.ret b)))
  | recheckAbsent {t} : LoaderMove fresh (.recheck t) (.reply (.balance none)) (.run (.select t))
  | selected {t row} : LoaderMove fresh (.select t) (.row (some row)) (.run (.seed t (row.getD .zero)))
  | failed {l t i e} : l.locked = some t → e = .connection ∨ e = .database →
      LoaderMove fresh l i (.run (.release t (.raise e)))
  | seeded {t b f} : LoaderMove fresh (.seed t b) (.reply (.flag f)) (.run (.release t .again))
  | released {t exit f} : LoaderMove fresh (.release t exit) (.reply (.flag f)) exit.next
  | raised {l i e} : e.isFailed = false → LoaderMove fresh l i (.raise e)
  | woken : LoaderMove fresh .poll .wake (.run .load)

theorem loaderMove (fresh : Token) (l : LoaderPc) (i : Input) : LoaderMove fresh l i (l.resume fresh i) := by
  unfold LoaderPc.resume
  split
  · exact .read
  · exact .absent
  · exact .raised rfl
  · exact .acquired
  · exact .notAcquired
  · exact .raised rfl
  · exact .recheckRead
  · exact .recheckAbsent
  · exact .failed rfl (.inl rfl)
  · rw [snapshotArgs_loaded]; exact .selected
  · exact .failed rfl (.inr rfl)
  · exact .seeded
  · exact .failed rfl (.inl rfl)
  · exact .released
  · exact .raised rfl
  · exact .woken
  · exact .raised rfl
  · exact .stay _ _

/-- What a loader returns it has just read, or read before. -/
theorem LoaderPc.resume_ret {fresh : Token} {l : LoaderPc} {i : Input} {b : Balance}
    (h : l.resume fresh i = .ret b) : i = .reply (.balance (some b)) ∧ l = .load ∨ l.held = some b := by
  have hm := loaderMove fresh l i
  rw [h] at hm
  generalize hn : Next.ret b = n at hm
  cases hm with
  | read => cases hn; exact .inl ⟨rfl, rfl⟩
  | @released t exit f =>
    cases exit <;> cases hn
    exact .inr rfl
  | _ => cases hn

theorem LoaderPc.resume_held {fresh : Token} {l l' : LoaderPc} {i : Input} {b : Balance}
    (h : l.resume fresh i = .run l') (hb : l'.held = some b) :
    l.held = some b ∨ i = .reply (.balance (some b)) ∧ ∃ t, l = .recheck t := by
  have hm := loaderMove fresh l i
  rw [h] at hm
  generalize hn : Next.run (α := Balance) l' = n at hm
  cases hm with
  | stay => cases hn; exact .inl hb
  | recheckRead => cases hn; cases hb; exact .inr ⟨rfl, _, rfl⟩
  | @released t exit f =>
    cases exit <;> cases hn
    cases hb
  | _ => cases hn <;> cases hb

theorem LoaderPc.resume_seed {fresh t : Token} {l : LoaderPc} {i : Input} {b : Balance}
    (h : l.resume fresh i = .run (.seed t b)) :
    l = .seed t b ∨ l = .select t ∧ ∃ row, i = .row (some row) ∧ b = row.getD .zero := by
  have hm := loaderMove fresh l i
  rw [h] at hm
  generalize hn : Next.run (α := Balance) (LoaderPc.seed t b) = n at hm
  cases hm with
  | stay => cases hn; exact .inl rfl
  | selected => cases hn; exact .inr ⟨rfl, _, rfl, rfl⟩
  | @released t exit f => cases exit <;> cases hn
  | _ => cases hn

theorem LoaderPc.resume_select {fresh t : Token} {l : LoaderPc} {i : Input}
    (h : l.resume fresh i = .run (.select t)) :
    l = .select t ∨ l = .recheck t ∧ i = .reply (.balance none) := by
  have hm := loaderMove fresh l i
  rw [h] at hm
  generalize hn : Next.run (α := Balance) (LoaderPc.select t) = n at hm
  cases hm with
  | stay => cases hn; exact .inl rfl
  | recheckAbsent => cases hn; exact .inr ⟨rfl, rfl⟩
  | @released t exit f => cases exit <;> cases hn
  | _ => cases hn

theorem LoaderPc.resume_raise {fresh : Token} {l : LoaderPc} {i : Input} {e : Exn}
    (h : l.resume fresh i = .raise e) : e.isFailed = false ∨ ∃ t, l = .release t (.raise e) := by
  have hm := loaderMove fresh l i
  rw [h] at hm
  generalize hn : Next.raise e = n at hm
  cases hm with
  | raised he => cases hn; exact .inl he
  | @released t exit f =>
    cases exit <;> cases hn
    exact .inr ⟨t, rfl⟩
  | _ => cases hn

theorem LoaderPc.resume_exit {fresh t : Token} {l : LoaderPc} {i : Input} {e : Exn}
    (h : l.resume fresh i = .run (.release t (.raise e))) :
    l = .release t (.raise e) ∨ e = .connection ∨ e = .database := by
  have hm := loaderMove fresh l i
  rw [h] at hm
  generalize hn : Next.run (α := Balance) (LoaderPc.release t (.raise e)) = n at hm
  cases hm with
  | stay => cases hn; exact .inl rfl
  | failed ht he => cases hn; exact .inr he
  | @released t exit f => cases exit <;> cases hn
  | _ => cases hn

/-! ## The refunder -/

/-- The loader of a refund that loads. -/
def RefundPc.loader : RefundPc → Option LoaderPc
  | .loading _ l => some l
  | _ => none

/-- The cases of a refund's resumption. -/
inductive RefundMove (fresh : Token) : RefundPc → Input → Next RefundPc Unit → Prop
  | stay (pc i) : RefundMove fresh pc i (.run pc)
  | resolved {n k r} : r = .ok ∨ r = .stale → RefundMove fresh (.calling n k) (.reply (.refund r)) (.ret ())
  | missing {n k} : RefundMove fresh (.calling n k) (.reply (.refund .missing)) (.run (.loading k .load))
  | again {n k} : RefundMove fresh (.calling n k) .lost (.run (.calling (n + 1) k))
  | load {k l l' i} : l.resume fresh i = .run l' → RefundMove fresh (.loading k l) i (.run (.loading k l'))
  | retry {k l i b} : l.resume fresh i = .ret b → RefundMove fresh (.loading (k + 1) l) i (.run (.calling 1 k))
  | raised {pc i e} : e.isFailed = false → RefundMove fresh pc i (.raise e)
  | loaderRaised {k l i e} : l.resume fresh i = .raise e → RefundMove fresh (.loading k l) i (.raise e)

theorem refundMove (cfg : Config) (fresh : Token) (pc : RefundPc) (i : Input) :
    RefundMove fresh pc i (pc.resume cfg fresh i) := by
  unfold RefundPc.resume
  split
  · next n k r =>
    cases r
    · exact .resolved (.inr rfl)
    · exact .missing
    · exact .resolved (.inl rfl)
  · exact .raised rfl
  · exact retrying_cases .again (.raised rfl)
  · next k l =>
    refine elim_cases (fun l' h => .load h) (fun b h => ?_) (fun e h => .loaderRaised h)
    cases k with
    | zero => exact .raised rfl
    | succ k => exact .retry h
  · exact .stay _ _

theorem RefundPc.resume_loader {cfg : Config} {fresh : Token} {pc pc' : RefundPc} {i : Input} {l' : LoaderPc}
    (h : pc.resume cfg fresh i = .run pc') (hl : pc'.loader = some l') :
    l' = .load ∨ ∃ l, pc.loader = some l ∧ (l' = l ∨ l.resume fresh i = .run l') := by
  have hm := refundMove cfg fresh pc i
  rw [h] at hm
  generalize hn : Next.run (α := Unit) pc' = n at hm
  cases hm with
  | stay => cases hn; exact .inr ⟨l', hl, .inl rfl⟩
  | missing => cases hn; cases hl; exact .inl rfl
  | load hr => cases hn; cases hl; exact .inr ⟨_, rfl, .inr hr⟩
  | _ => cases hn <;> cases hl

/-! ## The generation -/

/-- The snapshot a round of `_reserve` goes on with. -/
inductive Refreshes (fresh : Token) : GenPc → Input → Balance → Prop
  | loaded {k l i b} : l.resume fresh i = .ret b → Refreshes fresh (.loading k l) i b
  | conflict {v n k b} : Refreshes fresh (.reserving v n k) (.reply (.reserve (.conflict b))) b

/-- The record a duplicate is resolved with. -/
inductive Looks : GenPc → Input → GenerationHash → Prop
  | denied {e k g} : Looks (.denied e k) (.reply (.record (some g))) g
  | polled {k g} : Looks (.polling k) (.reply (.record (some g))) g
  | duplicate {v n k g} : g.reservationToken ≠ v.token →
      Looks (.reserving v n k) (.reply (.reserve (.dup g))) g

/-- The result a duplicate returns at a record that is done. -/
def duplicateResult (request : GenerationRequest) (g : GenerationHash) : GenerationResult where
  clientRequestId := request.clientRequestId
  content := (recordFromFields g).content.getD ""
  billedCostUsd := orMoney (recordFromFields g).billedCostUsd (recordFromFields g).authorizedCostUsd

/-- **The cases of a generation's resumption.** -/
inductive GenMove (request : GenerationRequest) (fresh : Token) (now : ℚ) : GenPc → Input → GenPc → Prop
  | stay (pc i) : GenMove request fresh now pc i pc
  | raised {pc i e} : e.isFailed = false → GenMove request fresh now pc i (.raised e)
  | denial {e k} : GenMove request fresh now (.denied e k) (.reply (.record none)) (.raised e)
  | load {k l l' i} : l.resume fresh i = .run l' → GenMove request fresh now (.loading k l) i (.loading k l')
  | loadRaised {k l i e} : l.resume fresh i = .raise e → GenMove request fresh now (.loading k l) i (.raised e)
  | reserve {pc i b k v} : Refreshes fresh pc i b → makeReservation request b fresh now = .ok v →
      GenMove request fresh now pc i (.reserving v 1 k)
  | denied {pc i b k e} : Refreshes fresh pc i b → makeReservation request b fresh now = .error e → e.isAccess →
      GenMove request fresh now pc i (.denied e k)
  | reserved {v n k r} : reserveOutcome v.token r = .reserved →
      GenMove request fresh now (.reserving v n k) (.reply (.reserve r)) (.calling v)
  | reserveMissing {v n k} :
      GenMove request fresh now (.reserving v n k) (.reply (.reserve .missing)) (.loading k .load)
  | reserveAgain {v n k} : GenMove request fresh now (.reserving v n k) .lost (.reserving v (n + 1) k)
  | wait {pc i g k} : Looks pc i g → g.status = .running → GenMove request fresh now pc i (.waiting k)
  | poll {k} : GenMove request fresh now (.waiting k) .wake (.polling k)
  | vanished {k} : GenMove request fresh now (.polling k) (.reply (.record none)) (.loading k .load)
  | done {pc i g} : Looks pc i g → g.status = .done →
      GenMove request fresh now pc i (.ended (.ok (duplicateResult request g)))
  | failed {pc i g m} : Looks pc i g → g.status = .failed →
      GenMove request fresh now pc i (.raised (.generationFailed m))
  | called {v} : GenMove request fresh now (.calling v) .called (.generating v)
  | settle {v s} {text : String} {bill k} : makeSettlement v text bill = .ok s →
      GenMove request fresh now (.generating v) (.provided (.result text bill)) (.settling s 1 k)
  | settled {s n k r} : r = .ok ∨ r = .done →
      GenMove request fresh now (.settling s n k) (.reply (.settle r)) (.ended (.ok s.result))
  | settleStale {s n k m} :
      GenMove request fresh now (.settling s n k) (.reply (.settle .stale)) (.raised (.generationFailed m))
  | settleMissing {s n k} :
      GenMove request fresh now (.settling s n k) (.reply (.settle .missing)) (.settleLoading s k .load)
  | settleAgain {s n k} : GenMove request fresh now (.settling s n k) .lost (.settling s (n + 1) k)
  | settleLoad {s k l l' i} : l.resume fresh i = .run l' →
      GenMove request fresh now (.settleLoading s k l) i (.settleLoading s k l')
  | settleLoadRaised {s k l i e} : l.resume fresh i = .raise e →
      GenMove request fresh now (.settleLoading s k l) i (.raised e)
  | settleRetry {s k l i b} : l.resume fresh i = .ret b →
      GenMove request fresh now (.settleLoading s (k + 1) l) i (.settling s 1 k)
  | refund {v i k reason after} : GenMove request fresh now (.generating v) i (.refunding v reason (.calling 1 k) after)
  | refunds {v reason pc pc' after i cfg} : pc.resume cfg fresh i = .run pc' →
      GenMove request fresh now (.refunding v reason pc after) i (.refunding v reason pc' after)
  | refunded {v reason n k r after} : r = .ok ∨ r = .stale →
      GenMove request fresh now (.refunding v reason (.calling n k) after) (.reply (.refund r)) (.raised after)
  | refundRaised {v reason k l after i e} : l.resume fresh i = .raise e →
      GenMove request fresh now (.refunding v reason (.loading k l) after) i (.raised e)

section GenMove

variable {request : GenerationRequest} {fresh : Token} {now : ℚ} {pc : GenPc} {i : Input}

theorem move_attempt {b : Balance} (h : Refreshes fresh pc i b) (k : ℕ) :
    GenMove request fresh now pc i (attemptReserve request fresh now k b) := by
  cases k with
  | zero => exact .raised rfl
  | succ k =>
    simp only [attemptReserve]
    split
    · next v hv => exact .reserve h hv
    · next e he =>
      split
      · next ha => exact .denied h he ha
      · exact .raised (makeReservation_error he)

theorem move_poll {g : GenerationHash} (h : Looks pc i g) (k : ℕ) :
    GenMove request fresh now pc i (pollRecord request.clientRequestId k (recordFromFields g)) := by
  have hs : (recordFromFields g).status = g.status := rfl
  unfold pollRecord
  split
  · next hd => exact .done h (hs ▸ hd)
  · next hf => exact .failed h (hs ▸ hf)
  · next hr => exact .wait h (hs ▸ hr)

theorem move_duplicate {g : GenerationHash} (h : Looks pc i g) (k : ℕ) :
    GenMove request fresh now pc i (resolveDuplicate request k (recordFromFields g)) := by
  unfold resolveDuplicate
  split
  · exact .raised rfl
  · exact move_poll h k

theorem move_settle (cfg : Config) (v : Reservation) (content : PyStr) (bill : Number) :
    GenMove request fresh now (.generating v) (.provided (.result content bill)) (startSettle cfg v content bill) := by
  rcases startSettle_cases cfg v content bill with ⟨e, h, he⟩ | ⟨text, s, k, rfl, hs, -, h⟩
  · rw [h]
    refine .raised ?_
    rcases he with he | he | rfl
    · exact (Exn.isMoney_only he).1
    · exact (Exn.isUnsendable_only he).1
    · rfl
  · rw [h]
    exact .settle hs

theorem move_refund (cfg : Config) (v : Reservation) (message : Option PyStr) (typeName : String) (isException : Bool) :
    GenMove request fresh now (.generating v) i (startRefund cfg v message typeName isException) := by
  rcases startRefund_cases cfg v message typeName isException with ⟨e, h, he⟩ | ⟨reason, k, -, h⟩
  · rw [h]
    refine .raised ?_
    rcases he with he | rfl
    · exact (Exn.isUnsendable_only he).1
    · rfl
  · rw [h]
    exact .refund

theorem genMove (cfg : Config) : GenMove request fresh now pc i (pc.resume cfg request fresh now i) := by
  unfold GenPc.resume
  split
  · exact elim_cases (fun l' h => .load h) (fun b h => move_attempt (.loaded h) _) fun e h => .loadRaised h
  · next v n k r =>
    cases r with
    | dup g =>
      by_cases hg : g.reservationToken = v.token
      · have ho : reserveOutcome v.token (.dup g) = .reserved := by simp [reserveOutcome, hg]
        simp only [ho]
        exact .reserved ho
      · have ho : reserveOutcome v.token (.dup g) = .duplicate g := by simp [reserveOutcome, hg]
        simp only [ho]
        exact move_duplicate (.duplicate hg) k
    | missing => exact .reserveMissing
    | conflict c => exact move_attempt .conflict k
    | ok v => exact .reserved rfl
  · exact .raised rfl
  · exact retrying_cases .reserveAgain (.raised rfl)
  · exact .denial
  · exact move_duplicate .denied _
  · exact .raised rfl
  · exact .raised rfl
  · exact .poll
  · exact .raised rfl
  · exact .vanished
  · exact move_poll .polled _
  · exact .called
  · exact move_settle cfg _ _ _
  · exact move_refund cfg _ _ _ _
  · exact move_refund cfg _ _ _ _
  · next s n k r =>
    cases r with
    | done => exact .settled (.inr rfl)
    | stale => exact .settleStale
    | missing => exact .settleMissing
    | ok => exact .settled (.inl rfl)
  · exact .raised rfl
  · exact retrying_cases .settleAgain (.raised rfl)
  · next s k l =>
    refine elim_cases (fun l' h => .settleLoad h) (fun b h => ?_) fun e h => .settleLoadRaised h
    cases k with
    | zero => exact .raised rfl
    | succ k => exact .settleRetry h
  · next v reason pc after =>
    have hm := refundMove cfg fresh pc i
    refine elim_cases (fun pc' h => .refunds h) (fun _ h => ?_) (fun e h => ?_)
    · rw [h] at hm
      cases hm with
      | resolved hr => exact .refunded hr
    · rw [h] at hm
      cases hm with
      | raised he => exact .raised he
      | loaderRaised h => exact .refundRaised h
  · exact .stay _ _

end GenMove

/-! ## The other calls -/

/-- The cases of a top-up's resumption. -/
inductive TopUpMove (fresh : Token) : TopUpPc → Input → TopUpPc → Prop
  | stay (pc i) : TopUpMove fresh pc i pc
  | raised {pc i e} : TopUpMove fresh pc i (.raised e)
  | done {t n k r} : r = .ok ∨ r = .dup → TopUpMove fresh (.calling t n k) (.reply (.topUp r)) (.ended (.ok ()))
  | missing {t n k} : TopUpMove fresh (.calling t n k) (.reply (.topUp .missing)) (.loading t k .load)
  | again {t n k} : TopUpMove fresh (.calling t n k) .lost (.calling t (n + 1) k)
  | load {t k l l' i} : l.resume fresh i = .run l' → TopUpMove fresh (.loading t k l) i (.loading t k l')
  | retry {t k l i b} : l.resume fresh i = .ret b → TopUpMove fresh (.loading t (k + 1) l) i (.calling t 1 k)

theorem topUpMove (cfg : Config) (fresh : Token) (pc : TopUpPc) (i : Input) :
    TopUpMove fresh pc i (pc.resume cfg fresh i) := by
  unfold TopUpPc.resume
  split
  · next t n k r =>
    cases r with
    | dup => exact .done (.inr rfl)
    | missing => exact .missing
    | ok => exact .done (.inl rfl)
  · exact .raised
  · exact retrying_cases .again .raised
  · next t k l =>
    refine elim_cases (fun l' h => .load h) (fun b h => ?_) fun e h => .raised
    cases k with
    | zero => exact .raised
    | succ k => exact .retry h
  · exact .stay _ _

/-- The cases of a reaper's resumption. -/
inductive ReapMove (cfg : Config) (fresh : Token) : ReapPc → Input → ReapPc → Prop
  | stay (pc i) : ReapMove cfg fresh pc i pc
  | raised {pc i e} : ReapMove cfg fresh pc i (.raised e)
  | next {pc i todo k} : ReapMove cfg fresh pc i (.next todo k)
  | forget {pc i id todo k n} : ReapMove cfg fresh pc i (.forgetting id todo k n)
  | refund {id todo k g a n} : g.status = .running → ReapPc.refundArgs id (recordFromFields g) = .ok a →
      ReapMove cfg fresh (.reading id todo k) (.reply (.record (some g))) (.refunding a (.calling 1 n) todo k)
  | refunds {a pc pc' todo k i} : pc.resume cfg fresh i = .run pc' →
      ReapMove cfg fresh (.refunding a pc todo k) i (.refunding a pc' todo k)

theorem reapMove (cfg : Config) (fresh : Token) (pc : ReapPc) (i : Input) :
    ReapMove cfg fresh pc i (pc.resume cfg fresh i) := by
  unfold ReapPc.resume
  split
  · exact .next
  · exact .raised
  · exact .raised
  · exact .forget
  · next id todo k g =>
    split
    · exact .forget
    · next hr =>
      unfold ReapPc.startRefund
      split
      · exact .raised
      · next a ha =>
        cases cfg.reserveMaxAttempts with
        | zero => exact .raised
        | succ n => exact .refund (not_not.mp hr) ha
  · exact .next
  · exact retrying_cases .forget .raised
  · exact elim_cases (fun pc' h => .refunds h) (fun _ _ => .next) fun _ _ => .raised
  · exact .stay _ _

/-- The cases of a flush's resumption. -/
inductive FlushMove : FlushPc → Input → FlushPc → Prop
  | stay (pc i) : FlushMove pc i pc
  | raised {pc i e} : FlushMove pc i (.raised e)
  | nothing : FlushMove .picking (.reply (.users [])) (.ended (.ok 0))
  | picked {users} : FlushMove .picking (.reply (.users users)) (.load users [] users)
  | read {users u todo snapshots b} : FlushMove (.loading users (u :: todo) snapshots) (.reply (.balance b))
      (.load users (snapshots ++ (b.map (u, ·)).toList) todo)
  | committed {users rows written rejected} : FlushMove (.committing users rows)
      (.committed (some (written, rejected))) (.repair users rows written.length rejected)
  | repaired {users rows row todo written n f} : FlushMove (.repairing users rows row todo written n)
      (.reply (.flag f)) (.repair users rows written todo)
  | again {users rows row todo written n} : FlushMove (.repairing users rows row todo written n) .lost
      (.repairing users rows row todo written (n + 1))
  | cleared {user todo written f} : FlushMove (.clearing user todo written) (.reply (.flag f)) (.clear written todo)

theorem flushMove (cfg : Config) (pc : FlushPc) (i : Input) : FlushMove pc i (pc.resume cfg i) := by
  unfold FlushPc.resume
  split
  · next users =>
    cases users with
    | nil => exact .nothing
    | cons u users => exact .picked
  · exact .read
  · exact .committed
  · exact .raised
  · exact .repaired
  · exact retrying_cases .again .raised
  · exact .cleared
  · exact .raised
  · exact .raised
  · exact .raised
  · exact .stay _ _

end GenerationBalance
