/-
No call goes on for ever. Every loop of a call has its rounds, every retry its
attempts, every batch its limit; what is not counted is how often the call sleeps,
and how often a balance that it has just loaded is dropped again. What a call has
left to do is a potential: each of its steps takes one off, a sleep and a dropped
balance add to it.
-/
import GenerationBalance.ColdLoad

namespace GenerationBalance

open Transition

/-! ## What a call hears -/

/-- The users whose balances are hot. -/
def Redis.isHot (ρ : Redis) (u : UserId) : Bool := (ρ.bal.get u).isSome

/-- What an `await` may give, as far as the way of a call depends on it. `hot` are the users whose
balances are hot afterwards. -/
inductive Awaited (hot : UserId → Bool) : Action → Input → Prop
  | balance {u b} : b.isSome = hot u → Awaited hot (.call (.load u)) (.reply (.balance b))
  | record {id g} : Awaited hot (.call (.getGeneration id)) (.reply (.record g))
  | ids {cutoff limit ids} : ids.length ≤ limit → Awaited hot (.call (.staleInflight cutoff limit)) (.reply (.ids ids))
  | users {limit users} : users.length ≤ limit → Awaited hot (.call (.dirtyUsers limit)) (.reply (.users users))
  | locked {u t f} : Awaited hot (.call (.tryAcquireLoadLock u t)) (.reply (.flag f))
  | released {u t f} : Awaited hot (.call (.releaseLoadLock u t)) (.reply (.flag f))
  | seeded {u b f} : hot u = true → Awaited hot (.call (.seedIfAbsent u b)) (.reply (.flag f))
  | advanced {u e n f} : Awaited hot (.call (.advanceVersion u e n)) (.reply (.flag f))
  | cleared {u v f} : Awaited hot (.call (.clearDirty u v)) (.reply (.flag f))
  | forgot {id f} : Awaited hot (.call (.forgetInflight id)) (.reply (.flag f))
  | reserved {a r} : Awaited hot (.call (.reserve a)) (.reply (.reserve r))
  | settled {a r} : Awaited hot (.call (.settle a)) (.reply (.settle r))
  | refunded {a r} : Awaited hot (.call (.refund a)) (.reply (.refund r))
  | toppedUp {a r} : Awaited hot (.call (.topUp a)) (.reply (.topUp r))
  | reserveError {a e} : Awaited hot (.call (.reserve a)) (.reply (.error e))
  | settleError {a e} : Awaited hot (.call (.settle a)) (.reply (.error e))
  | refundError {a e} : Awaited hot (.call (.refund a)) (.reply (.error e))
  | topUpError {a e} : Awaited hot (.call (.topUp a)) (.reply (.error e))
  | lost {c} : Awaited hot (.call c) .lost
  | row {u r} : Awaited hot (.select u) (.row r)
  | committed {rows answer} : answer.2.length ≤ rows.length → Awaited hot (.commit rows) (.committed (some answer))
  | rolledBack {rows} : Awaited hot (.commit rows) (.committed none)
  | called {request} : Awaited hot (.provider request) .called
  | provided {o} : Awaited hot .answer (.provided o)
  | unanswered : Awaited hot .answer .timeout
  | timeout : Awaited hot .wait .timeout
  | wake : Awaited hot .wait .wake

theorem writeRows_rejected {rows : List (UserId × Balance)} {pg pg' : Rows} {answer : List UserId × List Rejected}
    (h : writeRows rows pg = some (answer, pg')) : answer.2.length ≤ rows.length := by
  obtain ⟨⟨written, pg''⟩, -, he⟩ := Option.map_eq_some_iff.mp h
  cases he
  rw [List.length_map]
  exact List.length_filter_le _ _

/-- What Redis answers, and what is hot then. -/
theorem exec_awaited {pick : List UserId} {ρ ρ' : Redis} {c : Call} {r : Reply} (h : exec pick ρ c = some (r, ρ')) :
    Awaited ρ'.isHot (.call c) (.reply r) := by
  have script : ∀ {α : Type} {f : α → Reply} {x : Except ScriptError α × Redis},
      some (scriptReply f x) = some (r, ρ') → (∃ a, r = f a) ∨ ∃ e, r = .error e := by
    intro α f x h
    rcases x with ⟨e | a, ρ₁⟩
    · cases h
      exact .inr ⟨e, rfl⟩
    · cases h
      exact .inl ⟨a, rfl⟩
  cases c with
  | load u => cases h; exact .balance rfl
  | getGeneration id => cases h; exact .record
  | staleInflight cutoff limit =>
    cases h
    exact .ids (by rw [Redis.staleInflight_eq, List.length_take]; exact min_le_left _ _)
  | dirtyUsers limit =>
    simp only [exec] at h
    split at h
    · next hp => cases h; exact .users (by rw [hp.2.2]; exact min_le_left _ _)
    · cases h
  | tryAcquireLoadLock u t =>
    simp only [exec] at h
    split at h <;> cases h <;> exact .locked
  | releaseLoadLock u t => cases h; exact .released
  | seedIfAbsent u b =>
    have hok := exec_ok h (by cases h; rfl)
    cases hok with
    | seeded => exact .seeded (by rw [Redis.isHot, Redis.putBalance_get]; rfl)
    | notSeeded hb => exact .seeded (by rw [Redis.isHot, hb]; rfl)
  | advanceVersion u e n => cases h; exact .advanced
  | clearDirty u v => cases h; exact .cleared
  | forgetInflight id => cases h; exact .forgot
  | reserve a => rcases script h with ⟨a, rfl⟩ | ⟨e, rfl⟩; exacts [.reserved, .reserveError]
  | settle a => rcases script h with ⟨a, rfl⟩ | ⟨e, rfl⟩; exacts [.settled, .settleError]
  | refund a => rcases script h with ⟨a, rfl⟩ | ⟨e, rfl⟩; exacts [.refunded, .refundError]
  | topUp a => rcases script h with ⟨a, rfl⟩ | ⟨e, rfl⟩; exacts [.toppedUp, .topUpError]

theorem Given.awaited {cfg : Config} {s s' : System} {l : Label} {p : ℕ} {i : Input} (h : Given cfg s s' l p i) :
    Awaited s'.redis.isHot ((s.procs p).action cfg) i := by
  cases h with
  | reply hc he => rw [hc]; exact exec_awaited he
  | lost hc => rw [hc]; exact .lost
  | feed hf =>
    generalize s'.pg = pg at hf
    cases hf with
    | row ha | noRow ha => rw [ha]; exact .row
    | committed ha hw => rw [ha]; exact .committed (writeRows_rejected hw)
    | lostCommit ha | noCommit ha => rw [ha]; exact .rolledBack
    | called ha => rw [ha]; exact .called
    | provided ha => rw [ha]; exact .provided
    | timeout ha => rcases ha with ha | ha <;> rw [ha] <;> constructor
    | wake ha => rw [ha]; exact .wake

/-! ## What is left to do -/

/-- What a sleep adds. -/
def Input.credit : Input → ℕ
  | .wake => 7
  | _ => 0

/-- What a part of a call has left after an input. -/
def Next.work {σ α : Type} (w : σ → ℕ) (n : Next σ α) : ℕ := n.elim w (fun _ => 0) fun _ => 0

theorem Next.work_elim {σ α τ : Type} {n : Next σ α} {v : σ → ℕ} {w : τ → ℕ} {run : σ → τ} {ret : α → τ}
    {raise : Exn → τ} {k : ℕ} (hrun : ∀ x, w (run x) ≤ k + v x) (hret : ∀ a, w (ret a) ≤ k)
    (hraise : ∀ e, w (raise e) ≤ k) : w (n.elim run ret raise) ≤ k + n.work v := by
  cases n with
  | run x => exact hrun x
  | ret a => exact hret a
  | raise e => exact hraise e

/-- A retry has an attempt less. -/
theorem retrying_work {τ : Type} {w : τ → ℕ} {cfg : Config} {again : ℕ → τ} {raise : Exn → τ} {k : ℕ} (attempt : ℕ)
    (hk : 0 < k) (hagain : ∀ n, w (again n) ≤ cfg.retryAttempts - n + k) (hraise : w (raise .connection) = 0) :
    w (cfg.retrying attempt again raise) + 1 ≤ cfg.retryAttempts - attempt + k := by
  unfold Config.retrying
  split
  · omega
  · have hless := hagain (attempt + 1)
    omega

/-- What a loader has left, when its user's balance is hot or is not. -/
def LoaderPc.work (hot : Bool) : LoaderPc → ℕ
  | .load => if hot then 1 else 7
  | .tryLock _ => 6
  | .recheck _ => 5
  | .select _ => 4
  | .seed _ _ => 3
  | .release _ .again => if hot then 2 else 8
  | .release _ _ | .poll => 1

theorem LoaderPc.work_load_le (hot : Bool) : LoaderPc.load.work hot ≤ 7 := by
  cases hot <;> simp [work]

/-- A balance that is there leaves no more to do. -/
theorem LoaderPc.work_le {hot hot' : Bool} (h : hot = true → hot' = true) (l : LoaderPc) :
    l.work hot' ≤ l.work hot := by
  cases l with
  | load => cases hot <;> cases hot' <;> simp_all [work]
  | release t exit => cases exit <;> cases hot <;> cases hot' <;> simp_all [work]
  | _ => simp [work]

/-- A balance that is dropped leaves at most a cold load more. -/
theorem LoaderPc.work_le_add (hot hot' : Bool) (l : LoaderPc) : l.work hot' ≤ l.work hot + 6 := by
  cases l with
  | load => cases hot <;> cases hot' <;> simp [work]
  | release t exit => cases exit <;> cases hot <;> cases hot' <;> simp [work]
  | _ => simp [work]

theorem LoaderPc.work_resume {hot : UserId → Bool} {u : UserId} {l : LoaderPc} {i : Input} (fresh : Token)
    (h : Awaited hot (l.action u) i) : (l.resume fresh i).work (work (hot u)) + 1 ≤ l.work (hot u) + i.credit := by
  cases l with
  | load =>
    cases h with
    | @balance _ b hb => cases b <;> simp_all [resume, Next.work, Next.elim, work, Input.credit]
    | lost => cases hot u <;> simp [resume, Next.work, Next.elim, work, Input.credit]
  | tryLock t =>
    cases h with
    | @locked _ _ f => cases f <;> simp [resume, Next.work, Next.elim, work, Input.credit]
    | lost => simp [resume, Next.work, Next.elim, work, Input.credit]
  | recheck t =>
    cases h with
    | @balance _ b hb => cases b <;> simp [resume, Next.work, Next.elim, work, Input.credit]
    | lost => simp [resume, Next.work, Next.elim, work, Input.credit]
  | select t =>
    cases h with
    | @row _ r => cases r <;> simp [resume, Next.work, Next.elim, work, Input.credit]
  | seed t b =>
    cases h with
    | seeded hu => simp [resume, Next.work, Next.elim, work, Input.credit, hu]
    | lost => simp [resume, Next.work, Next.elim, work, Input.credit]
  | release t exit =>
    cases h with
    | released =>
      cases exit <;> cases hot u <;> simp [resume, Exit.next, Next.work, Next.elim, work, Input.credit]
    | lost => cases exit <;> cases hot u <;> simp [resume, Next.work, Next.elim, work, Input.credit]
  | poll =>
    cases h with
    | timeout => simp [resume, Next.work, Next.elim, work, Input.credit]
    | wake => cases hot u <;> simp [resume, Next.work, Next.elim, work, Input.credit]

/-- A round of a loop: a request with its attempts, and a cold load. -/
def Config.round (cfg : Config) : ℕ := cfg.retryAttempts + 9

def RefundPc.work (cfg : Config) (hot : Bool) : RefundPc → ℕ
  | .calling attempt rounds => (cfg.retryAttempts - attempt) + 9 + rounds * cfg.round
  | .loading rounds l => rounds * cfg.round + l.work hot

theorem refundLoop_work (cfg : Config) (hot : Bool) (rounds : ℕ) :
    (refundLoop rounds).work (RefundPc.work cfg hot) ≤ rounds * cfg.round := by
  cases rounds with
  | zero => exact Nat.zero_le _
  | succ k =>
    simp only [refundLoop, Next.work, Next.elim, RefundPc.work, Nat.succ_mul, Config.round]
    omega

theorem RefundPc.work_resume {hot : UserId → Bool} {a : RefundArgs} {pc : RefundPc} {i : Input} (cfg : Config)
    (fresh : Token) (h : Awaited hot (pc.action a) i) :
    (pc.resume cfg fresh i).work (work cfg (hot a.userId)) + 1 ≤ pc.work cfg (hot a.userId) + i.credit := by
  cases pc with
  | calling n k =>
    cases h with
    | @refunded _ r =>
      have hload := LoaderPc.work_load_le (hot a.userId)
      cases r <;> simp [resume, refundOutcome, Next.work, Next.elim, work, Input.credit] <;> omega
    | refundError => simp [resume, Next.work, Next.elim, work, Input.credit]; omega
    | lost =>
      simp only [resume]
      refine Nat.le_trans (retrying_work (w := fun m : Next RefundPc Unit => m.work (work cfg (hot a.userId)))
        (k := 9 + k * cfg.round) n (by omega) (fun m => (Nat.add_assoc ..).le) rfl) ?_
      simp only [work, Input.credit]
      omega
  | loading k l =>
    have hl := LoaderPc.work_resume fresh h
    refine (Nat.succ_le_succ (Next.work_elim (w := fun m : Next RefundPc Unit => m.work (work cfg (hot a.userId)))
      (v := LoaderPc.work (hot a.userId)) (k := k * cfg.round) (fun l' => le_refl _)
      (fun b => refundLoop_work cfg _ k) fun e => Nat.zero_le _)).trans ?_
    simp only [work]
    omega

/-! ## Generations -/

/-- What reserving leaves to do once it has succeeded. -/
def Config.reserved (cfg : Config) : ℕ := cfg.reserveMaxAttempts * cfg.round + 2

def GenPc.work (cfg : Config) (hot : UserId → Bool) (request : GenerationRequest) : GenPc → ℕ
  | .loading rounds l => cfg.reserved + rounds * cfg.round + l.work (hot request.userId)
  | .reserving _ attempt rounds => cfg.reserved + (cfg.retryAttempts - attempt) + 9 + rounds * cfg.round
  | .denied _ rounds | .polling rounds => cfg.reserved + rounds * cfg.round + 9
  | .waiting rounds => cfg.reserved + rounds * cfg.round + 8
  | .calling _ => cfg.reserved
  | .generating _ => cfg.reserveMaxAttempts * cfg.round + 1
  | .settling _ attempt rounds => (cfg.retryAttempts - attempt) + 9 + rounds * cfg.round
  | .settleLoading _ rounds l => rounds * cfg.round + l.work (hot request.userId)
  | .refunding v _ pc _ => pc.work cfg (hot v.request.userId)
  | .ended _ => 0

section GenPc

variable {cfg : Config} {hot : UserId → Bool} {request : GenerationRequest}

theorem attemptReserve_work (fresh : Token) (now : ℚ) (rounds : ℕ) (b : Balance) :
    (attemptReserve request fresh now rounds b).work cfg hot request ≤ cfg.reserved + rounds * cfg.round := by
  cases rounds with
  | zero => exact Nat.zero_le _
  | succ k =>
    simp only [attemptReserve, Nat.succ_mul]
    split
    · simp only [GenPc.work, Config.round]
      omega
    · split
      · simp only [GenPc.work, Config.round]
        omega
      · exact Nat.zero_le _

theorem pollRecord_work (id : RequestId) (rounds : ℕ) (record : GenerationRecord) :
    (pollRecord id rounds record).work cfg hot request ≤ cfg.reserved + rounds * cfg.round + 8 := by
  unfold pollRecord
  split
  · exact Nat.zero_le _
  · exact Nat.zero_le _
  · exact le_refl _

theorem resolveDuplicate_work (rounds : ℕ) (record : GenerationRecord) :
    (resolveDuplicate request rounds record).work cfg hot request ≤ cfg.reserved + rounds * cfg.round + 8 := by
  unfold resolveDuplicate
  split
  · exact Nat.zero_le _
  · exact pollRecord_work _ _ _

theorem settleLoop_work (s : Settlement) (rounds : ℕ) :
    (settleLoop s rounds).work cfg hot request ≤ rounds * cfg.round := by
  cases rounds with
  | zero => exact Nat.zero_le _
  | succ k =>
    simp only [settleLoop, GenPc.work, Nat.succ_mul, Config.round]
    omega

theorem startSettle_work (v : Reservation) (content : PyStr) (bill : Number) :
    (startSettle cfg v content bill).work cfg hot request ≤ cfg.reserveMaxAttempts * cfg.round := by
  rcases startSettle_cases cfg v content bill with ⟨e, h, -⟩ | ⟨text, s, k, -, -, hk, h⟩
  · rw [h]
    exact Nat.zero_le _
  · rw [h, hk]
    exact settleLoop_work s (k + 1)

theorem startRefund_work (v : Reservation) (message : Option PyStr) (typeName : String) (isException : Bool) :
    (startRefund cfg v message typeName isException).work cfg hot request ≤ cfg.reserveMaxAttempts * cfg.round := by
  rcases startRefund_cases cfg v message typeName isException with ⟨e, h, -⟩ | ⟨reason, k, hk, h⟩
  · rw [h]
    exact Nat.zero_le _
  · rw [h, hk]
    exact refundLoop_work cfg (hot v.request.userId) (k + 1)

theorem GenPc.work_resume {pc : GenPc} {i : Input} (fresh : Token) (now : ℚ) (h : Awaited hot (pc.action request) i) :
    (pc.resume cfg request fresh now i).work cfg hot request + 1 ≤ pc.work cfg hot request + i.credit := by
  cases pc with
  | loading k l =>
    have hl := LoaderPc.work_resume fresh h
    refine (Nat.succ_le_succ (Next.work_elim (w := GenPc.work cfg hot request) (v := LoaderPc.work (hot request.userId))
      (k := cfg.reserved + k * cfg.round) (fun l' => le_refl _) (fun b => attemptReserve_work fresh now k b)
      fun e => Nat.zero_le _)).trans ?_
    simp only [work]
    omega
  | reserving v n k =>
    cases h with
    | @reserved _ r =>
      cases r with
      | dup g =>
        simp only [resume, reserveOutcome]
        by_cases hg : g.reservationToken = v.token
        · simp only [if_pos hg, work, Input.credit]
          omega
        · simp only [if_neg hg]
          refine (Nat.succ_le_succ (resolveDuplicate_work k _)).trans ?_
          simp only [work, Input.credit]
          omega
      | missing =>
        have hload := LoaderPc.work_load_le (hot request.userId)
        simp only [resume, reserveOutcome, work, Input.credit]
        omega
      | conflict c =>
        refine (Nat.succ_le_succ (attemptReserve_work fresh now k c)).trans ?_
        simp only [work, Input.credit]
        omega
      | ok v =>
        simp only [resume, reserveOutcome, work, Input.credit]
        omega
    | reserveError =>
      simp only [resume, work, Input.credit]
      omega
    | lost =>
      simp only [resume]
      refine Nat.le_trans (retrying_work (w := GenPc.work cfg hot request) (k := cfg.reserved + 9 + k * cfg.round) n
        (by omega) (fun m => ?_) rfl) ?_
      · simp only [work]
        omega
      · simp only [work, Input.credit]
        omega
  | denied e k =>
    cases h with
    | @record _ g =>
      cases g with
      | none =>
        simp only [resume, work, Input.credit]
        omega
      | some g => exact Nat.succ_le_succ (resolveDuplicate_work k _)
    | lost =>
      simp only [resume, work, Input.credit]
      omega
  | waiting k =>
    cases h with
    | timeout =>
      simp only [resume, work, Input.credit]
      omega
    | wake =>
      simp only [resume, work, Input.credit]
      omega
  | polling k =>
    cases h with
    | @record _ g =>
      cases g with
      | none =>
        have hload := LoaderPc.work_load_le (hot request.userId)
        simp only [resume, work, Input.credit]
        omega
      | some g => exact Nat.succ_le_succ (pollRecord_work _ k _)
    | lost =>
      simp only [resume, work, Input.credit]
      omega
  | calling v =>
    cases h with
    | called => exact le_refl _
  | generating v =>
    cases h with
    | @provided o =>
      cases o with
      | result content bill => exact Nat.succ_le_succ (startSettle_work v _ _)
      | raised message typeName isException => exact Nat.succ_le_succ (startRefund_work v _ _ _)
    | unanswered => exact Nat.succ_le_succ (startRefund_work v _ _ _)
  | settling s n k =>
    cases h with
    | @settled _ r =>
      have hload := LoaderPc.work_load_le (hot request.userId)
      cases r <;> simp only [resume, settleOutcome, work, Input.credit] <;> omega
    | settleError =>
      simp only [resume, work, Input.credit]
      omega
    | lost =>
      simp only [resume]
      refine Nat.le_trans (retrying_work (w := GenPc.work cfg hot request) (k := 9 + k * cfg.round) n (by omega)
        (fun m => (Nat.add_assoc ..).le) rfl) ?_
      simp only [work, Input.credit]
      omega
  | settleLoading s k l =>
    have hl := LoaderPc.work_resume fresh h
    refine (Nat.succ_le_succ (Next.work_elim (w := GenPc.work cfg hot request) (v := LoaderPc.work (hot request.userId))
      (k := k * cfg.round) (fun l' => le_refl _) (fun b => settleLoop_work s k) fun e => Nat.zero_le _)).trans ?_
    simp only [work]
    omega
  | refunding v reason pc after =>
    have hp : (pc.resume cfg fresh i).work (RefundPc.work cfg (hot v.request.userId)) + 1 ≤
        pc.work cfg (hot v.request.userId) + i.credit := RefundPc.work_resume cfg fresh h
    refine (Nat.succ_le_succ (Next.work_elim (w := GenPc.work cfg hot request)
      (v := RefundPc.work cfg (hot v.request.userId)) (k := 0) (fun pc' => (Nat.zero_add _).ge) (fun _ => le_refl _)
      fun e => le_refl _)).trans ?_
    simp only [work]
    omega
  | ended r => cases h

end GenPc

/-! ## The other calls -/

def TopUpPc.work (cfg : Config) (hot : UserId → Bool) : TopUpPc → ℕ
  | .calling _ attempt rounds => (cfg.retryAttempts - attempt) + 9 + rounds * cfg.round
  | .loading t rounds l => rounds * cfg.round + l.work (hot t.args.userId)
  | .ended _ => 0

def BalancePc.work (hot : Bool) : BalancePc → ℕ
  | .loading l => l.work hot
  | .ended _ => 0

/-- What one stale reservation takes. -/
def Config.staleWork (cfg : Config) : ℕ := cfg.retryAttempts + 2 + cfg.reserveMaxAttempts * cfg.round

def ReapPc.work (cfg : Config) (hot : UserId → Bool) : ReapPc → ℕ
  | .listing _ => 1 + cfg.reapBatchSize * cfg.staleWork
  | .reading _ todo _ => (todo.length + 1) * cfg.staleWork
  | .forgetting _ todo _ attempt => (cfg.retryAttempts - attempt) + 1 + todo.length * cfg.staleWork
  | .refunding a pc todo _ => pc.work cfg (hot a.userId) + todo.length * cfg.staleWork
  | .ended _ => 0

/-- What one rejected row takes. -/
def Config.rowWork (cfg : Config) : ℕ := cfg.retryAttempts + 1

def FlushPc.work (cfg : Config) : FlushPc → ℕ
  | .picking => 2 * cfg.flushBatchSize + cfg.flushBatchSize * cfg.rowWork + 2
  | .loading users todo snapshots =>
    todo.length + 1 + (snapshots.length + todo.length) * cfg.rowWork + users.length
  | .committing users rows => 1 + rows.length * cfg.rowWork + users.length
  | .repairing users _ _ todo _ attempt =>
    (cfg.retryAttempts - attempt) + 1 + todo.length * cfg.rowWork + users.length
  | .clearing _ todo _ => todo.length + 1
  | .ended _ => 0

section Calls

variable {cfg : Config} {hot : UserId → Bool}

theorem TopUpPc.loop_work (t : TopUp) (rounds : ℕ) : (loop t rounds).work cfg hot ≤ rounds * cfg.round := by
  cases rounds with
  | zero => exact Nat.zero_le _
  | succ k =>
    simp only [loop, work, Nat.succ_mul, Config.round]
    omega

theorem TopUpPc.work_resume {pc : TopUpPc} {i : Input} (fresh : Token) (h : Awaited hot pc.action i) :
    (pc.resume cfg fresh i).work cfg hot + 1 ≤ pc.work cfg hot + i.credit := by
  cases pc with
  | calling t n k =>
    cases h with
    | @toppedUp _ r =>
      have hload := LoaderPc.work_load_le (hot t.args.userId)
      cases r <;> simp only [resume, topUpOutcome, work, Input.credit] <;> omega
    | topUpError =>
      simp only [resume, work, raised, Input.credit]
      omega
    | lost =>
      simp only [resume]
      refine Nat.le_trans (retrying_work (w := TopUpPc.work cfg hot) (k := 9 + k * cfg.round) n (by omega)
        (fun m => (Nat.add_assoc ..).le) rfl) ?_
      simp only [work, Input.credit]
      omega
  | loading t k l =>
    have hl := LoaderPc.work_resume fresh h
    refine (Nat.succ_le_succ (Next.work_elim (w := TopUpPc.work cfg hot) (v := LoaderPc.work (hot t.args.userId))
      (k := k * cfg.round) (fun l' => le_refl _) (fun b => loop_work t k) fun e => Nat.zero_le _)).trans ?_
    simp only [work]
    omega
  | ended r => cases h

theorem BalancePc.work_resume {u : UserId} {pc : BalancePc} {i : Input} (fresh : Token)
    (h : Awaited hot (pc.action u) i) :
    (pc.resume fresh i).work (hot u) + 1 ≤ pc.work (hot u) + i.credit := by
  cases pc with
  | loading l =>
    have hl := LoaderPc.work_resume fresh h
    refine (Nat.succ_le_succ (Next.work_elim (w := work (hot u)) (v := LoaderPc.work (hot u)) (k := 0)
      (fun l' => (Nat.zero_add _).ge) (fun b => le_refl _) fun e => le_refl _)).trans ?_
    simp only [work]
    omega
  | ended r => cases h

theorem ReapPc.next_work (todo : List RequestId) (reaped : ℕ) :
    (next todo reaped).work cfg hot = todo.length * cfg.staleWork := by
  cases todo with
  | nil => exact (Nat.zero_mul _).symm
  | cons id todo => rfl

theorem ReapPc.startRefund_work (id : RequestId) (record : GenerationRecord) (todo : List RequestId) (reaped : ℕ) :
    (startRefund cfg id record todo reaped).work cfg hot ≤
      cfg.reserveMaxAttempts * cfg.round + todo.length * cfg.staleWork := by
  unfold startRefund
  split
  · exact Nat.zero_le _
  · next a ha =>
    have hloop := refundLoop_work cfg (hot a.userId) cfg.reserveMaxAttempts
    cases he : refundLoop cfg.reserveMaxAttempts with
    | run pc =>
      rw [he] at hloop
      exact Nat.add_le_add_right hloop _
    | ret => exact (next_work todo _).le.trans (Nat.le_add_left ..)
    | raise e => exact Nat.zero_le _

theorem ReapPc.work_resume {pc : ReapPc} {i : Input} (fresh : Token) (h : Awaited hot (pc.action cfg) i) :
    (pc.resume cfg fresh i).work cfg hot + 1 ≤ pc.work cfg hot + i.credit := by
  cases pc with
  | listing cutoff =>
    cases h with
    | @ids _ _ stale hle =>
      have hall := Nat.mul_le_mul_right cfg.staleWork hle
      simp only [resume, next_work]
      simp only [work, Input.credit]
      omega
    | lost =>
      simp only [resume, work, raised, Input.credit]
      omega
  | reading id todo k =>
    cases h with
    | @record _ g =>
      cases g with
      | none =>
        simp only [resume, work, Input.credit, Nat.succ_mul, Config.staleWork]
        omega
      | some g =>
        simp only [resume]
        split
        · simp only [work, Input.credit, Nat.succ_mul, Config.staleWork]
          omega
        · refine (Nat.succ_le_succ (startRefund_work id _ todo k)).trans ?_
          simp only [work, Input.credit, Nat.succ_mul, Config.staleWork]
          omega
    | lost =>
      simp only [resume, work, raised, Input.credit, Nat.succ_mul, Config.staleWork]
      omega
  | forgetting id todo k n =>
    cases h with
    | forgot =>
      simp only [resume, next_work]
      simp only [work, Input.credit]
      omega
    | lost =>
      simp only [resume]
      refine Nat.le_trans (retrying_work (w := ReapPc.work cfg hot) (k := 1 + todo.length * cfg.staleWork) n
        (by omega) (fun m => (Nat.add_assoc ..).le) rfl) ?_
      simp only [work, Input.credit]
      omega
  | refunding a pc todo k =>
    have hp := RefundPc.work_resume cfg fresh h
    refine (Nat.succ_le_succ (Next.work_elim (w := ReapPc.work cfg hot) (v := RefundPc.work cfg (hot a.userId))
      (k := todo.length * cfg.staleWork) (fun pc' => (Nat.add_comm ..).le) (fun _ => (next_work todo _).le)
      fun e => Nat.zero_le _)).trans ?_
    simp only [work]
    omega
  | ended r => cases h

theorem FlushPc.clear_work (written : ℕ) (users : List (UserId × ℤ)) :
    (clear written users).work cfg = users.length := by
  cases users <;> rfl

/-- Where the repairs go on: with a row that was rejected, or with clearing. -/
theorem FlushPc.repair_cases {P : FlushPc → Prop} {users : List UserId} {rows : List (UserId × Balance)}
    {written : ℕ} {rejected : List Rejected} (hclear : P (clear written (cleared users rows)))
    (hrow : ∀ row todo, todo.length < rejected.length → P (.repairing users rows row todo written 1)) :
    P (repair users rows written rejected) := by
  induction rejected with
  | nil => exact hclear
  | cons x todo ih =>
    obtain ⟨row, u, stored⟩ := x
    have hskip := ih fun row todo' h => hrow row todo' (Nat.lt_succ_of_lt h)
    cases stored with
    | none => exact hskip
    | some stored =>
      simp only [repair]
      split
      · exact hskip
      · exact hrow _ _ (Nat.lt_succ_self _)

/-- Where the reads go on: with the next user, with the transaction, or with clearing. -/
theorem FlushPc.load_cases {P : FlushPc → Prop} {users : List UserId} {snapshots : List (UserId × Balance)}
    {todo : List UserId} (hread : ∀ u rest, todo = u :: rest → P (.loading users (u :: rest) snapshots))
    (hcommit : P (.committing users snapshots)) (hclear : P (clear 0 (cleared users snapshots))) :
    P (load users snapshots todo) := by
  cases todo with
  | nil =>
    simp only [load, write]
    split
    · exact hclear
    · exact hcommit
  | cons u rest => exact hread u rest rfl

theorem FlushPc.repair_work (users : List UserId) (rows : List (UserId × Balance)) (written : ℕ)
    (rejected : List Rejected) :
    (repair users rows written rejected).work cfg ≤ rejected.length * cfg.rowWork + users.length := by
  refine repair_cases (P := fun pc => pc.work cfg ≤ _) ?_ fun row todo h => ?_
  · simp only [clear_work, cleared, List.length_map]
    omega
  · have hall := Nat.mul_le_mul_right cfg.rowWork (Nat.succ_le_of_lt h)
    rw [Nat.succ_mul] at hall
    have hrow : cfg.rowWork = cfg.retryAttempts + 1 := rfl
    simp only [work]
    omega

theorem FlushPc.load_work (users : List UserId) (snapshots : List (UserId × Balance)) (todo : List UserId) :
    (load users snapshots todo).work cfg ≤
      todo.length + 1 + (snapshots.length + todo.length) * cfg.rowWork + users.length := by
  refine load_cases (P := fun pc => pc.work cfg ≤ _) (fun u rest he => ?_) ?_ ?_
  · rw [he]
    exact le_refl _
  · have hall := Nat.mul_le_mul_right cfg.rowWork (Nat.le_add_right snapshots.length todo.length)
    simp only [work]
    omega
  · simp only [clear_work, cleared, List.length_map]
    omega

theorem FlushPc.work_resume {pc : FlushPc} {i : Input} (h : Awaited hot (pc.action cfg) i) :
    (pc.resume cfg i).work cfg + 1 ≤ pc.work cfg + i.credit := by
  cases pc with
  | picking =>
    cases h with
    | @users _ users hle =>
      simp only [resume]
      split
      · simp only [work, Input.credit]
        omega
      · have hall := Nat.mul_le_mul_right cfg.rowWork hle
        refine (Nat.succ_le_succ (load_work users [] users)).trans ?_
        simp only [work, Input.credit, List.length_nil, Nat.zero_add]
        omega
    | lost =>
      simp only [resume, work, raised, Input.credit]
      omega
  | loading users todo snapshots =>
    cases todo with
    | nil => cases h
    | cons u todo =>
      cases h with
      | @balance _ b hb =>
        refine (Nat.succ_le_succ (load_work users _ todo)).trans ?_
        have hlen : (b.map (u, ·)).toList.length ≤ 1 := by cases b <;> simp
        have hall := Nat.mul_le_mul_right cfg.rowWork
          (show snapshots.length + (b.map (u, ·)).toList.length + todo.length ≤ snapshots.length + (todo.length + 1) by
            omega)
        simp only [work, Input.credit, List.length_append, List.length_cons]
        omega
      | lost =>
        simp only [resume, work, raised, Input.credit]
        omega
  | committing users rows =>
    cases h with
    | @committed _ answer hle =>
      have hall := Nat.mul_le_mul_right cfg.rowWork hle
      refine (Nat.succ_le_succ (repair_work users rows _ answer.2)).trans ?_
      simp only [work, Input.credit]
      omega
    | rolledBack =>
      simp only [resume, work, raised, Input.credit]
      omega
  | repairing users rows row todo written n =>
    cases h with
    | advanced =>
      refine (Nat.succ_le_succ (repair_work users rows written todo)).trans ?_
      simp only [work, Input.credit]
      omega
    | lost =>
      simp only [resume]
      refine Nat.le_trans (retrying_work (w := FlushPc.work cfg) (k := 1 + todo.length * cfg.rowWork + users.length) n
        (by omega) (fun m => ?_) rfl) ?_
      · simp only [work]
        omega
      · simp only [work, Input.credit]
        omega
  | clearing user todo written =>
    cases h with
    | cleared =>
      simp only [resume, clear_work]
      simp only [work, Input.credit]
      omega
    | lost =>
      simp only [resume, work, raised, Input.credit]
      omega
  | ended r => cases h

end Calls

/-! ## Every call -/

def Proc.work (cfg : Config) (hot : UserId → Bool) : Proc → ℕ
  | .gen request pc => pc.work cfg hot request
  | .topUp _ pc => pc.work cfg hot
  | .balance u pc => pc.work (hot u)
  | .reap pc => pc.work cfg hot
  | .flush pc => pc.work cfg
  | .idle | .crashed => 0

/-- What a call takes, if it never sleeps and finds what it has loaded. -/
def Job.budget (cfg : Config) : Job → ℕ
  | .gen _ => 2 * (cfg.reserveMaxAttempts * cfg.round) + 9
  | .topUp _ => cfg.reserveMaxAttempts * cfg.round
  | .balance _ => 7
  | .reap _ => 1 + cfg.reapBatchSize * cfg.staleWork
  | .flush => 2 * cfg.flushBatchSize + cfg.flushBatchSize * cfg.rowWork + 2

theorem Job.start_work (cfg : Config) (hot : UserId → Bool) (job : Job) :
    (job.start cfg).work cfg hot ≤ job.budget cfg := by
  cases job with
  | gen request =>
    have hload := LoaderPc.work_load_le (hot request.userId)
    simp only [start, Proc.work, GenPc.start, budget]
    split
    · exact Nat.zero_le _
    · simp only [GenPc.work, Config.reserved]
      omega
  | topUp command =>
    simp only [start, Proc.work, budget]
    rcases TopUpPc.start_cases cfg command with ⟨e, h⟩ | ⟨t, k, -, hk, h⟩
    · rw [h]
      exact Nat.zero_le _
    · rw [h, hk]
      exact TopUpPc.loop_work t (k + 1)
  | balance u => exact LoaderPc.work_load_le _
  | reap now => exact le_refl _
  | flush => exact le_refl _

theorem Job.start_live (cfg : Config) (job : Job) : job.start cfg ≠ .idle := by
  cases job <;> simp [start]

theorem Proc.work_resume {cfg : Config} {hot : UserId → Bool} {st : Proc} {i : Input} (fresh : Token) (now : ℚ)
    (h : Awaited hot (st.action cfg) i) :
    (st.resume cfg fresh now i).work cfg hot + 1 ≤ st.work cfg hot + i.credit := by
  cases st with
  | gen request pc => exact GenPc.work_resume fresh now h
  | topUp command pc => exact TopUpPc.work_resume fresh h
  | balance u pc => exact BalancePc.work_resume fresh h
  | reap pc => exact ReapPc.work_resume fresh h
  | flush pc => exact FlushPc.work_resume h
  | idle | crashed => cases h

/-- Which balances are hot matters to a call only as far as it is loading one. -/
theorem Proc.work_frame {cfg : Config} {hot hot' : UserId → Bool} {st : Proc} {d : ℕ}
    (h : ∀ u l, st.loader = some (u, l) → l.work (hot' u) ≤ l.work (hot u) + d) :
    st.work cfg hot' ≤ st.work cfg hot + d := by
  cases st with
  | gen request pc =>
    cases pc with
    | loading k l | settleLoading s k l =>
      have hl := h _ l rfl
      simp only [work, GenPc.work]
      omega
    | refunding v reason pc after =>
      cases pc with
      | calling n k => exact Nat.le_add_right _ _
      | loading k l =>
        have hl := h _ l rfl
        simp only [work, GenPc.work, RefundPc.work]
        omega
    | _ => exact Nat.le_add_right _ _
  | topUp command pc =>
    cases pc with
    | loading t k l =>
      have hl := h _ l rfl
      simp only [work, TopUpPc.work]
      omega
    | _ => exact Nat.le_add_right _ _
  | balance u pc =>
    cases pc with
    | loading l => exact h _ l rfl
    | ended r => exact Nat.le_add_right _ _
  | reap pc =>
    cases pc with
    | refunding a pc todo k =>
      cases pc with
      | calling n k => exact Nat.le_add_right _ _
      | loading k l =>
        have hl := h _ l rfl
        simp only [work, ReapPc.work, RefundPc.work]
        omega
    | _ => exact Nat.le_add_right _ _
  | _ => exact Nat.le_add_right _ _

/-! ## Steps -/

/-- The call that goes on in a step. -/
def Label.mover : Label → Option ℕ
  | .exec p _ _ | .abandon p | .select p _ | .commit p _ | .provider p | .provided p _ | .timeout p | .wake p => some p
  | _ => none

/-- The call `p` goes on. -/
def moves (p : ℕ) (t : Trans System Label) : Bool := t.label.mover = some p

/-- The call `p` has slept. -/
def wakes (p : ℕ) (t : Trans System Label) : Bool :=
  match t.label with
  | .wake q => q = p
  | _ => false

/-- The balance is dropped that the call `p` is loading. -/
def drops (p : ℕ) (t : Trans System Label) : Bool :=
  match t.label with
  | .dropBalance u => (t.pre.procs p).loader.map Prod.fst = some u
  | _ => false

section Step

variable {cfg : Config} {s s' : System} {l : Label} {p : ℕ}

theorem StepCase.isHot (h : StepCase cfg s l s') {u : UserId} (hl : l ≠ .dropBalance u) (hu : s.redis.isHot u = true) :
    s'.redis.isHot u = true := by
  obtain ⟨b, hb⟩ := Option.isSome_iff_exists.mp hu
  cases h.store with
  | same _ he => rw [he]; exact hu
  | ran _ _ _ he _ =>
    obtain ⟨b', hb'⟩ := exec_present he hb
    rw [Redis.isHot, hb']
    rfl
  | expired _ he _ =>
    generalize s'.redis = ρ' at he ⊢
    cases he with
    | balance w =>
      have hw : u ≠ w := fun huw => hl (by rw [huw])
      rw [Redis.isHot, Table.get_del_of_ne _ hw]
      exact hu
    | _ => exact hu

/-- A call that goes on is given what it awaits. -/
theorem StepCase.moved (h : StepCase cfg s l s') (hl : l.mover = some p) :
    ∃ i now, Given cfg s s' l p i ∧ s'.procs p = (s.procs p).resume cfg ⟨p, s.draws⟩ now i ∧
      i.credit ≤ if wakes p ⟨s, l, s'⟩ then 7 else 0 := by
  cases h with
  | exec hc he => cases hl; exact ⟨_, _, .reply hc he rfl, Function.update_self .., Nat.zero_le _⟩
  | abandon hc => cases hl; exact ⟨_, _, .lost hc rfl rfl, Function.update_self .., Nat.zero_le _⟩
  | @feed _ q i pg hf =>
    have hq : q = p ∧ i.credit ≤ if wakes p ⟨s, l, { s with pg }.deliver cfg q 0 i⟩ then 7 else 0 := by
      cases hf with
      | wake => cases hl; exact ⟨rfl, by simp [wakes, Input.credit]⟩
      | _ => cases hl; exact ⟨rfl, Nat.zero_le _⟩
    obtain ⟨rfl, hi⟩ := hq
    exact ⟨i, 0, .feed hf rfl, Function.update_self .., hi⟩
  | spawn | late | crash => cases hl
  | expire he => cases he <;> cases hl

theorem StepCase.unmoved (h : StepCase cfg s l s') (hl : l.mover ≠ some p) (hp : s.procs p ≠ .idle) :
    s'.procs p = s.procs p ∨ s'.procs p = .crashed := by
  have other : ∀ {q : ℕ} {st : Proc}, q ≠ p → Function.update s.procs q st p = s.procs p := by
    intro q st hq
    exact Function.update_of_ne (Ne.symm hq) ..
  cases h with
  | spawn hi => exact .inl (other fun hq => hp (hq ▸ hi))
  | exec | abandon => exact .inl (other fun hq => hl (hq ▸ rfl))
  | @feed _ q i pg hf =>
    have hq : l.mover = some q := by cases hf <;> rfl
    exact .inl (other fun he => hl (he ▸ hq))
  | @crash q =>
    by_cases hq : q = p
    · subst hq
      exact .inr (Function.update_self ..)
    · exact .inl (other hq)
  | late | expire => exact .inl rfl

/-- **A step of a call takes one off what it has left**; only a sleep, and dropping the balance
that it is loading, add to that. -/
theorem StepCase.pays (h : StepCase cfg s l s') (hp : s.procs p ≠ .idle) :
    (s'.procs p).work cfg s'.redis.isHot + (if moves p ⟨s, l, s'⟩ then 1 else 0) ≤ (s.procs p).work cfg s.redis.isHot +
      ((if wakes p ⟨s, l, s'⟩ then 7 else 0) + if drops p ⟨s, l, s'⟩ then 6 else 0) := by
  have hframe : (s.procs p).work cfg s'.redis.isHot ≤
      (s.procs p).work cfg s.redis.isHot + if drops p ⟨s, l, s'⟩ then 6 else 0 := by
    refine Proc.work_frame fun u pc hpc => ?_
    by_cases hu : l = .dropBalance u
    · subst hu
      rw [if_pos (by simp [drops, hpc])]
      exact LoaderPc.work_le_add _ _ _
    · exact (LoaderPc.work_le (h.isHot hu) pc).trans (Nat.le_add_right _ _)
  by_cases hm : l.mover = some p
  · obtain ⟨i, now, hg, he, hi⟩ := h.moved hm
    have hwork := Proc.work_resume ⟨p, s.draws⟩ now hg.awaited
    rw [if_pos (by simp [moves, hm]), he]
    omega
  · rw [if_neg (by simp [moves, hm])]
    rcases h.unmoved hm hp with he | he
    · rw [he]
      omega
    · rw [he]
      exact Nat.zero_le _

/-- A call that was started is no longer idle. -/
theorem StepCase.live (h : StepCase cfg s l s') (hp : s.procs p ≠ .idle) : s'.procs p ≠ .idle := by
  cases h.goes p with
  | same he => rw [he]; exact hp
  | started _ hi => exact absurd hi hp
  | resumed _ _ he =>
    rw [he]
    cases hst : s.procs p with
    | idle => exact absurd hst hp
    | _ => simp [Proc.resume]
  | crashed _ he => rw [he]; simp

end Step

/-! ## Runs -/

section Runs

variable {cfg : Config} {s₀ s : System} {tr newer older : List (Trans System Label)} {t : Trans System Label} {p : ℕ}

/-- A call that is idle has not taken a step. -/
theorem Runs.unmoved (hr : Runs cfg s₀ tr s) (hp : s.procs p = .idle) : tr.countP (moves p) = 0 := by
  induction hr with
  | refl => rfl
  | @step tr s l s' _ hs ih =>
    have hcase := step_cases hs
    have hidle : s.procs p = .idle := by
      by_contra hne
      exact hcase.live hne hp
    have hm : l.mover ≠ some p := by
      intro hm
      obtain ⟨i, now, hg, -⟩ := hcase.moved hm
      exact hg.awaits (by rw [hidle]; rfl)
    rw [List.countP_cons, ih hidle]
    simp [moves, hm]

/-- From where a call is alive, its steps are paid for by what it has left there. -/
theorem Runs.paid (hr : Runs cfg s₀ tr s) (hp : s₀.procs p ≠ .idle) :
    tr.countP (moves p) ≤ (s₀.procs p).work cfg s₀.redis.isHot + 7 * tr.countP (wakes p) + 6 * tr.countP (drops p) := by
  have h := (Run.amortized (I := fun s => s.procs p ≠ .idle) (fun s => (s.procs p).work cfg s.redis.isHot)
    (fun t => if moves p t then 1 else 0) (fun t => (if wakes p t then 7 else 0) + if drops p t then 6 else 0) hr hp
    (fun hp hs => (step_cases hs).live hp) fun hp hs => (step_cases hs).pays hp).2
  rw [sum_map_countP, List.sum_map_add, sum_map_countP, sum_map_countP] at h
  omega

/-- A call has taken no step when it is started. -/
theorem Runs.started {job : Job} (hr : Runs cfg s₀ (newer ++ t :: older) s) (hl : t.label = .spawn p job) :
    Runs cfg t.post newer s ∧ t.post.procs p = job.start cfg ∧ t.post.redis = t.pre.redis ∧
      ∀ x ∈ t :: older, moves p x = false := by
  obtain ⟨hbefore, hs, hafter⟩ := hr.parts
  rw [hl] at hs
  have hcase := step_cases hs
  generalize t.post = s₁ at hcase hafter ⊢
  cases hcase with
  | spawn hi =>
    refine ⟨hafter, Function.update_self .., rfl, fun x hx => ?_⟩
    rcases List.mem_cons.mp hx with rfl | hx
    · simp [moves, hl, Label.mover]
    · exact Bool.eq_false_iff.mpr (List.countP_eq_zero.mp (Runs.unmoved hbefore hi) x hx)
  | feed hf => cases hf
  | expire he => cases he

/-- What only a call's own steps have is had since it was started. -/
theorem countP_started {f : Trans System Label → Bool} (hf : ∀ x, f x = true → moves p x = true)
    (hstill : ∀ x ∈ t :: older, moves p x = false) : (newer ++ t :: older).countP f = newer.countP f := by
  have hnone : (t :: older).countP f = 0 := List.countP_eq_zero.mpr fun x hx hfx => by
    exact Bool.false_ne_true ((hstill x hx).symm.trans (hf x hfx))
  rw [List.countP_append, hnone, Nat.add_zero]

/-- **No call goes on for ever.** In every run, a call takes at most the steps of its budget, and a few
more for each time it sleeps, and for each time the balance is dropped that it is loading. -/
theorem bounded {job : Job} (hr : Runs cfg s₀ tr s) (hp : ∃ t ∈ tr, t.label = .spawn p job) :
    tr.countP (moves p) ≤ job.budget cfg + 7 * tr.countP (wakes p) + 6 * tr.countP (drops p) := by
  obtain ⟨t, ht, hl⟩ := hp
  obtain ⟨newer, older, rfl⟩ := List.append_of_mem ht
  obtain ⟨hafter, hstart, -, hstill⟩ := Runs.started hr hl
  have hpaid := Runs.paid hafter (hstart ▸ job.start_live cfg)
  have hwork := job.start_work cfg t.post.redis.isHot
  rw [hstart] at hpaid
  rw [countP_started (fun _ hx => hx) hstill]
  simp only [List.countP_append, List.countP_cons]
  omega

end Runs

/-- The budget of a read is what a cold load takes. -/
theorem bounded_balance :
    ∃ tr s, Runs {} (.start dollarRows) tr s ∧ tr.countP (moves 0) = 7 ∧
      tr.countP (moves 0) ≤ 7 + 7 * tr.countP (wakes 0) + 6 * tr.countP (drops 0) := by
  obtain ⟨tr, s, hr, hmoves, hlabels⟩ := Runs.of_labels {} (.start dollarRows)
    (.spawn 0 (.balance 1) :: coldLoad 0) (fun tr _ => tr.countP (moves 0) = 7) (by decide +kernel)
  exact ⟨tr, s, hr, of_decide_eq_true hmoves, bounded hr (hlabels _ List.mem_cons_self)⟩

end GenerationBalance
