/-
What a call holds at the point where it awaits: a loader, a reservation it
tries or owns, a settlement, a refund, a top-up, the balances a flush has read.
For each, where one resumption can have got it from, and which requests to the
store it makes.
-/
import GenerationBalance.Progress

namespace GenerationBalance

/-! ## Loaders -/

def GenPc.loader (request : GenerationRequest) : GenPc → Option (UserId × LoaderPc)
  | .loading _ l | .settleLoading _ _ l => some (request.userId, l)
  | .refunding v _ pc _ => pc.loader.map (v.request.userId, ·)
  | _ => none

def TopUpPc.loader : TopUpPc → Option (UserId × LoaderPc)
  | .loading t _ l => some (t.args.userId, l)
  | _ => none

def ReapPc.loader : ReapPc → Option (UserId × LoaderPc)
  | .refunding a pc _ _ => pc.loader.map (a.userId, ·)
  | _ => none

/-- The loader of a call, and the user it loads. -/
def Proc.loader : Proc → Option (UserId × LoaderPc)
  | .gen request pc => pc.loader request
  | .topUp _ pc => pc.loader
  | .balance u (.loading l) => some (u, l)
  | .reap pc => pc.loader
  | _ => none

/-- A loader after a step: a new one, the one before it, or that one moved on. -/
def LoaderFrom (fresh : Token) (i : Input) (before : Option (UserId × LoaderPc)) (u : UserId) (l' : LoaderPc) : Prop :=
  l' = .load ∨ ∃ l, before = some (u, l) ∧ (l' = l ∨ l.resume fresh i = .run l')

theorem RefundPc.loaderFrom {cfg : Config} {fresh : Token} {pc pc' : RefundPc} {i : Input} {l' : LoaderPc}
    {u w : UserId} (h : pc.resume cfg fresh i = .run pc') (hl : pc'.loader.map (w, ·) = some (u, l')) :
    LoaderFrom fresh i (pc.loader.map (w, ·)) u l' := by
  obtain ⟨l₁, h1, h2⟩ := Option.map_eq_some_iff.mp hl
  cases h2
  rcases RefundPc.resume_loader h h1 with rfl | ⟨l, hl, hs⟩
  · exact .inl rfl
  · exact .inr ⟨l, by rw [hl]; rfl, hs⟩

theorem GenMove.loader {request : GenerationRequest} {fresh : Token} {now : ℚ} {pc pc' : GenPc} {i : Input}
    {u : UserId} {l' : LoaderPc} (h : GenMove request fresh now pc i pc') (hl : pc'.loader request = some (u, l')) :
    LoaderFrom fresh i (pc.loader request) u l' := by
  cases h with
  | stay => exact .inr ⟨l', hl, .inl rfl⟩
  | load h => cases hl; exact .inr ⟨_, rfl, .inr h⟩
  | settleLoad h => cases hl; exact .inr ⟨_, rfl, .inr h⟩
  | refunds h => exact RefundPc.loaderFrom h hl
  | reserveMissing | vanished | settleMissing => cases hl; exact .inl rfl
  | _ => cases hl

theorem TopUpMove.loader {fresh : Token} {pc pc' : TopUpPc} {i : Input} {u : UserId} {l' : LoaderPc}
    (h : TopUpMove fresh pc i pc') (hl : pc'.loader = some (u, l')) : LoaderFrom fresh i pc.loader u l' := by
  cases h with
  | stay => exact .inr ⟨l', hl, .inl rfl⟩
  | load h => cases hl; exact .inr ⟨_, rfl, .inr h⟩
  | missing => cases hl; exact .inl rfl
  | _ => cases hl

theorem ReapPc.next_loader (todo : List RequestId) (k : ℕ) : (ReapPc.next todo k).loader = none := by
  cases todo <;> rfl

theorem ReapMove.loader {cfg : Config} {fresh : Token} {pc pc' : ReapPc} {i : Input} {u : UserId} {l' : LoaderPc}
    (h : ReapMove cfg fresh pc i pc') (hl : pc'.loader = some (u, l')) : LoaderFrom fresh i pc.loader u l' := by
  cases h with
  | stay => exact .inr ⟨l', hl, .inl rfl⟩
  | next => rw [ReapPc.next_loader] at hl; cases hl
  | refunds h => exact RefundPc.loaderFrom h hl
  | _ => cases hl

theorem Proc.resume_loader {cfg : Config} {fresh : Token} {now : ℚ} {st : Proc} {i : Input} {u : UserId}
    {l' : LoaderPc} (hl : (st.resume cfg fresh now i).loader = some (u, l')) : LoaderFrom fresh i st.loader u l' := by
  cases st with
  | idle | crashed | flush => cases hl
  | gen request pc => exact (genMove cfg).loader hl
  | topUp command pc => exact (topUpMove cfg fresh pc i).loader hl
  | reap pc => exact (reapMove cfg fresh pc i).loader hl
  | balance w pc =>
    cases pc with
    | ended r => cases hl
    | loading l =>
      simp only [Proc.resume, BalancePc.resume] at hl
      cases hn : l.resume fresh i <;> rw [hn] at hl <;> cases hl
      exact .inr ⟨l, rfl, .inr hn⟩

/-- The point at which a part of a call awaits again. -/
def Next.running {σ α : Type} : Next σ α → Option σ
  | .run s => some s
  | _ => none

theorem attemptReserve_loader (request : GenerationRequest) (fresh : Token) (now : ℚ) (k : ℕ) (b : Balance) :
    (attemptReserve request fresh now k b).loader request = none := by
  cases k with
  | zero => rfl
  | succ k =>
    simp only [attemptReserve]
    split
    · rfl
    · split <;> rfl

/-- **A call that loads** goes on loading as its loader does, and not beyond it. -/
theorem Proc.resume_loading {cfg : Config} {fresh : Token} {now : ℚ} {st : Proc} {i : Input} {u : UserId} {l : LoaderPc}
    (h : st.loader = some (u, l)) :
    (st.resume cfg fresh now i).loader = (l.resume fresh i).running.map (u, ·) := by
  cases st with
  | idle | crashed | flush => cases h
  | gen request pc =>
    cases pc with
    | loading k l =>
      cases h
      simp only [Proc.resume, GenPc.resume]
      cases l.resume fresh i with
      | run l' => rfl
      | ret b => exact attemptReserve_loader ..
      | raise e => rfl
    | settleLoading S k l =>
      cases h
      simp only [Proc.resume, GenPc.resume]
      cases l.resume fresh i with
      | run l' => rfl
      | ret b => cases k <;> rfl
      | raise e => rfl
    | refunding v reason pc after =>
      cases pc with
      | calling => cases h
      | loading k l =>
        cases h
        simp only [Proc.resume, GenPc.resume, RefundPc.resume]
        cases l.resume fresh i with
        | run l' => rfl
        | ret b => cases k <;> rfl
        | raise e => rfl
    | _ => cases h
  | topUp command pc =>
    cases pc with
    | loading t k l =>
      cases h
      simp only [Proc.resume, TopUpPc.resume]
      cases l.resume fresh i with
      | run l' => rfl
      | ret b => cases k <;> rfl
      | raise e => rfl
    | _ => cases h
  | balance w pc =>
    cases pc with
    | loading l =>
      cases h
      simp only [Proc.resume, BalancePc.resume]
      cases l.resume fresh i <;> rfl
    | ended => cases h
  | reap pc =>
    cases pc with
    | refunding a pc todo k =>
      cases pc with
      | calling => cases h
      | loading n l =>
        cases h
        simp only [Proc.resume, ReapPc.resume, RefundPc.resume]
        cases l.resume fresh i with
        | run l' => rfl
        | ret b =>
          cases n with
          | zero => rfl
          | succ n => rfl
        | raise e => rfl
    | _ => cases h

theorem Proc.loader_action {cfg : Config} {st : Proc} {u : UserId} {l : LoaderPc} (h : st.loader = some (u, l)) :
    st.action cfg = l.action u := by
  cases st with
  | idle | crashed | flush => cases h
  | gen request pc =>
    cases pc with
    | loading | settleLoading => cases h; rfl
    | refunding v reason pc after => cases pc <;> cases h; rfl
    | _ => cases h
  | topUp command pc => cases pc <;> cases h; rfl
  | balance w pc => cases pc <;> cases h; rfl
  | reap pc =>
    cases pc with
    | refunding a pc todo k => cases pc <;> cases h; rfl
    | _ => cases h

/-- A row is read only by a loader that has its lock. -/
theorem Proc.select_action {cfg : Config} {st : Proc} {u : UserId} (h : st.action cfg = .select u) :
    ∃ t, st.loader = some (u, .select t) := by
  have loader : ∀ {w : UserId} {l : LoaderPc}, l.action w = .select u → ∃ t, some (w, l) = some (u, .select t) := by
    intro w l h
    cases l <;> cases h
    exact ⟨_, rfl⟩
  cases st with
  | idle | crashed => cases h
  | gen request pc =>
    cases pc with
    | loading | settleLoading => exact loader h
    | refunding v reason pc after =>
      cases pc with
      | calling => cases h
      | loading => exact loader h
    | _ => cases h
  | topUp command pc =>
    cases pc with
    | loading => exact loader h
    | _ => cases h
  | balance w pc =>
    cases pc with
    | loading => exact loader h
    | ended => cases h
  | reap pc =>
    cases pc with
    | refunding a pc todo k =>
      cases pc with
      | calling => cases h
      | loading => exact loader h
    | _ => cases h
  | flush pc =>
    cases pc with
    | loading users todo rows => cases todo <;> cases h
    | _ => cases h

/-! ## Reservations -/

/-- The request of a generation. -/
def Proc.request : Proc → Option GenerationRequest
  | .gen request _ => some request
  | _ => none

@[simp] theorem Proc.resume_request (cfg : Config) (fresh : Token) (now : ℚ) (st : Proc) (i : Input) :
    (st.resume cfg fresh now i).request = st.request := by
  cases st <;> rfl

/-- The denial a call looks a record up for. -/
def Proc.denial : Proc → Option Exn
  | .gen _ (.denied e _) => some e
  | _ => none

/-- The reservation a call tries to make. -/
def Proc.reserving : Proc → Option Reservation
  | .gen _ (.reserving v _ _) => some v
  | _ => none

/-- The reservation a call holds, from the reply on that made it its own. -/
def Proc.owned : Proc → Option Reservation
  | .gen _ (.calling v) | .gen _ (.generating v) | .gen _ (.refunding v _ _ _) => some v
  | .gen _ (.settling s _ _) | .gen _ (.settleLoading s _ _) => some s.reservation
  | _ => none

/-- The settlement a call makes. -/
def Proc.settlement : Proc → Option Settlement
  | .gen _ (.settling s _ _) | .gen _ (.settleLoading s _ _) => some s
  | _ => none

/-- The refund a call makes. -/
def Proc.refund : Proc → Option RefundArgs
  | .gen _ (.refunding v reason _ _) => some (v.refundArgs reason)
  | .reap (.refunding a _ _ _) => some a
  | _ => none

/-- The top-up a call makes. -/
def Proc.command : Proc → Option TopUp
  | .topUp _ (.calling t _ _) | .topUp _ (.loading t _ _) => some t
  | _ => none

theorem Proc.reserving_gen {st : Proc} {v : Reservation} (h : st.reserving = some v) :
    ∃ request n k, st = .gen request (.reserving v n k) := by
  unfold Proc.reserving at h
  split at h <;> cases h
  exact ⟨_, _, _, rfl⟩

theorem Proc.reserving_action {cfg : Config} {st : Proc} {v : Reservation} (h : st.reserving = some v) :
    st.action cfg = .call (.reserve v.args) := by
  cases st with
  | gen request pc => cases pc <;> cases h; rfl
  | _ => cases h

theorem GenMove.reserving {request : GenerationRequest} {fresh : Token} {now : ℚ} {pc pc' : GenPc} {i : Input}
    {v : Reservation} (h : GenMove request fresh now pc i pc') (hv : (Proc.gen request pc').reserving = some v) :
    (Proc.gen request pc).reserving = some v ∨
      ∃ b, Refreshes fresh pc i b ∧ makeReservation request b fresh now = .ok v := by
  cases h with
  | stay => exact .inl hv
  | reserve hb hm => cases hv; exact .inr ⟨_, hb, hm⟩
  | reserveAgain => exact .inl hv
  | _ => cases hv

theorem GenMove.owned {request : GenerationRequest} {fresh : Token} {now : ℚ} {pc pc' : GenPc} {i : Input}
    {v : Reservation} (h : GenMove request fresh now pc i pc') (hv : (Proc.gen request pc').owned = some v) :
    (Proc.gen request pc).owned = some v ∨
      ∃ r, (Proc.gen request pc).reserving = some v ∧ i = .reply (.reserve r) ∧
        reserveOutcome v.token r = .reserved := by
  cases h with
  | stay | called | settleMissing | settleAgain | settleLoad | settleRetry | refund | refunds => exact .inl hv
  | reserved hr => cases hv; exact .inr ⟨_, rfl, rfl, hr⟩
  | settle hs => cases hv; exact .inl (congrArg some (makeSettlement_ok hs).1.symm)
  | _ => cases hv

theorem GenMove.settlement {request : GenerationRequest} {fresh : Token} {now : ℚ} {pc pc' : GenPc} {i : Input}
    {s : Settlement} (h : GenMove request fresh now pc i pc') (hs : (Proc.gen request pc').settlement = some s) :
    (Proc.gen request pc).settlement = some s ∨
      ∃ (v : Reservation) (content : String) (bill : Number),
        pc = .generating v ∧ i = .provided (.result content bill) ∧ makeSettlement v content bill = .ok s := by
  cases h with
  | stay | settleMissing | settleAgain | settleLoad | settleRetry => exact .inl hs
  | settle hm => cases hs; exact .inr ⟨_, _, _, rfl, rfl, hm⟩
  | _ => cases hs

theorem GenMove.refund_args {request : GenerationRequest} {fresh : Token} {now : ℚ} {pc pc' : GenPc} {i : Input}
    {a : RefundArgs} (h : GenMove request fresh now pc i pc') (ha : (Proc.gen request pc').refund = some a) :
    (Proc.gen request pc).refund = some a ∨ ∃ v reason, pc = .generating v ∧ a = v.refundArgs reason := by
  cases h with
  | stay | refunds => exact .inl ha
  | refund => cases ha; exact .inr ⟨_, _, rfl, rfl⟩
  | _ => cases ha

section Resume

variable {cfg : Config} {fresh : Token} {now : ℚ} {st : Proc} {i : Input}

theorem Proc.resume_reserving {v : Reservation} (h : (st.resume cfg fresh now i).reserving = some v) :
    st.reserving = some v ∨
      ∃ request pc b, st = .gen request pc ∧ Refreshes fresh pc i b ∧ makeReservation request b fresh now = .ok v := by
  cases st with
  | gen request pc =>
    rcases (genMove cfg).reserving h with h | ⟨b, hb, hm⟩
    · exact .inl h
    · exact .inr ⟨request, pc, b, rfl, hb, hm⟩
  | _ => cases h

theorem Proc.resume_denial {e : Exn} (h : (st.resume cfg fresh now i).denial = some e) :
    st.denial = some e ∨ e.isAccess = true := by
  cases st with
  | gen request pc =>
    have hm : GenMove request fresh now pc i (pc.resume cfg request fresh now i) := genMove cfg
    simp only [Proc.resume] at h
    generalize pc.resume cfg request fresh now i = pc' at hm h
    cases hm with
    | stay => exact .inl h
    | denied hb hm ha => cases h; exact .inr ha
    | _ => cases h
  | _ => cases h

theorem Proc.resume_owned {v : Reservation} (h : (st.resume cfg fresh now i).owned = some v) :
    st.owned = some v ∨
      ∃ r, st.reserving = some v ∧ i = .reply (.reserve r) ∧ reserveOutcome v.token r = .reserved := by
  cases st with
  | gen request pc => exact (genMove cfg).owned h
  | _ => cases h

theorem Proc.resume_settlement {s : Settlement} (h : (st.resume cfg fresh now i).settlement = some s) :
    st.settlement = some s ∨
      ∃ (request : GenerationRequest) (v : Reservation) (content : String) (bill : Number),
        st = .gen request (.generating v) ∧ i = .provided (.result content bill) ∧
          makeSettlement v content bill = .ok s := by
  cases st with
  | gen request pc =>
    rcases (genMove cfg).settlement h with h | ⟨v, content, bill, rfl, hi, hm⟩
    · exact .inl h
    · exact .inr ⟨request, v, content, bill, rfl, hi, hm⟩
  | _ => cases h

/-- A refund is of the call's own reservation, or of a record that was read as
running. -/
theorem Proc.resume_refund {a : RefundArgs} (h : (st.resume cfg fresh now i).refund = some a) :
    st.refund = some a ∨ (∃ request v reason, st = .gen request (.generating v) ∧ a = v.refundArgs reason) ∨
      ∃ id todo k g, st = .reap (.reading id todo k) ∧ i = .reply (.record (some g)) ∧ g.status = .running ∧
        ReapPc.refundArgs id (recordFromFields g) = .ok a := by
  cases st with
  | gen request pc =>
    rcases (genMove cfg).refund_args h with h | ⟨v, reason, rfl, rfl⟩
    · exact .inl h
    · exact .inr (.inl ⟨request, v, reason, rfl, rfl⟩)
  | reap pc =>
    have hm := reapMove cfg fresh pc i
    simp only [Proc.resume] at h
    generalize pc.resume cfg fresh i = pc' at hm h
    cases hm with
    | stay | refunds => exact .inl h
    | @next _ _ todo => cases todo <;> cases h
    | refund hg ha => cases h; exact .inr (.inr ⟨_, _, _, _, rfl, rfl, hg, ha⟩)
    | _ => cases h
  | _ => cases h

theorem Proc.resume_command {t : TopUp} (h : (st.resume cfg fresh now i).command = some t) : st.command = some t := by
  cases st with
  | topUp command pc =>
    have hm := topUpMove cfg fresh pc i
    simp only [Proc.resume] at h
    generalize pc.resume cfg fresh i = pc' at hm h
    cases hm with
    | stay | missing | again | load | retry => exact h
    | _ => cases h
  | _ => cases h

end Resume

/-! ## Flushes -/

/-- The balances a flush has read and has not yet dealt with. -/
def FlushPc.rows : FlushPc → List (UserId × Balance)
  | .loading _ _ rows | .committing _ rows | .repairing _ rows _ _ _ _ => rows
  | _ => []

/-- The rejected rows whose versions a flush may still advance. -/
def FlushPc.repairs : FlushPc → List (UserId × ℤ × ℤ)
  | .repairing _ _ row todo _ _ => row :: todo.filterMap fun (b, u, stored) => stored.map (u, b.version, ·.version + 1)
  | _ => []

/-- The users a flush is clearing. -/
def FlushPc.clears : FlushPc → List (UserId × ℤ)
  | .clearing user todo _ => user :: todo
  | _ => []

def Proc.rows : Proc → List (UserId × Balance)
  | .flush pc => pc.rows
  | _ => []

def Proc.repairs : Proc → List (UserId × ℤ × ℤ)
  | .flush pc => pc.repairs
  | _ => []

def Proc.clears : Proc → List (UserId × ℤ)
  | .flush pc => pc.clears
  | _ => []

/-- The version a call is advancing. -/
def Proc.advancing : Proc → Option (UserId × ℤ × ℤ)
  | .flush (.repairing _ _ row _ _ _) => some row
  | _ => none

theorem Proc.advancing_repairs {st : Proc} {row : UserId × ℤ × ℤ} (h : st.advancing = some row) : row ∈ st.repairs := by
  cases st with
  | flush pc =>
    cases pc <;> cases h
    exact List.mem_cons_self ..
  | _ => cases h

theorem FlushPc.clear_rows (written : ℕ) (users : List (UserId × ℤ)) :
    (FlushPc.clear written users).rows = [] ∧ (FlushPc.clear written users).repairs = [] := by
  cases users <;> exact ⟨rfl, rfl⟩

theorem FlushPc.load_rows {users todo : List UserId} {rows : List (UserId × Balance)} {x : UserId × Balance}
    (h : x ∈ (FlushPc.load users rows todo).rows) : x ∈ rows := by
  cases todo with
  | cons u todo => exact h
  | nil =>
    simp only [FlushPc.load, FlushPc.write] at h
    split at h
    · rw [(FlushPc.clear_rows 0 _).1] at h; cases h
    · exact h

theorem FlushPc.load_repairs (users todo : List UserId) (rows : List (UserId × Balance)) :
    (FlushPc.load users rows todo).repairs = [] := by
  cases todo with
  | cons u todo => rfl
  | nil =>
    simp only [FlushPc.load, FlushPc.write]
    split
    · exact (FlushPc.clear_rows 0 _).2
    · rfl

/-- What the repair of rejected rows holds. -/
theorem FlushPc.repair_holds {users : List UserId} {rows : List (UserId × Balance)} {written : ℕ} :
    ∀ {rejected : List Rejected},
      (∀ x ∈ (FlushPc.repair users rows written rejected).rows, x ∈ rows) ∧
      ∀ u e n, (u, e, n) ∈ (FlushPc.repair users rows written rejected).repairs →
        ∃ b stored, (b, u, some stored) ∈ rejected ∧ e = b.version ∧ n = stored.version + 1
  | [] => by
    obtain ⟨h1, h2⟩ := FlushPc.clear_rows written (FlushPc.cleared users rows)
    refine ⟨fun x hx => ?_, fun u e n hx => ?_⟩
    · rw [FlushPc.repair, h1] at hx; cases hx
    · rw [FlushPc.repair, h2] at hx; cases hx
  | (b, w, none) :: rejected => by
    obtain ⟨h1, h2⟩ := @FlushPc.repair_holds users rows written rejected
    refine ⟨h1, fun u e n hx => ?_⟩
    obtain ⟨b, stored, hm, hs⟩ := h2 u e n hx
    exact ⟨b, stored, List.mem_cons_of_mem _ hm, hs⟩
  | (b, w, some stored) :: rejected => by
    obtain ⟨h1, h2⟩ := @FlushPc.repair_holds users rows written rejected
    simp only [FlushPc.repair]
    split
    · refine ⟨h1, fun u e n hx => ?_⟩
      obtain ⟨b, stored, hm, hs⟩ := h2 u e n hx
      exact ⟨b, stored, List.mem_cons_of_mem _ hm, hs⟩
    · refine ⟨fun x hx => hx, fun u e n hx => ?_⟩
      rcases List.mem_cons.mp hx with hx | hx
      · cases hx
        exact ⟨b, stored, List.mem_cons_self .., rfl, rfl⟩
      · obtain ⟨⟨b', u', s'⟩, hm, hx⟩ := List.mem_filterMap.mp hx
        cases s' <;> cases hx
        exact ⟨b', _, List.mem_cons_of_mem _ hm, rfl, rfl⟩

theorem Proc.commit_rows {cfg : Config} {st : Proc} {rows : List (UserId × Balance)}
    (h : st.action cfg = .commit rows) : st.rows = rows := by
  have noLoader : ∀ {u : UserId} {l : LoaderPc}, l.action u = .commit rows → False := by
    intro u l h
    cases l <;> cases h
  cases st with
  | idle | crashed => cases h
  | gen request pc =>
    cases pc with
    | loading | settleLoading => exact (noLoader h).elim
    | refunding v reason pc after =>
      cases pc with
      | calling => cases h
      | loading => exact (noLoader h).elim
    | _ => cases h
  | topUp command pc =>
    cases pc with
    | loading => exact (noLoader h).elim
    | _ => cases h
  | balance u pc =>
    cases pc with
    | loading => exact (noLoader h).elim
    | ended => cases h
  | reap pc =>
    cases pc with
    | refunding a pc todo k =>
      cases pc with
      | calling => cases h
      | loading => exact (noLoader h).elim
    | _ => cases h
  | flush pc =>
    cases pc with
    | loading users todo rows => cases todo <;> cases h
    | committing => cases h; rfl
    | _ => cases h

theorem Proc.provider_action {cfg : Config} {st : Proc} {request : GenerationRequest} (h : st.action cfg = .provider request) :
    ∃ v, st = .gen request (.calling v) := by
  have noLoader : ∀ {u : UserId} {pc : LoaderPc}, pc.action u = .provider request → False := by
    intro u pc h
    cases pc <;> cases h
  cases st with
  | idle | crashed => cases h
  | gen request' pc =>
    cases pc with
    | calling v => cases h; exact ⟨v, rfl⟩
    | loading | settleLoading => exact (noLoader h).elim
    | refunding v reason pc after =>
      cases pc with
      | calling => cases h
      | loading => exact (noLoader h).elim
    | _ => cases h
  | topUp command pc =>
    cases pc with
    | loading => exact (noLoader h).elim
    | _ => cases h
  | balance u pc =>
    cases pc with
    | loading => exact (noLoader h).elim
    | ended => cases h
  | reap pc =>
    cases pc with
    | refunding a pc todo k =>
      cases pc with
      | calling => cases h
      | loading => exact (noLoader h).elim
    | _ => cases h
  | flush pc =>
    cases pc with
    | loading users todo rows => cases todo <;> cases h
    | _ => cases h

section Resume

variable {cfg : Config} {fresh : Token} {now : ℚ} {st : Proc} {i : Input}

/-- A balance that a flush holds was held before, or was just read. -/
theorem Proc.resume_rows {u : UserId} {b : Balance} (h : (u, b) ∈ (st.resume cfg fresh now i).rows) :
    (u, b) ∈ st.rows ∨ i = .reply (.balance (some b)) ∧ st.action cfg = .call (.load u) := by
  cases st with
  | flush pc =>
    have hm := flushMove cfg pc i
    simp only [Proc.resume, Proc.rows] at h
    generalize pc.resume cfg i = pc' at hm h
    cases hm with
    | stay | again => exact .inl h
    | picked => cases FlushPc.load_rows h
    | @read users w todo rows c =>
      rcases List.mem_append.mp (FlushPc.load_rows h) with h | h
      · exact .inl h
      · cases c <;> simp only [Option.map_none, Option.map_some, Option.toList_none, Option.toList_some] at h
        · cases h
        · cases List.mem_singleton.mp h
          exact .inr ⟨rfl, rfl⟩
    | committed | repaired => exact .inl (FlushPc.repair_holds.1 _ h)
    | @cleared user todo => cases todo <;> cases h
    | _ => cases h
  | _ => cases h

/-- A version that a flush may advance was to be advanced before, or is that of
a row that was just rejected. -/
theorem Proc.resume_repairs {u : UserId} {e n : ℤ} (h : (u, e, n) ∈ (st.resume cfg fresh now i).repairs) :
    (u, e, n) ∈ st.repairs ∨ ∃ rows written rejected b stored, st.action cfg = .commit rows ∧
      i = .committed (some (written, rejected)) ∧ (b, u, some stored) ∈ rejected ∧ e = b.version ∧
      n = stored.version + 1 := by
  cases st with
  | flush pc =>
    have hm := flushMove cfg pc i
    simp only [Proc.resume, Proc.repairs] at h
    generalize pc.resume cfg i = pc' at hm h
    cases hm with
    | stay | again => exact .inl h
    | picked | read => rw [FlushPc.load_repairs] at h; cases h
    | committed =>
      obtain ⟨b, stored, hm, he, hn⟩ := FlushPc.repair_holds.2 _ _ _ h
      exact .inr ⟨_, _, _, b, stored, rfl, rfl, hm, he, hn⟩
    | repaired =>
      obtain ⟨b, stored, hm, rfl, rfl⟩ := FlushPc.repair_holds.2 _ _ _ h
      exact .inl (List.mem_cons_of_mem _ (List.mem_filterMap.mpr ⟨_, hm, rfl⟩))
    | @cleared user todo => cases todo <;> cases h
    | _ => cases h
  | _ => cases h

end Resume

/-! ## The start, and what is left behind -/

/-- A call that starts holds nothing yet but a loader or a command of its own. -/
structure Proc.Blank (st : Proc) : Prop where
  loader : ∀ u l, st.loader = some (u, l) → l = .load
  reserving : st.reserving = none
  owned : st.owned = none
  settlement : st.settlement = none
  refund : st.refund = none
  rows : st.rows = []
  repairs : st.repairs = []
  denial : st.denial = none

theorem Proc.blank_idle : Proc.idle.Blank :=
  ⟨fun _ _ h => (by cases h), rfl, rfl, rfl, rfl, rfl, rfl, rfl⟩

theorem Proc.blank_crashed : Proc.crashed.Blank :=
  ⟨fun _ _ h => (by cases h), rfl, rfl, rfl, rfl, rfl, rfl, rfl⟩

theorem Job.start_blank (cfg : Config) (job : Job) : (job.start cfg).Blank := by
  cases job with
  | gen request =>
    simp only [Job.start, GenPc.start]
    split
    · exact ⟨fun _ _ h => (by cases h), rfl, rfl, rfl, rfl, rfl, rfl, rfl⟩
    · exact ⟨fun _ _ h => (by cases h; rfl), rfl, rfl, rfl, rfl, rfl, rfl, rfl⟩
  | topUp command =>
    rw [Job.start]
    rcases TopUpPc.start_cases cfg command with ⟨e, h⟩ | ⟨t, k, -, -, h⟩ <;>
      exact h ▸ ⟨fun _ _ h => (by cases h), rfl, rfl, rfl, rfl, rfl, rfl, rfl⟩
  | balance u => exact ⟨fun _ _ h => (by cases h; rfl), rfl, rfl, rfl, rfl, rfl, rfl, rfl⟩
  | reap now => exact ⟨fun _ _ h => (by cases h), rfl, rfl, rfl, rfl, rfl, rfl, rfl⟩
  | flush => exact ⟨fun _ _ h => (by cases h), rfl, rfl, rfl, rfl, rfl, rfl, rfl⟩

/-! ## Requests -/

/-- The requests a call makes, by what it holds. -/
inductive Sends (st : Proc) : Call → Prop
  | load (u) : Sends st (.load u)
  | getGeneration (id) : Sends st (.getGeneration id)
  | staleInflight (olderThan limit) : Sends st (.staleInflight olderThan limit)
  | forgetInflight (id) : Sends st (.forgetInflight id)
  | dirtyUsers (limit) : Sends st (.dirtyUsers limit)
  | acquire {u t} : st.loader = some (u, .tryLock t) → Sends st (.tryAcquireLoadLock u t)
  | release {u t e} : st.loader = some (u, .release t e) → Sends st (.releaseLoadLock u t)
  | seed {u t b} : st.loader = some (u, .seed t b) → Sends st (.seedIfAbsent u b)
  | reserve {v} : st.reserving = some v → Sends st (.reserve v.args)
  | settle {s} : st.settlement = some s → Sends st (.settle s.args)
  | refund {a} : st.refund = some a → Sends st (.refund a)
  | topUp {t} : st.command = some t → Sends st (.topUp t.args)
  | advance {u e n} : st.advancing = some (u, e, n) → Sends st (.advanceVersion u e n)
  | clear {u v} : (u, v) ∈ st.clears → Sends st (.clearDirty u v)

theorem LoaderPc.sends {st : Proc} {u : UserId} {l : LoaderPc} {c : Call} (hl : st.loader = some (u, l))
    (h : l.action u = .call c) : Sends st c := by
  cases l with
  | load | recheck => cases h; exact .load u
  | tryLock => cases h; exact .acquire hl
  | seed => cases h; exact .seed hl
  | release => cases h; exact .release hl
  | select | poll => cases h

theorem Proc.sends {cfg : Config} {st : Proc} {c : Call} (h : st.action cfg = .call c) : Sends st c := by
  cases st with
  | idle | crashed => cases h
  | gen request pc =>
    cases pc with
    | loading k l => exact LoaderPc.sends rfl h
    | settleLoading s k l => exact LoaderPc.sends rfl h
    | reserving => cases h; exact .reserve rfl
    | denied | polling => cases h; exact .getGeneration _
    | settling => cases h; exact .settle rfl
    | refunding v reason pc after =>
      cases pc with
      | calling => cases h; exact .refund rfl
      | loading k l => exact LoaderPc.sends rfl h
    | waiting | calling | generating | ended => cases h
  | topUp command pc =>
    cases pc with
    | calling => cases h; exact .topUp rfl
    | loading t k l => exact LoaderPc.sends rfl h
    | ended => cases h
  | balance u pc =>
    cases pc with
    | loading l => exact LoaderPc.sends rfl h
    | ended => cases h
  | reap pc =>
    cases pc with
    | listing => cases h; exact .staleInflight _ _
    | reading => cases h; exact .getGeneration _
    | forgetting => cases h; exact .forgetInflight _
    | refunding a pc todo k =>
      cases pc with
      | calling => cases h; exact .refund rfl
      | loading k l => exact LoaderPc.sends rfl h
    | ended => cases h
  | flush pc =>
    cases pc with
    | picking => cases h; exact .dirtyUsers _
    | loading users todo rows =>
      cases todo <;> cases h
      exact .load _
    | repairing users rows row => cases h; exact .advance rfl
    | clearing user todo => cases h; exact .clear (List.mem_cons_self ..)
    | committing | ended => cases h

section Sends

variable {st : Proc} {u : UserId}

theorem Sends.of_acquire {t : Token} (h : Sends st (.tryAcquireLoadLock u t)) : st.loader = some (u, .tryLock t) := by
  cases h with
  | acquire hl => exact hl

theorem Sends.of_release {t : Token} (h : Sends st (.releaseLoadLock u t)) :
    ∃ e, st.loader = some (u, .release t e) := by
  cases h with
  | release hl => exact ⟨_, hl⟩

theorem Sends.of_seed {b : Balance} (h : Sends st (.seedIfAbsent u b)) : ∃ t, st.loader = some (u, .seed t b) := by
  cases h with
  | seed hl => exact ⟨_, hl⟩

theorem Sends.of_reserve {a : ReserveArgs} (h : Sends st (.reserve a)) : ∃ v, st.reserving = some v ∧ a = v.args := by
  cases h with
  | reserve hv => exact ⟨_, hv, rfl⟩

theorem Sends.of_settle {a : SettleArgs} (h : Sends st (.settle a)) : ∃ S, st.settlement = some S ∧ a = S.args := by
  cases h with
  | settle hS => exact ⟨_, hS, rfl⟩

theorem Sends.of_refund {a : RefundArgs} (h : Sends st (.refund a)) : st.refund = some a := by
  cases h with
  | refund ha => exact ha

theorem Sends.of_topUp {a : TopUpArgs} (h : Sends st (.topUp a)) : ∃ t, st.command = some t ∧ a = t.args := by
  cases h with
  | topUp ht => exact ⟨_, ht, rfl⟩

theorem Sends.of_advance {e n : ℤ} (h : Sends st (.advanceVersion u e n)) : st.advancing = some (u, e, n) := by
  cases h with
  | advance hr => exact hr

theorem Sends.of_clear {v : ℤ} (h : Sends st (.clearDirty u v)) : (u, v) ∈ st.clears := by
  cases h with
  | clear hm => exact hm

end Sends

end GenerationBalance
