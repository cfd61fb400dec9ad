/-
Top-ups. A marker stands for one credit of one command with its operation, and
`apply_top_up` returns only when the marker is set. Nothing compares the command
that is repeated with the one that was credited: they are the same only when the
callers never give two commands one `operation_id`.
-/
import GenerationBalance.Ledger

namespace GenerationBalance

open Transition

/-! ## Credits -/

/-- The transition credits the command: its amounts, and no others, are added to
the balance of its user. -/
def Credits (command : BalanceTopUp) (t : Trans System Label) : Prop :=
  ∃ b c, t.pre.redis.bal.get command.userId = some b ∧ t.post.redis.bal.get command.userId = some c ∧
    (c.paidUsd : ℚ) * (10 : ℚ) ^ (-6 : ℤ) = b.paidUsd * (10 : ℚ) ^ (-6 : ℤ) + command.paidUsd.toRat ∧
    (c.bonusUsd : ℚ) * (10 : ℚ) ^ (-6 : ℤ) = b.bonusUsd * (10 : ℚ) ^ (-6 : ℤ) + command.bonusUsd.toRat ∧
    c.freeRequests = b.freeRequests + command.freeRequests ∧ c.freeUsd = b.freeUsd

/-- The transition runs a top-up of the operation `o` that is applied. -/
def appliesTopUp (cfg : Config) (o : OperationId) (t : Trans System Label) : Bool :=
  ((ran cfg t).bind Ran.toppedUp).any (·.1 = o)

/-- `apply_top_up` was called with the command, which passed the checks. -/
def TopUpCalled (tr : List (Trans System Label)) (command : BalanceTopUp) : Prop :=
  validateTopUp command = .ok () ∧ ∃ t ∈ tr, ∃ p, t.label = .spawn p (.topUp command)

theorem TopUpCalled.step {tr : List (Trans System Label)} {command : BalanceTopUp} (h : TopUpCalled tr command)
    (t : Trans System Label) : TopUpCalled (t :: tr) command := by
  obtain ⟨hv, t', ht', p, hl⟩ := h
  exact ⟨hv, t', List.mem_cons_of_mem _ ht', p, hl⟩

theorem TopUpArgs.Of.credits {a : TopUpArgs} {command : BalanceTopUp} (h : a.Of command) {t : Trans System Label}
    {b c : Balance} (hb : t.pre.redis.bal.get a.userId = some b) (hc : t.post.redis.bal.get a.userId = some c)
    (hf : ∀ f, c.get f = b.get f + a.amount f + if f = .version then 1 else 0) : Credits command t := by
  have hp : c.paidUsd = b.paidUsd + a.paidUsd := by simpa [Balance.get, TopUpArgs.amount] using hf .paidUsd
  have hbonus : c.bonusUsd = b.bonusUsd + a.bonusUsd := by simpa [Balance.get, TopUpArgs.amount] using hf .bonusUsd
  have hreq : c.freeRequests = b.freeRequests + a.freeRequests := by
    simpa [Balance.get, TopUpArgs.amount] using hf .freeRequests
  have hfree : c.freeUsd = b.freeUsd := by simpa [Balance.get, TopUpArgs.amount] using hf .freeUsd
  rw [h.userId] at hb hc
  refine ⟨b, c, hb, hc, ?_, ?_, by rw [hreq, h.freeRequests], hfree⟩
  · rw [hp, h.paidUsd]
    push_cast
    ring
  · rw [hbonus, h.bonusUsd]
    push_cast
    ring

/-- What a request does to the markers: nothing, or it is a top-up that is applied. -/
theorem CallOk.top_up {ρ ρ' : Redis} {c : Call} {r : Reply} (h : CallOk ρ c r ρ') (owner : ℕ) (st : Proc) :
    (ρ'.topup = ρ.topup ∧ (Ran.mk owner st c r).toppedUp = none) ∨
      ∃ a b b', c = .topUp a ∧ r = .topUp .ok ∧ ρ.topup.get a.operationId = none ∧
        ρ'.topup = ρ.topup.set a.operationId a.userId ∧ ρ.bal.get a.userId = some b ∧
        ρ'.bal.get a.userId = some b' ∧
        ∀ f, b'.get f = b.get f + a.amount f + if f = .version then 1 else 0 := by
  cases h with
  | reserve h => cases h <;> exact .inl ⟨rfl, rfl⟩
  | settle h => cases h <;> exact .inl ⟨rfl, rfl⟩
  | refund h => cases h <;> exact .inl ⟨rfl, rfl⟩
  | topUp h =>
    cases h with
    | dup | missing => exact .inl ⟨rfl, rfl⟩
    | @applied b b' hm hb hf => exact .inr ⟨_, b, b', rfl, rfl, hm, rfl, hb, Table.get_set_self .., hf⟩
  | _ => exact .inl ⟨rfl, rfl⟩

/-! ## Commands -/

/-- The command of a call of `apply_top_up`. -/
def Proc.toppingUp : Proc → Option BalanceTopUp
  | .topUp command _ => some command
  | _ => none

@[simp] theorem Proc.resume_toppingUp (cfg : Config) (fresh : Token) (now : ℚ) (st : Proc) (i : Input) :
    (st.resume cfg fresh now i).toppingUp = st.toppingUp := by
  cases st <;> rfl

/-- What a call sends is its own command, which it was called with. -/
def Proc.Commanded (tr : List (Trans System Label)) (st : Proc) : Prop :=
  ∀ t, st.command = some t → st.toppingUp = some t.command ∧ TopUpCalled tr t.command

theorem Job.start_command {cfg : Config} {job : Job} {t : TopUp} (h : (job.start cfg).command = some t) :
    job = .topUp t.command := by
  cases job with
  | topUp command =>
    rw [Job.start] at h
    rcases TopUpPc.start_cases cfg command with ⟨e, he⟩ | ⟨t', k, rfl, -, he⟩ <;> rw [he] at h <;> cases h
    rfl
  | gen | balance | reap | flush => cases h

/-- What was returned to the callers, and what the markers stand for. -/
structure Marking (cfg : Config) (tr : List (Trans System Label)) (s : System) : Prop where
  commanded : ∀ p st, s.Holds p st → st.Commanded tr
  returned : ∀ p command, s.procs p = .topUp command (.ended (.ok ())) →
    TopUpCalled tr command ∧ (s.redis.topup.get command.operationId).isSome
  once : ∀ o, tr.countP (appliesTopUp cfg o) = if (s.redis.topup.get o).isSome then 1 else 0
  credited : ∀ o, (s.redis.topup.get o).isSome → ∃ t ∈ tr, appliesTopUp cfg o t = true ∧
    ∃ command, TopUpCalled tr command ∧ command.operationId = o ∧ Credits command t

section Step

variable {cfg : Config} {tr : List (Trans System Label)} {s s' : System} {l : Label}

/-- What a step does to the markers: nothing, or it credits a command. -/
theorem StepCase.marks (h : StepCase cfg s l s') (hs : ∀ p st, s.Holds p st → st.Commanded tr)
    (hk : l.keepsMarkers = true) (hi : inRange cfg ⟨s, l, s'⟩ = true) :
    (s'.redis.topup = s.redis.topup ∧ ∀ o, appliesTopUp cfg o ⟨s, l, s'⟩ = false) ∨
      ∃ command, TopUpCalled tr command ∧ s.redis.topup.get command.operationId = none ∧
        s'.redis.topup = s.redis.topup.set command.operationId command.userId ∧
        (∀ o, appliesTopUp cfg o ⟨s, l, s'⟩ = decide (command.operationId = o)) ∧ Credits command ⟨s, l, s'⟩ := by
  cases h.store with
  | same hn he => exact .inl ⟨by rw [he], fun o => by simp [appliesTopUp, hn]⟩
  | expired hn he =>
    refine .inl ⟨?_, fun o => by simp [appliesTopUp, hn]⟩
    generalize s'.redis = ρ' at he
    cases he with
    | topUp => cases hk
    | _ => rfl
  | @ran x pick hx hheld ha he =>
    have hsend := Proc.sends ha
    rcases (callOk_of_ran hx hi he).top_up x.owner x.st with ⟨ht, hn⟩ | ⟨a, b, c, hcall, hreply, hm, ht, hb, hc, hf⟩
    · exact .inl ⟨ht, fun o => by simp [appliesTopUp, hx, hn]⟩
    · obtain ⟨owner, st, call, reply⟩ := x
      cases hcall
      cases hreply
      obtain ⟨t, hcommand, rfl⟩ := hsend.of_topUp
      have hof := t.of
      refine .inr ⟨t.command, (hs _ _ hheld t hcommand).2, ?_, ?_, fun o => ?_, hof.credits hb hc hf⟩
      · rw [← hof.operationId, hm]
      · rw [← hof.operationId, ← hof.userId, ht]
      · simp [appliesTopUp, hx, Ran.toppedUp, hof.operationId]

theorem StepCase.commanded (h : StepCase cfg s l s') (hs : ∀ p st, s.Holds p st → st.Commanded tr) :
    ∀ p st, s'.Holds p st → st.Commanded (⟨s, l, s'⟩ :: tr) := by
  have step : ∀ {st : Proc}, st.Commanded tr → st.Commanded (⟨s, l, s'⟩ :: tr) := fun hst t ht =>
    (hst t ht).imp_right (·.step _)
  intro p st hheld
  cases h.origin hheld with
  | kept hheld => exact step (hs p st hheld)
  | @started job hl =>
    intro t ht
    have hjob := Job.start_command ht
    subst hjob
    exact ⟨rfl, t.valid, _, List.mem_cons_self .., p, hl⟩
  | resumed hg hd he =>
    intro t ht
    rw [Proc.resume_toppingUp]
    exact step (hs p _ (.inl rfl)) t (Proc.resume_command ht)
  | crashed =>
    intro t ht
    cases ht
  | leftover hl hm =>
    rcases Proc.leftovers_cases hm with rfl | ⟨-, hnone, -⟩
    · exact step (hs p _ (.inl rfl))
    · intro t ht
      rw [hnone] at ht
      cases ht

theorem TopUpPc.start_ne (cfg : Config) (command : BalanceTopUp) : TopUpPc.start cfg command ≠ .ended (.ok ()) := by
  rcases TopUpPc.start_cases cfg command with ⟨e, h⟩ | ⟨t, k, -, -, h⟩ <;> rw [h] <;> exact fun h => by cases h

/-- A call that just returned was answered that its operation is marked. -/
theorem TopUpOk.marks {a : TopUpArgs} {ρ ρ' : Redis} {r : TopUpReply} (h : TopUpOk a ρ r ρ') (hr : r = .ok ∨ r = .dup) :
    (ρ'.topup.get a.operationId).isSome := by
  cases h with
  | dup hu => rw [hu]; rfl
  | missing => rcases hr with hr | hr <;> cases hr
  | applied =>
    show ((ρ.topup.set a.operationId a.userId).get a.operationId).isSome
    rw [Table.get_set_self]
    rfl

/-- **One step keeps what the markers stand for.** -/
theorem StepCase.marking (h : StepCase cfg s l s') (hs : Marking cfg tr s) (hk : l.keepsMarkers = true)
    (hi : inRange cfg ⟨s, l, s'⟩ = true) : Marking cfg (⟨s, l, s'⟩ :: tr) s' := by
  have hcommanded := h.commanded hs.commanded
  have hmarks := h.marks hs.commanded hk hi
  have hkept : ∀ o, (s.redis.topup.get o).isSome → (s'.redis.topup.get o).isSome := by
    intro o ho
    rcases hmarks with ⟨he, -⟩ | ⟨command, -, -, he, -, -⟩
    · rwa [he]
    · rw [he, Table.get_set]
      split
      · rfl
      · exact ho
  refine ⟨hcommanded, fun p command hret => ?_, fun o => ?_, fun o ho => ?_⟩
  · have old : s.procs p = .topUp command (.ended (.ok ())) →
        TopUpCalled (⟨s, l, s'⟩ :: tr) command ∧ (s'.redis.topup.get command.operationId).isSome := fun hret => by
      obtain ⟨hc, hm⟩ := hs.returned p command hret
      exact ⟨hc.step _, hkept _ hm⟩
    cases h.goes p with
    | same he => exact old (he ▸ hret)
    | @started job hl hidle he =>
      rw [hret] at he
      cases job with
      | topUp c =>
        injection he with hc hpc
        exact absurd hpc.symm (TopUpPc.start_ne cfg c)
      | _ => cases he
    | @resumed i now hg hd he =>
      rw [hret] at he
      cases hst : s.procs p with
      | topUp c pc =>
        rw [hst] at he
        simp only [Proc.resume, Proc.topUp.injEq] at he
        obtain ⟨rfl, hpc⟩ := he
        have hm := topUpMove cfg ⟨p, s.draws⟩ pc i
        rw [← hpc] at hm
        generalize hended : TopUpPc.ended (.ok ()) = pc' at hm
        cases hm with
        | stay => subst hended; exact old hst
        | @done t n k r hr =>
          have hact : (s.procs p).action cfg = .call (.topUp t.args) := by rw [hst]; rfl
          obtain ⟨htop, hcalled⟩ := hs.commanded p _ (.inl rfl) t (by rw [hst]; rfl)
          rw [hst] at htop
          cases htop
          have hok := hg.callOk hact rfl
          generalize s'.redis = ρ' at hok ⊢
          cases hok with
          | topUp hok => exact ⟨hcalled.step _, t.of.operationId ▸ hok.marks hr⟩
        | _ => cases hended
      | _ => rw [hst] at he; cases he
    | crashed hl he => rw [hret] at he; cases he
  · rw [List.countP_cons, hs.once]
    rcases hmarks with ⟨he, hnone⟩ | ⟨command, -, hnone, he, happlies, -⟩
    · rw [he, hnone]
      rfl
    · rw [he, happlies, Table.get_set]
      by_cases ho : command.operationId = o
      · subst ho
        simp [hnone]
      · simp [ho, Ne.symm ho]
  · have old : (s.redis.topup.get o).isSome → ∃ t ∈ (⟨s, l, s'⟩ : Trans System Label) :: tr, appliesTopUp cfg o t = true ∧
        ∃ command, TopUpCalled (⟨s, l, s'⟩ :: tr) command ∧ command.operationId = o ∧ Credits command t := fun ho => by
      obtain ⟨t, ht, ha, command, hc, hop, hcredits⟩ := hs.credited o ho
      exact ⟨t, List.mem_cons_of_mem _ ht, ha, command, hc.step _, hop, hcredits⟩
    rcases hmarks with ⟨he, -⟩ | ⟨command, hc, -, he, happlies, hcredits⟩
    · exact old (he ▸ ho)
    · by_cases hop : command.operationId = o
      · exact ⟨_, List.mem_cons_self .., by simp [happlies, hop], command, hc.step _, hop, hcredits⟩
      · rw [he, Table.get_set_of_ne _ _ (Ne.symm hop)] at ho
        exact old ho

end Step

theorem Runs.marking {cfg : Config} {pg : Rows} {tr : List (Trans System Label)} {s : System}
    (hr : Runs cfg (.start pg) tr s) (hk : ∀ t ∈ tr, t.label.keepsMarkers = true ∧ inRange cfg t = true) :
    Marking cfg tr s := by
  refine hr.invariant_history (I := fun tr s => Marking cfg tr s) hk ?_ fun _ _ hs h ht =>
    (step_cases h).marking hs ht.1 ht.2
  refine ⟨fun p st h t ht => ?_, fun p command hret => ?_, fun o => rfl, fun o ho => by cases ho⟩
  · rw [System.start_holds h] at ht
    cases ht
  · cases hret

/-! ## Every run -/

/-- The commands say the same: the user, and every amount by value. -/
def BalanceTopUp.SamePayload (a b : BalanceTopUp) : Prop :=
  a.userId = b.userId ∧ a.paidUsd.toRat = b.paidUsd.toRat ∧ a.bonusUsd.toRat = b.bonusUsd.toRat ∧
    a.freeRequests = b.freeRequests

theorem Credits.same {a b : BalanceTopUp} {t : Trans System Label} (h : Credits a t) (hs : a.SamePayload b) :
    Credits b t := by
  obtain ⟨hu, hp, hb, hf⟩ := hs
  unfold Credits at h ⊢
  rwa [hu, hp, hb, hf] at h

/-- **Top-ups are credited once.** While markers are kept and sums stay in range,
and as long as no two calls of `apply_top_up` with one `operation_id` differ in
the user or an amount: of the operation of every call that returned, one top-up
was applied, and it credited the call's own command. -/
theorem top_up_credited {cfg : Config} {pg : Rows} {tr : List (Trans System Label)} {s : System}
    (hr : Runs cfg (.start pg) tr s) (hk : ∀ t ∈ tr, t.label.keepsMarkers = true ∧ inRange cfg t = true)
    (hsame : ∀ a b, TopUpCalled tr a → TopUpCalled tr b → a.operationId = b.operationId → a.SamePayload b) {p : ℕ}
    {command : BalanceTopUp} (hret : s.procs p = .topUp command (.ended (.ok ()))) :
    tr.countP (appliesTopUp cfg command.operationId) = 1 ∧
      ∃ t ∈ tr, appliesTopUp cfg command.operationId t = true ∧ Credits command t := by
  have hs := Runs.marking hr hk
  obtain ⟨hcalled, hmarked⟩ := hs.returned p command hret
  obtain ⟨t, ht, happlies, c, hc, hop, hcredits⟩ := hs.credited command.operationId hmarked
  refine ⟨by rw [hs.once, if_pos hmarked], t, ht, happlies, hcredits.same (hsame c command hc hcalled hop)⟩

/-- A call of `apply_top_up` that returned. -/
def Proc.toppedUp : Proc → Option BalanceTopUp
  | .topUp command (.ended (.ok ())) => some command
  | _ => none

theorem Proc.toppedUp_some {st : Proc} {command : BalanceTopUp} (h : st.toppedUp = some command) :
    st = .topUp command (.ended (.ok ())) := by
  unfold Proc.toppedUp at h
  split at h
  · rw [Option.some.inj h]
  · cases h

/-- The command that `apply_top_up` is called with. -/
def Label.toppingUp : Label → Option BalanceTopUp
  | .spawn _ (.topUp command) => some command
  | _ => none

/-- Half a dollar for a user, under operation 9. -/
def halfDollar (u : UserId) : BalanceTopUp where
  operationId := 9
  userId := u
  paidUsd := ⟨5, -1⟩

/-- The reply of the first call is lost, and the caller makes the same call again. -/
theorem top_up_credited_twice_called :
    ∃ tr s, Runs {} (.start dollarRows) tr s ∧ s.redis.hot 1 .paidUsd = 1500000 ∧
      tr.countP (appliesTopUp {} (halfDollar 1).operationId) = 1 ∧
      ∃ t ∈ tr, appliesTopUp {} (halfDollar 1).operationId t = true ∧ Credits (halfDollar 1) t := by
  obtain ⟨tr, s, hr, h⟩ := Runs.of_schedule {} (.start dollarRows)
    (.spawn 0 (.topUp (halfDollar 1)) :: .exec 0 [] 0 :: coldLoad 0 ++
      [.abandon 0, .late 0 [], .crash 0, .spawn 1 (.topUp (halfDollar 1)), .exec 1 [] 0])
    (fun tr s => (tr.all fun t => t.label.keepsMarkers && inRange {} t &&
        t.label.toppingUp.all fun c => decide (c = halfDollar 1)) &&
      s.redis.hot 1 .paidUsd == 1500000 && decide ((s.procs 1).toppedUp = some (halfDollar 1))) (by decide +kernel)
  simp only [Bool.and_eq_true, List.all_eq_true, beq_iff_eq, Option.all_eq_true, decide_eq_true_eq] at h
  obtain ⟨⟨htr, hhot⟩, hret⟩ := h
  have hcalled : ∀ c, TopUpCalled tr c → c = halfDollar 1 := by
    rintro c ⟨-, t, ht, p, hl⟩
    exact (htr t ht).2 c (by rw [hl]; rfl)
  refine ⟨tr, s, hr, hhot, top_up_credited hr (fun t ht => (htr t ht).1) (fun a b ha hb _ => ?_)
    (Proc.toppedUp_some hret)⟩
  rw [hcalled a ha, hcalled b hb]
  exact ⟨rfl, rfl, rfl, rfl⟩

/-- Two users are to get half a dollar each under one `operation_id`: both calls
return, and the second user gets nothing. -/
theorem top_up_swallowed :
    ∃ tr s, Runs {} (.start dollarRows) tr s ∧ (∀ t ∈ tr, t.label.keepsMarkers = true ∧ inRange {} t = true) ∧
      s.procs 1 = .topUp (halfDollar 2) (.ended (.ok ())) ∧ ¬ ∃ t ∈ tr, Credits (halfDollar 2) t := by
  obtain ⟨tr, s, hr, h⟩ := Runs.of_schedule {} (.start dollarRows)
    (.spawn 0 (.topUp (halfDollar 1)) :: .exec 0 [] 0 :: coldLoad 0 ++
      [.exec 0 [] 0, .spawn 1 (.topUp (halfDollar 2)), .exec 1 [] 0])
    (fun tr s => (tr.all fun t => t.label.keepsMarkers && inRange {} t && (t.pre.redis.bal.get 2).isNone) &&
      decide ((s.procs 1).toppedUp = some (halfDollar 2))) (by decide +kernel)
  simp only [Bool.and_eq_true, List.all_eq_true, decide_eq_true_eq] at h
  obtain ⟨htr, hret⟩ := h
  refine ⟨tr, s, hr, fun t ht => (htr t ht).1, Proc.toppedUp_some hret, ?_⟩
  · rintro ⟨t, ht, b, c, hb, -⟩
    have hb : t.pre.redis.bal.get 2 = some b := hb
    have := (htr t ht).2
    rw [hb] at this
    cases this

end GenerationBalance
