/-
Whose content and bill a call returns. `_resolve_duplicate` compares the payload of
the record it begins with, but not of the records it polls; and `SETTLE` finds the
record it completes by its id alone. Where neither meets a record of another payload,
what a call returns was made for its own.
-/
import GenerationBalance.Outcomes
import GenerationBalance.Stopped

namespace GenerationBalance

open Transition

/-! ## Payloads -/

/-- What makes two requests with one id the same. -/
def GenerationRequest.payload (request : GenerationRequest) : UserId × DialogId × String :=
  (request.userId, request.dialogId, request.modelName)

def GenerationHash.payload (g : GenerationHash) : UserId × DialogId × String := (g.userId, g.dialogId, g.modelName)

/-- One id and one payload. -/
def GenerationRequest.SameAs (a b : GenerationRequest) : Prop :=
  a.clientRequestId = b.clientRequestId ∧ a.payload = b.payload

theorem GenerationHash.Of.payload {g : GenerationHash} {v : Reservation} (h : g.Of v) :
    g.payload = v.request.payload := by
  obtain ⟨hu, hd, hm, -⟩ := h
  simp only [GenerationHash.payload, hu, hd, hm]
  rfl

theorem GenerationHash.Of.authorizedCostUsd {g : GenerationHash} {v : Reservation} (h : g.Of v) :
    g.authorizedCostUsd = v.authorizedCostUsd := h.2.2.2.2.1

/-! ## What a run gave out -/

/-- What the provider gave in a transition: the request of the call it gave it to,
the content and the bill. -/
def gave (t : Trans System Label) : Option (GenerationRequest × PyStr × Number) :=
  match t.label with
  | .provided p (.result content bill) => (t.pre.procs p).request.map (·, content, bill)
  | _ => none

/-- The provider gave the result that a settlement is of. -/
def Gave (tr : List (Trans System Label)) (S : Settlement) : Prop :=
  ∃ t ∈ tr, gave t = some (S.reservation.request, (S.content : PyStr), S.bill)

/-- `RESERVE` was applied for a reservation. -/
def Reserved (cfg : Config) (tr : List (Trans System Label)) (v : Reservation) : Prop :=
  ∃ t ∈ tr, ∃ x n, ran cfg t = some x ∧ x.call = .reserve v.args ∧ x.reply = .reserve (.ok n)

/-- The result is of generations for the request's own payload: a provider's result
for it, at what was charged or at what was authorized. -/
def OwnResult (cfg : Config) (tr : List (Trans System Label)) (request : GenerationRequest) (r : GenerationResult) :
    Prop :=
  ∃ S, Gave tr S ∧ S.reservation.request.SameAs request ∧ r.content = S.content ∧
    (r.billedCostUsd = S.charged ∨
      ∃ v, Reserved cfg tr v ∧ v.request.SameAs request ∧ r.billedCostUsd = microsToMoney v.authorizedCostUsd)

/-- What is known of a record: who it was reserved for, and whose result it has. -/
structure Recorded (cfg : Config) (tr : List (Trans System Label)) (id : RequestId) (g : GenerationHash) : Prop where
  reserved : ∃ v, Reserved cfg tr v ∧ v.id = id ∧ g.Of v
  settled : g.status = .done → ∃ S n, Gave tr S ∧ S.reservation.id = id ∧
    S.reservation.request.payload = g.payload ∧ g.content = some S.content ∧ g.billedCostUsd = some n ∧
    S.charged = microsToMoney n

section Older

variable {cfg : Config} {tr : List (Trans System Label)} {t : Trans System Label}

theorem Gave.older {S : Settlement} (h : Gave tr S) : Gave (t :: tr) S := by
  obtain ⟨t', ht, hp⟩ := h
  exact ⟨t', List.mem_cons_of_mem _ ht, hp⟩

theorem Reserved.older {v : Reservation} (h : Reserved cfg tr v) : Reserved cfg (t :: tr) v := by
  obtain ⟨t', ht, hx⟩ := h
  exact ⟨t', List.mem_cons_of_mem _ ht, hx⟩

theorem Recorded.older {id : RequestId} {g : GenerationHash} (h : Recorded cfg tr id g) :
    Recorded cfg (t :: tr) id g := by
  obtain ⟨⟨v, hv, hof⟩, hsettled⟩ := h
  refine ⟨⟨v, hv.older, hof⟩, fun hd => ?_⟩
  obtain ⟨S, n, hS, hrest⟩ := hsettled hd
  exact ⟨S, n, hS.older, hrest⟩

theorem OwnResult.older {request : GenerationRequest} {r : GenerationResult} (h : OwnResult cfg tr request r) :
    OwnResult cfg (t :: tr) request r := by
  obtain ⟨S, hS, hsame, hc, hb⟩ := h
  refine ⟨S, hS.older, hsame, hc, hb.imp_right ?_⟩
  rintro ⟨v, hv, hrest⟩
  exact ⟨v, hv.older, hrest⟩

end Older

/-- What a call returns of a record of its own payload. -/
theorem Recorded.ownResult {cfg : Config} {tr : List (Trans System Label)} {request : GenerationRequest}
    {g : GenerationHash} (h : Recorded cfg tr request.clientRequestId g) (hd : g.status = .done)
    (hp : g.payload = request.payload) : OwnResult cfg tr request (duplicateResult request g) := by
  obtain ⟨⟨v, hv, hid, hof⟩, hsettled⟩ := h
  obtain ⟨S, n, hS, hSid, hSp, hcontent, hbilled, hcharged⟩ := hsettled hd
  refine ⟨S, hS, ⟨hSid, hSp.trans hp⟩, ?_, ?_⟩
  · simp only [duplicateResult, recordFromFields, hcontent, textOrNone_getD]
  · simp only [duplicateResult, recordFromFields, hbilled, Option.map_some, orMoney]
    split
    · exact .inr ⟨v, hv, ⟨hid, hof.payload.symm.trans hp⟩, by rw [hof.authorizedCostUsd]⟩
    · exact .inl hcharged.symm

/-! ## The two checks that are missing -/

/-- A poll that finds its record done finds one of its own payload. -/
def pollsOwn (t : Trans System Label) : Bool :=
  match t.label with
  | .exec p _ _ =>
    match t.pre.procs p with
    | .gen request (.polling _) =>
      (t.pre.redis.gen.get request.clientRequestId).all fun g => g.status ≠ .done || g.payload = request.payload
    | _ => true
  | _ => true

/-- A settlement that finds its record running finds one of its own payload. -/
def settlesOwn (cfg : Config) (t : Trans System Label) : Bool :=
  match ran cfg t with
  | some x =>
    match x.st.settlement, x.call with
    | some S, .settle _ =>
      (t.pre.redis.gen.get S.reservation.id).all fun g =>
        g.status ≠ .running || g.payload = S.reservation.request.payload
    | _, _ => true
  | none => true

def meetsOwn (cfg : Config) (t : Trans System Label) : Bool := pollsOwn t && settlesOwn cfg t

theorem pollsOwn_payload {s s' : System} {p : ℕ} {pick : List UserId} {now : ℚ} {request : GenerationRequest} {k : ℕ}
    {g : GenerationHash} (h : pollsOwn ⟨s, .exec p pick now, s'⟩ = true) (hp : s.procs p = .gen request (.polling k))
    (hg : s.redis.gen.get request.clientRequestId = some g) (hd : g.status = .done) : g.payload = request.payload := by
  simp only [pollsOwn, hp, hg, Option.all_some] at h
  simpa [hd] using h

theorem settlesOwn_payload {cfg : Config} {t : Trans System Label} {x : Ran} {S : Settlement} {g : GenerationHash}
    (h : settlesOwn cfg t = true) (hx : ran cfg t = some x) (hS : x.st.settlement = some S)
    (hc : x.call = .settle S.args) (hg : t.pre.redis.gen.get S.reservation.id = some g) (hr : g.status = .running) :
    g.payload = S.reservation.request.payload := by
  simp only [settlesOwn, hx, hS, hc, hg, Option.all_some] at h
  simpa [hr] using h

section Step

variable {cfg : Config} {tr : List (Trans System Label)} {s s' : System} {l : Label}

/-- A settlement that a call makes is of a result that the provider gave. -/
theorem StepCase.gave (h : StepCase cfg s l s') (hf : s.Formed)
    (hs : ∀ p st, s.Holds p st → ∀ S, st.settlement = some S → Gave tr S) :
    ∀ p st, s'.Holds p st → ∀ S, st.settlement = some S → Gave (⟨s, l, s'⟩ :: tr) S := by
  refine h.held (Q := fun _ st => ∀ S, st.settlement = some S → Gave (⟨s, l, s'⟩ :: tr) S)
    (fun p st hh S hS => (hs p st hh S hS).older) (fun _ h => h) (fun st hb S hS => ?_) fun p i now hg _ ih S hS => ?_
  · rw [hb.settlement] at hS
    cases hS
  · rcases Proc.resume_settlement hS with hS | ⟨request, v, content, bill, hst, rfl, hm⟩
    · exact ih S hS
    obtain ⟨rfl, rfl, rfl⟩ := makeSettlement_ok hm
    have hreq := (hf p _ (.inl rfl)).owned S.reservation (by rw [hst]; rfl)
    have hl := hg.provided_label
    refine ⟨_, List.mem_cons_self .., ?_⟩
    simp only [GenerationBalance.gave, hl, hreq, Option.map_some]

/-- **Records keep what is known of them**, when a settlement meets only records of
its own payload. -/
theorem StepCase.recorded (h : StepCase cfg s l s') (hown : settlesOwn cfg ⟨s, l, s'⟩ = true)
    (hprov : ∀ p st, s.Holds p st → ∀ S, st.settlement = some S → Gave tr S)
    (hs : ∀ id g, s.redis.gen.get id = some g → Recorded cfg tr id g) {id : RequestId} {g : GenerationHash}
    (hg : s'.redis.gen.get id = some g) : Recorded cfg (⟨s, l, s'⟩ :: tr) id g := by
  have same : s'.redis.gen = s.redis.gen → Recorded cfg (⟨s, l, s'⟩ :: tr) id g := fun he =>
    (hs id g (he ▸ hg)).older
  cases h.store with
  | same _ he => exact same (by rw [he])
  | expired _ he =>
    generalize hρ : s'.redis = ρ' at he
    rw [hρ] at same hg
    cases he with
    | generation k =>
      replace hg : (s.redis.gen.del k).get id = some g := hg
      rw [Table.get_del] at hg
      split at hg
      · cases hg
      · exact (hs id g hg).older
    | _ => exact same rfl
  | @ran x pick hx hheld ha he =>
    rcases exec_cases he with hok | ⟨-, hstop⟩
    · have hsend := Proc.sends ha
      cases hok.genChange with
      | same hgen => exact same hgen
      | @created a n hc hrep hnone hset =>
        rw [hset, Table.get_set] at hg
        split at hg
        · next hid =>
          cases hg
          rw [hc] at hsend
          obtain ⟨v, hv, rfl⟩ := hsend.of_reserve
          exact ⟨⟨v, ⟨_, List.mem_cons_self .., x, n, hx, hc, hrep⟩, hid.symm, .refl _⟩, nofun⟩
        · exact (hs id g hg).older
      | @settled a r hc hrep hrec hrun hset =>
        rw [hset, Table.get_set] at hg
        split at hg
        · next hid =>
          cases hg
          rw [hc] at hsend
          obtain ⟨S, hS, rfl⟩ := hsend.of_settle
          obtain ⟨n, hsound⟩ := S.sound
          have hSid : S.args.clientRequestId = S.reservation.id := hsound.clientRequestId
          obtain ⟨⟨v, hv, hvid, hof⟩, -⟩ := hs _ _ hrec
          have hpay := settlesOwn_payload hown hx hS hc (hSid ▸ hrec) hrun
          refine ⟨⟨v, hv.older, hvid.trans hid.symm, hof⟩, fun _ => ?_⟩
          refine ⟨S, n, (hprov _ _ hheld S hS).older, hSid.symm.trans hid.symm, hpay.symm, ?_, ?_, hsound.charged⟩
          · exact congrArg some hsound.content
          · exact congrArg some hsound.billed
        · exact (hs id g hg).older
      | @refunded a r hc hrep hrec hrun hset =>
        rw [hset, Table.get_set] at hg
        split at hg
        · next hid =>
          cases hg
          obtain ⟨⟨v, hv, hvid, hof⟩, -⟩ := hs _ _ hrec
          exact ⟨⟨v, hv.older, hvid.trans hid.symm, hof⟩, nofun⟩
        · exact (hs id g hg).older
    · exact same hstop.gen

end Step

/-! ## The check that is there -/

theorem resolveDuplicate_ok {request : GenerationRequest} {k : ℕ} {g : GenerationHash} {r : GenerationResult}
    (h : resolveDuplicate request k (recordFromFields g) = .ended (.ok r)) : g.payload = request.payload := by
  unfold resolveDuplicate at h
  split at h
  · cases h
  · next hsame => exact not_not.mp hsame

/-- A record that a call returns has its payload, unless it was polled. -/
theorem Looks.payload {cfg : Config} {request : GenerationRequest} {fresh : Token} {now : ℚ} {pc : GenPc} {i : Input}
    {g : GenerationHash} {r : GenerationResult} (h : Looks pc i g)
    (hr : pc.resume cfg request fresh now i = .ended (.ok r)) :
    (∃ k, pc = .polling k ∧ i = .reply (.record (some g))) ∨ g.payload = request.payload := by
  cases h with
  | denied => exact .inr (resolveDuplicate_ok hr)
  | polled => exact .inl ⟨_, rfl, rfl⟩
  | @duplicate v n k g ht =>
    have ho : reserveOutcome v.token (.dup g) = .duplicate g := if_neg ht
    simp only [GenPc.resume, ho] at hr
    exact .inr (resolveDuplicate_ok hr)

/-! ## Runs -/

/-- What is known in a state of a run. -/
structure Owned (cfg : Config) (tr : List (Trans System Label)) (s : System) : Prop where
  formed : s.Formed
  gave : ∀ p st, s.Holds p st → ∀ S, st.settlement = some S → Gave tr S
  recorded : ∀ id g, s.redis.gen.get id = some g → Recorded cfg tr id g
  ended : ∀ p request r, s.procs p = .gen request (.ended (.ok r)) → OwnResult cfg tr request r

section Step

variable {cfg : Config} {tr : List (Trans System Label)} {s s' : System} {l : Label}

theorem StepCase.ended (h : StepCase cfg s l s') (hs : Owned cfg tr s) (hown : pollsOwn ⟨s, l, s'⟩ = true) {p : ℕ}
    {request : GenerationRequest} {r : GenerationResult} (hp : s'.procs p = .gen request (.ended (.ok r))) :
    OwnResult cfg (⟨s, l, s'⟩ :: tr) request r := by
  cases h.goes p with
  | same he => exact (hs.ended p request r (he ▸ hp)).older
  | @started job hl hi he =>
    rw [he] at hp
    cases job with
    | gen request' =>
      simp only [Job.start, GenPc.start] at hp
      split at hp <;> cases hp
    | _ => cases hp
  | crashed hl he => rw [he] at hp; cases hp
  | @resumed i now hg hd he =>
    rw [he] at hp
    obtain ⟨pc, hst, hm⟩ := Proc.resume_gen hp
    have hr : pc.resume cfg request ⟨p, s.draws⟩ now i = .ended (.ok r) := by
      rw [hst] at hp
      simpa [Proc.resume] using hp
    cases hm.returns with
    | ended => exact (hs.ended p request r hst).older
    | @settled S n k rep _ =>
      have hS : (s.procs p).settlement = some S := by rw [hst]; rfl
      have hreq := (hs.formed p _ (.inl rfl)).owned S.reservation (by rw [hst]; rfl)
      rw [hst] at hreq
      cases hreq
      exact ⟨S, (hs.gave p _ (.inl rfl) S hS).older, ⟨rfl, rfl⟩, rfl, .inl rfl⟩
    | @duplicate pc i g hl hdone =>
      obtain ⟨hrec, -⟩ := hg.looks hs.formed hst hl
      refine (Recorded.ownResult (hs.recorded _ _ hrec) hdone ?_).older
      rcases hl.payload hr with ⟨k, rfl, rfl⟩ | hpay
      · cases hg with
        | @reply _ pick now' c r' hc hx hpg => exact pollsOwn_payload hown hst hrec hdone
        | feed hf => cases hf
      · exact hpay

theorem StepCase.ownedResults (h : StepCase cfg s l s') (hs : Owned cfg tr s)
    (hown : meetsOwn cfg ⟨s, l, s'⟩ = true) : Owned cfg (⟨s, l, s'⟩ :: tr) s' := by
  rw [meetsOwn, Bool.and_eq_true] at hown
  exact
    { formed := h.formed hs.formed
      gave := h.gave hs.formed hs.gave
      recorded := fun _ _ hg => h.recorded hown.2 hs.gave hs.recorded hg
      ended := fun _ _ _ hp => h.ended hs hown.1 hp }

end Step

theorem System.start_owned (cfg : Config) (pg : Rows) : Owned cfg [] (System.start pg) where
  formed := System.start_formed pg
  gave p st hh S hS := by rw [System.start_holds hh] at hS; cases hS
  recorded id g hg := by cases hg
  ended p request r hp := by cases hp

/-- **What a call returns was made for its own payload**, in every run in which no
poll and no settlement meets a record of another one. -/
theorem own_results {cfg : Config} {pg : Rows} {tr : List (Trans System Label)} {s : System}
    (hr : Runs cfg (System.start pg) tr s) (hown : ∀ t ∈ tr, meetsOwn cfg t = true) {p : ℕ}
    {request : GenerationRequest} {r : GenerationResult} (hp : s.procs p = .gen request (.ended (.ok r))) :
    OwnResult cfg tr request r := by
  have hinv : Owned cfg tr s := hr.invariant_history (I := Owned cfg) hown (System.start_owned cfg pg)
    fun _ _ ih hs hp => (step_cases hs).ownedResults ih hp
  exact hinv.ended p request r hp

/-- The request `premium 1 5` again, for another dialog. -/
def otherDialog : GenerationRequest := { premium 1 5 with dialogId := 9 }

/-- A second delivery waits for the first one's result. -/
def waitedSchedule : List Label :=
  .spawn 0 (.gen (premium 1 5)) :: coldLoad 0 ++
    [.exec 0 [] 0, .provider 0, .spawn 1 (.gen (premium 1 5)), .exec 1 [] 0, .exec 1 [] 0,
      .provided 0 (.result "text" (.finite ⟨5, -2⟩)), .exec 0 [] 0, .wake 1, .exec 1 [] 0]

/-- While the second delivery waits, the record expires, and its id is used for
another dialog. -/
def leakedSchedule : List Label :=
  .spawn 0 (.gen (premium 1 5)) :: coldLoad 0 ++
    [.exec 0 [] 0, .provider 0, .spawn 1 (.gen (premium 1 5)), .exec 1 [] 0, .exec 1 [] 0, .expireGeneration 5,
      .spawn 2 (.gen otherDialog), .exec 2 [] 0, .exec 2 [] 0, .provider 2,
      .provided 2 (.result "secret" (.finite ⟨5, -2⟩)), .exec 2 [] 0, .wake 1, .exec 1 [] 0]

/-- A delivery that waited returns what the first one was given. -/
theorem own_results_waited : ∃ tr s r, Runs {} (System.start dollarRows) tr s ∧
    s.procs 1 = .gen (premium 1 5) (.ended (.ok r)) ∧ OwnResult {} tr (premium 1 5) r := by
  obtain ⟨tr, s, hr, hp⟩ := Runs.of_schedule {} (System.start dollarRows) waitedSchedule
    (fun tr s => tr.all (meetsOwn {}) && (s.procs 1).returned (premium 1 5)) (by decide +kernel)
  simp only [Bool.and_eq_true, List.all_eq_true] at hp
  obtain ⟨r, hended⟩ := Proc.returned_true hp.2
  exact ⟨tr, s, r, hr, hended, own_results hr hp.1 hended⟩

/-- A call returns the content of another dialog. -/
theorem content_leaked : ¬ ∀ (cfg : Config) (pg : Rows) (tr : List (Trans System Label)) (s : System),
    Runs cfg (System.start pg) tr s → ∀ (p : ℕ) (request : GenerationRequest) (r : GenerationResult),
    s.procs p = .gen request (.ended (.ok r)) → OwnResult cfg tr request r := by
  intro h
  obtain ⟨tr, s, hr, hp⟩ := Runs.of_schedule {} (System.start dollarRows) leakedSchedule
    (fun tr s => tr.all (fun t => (gave t).all fun x => x.1.payload ≠ (premium 1 5).payload) &&
      (s.procs 1).returned (premium 1 5)) (by decide +kernel)
  simp only [Bool.and_eq_true, List.all_eq_true] at hp
  obtain ⟨r, hended⟩ := Proc.returned_true hp.2
  obtain ⟨S, ⟨t, ht, hgave⟩, hsame, -⟩ := h {} dollarRows tr s hr 1 (premium 1 5) r hended
  have hother := hp.1 t ht
  rw [hgave] at hother
  simp [hsame.2] at hother

end GenerationBalance
