/-
Calls that are refused: the policy denies them, their record is another's or still
runs, or the rounds of `_reserve` are used up. A refused call has changed nothing
unless Redis applied a `RESERVE` that the call gave up, and that it made no more when
it was refused.
-/
import GenerationBalance.Refusals
import GenerationBalance.Stopped

namespace GenerationBalance

open Transition

/-! ## Refused calls -/

/-- A call ended with `e`, a refusal, or a contention that `_reserve` raised. -/
def Refused (tr : List (Trans System Label)) (s : System) (p : ℕ) (request : GenerationRequest) (e : Exn) : Prop :=
  s.procs p = .gen request (.ended (.error e)) ∧
    (e.isRefusal = true ∨ e.isContention = true ∧
      ∃ t ∈ tr, (t.pre.procs p).inReserve = true ∧ t.post.procs p = .gen request (.ended (.error e)))

/-- A request leaves the store as it is, but for a load lock and a balance it seeds. -/
structure Leaves (c : Call) (ρ ρ' : Redis) : Prop where
  gen : ρ'.gen = ρ.gen
  inflight : ρ'.inflight = ρ.inflight
  dirty : ρ'.dirty = ρ.dirty
  bal : ρ'.bal = ρ.bal ∨ ∃ u b, c = .seedIfAbsent u b ∧ ρ.bal.get u = none ∧ ρ'.bal = ρ.bal.set u b

/-- In a transition the call `p` changed nothing but for a cold load, and did not call
the provider. -/
def Abstains (cfg : Config) (p : ℕ) (t : Trans System Label) : Prop :=
  t.label ≠ .provider p ∧
    ∀ x, ran cfg t = some x → x.owner = p → Leaves x.call t.pre.redis t.post.redis

/-! ## What a call requests -/

/-- The requests of a loader take and release its lock, or seed an absent balance. -/
theorem LoaderPc.leaves {u : UserId} {l : LoaderPc} {c : Call} (hc : l.action u = .call c) {pick : List UserId}
    {ρ ρ' : Redis} {r : Reply} (he : exec pick ρ c = some (r, ρ')) : Leaves c ρ ρ' := by
  cases l with
  | load | recheck =>
    cases hc
    cases he
    exact ⟨rfl, rfl, rfl, .inl rfl⟩
  | tryLock t =>
    cases hc
    simp only [exec] at he
    split at he <;> cases he <;> exact ⟨rfl, rfl, rfl, .inl rfl⟩
  | seed t b =>
    cases hc
    simp only [exec, seedIfAbsent] at he
    cases hb : ρ.bal.get u with
    | none =>
      rw [hb] at he
      cases he
      exact ⟨rfl, rfl, rfl, .inr ⟨u, b, rfl, hb, rfl⟩⟩
    | some c =>
      rw [hb] at he
      cases he
      exact ⟨rfl, rfl, rfl, .inl rfl⟩
  | release t e =>
    cases hc
    simp only [exec, releaseLoadLock] at he
    split at he <;> cases he <;> exact ⟨rfl, rfl, rfl, .inl rfl⟩
  | select | poll => cases hc

/-- What a call requests in `_reserve`: to reserve, or what leaves the store as it is. -/
theorem Proc.inReserve_call {cfg : Config} {st : Proc} {c : Call} (h : st.inReserve = true)
    (hc : st.action cfg = .call c) :
    (∃ v, st.reserving = some v ∧ c = .reserve v.args) ∨
      ∀ {pick : List UserId} {ρ ρ' : Redis} {r : Reply}, exec pick ρ c = some (r, ρ') → Leaves c ρ ρ' := by
  cases st with
  | gen request pc =>
    cases pc with
    | loading k l => exact .inr (LoaderPc.leaves hc)
    | reserving v n k => cases hc; exact .inl ⟨v, rfl, rfl⟩
    | denied e k | polling k =>
      cases hc
      refine .inr fun he => ?_
      cases he
      exact ⟨rfl, rfl, rfl, .inl rfl⟩
    | waiting => cases hc
    | _ => cases h
  | _ => cases h

/-! ## Attempts that were given up -/

/-- `RESERVE` would debit the plan. -/
def Redis.accepts (ρ : Redis) (v : Reservation) : Bool :=
  (ρ.gen.get v.id).isNone && (ρ.bal.get v.request.userId).any (·.version = v.snapshot.version)

theorem Redis.not_accepts {ρ ρ' : Redis} {v : Reservation} {pick : List UserId} {r : Reply}
    (h : ρ.accepts v = false) (he : exec pick ρ (.reserve v.args) = some (r, ρ')) : ρ' = ρ := by
  simp only [exec, reserve, Script.store_bind, Option.some.injEq] at he
  cases hg : ρ.gen.get v.id with
  | some g =>
    have hg' : ρ.gen.get v.args.clientRequestId = some g := hg
    rw [hg'] at he
    cases he
    rfl
  | none =>
    have hg' : ρ.gen.get v.args.clientRequestId = none := hg
    cases hb : ρ.bal.get v.request.userId with
    | none =>
      have hb' : ρ.bal.get v.args.userId = none := hb
      simp only [hg', hb'] at he
      cases he
      rfl
    | some b =>
      have hb' : ρ.bal.get v.args.userId = some b := hb
      have hv : b.version ≠ v.snapshot.version := by
        simpa [Redis.accepts, hg, hb] using h
      have hv' : b.version ≠ v.args.expectedVersion := hv
      simp only [hg', hb', if_pos hv'] at he
      cases he
      rfl

/-- A `RESERVE` the call gave up is not debited once the call makes another attempt, or
was refused, and no error stops one while the call still makes it. The record of the
attempt the call makes is kept. -/
def fenced (cfg : Config) (p : ℕ) (t : Trans System Label) : Bool :=
  match t.label with
  | .late i _ =>
    match t.pre.pool[i]? with
    | some (q, st) =>
      match st.reserving with
      | some v =>
        q ≠ p || !t.pre.redis.accepts v || !((t.pre.procs p).inReserve || (t.pre.procs p).refused) ||
          (t.pre.procs p).reserving.any (·.token = v.token) && inRange cfg t
      | none => true
    | none => true
  | .expireGeneration id =>
    !(t.pre.procs p).reserving.any fun v =>
      v.id = id && (t.pre.redis.gen.get id).any (·.reservationToken = v.token)
  | _ => true

/-- The record of the attempt that the call makes is its own. -/
def Landed (s : System) (p : ℕ) : Prop :=
  ∃ v g, (s.procs p).reserving = some v ∧ s.redis.gen.get v.id = some g ∧ g.reservationToken = v.token

/-- What the call gave up it requested in `_reserve`. -/
def Asked (s : System) (p : ℕ) : Prop :=
  ∀ st, (p, st) ∈ s.pool → st.inReserve = true ∧ st.request = (s.procs p).request

section Step

variable {cfg : Config} {s s' : System} {l : Label} {p : ℕ}

theorem StepCase.asked (h : StepCase cfg s l s') (hs : Asked s p)
    (hp : (s.procs p = .idle ∨ (s.procs p).inReserve = true) ∨ (s.procs p).refused = true)
    (hr : (s'.procs p).request = (s.procs p).request) : Asked s' p := by
  intro st hst
  rw [hr]
  rcases h.pooled hst with hold | ⟨-, hleft⟩
  · exact hs st hold
  · rcases hp with hp | hp
    · obtain ⟨rfl, hin⟩ := Proc.inReserve_leftovers hp hleft
      exact ⟨hin, rfl⟩
    · rw [Proc.refused_leftovers hp] at hleft
      cases hleft

/-- The fence at a late attempt that is debited. -/
theorem fenced_late {i : ℕ} {pick : List UserId} {st : Proc} {v : Reservation}
    (h : fenced cfg p ⟨s, .late i pick, s'⟩ = true) (hi : s.pool[i]? = some (p, st)) (hv : st.reserving = some v)
    (ha : s.redis.accepts v = true) (hp : (s.procs p).inReserve = true ∨ (s.procs p).refused = true) :
    (∃ w, (s.procs p).reserving = some w ∧ w.token = v.token) ∧ inRange cfg ⟨s, .late i pick, s'⟩ = true := by
  simp only [fenced, hi, hv, ha] at h
  have hopen : ((s.procs p).inReserve || (s.procs p).refused) = true := by simpa using hp
  simp only [hopen, ne_eq, not_true_eq_false, decide_false, Bool.not_true, Bool.or_self, Bool.false_or,
    Bool.and_eq_true, Option.any_eq_true, decide_eq_true_eq] at h
  exact h

/-- The fence at a record that expires. -/
theorem fenced_expire {id : RequestId} {v : Reservation} {g : GenerationHash}
    (h : fenced cfg p ⟨s, .expireGeneration id, s'⟩ = true) (hv : (s.procs p).reserving = some v)
    (hg : s.redis.gen.get v.id = some g) (ht : g.reservationToken = v.token) : v.id ≠ id := by
  rintro rfl
  simp [fenced, hv, hg, ht] at h

/-- **A record of the call's own stays**, while the call makes the attempt it is of. -/
theorem StepCase.landed (h : StepCase cfg s l s') (hf : fenced cfg p ⟨s, l, s'⟩ = true) {v : Reservation}
    {g : GenerationHash} (hv : (s.procs p).reserving = some v) (hg : s.redis.gen.get v.id = some g)
    (ht : g.reservationToken = v.token) : ∃ g', s'.redis.gen.get v.id = some g' ∧ g'.reservationToken = v.token := by
  cases h.store with
  | same _ he => exact ⟨g, by rw [he]; exact hg, ht⟩
  | expired _ he =>
    generalize s'.redis = ρ' at he ⊢
    cases he with
    | generation id => exact ⟨g, (Table.get_del_of_ne _ (fenced_expire hf hv hg ht)).trans hg, ht⟩
    | _ => exact ⟨g, hg, ht⟩
  | ran _ _ _ he =>
    rcases exec_cases he with hok | ⟨-, hstop⟩
    · obtain ⟨g', hg', hstep⟩ := hok.genStep hg
      obtain ⟨-, -, -, -, -, -, htoken⟩ := hstep.sameReservation
      exact ⟨g', hg', htoken.symm.trans ht⟩
    · exact ⟨g, by rw [hstop.gen]; exact hg, ht⟩

/-- What comes of a call's request in `_reserve`. -/
inductive Attempted (cfg : Config) (s : System) (l : Label) (s' : System) (p : ℕ) : Prop
  | abstained : Abstains cfg p ⟨s, l, s'⟩ → Attempted cfg s l s' p
  /-- An attempt the call still makes was debited. -/
  | landed : Landed s' p → Attempted cfg s l s' p
  | reserved {request v} : s'.procs p = .gen request (.calling v) → Attempted cfg s l s' p
  | stopped {request} : s'.procs p = .gen request (.ended (.error .response)) → Attempted cfg s l s' p

/-- The call's request left the store as it is. -/
theorem Attempted.of_leaves {x : Ran} (hr : ran cfg ⟨s, l, s'⟩ = some x) (hnot : l ≠ .provider x.owner)
    (hl : Leaves x.call s.redis s'.redis) : Attempted cfg s l s' x.owner := by
  refine .abstained ⟨hnot, fun y hy _ => ?_⟩
  rw [hr] at hy
  cases hy
  exact hl

theorem Attempted.of_same {x : Ran} (hr : ran cfg ⟨s, l, s'⟩ = some x) (hnot : l ≠ .provider x.owner)
    (he : s'.redis = s.redis) : Attempted cfg s l s' x.owner :=
  .of_leaves hr hnot ⟨by rw [he], by rw [he], by rw [he], .inl (by rw [he])⟩

/-- The call's own request. -/
theorem Attempted.of_own {x : Ran} {pick : List UserId} {fresh : Token} {now : ℚ} (hr : ran cfg ⟨s, l, s'⟩ = some x)
    (hnot : l ≠ .provider x.owner) (hin : (s.procs x.owner).inReserve = true)
    (hact : (s.procs x.owner).action cfg = .call x.call) (he : exec pick s.redis x.call = some (x.reply, s'.redis))
    (hresume : s'.procs x.owner = (s.procs x.owner).resume cfg fresh now (.reply x.reply)) :
    Attempted cfg s l s' x.owner := by
  rcases Proc.inReserve_call hin hact with ⟨v, hv, hcall⟩ | hleave
  · obtain ⟨request, k, n, hproc⟩ := Proc.reserving_gen hv
    rw [hproc] at hresume
    rw [hcall] at he
    generalize x.reply = r at he hresume
    rcases exec_cases he with hok | ⟨herr, -⟩
    · generalize hρ : s'.redis = ρ' at hok
      cases hok with
      | reserve hres =>
        cases hres with
        | applied => exact .reserved hresume
        | _ => exact .of_same hr hnot hρ
    · cases r with
      | error e => exact .stopped hresume
      | _ => cases herr
  · exact .of_leaves hr hnot (hleave he)

/-- A request that the call gave up. -/
theorem Attempted.of_late {x : Ran} {i : ℕ} {pick pick' : List UserId} (hr : ran cfg ⟨s, .late i pick, s'⟩ = some x)
    (hfm : s.Formed) (hf : fenced cfg x.owner ⟨s, .late i pick, s'⟩ = true) (hs : Asked s x.owner)
    (hp : (s.procs x.owner = .idle ∨ (s.procs x.owner).inReserve = true) ∨ (s.procs x.owner).refused = true)
    (hi : s.pool[i]? = some (x.owner, x.st)) (hact : x.st.action cfg = .call x.call)
    (he : exec pick' s.redis x.call = some (x.reply, s'.redis)) (hprocs : s'.procs = s.procs) :
    Attempted cfg s (.late i pick) s' x.owner := by
  have hnot : Label.late i pick ≠ .provider x.owner := by simp
  have hpool := List.mem_of_getElem? hi
  obtain ⟨hin, hreq⟩ := hs _ hpool
  rcases Proc.inReserve_call hin hact with ⟨v, hv, hcall⟩ | hleave
  · rw [hcall] at he
    have hvreq := (hfm _ _ (.inr hpool)).reserving v hv
    cases hacc : s.redis.accepts v with
    | false => exact .of_same hr hnot (Redis.not_accepts hacc he)
    | true =>
      have hopen : (s.procs x.owner).inReserve = true ∨ (s.procs x.owner).refused = true := by
        rcases hp with (hp | hp) | hp
        · rw [hp, hvreq] at hreq
          cases hreq
        · exact .inl hp
        · exact .inr hp
      obtain ⟨⟨w, hw, htoken⟩, hrange⟩ := fenced_late hf hi hv hacc hopen
      -- Both attempts are of the call's one request.
      have hid : v.id = w.id := by
        rw [hreq, (hfm _ _ (.inl rfl)).reserving w hw] at hvreq
        rw [Reservation.id, ← Option.some.inj hvreq]
        rfl
      have hok : CallOk s.redis (.reserve v.args) x.reply s'.redis := hcall ▸ callOk_of_ran hr hrange (hcall.symm ▸ he)
      generalize x.reply = r at hok
      generalize hρ : s'.redis = ρ' at hok
      cases hok with
      | reserve hres =>
        cases hres with
        | applied =>
          refine .landed ⟨w, v.args.record, by rw [hprocs, hw], ?_, htoken.symm⟩
          rw [hρ, ← hid]
          exact Table.get_set_self ..
        | _ => exact .of_same hr hnot hρ
  · exact .of_leaves hr hnot (hleave he)

theorem StepCase.attempted (h : StepCase cfg s l s') (hfm : s.Formed) (hf : fenced cfg p ⟨s, l, s'⟩ = true)
    (hs : Asked s p) (hp : (s.procs p = .idle ∨ (s.procs p).inReserve = true) ∨ (s.procs p).refused = true) :
    Attempted cfg s l s' p := by
  have hnot : l ≠ .provider p := by
    rintro rfl
    obtain ⟨request, v, hc, -⟩ := h.provider
    rw [hc] at hp
    rcases hp with (hp | hp) | hp <;> cases hp
  by_cases hx : ∃ x, ran cfg ⟨s, l, s'⟩ = some x ∧ x.owner = p
  · obtain ⟨x, hr, rfl⟩ := hx
    obtain ⟨_, -, hact, he⟩ := h.executed hr
    rcases h.runner hr with ⟨_, now, -, hst, hresume⟩ | ⟨i, _, rfl, hi, hprocs⟩
    · rw [hst] at hact
      have hin : (s.procs x.owner).inReserve = true := by
        rcases hp with (hp | hp) | hp
        · rw [hp] at hact
          cases hact
        · exact hp
        · obtain ⟨request, e, hend, -⟩ := Proc.refused_gen hp
          rw [hend] at hact
          cases hact
      exact .of_own hr hnot hin hact he hresume
    · exact .of_late hr hfm hf hs hp hi hact he hprocs
  · exact .abstained ⟨hnot, fun x hr ho => absurd ⟨x, hr, ho⟩ hx⟩

/-- How far a call has come that may be refused. -/
inductive Stage (cfg : Config) (p : ℕ) (tr : List (Trans System Label)) (s : System) : Prop
  /-- It has changed nothing yet, or has only to learn that its attempt was debited. -/
  | trying : s.procs p = .idle ∨ (s.procs p).inReserve = true → Asked s p →
      (∀ t ∈ tr, (t.pre.procs p).inReserve = true → (t.post.procs p).refused = false) →
      (∀ t ∈ tr, Abstains cfg p t) ∨ Landed s p → Stage cfg p tr s
  | refused : (s.procs p).refused = true → Asked s p → (∀ t ∈ tr, Abstains cfg p t) → Stage cfg p tr s
  /-- It is no more to be refused. -/
  | past : s.procs p ≠ .idle → (s.procs p).inReserve = false →
      (∀ request e, s.procs p = .gen request (.ended (.error e)) → e.isRefusal = false) →
      (∀ t ∈ tr, (t.pre.procs p).inReserve = true → (t.post.procs p).refused = false) → Stage cfg p tr s
  | crashed : s.procs p = .crashed → Stage cfg p tr s

/-- What becomes of a call whose record is its own: it is told so, or ends without an
answer. -/
theorem Given.landed {i : Input} {fresh : Token} {now : ℚ} {v : Reservation} {g : GenerationHash}
    (hg : Given cfg s s' l p i) (hv : (s.procs p).reserving = some v) (hr : s.redis.gen.get v.id = some g)
    (ht : g.reservationToken = v.token) :
    ((s.procs p).resume cfg fresh now i).reserving = some v ∨
      ((s.procs p).resume cfg fresh now i).inReserve = false ∧
        ((s.procs p).resume cfg fresh now i).refused = false := by
  have hact : (s.procs p).action cfg = .call (.reserve v.args) := Proc.reserving_action hv
  obtain ⟨request, n, k, hproc⟩ := Proc.reserving_gen hv
  rw [hproc]
  rcases hg.called hact with ⟨pick, r, rfl, -, he⟩ | ⟨rfl, -⟩
  · rcases exec_cases he with hok | ⟨herr, -⟩
    · generalize s'.redis = ρ' at hok
      cases hok with
      | reserve hres =>
        have hsome : s.redis.gen.get v.args.clientRequestId = some g := hr
        cases hres with
        | dup hd =>
          cases hd.symm.trans hsome
          have ho : reserveOutcome v.token (.dup g) = .reserved := if_pos ht
          simp only [Proc.resume, GenPc.resume, ho]
          exact .inr ⟨rfl, rfl⟩
        | missing hn | conflict hn | applied hn => cases hn.symm.trans hsome
    · cases r with
      | error e => exact .inr ⟨rfl, rfl⟩
      | _ => cases herr
  · simp only [Proc.resume, GenPc.resume, Config.retrying]
    split
    · exact .inr ⟨rfl, rfl⟩
    · exact .inl rfl

section

variable {tr : List (Trans System Label)}

theorem StepCase.stage_past (h : StepCase cfg s l s') (hpl : ∀ q st, s.Holds q st → st.Plain)
    (hidle : s.procs p ≠ .idle) (hin : (s.procs p).inReserve = false)
    (hplain : ∀ request e, s.procs p = .gen request (.ended (.error e)) → e.isRefusal = false)
    (hnb : ∀ t ∈ tr, (t.pre.procs p).inReserve = true → (t.post.procs p).refused = false) :
    Stage cfg p (⟨s, l, s'⟩ :: tr) s' := by
  have hnb' : ∀ t ∈ ⟨s, l, s'⟩ :: tr, (t.pre.procs p).inReserve = true → (t.post.procs p).refused = false := by
    refine List.forall_mem_cons.mpr ⟨fun hb => ?_, hnb⟩
    rw [hin] at hb
    cases hb
  cases h.goes p with
  | same he => exact .past (he ▸ hidle) (he ▸ hin) (fun request e hp => hplain request e (he ▸ hp)) hnb'
  | started _ hi => exact absurd hi hidle
  | crashed _ he => exact .crashed he
  | resumed hg _ he =>
    have hin' : (s'.procs p).inReserve = false := by
      rw [he]
      exact Proc.resume_past cfg _ _ _ hin
    refine .past (fun hi => ?_) hin' (fun request e hp => ?_) hnb'
    · rw [he] at hi
      exact hidle (Proc.resume_idle hi)
    · rw [he] at hp
      rcases (hpl p _ (.inl rfl)).ended hp with hold | ⟨k, hold, -⟩ | ⟨-, hn⟩
      · exact hplain request e hold
      · rw [hold] at hin
        cases hin
      · exact hn hin

theorem StepCase.stage_refused (h : StepCase cfg s l s') (hfm : s.Formed) (hf : fenced cfg p ⟨s, l, s'⟩ = true)
    (href : (s.procs p).refused = true) (hask : Asked s p) (hno : ∀ t ∈ tr, Abstains cfg p t) :
    Stage cfg p (⟨s, l, s'⟩ :: tr) s' := by
  obtain ⟨request, e, hend, -⟩ := Proc.refused_gen href
  cases h.goes p with
  | same he =>
    cases h.attempted hfm hf hask (.inr href) with
    | abstained ha =>
      exact .refused (he ▸ href) (h.asked hask (.inr href) (by rw [he])) (List.forall_mem_cons.mpr ⟨ha, hno⟩)
    | landed hl =>
      obtain ⟨v, g, hv, -⟩ := hl
      rw [he, hend] at hv
      cases hv
    | reserved hc => rw [he, hend] at hc; cases hc
    | stopped hc =>
      rw [← he, hc] at href
      cases href
  | started _ hi => rw [hend] at hi; cases hi
  | crashed _ he => exact .crashed he
  | resumed hg => exact absurd (by rw [hend]; rfl) hg.awaits

/-- A call that begins. -/
theorem StepCase.stage_started {job : Job} (h : StepCase cfg s (.spawn p job) s') (hi : s.procs p = .idle)
    (he : s'.procs p = job.start cfg) (hask : Asked s p)
    (hnb : ∀ t ∈ tr, (t.pre.procs p).inReserve = true → (t.post.procs p).refused = false)
    (hno : (∀ t ∈ tr, Abstains cfg p t) ∨ Landed s p) : Stage cfg p (⟨s, .spawn p job, s'⟩ :: tr) s' := by
  have hnb' : ∀ t ∈ ⟨s, .spawn p job, s'⟩ :: tr, (t.pre.procs p).inReserve = true →
      (t.post.procs p).refused = false := by
    refine List.forall_mem_cons.mpr ⟨fun hb => ?_, hnb⟩
    rw [hi] at hb
    cases hb
  have hnone : ¬ Landed s p := by
    intro hl
    obtain ⟨v, g, hv, -⟩ := hl
    rw [hi] at hv
    cases hv
  have hno' : ∀ t ∈ ⟨s, .spawn p job, s'⟩ :: tr, Abstains cfg p t :=
    List.forall_mem_cons.mpr ⟨⟨by simp, fun x hx => by cases hx⟩, hno.resolve_right hnone⟩
  have hask' : Asked s' p := by
    intro st hst
    rcases h.pooled hst with hold | ⟨hl, -⟩
    · obtain ⟨hin', hreq⟩ := hask st hold
      rw [hi] at hreq
      cases st <;> first | cases hin' | cases hreq
    · rcases hl with hl | hl <;> cases hl
  cases job with
  | gen request =>
    simp only [Job.start, GenPc.start] at he
    split at he
    · exact .refused (by rw [he]; rfl) hask' hno'
    · exact .trying (.inr (by rw [he]; rfl)) hask' hnb' (.inl hno')
  | _ =>
    refine .past ?_ ?_ (fun request e hp => ?_) hnb'
    · rw [he]
      simp [Job.start]
    · rw [he]
      rfl
    · rw [he] at hp
      cases hp

/-- A call that goes on in `_reserve`, or from it. -/
theorem StepCase.stage_resumed {i : Input} {now : ℚ} (h : StepCase cfg s l s')
    (hfm : s.Formed) (hf : fenced cfg p ⟨s, l, s'⟩ = true) (hg : Given cfg s s' l p i)
    (he : s'.procs p = (s.procs p).resume cfg ⟨p, s.draws⟩ now i) (hin : (s.procs p).inReserve = true)
    (hask : Asked s p) (hnb : ∀ t ∈ tr, (t.pre.procs p).inReserve = true → (t.post.procs p).refused = false)
    (hno : (∀ t ∈ tr, Abstains cfg p t) ∨ Landed s p) : Stage cfg p (⟨s, l, s'⟩ :: tr) s' := by
  have hatt := h.attempted hfm hf hask (.inl (.inr hin))
  have hask' : Asked s' p := h.asked hask (.inl (.inr hin)) (by rw [he, Proc.resume_request])
  rcases Proc.resume_inReserve cfg ⟨p, s.draws⟩ now i hin with hnew | ⟨request, r, hend⟩ | ⟨request, v, hcall⟩
  · rw [← he] at hnew
    refine .trying (.inr hnew) hask' (List.forall_mem_cons.mpr ⟨fun _ => Proc.inReserve_not_refused hnew, hnb⟩) ?_
    rcases hno with hall | ⟨v, g, hv, hr, ht⟩
    · cases hatt with
      | abstained ha => exact .inl (List.forall_mem_cons.mpr ⟨ha, hall⟩)
      | landed hl => exact .inr hl
      | reserved hc | stopped hc => rw [hc] at hnew; cases hnew
    · rcases hg.landed hv hr ht with hkept | ⟨hout, -⟩
      · obtain ⟨g', hg', ht'⟩ := h.landed hf hv hr ht
        exact .inr ⟨v, g', by rw [he]; exact hkept, hg', ht'⟩
      · rw [← he, hnew] at hout
        cases hout
  · rw [← he] at hend
    cases href : (s'.procs p).refused with
    | true =>
      refine .refused href hask' ?_
      rcases hno with hall | ⟨v, g, hv, hr, ht⟩
      · cases hatt with
        | abstained ha => exact List.forall_mem_cons.mpr ⟨ha, hall⟩
        | landed hl =>
          obtain ⟨v, g, hv, -⟩ := hl
          rw [hend] at hv
          cases hv
        | reserved hc | stopped hc => rw [hc] at href; cases href
      · rcases hg.landed hv hr ht with hkept | ⟨-, hout⟩
        · rw [← he, hend] at hkept
          cases hkept
        · rw [← he, href] at hout
          cases hout
    | false =>
      refine .past (by rw [hend]; simp) (by rw [hend]; rfl) (fun request' e hp => ?_)
        (List.forall_mem_cons.mpr ⟨fun _ => href, hnb⟩)
      rw [hp] at href
      exact (Bool.or_eq_false_iff.mp href).1
  · rw [← he] at hcall
    refine .past (by rw [hcall]; simp) (by rw [hcall]; rfl) (fun request' e hp => ?_)
      (List.forall_mem_cons.mpr ⟨fun _ => by rw [hcall]; rfl, hnb⟩)
    rw [hcall] at hp
    cases hp

theorem StepCase.stage_trying (h : StepCase cfg s l s') (hfm : s.Formed) (hf : fenced cfg p ⟨s, l, s'⟩ = true)
    (hin : s.procs p = .idle ∨ (s.procs p).inReserve = true) (hask : Asked s p)
    (hnb : ∀ t ∈ tr, (t.pre.procs p).inReserve = true → (t.post.procs p).refused = false)
    (hno : (∀ t ∈ tr, Abstains cfg p t) ∨ Landed s p) : Stage cfg p (⟨s, l, s'⟩ :: tr) s' := by
  cases h.goes p with
  | crashed _ he => exact .crashed he
  | started hl hi he =>
    subst hl
    exact h.stage_started hi he hask hnb hno
  | resumed hg _ he =>
    have hin' : (s.procs p).inReserve = true := hin.resolve_left fun hidle => hg.awaits (by rw [hidle]; rfl)
    exact h.stage_resumed hfm hf hg he hin' hask hnb hno
  | same he =>
    have bounce : (s.procs p).inReserve = true → (s'.procs p).refused = false := by
      intro hb
      rw [he]
      exact Proc.inReserve_not_refused hb
    refine .trying (he ▸ hin) (h.asked hask (.inl hin) (by rw [he])) (List.forall_mem_cons.mpr ⟨bounce, hnb⟩) ?_
    cases h.attempted hfm hf hask (.inl hin) with
    | abstained ha =>
      rcases hno with hall | ⟨v, g, hv, hg, ht⟩
      · exact .inl (List.forall_mem_cons.mpr ⟨ha, hall⟩)
      · obtain ⟨g', hg', ht'⟩ := h.landed hf hv hg ht
        exact .inr ⟨v, g', by rw [he]; exact hv, hg', ht'⟩
    | landed hl => exact .inr hl
    | reserved hc | stopped hc =>
      rw [← he, hc] at hin
      rcases hin with hin | hin <;> cases hin

/-- **A call that is refused has changed nothing**: what a step keeps. -/
theorem StepCase.stage (h : StepCase cfg s l s') (hfm : s.Formed) (hpl : ∀ q st, s.Holds q st → st.Plain)
    (hf : fenced cfg p ⟨s, l, s'⟩ = true) (hs : Stage cfg p tr s) : Stage cfg p (⟨s, l, s'⟩ :: tr) s' := by
  cases hs with
  | trying hin hask hnb hno => exact h.stage_trying hfm hf hin hask hnb hno
  | refused href hask hno => exact h.stage_refused hfm hf href hask hno
  | past hidle hin hplain hnb => exact h.stage_past hpl hidle hin hplain hnb
  | crashed hc =>
    cases h.goes p with
    | same he => exact .crashed (he.trans hc)
    | started _ hi => rw [hc] at hi; cases hi
    | crashed _ he => exact .crashed he
    | resumed hg => exact absurd (by rw [hc]; rfl) hg.awaits

end

end Step

/-! ## The policy's denial -/

/-- Redis held the balance while the call was in `_reserve`. -/
def Saw (tr : List (Trans System Label)) (p : ℕ) (u : UserId) (b : Balance) : Prop :=
  ∃ t ∈ tr, (t.pre.procs p).inReserve = true ∧ t.pre.redis.bal.get u = some b

/-- The policy denies a balance that Redis held during the call, and later in the call
there was no record. -/
def DeniedBy (tr : List (Trans System Label)) (p : ℕ) (request : GenerationRequest) (e : Exn) : Prop :=
  ∃ newer t older, tr = newer ++ t :: older ∧ (t.pre.procs p).inReserve = true ∧
    t.pre.redis.gen.get request.clientRequestId = none ∧
    ∃ b, Saw older p request.userId b ∧ authorize MODELS request (snapshotFromHash b).toBalanceView = .error e

/-- What a call has seen when it goes by a balance, or by the policy's denial of it. -/
structure Watched (p : ℕ) (tr : List (Trans System Label)) (s : System) : Prop where
  held : ∀ request k l b, s.procs p = .gen request (.loading k l) → l.held = some b → Saw tr p request.userId b
  denied : ∀ request e k, s.procs p = .gen request (.denied e k) →
    ∃ b, Saw tr p request.userId b ∧ authorize MODELS request (snapshotFromHash b).toBalanceView = .error e
  ended : ∀ request e, s.procs p = .gen request (.ended (.error e)) → e.isAccess = true → DeniedBy tr p request e

theorem Saw.older {tr : List (Trans System Label)} {t : Trans System Label} {p : ℕ} {u : UserId} {b : Balance}
    (h : Saw tr p u b) : Saw (t :: tr) p u b := by
  obtain ⟨t', ht, hin⟩ := h
  exact ⟨t', List.mem_cons_of_mem _ ht, hin⟩

theorem DeniedBy.older {tr : List (Trans System Label)} {t : Trans System Label} {p : ℕ} {request : GenerationRequest}
    {e : Exn} (h : DeniedBy tr p request e) : DeniedBy (t :: tr) p request e := by
  obtain ⟨newer, t', past, rfl, hin⟩ := h
  exact ⟨t :: newer, t', past, rfl, hin⟩

section Step

variable {cfg : Config} {tr : List (Trans System Label)} {s s' : System} {l : Label} {p : ℕ}

/-- The balance that a round of `_reserve` goes on with. -/
theorem Given.refreshed {request : GenerationRequest} {fresh : Token} {pc : GenPc} {i : Input} {b : Balance}
    (hg : Given cfg s s' l p i) (hfm : s.Formed) (hw : Watched p tr s) (hst : s.procs p = .gen request pc)
    (hr : Refreshes fresh pc i b) : Saw (⟨s, l, s'⟩ :: tr) p request.userId b := by
  cases hr with
  | @loaded k pc i b hr =>
    have hl : (s.procs p).loader = some (request.userId, pc) := by rw [hst]; rfl
    rcases hg.loaded hl hr with hb | hb
    · exact ⟨_, List.mem_cons_self .., by rw [hst]; rfl, hb⟩
    · exact (hw.held request k pc b hst hb).older
  | @conflict v n k b =>
    have hv : (s.procs p).reserving = some v := by rw [hst]; rfl
    have hreq := (hfm p _ (.inl rfl)).reserving v hv
    rw [hst] at hreq
    cases hreq
    exact ⟨_, List.mem_cons_self .., by rw [hst]; rfl, (hg.reserve hv).of_conflict.2.1⟩

theorem StepCase.watched (h : StepCase cfg s l s') (hfm : s.Formed) (hpl : ∀ q st, s.Holds q st → st.Plain)
    (hs : Watched p tr s) : Watched p (⟨s, l, s'⟩ :: tr) s' := by
  cases h.goes p with
  | same he =>
    exact
      { held := fun request k l b hp hb => (hs.held request k l b (he ▸ hp) hb).older
        denied := fun request e k hp => by
          obtain ⟨b, hb, ha⟩ := hs.denied request e k (he ▸ hp)
          exact ⟨b, hb.older, ha⟩
        ended := fun request e hp ha => (hs.ended request e (he ▸ hp) ha).older }
  | crashed _ he =>
    refine ⟨fun request k l b hp => ?_, fun request e k hp => ?_, fun request e hp => ?_⟩ <;> rw [he] at hp <;> cases hp
  | @started job _ _ he =>
    have hblank := job.start_blank cfg
    rw [← he] at hblank
    refine ⟨fun request k l b hp hb => ?_, fun request e k hp => ?_, fun request e hp ha => ?_⟩
    · cases hblank.loader _ _ (show (s'.procs p).loader = some (request.userId, l) by rw [hp]; rfl)
      cases hb
    · have hn := hblank.denial
      rw [hp] at hn
      cases hn
    · rw [he] at hp
      cases job with
      | gen request' =>
        simp only [Job.start, GenPc.start] at hp
        split at hp <;> cases hp
        cases ha
      | _ => cases hp
  | @resumed i now hg _ he =>
    refine ⟨fun request k l' b hp hb => ?_, fun request e k hp => ?_, fun request e hp ha => ?_⟩
    · obtain ⟨pc, hst, hm⟩ := Proc.resume_gen (he ▸ hp)
      have hl : (s'.procs p).loader = some (request.userId, l') := by rw [hp]; rfl
      -- Only in `_reserve` a call comes to its first loader.
      have hin : (s.procs p).inReserve = true := by
        cases hin : (s.procs p).inReserve with
        | true => rfl
        | false =>
          have hout := Proc.resume_past cfg ⟨p, s.draws⟩ now i hin
          rw [← he, hp] at hout
          cases hout
      rcases h.held_from hl hb with ⟨l₀, hl₀, hb₀⟩ | hb₀
      · rw [hst] at hl₀ hin
        cases pc with
        | loading k₀ l₁ => cases hl₀; exact (hs.held request k₀ _ b hst hb₀).older
        | settleLoading | refunding => cases hin
        | _ => cases hl₀
      · exact ⟨_, List.mem_cons_self .., hin, hb₀⟩
    · obtain ⟨pc, hst, hm⟩ := Proc.resume_gen (he ▸ hp)
      cases hm with
      | stay =>
        obtain ⟨b, hb, hauth⟩ := hs.denied request e k hst
        exact ⟨b, hb.older, hauth⟩
      | @denied _ _ b _ _ hb herr ha =>
        refine ⟨b, hg.refreshed hfm hs hst hb, ?_⟩
        rcases makeReservation_error_cases herr with hauth | hmoney
        · exact hauth
        · rw [(Exn.isMoney_only hmoney).2.1] at ha
          cases ha
    · rw [he] at hp
      rcases (hpl p _ (.inl rfl)).ended hp with hold | ⟨k, hold, rfl⟩ | ⟨hn, -⟩
      · exact (hs.ended request e hold ha).older
      · obtain ⟨b, hb, hauth⟩ := hs.denied request e k hold
        have hget : (s.procs p).action cfg = .call (.getGeneration request.clientRequestId) := by rw [hold]; rfl
        have hrec := (hg.record hget).1
        exact ⟨[], _, tr, rfl, by rw [hold]; rfl, hrec, b, hb, hauth⟩
      · rw [ha] at hn
        cases hn

end Step

/-! ## Runs that keep the keys -/

/-- `RESERVE` debits the attempt no more: its id has a record, or the balance has gone on. -/
def Spent (ρ : Redis) (v : Reservation) : Prop :=
  (∃ g, ρ.gen.get v.id = some g) ∨ ∃ b, ρ.bal.get v.request.userId = some b ∧ v.snapshot.version < b.version

theorem Spent.not_accepts {ρ : Redis} {v : Reservation} (h : Spent ρ v) : ρ.accepts v = false := by
  rcases h with ⟨g, hg⟩ | ⟨b, hb, hv⟩
  · simp [Redis.accepts, hg]
  · simp [Redis.accepts, hb, ne_of_gt hv]

/-- What a call gave up it still makes, or it is spent; unless the call ended when no
attempt was left to it. -/
def Guarded (s : System) (p : ℕ) : Prop :=
  s.procs p ≠ .crashed → (∀ request, s.procs p ≠ .gen request (.ended (.error .connection))) →
    ∀ st v, (p, st) ∈ s.pool → st.reserving = some v → (s.procs p).reserving = some v ∨ Spent s.redis v

section Step

variable {cfg : Config} {s s' : System} {l : Label} {p : ℕ} {v : Reservation}

theorem lasting_keeps (h : lasting cfg ⟨s, l, s'⟩ = true) :
    healthy cfg ⟨s, l, s'⟩ = true ∧ l.keepsRecords = true := by
  simpa [lasting] using h

theorem StepCase.spent (h : StepCase cfg s l s') (hs : s.Advances) (hl : lasting cfg ⟨s, l, s'⟩ = true)
    (hv : Spent s.redis v) : Spent s'.redis v := by
  obtain ⟨hh, hk⟩ := lasting_keeps hl
  rcases hv with ⟨g, hg⟩ | ⟨b, hb, hlt⟩
  · obtain ⟨g', hg', -⟩ := h.genStep (Label.keepsRecord_of_keepsRecords hk v.id) (healthy_keeps hh).2 hg
    exact .inl ⟨g', hg'⟩
  · obtain ⟨b', hb', hbb⟩ := h.forward hs hh _ b hb
    exact .inr ⟨b', hb', hlt.trans_le hbb.le⟩

/-- **An attempt is spent when the call goes on**, with whatever answer. -/
theorem Given.spent {i : Input} {fresh : Token} {now : ℚ} (hg : Given cfg s s' l p i) (hi : inRange cfg ⟨s, l, s'⟩ = true)
    (hc : s.Current) (hv : (s.procs p).reserving = some v) :
    ((s.procs p).resume cfg fresh now i).reserving = some v ∨ Spent s'.redis v ∨
      ∃ request, (s.procs p).resume cfg fresh now i = .gen request (.ended (.error .connection)) := by
  have hact : (s.procs p).action cfg = .call (.reserve v.args) := Proc.reserving_action hv
  obtain ⟨request, n, k, hproc⟩ := Proc.reserving_gen hv
  obtain ⟨b, hb, hbehind⟩ := (hc.carries p _ (.inl rfl)).reserving v hv
  rcases hg.called hact with ⟨pick, r, rfl, hx, he⟩ | ⟨rfl, -⟩
  · have hok := callOk_of_ran hx hi he
    generalize s'.redis = ρ' at hok
    refine .inr (.inl ?_)
    cases hok with
    | reserve hres =>
      cases hres with
      | dup hd => exact .inl ⟨_, hd⟩
      | missing _ hn => cases hn.symm.trans hb
      | conflict _ hb' hne =>
        cases hb'.symm.trans hb
        exact .inr ⟨b, hb, lt_of_le_of_ne hbehind.le (Ne.symm hne)⟩
      | applied => exact .inl ⟨_, Table.get_set_self ..⟩
  · rw [hproc]
    simp only [Proc.resume, GenPc.resume, Config.retrying]
    split
    · exact .inr (.inr ⟨request, rfl⟩)
    · exact .inl rfl

theorem StepCase.guarded (h : StepCase cfg s l s') (hc : s.Current) (hl : lasting cfg ⟨s, l, s'⟩ = true)
    (hs : Guarded s p) : Guarded s' p := by
  intro hlive hconn st v hst hv
  have hspent := h.spent (v := v) hc.formed.advances hl
  -- What is given up in this step is what the call was making.
  have hbefore : s.procs p ≠ .crashed → (∀ request, s.procs p ≠ .gen request (.ended (.error .connection))) →
      (s.procs p).reserving = some v ∨ Spent s.redis v := by
    intro h1 h2
    rcases h.pooled hst with hold | ⟨-, hleft⟩
    · exact hs h1 h2 st v hold hv
    · rcases Proc.leftovers_cases hleft with rfl | ⟨hb, -⟩
      · exact .inl hv
      · rw [hb.reserving] at hv
        cases hv
  cases h.goes p with
  | same he =>
    rw [he] at hlive hconn ⊢
    exact (hbefore hlive hconn).imp_right hspent
  | crashed _ he => exact absurd he hlive
  | started _ hi =>
    rcases hbefore (by rw [hi]; nofun) (by rw [hi]; nofun) with hb | hb
    · rw [hi] at hb
      cases hb
    · exact .inr (hspent hb)
  | @resumed i now hg _ he =>
    have haw := hg.awaits
    rcases hbefore (fun hb => haw (by rw [hb]; rfl)) (fun _ hb => haw (by rw [hb]; rfl)) with hb | hb
    · rw [he]
      rcases hg.spent (healthy_keeps (lasting_keeps hl).1).2 hc hb with hr | hr | ⟨request, hend⟩
      · exact .inl hr
      · exact .inr hr
      · exact absurd (he.trans hend) (hconn request)
    · exact .inr (hspent hb)

/-- A guarded call is fenced. -/
theorem Guarded.fenced (h : Guarded s p) (hl : lasting cfg ⟨s, l, s'⟩ = true) : fenced cfg p ⟨s, l, s'⟩ = true := by
  obtain ⟨hh, hk⟩ := lasting_keeps hl
  unfold GenerationBalance.fenced
  split
  · next i pick hlab =>
    split
    · next q st hi =>
      split
      · next v hv =>
        simp only [ne_eq, Bool.or_eq_true, Bool.and_eq_true, Bool.not_eq_true', decide_eq_true_eq]
        by_cases hq : q = p
        swap
        · exact .inl (.inl (.inl hq))
        by_cases ha : s.redis.accepts v = true
        swap
        · exact .inl (.inl (.inr (by simpa using ha)))
        by_cases hopen : ((s.procs p).inReserve || (s.procs p).refused) = true
        swap
        · exact .inl (.inr (by simpa using hopen))
        refine .inr ⟨?_, (healthy_keeps hh).2⟩
        have hmem : (p, st) ∈ s.pool := hq ▸ List.mem_of_getElem? hi
        rcases h (fun hc => by rw [hc] at hopen; cases hopen) (fun _ hc => by rw [hc] at hopen; cases hopen)
          st v hmem hv with hr | hspent
        · rw [hr]
          simp
        · rw [hspent.not_accepts] at ha
          cases ha
      · rfl
    · rfl
  · next id hlab =>
    rw [show l = .expireGeneration id from hlab] at hk
    cases hk
  · rfl

end Step

/-- While the keys are kept and the sums are in range, every call is fenced. -/
theorem Runs.all_fenced {cfg : Config} {pg : Rows} {tr : List (Trans System Label)} {s : System}
    (hr : Runs cfg (System.start pg) tr s) (hl : ∀ t ∈ tr, lasting cfg t = true) (p : ℕ) :
    ∀ t ∈ tr, fenced cfg p t = true := by
  intro t ht
  obtain ⟨newer, older, rfl, hpre, hstep, -⟩ := hr.split ht
  have hold : ∀ t ∈ older, lasting cfg t = true := fun t ht =>
    hl t (List.mem_append_right _ (List.mem_cons_of_mem _ ht))
  have hguarded : Guarded t.pre p := by
    refine Run.invariant_history (I := fun _ s => Guarded s p) hpre hold (fun _ _ st v hst => by cases hst) ?_
    intro tr s l s' hr htr hs h hp
    have hcur := Runs.current hr fun t ht => (lasting_keeps (htr t ht)).1
    exact (step_cases h).guarded hcur hp hs
  exact hguarded.fenced (hl t ht)

/-! ## Runs -/

theorem Runs.plain {cfg : Config} {pg : Rows} {tr : List (Trans System Label)} {s : System}
    (hr : Runs cfg (System.start pg) tr s) : s.Formed ∧ ∀ q st, s.Holds q st → st.Plain := by
  refine Run.invariant (I := fun s => s.Formed ∧ ∀ q st, s.Holds q st → st.Plain) (P := fun _ => True) hr
    (fun _ _ => trivial) ⟨System.start_formed pg, fun q st hh => ?_⟩ fun hs h _ => ?_
  · rw [System.start_holds hh]
    exact Proc.blank_idle.plain
  · have hstep := step_cases h
    exact ⟨hstep.formed hs.1, hstep.held (Q := fun _ st => st.Plain) hs.2 (fun _ h => h) (fun _ hb => hb.plain)
      fun _ _ _ _ _ h => h.resume⟩

theorem Runs.watched {cfg : Config} {pg : Rows} {tr : List (Trans System Label)} {s : System}
    (hr : Runs cfg (System.start pg) tr s) (p : ℕ) : Watched p tr s := by
  refine Run.invariant_history (I := Watched p) (P := fun _ => True) hr (fun _ _ => trivial) ⟨?_, ?_, ?_⟩
    fun hr _ hs h _ => (step_cases h).watched (Runs.plain hr).1 (Runs.plain hr).2 hs
  all_goals intros; contradiction

theorem Runs.stage {cfg : Config} {pg : Rows} {tr : List (Trans System Label)} {s : System} {p : ℕ}
    (hr : Runs cfg (System.start pg) tr s) (hf : ∀ t ∈ tr, fenced cfg p t = true) : Stage cfg p tr s :=
  Run.invariant_history (I := Stage cfg p) hr hf
    (.trying (.inl rfl) (fun _ h => by cases h) (fun _ h => by cases h) (.inl fun _ h => by cases h))
    fun hr _ hs h hp => (step_cases h).stage (Runs.plain hr).1 (Runs.plain hr).2 hp hs

/-- **A refused call has changed nothing**, in every run in which no attempt that it
gave up is debited once it makes another one or was refused, and **the policy denied
what Redis held** in every run. -/
theorem refusals_abstain {cfg : Config} {pg : Rows} {tr : List (Trans System Label)} {s : System} {p : ℕ}
    {request : GenerationRequest} {e : Exn} (hr : Runs cfg (System.start pg) tr s) (he : Refused tr s p request e) :
    ((∀ t ∈ tr, fenced cfg p t = true) → ∀ t ∈ tr, Abstains cfg p t) ∧
      (e.isAccess = true → DeniedBy tr p request e) := by
  obtain ⟨hend, hkind⟩ := he
  refine ⟨fun hf => ?_, (Runs.watched hr p).ended request e hend⟩
  cases Runs.stage hr hf with
  | trying hin => rw [hend] at hin; rcases hin with hin | hin <;> cases hin
  | refused _ _ hno => exact hno
  | past _ _ hplain hnb =>
    rcases hkind with hkind | ⟨hkind, t, ht, hpre, hpost⟩
    · rw [hplain request e hend] at hkind
      cases hkind
    · have hno := hnb t ht hpre
      rw [hpost] at hno
      simp [Proc.refused, hkind] at hno
  | crashed hc => rw [hend] at hc; cases hc

/-- User 1 has what one call costs. -/
def onceRows : Rows := Table.empty.set 1 { oneDollar with paidUsd := 200000, inRange := by decide }

/-- While a call tries again, another one takes the balance; the attempt that was given
up comes last. -/
def deniedSchedule : List Label :=
  .spawn 0 (.gen (premium 1 5)) :: coldLoad 0 ++
    [.abandon 0, .spawn 1 (.gen (premium 1 6)), .exec 1 [] 0, .exec 1 [] 0, .exec 0 [] 0, .exec 0 [] 0, .late 0 []]

/-- A call gives an attempt up and meets the record of another delivery; while it waits,
the record expires and the attempt is debited. -/
def landedSchedule : List Label :=
  .spawn 0 (.gen (premium 1 5)) :: coldLoad 0 ++
    [.exec 0 [] 0, .crash 0, .spawn 1 (.gen (premium 1 5)), .exec 1 [] 0, .abandon 1, .exec 1 [] 0,
      .expireGeneration 5, .late 0 [], .wake 1, .exec 1 [] 0, .timeout 1]

/-- A call that ended with a refusal. -/
def Proc.refusal : Proc → Option Exn
  | .gen _ (.ended (.error e)) => if e.isRefusal then some e else none
  | _ => none

theorem Proc.refusal_some {st : Proc} {e : Exn} (h : st.refusal = some e) :
    ∃ request, st = .gen request (.ended (.error e)) ∧ e.isRefusal = true := by
  unfold Proc.refusal at h
  split at h
  · next request e' =>
    split at h
    · next he => cases h; exact ⟨request, rfl, he⟩
    · cases h
  · cases h

/-- A call whose attempt is not debited is denied, and has changed nothing. -/
theorem refusals_abstain_denied : ∃ tr s request, Runs {} (System.start onceRows) tr s ∧
    s.procs 0 = .gen request (.ended (.error .insufficientBalance)) ∧ (∀ t ∈ tr, Abstains {} 0 t) ∧
    DeniedBy tr 0 request .insufficientBalance := by
  obtain ⟨tr, s, hr, hp⟩ := Runs.of_schedule {} (System.start onceRows) deniedSchedule
    (fun tr s => tr.all (fenced {} 0) && ((s.procs 0).refusal = some .insufficientBalance : Bool)) (by decide +kernel)
  simp only [Bool.and_eq_true, List.all_eq_true, decide_eq_true_eq] at hp
  obtain ⟨request, hend, href⟩ := Proc.refusal_some hp.2
  obtain ⟨habstain, hdenied⟩ := refusals_abstain hr ⟨hend, .inl href⟩
  exact ⟨tr, s, request, hr, hend, habstain hp.1, hdenied rfl⟩

/-- A transition in which a request of `p` made the record `id`. -/
def makesRecord (cfg : Config) (p : ℕ) (id : RequestId) (t : Trans System Label) : Bool :=
  (ran cfg t).any (·.owner = p) && t.pre.redis.gen.get id = none && (t.post.redis.gen.get id).isSome

/-- A call that ended with `GenerationInProgressError` was debited. -/
theorem refused_debited : ¬ ∀ (cfg : Config) (pg : Rows) (tr : List (Trans System Label)) (s : System),
    Runs cfg (System.start pg) tr s → ∀ (p : ℕ) (request : GenerationRequest) (e : Exn), Refused tr s p request e →
    ∀ t ∈ tr, Abstains cfg p t := by
  intro h
  obtain ⟨tr, s, hr, hp⟩ := Runs.of_schedule {} (System.start dollarRows) landedSchedule
    (fun tr s => tr.any (makesRecord {} 1 5) && (s.procs 1).refusal.isSome) (by decide +kernel)
  simp only [Bool.and_eq_true, List.any_eq_true, Option.isSome_iff_exists] at hp
  obtain ⟨⟨t, ht, hmade⟩, e, href⟩ := hp
  obtain ⟨request, hend, he⟩ := Proc.refusal_some href
  simp only [makesRecord, Bool.and_eq_true, Option.any_eq_true, decide_eq_true_eq] at hmade
  obtain ⟨⟨⟨x, hx, ho⟩, hn⟩, hsome⟩ := hmade
  have hgen := ((h {} dollarRows tr s hr 1 request e ⟨hend, .inl he⟩ t ht).2 x hx ho).gen
  rw [hgen, hn] at hsome
  cases hsome

end GenerationBalance
