/-
The system on strings: Redis holds what the adapter wrote, every request is the strings
it sends and every reply is read from the strings that come back. It is the system on
typed values, step for step.
-/
import GenerationBalance.Codec
import GenerationBalance.Requests
import GenerationBalance.System

namespace GenerationBalance

open Transition Adapter

/-! ## What the calls see of a reply -/

/-- Two replies of which the adapter returns the same. -/
inductive HeardAlike (c : Call) : Reply → Reply → Prop
  | same (r) : HeardAlike c r r
  | record {g g' : GenerationHash} : recordFromFields g.plain = recordFromFields g'.plain →
      HeardAlike c (.record (some g)) (.record (some g'))
  | reserve {r r'} : outcome (reserveOutcome (tokenOf c) r) = outcome (reserveOutcome (tokenOf c) r') →
      HeardAlike c (.reserve r) (.reserve r')
  | flag {done done'} : isSilent c = true → HeardAlike c (.flag done) (.flag done')

theorem snapshotFromHash_inj {b c : Balance} : snapshotFromHash b = snapshotFromHash c ↔ b = c := by
  refine ⟨fun h => ?_, congrArg snapshotFromHash⟩
  have hb := snapshotArgs_snapshotFromHash b
  rw [h, snapshotArgs_snapshotFromHash] at hb
  exact (Except.ok.inj hb).symm

variable {c : Call} {r r' : Reply}

theorem heardAlike_of (h : heard c r = heard c r') : HeardAlike c r r' := by
  cases r <;> cases r' <;> simp [heard] at h
  case balance.balance b b' =>
    rw [Option.map_injective (fun b c => snapshotFromHash_inj.mp) h]
    exact .same _
  case record.record g g' =>
    cases g <;> cases g' <;> simp at h
    · exact .same _
    · exact .record h
  case flag.flag done done' =>
    by_cases hc : isSilent c = true
    · exact .flag hc
    · simp [hc] at h
      rw [h]
      exact .same _
  case reserve.reserve r r' => exact .reserve h
  case settle.settle r r' =>
    cases r <;> cases r' <;> first | exact .same _ | cases h
  case refund.refund r r' =>
    cases r <;> cases r' <;> first | exact .same _ | cases h
  case topUp.topUp r r' =>
    cases r <;> cases r' <;> first | exact .same _ | cases h
  case ids.ids =>
    rw [h]
    exact .same _
  case users.users =>
    rw [h]
    exact .same _
  case error.error e e' =>
    cases e
    cases e'
    exact .same _

theorem LoaderPc.resume_heard {u : UserId} {l : LoaderPc} (fresh : Token) (hc : l.action u = .call c)
    (h : HeardAlike c r r') : l.resume fresh (.reply r) = l.resume fresh (.reply r') := by
  cases h with
  | same => rfl
  | record h => cases l <;> rfl
  | reserve h => cases l <;> rfl
  | flag h => cases l <;> cases hc <;> first | rfl | cases h

theorem RefundPc.resume_heard {a : RefundArgs} {pc : RefundPc} (cfg : Config) (fresh : Token)
    (hc : pc.action a = .call c) (h : HeardAlike c r r') :
    pc.resume cfg fresh (.reply r) = pc.resume cfg fresh (.reply r') := by
  cases pc with
  | loading rounds l => simp only [RefundPc.resume, LoaderPc.resume_heard fresh hc h]
  | calling attempt rounds =>
    cases hc
    cases h with
    | same => rfl
    | record h => rfl
    | reserve h => rfl
    | flag h => cases h

theorem GenPc.resume_heard {request : GenerationRequest} {pc : GenPc} (cfg : Config) (fresh : Token) (now : ℚ)
    (hc : pc.action request = .call c) (h : HeardAlike c r r') :
    pc.resume cfg request fresh now (.reply r) = pc.resume cfg request fresh now (.reply r') := by
  cases pc with
  | loading rounds l => simp only [GenPc.resume, LoaderPc.resume_heard fresh hc h]
  | settleLoading s rounds l => simp only [GenPc.resume, LoaderPc.resume_heard fresh hc h]
  | refunding v reason pc after => simp only [GenPc.resume, RefundPc.resume_heard cfg fresh hc h]
  | reserving v attempt rounds =>
    cases hc
    cases h with
    | same => rfl
    | record h => rfl
    | flag h => cases h
    | @reserve r r' h =>
      simp only [GenPc.resume]
      simp only [tokenOf, Reservation.args] at h
      revert h
      generalize reserveOutcome v.token r = o, reserveOutcome v.token r' = o'
      intro h
      cases o <;> cases o' <;> simp only [outcome, reduceCtorEq, Outcome.conflict.injEq, Outcome.duplicate.injEq] at h
      case reserved.reserved => rfl
      case missing.missing => rfl
      case conflict.conflict => rw [snapshotFromHash_inj.mp h]
      case duplicate.duplicate g g' =>
        show resolveDuplicate request rounds (recordFromFields g.plain) = _
        rw [h]
        rfl
  | denied e rounds =>
    cases hc
    cases h with
    | same => rfl
    | @record g g' h =>
      show resolveDuplicate request rounds (recordFromFields g.plain) = _
      rw [h]
      rfl
    | reserve h => rfl
    | flag h => cases h
  | polling rounds =>
    cases hc
    cases h with
    | same => rfl
    | @record g g' h =>
      show pollRecord request.clientRequestId rounds (recordFromFields g.plain) = _
      rw [h]
      rfl
    | reserve h => rfl
    | flag h => cases h
  | settling s attempt rounds =>
    cases hc
    cases h with
    | same => rfl
    | record h => rfl
    | reserve h => rfl
    | flag h => cases h
  | waiting => cases hc
  | calling => cases hc
  | generating => cases hc
  | ended => cases hc

theorem TopUpPc.resume_heard {pc : TopUpPc} (cfg : Config) (fresh : Token) (hc : pc.action = .call c)
    (h : HeardAlike c r r') : pc.resume cfg fresh (.reply r) = pc.resume cfg fresh (.reply r') := by
  cases pc with
  | loading t rounds l => simp only [TopUpPc.resume, LoaderPc.resume_heard fresh hc h]
  | calling t attempt rounds =>
    cases hc
    cases h with
    | same => rfl
    | record h => rfl
    | reserve h => rfl
    | flag h => cases h
  | ended => cases hc

theorem ReapPc.resume_heard {pc : ReapPc} (cfg : Config) (fresh : Token) (hc : pc.action cfg = .call c)
    (h : HeardAlike c r r') : pc.resume cfg fresh (.reply r) = pc.resume cfg fresh (.reply r') := by
  cases pc with
  | refunding a pc todo reaped => simp only [ReapPc.resume, RefundPc.resume_heard cfg fresh hc h]
  | reading id todo reaped =>
    cases hc
    cases h with
    | same => rfl
    | @record g g' h =>
      have hstatus : g.status = g'.status := congrArg GenerationRecord.status h
      have hrefund : startRefund cfg id (recordFromFields g) todo reaped =
          startRefund cfg id (recordFromFields g') todo reaped := by
        show startRefund cfg id (recordFromFields g.plain) todo reaped = _
        rw [h]
        rfl
      simp only [ReapPc.resume, hstatus, hrefund]
    | reserve h => rfl
    | flag h => cases h
  | listing => cases h <;> rfl
  | forgetting => cases h <;> rfl
  | ended => cases hc

theorem FlushPc.resume_heard {pc : FlushPc} (cfg : Config) (hc : pc.action cfg = .call c) (h : HeardAlike c r r') :
    pc.resume cfg (.reply r) = pc.resume cfg (.reply r') := by
  cases h with
  | same => rfl
  | record h => cases pc with
    | loading users todo snapshots => cases todo <;> rfl
    | _ => rfl
  | reserve h => cases pc with
    | loading users todo snapshots => cases todo <;> rfl
    | _ => rfl
  | flag h => cases pc with
    | loading users todo snapshots => cases todo <;> rfl
    | repairing => cases hc; cases h
    | _ => rfl

theorem Proc.resume_heard {st : Proc} (cfg : Config) (fresh : Token) (now : ℚ) (hc : st.action cfg = .call c)
    (h : HeardAlike c r r') : st.resume cfg fresh now (.reply r) = st.resume cfg fresh now (.reply r') := by
  cases st with
  | idle => rfl
  | crashed => rfl
  | gen request pc => exact congrArg (Proc.gen request) (GenPc.resume_heard cfg fresh now hc h)
  | topUp command pc => exact congrArg (Proc.topUp command) (TopUpPc.resume_heard cfg fresh hc h)
  | reap pc => exact congrArg Proc.reap (ReapPc.resume_heard cfg fresh hc h)
  | flush pc => exact congrArg Proc.flush (FlushPc.resume_heard cfg hc h)
  | balance u pc =>
    cases pc with
    | loading l => simp only [Proc.resume, BalancePc.resume, LoaderPc.resume_heard fresh hc h]
    | ended => rfl

/-! ## The system -/

structure WireSystem where
  store : RawStore
  pg : Rows
  procs : ℕ → Proc
  pool : List (ℕ × Proc)
  draws : ℕ

namespace WireSystem

/-- The system with a typed store in the place of the strings. -/
def typed (w : WireSystem) (ρ : Redis) : System := ⟨ρ, w.pg, w.procs, w.pool, w.draws⟩

def of (store : RawStore) (s : System) : WireSystem := ⟨store, s.pg, s.procs, s.pool, s.draws⟩

def start (pg : Rows) : WireSystem := .of .empty (.start pg)

end WireSystem

/-- The step neither sends a request nor deletes a key. -/
def Label.isStoreless : Label → Bool
  | .exec _ _ _ | .late _ _ | .expireGeneration _ | .expireTopUp _ | .expireLock _ | .dropBalance _ => false
  | _ => true

/-- A step of the system on strings. A call goes on with a reply of which it hears what the
adapter returns; what is no request has nothing to do with the store. -/
inductive WireStep (A : Adapter) (cfg : Config) (w : WireSystem) : Label → WireSystem → Prop
  | exec {p pick now c raw store r} : (w.procs p).action cfg = .call c →
      A.perform pick w.store c = some (raw, store) → A.hears c raw = some (heard c r) →
      WireStep A cfg w (.exec p pick now) (.of store ((w.typed .empty).deliver cfg p now (.reply r)))
  | late {i pick p st c raw store} : w.pool[i]? = some (p, st) → st.action cfg = .call c →
      A.perform pick w.store c = some (raw, store) →
      WireStep A cfg w (.late i pick) { w with store, pool := w.pool.eraseIdx i }
  | expireGeneration (id) :
      WireStep A cfg w (.expireGeneration id) { w with store := (RawScript.DEL (A.generationKey id) w.store).2 }
  | expireTopUp (o) : WireStep A cfg w (.expireTopUp o) { w with store := (RawScript.DEL (A.topUpKey o) w.store).2 }
  | expireLock (u) : WireStep A cfg w (.expireLock u) { w with store := (RawScript.DEL (A.loadLockKey u) w.store).2 }
  | dropBalance (u) : WireStep A cfg w (.dropBalance u) { w with store := (RawScript.DEL (A.balanceKey u) w.store).2 }
  | other {l s} : l.isStoreless = true → step cfg (w.typed .empty) l = some s → WireStep A cfg w l (.of w.store s)

/-- What is no request goes the same way whatever the store holds. -/
theorem step_storeless {cfg : Config} {s : System} {l : Label} (hl : l.isStoreless = true) (ρ : Redis) :
    step cfg { s with redis := ρ } l = (step cfg s l).map ({ · with redis := ρ }) := by
  cases l with
  | spawn p job =>
    simp only [step]
    cases s.procs p <;> rfl
  | abandon p =>
    simp only [step]
    cases (s.procs p).action cfg <;> rfl
  | select p ok =>
    simp only [step]
    cases (s.procs p).action cfg <;> rfl
  | commit p fate =>
    simp only [step]
    cases (s.procs p).action cfg with
    | commit rows => cases fate <;> cases hw : writeRows rows s.pg <;> simp only [hw] <;> rfl
    | _ => rfl
  | provider p =>
    simp only [step]
    cases (s.procs p).action cfg <;> rfl
  | provided p o =>
    simp only [step]
    cases (s.procs p).action cfg <;> rfl
  | timeout p =>
    simp only [step]
    cases (s.procs p).action cfg <;> rfl
  | wake p =>
    simp only [step]
    cases (s.procs p).action cfg <;> rfl
  | crash p => rfl
  | _ => cases hl

/-! ## Step for step -/

/-- The strings are the texts of the typed store, and all else is the same. -/
def Wired (A : Adapter) (w : WireSystem) (s : System) : Prop := ∃ ρ, A.Stores w.store ρ ∧ s = w.typed ρ

variable {A : Adapter} {cfg : Config} {w w' : WireSystem} {s s' : System} {l : Label}

theorem Wired.start (A : Adapter) (pg : Rows) : Wired A (.start pg) (.start pg) := ⟨.empty, .empty, rfl⟩

/-- A request answered on strings is answered with what the call hears. -/
theorem Wired.exec (hA : A.Uuids) {ρ : Redis} (h : A.Stores w.store ρ) {pick : List UserId} {c : Call} {raw : RawReply}
    {store : RawStore} (hp : A.perform pick w.store c = some (raw, store)) :
    ∃ r ρ', exec pick ρ c = some (r, ρ') ∧ A.hears c raw = some (heard c r) ∧ A.Stores store ρ' := by
  have hrel := h.perform hA pick c
  rw [hp] at hrel
  generalize GenerationBalance.exec pick ρ c = x at hrel ⊢
  cases hrel with
  | @some _ y hy => exact ⟨y.1, y.2, rfl, hy.1, hy.2⟩

/-- And the other way round. -/
theorem Wired.performs (hA : A.Uuids) {ρ ρ' : Redis} (h : A.Stores w.store ρ) {pick : List UserId} {c : Call} {r : Reply}
    (he : GenerationBalance.exec pick ρ c = some (r, ρ')) :
    ∃ raw store, A.perform pick w.store c = some (raw, store) ∧ A.hears c raw = some (heard c r) ∧ A.Stores store ρ' := by
  have hrel := h.perform hA pick c
  rw [he] at hrel
  obtain ⟨x, hx, hsame⟩ := rel_eq_some hrel
  exact ⟨x.1, x.2, hx, hsame.1, hsame.2⟩

/-- **A step on strings is the step on typed values.** -/
theorem Wired.forth (hA : A.Uuids) (h : Wired A w s) (hstep : WireStep A cfg w l w') :
    ∃ s', step cfg s l = some s' ∧ Wired A w' s' := by
  obtain ⟨ρ, hρ, rfl⟩ := h
  cases hstep with
  | @exec p pick now c raw store r hc hp hr =>
    obtain ⟨r', ρ', he, hr', hρ'⟩ := Wired.exec hA hρ hp
    have halike := heardAlike_of (Option.some.inj (hr.symm.trans hr'))
    refine ⟨({ w.typed ρ with redis := ρ' }).deliver cfg p now (.reply r'), ?_, ρ', hρ', ?_⟩
    · simp only [step, WireSystem.typed, hc, he]
      rfl
    · simp only [System.deliver, WireSystem.typed, WireSystem.of, Proc.resume_heard cfg _ now hc halike]
  | @late i pick p st c raw store hi hc hp =>
    obtain ⟨r', ρ', he, -, hρ'⟩ := Wired.exec hA hρ hp
    refine ⟨{ w.typed ρ with redis := ρ', pool := w.pool.eraseIdx i }, ?_, ρ', hρ', rfl⟩
    simp only [step, WireSystem.typed, hi, hc, he]
    rfl
  | expireGeneration id => exact ⟨_, rfl, _, hρ.delRecord id, rfl⟩
  | expireTopUp o => exact ⟨_, rfl, _, hρ.delTopUp o, rfl⟩
  | expireLock u => exact ⟨_, rfl, _, hρ.delLock hA u, rfl⟩
  | dropBalance u => exact ⟨_, rfl, _, hρ.delBalance hA u, rfl⟩
  | @other l s hl hs =>
    refine ⟨{ s with redis := ρ }, ?_, ρ, hρ, rfl⟩
    have htyped : step cfg (w.typed ρ) l = (step cfg (w.typed .empty) l).map ({ · with redis := ρ }) :=
      step_storeless (s := w.typed .empty) hl ρ
    rw [hs] at htyped
    exact htyped

/-- **And the other way round.** -/
theorem Wired.back (hA : A.Uuids) (h : Wired A w s) (hstep : step cfg s l = some s') :
    ∃ w', WireStep A cfg w l w' ∧ Wired A w' s' := by
  obtain ⟨ρ, hρ, rfl⟩ := h
  by_cases hl : l.isStoreless = true
  · have htyped : step cfg (w.typed ρ) l = (step cfg (w.typed .empty) l).map ({ · with redis := ρ }) :=
      step_storeless (s := w.typed .empty) hl ρ
    rw [hstep] at htyped
    obtain ⟨t, ht, rfl⟩ := Option.map_eq_some_iff.mp htyped.symm
    exact ⟨_, .other hl ht, ρ, hρ, rfl⟩
  cases step_cases hstep with
  | exec hc he =>
    obtain ⟨raw, store, hp, hr, hρ'⟩ := Wired.performs hA hρ he
    exact ⟨_, .exec hc hp hr, _, hρ', rfl⟩
  | late hi hc he =>
    obtain ⟨raw, store, hp, -, hρ'⟩ := Wired.performs hA hρ he
    exact ⟨_, .late hi hc hp, _, hρ', rfl⟩
  | expire hx =>
    cases hx with
    | generation id => exact ⟨_, .expireGeneration id, _, hρ.delRecord id, rfl⟩
    | topUp o => exact ⟨_, .expireTopUp o, _, hρ.delTopUp o, rfl⟩
    | lock u => exact ⟨_, .expireLock u, _, hρ.delLock hA u, rfl⟩
    | balance u => exact ⟨_, .dropBalance u, _, hρ.delBalance hA u, rfl⟩
  | spawn => exact absurd rfl hl
  | abandon => exact absurd rfl hl
  | crash => exact absurd rfl hl
  | feed hf => cases hf <;> exact absurd rfl hl

/-- **The system on strings is the system on typed values**: the runs of either are runs of the
other, with the same labels, and at their ends the strings are the texts of the typed store and
all else is the same. -/
theorem wire_system (hA : A.Uuids) (pg : Rows) :
    (∀ ls w, Steps (WireStep A cfg) (.start pg) ls w →
      ∃ tr s, Runs cfg (.start pg) tr s ∧ tr.map Trans.label = ls ∧ Wired A w s) ∧
    ∀ tr s, Runs cfg (.start pg) tr s →
      ∃ w, Steps (WireStep A cfg) (.start pg) (tr.map Trans.label) w ∧ Wired A w s :=
  ⟨fun _ _ h => h.simulated (Wired.forth hA) (.start A pg), fun _ _ h => h.simulated (Wired.back hA) (.start A pg)⟩

/-! ### Texts of UUIDs -/

theorem digitsText_lt (k : ℕ) (before : String) (i j : ℕ) :
    (digitsText k before).str i < (digitsText k before).str j ↔ i < j := by
  have hmono : StrictMono (digitsText k before).str := by
    intro i j h
    simp only [digitsText, String.lt_iff_toList_lt, String.toList_append, String.toList_ofList]
    exact Numeral.append_lt_append _ (Numeral.marked_lt k h)
  exact hmono.lt_iff_lt

theorem plainAdapter_uuids : plainAdapter.Uuids where
  apart u v := ne_of_head (by simp [plainAdapter, digitsText])
  ordered := digitsText_lt 12 _

/-- The generation 5 of user 1 holds its plan. -/
def premiumHeld (tr : List (Trans System Label)) (s : System) : Bool :=
  tr.length == 9 && (s.redis.bal.get 1).map Balance.version == some 8 &&
    (s.redis.gen.get 5).any fun g => g.status = .running

theorem premiumHeld_run : ∃ tr s, Runs {} (.start dollarRows) tr s ∧ premiumHeld tr s = true :=
  Runs.of_schedule {} (.start dollarRows) (.spawn 0 (.gen (premium 1 5)) :: coldLoad 0 ++ [.exec 0 [] 0]) premiumHeld
    (by decide +kernel)

/-- The hash of the balance has its next version, in digits. -/
theorem wire_system_premium :
    ∃ ls w, Steps (WireStep plainAdapter {}) (.start dollarRows) ls w ∧ ls.length = 9 ∧
      (w.store.raw.hashes.get (plainAdapter.balanceKey 1)).bind (·.get "version") = some "8" := by
  obtain ⟨tr, s, hr, h⟩ := premiumHeld_run
  simp only [premiumHeld, Bool.and_eq_true, beq_iff_eq] at h
  obtain ⟨w, hw, ρ, hρ, rfl⟩ := (wire_system plainAdapter_uuids dollarRows).2 tr s hr
  obtain ⟨b, hb, hv⟩ := Option.map_eq_some_iff.mp h.1.2
  obtain ⟨f, hf, hholds⟩ := hρ.raw.balance hb
  refine ⟨_, w, hw, by rw [List.length_map, h.1.1], ?_⟩
  have hversion : f.get "version" = some b.version.repr := hholds .version
  rw [hf, Option.bind_some, hversion, hv]
  rfl

/-- **Every reply can be read**: after no run does the adapter raise on what a request is answered with. -/
theorem replies_read (hA : A.Uuids) {pg : Rows} {ls : List Label} (hr : Steps (WireStep A cfg) (.start pg) ls w)
    {pick : List UserId} {c : Call} {raw : RawReply} {store : RawStore}
    (hp : A.perform pick w.store c = some (raw, store)) : (A.hears c raw).isSome := by
  obtain ⟨tr, s, -, -, ρ, hρ, -⟩ := ((wire_system hA pg).1 ls w hr)
  obtain ⟨r, ρ', -, hr, -⟩ := Wired.exec hA hρ hp
  rw [hr]
  rfl

/-- The record that was written is read back as running. -/
theorem replies_read_premium : ∃ ls w raw store, Steps (WireStep plainAdapter {}) (.start dollarRows) ls w ∧
    ls.length = 9 ∧ plainAdapter.perform [] w.store (.getGeneration 5) = some (raw, store) ∧
      (plainAdapter.hears (.getGeneration 5) raw).isSome ∧
        ∃ g, plainAdapter.hears (.getGeneration 5) raw = some (.record (some g)) ∧ g.status = .running := by
  obtain ⟨tr, s, hr, h⟩ := premiumHeld_run
  simp only [premiumHeld, Bool.and_eq_true, beq_iff_eq, Option.any_eq_true, decide_eq_true_eq] at h
  obtain ⟨⟨hlen, -⟩, g, hg, hrunning⟩ := h
  obtain ⟨w, hw, ρ, hρ, rfl⟩ := (wire_system plainAdapter_uuids dollarRows).2 tr s hr
  obtain ⟨raw, store, hp, hhears, -⟩ := Wired.performs plainAdapter_uuids hρ
    (show GenerationBalance.exec [] ρ (.getGeneration 5) = some (.record (ρ.gen.get 5), ρ) from rfl)
  refine ⟨_, w, raw, store, hw, by rw [List.length_map, hlen], hp, replies_read plainAdapter_uuids hw hp, ?_⟩
  change ρ.gen.get 5 = some g at hg
  exact ⟨GenerationBalance.recordFromFields g.plain, by rw [hhears, hg]; rfl, hrunning⟩

end GenerationBalance
