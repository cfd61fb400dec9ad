/-
What `reap_once` reports (`backend/app/billing/reaper.py`). The refunder
returns alike when its `REFUND` was applied and when it came too late, so the
reaper counts and logs every reservation it tried to refund. Its report is the
reservations whose plan it returned exactly when none of its refunds came too late.
-/
import GenerationBalance.Runs

namespace GenerationBalance

open Transition

/-! ## What is reported, and what is refunded -/

/-- The reservations counted so far. -/
def ReapPc.reaped : ReapPc → Option ℕ
  | .listing _ => some 0
  | .reading _ _ k | .forgetting _ _ k _ | .refunding _ _ _ k | .ended (.ok k) => some k
  | .ended (.error _) => none

/-- The id that `p` logs as reaped in a transition: it is logged where it is counted. -/
def logged (p : ℕ) (t : Trans System Label) : Option RequestId :=
  match t.pre.procs p, t.post.procs p with
  | .reap (.refunding a _ _ k), .reap pc => if pc.reaped = some (k + 1) then some a.clientRequestId else none
  | _, _ => none

/-- The ids that `p` logged, the newest first. -/
def logs (p : ℕ) (tr : List (Trans System Label)) : List RequestId := tr.filterMap (logged p)

/-- The `REFUND` that `p` makes in a transition, and its reply. -/
def refunds (cfg : Config) (p : ℕ) (t : Trans System Label) : Option (RefundArgs × Reply) :=
  match t.label, ran cfg t with
  | .exec q _ _, some ⟨_, _, .refund a, r⟩ => if q = p then some (a, r) else none
  | _, _ => none

/-- The id of the reservation whose plan `p` returns in a transition. -/
def returned (cfg : Config) (p : ℕ) (t : Trans System Label) : Option RequestId :=
  match refunds cfg p t with
  | some (a, .refund .ok) => some a.clientRequestId
  | _ => none

/-- The ids of the reservations whose plan `p` returned, the newest first. -/
def returns (cfg : Config) (p : ℕ) (tr : List (Trans System Label)) : List RequestId :=
  tr.filterMap (returned cfg p)

/-- The reservation that `p` refunds in a transition is still running. -/
def InTime (cfg : Config) (p : ℕ) (t : Trans System Label) : Prop :=
  ∀ x, refunds cfg p t = some x →
    ∃ r, t.pre.redis.gen.get x.1.clientRequestId = some r ∧ r.status = .running

/-- The report of `p` is what it did: the ids it logged are the reservations whose plan it
returned, it returns their number, and none of them was charged. -/
structure HonestReport (cfg : Config) (p : ℕ) (tr : List (Trans System Label)) (s : System) : Prop where
  ids : ∀ id, id ∈ logs p tr ↔ id ∈ returns cfg p tr
  number : ∀ k, s.procs p = .reap (.ended (.ok k)) → k = (returns cfg p tr).toFinset.card
  uncharged : ∀ t ∈ tr, ∀ id, logged p t = some id → ∀ r, t.post.redis.gen.get id = some r → r.status ≠ .done

/-! ## One step -/

section Step

variable {cfg : Config} {s s' : System} {l : Label} {p : ℕ} {pc : ReapPc}

theorem ReapPc.next_reaped (todo : List RequestId) (k : ℕ) : (ReapPc.next todo k).reaped = some k := by
  cases todo <;> rfl

/-- Only a reply to its `REFUND` makes the refunder return. -/
theorem RefundPc.resume_ret {fresh : Token} {pc : RefundPc} {i : Input} (h : pc.resume cfg fresh i = .ret ()) :
    ∃ attempt rounds r, pc = .calling attempt rounds ∧ i = .reply (.refund r) ∧ (r = .ok ∨ r = .stale) := by
  unfold RefundPc.resume at h
  split at h
  · next attempt rounds r =>
    cases r with
    | ok => exact ⟨attempt, rounds, .ok, rfl, rfl, .inl rfl⟩
    | stale => exact ⟨attempt, rounds, .stale, rfl, rfl, .inr rfl⟩
    | missing => cases h
  · cases h
  · unfold Config.retrying at h
    split at h <;> cases h
  · next rounds l =>
    generalize l.resume fresh _ = n at h
    cases n with
    | run l => cases h
    | raise e => cases h
    | ret b => cases rounds <;> cases h
  · cases h

/-- The request of a reaper that is a `REFUND`. -/
theorem ReapPc.action_refund {a : RefundArgs} (h : pc.action cfg = .call (.refund a)) :
    ∃ attempt rounds todo k, pc = .refunding a (.calling attempt rounds) todo k := by
  cases pc with
  | refunding b rpc todo k =>
    cases rpc with
    | calling attempt rounds => cases h; exact ⟨attempt, rounds, todo, k, rfl⟩
    | loading rounds l => cases l <;> cases h
  | listing | reading | forgetting | ended => cases h

theorem refunds_some {x : RefundArgs × Reply} (h : StepCase cfg s l s') (hx : refunds cfg p ⟨s, l, s'⟩ = some x) :
    ∃ pick, (s.procs p).action cfg = .call (.refund x.1) ∧ exec pick s.redis (.refund x.1) = some (x.2, s'.redis) ∧
      ∃ now, s'.procs p = (s.procs p).resume cfg ⟨p, s.draws⟩ now (.reply x.2) := by
  simp only [refunds] at hx
  split at hx
  · next q pick now owner st a r hran =>
    split at hx
    · next hq =>
      subst hq
      cases hx
      cases h with
      | @exec q pick now c r' ρ hc he =>
        simp only [ran, hc, he, Option.map_some, Option.some.injEq, Ran.mk.injEq] at hran
        obtain ⟨-, -, rfl, rfl⟩ := hran
        exact ⟨pick, hc, he, now, Function.update_self ..⟩
      | feed hf => cases hf
      | expire he => cases he
    · cases hx
  · cases hx

/-- What is logged was refunded, in time or too late. -/
theorem logged_some {id : RequestId} (h : StepCase cfg s l s') (hlog : logged p ⟨s, l, s'⟩ = some id) :
    ∃ a r, refunds cfg p ⟨s, l, s'⟩ = some (a, .refund r) ∧ a.clientRequestId = id ∧ (r = .ok ∨ r = .stale) := by
  simp only [logged] at hlog
  split at hlog
  · next a rpc todo k pc hpre hpost =>
    split at hlog
    · next hk =>
      cases hlog
      cases h.goes p with
      | same he =>
        rw [hpre, hpost] at he
        cases he
        simp [ReapPc.reaped] at hk
      | started _ hi => rw [hpre] at hi; cases hi
      | crashed _ hc => rw [hpost] at hc; cases hc
      | @resumed i now hg _ hs' =>
        rw [hpre, hpost] at hs'
        simp only [Proc.resume, ReapPc.resume, Proc.reap.injEq] at hs'
        cases hres : rpc.resume cfg ⟨p, s.draws⟩ i with
        | run pc' =>
          rw [hres] at hs'
          subst hs'
          simp [Next.elim, ReapPc.reaped] at hk
        | raise e =>
          rw [hres] at hs'
          subst hs'
          simp [Next.elim, ReapPc.reaped, ReapPc.raised] at hk
        | ret u =>
          obtain ⟨attempt, rounds, r, rfl, rfl, hr⟩ := RefundPc.resume_ret hres
          have ha : (s.procs p).action cfg = .call (.refund a) := by rw [hpre]; rfl
          cases hg with
          | @reply _ pick now' c _ hc he hp =>
            rw [ha] at hc
            cases hc
            refine ⟨a, r, ?_, rfl, hr⟩
            simp only [refunds, ran, ha, he, Option.map_some, if_true]
          | feed hf => cases hf
    · cases hlog
  · cases hlog

/-- A refund that returns is logged. -/
theorem logged_of_refund {a : RefundArgs} {r : RefundReply} (h : StepCase cfg s l s') (hp : s.procs p = .reap pc)
    (hx : refunds cfg p ⟨s, l, s'⟩ = some (a, .refund r)) (hr : r = .ok ∨ r = .stale) :
    logged p ⟨s, l, s'⟩ = some a.clientRequestId := by
  obtain ⟨pick, hc, -, now, hs'⟩ := refunds_some h hx
  rw [hp] at hc hs'
  obtain ⟨attempt, rounds, todo, k, rfl⟩ := ReapPc.action_refund hc
  have hret : RefundPc.resume cfg ⟨p, s.draws⟩ (.calling attempt rounds) (.reply (.refund r)) = .ret () := by
    rcases hr with rfl | rfl <;> rfl
  simp only [Proc.resume, ReapPc.resume, hret, Next.elim] at hs'
  simp only [logged, hp, hs', ReapPc.next_reaped, if_true]

/-- A refund of what is not running comes too late. -/
theorem refund_late {a : RefundArgs} {ρ : Redis} (h : ∀ r, ρ.gen.get a.clientRequestId = some r → r.status ≠ .running) :
    refund a ρ = (.ok .stale, ρ) := by
  cases hg : ρ.gen.get a.clientRequestId with
  | none =>
    simp [refund, Script.store_bind, hg]
    rfl
  | some r =>
    simp [refund, Script.store_bind, hg, h r hg]
    rfl

/-- **In time** is what is not answered `STALE`. -/
theorem inTime_iff (h : StepCase cfg s l s') :
    InTime cfg p ⟨s, l, s'⟩ ↔ ∀ a, refunds cfg p ⟨s, l, s'⟩ ≠ some (a, .refund .stale) := by
  constructor
  · intro ht a hx
    obtain ⟨r, hg, hr⟩ := ht _ hx
    obtain ⟨pick, -, he, -⟩ := refunds_some h hx
    cases exec_ok he rfl with
    | refund hok => exact (RefundOk.of_stale hok).1 r hg hr
  · intro hn x hx
    by_contra hno
    have hlate : ∀ r, s.redis.gen.get x.1.clientRequestId = some r → r.status ≠ .running := fun r hg hr =>
      hno ⟨r, hg, hr⟩
    obtain ⟨pick, -, he, -⟩ := refunds_some h hx
    simp only [exec, refund_late hlate, scriptReply, Option.some.injEq, Prod.mk.injEq] at he
    refine hn x.1 ?_
    rw [hx, he.1]

theorem returned_some {id : RequestId} {t : Trans System Label} :
    returned cfg p t = some id ↔ ∃ a, refunds cfg p t = some (a, .refund .ok) ∧ a.clientRequestId = id := by
  unfold returned
  split
  · next a ha =>
    rw [ha]
    constructor
    · intro h
      cases h
      exact ⟨a, rfl, rfl⟩
    · intro ⟨b, hb, hid⟩
      cases hb
      rw [hid]
  · next hn =>
    constructor
    · intro h
      cases h
    · rintro ⟨a, ha, -⟩
      exact absurd ha (hn a)

/-- In a step of a reaper what is returned is logged, and what is logged in time is returned
and was not charged. -/
theorem StepCase.report (h : StepCase cfg s l s') (hp : s.procs p = .reap pc) (ht : InTime cfg p ⟨s, l, s'⟩) :
    logged p ⟨s, l, s'⟩ = returned cfg p ⟨s, l, s'⟩ := by
  cases hlog : logged p ⟨s, l, s'⟩ with
  | some id =>
    obtain ⟨a, r, hx, hid, rfl | rfl⟩ := logged_some h hlog
    · exact (returned_some.mpr ⟨a, hx, hid⟩).symm
    · exact absurd hx ((inTime_iff h).mp ht a)
  | none =>
    cases hret : returned cfg p ⟨s, l, s'⟩ with
    | none => rfl
    | some id =>
      obtain ⟨a, hx, -⟩ := returned_some.mp hret
      cases hlog.symm.trans (logged_of_refund h hp hx (.inl rfl))

end Step

/-! ## The count along a run -/

/-- The ids a reaper has still to look at. -/
def ReapPc.ids : ReapPc → List RequestId
  | .reading id todo _ | .forgetting id todo _ _ => id :: todo
  | .refunding a _ todo _ => a.clientRequestId :: todo
  | .listing _ | .ended _ => []

@[simp] theorem ReapPc.next_ids (todo : List RequestId) (k : ℕ) : (ReapPc.next todo k).ids = todo := by
  cases todo <;> rfl

/-- How a resumption changes the ids a reaper has still to look at, and its count. -/
inductive ReapStep : ReapPc → Input → ReapPc → Prop
  | lists {cutoff stale} : ReapStep (.listing cutoff) (.reply (.ids stale)) (.next stale 0)
  | keeps {pc i pc'} : (pc'.reaped = none ∨ pc'.reaped = pc.reaped) → pc'.ids <:+ pc.ids → ReapStep pc i pc'
  | counts {a rpc todo k i} : ReapStep (.refunding a rpc todo k) i (.next todo (k + 1))

theorem reapStep (cfg : Config) (fresh : Token) (pc : ReapPc) (i : Input) :
    ReapStep pc i (pc.resume cfg fresh i) := by
  have raised : ∀ {pc i e}, ReapStep pc i (.raised e) := fun {_ _ _} => .keeps (.inl rfl) (List.nil_suffix)
  unfold ReapPc.resume
  split
  · exact .lists
  · exact raised
  · exact raised
  · exact .keeps (.inr rfl) (List.suffix_refl _)
  · next id todo k g =>
    split
    · exact .keeps (.inr rfl) (List.suffix_refl _)
    · unfold ReapPc.startRefund
      split
      · exact raised
      · next a ha =>
        have hid : a.clientRequestId = id := by
          obtain ⟨plan, -, hplan⟩ := bind_eq_ok.mp ha
          cases hplan
          rfl
        cases cfg.reserveMaxAttempts with
        | zero => exact raised
        | succ n => exact .keeps (.inr rfl) (by rw [← hid]; exact List.suffix_refl _)
  · next id todo k n f =>
    refine .keeps (.inr (ReapPc.next_reaped todo k)) ?_
    rw [ReapPc.next_ids]
    exact List.suffix_cons _ _
  · exact retrying_cases (.keeps (.inr rfl) (List.suffix_refl _)) raised
  · exact elim_cases (fun _ _ => .keeps (.inr rfl) (List.suffix_refl _)) (fun _ _ => .counts) fun _ _ => raised
  · exact .keeps (.inr rfl) (List.suffix_refl _)

/-- The reaper `p` counts what it logs, and logs no id twice. -/
structure Counting (p : ℕ) (tr : List (Trans System Label)) (s : System) : Prop where
  nodup : (logs p tr).Nodup
  live : s.procs p = .crashed ∨ ∃ pc, s.procs p = .reap pc ∧
    (∀ k, pc.reaped = some k → k = (logs p tr).length) ∧ (pc.ids ++ logs p tr).Nodup

section Count

variable {cfg : Config} {s s' : System} {l : Label} {p : ℕ} {tr : List (Trans System Label)}

theorem logs_cons (t : Trans System Label) :
    logs p (t :: tr) = (logged p t).toList ++ logs p tr := by
  unfold logs
  rw [List.filterMap_cons]
  cases logged p t <;> rfl

theorem logged_keeps {pc pc' : ReapPc} (hp : s.procs p = .reap pc) (hp' : s'.procs p = .reap pc')
    (h : pc'.reaped = none ∨ pc'.reaped = pc.reaped) : logged p ⟨s, l, s'⟩ = none := by
  simp only [logged, hp, hp']
  split
  · next a rpc todo k pc'' he he' =>
    cases he
    cases he'
    rcases h with h | h
    · rw [h]
      simp
    · rw [h]
      simp [ReapPc.reaped]
  · rfl

theorem logs_quiet (hn : logged p ⟨s, l, s'⟩ = none) : logs p (⟨s, l, s'⟩ :: tr) = logs p tr := by
  rw [logs_cons, hn]
  rfl

theorem Counting.crashed (hc : Counting p tr s) (hs' : s'.procs p = .crashed) : Counting p (⟨s, l, s'⟩ :: tr) s' := by
  have hn : logged p ⟨s, l, s'⟩ = none := by
    unfold logged
    split
    · next he => cases hs'.symm.trans he
    · rfl
  refine ⟨?_, .inl hs'⟩
  rw [logs_quiet hn]
  exact hc.nodup

section Reap

variable {pc : ReapPc} (hc : Counting p tr s) (hpc : s.procs p = .reap pc)
  (hk : ∀ k, pc.reaped = some k → k = (logs p tr).length) (hn : (pc.ids ++ logs p tr).Nodup)

include hc hpc hk hn

/-- A step after which there is no more to look at and nothing more is counted. -/
theorem Counting.keeps {pc' : ReapPc} (hs' : s'.procs p = .reap pc')
    (hr : pc'.reaped = none ∨ pc'.reaped = pc.reaped) (hi : pc'.ids <:+ pc.ids) :
    Counting p (⟨s, l, s'⟩ :: tr) s' := by
  have hq : logs p (⟨s, l, s'⟩ :: tr) = logs p tr := logs_quiet (logged_keeps hpc hs' hr)
  refine ⟨hq ▸ hc.nodup, .inr ⟨_, hs', fun k hk' => ?_, ?_⟩⟩
  · rw [hq]
    rcases hr with hr | hr
    · rw [hr] at hk'
      cases hk'
    · exact hk k (hr ▸ hk')
  · rw [hq]
    exact hn.sublist (hi.sublist.append_right _)

/-- A resumption of the reaper. -/
theorem Counting.resumed {i : Input} (hg : Given cfg s s' l p i)
    (hs' : s'.procs p = .reap (pc.resume cfg ⟨p, s.draws⟩ i)) : Counting p (⟨s, l, s'⟩ :: tr) s' := by
  have hstep := reapStep cfg ⟨p, s.draws⟩ pc i
  generalize pc.resume cfg ⟨p, s.draws⟩ i = pc' at hs' hstep
  cases hstep with
  | keeps hr hi => exact hc.keeps hpc hk hn hs' hr hi
  | @lists cutoff stale =>
    have hq : logs p (⟨s, l, s'⟩ :: tr) = logs p tr := logs_quiet (by simp only [logged, hpc])
    have hnil : logs p tr = [] := List.eq_nil_of_length_eq_zero (hk 0 rfl).symm
    obtain ⟨pick, c, ha, he, -⟩ := hg.answer
    rw [hpc] at ha
    cases ha
    simp only [GenerationBalance.exec, Option.some.injEq, Prod.mk.injEq, Reply.ids.injEq] at he
    refine ⟨hq ▸ hc.nodup, .inr ⟨_, hs', fun k hk' => ?_, ?_⟩⟩
    · rw [ReapPc.next_reaped] at hk'
      rw [hq, hnil]
      exact (Option.some.inj hk').symm
    · rw [hq, hnil, List.append_nil, ReapPc.next_ids, ← he.1]
      exact s.redis.staleInflight_nodup _ _
  | @counts a rpc todo k _ =>
    have hlog : logged p ⟨s, l, s'⟩ = some a.clientRequestId := by
      simp only [logged, hpc, hs', ReapPc.next_reaped, if_true]
    have hcons : logs p (⟨s, l, s'⟩ :: tr) = a.clientRequestId :: logs p tr := by
      rw [logs_cons, hlog]
      rfl
    have hmid : (todo ++ a.clientRequestId :: logs p tr).Nodup := List.nodup_middle.mpr hn
    refine ⟨?_, .inr ⟨_, hs', fun k' hk' => ?_, ?_⟩⟩
    · rw [hcons]
      exact hmid.of_append_right
    · rw [ReapPc.next_reaped] at hk'
      rw [hcons, List.length_cons, ← hk k rfl]
      exact (Option.some.inj hk').symm
    · rw [hcons, ReapPc.next_ids]
      exact hmid

end Reap

theorem StepCase.counting (h : StepCase cfg s l s') (hc : Counting p tr s) : Counting p (⟨s, l, s'⟩ :: tr) s' := by
  rcases hc.live with hdead | ⟨pc, hpc, hk, hn⟩
  · refine hc.crashed ?_
    cases h.goes p with
    | same he => rw [he, hdead]
    | started _ hi => rw [hdead] at hi; cases hi
    | crashed _ hc' => exact hc'
    | resumed _ _ hs' => rw [hs', hdead]; rfl
  · cases h.goes p with
    | started _ hi => rw [hpc] at hi; cases hi
    | crashed _ hc' => exact hc.crashed hc'
    | same he => exact hc.keeps hpc hk hn (he.trans hpc) (.inr rfl) (List.suffix_refl _)
    | resumed hg _ hs' =>
      rw [hpc] at hs'
      exact hc.resumed hpc hk hn hg hs'

theorem Runs.counting {s₀ : System} {now : ℚ} (hr : Runs cfg s₀ tr s) (hp : s₀.procs p = .reap (.start cfg now)) :
    Counting p tr s := by
  refine hr.invariant_history (I := fun tr s => Counting p tr s) (P := fun _ => True) (fun _ _ => trivial) ?_ ?_
  · refine ⟨List.nodup_nil, .inr ⟨_, hp, fun k hk => ?_, List.nodup_nil⟩⟩
    cases hk
    rfl
  · intro tr s l s' _ _ hc hs _
    exact (step_cases hs).counting hc

end Count

/-! ## The report -/

section Report

variable {cfg : Config} {s₀ s : System} {p : ℕ} {now : ℚ} {tr : List (Trans System Label)}

/-- A call of the reaper is a reaper's until its process dies. -/
theorem Runs.reaper (hr : Runs cfg s₀ tr s) {pc : ReapPc} (hp : s₀.procs p = .reap pc) :
    (∃ pc, s.procs p = .reap pc) ∨ s.procs p = .crashed := by
  refine hr.invariant (I := fun s => (∃ pc, s.procs p = .reap pc) ∨ s.procs p = .crashed) (P := fun _ => True)
    (fun _ _ => trivial) (.inl ⟨pc, hp⟩) ?_
  intro s l s' hi hs _
  cases (step_cases hs).goes p with
  | same he => rwa [he]
  | started _ hidle => rcases hi with ⟨pc, hpc⟩ | hc <;> simp_all
  | crashed _ hc => exact .inr hc
  | resumed _ _ he =>
    rcases hi with ⟨pc, hpc⟩ | hc
    · rw [hpc] at he
      exact .inl ⟨_, he⟩
    · rw [hc] at he
      exact .inr he

/-- In every step what the reaper logs in time is what it returns. -/
theorem Runs.logged_eq (hr : Runs cfg s₀ tr s) (hp : s₀.procs p = .reap (.start cfg now)) {t : Trans System Label}
    (ht : t ∈ tr) (hin : InTime cfg p t) : logged p t = returned cfg p t := by
  obtain ⟨newer, older, -, hbefore, hstep, -⟩ := hr.split ht
  rcases Runs.reaper hbefore hp with ⟨pc, hpc⟩ | hdead
  · exact (step_cases hstep).report hpc hin
  · have hret : returned cfg p t = none := by
      cases hret : returned cfg p t with
      | none => rfl
      | some id =>
        obtain ⟨a, hx, -⟩ := returned_some.mp hret
        obtain ⟨pick, ha, -⟩ := refunds_some (step_cases hstep) hx
        rw [hdead] at ha
        cases ha
    rw [hret]
    simp only [logged, hdead]

/-- **The reaper's report is honest exactly** when every reservation that it refunds is still
running at that moment. -/
theorem reap_report (hr : Runs cfg s₀ tr s) (hp : s₀.procs p = .reap (.start cfg now)) :
    HonestReport cfg p tr s ↔ ∀ t ∈ tr, InTime cfg p t := by
  have hcount := Runs.counting hr hp
  constructor
  · intro hh t ht
    obtain ⟨newer, older, htr, hbefore, hstep, -⟩ := hr.split ht
    rw [inTime_iff (step_cases hstep)]
    intro a hx
    -- What came too late is logged; it would be returned in another step, and logged there too.
    obtain ⟨pc, hpc⟩ | hdead := Runs.reaper hbefore hp
    · have hlog := logged_of_refund (step_cases hstep) hpc hx (.inr rfl)
      have hmem : a.clientRequestId ∈ logs p tr := List.mem_filterMap.mpr ⟨t, ht, hlog⟩
      obtain ⟨t', ht', hret⟩ := List.mem_filterMap.mp ((hh.ids _).mp hmem)
      obtain ⟨b, hb, hid⟩ := returned_some.mp hret
      have hin : InTime cfg p t' := by
        obtain ⟨_, _, _, _, hstep', _⟩ := hr.split ht'
        rw [inTime_iff (step_cases hstep')]
        intro c hc
        cases hb.symm.trans hc
      have hlog' : logged p t' = some a.clientRequestId := (hr.logged_eq hp ht' hin).trans hret
      have hnodup := hcount.nodup
      have hsplit : logs p tr = logs p newer ++ a.clientRequestId :: logs p older := by
        rw [htr]
        simp only [logs, List.filterMap_append, List.filterMap_cons, hlog]
      rw [hsplit, List.nodup_middle, List.nodup_cons, List.mem_append] at hnodup
      rw [htr, List.mem_append, List.mem_cons] at ht'
      rcases ht' with h | rfl | h
      · exact hnodup.1 (.inl (List.mem_filterMap.mpr ⟨t', h, hlog'⟩))
      · cases hb.symm.trans hx
      · exact hnodup.1 (.inr (List.mem_filterMap.mpr ⟨t', h, hlog'⟩))
    · obtain ⟨pick, ha, -⟩ := refunds_some (step_cases hstep) hx
      rw [hdead] at ha
      cases ha
  · intro hin
    have hsame : logs p tr = returns cfg p tr := List.filterMap_congr fun t ht => hr.logged_eq hp ht (hin t ht)
    refine ⟨fun id => by rw [hsame], fun k hk => ?_, fun t ht id hlog r hg hdone => ?_⟩
    · rw [← hsame, List.toFinset_card_of_nodup hcount.nodup]
      rcases hcount.live with hc | ⟨pc, hpc, hlen, -⟩
      · rw [hc] at hk
        cases hk
      · rw [hk] at hpc
        cases hpc
        exact hlen k rfl
    · obtain ⟨newer, older, -, hbefore, hstep, -⟩ := hr.split ht
      obtain ⟨a, hx, hid⟩ := returned_some.mp ((hr.logged_eq hp ht (hin t ht)).symm.trans hlog)
      obtain ⟨pick, -, he, -⟩ := refunds_some (step_cases hstep) hx
      cases exec_ok he rfl with
      | refund hok =>
        obtain ⟨r₀, -, -, hgen⟩ := RefundOk.of_ok hok
        rw [hgen, ← hid, Table.get_set_self] at hg
        cases hg
        cases hdone

end Report

/-! ## Two reaped reservations -/

/-- The reaper `1` has been asked to reap at 400. -/
def reaping : System :=
  { System.start dollarRows with procs := Function.update (fun _ => .idle) 1 (.reap (.start {} 400)) }

/-- A call reserves and dies; the reaper refunds the reservation. -/
def refundedSchedule : List Label :=
  .spawn 0 (.gen (premium 1 5)) :: coldLoad 0 ++ [.exec 0 [] 0, .crash 0, .exec 1 [] 0, .exec 1 [] 0, .exec 1 [] 0]

/-- A call reserves and is slow; it settles after the reaper has read its record as running. -/
def settledSchedule : List Label :=
  .spawn 0 (.gen (premium 1 5)) :: coldLoad 0 ++
    [.exec 0 [] 0, .provider 0, .exec 1 [] 0, .exec 1 [] 0, .provided 0 (.result "ok" (.finite ⟨5, -2⟩)), .exec 0 [] 0,
      .exec 1 [] 0]

def Proc.hasReaped (k : ℕ) : Proc → Bool
  | .reap (.ended (.ok n)) => n = k
  | _ => false

theorem Proc.hasReaped_iff {k : ℕ} {st : Proc} : st.hasReaped k = true ↔ st = .reap (.ended (.ok k)) := by
  constructor
  · intro h
    unfold hasReaped at h
    split at h
    · simp at h
      rw [h]
    · cases h
  · rintro rfl
    simp [hasReaped]

/-- A refund came too late. -/
def late (cfg : Config) (p : ℕ) (t : Trans System Label) : Bool :=
  match refunds cfg p t with
  | some (_, .refund .stale) => true
  | _ => false

theorem not_late {cfg : Config} {p : ℕ} {t : Trans System Label} (h : late cfg p t = false) (a : RefundArgs) :
    refunds cfg p t ≠ some (a, .refund .stale) := by
  intro hx
  simp [late, hx] at h

/-- The reaper returns the reservation of a call that died, and reports it. -/
theorem reap_report_refunded : ∃ tr s, Runs {} reaping tr s ∧ HonestReport {} 1 tr s ∧
    s.procs 1 = .reap (.ended (.ok 1)) := by
  obtain ⟨tr, s, hr, h⟩ := Runs.of_schedule {} reaping refundedSchedule
    (fun tr s => tr.all (fun t => !late {} 1 t) && (s.procs 1).hasReaped 1) (by decide +kernel)
  simp only [Bool.and_eq_true, List.all_eq_true, Bool.not_eq_true', Proc.hasReaped_iff] at h
  refine ⟨tr, s, hr, (reap_report hr (show reaping.procs 1 = .reap (.start {} 400) from rfl)).mpr fun t ht => ?_, h.2⟩
  obtain ⟨_, _, _, _, hstep, _⟩ := hr.split ht
  exact (inTime_iff (step_cases hstep)).mpr (not_late (h.1 t ht))

/-- The reaper reports a generation that was charged. -/
theorem reap_report_settled : ¬ ∀ (cfg : Config) (s₀ s : System) (tr : List (Trans System Label)) (p : ℕ) (now : ℚ),
    Runs cfg s₀ tr s → s₀.procs p = .reap (.start cfg now) → (∀ t ∈ tr, ∀ q, t.label ≠ .abandon q) →
      HonestReport cfg p tr s := by
  intro hall
  obtain ⟨tr, s, hr, h⟩ := Runs.of_schedule {} reaping settledSchedule
    (fun tr s => tr.all (fun t => match t.label with | .abandon _ => false | _ => true) &&
      (s.procs 1).hasReaped 1 && decide (returns {} 1 tr = [])) (by decide +kernel)
  simp only [Bool.and_eq_true, List.all_eq_true, Proc.hasReaped_iff, decide_eq_true_eq] at h
  have hh := hall {} reaping s tr 1 400 hr rfl fun t ht q hq => by
    have := h.1.1 t ht
    rw [hq] at this
    cases this
  have := hh.number 1 h.1.2
  rw [h.2] at this
  cases this

end GenerationBalance
