/-
What a call costs PostgreSQL. A call that is started while a user's balance is hot
never loads that user's row, unless the balance is dropped meanwhile; a call that
finds it cold loads it once. Only a flush writes, in one transaction, and it reads
again only the rows that its statement rejected.
-/
import GenerationBalance.Bounded
import GenerationBalance.Upserts

namespace GenerationBalance

open Transition

/-! ## Reads -/

/-- The `SELECT`s that a call may need for a user whose balance is hot, or is not. -/
def coldReads (hot : Bool) : ℕ := if hot then 0 else 1

/-- The `SELECT`s of its user that a loader's call has left: none once it has read the row, until
the balance is dropped again. -/
def LoaderPc.readsLeft (hot : Bool) : LoaderPc → ℕ
  | .select _ => 1
  | .seed _ _ | .release _ (.raise _) => 0
  | _ => coldReads hot

/-- The loader is about to read the row. -/
def LoaderPc.reading : LoaderPc → Bool
  | .select _ => true
  | _ => false

/-- The `SELECT`s of `u` that a call has left. -/
def Proc.readsLeft (cfg : Config) (hot : Bool) (u : UserId) (st : Proc) : ℕ :=
  match st.action cfg, st.loader with
  | .none, _ => 0
  | _, some (w, l) => if w = u then l.readsLeft hot else coldReads hot
  | _, none => coldReads hot

theorem coldReads_le {hot hot' : Bool} (h : hot = true → hot' = true) : coldReads hot' ≤ coldReads hot := by
  cases hot <;> cases hot' <;> simp_all [coldReads]

theorem coldReads_le_one (hot : Bool) : coldReads hot ≤ 1 := by
  cases hot <;> simp [coldReads]

theorem LoaderPc.readsLeft_le {hot hot' : Bool} {n : ℕ} (h : coldReads hot' ≤ coldReads hot + n) (l : LoaderPc) :
    l.readsLeft hot' ≤ l.readsLeft hot + n := by
  cases l with
  | select t => exact Nat.le_add_right _ _
  | seed t b => exact Nat.zero_le _
  | release t exit =>
    cases exit with
    | raise e => exact Nat.zero_le _
    | ret b => exact h
    | again => exact h
  | _ => exact h

/-- What a loader's call has left after an input: what it raises ends the call. -/
theorem LoaderPc.readsLeft_resume {hot : UserId → Bool} {u : UserId} {l : LoaderPc} {i : Input} (fresh : Token)
    (h : Awaited hot (l.action u) i) :
    (l.resume fresh i).elim (readsLeft (hot u)) (fun _ => coldReads (hot u)) (fun _ => 0) +
      (if l.reading then 1 else 0) ≤ l.readsLeft (hot u) := by
  cases l with
  | load =>
    cases h with
    | @balance _ b hb => cases b <;> simp_all [resume, Next.elim, readsLeft, reading]
    | lost => simp [resume, Next.elim, readsLeft, reading]
  | tryLock t =>
    cases h with
    | @locked _ _ f => cases f <;> simp [resume, Next.elim, readsLeft, reading]
    | lost => simp [resume, Next.elim, readsLeft, reading]
  | recheck t =>
    cases h with
    | @balance _ b hb =>
      -- The row is read only when the balance is absent.
      cases b <;> simp_all [resume, Next.elim, readsLeft, reading, coldReads]
    | lost => simp [resume, Next.elim, readsLeft, reading]
  | select t =>
    cases h with
    | @row _ r => cases r <;> simp [resume, Next.elim, readsLeft, reading]
  | seed t b =>
    cases h with
    | seeded hu => simp [resume, Next.elim, readsLeft, reading, coldReads, hu]
    | lost => simp [resume, Next.elim, readsLeft, reading]
  | release t exit =>
    cases h with
    | released => cases exit <;> simp [resume, Exit.next, Next.elim, readsLeft, reading]
    | lost => simp [resume, Next.elim, reading]
  | poll =>
    cases h with
    | timeout => simp [resume, Next.elim, reading]
    | wake => simp [resume, Next.elim, readsLeft, reading]

section Proc

variable {cfg : Config} {hot : Bool} {u w : UserId} {st : Proc} {l : LoaderPc}

theorem LoaderPc.action_ne_none (u : UserId) (l : LoaderPc) : l.action u ≠ .none := by
  cases l <;> simp [action]

theorem Proc.readsLeft_over (h : st.action cfg = .none) : st.readsLeft cfg hot u = 0 := by
  simp only [readsLeft, h]

theorem Proc.readsLeft_live (h : st.action cfg ≠ .none) (hl : st.loader = none) :
    st.readsLeft cfg hot u = coldReads hot := by
  unfold readsLeft
  split
  · next ha => exact absurd ha h
  · next hs _ => rw [hl] at hs; cases hs
  · rfl

theorem Proc.readsLeft_loading (hl : st.loader = some (w, l)) :
    st.readsLeft cfg hot u = if w = u then l.readsLeft hot else coldReads hot := by
  have ha : st.action cfg ≠ .none := by
    rw [Proc.loader_action hl]
    exact l.action_ne_none w
  unfold readsLeft
  split
  · next hn => exact absurd hn ha
  · next hs _ => rw [hl] at hs; cases hs; rfl
  · next hs _ => rw [hl] at hs; cases hs

theorem Proc.readsLeft_le_cold (hl : ∀ l, st.loader = some (u, l) → l.readsLeft hot ≤ coldReads hot) :
    st.readsLeft cfg hot u ≤ coldReads hot := by
  by_cases ha : st.action cfg = .none
  · rw [readsLeft_over ha]
    exact Nat.zero_le _
  · cases hs : st.loader with
    | none => rw [readsLeft_live ha hs]
    | some x =>
      obtain ⟨w, l⟩ := x
      rw [readsLeft_loading hs]
      split
      · next hw => exact hl l (hw ▸ hs)
      · exact le_refl _

/-- Which balances are hot matters as far as a cold one costs a read. -/
theorem Proc.readsLeft_frame {hot' : Bool} {n : ℕ} (h : coldReads hot' ≤ coldReads hot + n) :
    st.readsLeft cfg hot' u ≤ st.readsLeft cfg hot u + n := by
  by_cases ha : st.action cfg = .none
  · rw [readsLeft_over ha]
    exact Nat.zero_le _
  · cases hs : st.loader with
    | none => rw [readsLeft_live ha hs, readsLeft_live ha hs]; exact h
    | some x =>
      obtain ⟨w, l⟩ := x
      rw [readsLeft_loading hs, readsLeft_loading hs]
      split
      · exact l.readsLeft_le h
      · exact h

/-- What a load raises ends the call. -/
theorem Proc.resume_raised {fresh : Token} {now : ℚ} {i : Input} {e : Exn} (h : st.loader = some (w, l))
    (hn : l.resume fresh i = .raise e) : (st.resume cfg fresh now i).action cfg = .none := by
  cases st with
  | gen request pc =>
    cases pc with
    | loading k l | settleLoading S k l =>
      cases h
      simp only [resume, GenPc.resume, hn]
      rfl
    | refunding v reason pc after =>
      cases pc with
      | loading k l =>
        cases h
        simp only [resume, GenPc.resume, RefundPc.resume, hn]
        rfl
      | calling => cases h
    | _ => cases h
  | topUp command pc =>
    cases pc with
    | loading t k l =>
      cases h
      simp only [resume, TopUpPc.resume, hn]
      rfl
    | _ => cases h
  | balance w pc =>
    cases pc with
    | loading l =>
      cases h
      simp only [resume, BalancePc.resume, hn]
      rfl
    | ended => cases h
  | reap pc =>
    cases pc with
    | refunding a pc todo k =>
      cases pc with
      | loading n l =>
        cases h
        simp only [resume, ReapPc.resume, RefundPc.resume, hn]
        rfl
      | calling => cases h
    | _ => cases h
  | _ => cases h

/-- The call is about to read the row of `u`. -/
def Proc.reading (u : UserId) (st : Proc) : Bool :=
  match st.loader with
  | some (w, l) => w = u && l.reading
  | none => false

theorem Proc.readsLeft_resume {hot : UserId → Bool} {i : Input} (fresh : Token) (now : ℚ)
    (h : Awaited hot (st.action cfg) i) :
    (st.resume cfg fresh now i).readsLeft cfg (hot u) u + (if st.reading u then 1 else 0) ≤
      st.readsLeft cfg (hot u) u := by
  cases hl : st.loader with
  | none =>
    have ha : st.action cfg ≠ .none := by
      intro ha
      rw [ha] at h
      cases h
    rw [readsLeft_live ha hl, reading, hl, if_neg Bool.false_ne_true]
    refine readsLeft_le_cold fun l' hl' => ?_
    rcases Proc.resume_loader hl' with rfl | ⟨l, hbefore, -⟩
    · exact le_refl _
    · rw [hl] at hbefore
      cases hbefore
  | some x =>
    obtain ⟨w, l⟩ := x
    have hnew : (st.resume cfg fresh now i).loader = (l.resume fresh i).running.map (w, ·) := resume_loading hl
    rw [Proc.loader_action hl] at h
    rw [readsLeft_loading hl, reading, hl]
    by_cases hw : w = u
    · subst hw
      have hstep := LoaderPc.readsLeft_resume fresh h
      rw [if_pos rfl]
      simp only [decide_true, Bool.true_and]
      cases hn : l.resume fresh i with
      | run l' =>
        rw [hn] at hnew hstep
        rw [readsLeft_loading hnew, if_pos rfl]
        exact hstep
      | ret b =>
        rw [hn] at hnew hstep
        refine (Nat.add_le_add_right (readsLeft_le_cold fun l' hl' => ?_) _).trans hstep
        rw [hnew] at hl'
        cases hl'
      | raise e =>
        rw [hn] at hstep
        rw [readsLeft_over (resume_raised hl hn)]
        exact hstep
    · rw [if_neg hw]
      simp only [hw, decide_false, Bool.false_and, Bool.false_eq_true, if_false, Nat.add_zero]
      refine readsLeft_le_cold fun l' hl' => ?_
      rw [hnew] at hl'
      obtain ⟨l'', -, he⟩ := Option.map_eq_some_iff.mp hl'
      cases he
      exact absurd rfl hw

end Proc

/-! ## Transactions -/

/-- The transactions that a flush has left. -/
def FlushPc.writesLeft : FlushPc → ℕ
  | .picking | .loading _ _ _ | .committing _ _ => 1
  | _ => 0

/-- The transactions that a call has left. -/
def Proc.writesLeft : Proc → ℕ
  | .flush pc => pc.writesLeft
  | _ => 0

/-- What a call may write. -/
def Job.writes : Job → ℕ
  | .flush => 1
  | _ => 0

theorem FlushPc.clear_writes (written : ℕ) (users : List (UserId × ℤ)) : (clear written users).writesLeft = 0 := by
  cases users <;> rfl

theorem FlushPc.repair_writes (users : List UserId) (rows : List (UserId × Balance)) (written : ℕ)
    (rejected : List Rejected) : (repair users rows written rejected).writesLeft = 0 :=
  repair_cases (P := fun pc => pc.writesLeft = 0) (clear_writes _ _) fun _ _ _ => rfl

theorem FlushPc.load_writes (users : List UserId) (snapshots : List (UserId × Balance)) (todo : List UserId) :
    (load users snapshots todo).writesLeft ≤ 1 := by
  refine load_cases (P := fun pc => pc.writesLeft ≤ 1) (fun _ _ _ => le_refl _) (le_refl _) ?_
  rw [clear_writes]
  exact Nat.zero_le _

theorem FlushPc.resume_writes (cfg : Config) (pc : FlushPc) (i : Input) :
    (pc.resume cfg i).writesLeft ≤ pc.writesLeft := by
  have hmove := flushMove cfg pc i
  generalize pc.resume cfg i = pc' at hmove ⊢
  cases hmove with
  | stay | again => exact le_refl _
  | raised | nothing => exact Nat.zero_le _
  | picked | read => exact load_writes _ _ _
  | committed | repaired =>
    rw [repair_writes]
    exact Nat.zero_le _
  | cleared =>
    rw [clear_writes]
    exact Nat.zero_le _

theorem Proc.resume_writes (cfg : Config) (fresh : Token) (now : ℚ) (st : Proc) (i : Input) :
    (st.resume cfg fresh now i).writesLeft ≤ st.writesLeft := by
  cases st with
  | flush pc => exact FlushPc.resume_writes cfg pc i
  | _ => exact le_refl _

/-- Only a flush commits. -/
theorem Proc.commit_flush {cfg : Config} {st : Proc} {rows : List (UserId × Balance)}
    (h : st.action cfg = .commit rows) : ∃ users, st = .flush (.committing users rows) := by
  cases hl : st.loader with
  | some x =>
    obtain ⟨u, l⟩ := x
    rw [Proc.loader_action hl] at h
    cases l <;> cases h
  | none =>
    cases st with
    | idle | crashed => cases h
    | gen request pc =>
      cases pc with
      | loading | settleLoading => cases hl
      | refunding v reason pc after =>
        cases pc with
        | calling => cases h
        | loading => cases hl
      | _ => cases h
    | topUp command pc =>
      cases pc with
      | loading => cases hl
      | _ => cases h
    | balance u pc =>
      cases pc with
      | loading => cases hl
      | ended => cases h
    | reap pc =>
      cases pc with
      | refunding a pc todo k =>
        cases pc with
        | calling => cases h
        | loading => cases hl
      | _ => cases h
    | flush pc =>
      cases pc with
      | loading users todo rows => cases todo <;> cases h
      | committing users rows => cases h; exact ⟨users, rfl⟩
      | _ => cases h

/-- A flush whose transaction has ended writes no more. -/
theorem Proc.resume_committed {cfg : Config} {fresh : Token} {now : ℚ} {st : Proc} {rows : List (UserId × Balance)}
    {r : Option (List UserId × List Rejected)} (h : st.action cfg = .commit rows) :
    (st.resume cfg fresh now (.committed r)).writesLeft + 1 ≤ st.writesLeft := by
  obtain ⟨users, rfl⟩ := commit_flush h
  cases r with
  | none => exact le_refl _
  | some answer =>
    show (FlushPc.repair users rows answer.1.length answer.2).writesLeft + 1 ≤ 1
    rw [FlushPc.repair_writes]

/-! ## Steps -/

/-- The call `p` loads the row of `u`. -/
def readsRow (cfg : Config) (p : ℕ) (u : UserId) (t : Trans System Label) : Bool := moves p t && selects cfg u t

/-- The call `p` opens a transaction that writes. -/
def writesRows (p : ℕ) (t : Trans System Label) : Bool :=
  match t.label with
  | .commit q _ => q = p
  | _ => false

/-- How often a transaction reads the row of `u` again: when its statement rejected it. -/
def rereads (cfg : Config) (u : UserId) (t : Trans System Label) : ℕ :=
  match t.label with
  | .commit p _ =>
    match (t.pre.procs p).action cfg with
    | .commit rows => (writeRows rows t.pre.pg).elim 0 fun x => x.1.2.countP (·.2.1 = u)
    | _ => 0
  | _ => 0

/-- The `SELECT`s of the row of `u` that the call `p` makes. -/
def rowReads (cfg : Config) (p : ℕ) (u : UserId) (t : Trans System Label) : ℕ :=
  if moves p t then (if selects cfg u t then 1 else 0) + rereads cfg u t else 0

/-- The balance of `u` is dropped. -/
def forgets (u : UserId) (t : Trans System Label) : Bool :=
  match t.label with
  | .dropBalance w => w = u
  | _ => false

theorem moves_of_writesRows {p : ℕ} {t : Trans System Label} (h : writesRows p t = true) : moves p t = true := by
  unfold writesRows at h
  split at h
  · next q _ hq => simp [moves, hq, Label.mover, of_decide_eq_true h]
  · cases h

section Step

variable {cfg : Config} {s s' : System} {l : Label} {p : ℕ} {u : UserId}

theorem StepCase.reading (h : readsRow cfg p u ⟨s, l, s'⟩ = true) :
    l.mover = some p ∧ (s.procs p).reading u = true := by
  simp only [readsRow, Bool.and_eq_true] at h
  obtain ⟨hm, hsel⟩ := h
  have hm' : l.mover = some p := of_decide_eq_true hm
  refine ⟨hm', ?_⟩
  obtain ⟨q, ok, rfl, ha⟩ := selects_action hsel
  cases hm'
  obtain ⟨t, ht⟩ := Proc.select_action ha
  simp [Proc.reading, ht, LoaderPc.reading]

theorem StepCase.pays_reads (h : StepCase cfg s l s') (hp : s.procs p ≠ .idle) :
    (s'.procs p).readsLeft cfg (s'.redis.isHot u) u + (if readsRow cfg p u ⟨s, l, s'⟩ then 1 else 0) ≤
      (s.procs p).readsLeft cfg (s.redis.isHot u) u + if forgets u ⟨s, l, s'⟩ then 1 else 0 := by
  have hframe : (s.procs p).readsLeft cfg (s'.redis.isHot u) u ≤
      (s.procs p).readsLeft cfg (s.redis.isHot u) u + if forgets u ⟨s, l, s'⟩ then 1 else 0 := by
    refine Proc.readsLeft_frame ?_
    by_cases hu : l = .dropBalance u
    · subst hu
      rw [if_pos (by simp [forgets])]
      exact (coldReads_le_one _).trans (Nat.le_add_left _ _)
    · exact (coldReads_le (h.isHot hu)).trans (Nat.le_add_right _ _)
  by_cases hm : l.mover = some p
  · obtain ⟨i, now, hg, he, -⟩ := h.moved hm
    have hstep := Proc.readsLeft_resume (u := u) ⟨p, s.draws⟩ now hg.awaited
    have hcost : (if readsRow cfg p u ⟨s, l, s'⟩ then 1 else 0) ≤
        if (s.procs p).reading u then 1 else 0 := by
      split
      · next hr => rw [(StepCase.reading hr).2, if_pos rfl]
      · exact Nat.zero_le _
    rw [he]
    omega
  · have hno : readsRow cfg p u ⟨s, l, s'⟩ = false := by
      by_contra hr
      exact hm (StepCase.reading (Bool.not_eq_false _ ▸ hr)).1
    rw [hno, if_neg Bool.false_ne_true]
    rcases h.unmoved hm hp with he | he
    · rw [he]
      exact hframe
    · rw [he]
      exact Nat.zero_le _

theorem StepCase.pays_writes (h : StepCase cfg s l s') (hp : s.procs p ≠ .idle) :
    (s'.procs p).writesLeft + (if writesRows p ⟨s, l, s'⟩ then 1 else 0) ≤ (s.procs p).writesLeft := by
  by_cases hm : l.mover = some p
  · obtain ⟨i, now, hg, he, -⟩ := h.moved hm
    rw [he]
    by_cases hw : writesRows p ⟨s, l, s'⟩ = true
    · rw [if_pos hw]
      cases l with
      | commit q fate =>
        cases hg with
        | feed hf =>
          generalize s'.pg = pg at hf
          cases hf with
          | committed ha | lostCommit ha | noCommit ha => exact Proc.resume_committed ha
      | _ => cases hw
    · rw [if_neg hw]
      exact Proc.resume_writes ..
  · have hno : writesRows p ⟨s, l, s'⟩ = false := by
      by_contra hw
      have hmoves : moves p ⟨s, l, s'⟩ = true := moves_of_writesRows (Bool.not_eq_false _ ▸ hw)
      exact hm (of_decide_eq_true hmoves)
    rw [hno, if_neg Bool.false_ne_true]
    rcases h.unmoved hm hp with he | he
    · rw [he]
      exact le_refl _
    · rw [he]
      exact Nat.zero_le _

/-- A transaction rejects a row of each of its users at most once. -/
theorem rejected_once {rows : List (UserId × Balance)} {pg : Rows} {x : (List UserId × List Rejected) × Rows}
    (hn : (rows.map Prod.fst).Nodup) (h : writeRows rows pg = some x) : x.1.2.countP (·.2.1 = u) ≤ 1 := by
  obtain ⟨⟨written, pg'⟩, -, rfl⟩ := Option.map_eq_some_iff.mp h
  rw [List.countP_map]
  have hcount : rows.countP (fun r => decide (r.1 = u)) ≤ 1 := by
    have hone := List.nodup_iff_count_le_one.mp hn u
    rw [List.count, List.countP_map] at hone
    refine le_trans (le_of_eq (List.countP_congr fun r _ => ?_)) hone
    simp
  exact le_trans List.filter_sublist.countP_le hcount

theorem rereads_le (hd : ∀ pc, s.procs p = .flush pc → pc.Distinct) (hm : moves p ⟨s, l, s'⟩ = true) :
    rereads cfg u ⟨s, l, s'⟩ ≤ if writesRows p ⟨s, l, s'⟩ then 1 else 0 := by
  cases l with
  | commit q fate =>
    obtain rfl : q = p := Option.some.inj (of_decide_eq_true hm)
    rw [if_pos (by simp [writesRows])]
    simp only [rereads]
    split
    · next rows ha =>
      cases hw : writeRows rows s.pg with
      | none => exact Nat.zero_le _
      | some x => exact rejected_once (Proc.distinct_rows hd ha) hw
    · exact Nat.zero_le _
  | _ => exact Nat.zero_le _

theorem Proc.resume_not_flush {fresh : Token} {now : ℚ} {i : Input} {st : Proc} (h : ∀ pc, st ≠ .flush pc)
    (pc : FlushPc) : st.resume cfg fresh now i ≠ .flush pc := by
  intro he
  cases st with
  | flush pc => exact h pc rfl
  | _ => cases he

/-- A call that is no flush reads what it loads. -/
theorem rowReads_loads (hno : ∀ pc, s.procs p ≠ .flush pc) :
    rowReads cfg p u ⟨s, l, s'⟩ = if readsRow cfg p u ⟨s, l, s'⟩ then 1 else 0 := by
  unfold rowReads readsRow
  cases hm : moves p ⟨s, l, s'⟩ with
  | false => rfl
  | true =>
    have hnone : rereads cfg u ⟨s, l, s'⟩ = 0 := by
      unfold rereads
      split
      · next q fate hl =>
        cases hl
        obtain rfl : q = p := Option.some.inj (of_decide_eq_true hm)
        split
        · next rows ha =>
          obtain ⟨users, hst⟩ := Proc.commit_flush ha
          exact absurd hst (hno _)
        · rfl
      · rfl
    rw [if_pos rfl, hnone, Bool.true_and, Nat.add_zero]

/-- A flush reads again what its transaction rejected. -/
theorem rowReads_flush {pc : FlushPc} (hst : s.procs p = .flush pc) (hd : pc.Distinct) :
    rowReads cfg p u ⟨s, l, s'⟩ ≤ if writesRows p ⟨s, l, s'⟩ then 1 else 0 := by
  have hdistinct : ∀ pc, s.procs p = .flush pc → pc.Distinct := fun pc' h => by
    rw [hst] at h
    cases h
    exact hd
  unfold rowReads
  split
  · next hm =>
    have hnone : readsRow cfg p u ⟨s, l, s'⟩ = false := by
      by_contra hr
      have hreading := (StepCase.reading (Bool.not_eq_false _ ▸ hr)).2
      rw [hst] at hreading
      cases hreading
    rw [readsRow, hm, Bool.true_and] at hnone
    rw [hnone, if_neg Bool.false_ne_true, Nat.zero_add]
    exact rereads_le hdistinct hm
  · exact Nat.zero_le _

/-- The call is a flush, or was cancelled as one. -/
def System.Flushes (s : System) (p : ℕ) : Prop :=
  (∃ pc, s.procs p = .flush pc ∧ pc.Distinct) ∨ s.procs p = .crashed

theorem StepCase.flushes (h : StepCase cfg s l s') (hs : s.Flushes p) : s'.Flushes p := by
  have hlive : s.procs p ≠ .idle := by
    rcases hs with ⟨pc, hst, -⟩ | hst <;> rw [hst] <;> intro hidle <;> cases hidle
  by_cases hm : l.mover = some p
  · obtain ⟨i, now, hg, he, -⟩ := h.moved hm
    rcases hs with ⟨pc, hst, hd⟩ | hst
    · rw [hst] at he
      exact .inl ⟨pc.resume cfg i, he, FlushPc.resume_distinct hg hst hd⟩
    · exact absurd (by rw [hst]; rfl) hg.awaits
  · rcases h.unmoved hm hlive with he | he
    · rw [System.Flushes, he]
      exact hs
    · exact .inr he

theorem StepCase.pays_rereads (h : StepCase cfg s l s') (hs : s.Flushes p) :
    (s'.procs p).writesLeft + rowReads cfg p u ⟨s, l, s'⟩ ≤ (s.procs p).writesLeft := by
  rcases hs with ⟨pc, hst, hd⟩ | hst
  · have hlive : s.procs p ≠ .idle := by
      rw [hst]
      intro hidle
      cases hidle
    have hwrites := h.pays_writes hlive
    have hreads : rowReads cfg p u ⟨s, l, s'⟩ ≤ if writesRows p ⟨s, l, s'⟩ then 1 else 0 := rowReads_flush hst hd
    omega
  · have hm : l.mover ≠ some p := by
      intro hm
      obtain ⟨i, now, hg, -⟩ := h.moved hm
      exact hg.awaits (by rw [hst]; rfl)
    have hnone : rowReads cfg p u ⟨s, l, s'⟩ = 0 := if_neg (by simp [moves, hm])
    rcases h.unmoved hm (by rw [hst]; intro hidle; cases hidle) with he | he
    · rw [he, hnone, Nat.add_zero]
    · rw [he, hnone]
      exact Nat.zero_le _

theorem StepCase.not_flush (h : StepCase cfg s l s') (hp : s.procs p ≠ .idle) (hno : ∀ pc, s.procs p ≠ .flush pc)
    (pc : FlushPc) : s'.procs p ≠ .flush pc := by
  by_cases hm : l.mover = some p
  · obtain ⟨i, now, -, he, -⟩ := h.moved hm
    rw [he]
    exact Proc.resume_not_flush hno pc
  · rcases h.unmoved hm hp with he | he
    · rw [he]
      exact hno pc
    · rw [he]
      intro hpc
      cases hpc

end Step

/-! ## Runs -/

section Runs

variable {cfg : Config} {s₀ s : System} {tr newer older : List (Trans System Label)} {t : Trans System Label} {p : ℕ}

theorem Runs.reads_paid (hr : Runs cfg s₀ tr s) (hp : s₀.procs p ≠ .idle) (u : UserId) :
    tr.countP (readsRow cfg p u) ≤ (s₀.procs p).readsLeft cfg (s₀.redis.isHot u) u + tr.countP (forgets u) := by
  have h := (Run.amortized (I := fun s => s.procs p ≠ .idle)
    (fun s => (s.procs p).readsLeft cfg (s.redis.isHot u) u) (fun t => if readsRow cfg p u t then 1 else 0)
    (fun t => if forgets u t then 1 else 0) hr hp (fun hp hs => (step_cases hs).live hp)
    fun hp hs => (step_cases hs).pays_reads hp).2
  rw [sum_map_countP, sum_map_countP] at h
  omega

theorem Runs.writes_paid (hr : Runs cfg s₀ tr s) (hp : s₀.procs p ≠ .idle) :
    tr.countP (writesRows p) ≤ (s₀.procs p).writesLeft := by
  have h := (Run.amortized (I := fun s => s.procs p ≠ .idle) (fun s => (s.procs p).writesLeft)
    (fun t => if writesRows p t then 1 else 0) (fun _ => 0) hr hp (fun hp hs => (step_cases hs).live hp)
    fun hp hs => (step_cases hs).pays_writes hp).2
  have hzero : (tr.map fun _ => 0).sum = 0 := by simp
  rw [sum_map_countP, hzero] at h
  omega

/-- A flush reads the row of a user again at most once. -/
theorem Runs.rereads_paid (hr : Runs cfg s₀ tr s) (hs : s₀.Flushes p) (u : UserId) :
    (tr.map (rowReads cfg p u)).sum ≤ (s₀.procs p).writesLeft := by
  have h := (Run.amortized (I := fun s => s.Flushes p) (fun s => (s.procs p).writesLeft) (rowReads cfg p u)
    (fun _ => 0) hr hs (fun hI hs => (step_cases hs).flushes hI) fun hI hs => (step_cases hs).pays_rereads hI).2
  have hzero : (tr.map fun _ => 0).sum = 0 := by simp
  rw [hzero] at h
  omega

/-- Any other call reads what it loads. -/
theorem Runs.rowReads_eq (hr : Runs cfg s₀ tr s) (hp : s₀.procs p ≠ .idle) (hno : ∀ pc, s₀.procs p ≠ .flush pc)
    (u : UserId) : (tr.map (rowReads cfg p u)).sum = tr.countP (readsRow cfg p u) := by
  refine (hr.invariant_history (I := fun tr s => (s.procs p ≠ .idle ∧ ∀ pc, s.procs p ≠ .flush pc) ∧
    (tr.map (rowReads cfg p u)).sum = tr.countP (readsRow cfg p u)) (P := fun _ => True) (fun _ _ => trivial)
    ⟨⟨hp, hno⟩, rfl⟩ fun {tr s l s'} _ _ hI hs _ => ?_).2
  have hcase := step_cases hs
  refine ⟨⟨hcase.live hI.1.1, hcase.not_flush hI.1.1 hI.1.2⟩, ?_⟩
  rw [List.map_cons, List.sum_cons, List.countP_cons, hI.2, rowReads_loads hI.1.2, Nat.add_comm]

theorem sum_started {f : Trans System Label → ℕ} (hf : ∀ x, moves p x = false → f x = 0)
    (hstill : ∀ x ∈ t :: older, moves p x = false) : ((newer ++ t :: older).map f).sum = (newer.map f).sum := by
  have hnone : ((t :: older).map f).sum = 0 := List.sum_eq_zero fun n hn => by
    obtain ⟨x, hx, rfl⟩ := List.mem_map.mp hn
    exact hf x (hstill x hx)
  rw [List.map_append, List.sum_append, hnone, Nat.add_zero]

/-- **What a call costs PostgreSQL.** A flush reads the row of a user at most once, when its statement
rejected it; any other call at most once if the balance was cold when it was started, not at all if
it was hot, and once more for each time the balance was dropped since. Only a flush writes, in one
transaction. -/
theorem few_queries {job : Job} (hr : Runs cfg s₀ (newer ++ t :: older) s) (hl : t.label = .spawn p job) :
    (∀ u, ((newer ++ t :: older).map (rowReads cfg p u)).sum ≤
      if job.writes = 0 then (if t.pre.redis.isHot u then 0 else 1) + newer.countP (forgets u) else 1) ∧
      (newer ++ t :: older).countP (writesRows p) ≤ job.writes := by
  obtain ⟨hafter, hstart, hredis, hstill⟩ := Runs.started hr hl
  have hlive : t.post.procs p ≠ .idle := hstart ▸ job.start_live cfg
  refine ⟨fun u => ?_, ?_⟩
  · have hstarted : ∀ x, moves p x = false → rowReads cfg p u x = 0 := fun x hx => by
      rw [rowReads, hx, if_neg Bool.false_ne_true]
    rw [sum_started hstarted hstill]
    split
    · next hjob =>
      have hno : ∀ pc, t.post.procs p ≠ .flush pc := by
        rw [hstart]
        cases job with
        | flush => cases hjob
        | _ => exact fun pc hpc => by cases hpc
      have hpaid := Runs.reads_paid hafter hlive u
      have hcold : (job.start cfg).readsLeft cfg (t.pre.redis.isHot u) u ≤ coldReads (t.pre.redis.isHot u) := by
        refine Proc.readsLeft_le_cold fun l hload => ?_
        rw [(job.start_blank cfg).loader _ _ hload]
        exact le_refl _
      rw [Runs.rowReads_eq hafter hlive hno]
      rw [hstart, hredis] at hpaid
      exact hpaid.trans (Nat.add_le_add_right hcold _)
    · next hjob =>
      cases job with
      | flush =>
        have hpaid := Runs.rereads_paid hafter (.inl ⟨.picking, hstart, trivial⟩) u
        rw [hstart] at hpaid
        exact hpaid
      | _ => exact absurd rfl hjob
  · have hpaid := Runs.writes_paid hafter hlive
    rw [countP_started (fun _ => moves_of_writesRows) hstill]
    rw [hstart] at hpaid
    refine hpaid.trans ?_
    cases job <;> exact le_refl _

end Runs

/-- A read of a cold balance costs its one `SELECT`. -/
theorem few_queries_cold :
    ∃ tr s t newer older, Runs {} (.start dollarRows) tr s ∧ tr = newer ++ t :: older ∧
      t.label = .spawn 0 (.balance 1) ∧ (tr.map (rowReads {} 0 1)).sum = 1 ∧
      (tr.map (rowReads {} 0 1)).sum ≤ (if t.pre.redis.isHot 1 then 0 else 1) + newer.countP (forgets 1) := by
  obtain ⟨tr, s, hr, hreads, hlabels⟩ := Runs.of_labels {} (.start dollarRows)
    (.spawn 0 (.balance 1) :: coldLoad 0) (fun tr _ => (tr.map (rowReads {} 0 1)).sum = 1) (by decide +kernel)
  obtain ⟨t, ht, hl⟩ := hlabels _ List.mem_cons_self
  obtain ⟨newer, older, rfl⟩ := List.append_of_mem ht
  exact ⟨_, s, t, newer, older, hr, rfl, hl, of_decide_eq_true hreads, (few_queries hr hl).1 1⟩

end GenerationBalance
