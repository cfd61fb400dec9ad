/-
Calls end. A call awaits something until it is over, and what it awaits can always
happen; a step takes one off what it has left to do and adds nothing to what others
have. So however calls are interleaved, they all come to their ends.
-/
import GenerationBalance.Bounded

namespace GenerationBalance

open Transition

/-! ## Calls that are over -/

/-- The call that goes on in a step in which it does not poll again. -/
def Label.goer : Label → Option ℕ
  | .wake _ => none
  | l => l.mover

theorem Label.goer_mover {l : Label} {p : ℕ} (h : l.goer = some p) : l.mover = some p := by
  cases l <;> first | exact h | cases h

/-- The call has returned or raised, was never started, or is dead. -/
def Proc.isOver : Proc → Bool
  | .idle | .crashed => true
  | .gen _ (.ended _) | .topUp _ (.ended _) | .balance _ (.ended _) | .reap (.ended _) | .flush (.ended _) => true
  | _ => false

/-- A flush that reads balances has one to read. -/
def FlushPc.Reads : FlushPc → Prop
  | .loading _ todo _ => todo ≠ []
  | _ => True

def Proc.Awaits : Proc → Prop
  | .flush pc => pc.Reads
  | _ => True

section Ends

variable {cfg : Config} {s s' : System} {l : Label} {p : ℕ}

theorem FlushPc.clear_reads (written : ℕ) (users : List (UserId × ℤ)) : (clear written users).Reads := by
  cases users <;> trivial

theorem FlushPc.repair_reads (users : List UserId) (rows : List (UserId × Balance)) (written : ℕ)
    (rejected : List Rejected) : (repair users rows written rejected).Reads :=
  repair_cases (clear_reads _ _) fun _ _ _ => trivial

theorem FlushPc.load_reads (users : List UserId) (snapshots : List (UserId × Balance)) (todo : List UserId) :
    (load users snapshots todo).Reads :=
  load_cases (fun _ _ _ => List.cons_ne_nil _ _) trivial (clear_reads _ _)

theorem FlushPc.resume_reads {pc : FlushPc} (i : Input) (h : pc.Reads) : (pc.resume cfg i).Reads := by
  have hmove := flushMove cfg pc i
  generalize pc.resume cfg i = pc' at hmove ⊢
  cases hmove with
  | stay => exact h
  | raised | nothing | again => trivial
  | picked | read => exact load_reads _ _ _
  | committed | repaired => exact repair_reads _ _ _ _
  | cleared => exact clear_reads _ _

theorem StepCase.awaits (h : StepCase cfg s l s') (hs : ∀ p, (s.procs p).Awaits) : ∀ p, (s'.procs p).Awaits := by
  intro p
  cases h.goes p with
  | same he => rw [he]; exact hs p
  | @started job _ _ he => rw [he]; cases job <;> trivial
  | @resumed i now _ _ he =>
    have hp := hs p
    rw [he]
    cases hst : s.procs p with
    | flush pc =>
      rw [hst] at hp
      exact FlushPc.resume_reads i hp
    | _ => trivial
  | crashed _ he => rw [he]; trivial

/-- A call that awaits nothing is over. -/
theorem Proc.Awaits.isOver {st : Proc} (h : st.Awaits) (ha : st.action cfg = .none) : st.isOver = true := by
  cases hl : st.loader with
  | some x =>
    obtain ⟨u, l⟩ := x
    rw [Proc.loader_action hl] at ha
    cases l <;> cases ha
  | none =>
    cases st with
    | idle | crashed => rfl
    | gen request pc =>
      cases pc with
      | ended r => rfl
      | loading | settleLoading => cases hl
      | refunding v reason pc after =>
        cases pc with
        | calling => cases ha
        | loading => cases hl
      | _ => cases ha
    | topUp command pc =>
      cases pc with
      | ended r => rfl
      | loading => cases hl
      | calling => cases ha
    | balance u pc =>
      cases pc with
      | ended r => rfl
      | loading => cases hl
    | reap pc =>
      cases pc with
      | ended r => rfl
      | refunding a pc todo k =>
        cases pc with
        | calling => cases ha
        | loading => cases hl
      | _ => cases ha
    | flush pc =>
      cases pc with
      | ended r => rfl
      | loading users todo snapshots =>
        cases todo with
        | nil => exact absurd rfl h
        | cons => cases ha
      | _ => cases ha

/-! ## Going on -/

/-- Redis answers every request. -/
theorem exec_answers (ρ : Redis) (c : Call) : ∃ pick r ρ', exec pick ρ c = some (r, ρ') := by
  cases c with
  | dirtyUsers limit =>
    refine ⟨ρ.dirty.toList.take limit, _, ρ, if_pos ⟨?_, fun u hu => ?_, ?_⟩⟩
    · exact ρ.dirty.nodup_toList.sublist (List.take_sublist _ _)
    · exact Finset.mem_toList.mp (List.mem_of_mem_take hu)
    · rw [List.length_take, Finset.length_toList]
  | tryAcquireLoadLock u t =>
    simp only [exec]
    split
    · exact ⟨[], _, _, rfl⟩
    · exact ⟨[], _, _, rfl⟩
  | _ => exact ⟨[], _, _, rfl⟩

theorem Given.mover {i : Input} (h : Given cfg s s' l p i) : l.mover = some p := by
  cases h with
  | reply | lost => rfl
  | feed hf =>
    generalize s'.pg = pg at hf
    cases hf <;> rfl

/-- A call that awaits something can go on. -/
theorem System.can_go (ha : (s.procs p).action cfg ≠ .none) : ∃ l s', l.goer = some p ∧ step cfg s l = some s' := by
  have go : ∀ l, l.goer = some p → (step cfg s l).isSome → ∃ l s', l.goer = some p ∧ step cfg s l = some s' := by
    intro l hl h
    obtain ⟨s', hs⟩ := Option.isSome_iff_exists.mp h
    exact ⟨l, s', hl, hs⟩
  cases hc : (s.procs p).action cfg with
  | none => exact absurd hc ha
  | call c =>
    obtain ⟨pick, r, ρ', he⟩ := exec_answers s.redis c
    exact go (.exec p pick 0) rfl (by simp [step, hc, he])
  | select u => exact go (.select p true) rfl (by simp [step, hc])
  | commit rows => exact go (.commit p .failed) rfl (by simp [step, hc])
  | provider request => exact go (.provider p) rfl (by simp [step, hc])
  | answer => exact go (.timeout p) rfl (by simp [step, hc])
  | wait => exact go (.timeout p) rfl (by simp [step, hc])

theorem StepCase.goer_pays (h : StepCase cfg s l s') (hl : l.goer = some p) :
    (s'.procs p).work cfg s'.redis.isHot < (s.procs p).work cfg s.redis.isHot := by
  have hm := Label.goer_mover hl
  have hp : s.procs p ≠ .idle := by
    intro hidle
    obtain ⟨i, now, hg, -⟩ := h.moved hm
    exact hg.awaits (by rw [hidle]; rfl)
  have hpay := h.pays hp
  have hwake : wakes p ⟨s, l, s'⟩ = false := by cases l <;> first | rfl | cases hl
  have hdrop : drops p ⟨s, l, s'⟩ = false := by cases l <;> first | rfl | cases hl
  have hmove : moves p ⟨s, l, s'⟩ = true := decide_eq_true hm
  rw [hwake, hdrop, hmove] at hpay
  exact Nat.lt_of_succ_le (by simpa using hpay)

/-- A step of another call leaves no more to do. -/
theorem StepCase.others_pay {q : ℕ} (h : StepCase cfg s l s') (hl : l.goer = some q) (hp : p ≠ q) :
    (s'.procs p).work cfg s'.redis.isHot ≤ (s.procs p).work cfg s.redis.isHot := by
  have hm := Label.goer_mover hl
  have hproc : s'.procs p = s.procs p := by
    cases h.goes p with
    | same he => exact he
    | started hlab => rw [hlab] at hl; cases hl
    | resumed hg =>
      rw [hg.mover] at hm
      exact absurd (Option.some.inj hm) hp
    | crashed hlab => rw [hlab] at hl; cases hl
  rw [hproc]
  exact Proc.work_frame (d := 0) fun u pc _ => LoaderPc.work_le (h.isHot fun hu => by rw [hu] at hl; cases hl) pc

/-- **Every call ends**: from whatever state of a run any calls go on, in whatever order and whether
their requests are answered or lost, one that is not over can take a step, and after finitely many
steps all are over. Left out is only that a call which sleeps polls again, and its deadline ends that. -/
theorem calls_end {pg : Rows} {tr : List (Trans System Label)} (hr : Runs cfg (.start pg) tr s) (P : Finset ℕ) :
    Leads (step cfg) (fun l => ∃ p ∈ P, l.goer = some p) (fun s => ∀ p ∈ P, (s.procs p).isOver = true) s := by
  have hs : ∀ p, (s.procs p).Awaits :=
    hr.invariant (P := fun _ => True) (fun _ _ => trivial) (fun _ => trivial) fun hI hs _ => (step_cases hs).awaits hI
  refine (Leads.of_measure (I := fun s => ∀ p, (s.procs p).Awaits)
    (fun s => ∑ p ∈ P, (s.procs p).work cfg s.redis.isHot) (fun hI _ hs => (step_cases hs).awaits hI)
    (fun _ hA hs => ?_) (fun hI hover => ?_) hs).mono fun s h => h.2
  · obtain ⟨p, hp, hl⟩ := hA
    refine Finset.sum_lt_sum (fun q _ => ?_) ⟨p, hp, (step_cases hs).goer_pays hl⟩
    by_cases hq : q = p
    · rw [hq]
      exact ((step_cases hs).goer_pays hl).le
    · exact (step_cases hs).others_pay hl hq
  · simp only [not_forall] at hover
    obtain ⟨p, hp, hlive⟩ := hover
    obtain ⟨l, s', hl, hs⟩ := System.can_go fun ha => hlive ((hI p).isOver ha)
    exact ⟨l, s', ⟨p, hp, hl⟩, hs⟩

end Ends

/-- Two deliveries of one request, and a flush. -/
theorem calls_end_premium : ∃ tr s, Runs {} (.start dollarRows) tr s ∧ (s.procs 1).isOver = false ∧
    Leads (step {}) (fun l => ∃ p ∈ ({0, 1, 2} : Finset ℕ), l.goer = some p)
      (fun s => ∀ p ∈ ({0, 1, 2} : Finset ℕ), (s.procs p).isOver = true) s := by
  obtain ⟨tr, s, hr, h⟩ := Runs.of_schedule {} (.start dollarRows)
    (.spawn 0 (.gen (premium 1 5)) :: coldLoad 0 ++
      [.exec 0 [] 0, .spawn 1 (.gen (premium 1 5)), .exec 1 [] 0, .spawn 2 .flush])
    (fun _ s => !(s.procs 1).isOver) (by decide +kernel)
  exact ⟨tr, s, hr, by simpa using h, calls_end hr {0, 1, 2}⟩

end GenerationBalance
