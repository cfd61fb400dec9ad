/-
The write-behind. A mark is cleared only on a user whose row is the hot balance:
each user a flush is still to clear at a version is `Clean` at it, or waits for
the version to be advanced, whatever the versions were at the start.
-/
import GenerationBalance.Versions

namespace GenerationBalance

open Transition Versioned

/-! ## What may be cleared -/

/-- `u` has no balance yet, and will get none of a negative version: `clear_dirty`
takes `-1` for the version of an absent balance. -/
structure System.Unseeded (s : System) (u : UserId) : Prop where
  absent : s.redis.bal.get u = none
  row : ∀ b, s.pg.get u = some b → 0 ≤ b.version
  seed : ∀ p st, s.Holds p st → ∀ t b, st.loader = some (u, .seed t b) → 0 ≤ b.version

/-- What must hold of a user for a flush to take it up. -/
def System.Known (s : System) (u : UserId) : Prop := (∃ b, s.redis.bal.get u = some b) ∨ s.Unseeded u

/-- `CLEAR_DIRTY` of `u` at version `v` loses nothing, now and later. -/
def System.Clean (s : System) (u : UserId) (v : ℤ) : Prop :=
  (∃ b, s.redis.bal.get u = some b ∧ v ≤ b.version ∧ (b.version = v → s.pg.get u = some b)) ∨
    v = -1 ∧ s.Unseeded u

/-- Every balance that a flush holds has been the stored one. -/
def System.Reads (s : System) : Prop :=
  ∀ p st, s.Holds p st → ∀ u b, (u, b) ∈ st.rows → Passed Balance.version s.redis.bal u b

section Step

variable {cfg : Config} {s s' : System} {l : Label}

theorem StepCase.advances (h : StepCase cfg s l s') (hs : s.Advances) : s'.Advances :=
  h.held (Q := fun _ st => st.Advances) hs (fun _ h => h)
    (fun _ hb u e n hr => by rw [hb.repairs] at hr; cases hr) fun _ _ _ hg _ h => h.resume hg

theorem StepCase.reads (h : StepCase cfg s l s') (ha : s.Advances) (hs : s.Reads)
    (hh : healthy cfg ⟨s, l, s'⟩ = true) : s'.Reads := by
  have hf := h.forward ha hh
  refine h.held (Q := fun s st => ∀ u b, (u, b) ∈ st.rows → Passed Balance.version s.redis.bal u b) hs
    (fun st hst u b hb => (hst u b hb).forward hf) (fun st hst u b hb => ?_) fun p i now hg _ hst u b hb => ?_
  · rw [hst.rows] at hb
    cases hb
  · rcases Proc.resume_rows hb with hb | ⟨rfl, hact⟩
    · exact (hst u b hb).forward hf
    · exact (Passed.of_get (hg.balance hact).1).forward hf

/-- A user without a balance stays without one, or is seeded. -/
theorem StepCase.unseeded (h : StepCase cfg s l s') (hs : s.Reads) (hh : healthy cfg ⟨s, l, s'⟩ = true) {u : UserId}
    (hu : s.Unseeded u) : s'.Unseeded u ∨ ∃ b, s'.redis.bal.get u = some b ∧ 0 ≤ b.version := by
  cases hb : s'.redis.bal.get u with
  | none =>
    refine .inl ⟨hb, fun b hrow => ?_, ?_⟩
    · rcases h.row_cases u with he | ⟨c, p, -, hm, -⟩
      · exact hu.row b (he ▸ hrow)
      · obtain ⟨d, hd, -⟩ := hs p _ (.inl rfl) u c hm
        rw [hu.absent] at hd
        cases hd
    · refine h.held (Q := fun _ st => ∀ t b, st.loader = some (u, .seed t b) → 0 ≤ b.version) hu.seed
        (fun _ hst => hst) (fun st hst t b hl => ?_) fun p i now hg _ hst t b hl => ?_
      · cases hst.loader _ _ hl
      · rcases hg.seed hl with hl | rfl
        · exact hst t b hl
        · cases hrow : s.pg.get u with
          | none => exact le_refl _
          | some b => exact hu.row b hrow
  | some b =>
    obtain ⟨p, st, t, hheld, hl⟩ := h.balance_new hh hu.absent hb
    exact .inr ⟨b, rfl, hu.seed p st hheld t b hl⟩

theorem StepCase.known (h : StepCase cfg s l s') (ha : s.Advances) (hs : s.Reads)
    (hh : healthy cfg ⟨s, l, s'⟩ = true) {u : UserId} (hu : s.Known u) : s'.Known u := by
  rcases hu with ⟨b, hb⟩ | hu
  · obtain ⟨b', hb', -⟩ := h.balance_mark ha hh hb
    exact .inl ⟨b', hb'⟩
  · rcases h.unseeded hs hh hu with hu | ⟨b, hb, -⟩
    · exact .inr hu
    · exact .inl ⟨b, hb⟩

/-- **What is clean stays clean**: a newer balance is not cleared at all, and the
row of the one that is cannot be overtaken. -/
theorem StepCase.clean (h : StepCase cfg s l s') (ha : s.Advances) (hs : s.Reads)
    (hh : healthy cfg ⟨s, l, s'⟩ = true) {u : UserId} {v : ℤ} (hu : s.Clean u v) : s'.Clean u v := by
  rcases hu with ⟨b, hb, hle, heq⟩ | ⟨rfl, hu⟩
  · obtain ⟨b', hb', hv | ⟨rfl, -⟩⟩ := h.balance_mark ha hh hb
    · exact .inl ⟨b', hb', by omega, fun he => by omega⟩
    · refine .inl ⟨b', hb', hle, fun he => ?_⟩
      rcases h.row_cases u with hrow | ⟨c, p, hc, hm, hforward⟩
      · rw [hrow, heq he]
      · obtain ⟨d, hd, hcd⟩ := hs p _ (.inl rfl) u c hm
        rw [hb] at hd
        cases hd
        rw [hc, (hforward _ (heq he)).eq hcd.le]
  · rcases h.unseeded hs hh hu with hu | ⟨b, hb, hv⟩
    · exact .inr ⟨rfl, hu⟩
    · exact .inl ⟨b, hb, by omega, fun he => by omega⟩

end Step

/-! ## The state of a flush -/

/-- The version `clear_dirty` clears `u` at. -/
def FlushPc.versionOf (rows : List (UserId × Balance)) (u : UserId) : ℤ :=
  ((rows.lookup u).map Balance.version).getD (-1)

/-- The rejected row of `u` waits for its version to be advanced. -/
def FlushPc.Waits (rows : List (UserId × Balance)) (rejected : List Rejected) (u : UserId) : Prop :=
  ∃ b stored, (b, u, some stored) ∈ rejected ∧ stored ≠ b ∧ (u, b) ∈ rows

/-- What a flush relies on at each point: every user it took up is clean at the
version it will be cleared at, or there is still something to do about it. -/
def FlushPc.Sound (s : System) : FlushPc → Prop
  | .picking | .ended _ => True
  | .loading users todo rows =>
    (rows.map Prod.fst ++ todo).Nodup ∧ (∀ u ∈ todo, s.Known u) ∧
      ∀ u ∈ users, u ∉ todo → rows.lookup u = none → s.Clean u (-1)
  | .committing users rows => (rows.map Prod.fst).Nodup ∧ ∀ u ∈ users, rows.lookup u = none → s.Clean u (-1)
  | .repairing users rows (w, e, _) todo _ _ =>
    (rows.map Prod.fst).Nodup ∧
      ∀ u ∈ users, s.Clean u (versionOf rows u) ∨ Waits rows todo u ∨ u = w ∧ ∃ b, (u, b) ∈ rows ∧ b.version = e
  | .clearing user todo _ => ∀ x ∈ user :: todo, s.Clean x.1 x.2

theorem lookup_of_mem {κ ν : Type} [DecidableEq κ] {k : κ} {v : ν} :
    ∀ {rows : List (κ × ν)}, (rows.map Prod.fst).Nodup → (k, v) ∈ rows → rows.lookup k = some v
  | [], _, h => by cases h
  | (k', v') :: rows, hn, h => by
    simp only [List.map_cons, List.nodup_cons] at hn
    rw [List.lookup_cons]
    rcases List.mem_cons.mp h with he | hm
    · cases he
      simp
    · have hk : k ≠ k' := by
        rintro rfl
        exact hn.1 (List.mem_map.mpr ⟨(k, v), hm, rfl⟩)
      rw [beq_false_of_ne hk]
      exact lookup_of_mem hn.2 hm

theorem mem_of_lookup {κ ν : Type} [DecidableEq κ] {k : κ} {v : ν} {rows : List (κ × ν)} (h : rows.lookup k = some v) :
    (k, v) ∈ rows := by
  obtain ⟨before, after, rfl, -⟩ := List.lookup_eq_some_iff.mp h
  simp

section Sound

variable {s : System} {users : List UserId} {rows : List (UserId × Balance)}

theorem FlushPc.versionOf_mem {u : UserId} {b : Balance} (hn : (rows.map Prod.fst).Nodup) (hb : (u, b) ∈ rows) :
    versionOf rows u = b.version := by
  simp only [versionOf, lookup_of_mem hn hb, Option.map_some, Option.getD_some]

theorem FlushPc.clear_sound {written : ℕ} {cleared : List (UserId × ℤ)} (h : ∀ x ∈ cleared, s.Clean x.1 x.2) :
    (clear written cleared).Sound s := by
  cases cleared with
  | nil => exact trivial
  | cons x todo => exact h

theorem FlushPc.cleared_sound {written : ℕ} (h : ∀ u ∈ users, s.Clean u (versionOf rows u)) :
    (clear written (cleared users rows)).Sound s := by
  refine clear_sound fun x hx => ?_
  obtain ⟨u, hu, rfl⟩ := List.mem_map.mp hx
  exact h u hu

theorem FlushPc.load_sound {todo : List UserId} (hn : (rows.map Prod.fst ++ todo).Nodup)
    (hk : ∀ u ∈ todo, s.Known u) (hc : ∀ u ∈ users, u ∉ todo → rows.lookup u = none → s.Clean u (-1)) :
    (load users rows todo).Sound s := by
  cases todo with
  | cons u todo => exact ⟨hn, hk, hc⟩
  | nil =>
    simp only [List.append_nil] at hn
    simp only [load, write]
    split
    · next he =>
      rw [List.isEmpty_iff] at he
      subst he
      exact cleared_sound fun u hu => hc u hu List.not_mem_nil rfl
    · exact ⟨hn, fun u hu => hc u hu List.not_mem_nil⟩

/-- The repair skips what is clean already. -/
theorem FlushPc.repair_sound {written : ℕ} (hn : (rows.map Prod.fst).Nodup) :
    ∀ {rejected : List Rejected}, (∀ u ∈ users, s.Clean u (versionOf rows u) ∨ Waits rows rejected u) →
      (repair users rows written rejected).Sound s
  | [], h => by
    refine cleared_sound fun u hu => (h u hu).resolve_right ?_
    rintro ⟨b, stored, hm, -⟩
    cases hm
  | (b, w, none) :: rejected, h => by
    simp only [repair]
    refine repair_sound hn fun u hu => (h u hu).imp_right ?_
    rintro ⟨c, stored, hm, hne, hc⟩
    rcases List.mem_cons.mp hm with hm | hm
    · cases hm
    · exact ⟨c, stored, hm, hne, hc⟩
  | (b, w, some stored) :: rejected, h => by
    simp only [repair, sameState_iff]
    split
    · next hsame =>
      refine repair_sound hn fun u hu => (h u hu).imp_right ?_
      rintro ⟨c, stored', hm, hne, hc⟩
      rcases List.mem_cons.mp hm with hm | hm
      · cases hm
        exact absurd hsame hne
      · exact ⟨c, stored', hm, hne, hc⟩
    · refine ⟨hn, fun u hu => (h u hu).imp_right ?_⟩
      rintro ⟨c, stored', hm, hne, hc⟩
      rcases List.mem_cons.mp hm with hm | hm
      · cases hm
        exact .inr ⟨rfl, _, hc, rfl⟩
      · exact .inl ⟨c, stored', hm, hne, hc⟩

theorem FlushPc.Sound.mono {s' : System} {pc : FlushPc} (h : pc.Sound s) (hk : ∀ u, s.Known u → s'.Known u)
    (hc : ∀ u v, s.Clean u v → s'.Clean u v) : pc.Sound s' := by
  cases pc with
  | picking | ended => exact trivial
  | loading users todo rows => exact ⟨h.1, fun u hu => hk u (h.2.1 u hu), fun u hu ht hl => hc _ _ (h.2.2 u hu ht hl)⟩
  | committing users rows => exact ⟨h.1, fun u hu hl => hc _ _ (h.2 u hu hl)⟩
  | repairing users rows row todo written attempt => exact ⟨h.1, fun u hu => (h.2 u hu).imp_left (hc _ _)⟩
  | clearing user todo written => exact fun x hx => hc _ _ (h x hx)

end Sound

/-! ## One step of a flush -/

/-- What the flushes of a system rely on. -/
structure System.Flushing (s : System) : Prop where
  advances : s.Advances
  reads : s.Reads
  marked : ∀ u ∈ s.redis.dirty, s.Known u
  sound : ∀ p pc, s.Holds p (.flush pc) → pc.Sound s

/-- Whether it takes effect or not, `ADVANCE_VERSION` leaves the expected version
behind. -/
theorem CallOk.advance_past {ρ ρ' : Redis} {u : UserId} {e n : ℤ} {r : Reply} {b : Balance}
    (h : CallOk ρ (.advanceVersion u e n) r ρ') (hlt : e < n) (hb : ρ.bal.get u = some b) (hle : e ≤ b.version) :
    ∃ b', ρ'.bal.get u = some b' ∧ e < b'.version := by
  cases h with
  | advanced => exact ⟨_, Table.get_set_self .., hlt⟩
  | notAdvanced hv => exact ⟨b, hb, lt_of_le_of_ne hle (hv b hb).symm⟩

theorem System.Known.clean {s : System} {u : UserId} (h : s.Known u) (hn : s.redis.bal.get u = none) :
    s.Clean u (-1) := by
  rcases h with ⟨b, hb⟩ | h
  · rw [hn] at hb
    cases hb
  · exact .inr ⟨rfl, h⟩

theorem Proc.leftovers_flush {cfg : Config} {st : Proc} {pc : FlushPc} (h : .flush pc ∈ st.leftovers cfg) :
    st = .flush pc ∨ ∃ user todo written x, st = .flush (.clearing user todo written) ∧ x ∈ user :: todo ∧
      pc = .clearing x [] written := by
  unfold Proc.leftovers at h
  split at h
  · next user todo written =>
    obtain ⟨x, hx, he⟩ := List.mem_map.mp h
    cases he
    exact .inr ⟨user, todo, written, x, rfl, hx, rfl⟩
  · split at h
    · exact .inl (List.mem_singleton.mp h).symm
    · cases h

section Step

variable {cfg : Config} {s s' : System} {l : Label} {p : ℕ} {i : Input} {pc : FlushPc}

/-- **One step of a flush keeps what it relies on.** -/
theorem StepCase.flush_sound (h : StepCase cfg s l s') (hs : s.Flushing) (hh : healthy cfg ⟨s, l, s'⟩ = true)
    (hg : Given cfg s s' l p i) (hst : s.procs p = .flush pc) : (pc.resume cfg i).Sound s' := by
  have hk : ∀ u, s.Known u → s'.Known u := fun u => h.known hs.advances hs.reads hh
  have hc : ∀ u v, s.Clean u v → s'.Clean u v := fun u v => h.clean hs.advances hs.reads hh
  have hsound := hs.sound p pc (.inl hst)
  have hact : (s.procs p).action cfg = pc.action cfg := by rw [hst]; rfl
  have hm := flushMove cfg pc i
  generalize pc.resume cfg i = pc' at hm ⊢
  cases hm with
  | stay => exact hsound.mono hk hc
  | raised | nothing => exact trivial
  | @picked users =>
    have hok := hg.callOk hact rfl
    generalize s'.redis = ρ' at hok
    cases hok with
    | dirtyUsers hn hd =>
      exact FlushPc.load_sound (by simpa using hn) (fun u hu => hk u (hs.marked u (hd u hu))) fun u hu hn => absurd hu hn
  | @read users u todo rows b =>
    obtain ⟨hn, hknown, hclean⟩ := hsound
    obtain ⟨hb, he⟩ := hg.balance hact
    have hrest : ∀ w ∈ todo, s'.Known w := fun w hw => hk w (hknown w (List.mem_cons_of_mem _ hw))
    have hold : ∀ w ∈ users, w ≠ u → w ∉ todo → rows.lookup w = none → s'.Clean w (-1) := fun w hw hne ht hl =>
      hc _ _ (hclean w hw (by simp [hne, ht]) hl)
    cases b with
    | none =>
      refine FlushPc.load_sound ?_ hrest fun w hw ht hl => ?_
      · simp only [Option.map_none, Option.toList_none, List.append_nil]
        exact hn.sublist (List.sublist_cons_self u todo |>.append_left _)
      · simp only [Option.map_none, Option.toList_none, List.append_nil] at hl
        by_cases hwu : w = u
        · subst hwu
          exact (hk w (hknown w (List.mem_cons_self ..))).clean (by rw [he, hb])
        · exact hold w hw hwu ht hl
    | some b =>
      refine FlushPc.load_sound (by simpa using hn) hrest fun w hw ht hl => ?_
      simp only [Option.map_some, Option.toList_some, List.lookup_append, Option.or_eq_none_iff] at hl
      by_cases hwu : w = u
      · subst hwu
        simp at hl
      · exact hold w hw hwu ht hl.1
  | @committed users rows written rejected =>
    obtain ⟨hn, hclean⟩ := hsound
    obtain ⟨rows', ha, hw⟩ := hg.committed
    rw [hact] at ha
    cases ha
    have hw := writeRows_spec hw
    refine FlushPc.repair_sound hn fun u hu => ?_
    cases hl : rows.lookup u with
    | none =>
      have := hc u (-1) (hclean u hu hl)
      exact .inl (by simpa [FlushPc.versionOf, hl] using this)
    | some b =>
      have hb := mem_of_lookup hl
      obtain ⟨c, hget, hbc⟩ := (hs.reads p _ (.inl hst) u b hb).forward (h.forward hs.advances hh)
      have clean : s'.pg.get u = some b → s'.Clean u b.version := fun hrow =>
        .inl ⟨c, hget, hbc.le, fun hv => by rw [hrow, hbc.eq hv.le]⟩
      rw [FlushPc.versionOf_mem hn hb]
      rcases hw.complete u b hb with hin | hin
      · obtain ⟨b', hb', hrow⟩ := hw.written u hin
        have hl' := lookup_of_mem hn hb'
        rw [hl] at hl'
        cases hl'
        exact .inl (clean hrow)
      · obtain ⟨stored, hstored, -, hrow, -⟩ := hw.rejected _ hin
        by_cases hsame : stored = b
        · exact .inl (clean (hsame ▸ hrow))
        · exact .inr ⟨b, stored, hstored ▸ hin, hsame, hb⟩
  | @repaired users rows row todo written n f =>
    obtain ⟨w, e, m⟩ := row
    obtain ⟨hn, hopen⟩ := hsound
    refine FlushPc.repair_sound hn fun u hu => ?_
    rcases hopen u hu with hu | hu | ⟨rfl, b, hb, rfl⟩
    · exact .inl (hc _ _ hu)
    · exact .inr hu
    · obtain ⟨c, hget, hbc⟩ := hs.reads p _ (.inl hst) u b hb
      have hlt := hs.advances p _ (.inl hst) u b.version m (List.mem_cons_self ..)
      obtain ⟨c', hget', hlt'⟩ := (hg.callOk hact rfl).advance_past hlt hget hbc.le
      rw [FlushPc.versionOf_mem hn hb]
      exact .inl (.inl ⟨c', hget', hlt'.le, fun he => absurd he hlt'.ne'⟩)
  | again => exact hsound.mono hk hc
  | cleared => exact FlushPc.clear_sound fun x hx => hc _ _ (hsound x (List.mem_cons_of_mem _ hx))

/-- **Every step keeps what the flushes rely on.** -/
theorem StepCase.flushing (h : StepCase cfg s l s') (hs : s.Flushing) (hh : healthy cfg ⟨s, l, s'⟩ = true) :
    s'.Flushing := by
  have hk : ∀ u, s.Known u → s'.Known u := fun u => h.known hs.advances hs.reads hh
  have hc : ∀ u v, s.Clean u v → s'.Clean u v := fun u v => h.clean hs.advances hs.reads hh
  refine ⟨h.advances hs.advances, h.reads hs.advances hs.reads hh, fun u hu => ?_, fun p pc hheld => ?_⟩
  · rcases h.mark_new (healthy_keeps hh).2 hu with hu | hb
    · exact hk u (hs.marked u hu)
    · exact .inl hb
  · generalize hst : Proc.flush pc = st at hheld
    cases h.origin hheld with
    | kept hheld =>
      subst hst
      exact (hs.sound p pc hheld).mono hk hc
    | @started job =>
      cases job <;> cases hst
      exact trivial
    | resumed hg hd he =>
      cases hproc : s.procs p <;> rw [hproc] at hst <;> cases hst
      exact h.flush_sound hs hh hg hproc
    | crashed => cases hst
    | leftover hl hm =>
      subst hst
      rcases Proc.leftovers_flush hm with hproc | ⟨user, todo, written, x, hproc, hx, rfl⟩
      · exact (hs.sound p pc (.inl hproc)).mono hk hc
      · intro y hy
        cases List.mem_singleton.mp hy
        exact hc _ _ (hs.sound p _ (.inl hproc) x hx)

/-- A mark is taken off a user whose row is the hot balance. -/
theorem StepCase.unmarked (h : StepCase cfg s l s') (hs : s.Flushing) (hi : inRange cfg ⟨s, l, s'⟩ = true) {x : Ran}
    (hx : ran cfg ⟨s, l, s'⟩ = some x) {u : UserId} {v : ℤ} (hcall : x.call = .clearDirty u v)
    (hu : u ∈ s.redis.dirty) (hu' : u ∉ s'.redis.dirty) {b : Balance} (hb : s.redis.bal.get u = some b) :
    s.pg.get u = some b := by
  obtain ⟨pick, hheld, ha, he⟩ := h.executed hx
  have hok := callOk_of_ran hx hi he
  have hsend := Proc.sends ha
  rw [hcall] at hok hsend
  have hv : b.version = v := by
    generalize s'.redis = ρ' at hok hu'
    generalize x.reply = r at hok
    cases hok with
    | cleared hv => exact hv b hb
    | notCleared => exact absurd hu hu'
  have hclean : s.Clean u v := by
    have hm := hsend.of_clear
    cases hst : x.st with
    | flush pc =>
      rw [hst] at hm hheld
      cases pc with
      | clearing user todo written => exact hs.sound _ _ hheld _ hm
      | _ => cases hm
    | _ => rw [hst] at hm; cases hm
  rcases hclean with ⟨c, hc, -, hrow⟩ | ⟨-, hn⟩
  · rw [hb] at hc
    cases hc
    exact hrow hv
  · rw [hn.absent] at hb
    cases hb

end Step

theorem System.Flushing.of_none {s : System} (hflush : ∀ p pc, ¬ s.Holds p (.flush pc))
    (hmarked : ∀ u ∈ s.redis.dirty, s.Known u) : s.Flushing := by
  refine ⟨fun p st hheld u e n hr => ?_, fun p st hheld u b hb => ?_, hmarked, fun p pc hheld => ?_⟩
  · cases st with
    | flush pc => exact (hflush p pc hheld).elim
    | _ => cases hr
  · cases st with
    | flush pc => exact (hflush p pc hheld).elim
    | _ => cases hb
  · exact (hflush p pc hheld).elim

/-! ## Every run -/

/-- **No lost flush.** Start from any stores and any calls but a flush; if no
balance key is lost and all sums stay in range, then whenever `CLEAR_DIRTY` takes
the mark off a user who has a balance, the user's row is that balance, version
included. -/
theorem cleared_flushed {cfg : Config} {s₀ s : System} {tr : List (Trans System Label)} (hr : Runs cfg s₀ tr s)
    (hh : ∀ t ∈ tr, healthy cfg t = true) (hflush : ∀ p pc, ¬ s₀.Holds p (.flush pc))
    (hmarked : ∀ u ∈ s₀.redis.dirty, s₀.Known u) {t : Trans System Label} (ht : t ∈ tr) {x : Ran}
    (hx : ran cfg t = some x) {u : UserId} {v : ℤ} (hcall : x.call = .clearDirty u v) (hu : u ∈ t.pre.redis.dirty)
    (hu' : u ∉ t.post.redis.dirty) {b : Balance} (hb : t.pre.redis.bal.get u = some b) :
    t.pre.pg.get u = some b := by
  obtain ⟨newer, older, he, hpre, hstep, -⟩ := hr.split ht
  have hflushing : t.pre.Flushing :=
    hpre.invariant (fun t' ht' => hh t' (by rw [he]; simp [ht'])) (.of_none hflush hmarked) fun hs h ht =>
      (step_cases h).flushing hs ht
  exact (step_cases hstep).unmarked hflushing (healthy_keeps (hh t ht)).2 hx hcall hu hu' hb

/-- Redis restarted behind PostgreSQL: the hot balance has version 5, the row
version 7. -/
def regressed : System :=
  { System.start dollarRows with
    redis := { Redis.empty with bal := Table.empty.set 1 (oneDollar.withVersion 5), dirty := {1} } }

/-- The first flush advances the version of the hot store, the second one writes
it and clears the mark. -/
theorem cleared_flushed_regressed :
    ∃ tr s t b, Runs {} regressed tr s ∧ t ∈ tr ∧ t.pre.redis.bal.get 1 = some b ∧ 1 ∈ t.pre.redis.dirty ∧
      1 ∉ t.post.redis.dirty ∧ t.pre.pg.get 1 = some b := by
  obtain ⟨tr, s, hr, h⟩ := Runs.of_schedule {} regressed
    [.spawn 0 .flush, .exec 0 [1] 0, .exec 0 [] 0, .commit 0 .committed, .exec 0 [] 0, .exec 0 [] 0,
      .spawn 1 .flush, .exec 1 [1] 0, .exec 1 [] 0, .commit 1 .committed, .exec 1 [] 0]
    (fun tr _ => tr.all (healthy {}) && tr.any fun t =>
      1 ∈ t.pre.redis.dirty && 1 ∉ t.post.redis.dirty && (t.pre.redis.bal.get 1).isSome &&
        (ran {} t).any fun x => match x.call with | .clearDirty 1 _ => true | _ => false) (by decide +kernel)
  simp only [Bool.and_eq_true, List.all_eq_true, List.any_eq_true, decide_eq_true_eq, Option.any_eq_true] at h
  obtain ⟨hh, t, ht, ⟨⟨hu, hu'⟩, hsome⟩, x, hx, hmatch⟩ := h
  obtain ⟨b, hb⟩ := Option.isSome_iff_exists.mp hsome
  have hcall : ∃ v, x.call = .clearDirty 1 v := by
    split at hmatch
    · next v he => exact ⟨v, he⟩
    · cases hmatch
  obtain ⟨v, hcall⟩ := hcall
  refine ⟨tr, s, t, b, hr, ht, hb, hu, hu', cleared_flushed hr hh ?_ ?_ ht hx hcall hu hu' hb⟩
  · rintro p pc (hp | hp) <;> cases hp
  · intro u hu
    refine .inl ⟨oneDollar.withVersion 5, ?_⟩
    rw [show u = 1 by simpa [regressed] using hu]
    rfl

end GenerationBalance
