/-
Row locks under one table. A transaction takes its rows in the order of its
statement, each row once no other transaction holds it, and holds what it took
to its end; what it wrote is its own until it commits.

Two things follow, whatever the interleaving. What a transaction did is what
its statement does at once, on the table it commits to. And where every
statement takes its rows in ascending order, some transaction can always go on.
-/
import GenerationBalance.Table
import GenerationBalance.Transition
import Mathlib.Data.Finset.Max
import Mathlib.Data.List.MinMax
import Mathlib.Data.List.Sort

namespace Locking

open Transition

variable {ι κ β ν : Type} [DecidableEq ι] [LinearOrder κ]

/-- What a statement makes of one row. -/
inductive RowResult (ν : Type) where
  | write (v : ν)
  | skip
  | fail

/-- A statement, run at once: the keys it wrote, and the table it leaves. -/
def apply (op : β → Option ν → RowResult ν) : List (κ × β) → Table κ ν → Option (List κ × Table κ ν)
  | [], m => some ([], m)
  | (k, b) :: rows, m =>
    match op b (m.get k) with
    | .write v => (apply op rows (m.set k v)).map (Prod.map (k :: ·) id)
    | .skip => apply op rows m
    | .fail => none

/-- A transaction: the rows taken and the rows to take, the keys it wrote and what it
wrote, then the keys it asks for after its statement and the answers so far. -/
structure Txn (κ β ν : Type) where
  done : List (κ × β)
  todo : List (κ × β)
  written : List κ
  own : Table κ ν
  order : List κ
  read : List (Option ν)

def Txn.start (rows : List (κ × β)) (order : List κ) : Txn κ β ν := ⟨[], rows, [], .empty, order, []⟩

def Txn.keys (t : Txn κ β ν) : List κ := (t.done ++ t.todo).map Prod.fst

/-- The keys of `order` that were not written. -/
def Txn.left (t : Txn κ β ν) : List κ := t.order.filter (· ∉ t.written)

def Txn.unread (t : Txn κ β ν) : List κ := t.left.drop t.read.length

structure State (ι κ β ν : Type) where
  committed : Table κ ν
  txns : Table ι (Txn κ β ν)

def State.start (m : Table κ ν) : State ι κ β ν := ⟨m, .empty⟩

/-- No other transaction has taken the row. -/
def State.Free (s : State ι κ β ν) (p : ι) (k : κ) : Prop :=
  ∀ q ∈ s.txns.keys, q ≠ p → (s.txns.get q).all (fun t => k ∉ t.done.map Prod.fst) = true

instance (s : State ι κ β ν) (p : ι) (k : κ) : Decidable (s.Free p k) :=
  inferInstanceAs (Decidable (∀ q ∈ s.txns.keys, _))

omit [DecidableEq ι] in
theorem State.Free.not_mem {s : State ι κ β ν} {p q : ι} {k : κ} {t : Txn κ β ν} (h : s.Free p k) (hq : q ≠ p)
    (ht : s.txns.get q = some t) : k ∉ t.done.map Prod.fst := by
  have := h q (Table.mem_keys_of_get ht) hq
  rw [ht] at this
  simpa using this

/-- What happens next: a transaction begins, takes its next row, reads its next key,
commits, or ends without a trace. -/
inductive Label (ι κ β : Type) where
  | begin (p : ι) (rows : List (κ × β)) (order : List κ)
  | lock (p : ι)
  | read (p : ι)
  | commit (p : ι)
  | abort (p : ι)

/-- A step of a transaction's own program. -/
inductive Label.Goes : Label ι κ β → Prop
  | lock (p : ι) : (Label.lock p : Label ι κ β).Goes
  | read (p : ι) : (Label.read p : Label ι κ β).Goes
  | commit (p : ι) : (Label.commit p : Label ι κ β).Goes

/-- The rows of a begin are in ascending order, and hold the keys it asks for. -/
def Label.Ordered : Label ι κ β → Prop
  | .begin _ rows order => (rows.map Prod.fst).Pairwise (· < ·) ∧ ∀ k ∈ order, k ∈ rows.map Prod.fst
  | _ => True

/-- The transaction after its next row, unless the row fails. -/
def Txn.take (op : β → Option ν → RowResult ν) (t : Txn κ β ν) (m : Table κ ν) (k : κ) (b : β)
    (todo : List (κ × β)) : Option (Txn κ β ν) :=
  match op b ((t.own.overlay m).get k) with
  | .write v => some { t with done := t.done ++ [(k, b)], todo := todo, written := t.written ++ [k],
                              own := t.own.set k v }
  | .skip => some { t with done := t.done ++ [(k, b)], todo := todo }
  | .fail => none

/-- The transaction after the answer to its next key. -/
def Txn.answer (t : Txn κ β ν) (m : Table κ ν) (k : κ) : Txn κ β ν :=
  { t with read := t.read ++ [(t.own.overlay m).get k] }

def step (op : β → Option ν → RowResult ν) (s : State ι κ β ν) : Label ι κ β → Option (State ι κ β ν)
  | .begin p rows order =>
    match s.txns.get p with
    | some _ => none
    | none => some { s with txns := s.txns.set p (.start rows order) }
  | .lock p =>
    match s.txns.get p with
    | some t =>
      match t.todo with
      | (k, b) :: todo =>
        if s.Free p k then
          match t.take op s.committed k b todo with
          | some t' => some { s with txns := s.txns.set p t' }
          | none => some { s with txns := s.txns.del p }
        else none
      | [] => none
    | none => none
  | .read p =>
    match s.txns.get p with
    | some t =>
      match t.todo, t.unread with
      | [], k :: _ => some { s with txns := s.txns.set p (t.answer s.committed k) }
      | _, _ => none
    | none => none
  | .commit p =>
    match s.txns.get p with
    | some t =>
      match t.todo, t.unread with
      | [], [] => some ⟨t.own.overlay s.committed, s.txns.del p⟩
      | _, _ => none
    | none => none
  | .abort p =>
    match s.txns.get p with
    | some _ => some { s with txns := s.txns.del p }
    | none => none

/-! ## A statement at once -/

section Apply

variable {op : β → Option ν → RowResult ν} {rows : List (κ × β)} {m m' n : Table κ ν} {w : List κ} {k : κ} {b : β}
  {v : ν}

theorem apply_cons_write (h : op b (m.get k) = .write v) :
    apply op ((k, b) :: rows) m = (apply op rows (m.set k v)).map (Prod.map (k :: ·) id) := by
  simp only [apply, h]

theorem apply_cons_skip (h : op b (m.get k) = .skip) : apply op ((k, b) :: rows) m = apply op rows m := by
  simp only [apply, h]

theorem apply_cons_fail (h : op b (m.get k) = .fail) : apply op ((k, b) :: rows) m = none := by
  simp only [apply, h]

/-- Rows after rows. -/
theorem apply_append {rows' : List (κ × β)} (h : apply op rows m = some (w, n)) :
    apply op (rows ++ rows') m = (apply op rows' n).map (Prod.map (w ++ ·) id) := by
  induction rows generalizing m w with
  | nil =>
    cases h
    rw [List.nil_append]
    cases apply op rows' n <;> rfl
  | cons x rows ih =>
    obtain ⟨k, b⟩ := x
    cases hop : op b (m.get k) with
    | write v =>
      rw [apply_cons_write hop, Option.map_eq_some_iff] at h
      obtain ⟨⟨w', n'⟩, h, he⟩ := h
      cases he
      rw [List.cons_append, apply_cons_write hop, ih h, Option.map_map]
      rfl
    | skip =>
      rw [apply_cons_skip hop] at h
      rw [List.cons_append, apply_cons_skip hop, ih h]
    | fail =>
      rw [apply_cons_fail hop] at h
      cases h

/-- One more row, written. -/
theorem apply_concat_write (h : apply op rows m = some (w, n)) (hop : op b (n.get k) = .write v) :
    apply op (rows ++ [(k, b)]) m = some (w ++ [k], n.set k v) := by
  rw [apply_append h, apply_cons_write hop]
  rfl

/-- One more row, passed over. -/
theorem apply_concat_skip (h : apply op rows m = some (w, n)) (hop : op b (n.get k) = .skip) :
    apply op (rows ++ [(k, b)]) m = some (w, n) := by
  rw [apply_append h, apply_cons_skip hop]
  simp [apply]

/-- A statement leaves the rows of other keys alone. -/
theorem apply_other (h : apply op rows m = some (w, n)) (hk : k ∉ rows.map Prod.fst) : n.get k = m.get k := by
  induction rows generalizing m w with
  | nil =>
    cases h
    rfl
  | cons x rows ih =>
    obtain ⟨k', b⟩ := x
    simp only [List.map_cons, List.mem_cons, not_or] at hk
    cases hop : op b (m.get k') with
    | write v =>
      rw [apply_cons_write hop, Option.map_eq_some_iff] at h
      obtain ⟨⟨w', n'⟩, h, he⟩ := h
      cases he
      rw [ih h hk.2, Table.get_set_of_ne m v hk.1]
    | skip =>
      rw [apply_cons_skip hop] at h
      exact ih h hk.2
    | fail =>
      rw [apply_cons_fail hop] at h
      cases h

/-- A statement reads the rows of its own keys only: on a table that agrees on these it writes
the same keys, and leaves the same in them. -/
theorem apply_agree (h : apply op rows m = some (w, n)) {ks : List κ} (hks : ∀ k ∈ rows.map Prod.fst, k ∈ ks)
    (hm : ∀ k ∈ ks, m'.get k = m.get k) :
    ∃ n', apply op rows m' = some (w, n') ∧ ∀ k ∈ ks, n'.get k = n.get k := by
  induction rows generalizing m m' w with
  | nil =>
    cases h
    exact ⟨m', rfl, hm⟩
  | cons x rows ih =>
    obtain ⟨k, b⟩ := x
    simp only [List.map_cons, List.forall_mem_cons] at hks
    have hk := hm k hks.1
    cases hop : op b (m.get k) with
    | write v =>
      rw [apply_cons_write hop, Option.map_eq_some_iff] at h
      obtain ⟨⟨w', n₀⟩, h, he⟩ := h
      cases he
      have hset : ∀ k' ∈ ks, (m'.set k v).get k' = (m.set k v).get k' := by
        intro k' hk'
        simp only [Table.get_set, hm k' hk']
      obtain ⟨n', hn', hag⟩ := ih h hks.2 hset
      rw [← hk] at hop
      exact ⟨n', by rw [apply_cons_write hop, hn']; rfl, hag⟩
    | skip =>
      rw [apply_cons_skip hop] at h
      rw [← hk] at hop
      rw [apply_cons_skip hop]
      exact ih h hks.2 hm
    | fail =>
      rw [apply_cons_fail hop] at h
      cases h

end Apply

/-! ## What a step does -/

section Step

variable {op : β → Option ν → RowResult ν} {s s' : State ι κ β ν} {l : Label ι κ β}

inductive StepCase (op : β → Option ν → RowResult ν) (s : State ι κ β ν) : Label ι κ β → State ι κ β ν → Prop
  | begun {p rows order} : s.txns.get p = none →
      StepCase op s (.begin p rows order) { s with txns := s.txns.set p (.start rows order) }
  | took {p t t' k b todo} : s.txns.get p = some t → t.todo = (k, b) :: todo → s.Free p k →
      t.take op s.committed k b todo = some t' → StepCase op s (.lock p) { s with txns := s.txns.set p t' }
  | failed {p t k b todo} : s.txns.get p = some t → t.todo = (k, b) :: todo →
      t.take op s.committed k b todo = none → StepCase op s (.lock p) { s with txns := s.txns.del p }
  | answered {p t k ks} : s.txns.get p = some t → t.todo = [] → t.unread = k :: ks →
      StepCase op s (.read p)
        { s with txns := s.txns.set p (t.answer s.committed k) }
  | committed {p t} : s.txns.get p = some t → t.todo = [] → t.unread = [] →
      StepCase op s (.commit p) ⟨t.own.overlay s.committed, s.txns.del p⟩
  | aborted {p t} : s.txns.get p = some t → StepCase op s (.abort p) { s with txns := s.txns.del p }

theorem step_cases (h : step op s l = some s') : StepCase op s l s' := by
  cases l with
  | «begin» p rows order =>
    simp only [step] at h
    split at h
    · cases h
    · next hp =>
      cases h
      exact .begun hp
  | lock p =>
    simp only [step] at h
    split at h
    · next t hp =>
      split at h
      · next k b todo ht =>
        split at h
        · next hf =>
          split at h
          · next t' htake =>
            cases h
            exact .took hp ht hf htake
          · next htake =>
            cases h
            exact .failed hp ht htake
        · cases h
      · cases h
    · cases h
  | read p =>
    simp only [step] at h
    split at h
    · next t hp =>
      split at h
      · next k ks ht hu =>
        cases h
        exact .answered hp ht hu
      · cases h
    · cases h
  | commit p =>
    simp only [step] at h
    split at h
    · next t hp =>
      split at h
      · next ht hu =>
        cases h
        exact .committed hp ht hu
      · cases h
    · cases h
  | abort p =>
    simp only [step] at h
    split at h
    · next t hp =>
      cases h
      exact .aborted hp
    · cases h

/-- A transaction with a row to take can take it once it is free. -/
theorem step_lock (op : β → Option ν → RowResult ν) {p : ι} {t : Txn κ β ν} {k : κ} {b : β} {todo : List (κ × β)} (hp : s.txns.get p = some t)
    (ht : t.todo = (k, b) :: todo) (hf : s.Free p k) : ∃ s', step op s (.lock p) = some s' := by
  simp only [step, hp, ht, if_pos hf]
  split
  · exact ⟨_, rfl⟩
  · exact ⟨_, rfl⟩

/-- A transaction whose statement is done can go on. -/
theorem step_done {p : ι} {t : Txn κ β ν} (hp : s.txns.get p = some t) (ht : t.todo = []) :
    ∃ l s', Label.Goes l ∧ step op s l = some s' := by
  cases hu : t.unread with
  | nil => exact ⟨.commit p, ⟨t.own.overlay s.committed, s.txns.del p⟩, .commit p, by simp only [step, hp, ht, hu]⟩
  | cons k ks =>
    refine ⟨.read p,
      { s with txns := s.txns.set p (t.answer s.committed k) }, .read p, ?_⟩
    simp only [step, hp, ht, hu]

end Step

/-! ## What transactions keep -/

section Invariant

/-- What a transaction knows is what its statement made of the committed table so far, whatever
was committed since it began. -/
structure Txn.Good (op : β → Option ν → RowResult ν) (m : Table κ ν) (t : Txn κ β ν) : Prop where
  applied : apply op t.done m = some (t.written, t.own.overlay m)
  held : ∀ k, k ∉ t.done.map Prod.fst → t.own.get k = none
  reads : t.read <+: t.left.map (t.own.overlay m).get
  waits : t.todo ≠ [] → t.read = []
  ascending : t.keys.Pairwise (· < ·)
  asked : ∀ k ∈ t.order, k ∈ t.keys

structure State.Good (op : β → Option ν → RowResult ν) (s : State ι κ β ν) : Prop where
  txn : ∀ p t, s.txns.get p = some t → t.Good op s.committed
  apart : ∀ p q t t', s.txns.get p = some t → s.txns.get q = some t' → p ≠ q →
    ∀ k ∈ t.done.map Prod.fst, k ∉ t'.done.map Prod.fst

variable {op : β → Option ν → RowResult ν} {s s' : State ι κ β ν} {l : Label ι κ β} {t t' : Txn κ β ν}
  {m m' : Table κ ν}

theorem Txn.Good.start (m : Table κ ν) {rows : List (κ × β)} {order : List κ}
    (hasc : (rows.map Prod.fst).Pairwise (· < ·)) (hask : ∀ k ∈ order, k ∈ rows.map Prod.fst) :
    (Txn.start rows order : Txn κ β ν).Good op m where
  applied := by simp [Txn.start, apply]
  held k _ := rfl
  reads := by simp [Txn.start]
  waits _ := rfl
  ascending := hasc
  asked := hask

/-- What others commit is outside the rows of a transaction, and changes nothing for it. -/
theorem Txn.Good.frame (h : t.Good op m) (hm : ∀ k ∈ t.done.map Prod.fst, m'.get k = m.get k) : t.Good op m' := by
  have hover : ∀ k ∈ t.done.map Prod.fst, (t.own.overlay m').get k = (t.own.overlay m).get k := by
    intro k hk
    simp only [Table.get_overlay, hm k hk]
  refine ⟨?_, h.held, ?_, h.waits, h.ascending, h.asked⟩
  · obtain ⟨n, hn, hag⟩ := apply_agree h.applied (fun _ hk => hk) hm
    have hn' : n = t.own.overlay m' := by
      apply Table.ext
      intro k
      by_cases hk : k ∈ t.done.map Prod.fst
      · rw [hag k hk, hover k hk]
      · rw [apply_other hn hk, Table.get_overlay_of_none (h.held k hk)]
    rw [hn, hn']
  · by_cases ht : t.todo = []
    · have hmap : t.left.map (t.own.overlay m').get = t.left.map (t.own.overlay m).get := by
        refine List.map_congr_left fun k hk => hover k ?_
        have hk := h.asked k (List.mem_of_mem_filter hk)
        simpa [Txn.keys, ht] using hk
      rw [hmap]
      exact h.reads
    · rw [h.waits ht]
      exact List.nil_prefix

theorem Txn.take_cases {k : κ} {b : β} {todo : List (κ × β)} (h : t.take op m k b todo = some t') :
    (∃ v, op b ((t.own.overlay m).get k) = .write v ∧
      t' = { t with done := t.done ++ [(k, b)], todo := todo, written := t.written ++ [k], own := t.own.set k v }) ∨
    (op b ((t.own.overlay m).get k) = .skip ∧ t' = { t with done := t.done ++ [(k, b)], todo := todo }) := by
  simp only [Txn.take] at h
  split at h
  · next v hop =>
    cases h
    exact .inl ⟨v, hop, rfl⟩
  · next hop =>
    cases h
    exact .inr ⟨hop, rfl⟩
  · cases h

theorem Txn.take_keys {k : κ} {b : β} {todo : List (κ × β)} (h : t.take op m k b todo = some t')
    (ht : t.todo = (k, b) :: todo) : t'.done = t.done ++ [(k, b)] ∧ t'.todo = todo ∧ t'.keys = t.keys ∧
      t'.order = t.order ∧ t'.read = t.read := by
  rcases Txn.take_cases h with ⟨v, -, he⟩ | ⟨-, he⟩
  · subst he
    simp [Txn.keys, ht]
  · subst he
    simp [Txn.keys, ht]

theorem Txn.Good.take (h : t.Good op m) {k : κ} {b : β} {todo : List (κ × β)} (ht : t.todo = (k, b) :: todo)
    (htake : t.take op m k b todo = some t') : t'.Good op m := by
  obtain ⟨hdone, htodo, hkeys, horder, hread⟩ := Txn.take_keys htake ht
  have hempty : t'.read = [] := by rw [hread, h.waits (by simp [ht])]
  have hasc := h.ascending
  have hask := h.asked
  rw [← hkeys] at hasc hask
  rw [← horder] at hask
  refine ⟨?_, fun k' hk' => ?_, ?_, fun _ => hempty, hasc, hask⟩
  · rcases Txn.take_cases htake with ⟨v, hop, he⟩ | ⟨hop, he⟩
    · subst he
      rw [Table.set_overlay]
      exact apply_concat_write h.applied hop
    · subst he
      exact apply_concat_skip h.applied hop
  · simp only [hdone, List.map_append, List.mem_append, not_or, List.map_cons, List.map_nil,
      List.mem_singleton] at hk'
    rcases Txn.take_cases htake with ⟨v, hop, he⟩ | ⟨hop, he⟩
    · subst he
      exact (Table.get_set_of_ne t.own v hk'.2).trans (h.held k' hk'.1)
    · subst he
      exact h.held k' hk'.1
  · rw [hempty]
    exact List.nil_prefix

theorem Txn.Good.answer (h : t.Good op m) {k : κ} {ks : List κ} (ht : t.todo = []) (hu : t.unread = k :: ks) :
    (t.answer m k).Good op m := by
  refine ⟨h.applied, h.held, ?_, fun hne => absurd ht hne, h.ascending, h.asked⟩
  obtain ⟨rest, hrest⟩ := h.reads
  have hdrop : rest = (k :: ks).map (t.own.overlay m).get := by
    rw [← hu, Txn.unread, List.map_drop, ← hrest, List.drop_left]
  refine ⟨ks.map (t.own.overlay m).get, ?_⟩
  show (t.read ++ [_]) ++ _ = t.left.map (t.own.overlay m).get
  rw [← hrest, hdrop]
  simp

/-- A transaction is put in, and its rows are nobody else's. -/
theorem State.Good.put (hs : s.Good op) {p : ι} (ht : t.Good op s.committed)
    (hfree : ∀ k ∈ t.done.map Prod.fst, ∀ q u, q ≠ p → s.txns.get q = some u → k ∉ u.done.map Prod.fst) :
    State.Good op { s with txns := s.txns.set p t } := by
  refine ⟨fun q u hu => ?_, fun q r u v hu hv hne k hk hk' => ?_⟩
  · rw [Table.get_set] at hu
    split at hu
    · cases hu
      exact ht
    · exact hs.txn q u hu
  · simp only [Table.get_set] at hu hv
    split at hu <;> split at hv
    · next hq hr => exact hne (hq.trans hr.symm)
    · next hq hr =>
      cases hu
      exact hfree k hk r v hr hv hk'
    · next hq hr =>
      cases hv
      exact hfree k hk' q u hq hu hk
    · exact hs.apart q r u v hu hv hne k hk hk'

/-- A transaction is taken out, and the rows of the others are left as they are. -/
theorem State.Good.out (hs : s.Good op) {p : ι} (hm : ∀ q u, q ≠ p → s.txns.get q = some u →
      ∀ k ∈ u.done.map Prod.fst, m.get k = s.committed.get k) : State.Good op ⟨m, s.txns.del p⟩ := by
  have hget : ∀ {q u}, (s.txns.del p).get q = some u → q ≠ p ∧ s.txns.get q = some u := by
    intro q u hu
    rw [Table.get_del] at hu
    split at hu
    · cases hu
    · next hq => exact ⟨hq, hu⟩
  refine ⟨fun q u hu => ?_, fun q r u v hu hv => ?_⟩
  · obtain ⟨hq, hu⟩ := hget hu
    exact (hs.txn q u hu).frame (hm q u hq hu)
  · exact hs.apart q r u v (hget hu).2 (hget hv).2

/-- **Every step keeps what transactions know, and their rows apart.** -/
theorem StepCase.good (h : StepCase op s l s') (hs : s.Good op) (hl : l.Ordered) : s'.Good op := by
  cases h with
  | begun hp => exact hs.put (.start _ hl.1 hl.2) (by simp [Txn.start])
  | @took p t t' k b todo hp ht hf htake =>
    refine hs.put ((hs.txn p t hp).take ht htake) fun k' hk' q u hq hu => ?_
    simp only [(Txn.take_keys htake ht).1, List.map_append, List.mem_append, List.map_cons, List.map_nil,
      List.mem_singleton] at hk'
    rcases hk' with hk' | rfl
    · exact hs.apart p q t u hp hu (Ne.symm hq) k' hk'
    · exact hf.not_mem hq hu
  | failed => exact hs.out fun _ _ _ _ _ _ => rfl
  | @answered p t k ks hp ht hu =>
    exact hs.put ((hs.txn p t hp).answer ht hu) fun k' hk' q u hq hu => hs.apart p q t u hp hu (Ne.symm hq) k' hk'
  | @committed p t hp ht hu =>
    refine hs.out fun q u hq hu' k hk => Table.get_overlay_of_none ((hs.txn p t hp).held k fun hk' => ?_)
    exact hs.apart q p u t hu' hp hq k hk hk'
  | aborted => exact hs.out fun _ _ _ _ _ _ => rfl

/-- A transaction after a step has the rows and keys it had, or has just begun. -/
theorem StepCase.entry (h : StepCase op s l s') {q : ι} {u : Txn κ β ν} (hu : s'.txns.get q = some u) :
    (∃ t, s.txns.get q = some t ∧ u.done ++ u.todo = t.done ++ t.todo ∧ u.order = t.order) ∨
      ∃ rows order, l = .begin q rows order ∧ u = .start rows order := by
  have kept : ∀ {p : ι} {t' : Txn κ β ν}, (s.txns.set p t').get q = some u →
      (q = p → u = t' → ∃ t, s.txns.get p = some t ∧ u.done ++ u.todo = t.done ++ t.todo ∧ u.order = t.order) →
      ∃ t, s.txns.get q = some t ∧ u.done ++ u.todo = t.done ++ t.todo ∧ u.order = t.order := by
    intro p t' hu ht'
    rw [Table.get_set] at hu
    split at hu
    · next hq =>
      cases hu
      exact hq ▸ ht' hq rfl
    · exact ⟨u, hu, rfl, rfl⟩
  have rest : ∀ {p : ι}, (s.txns.del p).get q = some u →
      ∃ t, s.txns.get q = some t ∧ u.done ++ u.todo = t.done ++ t.todo ∧ u.order = t.order := by
    intro p hu
    rw [Table.get_del] at hu
    split at hu
    · cases hu
    · exact ⟨u, hu, rfl, rfl⟩
  cases h with
  | @begun p rows order hp =>
    rw [Table.get_set] at hu
    split at hu
    · next hq =>
      cases hu
      exact .inr ⟨rows, order, hq ▸ rfl, rfl⟩
    · exact .inl ⟨u, hu, rfl, rfl⟩
  | took hp ht hf htake =>
    refine .inl (kept hu fun _ he => ?_)
    obtain ⟨hdone, htodo, -, horder, -⟩ := Txn.take_keys htake ht
    subst he
    exact ⟨_, hp, by rw [hdone, htodo, ht, List.append_assoc]; rfl, horder⟩
  | failed => exact .inl (rest hu)
  | answered hp ht hunread =>
    refine .inl (kept hu fun _ he => ?_)
    subst he
    exact ⟨_, hp, rfl, rfl⟩
  | committed => exact .inl (rest hu)
  | aborted => exact .inl (rest hu)

omit [DecidableEq ι] in
theorem State.start_good (m : Table κ ν) : (State.start m : State ι κ β ν).Good op where
  txn _ _ ht := nomatch ht
  apart _ _ _ _ ht := nomatch ht

/-! ## What a commit is -/

/-- A statement that was done at once, with its answers. -/
structure AtOnce (op : β → Option ν → RowResult ν) (rows : List (κ × β)) (order : List κ) (m m' : Table κ ν)
    (t : Txn κ β ν) : Prop where
  applied : apply op rows m = some (t.written, m')
  reads : t.read = (order.filter (· ∉ t.written)).map m'.get

/-- **Two-phase locking.** When a transaction commits, it did what its statement does at once on the
table before the commit, and its answers are of the table after it. -/
theorem Txn.Good.atOnce (h : t.Good op m) (ht : t.todo = []) (hu : t.unread = []) :
    AtOnce op (t.done ++ t.todo) t.order m (t.own.overlay m) t where
  applied := by
    rw [ht, List.append_nil]
    exact h.applied
  reads := by
    have hle : t.left.length ≤ t.read.length := List.drop_eq_nil_iff.mp hu
    refine h.reads.eq_of_length (le_antisymm h.reads.length_le ?_)
    rw [List.length_map]
    exact hle

/-! ## Going on -/

/-- **No deadlock.** Where rows are taken in ascending order, some transaction can go on: one whose statement is
done, or else the one that holds the greatest row. -/
theorem State.Good.goes (hs : s.Good op) (hne : s.txns.keys.Nonempty) :
    ∃ l s', Label.Goes l ∧ step op s l = some s' := by
  -- the greatest row that a transaction holds
  obtain ⟨p, hp, hmax⟩ := s.txns.keys.exists_max_image
    (fun p => (s.txns.get p).elim ⊥ fun t => (t.done.map Prod.fst).maximum) hne
  obtain ⟨t, ht⟩ := Option.isSome_iff_exists.mp ((s.txns.mem_keys p).mp hp)
  cases htodo : t.todo with
  | nil => exact step_done ht htodo
  | cons x todo =>
    obtain ⟨k, b⟩ := x
    have hfree : s.Free p k := by
      intro q hq hqp
      obtain ⟨u, hu⟩ := Option.isSome_iff_exists.mp ((s.txns.mem_keys q).mp hq)
      have hle := hmax q hq
      rw [hu] at hle ⊢
      rw [ht] at hle
      simp only [Option.elim_some, Option.all_some, decide_eq_true_eq] at hle ⊢
      intro hk
      -- the next row of `p` is above all that `p` holds, so above what `q` holds
      have hk' : (k : WithBot κ) ≤ (t.done.map Prod.fst).maximum := (List.le_maximum_of_mem' hk).trans hle
      cases hm : (t.done.map Prod.fst).maximum with
      | bot =>
        rw [hm] at hk'
        exact absurd hk' (by simp)
      | coe k' =>
        rw [hm, WithBot.coe_le_coe] at hk'
        have hasc := (hs.txn p t ht).ascending
        rw [Txn.keys, htodo, List.map_append, List.pairwise_append] at hasc
        exact absurd hk' (not_le.mpr (hasc.2.2 k' (List.maximum_mem hm) k (by simp)))
    obtain ⟨s', hs'⟩ := step_lock op ht htodo hfree
    exact ⟨.lock p, s', .lock p, hs'⟩

/-- The rows to take and the keys that may yet be read, and one for the end. -/
def Txn.work (t : Txn κ β ν) : ℕ := t.todo.length + (t.order.length - t.read.length) + 1

def State.work (s : State ι κ β ν) : ℕ := s.txns.sum fun _ t => t.work

theorem StepCase.work (h : StepCase op s l s') (hl : l.Goes) : s'.work < s.work := by
  have del : ∀ {p : ι} {t : Txn κ β ν} {m : Table κ ν}, s.txns.get p = some t →
      State.work (⟨m, s.txns.del p⟩ : State ι κ β ν) < s.work := by
    intro p t m hp
    have h := Table.sum_eq_add (g := fun _ t => Txn.work t) hp
    have hpos : 0 < t.work := Nat.succ_pos _
    simp only [State.work, h]
    omega
  have set : ∀ {p : ι} {t t' : Txn κ β ν}, s.txns.get p = some t → t'.work < t.work →
      State.work { s with txns := s.txns.set p t' } < s.work := by
    intro p t t' hp hlt
    have h := Table.sum_eq_add (g := fun _ t => Txn.work t) hp
    have h' := Table.sum_eq_add (g := fun _ t => Txn.work t) (Table.get_set_self s.txns p t')
    rw [Table.del_set] at h'
    simp only [State.work, h, h']
    omega
  cases h with
  | begun => cases hl
  | took hp ht hf htake =>
    obtain ⟨-, htodo, -, horder, hread⟩ := Txn.take_keys htake ht
    refine set hp ?_
    simp only [Txn.work, htodo, horder, hread, ht, List.length_cons]
    omega
  | failed hp => exact del hp
  | @answered p t k ks hp ht hu =>
    refine set hp ?_
    -- a key is unread, so there are fewer answers than keys
    have hlt : t.read.length < t.left.length := by
      have hlen := congrArg List.length hu
      rw [Txn.unread, List.length_drop, List.length_cons] at hlen
      omega
    have hle : t.left.length ≤ t.order.length := List.length_filter_le ..
    simp only [Txn.work, Txn.answer, List.length_append, List.length_singleton]
    omega
  | committed hp => exact del hp
  | aborted => cases hl

end Invariant

end Locking
