/-
An escrow bank: accounts, amounts held on them under keys, and what becomes of a
hold. It is captured, with a part of it given back, or it is released; and money
comes in by deposits that are made once each.

`Serves` is the bank, one request at a time. A hold may be turned away although
there is money for it (`contended`), with the funds there are.
-/
import GenerationBalance.Table
import Mathlib.Tactic.Abel

namespace Escrow

/-- An amount held on an account, and what became of it. -/
inductive Hold (α G : Type) where
  | held (a : α) (amount : G)
  | captured (a : α) (amount back : G)
  | released (a : α) (amount : G)

structure Bank (α κ δ G : Type) where
  funds : Table α G
  holds : Table κ (Hold α G)
  deposits : Table δ (α × G)
  /-- What each account was opened with. -/
  opened : Table α G

inductive Request (α κ δ G : Type) where
  | create (a : α) (amount : G)
  | deposit (d : δ) (a : α) (amount : G)
  | hold (k : κ) (a : α) (amount : G)
  | capture (k : κ) (back : G)
  | release (k : κ)
  | funds (a : α)
  | lookup (k : κ)

inductive Answer (α G : Type) where
  | done
  /-- The account is open, or the deposit was made. -/
  | known
  /-- There is a hold under the key. -/
  | taken (h : Hold α G)
  | contended (funds : G)
  | noAccount
  | captured
  | notHeld
  | funds (g : Option G)
  | hold (h : Option (Hold α G))

variable {α κ δ G : Type}

def Bank.empty : Bank α κ δ G := ⟨.empty, .empty, .empty, .empty⟩

section Serves

variable [DecidableEq α] [DecidableEq κ] [DecidableEq δ] [AddCommGroup G] [PartialOrder G]

/-- **The bank**: what it answers a request, and what it is then. A request whose
amounts are out of bounds has no answer. -/
inductive Serves (b : Bank α κ δ G) : Request α κ δ G → Answer α G → Bank α κ δ G → Prop
  | created {a g} : b.funds.get a = none → 0 ≤ g →
      Serves b (.create a g) .done { b with funds := b.funds.set a g, opened := b.opened.set a g }
  | open {a g x} : b.funds.get a = some x → Serves b (.create a g) .known b
  | deposited {d a g x} : b.deposits.get d = none → b.funds.get a = some x → 0 ≤ g →
      Serves b (.deposit d a g) .done
        { b with funds := b.funds.set a (x + g), deposits := b.deposits.set d (a, g) }
  | repeated {d a g y} : b.deposits.get d = some y → Serves b (.deposit d a g) .known b
  | depositNowhere {d a g} : b.deposits.get d = none → b.funds.get a = none →
      Serves b (.deposit d a g) .noAccount b
  | held {k a g x} : b.holds.get k = none → b.funds.get a = some x → 0 ≤ g → g ≤ x →
      Serves b (.hold k a g) .done { b with funds := b.funds.set a (x - g), holds := b.holds.set k (.held a g) }
  | contended {k a g x} : b.holds.get k = none → b.funds.get a = some x →
      Serves b (.hold k a g) (.contended x) b
  | taken {k a g h} : b.holds.get k = some h → Serves b (.hold k a g) (.taken h) b
  | holdNowhere {k a g} : b.holds.get k = none → b.funds.get a = none → Serves b (.hold k a g) .noAccount b
  | kept {k a g} : b.holds.get k = some (.held a g) → 0 ≤ g →
      Serves b (.capture k 0) .done { b with holds := b.holds.set k (.captured a g 0) }
  | captured {k a g back x} : b.holds.get k = some (.held a g) → b.funds.get a = some x → 0 ≤ back → back ≤ g →
      Serves b (.capture k back) .done
        { b with funds := b.funds.set a (x + back), holds := b.holds.set k (.captured a g back) }
  | captureNowhere {k a g back} : b.holds.get k = some (.held a g) → back ≠ 0 → b.funds.get a = none →
      Serves b (.capture k back) .noAccount b
  | recaptured {k a g back back'} : b.holds.get k = some (.captured a g back') →
      Serves b (.capture k back) .captured b
  | captureTooLate {k back} :
      (∀ h, b.holds.get k = some h → ∃ a g, h = .released a g) → Serves b (.capture k back) .notHeld b
  | released {k a g x} : b.holds.get k = some (.held a g) → b.funds.get a = some x →
      Serves b (.release k) .done
        { b with funds := b.funds.set a (x + g), holds := b.holds.set k (.released a g) }
  | releaseNowhere {k a g} : b.holds.get k = some (.held a g) → b.funds.get a = none →
      Serves b (.release k) .noAccount b
  | releaseTooLate {k} : (∀ a g, b.holds.get k ≠ some (.held a g)) → Serves b (.release k) .notHeld b
  | funds {a} : Serves b (.funds a) (.funds (b.funds.get a)) b
  | lookup {k} : Serves b (.lookup k) (.hold (b.holds.get k)) b

/-- What the bank was asked and answered since it was empty, the newest first, and
what it is now. -/
inductive History : List (Request α κ δ G × Answer α G) → Bank α κ δ G → Prop
  | nil : History [] .empty
  | serve {h b q r b'} : History h b → Serves b q r b' → History ((q, r) :: h) b'

end Serves

/-! ## The books -/

variable [DecidableEq α] [AddCommGroup G]

/-- What a hold has of an account and has not given back. -/
def Hold.kept (a : α) : Hold α G → G
  | .held a' g => if a' = a then g else 0
  | .captured a' g back => if a' = a then g - back else 0
  | .released _ _ => 0

/-- What was paid in to an account. -/
def paidIn (a : α) (x : α × G) : G := if x.1 = a then x.2 else 0

theorem getD_set {m : Table α G} {a : α} {x : G} (a' : α) :
    ((m.set a x).get a').getD 0 = if a' = a then x else (m.get a').getD 0 := by
  rw [Table.get_set]
  split <;> rfl

variable [PartialOrder G]

def Hold.InBounds : Hold α G → Prop
  | .held _ g => 0 ≤ g
  | .captured _ g back => 0 ≤ back ∧ back ≤ g
  | .released _ _ => True

/-- No account is overdrawn, no hold gives back more than it has, and every
account's books are balanced. -/
structure Bank.Sound (b : Bank α κ δ G) : Prop where
  funds : ∀ a g, b.funds.get a = some g → 0 ≤ g
  holds : ∀ k h, b.holds.get k = some h → h.InBounds
  opened : ∀ a, (b.opened.get a).isSome = (b.funds.get a).isSome
  balanced : ∀ a, (b.funds.get a).getD 0 + b.holds.sum (fun _ => Hold.kept a) =
    (b.opened.get a).getD 0 + b.deposits.sum fun _ => paidIn a

theorem Bank.sound_empty : (Bank.empty : Bank α κ δ G).Sound where
  funds a g h := by cases h
  holds k h hk := by cases hk
  opened a := rfl
  balanced a := by simp [Bank.empty]

variable {b b' : Bank α κ δ G}

theorem Bank.Sound.funds_set (h : b.Sound) {a : α} {x : G} (hx : 0 ≤ x) (a' : α) (g : G)
    (hg : (b.funds.set a x).get a' = some g) : 0 ≤ g := by
  rw [Table.get_set] at hg
  split at hg
  · cases hg; exact hx
  · exact h.funds a' g hg

section Holds

variable [DecidableEq κ]

theorem Bank.Sound.holds_set (h : b.Sound) {k : κ} {x : Hold α G} (hx : x.InBounds) (k' : κ) (y : Hold α G)
    (hy : (b.holds.set k x).get k' = some y) : y.InBounds := by
  rw [Table.get_set] at hy
  split at hy
  · cases hy; exact hx
  · exact h.holds k' y hy

/-- A hold that goes on, and the funds of its account with it, leaves the books
balanced when what it keeps less the funds gain. -/
theorem Bank.Sound.balanced_resolve (h : b.Sound) {k : κ} {a : α} {g x y : G} {r : Hold α G}
    (hk : b.holds.get k = some (.held a g)) (hx : b.funds.get a = some x)
    (hr : ∀ a', r.kept a' = if a = a' then g - y else 0) (a' : α) :
    ((b.funds.set a (x + y)).get a').getD 0 + (b.holds.set k r).sum (fun _ => Hold.kept a') =
      (b.opened.get a').getD 0 + b.deposits.sum fun _ => paidIn a' := by
  have hsum := Table.sum_set_of_get (g := fun _ => Hold.kept a') r hk
  have hheld : Hold.kept a' (.held a g) = if a = a' then g else 0 := rfl
  rw [hheld, hr] at hsum
  rw [getD_set, ← h.balanced a']
  by_cases ha : a = a'
  · subst ha
    simp only [if_true] at hsum ⊢
    rw [hx, Option.getD_some, ← add_left_inj g, add_assoc, add_comm _ g, hsum]
    abel
  · simp only [if_neg ha, zero_add] at hsum
    rw [if_neg (Ne.symm ha), hsum]

variable [DecidableEq δ] [IsOrderedAddMonoid G]

/-- **One request** keeps the books. -/
theorem Serves.sound {q : Request α κ δ G} {r : Answer α G} (hs : Serves b q r b') (h : b.Sound) : b'.Sound := by
  cases hs with
  | @created a g hn hg =>
    refine ⟨h.funds_set hg, h.holds, fun a' => ?_, fun a' => ?_⟩
    · simp only [Table.get_set]
      split
      · rfl
      · exact h.opened a'
    · have hb := h.balanced a'
      rw [getD_set, getD_set]
      split
      · next he =>
        subst he
        -- Nothing was on the account before.
        have ho : b.opened.get a' = none := by
          have := h.opened a'
          rw [hn] at this
          simpa using this
        rw [hn, ho] at hb
        simp only [Option.getD_none, zero_add] at hb
        rw [hb]
      · exact hb
  | @deposited d a g x hn hx hg =>
    refine ⟨h.funds_set (add_nonneg (h.funds a x hx) hg), h.holds, fun a' => ?_, fun a' => ?_⟩
    · rw [Table.isSome_set_of_get hx, h.opened]
    · have hsum := Table.sum_set_of_none (g := fun _ => paidIn a') (a, g) hn
      have hb := h.balanced a'
      rw [getD_set, hsum]
      by_cases ha : a' = a
      · subst ha
        rw [hx, Option.getD_some] at hb
        simp only [if_true, paidIn]
        rw [add_right_comm, hb]
        abel
      · simp only [if_neg ha, paidIn, if_neg (Ne.symm ha), zero_add]
        exact hb
  | @held k a g x hn hx hg hle =>
    refine ⟨h.funds_set (sub_nonneg.mpr hle), h.holds_set hg, fun a' => ?_, fun a' => ?_⟩
    · rw [Table.isSome_set_of_get hx, h.opened]
    · have hsum := Table.sum_set_of_none (g := fun _ => Hold.kept a') (.held a g) hn
      have hb := h.balanced a'
      rw [getD_set, hsum]
      by_cases ha : a' = a
      · subst ha
        rw [hx, Option.getD_some] at hb
        simp only [if_true, Hold.kept]
        rw [← hb]
        abel
      · simp only [if_neg ha, Hold.kept, if_neg (Ne.symm ha), zero_add]
        exact hb
  | @kept k a g hk hg =>
    refine ⟨h.funds, h.holds_set ⟨le_refl 0, hg⟩, h.opened, fun a' => ?_⟩
    have hsum := Table.sum_set_of_get (g := fun _ => Hold.kept a') (.captured a g 0) hk
    simp only [Hold.kept, sub_zero] at hsum
    rw [← h.balanced a']
    exact congrArg _ (add_left_cancel hsum)
  | @captured k a g back x hk hx h0 hle =>
    refine ⟨h.funds_set (add_nonneg (h.funds a x hx) h0), h.holds_set ⟨h0, hle⟩, fun a' => ?_,
      h.balanced_resolve hk hx fun a' => rfl⟩
    rw [Table.isSome_set_of_get hx, h.opened]
  | @released k a g x hk hx =>
    have hg : 0 ≤ g := h.holds k _ hk
    refine ⟨h.funds_set (add_nonneg (h.funds a x hx) hg), h.holds_set trivial, fun a' => ?_,
      h.balanced_resolve hk hx fun a' => by simp [Hold.kept]⟩
    rw [Table.isSome_set_of_get hx, h.opened]
  | _ => exact h

/-- **Every history** keeps the books. -/
theorem History.sound {h : List (Request α κ δ G × Answer α G)} {b : Bank α κ δ G} (hh : History h b) : b.Sound := by
  induction hh with
  | nil => exact Bank.sound_empty
  | serve _ hs ih => exact hs.sound ih

end Holds

/-- **Nobody is charged more than came in**: what the holds on an account keep is
at most what it was opened with and what was paid in. -/
theorem Bank.Sound.covered [IsOrderedAddMonoid G] (h : b.Sound) (a : α) :
    b.holds.sum (fun _ => Hold.kept a) ≤ (b.opened.get a).getD 0 + b.deposits.sum fun _ => paidIn a := by
  rw [← h.balanced a]
  refine le_add_of_nonneg_left ?_
  cases ha : b.funds.get a with
  | none => exact le_refl 0
  | some g => exact h.funds a g ha

end Escrow
