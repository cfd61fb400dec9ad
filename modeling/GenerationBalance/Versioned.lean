/-
Tables of versioned values: values that only ever give way to values of a newer
version. A value that was read once is then the present one or older, so a
compare-and-set on the version alone succeeds only on the very value read.
-/
import GenerationBalance.Table
import Mathlib.Data.Int.ConditionallyCompleteOrder
import Mathlib.Order.Basic

namespace Versioned

variable {κ ν V : Type} [Preorder V] {version : ν → V}

/-- `a` is `b`, or has an older version. -/
def Behind (version : ν → V) (a b : ν) : Prop := a = b ∨ version a < version b

theorem Behind.refl (a : ν) : Behind version a a := .inl rfl

theorem Behind.trans {a b c : ν} (h : Behind version a b) (h' : Behind version b c) : Behind version a c := by
  rcases h with rfl | h
  · exact h'
  · rcases h' with rfl | h'
    · exact .inr h
    · exact .inr (h.trans h')

theorem Behind.le {a b : ν} (h : Behind version a b) : version a ≤ version b := by
  rcases h with rfl | h
  · exact le_refl _
  · exact h.le

/-- Of one version there is one value. -/
theorem Behind.eq {a b : ν} (h : Behind version a b) (hv : version b ≤ version a) : a = b := by
  rcases h with rfl | h
  · rfl
  · exact absurd hv h.not_ge

/-- Of two values behind a third, the one whose version is not the newer one has
been left behind, or they are the same. -/
theorem Behind.outrun {a b c : ν} (ha : Behind version a c) (hb : Behind version b c) (hle : version a ≤ version b)
    (hne : b ≠ a) : version a < version c := by
  rcases ha with rfl | hlt
  · exact absurd (hb.eq hle) hne
  · exact hlt

/-- Every key stays, and its value only goes forward. -/
def Forward (version : ν → V) (m m' : Table κ ν) : Prop :=
  ∀ k a, m.get k = some a → ∃ b, m'.get k = some b ∧ Behind version a b

theorem Forward.refl (m : Table κ ν) : Forward version m m := fun _ a h => ⟨a, h, .refl a⟩

theorem Forward.trans {m m' m'' : Table κ ν} (h : Forward version m m') (h' : Forward version m' m'') :
    Forward version m m'' := by
  intro k a ha
  obtain ⟨b, hb, hab⟩ := h k a ha
  obtain ⟨c, hc, hbc⟩ := h' k b hb
  exact ⟨c, hc, hab.trans hbc⟩

/-- The value of `k` is `a` or has gone forward from it. -/
def Passed (version : ν → V) (m : Table κ ν) (k : κ) (a : ν) : Prop :=
  ∃ b, m.get k = some b ∧ Behind version a b

theorem Passed.of_get {m : Table κ ν} {k : κ} {a : ν} (h : m.get k = some a) : Passed version m k a :=
  ⟨a, h, .refl a⟩

theorem Passed.forward {m m' : Table κ ν} {k : κ} {a : ν} (h : Passed version m k a) (hf : Forward version m m') :
    Passed version m' k a := by
  obtain ⟨b, hb, hab⟩ := h
  obtain ⟨c, hc, hbc⟩ := hf k b hb
  exact ⟨c, hc, hab.trans hbc⟩

/-- **Compare and set.** When the present version is the one that was read, the
present value is the one that was read. -/
theorem Passed.eq {m : Table κ ν} {k : κ} {a b : ν} (h : Passed version m k a) (hb : m.get k = some b)
    (hv : version b = version a) : b = a := by
  obtain ⟨c, hc, hac⟩ := h
  rw [hb] at hc
  cases hc
  exact (hac.eq hv.le).symm

variable [DecidableEq κ]

theorem Forward.set_new {m : Table κ ν} {k : κ} (b : ν) (h : m.get k = none) : Forward version m (m.set k b) := by
  intro k' a ha
  refine ⟨a, ?_, .refl a⟩
  rw [Table.get_set_of_ne, ha]
  rintro rfl
  rw [h] at ha
  cases ha

theorem Forward.set_old {m : Table κ ν} {k : κ} {a b : ν} (h : m.get k = some a) (hab : Behind version a b) :
    Forward version m (m.set k b) := by
  intro k' a' ha
  by_cases hk : k' = k
  · subst hk
    rw [h] at ha
    cases ha
    exact ⟨b, Table.get_set_self .., hab⟩
  · exact ⟨a', by rw [Table.get_set_of_ne m b hk, ha], .refl a'⟩

end Versioned
