/-
Finite tables: a partial map together with the finite set of its keys, so that
one can be compared by what it answers and summed over what it holds.
-/
import Mathlib.Algebra.BigOperators.Group.Finset.Basic
import Mathlib.Algebra.Order.BigOperators.Group.Finset
import Mathlib.Data.Finset.Erase
import Mathlib.Data.Finset.Insert

/-- A partial map with finitely many keys. -/
structure Table (κ ν : Type) where
  keys : Finset κ
  get : κ → Option ν
  mem_keys : ∀ k, k ∈ keys ↔ (get k).isSome = true

namespace Table

variable {κ ν : Type}

/-- Tables that answer alike are equal. -/
theorem ext {m m' : Table κ ν} (h : ∀ k, m.get k = m'.get k) : m = m' := by
  obtain ⟨ks, f, hf⟩ := m
  obtain ⟨ks', f', hf'⟩ := m'
  have hff : f = f' := funext h
  subst hff
  have hkk : ks = ks' := by
    ext k
    rw [hf, hf']
  subst hkk
  rfl

theorem mem_keys_of_get {m : Table κ ν} {k : κ} {v : ν} (h : m.get k = some v) : k ∈ m.keys := by
  rw [m.mem_keys, h]
  rfl

def empty : Table κ ν where
  keys := ∅
  get _ := none
  mem_keys := by simp

@[simp] theorem get_empty (k : κ) : (empty : Table κ ν).get k = none := rfl

section Sum

variable {M : Type} [AddCommMonoid M]

/-- The sum of `g` over the entries of a table. -/
def sum (m : Table κ ν) (g : κ → ν → M) : M :=
  ∑ k ∈ m.keys, (m.get k).elim 0 (g k)

@[simp] theorem sum_empty (g : κ → ν → M) : (empty : Table κ ν).sum g = 0 := by
  simp [sum, empty]

theorem sum_congr {m : Table κ ν} {g g' : κ → ν → M}
    (h : ∀ k v, m.get k = some v → g k v = g' k v) : m.sum g = m.sum g' := by
  refine Finset.sum_congr rfl fun k _ => ?_
  cases hk : m.get k with
  | none => rfl
  | some v => exact h k v hk

theorem sum_eq_zero {m : Table κ ν} {g : κ → ν → M} (h : ∀ k v, m.get k = some v → g k v = 0) : m.sum g = 0 := by
  refine Finset.sum_eq_zero fun k _ => ?_
  cases hk : m.get k with
  | none => rfl
  | some v => exact h k v hk

theorem sum_nonneg [PartialOrder M] [IsOrderedAddMonoid M] {m : Table κ ν} {g : κ → ν → M}
    (h : ∀ k v, m.get k = some v → 0 ≤ g k v) : 0 ≤ m.sum g := by
  refine Finset.sum_nonneg fun k _ => ?_
  cases hk : m.get k with
  | none => exact le_refl _
  | some v => exact h k v hk

theorem apply_sum {N : Type} [AddCommMonoid N] (φ : M →+ N) (m : Table κ ν) (g : κ → ν → M) :
    φ (m.sum g) = m.sum fun k v => φ (g k v) := by
  unfold sum
  rw [map_sum]
  refine Finset.sum_congr rfl fun k _ => ?_
  cases m.get k with
  | none => exact map_zero φ
  | some v => rfl

/-- Tables whose entries agree in their summands have the same sum. -/
theorem sum_rel {ν' : Type} {m : Table κ ν} {m' : Table κ ν'} {R : κ → ν → ν' → Prop} {g : κ → ν → M}
    {g' : κ → ν' → M} (h : ∀ k, Option.Rel (R k) (m.get k) (m'.get k)) (hg : ∀ k v w, R k v w → g k v = g' k w) :
    m.sum g = m'.sum g' := by
  have hkeys : m.keys = m'.keys := by
    ext k
    rw [m.mem_keys, m'.mem_keys]
    have hk := h k
    revert hk
    cases m.get k <;> cases m'.get k <;> intro hk <;> cases hk <;> simp
  unfold sum
  rw [hkeys]
  refine Finset.sum_congr rfl fun k _ => ?_
  have hk := h k
  revert hk
  generalize m.get k = x, m'.get k = y
  intro hk
  cases hk with
  | some hr => exact hg k _ _ hr
  | none => rfl

end Sum

/-! ## Writing and deleting a key -/

variable [DecidableEq κ]

def set (m : Table κ ν) (k : κ) (v : ν) : Table κ ν where
  keys := insert k m.keys
  get k' := if k' = k then some v else m.get k'
  mem_keys k' := by
    by_cases h : k' = k <;> simp [h, m.mem_keys]

def del (m : Table κ ν) (k : κ) : Table κ ν where
  keys := m.keys.erase k
  get k' := if k' = k then none else m.get k'
  mem_keys k' := by
    by_cases h : k' = k <;> simp [h, m.mem_keys]

@[simp] theorem get_set_self (m : Table κ ν) (k : κ) (v : ν) : (m.set k v).get k = some v := by
  simp [set]

theorem get_set (m : Table κ ν) (k k' : κ) (v : ν) :
    (m.set k v).get k' = if k' = k then some v else m.get k' := rfl

/-- A key that is written again stays. -/
theorem isSome_set_of_get {m : Table κ ν} {k : κ} {v w : ν} (h : m.get k = some v) (k' : κ) :
    ((m.set k w).get k').isSome = (m.get k').isSome := by
  rw [get_set]
  split
  · next he => rw [he, h]; rfl
  · rfl

theorem get_set_of_ne (m : Table κ ν) {k k' : κ} (v : ν) (h : k' ≠ k) :
    (m.set k v).get k' = m.get k' := by
  simp [set, h]

@[simp] theorem get_del_self (m : Table κ ν) (k : κ) : (m.del k).get k = none := by
  simp [del]

theorem get_del (m : Table κ ν) (k k' : κ) :
    (m.del k).get k' = if k' = k then none else m.get k' := rfl

theorem get_del_of_ne (m : Table κ ν) {k k' : κ} (h : k' ≠ k) : (m.del k).get k' = m.get k' := by
  simp [del, h]

theorem set_set (m : Table κ ν) (k : κ) (v w : ν) : (m.set k v).set k w = m.set k w := by
  apply ext
  intro k'
  simp only [get_set]
  split <;> rfl

theorem del_of_get_none {m : Table κ ν} {k : κ} (h : m.get k = none) : m.del k = m := by
  apply ext
  intro k'
  rw [get_del]
  split
  · next he => rw [he, h]
  · rfl

/-- The entries of `own` put over those of `base`. -/
def overlay (own base : Table κ ν) : Table κ ν where
  keys := own.keys ∪ base.keys
  get k := own.get k <|> base.get k
  mem_keys k := by
    rw [Finset.mem_union, own.mem_keys, base.mem_keys]
    cases own.get k <;> simp

theorem get_overlay (own base : Table κ ν) (k : κ) : (own.overlay base).get k = (own.get k <|> base.get k) := rfl

@[simp] theorem empty_overlay (base : Table κ ν) : (empty : Table κ ν).overlay base = base :=
  ext fun _ => rfl

theorem get_overlay_of_none {own base : Table κ ν} {k : κ} (h : own.get k = none) :
    (own.overlay base).get k = base.get k := by
  simp [get_overlay, h]

theorem set_overlay (own base : Table κ ν) (k : κ) (v : ν) :
    (own.set k v).overlay base = (own.overlay base).set k v := by
  apply ext
  intro k'
  simp only [get_overlay, get_set]
  split <;> rfl

/-- The pairs written one after the other. -/
def setAll (m : Table κ ν) (pairs : List (κ × ν)) : Table κ ν := pairs.foldl (fun m x => m.set x.1 x.2) m

@[simp] theorem setAll_nil (m : Table κ ν) : m.setAll [] = m := rfl

@[simp] theorem setAll_cons (m : Table κ ν) (x : κ × ν) (pairs : List (κ × ν)) :
    m.setAll (x :: pairs) = (m.set x.1 x.2).setAll pairs := rfl

/-- A key that some pairs are for, all with one value. -/
theorem get_setAll {k : κ} {v : ν} : ∀ {pairs : List (κ × ν)} {m : Table κ ν}, (∀ w, (k, w) ∈ pairs → w = v) →
    (m.get k = some v ∨ (k, v) ∈ pairs) → (m.setAll pairs).get k = some v
  | [], m, _, h => h.resolve_right (List.not_mem_nil)
  | (k', w) :: pairs, m, hv, h => by
    rw [setAll_cons]
    refine get_setAll (fun u hu => hv u (List.mem_cons_of_mem _ hu)) ?_
    by_cases hk : k = k'
    · subst hk
      left
      rw [get_set_self, hv w (List.mem_cons_self ..)]
    · rw [get_set_of_ne m w hk]
      refine h.imp_right fun hm => (List.mem_cons.mp hm).resolve_left fun he => hk (congrArg Prod.fst he)

/-! ## How a write changes a sum -/

variable {M : Type} [AddCommMonoid M]

theorem sum_eq_add {m : Table κ ν} {g : κ → ν → M} {k : κ} {v : ν} (h : m.get k = some v) :
    m.sum g = g k v + (m.del k).sum g := by
  unfold sum
  rw [← Finset.add_sum_erase _ _ (mem_keys_of_get h), h]
  refine congrArg₂ _ rfl (Finset.sum_congr rfl fun k' hk' => ?_)
  rw [get_del_of_ne m (Finset.ne_of_mem_erase hk')]

theorem del_set (m : Table κ ν) (k : κ) (v : ν) : (m.set k v).del k = m.del k := by
  apply ext
  intro k'
  simp only [get_del, get_set]
  split <;> rfl

/-- A new entry adds its summand. -/
theorem sum_set_new {m : Table κ ν} {g g' : κ → ν → M} {k : κ} (v : ν) (h : m.get k = none)
    (hg : ∀ k' w, k' ≠ k → m.get k' = some w → g' k' w = g k' w) :
    (m.set k v).sum g' = g' k v + m.sum g := by
  rw [sum_eq_add (get_set_self m k v), del_set, del_of_get_none h]
  refine congrArg _ (sum_congr fun k' w hk' => hg k' w ?_ hk')
  rintro rfl
  rw [h] at hk'
  cases hk'

/-- A replaced entry trades its old summand for the new one. -/
theorem sum_set_old {m : Table κ ν} {g g' : κ → ν → M} {k : κ} {w : ν} (v : ν) (h : m.get k = some w)
    (hg : ∀ k' w, k' ≠ k → m.get k' = some w → g' k' w = g k' w) :
    g k w + (m.set k v).sum g' = g' k v + m.sum g := by
  rw [sum_eq_add (get_set_self m k v), del_set, sum_eq_add h]
  have : (m.del k).sum g' = (m.del k).sum g := by
    refine sum_congr fun k' u hk' => ?_
    rw [get_del] at hk'
    split at hk'
    · cases hk'
    · next hne => exact hg k' u hne hk'
  rw [this, add_left_comm]

theorem sum_set_of_none {m : Table κ ν} {g : κ → ν → M} {k : κ} (v : ν) (h : m.get k = none) :
    (m.set k v).sum g = g k v + m.sum g :=
  sum_set_new v h fun _ _ _ _ => rfl

theorem sum_set_of_get {m : Table κ ν} {g : κ → ν → M} {k : κ} {w : ν} (v : ν) (h : m.get k = some w) :
    g k w + (m.set k v).sum g = g k v + m.sum g :=
  sum_set_old v h fun _ _ _ _ => rfl

end Table
