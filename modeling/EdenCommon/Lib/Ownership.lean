import Mathlib.Data.Set.Basic
import Mathlib.Data.List.Nodup
import Mathlib.Logic.Function.Basic

/-!
# Numbers handed out by several owners

Each owner holds a set of items and hands them out one at a time. `Exclusive` says that no
item is held twice, and none that has been handed out is still held or was handed out
before. Taking new items (`Exclusive.acquire`) and handing one out (`Exclusive.handOut`)
keep it, whoever does so.
-/

namespace Lib

variable {ι α : Type*}

structure Exclusive (held : ι → Set α) (out : List α) : Prop where
  nodup : out.Nodup
  disjoint : ∀ i j x, x ∈ held i → x ∈ held j → i = j
  kept : ∀ i x, x ∈ held i → x ∉ out

variable {held held' : ι → Set α} {out : List α} {i : ι}

theorem Exclusive.empty : Exclusive (fun _ : ι => (∅ : Set α)) [] := ⟨List.nodup_nil, nofun, nofun⟩

/-- Owner `i` takes items that nobody has and that were never handed out. -/
theorem Exclusive.acquire (h : Exclusive held out) (hoff : ∀ j ≠ i, held' j ⊆ held j)
    (hnew : ∀ x ∈ held' i, x ∉ out ∧ ∀ j ≠ i, x ∉ held j) : Exclusive held' out where
  nodup := h.nodup
  disjoint := by
    intro j k x hj hk
    by_contra hjk
    rcases eq_or_ne j i with rfl | hji
    · exact (hnew x hj).2 k (Ne.symm hjk) (hoff k (Ne.symm hjk) hk)
    · rcases eq_or_ne k i with rfl | hki
      · exact (hnew x hk).2 j hji (hoff j hji hj)
      · exact hjk (h.disjoint j k x (hoff j hji hj) (hoff k hki hk))
  kept := by
    intro j x hx
    rcases eq_or_ne j i with rfl | hji
    · exact (hnew x hx).1
    · exact h.kept j x (hoff j hji hx)

/-- Holding fewer items. -/
theorem Exclusive.mono (h : Exclusive held out) (hle : ∀ j, held' j ⊆ held j) : Exclusive held' out where
  nodup := h.nodup
  disjoint := fun j k x hj hk => h.disjoint j k x (hle j hj) (hle k hk)
  kept := fun j x hx => h.kept j x (hle j hx)

/-- Owner `i` hands out the item `x` of its own. -/
theorem Exclusive.handOut (h : Exclusive held out) {x : α} (hx : x ∈ held i) (hle : ∀ j, held' j ⊆ held j)
    (hgone : x ∉ held' i) : Exclusive held' (out ++ [x]) where
  nodup := by
    refine List.nodup_append.2 ⟨h.nodup, List.nodup_cons.2 ⟨List.not_mem_nil, List.nodup_nil⟩, ?_⟩
    rintro y hy z hz rfl
    obtain rfl := List.mem_singleton.1 hz
    exact h.kept i y hx hy
  disjoint := (h.mono hle).disjoint
  kept := by
    intro j y hy hmem
    rcases List.mem_append.1 hmem with hout | hsingle
    · exact h.kept j y (hle j hy) hout
    · obtain rfl := List.mem_singleton.1 hsingle
      obtain rfl := h.disjoint i j y hx (hle j hy)
      exact hgone hy

end Lib
