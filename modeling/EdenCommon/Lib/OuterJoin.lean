import EdenCommon.Lib.SortedVector

/-!
# The full outer join of two sorted vectors

Two cursors walk two vectors sorted by a common rank and pair the elements of one rank.
The join is sorted by that rank (`sortedBy_outerJoin`), and its element of each rank is made
of those of the two vectors (`find?_outerJoin`). Where the vectors are not sorted, the first
element of a rank has the sides that reach it (`find?_outerJoin_of_reaches`).
-/

namespace Lib

variable {α β γ : Type*}

/-- What one or both of two vectors have for a rank. -/
inductive Joined (α β : Type*)
  | left (a : α)
  | right (b : β)
  | both (a : α) (b : β)

/-- What there is of two optional elements. -/
def Joined.of : Option α → Option β → Option (Joined α β)
  | none, none => none
  | some a, none => some (.left a)
  | none, some b => some (.right b)
  | some a, some b => some (.both a b)

def Joined.fst : Joined α β → Option α
  | .left a => some a
  | .right _ => none
  | .both a _ => some a

def Joined.snd : Joined α β → Option β
  | .left _ => none
  | .right b => some b
  | .both _ b => some b

variable (f : α → γ) (g : β → γ)

def Joined.rank : Joined α β → γ
  | .left a => f a
  | .right b => g b
  | .both a _ => f a

variable [LinearOrder γ]

def outerJoin : List α → List β → List (Joined α β)
  | [], bs => bs.map .right
  | as, [] => as.map .left
  | a :: as, b :: bs =>
    if f a = g b then .both a b :: outerJoin as bs
    else if f a < g b then .left a :: outerJoin as (b :: bs)
    else .right b :: outerJoin (a :: as) bs
  termination_by as bs => as.length + bs.length

variable {f g}

/-- An element of the join is made of elements of the vectors. -/
def Joined.From (f : α → γ) (g : β → γ) (as : List α) (bs : List β) : Joined α β → Prop
  | .left a => a ∈ as
  | .right b => b ∈ bs
  | .both a b => a ∈ as ∧ b ∈ bs ∧ f a = g b

omit [LinearOrder γ] in
theorem Joined.From.mono {as as' : List α} {bs bs' : List β} {j : Joined α β} (h : j.From f g as bs)
    (ha : as ⊆ as') (hb : bs ⊆ bs') : j.From f g as' bs' := by
  cases j with
  | left a => exact ha h
  | right b => exact hb h
  | both a b => exact ⟨ha h.1, hb h.2.1, h.2.2⟩

/-- Whatever is joined comes from the two lists. -/
theorem from_of_mem_outerJoin (as : List α) (bs : List β) :
    ∀ j ∈ outerJoin f g as bs, j.From f g as bs := by
  induction as, bs using outerJoin.induct f g with
  | case1 bs =>
    rw [outerJoin]
    rintro j hj
    obtain ⟨b, hb, rfl⟩ := List.mem_map.1 hj
    exact hb
  | case2 as hne =>
    have heq : outerJoin f g as [] = as.map .left := by cases as <;> simp [outerJoin]
    rw [heq]
    rintro j hj
    obtain ⟨a, ha, rfl⟩ := List.mem_map.1 hj
    exact ha
  | case3 a as b bs heq ih =>
    rw [outerJoin, if_pos heq]
    rintro j hj
    rcases List.mem_cons.1 hj with rfl | hj
    · exact ⟨List.mem_cons_self, List.mem_cons_self, heq⟩
    · exact (ih j hj).mono (List.subset_cons_self a as) (List.subset_cons_self b bs)
  | case4 a as b bs hne hlt ih =>
    rw [outerJoin, if_neg hne, if_pos hlt]
    rintro j hj
    rcases List.mem_cons.1 hj with rfl | hj
    · exact List.mem_cons_self
    · exact (ih j hj).mono (List.subset_cons_self a as) (List.Subset.refl _)
  | case5 a as b bs hne hlt ih =>
    rw [outerJoin, if_neg hne, if_neg hlt]
    rintro j hj
    rcases List.mem_cons.1 hj with rfl | hj
    · exact List.mem_cons_self
    · exact (ih j hj).mono (List.Subset.refl _) (List.subset_cons_self b bs)

/-- The join has no ranks of its own. -/
theorem rank_mem_outerJoin (as : List α) (bs : List β) :
    ∀ j ∈ outerJoin f g as bs, (∃ a ∈ as, j.rank f g = f a) ∨ ∃ b ∈ bs, j.rank f g = g b := by
  intro j hj
  have hfrom := from_of_mem_outerJoin as bs j hj
  cases j with
  | left a => exact .inl ⟨a, hfrom, rfl⟩
  | right b => exact .inr ⟨b, hfrom, rfl⟩
  | both a b => exact .inl ⟨a, hfrom.1, rfl⟩

/-- The join leaves no rank out. -/
theorem exists_mem_outerJoin {r : γ} (as : List α) (bs : List β) (h : (∃ a ∈ as, f a = r) ∨ ∃ b ∈ bs, g b = r) :
    ∃ j ∈ outerJoin f g as bs, j.rank f g = r := by
  induction as, bs using outerJoin.induct f g with
  | case1 bs =>
    obtain ⟨b, hb, hbr⟩ := h.resolve_left (by simp)
    rw [outerJoin]
    exact ⟨.right b, List.mem_map_of_mem hb, hbr⟩
  | case2 as hne =>
    have heq : outerJoin f g as [] = as.map .left := by cases as <;> simp [outerJoin]
    obtain ⟨a, ha, har⟩ := h.resolve_right (by simp)
    rw [heq]
    exact ⟨.left a, List.mem_map_of_mem ha, har⟩
  | case3 a as b bs heq ih =>
    rw [outerJoin, if_pos heq, List.exists_mem_cons_iff]
    rw [List.exists_mem_cons_iff, List.exists_mem_cons_iff, ← heq] at h
    rcases h with (ha | ha) | hb | hb
    · exact .inl ha
    · exact .inr (ih (.inl ha))
    · exact .inl hb
    · exact .inr (ih (.inr hb))
  | case4 a as b bs hne hlt ih =>
    rw [outerJoin, if_neg hne, if_pos hlt, List.exists_mem_cons_iff]
    rw [List.exists_mem_cons_iff] at h
    rcases h with (ha | ha) | hb
    · exact .inl ha
    · exact .inr (ih (.inl ha))
    · exact .inr (ih (.inr hb))
  | case5 a as b bs hne hlt ih =>
    rw [outerJoin, if_neg hne, if_neg hlt, List.exists_mem_cons_iff]
    rw [@List.exists_mem_cons_iff _ _ b] at h
    rcases h with ha | hb | hb
    · exact .inr (ih (.inl ha))
    · exact .inl hb
    · exact .inr (ih (.inr hb))

/-- **The join is sorted.** -/
theorem sortedBy_outerJoin {as : List α} {bs : List β} (ha : SortedBy f as) (hb : SortedBy g bs) :
    SortedBy (Joined.rank f g) (outerJoin f g as bs) := by
  unfold SortedBy at *
  induction as, bs using outerJoin.induct f g with
  | case1 bs =>
    rw [outerJoin, List.pairwise_map]
    exact hb
  | case2 as hne =>
    have heq : outerJoin f g as [] = as.map .left := by cases as <;> simp [outerJoin]
    rw [heq, List.pairwise_map]
    exact ha
  | case3 a as b bs heq ih =>
    rw [outerJoin, if_pos heq]
    obtain ⟨ha1, ha2⟩ := List.pairwise_cons.1 ha
    obtain ⟨hb1, hb2⟩ := List.pairwise_cons.1 hb
    refine List.pairwise_cons.2 ⟨fun j hj => ?_, ih ha2 hb2⟩
    rcases rank_mem_outerJoin as bs j hj with ⟨x, hx, hr⟩ | ⟨y, hy, hr⟩
    · rw [hr]
      exact ha1 x hx
    · rw [hr]
      exact heq.trans_lt (hb1 y hy)
  | case4 a as b bs hne hlt ih =>
    rw [outerJoin, if_neg hne, if_pos hlt]
    obtain ⟨ha1, ha2⟩ := List.pairwise_cons.1 ha
    refine List.pairwise_cons.2 ⟨fun j hj => ?_, ih ha2 hb⟩
    rcases rank_mem_outerJoin as (b :: bs) j hj with ⟨x, hx, hr⟩ | ⟨y, hy, hr⟩
    · rw [hr]
      exact ha1 x hx
    · rw [hr]
      rcases List.mem_cons.1 hy with rfl | hy
      · exact hlt
      · exact hlt.trans ((List.pairwise_cons.1 hb).1 y hy)
  | case5 a as b bs hne hlt ih =>
    rw [outerJoin, if_neg hne, if_neg hlt]
    have hgt : g b < f a := lt_of_le_of_ne (not_lt.1 hlt) (Ne.symm hne)
    obtain ⟨hb1, hb2⟩ := List.pairwise_cons.1 hb
    refine List.pairwise_cons.2 ⟨fun j hj => ?_, ih ha hb2⟩
    rcases rank_mem_outerJoin (a :: as) bs j hj with ⟨x, hx, hr⟩ | ⟨y, hy, hr⟩
    · rw [hr]
      rcases List.mem_cons.1 hx with rfl | hx
      · exact hgt
      · exact hgt.trans ((List.pairwise_cons.1 ha).1 x hx)
    · rw [hr]
      exact hb1 y hy

section Find

variable {r : γ} {p : γ → Bool}

omit [LinearOrder γ] in
theorem find?_rank_of_eq {l : List α} {a : α} (h : p (f a) = true) :
    (a :: l).find? (fun a => p (f a)) = some a :=
  List.find?_cons_of_pos h

omit [LinearOrder γ] in
theorem find?_rank_of_ne {l : List α} {a : α} (h : ¬ p (f a) = true) :
    (a :: l).find? (fun a => p (f a)) = l.find? fun a => p (f a) :=
  List.find?_cons_of_neg h

/-- A sorted vector has nothing of a rank below the rank of its head. -/
theorem find?_rank_of_lt (hr : ∀ s, p s = true ↔ s = r) {l : List α} {a : α} (hl : SortedBy f (a :: l))
    (h : r < f a) : (a :: l).find? (fun a => p (f a)) = none := by
  refine List.find?_eq_none.2 fun x hx => ?_
  have hlt : r < f x := by
    rcases List.mem_cons.1 hx with rfl | hx
    · exact h
    · exact h.trans ((List.pairwise_cons.1 hl).1 x hx)
  rw [hr]
  exact hlt.ne'

omit [LinearOrder γ] in
/-- A rank that is there is found. -/
theorem exists_find?_rank (hr : ∀ s, p s = true ↔ s = r) {l : List α} (h : ∃ a ∈ l, f a = r) :
    ∃ a, l.find? (fun a => p (f a)) = some a ∧ f a = r := by
  obtain ⟨x, hx, hxr⟩ := h
  have hsome : (l.find? fun a => p (f a)).isSome = true := List.find?_isSome.2 ⟨x, hx, (hr _).2 hxr⟩
  obtain ⟨a, ha⟩ := Option.isSome_iff_exists.1 hsome
  have hp := @List.find?_some _ (fun a => p (f a)) a l ha
  exact ⟨a, ha, (hr _).1 hp⟩

/-- The first element of a rank lacks a side only if the other vector has the rank. -/
theorem exists_find?_outerJoin (hr : ∀ s, p s = true ↔ s = r) {as : List α} {bs : List β}
    (h : (∃ a ∈ as, f a = r) ∨ ∃ b ∈ bs, g b = r) :
    ∃ j, (outerJoin f g as bs).find? (fun j => p (j.rank f g)) = some j ∧
      (j.fst = none → ∃ b ∈ bs, g b = r) ∧ (j.snd = none → ∃ a ∈ as, f a = r) := by
  obtain ⟨j, hj, hjr⟩ := exists_mem_outerJoin as bs h
  obtain ⟨j', hfind, hrank⟩ := exists_find?_rank hr ⟨j, hj, hjr⟩
  have hfrom := from_of_mem_outerJoin as bs j' (List.mem_of_find?_eq_some hfind)
  refine ⟨j', hfind, ?_⟩
  cases j' with
  | left a => exact ⟨fun h => by simp [Joined.fst] at h, fun _ => ⟨a, hfrom, hrank⟩⟩
  | right b => exact ⟨fun _ => ⟨b, hfrom, hrank⟩, fun h => by simp [Joined.snd] at h⟩
  | both a b => exact ⟨fun h => by simp [Joined.fst] at h, fun h => by simp [Joined.snd] at h⟩

/-- **The element of each rank.** -/
theorem find?_outerJoin (hr : ∀ s, p s = true ↔ s = r) {as : List α} {bs : List β} (ha : SortedBy f as)
    (hb : SortedBy g bs) :
    (outerJoin f g as bs).find? (fun j => p (j.rank f g)) =
      Joined.of (as.find? fun a => p (f a)) (bs.find? fun b => p (g b)) := by
  induction as, bs using outerJoin.induct f g with
  | case1 bs =>
    rw [outerJoin, List.find?_map, List.find?_nil]
    change (bs.find? fun b => p (g b)).map Joined.right = _
    cases bs.find? (fun b => p (g b)) <;> rfl
  | case2 as hne =>
    have heq : outerJoin f g as [] = as.map .left := by cases as <;> simp [outerJoin]
    rw [heq, List.find?_map, List.find?_nil]
    change (as.find? fun a => p (f a)).map Joined.left = _
    cases as.find? (fun a => p (f a)) <;> rfl
  | case3 a as b bs heq ih =>
    rw [outerJoin, if_pos heq]
    by_cases hj : p ((Joined.both a b).rank f g) = true
    · have hb' : p (g b) = true := heq ▸ hj
      rw [find?_rank_of_eq hj, find?_rank_of_eq (a := a) hj, find?_rank_of_eq hb']
      rfl
    · have hb' : ¬ p (g b) = true := heq ▸ hj
      rw [find?_rank_of_ne hj, find?_rank_of_ne (a := a) hj, find?_rank_of_ne hb']
      exact ih (List.pairwise_cons.1 ha).2 (List.pairwise_cons.1 hb).2
  | case4 a as b bs hne hlt ih =>
    rw [outerJoin, if_neg hne, if_pos hlt]
    by_cases hj : p ((Joined.left a : Joined α β).rank f g) = true
    · have hfa : f a = r := (hr _).1 hj
      rw [find?_rank_of_eq hj, find?_rank_of_eq (a := a) hj, find?_rank_of_lt hr hb (hfa ▸ hlt)]
      rfl
    · rw [find?_rank_of_ne hj, find?_rank_of_ne (a := a) hj]
      exact ih (List.pairwise_cons.1 ha).2 hb
  | case5 a as b bs hne hlt ih =>
    rw [outerJoin, if_neg hne, if_neg hlt]
    have hgt : g b < f a := lt_of_le_of_ne (not_lt.1 hlt) (Ne.symm hne)
    by_cases hj : p ((Joined.right b : Joined α β).rank f g) = true
    · have hgb : g b = r := (hr _).1 hj
      rw [find?_rank_of_eq hj, find?_rank_of_eq (a := b) hj, find?_rank_of_lt hr ha (hgb ▸ hgt)]
      rfl
    · rw [find?_rank_of_ne hj, find?_rank_of_ne (a := b) hj]
      exact ih ha (List.pairwise_cons.1 hb).2

end Find

/-! ### Vectors that are not sorted

The cursors pass what they have not compared with its like. Whether the two elements of a
rank meet depends on what lies in front of them only. -/

section Unsorted

variable {r : γ}

/-- The first element of rank `r` in `l` has only lower ranks in front of it. -/
def Reaches (f : α → γ) (r : γ) : List α → Prop
  | [] => False
  | a :: l => f a = r ∨ f a < r ∧ Reaches f r l

/-- A search reaches the rank if nothing greater stands in front of it. -/
theorem reaches_iff {p : γ → Bool} (hr : ∀ s, p s = true ↔ s = r) {l : List α} :
    Reaches f r l ↔ (∃ a ∈ l, f a = r) ∧ ∀ w ∈ l.takeWhile (fun w => !p (f w)), f w < r := by
  induction l with
  | nil => simp [Reaches]
  | cons a l ih =>
    rw [Reaches, ih, List.takeWhile_cons]
    by_cases ha : f a = r
    · simp [ha, (hr r).2 rfl]
    · have hp : p (f a) = false := Bool.eq_false_iff.2 fun h => ha ((hr _).1 h)
      simp only [ha, hp, Bool.not_false, if_true, false_or, List.mem_cons, forall_eq_or_imp, exists_eq_or_imp]
      tauto

/-- In a sorted vector nothing is in the way. -/
theorem reaches_of_sortedBy {l : List α} (hl : SortedBy f l) (h : ∃ a ∈ l, f a = r) : Reaches f r l := by
  induction l with
  | nil => simp at h
  | cons a l ih =>
    obtain ⟨hal, hl'⟩ := List.pairwise_cons.1 hl
    obtain ⟨x, hx, rfl⟩ := h
    rcases List.mem_cons.1 hx with rfl | hx
    · exact .inl rfl
    · exact .inr ⟨hal x hx, ih hl' ⟨x, hx, rfl⟩⟩

theorem reaches_cons_of_lt {a : α} {l : List α} (h : f a < r) : Reaches f r (a :: l) ↔ Reaches f r l := by
  rw [Reaches]
  constructor
  · rintro (heq | ⟨-, hl⟩)
    · exact absurd heq h.ne
    · exact hl
  · exact fun hl => .inr ⟨h, hl⟩

theorem not_reaches_of_gt {a : α} {l : List α} (h : r < f a) : ¬ Reaches f r (a :: l) := by
  rintro (heq | ⟨hlt, -⟩)
  · exact h.ne' heq
  · exact h.not_gt hlt

theorem exists_of_reaches {l : List α} (h : Reaches f r l) : ∃ a ∈ l, f a = r :=
  ((reaches_iff fun _ => decide_eq_true_iff).1 h).1

/-- **The first element of a rank** has the sides whose vectors reach the rank. -/
theorem find?_outerJoin_of_reaches {p : γ → Bool} (hr : ∀ s, p s = true ↔ s = r) {as : List α} {bs : List β}
    (h : Reaches f r as ∨ Reaches g r bs) :
    ∃ j, (outerJoin f g as bs).find? (fun j => p (j.rank f g)) = some j ∧
      (j.fst.isSome ↔ Reaches f r as) ∧ (j.snd.isSome ↔ Reaches g r bs) := by
  induction as, bs using outerJoin.induct f g with
  | case1 bs =>
    have hb : Reaches g r bs := h.resolve_left id
    obtain ⟨b, hfind, -⟩ := exists_find?_rank hr (exists_of_reaches hb)
    refine ⟨.right b, ?_, by simp [Joined.fst, Reaches], by simpa [Joined.snd] using hb⟩
    rw [outerJoin, List.find?_map]
    exact congrArg (Option.map Joined.right) hfind
  | case2 as hne =>
    have heq : outerJoin f g as [] = as.map .left := by cases as <;> simp [outerJoin]
    have ha : Reaches f r as := h.resolve_right id
    obtain ⟨a, hfind, -⟩ := exists_find?_rank hr (exists_of_reaches ha)
    refine ⟨.left a, ?_, by simpa [Joined.fst] using ha, by simp [Joined.snd, Reaches]⟩
    rw [heq, List.find?_map]
    exact congrArg (Option.map Joined.left) hfind
  | case3 a as b bs heq ih =>
    rw [outerJoin, if_pos heq]
    rcases lt_trichotomy (f a) r with hlt | hfa | hgt
    · have hne : ¬ p ((Joined.both a b).rank f g) = true := fun hp => hlt.ne ((hr _).1 hp)
      rw [reaches_cons_of_lt hlt, reaches_cons_of_lt (heq ▸ hlt)] at h ⊢
      rw [find?_rank_of_ne hne]
      exact ih h
    · refine ⟨.both a b, find?_rank_of_eq ((hr _).2 hfa), ?_, ?_⟩
      · simp [Joined.fst, Reaches, hfa]
      · simp [Joined.snd, Reaches, ← heq, hfa]
    · exact absurd h (not_or.2 ⟨not_reaches_of_gt hgt, not_reaches_of_gt (heq ▸ hgt)⟩)
  | case4 a as b bs hne hlt ih =>
    rw [outerJoin, if_neg hne, if_pos hlt]
    rcases lt_trichotomy (f a) r with hfa | hfa | hfa
    · have hne' : ¬ p ((Joined.left a : Joined α β).rank f g) = true := fun hp => hfa.ne ((hr _).1 hp)
      rw [reaches_cons_of_lt hfa] at h ⊢
      rw [find?_rank_of_ne hne']
      exact ih h
    · have hb : ¬ Reaches g r (b :: bs) := not_reaches_of_gt (hfa ▸ hlt)
      refine ⟨.left a, find?_rank_of_eq ((hr _).2 hfa), ?_, ?_⟩
      · simp [Joined.fst, Reaches, hfa]
      · simp [Joined.snd, hb]
    · exact absurd h (not_or.2 ⟨not_reaches_of_gt hfa, not_reaches_of_gt (hfa.trans hlt)⟩)
  | case5 a as b bs hne hlt ih =>
    have hgt : g b < f a := lt_of_le_of_ne (not_lt.1 hlt) (Ne.symm hne)
    rw [outerJoin, if_neg hne, if_neg hlt]
    rcases lt_trichotomy (g b) r with hgb | hgb | hgb
    · have hne' : ¬ p ((Joined.right b : Joined α β).rank f g) = true := fun hp => hgb.ne ((hr _).1 hp)
      rw [reaches_cons_of_lt hgb] at h ⊢
      rw [find?_rank_of_ne hne']
      exact ih h
    · have ha : ¬ Reaches f r (a :: as) := not_reaches_of_gt (hgb ▸ hgt)
      refine ⟨.right b, find?_rank_of_eq ((hr _).2 hgb), ?_, ?_⟩
      · simp [Joined.fst, ha]
      · simp [Joined.snd, Reaches, hgb]
    · exact absurd h (not_or.2 ⟨not_reaches_of_gt (hgb.trans hgt), not_reaches_of_gt hgb⟩)

end Unsorted

end Lib
