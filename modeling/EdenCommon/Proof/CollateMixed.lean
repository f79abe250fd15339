import EdenCommon.Proof.CollatePathMaps

/-!
# `collatePathMaps` of maps that do not agree

The maps are compared without regard to case, though one is sorted with it. The first entry
that the loops emplace for a key stays (`mem_collated_iff`), with the sides that have come to
the key by then (`sides_of_reaches`). Where a greater key stands in the way on one side, the
other goes on alone, and the entry that is emplaced behind it is swallowed. So a key that both
maps have keeps its sides iff nothing is in its way (`collatePathMaps_mixed_iff`).
-/

namespace EdenCommon

open Lib

variable {K A B V : Type} [PathPiece K] {P : Platform} {cs : CaseSensitivity} {fold : UInt8 → UInt8 → Bool}

/-- Nothing in front of a key is nothing in the way of its rank. -/
theorem reaches_iff_lessInFront (hfold : FoldsAscii fold) {entries : List (K × V)} {x : K × V} (hx : x ∈ entries) :
    Reaches (rank P cs) (rank P cs x) entries ↔ LessInFront fold P cs entries x.1 := by
  rw [reaches_iff (p := fun s => decide (s = rank P cs x)) fun s => decide_eq_true_iff,
    and_iff_right ⟨x, hx, rfl⟩]
  unfold LessInFront
  have hcut : (fun w : K × V => !isPathPieceEqual fold P cs w.1 x.1) =
      fun w => !decide (rank P cs w = rank P cs x) := by
    funext w
    exact congrArg Bool.not (congrFun (isPathPieceEqual_eq_decide hfold x) w)
  rw [hcut]
  refine forall₂_congr fun w _ => ?_
  exact (isPathPieceLess_iff w.1 x.1).symm

/-- **The result** has the first entries that the loops emplace. -/
theorem mem_collated_iff (hfold : FoldsAscii fold) (as : List (K × A)) (bs : List (K × B))
    (e : K × (Option A × Option B)) :
    e ∈ (RawPathMap.collateBoth fold P cs (.new cs) as bs).vec ↔
      ((outerJoin (rank P cs) (rank P cs) as bs).find? fun j =>
        decide (j.rank (rank P cs) (rank P cs) = rank P cs e)).map joinedEntry = some e := by
  have href := refines_inserts P cs (joinedEntries P cs as bs)
  have hst := href.stores (rank P cs e) e
  rw [RawPathMap.collateBoth_eq hfold]
  have hcs : (RawPathMap.insertAll P (.new cs) (joinedEntries P cs as bs)).compare_ = cs := href.compare_eq
  unfold RawPathMap.insertAll at hcs ⊢
  rw [hcs, mem_live_empty, and_iff_left rfl] at hst
  rw [← hst, ← find?_joinedEntries_eq]
  rfl

/-- An entry of the map that the walk reaches has its side, and the other side iff the walk
reaches that as well. -/
theorem sides_of_reaches (hfold : FoldsAscii fold) {as : List (K × A)} {bs : List (K × B)} {k : List (List ℤ)}
    (h : Reaches (rank P cs) k as ∨ Reaches (rank P cs) k bs) {e : K × (Option A × Option B)}
    (he : e ∈ (RawPathMap.collateBoth fold P cs (.new cs) as bs).vec) (hk : rank P cs e = k) :
    (e.2.1.isSome ↔ Reaches (rank P cs) k as) ∧ (e.2.2.isSome ↔ Reaches (rank P cs) k bs) := by
  obtain ⟨j, hfind, h1, h2⟩ := find?_outerJoin_of_reaches (p := fun s => decide (s = k))
    (fun s => decide_eq_true_iff) h
  rw [mem_collated_iff hfold, hk, hfind] at he
  obtain rfl : joinedEntry j = e := Option.some.inj he
  rw [← h1, ← h2]
  cases j <;> exact ⟨Iff.rfl, Iff.rfl⟩

/-- Every key has an entry, which lacks a side only where the other map has the key. -/
theorem exists_mem_collated (hfold : FoldsAscii fold) {as : List (K × A)} {bs : List (K × B)} {k : List (List ℤ)}
    (h : (∃ a ∈ as, rank P cs a = k) ∨ ∃ b ∈ bs, rank P cs b = k) :
    ∃ e ∈ (RawPathMap.collateBoth fold P cs (.new cs) as bs).vec, rank P cs e = k ∧
      (e.2.1 = none → ∃ b ∈ bs, rank P cs b = k) ∧ (e.2.2 = none → ∃ a ∈ as, rank P cs a = k) := by
  obtain ⟨j, hfind, h1, h2⟩ := exists_find?_outerJoin (p := fun s => decide (s = k))
    (fun s => decide_eq_true_iff) h
  have hrank : rank P cs (joinedEntry j) = k := by
    rw [rank_joinedEntry]
    simpa using List.find?_some hfind
  refine ⟨joinedEntry j, ?_, hrank, ?_⟩
  · rw [mem_collated_iff hfold, hrank, hfind]
    rfl
  · cases j with
    | left a => exact ⟨fun h => by simp [joinedEntry] at h, fun _ => h2 rfl⟩
    | right b => exact ⟨fun _ => h1 rfl, fun h => by simp [joinedEntry] at h⟩
    | both a b => exact ⟨fun h => by simp [joinedEntry] at h, fun h => by simp [joinedEntry] at h⟩

/-- **The sides that are kept**, of two walks one of which comes to every key. -/
theorem keepsSides_iff (hfold : FoldsAscii fold) {as : List (K × A)} {bs : List (K × B)}
    (h : SortedBy (rank P cs) as ∨ SortedBy (rank P cs) bs) :
    KeepsSides fold P cs as bs (RawPathMap.collateBoth fold P cs (.new cs) as bs).vec ↔
      ∀ x ∈ as, ∀ y ∈ bs, rank P cs x = rank P cs y →
        Reaches (rank P cs) (rank P cs x) as ∧ Reaches (rank P cs) (rank P cs x) bs := by
  have hequal : ∀ {W : Type} (e : K × (Option A × Option B)) (x : K × W),
      isPathPieceEqual fold P cs e.1 x.1 = true ↔ rank P cs e = rank P cs x :=
    fun e x => isPathPieceEqual_iff hfold e.1 x.1
  constructor
  · rintro ⟨hleft, hright⟩ x hx y hy hxy
    have hone : Reaches (rank P cs) (rank P cs x) as ∨ Reaches (rank P cs) (rank P cs x) bs :=
      h.imp (fun h => reaches_of_sortedBy h ⟨x, hx, rfl⟩) fun h => reaches_of_sortedBy h ⟨y, hy, hxy.symm⟩
    obtain ⟨e, he, hex, h1⟩ := hleft x hx
    obtain ⟨e', he', hey, h2⟩ := hright y hy
    have hside := sides_of_reaches hfold hone he ((hequal e x).1 hex)
    have hside' := sides_of_reaches hfold hone he' (((hequal e' y).1 hey).trans hxy.symm)
    exact ⟨hside.1.1 h1, hside'.2.1 h2⟩
  · intro hboth
    constructor
    · intro x hx
      obtain ⟨e, he, hk, hlack, -⟩ := exists_mem_collated hfold (.inl ⟨x, hx, rfl⟩)
      refine ⟨e, he, (hequal e x).2 hk, ?_⟩
      by_contra hno
      obtain ⟨y, hy, hyx⟩ := hlack (Option.not_isSome_iff_eq_none.1 hno)
      have hr := hboth x hx y hy hyx.symm
      exact hno ((sides_of_reaches hfold (.inl hr.1) he hk).1.2 hr.1)
    · intro y hy
      obtain ⟨e, he, hk, -, hlack⟩ := exists_mem_collated hfold (.inr ⟨y, hy, rfl⟩)
      refine ⟨e, he, (hequal e y).2 hk, ?_⟩
      by_contra hno
      obtain ⟨x, hx, hxy⟩ := hlack (Option.not_isSome_iff_eq_none.1 hno)
      have hr := hboth x hx y hy hxy
      exact hno ((sides_of_reaches hfold (.inr hr.2) he (hk.trans hxy.symm)).2.2 hr.2)

theorem collatePathMaps_of_ne {a : RawPathMap K A} {b : RawPathMap K B} (h : a.compare_ ≠ b.compare_) :
    RawPathMap.collatePathMaps fold P a b =
      RawPathMap.collateBoth fold P .insensitive (.new .insensitive) a.vec b.vec := by
  unfold RawPathMap.collatePathMaps
  rw [if_neg h]

/-- **Collating maps that do not agree** keeps the sides of all keys iff nothing is in the way
of a key that both have: in each map the keys in front of the first one equal to it without
regard to case are less than it. Else the side of the map with the greater key in front is lost. -/
theorem collatePathMaps_mixed_iff (hfold : FoldsAscii fold) {csa csb : CaseSensitivity} (hcs : csa ≠ csb)
    (a : PathMap P csa K A) (b : PathMap P csb K B) :
    let m := RawPathMap.collatePathMaps fold P a.raw b.raw
    m.compare_ = .insensitive ∧
      (KeepsSides fold P .insensitive a.entries b.entries m.vec ↔
        ∀ x ∈ a.entries, ∀ y ∈ b.entries, isPathPieceEqual fold P .insensitive x.1 y.1 →
          LessInFront fold P .insensitive a.entries x.1 ∧ LessInFront fold P .insensitive b.entries y.1) := by
  intro m
  have hm : m = RawPathMap.collateBoth fold P .insensitive (.new .insensitive) a.entries b.entries :=
    collatePathMaps_of_ne hcs
  have hsorted : SortedBy (rank P .insensitive) a.entries ∨ SortedBy (rank P .insensitive) b.entries := by
    cases csa with
    | insensitive => exact .inl (pairwise_iff_sortedBy.1 a.sorted)
    | sensitive =>
      cases csb with
      | insensitive => exact .inr (pairwise_iff_sortedBy.1 b.sorted)
      | sensitive => exact absurd rfl hcs
  constructor
  · rw [hm, RawPathMap.collateBoth_eq hfold]
    exact (refines_inserts P .insensitive (joinedEntries P .insensitive a.entries b.entries)).compare_eq
  · rw [hm, keepsSides_iff hfold hsorted]
    refine forall₂_congr fun x hx => forall₂_congr fun y hy => ?_
    rw [isPathPieceEqual_iff hfold]
    refine imp_congr_right fun hxy => ?_
    have hrank : rank P .insensitive x = rank P .insensitive y := hxy
    rw [reaches_iff_lessInFront hfold hx, hrank, reaches_iff_lessInFront hfold hy]

/-- `"A"` before `"b"` in both orders: the common key keeps both sides. -/
theorem collatePathMaps_mixed_letters :
    let fold : UInt8 → UInt8 → Bool := fun x y => decide (x = y ∨ SameLetter x y)
    let a : RawPathMap PathComponent ℕ := ⟨[(⟨[0x41]⟩, 1), (⟨[0x62]⟩, 2)], .sensitive⟩
    let b : RawPathMap PathComponent Bool := ⟨[(⟨[0x61]⟩, true)], .insensitive⟩
    KeepsSides fold .posix .insensitive a.vec b.vec (RawPathMap.collatePathMaps fold .posix a b).vec := by
  intro fold a b
  have h := collatePathMaps_mixed_iff (fun x y => decide_eq_true_iff) (by decide)
    (⟨a.vec, by decide⟩ : PathMap .posix .sensitive PathComponent ℕ)
    (⟨b.vec, by decide⟩ : PathMap .posix .insensitive PathComponent Bool)
  refine h.2.2 ?_
  unfold LessInFront
  decide

/-- `"B"` and `"a"` of the sensitive map, `"a"` and `"b"` of the other. `"B"` is in the way of
`"a"`, whose entry from the other map is emplaced first and swallows it. -/
theorem collatePathMaps_mixed_swallows :
    let fold : UInt8 → UInt8 → Bool := fun x y => decide (x = y ∨ SameLetter x y)
    let a : PathMap .posix .sensitive PathComponent ℕ := ⟨[(⟨[0x42]⟩, 1), (⟨[0x61]⟩, 2)], by decide⟩
    let b : PathMap .posix .insensitive PathComponent Bool := ⟨[(⟨[0x61]⟩, true), (⟨[0x62]⟩, false)], by decide⟩
    ¬ KeepsSides fold .posix .insensitive a.entries b.entries
      (RawPathMap.collatePathMaps fold .posix a.raw b.raw).vec := by
  intro fold a b
  have hfold : FoldsAscii fold := fun x y => decide_eq_true_iff
  rw [collatePathMaps_of_ne (by decide)]
  intro h
  have hsorted := pairwise_iff_sortedBy.1 b.sorted
  have hreach := (keepsSides_iff hfold (.inr hsorted)).1 h (⟨[0x61]⟩, 2) (by decide) (⟨[0x61]⟩, true) (by decide) rfl
  have hfront := (reaches_iff_lessInFront hfold (by decide)).1 hreach.1
  exact absurd (hfront (⟨[0x42]⟩, 1) (by decide)) (by decide)

end EdenCommon
