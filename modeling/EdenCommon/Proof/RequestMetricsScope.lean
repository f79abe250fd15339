import EdenCommon.Lib.Run
import EdenCommon.Spec.RequestMetricsScope
import Mathlib.Data.List.Nodup
import Mathlib.Data.Set.Card

/-!
# Watches and scopes

Every attached scope has a watch of its own in its list, and no iterator is erased twice,
whatever is done to the scopes (`Inv`). A watch that no live scope is attached by has leaked
(`Sys.leaked`): it stays. The only operation that leaks a watch is a move assignment to
another scope that is attached; it drops the iterator of the watch that this scope owned
(`leaked_step`).

* `Inv.move`, `Inv.release`: a move hands the watch over, and a scope that is reset or
  destroyed erases its own.
* `Inv.oneToOne_iff`: scopes and watches correspond exactly if nothing has leaked.
* `watches_oneToOne_iff`: so they do in every run without such a move assignment, and in no
  other.
-/

namespace EdenCommon

namespace RequestMetricsScope

open Lib

variable {ScopeId ListId : Type} [DecidableEq ScopeId] [DecidableEq ListId] {s s' : Sys ScopeId ListId}
  {a b that : ScopeId} {list : ListId} {watch : ℕ} {scope : Scope ListId}

/-- The watches in each list that no live scope is attached by. -/
def Sys.leaked (s : Sys ScopeId ListId) : Set (ListId × ℕ) :=
  {x | x.2 ∈ s.watches x.1 ∧ ∀ a, ¬ s.Attached a x.1 x.2}

/-- What is wanted: in each list the watches correspond one-to-one to the live scopes
attached to it, so that they are as many, and no iterator has been erased twice. -/
structure Sys.OneToOne (s : Sys ScopeId ListId) : Prop where
  attached : ∀ a list watch, s.Attached a list watch → watch ∈ s.watches list
  one_scope : ∀ list watch, watch ∈ s.watches list → ∃! a, s.Attached a list watch
  nodup : ∀ list, (s.watches list).Nodup
  pending : ∀ list, s.pending list = (s.attachedTo list).ncard
  erased : s.erased.Nodup

structure Inv (s : Sys ScopeId ListId) : Prop where
  attached : ∀ a list watch, s.Attached a list watch → watch ∈ s.watches list
  inj : ∀ a b list list' watch, s.Attached a list watch → s.Attached b list' watch → a = b
  nodup : ∀ list, (s.watches list).Nodup
  lt : ∀ list, ∀ watch ∈ s.watches list, watch < s.nextWatch
  one_list : ∀ list list' watch, watch ∈ s.watches list → watch ∈ s.watches list' → list = list'
  erased_nodup : s.erased.Nodup
  erased : ∀ watch ∈ s.erased, watch < s.nextWatch ∧ ∀ list, watch ∉ s.watches list

omit [DecidableEq ScopeId] [DecidableEq ListId] in
/-- At first there are no watches. -/
theorem inv_start : Inv (start : Sys ScopeId ListId) where
  attached := nofun
  inj := nofun
  nodup := fun _ => List.nodup_nil
  lt := nofun
  one_list := nofun
  erased_nodup := List.nodup_nil
  erased := nofun

omit [DecidableEq ListId] in
/-- A scope is attached as it was last set. -/
theorem attached_setScope {x : Option (Scope ListId)} :
    (s.setScope a x).Attached b list watch ↔
      (b = a ∧ x = some ⟨some list, watch⟩) ∨ (b ≠ a ∧ s.Attached b list watch) := by
  unfold Sys.Attached Sys.setScope
  by_cases hb : b = a
  · subst hb
    simp
  · simp [hb]

omit [DecidableEq ListId] in
/-- A scope that is moved from, and one that takes what it had. -/
theorem attached_move (hthat : s.scopes that = some scope) :
    (s.move a that scope).Attached b list watch ↔
      (b = a ∧ s.Attached that list watch) ∨ (b ≠ a ∧ b ≠ that ∧ s.Attached b list watch) := by
  unfold Sys.move
  rw [attached_setScope, attached_setScope]
  have hscope : some scope = some ⟨some list, watch⟩ ↔ s.Attached that list watch := by
    unfold Sys.Attached
    rw [hthat]
  rw [hscope]
  simp

omit [DecidableEq ScopeId] in
/-- A new watch is in its list. -/
theorem mem_watches_insert {list' : ListId} :
    watch ∈ (s.insert list).watches list' ↔ watch ∈ s.watches list' ∨ (list' = list ∧ watch = s.nextWatch) := by
  unfold Sys.insert
  by_cases hl : list' = list
  · subst hl
    simp
  · simp [hl]

omit [DecidableEq ScopeId] in
/-- A watch that is erased is in no list. -/
theorem Inv.mem_watches_erase (hinv : Inv s) {list' : ListId} {watch' : ℕ} (hw : watch ∈ s.watches list) :
    watch' ∈ (s.erase list watch).watches list' ↔ watch' ∈ s.watches list' ∧ watch' ≠ watch := by
  unfold Sys.erase
  by_cases hl : list' = list
  · subst hl
    simp only [Function.update_self]
    rw [(hinv.nodup list').mem_erase_iff]
    exact and_comm
  · simp only [Function.update_of_ne hl]
    refine ⟨fun h => ⟨h, ?_⟩, fun h => h.1⟩
    rintro rfl
    -- the watch would be in two lists
    exact hl (hinv.one_list _ _ _ h hw)

/-! ### The operations keep the invariant -/

omit [DecidableEq ListId] in
/-- Scopes that own no watch that they did not own. -/
theorem Inv.setScope (hinv : Inv s) {x : Option (Scope ListId)}
    (hx : ∀ list watch, x = some ⟨some list, watch⟩ →
      watch ∈ s.watches list ∧ ∀ b list', b ≠ a → ¬ s.Attached b list' watch) : Inv (s.setScope a x) where
  attached := by
    intro b list watch hb
    obtain ⟨rfl, hx'⟩ | ⟨-, hb⟩ := attached_setScope.1 hb
    · exact (hx list watch hx').1
    · exact hinv.attached b list watch hb
  inj := by
    intro b c list list' watch hb hc
    rcases attached_setScope.1 hb with ⟨hba, hb'⟩ | ⟨hba, hb'⟩ <;>
      rcases attached_setScope.1 hc with ⟨hca, hc'⟩ | ⟨hca, hc'⟩
    · exact hba.trans hca.symm
    · exact absurd hc' ((hx list watch hb').2 c list' hca)
    · exact absurd hb' ((hx list' watch hc').2 b list hba)
    · exact hinv.inj b c list list' watch hb' hc'
  nodup := hinv.nodup
  lt := hinv.lt
  one_list := hinv.one_list
  erased_nodup := hinv.erased_nodup
  erased := hinv.erased

omit [DecidableEq ListId] in
/-- A scope that is attached to nothing any more. -/
theorem Inv.detach (hinv : Inv s) {x : Option (Scope ListId)}
    (hx : ∀ y, x = some y → y.pendingRequestWatches_ = none) : Inv (s.setScope a x) := by
  refine hinv.setScope fun list watch h => ?_
  cases hx _ h

omit [DecidableEq ScopeId] in
theorem Inv.insert (hinv : Inv s) (list : ListId) : Inv (s.insert list) where
  attached := fun a list' watch ha => mem_watches_insert.2 (.inl (hinv.attached a list' watch ha))
  inj := hinv.inj
  nodup := by
    intro list'
    unfold Sys.insert
    by_cases hl : list' = list
    · subst hl
      simp only [Function.update_self]
      refine List.nodup_append.2 ⟨hinv.nodup list', by simp, ?_⟩
      rintro x hx y hy rfl
      obtain rfl := List.mem_singleton.1 hy
      exact absurd (hinv.lt list' _ hx) (lt_irrefl _)
    · simp only [Function.update_of_ne hl]
      exact hinv.nodup list'
  lt := by
    intro list' watch hw
    obtain hw | ⟨-, rfl⟩ := mem_watches_insert.1 hw
    · exact Nat.lt_succ_of_lt (hinv.lt list' watch hw)
    · exact Nat.lt_succ_self _
  one_list := by
    intro l l' watch h h'
    rcases mem_watches_insert.1 h with hl | ⟨hl, hw⟩ <;> rcases mem_watches_insert.1 h' with hl' | ⟨hl', hw'⟩
    · exact hinv.one_list l l' watch hl hl'
    · exact absurd (hinv.lt l watch hl) hw'.not_lt
    · exact absurd (hinv.lt l' watch hl') hw.not_lt
    · exact hl.trans hl'.symm
  erased_nodup := hinv.erased_nodup
  erased := by
    intro watch hw
    obtain ⟨hlt, hnot⟩ := hinv.erased watch hw
    refine ⟨Nat.lt_succ_of_lt hlt, fun l h => ?_⟩
    obtain h | ⟨-, rfl⟩ := mem_watches_insert.1 h
    · exact hnot l h
    · exact absurd hlt (lt_irrefl _)

omit [DecidableEq ScopeId] in
/-- A watch by which no scope is attached any more is erased. -/
theorem Inv.erase (hinv : Inv s) (hw : watch ∈ s.watches list) (hfree : ∀ a l, ¬ s.Attached a l watch) :
    Inv (s.erase list watch) where
  attached := by
    intro a l w ha
    refine (hinv.mem_watches_erase hw).2 ⟨hinv.attached a l w ha, ?_⟩
    rintro rfl
    exact hfree a l ha
  inj := hinv.inj
  nodup := by
    intro l
    unfold Sys.erase
    by_cases hl : l = list
    · subst hl
      simp only [Function.update_self]
      exact (hinv.nodup l).erase watch
    · simp only [Function.update_of_ne hl]
      exact hinv.nodup l
  lt := fun l w h => hinv.lt l w ((hinv.mem_watches_erase hw).1 h).1
  one_list := fun l l' w h h' =>
    hinv.one_list l l' w ((hinv.mem_watches_erase hw).1 h).1 ((hinv.mem_watches_erase hw).1 h').1
  erased_nodup := by
    refine List.nodup_append.2 ⟨hinv.erased_nodup, by simp, ?_⟩
    rintro x hx y hy rfl
    obtain rfl := List.mem_singleton.1 hy
    exact (hinv.erased _ hx).2 list hw
  erased := by
    intro w h
    rcases List.mem_append.1 h with hold | hnew
    · exact ⟨(hinv.erased w hold).1, fun l hl => (hinv.erased w hold).2 l ((hinv.mem_watches_erase hw).1 hl).1⟩
    · obtain rfl := List.mem_singleton.1 hnew
      exact ⟨hinv.lt list _ hw, fun l hl => ((hinv.mem_watches_erase hw).1 hl).2 rfl⟩

/-- A scope that is reset or destroyed. -/
theorem Inv.release (hinv : Inv s) (ha : s.scopes a = some scope) {x : Option (Scope ListId)}
    (hx : ∀ y, x = some y → y.pendingRequestWatches_ = none) : Inv ((s.release scope).setScope a x) := by
  obtain ⟨l, w⟩ := scope
  cases l with
  | none => exact hinv.detach hx
  | some l =>
    have hdet : Inv (s.setScope a x) := hinv.detach hx
    refine hdet.erase (hinv.attached a l w ha) fun b l' hb => ?_
    rcases attached_setScope.1 hb with ⟨-, hself⟩ | ⟨hne, hother⟩
    · cases hx _ hself
    -- the scope was the only one attached by the watch
    · exact hne (hinv.inj b a l' l w hother ha)

omit [DecidableEq ListId] in
/-- **A move** hands the watch over. -/
theorem Inv.move (hinv : Inv s) (hthat : s.scopes that = some scope) : Inv (s.move a that scope) := by
  have hdet : Inv (s.setScope that (some { scope with pendingRequestWatches_ := none })) :=
    hinv.detach fun y hy => by rw [← Option.some.inj hy]
  refine hdet.setScope fun list watch hscope => ?_
  have hatt : s.Attached that list watch := hthat.trans hscope
  refine ⟨hinv.attached that list watch hatt, fun b list' _ hb => ?_⟩
  rcases attached_setScope.1 hb with ⟨-, hself⟩ | ⟨hne, hother⟩
  · cases hself
  · exact hne (hinv.inj b that list' list watch hother hatt)

theorem Inv.constructOn (hinv : Inv s) (list : ListId) :
    Inv ((s.insert list).setScope a (some ⟨some list, s.nextWatch⟩)) := by
  refine (hinv.insert list).setScope fun list' watch h => ?_
  obtain ⟨rfl, rfl⟩ : list = list' ∧ s.nextWatch = watch := by simpa using h
  refine ⟨mem_watches_insert.2 (.inr ⟨rfl, rfl⟩), fun b l _ hb => ?_⟩
  exact absurd (hinv.lt l _ (hinv.attached b l _ hb)) (lt_irrefl _)

/-- The operations, with the scopes that they are on. -/
theorem step_cases {op : Op ScopeId ListId} (h : step s op = some s') :
    (∃ a, op = .construct a ∧ s.scopes a = none ∧ s' = s.setScope a (some ⟨none, 0⟩)) ∨
    (∃ a list, op = .constructOn a list ∧ s.scopes a = none ∧
      s' = (s.insert list).setScope a (some ⟨some list, s.nextWatch⟩)) ∨
    (∃ a that scope, op = .moveConstruct a that ∧ s.scopes a = none ∧ s.scopes that = some scope ∧
      s' = s.move a that scope) ∨
    (∃ a that scope, op = .moveAssign a that ∧ s.scopes that = some scope ∧ s' = s.move a that scope) ∨
    (∃ a scope x, (op = .reset a ∨ op = .destroy a) ∧ s.scopes a = some scope ∧
      (∀ y, x = some y → y.pendingRequestWatches_ = none) ∧ s' = (s.release scope).setScope a x) := by
  cases op with
  | construct a =>
    simp only [step] at h
    split at h
    · exact .inl ⟨a, rfl, ‹_›, (Option.some.inj h).symm⟩
    · cases h
  | constructOn a list =>
    simp only [step] at h
    split at h
    · exact .inr (.inl ⟨a, list, rfl, ‹_›, (Option.some.inj h).symm⟩)
    · cases h
  | moveConstruct a that =>
    simp only [step] at h
    split at h
    · exact .inr (.inr (.inl ⟨a, that, _, rfl, ‹_›, ‹_›, (Option.some.inj h).symm⟩))
    · cases h
  | moveAssign a that =>
    simp only [step] at h
    split at h
    · exact .inr (.inr (.inr (.inl ⟨a, that, _, rfl, ‹_›, (Option.some.inj h).symm⟩)))
    · cases h
  | reset a =>
    simp only [step] at h
    split at h
    · refine .inr (.inr (.inr (.inr ⟨a, _, _, .inl rfl, ‹_›, fun y hy => ?_, (Option.some.inj h).symm⟩)))
      rw [← Option.some.inj hy]
    · cases h
  | destroy a =>
    simp only [step] at h
    split at h
    · exact .inr (.inr (.inr (.inr ⟨a, _, none, .inr rfl, ‹_›, nofun, (Option.some.inj h).symm⟩)))
    · cases h

/-- Every step keeps the invariant. -/
theorem Inv.step (hinv : Inv s) {op : Op ScopeId ListId} (h : step s op = some s') : Inv s' := by
  obtain ⟨a, -, -, rfl⟩ | ⟨a, list, -, -, rfl⟩ | ⟨a, that, scope, -, -, hthat, rfl⟩ | ⟨a, that, scope, -, hthat, rfl⟩ |
    ⟨a, scope, x, -, ha, hx, rfl⟩ := step_cases h
  · exact hinv.detach fun y hy => by rw [← Option.some.inj hy]
  · exact hinv.constructOn list
  · exact hinv.move hthat
  · exact hinv.move hthat
  · exact hinv.release ha hx

/-! ### Leaks -/

/-- The watch whose iterator an operation overwrites. -/
def Sys.lost (s : Sys ScopeId ListId) : Op ScopeId ListId → Set (ListId × ℕ)
  | .moveAssign a that => {x | a ≠ that ∧ s.Attached a x.1 x.2}
  | _ => ∅

omit [DecidableEq ListId] in
theorem leaked_setScope (ha : ∀ list watch, ¬ s.Attached a list watch) {x : Option (Scope ListId)}
    (hx : ∀ y, x = some y → y.pendingRequestWatches_ = none) : (s.setScope a x).leaked = s.leaked := by
  ext ⟨list, watch⟩
  have hiff : ∀ b, (s.setScope a x).Attached b list watch ↔ s.Attached b list watch := by
    intro b
    rw [attached_setScope]
    constructor
    · rintro (⟨-, h⟩ | ⟨-, h⟩)
      · cases hx _ h
      · exact h
    · intro h
      exact .inr ⟨fun hb => ha list watch (hb ▸ h), h⟩
  simp only [Sys.leaked, Set.mem_ofPred_eq, hiff]
  rfl

theorem leaked_constructOn (hinv : Inv s) (ha : s.scopes a = none) :
    ((s.insert list).setScope a (some ⟨some list, s.nextWatch⟩)).leaked = s.leaked := by
  ext ⟨l, w⟩
  have hmem : w ∈ ((s.insert list).setScope a (some ⟨some list, s.nextWatch⟩)).watches l ↔
      w ∈ s.watches l ∨ (l = list ∧ w = s.nextWatch) := mem_watches_insert
  have hatt : ∀ b, ((s.insert list).setScope a (some ⟨some list, s.nextWatch⟩)).Attached b l w ↔
      (b = a ∧ l = list ∧ w = s.nextWatch) ∨ s.Attached b l w := by
    intro b
    rw [attached_setScope]
    constructor
    · rintro (⟨rfl, h⟩ | ⟨-, h⟩)
      · obtain ⟨rfl, rfl⟩ : list = l ∧ s.nextWatch = w := by simpa using h
        exact .inl ⟨rfl, rfl, rfl⟩
      · exact .inr h
    · rintro (⟨rfl, rfl, rfl⟩ | h)
      · exact .inl ⟨rfl, rfl⟩
      · refine .inr ⟨?_, h⟩
        rintro rfl
        rw [Sys.Attached, ha] at h
        cases h
  simp only [Sys.leaked, Set.mem_ofPred_eq, hmem, hatt]
  constructor
  · rintro ⟨hw | hw, hfree⟩
    · exact ⟨hw, fun b hb => hfree b (.inr hb)⟩
    · exact absurd (.inl ⟨rfl, hw⟩) (hfree a)
  · rintro ⟨hw, hfree⟩
    refine ⟨.inl hw, fun b hb => ?_⟩
    obtain ⟨-, -, rfl⟩ | hb := hb
    · exact absurd (hinv.lt l _ hw) (lt_irrefl _)
    · exact hfree b hb

omit [DecidableEq ListId] in
/-- **A move assignment** loses the watch of its target, if that had one. -/
theorem leaked_move (hinv : Inv s) (hthat : s.scopes that = some scope) :
    (s.move a that scope).leaked = s.leaked ∪ {x | a ≠ that ∧ s.Attached a x.1 x.2} := by
  ext ⟨l, w⟩
  have hmem : w ∈ (s.move a that scope).watches l ↔ w ∈ s.watches l := Iff.rfl
  simp only [Sys.leaked, Set.mem_ofPred_eq, Set.mem_union, hmem, attached_move hthat]
  constructor
  · rintro ⟨hw, hfree⟩
    by_cases hlost : a ≠ that ∧ s.Attached a l w
    -- a watch without a scope behind the move had none before, or it was `a`'s
    · exact .inr hlost
    · refine .inl ⟨hw, fun b hb => ?_⟩
      by_cases hbt : b = that
      · exact hfree a (.inl ⟨rfl, hbt ▸ hb⟩)
      · by_cases hba : b = a
        · exact hlost ⟨hba ▸ hbt, hba ▸ hb⟩
        · exact hfree b (.inr ⟨hba, hbt, hb⟩)
  · rintro (⟨hw, hfree⟩ | ⟨hne, ha⟩)
    · refine ⟨hw, fun b hb => ?_⟩
      obtain ⟨-, hb⟩ | ⟨-, -, hb⟩ := hb
      · exact hfree that hb
      · exact hfree b hb
    · refine ⟨hinv.attached a l w ha, fun b hb => ?_⟩
      -- the watch had one owner, which is not `that` and has another watch now
      obtain ⟨-, hb⟩ | ⟨hba, -, hb⟩ := hb
      · exact hne (hinv.inj a that l l w ha hb)
      · exact hba (hinv.inj b a l l w hb ha)

theorem leaked_release (hinv : Inv s) (ha : s.scopes a = some scope) {x : Option (Scope ListId)}
    (hx : ∀ y, x = some y → y.pendingRequestWatches_ = none) : ((s.release scope).setScope a x).leaked = s.leaked := by
  obtain ⟨l₀, w₀⟩ := scope
  cases l₀ with
  | none =>
    refine leaked_setScope (fun list watch h => ?_) hx
    cases Option.some.inj (ha.symm.trans h)
  | some l₀ =>
    have hatt : s.Attached a l₀ w₀ := ha
    have hw₀ := hinv.attached a l₀ w₀ hatt
    ext ⟨l, w⟩
    have hmem : w ∈ ((s.release ⟨some l₀, w₀⟩).setScope a x).watches l ↔ w ∈ s.watches l ∧ w ≠ w₀ :=
      hinv.mem_watches_erase hw₀
    have hown : ∀ b, ((s.release ⟨some l₀, w₀⟩).setScope a x).Attached b l w ↔ b ≠ a ∧ s.Attached b l w := by
      intro b
      rw [attached_setScope]
      constructor
      · rintro (⟨-, h⟩ | h)
        · cases hx _ h
        · exact h
      · exact .inr
    simp only [Sys.leaked, Set.mem_ofPred_eq, hmem, hown]
    constructor
    · rintro ⟨⟨hw, hne⟩, hfree⟩
      refine ⟨hw, fun b hb => hfree b ⟨?_, hb⟩⟩
      rintro rfl
      obtain ⟨-, rfl⟩ : l₀ = l ∧ w₀ = w := by simpa using hatt.symm.trans hb
      exact hne rfl
    · rintro ⟨hw, hfree⟩
      refine ⟨⟨hw, ?_⟩, fun b hb => hfree b hb.2⟩
      rintro rfl
      obtain rfl := hinv.one_list l l₀ w hw hw₀
      -- the erased watch was not leaked: `a` was attached by it
      exact hfree a hatt

/-- **What leaks**: the watches whose iterators are overwritten, and no others. -/
theorem leaked_step (hinv : Inv s) {op : Op ScopeId ListId} (h : step s op = some s') :
    s'.leaked = s.leaked ∪ s.lost op := by
  have hdead : ∀ {a}, s.scopes a = none → ∀ list watch, ¬ s.Attached a list watch := by
    intro a ha list watch h
    rw [Sys.Attached, ha] at h
    cases h
  obtain ⟨a, rfl, ha, rfl⟩ | ⟨a, list, rfl, ha, rfl⟩ | ⟨a, that, scope, rfl, ha, hthat, rfl⟩ |
    ⟨a, that, scope, rfl, hthat, rfl⟩ | ⟨a, scope, x, hop, ha, hx, rfl⟩ := step_cases h
  · rw [show s.lost (.construct a) = ∅ from rfl, Set.union_empty]
    exact leaked_setScope (hdead ha) fun y hy => by rw [← Option.some.inj hy]
  · rw [show s.lost (.constructOn a list) = ∅ from rfl, Set.union_empty]
    exact leaked_constructOn hinv ha
  · rw [show s.lost (.moveConstruct a that) = ∅ from rfl, leaked_move hinv hthat]
    congr 1
    exact Set.eq_empty_of_forall_notMem fun x hx => hdead ha _ _ hx.2
  · exact leaked_move hinv hthat
  · rw [leaked_release hinv ha hx]
    rcases hop with rfl | rfl
    · exact (Set.union_empty _).symm
    · exact (Set.union_empty _).symm

omit [DecidableEq ScopeId] [DecidableEq ListId] in
/-- Scopes and watches correspond exactly if nothing has leaked. -/
theorem Inv.oneToOne_iff (hinv : Inv s) : s.OneToOne ↔ s.leaked = ∅ := by
  constructor
  · intro h
    refine Set.eq_empty_of_forall_notMem ?_
    rintro ⟨list, watch⟩ ⟨hw, hfree⟩
    obtain ⟨a, ha, -⟩ := h.one_scope list watch hw
    exact hfree a ha
  · intro h
    have hone : ∀ list watch, watch ∈ s.watches list → ∃! a, s.Attached a list watch := by
      intro list watch hw
      have hnot : (list, watch) ∉ s.leaked := by rw [h]; exact Set.notMem_empty _
      obtain ⟨a, ha⟩ : ∃ a, s.Attached a list watch := by
        by_contra hno
        exact hnot ⟨hw, not_exists.1 hno⟩
      exact ⟨a, ha, fun b hb => hinv.inj b a list list watch hb ha⟩
    refine ⟨hinv.attached, hone, hinv.nodup, fun list => ?_, hinv.erased_nodup⟩
    -- the watch of each attached scope
    have hbij : (s.attachedTo list).ncard = {watch | watch ∈ s.watches list}.ncard := by
      refine Set.ncard_congr (fun a ha => ha.choose) ?_ ?_ ?_
      · intro a ha
        exact hinv.attached a list _ ha.choose_spec
      · intro a b ha hb hab
        exact hinv.inj a b list list _ ha.choose_spec (hab ▸ hb.choose_spec)
      · intro watch hw
        obtain ⟨a, ha, -⟩ := hone list watch hw
        have hatt : a ∈ s.attachedTo list := ⟨watch, ha⟩
        refine ⟨a, hatt, ?_⟩
        have := hatt.choose_spec.symm.trans ha
        simpa using this
    have hcard : {watch | watch ∈ s.watches list}.ncard = (s.watches list).length := by
      rw [show {watch | watch ∈ s.watches list} = ((s.watches list).toFinset : Set ℕ) by ext; simp,
        Set.ncard_coe_finset, List.toFinset_card_of_nodup (hinv.nodup list)]
    rw [hbij, hcard, Sys.pending]

/-- The operation is no move assignment to another scope that is attached. -/
def NoOverwrite (s : Sys ScopeId ListId) (op : Op ScopeId ListId) : Prop :=
  ∀ a that, op = .moveAssign a that → a ≠ that → ∀ list watch, ¬ s.Attached a list watch

omit [DecidableEq ScopeId] [DecidableEq ListId] in
/-- A step loses nothing exactly if it overwrites no watch. -/
theorem lost_eq_empty {op : Op ScopeId ListId} : s.lost op = ∅ ↔ NoOverwrite s op := by
  constructor
  · rintro h a that rfl hne list watch hatt
    have hmem : (list, watch) ∈ s.lost (.moveAssign a that) := ⟨hne, hatt⟩
    rw [h] at hmem
    exact hmem
  · intro h
    refine Set.eq_empty_of_forall_notMem fun x hx => ?_
    cases op with
    | moveAssign a that => exact h a that rfl hx.1 x.1 x.2 hx.2
    | _ => exact hx

/-- **One watch for each attached scope**: this holds after a sequence of operations if and
only if none of them was a move assignment to another scope that was attached. -/
theorem watches_oneToOne_iff (ops : List (Op ScopeId ListId)) (s : Sys ScopeId ListId)
    (hrun : run RequestMetricsScope.step start ops = some s) :
    s.OneToOne ↔ AllSteps RequestMetricsScope.step NoOverwrite start ops := by
  have hinv : Inv s := run_invariant inv_start (fun _ _ _ hi hs => hi.step hs) ops hrun
  have hstart : (start : Sys ScopeId ListId).leaked = ∅ := by
    refine Set.eq_empty_of_forall_notMem fun x hx => ?_
    exact absurd hx.1 List.not_mem_nil
  rw [hinv.oneToOne_iff,
    run_iff (I := Inv) (P := fun s => s.leaked = ∅) (G := NoOverwrite) (fun _ _ _ hi hs => hi.step hs)
      (fun s op s' hi hs => by rw [leaked_step hi hs, Set.union_empty_iff, lost_eq_empty]) ops inv_start hrun]
  exact and_iff_right hstart

/-- A scope is moved to another list's empty scope, and both are destroyed. -/
theorem watches_oneToOne_moved :
    ∃ s : Sys ℕ ℕ, run RequestMetricsScope.step start
        [.constructOn 0 7, .construct 1, .moveAssign 1 0, .constructOn 2 7, .destroy 0] = some s ∧
      s.OneToOne ∧ s.pending 7 = 2 := by
  refine ⟨_, rfl, ?_, rfl⟩
  refine (watches_oneToOne_iff [.constructOn 0 7, .construct 1, .moveAssign 1 0, .constructOn 2 7, .destroy 0]
    _ rfl).2 ?_
  iterate 5 rw [allSteps_cons rfl]
  refine ⟨nofun, nofun, ?_, nofun, nofun, trivial⟩
  rintro a that h - list watch hatt
  obtain ⟨rfl, rfl⟩ := Op.moveAssign.inj h
  cases hatt

/-- A scope is moved to an attached one; when both are destroyed a watch is left. -/
theorem watches_leaked :
    ∃ s : Sys Bool ℕ, run RequestMetricsScope.step start
        [.constructOn false 7, .constructOn true 7, .moveAssign true false, .destroy false, .destroy true] = some s ∧
      (∀ a, s.scopes a = none) ∧ s.watches 7 = [1] ∧ ¬ s.OneToOne := by
  refine ⟨_, rfl, fun a => by cases a <;> rfl, rfl, fun h => ?_⟩
  obtain ⟨a, ha, -⟩ := h.one_scope 7 1 (List.mem_singleton.2 rfl)
  cases a <;> cases ha

end RequestMetricsScope

end EdenCommon
