import EdenCommon.Proof.IDGen
import EdenCommon.Spec.TraceBlock

/-!
# Nested blocks

The request's `blockId` and the parents that the objects remember are a linked list of the
blocks that are open and were created while tracing was enabled (`Chain`). An object that has
none of these has ID 0, which makes its `close` do nothing; so the list stays linked whatever
is moved, and ending its first block leaves the rest (`Inv.step`).

* `Inv.construct`: a new block is the innermost one. Its ID is new as long as
  `global.counter` does not wrap (`Inv.getTraceId`).
* `Inv.tracePoints_step`: a block that is created while tracing is disabled traces nothing,
  and so does its end.
* `traceBlocks_nest`: the points that are traced are nested, start and stop, with the
  parents that the objects remember.
* `traceBlocks_nest_wrapped`: a block that is given the ID 0 traces its start and no stop.
-/

namespace EdenCommon

namespace Tracing

namespace Nest

open Lib

/-! ### The linked list -/

section

variable {Obj : Type} {blocks blocks' : Obj → Option TraceBlock} {top : ℕ} {l : List (Obj × ℕ)}

/-- `l` is linked by the parents in `blocks`, from the ID `top` to 0. -/
def Chain (blocks : Obj → Option TraceBlock) : ℕ → List (Obj × ℕ) → Prop
  | top, [] => top = 0
  | top, (a, id) :: l => top = id ∧ id ≠ 0 ∧ ∃ parent, blocks a = some ⟨id, parent⟩ ∧ Chain blocks parent l

theorem Chain.eq_headD (h : Chain blocks top l) : top = (l.map Prod.snd).headD 0 := by
  cases l with
  | nil => exact h
  | cons x l => exact h.1

/-- A block of the chain has its ID and its parent. -/
theorem Chain.mem (h : Chain blocks top l) {a : Obj} {id : ℕ} (hmem : (a, id) ∈ l) :
    id ≠ 0 ∧ ∃ parent, blocks a = some ⟨id, parent⟩ := by
  induction l generalizing top with
  | nil => exact absurd hmem List.not_mem_nil
  | cons x l ih =>
    obtain ⟨-, hid, parent, hparent, hrest⟩ := h
    rcases List.mem_cons.1 hmem with rfl | hmem
    · exact ⟨hid, parent, hparent⟩
    · exact ih hrest hmem

/-- The blocks may have other owners. -/
theorem Chain.rename (h : Chain blocks top l) (f : Obj → Obj) (hf : ∀ x ∈ l, blocks' (f x.1) = blocks x.1) :
    Chain blocks' top (l.map fun x => (f x.1, x.2)) := by
  induction l generalizing top with
  | nil => exact h
  | cons x l ih =>
    obtain ⟨htop, hid, parent, hparent, hrest⟩ := h
    refine ⟨htop, hid, parent, ?_, ih hrest fun y hy => hf y (List.mem_cons_of_mem x hy)⟩
    rw [hf x List.mem_cons_self, hparent]

theorem Chain.congr (h : Chain blocks top l) (heq : ∀ x ∈ l, blocks' x.1 = blocks x.1) : Chain blocks' top l := by
  have hmap := h.rename id heq
  rwa [show (fun x : Obj × ℕ => (id x.1, x.2)) = id from rfl, List.map_id] at hmap

end

/-! ### The points of a block -/

section

variable {points : List CompactTracePoint} {p : CompactTracePoint} {id : ℕ} {ids : List ℕ}

/-- A point of another block is none of this one. -/
theorem pointsOf_concat_of_ne (h : p.blockId ≠ id) : pointsOf (points ++ [p]) id = pointsOf points id := by
  simp [pointsOf, h]

theorem pointsOf_concat_self (h : p.blockId = id) : pointsOf (points ++ [p]) id = pointsOf points id ++ [p] := by
  simp [pointsOf, h]

theorem mem_pointsOf : p ∈ pointsOf points id ↔ p ∈ points ∧ p.blockId = id := by
  simp [pointsOf]

/-- A block without points has not begun. -/
theorem pointsOf_eq_nil (h : ∀ p ∈ points, p.blockId ≠ id) : pointsOf points id = [] := by
  simpa [pointsOf] using h

/-- The block has traced its start and no more. -/
def Started (points : List CompactTracePoint) (id parent traceId : ℕ) : Prop :=
  ∃ p, pointsOf points id = [p] ∧ p.start = true ∧ p.stop = false ∧ p.parentBlockId = parent ∧ p.traceId = traceId

theorem Started.concat {parent traceId : ℕ} (h : Started points id parent traceId) (hne : p.blockId ≠ id) :
    Started (points ++ [p]) id parent traceId := by
  unfold Started
  rw [pointsOf_concat_of_ne hne]
  exact h

theorem Started.mem {parent traceId : ℕ} (h : Started points id parent traceId) : ∃ p ∈ points, p.blockId = id := by
  obtain ⟨p, hp, -⟩ := h
  exact ⟨p, mem_pointsOf.1 (hp ▸ List.mem_singleton_self p)⟩

/-- A point of another block, which may become open or end. -/
theorem Paired.concat {ids' : List ℕ} (h : Paired points ids id) (hne : p.blockId ≠ id)
    (hids : id ∈ ids' ↔ id ∈ ids) : Paired (points ++ [p]) ids' id := by
  unfold Paired
  rw [pointsOf_concat_of_ne hne, if_congr hids rfl rfl]
  exact h

end

/-! ### The invariant -/

variable {Tid Obj : Type} {s s' : Sys Tid Obj} {a other : Obj} {block : TraceBlock} {timestamp : ℤ}

structure Inv (s : Sys Tid Obj) : Prop where
  ids : IDGen.Inv s.ids
  chain : Chain s.blocks s.getRequestData.blockId s.tracedOpen
  owners : (s.opened.map (·.owner)).Nodup
  live : ∀ b ∈ s.opened, s.blocks b.owner ≠ none
  ended : ∀ a block, s.blocks a = some block → (∀ id, (a, id) ∉ s.tracedOpen) → block.blockId_ = 0
  nodup : s.openIds.Nodup
  fresh : ∀ p ∈ s.tracePoints, p.blockId ∈ s.ids.ids
  started : ∀ a id parent, (a, id) ∈ s.tracedOpen → s.blocks a = some ⟨id, parent⟩ →
    Started s.tracePoints id parent s.getRequestData.traceId
  paired : ∀ p ∈ s.tracePoints, Paired s.tracePoints s.openIds p.blockId
  untraced : s.getRequestData.traceId = 0 → s.tracedOpen = []

/-- At first no block is open. -/
theorem inv_start : Inv (start Tid Obj) where
  ids := IDGen.inv_start
  chain := rfl
  owners := List.nodup_nil
  live := fun b hb => absurd hb List.not_mem_nil
  ended := fun a block h => by cases h
  nodup := List.nodup_nil
  fresh := fun p hp => absurd hp List.not_mem_nil
  started := fun a id parent h => absurd h List.not_mem_nil
  paired := fun p hp => absurd hp List.not_mem_nil
  untraced := fun _ => rfl

theorem mem_tracedOpen {id : ℕ} : (a, id) ∈ s.tracedOpen ↔ ⟨a, some id⟩ ∈ s.opened := by
  unfold Sys.tracedOpen
  rw [List.mem_filterMap]
  constructor
  · rintro ⟨⟨owner, id'⟩, hb, heq⟩
    obtain ⟨i, rfl, hpair⟩ := Option.map_eq_some_iff.1 heq
    obtain ⟨rfl, rfl⟩ := Prod.mk.inj hpair
    exact hb
  · intro h
    exact ⟨⟨a, some id⟩, h, rfl⟩

theorem mem_openIds {id : ℕ} : id ∈ s.openIds ↔ ∃ a, (a, id) ∈ s.tracedOpen := by
  unfold Sys.openIds
  rw [List.mem_map]
  constructor
  · rintro ⟨⟨a, i⟩, h, rfl⟩
    exact ⟨a, h⟩
  · rintro ⟨a, h⟩
    exact ⟨(a, id), h, rfl⟩

/-- An object without block owns no open one. -/
theorem Inv.ne_owner (hinv : Inv s) (ha : s.blocks a = none) : ∀ b ∈ s.opened, b.owner ≠ a := by
  rintro b hb rfl
  exact hinv.live b hb ha

theorem owners_sublist (s : Sys Tid Obj) : (s.tracedOpen.map Prod.fst).Sublist (s.opened.map (·.owner)) := by
  unfold Sys.tracedOpen
  induction s.opened with
  | nil => exact List.Sublist.refl _
  | cons b opened ih =>
    obtain ⟨owner, id⟩ := b
    cases id with
    | none => exact ih.cons owner
    | some id => exact ih.cons_cons owner

/-- What an object has whose block is not traced. -/
theorem Inv.notMem_of_zero (hinv : Inv s) (ha : s.blocks a = some block) (hzero : block.blockId_ = 0) (id : ℕ) :
    (a, id) ∉ s.tracedOpen := by
  intro hmem
  obtain ⟨hid, parent, hparent⟩ := hinv.chain.mem hmem
  obtain rfl := Option.some.inj (ha.symm.trans hparent)
  exact hid hzero

/-- The innermost block is that of an object that may end it. -/
theorem Inv.tracedOpen_eq_cons (hinv : Inv s) (ha : s.blocks a = some block) (hne : block.blockId_ ≠ 0)
    (hnest : ∀ id, (a, id) ∈ s.tracedOpen → s.tracedOpen.head? = some (a, id)) :
    ∃ l, s.tracedOpen = (a, block.blockId_) :: l ∧ (∀ x ∈ l, x.1 ≠ a) ∧ Chain s.blocks block.parentBlockId_ l := by
  have hmem : ∃ id, (a, id) ∈ s.tracedOpen := by
    by_contra hnone
    exact hne (hinv.ended a block ha fun id hid => hnone ⟨id, hid⟩)
  obtain ⟨id, hid⟩ := hmem
  have hhead := hnest id hid
  have howners := hinv.owners.sublist (owners_sublist s)
  have hchain := hinv.chain
  cases hl : s.tracedOpen with
  | nil =>
    rw [hl] at hid
    exact absurd hid List.not_mem_nil
  | cons x l =>
    rw [hl] at hhead howners hchain
    obtain rfl := Option.some.inj hhead
    obtain ⟨-, -, parent, hparent, hrest⟩ := hchain
    obtain rfl := Option.some.inj (ha.symm.trans hparent)
    refine ⟨l, rfl, ?_, hrest⟩
    intro x hx hxa
    exact (List.nodup_cons.1 howners).1 (List.mem_map.2 ⟨x, hx, hxa⟩)

/-! ### An object ends its block -/

variable [DecidableEq Obj]

/-- The open blocks but those that the object has. -/
theorem filterMap_filter (opened : List (OpenBlock Obj)) :
    (opened.filter (·.owner ≠ a)).filterMap (fun b => b.id.map (b.owner, ·)) =
      (opened.filterMap fun b => b.id.map (b.owner, ·)).filter (·.1 ≠ a) := by
  induction opened with
  | nil => rfl
  | cons b opened ih =>
    obtain ⟨owner, id⟩ := b
    by_cases hb : owner = a <;> cases id <;> simp_all

/-- **Closing** takes the block of the object from the open ones. -/
theorem opened_close : (s.close a block timestamp).opened = s.opened.filter (·.owner ≠ a) := by
  unfold Sys.close
  split <;> rfl

theorem tracedOpen_close :
    (s.close a block timestamp).tracedOpen = s.tracedOpen.filter (·.1 ≠ a) := by
  unfold Sys.tracedOpen
  rw [opened_close, filterMap_filter]

theorem owner_close {b : OpenBlock Obj} (h : b ∈ (s.close a block timestamp).opened) : b ∈ s.opened ∧ b.owner ≠ a := by
  rw [opened_close] at h
  simpa using h

theorem Inv.close_owners (hinv : Inv s) (a : Obj) (block : TraceBlock) (timestamp : ℤ) :
    ((s.close a block timestamp).opened.map (·.owner)).Nodup := by
  rw [opened_close]
  exact hinv.owners.sublist (List.filter_sublist.map _)

/-- The object has no traced block: it ends without a point. -/
theorem Inv.close_untraced (hinv : Inv s) (ha : s.blocks a = some block) (hzero : block.blockId_ = 0) :
    Inv (s.close a block timestamp) := by
  have htraced : (s.close a block timestamp).tracedOpen = s.tracedOpen := by
    rw [tracedOpen_close, List.filter_eq_self]
    intro x hx
    have hxa : x.1 ≠ a := by
      rintro rfl
      exact hinv.notMem_of_zero ha hzero x.2 hx
    simpa using hxa
  have hclose : s.close a block timestamp = { s with opened := s.opened.filter (·.owner ≠ a) } := by
    unfold Sys.close
    rw [if_neg (by simpa using hzero)]
  have howners := hinv.close_owners a block timestamp
  have hids : (s.close a block timestamp).openIds = s.openIds := by
    unfold Sys.openIds
    rw [htraced]
  have hlive : ∀ b ∈ (s.close a block timestamp).opened, b ∈ s.opened := fun b hb => (owner_close hb).1
  rw [hclose] at htraced howners hids hlive ⊢
  exact {
    ids := hinv.ids
    chain := by
      rw [htraced]
      exact hinv.chain
    owners := howners
    live := fun b hb => hinv.live b (hlive b hb)
    ended := fun c x hc hnot => hinv.ended c x hc (by rwa [htraced] at hnot)
    nodup := by
      rw [hids]
      exact hinv.nodup
    fresh := hinv.fresh
    started := fun c id parent hmem hc => hinv.started c id parent (by rwa [htraced] at hmem) hc
    paired := by
      rw [hids]
      exact hinv.paired
    untraced := by
      rw [htraced]
      exact hinv.untraced }

/-- The innermost block ends: its stop is traced and its parent is the innermost. -/
theorem Inv.close_innermost (hinv : Inv s) (ha : s.blocks a = some block) (hne : block.blockId_ ≠ 0)
    (hnest : ∀ id, (a, id) ∈ s.tracedOpen → s.tracedOpen.head? = some (a, id)) :
    Inv (s.close a block timestamp) := by
  obtain ⟨l, hl, hla, hchain⟩ := hinv.tracedOpen_eq_cons ha hne hnest
  have htraced : (s.close a block timestamp).tracedOpen = l := by
    rw [tracedOpen_close, hl, List.filter_cons_of_neg (by simp), List.filter_eq_self]
    intro x hx
    simpa using hla x hx
  have hopen : s.openIds = block.blockId_ :: (s.close a block timestamp).openIds := by
    unfold Sys.openIds
    rw [htraced, hl, List.map_cons]
  have howners := hinv.close_owners a block timestamp
  have hlive : ∀ b ∈ (s.close a block timestamp).opened, b ∈ s.opened ∧ b.owner ≠ a := fun b hb => owner_close hb
  have hnodup := hinv.nodup
  rw [hopen] at hnodup
  obtain ⟨hnotMem, hnodup⟩ := List.nodup_cons.1 hnodup
  set stop : CompactTracePoint :=
    ⟨timestamp, s.getRequestData.traceId, block.blockId_, block.parentBlockId_, none, false, true⟩
  have hclose : s.close a block timestamp =
      { s with
        requestData := some ⟨s.getRequestData.traceId, block.parentBlockId_⟩
        blocks := Function.update s.blocks a (some ⟨0, block.parentBlockId_⟩)
        tracePoints := s.tracePoints ++ [stop]
        opened := s.opened.filter (·.owner ≠ a) } := by
    unfold Sys.close
    rw [if_pos hne]
  have hmem : ∀ x ∈ l, x ∈ s.tracedOpen := fun x hx => hl ▸ List.mem_cons_of_mem _ hx
  have hstarted : Started s.tracePoints block.blockId_ block.parentBlockId_ s.getRequestData.traceId :=
    hinv.started a block.blockId_ block.parentBlockId_ (hl ▸ List.mem_cons_self) ha
  have hother : ∀ x ∈ l, stop.blockId ≠ x.2 := by
    rintro x hx heq
    apply hnotMem
    unfold Sys.openIds
    rw [htraced]
    exact List.mem_map.2 ⟨x, hx, heq.symm⟩
  have hids : (s.close a block timestamp).openIds = l.map Prod.snd := by
    unfold Sys.openIds
    rw [htraced]
  rw [hids] at hopen hnotMem hnodup
  rw [hclose] at htraced howners hlive hids ⊢
  exact {
    ids := hinv.ids
    chain := by
      rw [htraced]
      exact hchain.congr fun x hx => Function.update_of_ne (hla x hx) _ _
    owners := howners
    live := by
      intro b hb
      obtain ⟨hb, hba⟩ := hlive b hb
      simp only [Function.update_of_ne hba]
      exact hinv.live b hb
    ended := by
      intro c x hc hnot
      rw [htraced] at hnot
      simp only at hc
      by_cases hca : c = a
      · subst hca
        rw [Function.update_self] at hc
        obtain rfl := Option.some.inj hc
        rfl
      · rw [Function.update_of_ne hca] at hc
        refine hinv.ended c x hc fun id hid => ?_
        rw [hl] at hid
        rcases List.mem_cons.1 hid with heq | hid
        · exact hca (Prod.mk.inj heq).1
        · exact hnot id hid
    nodup := by
      rw [hids]
      exact hnodup
    fresh := by
      intro p hp
      rcases List.mem_append.1 hp with hp | hp
      · exact hinv.fresh p hp
      · obtain rfl := List.mem_singleton.1 hp
        obtain ⟨q, hq, hqid⟩ := hstarted.mem
        rw [show stop.blockId = q.blockId from hqid.symm]
        exact hinv.fresh q hq
    started := by
      intro c id parent hc hblock
      rw [htraced] at hc
      simp only [Function.update_of_ne (hla _ hc)] at hblock
      exact (hinv.started c id parent (hmem _ hc) hblock).concat (hother _ hc)
    paired := by
      intro p hp
      rw [hids]
      by_cases hpa : p.blockId = block.blockId_
      · -- the block that ends has traced its start, and now its stop
        obtain ⟨q, hq, hstart, hstop, hparent, htrace⟩ := hstarted
        unfold Paired
        rw [hpa, if_neg hnotMem, pointsOf_concat_self rfl, hq]
        have hqid : q.blockId = block.blockId_ := (mem_pointsOf.1 (hq ▸ List.mem_singleton_self q)).2
        exact ⟨q, stop, rfl, ⟨⟨hstart, hstop⟩, ⟨rfl, rfl⟩, hqid.symm, hparent.symm, htrace.symm⟩⟩
      · have hold : p ∈ s.tracePoints := by
          rcases List.mem_append.1 hp with hp | hp
          · exact hp
          · obtain rfl := List.mem_singleton.1 hp
            exact absurd rfl hpa
        refine (hinv.paired p hold).concat (Ne.symm hpa) ?_
        rw [hopen, List.mem_cons]
        exact ⟨.inr, fun h => h.resolve_left hpa⟩
    untraced := by
      intro hzero
      have hnil := hinv.untraced hzero
      rw [hl] at hnil
      cases hnil }

/-- **An object that may end its block ends it**, if it has one. -/
theorem Inv.close (hinv : Inv s) (ha : s.blocks a = some block)
    (hnest : ∀ id, (a, id) ∈ s.tracedOpen → s.tracedOpen.head? = some (a, id)) (timestamp : ℤ) :
    Inv (s.close a block timestamp) := by
  by_cases hzero : block.blockId_ = 0
  · exact hinv.close_untraced ha hzero
  · exact hinv.close_innermost ha hzero hnest

/-- The object that has closed its block has none and may go. -/
theorem Inv.destroy (hinv : Inv s) (ha : ∀ b ∈ s.opened, b.owner ≠ a) :
    Inv { s with blocks := Function.update s.blocks a none } where
  ids := hinv.ids
  chain := hinv.chain.congr fun x hx => Function.update_of_ne (ha _ (mem_tracedOpen.1 hx)) _ _
  owners := hinv.owners
  live := by
    intro b hb
    simp only [Function.update_of_ne (ha b hb)]
    exact hinv.live b hb
  ended := by
    intro c x hc hnot
    simp only at hc
    by_cases hca : c = a
    · subst hca
      rw [Function.update_self] at hc
      cases hc
    · rw [Function.update_of_ne hca] at hc
      exact hinv.ended c x hc hnot
  nodup := hinv.nodup
  fresh := hinv.fresh
  started := by
    intro c id parent hc hblock
    simp only [Function.update_of_ne (ha _ (mem_tracedOpen.1 hc))] at hblock
    exact hinv.started c id parent hc hblock
  paired := hinv.paired
  untraced := hinv.untraced

/-! ### An object takes another's block -/

/-- Where a block is after `a` took what `other` had. -/
def takes (a other : Obj) (owner : Obj) : Obj := if owner = other then a else owner

def OpenBlock.rename (f : Obj → Obj) (b : OpenBlock Obj) : OpenBlock Obj := { b with owner := f b.owner }

theorem opened_take : (s.take a other block).opened = s.opened.map (OpenBlock.rename (takes a other)) := by
  unfold Sys.take
  refine List.map_congr_left fun b _ => ?_
  by_cases hb : b.owner = other
  · simp [OpenBlock.rename, takes, hb]
  · simp [OpenBlock.rename, takes, hb]

/-- **A move** gives the block another owner, and leaves its place. -/
theorem tracedOpen_take :
    (s.take a other block).tracedOpen = s.tracedOpen.map fun x => (takes a other x.1, x.2) := by
  unfold Sys.tracedOpen
  rw [opened_take, List.filterMap_map, List.map_filterMap]
  congr 1
  funext b
  obtain ⟨owner, id⟩ := b
  cases id <;> rfl

/-- So the IDs stay as they are. -/
theorem openIds_take : (s.take a other block).openIds = s.openIds := by
  unfold Sys.openIds
  rw [tracedOpen_take, List.map_map]
  rfl

/-- An object that has a block finds it where it is now. -/
theorem blocks_take (hother : s.blocks other = some block) {c : Obj} (hc : c ≠ a) :
    (s.take a other block).blocks (takes a other c) = s.blocks c := by
  unfold Sys.take takes
  by_cases hco : c = other
  · subst hco
    rw [if_pos rfl]
    simp only [Function.update_of_ne (Ne.symm hc), Function.update_self]
    exact hother.symm
  · rw [if_neg hco]
    simp only [Function.update_of_ne hco, Function.update_of_ne hc]

theorem takes_injOn {c d : Obj} (hc : c ≠ a) (hd : d ≠ a) (h : takes a other c = takes a other d) : c = d := by
  unfold takes at h
  split at h <;> split at h
  · rename_i h1 h2
    exact h1.trans h2.symm
  · exact absurd h.symm hd
  · exact absurd h hc
  · exact h

/-- **A block changes hands**: `a`, which has none, takes what `other` has. -/
theorem Inv.take (hinv : Inv s) (hother : s.blocks other = some block) (ha : ∀ b ∈ s.opened, b.owner ≠ a) :
    Inv (s.take a other block) where
  ids := hinv.ids
  chain := by
    rw [tracedOpen_take]
    exact hinv.chain.rename (takes a other) fun x hx => blocks_take hother (ha _ (mem_tracedOpen.1 hx))
  owners := by
    rw [opened_take, List.map_map]
    have hcomp : (OpenBlock.owner ∘ OpenBlock.rename (takes a other)) = takes a other ∘ OpenBlock.owner := rfl
    rw [hcomp, ← List.map_map]
    refine hinv.owners.map_on fun c hc d hd h => ?_
    obtain ⟨b, hb, rfl⟩ := List.mem_map.1 hc
    obtain ⟨b', hb', rfl⟩ := List.mem_map.1 hd
    exact takes_injOn (ha b hb) (ha b' hb') h
  live := by
    intro b hb
    rw [opened_take] at hb
    obtain ⟨b', hb', rfl⟩ := List.mem_map.1 hb
    unfold OpenBlock.rename
    rw [blocks_take hother (ha b' hb')]
    exact hinv.live b' hb'
  ended := by
    intro c x hc hnot
    rw [tracedOpen_take] at hnot
    unfold Sys.take at hc
    simp only at hc
    by_cases hco : c = other
    · subst hco
      rw [Function.update_self] at hc
      obtain rfl := Option.some.inj hc
      rfl
    · rw [Function.update_of_ne hco] at hc
      by_cases hca : c = a
      · subst hca
        rw [Function.update_self] at hc
        obtain rfl := Option.some.inj hc
        refine hinv.ended other block hother fun id hid => hnot id ?_
        exact List.mem_map.2 ⟨(other, id), hid, by unfold takes; rw [if_pos rfl]⟩
      · rw [Function.update_of_ne hca] at hc
        refine hinv.ended c x hc fun id hid => hnot id ?_
        exact List.mem_map.2 ⟨(c, id), hid, by unfold takes; rw [if_neg hco]⟩
  nodup := by
    rw [openIds_take]
    exact hinv.nodup
  fresh := hinv.fresh
  started := by
    intro c id parent hc hblock
    rw [tracedOpen_take] at hc
    obtain ⟨⟨d, id'⟩, hd, heq⟩ := List.mem_map.1 hc
    obtain ⟨rfl, rfl⟩ := Prod.mk.inj heq
    rw [blocks_take hother (ha _ (mem_tracedOpen.1 hd))] at hblock
    exact hinv.started d id' parent hd hblock
  paired := by
    rw [openIds_take]
    exact hinv.paired
  untraced := by
    intro hzero
    rw [tracedOpen_take, hinv.untraced hzero]
    rfl

/-! ### A block is created -/

variable {t : Tid} {name : String}

omit [DecidableEq Obj] in
/-- An object without a block is not among the owners. -/
theorem Inv.owners_cons (hinv : Inv s) (ha : s.blocks a = none) (id : Option ℕ) :
    ((⟨a, id⟩ :: s.opened : List (OpenBlock Obj)).map (·.owner)).Nodup := by
  refine List.nodup_cons.2 ⟨fun hmem => ?_, hinv.owners⟩
  obtain ⟨b, hb, hba⟩ := List.mem_map.1 hmem
  exact hinv.ne_owner ha b hb hba

theorem Inv.live_cons (hinv : Inv s) (ha : s.blocks a = none) (id : Option ℕ) (block : TraceBlock) :
    ∀ b ∈ (⟨a, id⟩ :: s.opened : List (OpenBlock Obj)), Function.update s.blocks a (some block) b.owner ≠ none := by
  intro b hb
  rcases List.mem_cons.1 hb with rfl | hb
  · simp
  · rw [Function.update_of_ne (hinv.ne_owner ha b hb)]
    exact hinv.live b hb

/-- While tracing is disabled. -/
theorem Inv.construct_disabled (hinv : Inv s) (ha : s.blocks a = none) :
    Inv { s with
      blocks := Function.update s.blocks a (some ⟨0, 0⟩)
      opened := ⟨a, none⟩ :: s.opened } := by
  have hne := hinv.ne_owner ha
  exact {
    ids := hinv.ids
    chain := hinv.chain.congr fun x hx => Function.update_of_ne (hne _ (mem_tracedOpen.1 hx)) _ _
    owners := hinv.owners_cons ha _
    live := hinv.live_cons ha _ _
    ended := by
      intro c x hc hnot
      simp only at hc
      by_cases hca : c = a
      · subst hca
        rw [Function.update_self] at hc
        obtain rfl := Option.some.inj hc
        rfl
      · rw [Function.update_of_ne hca] at hc
        exact hinv.ended c x hc hnot
    nodup := hinv.nodup
    fresh := hinv.fresh
    started := by
      intro c id parent hc hblock
      simp only [Function.update_of_ne (hne _ (mem_tracedOpen.1 hc))] at hblock
      exact hinv.started c id parent hc hblock
    paired := hinv.paired
    untraced := hinv.untraced }

/-- While tracing is enabled: the block gets an ID that is new, and the request a trace ID if
it has none. -/
theorem Inv.construct_enabled (hinv : Inv s) (ha : s.blocks a = none) {ids : IDGen.Sys Tid} {blockId_ traceId : ℕ}
    (hids : IDGen.Inv ids) (hmono : ∀ id ∈ s.ids.ids, id ∈ ids.ids) (hmem : blockId_ ∈ ids.ids)
    (hnew : blockId_ ∉ s.ids.ids) (hid : blockId_ ≠ 0) (htrace : traceId ≠ 0)
    (hsame : s.getRequestData.traceId ≠ 0 → traceId = s.getRequestData.traceId) :
    Inv { s with
      ids := ids
      requestData := some ⟨traceId, blockId_⟩
      blocks := Function.update s.blocks a (some ⟨blockId_, s.getRequestData.blockId⟩)
      tracePoints := s.tracePoints ++
        [⟨timestamp, traceId, blockId_, s.getRequestData.blockId, some name, true, false⟩]
      opened := ⟨a, some blockId_⟩ :: s.opened } := by
  have hne := hinv.ne_owner ha
  set p : CompactTracePoint := ⟨timestamp, traceId, blockId_, s.getRequestData.blockId, some name, true, false⟩
  -- no point is of the new ID, and no open block has it
  have hpoints : ∀ q ∈ s.tracePoints, q.blockId ≠ blockId_ := by
    rintro q hq rfl
    exact hnew (hinv.fresh q hq)
  have hopen : ∀ c id, (c, id) ∈ s.tracedOpen → id ≠ blockId_ := by
    rintro c id hc rfl
    obtain ⟨-, parent, hblock⟩ := hinv.chain.mem hc
    obtain ⟨q, hq, hqid⟩ := (hinv.started c id parent hc hblock).mem
    exact hpoints q hq hqid
  have hstarted : Started (s.tracePoints ++ [p]) blockId_ s.getRequestData.blockId traceId := by
    refine ⟨p, ?_, rfl, rfl, rfl, rfl⟩
    rw [pointsOf_concat_self rfl, pointsOf_eq_nil hpoints, List.nil_append]
  exact {
    ids := hids
    chain := by
      refine ⟨rfl, hid, s.getRequestData.blockId, Function.update_self a _ s.blocks, ?_⟩
      exact hinv.chain.congr fun x hx => Function.update_of_ne (hne _ (mem_tracedOpen.1 hx)) _ _
    owners := hinv.owners_cons ha _
    live := hinv.live_cons ha _ _
    ended := by
      intro c x hc hnot
      simp only at hc
      by_cases hca : c = a
      · subst hca
        exact absurd List.mem_cons_self (hnot blockId_)
      · rw [Function.update_of_ne hca] at hc
        exact hinv.ended c x hc fun id hid => hnot id (List.mem_cons_of_mem _ hid)
    nodup := by
      refine List.nodup_cons.2 ⟨fun hmem => ?_, hinv.nodup⟩
      obtain ⟨c, hc⟩ := mem_openIds.1 hmem
      exact hopen c _ hc rfl
    fresh := by
      intro q hq
      rcases List.mem_append.1 hq with hq | hq
      · exact hmono _ (hinv.fresh q hq)
      · obtain rfl := List.mem_singleton.1 hq
        exact hmem
    started := by
      intro c id parent hc hblock
      rcases List.mem_cons.1 hc with heq | hc
      · obtain ⟨rfl, rfl⟩ := Prod.mk.inj heq
        simp only [Function.update_self] at hblock
        obtain ⟨-, rfl⟩ := TraceBlock.mk.inj (Option.some.inj hblock)
        exact hstarted
      · simp only [Function.update_of_ne (hne _ (mem_tracedOpen.1 hc))] at hblock
        have hold := (hinv.started c id parent hc hblock).concat (p := p) (Ne.symm (hopen c id hc))
        have htraced : s.getRequestData.traceId ≠ 0 := by
          intro hzero
          have hmem : (c, id) ∈ s.tracedOpen := hc
          rw [hinv.untraced hzero] at hmem
          exact absurd hmem List.not_mem_nil
        rw [← hsame htraced] at hold
        exact hold
    paired := by
      intro q hq
      rcases List.mem_append.1 hq with hq | hq
      · refine (hinv.paired q hq).concat (Ne.symm (hpoints q hq)) ?_
        rw [show Sys.openIds _ = blockId_ :: s.openIds from rfl, List.mem_cons]
        exact ⟨fun h => h.resolve_left (hpoints q hq), .inr⟩
      · obtain rfl := List.mem_singleton.1 hq
        obtain ⟨q, hq, hstart, hstop, -⟩ := hstarted
        unfold Paired
        rw [if_pos (by exact List.mem_cons_self)]
        exact ⟨q, hq, hstart, hstop⟩
    untraced := fun hzero => absurd hzero htrace }

variable [DecidableEq Tid]

/-- Neither of two calls wraps `global.counter` if it is not less after both. -/
theorem counter_le_of_two {c c₁ c₂ : ℕ} (hc : c < 2 ^ 64) (h₁ : c₁ = c ∨ c₁ = IDGen.addU64 c IDGen.kRangeSize)
    (h₂ : c₂ = c₁ ∨ c₂ = IDGen.addU64 c₁ IDGen.kRangeSize) (hle : c ≤ c₂) : c ≤ c₁ ∧ c₁ ≤ c₂ := by
  unfold IDGen.addU64 IDGen.kRangeSize at h₁ h₂
  omega

omit [DecidableEq Obj] in
/-- The request has a trace ID and the IDs are those generated so far, of which the block's is
new. -/
theorem Inv.getTraceId (hinv : Inv s) {ids₁ ids₂ : IDGen.Sys Tid} {blockId_ traceId : ℕ}
    (hgen : IDGen.generateUniqueID s.ids t = some (blockId_, ids₁))
    (htrace : s.getTraceId ids₁ t = some (traceId, ids₂)) (hle : s.ids.counter ≤ ids₂.counter) :
    IDGen.Inv ids₂ ∧ (∀ id ∈ s.ids.ids ++ [blockId_], id ∈ ids₂.ids) ∧ blockId_ ∉ s.ids.ids ∧ blockId_ ≠ 0 ∧
      traceId ≠ 0 ∧ (s.getRequestData.traceId ≠ 0 → traceId = s.getRequestData.traceId) := by
  unfold Sys.getTraceId at htrace
  simp only at htrace
  by_cases hzero : s.getRequestData.traceId = 0
  · -- the first block of the request: the second ID is its trace ID
    rw [if_pos hzero] at htrace
    obtain ⟨hle₁, hle₂⟩ := counter_le_of_two hinv.ids.below (IDGen.counter_generateUniqueID hgen)
      (IDGen.counter_generateUniqueID htrace) hle
    obtain ⟨hids₁, hlist₁, hnew₁, hid₁⟩ := hinv.ids.generateUniqueID hgen hle₁
    obtain ⟨hids₂, hlist₂, -, hid₂⟩ := hids₁.generateUniqueID htrace hle₂
    refine ⟨hids₂, fun id hid => ?_, hnew₁, hid₁, hid₂, fun hne => absurd hzero hne⟩
    rw [hlist₂, hlist₁]
    exact List.mem_append_left _ hid
  · rw [if_neg hzero] at htrace
    obtain ⟨rfl, rfl⟩ := Prod.mk.inj (Option.some.inj htrace)
    obtain ⟨hids, hlist, hnew, hid⟩ := hinv.ids.generateUniqueID hgen hle
    exact ⟨hids, fun id hid => hlist ▸ hid, hnew, hid, hzero, fun _ => rfl⟩

/-- **A new block** is the innermost one. -/
theorem Inv.construct (hinv : Inv s) (ha : s.blocks a = none)
    (h : s.construct t a name timestamp = some s') (hle : s.ids.counter ≤ s'.ids.counter) : Inv s' := by
  unfold Sys.construct at h
  split at h
  · split at h
    · rename_i hgen
      split at h
      · rename_i htrace
        obtain rfl := Option.some.inj h
        obtain ⟨hids, hmono, hnew, hid, htraceId, hsame⟩ := hinv.getTraceId hgen htrace hle
        exact hinv.construct_enabled ha hids (fun id h => hmono id (List.mem_append_left _ h))
          (hmono _ List.mem_concat_self) hnew hid htraceId hsame
      · cases h
    · cases h
  · obtain rfl := Option.some.inj h
    exact hinv.construct_disabled ha

/-! ### Every operation -/

/-- Every step that ends no other block than the innermost keeps the invariant. -/
theorem Inv.step (hinv : Inv s) {op : Op Tid Obj} (hnest : WellNested s op) (hwrap : NoWrap s op)
    (h : step s op = some s') : Inv s' := by
  have hle := hwrap s' h
  cases op with
  | enable =>
    obtain rfl := Option.some.inj h
    exact { hinv with }
  | disable =>
    obtain rfl := Option.some.inj h
    exact { hinv with }
  | generate t =>
    obtain ⟨ids, hstep, rfl⟩ := Option.map_eq_some_iff.1 h
    exact { hinv with
      ids := hinv.ids.step (hinv.ids.noWrap_step hstep hle) hstep
      fresh := fun p hp => IDGen.mem_ids_step hstep (hinv.fresh p hp) }
  | construct t a name timestamp =>
    simp only [Nest.step] at h
    split at h
    · rename_i ha
      exact hinv.construct ha h hle
    · cases h
  | moveConstruct a other =>
    simp only [Nest.step] at h
    split at h
    · rename_i ha hother
      obtain rfl := Option.some.inj h
      exact hinv.take hother (hinv.ne_owner ha)
    · cases h
  | moveAssign a other timestamp =>
    simp only [Nest.step] at h
    split at h
    · rename_i block ha
      obtain ⟨taken, hother, rfl⟩ := Option.map_eq_some_iff.1 h
      have hclose := hinv.close ha (hnest a rfl) timestamp
      exact hclose.take hother fun b hb => (owner_close hb).2
    · cases h
  | close a timestamp =>
    obtain ⟨block, ha, rfl⟩ := Option.map_eq_some_iff.1 h
    exact hinv.close ha (hnest a rfl) timestamp
  | destroy a timestamp =>
    obtain ⟨block, ha, rfl⟩ := Option.map_eq_some_iff.1 h
    have hclose := hinv.close ha (hnest a rfl) timestamp
    exact hclose.destroy fun b hb => (owner_close hb).2

omit [DecidableEq Tid] in
theorem tracePoints_close (hzero : block.blockId_ = 0) : (s.close a block timestamp).tracePoints = s.tracePoints := by
  unfold Sys.close
  rw [if_neg (by simpa using hzero)]

omit [DecidableEq Tid] [DecidableEq Obj] in
/-- An object whose open block was created while tracing was disabled has ID 0. -/
theorem Inv.blockId_eq_zero (hinv : Inv s) (hmem : ⟨a, none⟩ ∈ s.opened) (ha : s.blocks a = some block) :
    block.blockId_ = 0 := by
  refine hinv.ended a block ha fun id hid => ?_
  have heq := List.inj_on_of_nodup_map hinv.owners hmem (mem_tracedOpen.1 hid) rfl
  cases heq

/-- Blocks created while tracing is disabled trace nothing. -/
theorem Inv.tracePoints_step (hinv : Inv s) {op : Op Tid Obj} (hop : Untraced s op) (h : Nest.step s op = some s') :
    s'.tracePoints = s.tracePoints := by
  rcases hop with ⟨hdisabled, t, a, name, timestamp, rfl⟩ | ⟨a, hcloses, hmem⟩
  · simp only [Nest.step] at h
    split at h
    · unfold Sys.construct at h
      rw [hdisabled] at h
      obtain rfl := Option.some.inj h
      rfl
    · cases h
  · cases op with
    | moveAssign b other timestamp =>
      obtain rfl := Option.some.inj hcloses
      simp only [Nest.step] at h
      split at h
      · rename_i block hb
        obtain ⟨taken, -, rfl⟩ := Option.map_eq_some_iff.1 h
        exact tracePoints_close (hinv.blockId_eq_zero hmem hb)
      · cases h
    | close b timestamp =>
      obtain rfl := Option.some.inj hcloses
      obtain ⟨block, hb, rfl⟩ := Option.map_eq_some_iff.1 h
      exact tracePoints_close (hinv.blockId_eq_zero hmem hb)
    | destroy b timestamp =>
      obtain rfl := Option.some.inj hcloses
      obtain ⟨block, hb, rfl⟩ := Option.map_eq_some_iff.1 h
      exact tracePoints_close (hinv.blockId_eq_zero hmem hb)
    | _ => cases hcloses

/-- **Nesting.** However blocks of one request are created, moved, closed and destroyed while
tracing is enabled and disabled: as long as no step wraps `global.counter` and those that were
created while tracing was enabled end innermost first, the request's `blockId` is that of the
innermost, each has traced its start and, once it has ended, its stop, and the others trace
nothing. -/
theorem traceBlocks_nest (ops : List (Op Tid Obj)) (s : Sys Tid Obj)
    (hrun : run step (start Tid Obj) ops = some s) (hnest : AllSteps step WellNested (start Tid Obj) ops)
    (hwrap : AllSteps step NoWrap (start Tid Obj) ops) :
    s.getRequestData.blockId = s.innermost ∧
      (∀ p ∈ s.tracePoints, Paired s.tracePoints s.openIds p.blockId) ∧
      (∀ id ∈ s.openIds, ∃ p ∈ s.tracePoints, p.blockId = id) ∧
      ∀ op s', step s op = some s' → Untraced s op → s'.tracePoints = s.tracePoints := by
  have hinv : Inv s :=
    run_guarded (fun _ _ _ hi hg hs => hi.step hg.1 hg.2 hs) ops inv_start (hnest.and hwrap) hrun
  refine ⟨hinv.chain.eq_headD, hinv.paired, fun id hid => ?_, fun op s' hs hop => hinv.tracePoints_step hop hs⟩
  obtain ⟨a, ha⟩ := mem_openIds.1 hid
  obtain ⟨-, parent, hblock⟩ := hinv.chain.mem ha
  exact (hinv.started a id parent ha hblock).mem

/-- The block of an object moves to another while tracing is disabled. -/
theorem traceBlocks_nest_moved :
    ∃ s : Sys Unit Bool,
      run step (start Unit Bool)
        [.enable, .construct () false "my_block" 1, .disable, .moveConstruct true false, .close true 2] = some s ∧
      s.getRequestData.blockId = s.innermost ∧
      (∀ p ∈ s.tracePoints, Paired s.tracePoints s.openIds p.blockId) ∧
      (∀ id ∈ s.openIds, ∃ p ∈ s.tracePoints, p.blockId = id) ∧
      ∀ op s', step s op = some s' → Untraced s op → s'.tracePoints = s.tracePoints := by
  have hrun := Option.some_get (show (run step (start Unit Bool)
    [.enable, .construct () false "my_block" 1, .disable, .moveConstruct true false, .close true 2]).isSome = true by
      decide +kernel)
  exact ⟨_, hrun.symm, traceBlocks_nest _ _ hrun.symm (by decide +kernel) (by decide +kernel)⟩

/-! ### The last ID -/

theorem run_generate {ids : IDGen.Sys Tid} :
    ∀ (schedule : List Tid) (s : Sys Tid Obj), run IDGen.step s.ids schedule = some ids →
      run step s (schedule.map .generate) = some { s with ids := ids } := by
  intro schedule
  induction schedule with
  | nil =>
    intro s h
    obtain rfl : s.ids = ids := by simpa using h
    rfl
  | cons t schedule ih =>
    intro s h
    obtain ⟨ids₁, h₁, h₂⟩ := run_cons_eq_some.1 h
    have hstep : step s (.generate t) = some { s with ids := ids₁ } := by
      simp only [Nest.step, h₁, Option.map_some]
    rw [List.map_cons, run_cons hstep]
    exact ih { s with ids := ids₁ } h₂

/-- **The ID 0.** A block that is given the ID behind 2 ^ 64 - 1 traces its start and no stop. -/
theorem traceBlocks_nest_wrapped :
    ¬ ∀ (ops : List (Op Unit Unit)) (s : Sys Unit Unit), run step (start Unit Unit) ops = some s →
      AllSteps step WellNested (start Unit Unit) ops →
      s.getRequestData.blockId = s.innermost ∧
        ∀ p ∈ s.tracePoints, Paired s.tracePoints s.openIds p.blockId := by
  intro h
  obtain ⟨schedule, ids, hids, hpc, hlocal, -⟩ := IDGen.run_calls (2 ^ 64 - 1) (by omega)
  have hrun := run_generate schedule (start Unit Unit) hids
  -- the next ID is 0, and the request's trace ID is the first of a range
  have hlast : IDGen.addU64 (2 ^ 64 - 1) 1 = 0 := by decide
  have hgen := IDGen.generateUniqueID_of_mod_ne hpc (by rw [hlocal]; decide)
  rw [hlocal, hlast] at hgen
  obtain ⟨ids₁, hids₁⟩ : ∃ ids₁, ids₁ = (ids.load ()).increment () (2 ^ 64 - 1) := ⟨_, rfl⟩
  rw [← hids₁] at hgen
  have hpc₁ : ids₁.pc () = .idle := by
    rw [hids₁]
    simp [IDGen.Sys.increment]
  have hlocal₁ : ids₁.localCounter () % IDGen.kRangeSize = 0 := by
    rw [hids₁]
    unfold IDGen.Sys.increment
    simp only [Function.update_self]
    rw [hlast]
    rfl
  obtain ⟨traceId, ids₂, htrace⟩ : ∃ traceId ids₂, IDGen.generateUniqueID ids₁ () = some (traceId, ids₂) :=
    ⟨_, _, IDGen.generateUniqueID_of_mod_eq hpc₁ hlocal₁⟩
  let s₁ : Sys Unit Unit := ⟨true, none, ids, fun _ => none, [], []⟩
  let s₂ : Sys Unit Unit := ⟨true, some ⟨traceId, 0⟩, ids₂, Function.update (fun _ => none) () (some ⟨0, 0⟩),
    [⟨0, traceId, 0, 0, some "my_block", true, false⟩], [⟨(), some 0⟩]⟩
  have henable : step { start Unit Unit with ids := ids } .enable = some s₁ := rfl
  have hconstruct : step s₁ (.construct () () "my_block" 0) = some s₂ := by
    simp [step, Sys.construct, Sys.getTraceId, Sys.getRequestData, s₁, s₂, hgen, htrace]
  have hdestroy : step s₂ (.destroy () 1) =
      some ⟨true, s₂.requestData, ids₂, Function.update s₂.blocks () none, s₂.tracePoints, []⟩ := by
    simp [step, Sys.close, s₂]
  have hnest : AllSteps step WellNested { start Unit Unit with ids := ids }
      [.enable, .construct () () "my_block" 0, .destroy () 1] := by
    rw [allSteps_cons henable, allSteps_cons hconstruct, allSteps_cons hdestroy]
    refine ⟨fun a ha => ?_, fun a ha => ?_, fun a _ id hid => ?_, trivial⟩
    · cases ha
    · cases ha
    · obtain rfl : id = 0 := by simpa [Sys.tracedOpen, s₂] using hid
      rfl
  obtain ⟨-, hpaired⟩ := h (schedule.map .generate ++ [.enable, .construct () () "my_block" 0, .destroy () 1]) _
    (by rw [run_append, hrun, Option.bind_some, run_cons henable, run_cons hconstruct, run_cons hdestroy, run_nil])
    (AllSteps.append (AllSteps.of_forall (fun op hop s a ha => by
      obtain ⟨t, -, rfl⟩ := List.mem_map.1 hop
      cases ha) _) fun s' hs' => by
        obtain rfl := Option.some.inj (hrun.symm.trans hs')
        exact hnest)
  have hpoint := hpaired ⟨0, traceId, 0, 0, some "my_block", true, false⟩ (List.mem_singleton_self _)
  obtain ⟨p, q, hpq, -⟩ : ∃ p q, pointsOf s₂.tracePoints 0 = [p, q] ∧ Matches p q := hpoint
  simp [pointsOf, s₂] at hpq

end Nest

end Tracing

end EdenCommon
