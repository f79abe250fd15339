import EdenCommon.Proof.RefPtr

/-!
# Releases

A release keeps its RefPtr counted until it gives the reference back, by the decrement or,
without one, by deleting the object as the only owner there is. Behind it the operation
moves ownership among its own operands (`Moves`). So no interleaving deletes an object that
has an owner, or deletes one twice, as long as no operation names a RefPtr that a release
under way has as an operand (`refcounts`). A move assignment reads its operand behind the
release, so that the destructor of the object that it deletes must not have it destroyed;
`list_pop` is what happens otherwise.
-/

namespace EdenCommon

namespace RefPtr

open Lib Sys

variable {statics : Bits → Bool} {s s' : Sys} {a k that i : ℕ} {p q : RefPtr} {x y : Bits} {r t : Release}
  {o : RefCounted} {ptrs ptrs' : List RefPtr} {releases releases' : List Release}
  {heap heap' : Bits → Option RefCounted} {rest : Rest} {ks ks' : List ℕ}

/-! ### Ownership that moves -/

/-- The references of the RefPtrs `ks` are moved among them and to new ones. -/
structure Moves (ptrs ptrs' : List RefPtr) (ks : List ℕ) : Prop where
  other : ∀ k < ptrs.length, k ∉ ks → ptrs'[k]? = ptrs[k]?
  released : ∀ (k : ℕ) p, ptrs'[k]? = some p → p.released = true → k ∉ ks ∧ ptrs[k]? = some p
  owners : ∀ x, ptrs'.countP (owns x) = ptrs.countP (owns x)
  source : ∀ (k : ℕ) (p : RefPtr) x, ptrs'[k]? = some p → p.owns x = true →
    ∃ j q, ptrs[j]? = some q ∧ q.owns x = true ∧ (j = k ∨ j ∈ ks)

theorem Inv.moves (hinv : Inv statics s) (hm : Moves s.ptrs ptrs' ks)
    (hactive : ∀ (i : ℕ) (r : Release), releases'[i]? = some r → r.pc ≠ .done → s.releases[i]? = some r)
    (hkeep : ∀ r ∈ s.releases, r.pc ≠ .done → r ∈ releases' ∨ (r.pc = .rest ∧ r.a ∈ ks))
    (hidle : ∀ k ∈ ks, ∀ r ∈ releases', r.pc ≠ .done → k ∉ r.rest.operands r.a) :
    Inv statics { s with ptrs := ptrs', releases := releases' } where
  objects := hinv.objects
  counted := by
    refine hinv.counted.congr hm.owners ?_
    rintro x ⟨r, hr, hpc, hx⟩
    obtain hr' | ⟨hrest, -⟩ := hkeep r hr (by rw [hpc]; nofun)
    · exact ⟨r, hr', hpc, hx⟩
    · rw [hpc] at hrest
      cases hrest
  releases := by
    have hmem : ∀ r ∈ releases', r.pc ≠ .done → r ∈ s.releases := by
      intro r hr hpc
      obtain ⟨i, hi⟩ := List.mem_iff_getElem?.1 hr
      exact List.mem_of_getElem? (hactive i r hi hpc)
    refine hinv.releases.edit hactive (fun r hr hpc k hk => ?_) (fun r hr hpc => ?_) (fun k p x hp hown _ => ?_)
      fun k p hp hrel => ?_
    · exact hm.other k (hinv.releases.operand_lt (hmem r hr hpc) hpc hk) fun hks => hidle k hks r hr hpc hk
    · exact (hinv.releases.alone r (hmem r hr (by rw [hpc]; nofun)) hpc).1
    · obtain ⟨j, q, hq, hqo, hj⟩ := hm.source k p x hp hown
      exact ⟨j, q, hq, hqo, hj.imp_right fun hks => hidle j hks⟩
    · obtain ⟨hks, hp'⟩ := hm.released k p hp hrel
      obtain ⟨r, hr, hpc, rfl⟩ := hinv.releases.released k p hp' hrel
      obtain hr' | ⟨-, hra⟩ := hkeep r hr hpc
      · exact ⟨r, hr', hpc, rfl⟩
      · exact absurd hra hks
  no_fault := hinv.no_fault

/-- A RefPtr without a reference gets new bits that own nothing. -/
theorem moves_modify {f : RefPtr → RefPtr} (hp : ptrs[a]? = some p) (hnot : ∀ x, p.owns x = false)
    (hf : ∀ x, (f p).owns x = false) (hr : (f p).released = false) (hks : ∀ k, k ∈ ks ↔ k = a) :
    Moves ptrs (ptrs.modify a f) ks where
  other := fun k _ hk => List.getElem?_modify_ne _ _ fun e => hk ((hks k).2 e.symm)
  released := by
    intro k p' hp' hrel
    by_cases hk : a = k
    · subst hk
      rw [List.getElem?_modify_eq, hp] at hp'
      rw [← Option.some.inj hp', hr] at hrel
      cases hrel
    · rw [List.getElem?_modify_ne _ _ hk] at hp'
      exact ⟨fun h => hk ((hks k).1 h).symm, hp'⟩
  owners := by
    intro x
    have := countP_modify_add (owns x) f hp
    rw [hnot x, hf x] at this
    exact this
  source := by
    intro k p' x hp' hown
    by_cases hk : a = k
    · subst hk
      rw [List.getElem?_modify_eq, hp] at hp'
      rw [← Option.some.inj hp', hf x] at hown
      cases hown
    · rw [List.getElem?_modify_ne _ _ hk] at hp'
      exact ⟨k, p', hp', hown, .inl rfl⟩

/-- The bits of `that` go to a RefPtr without a reference. -/
theorem moves_assign (hp : ptrs[a]? = some p) (hc : p.constructed = true) (hnot : ∀ x, p.owns x = false)
    (hq : ptrs[that]? = some q) (hqc : q.constructed = true) (hqr : q.released = false) (hne : that ≠ a) :
    Moves ptrs ((ptrs.modify a fun p => { p with ptr_ := q.ptr_, released := false }).modify that fun p =>
      { p with ptr_ := kNull }) [a, that] := by
  set f : RefPtr → RefPtr := fun p => { p with ptr_ := q.ptr_, released := false }
  have hfp : ∀ x, (f p).owns x = q.owns x := by
    intro x
    simp [f, owns, hc, hqc, hqr, hasOwnedBit, get]
  have hnull : ∀ x, ({ q with ptr_ := kNull } : RefPtr).owns x = false := owns_of_null rfl
  have hq1 : (ptrs.modify a f)[that]? = some q := (List.getElem?_modify_ne _ _ hne.symm).trans hq
  -- `that` is empty, `a` has its bits, and the others are as before
  have hget : ∀ (k : ℕ) p', ((ptrs.modify a f).modify that fun p => { p with ptr_ := kNull })[k]? = some p' →
      (k = that ∧ p' = { q with ptr_ := kNull }) ∨ (k = a ∧ p' = f p) ∨
        (k ≠ that ∧ k ≠ a ∧ ptrs[k]? = some p') := by
    intro k p' hp'
    by_cases hkt : that = k
    · subst hkt
      rw [List.getElem?_modify_eq, hq1] at hp'
      exact .inl ⟨rfl, (Option.some.inj hp').symm⟩
    · rw [List.getElem?_modify_ne _ _ hkt] at hp'
      by_cases hka : a = k
      · subst hka
        rw [List.getElem?_modify_eq, hp] at hp'
        exact .inr (.inl ⟨rfl, (Option.some.inj hp').symm⟩)
      · rw [List.getElem?_modify_ne _ _ hka] at hp'
        exact .inr (.inr ⟨Ne.symm hkt, Ne.symm hka, hp'⟩)
  refine ⟨fun k _ hk => ?_, fun k p' hp' hrel => ?_, fun x => ?_, fun k p' x hp' hown => ?_⟩
  · have hka : a ≠ k := fun e => hk (e ▸ List.mem_cons_self)
    have hkt : that ≠ k := fun e => hk (e ▸ List.mem_cons_of_mem _ List.mem_cons_self)
    rw [List.getElem?_modify_ne _ _ hkt, List.getElem?_modify_ne _ _ hka]
  · obtain ⟨-, rfl⟩ | ⟨-, rfl⟩ | ⟨hkt, hka, hp'⟩ := hget k p' hp'
    · exact absurd hrel (by simp [hqr])
    · cases hrel
    · exact ⟨by simp [hkt, hka], hp'⟩
  · have h1 := countP_modify_add (owns x) f hp
    -- what `a` owns more, `that` owns less
    have h2 := countP_modify_add (owns x) (fun p => { p with ptr_ := kNull }) hq1
    rw [hnot x, hfp x] at h1
    rw [hnull x] at h2
    simp only [Bool.toNat_false, Nat.add_zero] at h1 h2
    omega
  · obtain ⟨-, rfl⟩ | ⟨-, rfl⟩ | ⟨-, -, hp'⟩ := hget k p' hp'
    · rw [hnull x] at hown
      cases hown
    · rw [hfp x] at hown
      exact ⟨that, q, hq, hown, .inr (List.mem_cons_of_mem _ List.mem_cons_self)⟩
    · exact ⟨k, p', hp', hown, .inl rfl⟩

/-- Behind `decRef`, where the RefPtr has no reference any more. -/
theorem finish_moves (hp : s.ptrs[a]? = some p) (hc : p.constructed = true) (hnot : ∀ x, p.owns x = false)
    (hthat : ∀ that, rest = .assign that → that ≠ a →
      ∃ q, s.ptrs[that]? = some q ∧ q.constructed = true ∧ q.released = false) :
    ∃ ptrs', finish s a rest = { s with ptrs := ptrs' } ∧ Moves s.ptrs ptrs' (rest.operands a) := by
  cases rest with
  | reset => exact ⟨_, rfl, moves_modify hp hnot (owns_of_null rfl) rfl (by simp [Rest.operands])⟩
  | destroy =>
    refine ⟨_, rfl, moves_modify hp hnot (fun x => ?_) rfl (by simp [Rest.operands])⟩
    simp [owns]
  | assign that =>
    by_cases hta : that = a
    · -- assigned to itself, it is empty
      subst hta
      refine ⟨s.ptrs.modify that ((fun p => { p with ptr_ := kNull }) ∘ fun p' =>
        { p' with ptr_ := p.ptr_, released := false }), ?_, moves_modify hp hnot (owns_of_null rfl) rfl
        (by simp [Rest.operands])⟩
      rw [finish, hp, ← List.modify_modify_eq]
      rfl
    · obtain ⟨q, hq, hqc, hqr⟩ := hthat that rfl hta
      refine ⟨_, ?_, moves_assign hp hc hnot hq hqc hqr hta⟩
      rw [finish, hq]
      rfl

theorem Inv.move (hinv : Inv statics s) (hidle : Idle s that) (h : move s that = some s') : Inv statics s' := by
  obtain ⟨p, hlive, rfl⟩ := Option.map_eq_some_iff.1 h
  obtain ⟨hp, hc⟩ := live_eq_some.1 hlive
  have hr := hidle.not_released hinv hp
  have hcopy := owns_copy hc hr
  set f : RefPtr → RefPtr := fun p => { p with ptr_ := kNull }
  have hnull : ∀ x, (f p).owns x = false := owns_of_null rfl
  have hlen : (s.modify that f).ptrs.length = s.ptrs.length := List.length_modify _ _ _
  have hget : ∀ (k : ℕ) p', ((s.modify that f).construct { ptr_ := p.ptr_ }).ptrs[k]? = some p' →
      (k = s.ptrs.length ∧ p' = { ptr_ := p.ptr_ }) ∨ (k = that ∧ p' = f p) ∨ (k ≠ that ∧ s.ptrs[k]? = some p') := by
    intro k p' hp'
    rcases getElem?_construct hp' with hp' | ⟨hk, rfl⟩
    · by_cases hkt : that = k
      · subst hkt
        rw [Sys.modify, List.getElem?_modify_eq, hp] at hp'
        exact .inr (.inl ⟨rfl, (Option.some.inj hp').symm⟩)
      · rw [Sys.modify, List.getElem?_modify_ne _ _ hkt] at hp'
        exact .inr (.inr ⟨Ne.symm hkt, hp'⟩)
    · exact .inl ⟨hk.trans hlen, rfl⟩
  have hmoves : Moves s.ptrs ((s.modify that f).construct { ptr_ := p.ptr_ }).ptrs [that] := by
    refine ⟨fun k hk hkt => ?_, fun k p' hp' hrel => ?_, fun x => ?_, fun k p' x hp' hown => ?_⟩
    · rw [getElem?_construct_of_lt (hlen ▸ hk)]
      exact List.getElem?_modify_ne _ _ fun e => hkt (List.mem_singleton.2 e.symm)
    · obtain ⟨-, rfl⟩ | ⟨-, rfl⟩ | ⟨hkt, hp'⟩ := hget k p' hp'
      · cases hrel
      · exact absurd hrel (by simp [f, hr])
      · exact ⟨by simpa using hkt, hp'⟩
    · have h1 := owners_construct (s := s.modify that f) (p := { ptr_ := p.ptr_ }) x
      have h2 := owners_modify hp f x
      rw [hcopy x] at h1
      rw [hnull x] at h2
      simp only [Bool.toNat_false, Nat.add_zero] at h2
      exact h1.trans h2
    · obtain ⟨-, rfl⟩ | ⟨-, rfl⟩ | ⟨-, hp'⟩ := hget k p' hp'
      · rw [hcopy x] at hown
        exact ⟨that, p, hp, hown, .inr List.mem_cons_self⟩
      · rw [hnull x] at hown
        cases hown
      · exact ⟨k, p', hp', hown, .inl rfl⟩
  refine hinv.moves hmoves (fun _ _ hi _ => hi) (fun r hr' _ => .inl hr') fun k hk => ?_
  exact List.mem_singleton.1 hk ▸ hidle

/-- The casts keep the bits. -/
theorem convert_eq_move (s : Sys) (that : ℕ) : convert s that = RefPtr.move s that := by
  unfold convert RefPtr.move
  simp only [convert_ptr_eq]

/-! ### The start and the end of a release -/

theorem getElem?_append_singleton (h : (releases ++ [r])[i]? = some t) :
    releases[i]? = some t ∨ (i = releases.length ∧ t = r) := by
  rw [List.getElem?_append] at h
  split at h
  · exact .inl h
  · rename_i hlt
    have hi : i - releases.length = 0 := by
      by_contra hne
      rw [List.getElem?_eq_none (by simp; omega)] at h
      cases h
    rw [hi] at h
    exact .inr ⟨by omega, (Option.some.inj h).symm⟩

theorem Releases.begin (h : Releases ptrs releases heap) (hpc : r.pc = .load) (hp : ptrs[r.a]? = some p)
    (hown : p.owns r.object = true)
    (hthat : ∀ that, r.rest = .assign that → that ≠ r.a →
      ∃ q, ptrs[that]? = some q ∧ q.constructed = true ∧ q.released = false)
    (hidle : ∀ t ∈ releases, t.pc ≠ .done → ∀ k ∈ r.rest.operands r.a, k ∉ t.rest.operands t.a) :
    Releases ptrs (releases ++ [r]) heap := by
  have hdel : r.pc ≠ .delete := by rw [hpc]; nofun
  refine ⟨fun t ht hact => ?_, fun t ht ht' => ?_, fun t ht hact => ?_, fun i j t u hi hj ht hu hij => ?_,
    fun i j t u hi hj ht hu ho => ?_, fun k p' hp' hrel => ?_⟩
  · rcases List.mem_append.1 ht with ht | ht
    · exact h.ptr t ht hact
    · rw [List.mem_singleton.1 ht, hpc]
      exact ⟨p, hp, (owns_iff.1 hown).1, hown⟩
  · rcases List.mem_append.1 ht with ht | ht
    · exact h.alone t ht ht'
    · exact absurd (List.mem_singleton.1 ht ▸ ht') hdel
  · rcases List.mem_append.1 ht with ht | ht
    · exact h.that t ht hact
    · rw [List.mem_singleton.1 ht]
      exact hthat
  · rcases getElem?_append_singleton hi with hi' | ⟨rfl, rfl⟩ <;>
      rcases getElem?_append_singleton hj with hj' | ⟨rfl, rfl⟩
    · exact h.disjoint i j t u hi' hj' ht hu hij
    · exact fun k hk hk' => hidle t (List.mem_of_getElem? hi') ht k hk' hk
    · exact hidle u (List.mem_of_getElem? hj') hu
    · exact absurd rfl hij
  · rcases getElem?_append_singleton hi with hi | ⟨-, rfl⟩
    · rcases getElem?_append_singleton hj with hj | ⟨-, rfl⟩
      · exact h.one_delete i j t u hi hj ht hu ho
      · exact absurd hu hdel
    · exact absurd ht hdel
  · obtain ⟨t, ht, hact, hta⟩ := h.released k p' hp' hrel
    exact ⟨t, List.mem_append_left _ ht, hact, hta⟩

/-- A release begins, or there is nothing to release. -/
theorem Inv.release (hinv : Inv statics s) (hidle : ∀ k ∈ rest.operands a, Idle s k)
    (hthat : ∀ that, rest = .assign that → (s.live that).isSome) (h : release s a rest = some s') :
    Inv statics s' := by
  obtain ⟨p, hlive, rfl⟩ := Option.map_eq_some_iff.1 h
  obtain ⟨hp, hc⟩ := live_eq_some.1 hlive
  have hr := (hidle a (mem_operands_self rest a)).not_released hinv hp
  have hthat' : ∀ that, rest = .assign that → that ≠ a →
      ∃ q, s.ptrs[that]? = some q ∧ q.constructed = true ∧ q.released = false := by
    rintro that rfl -
    obtain ⟨q, hq⟩ := Option.isSome_iff_exists.1 (hthat that rfl)
    obtain ⟨hq, hqc⟩ := live_eq_some.1 hq
    refine ⟨q, hq, hqc, Idle.not_released (hidle that ?_) hinv hq⟩
    exact List.mem_cons_of_mem _ List.mem_cons_self
  by_cases hbit : p.hasOwnedBit = true
  · rw [if_pos hbit]
    refine ⟨hinv.objects, hinv.counted.congr (fun _ => rfl) ?_, ?_, hinv.no_fault⟩
    · rintro x ⟨r, hr', hpc, hx⟩
      exact ⟨r, List.mem_append_left _ hr', hpc, hx⟩
    · exact hinv.releases.begin rfl hp (owns_iff.2 ⟨hc, hr, hbit, rfl⟩) hthat'
        fun t ht hact k hk => hidle k hk t ht hact
  · rw [if_neg hbit]
    rw [Bool.not_eq_true] at hbit
    obtain ⟨ptrs', hfin, hmoves⟩ := finish_moves hp hc (owns_of_no_bit hbit) hthat'
    rw [hfin]
    exact hinv.moves hmoves (fun _ _ hi _ => hi) (fun r hr' _ => .inl hr') hidle

theorem getElem?_set_cases {r' : Release} {j : ℕ} (h : (releases.set i r')[j]? = some t) :
    (j = i ∧ t = r') ∨ (j ≠ i ∧ releases[j]? = some t) := by
  by_cases hj : i = j
  · subst hj
    obtain ⟨hlt, hget⟩ := List.getElem?_eq_some_iff.1 h
    rw [List.getElem_set_self] at hget
    exact .inl ⟨rfl, hget.symm⟩
  · rw [List.getElem?_set_ne hj] at h
    exact .inr ⟨Ne.symm hj, h⟩

theorem mem_set_of_ne {r' : Release} {j : ℕ} (hj : j ≠ i) (h : releases[j]? = some t) : t ∈ releases.set i r' :=
  List.mem_of_getElem? ((List.getElem?_set_ne (Ne.symm hj)).trans h)

/-- Behind `decRef` the reference is gone, and the operation goes on with its operands. -/
theorem Inv.returned (hinv : Inv statics s) (hi : s.releases[i]? = some r) (hpc : r.pc = .rest) :
    Inv statics (finish (s.advance i r .done) r.a r.rest) := by
  have hmem := List.mem_of_getElem? hi
  have hact : r.pc ≠ .done := by rw [hpc]; nofun
  obtain ⟨p, hp, hc, hrel⟩ := hinv.releases.ptr r hmem hact
  rw [hpc] at hrel
  obtain ⟨ptrs', hfin, hmoves⟩ := finish_moves (s := s.advance i r .done) hp hc (owns_of_released hrel)
    (hinv.releases.that r hmem hact)
  rw [hfin]
  show Inv statics { s with ptrs := ptrs', releases := s.releases.set i { r with pc := .done } }
  refine hinv.moves hmoves (fun j t hj ht => ?_) (fun t ht htact => ?_) fun k hk t ht htact => ?_
  · obtain ⟨-, rfl⟩ | ⟨-, hj⟩ := getElem?_set_cases hj
    · exact absurd rfl ht
    · exact hj
  · obtain ⟨j, hj⟩ := List.mem_iff_getElem?.1 ht
    by_cases hji : j = i
    · subst hji
      obtain rfl := Option.some.inj (hi.symm.trans hj)
      exact .inr ⟨hpc, mem_operands_self _ _⟩
    · exact .inl (mem_set_of_ne hji hj)
  · obtain ⟨j, hj⟩ := List.mem_iff_getElem?.1 ht
    obtain ⟨-, rfl⟩ | ⟨hji, hj⟩ := getElem?_set_cases hj
    · exact absurd rfl htact
    · exact hinv.releases.disjoint i j r t hi hj hact htact (Ne.symm hji) k hk

/-! ### `decRef` -/

/-- An owner whose release goes on shares its object with no release that is to delete it. -/
theorem Releases.other_delete (h : Releases ptrs releases heap) (hi : releases[i]? = some r) (hact : r.pc ≠ .done)
    (hp : ptrs[r.a]? = some p) (hown : p.owns r.object = true) {j : ℕ} (hji : j ≠ i)
    (hj : releases[j]? = some t) (ht : t.pc = .delete) : t.object ≠ r.object := by
  intro ho
  have hta : r.a = t.a := (h.alone t (List.mem_of_getElem? hj) ht).2 r.a p hp (ho ▸ hown)
  have hdis := h.disjoint i j r t hi hj hact (by rw [ht]; nofun) (Ne.symm hji) r.a (mem_operands_self _ _)
  exact hdis (hta ▸ mem_operands_self _ _)

/-- A release takes a step on its own RefPtr. -/
theorem Releases.advance (h : Releases ptrs releases heap) (hi : releases[i]? = some r) (hact : r.pc ≠ .done)
    {pc : Pc} (hpc : pc ≠ .done) (hother : ∀ k, k ≠ r.a → ptrs'[k]? = ptrs[k]?)
    (hfrom : ∀ (k : ℕ) (p : RefPtr) x, ptrs'[k]? = some p → p.owns x = true →
      ∃ q, ptrs[k]? = some q ∧ q.owns x = true)
    (hptr : ∃ p, ptrs'[r.a]? = some p ∧ p.constructed = true ∧ PcOk r.object p pc)
    (hlive : ∀ (j : ℕ) (t : Release), j ≠ i → releases[j]? = some t → t.pc = .delete →
      (refcnt heap' t.object).isSome)
    (hdelete : pc = .delete → (refcnt heap' r.object).isSome ∧
      (∀ (k : ℕ) (p : RefPtr), ptrs'[k]? = some p → p.owns r.object = true → k = r.a) ∧
      ∀ (j : ℕ) (t : Release), j ≠ i → releases[j]? = some t → t.pc = .delete → t.object ≠ r.object) :
    Releases ptrs' (releases.set i { r with pc := pc }) heap' := by
  have hmem := List.mem_of_getElem? hi
  have hlt := (List.getElem?_eq_some_iff.1 hi).1
  have hself : { r with pc := pc } ∈ releases.set i { r with pc := pc } :=
    List.mem_of_getElem? (List.getElem?_set_self hlt)
  have hothers : ∀ t ∈ releases.set i { r with pc := pc },
      t = { r with pc := pc } ∨ ∃ j, j ≠ i ∧ releases[j]? = some t := by
    intro t ht
    obtain ⟨j, hj⟩ := List.mem_iff_getElem?.1 ht
    obtain ⟨-, rfl⟩ | ⟨hji, hj⟩ := getElem?_set_cases hj
    · exact .inl rfl
    · exact .inr ⟨j, hji, hj⟩
  -- the operands of another release are not this one's RefPtr
  have hapart : ∀ (j : ℕ) t, j ≠ i → releases[j]? = some t → t.pc ≠ .done → ∀ k ∈ t.rest.operands t.a, k ≠ r.a := by
    rintro j t hji hj ht k hk rfl
    exact h.disjoint i j r t hi hj hact ht (Ne.symm hji) r.a (mem_operands_self _ _) hk
  refine ⟨fun t ht htact => ?_, fun t ht htd => ?_, fun t ht htact that hrest hne => ?_,
    fun j l t u hj hl htact huact hjl => ?_, fun j l t u hj hl htd hud ho => ?_, fun k p hp hrel => ?_⟩
  · obtain rfl | ⟨j, hji, hj⟩ := hothers t ht
    · exact hptr
    · obtain ⟨p, hp, hok⟩ := h.ptr t (List.mem_of_getElem? hj) htact
      exact ⟨p, (hother _ (hapart j t hji hj htact t.a (mem_operands_self _ _))).trans hp, hok⟩
  · obtain rfl | ⟨j, hji, hj⟩ := hothers t ht
    · exact ⟨(hdelete htd).1, (hdelete htd).2.1⟩
    · refine ⟨hlive j t hji hj htd, fun k p hp hown => ?_⟩
      obtain ⟨q, hq, hqo⟩ := hfrom k p _ hp hown
      exact (h.alone t (List.mem_of_getElem? hj) htd).2 k q hq hqo
  · obtain rfl | ⟨j, hji, hj⟩ := hothers t ht
    · obtain ⟨q, hq, hok⟩ := h.that r hmem hact that hrest hne
      exact ⟨q, (hother that hne).trans hq, hok⟩
    · obtain ⟨q, hq, hok⟩ := h.that t (List.mem_of_getElem? hj) htact that hrest hne
      refine ⟨q, (hother that (hapart j t hji hj htact that ?_)).trans hq, hok⟩
      rw [hrest]
      exact List.mem_cons_of_mem _ List.mem_cons_self
  · rcases getElem?_set_cases hj with ⟨rfl, rfl⟩ | ⟨hji, hj'⟩ <;>
      rcases getElem?_set_cases hl with ⟨rfl, rfl⟩ | ⟨hli, hl'⟩
    · exact absurd rfl hjl
    · exact h.disjoint _ l r u hi hl' hact huact hjl
    · exact h.disjoint j _ t r hj' hi htact hact hjl
    · exact h.disjoint j l t u hj' hl' htact huact hjl
  · rcases getElem?_set_cases hj with ⟨rfl, rfl⟩ | ⟨hji, hj'⟩ <;>
      rcases getElem?_set_cases hl with ⟨rfl, rfl⟩ | ⟨hli, hl'⟩
    · rfl
    · exact absurd ho.symm ((hdelete htd).2.2 l u hli hl' hud)
    · exact absurd ho ((hdelete hud).2.2 j t hji hj' htd)
    · exact h.one_delete j l t u hj' hl' htd hud ho
  · by_cases hk : k = r.a
    · exact ⟨_, hself, hpc, hk.symm⟩
    · rw [hother k hk] at hp
      obtain ⟨t, ht, htact, rfl⟩ := h.released k p hp hrel
      obtain ⟨j, hj⟩ := List.mem_iff_getElem?.1 ht
      have hji : j ≠ i := by
        rintro rfl
        exact hk (congrArg Release.a (Option.some.inj (hj.symm.trans hi)))
      exact ⟨t, mem_set_of_ne hji hj, htact, rfl⟩

/-- The other releases go on to doom what they did. -/
theorem doomed_set {pc : Pc} (hi : releases[i]? = some r) (hx : x ≠ r.object ∨ r.pc ≠ .delete)
    (h : Doomed releases x) : Doomed (releases.set i { r with pc := pc }) x := by
  obtain ⟨t, ht, htd, rfl⟩ := h
  obtain ⟨j, hj⟩ := List.mem_iff_getElem?.1 ht
  refine ⟨t, mem_set_of_ne (fun e => ?_) hj, htd, rfl⟩
  obtain rfl := Option.some.inj (hi.symm.trans (e ▸ hj))
  exact hx.elim (fun h => h rfl) fun h => h htd

theorem doomed_self (hi : releases[i]? = some r) : Doomed (releases.set i { r with pc := .delete }) r.object :=
  ⟨_, List.mem_of_getElem? (List.getElem?_set_self (List.getElem?_eq_some_iff.1 hi).1), rfl, rfl⟩

/-- A RefPtr that owns one object owns no other. -/
theorem owns_of_ne (h : p.owns x = true) (hy : y ≠ x) : p.owns y = false := by
  rw [Bool.eq_false_iff]
  intro h'
  exact hy ((owns_iff.1 h').2.2.2.symm.trans (owns_iff.1 h).2.2.2)

theorem owners_giveBack (hp : s.ptrs[a]? = some p) (x : Bits) :
    (s.giveBack a).owners x + (p.owns x).toNat = s.owners x := by
  have h := owners_modify hp (fun p => { p with released := true }) x
  rw [owns_of_released (p := { p with released := true }) rfl] at h
  exact h

theorem getElem?_giveBack_of_ne (hk : k ≠ a) : (s.giveBack a).ptrs[k]? = s.ptrs[k]? :=
  List.getElem?_modify_ne _ _ (Ne.symm hk)

theorem getElem?_giveBack (hp : s.ptrs[a]? = some p) :
    (s.giveBack a).ptrs[a]? = some { p with released := true } := by
  unfold Sys.giveBack Sys.modify
  rw [List.getElem?_modify_eq, hp]
  rfl

theorem owns_giveBack (hp : s.ptrs[a]? = some p) (hq : (s.giveBack a).ptrs[k]? = some q) (hown : q.owns x = true) :
    k ≠ a ∧ s.ptrs[k]? = some q := by
  by_cases hk : k = a
  · subst hk
    rw [getElem?_giveBack hp] at hq
    rw [← Option.some.inj hq, owns_of_released rfl] at hown
    cases hown
  · exact ⟨hk, (getElem?_giveBack_of_ne hk).symm.trans hq⟩

/-- The load: with a count of one, this is the only owner. -/
theorem Inv.load (hinv : Inv statics s) (hi : s.releases[i]? = some r) (hp : s.ptrs[r.a]? = some p)
    (hact : r.pc = .load) (hown : p.owns r.object = true) (ho : s.heap r.object = some o)
    (hn : o.number.isSome) : Inv statics (s.advance i r (if o.refcnt_ = 1 then .delete else .sub)) := by
  have hactive : r.pc ≠ .done := by rw [hact]; nofun
  have hrefcnt := refcnt_eq_some ho hn
  refine ⟨hinv.objects, hinv.counted.congr (fun _ => rfl) fun x h => ?_, ?_, hinv.no_fault⟩
  · exact doomed_set hi (.inr (by rw [hact]; nofun)) h
  · refine hinv.releases.advance hi hactive ?_ (fun _ _ => rfl) (fun k p x hp hx => ⟨p, hp, hx⟩)
      ⟨p, hp, (owns_iff.1 hown).1, ?_⟩ (fun j t _ hj ht => ?_) fun hpc => ⟨?_, fun k q hq hqo => ?_, ?_⟩
    · split <;> nofun
    · split
      · exact .inr hown
      · exact hown
    · exact (hinv.releases.alone t (List.mem_of_getElem? hj) ht).1
    · show (refcnt s.heap r.object).isSome
      rw [hrefcnt]
      rfl
    · have hone : o.refcnt_ = 1 := by
        by_contra hne
        rw [if_neg hne] at hpc
        cases hpc
      have hcount : s.owners r.object = 1 := hinv.counted.owners_eq_one (by rw [hrefcnt, hone])
      exact eq_of_countP_le_one (owns r.object) hcount.le hq hp hqo hown
    · exact fun j t hji hj ht => hinv.releases.other_delete hi hactive hp hown hji hj ht

/-- The decrement: who takes the count from one to zero was the only owner. -/
theorem Inv.sub (hinv : Inv statics s) (hi : s.releases[i]? = some r) (hp : s.ptrs[r.a]? = some p)
    (hact : r.pc = .sub) (hown : p.owns r.object = true) (ho : s.heap r.object = some o)
    (hn : o.number.isSome) (h : decRef s i r o .sub = some s') : Inv statics s' := by
  obtain rfl := Option.some.inj h
  have hactive : r.pc ≠ .done := by rw [hact]; nofun
  have hrefcnt := refcnt_eq_some ho hn
  have hcount := hinv.counted.eq _ _ hrefcnt
  have hgive := owners_giveBack hp r.object
  rw [hown, Bool.toNat_true] at hgive
  have hupdate : refcnt (Function.update s.heap r.object (some { o with refcnt_ := o.refcnt_ - 1 })) =
      Function.update (refcnt s.heap) r.object (some (o.refcnt_ - 1)) := refcnt_update hn _
  refine ⟨hinv.objects.setRefcnt ho hn _, ?_, ?_, hinv.no_fault⟩
  · show Counted (s.giveBack r.a).owners (refcnt (Function.update s.heap r.object _)) _
    rw [hupdate]
    refine hinv.counted.change (fun y hy => ?_) ?_ ?_ fun y hy h => doomed_set hi (.inl hy) h
    · have h := owners_giveBack hp y
      rwa [owns_of_ne hown hy] at h
    · omega
    · by_cases hone : o.refcnt_ = 1
      · rw [if_pos hone]
        -- from one to zero: no owner is left, and this release deletes the object
        exact .inr (doomed_self hi)
      · exact .inl (by omega)
  · show Releases (s.giveBack r.a).ptrs (s.releases.set i _) _
    refine hinv.releases.advance hi hactive ?_
      (fun k hk => getElem?_giveBack_of_ne hk) (fun k q x hq hqo => ⟨q, (owns_giveBack hp hq hqo).2, hqo⟩)
      ⟨_, getElem?_giveBack hp, (owns_iff.1 hown).1, ?_⟩ (fun j t hji hj ht => ?_)
      fun hpc => ⟨?_, fun k q hq hqo => ?_, ?_⟩
    · split <;> nofun
    · split
      · exact .inl rfl
      · exact rfl
    · have hne := hinv.releases.other_delete hi hactive hp hown hji hj ht
      show (refcnt (Function.update s.heap r.object _) t.object).isSome
      rw [hupdate, Function.update_of_ne hne]
      exact (hinv.releases.alone t (List.mem_of_getElem? hj) ht).1
    · show (refcnt (Function.update s.heap r.object _) r.object).isSome
      rw [hupdate, Function.update_self]
      rfl
    · have hone : o.refcnt_ = 1 := by
        by_contra hne
        rw [if_neg hne] at hpc
        cases hpc
      have hle : s.owners r.object ≤ 1 := by omega
      exact eq_of_countP_le_one (owns r.object) hle (owns_giveBack hp hq hqo).2 hp hqo hown
    · exact fun j t hji hj ht => hinv.releases.other_delete hi hactive hp hown hji hj ht

/-- The deletion of an object whose only owner releases it, or has released it. -/
theorem Inv.delete (hinv : Inv statics s) (hi : s.releases[i]? = some r) (hp : s.ptrs[r.a]? = some p)
    (hc : p.constructed = true) (hact : r.pc = .delete) (hok : p.released = true ∨ p.owns r.object = true)
    (ho : s.heap r.object = some o) (hn : o.number.isSome) (h : decRef s i r o .delete = some s') :
    Inv statics s' := by
  obtain rfl := Option.some.inj h
  have hactive : r.pc ≠ .done := by rw [hact]; nofun
  obtain ⟨n, hnum⟩ := Option.isSome_iff_exists.1 hn
  obtain ⟨-, halone⟩ := hinv.releases.alone r (List.mem_of_getElem? hi) hact
  -- the releasing RefPtr was the last owner, and has given its reference back
  have hnone : (s.giveBack r.a).owners r.object = 0 := by
    refine List.countP_eq_zero.2 fun q hq hqo => ?_
    obtain ⟨k, hk⟩ := List.mem_iff_getElem?.1 hq
    obtain ⟨hka, hk'⟩ := owns_giveBack hp hk hqo
    exact hka (halone k q hk' hqo)
  refine ⟨hinv.objects.delete ho hnum, ?_, ?_, hinv.no_fault⟩
  · show Counted (s.giveBack r.a).owners (refcnt (Function.update s.heap r.object none)) _
    rw [refcnt_update_none]
    refine hinv.counted.free (fun y hy => ?_) hnone fun y hy h => doomed_set hi (.inl hy) h
    -- the RefPtr owns no other object, so only the owners of this one change
    have hnot : p.owns y = false := hok.elim (fun h => owns_of_released h y) fun h => owns_of_ne h hy
    have h := owners_giveBack hp y
    rwa [hnot] at h
  · show Releases (s.giveBack r.a).ptrs (s.releases.set i _) _
    refine hinv.releases.advance hi hactive nofun
      (fun k hk => getElem?_giveBack_of_ne hk) (fun k q x hq hqo => ⟨q, (owns_giveBack hp hq hqo).2, hqo⟩)
      ⟨_, getElem?_giveBack hp, hc, rfl⟩ (fun j t hji hj ht => ?_) nofun
    have hne : t.object ≠ r.object := fun e => hji (hinv.releases.one_delete j i t r hj hi ht hact e)
    show (refcnt (Function.update s.heap r.object none) t.object).isSome
    rw [refcnt_update_none, Function.update_of_ne hne]
    exact (hinv.releases.alone t (List.mem_of_getElem? hj) ht).1

theorem Inv.proceed (hinv : Inv statics s) (h : proceed s i = some s') : Inv statics s' := by
  unfold RefPtr.proceed at h
  split at h
  · cases h
  rename_i r hi
  -- the object is there as long as the release may access it
  have hthere : r.pc ≠ .done → r.pc ≠ .rest → ∃ p o, s.ptrs[r.a]? = some p ∧ p.constructed = true ∧
      PcOk r.object p r.pc ∧ s.heap r.object = some o ∧ o.number.isSome := by
    intro hact hrest
    obtain ⟨p, hp, hc, hok⟩ := hinv.releases.ptr r (List.mem_of_getElem? hi) hact
    have hlive : (refcnt s.heap r.object).isSome := by
      have howned : p.owns r.object = true → (refcnt s.heap r.object).isSome := fun hown =>
        hinv.counted.present _ (List.countP_pos_iff.2 ⟨p, List.mem_of_getElem? hp, hown⟩)
      cases hpc : r.pc with
      | load => exact howned (by rwa [hpc] at hok)
      | sub => exact howned (by rwa [hpc] at hok)
      | delete => exact (hinv.releases.alone r (List.mem_of_getElem? hi) hpc).1
      | rest => exact absurd hpc hrest
      | done => exact absurd hpc hact
    obtain ⟨o, ho, hn⟩ := refcnt_isSome.1 hlive
    exact ⟨p, o, hp, hc, hok, ho, hn⟩
  cases hpc : r.pc with
  | done =>
    rw [hpc] at h
    cases h
  | rest =>
    rw [hpc] at h
    exact Option.some.inj h ▸ hinv.returned hi hpc
  | load =>
    obtain ⟨p, o, hp, hc, hok, ho, hn⟩ := hthere (by rw [hpc]; nofun) (by rw [hpc]; nofun)
    simp only [hpc, ho] at h hok
    exact Option.some.inj h ▸ hinv.load hi hp hpc hok ho hn
  | sub =>
    obtain ⟨p, o, hp, hc, hok, ho, hn⟩ := hthere (by rw [hpc]; nofun) (by rw [hpc]; nofun)
    simp only [hpc, ho] at h hok
    exact hinv.sub hi hp hpc hok ho hn h
  | delete =>
    obtain ⟨p, o, hp, hc, hok, ho, hn⟩ := hthere (by rw [hpc]; nofun) (by rw [hpc]; nofun)
    simp only [hpc, ho] at h hok
    exact hinv.delete hi hp hc hpc hok ho hn h

/-! ### Whole runs -/

theorem Inv.step (hinv : Inv statics s) {op : Op} (hap : op.Apart s) (h : step s op = some s') :
    Inv statics s' := by
  cases op with
  | null => exact Option.some.inj h ▸ hinv.construct rfl (owns_of_null rfl)
  | makeRefPtr object => exact hinv.makeRefPtr h
  | singleton object => exact hinv.singleton h
  | copy that => exact hinv.copy (hap that List.mem_cons_self) h
  | move that => exact hinv.move (hap that List.mem_cons_self) h
  | convert that =>
    rw [RefPtr.step, convert_eq_move] at h
    exact hinv.move (hap that List.mem_cons_self) h
  | moveAssign a that =>
    obtain ⟨q, hq, h⟩ := Option.bind_eq_some_iff.1 h
    refine Inv.release hinv (show ∀ k ∈ Rest.operands a (.assign that), Idle s k from hap) (fun that' e => ?_) h
    obtain rfl := Rest.assign.inj e
    rw [hq]
    rfl
  | reset a => exact hinv.release (show ∀ k ∈ Rest.operands a .reset, Idle s k from hap) nofun h
  | destroy a => exact hinv.release (show ∀ k ∈ Rest.operands a .destroy, Idle s k from hap) nofun h
  | proceed i => exact hinv.proceed h

/-- **Reference counting.** In a run whose operations name no operand of a release that is
under way, the counts are right, an object is deleted once and by its last owner, and the
objects of static duration stay as they are. -/
theorem refcounts (statics : Bits → Bool) (ops : List Op) {s : Sys} (hrun : run step (start statics) ops = some s)
    (hapart : AllSteps step (fun s op => op.Apart s) (start statics) ops) : Safe statics s :=
  (run_guarded (fun _ _ _ hinv hap h => hinv.step hap h) ops (inv_start statics) hapart hrun).safe

/-- Two owners in a race, and an object of static duration at 8: both see a count of two, and
the second decrement deletes. -/
theorem refcounts_race : ∃ s, run step (start fun x => x = 8) [.makeRefPtr 2, .copy 0, .singleton 8, .copy 2,
    .destroy 0, .reset 1, .proceed 0, .proceed 1, .proceed 1, .proceed 0, .proceed 1, .proceed 0, .destroy 3] =
      some s ∧ Safe (fun x => x = 8) s := by
  refine ⟨_, rfl, refcounts (fun x => x = 8) [.makeRefPtr 2, .copy 0, .singleton 8, .copy 2,
    .destroy 0, .reset 1, .proceed 0, .proceed 1, .proceed 1, .proceed 0, .proceed 1, .proceed 0, .destroy 3] rfl ?_⟩
  iterate 13 rw [allSteps_cons rfl]
  simp only [AllSteps, and_true]
  decide

/-- `head = std::move(head->next)` on a list of two nodes, at 2 and 4: the node that `head`
releases takes its `next` with it, which the assignment reads afterwards. -/
theorem list_pop : ∃ s, run step (start fun _ => false) [.makeRefPtr 2, .makeRefPtr 4, .moveAssign 0 1, .proceed 0,
    .proceed 0, .destroy 1, .proceed 1, .proceed 1, .proceed 1, .proceed 0] = some s ∧
      ¬ Safe (fun _ => false) s := by
  refine ⟨_, rfl, fun h => ?_⟩
  obtain ⟨o, ho, -⟩ := h.owned 4 (by decide)
  cases ho

end RefPtr

end EdenCommon
