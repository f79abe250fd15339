import Mathlib.Data.List.Perm.Basic
import Mathlib.Logic.Function.Basic

/-!
# Copies executed one after another

A copy `(target, source)` sets the place `target` to what the place `source` holds at that
moment. If the targets are distinct and none of them is a source, then the copies may be
executed in any order (`copies_perm`), and each target ends up with what its source held at
the start.
-/

namespace Lib

variable {P V : Type*}

/-- No copy's source is another one's target, or its own. -/
def Apart (cs : List (P × P)) : Prop := ∀ a ∈ cs, ∀ b ∈ cs, a.2 ≠ b.1

/-- No copy's source is the target of an earlier copy. -/
def Intact (cs : List (P × P)) : Prop := ∀ pre a post, cs = pre ++ a :: post → a.2 ∉ pre.map Prod.fst

theorem apart_cons {c : P × P} {cs : List (P × P)} :
    Apart (c :: cs) ↔ c.2 ≠ c.1 ∧ Apart cs ∧ c.1 ∉ cs.map Prod.snd ∧ c.2 ∉ cs.map Prod.fst := by
  simp only [Apart, List.forall_mem_cons, List.mem_map, not_exists, not_and]
  constructor
  · rintro ⟨⟨hne, hsource⟩, hcs⟩
    exact ⟨hne, fun a ha => (hcs a ha).2, fun a ha => (hcs a ha).1, fun b hb => (hsource b hb).symm⟩
  · rintro ⟨hne, hcs, htarget, hsource⟩
    exact ⟨⟨hne, fun b hb => Ne.symm (hsource b hb)⟩, fun a ha => ⟨htarget a ha, hcs a ha⟩⟩

/-- Copies that do not meet may be made in any order. -/
theorem Apart.perm {cs cs' : List (P × P)} (h : Apart cs) (hp : cs'.Perm cs) : Apart cs' :=
  fun a ha b hb => h a (hp.mem_iff.1 ha) b (hp.mem_iff.1 hb)

theorem Apart.intact {cs : List (P × P)} (h : Apart cs) : Intact cs := by
  rintro pre a post rfl hmem
  obtain ⟨b, hb, hba⟩ := List.mem_map.1 hmem
  exact h a (by simp) b (by simp [hb]) hba.symm

/-- If no copy's source is its own target, then no source is overwritten in any order
exactly if the copies are apart. -/
theorem intact_perm_iff {cs : List (P × P)} (hown : ∀ c ∈ cs, c.2 ≠ c.1) :
    (∀ cs', cs'.Perm cs → Intact cs') ↔ Apart cs := by
  constructor
  · intro h a ha b hb hab
    have hne : a ≠ b := fun e => hown a ha (by rw [hab, e])
    -- the order with `b` in front overwrites the source of `a`
    obtain ⟨l, l', rfl⟩ := List.append_of_mem hb
    have hperm : (b :: (l ++ l')).Perm (l ++ b :: l') := List.perm_middle.symm
    have ha' : a ∈ l ++ l' := by
      rcases List.mem_cons.1 (hperm.mem_iff.2 ha) with e | h'
      · exact absurd e hne
      · exact h'
    obtain ⟨p, q, hpq⟩ := List.append_of_mem ha'
    have hin := h _ hperm (b :: p) a q (by rw [hpq]; rfl)
    rw [List.map_cons, hab] at hin
    exact hin List.mem_cons_self
  · intro h cs' hp
    exact (h.perm hp).intact

variable [DecidableEq P]

def copy (m : P → V) (c : P × P) : P → V := Function.update m c.1 (m c.2)

/-- The copies in the order of the list. -/
def copies (m : P → V) (cs : List (P × P)) : P → V := cs.foldl copy m

@[simp] theorem copies_nil (m : P → V) : copies m [] = m := rfl

@[simp] theorem copies_cons (m : P → V) (c : P × P) (cs : List (P × P)) :
    copies m (c :: cs) = copies (copy m c) cs := rfl

/-- A place that is no target keeps what it holds. -/
theorem copies_of_not_target {cs : List (P × P)} {x : P} (h : x ∉ cs.map Prod.fst) :
    ∀ m : P → V, copies m cs x = m x := by
  induction cs with
  | nil => intro m; rfl
  | cons c cs ih =>
    intro m
    rw [List.map_cons, List.mem_cons, not_or] at h
    rw [copies_cons, ih h.2, copy, Function.update_of_ne h.1]

/-- **Parallel copies.** Copies that are apart and have distinct targets set each target
to what its source held at the start. -/
theorem copies_of_mem {cs : List (P × P)} (hnd : (cs.map Prod.fst).Nodup) (hap : Apart cs) {c : P × P}
    (hc : c ∈ cs) (m : P → V) : copies m cs c.1 = m c.2 := by
  -- the copies before `c` leave its source alone, those behind it its target
  obtain ⟨pre, post, rfl⟩ := List.append_of_mem hc
  rw [List.map_append, List.map_cons] at hnd
  have hpost : c.1 ∉ post.map Prod.fst := (List.nodup_cons.1 (List.nodup_append.1 hnd).2.1).1
  have hpre : c.2 ∉ pre.map Prod.fst := hap.intact pre c post rfl
  have hfold : copies m (pre ++ c :: post) = copies (copy (copies m pre) c) post := by
    simp [copies, List.foldl_append]
  rw [hfold, copies_of_not_target hpost, copy, Function.update_self, copies_of_not_target hpre]

/-- Copies that are apart and have distinct targets may be executed in any order. -/
theorem copies_perm {cs cs' : List (P × P)} (hnd : (cs.map Prod.fst).Nodup) (hap : Apart cs) (hp : cs'.Perm cs)
    (m : P → V) : copies m cs' = copies m cs := by
  funext x
  have hnd' : (cs'.map Prod.fst).Nodup := (hp.map Prod.fst).nodup_iff.2 hnd
  by_cases hx : x ∈ cs.map Prod.fst
  · obtain ⟨c, hc, rfl⟩ := List.mem_map.1 hx
    rw [copies_of_mem hnd hap hc, copies_of_mem hnd' (hap.perm hp) (hp.mem_iff.2 hc)]
  · have hx' : x ∉ cs'.map Prod.fst := by rwa [(hp.map Prod.fst).mem_iff]
    rw [copies_of_not_target hx, copies_of_not_target hx']

end Lib
