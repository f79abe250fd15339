import EdenCommon.Lib.Split
import EdenCommon.Spec.OptionSet
import Mathlib.Tactic.ByContra

/-!
# What the string of an `OptionSet` says

* `getLsbD_edits`: the edits act on the bits one by one, whatever order they come in.
* `formatNames_eq`, `format_eq`: the second pass of `format` writes the names with spaces between them,
  and the string that the first pass has counted is filled to its end and not beyond.
* `split_eq`: `split` cuts at every delimiter, so `n` delimiters make `n + 1` pieces.
* `format_names`: the pieces of the string are the names of the entries whose bits are on.
-/

namespace EdenCommon

open Lib

namespace OptionSet

variable {w : ℕ} {v : OptionSet w} {table : NameTable w}

/-! ### Bits -/

theorem containsAllOf_iff (v set : OptionSet w) :
    v.containsAllOf set = true ↔ ∀ i, set.getLsbD i = true → v.getLsbD i = true := by
  rw [containsAllOf, beq_iff_eq]
  constructor
  · intro h i hi
    rw [← h, BitVec.getLsbD_and, Bool.and_eq_true] at hi
    exact hi.1
  · intro h
    apply BitVec.eq_of_getLsbD_eq
    intro i _
    rw [BitVec.getLsbD_and]
    cases hi : set.getLsbD i with
    | false => rw [Bool.and_false]
    | true => rw [h i hi, Bool.and_true]

theorem containsAnyOf_iff (v set : OptionSet w) :
    v.containsAnyOf set = true ↔ ∃ i, set.getLsbD i = true ∧ v.getLsbD i = true := by
  rw [containsAnyOf, bne_iff_ne]
  constructor
  · intro h
    by_contra hnone
    apply h
    apply BitVec.eq_of_getLsbD_eq
    intro i _
    rw [BitVec.getLsbD_and, BitVec.getLsbD_zero, Bool.and_eq_false_iff]
    by_contra hboth
    simp only [not_or, Bool.not_eq_false] at hboth
    exact hnone ⟨i, hboth.2, hboth.1⟩
  · rintro ⟨i, hset, hv⟩ hzero
    have hbit := congrArg (fun x => x.getLsbD i) hzero
    simp [hset, hv] at hbit

theorem containsNoneOf_eq (v set : OptionSet w) : v.containsNoneOf set = !v.containsAnyOf set := by
  rw [containsNoneOf, containsAnyOf, bne, Bool.not_not]

/-- **One edit**, bit by bit. -/
theorem getLsbD_edit (v : OptionSet w) (e : Edit w) : (v.edit e).getLsbD = e.apply v.getLsbD := by
  funext i
  cases e with
  | set bits => exact BitVec.getLsbD_or
  | orAssign that => exact BitVec.getLsbD_or
  | andAssign that => exact BitVec.getLsbD_and
  | clear bits =>
    show (v &&& ~~~bits).getLsbD i = (v.getLsbD i && !bits.getLsbD i)
    rw [BitVec.getLsbD_and, BitVec.getLsbD_not]
    cases hi : v.getLsbD i with
    | false => rfl
    | true =>
      have hlt := BitVec.lt_of_getLsbD hi
      simp [hlt]

theorem getLsbD_edits (edits : List (Edit w)) (v : OptionSet w) :
    (edits.foldl edit v).getLsbD = edits.foldl Edit.apply v.getLsbD := by
  induction edits generalizing v with
  | nil => rfl
  | cons e edits ih => rw [List.foldl_cons, List.foldl_cons, ih, getLsbD_edit]

/-! ### The two passes -/

/-- The names of the entries whose bits are on. -/
def names (v : OptionSet w) (table : NameTable w) : List Bytes :=
  (table.filter fun e => v.containsAllOf e.1).map Prod.snd

/-- One more name behind those that were written. -/
def joinName (written name : Bytes) : Bytes := if written = [] then name else written ++ space :: name

theorem names_cons_of_pos {e : OptionSet w × Bytes} (h : v.containsAllOf e.1 = true) :
    names v (e :: table) = e.2 :: names v table := by
  simp only [names, List.filter_cons, h, if_true, List.map_cons]

theorem names_cons_of_neg {e : OptionSet w × Bytes} (h : ¬ v.containsAllOf e.1 = true) :
    names v (e :: table) = names v table := by
  simp only [names, List.filter_cons, h, if_false, Bool.false_eq_true]

theorem length_joinName (written name : Bytes) :
    (joinName written name).length = (if written.length ≠ 0 then written.length + 1 else written.length) + name.length := by
  unfold joinName
  by_cases h : written = []
  · rw [if_pos h, h]
    simp
  · rw [if_neg h, if_pos (by simpa using h), List.length_append, List.length_cons]
    omega

/-- **The first pass** computes the length of the names joined. -/
theorem formatLength_eq (v : OptionSet w) (table : NameTable w) :
    formatLength v table = ((names v table).foldl joinName []).length := by
  have hloop : ∀ (table : NameTable w) (written : Bytes),
      table.foldl
        (fun length e =>
          if v.containsAllOf e.1 then (if length ≠ 0 then length + 1 else length) + e.2.length else length)
        written.length = ((names v table).foldl joinName written).length := by
    intro table
    induction table with
    | nil => exact fun _ => rfl
    | cons e table ih =>
      intro written
      rw [List.foldl_cons]
      by_cases h : v.containsAllOf e.1 = true
      · rw [if_pos h, names_cons_of_pos h, List.foldl_cons, ← ih, length_joinName]
      · rw [if_neg h, names_cons_of_neg h, ih]
  exact hloop table []

theorem put_eq (written bytes : Bytes) {k : ℕ} (h : bytes.length ≤ k) :
    put (written ++ List.replicate k 0) written.length bytes =
      some (written ++ bytes ++ List.replicate (k - bytes.length) 0) := by
  rw [put, if_pos (by rw [List.length_append, List.length_replicate]; omega), List.take_left',
    List.drop_append, List.drop_eq_nil_of_le (by omega), List.nil_append, Nat.add_sub_cancel_left, List.drop_replicate]
  rfl

/-- One name, with the space in front of it. -/
theorem putName_eq {written name : Bytes} {k : ℕ} (h : (joinName written name).length ≤ written.length + k) :
    ∃ s, putSpace (written ++ List.replicate k 0) written.length = some s ∧
      put s.1 s.2 name =
        some (joinName written name ++ List.replicate (written.length + k - (joinName written name).length) 0) ∧
      s.2 + name.length = (joinName written name).length := by
  have hlength := length_joinName written name
  by_cases hfirst : written = []
  · subst hfirst
    have hname : name.length ≤ k := by
      simpa [joinName] using h
    refine ⟨(List.replicate k 0, 0), rfl, ?_, by simp [joinName]⟩
    have := put_eq [] name hname
    simpa [joinName] using this
  · have hne : written.length ≠ 0 := by simpa using hfirst
    rw [if_pos hne] at hlength
    have hroom : [space].length ≤ k := by
      rw [List.length_singleton]
      omega
    have hspace := put_eq written [space] hroom
    refine ⟨(written ++ [space] ++ List.replicate (k - 1) 0, written.length + 1), ?_, ?_, by omega⟩
    · rw [putSpace, if_pos hne, hspace]
      rfl
    · have hfits : name.length ≤ k - 1 := by omega
      have hname := put_eq (written ++ [space]) name hfits
      rw [List.length_append, List.length_singleton] at hname
      have hrest : written.length + k - (joinName written name).length = k - 1 - name.length := by omega
      rw [hname, hrest, joinName, if_neg hfirst, List.append_assoc written, List.singleton_append]

theorem length_le_foldl_joinName (more : List Bytes) (written : Bytes) :
    written.length ≤ (more.foldl joinName written).length := by
  induction more generalizing written with
  | nil => exact Nat.le_refl _
  | cons name more ih =>
    refine Nat.le_trans ?_ (ih (joinName written name))
    rw [length_joinName]
    split <;> omega

/-- **The second pass** writes the names joined, and stays inside of the string. -/
theorem formatNames_eq (v : OptionSet w) (table : NameTable w) (written : Bytes) (k : ℕ)
    (h : ((names v table).foldl joinName written).length ≤ written.length + k) :
    formatNames v table (written ++ List.replicate k 0) written.length =
      some ((names v table).foldl joinName written ++
          List.replicate (written.length + k - ((names v table).foldl joinName written).length) 0,
        ((names v table).foldl joinName written).length) := by
  induction table generalizing written k with
  | nil =>
    rw [formatNames, names, List.filter_nil, List.map_nil, List.foldl_nil, Nat.add_sub_cancel_left]
  | cons e table ih =>
    by_cases hbits : v.containsAllOf e.1 = true
    · rw [names_cons_of_pos hbits, List.foldl_cons] at h ⊢
      have hfits := Nat.le_trans (length_le_foldl_joinName (names v table) (joinName written e.2)) h
      obtain ⟨s, hspace, hname, hp⟩ := putName_eq hfits
      have hrest : (joinName written e.2).length + (written.length + k - (joinName written e.2).length) =
          written.length + k := by omega
      rw [formatNames, if_pos hbits, hspace]
      simp only [Option.bind_eq_bind, Option.bind_some, hname, hp]
      rw [ih _ _ (by rw [hrest]; exact h), hrest]
    · rw [names_cons_of_neg hbits] at h ⊢
      rw [formatNames, if_neg hbits]
      exact ih written k h

/-- **The string** is what the second pass writes, and it fills all of it. -/
theorem format_eq (v : OptionSet w) (table : NameTable w) :
    format table v = some (if v.empty then [] else (names v table).foldl joinName []) := by
  unfold format
  by_cases hempty : v.empty = true
  · rw [if_pos (.inl hempty), if_pos hempty]
  · rw [if_neg hempty]
    by_cases htable : table = []
    · rw [if_pos (.inr htable), htable]
      rfl
    · have hpass := formatNames_eq v table [] (formatLength v table) (by rw [formatLength_eq]; simp)
      rw [List.nil_append, List.length_nil, Nat.zero_add] at hpass
      rw [if_neg (not_or.2 ⟨hempty, htable⟩)]
      simp only [Option.bind_eq_bind, hpass, Option.bind_some]
      rw [← formatLength_eq, if_pos rfl, Nat.sub_self, List.replicate_zero, List.append_nil]

/-! ### `split` -/

theorem splitLoop_eq (delim : UInt8) (fuel : ℕ) (s : Bytes) (result : List Bytes) (h : s.length < fuel) :
    splitLoop delim fuel s result = some (result ++ s.splitOnP fun c => c == delim) := by
  induction fuel generalizing s result with
  | zero => exact absurd h (Nat.not_lt_zero _)
  | succ fuel ih =>
    rw [splitLoop]
    by_cases hfound : (s.findIdx fun c => c == delim) < s.length
    · rw [if_pos hfound, ih _ _ (by rw [List.length_drop]; omega), splitOnP_of_findIdx_lt hfound, List.append_assoc,
        List.singleton_append]
    · have hnone : (s.findIdx fun c => c == delim) = s.length := by
        have hle : (s.findIdx fun c => c == delim) ≤ s.length := List.findIdx_le_length
        omega
      rw [if_neg hfound, splitOnP_of_findIdx_eq hnone]

/-- **`split`** cuts at every delimiter. -/
theorem split_eq (s : Bytes) (delim : UInt8) : split s delim = some (s.splitOnP fun c => c == delim) :=
  splitLoop_eq delim _ s [] (Nat.lt_succ_self _)

theorem splitOnP_name {name : Bytes} (h : space ∉ name) : name.splitOnP (fun c => c == space) = [name] :=
  List.splitOnP_eq_singleton fun _ hc => beq_eq_false_iff_ne.2 fun heq => h (heq ▸ hc)

/-- The names that were joined are found between the spaces. -/
theorem splitOnP_foldl_joinName {more : List Bytes} (hmore : ∀ name ∈ more, name ≠ [] ∧ space ∉ name) {written : Bytes}
    (hne : written ≠ []) :
    (more.foldl joinName written).splitOnP (fun c => c == space) =
      written.splitOnP (fun c => c == space) ++ more := by
  induction more generalizing written with
  | nil => rw [List.foldl_nil, List.append_nil]
  | cons name more ih =>
    have hjoin : joinName written name = written ++ space :: name := if_neg hne
    have hname := splitOnP_name (hmore name List.mem_cons_self).2
    rw [List.foldl_cons, ih (fun n hn => hmore n (List.mem_cons_of_mem _ hn)) (by rw [hjoin]; simp), hjoin,
      List.splitOnP_append_cons written name (by rfl), hname, List.append_assoc, List.singleton_append]

/-- All names joined, from the start of the string. Where there are none it is one empty piece. -/
theorem pieces_foldl_joinName {more : List Bytes} (hmore : ∀ name ∈ more, name ≠ [] ∧ space ∉ name) :
    (more.foldl joinName []).splitOnP (fun c => c == space) = if more = [] then [[]] else more := by
  cases more with
  | nil => rfl
  | cons name more =>
    obtain ⟨hne, hspace⟩ := hmore name List.mem_cons_self
    have hrest : ∀ n ∈ more, n ≠ [] ∧ space ∉ n := fun n hn => hmore n (List.mem_cons_of_mem _ hn)
    -- in front of the first name there is no space
    have hfirst : joinName [] name = name := if_pos rfl
    rw [List.foldl_cons, hfirst, splitOnP_foldl_joinName hrest hne, splitOnP_name hspace, List.singleton_append,
      if_neg (List.cons_ne_nil name more)]

/-- An empty set has no names. -/
theorem names_of_empty (hempty : v.empty = true) (hbits : ∀ e ∈ table, e.1 ≠ 0#w) : names v table = [] := by
  rw [names, List.map_eq_nil_iff, List.filter_eq_nil_iff]
  intro e he hall
  have hzero : v = 0#w := beq_iff_eq.1 hempty
  rw [containsAllOf, hzero, BitVec.zero_and, beq_iff_eq] at hall
  exact hbits e he hall.symm

/-- **Names and bits.** Behind any edits `format` writes nothing outside of its string, and `split` cuts
it at the spaces into the names of the entries all bits of which the edits have left on, in the order of
the table. If there is no such entry it is the empty string, of which `split` makes one empty piece. -/
theorem format_names (table : NameTable w) (hbits : ∀ e ∈ table, e.1 ≠ 0#w)
    (hnames : ∀ e ∈ table, e.2 ≠ [] ∧ space ∉ e.2) (v : OptionSet w) (edits : List (Edit w)) :
    let named := (table.filter fun e =>
      decide (∀ i < w, e.1.getLsbD i = true → edits.foldl Edit.apply v.getLsbD i = true)).map Prod.snd
    ∃ text, format table (edits.foldl edit v) = some text ∧
      split text space = some (if named = [] then [[]] else named) := by
  intro named
  have hmore : ∀ name ∈ names (edits.foldl edit v) table, name ≠ [] ∧ space ∉ name := by
    intro name hname
    obtain ⟨e, he, rfl⟩ := List.mem_map.1 hname
    exact hnames e (List.mem_filter.1 he).1
  have hnamed : named = names (edits.foldl edit v) table := by
    dsimp only [named]
    rw [names, ← getLsbD_edits]
    congr 1
    apply List.filter_congr
    intro e _
    rw [Bool.eq_iff_iff, decide_eq_true_iff, containsAllOf_iff]
    exact ⟨fun h i hi => h i (BitVec.lt_of_getLsbD hi) hi, fun h i _ hi => h i hi⟩
  refine ⟨_, format_eq _ table, ?_⟩
  rw [split_eq, hnamed]
  by_cases hempty : (edits.foldl edit v).empty = true
  · rw [if_pos hempty, names_of_empty hempty hbits]
    rfl
  · rw [if_neg hempty, pieces_foldl_joinName hmore]

/-- Three colours, of which one is cleared again. -/
theorem format_names_colours :
    let table : NameTable 8 := [(1#8, [0x52, 0x45, 0x44]), (2#8, [0x47]), (4#8, [0x42, 0x4C])]
    format table ([.set 7#8, .clear 2#8].foldl edit 0#8) = some [0x52, 0x45, 0x44, 0x20, 0x42, 0x4C] ∧
      split [0x52, 0x45, 0x44, 0x20, 0x42, 0x4C] space = some [[0x52, 0x45, 0x44], [0x42, 0x4C]] := by
  intro table
  have htext : format table ([.set 7#8, .clear 2#8].foldl edit 0#8) = some [0x52, 0x45, 0x44, 0x20, 0x42, 0x4C] := by
    decide
  obtain ⟨text, hformat, hsplit⟩ := format_names table (by decide) (by decide) 0#8 [.set 7#8, .clear 2#8]
  obtain rfl := Option.some.inj (htext.symm.trans hformat)
  exact ⟨htext, hsplit.trans (by decide)⟩

end OptionSet

end EdenCommon
