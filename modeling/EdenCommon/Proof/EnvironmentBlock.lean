import EdenCommon.Spec.Environment

/-!
# What a child finds in its environment block

The edits act on the map as on a function (`find_edit`), and the block is the entries' texts one
behind another (`asWin32EnvBlock_eq`), the same strings as in the block of `asEnviron`. A reader
that stops at the first empty string finds the variables exactly if no `=` stands in a name and no
NUL anywhere (`child_environment_iff`).

* `find_edits`: a run of edits is the run of the same changes of the function.
* `LaidOut.win32`, `win32Variables_asWin32EnvBlock`: whatever stands behind the block, the
  reader finds its entries, and what it finds has no `=` in a name and no NUL
  (`clean_of_mem_win32Variables`). This is why the condition is also needed.
-/

namespace EdenCommon

namespace Environment

open Lib

variable {e : Environment} {key val : Bytes}

/-! ### Edits -/

theorem mem_of_lookup {items : List (Bytes × Bytes)} (h : items.lookup key = some val) : (key, val) ∈ items := by
  obtain ⟨l₁, l₂, rfl, -⟩ := List.lookup_eq_some_iff.1 h
  exact List.mem_append_right _ List.mem_cons_self

/-- An entry is what is found under its key. -/
theorem find_eq_some_iff : e.find key = some val ↔ (key, val) ∈ e.map := by
  refine ⟨mem_of_lookup, fun h => ?_⟩
  obtain ⟨l₁, l₂, hmap⟩ := List.append_of_mem h
  refine List.lookup_eq_some_iff.2 ⟨l₁, l₂, hmap, fun it hit => bne_iff_ne.2 fun heq => ?_⟩
  have hnodup := e.nodup
  rw [hmap, List.map_append, List.map_cons, List.nodup_append] at hnodup
  exact hnodup.2.2 it.1 (List.mem_map_of_mem hit) key List.mem_cons_self heq.symm

theorem mem_set {it : Bytes × Bytes} : it ∈ (e.set key val).map ↔ it = (key, val) ∨ (it.1 ≠ key ∧ it ∈ e.map) := by
  unfold set
  split
  · rename_i hkey
    simp only [List.mem_map]
    constructor
    · rintro ⟨it', hit', rfl⟩
      split
      · exact .inl rfl
      · rename_i hne
        exact .inr ⟨hne, hit'⟩
    · rintro (rfl | ⟨hne, hit⟩)
      · obtain ⟨it', hit', heq⟩ := List.mem_map.1 hkey
        exact ⟨it', hit', if_pos heq⟩
      · exact ⟨it, hit, if_neg hne⟩
  · rename_i hkey
    simp only [List.mem_append, List.mem_singleton]
    constructor
    · rintro (hit | rfl)
      · exact .inr ⟨fun heq => hkey (heq ▸ List.mem_map_of_mem hit), hit⟩
      · exact .inl rfl
    · rintro (rfl | ⟨-, hit⟩)
      · exact .inr rfl
      · exact .inl hit

theorem find_set (e : Environment) (key val k : Bytes) :
    (e.set key val).find k = if k = key then some val else e.find k := by
  apply Option.ext
  intro v
  rw [find_eq_some_iff, mem_set]
  split
  · rename_i h
    simp [h, eq_comm]
  · rename_i h
    rw [find_eq_some_iff]
    simp [h]

theorem find_unset (e : Environment) (key k : Bytes) : (e.unset key).find k = if k = key then none else e.find k := by
  apply Option.ext
  intro v
  rw [find_eq_some_iff, unset, List.mem_filter, bne_iff_ne]
  split
  · rename_i h
    simp [h]
  · rename_i h
    rw [find_eq_some_iff]
    simp [h]

theorem find_setAll (pairs : List (Bytes × Bytes)) (e : Environment) :
    (e.setAll pairs).find = (Edit.setAll pairs).apply e.find := by
  induction pairs generalizing e with
  | nil => rfl
  | cons pair pairs ih =>
    have hfirst : (e.set pair.1 pair.2).find = fun k => if k = pair.1 then some pair.2 else e.find k :=
      funext (find_set e pair.1 pair.2)
    calc (e.setAll (pair :: pairs)).find = ((e.set pair.1 pair.2).setAll pairs).find := rfl
      _ = (Edit.setAll pairs).apply (e.set pair.1 pair.2).find := ih _
      _ = (Edit.setAll (pair :: pairs)).apply e.find := by
        rw [hfirst]
        rfl

/-- **One edit.** -/
theorem find_edit (e : Environment) (edit : Edit) : (e.edit edit).find = edit.apply e.find := by
  cases edit with
  | set key val => exact funext (find_set e key val)
  | setAll pairs => exact find_setAll pairs e
  | unset key => exact funext (find_unset e key)
  | clear => rfl

/-- **A run of edits.** -/
theorem find_edits (edits : List Edit) (e : Environment) :
    (edits.foldl edit e).find = edits.foldl Edit.apply e.find := by
  induction edits generalizing e with
  | nil => rfl
  | cons edit edits ih => rw [List.foldl_cons, List.foldl_cons, ih, find_edit]

/-! ### The block -/

/-- **The block** is the strings of the entries, each with a NUL. -/
theorem asWin32EnvBlock_eq (e : Environment) : e.asWin32EnvBlock = terminate 0 (e.map.map text) := by
  have hloop : ∀ (items : List (Bytes × Bytes)) (block : Bytes),
      items.foldl (fun block it => block ++ it.1 ++ [61] ++ it.2 ++ [0]) block = block ++ terminate 0 (items.map text) := by
    intro items
    induction items with
    | nil => exact fun block => (List.append_nil block).symm
    | cons it items ih =>
      intro block
      rw [List.foldl_cons, ih]
      simp [text]
  exact hloop e.map []

/-- Both blocks hold the same strings. -/
theorem LaidOut.win32 {memory : Memory} {out : Environ} (h : LaidOut e memory out) :
    out.memory.HoldsAt (out.envp + 8 * (e.map.length + 1)) e.asWin32EnvBlock := by
  rw [asWin32EnvBlock_eq]
  exact h.area

theorem nameValue_text {it : Bytes × Bytes} (h : 61 ∉ it.1) : nameValue (text it) = it := by
  have hname : ∀ b ∈ it.1, (b != 61) = true := fun b hb => bne_iff_ne.2 fun heq => h (heq ▸ hb)
  unfold nameValue text
  rw [List.takeWhile_append_of_pos hname, List.dropWhile_append_of_pos hname]
  simp

/-- What is found has no `=` in a name and no NUL. -/
theorem clean_of_mem_win32Variables {block : Bytes} {it : Bytes × Bytes} (h : it ∈ win32Variables block) :
    61 ∉ it.1 ∧ 0 ∉ it.1 ∧ 0 ∉ it.2 := by
  obtain ⟨string, hstring, rfl⟩ := List.mem_map.1 h
  have hpiece := (List.takeWhile_prefix _).subset hstring
  have hnul : 0 ∉ string := fun h0 => absurd (not_of_mem_splitOnP hpiece h0) (by decide)
  refine ⟨fun heq => ?_, fun h0 => ?_, fun h0 => ?_⟩
  · exact absurd (List.mem_takeWhile_imp heq) (by decide)
  · exact hnul ((List.takeWhile_prefix _).subset h0)
  · exact hnul ((List.dropWhile_suffix _).subset (List.mem_of_mem_tail h0))

/-- **The reader** finds the entries, whatever stands behind the block. -/
theorem win32Variables_asWin32EnvBlock (hv : e.Valid) (rest : Bytes) :
    win32Variables (e.asWin32EnvBlock ++ 0 :: rest) = e.map := by
  have hnul : ∀ string ∈ e.map.map text, ∀ b ∈ string, (b == 0) = false := by
    intro string hstring b hb
    obtain ⟨it, hit, rfl⟩ := List.mem_map.1 hstring
    obtain ⟨-, hkey, hval⟩ := hv it hit
    rw [beq_eq_false_iff_ne]
    rintro rfl
    rcases List.mem_append.1 hb with hb | hb
    · exact hkey hb
    · rcases List.mem_cons.1 hb with hb | hb
      · cases hb
      · exact hval hb
  -- each string has its `=`, so the reader does not stop at one
  have hstrings : ∀ string ∈ e.map.map text, (!string.isEmpty) = true := by
    intro string hstring
    obtain ⟨it, -, rfl⟩ := List.mem_map.1 hstring
    simp [text]
  have hback : e.map.map (nameValue ∘ text) = e.map := by
    have hid : ∀ it ∈ e.map, (nameValue ∘ text) it = id it := fun it hit => nameValue_text (hv it hit).1
    rw [List.map_congr_left hid, List.map_id]
  unfold win32Variables
  rw [asWin32EnvBlock_eq, splitOnP_terminate_append (p := fun b => b == 0) rfl hnul,
    List.splitOnP_cons_eq_if_modifyHead, if_pos (by rfl), List.takeWhile_append_of_pos hstrings]
  simp [hback]

/-- **What a child finds** behind any run of edits is what they say, exactly if what they say has no
`=` in a name and no NUL in a name or a value. -/
theorem child_environment_iff (e : Environment) (edits : List Edit) (rest : Bytes) :
    (∀ key, (win32Variables ((edits.foldl edit e).asWin32EnvBlock ++ 0 :: rest)).lookup key =
        edits.foldl Edit.apply e.find key) ↔
      ∀ key val, edits.foldl Edit.apply e.find key = some val → 61 ∉ key ∧ 0 ∉ key ∧ 0 ∉ val := by
  -- what the edits say is what the map holds, and the rest is about any map
  rw [← find_edits]
  generalize edits.foldl edit e = e'
  constructor
  · intro h key val hfind
    rw [← h key] at hfind
    exact clean_of_mem_win32Variables (mem_of_lookup hfind)
  · intro h key
    have hv : e'.Valid := fun it hit => h it.1 it.2 (find_eq_some_iff.2 hit)
    rw [win32Variables_asWin32EnvBlock hv]
    rfl

end Environment

end EdenCommon
