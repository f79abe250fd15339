import EdenCommon.Proof.Disk
import Mathlib.Data.Nat.Bitwise
import Mathlib.Tactic.NormNum

/-!
# A mapped vector and its file

`Stored R f es`: the file `f` has the header of a vector of `R` and the entries `es`.
`Holds d v es`: the vector `v` is open over such a file, with its pointers where they
belong and the mapping a number of pages inside the file. Every method keeps `Holds`,
also when it throws, and does to `es` what it does to a list.

* `popBack_spec`, `updateEntryCount_spec`, `setEntry_spec`: a smaller count leaves the last
  entry out, and what is written to the free slot behind the entries is not seen
  (`Stored.scratch`).
* `grow_spec`: the mapping is one step larger, or the call throws and the vector is as
  before.
* `emplaceBack_spec`: the record is appended, or the entries are as they were.
-/

namespace EdenCommon

open Lib

-- the goals below are never to be evaluated
attribute [local irreducible] wp

/-! ### Sizes -/

/-- The mask rounds down to a page. -/
theorem and_pageMask {x : ℕ} (hx : x < 2 ^ 64) : x &&& (2 ^ 64 - kPageSize) = x / kPageSize * kPageSize := by
  have hmask : ∀ i, (2 ^ 64 - 4096 : ℕ).testBit i = (decide (12 ≤ i) && decide (i < 64)) := by
    intro i
    have h1 : (2 ^ 64 - 4096 : ℕ) = (2 ^ 52 - 1) <<< 12 := by decide
    rw [h1, Nat.testBit_shiftLeft, Nat.testBit_two_pow_sub_one]
    by_cases h12 : 12 ≤ i
    · have : (i - 12 < 52) = (i < 64) := by simp only [eq_iff_iff]; omega
      simp [h12, this]
    · simp [h12]
  have hshift : x / kPageSize * kPageSize = (x >>> 12) <<< 12 := by
    rw [Nat.shiftLeft_eq, Nat.shiftRight_eq_div_pow]
    rfl
  rw [hshift, kPageSize]
  apply Nat.eq_of_testBit_eq
  intro i
  rw [Nat.testBit_and, hmask, Nat.testBit_shiftLeft, Nat.testBit_shiftRight]
  by_cases h12 : 12 ≤ i
  · have hi : 12 + (i - 12) = i := by omega
    by_cases h64 : i < 64
    · simp [h12, h64, hi]
    · -- above the word the number has no bits
      have hbit : x.testBit i = false :=
        Nat.testBit_lt_two_pow (Nat.lt_of_lt_of_le hx (Nat.pow_le_pow_right (by decide) (by omega)))
      simp [h12, h64, hi, hbit]
  · simp [h12]

/-- **Rounding up** to a nonzero number of pages, without wrap-around for any `off_t`. -/
theorem roundUp_spec {s : ℕ} (hs : s < 2 ^ 63) :
    kPageSize ∣ roundUpToNonzeroPageSize s ∧ 0 < roundUpToNonzeroPageSize s ∧ s ≤ roundUpToNonzeroPageSize s ∧
      roundUpToNonzeroPageSize s ≤ 2 ^ 63 ∧ (0 < s → roundUpToNonzeroPageSize s < s + kPageSize) := by
  have hmod : (s + (kPageSize - 1)) % 2 ^ 64 = s + (kPageSize - 1) :=
    Nat.mod_eq_of_lt (by unfold kPageSize; omega)
  have hround : roundUpToNonzeroPageSize s = max kPageSize ((s + (kPageSize - 1)) / kPageSize * kPageSize) := by
    rw [roundUpToNonzeroPageSize, hmod, and_pageMask (by unfold kPageSize; omega)]
  rw [hround]
  unfold kPageSize
  omega

namespace MappedDiskVector

/-! ### Headers -/

/-- The header is what lies in its first bytes. -/
theorem Header.load_congr {m m' : Memory} (h : m.Agree m' 0 sizeofHeader) : load m = load m' := by
  unfold sizeofHeader at h
  unfold load
  rw [(h.sub (by omega) (by omega) : m.Agree m' 0 4).loadLE_eq, (h.sub (by omega) (by omega) : m.Agree m' 4 4).loadLE_eq,
    (h.sub (by omega) (by omega) : m.Agree m' 8 4).loadLE_eq, (h.sub (by omega) (by omega) : m.Agree m' 12 4).loadLE_eq,
    (h.sub (by omega) (by omega) : m.Agree m' 16 8).loadLE_eq, (h.sub (by omega) (by omega) : m.Agree m' 24 8).loadLE_eq]

/-- A new count changes no other field of the header. -/
theorem Header.load_storeLE_count (m : Memory) (n : ℕ) :
    load (m.storeLE 16 8 n) = { load m with entryCount := n % 2 ^ 64 } := by
  simp only [load, Memory.loadLE_storeLE, mk.injEq]
  refine ⟨?_, ?_, ?_, ?_, by norm_num, ?_⟩ <;> exact Memory.loadLE_storeLE_of_disjoint n (by decide)

/-- **Round trip** of a header whose fields fit. -/
theorem Header.load_bytes (h : Header) (h1 : h.magic < 2 ^ 32) (h2 : h.version < 2 ^ 32) (h3 : h.recordVersion < 2 ^ 32)
    (h4 : h.recordSize < 2 ^ 32) (h5 : h.entryCount < 2 ^ 64) (h6 : h.unused < 2 ^ 64) : load h.bytes = h := by
  have e4 : 256 ^ 4 = 2 ^ 32 := by norm_num
  have e8 : 256 ^ 8 = 2 ^ 64 := by norm_num
  -- each field is read past the stores behind it
  simp (disch := decide) only [load, bytes, Memory.loadLE_storeLE_of_disjoint, Memory.loadLE_storeLE, e4, e8]
  rw [Nat.mod_eq_of_lt h1, Nat.mod_eq_of_lt h2, Nat.mod_eq_of_lt h3, Nat.mod_eq_of_lt h4, Nat.mod_eq_of_lt h5,
    Nat.mod_eq_of_lt h6]

variable {R : RecordType} {f f' : File} {es : List R.Value} {d d' : Disk} {v : MappedDiskVector R}

/-! ### Files of records -/

/-- The file has the header of a vector of `R` and holds the entries `es`. -/
structure Stored (R : RecordType) (f : File) (es : List R.Value) : Prop where
  header : Header.load f.byte = Header.of R es.length
  inside : sizeofHeader + es.length * R.sizeof ≤ f.size
  entries : ∀ i (h : i < es.length), f.byte.loadBlock (sizeofHeader + i * R.sizeof) R.sizeof = es[i]

theorem Stored.recordVersion_eq (h : Stored R f es) : (Header.load f.byte).recordVersion = R.VERSION := by
  rw [h.header]; rfl

theorem Stored.recordSize_eq (h : Stored R f es) : (Header.load f.byte).recordSize = R.sizeof := by
  rw [h.header]; rfl

theorem Stored.entryCount_eq (h : Stored R f es) : (Header.load f.byte).entryCount = es.length := by
  rw [h.header]; rfl

/-- Entry `i` of `n` ends before the end of the entries. -/
theorem slot_le (R : RecordType) {i n : ℕ} (h : i < n) :
    sizeofHeader + i * R.sizeof + R.sizeof ≤ sizeofHeader + n * R.sizeof := by
  have : (i + 1) * R.sizeof ≤ n * R.sizeof := Nat.mul_le_mul_right _ h
  rw [Nat.add_mul, Nat.one_mul] at this
  omega

/-- A longer file stores the same entries. -/
theorem Stored.extends (h : Stored R f es) (hf : f'.Extends f) : Stored R f' es := by
  have hin := h.inside
  refine ⟨?_, Nat.le_trans hin hf.size_le, fun i hi => ?_⟩
  · rw [← h.header]
    exact Header.load_congr (hf.agree.sub (Nat.le_refl _) (by omega))
  · rw [← h.entries i hi]
    have hslot := slot_le R hi
    exact (hf.agree.sub (Nat.zero_le _) (by omega)).loadBlock_eq

/-- The number of entries fits into the header many times over. -/
theorem Stored.length_lt (h : Stored R f es) : es.length < 2 ^ 63 := by
  have hin := h.inside
  have hsize := f.size_lt
  have hmul : es.length ≤ es.length * R.sizeof := Nat.le_mul_of_pos_right _ R.sizeof_pos
  omega

/-- The bytes behind the entries are free. -/
theorem Stored.of_agree (h : Stored R f es) {m : Memory}
    (hf : m.Agree f.byte 0 (sizeofHeader + es.length * R.sizeof)) : Stored R { f with byte := m } es := by
  refine ⟨?_, h.inside, fun i hi => ?_⟩
  · rw [← h.header]
    exact Header.load_congr (hf.sub (Nat.le_refl _) (by omega))
  · rw [← h.entries i hi]
    have hslot := slot_le R hi
    exact (hf.sub (Nat.zero_le _) (by omega)).loadBlock_eq

/-- A new entry count. The entries are unaffected. -/
theorem Stored.of_count {es' : List R.Value} {n : ℕ} (h : Stored R f es) (hn : n % 2 ^ 64 = es'.length)
    (hinside : sizeofHeader + es'.length * R.sizeof ≤ f.size)
    (hentries : ∀ i (h : i < es'.length), f.byte.loadBlock (sizeofHeader + i * R.sizeof) R.sizeof = es'[i]) :
    Stored R { f with byte := f.byte.storeLE 16 8 n } es' := by
  refine ⟨?_, hinside, fun i hi => ?_⟩
  · rw [Header.load_storeLE_count, h.header, hn]
    rfl
  · rw [← hentries i hi]
    exact (Memory.storeLE_agree n (Or.inr (by unfold sizeofHeader; omega))).loadBlock_eq

/-! ### Mapped vectors -/

/-- The pointers of `v` fit a file with `n` entries, of which whole pages are mapped. -/
structure Maps (v : MappedDiskVector R) (f : File) (n : ℕ) : Prop where
  begin_eq : v.begin_ = sizeofHeader
  end_eq : v.end_ = sizeofHeader + n * R.sizeof
  inside : v.end_ ≤ v.mapSizeInBytes_
  mapped : v.mapSizeInBytes_ ≤ f.size
  pages : kPageSize ∣ v.mapSizeInBytes_
  tail : f.size ≤ v.mapSizeInBytes_ + growth

/-- The vector `v` is open and holds `es`. -/
def Holds (d : Disk) (v : MappedDiskVector R) (es : List R.Value) : Prop :=
  ∃ f, d.files v.file_ = some f ∧ Stored R f es ∧ Maps v f es.length

theorem Maps.size_eq {n : ℕ} (h : Maps v f n) : v.size = n := by
  rw [size, h.end_eq, h.begin_eq, Nat.add_sub_cancel_left, Nat.mul_div_cancel _ R.sizeof_pos]

/-- There is no wrap-around in a mapping: it ends below `2 ^ 63`. -/
theorem Maps.lt {n : ℕ} (h : Maps v f n) : v.mapSizeInBytes_ < 2 ^ 63 := Nat.lt_of_le_of_lt h.mapped f.size_lt

/-- The vector has as many entries as are held. -/
theorem Holds.size_eq (h : Holds d v es) : v.size = es.length := by
  obtain ⟨f, _, _, hm⟩ := h
  exact hm.size_eq

/-- What is held depends on the files only. -/
theorem Holds.congr (h : Holds d v es) (hd : d'.files = d.files) : Holds d' v es := by
  obtain ⟨f, hf, hs, hm⟩ := h
  exact ⟨f, by rw [hd]; exact hf, hs, hm⟩

/-- The pointers of a vector that is not empty. -/
theorem Holds.lt_end (h : Holds d v es) (hne : es ≠ []) : v.end_ > v.begin_ := by
  obtain ⟨f, _, _, hm⟩ := h
  have hmul : 0 < es.length * R.sizeof := Nat.mul_pos (List.length_pos_iff.2 hne) R.sizeof_pos
  rw [hm.end_eq, hm.begin_eq]
  omega

/-- What every method leaves: a vector over the same file, and the other files as they were. -/
structure After (d : Disk) (v : MappedDiskVector R) (es : List R.Value) (s : Disk × MappedDiskVector R) : Prop where
  holds : Holds s.1 s.2 es
  file_ : s.2.file_ = v.file_
  frame : ∀ q, q ≠ v.file_ → s.1.files q = d.files q

theorem After.trans {es' : List R.Value} {s₁ s₂ : Disk × MappedDiskVector R} (h₁ : After d v es s₁)
    (h₂ : After s₁.1 s₁.2 es' s₂) : After d v es' s₂ :=
  ⟨h₂.holds, h₂.file_.trans h₁.file_, fun q hq => (h₂.frame q (h₁.file_.symm ▸ hq)).trans (h₁.frame q hq)⟩

theorem Holds.after (h : Holds d v es) (hd : d'.files = d.files) : After d v es (d', v) :=
  ⟨h.congr hd, rfl, fun q _ => by rw [hd]⟩

/-! ### Accesses through the mapping -/

variable {E : Error → Disk → Prop}

/-- A load inside the mapping gives what lies in the file. -/
theorem peek_spec {α : Type} {off n : ℕ} {g : Memory → α} (hf : d.files v.file_ = some f)
    (hmap : off + n ≤ v.mapSizeInBytes_) (hsize : off + n ≤ f.size) :
    wp (v.peek off n g) (fun a d' => a = g f.byte ∧ Unchanged d d') E d := by
  rw [peek, wp_bind, wp_get, Disk.file_of_files hf, if_pos ⟨hmap, hsize⟩, wp_pure]
  exact ⟨rfl, rfl, rfl⟩

/-- A store inside the mapping is a store into the file. -/
theorem poke_spec {off n : ℕ} {g : Memory → Memory} (hf : d.files v.file_ = some f)
    (hmap : off + n ≤ v.mapSizeInBytes_) (hsize : off + n ≤ f.size) :
    wp (v.poke off n g) (fun _ d' => d'.files = Function.update d.files v.file_ (some { f with byte := g f.byte }) ∧
      d'.failures = d.failures) E d := by
  rw [poke, wp_bind, wp_get, Disk.file_of_files hf, if_pos ⟨hmap, hsize⟩, wp_modify]
  exact ⟨rfl, rfl⟩

/-- **Indexing** gives the entry. -/
theorem entry_spec (h : Holds d v es) {i : ℕ} (hi : i < es.length) :
    wp (v.entry i) (fun x d' => x = es[i] ∧ Unchanged d d') E d := by
  obtain ⟨f, hf, hs, hm⟩ := h
  have hslot := slot_le R hi
  have hend := hm.end_eq
  have hin := hm.inside
  have hmapped := hm.mapped
  rw [entry, hm.begin_eq, ← hs.entries i hi]
  exact peek_spec hf (by omega) (by omega)

/-- Two slots do not overlap. -/
theorem slot_disjoint (R : RecordType) {i j : ℕ} (h : i ≠ j) :
    sizeofHeader + i * R.sizeof + R.sizeof ≤ sizeofHeader + j * R.sizeof ∨
      sizeofHeader + j * R.sizeof + R.sizeof ≤ sizeofHeader + i * R.sizeof := by
  rcases Nat.lt_or_gt_of_ne h with h | h
  · exact Or.inl (slot_le R h)
  · exact Or.inr (slot_le R h)

/-- An entry that is overwritten, with the others as they were. -/
theorem Stored.set (h : Stored R f es) (i : ℕ) (x : R.Value) :
    Stored R { f with byte := f.byte.storeBlock (sizeofHeader + i * R.sizeof) x } (es.set i x) := by
  refine ⟨?_, ?_, fun j hj => ?_⟩
  · rw [List.length_set, ← h.header]
    exact Header.load_congr (Memory.storeBlock_agree x (Or.inl (by omega)))
  · rw [List.length_set]
    exact h.inside
  · rw [List.getElem_set]
    by_cases hij : i = j
    · subst hij
      rw [if_pos rfl, Memory.loadBlock_storeBlock]
    · rw [if_neg hij, ← h.entries j (by simpa using hj)]
      exact (Memory.storeBlock_agree x (slot_disjoint R (Ne.symm hij))).loadBlock_eq

theorem front_spec (h : Holds d v es) (hne : es ≠ []) :
    wp v.front (fun x d' => x = es.head hne ∧ Unchanged d d') E d := by
  have hpos : 0 < es.length := List.length_pos_iff.2 hne
  have hend := h.lt_end hne
  rw [front, wp_bind]
  refine wp_xcheck (decide_eq_true hend) ?_
  rw [List.head_eq_getElem]
  exact entry_spec h hpos

theorem back_spec (h : Holds d v es) (hne : es ≠ []) :
    wp v.back (fun x d' => x = es.getLast hne ∧ Unchanged d d') E d := by
  have hpos : 0 < es.length := List.length_pos_iff.2 hne
  have hend := h.lt_end hne
  rw [back, wp_bind]
  refine wp_xcheck (decide_eq_true hend) ?_
  rw [List.getLast_eq_getElem]
  obtain ⟨f, hf, hs, hm⟩ := h
  have hlast : v.end_ - R.sizeof = sizeofHeader + (es.length - 1) * R.sizeof := by
    have hle : R.sizeof ≤ es.length * R.sizeof := Nat.le_mul_of_pos_left _ hpos
    rw [hm.end_eq, Nat.sub_mul, Nat.one_mul]
    omega
  have hslot := slot_le R (Nat.sub_lt hpos Nat.one_pos)
  have hin := hm.inside
  have hmapped := hm.mapped
  rw [hm.end_eq] at hin
  rw [hlast, ← hs.entries (es.length - 1) (Nat.sub_lt hpos Nat.one_pos)]
  exact peek_spec hf (by omega) (by omega)

/-- Populating an entry changes nothing, and its check holds of every index in range. -/
theorem populateEntryForWrite_spec (h : Holds d v es) {i : ℕ} (hi : i < es.length) :
    wp (v.populateEntryForWrite i) (fun _ => Unchanged d) (Thrown d) d := by
  have hsize := h.size_eq
  obtain ⟨f, hf, hs, hm⟩ := h
  have hslot := slot_le R hi
  have hlt := hm.lt
  have hin := hm.inside
  rw [hm.end_eq] at hin
  rw [populateEntryForWrite, wp_bind]
  refine wp_xcheck (decide_eq_true (by omega)) ?_
  rw [hm.begin_eq]
  exact populateForWrite_spec (by omega)

/-- An assignment through the index. -/
theorem setEntry_spec (h : Holds d v es) {i : ℕ} (hi : i < es.length) (x : R.Value) :
    wp (v.setEntry i x) (fun _ d' => After d v (es.set i x) (d', v) ∧ d'.failures = d.failures) E d := by
  obtain ⟨f, hf, hs, hm⟩ := h
  have hslot := slot_le R hi
  have hend := hm.end_eq
  have hin := hm.inside
  have hmapped := hm.mapped
  rw [setEntry, hm.begin_eq]
  refine (poke_spec hf (by omega) (by omega)).mono ?_ fun _ _ h => h
  rintro _ d' ⟨hfiles, hd⟩
  refine ⟨⟨⟨_, Disk.files_self hfiles, hs.set i x, ?_⟩, rfl, fun q hq => Disk.files_of_ne hfiles hq⟩, hd⟩
  rw [List.length_set]
  exact ⟨hm.begin_eq, hm.end_eq, hm.inside, hm.mapped, hm.pages, hm.tail⟩

/-! ### Methods -/

section Rules

variable {E : Error → Disk × MappedDiskVector R → Prop}

theorem wp_this {Q : MappedDiskVector R → Disk × MappedDiskVector R → Prop} : wp this Q E (d, v) ↔ Q v (d, v) := by
  rw [this, wp_bind, wp_get, wp_pure]

theorem wp_assign {v' : MappedDiskVector R} {Q : Unit → Disk × MappedDiskVector R → Prop} :
    wp (assign v') Q E (d, v) ↔ Q () (d, v') := by
  rw [assign, wp_modify]

end Rules

/-- A smaller count leaves the last entry out. -/
theorem Stored.dropLast (h : Stored R f es) (hne : es ≠ []) :
    Stored R { f with byte := f.byte.storeLE 16 8 (es.length + (2 ^ 64 - 1)) } es.dropLast := by
  have hlt := h.length_lt
  have hpos : 0 < es.length := List.length_pos_iff.2 hne
  have hin := h.inside
  have hmul : (es.length - 1) * R.sizeof ≤ es.length * R.sizeof := Nat.mul_le_mul_right _ (by omega)
  -- adding `2 ^ 64 - 1` to the count takes one off it
  refine h.of_count ?_ ?_ fun i hi => ?_
  · rw [List.length_dropLast]; omega
  · rw [List.length_dropLast]; omega
  · rw [List.getElem_dropLast]
    exact h.entries i (by rw [List.length_dropLast] at hi; omega)

/-- The count in the header is written through the mapping. -/
theorem updateEntryCount_spec {g : ℕ → ℕ} {n : ℕ} (hf : d.files v.file_ = some f)
    (hcount : (Header.load f.byte).entryCount = n) (hmap : sizeofHeader ≤ v.mapSizeInBytes_)
    (hsize : sizeofHeader ≤ f.size) :
    wp (v.updateEntryCount g) (fun _ d' => d'.files = Function.update d.files v.file_
      (some { f with byte := f.byte.storeLE 16 8 (g n) }) ∧ d'.failures = d.failures) E d := by
  unfold sizeofHeader at hmap hsize
  subst hcount
  exact poke_spec hf (by omega) (by omega)

/-- **`pop_back`** of a vector that is not empty. -/
theorem popBack_spec (h : Holds d v es) (hne : es ≠ []) {E : Error → Disk × MappedDiskVector R → Prop} :
    wp popBack (fun _ s => After d v es.dropLast s ∧ s.1.failures = d.failures) E (d, v) := by
  have hlt := h.lt_end hne
  obtain ⟨f, hf, hs, hm⟩ := h
  have hpos : 0 < es.length := List.length_pos_iff.2 hne
  have hend := hm.end_eq
  have hbegin := hm.begin_eq
  have hin := hm.inside
  have hmapped := hm.mapped
  have hlast : (es.length - 1) * R.sizeof = es.length * R.sizeof - R.sizeof := by
    rw [Nat.sub_mul, Nat.one_mul]
  -- the pointer moves first, then the count; the entry itself stays where it is
  rw [popBack, wp_bind, wp_this, wp_bind, wp_onFst]
  refine wp_xcheck (decide_eq_true hlt) ?_
  rw [wp_bind, wp_assign, wp_onFst]
  refine (updateEntryCount_spec hf hs.entryCount_eq (by omega) (by omega)).mono ?_ fun _ _ h => h
  rintro _ d' ⟨hfiles, hd⟩
  refine ⟨⟨⟨_, Disk.files_self hfiles, hs.dropLast hne, ?_⟩, rfl, fun q hq => Disk.files_of_ne hfiles hq⟩, hd⟩
  refine ⟨hbegin, ?_, ?_, hm.mapped, hm.pages, hm.tail⟩
  · rw [List.length_dropLast, hlast]
    change v.end_ - R.sizeof = _
    have hle : R.sizeof ≤ es.length * R.sizeof := Nat.le_mul_of_pos_left _ hpos
    omega
  · change v.end_ - R.sizeof ≤ v.mapSizeInBytes_
    omega

/-! ### Appending -/

/-- What is written to the free slot behind the entries is not seen. -/
theorem Stored.scratch (h : Stored R f es) (x : R.Value) :
    Stored R { f with byte := f.byte.storeBlock (sizeofHeader + es.length * R.sizeof) x } es :=
  h.of_agree (Memory.storeBlock_agree x (Or.inl (by omega)))

/-- **An entry behind the others** and a larger count. -/
theorem Stored.push (h : Stored R f es) (x : R.Value)
    (hroom : sizeofHeader + es.length * R.sizeof + R.sizeof ≤ f.size) :
    Stored R { f with byte := (f.byte.storeBlock (sizeofHeader + es.length * R.sizeof) x).storeLE 16 8 (es.length + 1) }
      (es ++ [x]) := by
  have hlt := h.length_lt
  have hlen : (es ++ [x]).length = es.length + 1 := by simp
  refine (h.scratch x).of_count ?_ ?_ fun i hi => ?_
  · rw [hlen]; omega
  · rw [hlen, Nat.add_mul, Nat.one_mul, ← Nat.add_assoc]; exact hroom
  · rw [hlen] at hi
    rcases Nat.lt_succ_iff_lt_or_eq.1 hi with hi | hi
    · rw [List.getElem_append_left hi]
      exact (h.scratch x).entries i hi
    · -- the new entry is what was stored
      subst hi
      simp only [List.getElem_append_right (Nat.le_refl _), Nat.sub_self, List.getElem_cons_zero,
        Memory.loadBlock_storeBlock]

/-- A mapping has room for one more entry. -/
def Room (v : MappedDiskVector R) : Prop := v.end_ + R.sizeof ≤ v.mapSizeInBytes_

/-- `hasRoom` looks whether the next entry ends inside the mapping. -/
theorem Maps.hasRoom_iff {n : ℕ} (h : Maps v f n) (hfits : sizeofHeader + R.sizeof ≤ initialSize) :
    v.hasRoom 1 = true ↔ Room v := by
  have hlt := h.lt
  have hin := h.inside
  have hbound : initialSize = 2 ^ 20 := by decide
  have hmod : (v.end_ + R.sizeof) % 2 ^ 64 = v.end_ + R.sizeof := Nat.mod_eq_of_lt (by omega)
  rw [hasRoom, Nat.one_mul, hmod, decide_eq_true_iff, Room]

/-- The vector has room as long as its size is below its capacity. -/
theorem Maps.room_iff {n : ℕ} (h : Maps v f n) : Room v ↔ v.size < v.capacity := by
  have hin := h.inside
  rw [h.end_eq] at hin
  rw [Room, capacity, h.size_eq, h.end_eq, ← Nat.succ_le_iff, Nat.le_div_iff_mul_le R.sizeof_pos, Nat.succ_mul]
  omega

/-- **Growth.** The mapping is one step larger and has room, or the call throws and the
vector is as before, over a file that may already be longer. -/
theorem grow_spec (hf : d.files v.file_ = some f) (hs : Stored R f es) (hm : Maps v f es.length)
    (hfits : sizeofHeader + R.sizeof ≤ initialSize) :
    wp grow (fun _ s => After d v es s ∧ Room s.2 ∧ s.1.failures = d.failures)
      (fun e s => After d v es s ∧ Failed d e s.1) (d, v) := by
  have hlt := hm.lt
  have hin := hm.inside
  have hend := hm.end_eq
  have hmapped := hm.mapped
  have htail := hm.tail
  have hpages := hm.pages
  have hgrowth : growth = 2 ^ 20 := by decide
  have hinit : initialSize = 2 ^ 20 := by decide
  have hnew : (v.mapSizeInBytes_ + growth) % 2 ^ 64 = v.mapSizeInBytes_ + growth := Nat.mod_eq_of_lt (by omega)
  have hdvd : kPageSize ∣ v.mapSizeInBytes_ + growth := Nat.dvd_add hpages (Nat.dvd_mul_left _ _)
  have hend' : (sizeofHeader + es.length * R.sizeof) % 2 ^ 64 = v.end_ := by
    rw [← hend]; exact Nat.mod_eq_of_lt (by omega)
  have hsame : ∀ d', d'.files = d.files → After d v es (d', v) := fun d' hd' => Holds.after ⟨f, hf, hs, hm⟩ hd'
  rw [grow, wp_bind, wp_this, hnew, hm.size_eq, wp_bind, wp_onFst]
  refine wp_xcheck (decide_eq_true (Nat.mod_eq_zero_of_dvd hdvd)) ?_
  rw [wp_bind, wp_onFst]
  refine (extendFile_spec hf (by omega)).mono ?_ fun e d' ht => ⟨hsame d' ht.files, ht.toFailed⟩
  rintro _ d₁ ⟨f₁, hfiles₁, hext, hsize₁, hd₁⟩
  have hs₁ := hs.extends hext
  -- from here on the file is longer, whatever happens to the mapping
  have hlonger : ∀ d' (v' : MappedDiskVector R), d'.files = d₁.files → v'.file_ = v.file_ → Maps v' f₁ es.length →
      After d v es (d', v') := by
    intro d' v' hd' hv' hm'
    refine ⟨⟨f₁, ?_, hs₁, hm'⟩, hv', fun q hq => ?_⟩
    · change d'.files v'.file_ = some f₁
      rw [hd', hv']; exact Disk.files_self hfiles₁
    · change d'.files q = d.files q
      rw [hd']; exact Disk.files_of_ne hfiles₁ hq
  have hmap₁ : Maps v f₁ es.length := ⟨hm.begin_eq, hend, hin, by omega, hpages, by omega⟩
  rw [wp_bind, wp_onFst]
  refine (wp_orThrow rfl Disk.call_spec).mono ?_ fun e d' ht =>
    ⟨hlonger d' v ht.files rfl hmap₁, ht.toFailed.of_failures hd₁⟩
  rintro _ d₂ ⟨hfiles₂, hd₂⟩
  rw [wp_bind, wp_assign, hend', wp_onFst]
  have hmap₂ : Maps (⟨v.file_, sizeofHeader, v.end_, v.mapSizeInBytes_ + growth⟩ : MappedDiskVector R) f₁ es.length :=
    ⟨rfl, hend, Nat.le_add_right_of_le hin, Nat.le_of_eq hsize₁.symm, hdvd, by rw [hsize₁]; exact Nat.le_add_right _ _⟩
  refine (populateForWrite_spec (by omega)).mono ?_ fun e d' ht =>
    ⟨hlonger d' _ (ht.files.trans hfiles₂) rfl hmap₂, ht.toFailed.of_failures (hd₂.trans hd₁)⟩
  rintro _ d₃ ⟨hfiles₃, hd₃⟩
  refine ⟨hlonger d₃ _ (hfiles₃.trans hfiles₂) rfl hmap₂, ?_, hd₃.trans (hd₂.trans hd₁)⟩
  change v.end_ + R.sizeof ≤ v.mapSizeInBytes_ + growth
  omega

/-- **The entry is constructed** and then counted, or the constructor throws and it is not. -/
theorem constructBack_spec (hf : d.files v.file_ = some f) (hs : Stored R f es) (hm : Maps v f es.length)
    (hroom : Room v) (x : R.Value) :
    wp (constructBack x) (fun _ s => After d v (es ++ [x]) s ∧ s.1.failures = d.failures)
      (fun e s => After d v es s ∧ Failed d e s.1) (d, v) := by
  have hend := hm.end_eq
  have hmapped := hm.mapped
  have hlt := hm.lt
  unfold Room at hroom
  rw [constructBack, wp_bind, wp_this, wp_bind, wp_onFst]
  refine (populateForWrite_spec (by omega)).mono ?_ fun e d' ht =>
    ⟨Holds.after ⟨f, hf, hs, hm⟩ ht.files, ht.toFailed⟩
  rintro _ d₁ ⟨hfiles₁, hd₁⟩
  rw [wp_bind, wp_onFst]
  refine Disk.userCode_spec.mono ?_ fun e d' h => h
  rintro r d₂ ⟨hfiles₂, hr⟩
  have hf₂ : d₂.files v.file_ = some f := by rw [hfiles₂, hfiles₁]; exact hf
  have hframe : ∀ (d' : Disk) f', d'.files = Function.update d₂.files v.file_ f' →
      ∀ q, q ≠ v.file_ → d'.files q = d.files q := by
    intro d' f' hd' q hq
    rw [Disk.files_of_ne hd' hq, hfiles₂, hfiles₁]
  rcases hr with ⟨rfl, hd₂⟩ | ⟨⟨⟨std, scratch⟩, rfl⟩, hd₂⟩
  · -- the record was constructed
    rw [wp_bind, wp_onFst]
    refine (poke_spec hf₂ hroom (Nat.le_trans hroom hmapped)).mono ?_ fun e d' h => h
    rintro _ d₃ ⟨hfiles₃, hd₃⟩
    rw [wp_bind, wp_assign, wp_onFst]
    rw [hend] at hfiles₃ ⊢
    refine (updateEntryCount_spec (Disk.files_self hfiles₃) (hs.scratch x).entryCount_eq (by omega)
      (Nat.le_trans (by omega) hmapped)).mono ?_ fun e d' h => h
    rintro _ d₄ ⟨hfiles₄, hd₄⟩
    rw [hfiles₃, Function.update_idem] at hfiles₄
    have hmod : (sizeofHeader + es.length * R.sizeof + R.sizeof) % 2 ^ 64 =
        sizeofHeader + es.length * R.sizeof + R.sizeof := Nat.mod_eq_of_lt (by omega)
    refine ⟨⟨⟨_, Disk.files_self hfiles₄, hs.push x (by omega), ?_⟩, rfl, hframe d₄ _ hfiles₄⟩, ?_⟩
    · refine ⟨hm.begin_eq, ?_, ?_, hmapped, hm.pages, hm.tail⟩
      · rw [hmod, List.length_append, List.length_singleton, Nat.add_mul, Nat.one_mul, Nat.add_assoc]
      · rw [hmod, ← hend]
        exact hroom
    · rw [hd₄, hd₃, hd₂]; exact hd₁
  · -- the constructor threw: the slot is behind the entries
    rw [wp_bind, wp_onFst]
    refine (poke_spec hf₂ hroom (Nat.le_trans hroom hmapped)).mono ?_ fun e d' h => h
    rintro _ d₃ ⟨hfiles₃, hd₃⟩
    rw [wp_throw]
    rw [hend] at hfiles₃
    refine ⟨⟨⟨_, Disk.files_self hfiles₃, hs.scratch _, ?_⟩, rfl, hframe d₃ _ hfiles₃⟩, rfl, ?_⟩
    · exact ⟨hm.begin_eq, hend, hm.inside, hmapped, hm.pages, hm.tail⟩
    · rw [hd₃, ← hd₁]; exact hd₂

/-- **`emplace_back`** appends the record, or throws and leaves the entries as they were. -/
theorem emplaceBack_spec (h : Holds d v es) (hfits : sizeofHeader + R.sizeof ≤ initialSize) (x : R.Value) :
    wp (emplaceBack x) (fun _ s => After d v (es ++ [x]) s ∧ s.1.failures = d.failures)
      (fun e s => After d v es s ∧ Failed d e s.1) (d, v) := by
  have hroom : wp (if v.hasRoom 1 then pure () else grow)
      (fun _ s => After d v es s ∧ Room s.2 ∧ s.1.failures = d.failures)
      (fun e s => After d v es s ∧ Failed d e s.1) (d, v) := by
    obtain ⟨f, hf, hs, hm⟩ := h
    by_cases hr : v.hasRoom 1 = true
    · rw [if_pos hr, wp_pure]
      exact ⟨Holds.after ⟨f, hf, hs, hm⟩ rfl, (hm.hasRoom_iff hfits).1 hr, rfl⟩
    · rw [if_neg hr]
      exact grow_spec hf hs hm hfits
  rw [emplaceBack, wp_bind, wp_this]
  refine hroom.bind (fun _ _ h => h) ?_
  rintro _ ⟨d₁, v₁⟩ ⟨ha, hr, hd₁⟩
  obtain ⟨f₁, hf₁, hs₁, hm₁⟩ := ha.holds
  refine (constructBack_spec hf₁ hs₁ hm₁ hr x).mono ?_ ?_
  · rintro _ s ⟨ha', hd'⟩
    exact ⟨ha.trans ha', hd'.trans hd₁⟩
  · rintro e s ⟨ha', hfail⟩
    exact ⟨ha.trans ha', hfail.of_failures hd₁⟩

end MappedDiskVector

end EdenCommon
