import EdenCommon.Proof.Utf8
import EdenCommon.Spec.Utf8Reads
import Mathlib.Data.List.Basic

/-!
# Where `isValidUtf8` reads

The bounds check of `isValidContinuation` lets a sequence through that lacks its last
byte, and the loop behind it then reads the byte at `end`. This is the only way out of
the range (`isValidUtf8_reads_iff`): all other strings are read inside their range, and
what follows them does not matter. Well encoded strings are among these, so they are
accepted wherever they stand (`WellEncoded.isValidUtf8`).

* `wellEncoded_of_isValidUtf8Loop`, `isValidUtf8_true_iff`: what is accepted anywhere is
  well encoded, so acceptance does not depend on what follows.
* `isValidUtf8_reads_end`: a string that ends in a lead byte is read behind its end, and is
  told from another by what stands there.
-/

namespace EdenCommon

variable {num pos : ℕ} {cp bits least : UInt32} {first : UInt8} {s w after continuations : Bytes}

/-! ### The reads are those of the scanner -/

theorem readContinuationsTraced_snd (mem : Bytes) :
    (readContinuationsTraced num pos mem cp).2 = readContinuations num mem cp := by
  induction num generalizing pos mem cp with
  | zero => rfl
  | succ num ih =>
    cases mem with
    | nil => rfl
    | cons c mem =>
      unfold readContinuationsTraced readContinuations
      by_cases hc : isValidContinuation c = true
      · rw [if_pos hc, if_pos hc]
        exact ih mem
      · rw [if_neg hc, if_neg hc]

theorem isValidContinuationsTraced_snd (mem : Bytes) (room : ℤ) :
    (isValidContinuationsTraced pos mem room num cp).2 = isValidContinuations mem room num cp := by
  unfold isValidContinuationsTraced isValidContinuations
  by_cases hroom : room < (num : ℤ) - 1
  · rw [if_pos hroom, if_pos hroom]
  · rw [if_neg hroom, if_neg hroom]
    exact readContinuationsTraced_snd mem

theorem isValidUtf8LoopTraced_snd (fuel : ℕ) :
    ∀ (pos : ℕ) (mem : Bytes) (room : ℤ), (isValidUtf8LoopTraced fuel pos mem room).2 = isValidUtf8Loop fuel mem room := by
  induction fuel with
  | zero => exact fun _ _ _ => rfl
  | succ fuel ih =>
    intro pos mem room
    unfold isValidUtf8LoopTraced isValidUtf8Loop
    by_cases hroom : room = 0
    · rw [if_pos hroom, if_pos hroom]
    rw [if_neg hroom, if_neg hroom]
    cases mem with
    | nil => rfl
    | cons first mem =>
      by_cases h7 : (!isBitSet first 7) = true
      · simp only [h7, if_true]
        exact ih _ _ _
      simp only [h7]
      rcases leadByte first with - | ⟨num, bits, least⟩
      · rfl
      · simp only [Bool.false_eq_true, if_false, ← @isValidContinuationsTraced_snd num (pos + 1) bits mem (room - 1)]
        rcases (isValidContinuationsTraced (pos + 1) mem (room - 1) num bits).2 with - | - | ⟨mem', codepoint⟩
        · rfl
        · rfl
        · by_cases hleast : codepoint < least
          · simp only [hleast, if_true]
          · simp only [hleast, if_false]
            exact ih _ _ _

/-- **The result with its reads** is the result. -/
theorem isValidUtf8Traced_snd (str after : Bytes) : (isValidUtf8Traced str after).2 = isValidUtf8 str after :=
  isValidUtf8LoopTraced_snd _ _ _ _

/-! ### Continuation bytes -/

theorem takeContinuations_append (hcont : ∀ c ∈ continuations, isValidContinuation c = true) (s : Bytes) (cp : UInt32) :
    takeContinuations continuations.length (continuations ++ s) cp = some (s, codePoint cp continuations) := by
  induction continuations generalizing cp with
  | nil => rfl
  | cons c continuations ih =>
    have hc := hcont c List.mem_cons_self
    rw [List.length_cons, List.cons_append]
    unfold takeContinuations
    rw [if_pos hc]
    exact ih (fun d hd => hcont d (List.mem_cons_of_mem c hd)) _

/-- What was taken is a row of continuation bytes. -/
theorem takeContinuations_eq_some {s' : Bytes} {cp' : UInt32} (h : takeContinuations num s cp = some (s', cp')) :
    ∃ continuations, s = continuations ++ s' ∧ continuations.length = num ∧
      (∀ c ∈ continuations, isValidContinuation c = true) ∧ cp' = codePoint cp continuations := by
  induction num generalizing s cp with
  | zero =>
    obtain ⟨rfl, rfl⟩ := Prod.mk.inj (Option.some.inj h)
    exact ⟨[], rfl, rfl, by simp, rfl⟩
  | succ num ih =>
    cases s with
    | nil => cases h
    | cons c s =>
      unfold takeContinuations at h
      split at h
      · rename_i hc
        obtain ⟨continuations, rfl, hlen, hcont, rfl⟩ := ih h
        refine ⟨c :: continuations, rfl, by rw [List.length_cons, hlen], ?_, rfl⟩
        intro d hd
        rcases List.mem_cons.1 hd with rfl | hd
        · exact hc
        · exact hcont d hd
      · cases h

/-- The loop over the continuation bytes stays inside the range if the range has them all,
or another byte in their place. -/
theorem readContinuationsTraced_inside (h : num ≤ s.length ∨ ∃ c ∈ s, isValidContinuation c = false) :
    (∀ i ∈ (readContinuationsTraced num pos (s ++ after) cp).1, i < pos + s.length) ∧
      (readContinuationsTraced num pos (s ++ after) cp).2 =
        some ((takeContinuations num s cp).map fun r => (r.1 ++ after, r.2)) := by
  induction num generalizing s pos cp with
  | zero => exact ⟨by simp [readContinuationsTraced], rfl⟩
  | succ num ih =>
    cases s with
    | nil => simp at h
    | cons c s =>
      rw [List.cons_append]
      unfold readContinuationsTraced takeContinuations
      by_cases hc : isValidContinuation c = true
      · have h' : num ≤ s.length ∨ ∃ d ∈ s, isValidContinuation d = false := by
          rcases h with hlen | ⟨d, hd, hdc⟩
          · rw [List.length_cons] at hlen
            exact .inl (by omega)
          · rcases List.mem_cons.1 hd with rfl | hd
            · rw [hc] at hdc
              cases hdc
            · exact .inr ⟨d, hd, hdc⟩
        obtain ⟨hreads, hresult⟩ := @ih (pos + 1) ((cp <<< 6) ||| (clearContinuationBit c).toUInt32) s h'
        rw [if_pos hc, if_pos hc]
        refine ⟨fun i hi => ?_, hresult⟩
        rw [List.length_cons]
        rcases List.mem_cons.1 hi with rfl | hi
        · omega
        · have := hreads i hi
          omega
      · rw [if_neg hc, if_neg hc]
        refine ⟨fun i hi => ?_, rfl⟩
        rw [List.mem_singleton.1 hi, List.length_cons]
        omega

/-- Where the last one lacks, the loop reads behind the range. -/
theorem readContinuationsTraced_outside (hlen : s.length < num) (hcont : ∀ c ∈ s, isValidContinuation c = true) :
    pos + s.length ∈ (readContinuationsTraced num pos (s ++ after) cp).1 := by
  induction num generalizing s pos cp with
  | zero => omega
  | succ num ih =>
    cases s with
    | nil =>
      cases after with
      | nil => exact List.mem_singleton_self _
      | cons b after =>
        rw [List.nil_append]
        unfold readContinuationsTraced
        split <;> exact List.mem_cons_self
    | cons c s =>
      have hrest := @ih (pos + 1) ((cp <<< 6) ||| (clearContinuationBit c).toUInt32) s
        (by rw [List.length_cons] at hlen; omega) fun d hd => hcont d (List.mem_cons_of_mem c hd)
      rw [List.cons_append, List.length_cons]
      unfold readContinuationsTraced
      rw [if_pos (hcont c List.mem_cons_self)]
      refine List.mem_cons_of_mem _ ?_
      rwa [show pos + (s.length + 1) = pos + 1 + s.length by omega]

/-! ### One turn of the loop -/

section Turn

variable {fuel : ℕ}

theorem isValidUtf8LoopTraced_ascii (h7 : isBitSet first 7 = false) :
    isValidUtf8LoopTraced (fuel + 1) pos (first :: s ++ after) (first :: s).length =
      (pos :: (isValidUtf8LoopTraced fuel (pos + 1) (s ++ after) s.length).1,
        (isValidUtf8LoopTraced fuel (pos + 1) (s ++ after) s.length).2) := by
  have hroom : ((first :: s).length : ℤ) - 1 = (s.length : ℤ) := by simp
  have hne : ((first :: s).length : ℤ) ≠ 0 := by
    rw [List.length_cons]
    omega
  rw [List.cons_append, isValidUtf8LoopTraced, if_neg hne, hroom]
  simp only [h7, Bool.not_false, if_true]

theorem isValidUtf8LoopTraced_lead (h7 : isBitSet first 7 = true) (hlead : leadByte first = some (num, bits, least)) :
    isValidUtf8LoopTraced (fuel + 1) pos (first :: s ++ after) (first :: s).length =
      let read := isValidContinuationsTraced (pos + 1) (s ++ after) s.length num bits
      match read.2 with
      | none => (pos :: read.1, none)
      | some none => (pos :: read.1, some false)
      | some (some (mem', codepoint)) =>
        if codepoint < least then (pos :: read.1, some false)
        else
          let rest := isValidUtf8LoopTraced fuel (pos + 1 + num) mem' (s.length - num)
          (pos :: (read.1 ++ rest.1), rest.2) := by
  have hroom : ((first :: s).length : ℤ) - 1 = (s.length : ℤ) := by simp
  have hne : ((first :: s).length : ℤ) ≠ 0 := by
    rw [List.length_cons]
    omega
  rw [List.cons_append, isValidUtf8LoopTraced, if_neg hne, hroom]
  have hbit : ¬ (!isBitSet first 7) = true := by
    rw [h7]
    decide
  rw [if_neg hbit]
  generalize leadByte first = lead at hlead ⊢
  subst hlead
  exact rfl

/-- **A whole character** is read, and the loop goes on behind it. -/
theorem isValidUtf8LoopTraced_sequence (h7 : isBitSet first 7 = true) (hlead : leadByte first = some (num, bits, least))
    (hlen : continuations.length = num) (hcont : ∀ c ∈ continuations, isValidContinuation c = true)
    (hleast : least ≤ codePoint bits continuations) :
    isValidUtf8LoopTraced (fuel + 1) pos (first :: (continuations ++ s) ++ after) (first :: (continuations ++ s)).length =
      (pos :: ((readContinuationsTraced num (pos + 1) (continuations ++ s ++ after) bits).1 ++
          (isValidUtf8LoopTraced fuel (pos + 1 + num) (s ++ after) s.length).1),
        (isValidUtf8LoopTraced fuel (pos + 1 + num) (s ++ after) s.length).2) := by
  have htotal : (continuations ++ s).length = num + s.length := by rw [List.length_append, hlen]
  have hroom : ¬ ((continuations ++ s).length : ℤ) < (num : ℤ) - 1 := by omega
  have hread : isValidContinuationsTraced (pos + 1) (continuations ++ s ++ after) (continuations ++ s).length num bits =
      readContinuationsTraced num (pos + 1) (continuations ++ s ++ after) bits := if_neg hroom
  have hresult := (@readContinuationsTraced_inside num (pos + 1) bits (continuations ++ s) after (.inl (by omega))).2
  have htake := takeContinuations_append hcont s bits
  rw [hlen] at htake
  rw [htake, Option.map_some] at hresult
  have hroom' : ((continuations ++ s).length : ℤ) - num = (s.length : ℤ) := by omega
  rw [isValidUtf8LoopTraced_lead h7 hlead, hread]
  simp only [hresult, UInt32.not_lt.2 hleast, if_false, hroom']

/-- What is no character is refused with nothing read but its bytes. -/
theorem isValidUtf8LoopTraced_refused (h7 : isBitSet first 7 = true) (hlead : leadByte first = some (num, bits, least))
    (hroom : ¬ (s.length : ℤ) < (num : ℤ) - 1) (hinside : num ≤ s.length ∨ ∃ c ∈ s, isValidContinuation c = false)
    (hover : ∀ s' cp', takeContinuations num s bits = some (s', cp') → cp' < least) :
    isValidUtf8LoopTraced (fuel + 1) pos (first :: s ++ after) (first :: s).length =
      (pos :: (readContinuationsTraced num (pos + 1) (s ++ after) bits).1, some false) := by
  have hread : isValidContinuationsTraced (pos + 1) (s ++ after) s.length num bits =
      readContinuationsTraced num (pos + 1) (s ++ after) bits := if_neg hroom
  have hresult := (@readContinuationsTraced_inside num (pos + 1) bits s after hinside).2
  rw [isValidUtf8LoopTraced_lead h7 hlead, hread]
  rcases htake : takeContinuations num s bits with - | ⟨s', cp'⟩
  · rw [htake, Option.map_none] at hresult
    simp only [hresult]
  · rw [htake, Option.map_some] at hresult
    simp only [hresult, hover s' cp' htake, if_true]

end Turn

/-! ### Strings that lack the last byte -/

theorem LacksLastByte.ascii {c : UInt8} (hc : isBitSet c 7 = false) (h : LacksLastByte s) : LacksLastByte (c :: s) := by
  obtain ⟨front, first, num, bits, least, continuations, rfl, hfront, hrest⟩ := h
  exact ⟨c :: front, first, num, bits, least, continuations, rfl, .ascii hc hfront, hrest⟩

theorem LacksLastByte.sequence (h7 : isBitSet first 7 = true) (hlead : leadByte first = some (num, bits, least))
    (hlen : continuations.length = num) (hcont : ∀ c ∈ continuations, isValidContinuation c = true)
    (hleast : least ≤ codePoint bits continuations) (h : LacksLastByte s) :
    LacksLastByte (first :: (continuations ++ s)) := by
  obtain ⟨front, first', num', bits', least', continuations', rfl, hfront, hrest⟩ := h
  refine ⟨first :: (continuations ++ front), first', num', bits', least', continuations', ?_,
    .sequence h7 hlead hlen hcont hleast hfront, hrest⟩
  rw [List.cons_append, List.append_assoc]

theorem LacksLastByte.last (h7 : isBitSet first 7 = true) (hlead : leadByte first = some (num, bits, least))
    (hlen : s.length + 1 = num) (hcont : ∀ c ∈ s, isValidContinuation c = true) : LacksLastByte (first :: s) :=
  ⟨[], first, num, bits, least, s, rfl, .nil, h7, hlead, hlen, hcont⟩

/-- **A turn at a lead byte** stays in the range, if the turns behind the character do. -/
theorem isValidUtf8LoopTraced_lead_inside {fuel g : ℕ} (h7 : isBitSet first 7 = true)
    (hlead : leadByte first = some (num, bits, least)) (hlacks : ¬ LacksLastByte (first :: s))
    (hrest : ∀ s' : Bytes, s'.length ≤ s.length → ¬ LacksLastByte s' →
      (∀ i ∈ (isValidUtf8LoopTraced fuel (pos + 1 + num) (s' ++ after) s'.length).1, i < pos + 1 + num + s'.length) ∧
        (isValidUtf8LoopTraced fuel (pos + 1 + num) (s' ++ after) s'.length).2 = some (strictUtf8 g s')) :
    (∀ i ∈ (isValidUtf8LoopTraced (fuel + 1) pos (first :: s ++ after) (first :: s).length).1,
        i < pos + (first :: s).length) ∧
      (isValidUtf8LoopTraced (fuel + 1) pos (first :: s ++ after) (first :: s).length).2 =
        some (strictUtf8 (g + 1) (first :: s)) := by
  unfold strictUtf8
  simp only [h7, hlead, Bool.not_true, Bool.false_eq_true, if_false]
  by_cases hroom : (s.length : ℤ) < (num : ℤ) - 1
  · -- two bytes or more are lacking: the check refuses
    have htake : takeContinuations num s bits = none := by
      rcases h : takeContinuations num s bits with - | ⟨s', cp'⟩
      · rfl
      · have := takeContinuations_length h
        omega
    rw [isValidUtf8LoopTraced_lead h7 hlead]
    simp [isValidContinuationsTraced, hroom, htake]
  have hinside : num ≤ s.length ∨ ∃ c ∈ s, isValidContinuation c = false := by
    by_contra hno
    obtain ⟨hlt, hall⟩ := not_or.1 hno
    refine hlacks (.last h7 hlead (by omega) fun c hc => ?_)
    by_contra hfalse
    exact hall ⟨c, hc, Bool.of_not_eq_true hfalse⟩
  have hreads := (@readContinuationsTraced_inside num (pos + 1) bits s after hinside).1
  have hfirst : ∀ i ∈ pos :: (readContinuationsTraced num (pos + 1) (s ++ after) bits).1,
      i < pos + (first :: s).length := by
    intro i hi
    rw [List.length_cons]
    rcases List.mem_cons.1 hi with rfl | hi
    · omega
    · have := hreads i hi
      omega
  rcases htake : takeContinuations num s bits with - | ⟨s', cp'⟩
  · rw [isValidUtf8LoopTraced_refused h7 hlead hroom hinside fun s' cp' h => by rw [htake] at h; cases h]
    exact ⟨hfirst, rfl⟩
  by_cases hover : cp' < least
  · rw [isValidUtf8LoopTraced_refused h7 hlead hroom hinside fun s' cp' h => by rw [htake] at h; cases h; exact hover]
    simp only [hover, if_true]
    exact ⟨hfirst, trivial⟩
  simp only [hover, if_false]
  obtain ⟨continuations, rfl, hlen, hcont, rfl⟩ := takeContinuations_eq_some htake
  have hleast := UInt32.not_lt.1 hover
  have htotal : (continuations ++ s').length = num + s'.length := by rw [List.length_append, hlen]
  obtain ⟨hreads', hresult'⟩ := hrest s' (by omega) fun h => hlacks (h.sequence h7 hlead hlen hcont hleast)
  rw [isValidUtf8LoopTraced_sequence h7 hlead hlen hcont hleast]
  refine ⟨fun i hi => ?_, hresult'⟩
  rw [← List.cons_append] at hi
  rcases List.mem_append.1 hi with hi | hi
  · exact hfirst i hi
  · have := hreads' i hi
    rw [List.length_cons]
    omega

/-- **All other strings are read inside their range**, with the answer of the scanner that
stays there. -/
theorem isValidUtf8LoopTraced_inside (fuel : ℕ) : ∀ (g pos : ℕ) (s : Bytes), s.length < fuel → s.length < g →
    ¬ LacksLastByte s →
    (∀ i ∈ (isValidUtf8LoopTraced fuel pos (s ++ after) s.length).1, i < pos + s.length) ∧
      (isValidUtf8LoopTraced fuel pos (s ++ after) s.length).2 = some (strictUtf8 g s) := by
  induction fuel with
  | zero => intro g pos s h; omega
  | succ fuel ih =>
    intro g pos s hf hg hlacks
    obtain ⟨g, rfl⟩ : ∃ g', g = g' + 1 := ⟨g - 1, by omega⟩
    cases s with
    | nil => simp [isValidUtf8LoopTraced, strictUtf8]
    | cons first s =>
      simp only [List.length_cons] at hf hg
      by_cases h7 : isBitSet first 7 = true
      · rcases hlead : leadByte first with - | ⟨num, bits, least⟩
        · -- no lead byte
          have hne : ((first :: s).length : ℤ) ≠ 0 := by
            rw [List.length_cons]
            omega
          rw [List.cons_append, isValidUtf8LoopTraced, if_neg hne, strictUtf8]
          simp [h7, hlead]
        · exact isValidUtf8LoopTraced_lead_inside h7 hlead hlacks fun s' hle =>
            ih g (pos + 1 + num) s' (by omega) (by omega)
      · have h7' : isBitSet first 7 = false := Bool.of_not_eq_true h7
        obtain ⟨hreads, hresult⟩ := ih g (pos + 1) s (by omega) (by omega) fun h => hlacks (h.ascii h7')
        rw [isValidUtf8LoopTraced_ascii h7', strictUtf8]
        simp only [h7', Bool.not_false, if_true]
        refine ⟨fun i hi => ?_, hresult⟩
        rw [List.length_cons]
        rcases List.mem_cons.1 hi with rfl | hi
        · omega
        · have := hreads i hi
          omega

/-- **A string that lacks its last byte** is read behind its range. -/
theorem isValidUtf8LoopTraced_outside (hw : WellEncoded w) (h7 : isBitSet first 7 = true)
    (hlead : leadByte first = some (num, bits, least)) (hlen : continuations.length + 1 = num)
    (hcont : ∀ c ∈ continuations, isValidContinuation c = true) :
    ∀ fuel pos, (w ++ first :: continuations).length < fuel →
      pos + (w ++ first :: continuations).length ∈ (isValidUtf8LoopTraced fuel pos
        (w ++ first :: continuations ++ after) (w ++ first :: continuations).length).1 := by
  induction hw with
  | nil =>
    intro fuel pos hf
    obtain ⟨fuel, rfl⟩ : ∃ f, fuel = f + 1 := ⟨fuel - 1, by omega⟩
    have hroom : ¬ (continuations.length : ℤ) < (num : ℤ) - 1 := by omega
    have hread : isValidContinuationsTraced (pos + 1) (continuations ++ after) continuations.length num bits =
        readContinuationsTraced num (pos + 1) (continuations ++ after) bits := if_neg hroom
    have hmem := @readContinuationsTraced_outside num (pos + 1) bits continuations after (by omega) hcont
    rw [show pos + 1 + continuations.length = pos + (first :: continuations).length by
      rw [List.length_cons]; omega] at hmem
    rw [List.nil_append, isValidUtf8LoopTraced_lead h7 hlead, hread]
    rcases hresult : (readContinuationsTraced num (pos + 1) (continuations ++ after) bits).2 with
      - | - | ⟨mem', codepoint⟩
    · simp only [hresult]
      exact List.mem_cons_of_mem _ hmem
    · simp only [hresult]
      exact List.mem_cons_of_mem _ hmem
    · by_cases hover : codepoint < least
      · simp only [hresult, hover, if_true]
        exact List.mem_cons_of_mem _ hmem
      · simp only [hresult, hover, if_false]
        exact List.mem_cons_of_mem _ (List.mem_append_left _ hmem)
  | @ascii c w hc hw ih =>
    intro fuel pos hf
    obtain ⟨fuel, rfl⟩ : ∃ f, fuel = f + 1 := ⟨fuel - 1, by omega⟩
    rw [List.cons_append, List.length_cons] at hf
    have hrest := ih fuel (pos + 1) (by omega)
    rw [show pos + 1 + (w ++ first :: continuations).length = pos + (c :: (w ++ first :: continuations)).length by
      rw [List.length_cons]; omega] at hrest
    rw [List.cons_append, isValidUtf8LoopTraced_ascii hc]
    exact List.mem_cons_of_mem _ hrest
  | @sequence first' num' bits' least' continuations' w h7' hlead' hlen' hcont' hleast' hw ih =>
    intro fuel pos hf
    obtain ⟨fuel, rfl⟩ : ∃ f, fuel = f + 1 := ⟨fuel - 1, by omega⟩
    have hcut : first' :: (continuations' ++ w) ++ first :: continuations =
        first' :: (continuations' ++ (w ++ first :: continuations)) := by
      rw [List.cons_append, List.append_assoc]
    have htotal : (continuations' ++ (w ++ first :: continuations)).length =
        num' + (w ++ first :: continuations).length := by rw [List.length_append, hlen']
    rw [hcut] at hf ⊢
    rw [List.length_cons] at hf
    have hrest := ih fuel (pos + 1 + num') (by omega)
    rw [isValidUtf8LoopTraced_sequence h7' hlead' hlen' hcont' hleast']
    refine List.mem_cons_of_mem _ (List.mem_append_right _ ?_)
    rwa [List.length_cons, htotal, show pos + (num' + (w ++ first :: continuations).length + 1) =
      pos + 1 + num' + (w ++ first :: continuations).length by omega]

/-! ### Well encoded strings -/

/-- The scanner that stays in its range passes over what is well encoded. -/
theorem strictUtf8_append (hw : WellEncoded w) : ∀ g g', (w ++ s).length < g → s.length < g' →
    strictUtf8 g (w ++ s) = strictUtf8 g' s := by
  induction hw with
  | nil =>
    intro g g' hg hg'
    rw [List.nil_append] at hg ⊢
    have hb : isValidContinuation 0 = false := by decide
    have h1 := isValidUtf8Loop_eq hb [] (s.length + 1) g s (by omega) hg
    have h2 := isValidUtf8Loop_eq hb [] (s.length + 1) g' s (by omega) hg'
    exact Option.some.inj (h1.symm.trans h2)
  | @ascii c w hc hw ih =>
    intro g g' hg hg'
    obtain ⟨g, rfl⟩ : ∃ f, g = f + 1 := ⟨g - 1, by omega⟩
    rw [List.cons_append, List.length_cons] at hg
    rw [List.cons_append, strictUtf8, hc, ← ih g g' (by omega) hg']
    rfl
  | @sequence first num bits least continuations w h7 hlead hlen hcont hleast hw ih =>
    intro g g' hg hg'
    obtain ⟨g, rfl⟩ : ∃ f, g = f + 1 := ⟨g - 1, by omega⟩
    have hcut : first :: (continuations ++ w) ++ s = first :: (continuations ++ (w ++ s)) := by
      rw [List.cons_append, List.append_assoc]
    have htake := takeContinuations_append hcont (w ++ s) bits
    rw [hlen] at htake
    rw [hcut] at hg ⊢
    rw [List.length_cons, List.length_append] at hg
    rw [strictUtf8]
    simp only [h7, hlead, htake, UInt32.not_lt.2 hleast, Bool.not_true, Bool.false_eq_true, if_false]
    exact ih g g' (by omega) hg'

/-- What the scanner accepts that stays in its range is well encoded. -/
theorem wellEncoded_of_strictUtf8 (g : ℕ) : ∀ s, strictUtf8 g s = true → WellEncoded s := by
  induction g with
  | zero => exact fun s h => nomatch h
  | succ g ih =>
    intro s h
    cases s with
    | nil => exact .nil
    | cons first s =>
      unfold strictUtf8 at h
      by_cases h7 : isBitSet first 7 = true
      · simp only [h7, Bool.not_true, Bool.false_eq_true, if_false] at h
        rcases hlead : leadByte first with - | ⟨num, bits, least⟩
        · simp [hlead] at h
        rcases htake : takeContinuations num s bits with - | ⟨s', cp'⟩
        · simp [hlead, htake] at h
        simp only [hlead, htake] at h
        obtain ⟨continuations, rfl, hlen, hcont, rfl⟩ := takeContinuations_eq_some htake
        by_cases hover : codePoint bits continuations < least
        · simp [hover] at h
        · rw [if_neg hover] at h
          exact .sequence h7 hlead hlen hcont (UInt32.not_lt.1 hover) (ih s' h)
      · have h7' : isBitSet first 7 = false := Bool.of_not_eq_true h7
        simp only [h7', Bool.not_false, if_true] at h
        exact .ascii h7' (ih s h)

/-- **The strings accepted in a `std::string`** are the well encoded ones. -/
theorem acceptedUtf8_iff_wellEncoded : AcceptedUtf8 s ↔ WellEncoded s := by
  unfold AcceptedUtf8 nulTerminator
  rw [isValidUtf8_eq (by decide)]
  constructor
  · exact fun h => wellEncoded_of_strictUtf8 _ s (Option.some.inj h)
  · intro h
    have happend := @strictUtf8_append [] s h (s.length + 1) 1
    rw [List.append_nil] at happend
    rw [happend (by omega) (by decide)]
    rfl

/-- No string is both well encoded and without its last byte. -/
theorem LacksLastByte.not_wellEncoded (h : LacksLastByte s) : ¬ WellEncoded s := by
  obtain ⟨front, first, num, bits, least, continuations, rfl, hfront, h7, hlead, hlen, hcont⟩ := h
  intro hw
  have haccept := acceptedUtf8_iff_wellEncoded.2 hw
  unfold AcceptedUtf8 nulTerminator at haccept
  rw [isValidUtf8_eq (by decide), strictUtf8_append hfront _ (continuations.length + 2) (by omega) (by simp)] at haccept
  have htake : takeContinuations num continuations bits = none := by
    rcases h : takeContinuations num continuations bits with - | ⟨s', cp'⟩
    · rfl
    · have := takeContinuations_length h
      omega
  simp [strictUtf8, h7, hlead, htake] at haccept

/-- **A well encoded string** is accepted wherever it stands. -/
theorem WellEncoded.isValidUtf8 (h : WellEncoded s) (after : Bytes) : isValidUtf8 s after = some true := by
  have hresult := (@isValidUtf8LoopTraced_inside after (s.length + after.length + 1) (s.length + 1) 0 s (by omega)
    (by omega) fun hlacks => hlacks.not_wellEncoded h).2
  have haccept := acceptedUtf8_iff_wellEncoded.2 h
  unfold AcceptedUtf8 nulTerminator at haccept
  rw [isValidUtf8_eq (by decide)] at haccept
  rw [isValidUtf8LoopTraced_snd, haccept] at hresult
  exact hresult

/-- Behind the end the loop does not find the end again. -/
theorem isValidUtf8Loop_behind (fuel : ℕ) : ∀ (mem : Bytes) (room : ℤ), room < 0 →
    isValidUtf8Loop fuel mem room ≠ some true := by
  induction fuel with
  | zero =>
    intro mem room hroom h
    cases h
  | succ fuel ih =>
    intro mem room hroom
    unfold isValidUtf8Loop
    rw [if_neg (by omega)]
    cases mem with
    | nil =>
      intro h
      cases h
    | cons first mem =>
      by_cases h7 : (!isBitSet first 7) = true
      · simp only [h7, if_true]
        exact ih mem (room - 1) (by omega)
      simp only [h7]
      rcases leadByte first with - | ⟨num, bits, least⟩
      · intro h
        cases h
      rcases hread : isValidContinuations mem (room - 1) num bits with - | - | ⟨mem', codepoint⟩
      · simp [hread]
      · simp [hread]
      · by_cases hover : codepoint < least
        · simp [hread, hover]
        · simp only [Bool.false_eq_true, hread, hover, if_false]
          exact ih mem' (room - 1 - num) (by omega)

theorem takeContinuations_of_read {mem mem' : Bytes} {cp' : UInt32}
    (h : readContinuations num mem cp = some (some (mem', cp'))) : takeContinuations num mem cp = some (mem', cp') := by
  induction num generalizing mem cp with
  | zero => exact Option.some.inj h
  | succ num ih =>
    cases mem with
    | nil => cases h
    | cons c mem =>
      unfold readContinuations at h
      unfold takeContinuations
      split at h
      · rename_i hc
        rw [if_pos hc]
        exact ih h
      · cases h

/-- **What is accepted anywhere** is well encoded. -/
theorem wellEncoded_of_isValidUtf8Loop (fuel : ℕ) : ∀ s : Bytes,
    isValidUtf8Loop fuel (s ++ after) s.length = some true → WellEncoded s := by
  induction fuel with
  | zero => exact fun s h => nomatch h
  | succ fuel ih =>
    intro s h
    cases s with
    | nil => exact .nil
    | cons first s =>
      have hroom : ((first :: s).length : ℤ) - 1 = (s.length : ℤ) := by simp
      have hne : ((first :: s).length : ℤ) ≠ 0 := by
        rw [List.length_cons]
        omega
      rw [List.cons_append, isValidUtf8Loop, if_neg hne, hroom] at h
      by_cases h7 : isBitSet first 7 = true
      · simp only [h7, Bool.not_true, Bool.false_eq_true, if_false] at h
        rcases hlead : leadByte first with - | ⟨num, bits, least⟩
        · simp [hlead] at h
        rcases hread : isValidContinuations (s ++ after) s.length num bits with - | - | ⟨mem', cp'⟩
        · simp [hlead, hread] at h
        · simp [hlead, hread] at h
        simp only [hlead, hread] at h
        by_cases hover : cp' < least
        · simp [hover] at h
        rw [if_neg hover] at h
        have hlen : num ≤ s.length := by
          by_contra hlt
          exact isValidUtf8Loop_behind fuel _ _ (by omega) h
        unfold isValidContinuations at hread
        rw [if_neg (by omega)] at hread
        obtain ⟨continuations, heq, hnum, hcont, rfl⟩ := takeContinuations_eq_some (takeContinuations_of_read hread)
        -- the continuation bytes are the first ones of the range
        obtain ⟨s', rfl⟩ : ∃ s', s = continuations ++ s' :=
          (List.prefix_of_prefix_length_le ⟨_, heq.symm⟩ ⟨_, rfl⟩ (by omega)).imp fun _ => Eq.symm
        rw [List.append_assoc] at heq
        obtain rfl := List.append_cancel_left heq
        have hroom' : ((continuations ++ s').length : ℤ) - num = (s'.length : ℤ) := by
          rw [List.length_append]
          omega
        rw [hroom'] at h
        exact .sequence h7 hlead hnum hcont (UInt32.not_lt.1 hover) (ih s' h)
      · have h7' : isBitSet first 7 = false := Bool.of_not_eq_true h7
        simp only [h7', Bool.not_false, if_true] at h
        exact .ascii h7' (ih s h)

/-- **Acceptance does not depend on what follows.** -/
theorem isValidUtf8_true_iff (s after : Bytes) : isValidUtf8 s after = some true ↔ AcceptedUtf8 s := by
  rw [acceptedUtf8_iff_wellEncoded]
  exact ⟨wellEncoded_of_isValidUtf8Loop _ s, fun h => h.isValidUtf8 after⟩

/-- A string that is cut in front of an ASCII character stays well encoded. -/
theorem WellEncoded.of_append_ascii {u t : Bytes} {a : UInt8} (ha : isBitSet a 7 = false)
    (h : WellEncoded (u ++ a :: t)) : WellEncoded u := by
  generalize hs : u ++ a :: t = s at h
  induction h generalizing u with
  | nil => simp at hs
  | @ascii c s hc hs' ih =>
    cases u with
    | nil => exact .nil
    | cons d u =>
      obtain ⟨rfl, rfl⟩ := List.cons.inj hs
      exact .ascii hc (ih rfl)
  | @sequence first num bits least continuations s h7 hlead hlen hcont hleast hs' ih =>
    cases u with
    | nil => exact .nil
    | cons d u =>
      obtain ⟨rfl, htail⟩ := List.cons.inj hs
      rcases List.append_eq_append_iff.1 htail with ⟨more, hmore, hrest⟩ | ⟨more, rfl, hrest⟩
      · -- the cut would be at a continuation byte
        cases more with
        | nil =>
          rw [List.append_nil] at hmore
          have hwhole := WellEncoded.sequence h7 hlead hlen hcont hleast .nil
          rw [List.append_nil] at hwhole
          rwa [← hmore]
        | cons b more =>
          obtain ⟨rfl, -⟩ := List.cons.inj hrest
          have := hcont a (by rw [hmore]; simp)
          unfold isValidContinuation at this
          rw [ha] at this
          cases this
      · exact .sequence h7 hlead hlen hcont hleast (ih hrest.symm)

/-! ### The range -/

/-- **`isValidUtf8` stays inside its range**, and answers by it alone, unless the string
lacks exactly the last byte of its last sequence. -/
theorem isValidUtf8_reads_iff (str : Bytes) :
    ((∀ after, ∀ i ∈ (isValidUtf8Traced str after).1, i < str.length) ∧
        ∀ after after', isValidUtf8 str after = isValidUtf8 str after') ↔
      ¬ LacksLastByte str := by
  constructor
  · rintro ⟨hreads, -⟩ ⟨front, first, num, bits, least, continuations, rfl, hfront, h7, hlead, hlen, hcont⟩
    have hout := @isValidUtf8LoopTraced_outside num bits least first front [] continuations hfront h7 hlead hlen hcont
      ((front ++ first :: continuations).length + 1) 0 (by omega)
    have := hreads [] _ hout
    omega
  · intro h
    have hinside : ∀ after, _ := fun after => @isValidUtf8LoopTraced_inside after (str.length + after.length + 1)
      (str.length + 1) 0 str (by omega) (by omega) h
    refine ⟨fun after i hi => ?_, fun after after' => ?_⟩
    · have := (hinside after).1 i hi
      omega
    · rw [← isValidUtf8Traced_snd, ← isValidUtf8Traced_snd]
      exact (hinside after).2.trans (hinside after').2.symm

/-- A string that ends in a lead byte is read behind its end, and is told from another by
what stands there. -/
theorem isValidUtf8_reads_end :
    (isValidUtf8Traced [0xC3] [0xA9]).1 = [0, 1, 2] ∧ isValidUtf8 [0xC3] [0xA9] = none ∧
      isValidUtf8 [0xC3] nulTerminator = some false ∧
      ¬ ((∀ after, ∀ i ∈ (isValidUtf8Traced [0xC3] after).1, i < [0xC3].length) ∧
        ∀ after after', isValidUtf8 [0xC3] after = isValidUtf8 [0xC3] after') := by
  refine ⟨by decide, by decide, by decide, ?_⟩
  rintro ⟨h, -⟩
  exact absurd (h [0xA9] 1 (by decide)) (by decide)

end EdenCommon
