import EdenCommon.Proof.Utf8Forms
import EdenCommon.Spec.EnsureValidUtf8

/-!
# Where the overloads of `ensureValidUtf8` agree

The overload for a `ByteRange` decodes and encodes, and what it returns is always strict
(`ensureValidUtf8Range_spec`). The overload for a `std::string&&` returns its argument if
`isValidUtf8` accepts it, and that scanner does not look at what the values are. The two
part on the strings in which a shortest form hides a surrogate or a value above
`0x10FFFF`, and on no others (`ensureValidUtf8_agree_iff`).

* `ensureValidUtf8Loop_spec`: the loop decodes a code point, or replaces what it cannot
  decode, and appends it encoded. What is assumed of `folly`'s decoder is that it moves on
  and decodes strict text.
* `strictUtf8_iff_not_hides`: a row of shortest forms is strict exactly if it hides nothing.
-/

namespace EdenCommon

open Lib

variable {folly : Unicode} {s r : Bytes}

theorem isScalar_replacement : IsScalar 0xFFFD := by decide

/-! ### The overload that re-encodes -/

theorem ensureValidUtf8Loop_spec (hfolly : folly.Lawful) (fuel : ℕ) : ∀ (str output : Bytes), str.length < fuel →
    ∃ t, ensureValidUtf8Loop folly fuel str output = some (output ++ t) ∧ StrictUtf8 t ∧ (StrictUtf8 str → t = str) := by
  induction fuel with
  | zero =>
    intro str output h
    omega
  | succ fuel ih =>
    intro str output hlen
    cases str with
    | nil => exact ⟨[], by rw [List.append_nil]; rfl, .nil, fun _ => rfl⟩
    | cons first str =>
      unfold ensureValidUtf8Loop
      by_cases h : ∃ v t, IsScalar v ∧ first :: str = encodeUtf8 v ++ t
      · obtain ⟨v, rest, hv, hstr⟩ := h
        have hshort : rest.length < fuel := by
          have hpos := List.length_pos_iff.2 (encodeUtf8_ne_nil v)
          have hsum := congrArg List.length hstr
          rw [List.length_append] at hsum
          omega
        obtain ⟨t, ht, hstrict, hsame⟩ := ih rest (output ++ encodeUtf8 v) hshort
        refine ⟨encodeUtf8 v ++ t, ?_, hstrict.cons hv, fun hwell => ?_⟩
        · simp only [hstr, hfolly.scalar v rest hv, hfolly.append v output hv, ht, List.append_assoc]
        · rw [hstr, hsame (hwell.of_append hv hstr)]
      · obtain ⟨n, hn, hle, hdecode⟩ := hfolly.invalid (first :: str) (by simp) fun v t hv hstr => h ⟨v, t, hv, hstr⟩
        have hshort : ((first :: str).drop n).length < fuel := by
          rw [List.length_drop]
          omega
        obtain ⟨t, ht, hstrict, -⟩ := ih ((first :: str).drop n) (output ++ encodeUtf8 0xFFFD) hshort
        refine ⟨encodeUtf8 0xFFFD ++ t, ?_, hstrict.cons isScalar_replacement, fun hwell => ?_⟩
        · simp only [hdecode, hfolly.append _ output isScalar_replacement, ht, List.append_assoc]
        · rcases hwell.eq_nil_or_cons with hnil | ⟨v, t, hv, hstr, -⟩
          · cases hnil
          · exact absurd ⟨v, t, hv, hstr⟩ h

/-- **Re-encoding.** The result is strict, and a strict string is not changed. -/
theorem ensureValidUtf8Range_spec (hfolly : folly.Lawful) (str : Bytes) :
    ∃ t, ensureValidUtf8Range folly str = some t ∧ StrictUtf8 t ∧ (StrictUtf8 str → t = str) :=
  ensureValidUtf8Loop_spec hfolly _ str [] (by omega)

/-! ### The overload that looks first -/

theorem ensureValidUtf8String_of_shortestForms (folly : Unicode) (h : ShortestForms s) : ensureValidUtf8String folly s = some s := by
  obtain ⟨r, hr, hforms⟩ := isValidUtf8_answers (show isValidContinuation 0 = false by decide) s []
  unfold ensureValidUtf8String nulTerminator
  rw [hr, hforms.2 h]
  rfl

theorem ensureValidUtf8String_of_not (folly : Unicode) (h : ¬ ShortestForms s) :
    ensureValidUtf8String folly s = ensureValidUtf8Range folly s := by
  obtain ⟨r, hr, hforms⟩ := isValidUtf8_answers (show isValidContinuation 0 = false by decide) s []
  unfold ensureValidUtf8String nulTerminator
  rw [hr, Option.bind_some, if_neg fun hr => h (hforms.1 hr)]
  rfl

/-- A row of shortest forms is strict exactly if it hides nothing. -/
theorem strictUtf8_iff_not_hides (h : ShortestForms s) : StrictUtf8 s ↔ ¬ HidesNonScalar s := by
  constructor
  · rintro ⟨ws, hws, hs⟩ ⟨vs, hvs, hs', v, hv, hnot⟩
    have heq := flatMap_encodeUtf8_inj hvs (fun w hw => (hws w hw).lt) (hs'.symm.trans hs)
    exact hnot (hws v (heq ▸ hv))
  · intro hhides
    obtain ⟨vs, hvs, hs⟩ := h
    refine ⟨vs, fun v hv => ?_, hs⟩
    by_contra hnot
    exact hhides ⟨vs, hvs, hs, v, hv, hnot⟩

/-! ### What is stored -/

theorem storedAs_of_agree (hfolly : folly.Lawful) (hstring : ensureValidUtf8String folly s = some r)
    (hrange : ensureValidUtf8Range folly s = some r) : StoredAs folly s r := by
  constructor
  · intro ev name hfresh
    refine ⟨_, by unfold DynamicEvent.addString; rw [hstring, hfresh]; rfl, ?_⟩
    exact if_pos rfl
  · intro ev name value i hfresh hi
    choose clean hclean _ using ensureValidUtf8Range_spec hfolly
    have hpiece : ensureValidUtf8Piece folly = fun v => pure (clean v) := funext hclean
    refine ⟨_, value.map clean, by unfold DynamicEvent.addStringVec; rw [hpiece, List.mapM_pure, hfresh]; rfl, ?_, ?_⟩
    · exact if_pos rfl
    · have hr : clean s = r := Option.some.inj ((hclean s).symm.trans hrange)
      rw [List.getElem?_map, hi, Option.map_some, hr]

/-- **The overloads agree** on a strict text, and both members of `DynamicEvent` store it, exactly
if the argument is no row of shortest forms that hides a surrogate or a value above `0x10FFFF`. -/
theorem ensureValidUtf8_agree_iff (folly : Unicode) (hfolly : folly.Lawful) (s : Bytes) :
    (∃ r, ensureValidUtf8String folly s = some r ∧ ensureValidUtf8Range folly s = some r ∧ StrictUtf8 r ∧
        StoredAs folly s r) ↔
      ¬ HidesNonScalar s := by
  obtain ⟨t, ht, hstrict, hsame⟩ := ensureValidUtf8Range_spec hfolly s
  by_cases hforms : ShortestForms s
  · rw [← strictUtf8_iff_not_hides hforms]
    have hstring := ensureValidUtf8String_of_shortestForms folly hforms
    constructor
    · rintro ⟨r, hr, -, hr', -⟩
      rw [hstring] at hr
      obtain rfl := Option.some.inj hr
      exact hr'
    · intro h
      rw [hsame h] at ht
      exact ⟨s, hstring, ht, h, storedAs_of_agree hfolly hstring ht⟩
  · have hstring := (ensureValidUtf8String_of_not folly hforms).trans ht
    constructor
    · rintro - ⟨vs, hvs, hs, -⟩
      exact hforms ⟨vs, hvs, hs⟩
    · exact fun _ => ⟨t, hstring, ht, hstrict, storedAs_of_agree hfolly hstring ht⟩

/-! ### A decoder with these properties -/

/-- A decoder that takes a form whose value is a scalar, and else skips one byte. -/
def skippingUnicode : Unicode where
  utf8ToCodePoint s :=
    let n := utf8Length (s.headD 0)
    let v := utf8Value (s.take n)
    if IsScalar v ∧ encodeUtf8 v = s.take n then (v, s.drop n) else (0xFFFD, s.drop 1)
  appendCodePointToUtf8 v out := out ++ encodeUtf8 v

theorem skippingUnicode_lawful : skippingUnicode.Lawful where
  scalar v s hv := by
    obtain ⟨first, rest, hform, hlen⟩ := encodeUtf8_eq_cons hv.lt
    have hn : utf8Length ((encodeUtf8 v ++ s).headD 0) = (encodeUtf8 v).length := by
      rw [hform, List.cons_append, List.headD_cons, List.length_cons, hlen]
    simp only [skippingUnicode]
    rw [hn, List.take_left, List.drop_left, utf8Value_encodeUtf8 hv.lt, if_pos ⟨hv, rfl⟩]
  invalid s hne hinvalid := by
    refine ⟨1, by omega, List.length_pos_iff.2 hne, if_neg ?_⟩
    rintro ⟨hv, hform⟩
    apply hinvalid _ _ hv
    rw [hform, List.take_append_drop]
  append v out _ := rfl

/-- An overlong form between two letters. -/
theorem ensureValidUtf8_agree_iff_overlong :
    (∃ r, ensureValidUtf8String skippingUnicode [0x61, 0xC0, 0x80, 0x62] = some r ∧
        ensureValidUtf8Range skippingUnicode [0x61, 0xC0, 0x80, 0x62] = some r ∧ StrictUtf8 r ∧
        StoredAs skippingUnicode [0x61, 0xC0, 0x80, 0x62] r) ↔
      ¬ HidesNonScalar [0x61, 0xC0, 0x80, 0x62] :=
  ensureValidUtf8_agree_iff skippingUnicode skippingUnicode_lawful [0x61, 0xC0, 0x80, 0x62]

/-- **A surrogate.** One overload returns it as it is, the other replaces its three bytes. -/
theorem ensureValidUtf8_disagree :
    ensureValidUtf8String skippingUnicode [0xED, 0xA0, 0x80] = some [0xED, 0xA0, 0x80] ∧
      ensureValidUtf8Range skippingUnicode [0xED, 0xA0, 0x80] =
        some [0xEF, 0xBF, 0xBD, 0xEF, 0xBF, 0xBD, 0xEF, 0xBF, 0xBD] ∧
      ¬ StrictUtf8 [0xED, 0xA0, 0x80] ∧
      ¬ ∃ r, ensureValidUtf8String skippingUnicode [0xED, 0xA0, 0x80] = some r ∧
        ensureValidUtf8Range skippingUnicode [0xED, 0xA0, 0x80] = some r := by
  have hform : ShortestForms [0xED, 0xA0, 0x80] := ⟨[0xD800], by decide, by decide⟩
  have hstring := ensureValidUtf8String_of_shortestForms skippingUnicode hform
  have hrange : ensureValidUtf8Range skippingUnicode [0xED, 0xA0, 0x80] =
      some [0xEF, 0xBF, 0xBD, 0xEF, 0xBF, 0xBD, 0xEF, 0xBF, 0xBD] := by decide
  refine ⟨hstring, hrange, fun h => ?_, ?_⟩
  · exact (strictUtf8_iff_not_hides hform).1 h ⟨[0xD800], by decide, by decide, 0xD800, by simp, by decide⟩
  · rintro ⟨r, hr, hr'⟩
    rw [hstring] at hr
    rw [hrange, ← hr] at hr'
    exact absurd hr' (by decide)

end EdenCommon
