import EdenCommon.Spec.StructuredLogger

/-!
# Which events become documents

A member of `DynamicEvent` computes a value and inserts it, unless its name is taken in its group
(`Event.call_eq`, `Event.store_of_free`). So a row of calls gives a document exactly if each of them
is sound and no slot comes twice, and the document then says what the calls said
(`logEvent_document`).

* `Event.find_call`, `Event.find_populate`: what one call stores, and what a row of calls
  stores beside what was there.
* `Event.populate_ok_iff`: the rows that go through are those of sound calls for slots that
  are free and told apart.
* `Event.call_throws_iff`, `Event.populate_throws_iff`: a row throws where, behind calls that go
  through, a sound one finds its slot taken.
-/

namespace EdenCommon

namespace StructuredLogger

open Lib

variable {folly : Unicode} {ev ev' : Event} {c : Call} {calls : List Call} {α : Type}

/-! ### One call -/

def Event.find (ev : Event) : Group × Bytes → Option Value
  | (.int, name) => (ev.ints_.lookup name).map .int
  | (.normal, name) => (ev.strings_.lookup name).map .normal
  | (.double, name) => (ev.doubles_.lookup name).map .double
  | (.normvector, name) => (ev.stringVecs_.lookup name).map .normvector
  | (.tags, name) => (ev.stringSets_.lookup name).map .tags

/-- A value inserted in the map of its group. -/
def Event.store (ev : Event) (name : Bytes) : Value → Except IntFailure Event
  | .int v => (emplaceOrThrow Group.int.duplicateText ev.ints_ name v).map fun ints_ => { ev with ints_ }
  | .normal v => (emplaceOrThrow Group.normal.duplicateText ev.strings_ name v).map fun strings_ => { ev with strings_ }
  | .double v => (emplaceOrThrow Group.double.duplicateText ev.doubles_ name v).map fun doubles_ => { ev with doubles_ }
  | .normvector v =>
    (emplaceOrThrow Group.normvector.duplicateText ev.stringVecs_ name v).map fun stringVecs_ => { ev with stringVecs_ }
  | .tags v =>
    (emplaceOrThrow Group.tags.duplicateText ev.stringSets_ name v).map fun stringSets_ => { ev with stringSets_ }

/-- **A call** computes its value, and inserts it under its name. -/
theorem Event.call_eq (folly : Unicode) (ev : Event) (c : Call) :
    ev.call folly c = (c.value folly).map fun r => r.bind (ev.store c.slot.2) := by
  cases c with
  | int name value => rfl
  | truncatedInt name value bits_to_keep =>
    simp only [Event.call, Event.addTruncatedInt, Call.value, Option.map_some]
    cases truncated value bits_to_keep <;> rfl
  | bool name value => rfl
  | string name value =>
    simp only [Event.call, Event.addString, Call.value, Option.map_map]
    rfl
  | double name value =>
    simp only [Event.call, Event.addDouble, Call.value, Option.map_some]
    split <;> rfl
  | stringVec name value =>
    simp only [Event.call, Event.addStringVec, Call.value, Option.map_map]
    rfl
  | stringSet name value =>
    simp only [Event.call, Event.addStringSet, Call.value, Option.map_map]
    rfl

/-- The value of a call is of its group. -/
theorem Call.group_value {v : Value} (h : c.value folly = some (.ok v)) : v.group = c.slot.1 := by
  cases c with
  | int name value =>
    cases h
    rfl
  | truncatedInt name value bits_to_keep =>
    simp only [Call.value] at h
    cases ht : truncated value bits_to_keep with
    | error e =>
      rw [ht] at h
      cases h
    | ok stored =>
      rw [ht] at h
      cases h
      rfl
  | bool name value =>
    cases h
    rfl
  | string name value =>
    obtain ⟨text, -, hv⟩ := Option.map_eq_some_iff.1 h
    cases hv
    rfl
  | double name value =>
    simp only [Call.value] at h
    split at h
    · cases h
      rfl
    · cases h
  | stringVec name value =>
    obtain ⟨texts, -, hv⟩ := Option.map_eq_some_iff.1 h
    cases hv
    rfl
  | stringSet name value =>
    obtain ⟨texts, -, hv⟩ := Option.map_eq_some_iff.1 h
    cases hv
    rfl

/-- A name that is taken is refused, -/
theorem emplaceOrThrow_of_taken {text : String} {m : UnorderedMap α} {name : Bytes} {value : α}
    (h : (m.lookup name).isSome) : emplaceOrThrow text m name value = .error (.logicError ⟨text, name⟩) :=
  if_pos (AList.lookup_isSome.1 h)

/-- and a free one is stored. -/
theorem emplaceOrThrow_of_free {text : String} {m : UnorderedMap α} {name : Bytes} {value : α}
    (h : m.lookup name = none) : emplaceOrThrow text m name value = .ok (m.insert name value) :=
  if_neg (AList.lookup_eq_none.1 h)

theorem Event.store_of_taken {name : Bytes} {v : Value} (h : (ev.find (v.group, name)).isSome) :
    ev.store name v = .error (.logicError ⟨v.group.duplicateText, name⟩) := by
  cases v <;>
  · simp only [Event.find, Value.group, Option.isSome_map] at h
    rw [Event.store, emplaceOrThrow_of_taken h]
    rfl

/-- A map with one more entry. -/
theorem lookup_insert_eq (m : UnorderedMap α) (name k : Bytes) (value : α) :
    (m.insert name value).lookup k = if k = name then some value else m.lookup k := by
  split
  · rename_i h
    rw [h, AList.lookup_insert]
  · rename_i h
    rw [AList.lookup_insert_ne h]

/-- **Insertion.** Only the slot is changed. -/
theorem Event.store_of_free {name : Bytes} {v : Value} (h : ev.find (v.group, name) = none) :
    ∃ ev', ev.store name v = .ok ev' ∧ ∀ s, ev'.find s = if s = (v.group, name) then some v else ev.find s := by
  cases v <;>
  · simp only [Event.find, Value.group, Option.map_eq_none_iff] at h
    rw [Event.store, emplaceOrThrow_of_free h]
    refine ⟨_, rfl, ?_⟩
    rintro ⟨g, k⟩
    cases g <;> by_cases hk : k = name <;> simp [Event.find, Value.group, lookup_insert_eq, hk]

/-! ### The members on their own

What `addTruncatedInt`, `addString` and `addStringVec` do to a whole event is what they do to the map
that they touch. -/

theorem lookup_emplaceOrThrow (text : String) (m : UnorderedMap α) (name : Bytes) (value : α) :
    (emplaceOrThrow text m name value).map (fun m' k => m'.lookup k) =
      if (m.lookup name).isSome then .error (.logicError ⟨text, name⟩)
      else .ok fun k => if k = name then some value else m.lookup k := by
  split
  · rename_i h
    rw [emplaceOrThrow_of_taken h]
    rfl
  · rename_i h
    rw [emplaceOrThrow_of_free (Option.not_isSome_iff_eq_none.1 h)]
    exact congrArg Except.ok (funext fun k => lookup_insert_eq m name k value)

/-- The integers of an event are a map of their own, as in `IntMap`. -/
theorem Event.addInt_lookup (ev : Event) (name : Bytes) (value : BitVec 64) :
    (ev.addInt name value).map (fun ev' k => ev'.ints_.lookup k) =
      IntMap.addInt (fun k => ev.ints_.lookup k) name value := by
  rw [IntMap.addInt, ← lookup_emplaceOrThrow, Event.addInt]
  cases emplaceOrThrow "Attempted to insert duplicate int: " ev.ints_ name value <;> rfl

theorem Event.addTruncatedInt_lookup (ev : Event) (name : Bytes) (value : BitVec 64) (bits_to_keep : ℕ) :
    (ev.addTruncatedInt name value bits_to_keep).map (fun ev' k => ev'.ints_.lookup k) =
      IntMap.addTruncatedInt (fun k => ev.ints_.lookup k) name value bits_to_keep := by
  have haddInt := Event.addInt_lookup ev name
  rw [Event.addTruncatedInt, truncated, IntMap.addTruncatedInt]
  split
  · rfl
  cases builtinClzll value with
  | error e => rfl
  | ok n =>
    simp only [bind, Except.bind]
    by_cases hkeep : 64 - n ≤ bits_to_keep
    · rw [if_pos hkeep, if_pos hkeep]
      exact haddInt value
    · rw [if_neg hkeep, if_neg hkeep]
      cases shiftLeft64 1#64 bits_to_keep with
      | error e => rfl
      | ok one =>
        dsimp only
        cases shiftLeft64 (one - 1#64) (64 - n - bits_to_keep) with
        | error e => rfl
        | ok mask => exact haddInt (value &&& mask)

/-- The maps of texts. -/
def Event.texts (ev : Event) : DynamicEvent where
  strings_ k := ev.strings_.lookup k
  stringVecs_ k := ev.stringVecs_.lookup k

/-- So are its texts. -/
theorem Event.addString_texts (folly : Unicode) (ev : Event) (name value : Bytes) :
    (ev.addString folly name value).map (Except.map Event.texts) =
      (ev.texts.addString folly name value).map (Except.mapError IntFailure.logicError) := by
  rw [Event.addString, DynamicEvent.addString, Option.map_map, Option.map_map]
  congr 1
  funext validatedValue
  simp only [Function.comp_apply]
  split
  · rename_i h
    rw [emplaceOrThrow_of_taken h]
    rfl
  · rename_i h
    rw [emplaceOrThrow_of_free (Option.not_isSome_iff_eq_none.1 h)]
    simp only [Except.map, Event.texts, lookup_insert_eq, Except.mapError]

theorem Event.addStringVec_texts (folly : Unicode) (ev : Event) (name : Bytes) (value : List Bytes) :
    (ev.addStringVec folly name value).map (Except.map Event.texts) =
      (ev.texts.addStringVec folly name value).map (Except.mapError IntFailure.logicError) := by
  rw [Event.addStringVec, DynamicEvent.addStringVec, Option.map_map, Option.map_map]
  congr 1
  funext validatedValue
  simp only [Function.comp_apply]
  split
  · rename_i h
    rw [emplaceOrThrow_of_taken h]
    rfl
  · rename_i h
    rw [emplaceOrThrow_of_free (Option.not_isSome_iff_eq_none.1 h)]
    simp only [Except.map, Event.texts, lookup_insert_eq, Except.mapError]

/-! ### A row of calls -/

/-- Calls behind one another. -/
theorem Event.populate_append (folly : Unicode) (ev : Event) (calls calls' : List Call) :
    ev.populate folly (calls ++ calls') =
      (ev.populate folly calls).bind fun r =>
        match r with
        | .ok ev' => ev'.populate folly calls'
        | .error e => some (.error e) := by
  induction calls generalizing ev with
  | nil => rfl
  | cons c calls ih =>
    simp only [List.cons_append, Event.populate]
    rcases ev.call folly c with - | (e | ev')
    · rfl
    · rfl
    · exact ih ev'

/-- A call goes through exactly if it is sound and its slot is free. -/
theorem Event.call_ok_iff : (∃ ev', ev.call folly c = some (.ok ev')) ↔ c.Sound folly ∧ ev.find c.slot = none := by
  rw [Event.call_eq]
  constructor
  · rintro ⟨ev', h⟩
    obtain ⟨r, hr, hstore⟩ := Option.map_eq_some_iff.1 h
    cases r with
    | error e => cases hstore
    | ok v =>
      refine ⟨⟨v, hr⟩, Option.eq_none_iff_forall_ne_some.2 fun w hw => ?_⟩
      rw [← Prod.mk.eta (p := c.slot), ← Call.group_value hr] at hw
      rw [Except.bind, Event.store_of_taken (Option.isSome_of_eq_some hw)] at hstore
      cases hstore
  · rintro ⟨⟨v, hv⟩, hfree⟩
    rw [← Prod.mk.eta (p := c.slot), ← Call.group_value hv] at hfree
    obtain ⟨ev', hev', -⟩ := Event.store_of_free hfree
    exact ⟨ev', by rw [hv, Option.map_some, Except.bind, hev']⟩

/-- **A call that succeeds** stores its value and no other. -/
theorem Event.find_call {v : Value} (hv : c.value folly = some (.ok v)) (h : ev.call folly c = some (.ok ev'))
    (s : Group × Bytes) : ev'.find s = if s = c.slot then some v else ev.find s := by
  have hfree := (Event.call_ok_iff.1 ⟨ev', h⟩).2
  rw [Event.call_eq, hv] at h
  rw [← Prod.mk.eta (p := c.slot), ← Call.group_value hv] at hfree ⊢
  obtain ⟨ev₁, hev₁, hfind⟩ := Event.store_of_free hfree
  rw [Option.map_some, Except.bind, hev₁] at h
  cases h
  exact hfind s

/-- **Which rows go through**: those of sound calls for slots that are free and told apart. -/
theorem Event.populate_ok_iff (folly : Unicode) (calls : List Call) (ev : Event) :
    (∃ ev', ev.populate folly calls = some (.ok ev')) ↔
      (calls.map Call.slot).Nodup ∧ (∀ c ∈ calls, c.Sound folly) ∧ ∀ c ∈ calls, ev.find c.slot = none := by
  induction calls generalizing ev with
  | nil => exact iff_of_true ⟨ev, rfl⟩ ⟨List.nodup_nil, nofun, nofun⟩
  | cons c calls ih =>
    simp only [List.map_cons, List.nodup_cons, List.forall_mem_cons, Event.populate]
    constructor
    · rintro ⟨ev', h⟩
      split at h
      · rename_i ev₁ hcall
        obtain ⟨⟨v, hv⟩, hfree⟩ := Event.call_ok_iff.1 ⟨ev₁, hcall⟩
        obtain ⟨hnodup, hsound, hrest⟩ := (ih ev₁).1 ⟨ev', h⟩
        have hfind := Event.find_call hv hcall
        have hne : ∀ c' ∈ calls, c'.slot ≠ c.slot ∧ ev.find c'.slot = none := by
          intro c' hc'
          have hnone := hrest c' hc'
          rw [hfind] at hnone
          split at hnone
          · cases hnone
          · rename_i hne
            exact ⟨hne, hnone⟩
        refine ⟨⟨fun hmem => ?_, hnodup⟩, ⟨⟨v, hv⟩, hsound⟩, hfree, fun c' hc' => (hne c' hc').2⟩
        obtain ⟨c', hc', heq⟩ := List.mem_map.1 hmem
        exact (hne c' hc').1 heq
      · rename_i hnot
        exact absurd h (hnot ev')
    · rintro ⟨⟨hnew, hnodup⟩, ⟨hsound, hsounds⟩, hfree, hfrees⟩
      obtain ⟨ev₁, hcall⟩ := Event.call_ok_iff.2 ⟨hsound, hfree⟩
      obtain ⟨v, hv⟩ := hsound
      rw [hcall]
      refine (ih ev₁).2 ⟨hnodup, hsounds, fun c' hc' => ?_⟩
      rw [Event.find_call hv hcall, if_neg fun heq => hnew (List.mem_map.2 ⟨c', hc', heq⟩)]
      exact hfrees c' hc'

/-- **What a row stores**: the value of each call in its slot, beside what was there. -/
theorem Event.find_populate (h : ev.populate folly calls = some (.ok ev')) (s : Group × Bytes) (v : Value) :
    ev'.find s = some v ↔ ev.find s = some v ∨ ∃ c ∈ calls, c.slot = s ∧ c.value folly = some (.ok v) := by
  induction calls generalizing ev with
  | nil =>
    cases h
    simp
  | cons c calls ih =>
    simp only [Event.populate] at h
    split at h
    · rename_i ev₁ hcall
      obtain ⟨⟨w, hw⟩, hfree⟩ := Event.call_ok_iff.1 ⟨ev₁, hcall⟩
      rw [ih h, Event.find_call hw hcall, List.exists_mem_cons_iff, ← or_assoc]
      refine or_congr_left ?_
      by_cases hs : s = c.slot
      · rw [if_pos hs, hs, hfree, hw]
        simp
      · rw [if_neg hs]
        exact (or_iff_left fun hx => hs hx.1.symm).symm
    · rename_i hnot
      exact absurd h (hnot ev')

theorem builtinClzll_ne_logicError {x : BitVec 64} {e : LogicError} : builtinClzll x ≠ .error (.logicError e) := by
  rw [builtinClzll]
  split <;> nofun

theorem shiftLeft64_ne_logicError {x : BitVec 64} {n : ℕ} {e : LogicError} :
    shiftLeft64 x n ≠ .error (.logicError e) := by
  rw [shiftLeft64]
  split <;> nofun

theorem bind_ne_error {β γ ε : Type} {x : Except ε β} {f : β → Except ε γ} {e : ε} (hx : x ≠ .error e)
    (hf : ∀ v, f v ≠ .error e) : x.bind f ≠ .error e := by
  cases x with
  | error e' => exact fun h => hx (congrArg Except.error (Except.error.inj h))
  | ok v => exact hf v

theorem truncated_ne_logicError {value : BitVec 64} {bits_to_keep : ℕ} {e : LogicError} :
    truncated value bits_to_keep ≠ .error (.logicError e) := by
  rw [truncated]
  split
  · nofun
  apply bind_ne_error builtinClzll_ne_logicError
  intro n
  dsimp only
  split
  · nofun
  apply bind_ne_error shiftLeft64_ne_logicError
  intro one
  apply bind_ne_error shiftLeft64_ne_logicError
  nofun

/-- What a call throws, it throws over its name. -/
theorem Call.value_ne_logicError {e : LogicError} : c.value folly ≠ some (.error (.logicError e)) := by
  intro h
  cases c with
  | int name value => cases h
  | truncatedInt name value bits_to_keep =>
    simp only [Call.value, Option.some.injEq] at h
    cases ht : truncated value bits_to_keep with
    | error e' =>
      rw [ht] at h
      cases h
      exact truncated_ne_logicError ht
    | ok stored =>
      rw [ht] at h
      cases h
  | bool name value => cases h
  | string name value =>
    obtain ⟨text, -, hv⟩ := Option.map_eq_some_iff.1 h
    cases hv
  | double name value =>
    simp only [Call.value] at h
    split at h <;> cases h
  | stringVec name value =>
    obtain ⟨texts, -, hv⟩ := Option.map_eq_some_iff.1 h
    cases hv
  | stringSet name value =>
    obtain ⟨texts, -, hv⟩ := Option.map_eq_some_iff.1 h
    cases hv

/-- **A call throws** exactly if it is sound and its name is taken. -/
theorem Event.call_throws_iff {e : LogicError} :
    ev.call folly c = some (.error (.logicError e)) ↔
      c.Sound folly ∧ (ev.find c.slot).isSome ∧ e = ⟨c.slot.1.duplicateText, c.slot.2⟩ := by
  constructor
  · intro h
    have hcall := h
    rw [Event.call_eq] at h
    obtain ⟨r, hr, hstore⟩ := Option.map_eq_some_iff.1 h
    cases r with
    | error e' =>
      cases hstore
      exact absurd hr Call.value_ne_logicError
    | ok v =>
      have htaken : (ev.find c.slot).isSome := by
        rw [Option.isSome_iff_ne_none]
        intro hfree
        obtain ⟨ev', hev'⟩ := Event.call_ok_iff.2 ⟨⟨v, hr⟩, hfree⟩
        rw [hcall] at hev'
        cases hev'
      refine ⟨⟨v, hr⟩, htaken, ?_⟩
      rw [← Prod.mk.eta (p := c.slot), ← Call.group_value hr] at htaken
      rw [Except.bind, Event.store_of_taken htaken] at hstore
      cases hstore
      rw [Call.group_value hr]
  · rintro ⟨⟨v, hv⟩, htaken, rfl⟩
    rw [← Prod.mk.eta (p := c.slot), ← Call.group_value hv] at htaken
    rw [Event.call_eq, hv, Option.map_some, Except.bind, Event.store_of_taken htaken, Call.group_value hv]

/-- **How a row throws**: behind calls that go through, a sound one finds its slot taken. -/
theorem Event.populate_throws_iff (folly : Unicode) (calls : List Call) (ev : Event) (e : LogicError) :
    ev.populate folly calls = some (.error (.logicError e)) ↔
      ∃ pre c post ev', calls = pre ++ c :: post ∧ ev.populate folly pre = some (.ok ev') ∧
        ev'.call folly c = some (.error (.logicError e)) := by
  constructor
  · intro h
    induction calls generalizing ev with
    | nil => cases h
    | cons c calls ih =>
      simp only [Event.populate] at h
      split at h
      · rename_i ev₁ hcall
        obtain ⟨pre, c', post, ev', hcalls, hpre, hthrows⟩ := ih ev₁ h
        refine ⟨c :: pre, c', post, ev', by rw [hcalls, List.cons_append], ?_, hthrows⟩
        rw [Event.populate, hcall]
        exact hpre
      · exact ⟨[], c, calls, ev, rfl, rfl, h⟩
  · rintro ⟨pre, c, post, ev', rfl, hpre, hthrows⟩
    rw [Event.populate_append, hpre, Option.bind_some]
    simp only [Event.populate, hthrows]

theorem Event.find_empty (s : Group × Bytes) : Event.empty.find s = none := by
  rcases s with ⟨g, name⟩
  cases g <;> rfl

/-- The rows that go through from the start. -/
theorem populate_empty_ok_iff :
    (∃ ev', Event.empty.populate folly calls = some (.ok ev')) ↔
      (calls.map Call.slot).Nodup ∧ ∀ c ∈ calls, c.Sound folly := by
  rw [Event.populate_ok_iff]
  exact ⟨fun h => ⟨h.1, h.2.1⟩, fun h => ⟨h.1, h.2, fun c _ => Event.find_empty c.slot⟩⟩

theorem isSome_find_populate (h : Event.empty.populate folly calls = some (.ok ev')) (s : Group × Bytes) :
    (ev'.find s).isSome ↔ s ∈ calls.map Call.slot := by
  have hsound := (populate_empty_ok_iff.1 ⟨ev', h⟩).2
  rw [Option.isSome_iff_exists, List.mem_map]
  constructor
  · rintro ⟨v, hv⟩
    rcases (Event.find_populate h s v).1 hv with hempty | ⟨c, hc, hs, -⟩
    · rw [Event.find_empty] at hempty
      cases hempty
    · exact ⟨c, hc, hs⟩
  · rintro ⟨c, hc, hs⟩
    obtain ⟨v, hv⟩ := hsound c hc
    exact ⟨v, (Event.find_populate h s v).2 (.inr ⟨c, hc, hs, hv⟩)⟩

/-! ### `logEvent` -/

/-- An enabled logger runs the default fields and then the calls. -/
theorem logEvent_eq (folly : Unicode) {logger : StructuredLogger} (henabled : logger.enabled_ = true) (time : BitVec 64)
    (type : Option Bytes) (calls : List Call) :
    logger.logEvent folly time type calls =
      (Event.empty.populate folly (logger.defaultFields time type ++ calls)).map (Except.map some) := by
  rw [Event.populate_append, logEvent, if_pos henabled, populateDefaultFields]
  rcases Event.empty.populate folly (logger.defaultFields time type) with - | (e | de) <;> rfl

/-- An object that is left out finds nothing, as an empty one. -/
theorem ifAny_bind_lookup (m : UnorderedMap α) (name : Bytes) (f : α → Value) :
    ((ifAny m).bind fun m => (m.lookup name).map f) = (m.lookup name).map f := by
  rw [ifAny]
  split
  · rename_i h
    have hm : m = ∅ := AList.ext (List.isEmpty_iff.1 h)
    rw [hm]
    rfl
  · rfl

/-- The document has the values of the event. -/
theorem find_document (ev : Event) (s : Group × Bytes) : (document ev).find s = ev.find s := by
  rcases s with ⟨g, name⟩
  cases g <;> exact ifAny_bind_lookup _ _ _

/-- **Events and documents.** An enabled logger hands on a document exactly if the default fields and
those of the event are sound and no two of one group have the same name. It then holds the values of
the fields and nothing else. An exception names the first field whose name was taken. -/
theorem logEvent_document (folly : Unicode) (sessionId : BitVec 32) (sessionInfo : SessionInfo) (time : BitVec 64)
    (type : Option Bytes) (calls : List Call) :
    let logger := scuba sessionId sessionInfo
    let all := logger.defaultFields time type ++ calls
    ((∃ event, logger.logEvent folly time type calls = some (.ok (some event))) ↔
      (all.map Call.slot).Nodup ∧ ∀ c ∈ all, c.Sound folly) ∧
    (∀ event, logger.logEvent folly time type calls = some (.ok (some event)) →
      ∀ s v, (document event).find s = some v ↔ ∃ c ∈ all, c.slot = s ∧ c.value folly = some (.ok v)) ∧
    ∀ e, logger.logEvent folly time type calls = some (.error (.logicError e)) ↔
      ∃ pre c post, all = pre ++ c :: post ∧ (pre.map Call.slot).Nodup ∧ (∀ c' ∈ pre ++ [c], c'.Sound folly) ∧
        c.slot ∈ pre.map Call.slot ∧ e = ⟨c.slot.1.duplicateText, c.slot.2⟩ := by
  intro logger all
  have hlog : logger.logEvent folly time type calls = (Event.empty.populate folly all).map (Except.map some) :=
    logEvent_eq folly rfl time type calls
  rw [hlog]
  have hok : ∀ event, (Event.empty.populate folly all).map (Except.map some) = some (.ok (some event)) ↔
      Event.empty.populate folly all = some (.ok event) := by
    intro event
    rcases Event.empty.populate folly all with - | (e | de) <;> simp [Except.map]
  have herror : ∀ e, (Event.empty.populate folly all).map (Except.map some) = some (.error (.logicError e)) ↔
      Event.empty.populate folly all = some (.error (.logicError e)) := by
    intro e
    rcases Event.empty.populate folly all with - | (e | de) <;> simp [Except.map]
  refine ⟨?_, fun event hevent s v => ?_, fun e => ?_⟩
  · simp only [hok]
    exact populate_empty_ok_iff
  · rw [find_document, Event.find_populate ((hok event).1 hevent), Event.find_empty]
    simp
  · rw [herror, Event.populate_throws_iff]
    constructor
    · rintro ⟨pre, c, post, ev', hall, hpre, hthrows⟩
      obtain ⟨hsound, htaken, he⟩ := Event.call_throws_iff.1 hthrows
      obtain ⟨hnodup, hsounds⟩ := populate_empty_ok_iff.1 ⟨ev', hpre⟩
      refine ⟨pre, c, post, hall, hnodup, ?_, (isSome_find_populate hpre _).1 htaken, he⟩
      intro c' hc'
      rcases List.mem_append.1 hc' with hc' | hc'
      · exact hsounds c' hc'
      · rw [List.mem_singleton.1 hc']
        exact hsound
    · rintro ⟨pre, c, post, hall, hnodup, hsounds, htaken, he⟩
      obtain ⟨ev', hpre⟩ := populate_empty_ok_iff.2 ⟨hnodup, fun c' hc' => hsounds c' (List.mem_append_left _ hc')⟩
      refine ⟨pre, c, post, ev', hall, hpre, Event.call_throws_iff.2 ⟨?_, ?_, he⟩⟩
      · exact hsounds c (List.mem_append_right _ (List.mem_singleton_self c))
      · exact (isSome_find_populate hpre _).2 htaken

end StructuredLogger

end EdenCommon
