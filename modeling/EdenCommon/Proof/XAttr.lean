import EdenCommon.Spec.XAttr
import Mathlib.Tactic.ByContra

/-!
# When `listxattr` and `fgetxattr` return

Both loops take turns in reading and asking for the size. What is known in front of a call is which
of the two it is, and for a read how much room it has (`State.Behind`).

* `listxattrBody_cases`, `run_listxattr`: the loop goes on behind calls that report more names than
  there was room for, and ends with a call that fails or succeeds.
* `buf_eq_nil_iff`: the buffer is empty in front of a read exactly if an empty list was reported to
  a query, and this read then fills nothing in.
* `listxattr_returns_iff`: the call that ends the loop gives its names exactly if no call has reported
  an empty list. Names that no longer change are returned by the third call at the latest.
* `fgetxattr_returns_iff`: `fgetxattr` asks for one byte more than the value has, so its buffer is
  never empty, and it returns the value that its last call met in one piece.
-/

namespace EdenCommon

open Lib

namespace XAttr

variable {split : Bytes → List Bytes} {names : List Bytes} {s s' : State} {reply last : Reply}
  {used rest : List Reply} {r : Result}

theorem concatenation_length_pos (h : names ≠ []) : 0 < (concatenation names).length := by
  obtain ⟨name, names, rfl⟩ := List.exists_cons_of_ne_nil h
  simp only [concatenation, terminate_cons, List.length_append, List.length_cons]
  omega

theorem concatenation_length_eq_zero : (concatenation names).length = 0 ↔ names = [] := by
  constructor
  · intro h
    by_contra hne
    have := concatenation_length_pos hne
    omega
  · rintro rfl
    rfl

/-- A list of names has no single byte. -/
theorem concatenation_length_ne_one (hv : ∀ name ∈ names, name ≠ [] ∧ 0 ∉ name) :
    (concatenation names).length ≠ 1 := by
  cases names with
  | nil => simp [concatenation]
  | cons name names =>
    have := List.length_pos_iff.mpr (hv name List.mem_cons_self).1
    simp only [concatenation, terminate_cons, List.length_append, List.length_cons]
    omega

/-- **Without the last terminator** the names are separated by NUL. -/
theorem split_concatenation (hv : ∀ name ∈ names, name ≠ [] ∧ 0 ∉ name) (hne : names ≠ []) :
    ((concatenation names).take ((concatenation names).length - 1)).splitOnP (· == 0) = names := by
  unfold concatenation
  rw [terminate_eq_intercalate 0 hne, List.length_append, List.length_singleton, Nat.add_sub_cancel,
    List.take_left']
  · apply splitOnP_intercalate (by simp) hne
    intro name hname x hx
    have hx0 : x ≠ 0 := fun h0 => (hv name hname).2 (h0 ▸ hx)
    simpa using hx0
  · rfl

theorem resize_length (buf : Bytes) (size : ℕ) : (resize buf size).length = size := by
  simp only [resize, List.length_append, List.length_take, List.length_replicate]
  omega

/-! ### Reads and queries -/

section Calls

variable {α : Type}

/-- Where a loop stands behind the replies `used`, in front of a read with this room or of a query. -/
structure State.Behind (used : List α) (room : ℕ) (s : State) : Prop where
  querying : s.querying = false ↔ IsRead used
  room : IsRead used → s.buf.length = room

theorem isRead_concat {used : List α} {reply : α} : IsRead (used ++ [reply]) ↔ ¬ IsRead used := by
  unfold IsRead
  rw [List.length_append, List.length_singleton]
  omega

/-- What is known of each call and those before it, with one more call. -/
theorem forall_call_concat {used : List α} {reply : α} (P : List α → α → Prop) :
    (∀ pre x post, used ++ [reply] = pre ++ x :: post → P pre x) ↔
      (∀ pre x post, used = pre ++ x :: post → P pre x) ∧ P used reply := by
  constructor
  · intro h
    refine ⟨fun pre x post hused => ?_, h used reply [] rfl⟩
    exact h pre x (post ++ [reply]) (by rw [hused, List.append_assoc, List.cons_append])
  · rintro ⟨hused, hlast⟩ pre x post heq
    rcases List.eq_nil_or_concat post with rfl | ⟨post, y, rfl⟩
    · obtain ⟨rfl, hx⟩ := List.append_inj' heq rfl
      rw [← (List.cons.inj hx).1]
      exact hlast
    · rw [List.concat_eq_append, ← List.cons_append, ← List.append_assoc] at heq
      exact hused pre x post (List.append_inj' heq rfl).1

end Calls

/-! ### One system call -/

theorem listxattrBody_fails (s : State) (errcode : ℕ) :
    listxattrBody split s (.fails errcode) = .inr (.systemError (.other errcode) "listxattr") := by
  unfold listxattrBody
  split <;> rfl

/-- The query. -/
theorem listxattrBody_query (buf : Bytes) (names : List Bytes) :
    listxattrBody split ⟨buf, true⟩ (.reports names) = .inl ⟨resize buf (concatenation names).length, false⟩ := by
  rfl

/-- The call without a buffer. -/
theorem listxattrBody_empty (names : List Bytes) :
    listxattrBody split ⟨[], false⟩ (.reports names) =
      match viewOf [] (concatenation names).length with
      | none => .inr .outOfBounds
      | some view => .inr (.names (split view) view.length 0) := by
  rfl

/-- **The call with a buffer**: it fits, or the loop goes on. -/
theorem listxattrBody_full {buf : Bytes} (hb : buf ≠ []) (names : List Bytes) :
    listxattrBody split ⟨buf, false⟩ (.reports names) =
      if (concatenation names).length ≤ buf.length then
        if names = [] then .inr .outOfBounds
        else
          .inr (.names (split ((concatenation names).take ((concatenation names).length - 1)))
            ((concatenation names).length - 1) (concatenation names).length)
      else .inl ⟨buf, true⟩ := by
  have hpos := List.length_pos_iff.mpr hb
  have hz : ¬buf.length = 0 := by omega
  by_cases hfit : (concatenation names).length ≤ buf.length
  · rw [if_pos hfit]
    by_cases hnil : names = []
    · rw [if_pos hnil, hnil]
      simp [listxattrBody, sysListxattr, hz, concatenation, viewOf]
    · obtain ⟨n, hn⟩ : ∃ n, (concatenation names).length = n + 1 :=
        ⟨(concatenation names).length - 1, by have := concatenation_length_pos hnil; omega⟩
      rw [if_neg hnil]
      have hview : viewOf (concatenation names ++ buf.drop (n + 1)) (n + 1) = some ((concatenation names).take n) := by
        rw [viewOf, if_pos (by simp only [List.length_append]; omega), List.take_append_of_le_length (by omega)]
      simp only [listxattrBody, sysListxattr, hz, hfit, if_true, if_false, Bool.false_eq_true]
      rw [hn, hview]
      simp only [List.length_take, Nat.add_sub_cancel]
      rw [hn, Nat.min_eq_left (by omega)]
  · rw [if_neg hfit]
    simp [listxattrBody, sysListxattr, hz, hfit]

/-- A call that goes on. -/
theorem listxattrBody_goesOn (h : listxattrBody split s reply = .inl s') :
    ∃ names, reply = .reports names ∧
      (s.querying = false ∧ s.buf ≠ [] ∧ names ≠ [] ∧ s' = ⟨s.buf, true⟩ ∨
        s.querying = true ∧ s' = ⟨resize s.buf (concatenation names).length, false⟩) := by
  obtain ⟨buf, querying⟩ := s
  cases reply with
  | fails errcode =>
    rw [listxattrBody_fails] at h
    contradiction
  | reports names =>
    refine ⟨names, rfl, ?_⟩
    cases querying with
    | true =>
      rw [listxattrBody_query, Sum.inl.injEq] at h
      exact Or.inr ⟨rfl, h.symm⟩
    | false =>
      by_cases hb : buf = []
      · rw [hb, listxattrBody_empty] at h
        split at h <;> contradiction
      · rw [listxattrBody_full hb] at h
        by_cases hfit : (concatenation names).length ≤ buf.length
        · rw [if_pos hfit] at h
          split at h <;> contradiction
        · rw [if_neg hfit, Sum.inl.injEq] at h
          refine Or.inl ⟨rfl, hb, ?_, h.symm⟩
          rintro rfl
          exact hfit (Nat.zero_le _)

/-! ### The loop -/

/-- **An empty buffer** is what an empty list leaves, and nothing else. -/
theorem buf_eq_nil_iff (used : List Reply) {s : State}
    (h : run (goesOn (listxattrBody split)) ⟨List.replicate 128 0, false⟩ used = some s) :
    (s.querying = false ∧ s.buf = []) ↔ .reports [] ∈ used := by
  induction used using List.reverseRecOn generalizing s with
  | nil =>
    rw [run_nil, Option.some.injEq] at h
    simp [← h]
  | append_singleton used reply ih =>
    rw [run_concat] at h
    obtain ⟨s₁, h1, h2⟩ := Option.bind_eq_some_iff.mp h
    have hprev := ih h1
    rw [List.mem_append, List.mem_singleton, ← hprev]
    obtain ⟨names, rfl, ⟨hq, hb, hne, rfl⟩ | ⟨hq, rfl⟩⟩ := listxattrBody_goesOn (goesOn_eq_some.mp h2)
    · simp [hb, hne.symm]
    · have hlen : resize s₁.buf (concatenation names).length = [] ↔ names = [] := by
        rw [← List.length_eq_zero_iff, resize_length, concatenation_length_eq_zero]
      simp only [true_and, hlen, hq, Bool.true_eq_false, false_and, false_or, Reply.reports.injEq]
      exact eq_comm

/-- **One call** goes on behind names that it has no room for, and else ends the loop. -/
theorem listxattrBody_cases (split : Bytes → List Bytes) {used : List Reply} (hs : s.Behind used (listRoom used))
    (reply : Reply) :
    (∃ s', listxattrBody split s reply = .inl s' ∧ s'.Behind (used ++ [reply]) (listRoom (used ++ [reply])) ∧
        ∃ names, reply = .reports names ∧
          (IsRead used → 0 < listRoom used ∧ listRoom used < (concatenation names).length)) ∨
      ∃ r, listxattrBody split s reply = .inr r ∧ EndsList used reply := by
  cases reply with
  | fails errcode => exact .inr ⟨_, listxattrBody_fails s errcode, trivial⟩
  | reports names =>
    obtain ⟨buf, querying⟩ := s
    by_cases hread : IsRead used
    · obtain rfl : querying = false := hs.querying.2 hread
      have hroom : buf.length = listRoom used := hs.room hread
      by_cases hb : buf = []
      · -- without a buffer the call says how long the list is, and the loop takes that for names
        have hzero : listRoom used = 0 := by rw [← hroom, hb, List.length_nil]
        rw [hb, listxattrBody_empty]
        refine .inr ?_
        cases viewOf [] (concatenation names).length with
        | none => exact ⟨_, rfl, hread, .inl hzero⟩
        | some view => exact ⟨_, rfl, hread, .inl hzero⟩
      · have hpos : 0 < listRoom used := hroom ▸ List.length_pos_iff.2 hb
        rw [listxattrBody_full hb, hroom]
        by_cases hfit : (concatenation names).length ≤ listRoom used
        · rw [if_pos hfit]
          refine .inr ?_
          split
          · exact ⟨_, rfl, hread, .inr hfit⟩
          · exact ⟨_, rfl, hread, .inr hfit⟩
        · rw [if_neg hfit]
          refine .inl ⟨_, rfl, ⟨?_, fun h => absurd hread (isRead_concat.1 h)⟩, names, rfl, fun _ =>
            ⟨hpos, Nat.not_le.1 hfit⟩⟩
          exact iff_of_false Bool.noConfusion fun h => isRead_concat.1 h hread
    · obtain rfl : querying = true := by simpa using mt hs.querying.1 hread
      rw [listxattrBody_query]
      refine .inl ⟨_, rfl, ⟨iff_of_true rfl (isRead_concat.2 hread), fun _ => ?_⟩, names, rfl, fun h => absurd h hread⟩
      rw [resize_length, listRoom, List.getLast?_concat]

theorem listRetried_concat {used : List Reply} : ListRetried (used ++ [reply]) ↔
    ListRetried used ∧ ∃ names, reply = .reports names ∧
      (IsRead used → 0 < listRoom used ∧ listRoom used < (concatenation names).length) :=
  forall_call_concat fun (pre : List Reply) (reply : Reply) => ∃ names, reply = .reports names ∧
    (IsRead pre → 0 < listRoom pre ∧ listRoom pre < (concatenation names).length)

theorem listRetried_nil : ListRetried [] := by
  intro pre reply post h
  exact absurd h.symm (by simp)

/-- A call that ends the loop is none with which it goes on. -/
theorem EndsList.not_retried {used : List Reply} (h : EndsList used reply) {names : List Bytes}
    (hreply : reply = .reports names) :
    ¬ (IsRead used → 0 < listRoom used ∧ listRoom used < (concatenation names).length) := by
  subst hreply
  intro hretried
  obtain ⟨hpos, hlong⟩ := hretried h.1
  rcases h.2 with hzero | hfit
  · omega
  · omega

/-- **The rounds that go on**, and where they leave the loop. -/
theorem run_listxattr (split : Bytes → List Bytes) (used : List Reply) :
    (∀ s, run (goesOn (listxattrBody split)) ⟨List.replicate 128 0, false⟩ used = some s →
        ListRetried used ∧ s.Behind used (listRoom used)) ∧
      (ListRetried used → ∃ s, run (goesOn (listxattrBody split)) ⟨List.replicate 128 0, false⟩ used = some s) := by
  induction used using List.reverseRecOn with
  | nil =>
    refine ⟨fun s h => ?_, fun _ => ⟨_, rfl⟩⟩
    obtain rfl := Option.some.inj h
    exact ⟨listRetried_nil, iff_of_true rfl rfl, fun _ => rfl⟩
  | append_singleton used reply ih =>
    rw [run_concat, listRetried_concat]
    constructor
    · intro s h
      obtain ⟨s₁, hrun, hstep⟩ := Option.bind_eq_some_iff.1 h
      obtain ⟨hretried, hbehind⟩ := ih.1 s₁ hrun
      rw [goesOn_eq_some] at hstep
      rcases listxattrBody_cases split hbehind reply with ⟨s', hbody, hs', hnames⟩ | ⟨r, hbody, -⟩
      · rw [hbody] at hstep
        obtain rfl := Sum.inl.inj hstep
        exact ⟨⟨hretried, hnames⟩, hs'⟩
      · rw [hbody] at hstep
        cases hstep
    · rintro ⟨hretried, names, hreply, hlong⟩
      obtain ⟨s, hrun⟩ := ih.2 hretried
      have hbehind := (ih.1 s hrun).2
      rcases listxattrBody_cases split hbehind reply with ⟨s', hbody, -⟩ | ⟨r, -, hends⟩
      · exact ⟨s', by rw [hrun, Option.bind_some, goesOn_eq_some, hbody]⟩
      · exact absurd hlong (hends.not_retried hreply)

/-- **The result** of the call that ends the loop. -/
theorem rightFor_iff {used : List Reply} (hsplit : ∀ s, split s = s.splitOnP (· == 0))
    (hv : ∀ reply ∈ used ++ [last], reply.Valid)
    (hrun : run (goesOn (listxattrBody split)) ⟨List.replicate 128 0, false⟩ used = some s)
    (hend : listxattrBody split s last = .inr r) :
    RightFor last r ↔ .reports [] ∉ used ++ [last] ∨ ∃ errcode, last = .fails errcode := by
  have hbuf := buf_eq_nil_iff used hrun
  obtain ⟨buf, querying⟩ := s
  cases last with
  | fails errcode =>
    rw [listxattrBody_fails, Sum.inr.injEq] at hend
    simp [RightFor, ← hend]
  | reports names =>
    have hvalid : ∀ name ∈ names, name ≠ [] ∧ 0 ∉ name := hv (.reports names) (by simp)
    cases querying with
    | true =>
      rw [listxattrBody_query] at hend
      contradiction
    | false =>
      simp only [true_and] at hbuf
      by_cases hb : buf = []
      · -- the call has only said how long the list is
        have hbad : r = .outOfBounds := by
          have hone := concatenation_length_ne_one hvalid
          rw [hb, listxattrBody_empty] at hend
          cases hc : (concatenation names).length with
          | zero =>
            rw [hc] at hend
            exact (Sum.inr.inj hend).symm
          | succ n =>
            rw [hc, viewOf, if_neg (by simp only [List.length_nil]; omega)] at hend
            exact (Sum.inr.inj hend).symm
        simp [RightFor, hbad, hbuf.mp hb]
      · have hnot : .reports [] ∉ used := fun hm => hb (hbuf.mpr hm)
        rw [listxattrBody_full hb] at hend
        by_cases hfit : (concatenation names).length ≤ buf.length
        · rw [if_pos hfit] at hend
          by_cases hnil : names = []
          · rw [if_pos hnil, Sum.inr.injEq] at hend
            simp [RightFor, ← hend, hnil]
          · rw [if_neg hnil, Sum.inr.injEq, hsplit, split_concatenation hvalid hnil] at hend
            have hr : RightFor (.reports names) r := ⟨_, _, hend.symm, by omega⟩
            refine iff_of_true hr (Or.inl ?_)
            simp only [List.mem_append, List.mem_singleton, Reply.reports.injEq, not_or]
            exact ⟨hnot, fun h0 => hnil h0.symm⟩
        · rw [if_neg hfit] at hend
          contradiction

/-- What a loop that has ended has met. -/
theorem listxattr_ended {replies : List Reply} (h : listxattr split replies = some (r, rest)) :
    ∃ used last, replies = used ++ last :: rest ∧ ListRetried used ∧ EndsList used last := by
  obtain ⟨used, last, s, heq, hrun, hend⟩ := drive_eq_some.1 h
  obtain ⟨hretried, hbehind⟩ := (run_listxattr split used).1 s hrun
  refine ⟨used, last, heq, hretried, ?_⟩
  rcases listxattrBody_cases split hbehind last with ⟨s', hbody, -⟩ | ⟨r', -, hends⟩
  · rw [hbody] at hend
    cases hend
  · exact hends

/-- A call that ends the loop gives a result, and when it is the right one. -/
theorem listxattr_returns {used : List Reply} (rest : List Reply) (hsplit : ∀ s, split s = s.splitOnP (· == 0))
    (hv : ∀ reply ∈ used ++ [last], reply.Valid) (hretried : ListRetried used) (hends : EndsList used last) :
    (∃ r, listxattr split (used ++ last :: rest) = some (r, rest) ∧ RightFor last r) ↔
      .reports [] ∉ used ++ [last] ∨ ∃ errcode, last = .fails errcode := by
  obtain ⟨s, hrun⟩ := (run_listxattr split used).2 hretried
  rcases listxattrBody_cases split ((run_listxattr split used).1 s hrun).2 last with
    ⟨s', -, -, names, hreply, hlong⟩ | ⟨r, hend, -⟩
  · exact absurd hlong (hends.not_retried hreply)
  · have hresult : listxattr split (used ++ last :: rest) = some (r, rest) :=
      drive_eq_some.2 ⟨used, last, s, rfl, hrun, hend⟩
    rw [← rightFor_iff hsplit hv hrun hend, hresult]
    constructor
    · rintro ⟨r', heq, hr⟩
      obtain ⟨rfl, -⟩ := Prod.mk.inj (Option.some.inj heq)
      exact hr
    · exact fun hr => ⟨r, rfl, hr⟩

/-- **The names are returned.** The loop ends with the first read that succeeds or the first call that
fails, and nowhere else. A read gives its names exactly if no call has reported an empty list; a call
that fails gives its error. Names that no longer change are returned by the third call at the latest. -/
theorem listxattr_returns_iff (split : Bytes → List Bytes) (hsplit : ∀ s, split s = s.splitOnP (· == 0)) :
    (∀ used last rest, (∀ reply ∈ used ++ [last], reply.Valid) → ListRetried used → EndsList used last →
      ((∃ r, listxattr split (used ++ last :: rest) = some (r, rest) ∧ RightFor last r) ↔
        .reports [] ∉ used ++ [last] ∨ ∃ errcode, last = .fails errcode)) ∧
    (∀ replies r rest, listxattr split replies = some (r, rest) →
      ∃ used last, replies = used ++ last :: rest ∧ ListRetried used ∧ EndsList used last) ∧
    ∀ names rest, names ≠ [] → (Reply.reports names).Valid →
      ∃ r left, listxattr split (List.replicate 3 (.reports names) ++ rest) = some (r, left) ∧
        RightFor (.reports names) r := by
  refine ⟨fun used last rest hv hretried hends => listxattr_returns rest hsplit hv hretried hends,
    fun replies r rest h => listxattr_ended h, fun names rest hne hvalid => ?_⟩
  have hv (n : ℕ) : ∀ reply ∈ List.replicate n (Reply.reports names) ++ [.reports names], reply.Valid := by
    intro reply hreply
    rw [← List.replicate_succ'] at hreply
    rw [List.eq_of_mem_replicate hreply]
    exact hvalid
  have hnone (n : ℕ) : Reply.reports [] ∉ List.replicate n (Reply.reports names) ++ [.reports names] := by
    rw [← List.replicate_succ']
    intro hmem
    exact hne (Reply.reports.inj (List.eq_of_mem_replicate hmem)).symm
  by_cases hfit : (concatenation names).length ≤ 128
  · have hends : EndsList [] (.reports names) := ⟨rfl, .inr hfit⟩
    obtain ⟨r, hresult, hr⟩ :=
      (listxattr_returns ([.reports names, .reports names] ++ rest) hsplit (hv 0) listRetried_nil hends).2 (.inl (hnone 0))
    exact ⟨r, _, hresult, hr⟩
  · -- a read without room, the query, and a read with as much room as the query has said
    have hfirst : ListRetried ([] ++ [.reports names]) :=
      listRetried_concat.2 ⟨listRetried_nil, names, rfl, fun _ => ⟨Nat.zero_lt_succ 127, Nat.not_le.1 hfit⟩⟩
    have hsecond : ListRetried ([] ++ [.reports names] ++ [.reports names]) :=
      listRetried_concat.2 ⟨hfirst, names, rfl, fun hread => absurd hread (by simp [IsRead])⟩
    have hroom : listRoom ([] ++ [.reports names] ++ [.reports names]) = (concatenation names).length := by
      rw [listRoom, List.getLast?_concat]
    have hends : EndsList ([] ++ [.reports names] ++ [.reports names]) (.reports names) :=
      ⟨by simp [IsRead], .inr (Nat.le_of_eq hroom.symm)⟩
    obtain ⟨r, hresult, hr⟩ := (listxattr_returns rest hsplit (hv 2) hsecond hends).2 (.inl (hnone 2))
    exact ⟨r, rest, hresult, hr⟩

/-- Two names that fit. -/
theorem listxattr_returns_two :
    ∃ r, listxattr (fun s => s.splitOnP (· == 0)) ([] ++ .reports [[97], [98, 99]] :: []) = some (r, []) ∧
      RightFor (.reports [[97], [98, 99]]) r := by
  have hends : EndsList [] (.reports [[97], [98, 99]]) := ⟨rfl, .inr (by decide)⟩
  exact ((listxattr_returns_iff (fun s => s.splitOnP (· == 0)) fun _ => rfl).1 [] _ [] (by simp [Reply.Valid])
    listRetried_nil hends).2 (.inl (by simp))

/-- A file without attributes. -/
theorem listxattr_no_names :
    listxattr (fun s => s.splitOnP (· == 0)) [.reports []] = some (.outOfBounds, []) ∧
      ¬RightFor (.reports []) .outOfBounds := by
  constructor
  · apply drive_inr
    rw [listxattrBody_full (by simp), if_pos (by simp [concatenation]), if_pos rfl]
  · rintro ⟨read, filled, heq, -⟩
    contradiction

/-! ### `fgetxattr` -/

section Value

variable {used rest : List ValueReply} {reply last : ValueReply} {r : ValueResult} {s s' : State} {value : Bytes}

theorem behind_start : (⟨List.replicate 64 0, false⟩ : State).Behind ([] : List ValueReply) (room []) where
  querying := iff_of_true rfl rfl
  room _ := rfl

theorem room_concat_holds : room (used ++ [.holds value]) = value.length + 1 := by
  rw [room, List.getLast?_concat]

theorem room_pos (used : List ValueReply) : 0 < room used := by
  unfold room
  split <;> omega

/-- **A read** returns the value if it has room for it. -/
theorem fgetxattrBody_read (hs : s.Behind used (room used)) (hread : IsRead used) :
    fgetxattrBody s (.holds value) = if value.length ≤ room used then .inr (.value value) else .inl ⟨s.buf, true⟩ := by
  have hpos := room_pos used
  have hroom := hs.room hread
  have hq : ¬ s.querying = true := by simp [hs.querying.2 hread]
  have hbuf : ¬ s.buf.length = 0 := by omega
  by_cases hfit : value.length ≤ room used
  · have hcall : sysFgetxattr s.buf (.holds value) = .ok (value.length, value ++ s.buf.drop value.length) := by
      rw [sysFgetxattr, if_neg hbuf, if_pos (by omega)]
    have hresize : resize (value ++ s.buf.drop value.length) value.length = value := by
      simp [resize]
    rw [fgetxattrBody, if_neg hq, hcall, if_pos hfit]
    dsimp only
    rw [hresize]
  · have hcall : sysFgetxattr s.buf (.holds value) = .error .ERANGE := by
      rw [sysFgetxattr, if_neg hbuf, if_neg (by omega)]
    rw [fgetxattrBody, if_neg hq, hcall, if_neg hfit]

/-- A query says how much room the next read needs. -/
theorem fgetxattrBody_query_holds (hs : s.Behind used (room used)) (hquery : ¬ IsRead used) :
    fgetxattrBody s (.holds value) = .inl ⟨resize s.buf (value.length + 1), false⟩ := by
  have hq : s.querying = true := by simpa using mt hs.querying.1 hquery
  unfold fgetxattrBody
  rw [hq, if_pos rfl]
  rfl

theorem fgetxattrBody_fails (hs : s.Behind used (room used)) (errcode : ℕ) :
    ∃ r, fgetxattrBody s (.fails errcode) = .inr r ∧ EndsWith used (.fails errcode) r := by
  unfold fgetxattrBody
  split
  · rename_i hq
    have hquery : ¬ IsRead used := fun hread => absurd (hs.querying.2 hread) (by simp [hq])
    exact ⟨_, rfl, .inr ⟨errcode, rfl, fun h => absurd h hquery, fun _ => rfl⟩⟩
  · rename_i hq
    have hread : IsRead used := hs.querying.1 (by simpa using hq)
    exact ⟨_, rfl, .inr ⟨errcode, rfl, fun _ => rfl, fun h => absurd hread h⟩⟩

/-- **One call** goes on behind a value that it has no room for, and else ends the loop. -/
theorem fgetxattrBody_cases (hs : s.Behind used (room used)) (reply : ValueReply) :
    (∃ s', fgetxattrBody s reply = .inl s' ∧ s'.Behind (used ++ [reply]) (room (used ++ [reply])) ∧
        ∃ value, reply = .holds value ∧ (IsRead used → room used < value.length)) ∨
      ∃ r, fgetxattrBody s reply = .inr r ∧ EndsWith used reply r := by
  cases reply with
  | fails errcode => exact .inr (fgetxattrBody_fails hs errcode)
  | holds value =>
    by_cases hread : IsRead used
    · rw [fgetxattrBody_read hs hread]
      by_cases hfit : value.length ≤ room used
      · rw [if_pos hfit]
        exact .inr ⟨_, rfl, .inl ⟨value, rfl, hread, hfit, rfl⟩⟩
      · rw [if_neg hfit]
        refine .inl ⟨_, rfl, ⟨?_, fun h => absurd hread (isRead_concat.1 h)⟩, value, rfl, fun _ => Nat.not_le.1 hfit⟩
        exact iff_of_false Bool.noConfusion fun h => isRead_concat.1 h hread
    · rw [fgetxattrBody_query_holds hs hread]
      refine .inl ⟨_, rfl, ⟨iff_of_true rfl (isRead_concat.2 hread), fun _ => ?_⟩, value, rfl, fun h => absurd h hread⟩
      rw [resize_length, room_concat_holds]

theorem retried_nil : Retried [] := by
  intro pre reply post h
  exact absurd h.symm (by simp)

theorem retried_concat : Retried (used ++ [reply]) ↔
    Retried used ∧ ∃ value, reply = .holds value ∧ (IsRead used → room used < value.length) :=
  forall_call_concat fun (pre : List ValueReply) (reply : ValueReply) =>
    ∃ value, reply = .holds value ∧ (IsRead pre → room pre < value.length)

/-- **The rounds that go on.** -/
theorem run_fgetxattr (used : List ValueReply) :
    (∀ s, run (goesOn fgetxattrBody) ⟨List.replicate 64 0, false⟩ used = some s → Retried used ∧ s.Behind used (room used)) ∧
      (Retried used → ∃ s, run (goesOn fgetxattrBody) ⟨List.replicate 64 0, false⟩ used = some s) := by
  induction used using List.reverseRecOn with
  | nil =>
    refine ⟨fun s h => ?_, fun _ => ⟨_, rfl⟩⟩
    obtain rfl := Option.some.inj h
    exact ⟨retried_nil, behind_start⟩
  | append_singleton used reply ih =>
    rw [run_concat, retried_concat]
    constructor
    · intro s h
      obtain ⟨s₁, hrun, hstep⟩ := Option.bind_eq_some_iff.1 h
      obtain ⟨hretried, hbehind⟩ := ih.1 s₁ hrun
      rw [goesOn_eq_some] at hstep
      rcases fgetxattrBody_cases hbehind reply with ⟨s', hbody, hs', hvalue⟩ | ⟨r, hbody, -⟩
      · rw [hbody] at hstep
        obtain rfl := Sum.inl.inj hstep
        exact ⟨⟨hretried, hvalue⟩, hs'⟩
      · rw [hbody] at hstep
        cases hstep
    · rintro ⟨hretried, value, rfl, hlong⟩
      obtain ⟨s, hrun⟩ := ih.2 hretried
      have hbehind := (ih.1 s hrun).2
      rcases fgetxattrBody_cases hbehind (.holds value) with ⟨s', hbody, -⟩ | ⟨r, -, hends⟩
      · exact ⟨s', by rw [hrun, Option.bind_some, goesOn_eq_some, hbody]⟩
      · rcases hends with ⟨value', heq, hread, hfit, -⟩ | ⟨errcode, heq, -⟩
        · obtain rfl := ValueReply.holds.inj heq
          exact absurd hfit (Nat.not_le.2 (hlong hread))
        · cases heq

theorem EndsWith.unique {r' : ValueResult} (h : EndsWith used last r) (h' : EndsWith used last r') : r = r' := by
  rcases h with ⟨value, rfl, -, -, rfl⟩ | ⟨errcode, rfl, hread, hquery⟩
  · rcases h' with ⟨value', heq, -, -, rfl⟩ | ⟨errcode, heq, -⟩
    · rw [ValueReply.holds.inj heq]
    · cases heq
  · rcases h' with ⟨value, heq, -⟩ | ⟨errcode', heq, hread', hquery'⟩
    · cases heq
    · obtain rfl := ValueReply.fails.inj heq
      by_cases h : IsRead used
      · rw [hread h, hread' h]
      · rw [hquery h, hquery' h]

theorem fgetxattr_eq_some (replies : List ValueReply) (r : ValueResult) (rest : List ValueReply) :
    fgetxattr replies = some (r, rest) ↔
      ∃ used last, replies = used ++ last :: rest ∧ Retried used ∧ EndsWith used last r := by
  rw [fgetxattr, drive_eq_some]
  constructor
  · rintro ⟨used, last, s, heq, hrun, hend⟩
    obtain ⟨hretried, hbehind⟩ := (run_fgetxattr used).1 s hrun
    refine ⟨used, last, heq, hretried, ?_⟩
    rcases fgetxattrBody_cases hbehind last with ⟨s', hbody, -⟩ | ⟨r', hbody, hends⟩
    · rw [hbody] at hend
      cases hend
    · rw [hbody] at hend
      obtain rfl := Sum.inr.inj hend
      exact hends
  · rintro ⟨used, last, heq, hretried, hends⟩
    obtain ⟨s, hrun⟩ := (run_fgetxattr used).2 hretried
    refine ⟨used, last, s, heq, hrun, ?_⟩
    rcases fgetxattrBody_cases ((run_fgetxattr used).1 s hrun).2 last with ⟨s', -, -, value, rfl, hlong⟩ | ⟨r', hbody, hends'⟩
    · rcases hends with ⟨value', heq, hread, hfit, -⟩ | ⟨errcode, heq, -⟩
      · obtain rfl := ValueReply.holds.inj heq
        exact absurd hfit (Nat.not_le.2 (hlong hread))
      · cases heq
    · rw [hbody, hends'.unique hends]

/-- **A value in one piece.** The loop ends with the first read that has room for the value at that
time, and returns all of it, or with the first call that fails. What no longer changes is returned by
the third call at the latest. -/
theorem fgetxattr_returns_iff :
    (∀ replies r rest, fgetxattr replies = some (r, rest) ↔
      ∃ used last, replies = used ++ last :: rest ∧ Retried used ∧ EndsWith used last r) ∧
    ∀ value rest, ∃ left, fgetxattr (List.replicate 3 (.holds value) ++ rest) = some (.value value, left) := by
  refine ⟨fgetxattr_eq_some, fun value rest => ?_⟩
  by_cases hfit : value.length ≤ 64
  · refine ⟨[.holds value, .holds value] ++ rest, (fgetxattr_eq_some _ _ _).2 ⟨[], _, rfl, retried_nil, ?_⟩⟩
    exact .inl ⟨value, rfl, rfl, hfit, rfl⟩
  · -- a read without room, the query, and a read with room for one byte more than the value has
    have hfirst : Retried ([] ++ [.holds value]) :=
      retried_concat.2 ⟨retried_nil, value, rfl, fun _ => Nat.not_le.1 hfit⟩
    have hsecond : Retried ([] ++ [.holds value] ++ [.holds value]) :=
      retried_concat.2 ⟨hfirst, value, rfl, nofun⟩
    refine ⟨rest, (fgetxattr_eq_some _ _ _).2 ⟨_, _, rfl, hsecond, .inl ⟨value, rfl, ?_, ?_, rfl⟩⟩⟩
    · simp [IsRead]
    rw [room_concat_holds]
    exact Nat.le_succ _

end Value

end XAttr

end EdenCommon
