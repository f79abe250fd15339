import Mathlib.Algebra.GroupWithZero.Nat
import Mathlib.Data.List.DropRight
import Mathlib.Order.Basic
import Mathlib.Tactic.ByContra

/-!
# Command lines with quotes and backslashes

The rules by which a Windows program cuts its command line into arguments. Blanks separate
arguments outside quotes. `2 n` backslashes in front of a quote are `n` backslashes, and the
quote toggles quoting; `2 n + 1` are `n` backslashes and a literal quote; all others are
literal. A program may read the first argument, its own name, without a meaning for
backslashes.

`line` puts every argument between quotes and nothing else. What is read back from it
depends on the backslashes in front of the closing quotes (`split_line_eq_iff`,
`splitLine_tail_iff`).
-/

namespace Lib

/-- The characters with a meaning. -/
structure Marks (α : Type*) where
  quote : α
  backslash : α
  blank : α → Bool
  backslash_ne : backslash ≠ quote
  blank_quote : blank quote = false
  blank_backslash : blank backslash = false

namespace Marks

variable {α : Type*}

/-- An argument of which a part has been read: its text, and the backslashes behind it, whose
meaning is open until something else follows. -/
structure Arg (α : Type*) where
  text : List α
  slashes : ℕ
  quoted : Bool

/-- Nothing has been read of the argument. -/
def Arg.start : Arg α := ⟨[], 0, false⟩

variable [DecidableEq α] (m : Marks α)

/-- The argument, if no quote follows. -/
def literal (a : Arg α) : List α := a.text ++ List.replicate a.slashes m.backslash

def readQuote (a : Arg α) : Arg α :=
  let text := a.text ++ List.replicate (a.slashes / 2) m.backslash
  if a.slashes % 2 = 0 then ⟨text, 0, !a.quoted⟩ else ⟨text ++ [m.quote], 0, a.quoted⟩

def read (a : Arg α) (c : α) : Arg α :=
  if c = m.backslash then { a with slashes := a.slashes + 1 }
  else if c = m.quote then m.readQuote a
  else ⟨m.literal a ++ [c], 0, a.quoted⟩

/-- The arguments of the rest of the line, `none` between two arguments. The end of the line
ends the argument. -/
def split : Option (Arg α) → List α → List (List α)
  | a, [] => (a.map m.literal).toList
  | a, c :: cs =>
    if m.blank c && !(a.getD .start).quoted then (a.map m.literal).toList ++ split none cs
    else split (some (m.read (a.getD .start) c)) cs

/-- The program's name goes up to the first blank outside quotes. -/
def splitName : List α → Bool → List α → List (List α)
  | name, _, [] => [name]
  | name, quoted, c :: cs =>
    if c = m.quote then splitName name (!quoted) cs
    else if m.blank c && !quoted then name :: m.split none cs
    else splitName (name ++ [c]) quoted cs

/-- The arguments of a line, the first of which may be the program's name. -/
def splitLine (programName : Bool) (line : List α) : List (List α) :=
  if programName then m.splitName [] false line else m.split none line

def enclosed (arg : List α) : List α := m.quote :: (arg ++ [m.quote])

/-- The arguments behind the first one, each after a `space`. -/
def following (space : α) (args : List (List α)) : List α := args.flatMap fun arg => space :: m.enclosed arg

def line (space : α) : List (List α) → List α
  | [] => []
  | arg :: args => m.enclosed arg ++ m.following space args

/-- The number of backslashes at the end. -/
def trailing (arg : List α) : ℕ := (arg.rtakeWhile (· = m.backslash)).length

variable {m} {a : Arg α} {arg first : List α} {args : List (List α)} {c space : α}

/-! ### Between quotes -/

/-- A character that is no quote belongs to the argument. -/
theorem read_of_ne (hc : c ≠ m.quote) :
    (m.read a c).quoted = a.quoted ∧ m.literal (m.read a c) = m.literal a ++ [c] := by
  unfold read
  by_cases hb : c = m.backslash
  · rw [if_pos hb]
    exact ⟨rfl, by simp [literal, List.replicate_succ', hb]⟩
  · rw [if_neg hb, if_neg hc]
    exact ⟨rfl, List.append_nil _⟩

@[simp] theorem read_quote (a : Arg α) : m.read a m.quote = m.readQuote a := by
  rw [read, if_neg m.backslash_ne.symm, if_pos rfl]

theorem split_cons_quoted (ha : a.quoted = true) (cs : List α) :
    m.split (some a) (c :: cs) = m.split (some (m.read a c)) cs := by
  rw [split]
  simp [ha]

theorem split_quote (r : Option (Arg α)) (cs : List α) :
    m.split r (m.quote :: cs) = m.split (some (m.readQuote (r.getD .start))) cs := by
  rw [split, if_neg (by simp [m.blank_quote]), read_quote]

/-- The state in front of the closing quote. -/
def scan (m : Marks α) (arg : List α) : Arg α := arg.foldl m.read ⟨[], 0, true⟩

theorem scan_concat (arg : List α) (c : α) : m.scan (arg ++ [c]) = m.read (m.scan arg) c := by
  rw [scan, List.foldl_append]
  rfl

/-- Between quotes every character but a quote is taken over. -/
theorem scan_spec (harg : m.quote ∉ arg) :
    (m.scan arg).quoted = true ∧ m.literal (m.scan arg) = arg ∧ (m.scan arg).slashes = m.trailing arg := by
  induction arg using List.reverseRecOn with
  | nil => exact ⟨rfl, rfl, rfl⟩
  | append_singleton arg c ih =>
    rw [List.mem_append, not_or, List.mem_singleton] at harg
    obtain ⟨hquoted, htext, hslashes⟩ := ih harg.1
    obtain ⟨h1, h2⟩ := read_of_ne (a := m.scan arg) (Ne.symm harg.2)
    rw [scan_concat]
    refine ⟨h1.trans hquoted, by rw [h2, htext], ?_⟩
    unfold read trailing
    by_cases hb : c = m.backslash
    · rw [if_pos hb, List.rtakeWhile_concat_pos _ _ _ (by simpa using hb), List.length_append]
      exact congrArg (· + 1) hslashes
    · rw [if_neg hb, if_neg (Ne.symm harg.2), List.rtakeWhile_concat_neg _ _ _ (by simpa using hb)]
      rfl

/-- Inside quotes every character belongs to the argument, blanks included. -/
theorem split_quoted_append (cs : List α) : ∀ (arg : List α) {a : Arg α}, m.quote ∉ arg → a.quoted = true →
    m.split (some a) (arg ++ cs) = m.split (some (arg.foldl m.read a)) cs := by
  intro arg
  induction arg with
  | nil => intro a _ _; rfl
  | cons c arg ih =>
    intro a harg ha
    rw [List.mem_cons, not_or] at harg
    rw [List.cons_append, split_cons_quoted ha, List.foldl_cons]
    exact ih harg.2 ((read_of_ne (Ne.symm harg.1)).1.trans ha)

/-- An enclosed argument ends with what its closing quote is read as. -/
theorem split_enclosed (harg : m.quote ∉ arg) (cs : List α) :
    m.split none (m.enclosed arg ++ cs) = m.split (some (m.readQuote (m.scan arg))) cs := by
  have hopen : m.readQuote (.start : Arg α) = ⟨[], 0, true⟩ := by simp [readQuote, Arg.start]
  rw [enclosed, List.cons_append, List.append_assoc, split_quote, Option.getD_none, hopen,
    split_quoted_append _ arg harg rfl, List.singleton_append, split_quote]
  rfl

/-! ### The closing quote -/

/-- An even number of backslashes in front of the quote lets it close the argument. -/
theorem readQuote_scan_even (harg : m.quote ∉ arg) (heven : m.trailing arg % 2 = 0) :
    ∃ text, m.readQuote (m.scan arg) = ⟨text, 0, false⟩ ∧ text.length + m.trailing arg / 2 = arg.length ∧
      (m.trailing arg = 0 → text = arg) := by
  obtain ⟨hquoted, htext, hslashes⟩ := scan_spec harg
  have hlength := congrArg List.length htext
  rw [literal, List.length_append, List.length_replicate, hslashes] at hlength
  rw [literal, hslashes] at htext
  refine ⟨(m.scan arg).text ++ List.replicate (m.trailing arg / 2) m.backslash, ?_, ?_, fun h => ?_⟩
  · rw [readQuote, hslashes, if_pos heven, hquoted]
    rfl
  · rw [List.length_append, List.length_replicate]
    omega
  · rw [h] at htext ⊢
    exact htext

/-- An odd number makes it part of the argument. -/
theorem readQuote_scan_odd (harg : m.quote ∉ arg) (hodd : m.trailing arg % 2 ≠ 0) :
    ∃ text, m.readQuote (m.scan arg) = ⟨text, 0, true⟩ ∧ m.quote ∈ text := by
  obtain ⟨hquoted, -, hslashes⟩ := scan_spec harg
  refine ⟨(m.scan arg).text ++ List.replicate (m.trailing arg / 2) m.backslash ++ [m.quote], ?_, by simp⟩
  rw [readQuote, hslashes, if_neg hodd, hquoted]

omit [DecidableEq α] in
theorem following_cons : m.following space (arg :: args) = space :: (m.enclosed arg ++ m.following space args) := rfl

/-- A blank ends the argument, and the next one begins. -/
theorem split_following (hspace : m.blank space = true) (text : List α) (args : List (List α)) :
    m.split (some ⟨text, 0, false⟩) (m.following space args) = text :: m.split none (m.line space args) := by
  have hliteral : m.literal ⟨text, 0, false⟩ = text := List.append_nil text
  cases args with
  | nil => exact congrArg (fun t => [t]) hliteral
  | cons arg args =>
    rw [following_cons, split, if_pos (by simpa using hspace), Option.map_some, hliteral]
    rfl

/-- Reading only appends to the text. -/
theorem text_prefix_read (a : Arg α) (c : α) : a.text <+: (m.read a c).text := by
  unfold read readQuote literal
  split
  · exact List.prefix_rfl
  · split
    · dsimp only
      split
      · exact List.prefix_append ..
      · exact (List.prefix_append ..).trans (List.prefix_append ..)
    · exact (List.prefix_append ..).trans (List.prefix_append ..)

/-- What has been read stays in front. -/
theorem split_some_head (input : List α) : ∀ a : Arg α,
    ∃ p tail, m.split (some a) input = p :: tail ∧ a.text <+: p := by
  induction input with
  | nil => exact fun a => ⟨m.literal a, [], rfl, List.prefix_append ..⟩
  | cons c cs ih =>
    intro a
    rw [split]
    split
    · exact ⟨m.literal a, _, rfl, List.prefix_append ..⟩
    · obtain ⟨p, tail, hsplit, hp⟩ := ih (m.read a c)
      exact ⟨p, tail, hsplit, (text_prefix_read a c).trans hp⟩

/-- **What is read back.** The arguments come back exactly if none of them ends in a
backslash. -/
theorem split_line_eq_iff (hspace : m.blank space = true) (hargs : ∀ arg ∈ args, m.quote ∉ arg) :
    m.split none (m.line space args) = args ↔ ∀ arg ∈ args, m.trailing arg = 0 := by
  induction args with
  | nil => exact iff_of_true rfl (List.forall_mem_nil _)
  | cons arg args ih =>
    rw [List.forall_mem_cons] at hargs ⊢
    rw [line, split_enclosed hargs.1]
    by_cases heven : m.trailing arg % 2 = 0
    · obtain ⟨text, hread, hlength, htext⟩ := readQuote_scan_even hargs.1 heven
      rw [hread, split_following hspace, List.cons.injEq, ih hargs.2]
      refine and_congr_left' ⟨fun h => ?_, htext⟩
      -- half of the backslashes are lost
      rw [h] at hlength
      omega
    · -- the first argument that is read contains the quote
      obtain ⟨text, hread, hmem⟩ := readQuote_scan_odd hargs.1 heven
      obtain ⟨p, tail, hsplit, hp⟩ := split_some_head (m.following space args) (m.readQuote (m.scan arg))
      rw [hsplit]
      refine iff_of_false (fun h => ?_) (fun h => heven (by rw [h.1]))
      rw [hread] at hp
      obtain ⟨rfl, -⟩ := List.cons.inj h
      exact hargs.1 (hp.subset hmem)

omit [DecidableEq α] in
theorem ne_quote_of_blank (hspace : m.blank space = true) : space ≠ m.quote := by
  rintro rfl
  rw [m.blank_quote] at hspace
  cases hspace

/-! ### The program's name -/

/-- The name of the program is read up to its second quote. -/
theorem splitName_append (cs : List α) : ∀ (arg name : List α), m.quote ∉ arg →
    m.splitName name true (arg ++ cs) = m.splitName (name ++ arg) true cs := by
  intro arg
  induction arg with
  | nil => intro name _; simp
  | cons c arg ih =>
    intro name harg
    rw [List.mem_cons, not_or] at harg
    rw [List.cons_append, splitName, if_neg (Ne.symm harg.1), if_neg (by simp), ih _ harg.2]
    simp

/-- A name between quotes is read as it is. -/
theorem splitName_line (hspace : m.blank space = true) (hfirst : m.quote ∉ first) (args : List (List α)) :
    m.splitName [] false (m.line space (first :: args)) = first :: m.split none (m.line space args) := by
  have hclose : ∀ cs, m.splitName first true (m.quote :: cs) = m.splitName first false cs := by
    intro cs
    rw [splitName, if_pos rfl]
    rfl
  rw [line, enclosed, List.cons_append, List.append_assoc, splitName, if_pos rfl, Bool.not_false,
    splitName_append _ first [] hfirst, List.nil_append, List.singleton_append, hclose]
  cases args with
  | nil => rfl
  | cons arg args =>
    rw [following_cons, splitName, if_neg (ne_quote_of_blank hspace), if_pos (by simpa using hspace)]
    rfl

/-! ### An unclosed first argument -/

/-- The characters that a list of arguments needs, with one for the end of each. -/
def weight (args : List (List α)) : ℕ := args.flatten.length + args.length

/-- The characters taken so far for the argument that is being read, and one for its end. -/
def room (m : Marks α) : Option (Arg α) → ℕ
  | none => 1
  | some a => (m.literal a).length + 1

/-- The characters other than quotes. -/
def plain (m : Marks α) (input : List α) : ℕ := input.countP (· ≠ m.quote)

omit [DecidableEq α] in
theorem weight_cons : weight (arg :: args) = arg.length + 1 + weight args := by
  simp only [weight, List.flatten_cons, List.length_append, List.length_cons]
  omega

omit [DecidableEq α] in
theorem weight_toList (r : Option (Arg α)) : weight (r.map m.literal).toList ≤ m.room r := by
  cases r with
  | none => simp [weight, room]
  | some a => simp [weight, room]

omit [DecidableEq α] in
/-- A quote adds nothing to what has been read. -/
theorem readQuote_length_le (a : Arg α) : (m.literal (m.readQuote a)).length ≤ (m.literal a).length := by
  unfold readQuote literal
  dsimp only
  split
  · simp only [List.length_append, List.length_replicate]
    omega
  · simp only [List.length_append, List.length_replicate, List.length_singleton]
    omega

/-- No character is read twice. -/
theorem room_read (r : Option (Arg α)) (c : α) :
    m.room (some (m.read (r.getD .start) c)) ≤ m.room r + m.plain [c] := by
  have hstart : (m.literal (r.getD .start)).length + 1 ≤ m.room r := by
    cases r with
    | none => simp [literal, Arg.start, room]
    | some a => exact le_rfl
  have hread : (m.literal (m.read (r.getD .start) c)).length ≤ (m.literal (r.getD .start)).length + m.plain [c] := by
    by_cases hc : c = m.quote
    · subst hc
      rw [read_quote]
      exact (readQuote_length_le _).trans (Nat.le_add_right ..)
    · rw [(read_of_ne hc).2]
      simp [plain, hc]
  rw [room]
  omega

/-- The line has room for the arguments that are read from it. -/
theorem weight_split_le (input : List α) : ∀ r : Option (Arg α),
    weight (m.split r input) ≤ m.room r + m.plain input := by
  induction input with
  | nil =>
    intro r
    exact (weight_toList r).trans (Nat.le_add_right ..)
  | cons c cs ih =>
    intro r
    have hplain : m.plain (c :: cs) = m.plain [c] + m.plain cs := by
      rw [plain, plain, plain, ← List.countP_append, List.singleton_append]
    rw [split, hplain]
    split
    · rename_i hblank
      have hc : c ≠ m.quote := ne_quote_of_blank (Bool.and_eq_true_iff.1 hblank).1
      have hone : m.plain [c] = 1 := by simp [plain, hc]
      have happend : ∀ l l' : List (List α), weight (l ++ l') = weight l + weight l' := by
        intro l l'
        simp only [weight, List.flatten_append, List.length_append]
        omega
      have h1 := weight_toList (m := m) r
      have h2 := ih none
      rw [room] at h2
      rw [happend]
      omega
    · have h1 := room_read (m := m) r c
      have h2 := ih (some (m.read (r.getD .start) c))
      omega

theorem plain_append (l l' : List α) : m.plain (l ++ l') = m.plain l + m.plain l' := List.countP_append ..

theorem plain_of_not_mem (harg : m.quote ∉ arg) : m.plain arg = arg.length := by
  refine List.countP_eq_length.2 fun c hc => ?_
  have hne : c ≠ m.quote := fun e => harg (e ▸ hc)
  exact decide_eq_true hne

/-- A text without quotes has as many plain characters as it takes. -/
theorem plain_following (hspace : space ≠ m.quote) (hargs : ∀ arg ∈ args, m.quote ∉ arg) :
    m.plain (m.following space args) = weight args := by
  induction args with
  | nil => rfl
  | cons arg args ih =>
    rw [List.forall_mem_cons] at hargs
    have henclosed : m.plain (m.enclosed arg) = arg.length := by
      rw [enclosed, ← List.singleton_append, plain_append, plain_append, plain_of_not_mem hargs.1]
      simp [plain]
    have hone : m.plain [space] = 1 := by simp [plain, hspace]
    rw [following_cons, ← List.singleton_append, plain_append, plain_append, hone, henclosed, ih hargs.2, weight_cons]
    omega

/-- A first argument whose closing quote is taken for a part of it swallows a blank, so that
the line has no room for the arguments behind it. -/
theorem tail_split_ne_of_odd (hspace : m.blank space = true) (hfirst : m.quote ∉ first)
    (hargs : ∀ arg ∈ args, m.quote ∉ arg) (hne : args ≠ []) (hodd : m.trailing first % 2 ≠ 0) :
    (m.split none (m.line space (first :: args))).tail ≠ args := by
  intro htail
  obtain ⟨text, hread, -⟩ := readQuote_scan_odd hfirst hodd
  obtain ⟨arg, args, rfl⟩ := List.exists_cons_of_ne_nil hne
  rw [List.forall_mem_cons] at hargs
  have hsq := ne_quote_of_blank hspace
  have hsb : space ≠ m.backslash := by
    rintro rfl
    rw [m.blank_backslash] at hspace
    cases hspace
  -- the blank is taken over, and the quote behind it ends the quoting
  have hblank : m.read ⟨text, 0, true⟩ space = ⟨text ++ [space], 0, true⟩ := by simp [read, literal, hsq, hsb]
  have hquote : m.readQuote ⟨text ++ [space], 0, true⟩ = ⟨text ++ [space], 0, false⟩ := by simp [readQuote]
  rw [line, split_enclosed hfirst, hread, following_cons, split_cons_quoted rfl, hblank, enclosed, List.cons_append,
    split_quote, Option.getD_some, hquote] at htail
  obtain ⟨p, tail, hsplit, hp⟩ := split_some_head (m := m) (arg ++ [m.quote] ++ m.following space args)
    ⟨text ++ [space], 0, false⟩
  have hweight := weight_split_le (m := m) (arg ++ [m.quote] ++ m.following space args)
    (some ⟨text ++ [space], 0, false⟩)
  rw [hsplit, List.tail_cons] at htail
  subst htail
  rw [hsplit, weight_cons, weight_cons, room, plain_append, plain_append, plain_following hsq hargs.2,
    plain_of_not_mem hargs.1] at hweight
  have hquotes : m.plain [m.quote] = 0 := by simp [plain]
  have hlength := hp.length_le
  simp only [literal, List.length_append, List.length_singleton, List.length_replicate] at hweight hlength
  omega

/-- **What is read back behind the first argument.** -/
theorem splitLine_tail_iff (hspace : m.blank space = true) (programName : Bool) (hfirst : m.quote ∉ first)
    (hargs : ∀ arg ∈ args, m.quote ∉ arg) :
    (m.splitLine programName (m.line space (first :: args))).tail = args ↔
      (∀ arg ∈ args, m.trailing arg = 0) ∧ (args = [] ∨ programName = true ∨ m.trailing first % 2 = 0) := by
  cases programName with
  | true =>
    rw [splitLine, if_pos rfl, splitName_line hspace hfirst, List.tail_cons, split_line_eq_iff hspace hargs]
    simp
  | false =>
    rw [splitLine, if_neg Bool.false_ne_true]
    by_cases heven : m.trailing first % 2 = 0
    · obtain ⟨text, hread, -, -⟩ := readQuote_scan_even hfirst heven
      rw [line, split_enclosed hfirst, hread, split_following hspace, List.tail_cons, split_line_eq_iff hspace hargs]
      simp [heven]
    · by_cases hnil : args = []
      · subst hnil
        obtain ⟨text, hread, -⟩ := readQuote_scan_odd hfirst heven
        rw [line, split_enclosed hfirst, hread]
        exact iff_of_true rfl ⟨List.forall_mem_nil _, .inl rfl⟩
      · exact iff_of_false (tail_split_ne_of_odd hspace hfirst hargs hnil heven) (by simp [hnil, heven])

end Marks

end Lib
