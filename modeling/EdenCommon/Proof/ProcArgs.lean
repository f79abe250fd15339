import EdenCommon.Spec.ProcArgs
import Mathlib.Tactic.ByContra
import Mathlib.Tactic.Set

/-!
# When the command line is extracted

The loops stay in front of `end`, so each is a function of the bytes that are left:
`lookFor_eq` finds the first byte it stops at, and `countArgs_eq` the terminator of the last
argument (`lastNul`). `extract_eq` puts them together for any buffer. Behind the padding of a
laid out buffer the parser also skips an empty first argument: `extractsArgs_iff` says when that
does no harm.

* `staysInside`: every buffer is read inside its bounds, whatever the kernel has left in it.
* `extractCommandLine_iff`: of a laid out buffer the parser extracts the arguments exactly
  if the first one is not empty, or is the only one and nothing but NUL follows.
* `emptyName_leaks`: with an empty first argument a variable of the environment is taken for
  an argument.
-/

namespace EdenCommon

open Lib

namespace ProcArgs

variable {procargs : Bytes} {stop : UInt8 → Bool} {i n c : ℕ}

theorem readInt_eq_some (h : 4 ≤ procargs.length) : ∃ v, readInt procargs = some v :=
  ⟨_, if_pos h⟩

/-- **The first byte** that is looked for. -/
theorem lookFor_eq (h : i + n = procargs.length) :
    lookFor stop procargs n i = some (i + (procargs.drop i).findIdx stop) := by
  induction n generalizing i with
  | zero =>
    rw [lookFor, List.drop_eq_nil_of_le (by omega)]
    simp
  | succ n ih =>
    have hi : i < procargs.length := by omega
    rw [lookFor, List.getElem?_eq_getElem hi, List.drop_eq_getElem_cons hi, List.findIdx_cons]
    simp only [Option.bind_eq_bind, Option.bind_some]
    by_cases hs : stop procargs[i]
    · simp [hs]
    · rw [if_neg hs, ih (by omega)]
      simp only [hs, cond_false, Option.some.injEq]
      omega

/-- Where the `c`-th NUL stands, or the end. -/
def lastNul : ℕ → Bytes → ℕ
  | _, [] => 0
  | c, b :: bs => if b = 0 then if c - 1 = 0 then 0 else lastNul (c - 1) bs + 1 else lastNul c bs + 1

theorem countArgs_eq (h : i + n = procargs.length) :
    countArgs procargs n c i = some (i + lastNul c (procargs.drop i)) := by
  induction n generalizing i c with
  | zero =>
    rw [countArgs, List.drop_eq_nil_of_le (by omega)]
    rfl
  | succ n ih =>
    have hi : i < procargs.length := by omega
    rw [countArgs, List.getElem?_eq_getElem hi, List.drop_eq_getElem_cons hi, lastNul]
    simp only [Option.bind_eq_bind, Option.bind_some]
    by_cases hb : procargs[i] = 0
    · rw [if_pos hb, if_pos hb]
      by_cases hc : c - 1 = 0
      · rw [if_pos hc, if_pos hc, Nat.add_zero]
      · rw [if_neg hc, if_neg hc, ih (by omega), Option.some.injEq]
        omega
    · rw [if_neg hb, if_neg hb, ih (by omega), Option.some.injEq]
      omega

theorem lastNul_le (c : ℕ) (bs : Bytes) : lastNul c bs ≤ bs.length := by
  induction bs generalizing c with
  | nil => simp [lastNul]
  | cons b bs ih =>
    have h1 := ih (c - 1)
    have h2 := ih c
    rw [lastNul, List.length_cons]
    split
    · split <;> omega
    · omega

/-- A string without NUL is passed over. -/
theorem lastNul_append {s : Bytes} (hs : 0 ∉ s) (c : ℕ) (bs : Bytes) :
    lastNul c (s ++ bs) = s.length + lastNul c bs := by
  induction s with
  | nil => simp
  | cons b s ih =>
    have hb : b ≠ 0 := fun h0 => hs (h0 ▸ List.mem_cons_self)
    rw [List.cons_append, lastNul, if_neg hb, ih fun hm => hs (List.mem_cons_of_mem b hm), List.length_cons]
    omega

/-- **The strings are counted**: the last terminator of `c` strings stands behind their join. -/
theorem lastNul_terminate {ls : List Bytes} (hls : ∀ l ∈ ls, 0 ∉ l) (hne : ls ≠ []) (bs : Bytes) :
    lastNul ls.length (terminate 0 ls ++ bs) = ([0].intercalate ls).length := by
  induction ls with
  | nil => exact absurd rfl hne
  | cons l ls ih =>
    have hl := hls l List.mem_cons_self
    rw [terminate_cons, List.append_assoc, lastNul_append hl, List.cons_append, lastNul, if_pos rfl,
      List.length_cons, Nat.add_sub_cancel]
    cases ls with
    | nil => simp [List.intercalate]
    | cons l' ls =>
      have hrec := ih (fun x hx => hls x (List.mem_cons_of_mem l hx)) (by simp)
      rw [if_neg (by simp), hrec, List.intercalate_cons_cons]
      simp only [List.length_append, List.length_singleton]
      omega

/-! ### Any buffer -/

/-- The bytes from the command line on, as the parser sees it. -/
def commandLine (procargs : Bytes) : Bytes :=
  ((procargs.drop 4).dropWhile (· != 0)).dropWhile (· == 0)

theorem drop_findIdx (stop : UInt8 → Bool) (bs : Bytes) :
    bs.drop (bs.findIdx stop) = bs.dropWhile fun b => !stop b := by
  induction bs with
  | nil => rfl
  | cons b bs ih =>
    rw [List.findIdx_cons, List.dropWhile_cons]
    by_cases hs : stop b
    · simp [hs]
    · simp [hs, ih]

/-- **The parser**, for a buffer with an `int` and a count. -/
theorem extract_eq {argCount : ℤ} (h4 : 4 ≤ procargs.length) (hargc : readInt procargs = some argCount)
    (hpos : 1 ≤ argCount) :
    ∃ start, start + (commandLine procargs).length = procargs.length ∧
      procargs.drop start = commandLine procargs ∧
      extractCommandLineFromProcArgs procargs =
        some (.range start (start + lastNul argCount.toNat (commandLine procargs))) := by
  set nul := 4 + (procargs.drop 4).findIdx (· == 0) with hnul
  have hnulle : nul ≤ procargs.length := by
    have := @List.findIdx_le_length _ (· == 0) (procargs.drop 4)
    rw [List.length_drop] at this
    omega
  set start := nul + (procargs.drop nul).findIdx (· != 0) with hstart
  have hstartle : start ≤ procargs.length := by
    have := @List.findIdx_le_length _ (· != 0) (procargs.drop nul)
    rw [List.length_drop] at this
    omega
  have hline : procargs.drop start = commandLine procargs := by
    rw [hstart, ← List.drop_drop, drop_findIdx, hnul, ← List.drop_drop, drop_findIdx]
    simp [commandLine, bne]
  have hlen := congrArg List.length hline
  rw [List.length_drop] at hlen
  refine ⟨start, by omega, hline, ?_⟩
  unfold extractCommandLineFromProcArgs
  simp only [hargc]
  rw [if_neg (by omega)]
  simp only [Option.bind_eq_bind, Option.bind_some]
  rw [if_neg (by omega), lookFor_eq (by omega), Option.bind_some, ← hnul, lookFor_eq (by omega), Option.bind_some,
    ← hstart, countArgs_eq (by omega), Option.bind_some, hline]

/-- **Every buffer** is read inside its bounds. -/
theorem staysInside (procargs : Bytes) : StaysInside procargs := by
  by_cases h4 : procargs.length < 4
  · refine ⟨.literal "<err:EUNDERFLOW>", ?_, Or.inl rfl⟩
    unfold extractCommandLineFromProcArgs
    simp [h4]
  · obtain ⟨argCount, hargc⟩ := readInt_eq_some (Nat.not_lt.mp h4)
    by_cases hpos : argCount < 1
    · refine ⟨.literal "<err:BOGUS_ARGC>", ?_, Or.inr (Or.inl rfl)⟩
      unfold extractCommandLineFromProcArgs
      simp [h4, hargc, hpos]
    · obtain ⟨start, hlen, -, hres⟩ := extract_eq (Nat.not_lt.mp h4) hargc (by omega)
      have := lastNul_le argCount.toNat (commandLine procargs)
      exact ⟨_, hres, Or.inr (Or.inr ⟨_, _, rfl, by omega, by omega⟩)⟩

/-! ### Laid out buffers -/

variable (l : ProcArgs)

/-- The bytes behind the header. -/
def body : Bytes := terminate 0 l.args ++ terminate 0 l.env

theorem args_ne_nil : l.args ≠ [] := List.length_pos_iff.mp l.argc_pos

theorem bytes_eq : l.bytes = l.header ++ l.body := by
  rw [bytes, body, List.append_assoc]

theorem header_length : l.header.length = 4 + l.path.length + (l.padding + 1) := by
  simp only [header, List.length_append, List.length_reverse, length_toBytesBE, List.length_replicate]

theorem readInt_bytes : readInt l.bytes = some (l.args.length : ℤ) := by
  have hargc := l.argc_int
  have htake : l.bytes.take 4 = (toBytesBE 4 l.args.length).reverse := by
    rw [bytes_eq, header, List.append_assoc, List.append_assoc, List.take_left' (by simp)]
  have hlen : 4 ≤ l.bytes.length := by
    rw [bytes_eq, List.length_append, header_length]
    omega
  have hv : ofBytesBE (l.bytes.take 4).reverse = l.args.length := by
    rw [htake, List.reverse_reverse, ofBytesBE_toBytesBE _ _ (by omega)]
  rw [readInt, if_pos hlen]
  simp only [hv]
  rw [if_pos (by omega)]

/-- **The parser's command line** starts at the first byte behind the header that is not NUL. -/
theorem commandLine_bytes : commandLine l.bytes = l.body.dropWhile (· == 0) := by
  have hdrop : l.bytes.drop 4 = l.path ++ (List.replicate (l.padding + 1) 0 ++ l.body) := by
    rw [bytes_eq, header, List.append_assoc, List.append_assoc, List.drop_left' (by simp)]
  have hpath : ∀ b ∈ l.path, (b != 0) = true := by
    intro b hb
    have hb0 : b ≠ 0 := fun h0 => l.path_nul (h0 ▸ hb)
    simpa using hb0
  have hstop : (List.replicate (l.padding + 1) 0 ++ l.body).dropWhile (· != 0) =
      List.replicate (l.padding + 1) 0 ++ l.body := by
    rw [List.replicate_succ, List.cons_append, List.dropWhile_cons, if_neg (by simp)]
  rw [commandLine, hdrop, List.dropWhile_append_of_pos hpath, hstop, List.dropWhile_append_of_pos]
  intro b hb
  rw [List.eq_of_mem_replicate hb]
  rfl

/-- What is extracted, in terms of the command line. -/
theorem extractsArgs_iff_take {cmd : Bytes} (hcmd : commandLine l.bytes = cmd) : l.ExtractsArgs ↔
    cmd.take (lastNul l.args.length cmd) = [0].intercalate l.args ∧
      ∀ i, l.bytes.length - cmd.length ≤ i → i < l.bytes.length - cmd.length + lastNul l.args.length cmd →
        i < l.envStart := by
  have h4 : 4 ≤ l.bytes.length := by
    rw [bytes_eq, List.length_append, header_length]
    omega
  have hpos := l.argc_pos
  obtain ⟨start, hlen, hdrop, hres⟩ := extract_eq h4 l.readInt_bytes (by omega)
  rw [Int.toNat_natCast] at hres
  rw [hcmd] at hlen hdrop hres
  have hstart : l.bytes.length - cmd.length = start := by omega
  rw [hstart]
  constructor
  · rintro ⟨start', stop, heq, hargs, hrange⟩
    rw [hres, Option.some.injEq, Piece.range.injEq] at heq
    obtain ⟨rfl, rfl⟩ := heq
    rw [hdrop, Nat.add_sub_cancel_left] at hargs
    exact ⟨hargs, hrange⟩
  · rintro ⟨hargs, hrange⟩
    refine ⟨start, _, hres, ?_, hrange⟩
    rw [hdrop, Nat.add_sub_cancel_left]
    exact hargs

/-- A first argument that is not empty is where the command line starts. -/
theorem extractsArgs_of_head {b : UInt8} {arg : Bytes} {args : List Bytes} (h : l.args = (b :: arg) :: args) :
    l.ExtractsArgs := by
  have hb : b ≠ 0 := by
    rintro rfl
    exact l.args_nul (0 :: arg) (by rw [h]; exact List.mem_cons_self) List.mem_cons_self
  have hcmd : commandLine l.bytes = l.body := by
    rw [commandLine_bytes, body, h, terminate_cons, List.cons_append, List.cons_append, List.dropWhile_cons,
      if_neg (by simpa using hb)]
  have hlast := lastNul_terminate l.args_nul l.args_ne_nil (terminate 0 l.env)
  have hterm := terminate_eq_intercalate (0 : UInt8) l.args_ne_nil
  rw [extractsArgs_iff_take l hcmd, body, hlast]
  constructor
  · rw [hterm, List.append_assoc, List.take_left']
    rfl
  · intro i _ hi
    rw [bytes_eq, body] at hi
    rw [envStart, hterm]
    simp only [List.length_append, List.length_singleton] at hi ⊢
    omega

/-- **The command line is extracted** exactly if the first argument is not empty, or is the only
one and nothing but NUL follows. -/
theorem extractsArgs_iff : l.ExtractsArgs ↔
    l.args.head? ≠ some [] ∨ l.args = [[]] ∧ ∀ var ∈ l.env, var = [] := by
  obtain ⟨arg, args, hargs⟩ := List.exists_cons_of_ne_nil l.args_ne_nil
  cases arg with
  | cons b arg =>
    refine iff_of_true (l.extractsArgs_of_head hargs) (Or.inl ?_)
    rw [hargs]
    simp
  | nil =>
    rw [extractsArgs_iff_take l l.commandLine_bytes]
    cases hcmd : l.body.dropWhile (· == 0) with
    | nil =>
      -- all that follows the header is NUL
      rw [List.dropWhile_eq_nil_iff] at hcmd
      have henv : ∀ var ∈ l.env, var = [] := by
        intro var hvar
        by_contra hne
        obtain ⟨b, var', rfl⟩ := List.exists_cons_of_ne_nil hne
        have hb : b = 0 := by
          simpa using hcmd b (List.mem_append_right _ (List.mem_flatMap.mpr ⟨b :: var', hvar, by simp⟩))
        exact l.env_nul _ hvar (hb ▸ List.mem_cons_self)
      have hjoin : [0].intercalate l.args = [] ↔ l.args = [[]] := by
        rw [hargs]
        cases args with
        | nil => simp [List.intercalate]
        | cons arg' args => simp [List.intercalate_cons_cons]
      simp only [lastNul, List.take_nil, hargs, List.head?_cons, ne_eq, not_true_eq_false, false_or]
      rw [← hargs]
      constructor
      · rintro ⟨h, -⟩
        exact ⟨hjoin.mp h.symm, henv⟩
      · rintro ⟨h, -⟩
        exact ⟨(hjoin.mpr h).symm, fun i h1 h2 => by omega⟩
    | cons b cmd =>
      -- the parser has skipped the first argument and starts with a byte that is not NUL
      have hb : b ≠ 0 := by
        have hne : l.body.dropWhile (· == 0) ≠ [] := by simp [hcmd]
        have := List.head_dropWhile_not _ hne
        simpa [hcmd] using this
      have hmem : b ∈ l.body := by
        have hsuf := List.dropWhile_suffix (l := l.body) (· == 0)
        rw [hcmd] at hsuf
        exact hsuf.subset List.mem_cons_self
      constructor
      · rintro ⟨h, -⟩
        rw [lastNul, if_neg hb, List.take_succ_cons, hargs] at h
        cases args with
        | nil => simp [List.intercalate] at h
        | cons arg' args =>
          rw [List.intercalate_cons_cons] at h
          exact absurd (List.cons.inj h).1 hb
      · rintro (hhead | ⟨hone, henv⟩)
        · rw [hargs] at hhead
          simp at hhead
        · exfalso
          rw [body, hone, List.mem_append, terminate_cons, terminate_nil] at hmem
          rcases hmem with hm | hm
          · simp only [List.nil_append, List.mem_singleton] at hm
            exact hb hm
          · obtain ⟨var, hvar, hin⟩ := List.mem_flatMap.mp hm
            rw [henv var hvar] at hin
            simp only [List.nil_append, List.mem_singleton] at hin
            exact hb hin

/-- **The parser**: of a laid out buffer it extracts the arguments exactly if the first one is not
empty, or is the only one and nothing but NUL follows; and it stays inside every buffer. -/
theorem extractCommandLine_iff (l : ProcArgs) (procargs : Bytes) :
    (l.ExtractsArgs ↔ l.args.head? ≠ some [] ∨ l.args = [[]] ∧ ∀ var ∈ l.env, var = []) ∧ StaysInside procargs :=
  ⟨l.extractsArgs_iff, staysInside procargs⟩

/-- A process that was started with an empty name and one argument, and one variable. -/
def emptyName : ProcArgs where
  path := [47]
  padding := 2
  args := [[], [120]]
  env := [[65, 61]]
  path_nul := by decide
  args_nul := by decide
  env_nul := by decide
  argc_pos := by decide
  argc_int := by decide

/-- The argument is taken for the first of two, and the variable for the second. -/
theorem emptyName_leaks :
    extractCommandLineFromProcArgs emptyName.bytes = some (.range 9 13) ∧
      (emptyName.bytes.drop 9).take (13 - 9) = [120, 0, 65, 61] ∧ ¬emptyName.ExtractsArgs := by
  refine ⟨by decide, by decide, ?_⟩
  rintro ⟨start, stop, hres, hargs, -⟩
  have hrange : extractCommandLineFromProcArgs emptyName.bytes = some (.range 9 13) := by decide
  rw [hrange, Option.some.injEq, Piece.range.injEq] at hres
  obtain ⟨rfl, rfl⟩ := hres
  contradiction

end ProcArgs

end EdenCommon
