import EdenCommon.Spec.ProcStatus

/-!
# The user behind a process

`create_shows`: the parser finds the parent and the user in any status file. `readUserInfo_ascends`:
`readUserInfo` gives the user of the process and the nearest one above it that is not root, and
stops, while the processes change between the reads. `getProcPidCmdLine_path`: the path is right
for every pid and stays in its buffer.

* `userLoop_ascends`: the loop of `readUserInfo`, by the processes that it goes through.
* `fetch_usernames`: both names are those of the users, also when one lookup serves for
  both.
* `ToAsciiDecimal.Lawful.pid`: what is assumed of the conversion of numbers gives the digits
  of a pid that fit into the buffer; those of a negative one, which is a number of 20 digits
  in 64 bits, do not, and nothing is written.
* `getProcPidCmdLine_holdsAt`, `getProcPidCmdLine_outside`: what lies in the buffer, and
  that the bytes behind it are left alone.
-/

namespace EdenCommon

open Lib

namespace ProcStatus

/-! ### Numbers -/

/-- A digit is neither blank nor sign. -/
theorem isSpace_of_isDigit {b : UInt8} (h : isDigit b = true) : isSpace b = false ∧ b ≠ 0x2D ∧ b ≠ 0x2B := by
  simp only [isDigit, Bool.and_eq_true, decide_eq_true_eq, UInt8.le_iff_toNat_le] at h
  obtain ⟨hlo, hhi⟩ := h
  have hlo : 0x30 ≤ b.toNat := hlo
  have hne : ∀ {c : UInt8}, c.toNat < 0x30 → b ≠ c := by
    rintro c hc rfl
    omega
  refine ⟨?_, hne (by decide), hne (by decide)⟩
  simp only [isSpace, Bool.or_eq_false_iff, Bool.and_eq_false_iff, beq_eq_false_iff_ne, decide_eq_false_iff_not,
    UInt8.le_iff_toNat_le]
  refine ⟨hne (by decide), Or.inr fun hle => ?_⟩
  have hle : b.toNat ≤ 0x0D := hle
  omega

/-- A number behind blanks and in front of anything but a digit. -/
theorem readNumber_decimal (n : ℕ) {blanks rest : Bytes} (hblanks : ∀ b ∈ blanks, isSpace b = true)
    (hrest : ∀ b ∈ rest.head?, isDigit b = false) : readNumber (blanks ++ (decimal n ++ rest)) = some (false, n) := by
  obtain ⟨b, bs, hcons⟩ := List.exists_cons_of_ne_nil (decimal_ne_nil n)
  obtain ⟨hspace, hminus, hplus⟩ := isSpace_of_isDigit (isDigit_decimal (hcons ▸ List.mem_cons_self : b ∈ decimal n))
  have hdrop : (blanks ++ (decimal n ++ rest)).dropWhile isSpace = decimal n ++ rest := by
    rw [List.dropWhile_append_of_pos hblanks, hcons, List.cons_append, List.dropWhile_cons_of_neg (by simp [hspace])]
  have hhead : (decimal n ++ rest).head? = some b := by rw [hcons]; rfl
  have hminus' : ¬ (some b = some (0x2D : UInt8)) := fun h => hminus (Option.some.inj h)
  have hplus' : ¬ (some b = some (0x2B : UInt8)) := fun h => hplus (Option.some.inj h)
  unfold readNumber
  simp only [hdrop, hhead, hminus', hplus', or_self, if_false, takeWhile_decimal n hrest, decimal_ne_nil,
    ofDecimal_decimal, decide_false]

/-- A user id is read back. -/
theorem readUid_decimal (n : Fin 4294967296) {blanks rest : Bytes} (hblanks : ∀ b ∈ blanks, isSpace b = true)
    (hrest : ∀ b ∈ rest.head?, isDigit b = false) : readUid (blanks ++ (decimal n ++ rest)) = some n.1 := by
  rw [readUid, readNumber_decimal n.1 hblanks hrest]
  exact if_pos (Nat.le_of_lt_succ n.2)

/-- So is the id of a process. -/
theorem readPid_decimal (n : Fin 2147483648) {blanks rest : Bytes} (hblanks : ∀ b ∈ blanks, isSpace b = true)
    (hrest : ∀ b ∈ rest.head?, isDigit b = false) : readPid (blanks ++ (decimal n ++ rest)) = some (n.1 : ℤ) := by
  rw [readPid, readNumber_decimal n.1 hblanks hrest]
  exact if_pos (Nat.le_of_lt_succ n.2)

/-! ### The status file -/

/-- The lines of a file are what it was made of. -/
theorem getlines_terminate {lines : List Bytes} (hcut : ∀ line ∈ lines, (0x0A : UInt8) ∉ line) :
    getlines (terminate 0x0A lines) = lines := by
  have hsplit : (terminate 0x0A lines).splitOnP (· == 0x0A) = lines ++ [[]] := by
    have hjoin : terminate 0x0A lines = [(0x0A : UInt8)].intercalate (lines ++ [[]]) := by
      induction lines with
      | nil => rfl
      | cons line lines ih =>
        have hne : lines ++ [[]] ≠ [] := by simp
        obtain ⟨l, ls, hls⟩ := List.exists_cons_of_ne_nil hne
        rw [terminate_cons, ih fun l hl => hcut l (List.mem_cons_of_mem _ hl), List.cons_append, hls,
          List.intercalate_cons_cons]
        simp
    rw [hjoin]
    refine splitOnP_intercalate (by simp) (by simp) fun line hline b hb => ?_
    rcases List.mem_append.1 hline with hline | hline
    · have hne : b ≠ 0x0A := by
        rintro rfl
        exact hcut line hline hb
      simpa using hne
    · rw [List.mem_singleton.1 hline] at hb
      cases hb
  rw [getlines, hsplit]
  simp

/-- The value of an entry is found, or is in a line to come. -/
def Finds {T : Type} (read : Bytes → Option T) (entry : Bytes) (v : T) (lines : List Bytes) (found : Option T) : Prop :=
  found = some v ∨ found = none ∧
    ∃ line, lines.find? entry.isPrefixOf = some line ∧ read (line.drop entry.length) = some v

/-- The first line with the entry counts, and the later ones do not. -/
theorem Finds.cons {T : Type} {read : Bytes → Option T} {entry : Bytes} {v : T} {line : Bytes} {lines : List Bytes}
    {found : Option T} (h : Finds read entry v (line :: lines) found) :
    Finds read entry v lines (found <|> parseStatusLine read line entry) := by
  obtain rfl | ⟨rfl, line', hfind, hread⟩ := h
  · exact Or.inl rfl
  · rw [List.find?_cons] at hfind
    unfold parseStatusLine
    cases hp : entry.isPrefixOf line with
    | true =>
      rw [hp] at hfind
      obtain rfl := Option.some.inj hfind
      exact Or.inl hread
    | false =>
      rw [hp] at hfind
      exact Or.inr ⟨rfl, line', hfind, hread⟩

theorem Finds.eq {T : Type} {read : Bytes → Option T} {entry : Bytes} {v w : T} {lines : List Bytes}
    (h : Finds read entry v lines (some w)) : w = v := by
  obtain h | ⟨h, -⟩ := h
  · exact Option.some.inj h
  · cases h

theorem Finds.nil {T : Type} {read : Bytes → Option T} {entry : Bytes} {v : T} {found : Option T}
    (h : Finds read entry v [] found) : found = some v := by
  obtain h | ⟨-, line, hfind, -⟩ := h
  · exact h
  · cases hfind

/-- The loop goes on until it has found both entries. -/
theorem statusLoop_eq (pid : ℤ) {u : ℕ} {q : ℤ} : ∀ (lines : List Bytes) (uid : Option ℕ) (ppid : Option ℤ),
    Finds readUid entryUid u lines uid → Finds readPid entryPPid q lines ppid → uid = none ∨ ppid = none →
    statusLoop pid lines uid ppid = some ⟨pid, q, u⟩ := by
  intro lines
  induction lines with
  | nil =>
    intro uid ppid huid hppid hnone
    rw [huid.nil, hppid.nil] at hnone
    rcases hnone with h | h <;> cases h
  | cons line lines ih =>
    intro uid ppid huid hppid _
    have huid' := huid.cons
    have hppid' := hppid.cons
    rw [statusLoop]
    cases hu : (uid <|> parseStatusLine readUid line entryUid) with
    | none =>
      rw [hu] at huid'
      exact ih _ _ huid' hppid' (Or.inl rfl)
    | some u' =>
      rw [hu] at huid'
      cases hq : (ppid <|> parseStatusLine readPid line entryPPid) with
      | none =>
        rw [hq] at hppid'
        exact ih _ _ huid' hppid' (Or.inr rfl)
      | some q' =>
        rw [hq] at hppid'
        rw [huid'.eq, hppid'.eq]

/-- **The parser finds what the kernel shows.** -/
theorem create_shows {reads : ℤ → Option Bytes} {pid : ℤ} {content : Bytes} {p : Process} {lines : List Bytes}
    (hread : reads pid = some content) (h : Shows content p lines) :
    StatusInfo.create reads pid = some ⟨pid, p.ppid.1, p.uid.1⟩ := by
  obtain ⟨blanks, rest, hfind, hblanks, hrest⟩ := h.uid
  obtain ⟨blanks', rest', hfind', hblanks', hrest'⟩ := h.ppid
  rw [StatusInfo.create, hread, Option.elim_some, h.content, getlines_terminate h.cut]
  refine statusLoop_eq pid lines none none (Or.inr ⟨rfl, _, hfind, ?_⟩) (Or.inr ⟨rfl, _, hfind', ?_⟩) (Or.inl rfl)
  · rw [List.drop_left]
    exact readUid_decimal p.uid hblanks hrest
  · rw [List.drop_left]
    exact readPid_decimal p.ppid hblanks' hrest'

/-- Without a file there is no status. -/
theorem create_none {reads : ℤ → Option Bytes} {pid : ℤ} (h : reads pid = none) : StatusInfo.create reads pid = none := by
  rw [StatusInfo.create, h]
  rfl

/-! ### The way up -/

/-- What is known of the user after some processes. -/
def infoOf (config : ReadUserInfoConfig) : List Process → Option ProcessUserInfo
  | [] => none
  | p :: ps => some ⟨if config.resolveRootUser then userBehind (p :: ps) else p.uid.1, p.uid.1, [], []⟩

/-- A process that root does not run is the answer. -/
theorem userBehind_cons (p : Process) (ps : List Process) :
    userBehind (p :: ps) = if p.uid.1 = 0 then userBehind ps else p.uid.1 := by
  unfold userBehind
  rw [List.map_cons, List.find?_cons]
  by_cases h : p.uid.1 = 0 <;> simp [h]

/-- Once there is a user, each turn of the loop only looks for the real one. -/
theorem userLoop_root {reads : ℕ → ℤ → Option Bytes} {config : ReadUserInfoConfig} (hresolve : config.resolveRootUser = true)
    (ps : List Process) : ∀ (k : ℕ) (pid : ℤ) (info : ProcessUserInfo) (fuel : ℕ), Ascends reads k pid ps →
      ps.length < fuel → info.ruid = 0 →
      userLoop reads config fuel k pid (some info) = some (some { info with ruid := userBehind ps }) := by
  induction ps with
  | nil =>
    intro k pid info fuel hasc hfuel hzero
    obtain ⟨fuel, rfl⟩ : ∃ f, fuel = f + 1 := ⟨fuel - 1, by omega⟩
    rw [userLoop, create_none hasc]
    show some (some info) = some (some { info with ruid := 0 })
    rw [← hzero]
  | cons p ps ih =>
    intro k pid info fuel hasc hfuel _
    rw [List.length_cons] at hfuel
    obtain ⟨fuel, rfl⟩ : ∃ f, fuel = f + 1 := ⟨fuel - 1, by omega⟩
    obtain ⟨-, ⟨content, lines, hread, hshows⟩, hup⟩ := hasc
    rw [userLoop, create_shows hread hshows, userBehind_cons]
    dsimp only [Option.getD_some]
    by_cases hroot : p.uid.1 = 0
    · rw [if_pos hroot]
      by_cases hinit : pid = 1
      · rw [if_pos hinit] at hup
        subst hup
        rw [if_neg (fun h => h.1 hinit), hroot]
        rfl
      · rw [if_neg hinit] at hup
        rw [if_pos ⟨hinit, hroot, hresolve⟩]
        exact ih (k + 1) p.ppid.1 _ fuel hup (by omega) hroot
    · rw [if_neg hroot, if_neg (fun h => hroot h.2.1)]

/-- **The loop**, by the processes it goes through. -/
theorem userLoop_ascends {reads : ℕ → ℤ → Option Bytes} (config : ReadUserInfoConfig) {pid : ℤ} {ps : List Process}
    (hasc : Ascends reads 0 pid ps) {fuel : ℕ} (hfuel : ps.length < fuel) :
    userLoop reads config fuel 0 pid none = some (infoOf config ps) := by
  obtain ⟨fuel, rfl⟩ : ∃ f, fuel = f + 1 := ⟨fuel - 1, by omega⟩
  cases ps with
  | nil => rw [userLoop, create_none hasc]; rfl
  | cons p ps =>
    obtain ⟨-, ⟨content, lines, hread, hshows⟩, hup⟩ := hasc
    rw [List.length_cons] at hfuel
    rw [userLoop, create_shows hread hshows, infoOf, userBehind_cons]
    dsimp only [Option.getD_none]
    by_cases hroot : p.uid.1 = 0
    · rw [if_pos hroot]
      by_cases hinit : pid = 1
      · rw [if_pos hinit] at hup
        subst hup
        rw [if_neg (fun h => h.1 hinit), hroot]
        cases config.resolveRootUser <;> rfl
      · rw [if_neg hinit] at hup
        cases hresolve : config.resolveRootUser with
        | false => rw [if_neg (fun h => by cases h.2.2)]; rfl
        | true =>
          rw [if_pos ⟨hinit, hroot, rfl⟩]
          exact userLoop_root hresolve ps 1 p.ppid.1 _ fuel hup (by omega) hroot
    · rw [if_neg hroot, if_neg (fun h => hroot h.2.1), ite_self]

section Usernames

variable {E : Type} (uidToUsername : ℕ → Except E Bytes)

/-- Both names are those of the users, also when one lookup serves for both. -/
theorem fetch_usernames (ruid euid : ℕ) :
    (do let r ← (⟨ruid, euid, [], []⟩ : ProcessUserInfo).getRealUsername uidToUsername
        let r ← r.2.getEffectiveUsername uidToUsername
        .ok (some r.2)) =
      (do let realUsername ← uidToUsername ruid
          let effectiveUsername ← uidToUsername euid
          .ok (some (⟨ruid, euid, realUsername, effectiveUsername⟩ : ProcessUserInfo)) : Except E (Option ProcessUserInfo)) := by
  rw [ProcessUserInfo.getRealUsername, if_pos rfl]
  cases hreal : uidToUsername ruid with
  | error e => rfl
  | ok name =>
    show (ProcessUserInfo.getEffectiveUsername uidToUsername ⟨ruid, euid, name, []⟩ >>= fun r => Except.ok (some r.2)) = _
    rw [ProcessUserInfo.getEffectiveUsername, if_pos rfl]
    by_cases heq : ruid = euid
    · subst heq
      rw [if_pos rfl]
      show _ = uidToUsername ruid >>= _
      rw [hreal, ProcessUserInfo.getRealUsername]
      split
      · rename_i hempty
        rw [hreal]
        rfl
      · rfl
    · rw [if_neg heq]
      show _ = uidToUsername euid >>= _
      cases uidToUsername euid <;> rfl

/-- **The user behind a process.** The effective user is that of the process, and the real one, if
it is asked for, that of the nearest process on the way up which is not run by root, each as it
is when it is read; and root if there is none. -/
theorem readUserInfo_ascends (reads : ℕ → ℤ → Option Bytes) (pid : ℤ) (config : ReadUserInfoConfig) (ps : List Process)
    (hasc : Ascends reads 0 pid ps) (fuel : ℕ) (hfuel : ps.length < fuel) :
    readUserInfo uidToUsername reads pid config fuel = some (
      match ps with
      | [] => .ok none
      | p :: ps => do
        let ruid := if config.resolveRootUser then userBehind (p :: ps) else p.uid.1
        if config.fetchUsernames then
          let realUsername ← uidToUsername ruid
          let effectiveUsername ← uidToUsername p.uid.1
          .ok (some ⟨ruid, p.uid.1, realUsername, effectiveUsername⟩)
        else .ok (some ⟨ruid, p.uid.1, [], []⟩)) := by
  rw [readUserInfo, userLoop_ascends config hasc hfuel, Option.map_some]
  cases ps with
  | nil => rfl
  | cons p ps =>
    refine congrArg some ?_
    cases hfetch : config.fetchUsernames with
    | false => simp only [infoOf, Bool.false_eq_true, if_false]
    | true =>
      simp only [infoOf, if_true]
      exact fetch_usernames uidToUsername _ p.uid.1

end Usernames

def statusOf (ppid uid : ℕ) : Bytes :=
  terminate 0x0A [[0x4E, 0x61, 0x6D, 0x65, 0x3A, 0x09, 0x61], entryPPid ++ ([0x09] ++ (decimal ppid ++ [])),
    entryUid ++ ([0x09] ++ (decimal uid ++ [0x09, 0x30]))]

/-- A shell under `sudo`. -/
def sudoShell (_ : ℕ) (pid : ℤ) : Option Bytes :=
  if pid = 12 then some (statusOf 11 0) else if pid = 11 then some (statusOf 10 0)
  else if pid = 10 then some (statusOf 1 1000) else if pid = 1 then some (statusOf 0 0) else none

theorem newline_notMem_decimal (n : ℕ) : (0x0A : UInt8) ∉ decimal n := by
  intro h
  cases isDigit_decimal h

/-- A status file for the example. -/
theorem statusOf_shows (pid : ℤ) (ppid : Fin 2147483648) (uid : Fin 4294967296) :
    Shows (statusOf ppid uid) ⟨pid, ppid, uid⟩ [[0x4E, 0x61, 0x6D, 0x65, 0x3A, 0x09, 0x61],
      entryPPid ++ ([0x09] ++ (decimal ppid ++ [])), entryUid ++ ([0x09] ++ (decimal uid ++ [0x09, 0x30]))] := by
  have hblank : ∀ b ∈ [(0x09 : UInt8)], isSpace b = true := by
    intro b hb
    rw [List.mem_singleton.1 hb]
    rfl
  refine ⟨rfl, fun line hline => ?_, ⟨[0x09], [0x09, 0x30], rfl, hblank, fun b hb => ?_⟩,
    ⟨[0x09], [], rfl, hblank, fun b hb => by cases hb⟩⟩
  · simp only [List.mem_cons, List.not_mem_nil, or_false] at hline
    rcases hline with rfl | rfl | rfl
    · decide
    · simp [entryPPid, newline_notMem_decimal]
    · simp [entryUid, newline_notMem_decimal]
  · obtain rfl := Option.some.inj hb
    rfl

theorem readUserInfo_sudo :
    readUserInfo (fun uid => (.ok [UInt8.ofNat uid] : Except Unit Bytes)) sudoShell 12 ⟨true, true⟩ 5 =
      some (.ok (some ⟨1000, 0, [0xE8], [0]⟩)) := by
  refine (readUserInfo_ascends _ sudoShell 12 ⟨true, true⟩ [⟨12, 11, 0⟩, ⟨11, 10, 0⟩, ⟨10, 1, 1000⟩, ⟨1, 0, 0⟩] ?_ 5
    (by decide)).trans rfl
  exact ⟨rfl, ⟨_, _, rfl, statusOf_shows 12 11 0⟩, rfl, ⟨_, _, rfl, statusOf_shows 11 10 0⟩,
    rfl, ⟨_, _, rfl, statusOf_shows 10 1 1000⟩, rfl, ⟨_, _, rfl, statusOf_shows 1 0 0⟩, rfl⟩

/-! ### The path of the command line -/

/-- The digits between the two texts, of which there are none for a negative pid. -/
def pidDigits (pid : ℤ) : Bytes := if 0 ≤ pid then decimal pid.toNat else []

theorem length_pidDigits {pid : ℤ} (hhi : pid ≤ 2147483647) : (pidDigits pid).length ≤ 10 := by
  unfold pidDigits
  split
  · exact length_decimalLoop_le 10 _ _ (by omega) (by decide)
  · exact Nat.zero_le _

/-- The digits hold no NUL. -/
theorem nul_notMem_pidDigits (pid : ℤ) : (0 : UInt8) ∉ pidDigits pid := by
  unfold pidDigits
  split
  · exact fun h => by cases isDigit_decimal h
  · exact List.not_mem_nil

/-- The digits of a pid fit into the buffer, and those of a negative one, which is a number of 20 digits
in 64 bits, do not. -/
theorem ToAsciiDecimal.Lawful.pid {toAsciiDecimal : ToAsciiDecimal} (hlawful : toAsciiDecimal.Lawful) (m : Memory)
    (out : ℕ) {pid : ℤ} (hlo : -2147483648 ≤ pid) (hhi : pid ≤ 2147483647) :
    (toAsciiDecimal m out (kProcPidCmdLineSize - 6) (pid % 18446744073709551616).toNat).2 = (pidDigits pid).length ∧
      (toAsciiDecimal m out (kProcPidCmdLineSize - 6) (pid % 18446744073709551616).toNat).1.HoldsAt out
        (pidDigits pid) := by
  unfold pidDigits
  by_cases hpos : 0 ≤ pid
  · have hmod : (pid % 18446744073709551616).toNat = pid.toNat := by omega
    have hlen : (decimal pid.toNat).length ≤ 10 := length_decimalLoop_le 10 _ _ (by omega) (by decide)
    rw [if_pos hpos, hmod]
    exact hlawful.fits m out _ _ (hlen.trans (by decide))
  · have hbig : 10 ^ 19 ≤ (pid % 18446744073709551616).toNat := by omega
    have hlen : kProcPidCmdLineSize - 6 < (decimal (pid % 18446744073709551616).toNat).length :=
      lt_length_decimalLoop 19 _ _ hbig (Nat.lt_succ_self _)
    rw [if_neg hpos, hlawful.full m out _ _ hlen]
    exact ⟨rfl, Memory.holdsAt_nil⟩

/-- What lies in the buffer: the two texts with the digits between them. -/
theorem getProcPidCmdLine_holdsAt {toAsciiDecimal : ToAsciiDecimal} (hlawful : toAsciiDecimal.Lawful) (m : Memory)
    (path : ℕ) {pid : ℤ} (hlo : -2147483648 ≤ pid) (hhi : pid ≤ 2147483647) :
    (getProcPidCmdLine toAsciiDecimal m path pid).HoldsAt path
      (slashProc ++ pidDigits pid ++ slashCmdline ++ [0]) := by
  obtain ⟨hcount, hdigits⟩ := hlawful.pid (m.memcpy path slashProc) (path + 6) hlo hhi
  have hproc : (m.memcpy path slashProc).HoldsAt path slashProc := Memory.holdsAt_memcpy _
  have hbefore : (slashProc ++ pidDigits pid).length = 6 + (pidDigits pid).length := List.length_append
  unfold getProcPidCmdLine
  dsimp only
  rw [hcount, List.append_assoc _ slashCmdline, Memory.holdsAt_append, hbefore, ← Nat.add_assoc]
  refine ⟨?_, Memory.holdsAt_memcpy _⟩
  -- the last copy is behind the digits, and those are behind the first one
  refine Memory.HoldsAt.congr (Memory.holdsAt_append.2 ⟨?_, hdigits⟩) ?_
  · refine hproc.congr fun x _ hx => ?_
    exact hlawful.outside _ _ _ _ x (Or.inl hx)
  · apply Memory.memcpy_agree
    rw [hbefore]
    omega

/-- Neither copy nor digits leave the buffer. -/
theorem getProcPidCmdLine_outside {toAsciiDecimal : ToAsciiDecimal} (hlawful : toAsciiDecimal.Lawful) (m : Memory)
    (path : ℕ) {pid : ℤ} (hlo : -2147483648 ≤ pid) (hhi : pid ≤ 2147483647) {x : ℕ}
    (hx : x < path ∨ path + kProcPidCmdLineSize ≤ x) : getProcPidCmdLine toAsciiDecimal m path pid x = m x := by
  obtain ⟨hcount, -⟩ := hlawful.pid (m.memcpy path slashProc) (path + 6) hlo hhi
  have hlen := length_pidDigits hhi
  have hproc : slashProc.length = 6 := rfl
  have hcmdline : (slashCmdline ++ [0]).length = 9 := rfl
  have hsize : kProcPidCmdLineSize = 25 := rfl
  unfold getProcPidCmdLine
  rw [hcount, Memory.memcpy_of_outside _ (by omega), hlawful.outside _ _ _ _ _ (by omega),
    Memory.memcpy_of_outside _ (by omega)]

/-- **The path names the process**, is terminated and stays in its buffer for every pid; for a
negative one it names no process. -/
theorem getProcPidCmdLine_path (toAsciiDecimal : ToAsciiDecimal) (hlawful : toAsciiDecimal.Lawful) (m : Memory)
    (path : ℕ) (pid : ℤ) (hlo : -2147483648 ≤ pid) (hhi : pid ≤ 2147483647) :
    (getProcPidCmdLine toAsciiDecimal m path pid).cstr kProcPidCmdLineSize path =
        some (slashProc ++ (if 0 ≤ pid then decimal pid.toNat else []) ++ slashCmdline) ∧
      ∀ x, x < path ∨ path + kProcPidCmdLineSize ≤ x → getProcPidCmdLine toAsciiDecimal m path pid x = m x := by
  refine ⟨Memory.cstr_eq_some (getProcPidCmdLine_holdsAt hlawful m path hlo hhi) ?_ ?_,
    fun x hx => getProcPidCmdLine_outside hlawful m path hlo hhi hx⟩
  · simp only [List.mem_append, not_or]
    exact ⟨⟨by decide, nul_notMem_pidDigits pid⟩, by decide⟩
  · have hlen := length_pidDigits hhi
    simp only [List.length_append]
    show 6 + (pidDigits pid).length + 8 < 25
    omega

/-- A function that does what is documented. -/
def asciiDecimal : ToAsciiDecimal := fun m out room v =>
  if (decimal v).length ≤ room then (m.memcpy out (decimal v), (decimal v).length) else (m, 0)

/-- It is one that the code may be linked with. -/
theorem asciiDecimal_lawful : asciiDecimal.Lawful := by
  refine ⟨fun m out room v hfits => ?_, fun m out room v hfull => if_neg (Nat.not_le.2 hfull), fun m out room v x hx => ?_⟩
  · rw [asciiDecimal, if_pos hfits]
    exact ⟨rfl, Memory.holdsAt_memcpy _⟩
  · unfold asciiDecimal
    split
    · rename_i hfits
      exact Memory.memcpy_of_outside _ (by omega)
    · rfl

theorem getProcPidCmdLine_path_max :
    (getProcPidCmdLine asciiDecimal (fun _ => 7) 100 2147483647).cstr kProcPidCmdLineSize 100 =
      some (slashProc ++ decimal 2147483647 ++ slashCmdline) ∧
      getProcPidCmdLine asciiDecimal (fun _ => 7) 100 2147483647 125 = 7 := by
  have h := getProcPidCmdLine_path asciiDecimal asciiDecimal_lawful (fun _ => 7) 100 2147483647 (by decide) (by decide)
  exact ⟨h.1, h.2 125 (by decide)⟩

end ProcStatus

end EdenCommon
