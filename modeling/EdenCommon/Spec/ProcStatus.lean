import EdenCommon.Lib.CString
import EdenCommon.Lib.Decimal
import EdenCommon.Spec.Utf8

/-!
# What `/proc` says about a process

`readUserInfo` of `ProcessInfo.cpp` on Linux, with the parser of `/proc/<pid>/status`, and
`getProcPidCmdLine`. `reads k pid` is what the `k`-th read finds in the file of `pid`, and no result
if it is not there: processes come and go between the reads. The names of users are a
parameter.

The digits in the path of `getProcPidCmdLine` are written by `folly/lang/ToAscii.h`, which is not part
of this repository: `ToAsciiDecimal` stands for it and `ToAsciiDecimal.Lawful` says what is documented
of it.
-/

namespace EdenCommon

open Lib

namespace ProcStatus

/-- The largest `pid_t` and `uid_t`. -/
def kPidMax : ℕ := 2147483647
def kUidMax : ℕ := 4294967295

/-- `std::isspace` in the classic locale. -/
def isSpace (b : UInt8) : Bool := b == 0x20 || (0x09 ≤ b && b ≤ 0x0D)

/-! ### A line -/

/-- The sign, if it is a minus, and the magnitude of the number that `>>` finds. -/
def readNumber (s : Bytes) : Option (Bool × ℕ) :=
  let s := s.dropWhile isSpace
  let minus := s.head? = some 0x2D
  let s := if minus ∨ s.head? = some 0x2B then s.tail else s
  let digits := s.takeWhile isDigit
  if digits = [] then none else some (minus, ofDecimal digits)

/-- `iss >> val` for a `pid_t`. A number that does not fit fails. -/
def readPid (s : Bytes) : Option ℤ :=
  match readNumber s with
  | none => none
  | some (true, n) => if n ≤ kPidMax + 1 then some (-n) else none
  | some (false, n) => if n ≤ kPidMax then some n else none

/-- `iss >> val` for a `uid_t`, which takes a minus too. -/
def readUid (s : Bytes) : Option ℕ :=
  match readNumber s with
  | none => none
  | some (minus, n) => if n ≤ kUidMax then some (if minus then (kUidMax + 1 - n) % (kUidMax + 1) else n) else none

def parseStatusLine {T : Type} (read : Bytes → Option T) (line entry : Bytes) : Option T :=
  if entry.isPrefixOf line then read (line.drop entry.length) else none

/-- `"Uid:"` and `"PPid:"`. -/
def entryUid : Bytes := [0x55, 0x69, 0x64, 0x3A]
def entryPPid : Bytes := [0x50, 0x50, 0x69, 0x64, 0x3A]

/-! ### The file -/

/-- What `std::getline` finds, line by line. -/
def getlines (content : Bytes) : List Bytes :=
  let lines := content.splitOnP (· == 0x0A)
  if lines.getLast? = some [] then lines.dropLast else lines

structure StatusInfo where
  pid : ℤ
  ppid : ℤ
  uid : ℕ
  deriving DecidableEq, Repr

/-- The loop of `StatusInfo::create` with what was found so far. -/
def statusLoop (pid : ℤ) : List Bytes → Option ℕ → Option ℤ → Option StatusInfo
  | [], _, _ => none
  | line :: lines, uid, ppid =>
    let uid := uid <|> parseStatusLine readUid line entryUid
    let ppid := ppid <|> parseStatusLine readPid line entryPPid
    match uid, ppid with
    | some uid, some ppid => some ⟨pid, ppid, uid⟩
    | _, _ => statusLoop pid lines uid ppid

/-- A file that cannot be opened has no lines. -/
def StatusInfo.create (reads : ℤ → Option Bytes) (pid : ℤ) : Option StatusInfo :=
  statusLoop pid ((reads pid).elim [] getlines) none none

/-! ### The processes -/

structure ReadUserInfoConfig where
  resolveRootUser : Bool
  fetchUsernames : Bool
  deriving DecidableEq, Repr

structure ProcessUserInfo where
  ruid : ℕ
  euid : ℕ
  realUsername_ : Bytes
  effectiveUsername_ : Bytes
  deriving DecidableEq, Repr

section Usernames

variable {E : Type} (uidToUsername : ℕ → Except E Bytes)

def ProcessUserInfo.getRealUsername (info : ProcessUserInfo) : Except E (Bytes × ProcessUserInfo) :=
  if info.realUsername_ = [] then
    (uidToUsername info.ruid).map fun name => (name, { info with realUsername_ := name })
  else .ok (info.realUsername_, info)

def ProcessUserInfo.getEffectiveUsername (info : ProcessUserInfo) : Except E (Bytes × ProcessUserInfo) :=
  if info.effectiveUsername_ = [] then
    if info.ruid = info.euid then
      (info.getRealUsername uidToUsername).map fun r => (r.1, { r.2 with effectiveUsername_ := r.1 })
    else (uidToUsername info.euid).map fun name => (name, { info with effectiveUsername_ := name })
  else .ok (info.effectiveUsername_, info)

/-- The loop of `readUserInfo` in front of the `k`-th read. -/
def userLoop (reads : ℕ → ℤ → Option Bytes) (config : ReadUserInfoConfig) :
    ℕ → ℕ → ℤ → Option ProcessUserInfo → Option (Option ProcessUserInfo)
  | 0, _, _, _ => none
  | fuel + 1, k, pid, userInfo =>
    match StatusInfo.create (reads k) pid with
    | none => some userInfo
    | some status =>
      let userInfo := { userInfo.getD ⟨status.uid, status.uid, [], []⟩ with ruid := status.uid }
      if status.pid ≠ 1 ∧ status.uid = 0 ∧ config.resolveRootUser then
        userLoop reads config fuel (k + 1) status.ppid (some userInfo)
      else some (some userInfo)

/-- `readUserInfo`; no result when the turns are used up. -/
def readUserInfo (reads : ℕ → ℤ → Option Bytes) (pid : ℤ) (config : ReadUserInfoConfig) (fuel : ℕ) :
    Option (Except E (Option ProcessUserInfo)) :=
  (userLoop reads config fuel 0 pid none).map fun userInfo =>
    match userInfo with
    | none => .ok none
    | some info =>
      if config.fetchUsernames then do
        let r ← info.getRealUsername uidToUsername
        let r ← r.2.getEffectiveUsername uidToUsername
        .ok (some r.2)
      else .ok (some info)

end Usernames

/-! ### What the kernel shows -/

/-- A process at the time when its status is read. -/
structure Process where
  pid : ℤ
  ppid : Fin 2147483648
  uid : Fin 4294967296
  deriving DecidableEq, Repr

/-- The first line for an entry has the number behind blanks. -/
def HasEntry (lines : List Bytes) (entry : Bytes) (n : ℕ) : Prop :=
  ∃ blanks rest, lines.find? entry.isPrefixOf = some (entry ++ (blanks ++ (decimal n ++ rest))) ∧
    (∀ b ∈ blanks, isSpace b = true) ∧ ∀ b ∈ rest.head?, isDigit b = false

/-- The status file of a process, whatever its other lines are. -/
structure Shows (content : Bytes) (p : Process) (lines : List Bytes) : Prop where
  content : content = terminate 0x0A lines
  cut : ∀ line ∈ lines, (0x0A : UInt8) ∉ line
  uid : HasEntry lines entryUid p.uid
  ppid : HasEntry lines entryPPid p.ppid

/-- The process `pid` and those above it, each as it is when it is read, up to `init` or to one that
cannot be read. -/
def Ascends (reads : ℕ → ℤ → Option Bytes) : ℕ → ℤ → List Process → Prop
  | k, pid, [] => reads k pid = none
  | k, pid, p :: ps => p.pid = pid ∧ (∃ content lines, reads k pid = some content ∧ Shows content p lines) ∧
    if pid = 1 then ps = [] else Ascends reads (k + 1) p.ppid ps

/-- The user behind a process: the nearest one on the way up that is not root. -/
def userBehind (ps : List Process) : ℕ := ((ps.map fun p => p.uid.1).find? (· ≠ 0)).getD 0

/-! ### `getProcPidCmdLine` -/

/-- `sizeof(ProcPidCmdLine)`. -/
def kProcPidCmdLineSize : ℕ := 25

def slashProc : Bytes := [0x2F, 0x70, 0x72, 0x6F, 0x63, 0x2F]
def slashCmdline : Bytes := [0x2F, 0x63, 0x6D, 0x64, 0x6C, 0x69, 0x6E, 0x65]

/-- `folly::to_ascii_decimal(out, out + room, v)`: the memory behind it, and the number of digits. -/
abbrev ToAsciiDecimal := Memory → (out room v : ℕ) → Memory × ℕ

/-- The digits of the number are written if there is room for them, and nothing otherwise. -/
structure ToAsciiDecimal.Lawful (toAsciiDecimal : ToAsciiDecimal) : Prop where
  fits : ∀ m out room v, (decimal v).length ≤ room →
    (toAsciiDecimal m out room v).2 = (decimal v).length ∧ (toAsciiDecimal m out room v).1.HoldsAt out (decimal v)
  full : ∀ m out room v, room < (decimal v).length → toAsciiDecimal m out room v = (m, 0)
  /-- It writes nothing outside of its range. -/
  outside : ∀ m out room v x, x < out ∨ out + room ≤ x → (toAsciiDecimal m out room v).1 x = m x

/-- `getProcPidCmdLine` with `path` at an address. The pid is converted to 64 bits. -/
def getProcPidCmdLine (toAsciiDecimal : ToAsciiDecimal) (m : Memory) (path : ℕ) (pid : ℤ) : Memory :=
  let m := m.memcpy path slashProc
  let r := toAsciiDecimal m (path + 6) (kProcPidCmdLineSize - 6) (pid % 18446744073709551616).toNat
  r.1.memcpy (path + 6 + r.2) (slashCmdline ++ [0])

end ProcStatus

end EdenCommon
