import Mathlib
import EdenCommon.Lib.Credentials
import EdenCommon.Spec.Canonical

/-!
# `UserInfo` and `EffectiveUserScope`

`lookup`, `dropPrivileges` and the scopes of `UserInfo.cpp` on POSIX systems. The user
database, `folly::to` and the failures of calls for other reasons than permission are
parameters. `uid_t` and `gid_t` have 32 bits, and `-1` is not an id. The destructor of a
scope is `noexcept`, so an exception in it ends the process; one in the constructor leaves no scope
behind, and a group id that is set already stays.

`Body` is a program that opens scopes in scopes. It records in front of every action which
scope it is in and what the credentials are.
-/

namespace EdenCommon

open Lib

namespace UserInfo

scoped instance neZero_id : NeZero 4294967295 := ⟨by decide⟩

scoped instance neZero_uid_t : NeZero 4294967296 := ⟨by decide⟩

/-- A user or group id that a process can have. -/
abbrev Id := Fin 4294967295

abbrev uid_t := Fin 4294967296

def Id.uid (i : Id) : uid_t := ⟨i.1, Nat.lt_succ_of_lt i.2⟩

/-- What a call takes `u` for; `none` is `-1`. -/
def uid_t.arg (u : uid_t) : Option Id := if h : u.1 < 4294967295 then some ⟨u.1, h⟩ else none

inductive Failure
  /-- `checkUnixError` or `throwSystemError` with this text. -/
  | systemError (what : String) (uid : Option uid_t)
  | runtimeError (what : String) (value : Bytes)
  | path (e : PathError)
  deriving DecidableEq, Repr

/-- `struct passwd`, as far as it is read. -/
structure Passwd where
  pw_name : Bytes
  pw_dir : Option Bytes
  deriving DecidableEq, Repr

inductive Errno
  | EPERM
  | ERANGE
  | other (errnum : ℕ)
  deriving DecidableEq, Repr

inductive SysCall
  | initgroups
  | setregid
  | setreuid
  | prctl
  deriving DecidableEq, Repr

structure System where
  P : Platform
  getcwd : Except PathError AbsolutePath
  /-- `getpwuid_r` with a buffer of the given size. -/
  getpwuid_r : uid_t → ℕ → Except Errno (Option Passwd)
  /-- The groups that `initgroups` finds. -/
  getgrouplist : Bytes → uid_t → List Id
  /-- `folly::to<uid_t>`; no result is a `std::range_error`. -/
  toUid : Bytes → Option uid_t
  /-- A failure that is not for want of permission. -/
  fails : SysCall → Option Errno

/-- `setregid` and `setreuid` fail only for want of permission. -/
def System.Reliable (sys : System) : Prop := sys.fails .setregid = none ∧ sys.fails .setreuid = none

instance (sys : System) : Decidable sys.Reliable := inferInstanceAs (Decidable (_ ∧ _))

structure Process where
  credentials : Credentials Id
  environ : List (String × Bytes)
  dumpable : Bool
  deriving DecidableEq, Repr

namespace Process

def getuid (p : Process) : uid_t := p.credentials.user.real.uid

def geteuid (p : Process) : uid_t := p.credentials.user.effective.uid

def getgid (p : Process) : uid_t := p.credentials.group.real.uid

def getegid (p : Process) : uid_t := p.credentials.group.effective.uid

def getenv (p : Process) (name : String) : Option Bytes := p.environ.lookup name

/-- `setenv(name, value, 1)`. -/
def setenv (p : Process) (name : String) (value : Bytes) : Process :=
  { p with environ := (name, value) :: p.environ.filter fun e => e.1 ≠ name }

def unsetenv (p : Process) (name : String) : Process :=
  { p with environ := p.environ.filter fun e => e.1 ≠ name }

/-- The credentials after a call. A change of the effective ids clears the dumpable bit. -/
def withCredentials (p : Process) (c : Credentials Id) : Process :=
  { p with
    credentials := c
    dumpable := p.dumpable && c.user.effective = p.credentials.user.effective &&
      c.group.effective = p.credentials.group.effective }

def call (p : Process) (k : CredentialCall Id) : Option Process := (p.credentials.call k).map p.withCredentials

def setreuid (ruid euid : uid_t) (p : Process) : Option Process := p.call (.user (.setre ruid.arg euid.arg))

def setregid (rgid egid : uid_t) (p : Process) : Option Process := p.call (.group (.setre rgid.arg egid.arg))

end Process

end UserInfo

open UserInfo

structure UserInfo where
  uid_ : uid_t
  gid_ : uid_t
  username_ : Bytes
  homeDirectory_ : AbsolutePath
  deriving DecidableEq, Repr

namespace UserInfo

/-! ### `lookup` -/

def initialBufSize : ℕ := 1024
def maxBufSize : ℕ := 8192

/-- The loop of `getPasswdUid`. -/
def getPasswdUidLoop (sys : System) (uid : uid_t) (size : ℕ) (hsize : 0 < size) : Except Failure (Option Passwd) :=
  match sys.getpwuid_r uid size with
  | .ok result => .ok result
  | .error errnum =>
    if h : errnum = .ERANGE ∧ size < maxBufSize then
      -- retry with a bigger buffer
      getPasswdUidLoop sys uid (size * 2) (by omega)
    else .error (.systemError "unable to look up user information for UID " uid)
  termination_by maxBufSize - size

def getPasswdUid (sys : System) (uid : uid_t) : Except Failure Passwd := do
  match ← getPasswdUidLoop sys uid initialBufSize (by decide) with
  | some pwd => pure pwd
  | none => throw (.systemError "no passwd entry found for UID " uid)

def canonicalHome (sys : System) (dir : Bytes) : Except Failure AbsolutePath :=
  (canonicalPath sys.P sys.getcwd dir).mapError .path

/-- `initHomedir(pwd)`, which gives the home directory. -/
def initHomedir (sys : System) (p : Process) (uid : uid_t) (pwd : Option Passwd) : Except Failure AbsolutePath :=
  match p.getenv "HOME" with
  | some homeEnv => canonicalHome sys homeEnv
  | none => do
    let pwd ← match pwd with
      | some pwd => pure pwd
      | none => getPasswdUid sys uid
    match pwd.pw_dir with
    | some dir => canonicalHome sys dir
    | none => pure (.root sys.P)

def parseSudo (sys : System) (what : String) (value : Bytes) : Except Failure uid_t :=
  match sys.toUid value with
  | some id => .ok id
  | none => .error (.runtimeError what value)

/-- `initFromSudo`; no result is the return value `false`. -/
def initFromSudo (sys : System) (p : Process) : Except Failure (Option UserInfo) :=
  match p.getenv "SUDO_UID" with
  | none => .ok none
  | some uidText =>
    match p.getenv "SUDO_GID" with
    | none => .error (.runtimeError "SUDO_UID set without SUDO_GID" [])
    | some gidText =>
      match p.getenv "SUDO_USER" with
      | none => .error (.runtimeError "SUDO_UID set without SUDO_USER" [])
      | some name => do
        let uid ← parseSudo sys "invalid value for SUDO_UID: " uidText
        let gid ← parseSudo sys "invalid value for SUDO_GID: " gidText
        let dir ← initHomedir sys p uid none
        pure (some ⟨uid, gid, name, dir⟩)

/-- The fields from the passwd entry of `uid`, with the real group id. -/
def initFromPasswd (sys : System) (p : Process) (uid : uid_t) : Except Failure UserInfo := do
  let pwd ← getPasswdUid sys uid
  let dir ← initHomedir sys p uid (some pwd)
  pure ⟨uid, p.getgid, pwd.pw_name, dir⟩

def initFromNonRoot (sys : System) (p : Process) (uid : uid_t) : Except Failure UserInfo := initFromPasswd sys p uid

def lookup (sys : System) (p : Process) : Except Failure UserInfo :=
  if p.getuid ≠ 0 then initFromNonRoot sys p p.getuid
  else do
    match ← initFromSudo sys p with
    | some info => pure info
    | none => initFromPasswd sys p p.getuid

/-! ### `dropPrivileges` -/

/-- `checkUnixError` around a call. -/
def checked (what : String) (fails : Option Errno) (f : Process → Option Process) : EStateM Failure Process Unit :=
  fun p =>
    match fails with
    | some _ => .error (.systemError what none) p
    | none =>
      match f p with
      | some p' => .ok () p'
      | none => .error (.systemError what none) p

def initgroups (sys : System) (name : Bytes) (gid : uid_t) (p : Process) : Option Process :=
  p.call (.setgroups (sys.getgrouplist name gid))

def restoreEnvironmentAfterSudo (info : UserInfo) (p : Process) : Process :=
  if p.getenv "SUDO_UID" = none then p
  else
    let p := ((p.setenv "USER" info.username_).setenv "USERNAME" info.username_).setenv "LOGNAME" info.username_
    (((p.unsetenv "SUDO_USER").unsetenv "SUDO_UID").unsetenv "SUDO_GID").unsetenv "SUDO_COMMAND"

/-- There is nothing to drop. -/
def isDropped (info : UserInfo) (p : Process) : Bool :=
  info.uid_ = p.getuid && info.uid_ = p.geteuid && info.gid_ = p.getgid && info.gid_ = p.getegid

def dropPrivileges (sys : System) (info : UserInfo) : EStateM Failure Process Unit := do
  let p ← get
  if isDropped info p then return
  checked "failed to set supplementary groups" (sys.fails .initgroups) (initgroups sys info.username_ info.gid_)
  checked "failed to drop group privileges" (sys.fails .setregid) (Process.setregid info.gid_ info.gid_)
  checked "failed to drop user privileges" (sys.fails .setreuid) (Process.setreuid info.uid_ info.uid_)
  checked "failed to mark process dumpable" (sys.fails .prctl) fun p => some { p with dumpable := true }
  modify (restoreEnvironmentAfterSudo info)

end UserInfo

/-! ### `EffectiveUserScope` -/

structure EffectiveUserScope where
  ruid_ : uid_t
  euid_ : uid_t
  rgid_ : uid_t
  egid_ : uid_t
  deriving DecidableEq, Repr

/-- The ids of a program that starts with the privileges of root: `execve` copies the
effective ids to the saved ones. -/
structure Started (c : Credentials Id) : Prop where
  root : c.user.effective = 0
  user : c.user.saved = c.user.effective
  group : c.group.saved = c.group.effective

namespace EffectiveUserScope

/-- The constructor. -/
def construct (sys : System) (info : UserInfo) : EStateM Failure Process EffectiveUserScope := do
  let p ← get
  checked "setregid() failed in EffectiveUserScope()" (sys.fails .setregid) (Process.setregid info.gid_ info.gid_)
  checked "setreuid() failed in EffectiveUserScope()" (sys.fails .setreuid) (Process.setreuid 0 info.uid_)
  return ⟨p.getuid, p.geteuid, p.getgid, p.getegid⟩

/-- The destructor. -/
def destroy (sys : System) (scope : EffectiveUserScope) : EStateM Failure Process Unit := do
  checked "setreuid() failed in ~EffectiveUserScope()" (sys.fails .setreuid) (Process.setreuid scope.ruid_ scope.euid_)
  checked "setregid() failed in ~EffectiveUserScope()" (sys.fails .setregid) (Process.setregid scope.rgid_ scope.egid_)

/-- What runs before the privileges are dropped. -/
inductive Body
  | done
  | throws
  | action (rest : Body)
  | scope (info : UserInfo) (inner rest : Body)

inductive Exit
  | returned
  | threw
  | terminated
  deriving DecidableEq, Repr

/-- How a body ends, in which state, and what its actions have seen. -/
structure Ran where
  exit : Exit
  process : Process
  seen : List (Option UserInfo × Credentials Id)

/-- `b` in the scope of `current`. -/
def Body.run (sys : System) (current : Option UserInfo) : Body → Process → Ran
  | .done, p => ⟨.returned, p, []⟩
  | .throws, p => ⟨.threw, p, []⟩
  | .action rest, p =>
    let r := rest.run sys current p
    { r with seen := (current, p.credentials) :: r.seen }
  | .scope info inner rest, p =>
    match construct sys info p with
    | .error _ p => ⟨.threw, p, []⟩
    | .ok entered p =>
      let r := inner.run sys (some info) p
      if r.exit = .terminated then r
      else
        match entered.destroy sys r.process with
        | .error _ p => ⟨.terminated, p, r.seen⟩
        | .ok _ p =>
          if r.exit = .threw then ⟨.threw, p, r.seen⟩
          else
            let r' := rest.run sys current p
            { r' with seen := r.seen ++ r'.seen }

/-- The users of all scopes. -/
def Body.users : Body → List UserInfo
  | .done => []
  | .throws => []
  | .action rest => rest.users
  | .scope info inner rest => info :: (inner.users ++ rest.users)

/-- The users of the outermost scopes. -/
def Body.outermost : Body → List UserInfo
  | .done => []
  | .throws => []
  | .action rest => rest.outermost
  | .scope info _ rest => info :: rest.outermost

end EffectiveUserScope

end EdenCommon
