import EdenCommon.Lib.Run
import EdenCommon.Lib.Terminates
import EdenCommon.Spec.ThreadedCommunicate
import Mathlib.Tactic.ByContra

/-!
# `threadedCommunicate` ends with what the child wrote

A thread reads each output while the main thread writes, so a child that waits for room in an
output is served, and one that waits for input gets it or finds the end. Hence some thread or
the child can always go on (`Inv.can_step`); what each of them does goes down in an order of
its own (`no_infinite`); and a reader that has found the end has all that was written.
-/

namespace EdenCommon

namespace ThreadedCommunicate

open Lib

variable {capacity : ℕ} {s s' : Sys}

/-! ### The invariant -/

/-- A reader has what was written, apart from what is in the pipe. -/
def Stream : Option (Pipe UInt8) → Reader → Bytes → Prop
  | some pipe, .reading result, written => written = result ++ pipe.data
  | some pipe, .fulfilled result, written => written = result ∧ pipe.data = [] ∧ pipe.writeEnd = false
  | none, .reading _, _ => False
  | none, .fulfilled result, written => result = [] ∧ written = []

/-- What the main thread has done and got so far. -/
def MainOk (s : Sys) : Main → Prop
  | .callback _ => s.stdin.isSome
  | .writing _ _ _ => s.stdin.isSome
  | .close => True
  | .getOut => ∀ pipe, s.stdin = some pipe → pipe.writeEnd = false
  | .getErr out => (∀ pipe, s.stdin = some pipe → pipe.writeEnd = false) ∧ s.readers .stdout = .fulfilled out
  | .returned out err => s.readers .stdout = .fulfilled out ∧ s.readers .stderr = .fulfilled err

structure Inv (s : Sys) : Prop where
  streams : ∀ fd, Stream (s.pipes fd) (s.readers fd) (s.written fd)
  exitedOut : s.child = none → ∀ fd pipe, s.pipes fd = some pipe → pipe.writeEnd = false
  exitedIn : s.child = none → ∀ pipe, s.stdin = some pipe → pipe.readEnd = false
  main : MainOk s s.main

theorem inv_start (stdin : Bool) (pipes : Out → Bool) (callback : Callback) (child : Child) :
    Inv (start stdin pipes callback child) := by
  refine ⟨fun fd => ?_, fun h => (by cases h), fun h => (by cases h), ?_⟩
  · simp only [start]
    cases pipes fd with
    | true => exact rfl
    | false => exact ⟨rfl, rfl⟩
  · cases stdin with
    | true => exact rfl
    | false => exact fun pipe h => by cases h

/-- A fulfilled promise stays as it is. -/
theorem MainOk.congr {m : Main} (h : MainOk s m) (hstdin : s'.stdin = s.stdin)
    (hreaders : ∀ fd result, s.readers fd = .fulfilled result → s'.readers fd = .fulfilled result) : MainOk s' m := by
  cases m with
  | callback next => rw [MainOk, hstdin]; exact h
  | writing data n next => rw [MainOk, hstdin]; exact h
  | close => trivial
  | getOut => rw [MainOk, hstdin]; exact h
  | getErr out => exact ⟨by rw [hstdin]; exact h.1, hreaders _ _ h.2⟩
  | returned out err => exact ⟨hreaders _ _ h.1, hreaders _ _ h.2⟩

/-- A reader takes from its pipe what it puts into its output, or ends behind the last byte. -/
theorem Inv.reader (hinv : Inv s) {fd : Out} (h : stepReader s fd = some s') : Inv s' := by
  unfold stepReader at h
  split at h
  · rename_i result pipe hreader hpipe
    have hstream := hinv.streams fd
    rw [hpipe, hreader] at hstream
    have hkeep : ∀ reader fd' r, s.readers fd' = .fulfilled r →
        Function.update s.readers fd reader fd' = .fulfilled r := by
      intro reader fd' r hr
      by_cases hfd : fd' = fd
      · rw [hfd, hreader] at hr
        cases hr
      · rwa [Function.update_of_ne hfd]
    split at h
    · cases h
    · rename_i pipe' hread
      cases h
      obtain ⟨hdata, hclosed, -⟩ := Pipe.read_end (by decide) hread
      refine ⟨fun fd' => ?_, hinv.exitedOut, hinv.exitedIn, hinv.main.congr rfl (hkeep _)⟩
      by_cases hfd : fd' = fd
      · subst hfd
        dsimp only
        rw [hpipe, Function.update_self]
        rw [Stream, hdata, List.append_nil] at hstream
        exact ⟨hstream, hdata, hclosed⟩
      · dsimp only
        rw [Function.update_of_ne hfd]
        exact hinv.streams fd'
    · rename_i x pipe' hne hread
      cases h
      obtain ⟨hdata, -, hwrite⟩ := Pipe.read_eq_some hread
      refine ⟨fun fd' => ?_, fun hexit fd' p hp => ?_, hinv.exitedIn, hinv.main.congr rfl (hkeep _)⟩
      · by_cases hfd : fd' = fd
        · subst hfd
          dsimp only
          rw [Function.update_self, Function.update_self]
          rw [Stream, hdata] at hstream
          rw [Stream, hstream, List.append_assoc]
        · dsimp only
          rw [Function.update_of_ne hfd, Function.update_of_ne hfd]
          exact hinv.streams fd'
      · dsimp only at hp
        by_cases hfd : fd' = fd
        · subst hfd
          rw [Function.update_self] at hp
          cases hp
          rw [hwrite]
          exact hinv.exitedOut hexit fd' pipe hpipe
        · rw [Function.update_of_ne hfd] at hp
          exact hinv.exitedOut hexit fd' p hp
  · cases h

/-- The main thread leaves the outputs and the child alone. -/
theorem Inv.of_main (hinv : Inv s) {stdin : Option (Pipe UInt8)} {main : Main}
    (hread : ∀ p', stdin = some p' → ∃ p, s.stdin = some p ∧ p'.readEnd = p.readEnd)
    (hmain : MainOk { s with stdin := stdin, main := main } main) : Inv { s with stdin := stdin, main := main } := by
  refine ⟨hinv.streams, hinv.exitedOut, fun hexit p' hp' => ?_, hmain⟩
  obtain ⟨p, hp, heq⟩ := hread p' hp'
  rw [heq]
  exact hinv.exitedIn hexit p hp

/-- **The main thread** writes, closes `stdin` and waits for the readers, one after the other. -/
theorem Inv.mainStep (hinv : Inv s) (h : stepMain capacity s = some s') : Inv s' := by
  have hmain := hinv.main
  have hsame : ∀ p', s.stdin = some p' → ∃ p, s.stdin = some p ∧ p'.readEnd = p.readEnd := fun p' hp' => ⟨p', hp', rfl⟩
  unfold stepMain at h
  split at h
  all_goals
    rename_i hm
    rw [hm] at hmain
  · cases h
    exact hinv.of_main hsame trivial
  · cases h
    exact hinv.of_main hsame hmain
  · cases h
    exact hinv.of_main hsame hmain
  · cases h
    exact hinv.of_main hsame hmain
  · split at h
    · cases h
    · rename_i pipe hpipe
      split at h
      · obtain ⟨r, hpush, rfl⟩ := Option.map_eq_some_iff.1 h
        obtain ⟨-, hread, -⟩ := Pipe.push_eq_some hpush
        refine hinv.of_main (fun p' hp' => ⟨pipe, hpipe, ?_⟩) rfl
        cases hp'
        exact hread
      · cases h
        exact hinv.of_main hsame hmain
  · cases h
    refine hinv.of_main (fun p' hp' => ?_) fun p' hp' => ?_
    · obtain ⟨p, hp, rfl⟩ := Option.map_eq_some_iff.1 hp'
      exact ⟨p, hp, rfl⟩
    · obtain ⟨p, hp, rfl⟩ := Option.map_eq_some_iff.1 hp'
      rfl
  · split at h
    · rename_i out hout
      cases h
      exact hinv.of_main hsame ⟨hmain, hout⟩
    · cases h
  · split at h
    · rename_i err herr
      cases h
      exact hinv.of_main hsame ⟨hmain.2, herr⟩
    · cases h
  · cases h

/-- Closing an output leaves what is in the pipe. -/
theorem Stream.close {pipe : Option (Pipe UInt8)} {reader : Reader} {written : Bytes} (h : Stream pipe reader written) :
    Stream (pipe.map fun p => { p with writeEnd := false }) reader written := by
  cases pipe with
  | none => exact h
  | some pipe =>
    cases reader with
    | reading result => exact h
    | fulfilled result => exact ⟨h.1, h.2.1, rfl⟩

/-- A pipe that the child closes still holds what it has put into it. -/
theorem streams_closeOut (h : ∀ fd, Stream (s.pipes fd) (s.readers fd) (s.written fd)) (fd : Out) :
    ∀ fd', Stream ((s.closeOut fd).pipes fd') (s.readers fd') (s.written fd') := by
  intro fd'
  unfold Sys.closeOut
  by_cases hfd : fd' = fd
  · subst hfd
    dsimp only
    rw [Function.update_self]
    exact (h fd').close
  · dsimp only
    rw [Function.update_of_ne hfd]
    exact h fd'

/-- Closing one end changes no other pipe. -/
theorem closeOut_pipe {fd fd' : Out} {p : Pipe UInt8} (h : (s.closeOut fd).pipes fd' = some p) :
    ∃ q, s.pipes fd' = some q ∧ (fd' = fd → p.writeEnd = false) ∧ (fd' ≠ fd → p.writeEnd = q.writeEnd) := by
  unfold Sys.closeOut at h
  dsimp only at h
  by_cases hfd : fd' = fd
  · subst hfd
    rw [Function.update_self] at h
    obtain ⟨q, hq, rfl⟩ := Option.map_eq_some_iff.1 h
    exact ⟨q, hq, fun _ => rfl, fun hne => absurd rfl hne⟩
  · rw [Function.update_of_ne hfd] at h
    exact ⟨p, h, fun heq => absurd heq hfd, fun _ => rfl⟩

/-- The child changes the reading end of its input alone. -/
theorem MainOk.stdin {m : Main} (h : MainOk s m) (hreaders : s'.readers = s.readers)
    (hstdin : s'.stdin = s.stdin ∨ ∃ p p', s.stdin = some p ∧ s'.stdin = some p' ∧ p'.writeEnd = p.writeEnd) :
    MainOk s' m := by
  have hsome : s.stdin.isSome → s'.stdin.isSome := by
    intro hs
    obtain hsame | ⟨p, p', -, hp', -⟩ := hstdin
    · rw [hsame]
      exact hs
    · rw [hp']
      rfl
  have hclosed : (∀ p, s.stdin = some p → p.writeEnd = false) → ∀ p, s'.stdin = some p → p.writeEnd = false := by
    intro hall p hp
    obtain hsame | ⟨q, q', hq, hq', heq⟩ := hstdin
    · exact hall p (hsame ▸ hp)
    · rw [hq'] at hp
      cases hp
      rw [heq]
      exact hall q hq
  cases m with
  | callback next => exact hsome h
  | writing data n next => exact hsome h
  | close => trivial
  | getOut => exact hclosed h
  | getErr out => exact ⟨hclosed h.1, by rw [hreaders]; exact h.2⟩
  | returned out err => rw [MainOk, hreaders]; exact h

theorem closeIn_stdin (s : Sys) : s.closeIn.stdin = s.stdin ∨
    ∃ p p', s.stdin = some p ∧ s.closeIn.stdin = some p' ∧ p'.writeEnd = p.writeEnd := by
  cases h : s.stdin with
  | none => exact Or.inl (by rw [Sys.closeIn, h]; rfl)
  | some p => exact Or.inr ⟨p, { p with readEnd := false }, rfl, by rw [Sys.closeIn, h]; rfl, rfl⟩

/-- **The child** adds to what it has written what it puts into a pipe. -/
theorem Inv.childStep (hinv : Inv s) (h : stepChild capacity s = some s') : Inv s' := by
  unfold stepChild at h
  split at h
  · cases h
  · -- the child exits, and all its ends are closed
    cases h
    refine ⟨?_, fun _ fd p hp => ?_, fun _ p hp => ?_, ?_⟩
    · exact streams_closeOut (s := s.closeOut .stdout) (streams_closeOut hinv.streams .stdout) .stderr
    · obtain ⟨q, hq, hclosed⟩ := closeOut_pipe (s := s.closeOut .stdout) hp
      obtain ⟨q', -, hclosed'⟩ := closeOut_pipe hq
      cases fd with
      | stdout => exact (hclosed.2 (by decide)).trans (hclosed'.1 rfl)
      | stderr => exact hclosed.1 rfl
    · obtain ⟨q, -, rfl⟩ := Option.map_eq_some_iff.1 hp
      rfl
    · exact hinv.main.stdin rfl (closeIn_stdin s)
  · cases h
    exact ⟨streams_closeOut hinv.streams _, fun h => (by cases h), fun h => (by cases h),
      hinv.main.stdin rfl (Or.inl rfl)⟩
  · cases h
    exact ⟨hinv.streams, fun h => (by cases h), fun h => (by cases h), hinv.main.stdin rfl (closeIn_stdin s)⟩
  · split at h
    · cases h
      exact ⟨hinv.streams, fun h => (by cases h), fun h => (by cases h), hinv.main.stdin rfl (Or.inl rfl)⟩
    · rename_i pipe hpipe
      split at h
      · obtain ⟨r, hread, rfl⟩ := Option.map_eq_some_iff.1 h
        obtain ⟨-, -, hwrite⟩ := Pipe.read_eq_some hread
        exact ⟨hinv.streams, fun h => (by cases h), fun h => (by cases h),
          hinv.main.stdin rfl (Or.inr ⟨pipe, r.2, hpipe, rfl, hwrite⟩)⟩
      · cases h
        exact ⟨hinv.streams, fun h => (by cases h), fun h => (by cases h), hinv.main.stdin rfl (Or.inl rfl)⟩
  · cases h
    exact ⟨hinv.streams, fun h => (by cases h), fun h => (by cases h), hinv.main.stdin rfl (Or.inl rfl)⟩
  · split at h
    · cases h
      exact ⟨hinv.streams, fun h => (by cases h), fun h => (by cases h), hinv.main.stdin rfl (Or.inl rfl)⟩
    · rename_i fd c data next hchild _ pipe hpipe
      split at h
      · rename_i hopen
        obtain ⟨r, hpush, rfl⟩ := Option.map_eq_some_iff.1 h
        obtain ⟨⟨y, hy, hdata⟩, -, hwrite, -⟩ := Pipe.push_eq_some hpush
        have htake : (c :: data).take ((c :: data).length - r.1.length) = y := by
          rw [hy, List.length_append, Nat.add_sub_cancel, List.take_left]
        refine ⟨fun fd' => ?_, fun h => (by cases h), fun h => (by cases h), hinv.main.stdin rfl (Or.inl rfl)⟩
        have hstream := hinv.streams fd'
        by_cases hfd : fd' = fd
        · subst hfd
          dsimp only
          rw [Function.update_self, Function.update_self, htake]
          rw [hpipe] at hstream
          cases hreader : s.readers fd' with
          | reading result =>
            rw [hreader, Stream] at hstream
            rw [Stream, hdata, hstream, List.append_assoc]
          | fulfilled result =>
            rw [hreader] at hstream
            rw [hstream.2.2] at hopen
            cases hopen
        · dsimp only
          rw [Function.update_of_ne hfd, Function.update_of_ne hfd]
          exact hstream
      · cases h
        exact ⟨hinv.streams, fun h => (by cases h), fun h => (by cases h), hinv.main.stdin rfl (Or.inl rfl)⟩

/-- Every step of anyone keeps the invariant. -/
theorem Inv.step (hinv : Inv s) {op : Op} (h : ThreadedCommunicate.step capacity s op = some s') : Inv s' := by
  cases op with
  | main => exact hinv.mainStep h
  | reader fd => exact hinv.reader h
  | child => exact hinv.childStep h

/-! ### Someone can go on -/

/-- A reader that waits has an empty pipe that the child can write to. -/
theorem Inv.reader_blocked (hinv : Inv s) {fd : Out} {result : Bytes} (hreader : s.readers fd = .reading result)
    (h : stepReader s fd = none) : ∃ pipe, s.pipes fd = some pipe ∧ pipe.data = [] ∧ pipe.writeEnd = true := by
  have hstream := hinv.streams fd
  rw [hreader] at hstream
  cases hpipe : s.pipes fd with
  | none =>
    rw [hpipe] at hstream
    exact hstream.elim
  | some pipe =>
    rw [stepReader, hreader, hpipe] at h
    dsimp only at h
    split at h
    · rename_i hread
      exact ⟨pipe, rfl, Pipe.read_eq_none hread⟩
    · cases h
    · cases h

/-- A child that waits while the readers wait is in front of an empty input that is not closed. -/
theorem Inv.child_blocked (hcapacity : 0 < capacity) (hinv : Inv s) (hreaders : ∀ fd, stepReader s fd = none)
    (hchild : s.child ≠ none) (h : stepChild capacity s = none) :
    ∃ pipe, s.stdin = some pipe ∧ pipe.data = [] ∧ pipe.writeEnd = true := by
  unfold stepChild at h
  split at h
  · rename_i hnone
    exact absurd hnone hchild
  · cases h
  · cases h
  · cases h
  · split at h
    · cases h
    · rename_i pipe hpipe
      split at h
      · exact ⟨pipe, hpipe, Pipe.read_eq_none (Option.map_eq_none_iff.1 h)⟩
      · cases h
  · cases h
  · split at h
    · cases h
    · rename_i fd c data next _ _ pipe hpipe
      split at h
      · rename_i hopen
        exfalso
        have hfull := Pipe.push_eq_none (Option.map_eq_none_iff.1 h)
        cases hreader : s.readers fd with
        | reading result =>
          obtain ⟨pipe', hpipe', hempty, -⟩ := hinv.reader_blocked hreader (hreaders fd)
          rw [hpipe] at hpipe'
          cases hpipe'
          rw [hempty, List.length_nil] at hfull
          omega
        | fulfilled result =>
          have hstream := hinv.streams fd
          rw [hpipe, hreader] at hstream
          rw [hstream.2.2] at hopen
          cases hopen
      · cases h

/-- **No deadlock.** When neither the threads nor the child can go on, the main thread has returned. -/
theorem Inv.returned (hcapacity : 0 < capacity) (hinv : Inv s)
    (h : ∀ op, ThreadedCommunicate.step capacity s op = none) : ∃ out err, s.main = .returned out err := by
  have hreaders : ∀ fd, stepReader s fd = none := fun fd => h (.reader fd)
  have hblocked := hinv.child_blocked hcapacity hreaders (h := h .child)
  -- a promise that is waited for is fulfilled: the child has closed the output or can go on
  have hfulfilled : (∀ pipe, s.stdin = some pipe → pipe.writeEnd = false) → ∀ fd, ∃ result,
      s.readers fd = .fulfilled result := by
    intro hclosed fd
    cases hreader : s.readers fd with
    | fulfilled result => exact ⟨result, rfl⟩
    | reading result =>
      obtain ⟨pipe, hpipe, -, hopen⟩ := hinv.reader_blocked hreader (hreaders fd)
      by_cases hchild : s.child = none
      · rw [hinv.exitedOut hchild fd pipe hpipe] at hopen
        cases hopen
      · obtain ⟨pipe', hpipe', -, hopen'⟩ := hblocked hchild
        rw [hclosed pipe' hpipe'] at hopen'
        cases hopen'
  have hmain := hinv.main
  have hstep : stepMain capacity s = none := h .main
  unfold stepMain at hstep
  split at hstep
  all_goals rename_i hm
  · cases hstep
  · cases hstep
  · cases hstep
  · cases hstep
  · split at hstep
    · rename_i hnone
      rw [hm, MainOk, hnone] at hmain
      cases hmain
    · rename_i pipe hpipe
      split at hstep
      · rename_i hopen
        exfalso
        have hfull := Pipe.push_eq_none (Option.map_eq_none_iff.1 hstep)
        by_cases hchild : s.child = none
        · rw [hinv.exitedIn hchild pipe hpipe] at hopen
          cases hopen
        · obtain ⟨pipe', hpipe', hempty, -⟩ := hblocked hchild
          rw [hpipe] at hpipe'
          cases hpipe'
          rw [hempty, List.length_nil] at hfull
          omega
      · cases hstep
  · cases hstep
  · rw [hm] at hmain
    obtain ⟨out, hout⟩ := hfulfilled hmain .stdout
    rw [hout] at hstep
    cases hstep
  · rw [hm] at hmain
    obtain ⟨err, herr⟩ := hfulfilled hmain.1 .stderr
    rw [herr] at hstep
    cases hstep
  · rename_i out err
    exact ⟨out, err, hm⟩

/-! ### Everything ends -/

/-- What a step of the child leaves for it to do. -/
inductive ChildDown : Option Child → Option Child → Prop
  | exit : ChildDown none (some .exit)
  | read (max : ℕ) (next : Bytes → Child) (x : Bytes) : ChildDown (some (next x)) (some (.read max next))
  | write (fd : Out) (data : Bytes) (next : Child) : ChildDown (some next) (some (.write fd data next))
  | part (fd : Out) (rest data : Bytes) (next : Child) (h : rest.length < data.length) :
    ChildDown (some (.write fd rest next)) (some (.write fd data next))
  | closeOut (fd : Out) (next : Child) : ChildDown (some next) (some (.closeOut fd next))
  | closeIn (next : Child) : ChildDown (some next) (some (.closeIn next))

theorem childDown_none : Acc ChildDown none := by
  constructor
  rintro c h
  cases h

theorem childDown_some (c : Child) : Acc ChildDown (some c) := by
  induction c with
  | exit =>
    constructor
    rintro _ h
    cases h
    exact childDown_none
  | read max next ih =>
    constructor
    rintro _ h
    cases h
    exact ih _
  | write fd data next ih =>
    induction hn : data.length using Nat.strongRecOn generalizing data with
    | ind n ihn =>
      constructor
      rintro _ h
      cases h with
      | write => exact ih
      | part _ rest _ _ hlt => exact ihn rest.length (hn ▸ hlt) rest rfl
  | closeOut fd next ih =>
    constructor
    rintro _ h
    cases h
    exact ih
  | closeIn next ih =>
    constructor
    rintro _ h
    cases h
    exact ih

/-- The child stops, as its behaviour is a tree without infinite branches. -/
theorem childDown_wf : WellFounded ChildDown := by
  constructor
  rintro (_ | c)
  · exact childDown_none
  · exact childDown_some c

/-- What a step of the main thread leaves for it to do. -/
inductive MainDown : Main → Main → Prop
  | returnsTrue : MainDown .close (.callback .returnsTrue)
  | returnsFalse (next : Callback) : MainDown (.callback next) (.callback (.returnsFalse next))
  | write (data : Bytes) (next : Option ℕ → Callback) : MainDown (.writing data 0 next) (.callback (.write data next))
  | part (rest data : Bytes) (m n : ℕ) (next : Option ℕ → Callback) (h : rest.length < data.length) :
    MainDown (.writing rest m next) (.writing data n next)
  | written (data : Bytes) (n : ℕ) (next : Option ℕ → Callback) (r : Option ℕ) :
    MainDown (.callback (next r)) (.writing data n next)
  | close : MainDown .getOut .close
  | getOut (out : Bytes) : MainDown (.getErr out) .getOut
  | getErr (out err : Bytes) : MainDown (.returned out err) (.getErr out)

theorem mainDown_returned (out err : Bytes) : Acc MainDown (.returned out err) := by
  constructor
  rintro _ h
  cases h

theorem mainDown_getErr (out : Bytes) : Acc MainDown (.getErr out) := by
  constructor
  rintro _ h
  cases h
  exact mainDown_returned _ _

theorem mainDown_getOut : Acc MainDown .getOut := by
  constructor
  rintro _ h
  cases h
  exact mainDown_getErr _

theorem mainDown_close : Acc MainDown .close := by
  constructor
  rintro _ h
  cases h
  exact mainDown_getOut

/-- The main thread has fewer bytes to write after each write. -/
theorem mainDown_writing {next : Option ℕ → Callback} (h : ∀ r, Acc MainDown (.callback (next r))) (data : Bytes) :
    ∀ n, Acc MainDown (.writing data n next) := by
  induction hlen : data.length using Nat.strongRecOn generalizing data with
  | ind len ih =>
    intro n
    constructor
    rintro _ hdown
    cases hdown with
    | part rest _ m _ _ hlt => exact ih rest.length (hlen ▸ hlt) rest rfl m
    | written _ _ _ r => exact h r

/-- The callback asks for finitely many writes, whatever they give. -/
theorem mainDown_callback (next : Callback) : Acc MainDown (.callback next) := by
  induction next with
  | returnsFalse next ih =>
    constructor
    rintro _ h
    cases h
    exact ih
  | returnsTrue =>
    constructor
    rintro _ h
    cases h
    exact mainDown_close
  | write data next ih =>
    constructor
    rintro _ h
    cases h
    exact mainDown_writing ih data 0

/-- So the main thread stops as well. -/
theorem mainDown_wf : WellFounded MainDown := by
  constructor
  intro m
  cases m with
  | callback next => exact mainDown_callback next
  | writing data n next => exact mainDown_writing (fun r => mainDown_callback (next r)) data n
  | close => exact mainDown_close
  | getOut => exact mainDown_getOut
  | getErr out => exact mainDown_getErr out
  | returned out err => exact mainDown_returned out err

/-- What is left for a reader to do: the bytes in the pipe, and the end. -/
def load (s : Sys) (fd : Out) : ℕ :=
  (match s.pipes fd with
    | some pipe => pipe.data.length
    | none => 0) +
  (match s.readers fd with
    | .reading _ => 1
    | .fulfilled _ => 0)

/-- A reader takes bytes from the pipe or comes to its end. -/
theorem stepReader_down {fd : Out} (h : stepReader s fd = some s') : s'.child = s.child ∧ s'.main = s.main ∧
    load s' .stdout + load s' .stderr < load s .stdout + load s .stderr := by
  have hlt : s'.child = s.child ∧ s'.main = s.main ∧ load s' fd < load s fd ∧
      ∀ fd', fd' ≠ fd → load s' fd' = load s fd' := by
    unfold stepReader at h
    split at h
    · rename_i result pipe hreader hpipe
      split at h
      · cases h
      · cases h
        refine ⟨rfl, rfl, ?_, fun fd' hfd => ?_⟩
        · simp only [load, hpipe, hreader, Function.update_self]
          omega
        · simp only [load, Function.update_of_ne hfd]
      · rename_i x pipe' hne hread
        cases h
        obtain ⟨hdata, -, -⟩ := Pipe.read_eq_some hread
        have hpos : 0 < x.length := List.length_pos_iff.2 hne
        have hlen := congrArg List.length hdata
        rw [List.length_append] at hlen
        refine ⟨rfl, rfl, ?_, fun fd' hfd => ?_⟩
        · simp only [load, hpipe, hreader, Function.update_self]
          omega
        · simp only [load, Function.update_of_ne hfd]
    · cases h
  obtain ⟨hchild, hmain, hlt, hrest⟩ := hlt
  refine ⟨hchild, hmain, ?_⟩
  cases fd with
  | stdout =>
    have := hrest .stderr (by decide)
    omega
  | stderr =>
    have := hrest .stdout (by decide)
    omega

/-- A step of the main thread brings it nearer to its end. -/
theorem stepMain_down (h : stepMain capacity s = some s') : s'.child = s.child ∧ MainDown s'.main s.main := by
  unfold stepMain at h
  split at h
  all_goals rename_i hm
  · cases h
    rw [hm]
    exact ⟨rfl, .returnsTrue⟩
  · cases h
    rw [hm]
    exact ⟨rfl, .returnsFalse _⟩
  · cases h
    rw [hm]
    exact ⟨rfl, .write _ _⟩
  · cases h
    rw [hm]
    exact ⟨rfl, .written _ _ _ _⟩
  · split at h
    · cases h
    · split at h
      · obtain ⟨r, hpush, rfl⟩ := Option.map_eq_some_iff.1 h
        obtain ⟨-, -, -, hlt⟩ := Pipe.push_eq_some hpush
        rw [hm]
        exact ⟨rfl, .part _ _ _ _ _ (hlt (List.cons_ne_nil _ _))⟩
      · cases h
        rw [hm]
        exact ⟨rfl, .written _ _ _ _⟩
  · cases h
    rw [hm]
    exact ⟨rfl, .close⟩
  · split at h
    · cases h
      rw [hm]
      exact ⟨rfl, .getOut _⟩
    · cases h
  · split at h
    · cases h
      rw [hm]
      exact ⟨rfl, .getErr _ _⟩
    · cases h
  · cases h

/-- A step of the child brings it nearer to its end. -/
theorem stepChild_down (h : stepChild capacity s = some s') : ChildDown s'.child s.child := by
  unfold stepChild at h
  split at h
  all_goals rename_i hc
  · cases h
  · cases h
    rw [hc]
    exact .exit
  · cases h
    rw [hc]
    exact .closeOut _ _
  · cases h
    rw [hc]
    exact .closeIn _
  · split at h
    · cases h
      rw [hc]
      exact .read _ _ _
    · split at h
      · obtain ⟨r, -, rfl⟩ := Option.map_eq_some_iff.1 h
        rw [hc]
        exact .read _ _ _
      · cases h
        rw [hc]
        exact .read _ _ _
  · cases h
    rw [hc]
    exact .write _ _ _
  · split at h
    · cases h
      rw [hc]
      exact .write _ _ _
    · split at h
      · obtain ⟨r, hpush, rfl⟩ := Option.map_eq_some_iff.1 h
        obtain ⟨-, -, -, hlt⟩ := Pipe.push_eq_some hpush
        rw [hc]
        exact .part _ _ _ _ (hlt (List.cons_ne_nil _ _))
      · cases h
        rw [hc]
        exact .write _ _ _

/-- **No run goes on for ever**: each step brings its thread nearer to its end, and a byte is moved
finitely often. -/
theorem no_infinite (capacity : ℕ) (run : ℕ → Sys) (ops : ℕ → Op) :
    ¬ ∀ t, ThreadedCommunicate.step capacity (run t) (ops t) = some (run (t + 1)) := by
  refine no_infinite_run (LexDown.wellFounded childDown_wf (LexDown.wellFounded mainDown_wf Nat.lt_wfRel.wf))
    (fun s => (s.child, s.main, load s .stdout + load s .stderr)) (fun s op s' h => ?_) run ops
  cases op with
  | child => exact Or.inl (stepChild_down h)
  | main =>
    obtain ⟨hchild, hmain⟩ := stepMain_down h
    exact Or.inr ⟨hchild, Or.inl hmain⟩
  | reader fd =>
    obtain ⟨hchild, hmain, hlt⟩ := stepReader_down h
    exact Or.inr ⟨hchild, Or.inr ⟨hmain, hlt⟩⟩

/-- **`threadedCommunicate` returns the outputs of the child.** The main thread, the two readers and
the child step in any order, with pipes of any size, a child that does anything with its pipes
that ends and a callback that does so too. There is no infinite run; where nobody can go on, the
main thread has returned; and what it returns is all that the child has put into its outputs. -/
theorem threadedCommunicate_returns (capacity : ℕ) (hcapacity : 0 < capacity) (stdin : Bool) (pipes : Out → Bool)
    (callback : Callback) (child : Child) :
    (∀ (run : ℕ → Sys) (ops : ℕ → Op), run 0 = start stdin pipes callback child →
      ¬ ∀ t, ThreadedCommunicate.step capacity (run t) (ops t) = some (run (t + 1))) ∧
    ∀ (ops : List Op) (s : Sys),
      run (ThreadedCommunicate.step capacity) (start stdin pipes callback child) ops = some s →
        ((∀ op, ThreadedCommunicate.step capacity s op = none) → ∃ out err, s.main = .returned out err) ∧
        ∀ out err, s.main = .returned out err → out = s.written .stdout ∧ err = s.written .stderr := by
  refine ⟨fun run ops _ => no_infinite capacity run ops, fun ops s h => ?_⟩
  have hinv : Inv s := run_invariant (inv_start stdin pipes callback child) (fun _ _ _ hinv hs => hinv.step hs) ops h
  have hwritten : ∀ fd result, s.readers fd = .fulfilled result → result = s.written fd := by
    intro fd result hreader
    have hstream := hinv.streams fd
    rw [hreader] at hstream
    cases hpipe : s.pipes fd with
    | none =>
      rw [hpipe] at hstream
      rw [hstream.1, hstream.2]
    | some pipe =>
      rw [hpipe] at hstream
      exact hstream.1.symm
  refine ⟨hinv.returned hcapacity, fun out err hm => ?_⟩
  have hmain := hinv.main
  rw [hm] at hmain
  exact ⟨hwritten .stdout out hmain.1, hwritten .stderr err hmain.2⟩

/-- A child that writes what it reads, and the run of a parent that writes one byte to it. -/
def echo : Child := .read 4 fun x => .write .stdout x .exit

def echoRun : List Op :=
  [.main, .main, .main, .main, .main, .child, .child, .child, .child, .reader .stdout, .reader .stdout,
    .reader .stderr, .main, .main]

theorem threadedCommunicate_echo : ∃ s, run (ThreadedCommunicate.step 1)
      (start true (fun _ => true) (.write [7] fun _ => .returnsTrue) echo) echoRun = some s ∧
    ∃ out err, s.main = .returned out err :=
  ⟨_, rfl, ((threadedCommunicate_returns 1 Nat.one_pos true (fun _ => true) (.write [7] fun _ => .returnsTrue)
    echo).2 echoRun _ rfl).1 fun op => by
      cases op with
      | main => rfl
      | child => rfl
      | reader fd => cases fd <;> rfl⟩

end ThreadedCommunicate

end EdenCommon
