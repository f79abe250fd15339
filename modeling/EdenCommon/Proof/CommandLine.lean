import EdenCommon.Spec.CommandLine

/-!
# The command line, read back

An argument without quotes stands between two quotes as it is, so that the line is the
`Marks.line` of the arguments and the rules read it back as `splitLine_tail_iff` says. What
the encoding leaves out are the backslashes in front of a closing quote, which would have to
be doubled.

* `pushArg_eq`, `foldl_pushArg_eq_line`: every argument is put between quotes behind a
  blank. The escaping of a quote never comes into play (`flatMap_pushChar`).
* `buildCommandLine_reads_back_iff`: the arguments behind the first one come back exactly if
  every closing quote closes.
* `buildCommandLine_trailing_backslash`: the quote behind a trailing backslash becomes a
  part of the argument, with the blank and the argument that follow.
-/

namespace EdenCommon

namespace SpawnedProcess

open Lib

variable {multiByteToWideChar : Bytes → ℤ → WString} {args : List Bytes} {wargs : List WString}

/-- The wide forms of the arguments. -/
def Converts (multiByteToWideChar : Bytes → ℤ → WString) : List Bytes → List WString → Prop :=
  List.Forall₂ fun arg warg => multibyteToWideString multiByteToWideChar arg = .ok warg

theorem Converts.buildCommandLine_eq (h : Converts multiByteToWideChar args wargs) :
    buildCommandLine multiByteToWideChar args = .ok (wargs.foldl pushArg []) := by
  have hfold : ∀ result, args.foldlM (fun result arg =>
      (multibyteToWideString multiByteToWideChar arg).map (pushArg result)) result = .ok (wargs.foldl pushArg result) := by
    induction h with
    | nil => exact fun result => rfl
    | cons harg _ ih =>
      intro result
      rw [List.foldlM_cons, harg]
      exact ih _
  exact hfold []

/-- Without quotes nothing is escaped. -/
theorem flatMap_pushChar {warg : WString} (h : windowsMarks.quote ∉ warg) : warg.flatMap pushChar = warg := by
  induction warg with
  | nil => rfl
  | cons c warg ih =>
    rw [List.mem_cons, not_or] at h
    have hc : ¬ c = 0x22 := Ne.symm h.1
    rw [List.flatMap_cons, ih h.2, pushChar, if_neg hc]
    rfl

/-- An argument is put in quotes behind a blank. -/
theorem pushArg_eq {result warg : WString} (h : windowsMarks.quote ∉ warg) (hresult : result ≠ []) :
    pushArg result warg = result ++ 0x20 :: windowsMarks.enclosed warg := by
  have hempty : (!result.isEmpty) = true := by simpa using hresult
  rw [pushArg, flatMap_pushChar h, if_pos hempty]
  simp [Marks.enclosed, windowsMarks]

/-- So are all arguments. -/
theorem foldl_pushArg : ∀ (wargs : List WString) {result : WString}, (∀ warg ∈ wargs, windowsMarks.quote ∉ warg) →
    result ≠ [] → wargs.foldl pushArg result = result ++ windowsMarks.following 0x20 wargs := by
  intro wargs
  induction wargs with
  | nil => intro result _ _; simp [Marks.following]
  | cons warg wargs ih =>
    intro result h hresult
    rw [List.forall_mem_cons] at h
    rw [List.foldl_cons, pushArg_eq h.1 hresult, ih h.2 (by simp), Marks.following_cons]
    simp

/-- Every argument between quotes. -/
theorem foldl_pushArg_eq_line (h : ∀ warg ∈ wargs, windowsMarks.quote ∉ warg) :
    wargs.foldl pushArg [] = windowsMarks.line 0x20 wargs := by
  cases wargs with
  | nil => rfl
  | cons first wargs =>
    rw [List.forall_mem_cons] at h
    have hfirst : pushArg [] first = windowsMarks.enclosed first := by
      rw [pushArg, flatMap_pushChar h.1]
      rfl
    rw [List.foldl_cons, hfirst, foldl_pushArg wargs h.2 (by simp [Marks.enclosed]), Marks.line]

/-- An argument without quotes is converted to one without quotes. -/
theorem Converts.quote_not_mem
    (hapi : ∀ piece size, windowsMarks.quote ∈ multiByteToWideChar piece size → quoteByte ∈ piece)
    (h : Converts multiByteToWideChar args wargs) (hargs : ∀ arg ∈ args, quoteByte ∉ arg) :
    ∀ warg ∈ wargs, windowsMarks.quote ∉ warg := by
  induction h with
  | nil => exact List.forall_mem_nil _
  | @cons arg warg args wargs harg _ ih =>
    rw [List.forall_mem_cons] at hargs ⊢
    refine ⟨fun hquote => ?_, ih hargs.2⟩
    unfold multibyteToWideString at harg
    split at harg
    · cases harg
      exact absurd hquote List.not_mem_nil
    · dsimp only at harg
      split at harg
      · obtain rfl := Except.ok.inj harg
        exact hargs.1 (hapi _ _ hquote)
      · cases harg

/-- **The command line, read back.** The arguments behind the first one come back exactly if
every closing quote closes. -/
theorem buildCommandLine_reads_back_iff
    (hapi : ∀ piece size, windowsMarks.quote ∈ multiByteToWideChar piece size → quoteByte ∈ piece)
    (hargs : ∀ arg ∈ args, quoteByte ∉ arg) (hwargs : Converts multiByteToWideChar args wargs) (programName : Bool) :
    (∃ line, buildCommandLine multiByteToWideChar args = .ok line ∧
      (windowsMarks.splitLine programName line).tail = wargs.tail) ↔ ClosesEach programName wargs := by
  have hquote := hwargs.quote_not_mem hapi hargs
  rw [hwargs.buildCommandLine_eq, foldl_pushArg_eq_line hquote]
  simp only [Except.ok.injEq, exists_eq_left']
  cases wargs with
  | nil => cases programName <;> exact iff_of_true rfl trivial
  | cons first wargs =>
    rw [List.forall_mem_cons] at hquote
    exact Marks.splitLine_tail_iff rfl programName hquote.1 hquote.2

/-- `MultiByteToWideChar` on ASCII. -/
def asciiToWideChar (piece : Bytes) (inputSize : ℤ) : WString := (piece.take inputSize.toNat).map UInt8.toUInt16

theorem quote_of_asciiToWideChar (piece : Bytes) (size : ℤ) (h : windowsMarks.quote ∈ asciiToWideChar piece size) :
    quoteByte ∈ piece := by
  obtain ⟨byte, hbyte, hquote⟩ := List.mem_map.1 h
  have hvalue : byte = quoteByte := UInt8.toUInt16_inj.1 hquote
  exact hvalue ▸ List.mem_of_mem_take hbyte

def ascii (text : String) : Bytes := text.toList.map Char.toUInt8

def wide (text : String) : WString := (ascii text).map UInt8.toUInt16

/-- Blanks, backslashes inside an argument and an empty argument. -/
theorem buildCommandLine_reads_back_blanks :
    ∃ line, buildCommandLine asciiToWideChar [ascii "prog", ascii "C:\\a b", ascii ""] = .ok line ∧
      (windowsMarks.splitLine false line).tail = [wide "C:\\a b", wide ""] := by
  have hwargs : Converts asciiToWideChar [ascii "prog", ascii "C:\\a b", ascii ""]
      [wide "prog", wide "C:\\a b", wide ""] :=
    .cons (by decide) (.cons (by decide) (.cons (by decide) .nil))
  exact (buildCommandLine_reads_back_iff quote_of_asciiToWideChar (by decide) hwargs false).2
    ⟨by decide, .inr (.inr (by decide))⟩

/-- The quote behind `C:\dir\` becomes a part of it, with the blank and the argument that
follow. -/
theorem buildCommandLine_trailing_backslash :
    (∀ arg ∈ [ascii "prog", ascii "C:\\dir\\", ascii "x"], quoteByte ∉ arg) ∧
      ∀ programName, ¬ ∃ line,
        buildCommandLine asciiToWideChar [ascii "prog", ascii "C:\\dir\\", ascii "x"] = .ok line ∧
          (windowsMarks.splitLine programName line).tail = [wide "C:\\dir\\", wide "x"] := by
  refine ⟨by decide, ?_⟩
  rintro programName ⟨line, hline, htail⟩
  have hvalue : buildCommandLine asciiToWideChar [ascii "prog", ascii "C:\\dir\\", ascii "x"] =
      .ok (wide "\"prog\" \"C:\\dir\\\" \"x\"") := by decide
  have hread : ∀ programName, windowsMarks.splitLine programName (wide "\"prog\" \"C:\\dir\\\" \"x\"") =
      [wide "prog", wide "C:\\dir\" x"] := by decide
  obtain rfl := Except.ok.inj (hvalue.symm.trans hline)
  rw [hread] at htail
  exact absurd htail (by decide)

end SpawnedProcess

end EdenCommon
