import EdenCommon.Spec.Utf8

/-!
# What `isValidUtf8` reads

The scanner of `Utf8.h` with the positions of its dereferences, counted from the first
byte of the range. `WellEncoded` says what a correctly encoded string is, apart from any
scanner.
-/

namespace EdenCommon

/-! ### The scanner with its reads -/

/-- The loop of `isValidContinuation(begin, end, num, codepoint)` with `begin` at `pos`. -/
def readContinuationsTraced : ℕ → ℕ → Bytes → UInt32 → List ℕ × Option (Option (Bytes × UInt32))
  | 0, _, mem, codepoint => ([], some (some (mem, codepoint)))
  | _ + 1, pos, [], _ => ([pos], none)
  | num + 1, pos, c :: mem, codepoint =>
    if isValidContinuation c then
      let rest := readContinuationsTraced num (pos + 1) mem ((codepoint <<< 6) ||| (clearContinuationBit c).toUInt32)
      (pos :: rest.1, rest.2)
    else ([pos], some none)

/-- `isValidContinuation(begin, end, num, codepoint)` with `begin` at `pos`. -/
def isValidContinuationsTraced (pos : ℕ) (mem : Bytes) (room : ℤ) (num : ℕ) (codepoint : UInt32) :
    List ℕ × Option (Option (Bytes × UInt32)) :=
  if room < (num : ℤ) - 1 then ([], some none) else readContinuationsTraced num pos mem codepoint

/-- The `while` loop of `isValidUtf8` with `begin` at `pos`. -/
def isValidUtf8LoopTraced : ℕ → ℕ → Bytes → ℤ → List ℕ × Option Bool
  | 0, _, _, _ => ([], none)
  | fuel + 1, pos, mem, room =>
    if room = 0 then ([], some true)
    else
      match mem with
      | [] => ([pos], none)
      | first :: mem =>
        if !isBitSet first 7 then
          let rest := isValidUtf8LoopTraced fuel (pos + 1) mem (room - 1)
          (pos :: rest.1, rest.2)
        else
          match leadByte first with
          | none => ([pos], some false)
          | some (num, bits, least) =>
            let continuations := isValidContinuationsTraced (pos + 1) mem (room - 1) num bits
            match continuations.2 with
            | none => (pos :: continuations.1, none)
            | some none => (pos :: continuations.1, some false)
            | some (some (mem', codepoint)) =>
              if codepoint < least then (pos :: continuations.1, some false)
              else
                let rest := isValidUtf8LoopTraced fuel (pos + 1 + num) mem' (room - 1 - num)
                (pos :: (continuations.1 ++ rest.1), rest.2)

/-- `isValidUtf8(str)` with `after` the mapped memory behind `str`. -/
def isValidUtf8Traced (str after : Bytes) : List ℕ × Option Bool :=
  isValidUtf8LoopTraced (str.length + after.length + 1) 0 (str ++ after) str.length

/-! ### Correctly encoded strings -/

/-- The code point of a sequence whose lead byte contributes `bits`. -/
def codePoint (bits : UInt32) (continuations : Bytes) : UInt32 :=
  continuations.foldl (fun codepoint c => (codepoint <<< 6) ||| (clearContinuationBit c).toUInt32) bits

/-- The string is a row of characters, each encoded in full and not overlong. -/
inductive WellEncoded : Bytes → Prop
  | nil : WellEncoded []
  | ascii {c : UInt8} {s : Bytes} (hc : isBitSet c 7 = false) (hs : WellEncoded s) : WellEncoded (c :: s)
  | sequence {first : UInt8} {num : ℕ} {bits least : UInt32} {continuations s : Bytes} (h7 : isBitSet first 7 = true)
      (hlead : leadByte first = some (num, bits, least)) (hlen : continuations.length = num)
      (hcont : ∀ c ∈ continuations, isValidContinuation c = true) (hleast : least ≤ codePoint bits continuations)
      (hs : WellEncoded s) : WellEncoded (first :: (continuations ++ s))

/-- The string ends in a sequence that lacks exactly its last byte. -/
def LacksLastByte (str : Bytes) : Prop :=
  ∃ front first num bits least continuations, str = front ++ first :: continuations ∧ WellEncoded front ∧
    isBitSet first 7 = true ∧ leadByte first = some (num, bits, least) ∧ continuations.length + 1 = num ∧
    ∀ c ∈ continuations, isValidContinuation c = true

end EdenCommon
