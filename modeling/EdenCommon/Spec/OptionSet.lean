import EdenCommon.Spec.Utf8

/-!
# `OptionSet` and `split`

The bit sets of `OptionSet.h`, with the string that `format` makes of the names in `Derived::table`,
and `split` of `String.cpp`. `format` writes through a pointer: `put` has no result for a write
outside of the string.
-/

namespace EdenCommon

/-- The bits of the `UnderlyingType`. -/
abbrev OptionSet (w : ℕ) := BitVec w

namespace OptionSet

variable {w : ℕ}

abbrev NameTable (w : ℕ) := List (OptionSet w × Bytes)

def containsAllOf (v set : OptionSet w) : Bool := v &&& set == set

def containsAnyOf (v set : OptionSet w) : Bool := v &&& set != 0#w

def containsNoneOf (v set : OptionSet w) : Bool := v &&& set == 0#w

def empty (v : OptionSet w) : Bool := v == 0#w

/-- The members that change a set. -/
inductive Edit (w : ℕ)
  | set (bits : OptionSet w)
  | clear (bits : OptionSet w)
  | orAssign (that : OptionSet w)
  | andAssign (that : OptionSet w)

def edit (v : OptionSet w) : Edit w → OptionSet w
  | .set bits => v ||| bits
  | .clear bits => v &&& ~~~bits
  | .orAssign that => v ||| that
  | .andAssign that => v &&& that

/-- What an edit means for the set of the bits that are on. -/
def Edit.apply (on : ℕ → Bool) : Edit w → ℕ → Bool
  | .set bits => fun i => on i || bits.getLsbD i
  | .clear bits => fun i => on i && !bits.getLsbD i
  | .orAssign that => fun i => on i || that.getLsbD i
  | .andAssign that => fun i => on i && that.getLsbD i

/-! ### `format` -/

def space : UInt8 := 0x20

/-- The pass that computes `length`. -/
def formatLength (v : OptionSet w) (table : NameTable w) : ℕ :=
  table.foldl
    (fun length e =>
      if v.containsAllOf e.1 then (if length ≠ 0 then length + 1 else length) + e.2.length else length)
    0

/-- `memcpy` into the string, at `p`. -/
def put (result : Bytes) (p : ℕ) (bytes : Bytes) : Option Bytes :=
  if p + bytes.length ≤ result.length then some (result.take p ++ bytes ++ result.drop (p + bytes.length)) else none

/-- The space in front of all names but the first one. -/
def putSpace (result : Bytes) (p : ℕ) : Option (Bytes × ℕ) :=
  if p ≠ 0 then (put result p [space]).map fun result => (result, p + 1) else some (result, p)

/-- The pass that writes the names. -/
def formatNames (v : OptionSet w) : NameTable w → Bytes → ℕ → Option (Bytes × ℕ)
  | [], result, p => some (result, p)
  | e :: table, result, p =>
    if v.containsAllOf e.1 then do
      let s ← putSpace result p
      let result ← put s.1 s.2 e.2
      formatNames v table result (s.2 + e.2.length)
    else formatNames v table result p

/-- The string; no result if a write goes outside of it or the `assert` fails. -/
def format (table : NameTable w) (v : OptionSet w) : Option Bytes :=
  if v.empty ∨ table = [] then some []
  else do
    let length := formatLength v table
    let s ← formatNames v table (List.replicate length 0) 0
    if s.2 = length then some s.1 else none

end OptionSet

/-! ### `split` -/

/-- The loop; `s` loses its front with every delimiter. -/
def splitLoop (delim : UInt8) : ℕ → Bytes → List Bytes → Option (List Bytes)
  | 0, _, _ => none
  | fuel + 1, s, result =>
    let i := s.findIdx fun c => c == delim
    if i < s.length then splitLoop delim fuel (s.drop (i + 1)) (result ++ [s.take i]) else some (result ++ [s])

def split (s : Bytes) (delim : UInt8) : Option (List Bytes) := splitLoop delim (s.length + 1) s []

end EdenCommon
