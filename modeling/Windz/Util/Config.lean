import Mathlib.Data.List.AList
import Windz.Lib.Scan

/-!
# `Config`

`util/Config.cpp`: `Parse` reads a file line by line with `fgets` into an array of
`MAXLINE` bytes and takes each line apart with a `LineParser`, a pointer into that
array. Here the memory that may be read is the array up to the NUL that `fgets` puts
behind the line, the pointer `line_` is a position in it, and a function that would
read elsewhere gives `none`.

Strings are lists of bytes, and `isspace` and `tolower` those of the C locale. The map
`config_` is an association list without duplicate keys.
-/

namespace Windz

open Lib

/-- The bytes of a string or of a file. -/
abbrev Bytes := List UInt8

namespace Config

/-! ## Characters -/

/-- The zero at the end of a string. -/
def nul : UInt8 := 0
/-- The end of a line. -/
def newline : UInt8 := '\n'.toUInt8
/-- What a comment begins with. -/
def hash : UInt8 := '#'.toUInt8
/-- What stands between a section and a name in a key. -/
def dot : UInt8 := '.'.toUInt8
/-- One separator of an entry. -/
def colon : UInt8 := ':'.toUInt8
/-- The other. -/
def equals : UInt8 := '='.toUInt8
/-- What the name of a section begins with. -/
def lbracket : UInt8 := '['.toUInt8
/-- And what it ends with. -/
def rbracket : UInt8 := ']'.toUInt8

/-- `isspace` in the C locale. -/
def isspace (c : UInt8) : Bool := c = 32 ∨ 9 ≤ c ∧ c ≤ 13

/-- `tolower` in the C locale. -/
def tolower (c : UInt8) : UInt8 := if 65 ≤ c ∧ c ≤ 90 then c + 32 else c

/-! ## `fgets` -/

/-- The bytes that `fgets` stores, at most `room` of them, and what it leaves of the file. -/
def takeLine : Nat → Bytes → Bytes × Bytes
  | 0, file => ([], file)
  | _ + 1, [] => ([], [])
  | room + 1, c :: file =>
      if c = newline then ([c], file)
      else
        let (line, file) := takeLine room file
        (c :: line, file)

/-- `fgets(line, size, file)`, `none` at the end of the file. -/
def fgets (size : Nat) (file : Bytes) : Option (Bytes × Bytes) :=
  if file = [] then none else some (takeLine (size - 1) file)

end Config

/-! ## `LineParser` -/

namespace LineParser

open Config

variable (line : Bytes) (line_ : Nat)

/-- `SkipSpace`. -/
def skipSpace : Option Nat := seek (fun c => !isspace c) line line_

/-- The string in `[first, last)`, without blanks at its ends. -/
def strip (first last : Nat) : Option Bytes := (slice line first last).map (trim isspace)

/-- `Peek`: the character behind blanks. -/
def peek : Option (UInt8 × Nat) := do
  let line_ ← skipSpace line line_
  let c ← load line line_
  some (c, line_)

/-- `Skip`. -/
def skip (n : Nat) : Nat := line_ + n

/-- `Match`: whether the character behind blanks is `c`. -/
def matchChar (c : UInt8) : Option (Bool × Nat) := do
  let line_ ← skipSpace line line_
  let b ← load line line_
  some (b = c, line_)

/-- The string up to `c`, empty when there is none. -/
def till (c : UInt8) : Option (Bytes × Nat) := do
  let first ← skipSpace line line_
  let last ← seek (fun b => b = nul ∨ b = c) line first
  let b ← load line last
  if b ≠ c then some ([], first)
  else
    let s ← strip line first last
    some (s, last)

/-- The string up to a blank or one of the characters that `ends` says. -/
def tillBlank (ends : UInt8 → Bool) : Option (Bytes × Nat) := do
  let first ← skipSpace line line_
  let last ← seek (fun b => b = nul ∨ isspace b ∨ ends b) line first
  let s ← strip line first last
  some (s, last)

/-- `TillEnd`: up to a blank or a comment. -/
def tillEnd : Option (Bytes × Nat) := tillBlank line line_ (fun b => b = hash)

/-- `TillSpace`. -/
def tillSpace : Option (Bytes × Nat) := tillBlank line line_ (fun _ => false)

end LineParser

/-! ## `Parse` -/

/-- A `Config`: its keys, each with its values in the order of the file. -/
structure Config where
  /-- `config_`. -/
  config : AList fun _ : Bytes => List Bytes

namespace Config

/-- `MAXLINE`, the size of the array that a line is read into. -/
def MAXLINE : Nat := 1024

/-- The constructor. -/
def create : Config := ⟨∅⟩

/-- `MakeKey`. -/
def makeKey (sect name : Bytes) : Bytes := (sect ++ dot :: name).map tolower

/-- `config_[key].push_back(value)`. -/
def pushBack (c : Config) (key value : Bytes) : Config :=
  ⟨c.config.insert key ((c.config.lookup key).getD [] ++ [value])⟩

/-- The variables of `Parse`. -/
structure ParseState where
  /-- `line_num`, an `int`: a file is read in fewer than 2^31 pieces. -/
  lineNum : Nat
  /-- `section`. -/
  sect : Bytes
  /-- `name`. -/
  name : Bytes
  /-- Whether there was an error. -/
  error : Bool
  /-- `config_`. -/
  config : Config

/-- The value of an entry or of its continuation. -/
def ParseState.store (s : ParseState) (value : Bytes) : ParseState :=
  { s with config := s.config.pushBack (makeKey s.sect s.name) value }

open LineParser

/-- The name of an entry, whether its separator is there, and where: `=`, or `:` when there is no
`=` on the line. -/
def parseName (line : Bytes) (line_ : Nat) : Option (Bytes × Bool × Nat) := do
  let backup := line_
  let (name, line_) ← till line line_ equals
  let (found, line_) ← matchChar line line_ equals
  if found then some (name, true, line_)
  else
    let (name, line_) ← till line backup colon
    let (found, line_) ← matchChar line line_ colon
    some (name, found, line_)

/-- The body of the loop, `line` being the array up to the NUL behind what was read. -/
def parseLine (line : Bytes) (s : ParseState) : Option ParseState := do
  let (c, line_) ← peek line 0
  -- a comment or a blank line
  if c = hash ∨ c = nul then some s
  else if c = lbracket then
    let (sect, line_) ← till line (skip line_ 1) rbracket
    let (found, _) ← matchChar line line_ rbracket
    some { s with sect, error := !found, name := [] }
  else
    let first ← load line 0
    -- with a blank in front, one more value of the name before
    if isspace first then
      if s.name = [] then some { s with error := true }
      else
        let (value, _) ← tillEnd line line_
        some (s.store value)
    else
      let (name, found, line_) ← parseName line line_
      if found then
        let (value, _) ← tillSpace line (skip line_ 1)
        some ({ s with name, error := false }.store value)
      else some { s with name, error := true }

/-- The loop, run at most `fuel` times. -/
def parseLines : Nat → Bytes → ParseState → Option ParseState
  | 0, _, _ => none
  | fuel + 1, file, s =>
      if s.error then some s
      else
        match fgets MAXLINE file with
        | none => some s
        | some (line, file) => do
            let s ← parseLine (line ++ [nul]) { s with lineNum := s.lineNum + 1 }
            parseLines fuel file s

/-- What `Parse` returns, and the configuration. -/
def ParseState.result (s : ParseState) : Int × Config :=
  (if s.error then s.lineNum else 0, s.config)

/-- `Parse`, the file being `none` when it cannot be opened. Each pass of the loop but the last
reads a byte. -/
def parse (c : Config) (file : Option Bytes) : Option (Int × Config) :=
  match file with
  | none => some (-1, c)
  | some file =>
      (parseLines (file.length + 1) file
        { lineNum := 0, sect := [], name := [], error := false, config := c }).map
        ParseState.result

/-! ## The values -/

/-- `GetList`. -/
def getList (c : Config) (sect name : Bytes) : List Bytes :=
  match c.config.lookup (makeKey sect name) with
  | none => []
  | some values => values

/-- `front` of an empty list is undefined, here `none`. -/
def getString (c : Config) (sect name default : Bytes) : Option Bytes :=
  match c.config.lookup (makeKey sect name) with
  | none => some default
  | some values => values.head?

end Config

end Windz
