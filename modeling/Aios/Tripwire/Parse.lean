import Aios.Tripwire.Line

/-!
The reader of tripwire lines in the soak tool, `tools/src/cmd/soak/tripwire.rs` and `awk.rs`.
-/

namespace Aios.Tripwire

open Aios.Lib

def blank : UInt8 := 32
def tab : UInt8 := 9
def equals : UInt8 := 61

def isBlank (b : UInt8) : Bool := b == blank || b == tab

def fields (line : List UInt8) : List (List UInt8) := Tokens.fields isBlank line

def windows (l : List UInt8) (n : ℕ) : List (List UInt8) :=
  (List.range (l.length + 1 - n)).map fun i => (l.drop i).take n

def find (haystack needle : List UInt8) : Option ℕ :=
  if needle.isEmpty then some 0 else (windows haystack needle.length).findIdx? (· == needle)

def keyValue (token : List UInt8) : Option (List UInt8 × List UInt8) := do
  let eq ← token.findIdx? (· == equals)
  if !(token.take eq).isEmpty && !(token.drop (eq + 1)).isEmpty then
    some (token.take eq, token.drop (eq + 1))
  else none

/-- `parse::<usize>()` on a text of digits. -/
def parseUsize (l : List UInt8) : Option ℕ :=
  if l ≠ [] ∧ ofDecimal l < 2 ^ 64 then some (ofDecimal l) else none

def keyIndex (name : List UInt8) : Option Key := Key.all.find? fun key => bytes key.name == name

structure V1 where
  cpu : Option (List UInt8)
  t : Option (List UInt8)
  ncpu : Option (List UInt8)
  values : Key → List UInt8

structure Line where
  text : List UInt8
  version : Option (List UInt8)
  src : Option (List UInt8)
  v1 : Option V1

def get (before : List (List UInt8 × List UInt8)) (name : String) : Option (List UInt8) :=
  (before.find? fun p => p.1 == bytes name).map Prod.snd

/-- The loop that fills `values`. -/
def collect (before : List (List UInt8 × List UInt8)) : Key → List UInt8 :=
  before.foldl (fun values p => match keyIndex p.1 with
    | some key => Function.update values key p.2
    | none => values) fun _ => bytes "0"

def trailingCount (last : List UInt8 × List UInt8) : Option ℕ :=
  if last.1 = bytes "n" ∧ last.2.all isDigit = true then parseUsize last.2 else none

def trimEnd (line : List UInt8) : List UInt8 := line.rdropWhile isBlank

def parseLine (line : List UInt8) : Option Line := do
  let marker := linePrefix ++ bytes " "
  let start ← find line marker
  let pairs ← (fields (line.drop (start + marker.length))).mapM keyValue
  let last ← pairs.getLast?
  let before := pairs.dropLast
  let n ← trailingCount last
  if n ≠ before.length then none
  else
    let version := get before "v"
    some {
      text := (trimEnd line).drop start
      version := version
      src := get before "src"
      v1 := if version = some (decimal schemaVersion) then
          some {
            cpu := get before "cpu"
            t := get before "t"
            ncpu := get before "ncpu"
            values := collect before }
        else none }

end Aios.Tripwire
