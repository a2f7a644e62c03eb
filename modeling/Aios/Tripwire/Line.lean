import Aios.Lib.Decimal
import Aios.Lib.Tokens

/-!
The tripwire line, `shared/src/tripwire.rs`.

A sink takes bytes in order, so a writer is the list of the bytes it emits.
-/

namespace Aios.Tripwire

open Aios.Lib

def bytes (s : String) : List UInt8 := s.toUTF8.toList

def schemaVersion : ℕ := 1
def linePrefix : List UInt8 := bytes "[tripwire]"
def maxCpus : ℕ := 8

inductive Width
  | cpu | one | source | lock | schedClass | n2 | badchan
  deriving DecidableEq, Repr

namespace Width

/-- `WakeSource::COUNT`, `LockClass::COUNT`, `CLASS_COUNT`, `N2Kind::COUNT` and
`BadchanSite::COUNT`. -/
def slots : Width → ℕ
  | .cpu | .one => 1
  | .source => 15
  | .lock => 9
  | .schedClass => 4
  | .n2 => 4
  | .badchan => 3

def values (w : Width) (ncpu : ℕ) : ℕ :=
  match w with
  | .cpu => ncpu
  | w => w.slots

end Width

inductive Key
  | tick | irqsw | irqsw0 | nest | elrmm | spsrmm | n4 | insched
  | rsthold | tpidrbad | xdir | xrep | xnever | n1 | pcnull | pcphys
  | pcother | spbad | latereply | misrep | ctbusy | badtid | n2 | ubrun
  | ubrbl | ubdead | ubnone | ubmove | lkph | lkpho | lkphrun | lkoxp
  | lkself | lktry | lktph | lkstk | scana | skipa | skipaself | scanb
  | skipb | scanstall | hbdefer | orphan | nowaker | wakefl | starved | dupcur
  | dupq | qbad | orphanNow | nowakerNow | wakeflNow | scanhold1 | scanhold2 | lb
  | enqfull | badchan | twc | twn | twmax
  deriving DecidableEq, Repr

namespace Key

def all : List Key :=
  [.tick, .irqsw, .irqsw0, .nest, .elrmm, .spsrmm, .n4, .insched, .rsthold, .tpidrbad, .xdir,
   .xrep, .xnever, .n1, .pcnull, .pcphys, .pcother, .spbad, .latereply, .misrep, .ctbusy,
   .badtid, .n2, .ubrun, .ubrbl, .ubdead, .ubnone, .ubmove, .lkph, .lkpho, .lkphrun, .lkoxp,
   .lkself, .lktry, .lktph, .lkstk, .scana, .skipa, .skipaself, .scanb, .skipb, .scanstall,
   .hbdefer, .orphan, .nowaker, .wakefl, .starved, .dupcur, .dupq, .qbad, .orphanNow,
   .nowakerNow, .wakeflNow, .scanhold1, .scanhold2, .lb, .enqfull, .badchan, .twc, .twn, .twmax]

def name : Key → String
  | .tick => "tick"
  | .irqsw => "irqsw"
  | .irqsw0 => "irqsw0"
  | .nest => "nest"
  | .elrmm => "elrmm"
  | .spsrmm => "spsrmm"
  | .n4 => "n4"
  | .insched => "insched"
  | .rsthold => "rsthold"
  | .tpidrbad => "tpidrbad"
  | .xdir => "xdir"
  | .xrep => "xrep"
  | .xnever => "xnever"
  | .n1 => "n1"
  | .pcnull => "pcnull"
  | .pcphys => "pcphys"
  | .pcother => "pcother"
  | .spbad => "spbad"
  | .latereply => "latereply"
  | .misrep => "misrep"
  | .ctbusy => "ctbusy"
  | .badtid => "badtid"
  | .n2 => "n2"
  | .ubrun => "ubrun"
  | .ubrbl => "ubrbl"
  | .ubdead => "ubdead"
  | .ubnone => "ubnone"
  | .ubmove => "ubmove"
  | .lkph => "lkph"
  | .lkpho => "lkpho"
  | .lkphrun => "lkphrun"
  | .lkoxp => "lkoxp"
  | .lkself => "lkself"
  | .lktry => "lktry"
  | .lktph => "lktph"
  | .lkstk => "lkstk"
  | .scana => "scana"
  | .skipa => "skipa"
  | .skipaself => "skipaself"
  | .scanb => "scanb"
  | .skipb => "skipb"
  | .scanstall => "scanstall"
  | .hbdefer => "hbdefer"
  | .orphan => "orphan"
  | .nowaker => "nowaker"
  | .wakefl => "wakefl"
  | .starved => "starved"
  | .dupcur => "dupcur"
  | .dupq => "dupq"
  | .qbad => "qbad"
  | .orphanNow => "orphan_now"
  | .nowakerNow => "nowaker_now"
  | .wakeflNow => "wakefl_now"
  | .scanhold1 => "scanhold1"
  | .scanhold2 => "scanhold2"
  | .lb => "lb"
  | .enqfull => "enqfull"
  | .badchan => "badchan"
  | .twc => "twc"
  | .twn => "twn"
  | .twmax => "twmax"

def width : Key → Width
  | .tick | .irqsw | .irqsw0 | .nest | .elrmm | .spsrmm | .n4 | .insched | .rsthold | .tpidrbad =>
    .cpu
  | .n2 => .n2
  | .ubrun | .ubrbl | .ubdead | .ubnone | .ubmove => .source
  | .lkph | .lkpho | .lkphrun | .lkoxp | .lkself | .lktry | .lktph | .lkstk => .lock
  | .starved => .schedClass
  | .badchan => .badchan
  | _ => .one

def isAlwaysPrinted : Key → Bool
  | .twc | .twn | .twmax => true
  | _ => false

end Key

inductive LineSrc
  | hb | g1 | panic | exc
  deriving DecidableEq, Repr

namespace LineSrc

def all : List LineSrc := [.hb, .g1, .panic, .exc]

def name : LineSrc → String
  | .hb => "hb"
  | .g1 => "g1"
  | .panic => "panic"
  | .exc => "exc"

end LineSrc

inductive LineMode
  | nonZero | full
  deriving DecidableEq, Repr

/-! ### Numbers -/

/-- The loop of `put_dec` that looks for the largest power of 10 not above `v`; it ends where the
next one does not fit in 64 bits. -/
def growDiv (v div : ℕ) : ℕ :=
  if 0 < div ∧ div * 10 < 2 ^ 64 ∧ div * 10 ≤ v then growDiv v (div * 10) else div
termination_by v - div

def putDigits (v div : ℕ) : List UInt8 :=
  digit (v / div % 10) :: if h : div ≤ 1 then [] else putDigits v (div / 10)
termination_by div

def putDec (v : UInt64) : List UInt8 := putDigits v.toNat (growDiv v.toNat 1)

def decLen (v : ℕ) : ℕ := if 10 ≤ v then decLen (v / 10) + 1 else 1

/-! ### The line -/

def prefixTokens : UInt64 := 5

/-- `clamp(1, MAX_CPUS)`. -/
def clampCpus (ncpu : ℕ) : ℕ := min (max 1 ncpu) maxCpus

/-- The length of `" name=" + values + (values - 1) commas` in `max_line_len`. -/
def maxKeyLen (key : Key) : ℕ :=
  1 + (bytes key.name).length + 1 +
    key.width.values maxCpus * decLen (2 ^ 64 - 1) + (key.width.values maxCpus - 1)

def maxLineLen : ℕ :=
  let srcLen := LineSrc.all.foldl (fun len src => max len (bytes src.name).length) 0
  let head := linePrefix.length + (bytes " v=").length + decLen schemaVersion +
    (bytes " src=").length + srcLen + (bytes " cpu=").length + decLen 255 +
    (bytes " t=").length + decLen (2 ^ 64 - 1) + (bytes " ncpu=").length + decLen maxCpus
  Key.all.foldl (fun len key => len + maxKeyLen key) head + (bytes " n=").length +
    decLen (prefixTokens.toNat + Key.all.length) + 1

section

variable (mode : LineMode) (ncpu : ℕ) (value : Key → ℕ → UInt64)

/-- Whether `write_line` leaves the key out. -/
def omitted (key : Key) : Bool :=
  mode == .nonZero && !key.isAlwaysPrinted &&
    (List.range (key.width.values ncpu)).all fun idx => value key idx == 0

def putValues (key : Key) : List UInt8 :=
  (List.range (key.width.values ncpu)).flatMap fun idx =>
    (if idx ≠ 0 then bytes "," else []) ++ putDec (value key idx)

def putKey (acc : List UInt8 × UInt64) (key : Key) : List UInt8 × UInt64 :=
  if omitted mode ncpu value key then acc
  else
    (acc.1 ++ bytes " " ++ bytes key.name ++ bytes "=" ++ putValues ncpu value key, acc.2 + 1)

end

def writeLine (src : LineSrc) (mode : LineMode) (cpu : UInt8) (t : UInt64) (ncpu : ℕ)
    (value : Key → ℕ → UInt64) : List UInt8 :=
  let n := clampCpus ncpu
  let head := linePrefix ++ bytes " v=" ++ putDec (UInt64.ofNat schemaVersion) ++ bytes " src=" ++
    bytes src.name ++ bytes " cpu=" ++ putDec cpu.toUInt64 ++ bytes " t=" ++ putDec t ++
    bytes " ncpu=" ++ putDec (UInt64.ofNat n)
  let body := Key.all.foldl (putKey mode n value) (head, prefixTokens)
  body.1 ++ bytes " n=" ++ putDec body.2 ++ bytes "\n"

end Aios.Tripwire
