import Mathlib.Algebra.Ring.Int.Defs
import QuotaManager.Logic.Text

/-! `cgroup.go`: which processes are killed with a cgroup. File contents are bytes. -/

namespace QuotaManager

/-- What `unicode.IsSpace` accepts, in UTF-8. -/
def unicodeSpaces : Spaces UInt8 where
  words := [[0x09], [0x0a], [0x0b], [0x0c], [0x0d], [0x20], [0xc2, 0x85], [0xc2, 0xa0], [0xe1, 0x9a, 0x80], [0xe2, 0x80, 0x80],
    [0xe2, 0x80, 0x81], [0xe2, 0x80, 0x82], [0xe2, 0x80, 0x83], [0xe2, 0x80, 0x84], [0xe2, 0x80, 0x85], [0xe2, 0x80, 0x86],
    [0xe2, 0x80, 0x87], [0xe2, 0x80, 0x88], [0xe2, 0x80, 0x89], [0xe2, 0x80, 0x8a], [0xe2, 0x80, 0xa8], [0xe2, 0x80, 0xa9],
    [0xe2, 0x80, 0xaf], [0xe2, 0x81, 0x9f], [0xe3, 0x80, 0x80]]
  nonempty := by decide
  apart := by decide +kernel

/-- `strings.TrimSpace`. -/
def trimSpace (text : List UInt8) : List UInt8 := unicodeSpaces.trim text

def digit (byte : UInt8) : Option Nat := if 48 ≤ byte ∧ byte ≤ 57 then some (byte.toNat - 48) else none

/-- Goes on with a number that is read digit by digit. -/
def natural : List UInt8 → Nat → Option Nat
  | [], value => some value
  | byte :: rest, value =>
    match digit byte with
    | none => none
    | some next => natural rest (value * 10 + next)

/-- What follows the sign, for an `int` of 64 bits. -/
def signed (negative : Bool) (digits : List UInt8) : Option Int :=
  if digits = [] then none
  else
    match natural digits 0 with
    | none => none
    | some value =>
      let number : Int := if negative then -value else value
      if -2 ^ 63 ≤ number ∧ number < 2 ^ 63 then some number else none

/-- `strconv.Atoi`. -/
def atoi (text : List UInt8) : Option Int :=
  match text with
  | 43 :: rest => signed false rest
  | 45 :: rest => signed true rest
  | _ => signed false text

/-- The lines of a file; the last one need not be ended. -/
def splitLines : List UInt8 → List (List UInt8)
  | [] => []
  | byte :: rest =>
    if byte = 10 then [] :: splitLines rest
    else
      match splitLines rest with
      | [] => [[byte]]
      | line :: more => (byte :: line) :: more

/-- A carriage return belongs to the end of the line. -/
def dropCR (line : List UInt8) : List UInt8 := if line.getLast? = some 13 then line.dropLast else line

def maxScanTokenSize : Nat := 64 * 1024

inductive KillError where
  | unopened
  | tokenTooLong
  deriving DecidableEq

/-- `KillCgroupProcs` on the content of `cgroup.procs`: the arguments of the calls to
`kill`, in order, and the error. A line that is too long ends the scan. -/
def killCgroupProcs (procs : Option (List UInt8)) : List Int × Option KillError :=
  match procs with
  | none => ([], some .unopened)
  | some content =>
    let fits (line : List UInt8) : Bool := line.length < maxScanTokenSize
    let scanned := (splitLines content).takeWhile fits
    let pids := scanned.filterMap fun line =>
      let pidStr := trimSpace (dropCR line)
      if pidStr = [] then none else atoi pidStr
    (pids, if (splitLines content).all fits then none else some .tokenTooLong)

end QuotaManager
