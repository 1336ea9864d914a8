import Hanko.Impl.Protocol
import Hanko.Impl.Strings

/-!
# Dependencies of a module (`cve/watcher.go`)

`ParseGoMod` reads a go.mod file line by line, as `bufio.Scanner` delivers it.
-/

namespace Hanko

open Bytes

structure Dep where
  name : Bytes
  version : Bytes
deriving DecidableEq

/-- A file that was opened: what it delivers, and the error that ends it, if
any. -/
structure GoModFile where
  text : Bytes
  readErr : Option GoError

/-- `bufio.ScanLines`, without the carriage return. -/
def dropCR (line : Bytes) : Bytes := if line.getLast? = some 13 then line.dropLast else line

/-- The lines of a text. There is none after a last line break. -/
def scanLines (text : Bytes) : List Bytes :=
  let lines := text.splitOn 10
  if lines.getLast? = some [] then lines.dropLast else lines

/-- `bufio.MaxScanTokenSize`: a line of this length does not fit. -/
def maxScanTokenSize : Nat := 65536

/-- `bufio.ErrTooLong`. -/
def errTooLong : GoError := .text (lit "bufio.Scanner: token too long")

def parseDep (line : Bytes) : Option Dep :=
  let line :=
    match index (lit "//") line with
    | some idx => trimSpace (line.take idx)
    | none => line
  match fields line with
  | name :: version :: _ => some ⟨name, version⟩
  | _ => none

/-- The variables of the loop of `ParseGoMod`. -/
structure ParseState where
  moduleName : Bytes
  deps : List Dep
  inRequireBlock : Bool

/-- One turn of the loop. -/
def parseLine (s : ParseState) (text : Bytes) : ParseState :=
  let line := trimSpace text
  if (lit "module ").isPrefixOf line then { s with moduleName := trimSpace (line.drop (lit "module ").length) }
  else if line = lit "require (" then { s with inRequireBlock := true }
  else if s.inRequireBlock ∧ line = lit ")" then { s with inRequireBlock := false }
  else if (lit "require ").isPrefixOf line then
    { s with deps := s.deps ++ (parseDep (line.drop (lit "require ").length)).toList }
  else if s.inRequireBlock then { s with deps := s.deps ++ (parseDep line).toList }
  else s

/-- `ParseGoMod`, given what `os.Open` returns. -/
def parseGoMod : Except GoError GoModFile → Except GoError (Bytes × List Dep)
  | .error err => .error (err.wrap "open go.mod")
  | .ok f =>
    let lines := scanLines f.text
    if lines.any fun line => maxScanTokenSize ≤ line.length then .error (errTooLong.wrap "scan go.mod")
    else
      match f.readErr with
      | some err => .error (err.wrap "scan go.mod")
      | none =>
        let s := lines.foldl (fun s line => parseLine s (dropCR line)) ⟨[], [], false⟩
        .ok (s.moduleName, s.deps)

end Hanko
