import Hosting.Json.Reader
import Hosting.Text.Pieces

/-! # Deployment ids

    Every deployment has an id of 128 bits, so that a context can be told from one that was
    deployed in its place. An id is written as 32 hexadecimal digits in five groups; it is
    read in that form, without the hyphens, in braces or after `urn:uuid:`.
-/

namespace Hosting

open Text

/-- What tells one deployment from another. -/
structure DeploymentId where
  bits : Nat
deriving DecidableEq, Repr

namespace DeploymentId

/-- The last `n` hexadecimal digits of a number. -/
def hexDigits : Nat → Nat → List Char
  | 0, _ => []
  | n + 1, bits => hexDigits n (bits / 16) ++ [hexDigit (bits % 16)]

/-- Groups of 8, 4, 4, 4 and 12 digits with hyphens between them. -/
def grouped (ds : List Char) : List Char :=
  joined '-' [ds.take 8, (ds.drop 8).take 4, (ds.drop 12).take 4, (ds.drop 16).take 4, ds.drop 20]

/-- The written form. -/
def text (id : DeploymentId) : String :=
  .ofList (grouped (hexDigits 32 id.bits))

/-- The value of hexadecimal digits. -/
def value? : List Char → Option Nat
  | [] => some 0
  | ds => ds.foldl (fun n c => n.bind fun n => (hexValue c).map (16 * n + ·)) (some 0)

/-- Thirty-two digits. -/
def ofDigits? (ds : List Char) : Option DeploymentId :=
  if ds.length = 32 then (value? ds).map DeploymentId.mk else none

/-- Five groups of digits. -/
def ofGroups? (cs : List Char) : Option DeploymentId :=
  let runs := pieces (· == '-') cs
  if runs.map List.length = [8, 4, 4, 4, 12] then ofDigits? runs.flatten else none

/-- Any form of an id. -/
def parse? (s : String) : Option DeploymentId :=
  let cs := s.toList
  match cs with
  | '\x7b' :: rest => if rest.getLast? = some '\x7d' then ofGroups? rest.dropLast else none
  | _ =>
    if cs.take 9 = "urn:uuid:".toList then ofGroups? (cs.drop 9)
    else (ofGroups? cs).orElse fun _ => ofDigits? cs

/-- Reads an id in any form. -/
def reader : Reader DeploymentId :=
  Json.readParsed parse?

/-- An id as it stands in a JSON text. -/
def json (id : DeploymentId) : Json :=
  .text id.text

end DeploymentId

end Hosting
