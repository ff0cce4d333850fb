import Hosting.Json.Value
import Hosting.Json.Skip

/-! # Reading JSON text as values of a known kind

    A reader takes a value off the front of a text. Readers are put together from those for
    strings, counts, truth values, options, lists and pairs, and from two that follow a
    table:

    - `record` reads an object by the names of its members, in any order and with unknown
      members between them, or an array by their positions;
    - `choice` reads a value that is one of several named cases.
-/

namespace Hosting

/-- Takes a value off the front of a text. -/
abbrev Reader (α : Type) := List Char → Except Json.Fault (α × List Char)

namespace Json

/-! ### Single values -/

/-- The fault of a text whose next value is not of the wanted kind. A value that is itself
    malformed counts as that. -/
def mismatch : List Char → Fault
  | [] => .truncated
  | 'n' :: r => fault (word ['u', 'l', 'l'] r)
  | 't' :: r => fault (word ['r', 'u', 'e'] r)
  | 'f' :: r => fault (word ['a', 'l', 's', 'e'] r)
  | '"' :: r => fault (string r)
  | '[' :: _ => .mistyped
  | '\x7b' :: _ => .mistyped
  | c :: r => if c = '-' || c.isDigit then fault (numeral (c :: r)) else .malformed
where
  /-- The fault found on the way, else the wrong kind. -/
  fault {α : Type} : Except Fault α → Fault
    | .error found => found
    | .ok _ => .mistyped

/-- A string. -/
def readText : Reader String := fun cs =>
  match afterGap cs with
  | '"' :: r => string r
  | r => .error (mismatch r)

/-- A truth value. -/
def readBool : Reader Bool := fun cs =>
  match afterGap cs with
  | 't' :: r => (word ['r', 'u', 'e'] r).map (true, ·)
  | 'f' :: r => (word ['a', 'l', 's', 'e'] r).map (false, ·)
  | r => .error (mismatch r)

/-- A count below `2 ^ 32`. -/
def readCount : Reader UInt32 := fun cs =>
  match afterGap cs with
  | [] => .error .truncated
  | c :: r =>
    if c = '-' || c.isDigit then
      match numeral (c :: r) with
      | .error fault => .error fault
      | .ok (.count n, rest) => if n < 4294967296 then .ok (.ofNat n, rest) else .error .mistyped
      | .ok (.other, _) => .error .mistyped
    else .error (mismatch (c :: r))

/-- Nothing, written `null`. -/
def readNull : Reader Unit := fun cs =>
  match afterGap cs with
  | 'n' :: r => (word ['u', 'l', 'l'] r).map ((), ·)
  | r => .error (mismatch r)

/-- A value or `null`. -/
def readOption {α : Type} (item : Reader α) : Reader (Option α) := fun cs =>
  match afterGap cs with
  | 'n' :: r => (word ['u', 'l', 'l'] r).map (none, ·)
  | r => (item r).map fun (v, rest) => (some v, rest)

/-- The value read, sent through `f`. -/
def readMap {α β : Type} (f : α → β) (item : Reader α) : Reader β := fun cs =>
  (item cs).map fun (v, rest) => (f v, rest)

/-- A string that `f` has to accept. -/
def readParsed {α : Type} (f : String → Option α) : Reader α := fun cs =>
  match readText cs with
  | .error fault => .error fault
  | .ok (s, rest) =>
    match f s with
    | some v => .ok (v, rest)
    | none => .error .mistyped

/-! ### Arrays -/

/-- Looks for the next element: its text, or nothing before the closing bracket. -/
def nextElement (first : Bool) (cs : List Char) : Except Fault (Option (List Char)) :=
  match afterGap cs with
  | [] => .error .truncated
  | ']' :: _ => .ok none
  | c :: r =>
    if first then .ok (some (c :: r))
    else if c = ',' then
      match afterGap r with
      | [] => .error .truncated
      | ']' :: _ => .error .malformed
      | r => .ok (some r)
    else .error .malformed

/-- The closing bracket. Anything in its place is malformed. -/
def closeArray (cs : List Char) : Except Fault (List Char) :=
  match afterGap cs with
  | [] => .error .truncated
  | ']' :: r => .ok r
  | _ => .error .malformed

/-- Elements before the closing bracket, at most `n`. -/
def elementSteps {α : Type} (item : Reader α) : Nat → Bool → Reader (List α)
  | 0, _, _ => .error .truncated
  | n + 1, first, cs =>
    match nextElement first cs with
    | .error fault => .error fault
    | .ok none => .ok ([], cs)
    | .ok (some r) =>
      match item r with
      | .error fault => .error fault
      | .ok (v, r) =>
        match elementSteps item n false r with
        | .error fault => .error fault
        | .ok (vs, r) => .ok (v :: vs, r)

/-- An array with elements of one kind. -/
def readList {α : Type} (item : Reader α) : Reader (List α) := fun cs =>
  match afterGap cs with
  | '[' :: r =>
    match elementSteps item (r.length + 1) true r with
    | .error fault => .error fault
    | .ok (vs, r) => (closeArray r).map (vs, ·)
  | r => .error (mismatch r)

/-- An element that has to be there. -/
def readElement {α : Type} (item : Reader α) (first : Bool) : Reader α := fun cs =>
  match nextElement first cs with
  | .error fault => .error fault
  | .ok none => .error .mistyped
  | .ok (some r) => item r

/-- An array of exactly two elements. -/
def readPair {α β : Type} (left : Reader α) (right : Reader β) : Reader (α × β) := fun cs =>
  match afterGap cs with
  | '[' :: r =>
    match readElement left true r with
    | .error fault => .error fault
    | .ok (a, r) =>
      match readElement right false r with
      | .error fault => .error fault
      | .ok (b, r) => (closeArray r).map ((a, b), ·)
  | r => .error (mismatch r)

/-! ### Records -/

/-- A member of a record: its name and how its value changes the record. -/
structure Field (α : Type) where
  name : String
  /-- A text without the member is refused. -/
  required : Bool
  read : Reader (α → α)

/-- A member whose value is stored by `set`. -/
def field {α β : Type} (name : String) (item : Reader β) (set : α → β → α) : Field α :=
  ⟨name, false, readMap (fun v r => set r v) item⟩

/-- A member that has to be there. -/
def requiredField {α β : Type} (name : String) (item : Reader β) (set : α → β → α) : Field α :=
  ⟨name, true, readMap (fun v r => set r v) item⟩

/-- A record under construction: its value so far and the names of the members seen. -/
abbrev Draft (α : Type) := α × List String

/-- Accepts a record that has all its required members. -/
def finish {α : Type} (fields : List (Field α)) (state : Draft α) : Except Fault α :=
  if fields.all fun f => !f.required || state.2.contains f.name then .ok state.1
  else .error .mistyped

/-- The colon between a key and its value. -/
def afterColon (cs : List Char) : Except Fault (List Char) :=
  match afterGap cs with
  | [] => .error .truncated
  | ':' :: r => .ok r
  | _ => .error .malformed

/-- Looks for the next key: the text after its opening quote, or nothing before the brace. -/
def nextKey (first : Bool) (cs : List Char) : Except Fault (Option (List Char)) :=
  match afterGap cs with
  | [] => .error .truncated
  | '\x7d' :: _ => .ok none
  | c :: r =>
    if first then if c = '"' then .ok (some r) else .error .malformed
    else if c = ',' then
      match afterGap r with
      | [] => .error .truncated
      | '"' :: r => .ok (some r)
      | _ => .error .malformed
    else .error .malformed

/-- One member after its opening quote. Unknown ones are skipped, known ones come once. -/
def member {α : Type} (fields : List (Field α)) (state : Draft α) : Reader (Draft α) :=
  fun cs =>
    match string cs with
    | .error fault => .error fault
    | .ok (key, r) =>
      match fields.find? (·.name == key) with
      | none =>
        match afterColon r with
        | .error fault => .error fault
        | .ok r => (skip r).map (state, ·)
      | some f =>
        if state.2.contains key then .error .mistyped
        else
          match afterColon r with
          | .error fault => .error fault
          | .ok r =>
            match f.read r with
            | .error fault => .error fault
            | .ok (update, r) => .ok ((update state.1, key :: state.2), r)

/-- Members before the closing brace, at most `n`. -/
def memberSteps {α : Type} (fields : List (Field α)) :
    Nat → Bool → Draft α → Reader (Draft α)
  | 0, _, _, _ => .error .truncated
  | n + 1, first, state, cs =>
    match nextKey first cs with
    | .error fault => .error fault
    | .ok none => .ok (state, cs)
    | .ok (some r) =>
      match member fields state r with
      | .error fault => .error fault
      | .ok (state, r) => memberSteps fields n false state r

/-- The members of a record by position. Those after the last element are not seen. -/
def positions {α : Type} : List (Field α) → Bool → Draft α → Reader (Draft α)
  | [], _, state, cs => .ok (state, cs)
  | f :: fields, first, state, cs =>
    match nextElement first cs with
    | .error fault => .error fault
    | .ok none => .ok (state, cs)
    | .ok (some r) =>
      match f.read r with
      | .error fault => .error fault
      | .ok (update, r) => positions fields false (update state.1, f.name :: state.2) r

/-- The closing brace. -/
def closeObject (cs : List Char) : Except Fault (List Char) :=
  match afterGap cs with
  | [] => .error .truncated
  | '\x7d' :: r => .ok r
  | _ => .error .malformed

/-- A record that starts as `start`: an object with members by name, or an array with members
    by position. -/
def record {α : Type} (fields : List (Field α)) (start : α) : Reader α := fun cs =>
  match afterGap cs with
  | '\x7b' :: r =>
    match memberSteps fields (r.length + 1) true (start, []) r with
    | .error fault => .error fault
    | .ok (state, r) =>
      match finish fields state with
      | .error fault => .error fault
      | .ok v => (closeObject r).map (v, ·)
  | '[' :: r =>
    match positions fields true (start, []) r with
    | .error fault => .error fault
    | .ok (state, r) =>
      match finish fields state with
      | .error fault => .error fault
      | .ok v => (closeArray r).map (v, ·)
  | r => .error (mismatch r)

/-! ### Named cases -/

/-- A case of a choice: a name alone, or a name with a value. -/
inductive Case (α : Type) where
  | plain (value : α)
  | carrying (read : Reader α)

/-- One of several named cases: `"Name"`, or an object with the name as its only key. -/
def choice {α : Type} (cases : List (String × Case α)) : Reader α := fun cs =>
  match afterGap cs with
  | [] => .error .truncated
  | '"' :: r =>
    match string r with
    | .error fault => .error fault
    | .ok (name, r) =>
      match cases.lookup name with
      | some (.plain v) => .ok (v, r)
      | _ => .error .mistyped
  | '\x7b' :: r =>
    match caseName r with
    | .error fault => .error fault
    | .ok (name, r) =>
      match cases.lookup name with
      | none => .error .mistyped
      | some body =>
        match afterColon r with
        | .error fault => .error fault
        | .ok r =>
          match content body r with
          | .error fault => .error fault
          | .ok (v, r) => (closeObject r).map (v, ·)
  | _ => .error .malformed
where
  /-- The name of a case that is the key of an object. Nothing but a string can stand there. -/
  caseName : Reader String := fun cs =>
    match afterGap cs with
    | [] => .error .truncated
    | '"' :: r => string r
    | _ => .error .malformed
  /-- The value of a case: `null` where the name says all. -/
  content {α : Type} : Case α → Reader α
    | .plain v => readMap (fun _ => v) readNull
    | .carrying read => read

/-- Reads a whole text: one value with nothing but blanks after it. -/
def readAll {α : Type} (item : Reader α) (text : String) : Except Fault α :=
  match item text.toList with
  | .error fault => .error fault
  | .ok (v, rest) => if (afterGap rest).isEmpty then .ok v else .error .malformed

end Json

end Hosting
