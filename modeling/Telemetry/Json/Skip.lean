import Telemetry.Json.Reader

/-!
# JSON values passed over

A value that nobody looks at only has to be well formed. Passing over it asks for less than reading it:
a string may hold half of a surrogate pair, a number may lie beyond every double, and nesting has no
limit, because nothing is kept.
-/

namespace Telemetry.Json

/-- What follows a string, after its opening quote. -/
def skipText : List Char → Option (List Char)
  | [] => none
  | '"' :: rest => some rest
  | '\\' :: 'u' :: a :: b :: c :: d :: rest =>
    if (unit? a b c d).isSome then skipText rest else none
  | '\\' :: e :: rest => if (simpleEscape? e).isSome then skipText rest else none
  | c :: rest => if c.toNat < 32 ∨ c = '\\' then none else skipText rest

mutual

/-- What follows a value, after any blanks. -/
def skipValue : (bound : Nat) → List Char → Option (List Char)
  | 0, _ => none
  | bound + 1, cs =>
    match skip cs with
    | 'n' :: 'u' :: 'l' :: 'l' :: rest => some rest
    | 't' :: 'r' :: 'u' :: 'e' :: rest => some rest
    | 'f' :: 'a' :: 'l' :: 's' :: 'e' :: rest => some rest
    | '"' :: rest => skipText rest
    | '[' :: rest =>
      match skip rest with
      | ']' :: rest => some rest
      | _ => skipItems bound rest
    | '{' :: rest =>
      match skip rest with
      | '}' :: rest => some rest
      | _ => skipMembers bound rest
    | '-' :: rest => (readNumeral rest).map (·.2)
    | cs => (readNumeral cs).map (·.2)

/-- What follows an array that has at least one more item. -/
def skipItems : (bound : Nat) → List Char → Option (List Char)
  | 0, _ => none
  | bound + 1, cs =>
    match skipValue bound cs with
    | none => none
    | some rest =>
      match skip rest with
      | ',' :: rest => skipItems bound rest
      | ']' :: rest => some rest
      | _ => none

/-- What follows an object that has at least one more member. -/
def skipMembers : (bound : Nat) → List Char → Option (List Char)
  | 0, _ => none
  | bound + 1, cs =>
    match skip cs with
    | '"' :: rest =>
      match skipText rest with
      | none => none
      | some rest =>
        match skip rest with
        | ':' :: rest =>
          match skipValue bound rest with
          | none => none
          | some rest =>
            match skip rest with
            | ',' :: rest => skipMembers bound rest
            | '}' :: rest => some rest
            | _ => none
        | _ => none
    | _ => none

end

end Telemetry.Json
