/-!
The text of a file, and the ways in which a file can fail to give one.
-/

set_option autoImplicit false
set_option relaxedAutoImplicit false

namespace MetaBlocks

inductive ReadFailure where
  | notFound
  | notPermitted
  | notDirectory
  | isDirectory
  /-- The bytes are not UTF-8. -/
  | notText
  /-- Anything else, in the system's words. -/
  | other (words : String)
  deriving DecidableEq, Repr, Inhabited

def ReadFailure.message : ReadFailure → String
  | notFound => "No such file or directory (os error 2)"
  | notPermitted => "Permission denied (os error 13)"
  | notDirectory => "Not a directory (os error 20)"
  | isDirectory => "Is a directory (os error 21)"
  | notText => "stream did not contain valid UTF-8"
  | other words => words

/-- What reading a file gave: its bytes, or why there are none. -/
abbrev FileBytes := Except ReadFailure ByteArray

def FileBytes.text (f : FileBytes) : Except ReadFailure (List Char) :=
  f.bind fun bytes =>
    match String.fromUTF8? bytes with
    | some s => .ok s.toList
    | none => .error .notText

end MetaBlocks
