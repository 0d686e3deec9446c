import MetaBlocks.Text.Extender
import MetaBlocks.Text.Printable

/-!
Quoted text for people to read. Quotes, backslashes and the usual controls have short escapes;
whatever does not show on its own is written by its code point. No escape holds a quote that is
not behind a backslash, and none holds a line break.
-/

set_option autoImplicit false
set_option relaxedAutoImplicit false

namespace MetaBlocks.Text

def hex (n : Nat) : List Char := Nat.toDigits 16 n

def escape (c : Char) : List Char :=
  if c = Char.ofNat 0 then ['\\', '0']
  else if c = '\t' then ['\\', 't']
  else if c = '\r' then ['\\', 'r']
  else if c = '\n' then ['\\', 'n']
  else if c = '"' then ['\\', '"']
  else if c = '\\' then ['\\', '\\']
  else if isExtender c || !isPrintable c then
    ['\\', 'u', '\x7b'] ++ hex c.toNat ++ ['\x7d']
  else [c]

def quote (s : List Char) : List Char := '"' :: s.flatMap escape ++ ['"']

end MetaBlocks.Text
