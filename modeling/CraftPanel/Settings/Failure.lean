import CraftPanel.Model

/-!
# Refusals

`auth/error.rs`: the status, the code and the text a request is refused with; and the check of a
name, which the handlers share the shape of.
-/

namespace CraftPanel.Settings

structure Failure where
  status : Nat
  code : String
  message : String
  deriving DecidableEq

namespace Failure

def badRequest (code message : String) : Failure := ⟨400, code, message⟩

def invalidRequest (message : String) : Failure := badRequest "invalid_request" message

def notFound (code message : String) : Failure := ⟨404, code, message⟩

def conflict (code message : String) : Failure := ⟨409, code, message⟩

def internal : Failure := ⟨500, "internal", "an internal error occurred"⟩

end Failure

/-- `char::is_whitespace`: the code points with the property White_Space. -/
def isWhitespace (letter : Char) : Bool :=
  let code := letter.toNat
  (9 ≤ code && code ≤ 13) || code = 32 || code = 0x85 || code = 0xa0 || code = 0x1680 ||
    (0x2000 ≤ code && code ≤ 0x200a) || code = 0x2028 || code = 0x2029 || code = 0x202f ||
    code = 0x205f || code = 0x3000

/-- `char::is_control`: the general category Cc. -/
def isControl (letter : Char) : Bool :=
  letter.toNat ≤ 0x1f || (0x7f ≤ letter.toNat && letter.toNat ≤ 0x9f)

def trim (text : List Char) : List Char :=
  ((text.dropWhile isWhitespace).reverse.dropWhile isWhitespace).reverse

end CraftPanel.Settings
