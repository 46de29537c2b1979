import CraftPanel.Drive.Stock

/-!
# What comes over the line

The errors of `drive/http.rs`, and the figures and checksums in Google's answers as the panel reads
them.
-/

namespace CraftPanel.Drive

abbrev Bytes := List UInt8

/-- The two digests in hex and `str::to_lowercase`, as their crates compute them. -/
structure Crates where
  md5 : Bytes → String
  sha256 : Bytes → String
  toLowercase : List Char → List Char

inductive DriveError
  | unreachable (reason : String)
  | revoked (detail : String)
  | quotaFull (detail : String)
  | rateLimited
  | throttled (detail : String)
  | dayFull (detail : String)
  | pending (slowDown : Bool)
  | denied
  | expired
  | gone
  | sessionOver
  | abusive (detail : String)
  | refused (status : Nat) (reason detail : String)
  | cancelled
  | busy
  | unreadable (detail : String)
  | damaged (detail : String)
  | unconfirmed (detail : String)
  | replaced (detail : String)
  | setup (detail : String)
  deriving DecidableEq

/-- No two byte strings have one SHA-256, in either case of its letters. -/
def Crates.CollisionFree (crates : Crates) : Prop :=
  ∀ a b, eqIgnoreAsciiCase (crates.sha256 a).toList (crates.sha256 b).toList → a = b

/-- `str::parse::<u64>`. -/
def parseU64 (text : String) : Option Nat :=
  let digits : List Char := match text.toList with
    | '+' :: rest => rest
    | all => all
  let value := digits.foldl (fun (value : Nat) digit => 10 * value + (digit.toNat - 48)) 0
  if digits ≠ [] ∧ digits.all Char.isDigit ∧ value < 2 ^ 64 then some value else none

def number (text : Option String) : Option Nat := text.bind parseU64

def agrees (named computed : String) : Bool := eqIgnoreAsciiCase (trim named) computed.toList

end CraftPanel.Drive
