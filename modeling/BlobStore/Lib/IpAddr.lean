import BlobStore.Lib.Text
import Mathlib.Data.Nat.Notation

/-!
# Texts of IP addresses

Which texts denote an IP address: four decimal numbers, or eight hexadecimal groups of which a run
of zeroes may be left out and the last two may be written as four decimal numbers.
-/

namespace IpAddr

def digitValue (radix : ℕ) (c : Char) : Option ℕ :=
  let v :=
    if '0' ≤ c ∧ c ≤ '9' then some (c.toNat - 48)
    else if 'a' ≤ c ∧ c ≤ 'f' then some (c.toNat - 87)
    else if 'A' ≤ c ∧ c ≤ 'F' then some (c.toNat - 55)
    else none
  v.filter (· < radix)

/-- Reads all digits there are, and gives what follows them. -/
def readNumber (radix maxDigits bound : ℕ) (allowZeroStart : Bool) (cs : List Char) :
    Option (List Char) :=
  let digits := cs.takeWhile fun c => (digitValue radix c).isSome
  let value := digits.foldl (fun n c => n * radix + (digitValue radix c).getD 0) 0
  if digits = [] ∨ maxDigits < digits.length ∨ bound < value ∨
      (allowZeroStart = false ∧ digits.head? = some '0' ∧ 1 < digits.length) then none
  else some (cs.drop digits.length)

def readSeparated (sep : Char) (first : Bool) (inner : List Char → Option (List Char))
    (cs : List Char) : Option (List Char) :=
  if first then inner cs
  else
    match cs with
    | []      => none
    | c :: cs => if c = sep then inner cs else none

def readOctet : List Char → Option (List Char) := readNumber 10 3 255 false

def readIpv4 (cs : List Char) : Option (List Char) :=
  readSeparated '.' true readOctet cs >>= readSeparated '.' false readOctet >>=
    readSeparated '.' false readOctet >>= readSeparated '.' false readOctet

/-- Reads up to `left` groups: how many it read, whether they end in an IPv4 address, and what
follows. -/
def readGroups : ℕ → Bool → List Char → ℕ × Bool × List Char
  | 0, _, cs         => (0, false, cs)
  | left + 1, first, cs =>
    match (if 0 < left then readSeparated ':' first readIpv4 cs else none) with
    | some rest => (2, true, rest)
    | none      =>
      match readSeparated ':' first (readNumber 16 4 65535 true) cs with
      | some rest =>
        let next := readGroups left false rest
        (next.1 + 1, next.2.1, next.2.2)
      | none      => (0, false, cs)

def readIpv6 (cs : List Char) : Option (List Char) :=
  match readGroups 8 true cs with
  | (8, _, rest)                    => some rest
  | (_, true, _)                    => none
  | (n, false, ':' :: ':' :: rest) => some (readGroups (7 - n) true rest).2.2
  | _                               => none

/-- The whole text is an address. -/
def isIpAddr (s : String) : Bool :=
  match readIpv4 (Text.chars s) with
  | some rest => rest = []
  | none      => readIpv6 (Text.chars s) = some []

end IpAddr
