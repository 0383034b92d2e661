/-!
# Identifiers

* `Identifier.ofNumber`, an identifier in the form of a random UUID, made from 122 bits.
-/

namespace CodeCoach.Identifier

/-- The last `width` hexadecimal digits of a number. -/
def hexDigits : Nat → Nat → List Char
  | 0, _ => []
  | width + 1, n => hexDigits width (n / 16) ++ Nat.toDigits 16 (n % 16)

/-- The identifier that holds the last 122 bits of a number. Its third group begins with the version
4, and its fourth with one of the digits from 8 to b. -/
def ofNumber (n : Nat) : String :=
  String.ofList
    (hexDigits 8 (n >>> 90) ++ '-' :: hexDigits 4 (n >>> 74) ++
      '-' :: '4' :: hexDigits 3 (n >>> 62) ++
      '-' :: hexDigits 1 (8 + (n >>> 60) % 4) ++ hexDigits 3 (n >>> 48) ++
      '-' :: hexDigits 12 n)

end CodeCoach.Identifier
