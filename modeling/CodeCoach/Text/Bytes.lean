import CodeCoach.Text.Line

/-!
# Texts in UTF-8

* `Text.bytes`, the bytes of a text;
* `Text.ofBytes?`, the text that bytes stand for, if they are valid UTF-8;
* `Text.ofBytes?_eq_some_iff`: it is the one with these bytes.
-/

namespace CodeCoach.Text

/-- The bytes of a text in UTF-8. -/
def bytes (cs : List Char) : List UInt8 := cs.flatMap String.utf8EncodeChar

/-- The text that bytes stand for, if they are valid UTF-8. -/
def ofBytes? (bs : List UInt8) : Option (List Char) :=
  bs.toByteArray.utf8Decode?.map Array.toList

theorem bytes_cons (c : Char) (cs : List Char) :
    bytes (c :: cs) = String.utf8EncodeChar c ++ bytes cs := List.flatMap_cons

theorem bytes_append (a b : List Char) : bytes (a ++ b) = bytes a ++ bytes b :=
  List.flatMap_append

theorem length_bytes (cs : List Char) : (bytes cs).length = byteLength cs := by
  induction cs with
  | nil => rfl
  | cons c cs ih =>
    rw [bytes_cons, List.length_append, String.length_utf8EncodeChar, ih, byteLength]

theorem ofBytes?_bytes (cs : List Char) : ofBytes? (bytes cs) = some cs := by
  have hencode : (bytes cs).toByteArray = cs.utf8Encode := rfl
  rw [ofBytes?, hencode, List.utf8Decode?_utf8Encode]
  rfl

theorem bytes_of_ofBytes? {bs : List UInt8} {cs : List Char} (h : ofBytes? bs = some cs) :
    bytes cs = bs := by
  obtain ⟨chars, hchars, rfl⟩ := Option.map_eq_some_iff.1 h
  have hsome : bs.toByteArray.utf8Decode?.isSome := by rw [hchars, Option.isSome_some]
  have hencode := ByteArray.utf8Encode_get_utf8Decode? (h := hsome)
  simp only [hchars, Option.get_some] at hencode
  simpa [List.utf8Encode, bytes, List.data_toByteArray] using
    congrArg (fun b => b.data.toList) hencode

/-- Bytes stand for the text whose bytes they are. -/
theorem ofBytes?_eq_some_iff {bs : List UInt8} {cs : List Char} :
    ofBytes? bs = some cs ↔ bytes cs = bs :=
  ⟨bytes_of_ofBytes?, fun h => h ▸ ofBytes?_bytes cs⟩

end CodeCoach.Text
