import Firestone.Lib.Bytes

/-!
# Bytes as text

`fromUtf8` reads bytes that are text, and nothing else; it reads the bytes of a text back.
-/

namespace Firestone.Lib

/-- `str::from_utf8`. -/
def fromUtf8 (data : Bytes) : Option String := String.fromUTF8? (ByteArray.mk data.toArray)

theorem toByteArray_bytes (text : String) : ByteArray.mk (bytes text).toArray = text.toByteArray := by
  rw [bytes, Array.toArray_toList]
  rfl

theorem fromUtf8_bytes (text : String) : fromUtf8 (bytes text) = some text := by
  rw [fromUtf8, toByteArray_bytes, String.fromUTF8?, dif_pos text.isValidUTF8]
  rfl

theorem length_bytes (text : String) : (bytes text).length = text.utf8ByteSize := by
  rw [bytes, Array.length_toList]
  rfl

theorem utf8ByteSize_spaces : ∀ n : Nat, (String.ofList (List.replicate n ' ')).utf8ByteSize = n
  | 0 => rfl
  | n + 1 => by
    rw [List.replicate_succ', String.ofList_append, String.utf8ByteSize_append, utf8ByteSize_spaces n]
    rfl

end Firestone.Lib
