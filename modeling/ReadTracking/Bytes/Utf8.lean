/-!
# Texts as bytes

The UTF-8 bytes of a text, and the text of bytes that are valid UTF-8.  Reading gives back what
was written (`text?_utf8`), so different texts have different bytes.
-/

set_option autoImplicit false

namespace ReadTracking

def utf8 (s : String) : List UInt8 := s.toUTF8.data.toList

def text? (bytes : List UInt8) : Option String := String.fromUTF8? ⟨bytes.toArray⟩

@[simp] theorem text?_utf8 (s : String) : text? (utf8 s) = some s := by
  have h : (⟨(utf8 s).toArray⟩ : ByteArray) = s.toByteArray := by
    simp [utf8, String.toUTF8]
  rw [text?, h, String.fromUTF8?, dif_pos s.isValidUTF8]
  rfl

theorem utf8_inj {s t : String} : utf8 s = utf8 t ↔ s = t := by
  constructor
  · intro h
    have := congrArg text? h
    simpa using this
  · exact fun h => h ▸ rfl

end ReadTracking
