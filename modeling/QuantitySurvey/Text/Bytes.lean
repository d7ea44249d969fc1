/-! # Texts as bytes

Files hold bytes, which stand for a text if they are its UTF-8 form. `ofBytes?_bytes` and
`bytes_of_ofBytes?` say that the two directions undo each other. -/

set_option autoImplicit false

namespace QuantitySurvey.Text

/-- The UTF-8 form of a text. -/
def bytes (s : String) : List UInt8 := s.toByteArray.data.toList

/-- The text with a given UTF-8 form. -/
def ofBytes? (bs : List UInt8) : Option String := String.fromUTF8? ⟨bs.toArray⟩

@[simp] theorem ofBytes?_bytes (s : String) : ofBytes? (bytes s) = some s := by
  have h : (⟨(bytes s).toArray⟩ : ByteArray) = s.toByteArray := by simp [bytes]
  unfold ofBytes? String.fromUTF8?
  rw [h, dif_pos s.isValidUTF8]
  rfl

theorem bytes_of_ofBytes? {bs : List UInt8} {s : String} (h : ofBytes? bs = some s) :
    bytes s = bs := by
  simp only [ofBytes?, String.fromUTF8?] at h
  split at h
  · cases h
    simp [bytes, String.fromUTF8]
  · cases h

/-- The text of bytes, with something else for every run of bytes beyond ASCII that stands for
nothing. Bytes of ASCII are characters whatever is around them. -/
def ofBytesOr (stray : String) (bs : List UInt8) : String :=
  let runs := bs.splitBy fun b c => decide (b < 128) == decide (c < 128)
  (ofBytes? bs).getD (String.join (runs.map fun run => (ofBytes? run).getD stray))

theorem ofBytesOr_of_ofBytes? {bs : List UInt8} {s : String} (h : ofBytes? bs = some s)
    (stray : String) : ofBytesOr stray bs = s := by
  rw [ofBytesOr, h]
  rfl

def lineFeed : UInt8 := 10

/-- A space, tab, line feed, form feed or carriage return. -/
def isBlankByte (b : UInt8) : Bool :=
  b == 32 || b == 9 || b == 10 || b == 12 || b == 13

end QuantitySurvey.Text
