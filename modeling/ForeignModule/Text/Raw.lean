import ForeignModule.Text.Utf8

/-!
# Raw texts

What the system takes for a text is bytes, and nobody asks whether these are one. A text goes over as
its bytes. To be shown, a raw text becomes a text again; what is none in it is replaced, so that two raw
texts may be shown alike.
-/

namespace ForeignModule

/-- What the system takes for a text. -/
abbrev RawText := List UInt8

instance : Coe String RawText := ⟨Text.bytes⟩

namespace RawText

/-- Texts, as they go over to the system. -/
def ofTexts (texts : List String) : List RawText := texts.map Text.bytes

/-- The text that a raw text is, if it is one. -/
def text? (t : RawText) : Option String := Text.decode? t

/-- The text that a raw text is shown as. -/
def shown (t : RawText) : String := Text.decodeLossy t

end RawText

end ForeignModule
