import SourceDocs.Text.Basic

/-!
Texts as UTF-8 bytes and back.
-/

namespace SourceDocs.Text

def utf8 (source : Text) : List UInt8 := source.flatMap String.utf8EncodeChar

def decode? (content : ByteArray) : Option Text := (String.fromUTF8? content).map String.toList

end SourceDocs.Text
