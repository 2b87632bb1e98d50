import PromptCompiler.Text.Basic

/-! # Texts as bytes

Files hold texts in UTF-8. Reading is strict: bytes that are not the UTF-8 form of a text are
refused, so reading accepts exactly what writing produces (`ofUtf8?_eq_some_iff`).
-/

namespace PromptCompiler.Text

def utf8 (text : Text) : ByteArray := (String.ofList text).toUTF8

/-- The text whose UTF-8 form is given, if there is one. -/
def ofUtf8? (bytes : ByteArray) : Option Text := (String.fromUTF8? bytes).map String.toList

theorem ofUtf8?_eq_some_iff (bytes : ByteArray) (text : Text) :
    ofUtf8? bytes = some text ↔ bytes = utf8 text := by
  constructor
  · intro read
    obtain ⟨string, decoded, rfl⟩ := Option.map_eq_some_iff.mp read
    unfold String.fromUTF8? at decoded
    split at decoded
    · cases decoded
      simp [utf8, String.fromUTF8]
    · cases decoded
  · rintro rfl
    have valid : (utf8 text).IsValidUTF8 := (String.ofList text).isValidUTF8
    have decoded : String.fromUTF8? (utf8 text) = some (String.ofList text) := dif_pos valid
    rw [ofUtf8?, decoded, Option.map_some, String.toList_ofList]

end PromptCompiler.Text
