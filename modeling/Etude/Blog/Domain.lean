import Etude.Base.Json
import Mathlib.Data.Int.Notation

/-!
# Domain — the articles of the blog and their JSON form

The model of `Domain.hs`.  How an `Integer` is read from a JSON number is the library's: an
instance that the results below assume to read back what is written.
-/

namespace Etude
namespace Blog

open Base

structure Article where
  id : ℤ
  title : String
  bodyText : String
  deriving DecidableEq, Repr

instance : ToJSON ℤ where
  toJSON n := .number n 0

instance : ToJSON Article where
  toJSON a := .object (fromFields
    [("id", toJSON a.id), ("title", toJSON a.title), ("bodyText", toJSON a.bodyText)])

section Parse

variable [FromJSON ℤ]

/-- `parseJSON`, which has no equation for a value that is not an object. -/
def Article.parseJSON : Value → Option (Parser Article)
  | .object v => some do
      -- An article that is posted has no id yet: `.:? "id" .!= 0`.
      let id ← optField v "id"
      let title ← field v "title"
      let bodyText ← field v "bodyText"
      return { id := id.getD 0, title := title, bodyText := bodyText }
  | _ => none

/-- `decode`; `none` if `parseJSON` fails to match. -/
def decodeArticle (text : JsonText) (bytes : List UInt8) : Option (Option Article) :=
  match text.decodeValue bytes with
  | none => some none
  | some v => (Article.parseJSON v).map Except.toOption

/-! ## Reading back -/

/-- Integers are read back. -/
def IntegersReadBack : Prop :=
  ∀ n : ℤ, FromJSON.parseJSON (toJSON n) = (.ok n : Parser ℤ)

theorem Article.parseJSON_toJSON (hint : IntegersReadBack) (a : Article) :
    Article.parseJSON (toJSON a) = some (.ok a) := by
  have hid : optField (fromFields [("id", toJSON a.id), ("title", toJSON a.title),
      ("bodyText", toJSON a.bodyText)]) "id" = (.ok (some a.id) : Parser (Option ℤ)) := by
    rw [optField_of_lookup (by rw [lookup_fromFields]; rfl)]
    exact parseJSON_some (by simp [toJSON]) (hint a.id)
  have htitle : field (fromFields [("id", toJSON a.id), ("title", toJSON a.title),
      ("bodyText", toJSON a.bodyText)]) "title" = (.ok a.title : Parser String) := by
    rw [field_of_lookup (by rw [lookup_fromFields]; rfl)]
    rfl
  have hbody : field (fromFields [("id", toJSON a.id), ("title", toJSON a.title),
      ("bodyText", toJSON a.bodyText)]) "bodyText" = (.ok a.bodyText : Parser String) := by
    rw [field_of_lookup (by rw [lookup_fromFields]; rfl)]
    rfl
  change some _ = _
  rw [hid, htitle, hbody]
  rfl

theorem decodeArticle_encode (hint : IntegersReadBack) {text : JsonText} {a : Article}
    (h : text.ReadsBack (toJSON a)) : decodeArticle text (text.encode a) = some (some a) := by
  have hvalue : text.decodeValue (text.encode a) = some (toJSON a) := h
  rw [decodeArticle, hvalue]
  simp only [Article.parseJSON_toJSON hint]
  rfl

end Parse

end Blog
end Etude
