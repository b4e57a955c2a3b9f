import Outbox.Blob.Texts
import Outbox.Error
import Outbox.Message

/-!
The binary form of a message: the columns of its key, headers, body and topic, one after the other.
-/

namespace Outbox.Message

/-- The binary form with the headers in that order. -/
def blobWith (m : Message) (headers : List (String × String)) : List UInt8 :=
  Blob.writeTexts [m.key] ++ Blob.writeLengths [headers.length] ++
    Blob.writeTexts (headers.map Prod.fst) ++ Blob.writeTexts (headers.map Prod.snd) ++
    Blob.writeLengths [m.body.length] ++ Blob.writeBytes m.body ++ Blob.writeTexts [m.topic]

/-- The headers may stand in any order. -/
def IsBlob (m : Message) (bytes : List UInt8) : Prop :=
  ∃ headers, headers.Perm m.headers.entries ∧ bytes = m.blobWith headers

def blob (m : Message) : List UInt8 := m.blobWith m.headers.entries

theorem isBlob_blob (m : Message) : m.IsBlob m.blob := ⟨_, .refl _, rfl⟩

/-- A way of writing messages, which settles the order of the headers. -/
structure Encoding where
  write : Message → List UInt8
  isBlob_write : ∀ m : Message, m.IsBlob (write m)

def Encoding.sorted : Encoding := ⟨blob, isBlob_blob⟩

def reader : Blob.Reader Message := do
  let key ← Blob.readText
  let count ← Blob.readLength
  let names ← Blob.readTexts count
  let values ← Blob.readTexts count
  let size ← Blob.readLength
  let body ← Blob.readBytes size
  let topic ← Blob.readText
  return { topic, key, body, headers := .ofList (names.zip values) }

def ofBlob (bytes : List UInt8) : Except BlobError Message := reader.readAll bytes

def decode (bytes : List UInt8) : Except OutboxError Message := (ofBlob bytes).mapError .unreadable

end Outbox.Message
