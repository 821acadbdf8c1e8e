/-
# Documents as bytes

A medium holds a document as bytes: either the pretty-printed text, for people to
read and edit, or the compact text sealed under a key. No bytes at all are the
empty document in both encodings.

Key definitions: `Bytes`, `Encoding`, `Encoding.encode`, `Encoding.decode`,
`DocumentError`.
-/
import TypedConfig.Cipher.Envelope
import TypedConfig.Document.Basic

namespace TypedConfig

/-- What a medium or a file holds. -/
abbrev Bytes := ByteArray

namespace Bytes

/-- The bytes of a text in UTF-8. -/
def ofText (text : String) : Bytes := text.toUTF8

/-- The text of bytes in UTF-8. -/
def text? (bytes : Bytes) : Option String := String.fromUTF8? bytes

/-- The bytes as a list. -/
def toBytesList (bytes : Bytes) : List UInt8 := bytes.data.toList

/-- The bytes of a list. -/
def ofBytesList (bytes : List UInt8) : Bytes := ⟨bytes.toArray⟩

end Bytes

/-- How a document is written to its medium. -/
inductive Encoding where
  /-- As pretty-printed text. -/
  | plain
  /-- As compact text, sealed under a key. -/
  | encrypted (key : CipherKey)
deriving DecidableEq

/-- Why bytes are not a document, or a document is not written. -/
inductive DocumentError where
  /-- The text is not that of a document. -/
  | malformed
  /-- The envelope cannot be made or opened. -/
  | envelope (reason : EnvelopeError)
deriving DecidableEq

/-- The wording of a document error. -/
def DocumentError.message : DocumentError → String
  | .malformed => "malformed document"
  | .envelope reason => reason.message

namespace Encoding

/-- Whether documents are written as readable text. -/
def isPlain : Encoding → Bool
  | .plain => true
  | .encrypted _ => false

/-- The extension of the files that hold documents in this encoding. -/
def extension : Encoding → String
  | .plain => "json"
  | .encrypted _ => "ejs"

/-- The layout of the document text. -/
def layout : Encoding → JsonLayout
  | .plain => .pretty
  | .encrypted _ => .compact

/-- The text that is written for a document, before it is sealed. -/
def documentText (encoding : Encoding) (d : Document) : Bytes :=
  Bytes.ofText (String.ofList (d.json encoding.layout))

/-- The bytes that are written for a document; a sealed one is sealed under `nonce`. -/
def encode (encoding : Encoding) (nonce : Nonce) (d : Document) : Except DocumentError Bytes :=
  match encoding with
  | .plain => .ok (documentText .plain d)
  | .encrypted key =>
    match key.encrypt nonce (documentText (.encrypted key) d).toBytesList with
    | .ok envelope => .ok (Bytes.ofBytesList envelope)
    | .error e => .error (.envelope e)

/-- The document text in bytes that were read: an envelope is opened. -/
def openText (encoding : Encoding) (bytes : Bytes) : Except DocumentError Bytes :=
  match encoding with
  | .plain => .ok bytes
  | .encrypted key =>
    match key.decrypt bytes.toBytesList with
    | .ok text => .ok (Bytes.ofBytesList text)
    | .error e => .error (.envelope e)

/-- The document that a text in bytes spells. -/
def readDocument (bytes : Bytes) : Except DocumentError Document :=
  match bytes.text? with
  | some text => orError .malformed (Document.ofText? text.toList)
  | none => .error .malformed

/-- The document in bytes that were read. -/
def decode (encoding : Encoding) (bytes : Bytes) : Except DocumentError Document :=
  if bytes.size = 0 then .ok SortedMap.empty
  else
    match encoding.openText bytes with
    | .ok text => readDocument text
    | .error e => .error e

end Encoding

end TypedConfig
