/-
# Saving

A save first claims the changes that are not written yet; without any it is done
and the medium is left alone. Otherwise it takes the document and the set mark
together, publishes that mark, and writes. If the writing fails, the write mark
goes back to where the claim found it, so the next save tries again.

Key definitions: `Store.encoded`, `Store.settle`, `Store.save`.
-/
import TypedConfig.Store.Basic

namespace TypedConfig
namespace Store

/-- The bytes of the document as it stands. -/
def encoded (s : Store) (nonce : Nonce) : Except StoreError Bytes :=
  match s.encoding.encode nonce s.entries with
  | .ok bytes => .ok bytes
  | .error e => .error (.document e)

/-- Writes bytes to the store's medium. -/
def writeBytes (s : Store) (bytes : Bytes) (media : Media) : Except StoreError Unit × Media :=
  match media.write s.location bytes with
  | (.ok (), media) => (.ok (), media)
  | (.error e, media) => (.error (.medium s.location e), media)

/-- Writes the document as it stands. -/
def writeOut (s : Store) (nonce : Nonce) (media : Media) : Except StoreError Unit × Media :=
  match s.encoded nonce with
  | .ok bytes => s.writeBytes bytes media
  | .error e => (.error e, media)

/-- Ends a save that raised the write mark from `previous` to `published`. -/
def settle (s : Store) (published previous : UInt64) (written : Except StoreError Unit) :
    Except StoreError Bool × Store :=
  match written with
  | .ok () => (.ok true, s)
  | .error e => (.error e, { s with marks := s.marks.rollback published previous })

/-- Writes the document if it changed since it was last written. Says whether it was. -/
def save (s : Store) (nonce : Nonce) (media : Media) : Except StoreError Bool × Store × Media :=
  if s.closed then (.error .closed, s, media)
  else
    match s.marks.claim with
    | (none, _) => (.ok false, s, media)
    | (some previous, marks) =>
      let snapshot := marks.set
      let s := { s with marks := marks.publish snapshot }
      let (written, media) := s.writeOut nonce media
      let (result, s) := s.settle snapshot previous written
      (result, s, media)

end Store
end TypedConfig
