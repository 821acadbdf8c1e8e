/-
# Commands to a store

The operations on an open store as data, so that a sequence of them can be run and
spoken about. A workspace is a store with the media that it is kept on and the
nonces that its saves draw from.

Key definitions: `Workspace`, `StoreCommand`, `StoreReply`, `Workspace.perform`,
`Workspace.run`.
-/
import TypedConfig.Cipher.Nonces
import TypedConfig.Store.Opening
import TypedConfig.Store.Saving
import TypedConfig.Store.Typed

namespace TypedConfig

/-- A store, the media, and the nonces that are left. -/
structure Workspace where
  store : Store
  media : Media
  nonces : NonceSupply := {}

/-- An operation on an open store. -/
inductive StoreCommand where
  | get (t : SettingType) (key : String) (default : t.Val)
  | put (t : SettingType) (key : String) (v : t.Val)
  | putValue (key : String) (value : Value)
  | remove (key : String)
  | clear
  | save
  | close
  | setAutoPopulate (on : Bool)
  | setEnumCache (on : Bool)

/-- What an operation on a store answers. -/
inductive StoreReply where
  | typed (t : SettingType) (v : t.Val)
  /-- Whether the entry is written differently than before. -/
  | changed (yes : Bool)
  /-- The value that was there. -/
  | removed (value? : Option Value)
  /-- Whether anything was written. -/
  | saved (yes : Bool)
  /-- There was something to do and it was done. -/
  | cleared
  | nothing
  | refused (reason : StoreError)

namespace Workspace

/-- Opens a store on the media. -/
def opened (o : OpenOptions) (env : Environment) (media : Media) (nonces : NonceSupply) :
    Except StoreError Workspace :=
  (Store.opened o env media).map fun store => { store, media, nonces }

/-- The answer to a change of the store, and the workspace after it. A refused one changes
nothing. -/
def settled {α : Type} (w : Workspace) (reply : α → StoreReply) :
    Except StoreError (α × Store) → StoreReply × Workspace
  | .ok (a, store) => (reply a, { w with store })
  | .error e => (.refused e, w)

/-- Saves the store. -/
def save (w : Workspace) : Except StoreError Bool × Workspace :=
  let (nonce, nonces) := w.nonces.next
  let (result, store, media) := w.store.save nonce w.media
  (result, { store, media, nonces })

/-- Carries out an operation. -/
def perform (w : Workspace) : StoreCommand → StoreReply × Workspace
  | .get t key default =>
    let (v, store) := w.store.get t key default
    (.typed t v, { w with store })
  | .put t key v => w.settled .changed (w.store.put t key v)
  | .putValue key value => w.settled .changed (w.store.putValue key value)
  | .remove key => w.settled .removed (w.store.remove key)
  | .clear => w.settled (fun () => .cleared) (w.store.clear.map fun store => ((), store))
  | .save =>
    match w.save with
    | (.ok wrote, w) => (.saved wrote, w)
    | (.error e, w) => (.refused e, w)
  | .close => (.nothing, { w with store := w.store.close })
  | .setAutoPopulate on => (.nothing, { w with store := { w.store with autoPopulate := on } })
  | .setEnumCache on => (.nothing, { w with store := { w.store with enumCache := on } })

/-- Carries out operations one after another. -/
def run (w : Workspace) : List StoreCommand → List StoreReply × Workspace
  | [] => ([], w)
  | c :: rest =>
    let (reply, w) := w.perform c
    let (replies, w) := w.run rest
    (reply :: replies, w)

end Workspace

end TypedConfig
