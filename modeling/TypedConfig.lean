import TypedConfig.Session.Delivery
import TypedConfig.Settings.File
import TypedConfig.Proofs.Sharing.Alone
import TypedConfig.Proofs.Sharing.Saving
import TypedConfig.Proofs.Binary.Rounding
import TypedConfig.Proofs.Binary.Shortest
import TypedConfig.Proofs.Json.Numeral
import TypedConfig.Proofs.Json.Spelling
import TypedConfig.Proofs.Cipher.Envelope
import TypedConfig.Proofs.Document.RoundTrip
import TypedConfig.Proofs.Medium.Writing
import TypedConfig.Proofs.Store.Reopening
import TypedConfig.Proofs.Schema.Uncached
import TypedConfig.Proofs.Document.Decoded
import TypedConfig.Proofs.Store.Uncached
import TypedConfig.Proofs.Registry.Uncached
import TypedConfig.Session.Command
import TypedConfig.Proofs.Session.Uncached
import TypedConfig.Proofs.Session.Cache
import TypedConfig.Proofs.Schema.Validation
import TypedConfig.Proofs.Store.Tally
import TypedConfig.Proofs.Store.Gating
import TypedConfig.Proofs.Registry.Writing
import TypedConfig.Proofs.Session.Telling
import TypedConfig.Proofs.Session.Reading
import TypedConfig.Proofs.Registry.Guarding
import TypedConfig.Proofs.Session.Guarding
import TypedConfig.Proofs.Document.Settling
import TypedConfig.Proofs.Text.ByteOrder
import TypedConfig.Proofs.Document.Text
import TypedConfig.Proofs.Store.Admission
import TypedConfig.Proofs.Sharing.Schedules
import TypedConfig.Proofs.Store.ReadingBack
import TypedConfig.Proofs.Sharing.Reading
import TypedConfig.Proofs.Document.Members
import TypedConfig.Proofs.Schema.Integers
import TypedConfig.Proofs.Schema.Alike
import TypedConfig.Proofs.Schema.Narrowing
import TypedConfig.Proofs.Store.WritingBack
import TypedConfig.Proofs.Value.Offences
import TypedConfig.Proofs.Binary.Ordering
import TypedConfig.Proofs.Schema.Ranges
import TypedConfig.Proofs.Schema.Soundness
import TypedConfig.Proofs.Store.Independence
import TypedConfig.Proofs.Registry.Registering
import TypedConfig.Proofs.Sharing.Registration
import TypedConfig.Proofs.Store.Layering
import TypedConfig.Proofs.Session.Closing
import TypedConfig.Proofs.Settings.NamedStores
import TypedConfig.Proofs.Cipher.Sealing
import TypedConfig.Proofs.Sharing.Claims
import TypedConfig.Proofs.Settings.Text
import TypedConfig.Proofs.Medium.Replacing
