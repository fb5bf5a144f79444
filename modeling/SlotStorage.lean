import SlotStorage.Config.Json
import SlotStorage.Config.Toml
import SlotStorage.Entity.Store
import SlotStorage.Record.Json
import SlotStorage.Store.Fault
import SlotStorage.Store.Memory
import SlotStorage.Proofs.Layout.SetCalls
import SlotStorage.Proofs.Layout.SetFaults
import SlotStorage.Proofs.Entity.Calls
import SlotStorage.Proofs.Entity.Inventory
import SlotStorage.Proofs.Layout.BlobEffects
import SlotStorage.Proofs.Layout.BlobFaults
import SlotStorage.Proofs.Record.Calls
import SlotStorage.Proofs.Entity.Removals
import SlotStorage.Proofs.Entity.Retries
import SlotStorage.Proofs.Layout.ArrayCalls
import SlotStorage.Proofs.Record.Exactness
import SlotStorage.Proofs.Layout.BlobTears
import SlotStorage.Proofs.Record.Tears
import SlotStorage.Proofs.Orderly
import SlotStorage.Proofs.Entity.Orderly
import SlotStorage.Proofs.Isolation
import SlotStorage.Proofs.Failures
import SlotStorage.Proofs.Derivations
import SlotStorage.Proofs.Text.Reading
import SlotStorage.Proofs.Text.Decimal
import SlotStorage.Proofs.Text.Hex
import SlotStorage.Proofs.Text.HexForms
import SlotStorage.Proofs.Json.Reading
import SlotStorage.Proofs.Json.Rows
import SlotStorage.Proofs.Json.RoundTrip
import SlotStorage.Proofs.Toml.Scalars
import SlotStorage.Proofs.Toml.Lines
import SlotStorage.Proofs.Config.Toml
import SlotStorage.Proofs.Memory
import SlotStorage.Proofs.Layout.BlobHeads
import SlotStorage.Proofs.Layout.ArrayFaults
import SlotStorage.Proofs.Layout.CursorTurns
import SlotStorage.Proofs.Entity.Schedule
import SlotStorage.Proofs.Layout.SetRetries
import SlotStorage.Proofs.Layout.SetCorruption
import SlotStorage.Proofs.Layout.Ranges
import SlotStorage.Proofs.Layout.SetClearing
import SlotStorage.Proofs.Integers
