import SlotStore.Json.Number
import SlotStore.Version
import SlotStore.Proofs.Allocator.Registry
import SlotStore.Proofs.Session.Custody
import SlotStore.Proofs.Session.Destroy
import SlotStore.Proofs.SlotList.Bench
import SlotStore.Proofs.Session.Passage
import SlotStore.Proofs.Shared.Clients
import SlotStore.Proofs.Shared.Ownership
import SlotStore.Proofs.Session.Alike
import SlotStore.Proofs.Session.Failure
import SlotStore.Proofs.Session.Interference
import SlotStore.Proofs.Allocator.Peak
import SlotStore.Proofs.Allocator.Release
import SlotStore.Proofs.Shared.Release
import SlotStore.Proofs.Session.Agenda
import SlotStore.Proofs.Toml.Numeral
import SlotStore.Proofs.Toml.Sheet
import SlotStore.Proofs.Limits.RoundTrip
import SlotStore.Proofs.Allocator.Supply
import SlotStore.Proofs.Shared.Supply
import SlotStore.Proofs.SlotList.Length
import SlotStore.Proofs.SlotList.Order
import SlotStore.Proofs.Toml.Reader
import SlotStore.Proofs.Toml.Reading
import SlotStore.Proofs.Limits.Acceptance
import SlotStore.Proofs.Limits.NormalForm
import SlotStore.Proofs.Limits.Agreement
import SlotStore.Proofs.Allocator.Journal
import SlotStore.Proofs.Session.Account
import SlotStore.Proofs.SlotList.Machine
import SlotStore.Proofs.Session.Valued
