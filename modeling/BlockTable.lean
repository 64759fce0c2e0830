import BlockTable.Codec.Altered
import BlockTable.Codec.Format
import BlockTable.Codec.Script
import BlockTable.Set
import BlockTable.Proofs.Slots.Cells
import BlockTable.Proofs.Slots.Circle
import BlockTable.Proofs.Slots.Homes
import BlockTable.Proofs.Slots.Gap
import BlockTable.Proofs.Growth
import BlockTable.Proofs.Slots.Labels
import BlockTable.Proofs.Table.Steps
import BlockTable.Proofs.Codec.Window
import BlockTable.Proofs.Codec.Fields
import BlockTable.Proofs.Codec.Laws
import BlockTable.Proofs.Table.Blocks
import BlockTable.Proofs.Table.Calls
import BlockTable.Proofs.Table.Dict
import BlockTable.Proofs.Table.Entries
import BlockTable.Proofs.Table.Room
import BlockTable.Proofs.Table.Refinement
import BlockTable.Proofs.Table.Listing
import BlockTable.Proofs.Table.Lawful
import BlockTable.Proofs.Table.Acts
import BlockTable.Proofs.Table.Conservation
import BlockTable.Proofs.Text.Utf8
import BlockTable.Proofs.Text.WellFormed
import BlockTable.Proofs.Table.Versions
import BlockTable.Proofs.Table.Failures
import BlockTable.Proofs.Table.Sessions
import BlockTable.Proofs.Table.FailFast
import BlockTable.Proofs.Codec.RoundTrip
import BlockTable.Proofs.Codec.Malformed
import BlockTable.Proofs.Codec.Forms
import BlockTable.Proofs.Codec.Reencoding
import BlockTable.Proofs.Codec.Footprint
import BlockTable.Proofs.Table.Framing
import BlockTable.Proofs.Table.Agreement
import BlockTable.Proofs.Table.Histories
import BlockTable.Proofs.Table.Equality
import BlockTable.Proofs.Table.ContentsHash
import BlockTable.Proofs.Set.Elements
import BlockTable.Proofs.Set.Refinement
import BlockTable.Proofs.Slots.Stopping
import BlockTable.Proofs.Slots.Shifting
import BlockTable.Proofs.Table.Tearing
import BlockTable.Proofs.Slots.Occupied
import BlockTable.Proofs.Table.Layout
import BlockTable.Proofs.Table.Iteration
import BlockTable.Proofs.Table.Resizing
import BlockTable.Proofs.Settling
import BlockTable.Proofs.Table.Steady
import BlockTable.Proofs.Table.Capacity
import BlockTable.Proofs.Cursor.Accounts
import BlockTable.Proofs.Cursor.Parts
import BlockTable.Proofs.Cursor.Confinement
import BlockTable.Proofs.Cursor.Granted
import BlockTable.Proofs.Cursor.Mirroring
