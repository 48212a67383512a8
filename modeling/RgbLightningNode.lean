import RgbLightningNode.Snapshot.Unsaved
import RgbLightningNode.Snapshot.Preference
import RgbLightningNode.Snapshot.Receipts
import RgbLightningNode.Snapshot.Pause
import RgbLightningNode.Snapshot.Atomic
import RgbLightningNode.Snapshot.Serde
import RgbLightningNode.Snapshot.Scopes
import RgbLightningNode.Snapshot.SyncView
import RgbLightningNode.Shutdown.Terminal
import RgbLightningNode.Shutdown.Fence
import RgbLightningNode.Session.Draining
import RgbLightningNode.Signer.Revocation
import RgbLightningNode.Signer.AttachmentProtocol
import RgbLightningNode.Handles.TeardownOrder
import RgbLightningNode.Restore.Containment
import RgbLightningNode.Restore.Binding
import RgbLightningNode.Bip322.Canonical
import RgbLightningNode.JsonBoundary.Burn
import RgbLightningNode.JsonBoundary.Assignment
import RgbLightningNode.JsonBoundary.Bip322Request
import RgbLightningNode.Provenance.Fingerprint
import RgbLightningNode.Provenance.Manifest
import RgbLightningNode.Provenance.Adapter
import RgbLightningNode.Provenance.Graph
import RgbLightningNode.Android.Relro
import RgbLightningNode.Android.Restaging
import RgbLightningNode.Distribution.Rerun
