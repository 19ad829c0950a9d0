import ZorinTrust.Lib.CText
import ZorinTrust.Lib.Numeral
import ZorinTrust.Lib.Delimited
import ZorinTrust.Lib.Lines
import ZorinTrust.Lib.Machine
import ZorinTrust.Lib.FileSys
import ZorinTrust.Lib.Buffer
import ZorinTrust.Lib.Search
import ZorinTrust.Lib.Packed
import ZorinTrust.Lib.Leb128
import ZorinTrust.Lib.Calls
import ZorinTrust.Lib.Raster
import ZorinTrust.Codec
import ZorinTrust.HexText
import ZorinTrust.Service
import ZorinTrust.Registry
import ZorinTrust.PairCode
import ZorinTrust.UiBridge
import ZorinTrust.OwnerProof
import ZorinTrust.ProofGate
import ZorinTrust.ProofTranscript
import ZorinTrust.Endpoint
import ZorinTrust.Session
import ZorinTrust.Worker
import ZorinTrust.Stretches
import ZorinTrust.Effects
import ZorinTrust.Provenance
import ZorinTrust.Displayed
import ZorinTrust.Portable
import ZorinTrust.Revocation
import ZorinTrust.Activity
import ZorinTrust.System
import ZorinTrust.Requests
import ZorinTrust.Authorization
import ZorinTrust.Forgetting
import ZorinTrust.Handshake
import ZorinTrust.Segmentation
import ZorinTrust.RoundTrip
import ZorinTrust.TornRead
import ZorinTrust.Mailbox
import ZorinTrust.Bridge
import ZorinTrust.RegistrySet
import ZorinTrust.RegistryFailures
import ZorinTrust.PrefCalls
import ZorinTrust.Acceptance
import ZorinTrust.ProofOutcome
import ZorinTrust.ProofExpiry
import ZorinTrust.SessionExits
import ZorinTrust.Lifecycle
import ZorinTrust.PrivateIpv4
import ZorinTrust.DeepLink
import ZorinTrust.DirectRoundTrip
import ZorinTrust.Routine
import ZorinTrust.EndpointSelection
import ZorinTrust.Paired
import ZorinTrust.UiChanges
import ZorinTrust.PendingRequests
import ZorinTrust.Drawing
import ZorinTrust.ProductPages
import ZorinTrust.ScreenTaps
import ZorinTrust.FrameField
import ZorinTrust.Interfaces
import ZorinTrust.DexInvoke
import ZorinTrust.DexRoundTrip
import ZorinTrust.Report
import ZorinTrust.BridgeField
import ZorinTrust.PrivilegeDiff
import ZorinTrust.TokenStore
import ZorinTrust.ApkCoverage
import ZorinTrust.ManifestRoundTrip
