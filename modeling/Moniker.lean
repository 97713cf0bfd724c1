import Moniker.Main
import Moniker.Host.Tree
import Moniker.Proofs.Interleaving
import Moniker.Proofs.Murmur
import Moniker.Proofs.Name
import Moniker.Proofs.Order
import Moniker.Proofs.Metadata
import Moniker.Proofs.Registry
import Moniker.Proofs.Session
import Moniker.Proofs.Listing
import Moniker.Proofs.Requests
import Moniker.Proofs.Fleet
import Moniker.Proofs.MapEquality
import Moniker.Proofs.MetadataEquality
import Moniker.Proofs.Merging
import Moniker.Proofs.Preloading
import Moniker.Proofs.Verification
import Moniker.Proofs.Literals
import Moniker.Proofs.LookUps
import Moniker.Proofs.Mismatches
import Moniker.Proofs.Preferences
import Moniker.Proofs.Output
import Moniker.Proofs.Hashing
import Moniker.Proofs.Containers
import Moniker.Proofs.Mixing
import Moniker.Proofs.Collisions
import Moniker.Proofs.Polynomial
import Moniker.Proofs.Scalars
import Moniker.Proofs.Sharing
import Moniker.Proofs.Conversions
import Moniker.Proofs.SetUp
import Moniker.Proofs.Lines
