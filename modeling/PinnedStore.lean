import PinnedStore.Node.Outline
import PinnedStore.Conformance
import PinnedStore.Main
import PinnedStore.Proofs.Node.Delimited
import PinnedStore.Proofs.Storage.Refinement
import PinnedStore.Proofs.PinSet.Canonical
import PinnedStore.Proofs.PinSet.Collected
import PinnedStore.Proofs.PinSet.Unfolding
import PinnedStore.Proofs.Pin.OnePin
import PinnedStore.Proofs.Pin.Indirect
import PinnedStore.Proofs.Pin.Damage
import PinnedStore.Proofs.Pin.Apart
import PinnedStore.Proofs.Collect.Accounting
import PinnedStore.Proofs.Collect.Misplaced
import PinnedStore.Proofs.Repository.Retention
import PinnedStore.Proofs.Repository.Survival
import PinnedStore.Proofs.Pin.Listing
import PinnedStore.Proofs.Collect.Stray
import PinnedStore.Proofs.Storage.Objects
import PinnedStore.Proofs.Pin.Verify
import PinnedStore.Proofs.Node.LinkText
