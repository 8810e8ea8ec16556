import Chronicle.Command.Script
import Chronicle.Main
import Chronicle.Notes
import Chronicle.Poll.Trial
import Chronicle.Sampling
import Chronicle.Text.Numbered
import Chronicle.Proofs.Log.Storing
import Chronicle.Proofs.Projection.Overtaking
import Chronicle.Proofs.Projection.Serving
import Chronicle.Proofs.Feed.Replaying
import Chronicle.Proofs.Command.Processing
import Chronicle.Proofs.Log.Decoding
import Chronicle.Proofs.Projection.Answering
import Chronicle.Proofs.Feed.Resuming
import Chronicle.Proofs.Command.Working
import Chronicle.Proofs.Command.Recording
import Chronicle.Proofs.Projection.Publishing
import Chronicle.Proofs.Projection.Lookups
import Chronicle.Proofs.Command.Visibility
import Chronicle.Proofs.Projection.Evicting
import Chronicle.Proofs.Banking.Opening
import Chronicle.Proofs.Codec.Exact
import Chronicle.Proofs.Codec.Nesting
import Chronicle.Proofs.Event.Stored
import Chronicle.Proofs.Banking.Stored
import Chronicle.Proofs.Command.Awaiting
import Chronicle.Proofs.Command.Submitting
import Chronicle.Proofs.Feed.Passing
import Chronicle.Proofs.Feed.Observing
import Chronicle.Proofs.Projection.Delivering
import Chronicle.Proofs.Projection.Founding
import Chronicle.Proofs.Feed.Sourcing
import Chronicle.Proofs.Projection.Grounding
import Chronicle.Proofs.Banking.Balances
import Chronicle.Proofs.Banking.Conserving
import Chronicle.Proofs.Command.Containing
import Chronicle.Proofs.Banking.Dialogue
import Chronicle.Proofs.Projection.Remembering
import Chronicle.Proofs.Feed.Waking
import Chronicle.Proofs.Projection.Attaching
import Chronicle.Proofs.Feed.Cancelling
import Chronicle.Proofs.Command.Dispatching
import Chronicle.Proofs.Feed.Polling
import Chronicle.Proofs.Log.Calls
import Chronicle.Proofs.Log.Likeness
import Chronicle.Proofs.Projection.Redelivering
import Chronicle.Proofs.Projection.Bounding
import Chronicle.Proofs.Retrying
import Chronicle.Proofs.Feed.Resting
import Chronicle.Proofs.Projection.Rewriting
import Chronicle.Proofs.Combining
import Chronicle.Proofs.Addressing
import Chronicle.Proofs.Event.Registering
import Chronicle.Proofs.Event.Batches
