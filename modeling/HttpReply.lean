import HttpReply.Value
import HttpReply.Headers.Edit
import HttpReply.Headers.Lemmas
import HttpReply.Source.Act
import HttpReply.Source.Lemmas
import HttpReply.Response.Step
import HttpReply.Response.Lemmas
import HttpReply.Message.Handoff
import HttpReply.Proofs.Body
import HttpReply.Proofs.ContentLength
import HttpReply.Proofs.Layers
import HttpReply.Proofs.SourceCalls
import HttpReply.Proofs.Grouping
import HttpReply.Proofs.Handoff
import HttpReply.Proofs.History
import HttpReply.Proofs.LengthField
import HttpReply.Proofs.Refusal
import HttpReply.Proofs.Construction
import HttpReply.Proofs.Equality
import HttpReply.Proofs.Interleaving
import HttpReply.Proofs.Log
import HttpReply.Proofs.Chunking
import HttpReply.Proofs.Transparency
import HttpReply.Proofs.Rebuilding
import HttpReply.Proofs.Collection
import HttpReply.Proofs.HandoffOrder
import HttpReply.Proofs.Commutation
import HttpReply.Proofs.HandoffAfterWrites
import HttpReply.Proofs.StandardSources
import HttpReply.Proofs.Inspection
import HttpReply.Proofs.Identification
