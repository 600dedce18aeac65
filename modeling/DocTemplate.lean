import DocTemplate.Main
import DocTemplate.Data.Keys
import DocTemplate.Template.References
import DocTemplate.Template.Suggestion
import DocTemplate.Proofs.Cache.Interleaving
import DocTemplate.Proofs.Rendering.Fallback
import DocTemplate.Proofs.Rendering.Prune
import DocTemplate.Proofs.Rendering.Similar
import DocTemplate.Proofs.Rendering.Skeleton
import DocTemplate.Proofs.Rendering.Unreferenced
import DocTemplate.Proofs.Template.Anomaly
import DocTemplate.Proofs.Template.Fixpoint
import DocTemplate.Proofs.Template.Section
import DocTemplate.Proofs.Cache.History
import DocTemplate.Proofs.Template.Mustache
import DocTemplate.Proofs.Files.Names
import DocTemplate.Proofs.Files.Overlay
import DocTemplate.Proofs.Command.Documents
import DocTemplate.Proofs.Command.Schedule
import DocTemplate.Proofs.Command.Batch
import DocTemplate.Proofs.Rendering.ElementName
import DocTemplate.Proofs.Template.Cover
import DocTemplate.Proofs.Template.Unrepaired
import DocTemplate.Proofs.Template.Unclosed
import DocTemplate.Proofs.Template.Listing
import DocTemplate.Proofs.Data.Layering
import DocTemplate.Proofs.Template.References
import DocTemplate.Proofs.Command.Coverage
import DocTemplate.Proofs.Text.Lines
import DocTemplate.Proofs.Data.Keys
import DocTemplate.Proofs.Data.Resolve
import DocTemplate.Proofs.Template.Suggestion
import DocTemplate.Proofs.Command.Strictness
