import MemberDoc.CommandLine.Run
import MemberDoc.Main
import MemberDoc.Proofs.MergedBlock
import MemberDoc.Proofs.Masking
import MemberDoc.Proofs.MemberCode
import MemberDoc.Proofs.RepeatedUpdate
import MemberDoc.Proofs.ReopenedBlock
import MemberDoc.Proofs.BlockPlacement
import MemberDoc.Proofs.ClassMention
import MemberDoc.Proofs.ScopeLines
import MemberDoc.Proofs.BesideClass
import MemberDoc.Proofs.MemberLanding
import MemberDoc.Proofs.MergedComment
import MemberDoc.Proofs.MergeOrder
import MemberDoc.Proofs.TargetGroups
import MemberDoc.Proofs.Ancestry
import MemberDoc.Proofs.ProcessingOrder
import MemberDoc.Proofs.DryRun
import MemberDoc.Proofs.ClassSpelling
import MemberDoc.Proofs.ConfigRoundTrip
import MemberDoc.Proofs.DeclaredMembers
import MemberDoc.Proofs.CanonicalOrder
import MemberDoc.Proofs.DescribedMember
import MemberDoc.Proofs.HiddenContent
import MemberDoc.Proofs.NestedCode
import MemberDoc.Proofs.AncestorChain
import MemberDoc.Proofs.AttachedBlock
import MemberDoc.Proofs.GutterLayout
import MemberDoc.Proofs.TargetPartition
import MemberDoc.Proofs.UpdateEffects
import MemberDoc.Proofs.EditSteps
import MemberDoc.Proofs.NearestConfig
import MemberDoc.Proofs.MaskedBytes
import MemberDoc.Proofs.BraceMatching
import MemberDoc.Proofs.TransparentGap
import MemberDoc.Proofs.PromotedParameters
