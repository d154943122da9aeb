import ClassUniverse.Describe
import ClassUniverse.Main
import ClassUniverse.Proofs.CommonAncestors
import ClassUniverse.Proofs.DeclarationOrder
import ClassUniverse.Proofs.Descriptors
import ClassUniverse.Proofs.FailedCompletions
import ClassUniverse.Proofs.FailedDeclarations
import ClassUniverse.Proofs.FailedPasses
import ClassUniverse.Proofs.InheritedMembers
import ClassUniverse.Proofs.JsonDocuments
import ClassUniverse.Proofs.LastStagePasses
import ClassUniverse.Proofs.MemberSearch
import ClassUniverse.Proofs.NameClashes
import ClassUniverse.Proofs.Nesting
import ClassUniverse.Proofs.RememberedMisses
import ClassUniverse.Proofs.RoundTrip
import ClassUniverse.Proofs.ScopeNesting
import ClassUniverse.Proofs.ScriptTermination
import ClassUniverse.Proofs.StageGates
import ClassUniverse.Proofs.StaleMetadata
import ClassUniverse.Proofs.Termination
import ClassUniverse.Proofs.ThrownTypes
import ClassUniverse.Proofs.TypeNames
import ClassUniverse.Proofs.VisibleNames
import ClassUniverse.Proofs.WiderAccess
