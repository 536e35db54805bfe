import Ikigai.CapabilityNarrowing
import Ikigai.ScopeProcess
import Ikigai.SealedNames
import Ikigai.SealCompleteness
import Ikigai.SealOwners
import Ikigai.NoStaleServe
import Ikigai.CandidateKept
import Ikigai.FloorMemoRuns
import Ikigai.InvocationTree
import Ikigai.WriteCoherence
import Ikigai.FailureHonesty
import Ikigai.DynamicDoors
import Ikigai.Revalidation
import Ikigai.ActingPrincipal
import Ikigai.AliasChains
import Ikigai.AliasRoundTrip
import Ikigai.LimitedNames
import Ikigai.UpstreamFlow
import Ikigai.CatalogNodes
import Ikigai.TurtleWriting
import Ikigai.CatalogTurtle
import Ikigai.AliasConfluence
import Ikigai.ContractIri
import Ikigai.ContractIdentity
import Ikigai.IdentityBytes
import Ikigai.TemplateMatching
import Ikigai.CacheBytes
import Ikigai.ScanKept
import Ikigai.BudgetTree
import Ikigai.Conformance
import Ikigai.TransreptionPlan
import Ikigai.SubclassClosure
import Ikigai.StreamText
import Ikigai.StoreBooks
import Ikigai.CutWindows
import Ikigai.Confinement
import Ikigai.Forwarding
import Ikigai.AliasViews
import Ikigai.NamedRequests
import Ikigai.ForwardFaces
import Ikigai.FrequencySketch
import Ikigai.PlanIris
import Ikigai.EndpointWrappers
import Ikigai.SettledReferences
import Ikigai.CutReach
import Ikigai.TemplatePieces
import Ikigai.CapturedReferences
import Ikigai.AttachedBodies
import Ikigai.Explain
import Ikigai.FaceGraphs
import Ikigai.Validation
import Ikigai.StackLoops
import Ikigai.DeclaredSpaces
import Ikigai.DeclarationBounds
import Ikigai.MarkedReading
import Ikigai.DeclarationReader
import Ikigai.DeclarationSizes
import Ikigai.DeclarationCells
import Ikigai.DeclarationClaims
import Ikigai.BuildAcceptance
