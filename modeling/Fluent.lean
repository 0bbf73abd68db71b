import Fluent.Library.GreedyOrder
import Fluent.Library.HashContainers
import Fluent.Library.Fallible
import Fluent.Library.Worklist
import Fluent.Library.Runs
import Fluent.Library.Participants
import Fluent.Dag.KahnSort
import Fluent.Dag.DependencyGraph
import Fluent.Dag.GraphIndices
import Fluent.Dag.TopoSort
import Fluent.Dag.Dependents
import Fluent.Dag.Checkpointed
import Fluent.Dag.Registry
import Fluent.Dag.Narrowing
import Fluent.Dag.Closure
import Fluent.Dag.Resolver
import Fluent.Dag.PlanOrder
import Fluent.Dag.NarrowRound
import Fluent.Dag.NarrowFixpoint
import Fluent.Dag.HashIndependence
import Fluent.Dag.FastPath
import Fluent.Dag.ResolveAll
import Fluent.Dag.TopoSortFrom
import Fluent.Dag.TypeInference
import Fluent.WasmIpc.Frames
import Fluent.Router.DagSession
import Fluent.Router.SessionRuns
import Fluent.Router.PiiAnonymize
import Fluent.Router.CodewordAnonymize
import Fluent.Router.Streaming
import Fluent.Router.StreamAnswer
import Fluent.Router.KvCache
import Fluent.Router.SnapshotPath
import Fluent.Router.Ledger.Annotations
import Fluent.Router.Ledger.NodeIds
import Fluent.Router.Ledger.NodeWrites
import Fluent.Router.Ledger.Tiers
import Fluent.Router.Charts.Stage
import Fluent.Router.Charts.Store
import Fluent.Router.Charts.Health
import Fluent.Router.Charts.Search
import Fluent.Llm.ResidencyHolds
import Fluent.Llm.ExtractJson
import Fluent.Llm.TokenBudget
import Fluent.Llm.Sse
import Fluent.Llm.Chunks
import Fluent.Wvr.BoundaryRepair
import Fluent.Wvr.BoundaryMembers
import Fluent.Concurrency.Flow
import Fluent.Concurrency.FeedWorker
import Fluent.Concurrency.FeedCredit
import Fluent.Concurrency.FeedDrain
import Fluent.Concurrency.CreditGatedPool
import Fluent.Concurrency.PoolShutdown
import Fluent.Concurrency.PoolJobs
import Fluent.Concurrency.CreditReceipts
import Fluent.Library.Substring
import Fluent.Spacy.AllOrNothing
import Fluent.Spacy.GateLanguage
import Fluent.Spacy.DocEdges
import Fluent.Spacy.DocOrder
import Fluent.Llm.StripTags
import Fluent.Llm.AnonymizeMap
import Fluent.CommonCore.ShellParser
import Fluent.CommonCore.YagoTaxonomy
import Fluent.CommonCore.EvictionOrder
import Fluent.Coral.Reactor
import Fluent.Spacy.DocArray
import Fluent.Spacy.DocArrayWrites
import Fluent.Knowledge.CsrGraph
import Fluent.Router.Charts.Rerank
import Fluent.Router.Ledger.Overlays
import Fluent.Router.Ledger.HashUniform
import Fluent.Router.Ledger.TierWorker
import Fluent.Router.Charts.TargetOrder
import Fluent.Rdf.BlankNodes
import Fluent.Rdf.Boundaries
import Fluent.Concurrency.PriorityQueue
import Fluent.Onnx.Align
import Fluent.Ontology.Inference
import Fluent.Knowledge.WordIndex
import Fluent.Knowledge.TrigramIndex
import Fluent.Guidance.ChangeBudget
import Fluent.Guidance.WatchLoop
import Fluent.Guidance.Glob
import Fluent.CommonCore.GetOrLoad
